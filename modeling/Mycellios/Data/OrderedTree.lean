import Mathlib

namespace Mycellios.Data

open List

structure OrderedTree (ν : Type*) where
  root : ν
  children : ν → List ν
  depth : ν → Nat

variable {ν : Type*}

namespace OrderedTree

/-- The nodes are exactly those below the root, each under one parent. -/
structure Wf (t : OrderedTree ν) (nodes : List ν) : Prop where
  nodup : nodes.Nodup
  root_mem : t.root ∈ nodes
  children_mem : ∀ p ∈ nodes, ∀ c ∈ t.children p, c ∈ nodes
  parent : ∀ v ∈ nodes, v ≠ t.root → ∃ p ∈ nodes, v ∈ t.children p
  children_nodup : ∀ p ∈ nodes, (t.children p).Nodup
  parent_unique : ∀ p ∈ nodes, ∀ q ∈ nodes, ∀ v, v ∈ t.children p → v ∈ t.children q → p = q
  depth_root : t.depth t.root = 0
  depth_child : ∀ p ∈ nodes, ∀ c ∈ t.children p, t.depth c = t.depth p + 1

/-- The nodes behind a node while each has one child, in so many steps. -/
def chain (t : OrderedTree ν) : Nat → ν → Option (List ν)
  | 0, _ => none
  | fuel + 1, cursor =>
    match t.children cursor with
    | [only] => (t.chain fuel only).map (only :: ·)
    | _ => some []

inductive Chain (t : OrderedTree ν) : ν → List ν → Prop
  | stop {v : ν} : (t.children v).length ≠ 1 → Chain t v []
  | step {v w : ν} {rest : List ν} : t.children v = [w] → Chain t w rest → Chain t v (w :: rest)

theorem chain_eq_some {t : OrderedTree ν} (h : t.chain fuel v = some rest) : t.Chain v rest := by
  induction fuel generalizing v rest with
  | zero => cases h
  | succ fuel ih =>
    rw [chain] at h
    split at h
    next w only =>
      obtain ⟨rest, below, rfl⟩ := Option.map_eq_some_iff.mp h
      exact .step only (ih below)
    next other =>
      obtain rfl := Option.some.inj h
      refine .stop fun one => ?_
      obtain ⟨w, only⟩ := length_eq_one_iff.mp one
      exact other w only

namespace Wf

variable {t : OrderedTree ν} {nodes : List ν} (wf : t.Wf nodes)

include wf

theorem root_not_child (mem : p ∈ nodes) : t.root ∉ t.children p := by
  intro child
  have := wf.depth_child p mem _ child
  rw [wf.depth_root] at this
  omega

theorem nodup_children {parents : List ν} (distinct : parents.Nodup)
    (mem : ∀ p ∈ parents, p ∈ nodes) : (parents.flatMap t.children).Nodup := by
  refine nodup_flatMap.mpr ⟨fun p listed => wf.children_nodup p (mem p listed), ?_⟩
  refine distinct.imp_of_mem fun {p q} hp hq other => ?_
  exact fun c child child' => other (wf.parent_unique p (mem p hp) q (mem q hq) c child child')

theorem exists_depth (mem : v ∈ nodes) (le : d ≤ t.depth v) : ∃ u ∈ nodes, t.depth u = d := by
  induction depth : t.depth v generalizing v with
  | zero => exact ⟨v, mem, by omega⟩
  | succ n ih =>
    by_cases here : d = t.depth v
    · exact ⟨v, mem, here.symm⟩
    have inner : v ≠ t.root := by
      rintro rfl
      have := wf.depth_root
      omega
    obtain ⟨p, above, child⟩ := wf.parent v mem inner
    have := wf.depth_child p above v child
    exact ih above (by omega) (by omega)

theorem depth_lt (mem : v ∈ nodes) : t.depth v < nodes.length := by
  have all : List.range (t.depth v + 1) ⊆ nodes.map t.depth := by
    intro d small
    obtain ⟨u, above, rfl⟩ := wf.exists_depth mem (Nat.lt_succ_iff.mp (mem_range.mp small))
    exact mem_map_of_mem above
  have := (nodup_range.subperm all).length_le
  rw [length_range, length_map] at this
  omega

theorem chain_ends (mem : v ∈ nodes) (enough : nodes.length ≤ t.depth v + fuel) :
    ∃ rest, t.chain fuel v = some rest := by
  induction fuel generalizing v with
  | zero =>
    have := wf.depth_lt mem
    omega
  | succ fuel ih =>
    rw [chain]
    split
    next w only =>
      have child : w ∈ t.children v := only ▸ mem_singleton_self w
      have deeper := wf.depth_child v mem w child
      obtain ⟨rest, below⟩ := ih (wf.children_mem v mem w child) (by omega)
      exact ⟨w :: rest, by rw [below, Option.map_some]⟩
    next => exact ⟨[], rfl⟩

end Wf

namespace Chain

variable {t : OrderedTree ν} {v : ν} {rest : List ν} (chain : t.Chain v rest)

include chain

theorem only_child (mem : w ∈ rest) : ∃ u ∈ v :: rest, t.children u = [w] := by
  induction chain with
  | stop => cases mem
  | @step v w' rest only _ ih =>
    rcases mem_cons.mp mem with rfl | mem
    · exact ⟨v, mem_cons_self, only⟩
    · obtain ⟨u, above, below⟩ := ih mem
      exact ⟨u, mem_cons_of_mem _ above, below⟩

theorem isChain : List.IsChain (fun a b => t.children a = [b]) (v :: rest) := by
  induction chain with
  | stop => exact List.IsChain.singleton _
  | step only _ ih => exact isChain_cons_cons.mpr ⟨only, ih⟩

theorem last_children : (t.children (rest.getLastD v)).length ≠ 1 := by
  induction chain with
  | stop many => exact many
  | @step v w rest _ _ ih => rwa [getLastD_cons]

theorem child_mem (mem : u ∈ v :: rest) (child : c ∈ t.children u) :
    c ∈ rest ∨ u = rest.getLastD v := by
  induction chain with
  | stop => exact .inr (mem_singleton.mp mem)
  | @step v w rest only _ ih =>
    rw [getLastD_cons]
    rcases mem_cons.mp mem with rfl | mem
    · rw [only, mem_singleton] at child
      exact .inl (child ▸ mem_cons_self)
    · exact (ih mem).imp_left (mem_cons_of_mem _)

theorem eq_last (mem : u ∈ v :: rest) (none : t.children u = []) : u = rest.getLastD v := by
  induction chain with
  | stop => exact mem_singleton.mp mem
  | @step v w rest only _ ih =>
    rw [getLastD_cons]
    rcases mem_cons.mp mem with rfl | mem
    · rw [only] at none
      cases none
    · exact ih mem

theorem mem_nodes (wf : t.Wf nodes) (mem : v ∈ nodes) : ∀ w ∈ rest, w ∈ nodes := by
  induction chain with
  | stop => simp
  | @step v w rest only _ ih =>
    have below := wf.children_mem v mem w (only ▸ mem_singleton_self w)
    exact forall_mem_cons.mpr ⟨below, ih below⟩

theorem depth_getElem (wf : t.Wf nodes) (mem : v ∈ nodes)
    (h : i < (v :: rest).length) : t.depth (v :: rest)[i] = t.depth v + i := by
  induction chain generalizing i with
  | stop =>
    obtain rfl : i = 0 := by simpa using h
    rfl
  | @step v w rest only _ ih =>
    cases i with
    | zero => rfl
    | succ i =>
      have child : w ∈ t.children v := only ▸ mem_singleton_self w
      have := wf.depth_child v mem w child
      rw [getElem_cons_succ, ih (wf.children_mem v mem w child) (by simpa using h)]
      omega

end Chain

end OrderedTree

structure Limb (ν : Type*) where
  parent : ν
  first : ν
  rest : List ν

variable {l : Limb ν}

namespace Limb

def nodes (l : Limb ν) : List ν := l.first :: l.rest

def last (l : Limb ν) : ν := l.rest.getLastD l.first

theorem last_mem (l : Limb ν) : l.last ∈ l.nodes := by
  rw [last, nodes, getLastD_eq_getLast?]
  cases h : l.rest.getLast? with
  | none => exact mem_cons_self
  | some v => exact mem_cons_of_mem _ (mem_of_getLast? h)

structure Maximal (t : OrderedTree ν) (l : Limb ν) : Prop where
  child : l.first ∈ t.children l.parent
  chain : t.Chain l.first l.rest

theorem Maximal.mem_nodes {nodes : List ν} (wf : t.Wf nodes)
    (max : l.Maximal t) (parent : l.parent ∈ nodes) : ∀ v ∈ l.nodes, v ∈ nodes := by
  have first := wf.children_mem _ parent _ max.child
  exact forall_mem_cons.mpr ⟨first, max.chain.mem_nodes wf first⟩

theorem Maximal.depth_lt {nodes : List ν} (wf : t.Wf nodes) (max : l.Maximal t)
    (parent : l.parent ∈ nodes) (mem : v ∈ l.nodes) : t.depth l.parent < t.depth v := by
  obtain ⟨i, small, rfl⟩ := mem_iff_getElem.mp mem
  have first := wf.children_mem _ parent _ max.child
  have here : t.depth l.nodes[i] = t.depth l.first + i := max.chain.depth_getElem wf first small
  rw [here, wf.depth_child _ parent _ max.child]
  omega

theorem Maximal.parent_mem {nodes : List ν} (wf : t.Wf nodes) (max : l.Maximal t)
    (parent : l.parent ∈ nodes) (mem : c ∈ l.rest) (above : p ∈ nodes) (child : c ∈ t.children p) :
    p ∈ l.nodes ∧ t.children p = [c] := by
  obtain ⟨u, inside, only⟩ := max.chain.only_child mem
  obtain rfl := wf.parent_unique p above u (max.mem_nodes wf parent u inside) c child
    (only ▸ mem_singleton_self c)
  exact ⟨inside, only⟩

theorem nodup_last {limbs : List (Limb ν)} (h : (limbs.flatMap nodes).Nodup) :
    (limbs.map last).Nodup := by
  induction limbs with
  | nil => exact nodup_nil
  | cons l limbs ih =>
    rw [flatMap_cons, nodup_append'] at h
    refine nodup_cons.mpr ⟨fun mem => ?_, ih h.2.1⟩
    obtain ⟨m, listed, same⟩ := mem_map.mp mem
    exact h.2.2 l.last_mem (mem_flatMap.mpr ⟨m, listed, same ▸ m.last_mem⟩)

end Limb

namespace OrderedTree

structure Upper (t : OrderedTree ν) (nodes part : List ν) : Prop where
  nodup : part.Nodup
  mem : ∀ v ∈ part, v ∈ nodes
  up : ∀ p ∈ nodes, ∀ c ∈ t.children p, c ∈ part → p ∈ part

variable {t : OrderedTree ν} {nodes part : List ν} (wf : t.Wf nodes)

include wf

theorem Upper.disjoint (upper : t.Upper nodes part) (max : l.Maximal t)
    (parent : l.parent ∈ part) (fresh : l.first ∉ part) : ∀ v ∈ l.nodes, v ∉ part := by
  have first := wf.children_mem _ (upper.mem _ parent) _ max.child
  obtain ⟨p, v, rest⟩ := l
  have chain := max.chain
  clear max parent
  simp only [Limb.nodes] at *
  induction chain with
  | stop => simpa using fresh
  | @step v w rest only _ ih =>
    have child : w ∈ t.children v := only ▸ mem_singleton_self w
    have below :=
      ih (fun mem => fresh (upper.up v first w child mem)) (wf.children_mem v first w child)
    exact forall_mem_cons.mpr ⟨fresh, below⟩

theorem nodup_chain (chain : t.Chain v rest) (mem : v ∈ nodes) : (v :: rest).Nodup := by
  rw [nodup_iff_injective_getElem]
  intro i j same
  have depths := congrArg t.depth same
  simp only [chain.depth_getElem wf mem] at depths
  omega

theorem Upper.append (upper : t.Upper nodes part) (max : l.Maximal t)
    (parent : l.parent ∈ part) (fresh : l.first ∉ part) : t.Upper nodes (part ++ l.nodes) where
  nodup := by
    have first := wf.children_mem _ (upper.mem _ parent) _ max.child
    refine upper.nodup.append (nodup_chain wf max.chain first) ?_
    exact fun v old new => upper.disjoint wf max parent fresh v new old
  mem := by
    intro v mem
    rcases List.mem_append.mp mem with old | new
    · exact upper.mem v old
    · exact max.mem_nodes wf (upper.mem _ parent) v new
  up := by
    intro p above c child mem
    rcases List.mem_append.mp mem with old | new
    · exact mem_append_left _ (upper.up p above c child old)
    rcases mem_cons.mp new with rfl | new
    · rw [wf.parent_unique p above _ (upper.mem _ parent) _ child max.child]
      exact mem_append_left _ parent
    · exact mem_append_right _ (max.parent_mem wf (upper.mem _ parent) new above child).1

theorem Upper.append_all (upper : t.Upper nodes part) {limbs : List (Limb ν)}
    (max : ∀ l ∈ limbs, l.Maximal t) (parent : ∀ l ∈ limbs, l.parent ∈ part)
    (fresh : ∀ l ∈ limbs, l.first ∉ part) (distinct : (limbs.map Limb.first).Nodup) :
    t.Upper nodes (part ++ limbs.flatMap Limb.nodes) := by
  induction limbs generalizing part with
  | nil => simpa using upper
  | cons l limbs ih =>
    obtain ⟨maxHere, max⟩ := forall_mem_cons.mp max
    obtain ⟨parentHere, parent⟩ := forall_mem_cons.mp parent
    obtain ⟨freshHere, fresh⟩ := forall_mem_cons.mp fresh
    obtain ⟨other, distinct⟩ := nodup_cons.mp distinct
    have disjoint := upper.disjoint wf maxHere parentHere freshHere
    rw [flatMap_cons, ← append_assoc]
    refine ih (upper.append wf maxHere parentHere freshHere) max
      (fun m mem => mem_append_left _ (parent m mem)) (fun m mem bad => ?_) distinct
    rcases List.mem_append.mp bad with old | new
    · exact fresh m mem old
    rcases mem_cons.mp new with same | new
    · exact other (same ▸ mem_map_of_mem mem)
    -- its parent, a node of the part, would be in the new chain
    · have inside :=
        maxHere.parent_mem wf (upper.mem _ parentHere) new (upper.mem _ (parent m mem))
          (max m mem).child
      exact disjoint m.parent inside.1 (parent m mem)

/-- A part that is explored but for the children of a frontier. -/
structure Cut (t : OrderedTree ν) (nodes part frontier : List ν) :
    Prop extends t.Upper nodes part where
  root : t.root ∈ part
  frontier_nodup : frontier.Nodup
  frontier_mem : ∀ p ∈ frontier, p ∈ part
  down : ∀ v ∈ part, v ∉ frontier → ∀ c ∈ t.children v, c ∈ part
  above : ∀ p ∈ frontier, ∀ c ∈ t.children p, c ∉ part

omit wf in
theorem Cut.perm {part' frontier : List ν} (cut : t.Cut nodes part frontier)
    (same : part.Perm part') : t.Cut nodes part' frontier where
  nodup := same.nodup_iff.mp cut.nodup
  mem := fun v mem => cut.mem v (same.mem_iff.mpr mem)
  up := fun p above c child mem => same.mem_iff.mp (cut.up p above c child (same.mem_iff.mpr mem))
  root := same.mem_iff.mp cut.root
  frontier_nodup := cut.frontier_nodup
  frontier_mem := fun p mem => same.mem_iff.mp (cut.frontier_mem p mem)
  down := fun v mem out c child => same.mem_iff.mp (cut.down v (same.mem_iff.mpr mem) out c child)
  above := fun p mem c child known => cut.above p mem c child (same.mem_iff.mpr known)

omit wf in
theorem Cut.init (wf : t.Wf nodes) : t.Cut nodes [t.root] [t.root] where
  nodup := nodup_singleton _
  mem := by simpa using wf.root_mem
  up := by
    intro p mem c child root
    exact absurd (mem_singleton.mp root ▸ child) (wf.root_not_child mem)
  root := mem_singleton_self _
  frontier_nodup := nodup_singleton _
  frontier_mem := fun _ mem => mem
  down := fun v mem out => absurd mem out
  above := by
    intro p mem c child root
    rw [mem_singleton] at mem root
    subst mem
    exact wf.root_not_child wf.root_mem (root ▸ child)

section Advance

variable {frontier : List ν} (cut : t.Cut nodes part frontier) {limbs : List (Limb ν)}
  (max : ∀ l ∈ limbs, l.Maximal t) (parents : ∀ l ∈ limbs, l.parent ∈ frontier)
  (distinct : (limbs.map Limb.first).Nodup)

include cut max parents distinct

theorem Cut.upper_advance : t.Upper nodes (part ++ limbs.flatMap Limb.nodes) :=
  cut.toUpper.append_all wf max (fun l mem => cut.frontier_mem _ (parents l mem))
    (fun l mem => cut.above _ (parents l mem) _ (max l mem).child) distinct

theorem Cut.advance (all : ∀ p ∈ frontier, ∀ c ∈ t.children p, ∃ l ∈ limbs, l.first = c)
    {next : List ν}
    (ends : next.Perm ((limbs.map Limb.last).filter fun v => 1 < (t.children v).length)) :
    t.Cut nodes (part ++ limbs.flatMap Limb.nodes) next where
  toUpper := cut.upper_advance wf max parents distinct
  root := mem_append_left _ cut.root
  frontier_nodup := by
    have upper := cut.upper_advance wf max parents distinct
    have lasts := Limb.nodup_last (nodup_append'.mp upper.nodup).2.1
    exact ends.nodup_iff.mpr (lasts.filter _)
  frontier_mem := by
    intro v mem
    obtain ⟨listed, -⟩ := List.mem_filter.mp (ends.mem_iff.mp mem)
    obtain ⟨l, known, rfl⟩ := mem_map.mp listed
    exact mem_append_right _ (mem_flatMap.mpr ⟨l, known, l.last_mem⟩)
  down := by
    intro v mem out c child
    rcases List.mem_append.mp mem with old | new
    · by_cases edge : v ∈ frontier
      · obtain ⟨l, mem, rfl⟩ := all v edge c child
        exact mem_append_right _ (mem_flatMap.mpr ⟨l, mem, mem_cons_self⟩)
      · exact mem_append_left _ (cut.down v old edge c child)
    obtain ⟨l, known, inside⟩ := mem_flatMap.mp new
    rcases (max l known).chain.child_mem inside child with rest | rfl
    · exact mem_append_right _ (mem_flatMap.mpr ⟨l, known, mem_cons_of_mem _ rest⟩)
    -- the last node of a chain that is not in the next frontier has no child
    · have other := (max l known).chain.last_children
      have some := length_pos_of_mem child
      refine absurd (ends.mem_iff.mpr (List.mem_filter.mpr ⟨mem_map_of_mem known, ?_⟩)) out
      rw [Limb.last]
      exact decide_eq_true (by omega)
  above := by
    intro v mem c child known
    have upper := cut.upper_advance wf max parents distinct
    obtain ⟨listed, many⟩ := List.mem_filter.mp (ends.mem_iff.mp mem)
    have many := of_decide_eq_true many
    obtain ⟨l, here, rfl⟩ := mem_map.mp listed
    have fresh : l.last ∉ part := fun old => (nodup_append'.mp upper.nodup).2.2 old
      (mem_flatMap.mpr ⟨l, here, l.last_mem⟩)
    have inside : l.last ∈ nodes :=
      (max l here).mem_nodes wf (cut.mem _ (cut.frontier_mem _ (parents l here))) _ l.last_mem
    rcases List.mem_append.mp known with old | new
    · exact fresh (cut.up _ inside c child old)
    obtain ⟨m, listed, new⟩ := mem_flatMap.mp new
    have edge := cut.frontier_mem _ (parents m listed)
    rcases mem_cons.mp new with rfl | rest
    · exact fresh (wf.parent_unique _ inside _ (cut.mem _ edge) _ child (max m listed).child ▸ edge)
    have only := ((max m listed).parent_mem wf (cut.mem _ edge) rest inside child).2
    rw [only] at many
    exact absurd many (Nat.lt_irrefl 1)

omit wf cut parents distinct in
theorem mem_leaves_advance (before : ∀ v, v ∈ leaves ↔ v ∈ part ∧ t.children v = [])
    (v : ν) : v ∈ leaves ++ (limbs.map Limb.last).filter (fun v => (t.children v).isEmpty) ↔
      v ∈ part ++ limbs.flatMap Limb.nodes ∧ t.children v = [] := by
  rw [List.mem_append, before, List.mem_append, List.mem_filter, List.isEmpty_iff]
  constructor
  · rintro (⟨old, none⟩ | ⟨ending, none⟩)
    · exact ⟨.inl old, none⟩
    · obtain ⟨l, mem, rfl⟩ := mem_map.mp ending
      exact ⟨.inr (mem_flatMap.mpr ⟨l, mem, l.last_mem⟩), none⟩
  rintro ⟨old | new, none⟩
  · exact .inl ⟨old, none⟩
  obtain ⟨l, mem, inside⟩ := mem_flatMap.mp new
  refine .inr ⟨?_, none⟩
  rw [(max l mem).chain.eq_last inside none]
  exact mem_map_of_mem mem

end Advance

theorem Cut.complete (cut : t.Cut nodes part []) : part.Perm nodes := by
  refine (perm_ext_iff_of_nodup cut.nodup wf.nodup).mpr fun v => ⟨cut.mem v, fun mem => ?_⟩
  induction depth : t.depth v using Nat.strong_induction_on generalizing v with
  | _ n ih =>
    by_cases root : v = t.root
    · exact root ▸ cut.root
    obtain ⟨p, above, child⟩ := wf.parent v mem root
    have deeper := wf.depth_child p above v child
    exact cut.down p (ih _ (by omega) p above rfl) not_mem_nil v child

end OrderedTree

end Mycellios.Data
