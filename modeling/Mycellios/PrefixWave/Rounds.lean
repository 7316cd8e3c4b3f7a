import Mycellios.Data.Pointwise
import Mycellios.PrefixWave.Execution

namespace Mycellios.PrefixWave

open Data List Logic

variable {ν : Type} {t : OrderedTree ν} {st st' : Planner ν} {lanes : Lanes ν}
  {slots : List (ν × ν)} {index : Nat} {specs : List (SegmentSpec ν)} {new : List (Segment ν)}

structure Segment.Of (t : OrderedTree ν) (spec : SegmentSpec ν) (s : Segment ν) : Prop where
  lane : s.lane = spec.lane
  parent : s.parent = spec.limb.parent
  nodes : s.nodes = spec.limb.nodes

structure Emitted (t : OrderedTree ν) (index : Nat) (st st' : Planner ν)
    (specs : List (SegmentSpec ν)) (new : List (Segment ν)) : Prop where
  operations : st'.operations = st.operations ++ new.map .segment
  segments : st'.segments = st.segments ++ new
  forks : st'.forks = st.forks
  laneOf : st'.laneOf = st.laneOf
  nextLane : st'.nextLane = st.nextLane
  index : ∀ s ∈ new, s.frontierIndex = index
  specs : List.Forall₂ (Segment.Of t) specs new

theorem Emitted.refl (t : OrderedTree ν) (index : Nat) (st : Planner ν) :
    Emitted t index st st [] [] where
  operations := by simp
  segments := by simp
  forks := rfl
  laneOf := rfl
  nextLane := rfl
  index := by simp
  specs := .nil

theorem Emitted.trans
    (h : Emitted t index st st' specs new) (h' : Emitted t index st' st'' specs' new') :
    Emitted t index st st'' (specs ++ specs') (new ++ new') where
  operations := by rw [h'.operations, h.operations, map_append, append_assoc]
  segments := by rw [h'.segments, h.segments, append_assoc]
  forks := h'.forks.trans h.forks
  laneOf := h'.laneOf.trans h.laneOf
  nextLane := h'.nextLane.trans h.nextLane
  index := by
    intro s mem
    exact (mem_append.mp mem).elim (h.index s) (h'.index s)
  specs := rel_append h.specs h'.specs

theorem emitSegments_spec (t : OrderedTree ν) (index groupId : Nat)
    (specs : List (SegmentSpec ν)) (st : Planner ν) :
    ∃ new, Emitted t index st (specs.foldl (emitSegment t index groupId) st) specs new := by
  induction specs generalizing st with
  | nil => exact ⟨[], .refl t index st⟩
  | cons spec specs ih =>
    obtain ⟨new, emitted⟩ := ih (emitSegment t index groupId st spec)
    have first : Emitted t index st (emitSegment t index groupId st spec) [spec] [_] :=
      ⟨rfl, rfl, rfl, rfl, rfl, by simp, .cons ⟨rfl, rfl, rfl⟩ .nil⟩
    exact ⟨_, first.trans emitted⟩

theorem emitGroups_spec (index : Nat) (chunks : List (List (SegmentSpec ν))) (st : Planner ν) :
    ∃ new, Emitted t index st (emitGroups t index chunks st) chunks.flatten new := by
  induction chunks generalizing st with
  | nil => exact ⟨[], .refl t index st⟩
  | cons chunk chunks ih =>
    cases chunk with
    | nil => exact ih st
    | cons spec specs =>
      obtain ⟨new, emitted⟩ := emitSegments_spec t index st.groups.length (spec :: specs) st
      have grouped : ∀ groups, Emitted t index st { (spec :: specs).foldl
          (emitSegment t index st.groups.length) st with groups := groups } (spec :: specs) new :=
        fun _ => { emitted with }
      exact Exists.imp' (new ++ ·) (fun _ => (grouped _).trans) (ih _)

variable [DecidableEq ν] in
theorem computeAll (made : List.Forall₂ (Segment.Of t) specs new)
    (h : Holds t st lanes (specs.map (fun s => (s.limb.last, s.limb.parent)) ++ slots))
    (named : ∀ s ∈ specs, st.laneOf.find? s.limb.last = some s.lane)
    (operations : st'.operations = st.operations ++ new.map .segment)
    (next : st'.nextLane = st.nextLane) (names : st'.laneOf = st.laneOf) :
    ∃ lanes', Holds t st' lanes' (specs.map (fun s => (s.limb.last, s.limb.last)) ++ slots) := by
  induction made generalizing st lanes slots with
  | nil =>
    refine ⟨lanes, ⟨?_, ?_, ?_, ?_⟩⟩
    · rw [operations, map_nil, append_nil]
      exact h.runs
    · rw [names, next]
      exact h.assigned
    · rw [names]
      exact h.content
    · rw [next]
      exact h.fresh
  | @cons spec segment specs new here _ ih =>
    obtain ⟨namedHere, named⟩ := forall_mem_cons.mp named
    have ends : segment.nodes.getLastD segment.parent = spec.limb.last := by
      rw [here.nodes, Limb.nodes, getLastD_cons]
      rfl
    have first : Holds t { st with operations := st.operations ++ [.segment segment] } _
        ((spec.limb.last, spec.limb.last) :: (specs.map (fun s => (s.limb.last, s.limb.parent)) ++
          slots)) :=
      h.compute rfl rfl rfl (here.lane ▸ namedHere) here.parent ends
    obtain ⟨lanes', rest⟩ := ih (first.perm perm_middle.symm) named
      (by rw [operations, map_cons, append_assoc, singleton_append]) next names
    exact ⟨lanes', rest.perm perm_middle⟩

def Operation.frontierIndex : Operation ν → Nat
  | .fork f => f.frontierIndex
  | .segment s => s.frontierIndex

def Operation.fork? : Operation ν → Option (Fork ν)
  | .fork f => some f
  | .segment _ => none

def Operation.segment? : Operation ν → Option (Segment ν)
  | .fork _ => none
  | .segment s => some s

def Operation.Before (a b : Operation ν) : Prop :=
  a.frontierIndex < b.frontierIndex ∨ a.frontierIndex = b.frontierIndex ∧
    (a.segment?.isSome → b.segment?.isSome)

structure Planner.Numbered (st : Planner ν) (index : Nat) : Prop where
  forks : st.forks = st.operations.filterMap Operation.fork?
  segments : st.segments = st.operations.filterMap Operation.segment?
  order : st.operations.Pairwise Operation.Before
  past : ∀ op ∈ st.operations, op.frontierIndex < index
  lanes : st.forks.length + 1 = st.nextLane
  frontiers : st.frontierIndex = index

variable [DecidableEq ν] in
theorem Planner.Numbered.init (t : OrderedTree ν) : (Planner.init t).Numbered 0 where
  forks := rfl
  segments := rfl
  order := .nil
  past := by simp [Planner.init]
  lanes := rfl
  frontiers := rfl

theorem Planner.Numbered.segment_past (h : st.Numbered index) (mem : s ∈ st.segments) :
    s.frontierIndex < index := by
  rw [h.segments, mem_filterMap] at mem
  obtain ⟨op, listed, found⟩ := mem
  cases op with
  | fork f => cases found
  | segment s' =>
    obtain rfl := Option.some.inj found
    exact h.past _ listed

theorem Planner.Numbered.round {opened emitted : Planner ν} {forks : List (Fork ν)} {added : List ν}
    {segments : List (Segment ν)} {laneOf : Dict ν Nat} (h : st.Numbered index)
    (hopen : Opened index st opened forks added)
    (hemit : Emitted t index { opened with laneOf := laneOf } emitted specs segments) :
    Planner.Numbered { emitted with frontierIndex := index + 1 } (index + 1) := by
  have forkSplit : ∀ (fs : List (Fork ν)) (ss : List (Segment ν)),
      (fs.map Operation.fork ++ ss.map Operation.segment).filterMap Operation.fork? = fs ∧
        (fs.map Operation.fork ++ ss.map Operation.segment).filterMap Operation.segment? = ss := by
    intro fs ss
    simp [filterMap_append, filterMap_map, Function.comp_def, Operation.fork?, Operation.segment?]
  have operations : emitted.operations = st.operations ++
      (forks.map Operation.fork ++ segments.map Operation.segment) := by
    rw [hemit.operations, hopen.operations, append_assoc]
  have allForks : emitted.forks = st.forks ++ forks := hemit.forks.trans hopen.forks
  have allSegments : emitted.segments = st.segments ++ segments := by
    rw [hemit.segments, hopen.segments]
  have now : ∀ op ∈ forks.map Operation.fork ++ segments.map Operation.segment,
      op.frontierIndex = index := by
    intro op mem
    rcases mem_append.mp mem with mem | mem
    · obtain ⟨f, listed, rfl⟩ := mem_map.mp mem
      exact hopen.index f listed
    · obtain ⟨s, listed, rfl⟩ := mem_map.mp mem
      exact hemit.index s listed
  exact {
    forks := by
      change emitted.forks = emitted.operations.filterMap _
      rw [operations, allForks, filterMap_append, (forkSplit forks segments).1, ← h.forks]
    segments := by
      change emitted.segments = emitted.operations.filterMap _
      rw [operations, allSegments, filterMap_append, (forkSplit forks segments).2, ← h.segments]
    order := by
      change emitted.operations.Pairwise _
      rw [operations]
      refine pairwise_append.mpr ⟨h.order, ?_, ?_⟩
      · refine pairwise_append.mpr ⟨?_, ?_, ?_⟩
        · refine pairwise_map.mpr (pairwise_of_forall_mem_list fun f mem f' mem' => ?_)
          exact .inr ⟨(hopen.index f mem).trans (hopen.index f' mem').symm,
            fun bad => Bool.noConfusion bad⟩
        · refine pairwise_map.mpr (pairwise_of_forall_mem_list fun s mem s' mem' => ?_)
          exact .inr ⟨(hemit.index s mem).trans (hemit.index s' mem').symm, fun _ => rfl⟩
        · intro a forked b computed
          refine .inr ⟨(now a (mem_append_left _ forked)).trans
            (now b (mem_append_right _ computed)).symm, fun bad => ?_⟩
          obtain ⟨f, -, rfl⟩ := mem_map.mp forked
          cases bad
      · intro a old b new
        left
        rw [now b new]
        exact h.past a old
    past := by
      change ∀ op ∈ emitted.operations, _
      rw [operations]
      intro op mem
      rcases mem_append.mp mem with old | new
      · exact Nat.lt_succ_of_lt (h.past op old)
      · exact Nat.lt_succ_of_le (now op new).le
    lanes := by
      change emitted.forks.length + 1 = emitted.nextLane
      have := h.lanes
      rw [allForks, hemit.nextLane, length_append]
      change _ = opened.nextLane
      rw [hopen.nextLane]
      omega
    frontiers := rfl }

section Rounds

variable {nodes frontier leaves : List ν} (path : ν → List Nat)

def Planner.reached (t : OrderedTree ν) (st : Planner ν) : List ν :=
  t.root :: st.segments.flatMap (·.nodes)

structure Segment.Maximal (t : OrderedTree ν) (s : Segment ν) : Prop where
  limb : ∃ l : Limb ν, l.Maximal t ∧ s.parent = l.parent ∧ s.nodes = l.nodes
  divergence : s.parent = t.root ∨ 1 < (t.children s.parent).length

theorem sortNodes_perm (frontier : List ν) : (sortNodes path frontier).Perm frontier :=
  perm_insertionSort _ frontier

def limbsOf (t : OrderedTree ν) (size : Nat) (parents : List ν) : List (Limb ν) :=
  parents.flatMap fun p => (t.children p).map fun c => ⟨p, c, (t.chain size c).getD []⟩

theorem mem_limbsOf : l ∈ limbsOf t size parents ↔
    l.parent ∈ parents ∧ l.first ∈ t.children l.parent ∧
    l.rest = (t.chain size l.first).getD [] := by
  simp only [limbsOf, mem_flatMap, mem_map]
  constructor
  · rintro ⟨p, listed, c, child, rfl⟩
    exact ⟨listed, child, rfl⟩
  · rintro ⟨listed, child, rest⟩
    exact ⟨l.parent, listed, l.first, child, by rw [← rest]⟩

theorem limbsOf_map {β : Type} (f : ν → ν → β) (size : Nat) (parents : List ν) :
    (limbsOf t size parents).map (fun l => f l.parent l.first) = parents.flatMap fun p =>
    (t.children p).map (f p) := by
  rw [limbsOf, map_flatMap]
  simp only [map_map, Function.comp_def]

theorem limbsOf_first (size : Nat) (parents : List ν) :
    (limbsOf t size parents).map Limb.first = parents.flatMap t.children := by
  rw [limbsOf_map fun _ c => c]
  simp only [map_id']

theorem limbsOf_maximal (wf : t.Wf nodes) (mem : ∀ p ∈ parents, p ∈ nodes)
    (listed : l ∈ limbsOf t nodes.length parents) :
    t.chain nodes.length l.first = some l.rest ∧ l.Maximal t := by
  obtain ⟨parent, child, rest⟩ := mem_limbsOf.mp listed
  have inside := wf.children_mem _ (mem _ parent) _ child
  obtain ⟨found, ends⟩ := wf.chain_ends inside (Nat.le_add_left ..)
  rw [ends, Option.getD_some] at rest
  exact ⟨rest ▸ ends, ⟨child, OrderedTree.chain_eq_some (rest ▸ ends)⟩⟩

theorem flatMap_of_specs (h : List.Forall₂ (Segment.Of t) specs new) :
    new.flatMap (·.nodes) = (specs.map (·.limb)).flatMap Limb.nodes := by
  induction h with
  | nil => rfl
  | cons here _ ih => rw [flatMap_cons, here.nodes, ih, map_cons, flatMap_cons]

theorem perm_ends {limbs : List (Limb ν)} (max : ∀ l ∈ limbs, l.Maximal t) :
    ((limbs.map Limb.last).filter (fun v => 1 < (t.children v).length) ++
      (limbs.map Limb.last).filter fun v => (t.children v).isEmpty).Perm (limbs.map Limb.last) := by
  have rest : (limbs.map Limb.last).filter (fun v => (t.children v).isEmpty) =
      (limbs.map Limb.last).filter fun v => !decide (1 < (t.children v).length) := by
    refine filter_congr fun v mem => ?_
    obtain ⟨l, listed, rfl⟩ := mem_map.mp mem
    have other := (max l listed).chain.last_children
    rw [Bool.eq_iff_iff, List.isEmpty_iff, ← List.length_eq_zero_iff, Bool.not_eq_true',
      decide_eq_false_iff_not]
    change (t.children l.last).length ≠ 1 at other
    omega
  rw [rest]
  exact filter_append_perm _ _

variable [DecidableEq ν]

structure Planner.Inv (t : OrderedTree ν) (nodes : List ν) (index : Nat) (frontier : List ν)
    (st : Planner ν) (lanes : Lanes ν) (leaves : List ν) : Prop where
  numbered : st.Numbered index
  cut : t.Cut nodes (st.reached t) frontier
  leaves_nodup : leaves.Nodup
  mem_leaves : ∀ v, v ∈ leaves ↔ v ∈ st.reached t ∧ t.children v = []
  holds : Holds t st lanes ((frontier ++ leaves).map fun v => (v, v))
  keys : ∀ v, v ∈ st.laneOf.keys ↔ v ∈ st.reached t
  inner : ∀ p ∈ frontier, t.children p ≠ []
  divergence : ∀ p ∈ frontier, p = t.root ∨ 1 < (t.children p).length
  deep : ∀ p ∈ frontier, index ≤ t.depth p
  segments : ∀ s ∈ st.segments, s.Maximal t
  earlier : ∀ s ∈ st.segments, s.parent = t.root ∨
    ∃ s' ∈ st.segments, s'.frontierIndex < s.frontierIndex ∧ s.parent ∈ s'.nodes

/-- What one frontier adds: the limbs behind its children, in the order of their segments. -/
structure Round (t : OrderedTree ν) (index : Nat) (frontier leaves : List ν)
    (st planned : Planner ν) (limbs : List (Limb ν)) (ordered : List (SegmentSpec ν))
    (next : List ν) (lanes : Lanes ν) : Prop where
  numbered : Planner.Numbered { planned with frontierIndex := index + 1 } (index + 1)
  max : ∀ l ∈ limbs, l.Maximal t
  above : ∀ l ∈ limbs, l.parent ∈ frontier
  firsts : (limbs.map Limb.first).Nodup
  all : ∀ p ∈ frontier, ∀ c ∈ t.children p, ∃ l ∈ limbs, l.first = c
  perm : (ordered.map (·.limb)).Perm limbs
  ends : next.Perm ((ordered.map (·.limb.last)).filter fun v => 1 < (t.children v).length)
  segments : ∃ new, planned.segments = st.segments ++ new ∧
    List.Forall₂ (Segment.Of t) ordered new ∧ ∀ s ∈ new, s.frontierIndex = index
  keys : ∀ v, v ∈ planned.laneOf.keys ↔ v ∈ st.laneOf.keys ∨ v ∈ limbs.flatMap Limb.nodes
  holds : Holds t planned lanes
    ((ordered.map fun s => (s.limb.last, s.limb.last)) ++ leaves.map fun v => (v, v))

theorem runFrontier_round (wf : t.Wf nodes) (inv : st.Inv t nodes index frontier lanes leaves) :
    ∃ planned limbs ordered next lanes', runFrontier t path nodes.length index frontier st =
      .ok ({ planned with frontierIndex := index + 1 }, next) ∧
      Round t index frontier leaves st planned limbs ordered next lanes' := by
  have sorted := sortNodes_perm path frontier
  set parents := sortNodes path frontier
  have inside : ∀ p ∈ parents, p ∈ nodes := fun p mem =>
    inv.cut.mem p (inv.cut.frontier_mem p (sorted.mem_iff.mp mem))
  have holds : Holds t st lanes (parents.map (fun p => (p, p)) ++ leaves.map fun v => (v, v)) := by
    refine inv.holds.perm ?_
    rw [map_append]
    exact (sorted.symm.map _).append_right _
  have leafKeys : ∀ v ∈ (leaves.map fun v => (v, v)).map Prod.fst, v ∈ st.reached t := by
    intro v mem
    rw [map_map] at mem
    obtain ⟨u, listed, rfl⟩ := mem_map.mp mem
    exact ((inv.mem_leaves u).mp listed).1
  have free : ∀ p ∈ parents, ∀ c ∈ t.children p, c ∉ parents ∧
      c ∉ (leaves.map fun v => (v, v)).map Prod.fst := by
    intro p mem c child
    have new := inv.cut.above p (sorted.mem_iff.mp mem) c child
    refine ⟨fun bad => new ?_, fun bad => new (leafKeys c bad)⟩
    exact inv.cut.frontier_mem c (sorted.mem_iff.mp bad)
  have distinct := wf.nodup_children (sorted.nodup_iff.mpr inv.cut.frontier_nodup) inside
  -- all forks of the frontier
  obtain ⟨opened, lanes₁, forks, opens, held, hopen⟩ := openParents_spec index holds
    (fun p mem => inv.inner p (sorted.mem_iff.mp mem)) free distinct
  -- the chains behind its children
  set limbs := limbsOf t nodes.length parents with limbsEq
  have max : ∀ l ∈ limbs, l.Maximal t := fun l mem => (limbsOf_maximal wf inside mem).2
  have above : ∀ l ∈ limbs, l.parent ∈ frontier := fun l mem =>
    sorted.mem_iff.mp (mem_limbsOf.mp mem).1
  have firsts : (limbs.map Limb.first).Nodup := by rwa [limbsEq, limbsOf_first]
  have upper := inv.cut.upper_advance wf max above firsts
  have known : ∀ l ∈ limbs, l.first ∈ opened.laneOf.keys := by
    intro l mem
    rw [hopen.keys, ← limbsOf_first nodes.length]
    exact .inr (mem_map_of_mem mem)
  obtain ⟨specs, laneOf, discovered, limbsOfSpecs, named, kept, keys⟩ := discoverChains_spec
    (fun l mem => (limbsOf_maximal wf inside mem).1) known (nodup_append'.mp upper.nodup).2.1
  rw [limbsOf_map Prod.mk] at discovered
  have apart := (nodup_append'.mp upper.nodup).2.2
  have rekeyed : Holds t { opened with laneOf := laneOf } lanes₁
      (specs.map (fun s => (s.limb.last, s.limb.parent)) ++ leaves.map fun v => (v, v)) := by
    have slots : specs.map (fun s => (s.limb.first, s.limb.parent)) =
        parents.flatMap fun p => (t.children p).map fun c => (c, p) := by
      rw [← limbsOf_map (fun p c => (c, p)) nodes.length, ← limbsOfSpecs, map_map]
      rfl
    rw [← slots] at held
    refine held.rekey rfl rfl (fun s mem => ⟨(named s mem).2.trans (named s mem).1.symm, rfl⟩)
      fun slot mem => ?_
    refine kept _ fun bad => ?_
    obtain ⟨l, listed, rest⟩ := mem_flatMap.mp bad
    exact apart (leafKeys _ (mem_map_of_mem mem))
      (mem_flatMap.mpr ⟨l, listed, mem_cons_of_mem _ rest⟩)
  -- all segments of the frontier
  set ordered := specs.insertionSort (specLe t path)
  have perm : ordered.Perm specs := perm_insertionSort _ specs
  obtain ⟨segments, emitted⟩ := emitGroups_spec index (ordered.splitBy (compatible t))
    { opened with laneOf := laneOf }
  rw [flatten_splitBy] at emitted
  obtain ⟨lanes₂, done⟩ :=
    computeAll emitted.specs (rekeyed.perm ((perm.symm.map _).append_right _))
    (fun s mem => (named s (perm.mem_iff.mp mem)).2) emitted.operations emitted.nextLane
    emitted.laneOf
  refine ⟨emitGroups t index (ordered.splitBy (compatible t)) { opened with laneOf := laneOf },
    limbs, ordered, sortNodes path
      ((ordered.map (·.limb.last)).filter fun v => 1 < (t.children v).length), lanes₂, ?_, ?_⟩
  · simp only [runFrontier, bind_eq_ok]
    exact ⟨opened, opens, _, discovered, rfl⟩
  exact {
    numbered := inv.numbered.round hopen emitted
    max := max
    above := above
    firsts := firsts
    all := fun p mem c child => ⟨⟨p, c, (t.chain nodes.length c).getD []⟩,
      mem_limbsOf.mpr ⟨sorted.mem_iff.mpr mem, child, rfl⟩, rfl⟩
    perm := by
      rw [limbsEq, ← limbsOfSpecs]
      exact perm.map _
    ends := sortNodes_perm path _
    segments := ⟨segments, by rw [emitted.segments, hopen.segments], emitted.specs, emitted.index⟩
    keys := by
      intro v
      rw [emitted.laneOf, keys, hopen.keys, ← limbsOf_first nodes.length, or_assoc]
      refine or_congr_right ?_
      simp only [mem_map, mem_flatMap, Limb.nodes, mem_cons]
      constructor
      · rintro (⟨l, listed, rfl⟩ | ⟨l, listed, rest⟩)
        · exact ⟨l, listed, .inl rfl⟩
        · exact ⟨l, listed, .inr rest⟩
      rintro ⟨l, listed, rfl | rest⟩
      · exact .inl ⟨l, listed, rfl⟩
      · exact .inr ⟨l, listed, rest⟩
    holds := done }

theorem Round.inv {planned : Planner ν} {limbs : List (Limb ν)} {ordered : List (SegmentSpec ν)}
    {next : List ν} {lanes' : Lanes ν} (wf : t.Wf nodes)
    (inv : st.Inv t nodes index frontier lanes leaves)
    (round : Round t index frontier leaves st planned limbs ordered next lanes') :
    Planner.Inv t nodes (index + 1) next { planned with frontierIndex := index + 1 } lanes'
      (leaves ++ (limbs.map Limb.last).filter fun v => (t.children v).isEmpty) := by
  obtain ⟨segments, added, specs, indexed⟩ := round.segments
  have upper := inv.cut.upper_advance wf round.max round.above round.firsts
  have lastsPerm : (ordered.map (·.limb.last)).Perm (limbs.map Limb.last) := by
    have := round.perm.map Limb.last
    rwa [map_map] at this
  have reached : (st.reached t ++ limbs.flatMap Limb.nodes).Perm (planned.reached t) := by
    rw [Planner.reached, Planner.reached, added, flatMap_append, flatMap_of_specs specs,
      cons_append]
    exact ((round.perm.symm.flatMap_right _).append_left _).cons _
  have ends : next.Perm ((limbs.map Limb.last).filter fun v => 1 < (t.children v).length) :=
    round.ends.trans (lastsPerm.filter _)
  have made : ∀ s ∈ planned.segments, s ∈ st.segments ∨
      s ∈ segments ∧ ∃ l ∈ limbs, s.parent = l.parent ∧ s.nodes = l.nodes := by
    intro s mem
    rw [added] at mem
    refine (mem_append.mp mem).imp_right fun new => ⟨new, ?_⟩
    obtain ⟨spec, listed, made⟩ := forall₂_of_mem specs.flip new
    exact ⟨spec.limb, round.perm.mem_iff.mp (mem_map_of_mem listed), made.parent, made.nodes⟩
  exact {
    numbered := round.numbered
    cut := (inv.cut.advance wf round.max round.above round.firsts round.all ends).perm reached
    leaves_nodup := by
      obtain ⟨-, distinct, apart⟩ := nodup_append'.mp upper.nodup
      refine inv.leaves_nodup.append ((Limb.nodup_last distinct).filter _) fun v old new => ?_
      obtain ⟨l, listed, rfl⟩ := mem_map.mp (mem_of_mem_filter new)
      exact apart ((inv.mem_leaves _).mp old).1 (mem_flatMap.mpr ⟨l, listed, l.last_mem⟩)
    mem_leaves := by
      intro v
      rw [OrderedTree.mem_leaves_advance round.max inv.mem_leaves]
      exact and_congr_left fun _ => reached.mem_iff
    holds := by
      have split : (ordered.map (·.limb.last) ++ leaves).Perm
          (next ++ (leaves ++ (limbs.map Limb.last).filter fun v => (t.children v).isEmpty)) := by
        refine ((lastsPerm.trans (perm_ends round.max).symm).append_right _).trans ?_
        rw [append_assoc]
        exact ends.symm.append perm_append_comm
      have doubled := split.map fun v => (v, v)
      rw [map_append, map_map] at doubled
      have held := round.holds.perm doubled
      exact ⟨held.runs, held.assigned, held.content, held.fresh⟩
    keys := by
      intro v
      refine Iff.trans ?_ reached.mem_iff
      rw [mem_append, ← inv.keys]
      exact round.keys v
    inner := by
      intro p mem
      have many := of_decide_eq_true (List.mem_filter.mp (ends.mem_iff.mp mem)).2
      exact length_pos_iff.mp (by omega)
    divergence := fun p mem => .inr (of_decide_eq_true (List.mem_filter.mp (ends.mem_iff.mp mem)).2)
    deep := by
      intro p mem
      obtain ⟨l, listed, rfl⟩ := mem_map.mp (List.mem_filter.mp (ends.mem_iff.mp mem)).1
      have start := inv.deep _ (round.above l listed)
      have known := inv.cut.mem _ (inv.cut.frontier_mem _ (round.above l listed))
      have deeper := (round.max l listed).depth_lt wf known l.last_mem
      omega
    segments := by
      intro s mem
      rcases made s mem with old | ⟨-, l, listed, parent, nodes⟩
      · exact inv.segments s old
      refine ⟨⟨l, round.max l listed, parent, nodes⟩, ?_⟩
      rw [parent]
      exact inv.divergence _ (round.above l listed)
    earlier := by
      change ∀ s ∈ planned.segments, _ ∨ ∃ s' ∈ planned.segments, _
      intro s mem
      rw [added]
      rcases made s mem with old | ⟨new, l, listed, parent, -⟩
      · refine (inv.earlier s old).imp_right (Exists.imp fun s' => ?_)
        exact And.imp_left (mem_append_left _)
      have known := inv.cut.frontier_mem _ (round.above l listed)
      rw [← parent] at known
      refine (mem_cons.mp known).imp_right fun computed => ?_
      obtain ⟨s', before, inside⟩ := mem_flatMap.mp computed
      refine ⟨s', mem_append_left _ before, ?_, inside⟩
      rw [indexed s new]
      exact inv.numbered.segment_past before }

theorem runFrontier_spec (wf : t.Wf nodes) (inv : st.Inv t nodes index frontier lanes leaves) :
    ∃ st' next lanes' leaves', runFrontier t path nodes.length index frontier st = .ok (st', next) ∧
      st'.Inv t nodes (index + 1) next lanes' leaves' := by
  obtain ⟨planned, limbs, ordered, next, lanes', done, round⟩ := runFrontier_round path wf inv
  exact ⟨_, next, lanes', _, done, round.inv wf inv⟩

theorem planFrontiers_spec (wf : t.Wf nodes) (enough : nodes.length ≤ index + fuel)
    (inv : st.Inv t nodes index frontier lanes leaves) : ∃ st' index' lanes' leaves',
      planFrontiers t path nodes.length fuel index frontier st = .ok st' ∧
        st'.Inv t nodes index' [] lanes' leaves' := by
  induction fuel generalizing index frontier st lanes leaves with
  | zero =>
    cases frontier with
    | nil => exact ⟨st, index, lanes, leaves, rfl, inv⟩
    | cons p frontier =>
      have deep := inv.deep p mem_cons_self
      have small := wf.depth_lt (inv.cut.mem p (inv.cut.frontier_mem p mem_cons_self))
      omega
  | succ fuel ih =>
    cases frontier with
    | nil => exact ⟨st, index, lanes, leaves, rfl, inv⟩
    | cons p frontier =>
      obtain ⟨st₁, next, lanes₁, leaves₁, ran, inv₁⟩ := runFrontier_spec path wf inv
      obtain ⟨st', index', lanes', leaves', done, final⟩ := ih (by omega) inv₁
      refine ⟨st', index', lanes', leaves', ?_, final⟩
      simp only [planFrontiers, ran]
      exact done

theorem Planner.Inv.init (wf : t.Wf nodes) (some : t.children t.root ≠ []) :
    (Planner.init t).Inv t nodes 0 [t.root] (startLanes t) [] where
  numbered := .init t
  cut := .init wf
  leaves_nodup := nodup_nil
  mem_leaves := by
    intro v
    simp only [Planner.reached, Planner.init, flatMap_nil, mem_singleton, not_mem_nil, false_iff]
    rintro ⟨rfl, none⟩
    exact some none
  holds := .init t
  keys := by
    intro v
    rw [Planner.init, Dict.mem_keys_insert]
    simp [Planner.reached, Dict.keys, Dict.empty]
  inner := fun p mem => mem_singleton.mp mem ▸ some
  divergence := fun p mem => .inl (mem_singleton.mp mem)
  deep := fun p _ => Nat.zero_le _
  segments := by simp [Planner.init]
  earlier := by simp [Planner.init]

structure Planner.Plans (t : OrderedTree ν) (nodes : List ν) (st : Planner ν) (lanes : Lanes ν) :
    Prop where
  numbered : st.Numbered st.frontierIndex
  runs : runAll st.operations (startLanes t) = some lanes
  reached : (st.reached t).Perm nodes
  keys : st.laneOf.keys.Perm nodes
  leaves : ((nodes.filter fun v => (t.children v).isEmpty).map st.laneOf.find?).Perm
    ((List.range st.nextLane).map some)
  content : ∀ v ∈ nodes, t.children v = [] → ∀ lane, st.laneOf.find? v = some lane →
    lanes lane = some v
  segments : ∀ s ∈ st.segments, s.Maximal t
  earlier : ∀ s ∈ st.segments, s.parent = t.root ∨
    ∃ s' ∈ st.segments, s'.frontierIndex < s.frontierIndex ∧ s.parent ∈ s'.nodes

theorem planTree_spec (wf : t.Wf nodes) (some : t.children t.root ≠ []) :
    ∃ st lanes, planTree t path nodes.length = .ok st ∧ st.Plans t nodes lanes := by
  obtain ⟨st, index, lanes, leaves, done, inv⟩ :=
    planFrontiers_spec path wf (Nat.le_add_left ..) (.init wf some)
  have reached := inv.cut.complete wf
  have leavesPerm : leaves.Perm (nodes.filter fun v => (t.children v).isEmpty) := by
    refine (perm_ext_iff_of_nodup inv.leaves_nodup (wf.nodup.filter _)).mpr fun v => ?_
    rw [inv.mem_leaves, List.mem_filter, List.isEmpty_iff, reached.mem_iff]
  refine ⟨st, lanes, done, ⟨?_, inv.holds.runs, reached, ?_, ?_, ?_, inv.segments, inv.earlier⟩⟩
  · rw [inv.numbered.frontiers]
    exact inv.numbered
  · exact (perm_ext_iff_of_nodup st.laneOf.nodup wf.nodup).mpr fun v =>
      (inv.keys v).trans reached.mem_iff
  · have assigned := inv.holds.assigned
    rw [map_map] at assigned
    exact (leavesPerm.symm.map _).trans assigned
  · intro v mem none lane found
    have leaf : v ∈ leaves := (inv.mem_leaves v).mpr ⟨reached.mem_iff.mpr mem, none⟩
    exact inv.holds.content (v, v) (mem_map_of_mem leaf) lane found

end Rounds

end Mycellios.PrefixWave
