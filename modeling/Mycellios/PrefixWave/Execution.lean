import Mycellios.Logic.Wp
import Mycellios.PrefixWave.Planner

namespace Mycellios.PrefixWave

open Data List Logic

variable {ν : Type} [DecidableEq ν] {parent : ν}

abbrev Lanes (ν : Type) := Nat → Option ν

def Operation.run : Operation ν → Lanes ν → Option (Lanes ν)
  | .fork f, lanes =>
    if lanes f.sourceLane = some f.divergence ∧ lanes f.targetLane = none then
      some (Function.update lanes f.targetLane (some f.divergence))
    else none
  | .segment s, lanes =>
    if lanes s.lane = some s.parent then
      some (Function.update lanes s.lane (some (s.nodes.getLastD s.parent)))
    else none

def runAll : List (Operation ν) → Lanes ν → Option (Lanes ν)
  | [], lanes => some lanes
  | op :: ops, lanes => op.run lanes >>= runAll ops

theorem runAll_append (before behind : List (Operation ν)) (lanes : Lanes ν) :
    runAll (before ++ behind) lanes = runAll before lanes >>= runAll behind := by
  induction before generalizing lanes with
  | nil => rfl
  | cons op before ih =>
    rw [cons_append, runAll, runAll, bind_assoc]
    exact bind_congr ih

def startLanes (t : OrderedTree ν) : Lanes ν := fun lane => if lane = 0 then some t.root else none

/-- The operations so far have run, and every lane belongs to one slot: a node and what its lane
holds. -/
structure Holds (t : OrderedTree ν) (st : Planner ν) (lanes : Lanes ν) (slots : List (ν × ν)) :
    Prop where
  runs : runAll st.operations (startLanes t) = some lanes
  assigned : (slots.map fun slot => st.laneOf.find? slot.1).Perm ((List.range st.nextLane).map some)
  content : ∀ slot ∈ slots, ∀ lane, st.laneOf.find? slot.1 = some lane → lanes lane = some slot.2
  fresh : ∀ lane, st.nextLane ≤ lane → lanes lane = none

namespace Holds

variable {t : OrderedTree ν} {st : Planner ν} {lanes : Lanes ν} {slots slots' : List (ν × ν)}

theorem init (t : OrderedTree ν) : Holds t (Planner.init t) (startLanes t) [(t.root, t.root)] where
  runs := rfl
  assigned := by simp [Planner.init]
  content := by
    intro slot mem lane found
    rw [mem_singleton.mp mem, Planner.init, Dict.find?_insert, if_pos rfl,
      Option.some.injEq] at found
    rw [← found, startLanes, if_pos rfl, mem_singleton.mp mem]
  fresh := fun lane one => if_neg (Nat.ne_of_gt one)

theorem perm (h : Holds t st lanes slots) (same : slots.Perm slots') : Holds t st lanes slots' where
  runs := h.runs
  assigned := (same.map _).symm.trans h.assigned
  content := fun slot mem => h.content slot (same.mem_iff.mpr mem)
  fresh := h.fresh

theorem lane (h : Holds t st lanes slots) (mem : slot ∈ slots) :
    ∃ lane < st.nextLane, st.laneOf.find? slot.1 = some lane := by
  have listed := h.assigned.mem_iff.mp (mem_map_of_mem mem)
  obtain ⟨lane, small, found⟩ := mem_map.mp listed
  exact ⟨lane, mem_range.mp small, found.symm⟩

theorem rekey {ι : Type} {items : List ι} {a b : ι → ν × ν}
    (h : Holds t st lanes (items.map a ++ slots)) (operations : st'.operations = st.operations)
    (next : st'.nextLane = st.nextLane)
    (renamed : ∀ i ∈ items, st'.laneOf.find? (b i).1 = st.laneOf.find? (a i).1 ∧ (b i).2 = (a i).2)
    (kept : ∀ slot ∈ slots, st'.laneOf.find? slot.1 = st.laneOf.find? slot.1) :
    Holds t st' lanes (items.map b ++ slots) where
  runs := operations ▸ h.runs
  assigned := by
    have names : ((items.map b ++ slots).map fun slot => st'.laneOf.find? slot.1) =
        (items.map a ++ slots).map fun slot => st.laneOf.find? slot.1 := by
      simp only [map_append, map_map]
      congr 1
      · exact map_congr_left fun i mem => (renamed i mem).1
      · exact map_congr_left kept
    rw [names, next]
    exact h.assigned
  content := by
    intro slot mem lane found
    rcases mem_append.mp mem with mem | mem
    · obtain ⟨i, listed, rfl⟩ := mem_map.mp mem
      obtain ⟨name, content⟩ := renamed i listed
      rw [content]
      exact h.content (a i) (mem_append_left _ (mem_map_of_mem listed)) lane (name ▸ found)
    · exact h.content slot (mem_append_right _ mem) lane (kept slot mem ▸ found)
  fresh := next ▸ h.fresh

theorem fork (h : Holds t st lanes slots) (index : Nat)
    (slot : (key, parent) ∈ slots) (named : st.laneOf.find? key = some source)
    (free : child ∉ slots.map Prod.fst) : Holds t (forkChild index parent source st child)
      (Function.update lanes st.nextLane (some parent)) ((child, parent) :: slots) where
  runs := by
    have held : lanes source = some parent := h.content _ slot source named
    have empty : lanes st.nextLane = none := h.fresh _ le_rfl
    rw [forkChild, runAll_append, h.runs]
    simp only [Option.bind_eq_bind, Option.bind_some, runAll, Operation.run, held, empty, and_self,
      if_true]
  assigned := by
    have others : (slots.map fun slot => (st.laneOf.insert child st.nextLane).find? slot.1) =
        slots.map fun slot => st.laneOf.find? slot.1 := by
      refine map_congr_left fun slot mem => ?_
      rw [Dict.find?_insert, if_neg]
      rintro rfl
      exact free (mem_map_of_mem mem)
    simp only [forkChild, map_cons, Dict.find?_insert_self, others, range_succ, map_append,
      map_nil]
    exact (List.Perm.cons _ h.assigned).trans (perm_append_singleton _ _).symm
  content := by
    intro slot mem lane found
    simp only [forkChild, Dict.find?_insert] at found
    rcases mem_cons.mp mem with rfl | mem
    · rw [if_pos rfl, Option.some.injEq] at found
      rw [← found, Function.update_self]
    rw [if_neg (fun same => free (by rw [same]; exact mem_map_of_mem mem))] at found
    obtain ⟨lane', small, found'⟩ := h.lane mem
    obtain rfl := Option.mem_unique found found'
    rw [Function.update_of_ne (Nat.ne_of_lt small)]
    exact h.content slot mem _ found
  fresh := by
    intro lane large
    have large : st.nextLane + 1 ≤ lane := large
    rw [Function.update_of_ne (by omega)]
    exact h.fresh lane (by omega)

theorem compute (h : Holds t st lanes ((key, parent) :: slots)) {segment : Segment ν}
    (operations : st'.operations = st.operations ++ [.segment segment])
    (next : st'.nextLane = st.nextLane) (names : st'.laneOf = st.laneOf)
    (named : st.laneOf.find? key = some segment.lane) (held : segment.parent = parent)
    (ends : segment.nodes.getLastD segment.parent = last) :
    Holds t st' (Function.update lanes segment.lane (some last)) ((key, last) :: slots) where
  runs := by
    have full : lanes segment.lane = some segment.parent :=
      held ▸ h.content _ mem_cons_self segment.lane named
    rw [operations, runAll_append, h.runs]
    simp only [Option.bind_eq_bind, Option.bind_some, runAll, Operation.run, full, if_true, ends]
  assigned := by
    rw [names, next]
    exact h.assigned
  content := by
    have distinct := h.assigned.nodup_iff.mpr (nodup_range.map (Option.some_injective _))
    rw [names]
    intro slot mem lane found
    rcases mem_cons.mp mem with rfl | mem
    · rw [Option.mem_unique named found, Function.update_self]
    have other : lane ≠ segment.lane := by
      rintro rfl
      refine (nodup_cons.mp distinct).1 (mem_map.mpr ⟨slot, mem, ?_⟩)
      exact found.trans named.symm
    rw [Function.update_of_ne other]
    exact h.content slot (mem_cons_of_mem _ mem) lane found
  fresh := by
    intro lane large
    obtain ⟨own, small, found⟩ := h.lane mem_cons_self
    have same : own = segment.lane := Option.mem_unique found named
    rw [next] at large
    rw [Function.update_of_ne (by omega)]
    exact h.fresh lane large

end Holds

section Forks

structure Opened (index : Nat) (st st' : Planner ν) (new : List (Fork ν)) (added : List ν) :
    Prop where
  operations : st'.operations = st.operations ++ new.map .fork
  forks : st'.forks = st.forks ++ new
  segments : st'.segments = st.segments
  nextLane : st'.nextLane = st.nextLane + new.length
  index : ∀ f ∈ new, f.frontierIndex = index
  keys : ∀ v, v ∈ st'.laneOf.keys ↔ v ∈ st.laneOf.keys ∨ v ∈ added

variable {st st' st'' : Planner ν} {index : Nat}

omit [DecidableEq ν] in
theorem Opened.refl (index : Nat) (st : Planner ν) : Opened index st st [] [] where
  operations := by simp
  forks := by simp
  segments := rfl
  nextLane := rfl
  index := by simp
  keys := by simp

omit [DecidableEq ν] in
theorem Opened.trans (h : Opened index st st' new added)
    (h' : Opened index st' st'' new' added') :
    Opened index st st'' (new ++ new') (added ++ added') where
  operations := by rw [h'.operations, h.operations, map_append, append_assoc]
  forks := by rw [h'.forks, h.forks, append_assoc]
  segments := h'.segments.trans h.segments
  nextLane := by rw [h'.nextLane, h.nextLane, length_append, Nat.add_assoc]
  index := by
    intro f mem
    exact (mem_append.mp mem).elim (h.index f) (h'.index f)
  keys := by
    intro v
    rw [h'.keys, h.keys, mem_append, or_assoc]

theorem Opened.assign (st : Planner ν) (node : ν) (lane : Nat) :
    Opened index st { st with laneOf := st.laneOf.insert node lane } [] [node] where
  operations := by simp
  forks := by simp
  segments := rfl
  nextLane := rfl
  index := by simp
  keys := fun v => by rw [Dict.mem_keys_insert, mem_singleton, or_comm]

theorem Opened.forkChild (index : Nat) (st : Planner ν) (parent child : ν) (source : Nat) :
    ∃ fork, Opened index st (forkChild index parent source st child) [fork] [child] := by
  refine ⟨_, ⟨rfl, rfl, rfl, rfl, ?_, fun v => ?_⟩⟩
  · simp
  · rw [PrefixWave.forkChild, Dict.mem_keys_insert, mem_singleton, or_comm]

theorem forkChildren_spec (index : Nat) (h : Holds t st lanes slots)
    (slot : (primary, parent) ∈ slots) (named : st.laneOf.find? primary = some source)
    (free : ∀ c ∈ others, c ∉ slots.map Prod.fst) (distinct : others.Nodup) : ∃ lanes' new,
      Holds t (others.foldl (forkChild index parent source) st) lanes'
      (others.map (·, parent) ++ slots) ∧
      Opened index st (others.foldl (forkChild index parent source) st) new others := by
  induction others generalizing st lanes slots with
  | nil => exact ⟨lanes, [], h, .refl index st⟩
  | cons child others ih =>
    obtain ⟨fresh, distinct⟩ := nodup_cons.mp distinct
    obtain ⟨freeHere, free⟩ := forall_mem_cons.mp free
    have forked := h.fork index slot named freeHere
    obtain ⟨fork, opened⟩ := Opened.forkChild index st parent child source
    have kept : (forkChild index parent source st child).laneOf.find? primary = some source := by
      rw [forkChild, Dict.find?_insert, if_neg, named]
      rintro rfl
      exact freeHere (mem_map_of_mem slot)
    obtain ⟨lanes', new, holds, opened'⟩ := ih forked (mem_cons_of_mem _ slot) kept
      (fun c mem bad => by
        rcases mem_cons.mp bad with rfl | bad
        · exact fresh mem
        · exact free c mem bad) distinct
    exact ⟨lanes', fork :: new, holds.perm perm_middle, opened.trans opened'⟩

theorem openParents_spec (index : Nat) {parents : List ν}
    (h : Holds t st lanes (parents.map (fun p => (p, p)) ++ slots))
    (inner : ∀ p ∈ parents, t.children p ≠ [])
    (free : ∀ p ∈ parents, ∀ c ∈ t.children p, c ∉ parents ∧ c ∉ slots.map Prod.fst)
    (distinct : (parents.flatMap t.children).Nodup) : ∃ st' lanes' new,
      openParents t index parents st = .ok st' ∧
      Holds t st' lanes' ((parents.flatMap fun p => (t.children p).map fun c => (c, p)) ++ slots) ∧
      Opened index st st' new (parents.flatMap t.children) := by
  induction parents generalizing st lanes slots with
  | nil => exact ⟨st, lanes, [], rfl, h, .refl index st⟩
  | cons parent parents ih =>
    obtain ⟨innerHere, inner⟩ := forall_mem_cons.mp inner
    obtain ⟨freeHere, free⟩ := forall_mem_cons.mp free
    rw [flatMap_cons, nodup_append'] at distinct
    obtain ⟨own, distinct, apart⟩ := distinct
    cases children : t.children parent with
    | nil => exact absurd children innerHere
    | cons primary others =>
      rw [children] at own freeHere apart
      obtain ⟨fresh, own⟩ := nodup_cons.mp own
      obtain ⟨source, -, named⟩ := h.lane mem_cons_self
      have named : st.laneOf.find? parent = some source := named
      -- the primary child takes over its parent's lane
      have taken : Holds t { st with laneOf := st.laneOf.insert primary source } lanes
          ((primary, parent) :: (parents.map (fun p => (p, p)) ++ slots)) := by
        have first : Holds t st lanes ([()].map (fun _ => (parent, parent)) ++
          (parents.map (fun p => (p, p)) ++ slots)) := h
        refine first.rekey (b := fun _ => (primary, parent)) rfl rfl (fun _ _ => ⟨?_, rfl⟩)
          fun slot mem => ?_
        · exact (Dict.find?_insert_self ..).trans named.symm
        refine (Dict.find?_insert ..).trans (if_neg fun same => ?_)
        obtain ⟨out, out'⟩ := freeHere primary mem_cons_self
        rcases mem_append.mp mem with mem | mem
        · obtain ⟨p, listed, rfl⟩ := mem_map.mp mem
          exact out (mem_cons_of_mem _ (same ▸ listed))
        · exact out' (same ▸ mem_map_of_mem mem)
      have freeOthers : ∀ c ∈ others,
          c ∉ ((primary, parent) :: (parents.map (fun p => (p, p)) ++ slots)).map Prod.fst := by
        intro c mem bad
        obtain ⟨out, out'⟩ := freeHere c (mem_cons_of_mem _ mem)
        rw [map_cons, map_append, map_map] at bad
        rcases mem_cons.mp bad with same | bad
        · obtain rfl : c = primary := same
          exact fresh mem
        rcases mem_append.mp bad with bad | bad
        · obtain ⟨p, listed, rfl⟩ := mem_map.mp bad
          exact out (mem_cons_of_mem _ listed)
        · exact out' bad
      obtain ⟨lanes₁, new₁, forked, opened₁⟩ :=
        forkChildren_spec index taken mem_cons_self (Dict.find?_insert_self ..) freeOthers own
      have shuffle : (others.map (fun c => (c, parent)) ++ (primary, parent) ::
          (parents.map (fun p => (p, p)) ++ slots)).Perm (parents.map (fun p => (p, p)) ++
            ((primary :: others).map (fun c => (c, parent)) ++ slots)) := by
        rw [map_cons, cons_append]
        refine perm_middle.trans (List.Perm.trans (List.Perm.cons _ ?_) perm_middle.symm)
        rw [← append_assoc, ← append_assoc]
        exact perm_append_comm.append_right _
      obtain ⟨st', lanes', new, done, holds, opened⟩ :=
          ih (forked.perm shuffle) inner (fun p mem c child => by
        obtain ⟨out, out'⟩ := free p mem c child
        refine ⟨fun bad => out (mem_cons_of_mem _ bad), fun bad => ?_⟩
        rw [map_append, map_map] at bad
        rcases mem_append.mp bad with bad | bad
        · obtain ⟨c', listed, rfl⟩ := mem_map.mp bad
          exact apart listed (mem_flatMap.mpr ⟨p, mem, child⟩)
        · exact out' bad) distinct
      refine ⟨st', lanes', new₁ ++ new, ?_, holds.perm ?_, ?_⟩
      · rw [openParents, children]
        simp only [assigned, named]
        exact done
      · rw [flatMap_cons, children, ← append_assoc]
        exact perm_append_comm.append_right _
      · rw [flatMap_cons, children]
        exact ((Opened.assign st primary source).trans opened₁).trans opened

end Forks

section Chains

variable {t : OrderedTree ν}

theorem find?_assign (nodes : List ν) (lane : Nat) (laneOf : Dict ν Nat) (v : ν) :
    (nodes.foldl (fun d node => d.insert node lane) laneOf).find? v =
      if v ∈ nodes then some lane else laneOf.find? v := by
  induction nodes generalizing laneOf with
  | nil => simp
  | cons node nodes ih =>
    rw [foldl_cons, ih, Dict.find?_insert]
    by_cases behind : v ∈ nodes
    · simp [behind]
    by_cases here : node = v
    · simp [here]
    · simp [behind, here, Ne.symm here]

theorem mem_keys_assign (nodes : List ν) (lane : Nat) (laneOf : Dict ν Nat) (v : ν) :
    v ∈ (nodes.foldl (fun d node => d.insert node lane) laneOf).keys ↔ v ∈ laneOf.keys ∨
    v ∈ nodes := by
  induction nodes generalizing laneOf with
  | nil => simp
  | cons node nodes ih =>
    rw [foldl_cons, ih, Dict.mem_keys_insert, mem_cons]
    tauto

theorem discoverChains_spec (chains : ∀ l ∈ limbs, t.chain size l.first = some l.rest)
    (known : ∀ l ∈ limbs, l.first ∈ laneOf.keys) (distinct : (limbs.flatMap Limb.nodes).Nodup) :
    ∃ specs laneOf', discoverChains t size (limbs.map fun l => (l.parent, l.first)) laneOf =
        .ok (specs, laneOf') ∧ specs.map (·.limb) = limbs ∧
      (∀ s ∈ specs, laneOf.find? s.limb.first = some s.lane ∧
        laneOf'.find? s.limb.last = some s.lane) ∧
      (∀ v ∉ limbs.flatMap Limb.rest, laneOf'.find? v = laneOf.find? v) ∧
      ∀ v, v ∈ laneOf'.keys ↔ v ∈ laneOf.keys ∨ v ∈ limbs.flatMap Limb.rest := by
  induction limbs generalizing laneOf with
  | nil => exact ⟨[], laneOf, rfl, rfl, by simp, by simp, by simp⟩
  | cons l limbs ih =>
    obtain ⟨chain, chains⟩ := forall_mem_cons.mp chains
    obtain ⟨knownHere, known⟩ := forall_mem_cons.mp known
    rw [flatMap_cons, nodup_append'] at distinct
    obtain ⟨own, distinct, apart⟩ := distinct
    obtain ⟨lane, named⟩ : ∃ lane, laneOf.find? l.first = some lane := by
      refine Option.ne_none_iff_exists'.mp fun none => ?_
      exact (Dict.find?_eq_none_iff ..).mp none knownHere
    have stillKnown :
        ∀ m ∈ limbs, m.first ∈ (l.rest.foldl (fun d node => d.insert node lane) laneOf).keys :=
      fun m mem => (mem_keys_assign ..).mpr (.inl (known m mem))
    obtain ⟨specs, laneOf', done, limbsEq, lanesEq, kept, keys⟩ := ih chains stillKnown distinct
    have outside : ∀ v ∈ l.nodes, v ∉ limbs.flatMap Limb.rest := by
      intro v mem bad
      obtain ⟨m, listed, inside⟩ := mem_flatMap.mp bad
      exact apart mem (mem_flatMap.mpr ⟨m, listed, mem_cons_of_mem _ inside⟩)
    refine ⟨⟨lane, l⟩ :: specs, laneOf', ?_, ?_, ?_, ?_, ?_⟩
    · simp only [map_cons, discoverChains, assigned, named, chain, bind_eq_ok]
      exact ⟨lane, rfl, _, done, rfl⟩
    · rw [map_cons, limbsEq]
    · refine forall_mem_cons.mpr ⟨⟨named, ?_⟩, fun s mem => ⟨?_, (lanesEq s mem).2⟩⟩
      · rw [kept _ (outside _ l.last_mem), find?_assign]
        split
        · rfl
        next out =>
          have first : l.last = l.first := (mem_cons.mp l.last_mem).resolve_right out
          rw [first, named]
      have := (lanesEq s mem).1
      rwa [find?_assign, if_neg] at this
      intro bad
      have listed : s.limb ∈ limbs := limbsEq ▸ mem_map_of_mem mem
      exact apart (mem_cons_of_mem _ bad) (mem_flatMap.mpr ⟨_, listed, mem_cons_self⟩)
    · intro v out
      rw [flatMap_cons, mem_append, not_or] at out
      rw [kept v out.2, find?_assign, if_neg out.1]
    · intro v
      rw [keys, mem_keys_assign, flatMap_cons, mem_append, or_assoc]

end Chains

end Mycellios.PrefixWave
