import Mycellios.PhysicalTree.Kv
import Mycellios.PhysicalTree.Safety

namespace Mycellios.PhysicalTree

open Data List Logic MacroWave

def answers (c : Coordinator) (calls : List Call) : List (Except TreeError Answer) :=
  (trace step c calls).map Transition.output

theorem answers_append (c : Coordinator) (first second : List Call) :
    answers c (first ++ second) = answers c first ++ answers (final step c first) second := by
  simp [answers, trace_append]

theorem answers_cons (c : Coordinator) (call : Call) (calls : List Call) :
    answers c (call :: calls) = (step c call).2 :: answers (step c call).1 calls := rfl

variable {c c' : Coordinator} {ref : WaveRef} {w : Wave} {leaves before behind todo : List Leaf}
  {t : Tree} {l l' : Leaf} {times : List ℚ}

/-- A registered wave with these leaves, all routed, on this tree. -/
structure Stage (c : Coordinator) (ref : WaveRef) (w : Wave) (leaves : List Leaf) (t : Tree) :
    Prop where
  inv : Inv c
  found : c.waves.find? ref = some w
  there : c.treeByParent.find? w.parentRequestId = some ref
  ordered : c.orderedLeaves w = leaves
  routed : ∀ l ∈ leaves, c.leafRoute.find? l.virtualRequestId = some w.parentRequestId
  tree : c.trees w.proposal.tree = t
  parent : w.parentRequestId ≤ uint64Max
  bounded : ∀ l ∈ leaves, l.virtualRequestId ≤ uint64Max

def replaceLeaf (l' : Leaf) (leaves : List Leaf) : List Leaf :=
  leaves.map fun x => if x.virtualRequestId = l'.virtualRequestId then l' else x

theorem replaceLeaf_append (l' : Leaf)
    (distinct : ((before ++ l :: behind).map Leaf.virtualRequestId).Nodup)
    (same : l'.virtualRequestId = l.virtualRequestId) :
    replaceLeaf l' (before ++ l :: behind) = before ++ l' :: behind := by
  rw [map_append, map_cons, nodup_append] at distinct
  obtain ⟨-, tail, apart⟩ := distinct
  obtain ⟨head, -⟩ := nodup_cons.mp tail
  have left : ∀ x ∈ before, x.virtualRequestId ≠ l'.virtualRequestId := fun x mem =>
    same ▸ apart _ (mem_map_of_mem mem) _ mem_cons_self
  have right : ∀ x ∈ behind, x.virtualRequestId ≠ l'.virtualRequestId := by
    intro x mem e
    exact head ((e.trans same) ▸ mem_map_of_mem mem)
  have keep : ∀ xs : List Leaf, (∀ x ∈ xs, x.virtualRequestId ≠ l'.virtualRequestId) →
      xs.map (fun x => if x.virtualRequestId = l'.virtualRequestId then l' else x) = xs := by
    intro xs h
    exact (map_congr_left fun x mem => if_neg (h x mem)).trans (map_id xs)
  rw [replaceLeaf, map_append, map_cons, keep before left, keep behind right, same, if_pos rfl]

theorem orderedLeaves_insert (inv : Inv c) (here : c.leaves.find? l'.virtualRequestId ≠ none)
    (w : Wave) :
    Coordinator.orderedLeaves { c with leaves := c.leaves.insert l'.virtualRequestId l' } w =
      replaceLeaf l' (c.orderedLeaves w) := by
  unfold Coordinator.orderedLeaves replaceLeaf
  induction w.leaves with
  | nil => rfl
  | cons id ids ih =>
    rw [filterMap_cons, filterMap_cons, Dict.find?_insert]
    by_cases e : l'.virtualRequestId = id
    · cases hf : c.leaves.find? id with
      | none => exact absurd hf (e ▸ here)
      | some x => simpa [e, (inv.named id x hf).1] using ih
    cases hf : c.leaves.find? id with
    | none => simpa [e] using ih
    | some x => simpa [e, (inv.named id x hf).1, Ne.symm e] using ih

section

variable (s : Stage c ref w leaves t)
include s

theorem Stage.find (mem : l ∈ leaves) :
    c.leaves.find? l.virtualRequestId = some l := (s.inv.owns_of_mem (s.ordered ▸ mem)).2

theorem Stage.distinct : (leaves.map Leaf.virtualRequestId).Nodup := by
  rw [← s.ordered]
  exact s.inv.nodup_ids s.found

theorem Stage.rephase
    (move : Move c [] { c with waves := c.waves.insert ref { w with phase := phase } }) :
    Stage { c with waves := c.waves.insert ref { w with phase := phase } } ref
      { w with phase := phase } leaves t where
  inv := move.inv s.inv
  found := Dict.find?_insert_self ..
  there := s.there
  ordered := s.ordered
  routed := s.routed
  tree := s.tree
  parent := s.parent
  bounded := s.bounded

theorem Stage.replace (mem : l ∈ leaves) (l' : Leaf)
    (same : l'.virtualRequestId = l.virtualRequestId)
    (move : Move c es { c with leaves := c.leaves.insert l.virtualRequestId l' }) :
    Stage { c with leaves := c.leaves.insert l.virtualRequestId l' } ref w
      (replaceLeaf l' leaves) t := by
  have ids : ∀ x ∈ replaceLeaf l' leaves, x.virtualRequestId ∈ leaves.map
      Leaf.virtualRequestId := by
    intro x hx
    obtain ⟨y, hy, rfl⟩ := mem_map.mp hx
    split
    · rw [same]
      exact mem_map_of_mem mem
    · exact mem_map_of_mem hy
  have here : c.leaves.find? l'.virtualRequestId ≠ none := by simp [same, s.find mem]
  have ordered := orderedLeaves_insert s.inv here w
  rw [same, s.ordered] at ordered
  exact {
    inv := move.inv s.inv
    found := s.found
    there := s.there
    ordered := ordered
    routed := fun x hx => by
      obtain ⟨y, hy, e⟩ := mem_map.mp (ids x hx)
      exact e ▸ s.routed y hy
    tree := s.tree
    parent := s.parent
    bounded := fun x hx => by
      obtain ⟨y, hy, e⟩ := mem_map.mp (ids x hx)
      exact e ▸ s.bounded y hy }

end

theorem Stage.replaceAt (s : Stage c ref w (before ++ l :: behind) t) (step : LeafStep w l es l') :
    Stage { c with leaves := c.leaves.insert l.virtualRequestId l' } ref w (before ++ l' :: behind)
    t := by
  have mem : l ∈ before ++ l :: behind := by simp
  have own := s.inv.owns_of_mem (s.ordered ▸ mem)
  have next := s.replace mem l' step.same (.leaf s.found own step)
  rwa [replaceLeaf_append l' s.distinct step.same] at next

theorem step_of_wp {P : Coordinator → Prop}
    (h : wp (perform call) (fun b c' => b = a ∧ P c') (fun _ _ => False) c) :
    (step c call).2 = .ok a ∧ P (step c call).1 := by
  obtain ⟨ok, error⟩ := (wp_iff _ _ _ _).mp h
  cases ha : answer (perform call) c with
  | ok b =>
    obtain ⟨rfl, hp⟩ := ok b ha
    exact ⟨ha, hp⟩
  | error e => exact (error e ha).elim

theorem boundedInt_natCast {n maximum : Nat} (le : n ≤ maximum) :
    boundedInt name n maximum = .ok n := by
  rw [boundedInt, if_neg (by omega), Int.toNat_natCast]

theorem Stage.waveOf (s : Stage c ref w leaves t) {Q : WaveRef × Wave → Coordinator → Prop}
    {E : TreeError → Coordinator → Prop} : wp (waveOf w.parentRequestId) Q E c ↔ Q (ref, w) c := by
  simp [PhysicalTree.waveOf, boundedInt_natCast s.parent, check, s.there, s.found]

def Leaf.forked (l : Leaf) : Leaf := { l with forkSent := true }

def Leaf.verified (l : Leaf) (time : ℚ) : Leaf :=
  { l with verifySent := true, verifySentAt := some time }

theorem find?_append_cons {p : Leaf → Bool} (no : ∀ x ∈ before, p x = false) (yes : p l = true) :
    (before ++ l :: behind).find? p = some l := by
  rw [find?_append, find?_eq_none.mpr (fun x mem => by simp [no x mem]),
    find?_cons_of_pos yes]
  rfl

theorem Stage.fork (s : Stage c ref w (before ++ l :: behind) t)
    (phase : w.phase = .prepared ∨ w.phase = .forking) (sent : ∀ x ∈ before, x.forkSent = true)
    (fresh : l.forkSent = false) :
    (step c (.nextForkCommand w.parentRequestId)).2 =
    .ok (.fork (some ⟨l.virtualRequestId, w.parentRequestId⟩)) ∧
      Stage (step c (.nextForkCommand w.parentRequestId)).1 ref { w with phase := .forking }
        (before ++ l.forked :: behind) t := by
  have first : (before ++ l :: behind).find? (fun l => !l.forkSent) = some l :=
    find?_append_cons (fun x mem => by simp [sent x mem]) (by simp [fresh])
  apply step_of_wp (P := fun c' => Stage c' ref { w with phase := .forking }
    (before ++ l.forked :: behind) t)
  simp only [perform, wp_map, nextForkCommand, wp_bind, s.waveOf]
  rcases phase with phase | phase
  · have started := s.rephase (.wave s.found (.fork phase))
    simp only [phase, if_true, setWave, wp_modify, wp_raiseIf, wp_get]
    refine ⟨fun h => absurd rfl h, fun _ => ?_⟩
    rw [started.ordered, first]
    exact ⟨rfl, started.replaceAt (.fork rfl fresh)⟩
  have waiting : w.phase ≠ .prepared := by simp [phase]
  simp only [waiting, if_false, setWave, wp_modify, Coordinator.setWave_self s.found, wp_raiseIf,
    wp_get]
  refine ⟨fun h => absurd phase h, fun _ => ?_⟩
  rw [s.ordered, first]
  have same : { w with phase := .forking } = w := by rw [← phase]
  rw [same]
  exact ⟨rfl, s.replaceAt (.fork phase fresh)⟩

theorem Stage.forks (s : Stage c ref w (before ++ todo) t)
    (phase : w.phase = .forking ∨ w.phase = .prepared ∧ todo ≠ [])
    (sent : ∀ x ∈ before, x.forkSent = true) (fresh : ∀ x ∈ todo, x.forkSent = false) :
    answers c (List.replicate todo.length (.nextForkCommand w.parentRequestId)) =
        todo.map (fun l => .ok (.fork (some ⟨l.virtualRequestId, w.parentRequestId⟩))) ∧
      Stage (final step c (List.replicate todo.length (.nextForkCommand w.parentRequestId))) ref
        { w with phase := .forking } (before ++ todo.map Leaf.forked) t := by
  induction todo generalizing c w before with
  | nil =>
    have forking : w.phase = .forking := by simpa using phase
    have same : { w with phase := .forking } = w := by rw [← forking]
    rw [same]
    exact ⟨rfl, s⟩
  | cons l todo ih =>
    obtain ⟨answer, next⟩ := s.fork (phase.elim .inr fun h => .inl h.1) sent (fresh l mem_cons_self)
    rw [append_cons] at next
    have sent :=
      forall_mem_append.mpr ⟨sent, forall_mem_singleton.mpr (rfl : l.forked.forkSent = true)⟩
    obtain ⟨rest, last⟩ := ih next (.inl rfl) sent fun x mem => fresh x (mem_cons_of_mem _ mem)
    rw [length_cons, replicate_succ, answers_cons, answer]
    rw [append_assoc] at last
    exact ⟨congrArg _ rest, last⟩

theorem Stage.verify (s : Stage c ref w (before ++ l :: behind) t)
    (phase : w.phase = .forking ∨ w.phase = .verifying)
    (forked : ∀ x ∈ before ++ l :: behind, x.forkSent = true)
    (sent : ∀ x ∈ before, x.verifySent = true) (fresh : l.verifySent = false)
    (hnow : now.read = .ok time) :
    (step c (.nextVerifyCommand w.parentRequestId now)).2 = .ok (.verify (some
        ⟨l.virtualRequestId, w.inheritedStep, w.pendingToken :: l.path⟩)) ∧
      Stage (step c (.nextVerifyCommand w.parentRequestId now)).1 ref { w with phase := .verifying }
        (before ++ l.verified time :: behind) t := by
  have first : (before ++ l :: behind).find? (fun l => !l.verifySent) = some l :=
    find?_append_cons (fun x mem => by simp [sent x mem]) (by simp [fresh])
  have all : (before ++ l :: behind).any (fun l => !l.forkSent) = false := by
    rw [any_eq_false]
    intro x mem
    simp [forked x mem]
  apply step_of_wp (P := fun c' => Stage c' ref { w with phase := .verifying }
    (before ++ l.verified time :: behind) t)
  simp only [perform, wp_map, nextVerifyCommand, wp_bind, s.waveOf, wp_get, wp_raiseIf,
    s.ordered, all, Bool.false_eq_true, and_false, false_implies, not_false_eq_true, true_implies,
    true_and]
  rcases phase with phase | phase
  · have started := s.rephase (.wave s.found (.verify phase (by
      intro id x own
      exact forked x (s.ordered ▸ mem_orderedLeaves.mpr ⟨id, own⟩))))
    simp only [phase, if_true, setWave, wp_modify, wp_check, hnow, first]
    refine ⟨fun h => absurd rfl h, fun _ => ⟨fun x hx => ?_, fun e he => by cases he⟩⟩
    obtain rfl := Except.ok.inj hx
    exact ⟨rfl, started.replaceAt (.verify time rfl fresh)⟩
  · have waiting : w.phase ≠ .forking := by simp [phase]
    have same : { w with phase := .verifying } = w := by rw [← phase]
    simp only [waiting, if_false, setWave, wp_modify, Coordinator.setWave_self s.found, wp_check,
      hnow, first]
    refine ⟨fun h => absurd phase h, fun _ => ⟨fun x hx => ?_, fun e he => by cases he⟩⟩
    obtain rfl := Except.ok.inj hx
    rw [same]
    exact ⟨rfl, s.replaceAt (.verify time phase fresh)⟩

def verifiedAt (todo : List Leaf) (times : List ℚ) : List Leaf :=
  List.zipWith Leaf.verified todo times

theorem Stage.verifies {nows : List Now} (s : Stage c ref w (before ++ todo) t)
    (phase : w.phase = .verifying ∨ w.phase = .forking ∧ todo ≠ [])
    (forked : ∀ x ∈ before ++ todo, x.forkSent = true) (sent : ∀ x ∈ before, x.verifySent = true)
    (fresh : ∀ x ∈ todo, x.verifySent = false) (reads : nows.map Now.read = times.map .ok)
    (count : times.length = todo.length) :
    answers c (nows.map (.nextVerifyCommand w.parentRequestId ·)) = todo.map (fun l =>
        .ok (.verify (some ⟨l.virtualRequestId, w.inheritedStep, w.pendingToken :: l.path⟩))) ∧
      Stage (final step c (nows.map (.nextVerifyCommand w.parentRequestId ·))) ref
        { w with phase := .verifying } (before ++ verifiedAt todo times) t := by
  induction todo generalizing c w before nows times with
  | nil =>
    obtain rfl : times = [] := by simpa using count
    obtain rfl : nows = [] := by simpa using reads
    have verifying : w.phase = .verifying := by simpa using phase
    have same : { w with phase := .verifying } = w := by rw [← verifying]
    rw [same]
    exact ⟨rfl, s⟩
  | cons l todo ih =>
    obtain ⟨time, times, rfl⟩ : ∃ time rest, times = time :: rest :=
      exists_cons_of_length_eq_add_one count
    obtain ⟨now, nows, rfl⟩ : ∃ now rest, nows = now :: rest := by
      cases nows with
      | nil => cases reads
      | cons now nows => exact ⟨now, nows, rfl⟩
    obtain ⟨hnow, reads⟩ := List.cons.inj reads
    obtain ⟨answer, next⟩ := s.verify (phase.elim .inr fun h => .inl h.1) forked sent
      (fresh l mem_cons_self) hnow
    rw [append_cons] at next
    have forked : ∀ x ∈ before ++ [l.verified time] ++ todo, x.forkSent = true := by
      simpa [or_imp, forall_and, Leaf.verified] using forked
    have sent := forall_mem_append.mpr
      ⟨sent, forall_mem_singleton.mpr (rfl : (l.verified time).verifySent = true)⟩
    obtain ⟨rest, last⟩ :=
      ih next (.inl rfl) forked sent (fun x mem => fresh x (mem_cons_of_mem _ mem)) reads
      (Nat.succ.inj count)
    rw [map_cons, answers_cons, answer]
    rw [append_assoc] at last
    exact ⟨congrArg _ rest, last⟩

section Accept

variable {g : List Nat → Nat} (small : ∀ tokens, g tokens ≤ uint32Max)

def Leaf.answered (g : List Nat → Nat) (l : Leaf) : Leaf :=
  { l with result := some (targetsOf g l.path) }

def wireTargets (g : List Nat → Nat) (path : List Nat) : List Int :=
  (targetsOf g path).map Int.ofNat

structure Waits (w : Wave) (l : Leaf) : Prop where
  sent : l.verifySent = true
  unanswered : l.result = none
  live : l.returnTombstone = false
  targets : l.expectedTargets = 1 + l.path.length
  step : l.inheritedStep = w.inheritedStep

include small

theorem boundedTokens_wireTargets {name : String} (path : List Nat) :
    boundedTokens name (wireTargets g path) = .ok (targetsOf g path) := by
  have each : ∀ tokens : List Nat, (∀ token ∈ tokens, token ≤ uint32Max) →
      boundedTokens name (tokens.map Int.ofNat) = .ok tokens := by
    intro tokens
    induction tokens with
    | nil => exact fun _ => rfl
    | cons token tokens ih =>
      intro le
      rw [map_cons, boundedTokens, Int.ofNat_eq_natCast,
        boundedInt_natCast (le token mem_cons_self),
        ih fun token mem => le token (mem_cons_of_mem _ mem)]
      rfl
  apply each
  intro token mem
  obtain ⟨i, -, rfl⟩ := mem_map.mp mem
  exact small _

theorem Stage.accept (s : Stage c ref w leaves t) (phase : w.phase = .verifying)
    (fits : w.inheritedStep ≤ uint32Max) (mem : l ∈ leaves) (waits : Waits w l) {time : ℚ}
    (hnow : now.read = .ok time) (early : time < w.deadlineAt) {P : Coordinator → Prop}
    (h : ∀ c', Stage c' ref w (replaceLeaf (l.answered g) leaves) t → wp (if (replaceLeaf
      (l.answered g) leaves).any (fun l => l.result.isNone) = true then pure TreeResult.pending
      else resolveWave ref w) (fun b c' => b = a ∧ P c') (fun _ _ => False) c') :
    (step c (.acceptVerifyResult l.virtualRequestId w.inheritedStep (wireTargets g l.path) now)).2 =
    .ok (.result a) ∧
      P (step c (.acceptVerifyResult l.virtualRequestId w.inheritedStep (wireTargets g l.path)
        now)).1 := by
  have own := s.inv.owns_of_mem (s.ordered ▸ mem)
  have next := s.replace mem (l.answered g) rfl (.leaf s.found own (.result _ phase))
  have before : ¬w.deadlineAt ≤ time := not_le.mpr early
  have length : (targetsOf g l.path).length = l.expectedTargets := by
    simp [targetsOf, waits.targets, Nat.add_comm]
  apply step_of_wp (P := P)
  simp only [perform, wp_map, acceptVerifyResult, wp_bind, wp_check,
    boundedInt_natCast (s.bounded l mem), hnow, Except.ok.injEq, reduceCtorEq, false_implies,
    implies_true, and_true, forall_eq', wp_get, s.routed l mem, own.2, s.there, s.found,
    Option.bind_some, Option.map_some, before, and_false, false_and, if_false, waits.live,
    Bool.false_eq_true]
  simp only [acceptTargets, phase, waits.sent, waits.unanswered, ne_eq, not_true_eq_false, false_or,
    Bool.true_eq_false, if_false, Option.isSome_none, Bool.false_eq_true,
    boundedInt_natCast fits, waits.step, boundedTokens_wireTargets small, length]
  simp only [recordResult, wp_bind, setLeaf, wp_modify, wp_get]
  have result := h _ next
  rw [← next.ordered] at result
  refine wp_mono result ?_ fun _ _ no => no
  rintro b c' ⟨rfl, hp⟩
  exact ⟨rfl, hp⟩

omit small in
def marked (g : List Nat → Nat) (ids : List Nat) (leaves : List Leaf) : List Leaf :=
  leaves.map fun l => if l.virtualRequestId ∈ ids then l.answered g else l

omit small in
theorem marked_ids (ids : List Nat) (leaves : List Leaf) :
    (marked g ids leaves).map Leaf.virtualRequestId = leaves.map Leaf.virtualRequestId := by
  rw [marked, map_map]
  apply map_congr_left
  intro l _
  simp only [Function.comp_apply]
  split <;> rfl

omit small in
theorem replaceLeaf_marked (ids : List Nat) (distinct : (leaves.map Leaf.virtualRequestId).Nodup)
    (mem : l ∈ leaves) : replaceLeaf (l.answered g) (marked g ids leaves) =
      marked g (l.virtualRequestId :: ids) leaves := by
  rw [replaceLeaf, marked, marked, map_map]
  apply map_congr_left
  intro x hx
  have name : (if x.virtualRequestId ∈ ids then x.answered g else x).virtualRequestId =
      x.virtualRequestId := by split <;> rfl
  simp only [Function.comp_apply, name]
  by_cases e : x.virtualRequestId = l.virtualRequestId
  · obtain rfl : x = l := inj_on_of_nodup_map distinct hx mem e
    simp [Leaf.answered]
  · have : x.virtualRequestId ≠ (l.answered g).virtualRequestId := e
    simp [e, this]

theorem Stage.accepts {rest : List ((Nat × List Nat) × Now)}
    (s : Stage c ref w (marked g ids leaves) t) (phase : w.phase = .verifying)
    (fits : w.inheritedStep ≤ uint32Max) (waits : ∀ l ∈ leaves, Waits w l) (some : rest ≠ [])
    (owner : ∀ x ∈ rest, ∃ l ∈ leaves, x.1 = (l.virtualRequestId, l.path))
    (early : ∀ x ∈ rest, ∃ time, x.2.read = .ok time ∧ time < w.deadlineAt)
    (distinct : (rest.map fun x => x.1.1).Nodup) (fresh : ∀ x ∈ rest, x.1.1 ∉ ids)
    (all : ∀ l ∈ leaves, l.virtualRequestId ∈ ids ∨ l.virtualRequestId ∈ rest.map fun x => x.1.1)
    (commits : ∀ (c : Coordinator) (ref : WaveRef) (E : TreeError → Coordinator → Prop),
      c.orderedLeaves w = leaves.map (Leaf.answered g) → c.trees w.proposal.tree = t →
      wp (resolveWave ref w) (fun a _ => a = .commit plan) E c) :
    answers c (rest.map fun x =>
        .acceptVerifyResult x.1.1 w.inheritedStep (wireTargets g x.1.2) x.2) =
      List.replicate (rest.length - 1) (.ok (.result .pending)) ++
          [.ok (.result (.commit plan))] := by
  induction rest generalizing c ids with
  | nil => exact absurd rfl some
  | cons x rest ih =>
    obtain ⟨⟨id, path⟩, now⟩ := x
    obtain ⟨l, mem, pair⟩ := owner _ mem_cons_self
    obtain ⟨rfl, rfl⟩ := Prod.mk.inj pair
    obtain ⟨time, hnow, before⟩ := early _ mem_cons_self
    obtain ⟨apart, distinct⟩ := nodup_cons.mp distinct
    have unmarked := fresh _ mem_cons_self
    have here : l ∈ marked g ids leaves := mem_map.mpr ⟨l, mem, if_neg unmarked⟩
    have names : (leaves.map Leaf.virtualRequestId).Nodup :=
      marked_ids (g := g) ids leaves ▸ s.distinct
    have next := replaceLeaf_marked (g := g) ids names mem
    cases rest with
    | nil =>
      have last : marked g (l.virtualRequestId :: ids) leaves = leaves.map (Leaf.answered g) := by
        apply map_congr_left
        intro x hx
        apply if_pos
        have := all x hx
        simp only [map_cons, map_nil, mem_singleton] at this
        exact mem_cons.mpr this.symm
      obtain ⟨answer, -⟩ := s.accept small phase fits here (waits l mem) hnow before
        (a := .commit plan) (P := fun _ => True) (by
          intro c' s'
          rw [next, last] at s' ⊢
          have full : (leaves.map (Leaf.answered g)).any (fun l => l.result.isNone) = false := by
            simp [Leaf.answered]
          rw [full, if_neg (by simp)]
          exact wp_mono (commits c' ref _ s'.ordered s'.tree) (fun _ _ h => ⟨h, trivial⟩)
            fun _ _ h => h)
      rw [map_cons, answers_cons, answer]
      rfl
    | cons y rest =>
      obtain ⟨y', mem', pair'⟩ := owner y (by simp)
      have later : y'.virtualRequestId ∉ l.virtualRequestId :: ids := by
        have name : y.1.1 = y'.virtualRequestId := congrArg Prod.fst pair'
        rw [← name, mem_cons, not_or]
        exact ⟨fun e => apart (e ▸ by simp), fresh y (by simp)⟩
      obtain ⟨answer, after⟩ := s.accept small phase fits here (waits l mem) hnow before
        (a := .pending) (P := fun c' => Stage c' ref w (marked g (l.virtualRequestId :: ids) leaves)
          t) (by
          intro c' s'
          rw [next] at s' ⊢
          have open_ : (marked g (l.virtualRequestId :: ids) leaves).any
              (fun l => l.result.isNone) = true := by
            rw [any_eq_true]
            exact ⟨y', mem_map.mpr ⟨y', mem', if_neg later⟩, by simp [(waits y' mem').unanswered]⟩
          rw [open_, if_pos rfl]
          exact ⟨rfl, s'⟩)
      have tail := ih after (by simp) (fun x h => owner x (mem_cons_of_mem _ h))
        (fun x h => early x (mem_cons_of_mem _ h)) distinct (by
          intro x hx
          have later : x.1.1 ∈ (y :: rest).map fun x => x.1.1 := mem_map_of_mem hx
          rw [mem_cons, not_or]
          exact ⟨fun e => apart (e ▸ later), fresh x (mem_cons_of_mem _ hx)⟩)
        (by
          intro x hx
          rcases all x hx with h | h
          · exact .inl (mem_cons_of_mem _ h)
          rcases mem_cons.mp h with e | h
          · exact .inl (by simp [e])
          · exact .inr h)
      rw [map_cons, answers_cons, answer, tail]
      rfl

end Accept

theorem freshLeaves_pairs (step ordinal : Nat) (paths : List (List Nat)) (ids : List Nat) :
    (freshLeaves step ordinal paths ids).map (fun l => (l.virtualRequestId, l.path)) =
      ids.zip paths := by
  induction paths generalizing ordinal ids with
  | nil => simp [freshLeaves]
  | cons path paths ih =>
    cases ids with
    | nil => rfl
    | cons id ids => simpa [freshLeaves] using ih (ordinal + 1) ids

theorem Prepared.stage (inv : Inv c) (h : Prepared c a w leaves) :
    Stage (c.register w leaves) c.nextWave w leaves (c.trees w.proposal.tree) := by
  have distinct : (leaves.map Leaf.virtualRequestId).Nodup := by
    rw [h.ids]
    exact h.increasing.imp fun lt => Nat.ne_of_lt lt
  exact {
    inv := (Move.register h.toFresh).inv inv
    found := Dict.find?_insert_self ..
    there := Dict.find?_insert_self ..
    ordered := by
      rw [Coordinator.orderedLeaves, ← h.ids, filterMap_map]
      exact (filterMap_congr fun l mem => h.find_new mem).trans filterMap_some
    routed := fun l mem => Dict.find?_foldl_insert_of_mem Leaf.virtualRequestId
      (fun _ => w.parentRequestId) distinct c.leafRoute mem
    tree := rfl
    parent := h.parentId.2
    bounded := fun l mem => h.bounded _ (h.ids ▸ mem_map_of_mem mem) }

def PrepareArgs.leafPaths (a : PrepareArgs) : List (Nat × List Nat) :=
  (a.virtualRequestIds.map Int.toNat).zip (sortPaths a.proposal.candidatePaths)

def PrepareArgs.forks (a : PrepareArgs) : List ForkCommand :=
  a.leafPaths.map fun leaf => ⟨leaf.1, a.parentRequestId.toNat⟩

def PrepareArgs.verifies (a : PrepareArgs) : List VerifyCommand :=
  a.leafPaths.map fun leaf => ⟨leaf.1, a.inheritedStep.toNat, a.pendingToken.toNat :: leaf.2⟩

def PrepareArgs.launches (a : PrepareArgs) (nows : List Now) : List Call :=
  List.replicate a.leafPaths.length (.nextForkCommand a.parentRequestId) ++
    nows.map (.nextVerifyCommand a.parentRequestId ·)

section Launched

variable {a : PrepareArgs} (h : Prepared c a w leaves)

include h

theorem Prepared.pairs : leaves.map (fun l => (l.virtualRequestId, l.path)) = a.leafPaths := by
  rw [PrepareArgs.leafPaths, ← h.names]
  nth_rewrite 1 [h.paths]
  exact freshLeaves_pairs _ _ _ _

theorem Prepared.length_leafPaths : leaves.length = a.leafPaths.length := by
  rw [← h.pairs, length_map]

theorem Prepared.map_leafPaths {β : Type} (k : Nat × List Nat → β) :
    a.leafPaths.map k = leaves.map fun l => k (l.virtualRequestId, l.path) := by
  rw [← h.pairs, map_map]
  rfl

theorem Prepared.launched (inv : Inv c) (nonempty : leaves ≠ []) {nows : List Now}
    (reads : nows.map Now.read = times.map .ok) (count : times.length = leaves.length) :
    answers (c.register w leaves) (a.launches nows) =
        a.forks.map (fun command => .ok (.fork (some command))) ++
          a.verifies.map (fun command => .ok (.verify (some command))) ∧
      Stage (final PhysicalTree.step (c.register w leaves) (a.launches nows)) c.nextWave
        { w with phase := .verifying } (verifiedAt (leaves.map Leaf.forked) times)
        (c.trees w.proposal.tree) := by
  have fresh : ∀ l ∈ leaves, l.forkSent = false := fun l mem => (h.untouched l mem).1
  have start : Stage (c.register w leaves) c.nextWave w ([] ++ leaves) (c.trees w.proposal.tree) :=
    h.stage inv
  obtain ⟨forks, forked⟩ := start.forks (.inr ⟨h.phase, nonempty⟩) (by simp) fresh
  obtain ⟨verifies, verified⟩ := forked.verifies (.inr ⟨rfl, by simpa using nonempty⟩)
    (by simp [Leaf.forked]) (by simp) (by
      intro l mem
      obtain ⟨x, own, rfl⟩ := mem_map.mp mem
      rw [h.paths] at own
      exact (freshLeaves_untouched own).2.1) reads (by simpa using count)
  rw [PrepareArgs.launches, answers_append, final_append, ← h.length_leafPaths, h.parentId.1]
  refine ⟨?_, verified⟩
  rw [forks, verifies, PrepareArgs.forks, PrepareArgs.verifies, h.map_leafPaths, h.map_leafPaths,
    h.parentId.1, h.step.1, h.pendingToken]
  simp [Leaf.forked, Function.comp_def]

end Launched

theorem prepared_of_step (h : (step c (.prepareWave a)).2 = .ok (.wave ref)) :
    ∃ w leaves, Prepared c a w leaves ∧ (step c (.prepareWave a)).1 = c.register w leaves := by
  have spec : wp (perform (.prepareWave a)) (fun _ c' => ∃ w leaves, Prepared c a w leaves ∧
      c' = c.register w leaves) (fun _ _ => True) c := by
    rw [perform, wp_map]
    exact prepareWave_wp a (fun _ => trivial) fun w leaves prepared => ⟨w, leaves, prepared, rfl⟩
  exact ((wp_iff _ _ _ _).mp spec).1 _ h

theorem verifiedAt_map {β : Type} {k : Leaf → β} (same : ∀ l time, k (Leaf.verified l time) = k l)
    (count : times.length = todo.length) : (verifiedAt todo times).map k = todo.map k := by
  induction todo generalizing times with
  | nil => rfl
  | cons l todo ih =>
    obtain ⟨time, times, rfl⟩ := exists_cons_of_length_eq_add_one count
    rw [verifiedAt, zipWith_cons_cons, map_cons, map_cons, same]
    exact congrArg _ (ih (Nat.succ.inj count))

theorem verifiedAt_waits (h : Prepared c a w leaves) (times : List ℚ) :
    ∀ l ∈ verifiedAt (leaves.map Leaf.forked) times, Waits { w with phase := .verifying } l := by
  intro l mem
  rw [verifiedAt, ← map_uncurry_zip_eq_zipWith] at mem
  obtain ⟨⟨x, time⟩, both, rfl⟩ := mem_map.mp mem
  obtain ⟨y, hy, rfl⟩ := mem_map.mp (of_mem_zip both).1
  rw [h.paths] at hy
  obtain ⟨-, -, result, live, targets, step⟩ := freshLeaves_untouched hy
  exact ⟨rfl, result, live, targets, step⟩

section Returns

variable {a : PrepareArgs} (h : Prepared c a w leaves) {g : List Nat → Nat} {sent : List Leaf}
  (pairs : sent.map (fun l => (l.virtualRequestId, l.path)) = a.leafPaths)

include h pairs

theorem Prepared.sent_ids : sent.map Leaf.virtualRequestId = w.leaves := by
  have ids := congrArg (List.map Prod.fst) (pairs.trans h.pairs.symm)
  rw [map_map, map_map] at ids
  exact ids.trans h.ids

theorem Prepared.sent_distinct : (sent.map Leaf.virtualRequestId).Nodup := by
  rw [h.sent_ids pairs]
  exact h.increasing.imp fun lt => Nat.ne_of_lt lt

theorem Prepared.mem_candidatePaths (path : List Nat) :
    path ∈ a.proposal.candidatePaths ↔ ∃ l ∈ sent, l.path = path := by
  have paths : sent.map Leaf.path = sortPaths a.proposal.candidatePaths := by
    have second := congrArg (List.map Prod.snd) pairs
    rw [map_map, PrepareArgs.leafPaths, ← h.names, map_snd_zip h.length.ge] at second
    exact second
  rw [← (perm_insertionSort pathLe a.proposal.candidatePaths).mem_iff]
  change path ∈ sortPaths _ ↔ _
  rw [← paths, mem_map]

theorem Prepared.accepts (small : ∀ tokens, g tokens ≤ uint32Max)
    (s : Stage c' ref { w with phase := .verifying } sent t) (fits : a.proposal.Fits t)
    (waits : ∀ l ∈ sent, Waits { w with phase := .verifying } l) :
    ∃ plan, Resolved g { w with phase := .verifying } (sent.map (Leaf.answered g)) plan ∧
      ∀ order : List ((Nat × List Nat) × Now), (order.map Prod.fst).Perm a.leafPaths →
        (∀ x ∈ order, ∃ time deadline, x.2.read = .ok time ∧ a.deadlineAt = .finite deadline ∧
          time < deadline) →
        answers c' (order.map fun x =>
            .acceptVerifyResult x.1.1 a.inheritedStep (wireTargets g x.1.2) x.2) =
          List.replicate (a.leafPaths.length - 1) (.ok (.result .pending)) ++
            [.ok (.result (.commit plan))] := by
  have answered : ∀ l ∈ sent.map (Leaf.answered g), l.result = some (targetsOf g l.path) := by
    simp [Leaf.answered]
  have paths : ∀ path, path ∈ w.proposal.candidatePaths ↔
      ∃ l ∈ sent.map (Leaf.answered g), l.path = path := by
    intro path
    rw [h.proposal, h.mem_candidatePaths pairs]
    simp [Leaf.answered]
  obtain ⟨plan, resolved, commits⟩ := resolveWave_commits (w := { w with phase := .verifying })
    (h.proposal ▸ fits) answered paths
  refine ⟨plan, resolved, fun order perm early => ?_⟩
  have ids : (order.map fun x => x.1.1).Perm (sent.map Leaf.virtualRequestId) := by
    have first := perm.map Prod.fst
    rw [← pairs, map_map, map_map] at first
    exact first
  have nonempty : order ≠ [] := by
    obtain ⟨path, mem, -⟩ := (fits.has []).mp ⟨[], .root⟩
    obtain ⟨l, mem, -⟩ := (h.mem_candidatePaths pairs path).mp mem
    rintro rfl
    have := ids.symm.subset (mem_map_of_mem mem)
    cases this
  have same : marked g [] sent = sent := by simp [marked]
  rw [← perm.length_eq, length_map, h.step.1]
  apply (same.symm ▸ s).accepts small rfl (Nat.le_of_lt h.step.2) waits nonempty
  · intro x mem
    have := perm.subset (mem_map_of_mem mem)
    rw [← pairs] at this
    obtain ⟨l, own, e⟩ := mem_map.mp this
    exact ⟨l, own, e.symm⟩
  · intro x mem
    obtain ⟨time, deadline, read, given, before⟩ := early x mem
    obtain rfl : deadline = w.deadlineAt := by simpa using given.symm.trans h.deadline
    exact ⟨time, read, before⟩
  · exact ids.nodup_iff.mpr (h.sent_distinct pairs)
  · simp
  · exact fun l mem => .inr (ids.symm.subset (mem_map_of_mem mem))
  · exact commits

theorem Prepared.settles
    (resolved : Resolved g { w with phase := .verifying } (sent.map (Leaf.answered g)) plan)
    (base : (c.trees a.proposal.tree).basePrefixTokens = visible) {kv : Kv}
    (there : kv a.parentRequestId.toNat = some visible.dropLast)
    (absent : ∀ leaf ∈ a.leafPaths, kv leaf.1 = none) :
    ∃ kv', kv.run (a.forks.map .fork ++ a.verifies.map .verify ++ plan.commands.map .cleanup) =
    some kv' ∧
      kv' a.parentRequestId.toNat = some (visible ++ plan.resolution.commitTokens) ∧
      ∀ leaf ∈ a.leafPaths, kv' leaf.1 = none := by
  have ids : (sent.map (Leaf.answered g)).map Leaf.virtualRequestId =
      sent.map Leaf.virtualRequestId := by simp [Leaf.answered]
  have launched : launch { w with phase := .verifying } (sent.map (Leaf.answered g)) =
      a.forks.map .fork ++ a.verifies.map .verify := by
    rw [launch, PrepareArgs.forks, PrepareArgs.verifies, ← pairs, h.parentId.1, h.step.1,
      h.pendingToken]
    simp [Leaf.answered, Function.comp_def]
  have parent : a.parentRequestId.toNat = w.parentRequestId := by simp [h.parentId.1]
  have closed : ∀ {kv : Kv}, (∀ leaf ∈ a.leafPaths, kv leaf.1 = none) ↔
      ∀ id ∈ (sent.map (Leaf.answered g)).map Leaf.virtualRequestId, kv id = none := by
    intro kv
    rw [ids, ← pairs]
    simp
  subst base
  rw [parent] at there
  obtain ⟨kv', run, whole, none⟩ := Kv.run_plan (w := { w with phase := .verifying })
    (ids ▸ h.sent_distinct pairs) (ids ▸ h.sent_ids pairs ▸ h.parent) h.pending resolved h.nonempty
    h.base there (closed.mp absent)
  rw [launched] at run
  exact ⟨kv', run, parent ▸ whole, closed.mpr none⟩

end Returns

/-- Every wave over a built proposal is exact: its calls answer with the FORK and VERIFY of each
leaf; in whatever order the targets return, the last gives one plan with the tokens of greedy
decoding; and its commands leave the parent with the accepted tokens and close every leaf. -/
theorem physical_wave_is_exact {digest : Nat → List Nat → String} {paths : List (List Nat)}
    {requestId strategy : String} {ordinal version : Nat} {visible : List Nat} {tree : TreeRef}
    {p : Proposal} {t : Tree}
    (built : branchedCandidates digest paths requestId ordinal visible version strategy tree =
      .ok (p, t)) {trees : TreeRef → Tree} {earlier : List Call}
    (untouched : (final step (.init trees) earlier).trees tree = t)
    {a : PrepareArgs} (proposal : a.proposal = p) {ref : WaveRef}
    (prepared : (step (final step (.init trees) earlier) (.prepareWave a)).2 = .ok (.wave ref))
    {nows : List Now} {times : List ℚ} (reads : nows.map Now.read = times.map .ok)
    (count : times.length = a.leafPaths.length) {f : List Nat → Nat}
    (tokens : ∀ us, f us ≤ uint32Max) :
    answers (final step (.init trees) (earlier ++ [.prepareWave a])) (a.launches nows) =
        a.forks.map (fun command => .ok (.fork (some command))) ++
          a.verifies.map (fun command => .ok (.verify (some command))) ∧
      ∃ plan : TreeCommitPlan,
        plan.resolution.commitTokens = greedy f visible plan.resolution.commitTokens.length ∧
        plan.resolution.emittedTokens = greedy f visible (plan.resolution.commitTokens.length + 1) ∧
        (∀ order : List ((Nat × List Nat) × Now), (order.map Prod.fst).Perm a.leafPaths →
          (∀ x ∈ order, ∃ time deadline, x.2.read = .ok time ∧ a.deadlineAt = .finite deadline ∧
            time < deadline) →
          answers (final step (.init trees) (earlier ++ .prepareWave a :: a.launches nows))
              (order.map fun x => .acceptVerifyResult x.1.1 a.inheritedStep
                (wireTargets (fun us => f (visible ++ us)) x.1.2) x.2) =
            List.replicate (a.leafPaths.length - 1) (.ok (.result .pending)) ++
            [.ok (.result (.commit plan))]) ∧
        ∀ kv : Kv, kv a.parentRequestId.toNat = some visible.dropLast →
          (∀ leaf ∈ a.leafPaths, kv leaf.1 = none) →
          ∃ kv', kv.run
              (a.forks.map .fork ++ a.verifies.map .verify ++ plan.commands.map .cleanup) =
              some kv' ∧
            kv' a.parentRequestId.toNat = some (visible ++ plan.resolution.commitTokens) ∧
            ∀ leaf ∈ a.leafPaths, kv' leaf.1 = none := by
  obtain ⟨fits, -, rfl, base⟩ := branchedCandidates_fits built
  obtain ⟨w, leaves, h, next⟩ := prepared_of_step prepared
  have inv := final_inv trees earlier
  rw [final_append, final_append, final_cons, final_cons, final_nil, next]
  generalize final step (Coordinator.init trees) earlier = c at *
  subst proposal
  have length := h.length_leafPaths
  have nonempty : leaves ≠ [] := by
    obtain ⟨path, mem, -⟩ := (fits.has []).mp ⟨[], .root⟩
    obtain ⟨l, mem, -⟩ := (h.mem_candidatePaths h.pairs path).mp mem
    exact ne_nil_of_mem mem
  obtain ⟨launch, stage⟩ := h.launched inv nonempty reads (count.trans length.symm)
  have pairs : (verifiedAt (leaves.map Leaf.forked) times).map
      (fun l => (l.virtualRequestId, l.path)) = a.leafPaths := by
    rw [verifiedAt_map (fun _ _ => rfl) (by simp [count, length]), map_map, ← h.pairs]
    rfl
  have same : c.trees w.proposal.tree = t := h.proposal ▸ untouched
  rw [same] at stage
  obtain ⟨plan, resolved, order⟩ := h.accepts pairs (fun us => tokens (visible ++ us)) stage fits
    (verifiedAt_waits h times)
  have commit := resolved.greedy
  rw [greedy_shift, append_nil] at commit
  refine ⟨launch, plan, commit, ?_, order, fun kv there absent =>
    h.settles pairs resolved (untouched ▸ base) there absent⟩
  rw [resolved.emitted, greedy_succ, ← commit]

def threeLeaves : Except WaveError (Proposal × Tree) :=
  branchedCandidates (fun _ _ => "digest") [[2, 3], [2, 5], [4]] "request" 0 [7, 8] 1 "lookup" 0

theorem threeLeaves_isSome : threeLeaves.toOption.isSome := by decide +kernel

def threeLeavesWave : PrepareArgs where
  parentRequestId := 1
  proposal := (threeLeaves.toOption.get threeLeaves_isSome).1
  baseKvTokens := 1
  pendingToken := 8
  inheritedStep := 4
  virtualRequestIds := [10, 11, 12]
  deadlineAt := .finite 5

theorem physical_wave_is_exact_three_leaves :
    ∃ plan : TreeCommitPlan,
      plan.resolution.emittedTokens =
        greedy (fun us => us.length % 4) [7, 8] (plan.resolution.commitTokens.length + 1) ∧
      ∀ order : List ((Nat × List Nat) × Now),
        (order.map Prod.fst).Perm [(10, [4]), (11, [2, 3]), (12, [2, 5])] →
        (∀ x ∈ order, x.2 = .clock 2) →
        answers (final step (.init fun _ => (threeLeaves.toOption.get threeLeaves_isSome).2)
            (.prepareWave threeLeavesWave :: threeLeavesWave.launches [.clock 0, .clock 1,
              .clock 1]))
            (order.map fun x => .acceptVerifyResult x.1.1 4
              (wireTargets (fun us => ([7, 8] ++ us).length % 4) x.1.2) x.2) =
          [.ok (.result .pending), .ok (.result .pending), .ok (.result (.commit plan))] := by
  have built : ∀ (e : Except WaveError (Proposal × Tree)) (h : e.toOption.isSome),
      e = .ok (e.toOption.get h) := by
    intro e h
    cases e with
    | error _ => cases h
    | ok x => rfl
  have leaves : threeLeavesWave.leafPaths = [(10, [4]), (11, [2, 3]), (12, [2, 5])] := by
    decide +kernel
  have prepared : (step (final step
      (.init fun _ => (threeLeaves.toOption.get threeLeaves_isSome).2) [])
      (.prepareWave threeLeavesWave)).2 = .ok (.wave 0) := by
    decide +kernel
  have reads : [Now.clock 0, .clock 1, .clock 1].map Now.read = [0, 1, 1].map .ok := rfl
  have small : ∀ us : List Nat, us.length % 4 ≤ uint32Max := by
    intro us
    exact (Nat.mod_lt us.length (by decide)).le.trans (by decide)
  obtain ⟨-, plan, -, emitted, order, -⟩ := physical_wave_is_exact
    (built threeLeaves threeLeaves_isSome) rfl rfl prepared reads (by rw [leaves]; rfl) small
  refine ⟨plan, emitted, fun returns perm times => ?_⟩
  have answered := order returns (leaves ▸ perm) (by
    intro x mem
    exact ⟨2, 5, by rw [times x mem]; rfl, rfl, by norm_num⟩)
  rw [leaves] at answered
  exact answered

end Mycellios.PhysicalTree
