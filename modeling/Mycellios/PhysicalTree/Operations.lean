import Mycellios.Logic.Wp
import Mycellios.PhysicalTree.Events

namespace Mycellios.PhysicalTree

open Data Logic MacroWave

variable {c c' : Coordinator} {ref : WaveRef} {w w' : Wave} {α : Type} {Q : α → Coordinator → Prop}
  {E : TreeError → Coordinator → Prop} {ids : List Nat} {leaves : List Leaf}

theorem boundedInt_eq_ok (h : boundedInt name value maximum = .ok n) :
    (n : Int) = value ∧ n ≤ maximum := by
  unfold boundedInt at h
  split at h
  · cases h
  · obtain rfl := Except.ok.inj h
    omega

abbrev Silent (c : Coordinator) : TreeError → Coordinator → Prop := fun _ c' => Run Move c [] c'

theorem wp_after_silent {β : Type} {m : CoordinatorM β} {f : β → List Event}
    (first : Run Move c [] c') (h : wp m (fun a d => Run Move c' (f a) d) (Silent c') c') :
    wp m (fun a d => Run Move c (f a) d) (Silent c) c' :=
  wp_mono h (fun _ _ run => first.trans run) fun _ _ run => first.trans run

theorem waveOf_spec (inv : Inv c) (parentRequestId : Int) (hE : ∀ e, E e c)
    {Q : WaveRef × Wave → Coordinator → Prop} (hQ : ∀ ref w, parentRequestId = w.parentRequestId →
      c.treeByParent.find? w.parentRequestId = some ref → c.waves.find? ref = some w →
        Q (ref, w) c) : wp (waveOf parentRequestId) Q E c := by
  rw [waveOf, wp_bind, wp_check]
  refine ⟨?_, fun e _ => hE e⟩
  intro parent hparent
  obtain ⟨cast, -⟩ := boundedInt_eq_ok hparent
  rw [wp_bind, wp_get]
  cases there : c.treeByParent.find? parent with
  | none => exact hE _
  | some ref =>
    obtain ⟨w, found, rfl⟩ := inv.registered parent ref there
    simp only [found, wp_pure]
    exact hQ ref w cast.symm there found

theorem onTree_spec {β : Type} (tree : TreeRef) (m : TreeM β)
    (hE : ∀ e trees, E e { c with trees := trees }) {Q : β → Coordinator → Prop}
    (hQ : ∀ a trees, Q a { c with trees := trees }) : wp (onTree tree m) Q E c := by
  unfold wp onTree
  cases m (c.trees tree) with
  | ok a t => exact hQ a _
  | error e t => exact hE _ _

theorem rollbackIfOpen_spec (wave : Wave) (hE : ∀ e trees, E e { c with trees := trees })
    {Q : Unit → Coordinator → Prop} (hQ : ∀ trees, Q () { c with trees := trees }) :
    wp (rollbackIfOpen wave) Q E c := by
  rw [rollbackIfOpen, wp_bind, wp_get, wp_ite]
  split
  · rw [wp_bind]
    exact onTree_spec _ _ hE fun _ trees => hQ trees
  · exact hQ c.trees

def Coordinator.unroute (c : Coordinator) (ids : List Nat) : Coordinator :=
  { c with leafRoute := ids.foldl Dict.erase c.leafRoute }

theorem Coordinator.unroute_find (c : Coordinator) (ids : List Nat) (id : Nat) :
    (c.unroute ids).leafRoute.find? id = if id ∈ ids then none else c.leafRoute.find? id := by
  induction ids generalizing c with
  | nil => simp [Coordinator.unroute]
  | cons first ids ih =>
    have step := ih { c with leafRoute := c.leafRoute.erase first }
    simp only [Coordinator.unroute, List.foldl_cons, Dict.find?_erase] at step ⊢
    rw [step]
    by_cases e : first = id
    · simp [e]
    · simp [e, Ne.symm e]

theorem unroute_run (c : Coordinator) (ids : List Nat) : Run Move c [] (c.unroute ids) := by
  induction ids generalizing c with
  | nil => exact .refl c
  | cons first ids ih => exact (Run.single (.pop c first)).trans (ih _)

theorem popRoutes_spec {Q : Unit → Coordinator → Prop} (ids : List Nat)
    (hQ : Q () (c.unroute ids)) : wp (popRoutes ids) Q E c := by
  induction ids generalizing c with
  | nil => exact hQ
  | cons first ids ih =>
    rw [popRoutes, wp_bind, popRoute, wp_modify]
    exact ih hQ

/-- `_abort_fatal` makes silent moves, whether the rollback raises or not. -/
theorem abortFatal_spec (found : c.waves.find? ref = some w) (healthy : w.routeFatal = false)
    (owed : w.phase = .draining → ∃ id ∈ w.leaves, reason = timeoutReason id) :
    wp (abortFatal ref w reason) (fun plan c' => Run Move c [] c' ∧ plan.routeFatal = true)
      (Silent c) c := by
  rw [abortFatal, wp_bind]
  apply rollbackIfOpen_spec
  · intro _ trees
    exact .single (.tree c trees)
  intro trees
  rw [wp_bind, setWave, wp_modify, wp_bind]
  apply popRoutes_spec
  rw [wp_pure]
  refine ⟨?_, rfl⟩
  -- the same state is reached with the routes removed first
  have first : Run Move c [] (Coordinator.unroute { c with trees := trees } w.leaves) :=
    (Run.single (.tree c trees)).trans (unroute_run _ _)
  have unrouted : ∀ id ∈ w.leaves,
      (Coordinator.unroute { c with trees := trees } w.leaves).leafRoute.find? id = none := by
    intro id mem
    rw [Coordinator.unroute_find, if_pos mem]
  exact first.tail (.wave found (.abort reason healthy unrouted owed))

theorem mem_orderedLeaves : l ∈ c.orderedLeaves w ↔ ∃ id, c.Owns w id l := by
  simp [Coordinator.orderedLeaves, Coordinator.Owns, List.mem_filterMap]

theorem Inv.owns_of_mem (inv : Inv c) (mem : l ∈ c.orderedLeaves w) :
    c.Owns w l.virtualRequestId l := by
  obtain ⟨id, own⟩ := mem_orderedLeaves.mp mem
  rwa [inv.named_owns id l own]

theorem Coordinator.setWave_self (found : c.waves.find? ref = some w) :
    { c with waves := c.waves.insert ref w } = c := by
  rw [Dict.insert_eq_self found]

theorem fork_spec (inv : Inv c) (found : c.waves.find? ref = some w) (phase : w.phase = .forking) :
    wp (match (c.orderedLeaves w).find? fun l => !l.forkSent with
      | none => pure none
      | some leaf => do
        setLeaf { leaf with forkSent := true }
        return some ⟨leaf.virtualRequestId, w.parentRequestId⟩ : CoordinatorM (Option ForkCommand))
      (fun a c' => Run Move c (a.map fun command => Event.fork command.childRequestId).toList c')
      (Silent c) c := by
  cases hl : (c.orderedLeaves w).find? fun l => !l.forkSent with
  | none => exact .refl c
  | some l =>
    have own := inv.owns_of_mem (List.mem_of_find?_eq_some hl)
    have fresh : l.forkSent = false := by simpa using List.find?_some hl
    have issue := Move.leaf found own (.fork phase fresh)
    exact .single issue

theorem nextForkCommand_spec (inv : Inv c) (parentRequestId : Int) :
    wp (nextForkCommand parentRequestId)
      (fun a c' => Run Move c (a.map fun command => Event.fork command.childRequestId).toList c')
      (Silent c) c := by
  rw [nextForkCommand, wp_bind]
  apply waveOf_spec inv _ fun _ => .refl c
  intro ref w _ _ found
  by_cases phase : w.phase = .prepared
  · have start : Move c [] { c with waves := c.waves.insert ref { w with phase := .forking } } :=
      .wave found (.fork phase)
    simp only [phase, if_true, wp_bind, setWave, wp_modify, wp_raiseIf, wp_get]
    refine ⟨fun h => absurd rfl h, fun _ => ?_⟩
    exact wp_after_silent (.single start)
      (fork_spec (start.inv inv) (Dict.find?_insert_self ..) rfl)
  simp only [phase, if_false, wp_bind, setWave, wp_modify, wp_raiseIf, wp_get,
    Coordinator.setWave_self found]
  refine ⟨fun _ => .refl c, fun forking => ?_⟩
  exact fork_spec inv found (not_not.mp forking)

theorem verify_spec (inv : Inv c) (found : c.waves.find? ref = some w)
    (phase : w.phase = .verifying) (now : Now) : wp (do
      let issuedAt ← check now.read
      match (c.orderedLeaves w).find? fun l => !l.verifySent with
      | none => return none
      | some leaf =>
        setLeaf { leaf with verifySent := true, verifySentAt := some issuedAt }
        return some ⟨leaf.virtualRequestId, w.inheritedStep, w.pendingToken :: leaf.path⟩ :
          CoordinatorM (Option VerifyCommand))
      (fun a c' => Run Move c (a.map fun command => Event.verify command.requestId).toList c')
      (Silent c) c := by
  rw [wp_bind, wp_check]
  refine ⟨?_, fun _ _ => .refl c⟩
  intro issuedAt _
  cases hl : (c.orderedLeaves w).find? fun l => !l.verifySent with
  | none => exact .refl c
  | some l =>
    have own := inv.owns_of_mem (List.mem_of_find?_eq_some hl)
    have fresh : l.verifySent = false := by simpa using List.find?_some hl
    have issue := Move.leaf found own (.verify issuedAt phase fresh)
    exact .single issue

theorem nextVerifyCommand_spec (inv : Inv c) (parentRequestId : Int) (now : Now) :
    wp (nextVerifyCommand parentRequestId now)
      (fun a c' => Run Move c (a.map fun command => Event.verify command.requestId).toList c')
      (Silent c) c := by
  rw [nextVerifyCommand, wp_bind]
  apply waveOf_spec inv _ fun _ => .refl c
  intro ref w _ _ found
  simp only [wp_bind, wp_get, wp_raiseIf]
  refine ⟨fun _ => .refl c, fun forked => ?_⟩
  by_cases phase : w.phase = .forking
  · have all : ∀ id l, c.Owns w id l → l.forkSent = true := by
      intro id l own
      have sent : ∀ l ∈ c.orderedLeaves w, l.forkSent = true := by simpa [phase] using forked
      exact sent l (mem_orderedLeaves.mpr ⟨id, own⟩)
    have start : Move c [] { c with waves := c.waves.insert ref { w with phase := .verifying } } :=
      .wave found (.verify phase all)
    simp only [phase, if_true, setWave, wp_modify]
    refine ⟨fun h => absurd rfl h, fun _ => ?_⟩
    rw [← wp_bind]
    exact wp_after_silent (.single start)
      (verify_spec (start.inv inv) (Dict.find?_insert_self ..) rfl now)
  · simp only [phase, if_false, setWave, wp_modify, Coordinator.setWave_self found]
    refine ⟨fun _ => .refl c, fun verifying => ?_⟩
    rw [← wp_bind]
    exact verify_spec inv found (not_not.mp verifying) now

theorem oldestLeaf_mem (a : Leaf) (rest : List Leaf) : oldestLeaf a rest ∈ a :: rest := by
  induction rest generalizing a with
  | nil => exact List.mem_cons_self
  | cons b rest ih =>
    rw [oldestLeaf]
    split
    · rcases List.mem_cons.mp (ih a) with same | later
      · rw [same]
        exact List.mem_cons_self
      · exact List.mem_cons_of_mem _ (List.mem_cons_of_mem _ later)
    · exact List.mem_cons_of_mem _ (ih b)

theorem timeoutPlan_spec (inv : Inv c) (found : c.waves.find? ref = some w)
    (phase : w.phase = .verifying ∨ w.phase = .draining) :
    wp (timeoutPlan ref w) (fun plan c' => Run Move c [] c' ∧ plan.routeFatal = true)
      (Silent c) c := by
  rw [timeoutPlan, wp_bind, wp_get]
  cases hl : (c.orderedLeaves w).filter Leaf.outstanding with
  | nil => exact .refl c
  | cons l rest =>
    have mem : oldestLeaf l rest ∈ c.orderedLeaves w := by
      have := oldestLeaf_mem l rest
      rw [← hl] at this
      exact List.mem_of_mem_filter this
    have healthy : w.routeFatal = false :=
      (inv.wave ref w found).healthy (by rcases phase with e | e <;> simp [e])
    rw [wp_bind]
    refine wp_post (abortFatal_spec found healthy ?_) ?_
    · intro _
      exact ⟨_, (inv.owns_of_mem mem).1, rfl⟩
    · rintro plan c' ⟨run, _⟩
      exact ⟨run, rfl⟩

theorem Inv.map_ids (inv : Inv c) (found : c.waves.find? ref = some w) :
    (c.orderedLeaves w).map Leaf.virtualRequestId = w.leaves := by
  have each : ∀ ids : List Nat, (∀ id ∈ ids, id ∈ w.leaves) →
      (ids.filterMap c.leaves.find?).map Leaf.virtualRequestId = ids := by
    intro ids
    induction ids with
    | nil => exact fun _ => rfl
    | cons id ids ih =>
      intro mem
      obtain ⟨l, here⟩ := (inv.known ref w id found (mem id List.mem_cons_self)).2
      rw [List.filterMap_cons_some here, List.map_cons, (inv.named id l here).1,
        ih fun id h => mem id (List.mem_cons_of_mem _ h)]
  exact each w.leaves fun _ h => h

theorem Inv.nodup_ids (inv : Inv c) (found : c.waves.find? ref = some w) :
    ((c.orderedLeaves w).map Leaf.virtualRequestId).Nodup := by
  rw [inv.map_ids found]
  exact (inv.distinct ref w found).1.imp fun lt => Nat.ne_of_lt lt

theorem commitCommands_ordered (wave : Wave) (resolution : Resolution)
    (carrier : Nat) (distinct : (leaves.map Leaf.virtualRequestId).Nodup) :
    (commitCommands wave resolution leaves carrier).Pairwise CleanupCommand.Before := by
  have losers : (((leaves.map Leaf.virtualRequestId).filter (· ≠ carrier)).insertionSort
      (· ≤ ·)).Nodup := (List.perm_insertionSort _ _).nodup_iff.mpr (distinct.filter _)
  have other : ∀ id ∈ ((leaves.map Leaf.virtualRequestId).filter (· ≠ carrier)).insertionSort
      (· ≤ ·), id ≠ carrier := by
    intro id mem
    rw [List.mem_insertionSort, List.mem_filter] at mem
    simpa using mem.2
  simp only [commitCommands]
  rw [List.append_assoc, List.pairwise_append]
  refine ⟨?_, ?_, ?_⟩
  · rw [List.pairwise_map]
    refine losers.imp ?_
    intro a b ne
    exact ⟨.inl ⟨a, rfl⟩, fun id h h' => ne (by simp_all [CleanupCommand.target])⟩
  · split <;> simp [CleanupCommand.Before, CleanupCommand.target]
  · intro a ha b hb
    obtain ⟨id, mem, rfl⟩ := List.mem_map.mp ha
    refine ⟨.inl ⟨id, rfl⟩, ?_⟩
    intro id' h h'
    obtain rfl : id = id' := by simpa [CleanupCommand.target] using h
    split at hb <;> simp at hb
    · rcases hb with rfl | rfl <;> simp [CleanupCommand.target] at h'
      exact other id mem h'.symm
    · subst hb
      simp [CleanupCommand.target] at h'
      exact other id mem h'.symm

theorem commitCommands_first (wave : Wave) (resolution : Resolution) (leaves : List Leaf)
    (carrier : Nat) : ∃ first rest, commitCommands wave resolution leaves carrier = first :: rest ∧
      (wave.abortReason = none → (match commitCommands wave resolution leaves carrier with
        | .finish _ :: _ => TreePhase.cleaning
        | _ => .promoting) = wave.phaseBefore first) := by
  simp only [commitCommands]
  cases ((leaves.map Leaf.virtualRequestId).filter (· ≠ carrier)).insertionSort (· ≤ ·) with
  | nil => exact ⟨_, _, rfl, fun _ => rfl⟩
  | cons id ids => exact ⟨_, _, rfl, fun reason => by simp [Wave.phaseBefore, reason]⟩

def TreeAbortPlan.events (ref : WaveRef) (plan : TreeAbortPlan) : List Event :=
  if plan.routeFatal then [] else [.fallback ref]

def TreeResult.events (ref : WaveRef) : TreeResult → List Event
  | .abort plan => plan.events ref
  | _ => []

theorem abort_spec {m : CoordinatorM TreeAbortPlan}
    (h : wp m (fun plan c' => Run Move c [] c' ∧ plan.routeFatal = true) (Silent c) c) :
    wp (TreeResult.abort <$> m) (fun a c' => Run Move c (a.events ref) c') (Silent c) c := by
  rw [wp_map]
  refine wp_post h ?_
  rintro plan c' ⟨run, fatal⟩
  simpa [TreeResult.events, TreeAbortPlan.events, fatal] using run

theorem tryResolve_spec (proposal : Proposal) (target : Dict (List Nat) Nat)
    {Q : Except WaveError Resolution → Coordinator → Prop}
    (hE : ∀ e trees, E e { c with trees := trees })
    (hQ : ∀ r trees, Q r { c with trees := trees }) : wp (tryResolve proposal target) Q E c := by
  unfold wp tryResolve
  cases resolveMacroWave proposal target (c.trees proposal.tree) with
  | ok r t => exact hQ _ _
  | error e t => cases e <;> first | exact hQ _ _ | exact hE _ _

theorem planCleanup_spec (inv : Inv c) (found : c.waves.find? ref = some w)
    (phase : w.phase = .resolving) (target : Dict (List Nat) Nat) (resolution : Resolution) :
    wp (planCleanup ref w target resolution) (fun a c' => Run Move c (a.events ref) c')
      (Silent c) c := by
  simp only [planCleanup, wp_bind, wp_get]
  cases carrierOf resolution.commitTokens (c.orderedLeaves w) with
  | none => exact .refl c
  | some carrier =>
    have ordered := commitCommands_ordered w resolution carrier (inv.nodup_ids found)
    obtain ⟨first, rest, shape, waits⟩ :=
      commitCommands_first w resolution (c.orderedLeaves w) carrier
    simp only [wp_bind, setWave, wp_modify, wp_pure]
    rw [shape] at ordered waits ⊢
    exact .single (.wave found (.plan resolution carrier first rest _ phase ordered waits))

theorem resolveMerged_spec (inv : Inv c) (found : c.waves.find? ref = some w)
    (phase : w.phase = .resolving) (target : Dict (List Nat) Nat) :
    wp (resolveMerged ref w target) (fun a c' => Run Move c (a.events ref) c') (Silent c) c := by
  have healthy : w.routeFatal = false := (inv.wave ref w found).healthy (by simp [phase])
  have live : w.phase ≠ .draining := by simp [phase]
  rw [resolveMerged, wp_ite]
  split
  · exact abort_spec (abortFatal_spec found healthy fun draining => absurd draining live)
  have merge := Move.wave found (.merge target phase)
  simp only [wp_bind, setWave, wp_modify]
  apply tryResolve_spec
  · intro _ trees
    exact (Run.single merge).tail (.tree _ trees)
  intro r trees
  have first := (Run.single merge).tail (.tree _ trees)
  cases r with
  | error e =>
    refine wp_after_silent first (abort_spec (abortFatal_spec ?_ healthy ?_))
    · exact Dict.find?_insert_self ..
    · exact fun draining => absurd draining live
  | ok resolution =>
    exact wp_after_silent first (planCleanup_spec (first.invariant (fun _ _ _ => Move.inv) inv)
      (Dict.find?_insert_self ..) phase target resolution)

theorem resolveWave_spec (inv : Inv c) (found : c.waves.find? ref = some w)
    (phase : w.phase = .verifying) :
    wp (resolveWave ref w) (fun a c' => Run Move c (a.events ref) c') (Silent c) c := by
  have start := Move.wave found (.resolve phase)
  have healthy : w.routeFatal = false := (inv.wave ref w found).healthy (by simp [phase])
  rw [resolveWave]
  simp only [wp_bind, setWave, wp_modify, wp_get]
  apply wp_after_silent (.single start)
  cases mergeResults _ Dict.empty with
  | error reason =>
    exact abort_spec (abortFatal_spec (Dict.find?_insert_self ..) healthy (by simp))
  | ok target => exact resolveMerged_spec (start.inv inv) (Dict.find?_insert_self ..) rfl target

/-- The answer that a tombstone's return was drained says whether the wave has others. -/
def Coordinator.Drains (c c' : Coordinator) (d : TombstoneDrain) : Prop :=
  ∃ ref w w', c.treeByParent.find? d.parentRequestId = some ref ∧ c.waves.find? ref = some w ∧
    c'.waves.find? ref = some w' ∧ d.virtualRequestId ∈ c.outstandingTombstones w ∧
    d.virtualRequestId ∉ c'.outstandingTombstones w' ∧
    (d.waveDrained = true ↔ c'.outstandingTombstones w' = [])

section Return

variable {l : Leaf} (inv : Inv c) (found : c.waves.find? ref = some w)
  (own : c.Owns w l.virtualRequestId l)

include inv found own

theorem drainTombstone_spec (there : c.treeByParent.find? parent = some ref)
    (tombstone : l.returnTombstone = true) :
    wp (drainTombstone ref w l parent)
      (fun a c' => Run Move c (a.events ref) c' ∧ ∀ d, a = .drain d → c.Drains c' d)
      (Silent c) c := by
  simp only [drainTombstone, wp_bind, wp_raiseIf]
  refine ⟨fun _ => .refl c, fun owed => ?_⟩
  have owes : l.Owed := ⟨tombstone, by simpa using owed⟩
  have drain := Move.drain found own owes
  refine ⟨.single drain, ?_⟩
  rintro d ⟨⟩
  refine ⟨ref, w, _, there, found, Dict.find?_insert_self .., ?_, fun mem => ?_, List.isEmpty_iff⟩
  · exact (mem_outstandingTombstones inv.named_owns).mpr ⟨l, own, owes⟩
  · obtain ⟨l', own', owes'⟩ := (mem_outstandingTombstones (drain.inv inv).named_owns).mp mem
    obtain rfl := Option.mem_unique own'.2 (Dict.find?_insert_self ..)
    exact absurd owes'.2 (by simp)

theorem recordResult_spec (targets : List Nat) (phase : w.phase = .verifying) :
    wp (recordResult ref w l targets) (fun a c' => Run Move c (a.events ref) c') (Silent c) c := by
  have record := Move.leaf found own (.result targets phase)
  simp only [recordResult, wp_bind, setLeaf, wp_modify, wp_get, wp_ite]
  split
  · exact .single record
  · exact wp_after_silent (.single record) (resolveWave_spec (record.inv inv) found phase)

omit inv found own in
theorem wp_acceptTargets {step : Int} {Q : TreeResult → Coordinator → Prop}
    {E : TreeError → Coordinator → Prop}
    (fails : ∀ reason, wp (TreeResult.abort <$> abortFatal ref w reason) Q E c)
    (records : ∀ targets, w.phase = .verifying → wp (recordResult ref w l targets) Q E c) :
    wp (acceptTargets ref w l step targetTokens) Q E c := by
  rw [acceptTargets, wp_ite]
  split
  · exact fails _
  case isFalse started =>
    have phase : w.phase = .verifying := by
      by_contra other
      exact started (.inl other)
    rw [wp_ite]
    split
    · exact fails _
    cases boundedInt "step" step uint32Max with
    | error e => exact fails _
    | ok observed =>
      simp only [wp_ite]
      split
      · exact fails _
      cases boundedTokens "target_tokens" targetTokens with
      | error e => exact fails _
      | ok targets =>
        simp only [wp_ite]
        split
        · exact fails _
        · exact records targets phase

theorem acceptTargets_spec (step : Int) (targetTokens : List Int)
    (routed : c.leafRoute.find? l.virtualRequestId = some parent)
    (live : l.returnTombstone = false) :
    wp (acceptTargets ref w l step targetTokens) (fun a c' => Run Move c (a.events ref) c')
      (Silent c) c := by
  have healthy : w.routeFatal = false := by
    cases fatal : w.routeFatal with
    | false => rfl
    | true => simp [(inv.wave ref w found).fatal fatal _ own.1] at routed
  have notDraining : w.phase ≠ .draining := by
    intro draining
    have all := ((inv.wave ref w found).draining draining).2.2
    simp [all _ l own (by simp [routed])] at live
  have fails : ∀ reason, wp (TreeResult.abort <$> abortFatal ref w reason)
      (fun a c' => Run Move c (a.events ref) c') (Silent c) c := fun reason =>
    abort_spec (abortFatal_spec found healthy fun draining => absurd draining notDraining)
  exact wp_acceptTargets fails (recordResult_spec inv found own)

omit inv found own in
theorem resolveWave_undrained :
    wp (resolveWave ref w) (fun a _ => ∀ d, a ≠ .drain d) (fun _ _ => True) c := by
  simp only [resolveWave, wp_bind, setWave, wp_modify, wp_get]
  split
  · simp
  simp only [resolveMerged, wp_ite, wp_bind, setWave, wp_modify]
  split
  · simp
  refine wp_post (wp_true _) fun resolved _ _ => ?_
  cases resolved with
  | error e => simp
  | ok resolution =>
    simp only [planCleanup, wp_bind, wp_get]
    split
    · trivial
    · exact fun d same => by cases same

omit inv found own in
theorem acceptTargets_undrained (step : Int) (targetTokens : List Int) :
    wp (acceptTargets ref w l step targetTokens) (fun a _ => ∀ d, a ≠ .drain d)
      (fun _ _ => True) c := by
  refine wp_acceptTargets (fun reason => by simp) fun targets _ => ?_
  simp only [recordResult, wp_bind, setLeaf, wp_modify, wp_get, wp_ite]
  split
  · exact fun d same => by cases same
  · exact resolveWave_undrained

end Return

def Coordinator.registeredWave (c : Coordinator) (parent : Nat) : WaveRef :=
  (c.treeByParent.find? parent).getD c.nextWave

theorem Coordinator.registeredWave_eq (there : c.treeByParent.find? w.parentRequestId = some ref) :
    c.registeredWave (Int.toNat w.parentRequestId) = ref := by
  simp [registeredWave, there]

def Coordinator.routedWave (c : Coordinator) (id : Nat) : WaveRef :=
  ((c.leafRoute.find? id).map c.registeredWave).getD c.nextWave

theorem acceptVerifyResult_spec (inv : Inv c) (virtualRequestId step : Int)
    (targetTokens : List Int) (now : Now) :
    wp (acceptVerifyResult virtualRequestId step targetTokens now)
      (fun a c' => Run Move c (a.events (c.routedWave virtualRequestId.toNat)) c' ∧
        ∀ d, a = .drain d → c.Drains c' d) (Silent c) c := by
  rw [acceptVerifyResult, wp_bind, wp_check]
  refine ⟨?_, fun _ _ => .refl c⟩
  intro id hid
  obtain ⟨rfl, -⟩ := boundedInt_eq_ok hid
  rw [wp_bind, wp_get, Int.toNat_natCast]
  cases routed : c.leafRoute.find? id with
  | none => exact .refl c
  | some parent =>
    obtain ⟨ref, w, there, found, mem⟩ := inv.routed id parent routed
    obtain ⟨l, here⟩ := (inv.known ref w id found mem).2
    obtain rfl := (inv.named id l here).1
    have own : c.Owns w l.virtualRequestId l := ⟨mem, here⟩
    have name : c.routedWave l.virtualRequestId = ref := by
      simp [Coordinator.routedWave, Coordinator.registeredWave, routed, there]
    simp only [here, there, found, Option.bind_some, Option.map_some, name]
    rw [wp_bind, wp_check]
    refine ⟨?_, fun _ _ => .refl c⟩
    intro observedAt _
    rw [wp_ite]
    split
    case isTrue overdue =>
      exact wp_and (abort_spec (timeoutPlan_spec inv found overdue.1)) (by simp)
    case isFalse =>
      rw [wp_ite]
      split
      case isTrue tombstone => exact drainTombstone_spec inv found own there tombstone
      case isFalse live =>
        refine wp_and (acceptTargets_spec inv found own step targetTokens routed
          (by simpa using live)) (wp_post (acceptTargets_undrained step targetTokens)
            fun a _ other d same => ?_)
        exact absurd same (other d)

def CleanupCommand.events (ref : WaveRef) : CleanupCommand → List Event
  | .finish id => [.closed id]
  | .promote _ id => [.closed id, .promoted ref]
  | .truncate .. => []

theorem closeLeaf_spec (inv : Inv c) (command : CleanupCommand) (hE : ∀ e, E e c)
    {Q : Unit → Coordinator → Prop} (hQ : ∀ c', Closes c ref w command (command.events ref) c' →
      Q () c') : wp (closeLeaf w command) Q E c := by
  cases command with
  | truncate r k => exact hQ c (.truncate r k)
  | finish id =>
    rw [closeLeaf, wp_bind, wp_get]
    cases here : c.leaves.find? id with
    | none => exact hE _
    | some l =>
      obtain rfl := (inv.named id l here).1
      simp only [wp_bind, wp_raiseIf, setLeaf, wp_modify, wp_ite]
      refine ⟨fun _ => hE _, fun mem => ?_⟩
      have own : c.Owns w l.virtualRequestId l := ⟨not_not.mp mem, here⟩
      split
      · exact hQ _ (.finish l true own)
      · exact hQ _ (.finish l false own)
  | promote p id =>
    rw [closeLeaf, wp_bind, wp_get]
    cases here : c.leaves.find? id with
    | none => exact hE _
    | some l =>
      obtain rfl := (inv.named id l here).1
      simp only [wp_bind, wp_raiseIf, setLeaf, wp_modify]
      refine ⟨fun _ => hE _, fun mem => ?_⟩
      exact hQ _ (.promote p l ⟨not_not.mp mem, here⟩)

theorem confirmCleanupCommand_spec (inv : Inv c) (parentRequestId : Int)
    (command : CleanupCommand) : wp (confirmCleanupCommand parentRequestId command)
      (fun a c' => Run Move c (command.events (c.registeredWave parentRequestId.toNat) ++
        (a.map fun _ => Event.cancelled (c.registeredWave parentRequestId.toNat)).toList) c')
      (Silent c) c := by
  rw [confirmCleanupCommand, wp_bind]
  apply waveOf_spec inv _ fun _ => .refl c
  rintro ref w rfl there found
  rw [c.registeredWave_eq there]
  dsimp only
  cases next : w.cleanupCommands[w.cleanupIndex]? with
  | none => exact .refl c
  | some expected =>
    have kept : w.abortReason.isSome = false := by
      rw [((inv.wave ref w found).next expected next).2.1]
      rfl
    simp only [wp_bind, wp_raiseIf]
    refine ⟨fun _ => .refl c, fun same => ?_⟩
    obtain rfl := not_not.mp same
    apply closeLeaf_spec inv command fun _ => .refl c
    intro c' closes
    cases following : w.cleanupCommands[w.cleanupIndex + 1]? with
    | some command' =>
      simp only [wp_bind, setWave, wp_modify, wp_pure]
      exact .single (.confirm found next closes (.next command' following))
    | none =>
      simp only [finishCleanup, kept, Bool.false_eq_true, if_false, wp_ite]
      split
      · simp only [wp_bind, setWave, wp_modify, wp_pure]
        exact .single (.confirm found next closes (.cancelled following))
      · simp only [wp_bind, setWave, wp_modify, wp_pure]
        exact .single (.confirm found next closes (.committed following))

def Leaf.Waiting (l : Leaf) : Prop := l.verifySent = true ∧ l.result.isNone = true

instance (l : Leaf) : Decidable l.Waiting := inferInstanceAs (Decidable (_ ∧ _))

def Leaf.tombstoned (l : Leaf) : Leaf := if l.Waiting then { l with returnTombstone := true } else l

theorem Leaf.tombstoned_owed {l : Leaf} (owed : l.Owed) : l.tombstoned.Owed := by
  unfold Leaf.tombstoned
  split
  · exact ⟨rfl, owed.2⟩
  · exact owed

structure Tombstoned (c c' : Coordinator) (leaves : List Leaf) : Prop where
  run : Run Move c [] c'
  waves : c'.waves = c.waves
  each : ∀ l ∈ leaves, c'.leaves.find? l.virtualRequestId = some l.tombstoned ∧
    (l.Waiting ∨ c'.leafRoute.find? l.virtualRequestId = none)
  others : ∀ id, id ∉ leaves.map Leaf.virtualRequestId → c'.leaves.find? id = c.leaves.find? id
  routes : ∀ id p, c'.leafRoute.find? id = some p → c.leafRoute.find? id = some p

theorem Tombstoned.cons (first : Move c [] c₁) (waves : c₁.waves = c.waves)
    (fresh : l.virtualRequestId ∉ leaves.map Leaf.virtualRequestId)
    (here : c₁.leaves.find? l.virtualRequestId = some l.tombstoned)
    (route : l.Waiting ∨ c₁.leafRoute.find? l.virtualRequestId = none)
    (others : ∀ id, id ≠ l.virtualRequestId → c₁.leaves.find? id = c.leaves.find? id)
    (routes : ∀ id p, c₁.leafRoute.find? id = some p → c.leafRoute.find? id = some p)
    (rest : Tombstoned c₁ c' leaves) : Tombstoned c c' (l :: leaves) where
  run := (Run.single first).trans rest.run
  waves := rest.waves.trans waves
  each := by
    intro x mem
    rcases List.mem_cons.mp mem with rfl | mem
    · refine ⟨(rest.others _ fresh).trans here, route.imp_right ?_⟩
      exact Dict.find?_eq_none_of_imp (rest.routes _)
    · exact rest.each x mem
  others := by
    intro id other
    rw [List.map_cons, List.mem_cons, not_or] at other
    exact (rest.others id other.2).trans (others id other.1)
  routes := fun id p hp => routes id p (rest.routes id p hp)

theorem tombstoneLeaves_spec (found : c.waves.find? ref = some w) (early : w.phase.early = true)
    (own : ∀ l ∈ leaves, c.Owns w l.virtualRequestId l)
    (distinct : (leaves.map Leaf.virtualRequestId).Nodup) :
    wp (tombstoneLeaves leaves) (fun draining c' => Tombstoned c c' leaves ∧
      draining = (leaves.filter fun l => l.Waiting).map Leaf.virtualRequestId) E c := by
  induction leaves generalizing c with
  | nil => exact ⟨⟨.refl c, rfl, by simp, fun _ _ => rfl, fun _ _ hp => hp⟩, rfl⟩
  | cons l leaves ih =>
    obtain ⟨fresh, distinct⟩ := List.nodup_cons.mp distinct
    have here := own l List.mem_cons_self
    have away : ∀ x ∈ leaves, l.virtualRequestId ≠ x.virtualRequestId := by
      intro x mem same
      exact fresh (same ▸ List.mem_map_of_mem mem)
    rw [tombstoneLeaves, wp_ite]
    split
    case isTrue waiting =>
      have waits : l.Waiting := waiting
      have first := Move.leaf found here (.tombstone early)
      simp only [wp_bind, setLeaf, wp_modify, wp_pure]
      refine wp_post (ih (c := { c with
        leaves := c.leaves.insert l.virtualRequestId { l with returnTombstone := true } })
        found ?_ distinct) ?_
      · intro x mem
        have own := own x (List.mem_cons_of_mem _ mem)
        exact ⟨own.1, by simp [away x mem, own.2]⟩
      rintro draining c' ⟨rest, rfl⟩
      refine ⟨.cons first rfl fresh ?_ (.inl waits) ?_ (fun _ _ hp => hp) rest, ?_⟩
      · simp [Leaf.tombstoned, waits]
      · intro id other
        simp [Ne.symm other]
      · simp [waits]
    case isFalse answered =>
      have settled : ¬l.Waiting := answered
      have first := Move.pop c l.virtualRequestId
      simp only [wp_bind, popRoute, wp_modify]
      refine wp_post (ih (c := { c with leafRoute := c.leafRoute.erase l.virtualRequestId })
        found (fun x mem => own x (List.mem_cons_of_mem _ mem)) distinct) ?_
      rintro draining c' ⟨rest, rfl⟩
      refine ⟨.cons first rfl fresh ?_ (.inr (by simp)) (fun _ _ => rfl)
        (fun _ _ => Dict.find?_of_erase) rest, ?_⟩
      · simp [Leaf.tombstoned, settled, here.2]
      · simp [settled]

def CancellationPlan.events (ref : WaveRef) (plan : CancellationPlan) : List Event :=
  plan.commands.filterMap fun command =>
    if command.requestId = plan.parentRequestId then some (.cancelled ref) else none

section

variable (inv : Inv c)
include inv

theorem cancel_events (found : c.waves.find? ref = some w) (draining : List Nat) :
    CancellationPlan.events ref ⟨w.parentRequestId,
      ((((c.orderedLeaves w).filter Leaf.forkSent).map Leaf.virtualRequestId).insertionSort
        (· ≤ ·) ++ [w.parentRequestId]).map CancelCommand.mk, false, draining⟩ =
        [.cancelled ref] := by
  have other : ∀ id ∈ (((c.orderedLeaves w).filter Leaf.forkSent).map
      Leaf.virtualRequestId).insertionSort (· ≤ ·), id ≠ w.parentRequestId := by
    rintro id mem rfl
    rw [List.mem_insertionSort, List.mem_map] at mem
    obtain ⟨l, hl, same⟩ := mem
    have own := inv.owns_of_mem (List.mem_of_mem_filter hl)
    exact (inv.distinct ref w found).2 (same ▸ own.1)
  simp only [CancellationPlan.events, List.map_append, List.filterMap_append]
  have created : List.filterMap (fun command : CancelCommand =>
      if command.requestId = w.parentRequestId then some (Event.cancelled ref) else none)
      (((((c.orderedLeaves w).filter Leaf.forkSent).map Leaf.virtualRequestId).insertionSort
        (· ≤ ·)).map CancelCommand.mk) = [] := by
    rw [List.filterMap_eq_nil_iff]
    intro command mem
    obtain ⟨id, hid, rfl⟩ := List.mem_map.mp mem
    exact if_neg (other id hid)
  rw [created]
  simp

theorem Tombstoned.owed (found : c.waves.find? ref = some w) (early : w.phase.early = true)
    (h : Tombstoned c c' (c.orderedLeaves w)) (waits : ∃ l ∈ c.orderedLeaves w, l.Waiting) :
    (∃ id l, c'.Owns w id l ∧ l.Owed) ∧
      ∀ id l, c'.Owns w id l → (c'.leafRoute.find? id).isSome → l.returnTombstone = true := by
  have after : ∀ {l}, l ∈ c.orderedLeaves w → c'.Owns w l.virtualRequestId l.tombstoned :=
    fun mem => ⟨(inv.owns_of_mem mem).1, (h.each _ mem).1⟩
  constructor
  · obtain ⟨l, mem, waiting⟩ := waits
    cases gone : l.returnDrained with
    | false =>
      refine ⟨_, _, after mem, ?_⟩
      simp only [Leaf.tombstoned, waiting, if_true]
      exact ⟨rfl, gone⟩
    | true =>
      -- this return came in after an earlier cancellation failed; another one is owed
      obtain ⟨id, l', own, owed⟩ :=
        (inv.wave ref w found).owed early _ l (inv.owns_of_mem mem) gone
      exact ⟨_, _, after (mem_orderedLeaves.mpr ⟨id, own⟩), Leaf.tombstoned_owed owed⟩
  · intro id l own live
    obtain ⟨l₀, here⟩ := (inv.known ref w id found own.1).2
    obtain rfl := (inv.named id l₀ here).1
    have mem : l₀ ∈ c.orderedLeaves w := mem_orderedLeaves.mpr ⟨_, own.1, here⟩
    obtain ⟨now, waiting | none⟩ := h.each l₀ mem
    · obtain rfl : l₀.tombstoned = l := Option.some.inj (now.symm.trans own.2)
      simp [Leaf.tombstoned, waiting]
    · simp [none] at live

theorem cancelWave_spec (found : c.waves.find? ref = some w) (early : w.phase.early = true) :
    wp (cancelWave ref w) (fun plan c' => Run Move c (plan.events ref) c') (Silent c) c := by
  simp only [cancelWave, wp_bind, wp_get]
  refine wp_mono (tombstoneLeaves_spec found early (fun _ => inv.owns_of_mem) (inv.nodup_ids found))
    ?_ fun _ _ run => run
  rintro draining c' ⟨tombstoned, rfl⟩
  apply rollbackIfOpen_spec
  · intro _ trees
    exact tombstoned.run.tail (.tree _ trees)
  intro trees
  simp only [setWave, wp_modify, wp_pure, cancel_events inv found]
  have found' : ({ c' with trees := trees } : Coordinator).waves.find? ref = some w := by
    rw [← found, ← tombstoned.waves]
  cases waits : ((c.orderedLeaves w).filter fun l => l.Waiting).map Leaf.virtualRequestId with
  | nil =>
    exact (tombstoned.run.tail (.tree _ trees)).trans
      (.single (.wave found' (.cancel false early (by simp))))
  | cons id ids =>
    have some : ∃ l ∈ c.orderedLeaves w, l.Waiting := by
      have mem : id ∈ ((c.orderedLeaves w).filter fun l => l.Waiting).map
          Leaf.virtualRequestId := by
        rw [waits]
        exact List.mem_cons_self
      obtain ⟨l, hl, -⟩ := List.mem_map.mp mem
      exact ⟨l, by simpa using hl⟩
    have owed := tombstoned.owed inv found early some
    exact (tombstoned.run.tail (.tree _ trees)).trans
      (.single (.wave found' (.cancel true early fun _ => owed)))

theorem requestCancel_spec (parentRequestId : Int) :
    wp (requestCancel parentRequestId)
      (fun plan c' => Run Move c (plan.events (c.registeredWave parentRequestId.toNat)) c')
      (Silent c) c := by
  rw [requestCancel, wp_bind]
  apply waveOf_spec inv _ fun _ => .refl c
  rintro ref w rfl there found
  have later :
      Run Move c [] { c with waves := c.waves.insert ref { w with cancelRequested := true } } :=
    .single (.wave found .postpone)
  rw [c.registeredWave_eq there]
  simp only [wp_bind, wp_get]
  cases phase : w.phase with
  | prepared | forking | verifying | resolving =>
    exact cancelWave_spec inv found (by rw [phase]; rfl)
  | cleaning | promoting | truncating | aborting =>
    rw [phase] at later
    exact later
  | aborted => exact .refl c
  | committed =>
    have cancel := Move.wave found (.cancelCommitted phase)
    simpa [wp_bind, setWave, CancellationPlan.events] using Run.single cancel
  | draining =>
    have sent := ((inv.wave ref w found).draining phase).1
    simp only [sent, true_or, if_true, wp_pure]
    exact .refl c

theorem abortBeforeWire_spec (parentRequestId : Int) (reason : String) :
    wp (abortBeforeWire parentRequestId reason)
      (fun plan c' => Run Move c (plan.events (c.registeredWave parentRequestId.toNat)) c')
      (Silent c) c := by
  rw [abortBeforeWire, wp_bind]
  apply waveOf_spec inv _ fun _ => .refl c
  rintro ref w rfl there found
  rw [c.registeredWave_eq there]
  simp only [wp_bind, wp_get, wp_raiseIf]
  refine ⟨fun _ => .refl c, fun unforked => ⟨fun _ => .refl c, fun _ => ?_⟩⟩
  have phase : w.phase = .prepared := by
    by_contra other
    exact unforked (.inl other)
  apply rollbackIfOpen_spec
  · intro _ trees
    exact .single (.tree c trees)
  intro trees
  simp only [setWave, wp_modify]
  apply popRoutes_spec
  have first :=
    (Run.single (Move.tree c trees)).tail (Move.wave found (.fallback (strip reason) phase))
  exact first.then_silent (unroute_run _ _)

theorem checkTimeoutsFrom_spec (observedAt : ℚ) (refs : List WaveRef) :
    wp (checkTimeoutsFrom observedAt refs)
      (fun plans c' => Run Move c [] c' ∧ ∀ plan ∈ plans, plan.routeFatal = true) (Silent c) c := by
  induction refs generalizing c with
  | nil => exact ⟨.refl c, by simp⟩
  | cons ref refs ih =>
    rw [checkTimeoutsFrom, wp_bind, wp_get]
    cases found : c.waves.find? ref with
    | none => exact ih inv
    | some w =>
      simp only [wp_ite]
      split
      case isTrue overdue =>
        simp only [wp_bind]
        refine wp_mono (timeoutPlan_spec inv found overdue.1) ?_ fun _ _ run => run
        rintro plan c' ⟨first, fatal⟩
        refine wp_mono (ih (first.invariant (fun _ _ _ => Move.inv) inv)) ?_ fun _ _ run =>
          first.trans run
        rintro plans c'' ⟨rest, fatals⟩
        exact ⟨first.trans rest, List.forall_mem_cons.mpr ⟨fatal, fatals⟩⟩
      case isFalse => exact ih inv

theorem checkTimeouts_spec (now : Number) :
    wp (checkTimeouts now) (fun plans c' => Run Move c (plans.flatMap fun plan =>
      plan.events (c.registeredWave plan.parentRequestId)) c') (Silent c) c := by
  rw [checkTimeouts, wp_bind, wp_check]
  refine ⟨?_, fun _ _ => .refl c⟩
  intro observedAt _
  rw [wp_bind, wp_get]
  refine wp_mono (checkTimeoutsFrom_spec inv observedAt _) ?_ fun _ _ run => run
  rintro plans c' ⟨run, fatal⟩
  have none : (plans.flatMap fun plan =>
      plan.events (c.registeredWave plan.parentRequestId)) = [] := by
    rw [List.flatMap_eq_nil_iff]
    intro plan mem
    simp [TreeAbortPlan.events, fatal plan mem]
  rwa [none]

theorem retireWave_spec (parentRequestId : Int) :
    wp (retireWave parentRequestId) (fun _ c' => Run Move c [] c') (Silent c) c := by
  rw [retireWave, wp_bind]
  apply waveOf_spec inv _ fun _ => .refl c
  intro ref w _ there found
  simp only [wp_bind, wp_get, wp_raiseIf, wp_modify, wp_pure]
  refine ⟨fun _ => .refl c, fun _ => ⟨fun _ => .refl c, fun quiet => ?_⟩⟩
  have unrouted : ∀ id ∈ w.leaves, c.leafRoute.find? id = none := by
    intro id mem
    cases hr : c.leafRoute.find? id with
    | none => rfl
    | some p => exact absurd ⟨id, mem, by simp [Dict.contains, hr]⟩ quiet
  exact .single (.retire found there unrouted)

end

theorem boundedIds_eq_ok (h : boundedIds values = .ok ids) :
    ids = values.map Int.toNat ∧ ∀ id ∈ ids, id ≤ uint64Max := by
  induction values generalizing ids with
  | nil =>
    obtain rfl := Except.ok.inj h
    simp
  | cons value values ih =>
    rw [boundedIds, bind_eq_ok] at h
    obtain ⟨id, hid, h⟩ := h
    obtain ⟨rest, hrest, h⟩ := bind_eq_ok.mp h
    obtain rfl := Except.ok.inj h
    obtain ⟨cast, le⟩ := boundedInt_eq_ok hid
    obtain ⟨same, bounded⟩ := ih hrest
    refine ⟨?_, List.forall_mem_cons.mpr ⟨le, bounded⟩⟩
    rw [List.map_cons, ← same, ← cast, Int.toNat_natCast]

theorem freshLeaves_ids (step ordinal : Nat) (h : ids.length = paths.length) :
    (freshLeaves step ordinal paths ids).map Leaf.virtualRequestId = ids := by
  induction paths generalizing ordinal ids with
  | nil => simp_all [freshLeaves]
  | cons path paths ih =>
    cases ids with
    | nil => cases h
    | cons id ids =>
      rw [freshLeaves, List.map_cons, ih (ordinal + 1) (Nat.succ.inj h)]

theorem freshLeaves_untouched {step ordinal : Nat} (mem : l ∈ freshLeaves step ordinal paths ids) :
    (l.forkSent = false ∧ l.physicallyClosed = false ∧ l.returnDrained = false) ∧
    l.verifySent = false ∧
      l.result = none ∧ l.returnTombstone = false ∧ l.expectedTargets = 1 + l.path.length ∧
      l.inheritedStep = step := by
  induction paths generalizing ordinal ids with
  | nil => simp [freshLeaves] at mem
  | cons path paths ih =>
    cases ids with
    | nil => simp [freshLeaves] at mem
    | cons id ids =>
      rw [freshLeaves] at mem
      rcases List.mem_cons.mp mem with rfl | mem
      · exact ⟨⟨rfl, rfl, rfl⟩, rfl, rfl, rfl, rfl, rfl⟩
      · exact ih mem

theorem above_of_head (increasing : ids.Pairwise (· < ·))
    (first : ¬∃ first ∈ ids.head?, (first : Int) ≤ mark) : ∀ id ∈ ids, mark < id := by
  cases ids with
  | nil => simp
  | cons first' ids =>
    have low : mark < first' := by simpa using first
    intro id mem
    rcases List.mem_cons.mp mem with rfl | mem
    · exact low
    · have := (List.pairwise_cons.mp increasing).1 id mem
      omega

structure Prepared (c : Coordinator) (a : PrepareArgs) (w : Wave) (leaves : List Leaf) : Prop
    extends Fresh c w leaves where
  parentId : a.parentRequestId = w.parentRequestId ∧ w.parentRequestId ≤ uint64Max
  proposal : w.proposal = a.proposal
  nonempty : (c.trees a.proposal.tree).basePrefixTokens ≠ []
  base : w.baseKvTokens = (c.trees a.proposal.tree).basePrefixTokens.length - 1
  pending : (c.trees a.proposal.tree).basePrefixTokens.getLast? = some w.pendingToken
  pendingToken : a.pendingToken = w.pendingToken
  step : a.inheritedStep = w.inheritedStep ∧ w.inheritedStep < uint32Max
  deadline : a.deadlineAt = .finite w.deadlineAt
  names : w.leaves = a.virtualRequestIds.map Int.toNat
  bounded : ∀ id ∈ w.leaves, id ≤ uint64Max
  paths : leaves = freshLeaves w.inheritedStep 0 (sortPaths a.proposal.candidatePaths) w.leaves
  length : w.leaves.length = (sortPaths a.proposal.candidatePaths).length

theorem finiteTime_eq_ok (h : finiteTime name value = .ok time) : value = .finite time := by
  cases value with
  | finite q =>
    rw [finiteTime] at h
    split at h
    · cases h
    · rw [Except.ok.inj h]
  | notFinite | tooLarge => cases h

theorem prepareWave_wp (a : PrepareArgs) {Q : WaveRef → Coordinator → Prop} (raised : ∀ e, E e c)
    (hQ : ∀ w leaves, Prepared c a w leaves → Q c.nextWave (c.register w leaves)) :
    wp (prepareWave a) Q E c := by
  rw [prepareWave]
  simp only [wp_bind, wp_check, wp_get, wp_raiseIf]
  refine ⟨fun parent hparent => ?_, fun e _ => raised e⟩
  refine ⟨fun base hbase => ?_, fun e _ => raised e⟩
  refine ⟨fun pending hpending => ?_, fun e _ => raised e⟩
  refine ⟨fun step hstep => ?_, fun e _ => raised e⟩
  refine ⟨fun deadline hdeadline => ?_, fun e _ => raised e⟩
  refine ⟨fun _ => raised _, fun opened => ?_⟩
  refine ⟨fun _ => raised _, fun vacant => ?_⟩
  refine ⟨fun _ => raised _, fun _ => ?_⟩
  refine ⟨fun _ => raised _, fun _ => ?_⟩
  refine ⟨fun _ _ => ?_, fun e _ => raised e⟩
  refine ⟨fun _ => raised _, fun _ => ?_⟩
  refine ⟨fun _ => raised _, fun count => ?_⟩
  refine ⟨fun ids hids => ?_, fun e _ => raised e⟩
  refine ⟨fun _ => raised _, fun chain => ?_⟩
  refine ⟨fun _ => raised _, fun above => ?_⟩
  refine ⟨fun _ => raised _, fun other => ?_⟩
  refine ⟨fun _ => raised _, fun _ => ?_⟩
  refine ⟨fun _ => raised _, fun nonempty => ?_⟩
  refine ⟨fun _ => raised _, fun last => ?_⟩
  refine ⟨fun _ => raised _, fun length => ?_⟩
  obtain ⟨rfl, bounded⟩ := boundedIds_eq_ok hids
  have increasing := List.isChain_iff_pairwise.mp (not_not.mp chain)
  have same : (a.virtualRequestIds.map Int.toNat).length =
      (sortPaths a.proposal.candidatePaths).length := by simpa using count
  apply hQ
  exact {
    ids := freshLeaves_ids _ _ same
    increasing := increasing
    above := above_of_head increasing above
    parent := other
    vacant := by simpa [Dict.contains] using vacant
    phase := rfl
    commands := rfl
    index := rfl
    reason := rfl
    unsent := rfl
    healthy := rfl
    untouched := fun _ mem => (freshLeaves_untouched mem).1
    parentId := ⟨(boundedInt_eq_ok hparent).1.symm, (boundedInt_eq_ok hparent).2⟩
    proposal := rfl
    nonempty := nonempty
    base := not_not.mp length
    pending := not_not.mp last
    pendingToken := (boundedInt_eq_ok hpending).1.symm
    step := ⟨(boundedInt_eq_ok hstep).1.symm,
      Nat.lt_of_le_of_lt (boundedInt_eq_ok hstep).2 (by decide)⟩
    deadline := finiteTime_eq_ok hdeadline
    names := rfl
    bounded := bounded
    paths := rfl
    length := same }

theorem prepareWave_spec (a : PrepareArgs) :
    wp (prepareWave a) (fun ref c' =>
      Run Move c [.prepared ref (a.virtualRequestIds.map Int.toNat)] c') (Silent c) c := by
  apply prepareWave_wp a fun _ => .refl c
  intro w leaves prepared
  rw [← prepared.names]
  exact .single (.register prepared.toFresh)

end Mycellios.PhysicalTree
