import Mycellios.PhysicalTree.Lifecycle

namespace Mycellios.PhysicalTree

open Data Dict Logic MacroWave

structure Linked (c : Coordinator) : Prop where
  registered : ∀ p ref, c.treeByParent.find? p = some ref → ∃ w, c.waves.find? ref = some w ∧
    w.parentRequestId = p
  routed : ∀ id p, c.leafRoute.find? id = some p →
    ∃ ref w, c.treeByParent.find? p = some ref ∧ c.waves.find? ref = some w ∧ id ∈ w.leaves
  fresh : ∀ ref w, c.waves.find? ref = some w → ref < c.nextWave
  known : ∀ ref w id, c.waves.find? ref = some w → id ∈ w.leaves →
    (id : Int) ≤ c.virtualIdHighWater ∧ ∃ l, c.leaves.find? id = some l
  named : ∀ id l, c.leaves.find? id = some l → l.virtualRequestId = id ∧
    ∃ ref w, c.waves.find? ref = some w ∧ id ∈ w.leaves
  owner : ∀ ref w ref' w' id, c.waves.find? ref = some w → c.waves.find? ref' = some w' →
    id ∈ w.leaves → id ∈ w'.leaves → ref = ref'
  distinct : ∀ ref w, c.waves.find? ref = some w → w.leaves.Pairwise (· < ·) ∧
    w.parentRequestId ∉ w.leaves

structure Consistent (c : Coordinator) (w : Wave) : Prop where
  unforked : w.phase = .prepared → ∀ id l, c.Owns w id l → l.forkSent = false
  forked : w.phase = .verifying → ∀ id l, c.Owns w id l → l.forkSent = true
  early : w.phase.early = true →
    w.cleanupCommands = [] ∧ w.cleanupIndex = 0 ∧ w.abortReason = none ∧ w.parentCancelSent = false
  unclosed : w.phase.early = true → ∀ id l, c.Owns w id l → l.physicallyClosed = false
  next : ∀ command, w.cleanupCommands[w.cleanupIndex]? = some command →
    w.phase = w.phaseBefore command ∧ w.abortReason = none ∧ w.parentCancelSent = false
  ordered : w.cleanupCommands.Pairwise CleanupCommand.Before
  pending : ∀ i command, w.cleanupIndex ≤ i → w.cleanupCommands[i]? = some command →
    ∀ id l, command.target = some id → c.Owns w id l → l.physicallyClosed = false
  committed : w.phase = .committed → w.parentCancelSent = false
  draining : w.phase = .draining → w.parentCancelSent = true ∧
    (∃ id l, c.Owns w id l ∧ l.Owed) ∧
    ∀ id l, c.Owns w id l → (c.leafRoute.find? id).isSome → l.returnTombstone = true
  drained : ∀ id l, c.Owns w id l → l.returnDrained = true → c.leafRoute.find? id = none
  owed : w.phase.early = true → ∀ id l, c.Owns w id l → l.returnDrained = true →
    ∃ id' l', c.Owns w id' l' ∧ l'.Owed
  healthy : w.phase ≠ .aborted → w.routeFatal = false
  fatal : w.routeFatal = true → ∀ id ∈ w.leaves, c.leafRoute.find? id = none

structure Inv (c : Coordinator) : Prop extends Linked c where
  wave : ∀ ref w, c.waves.find? ref = some w → Consistent c w

theorem Linked.init (trees : TreeRef → Tree) : Linked (Coordinator.init trees) := by
  constructor <;> simp [Coordinator.init]

theorem Inv.init (trees : TreeRef → Tree) : Inv (Coordinator.init trees) where
  toLinked := Linked.init trees
  wave := by simp [Coordinator.init]

variable {c c' : Coordinator} {ref : WaveRef} {w w' : Wave} {l l' : Leaf} {es : List Event}
  {leaves : List Leaf} {command : CleanupCommand} {id : Nat}

theorem exists_of_map_eq {α β : Type} {f : α → β} {x y : Option α} {a : α}
    (same : x.map f = y.map f) (found : x = some a) : ∃ b, y = some b ∧ f b = f a := by
  subst found
  exact Option.map_eq_some_iff.mp same.symm

theorem Linked.touch (h : Linked c) (parents : c'.treeByParent = c.treeByParent)
    (mark : c'.virtualIdHighWater = c.virtualIdHighWater) (counter : c'.nextWave = c.nextWave)
    (routes : ∀ id p, c'.leafRoute.find? id = some p → c.leafRoute.find? id = some p)
    (waves : ∀ ref, (c'.waves.find? ref).map (fun w => (w.parentRequestId, w.leaves)) =
      (c.waves.find? ref).map fun w =>
      (w.parentRequestId, w.leaves))
    (leaves : ∀ id, (c'.leaves.find? id).map Leaf.virtualRequestId =
      (c.leaves.find? id).map Leaf.virtualRequestId) :
    Linked c' := by
  have back : ∀ {ref w'}, c'.waves.find? ref = some w' → ∃ w, c.waves.find? ref = some w ∧
      w.parentRequestId = w'.parentRequestId ∧ w.leaves = w'.leaves := by
    intro ref w' found
    obtain ⟨w, there, same⟩ := exists_of_map_eq (waves ref) found
    exact ⟨w, there, Prod.mk.inj same⟩
  have forth : ∀ {ref w}, c.waves.find? ref = some w → ∃ w', c'.waves.find? ref = some w' ∧
      w.parentRequestId = w'.parentRequestId ∧ w.leaves = w'.leaves := by
    intro ref w found
    obtain ⟨w', there, same⟩ := exists_of_map_eq (waves ref).symm found
    exact ⟨w', there, Prod.mk.inj same.symm⟩
  refine ⟨?_, ?_, ?_, ?_, ?_, ?_, ?_⟩
  · intro p ref hp
    rw [parents] at hp
    obtain ⟨w, found, rfl⟩ := h.registered p ref hp
    obtain ⟨w', found', same, -⟩ := forth found
    exact ⟨w', found', same.symm⟩
  · intro id p hid
    obtain ⟨ref, w, there, found, mem⟩ := h.routed id p (routes id p hid)
    obtain ⟨w', found', -, same⟩ := forth found
    exact ⟨ref, w', parents ▸ there, found', same ▸ mem⟩
  · intro ref w' found'
    obtain ⟨w, found, -⟩ := back found'
    rw [counter]
    exact h.fresh ref w found
  · intro ref w' id found' mem
    obtain ⟨w, found, -, same⟩ := back found'
    obtain ⟨bound, l, here⟩ := h.known ref w id found (same ▸ mem)
    obtain ⟨l', here', -⟩ := exists_of_map_eq (leaves id).symm here
    exact ⟨mark ▸ bound, l', here'⟩
  · intro id l' here'
    obtain ⟨l, here, sameId⟩ := exists_of_map_eq (leaves id) here'
    obtain ⟨name, ref, w, found, mem⟩ := h.named id l here
    obtain ⟨w', found', -, same⟩ := forth found
    exact ⟨sameId.symm.trans name, ref, w', found', same ▸ mem⟩
  · intro ref₁ w₁' ref₂ w₂' id found₁' found₂' mem₁ mem₂
    obtain ⟨w₁, found₁, -, same₁⟩ := back found₁'
    obtain ⟨w₂, found₂, -, same₂⟩ := back found₂'
    exact h.owner ref₁ w₁ ref₂ w₂ id found₁ found₂ (same₁ ▸ mem₁) (same₂ ▸ mem₂)
  · intro ref w' found'
    obtain ⟨w, found, parent, same⟩ := back found'
    rw [← parent, ← same]
    exact h.distinct ref w found

theorem Consistent.frame (h : Consistent c w)
    (leaves : ∀ id ∈ w.leaves, c'.leaves.find? id = c.leaves.find? id)
    (routes : ∀ id ∈ w.leaves, ∀ p, c'.leafRoute.find? id = some p →
      c.leafRoute.find? id = some p) : Consistent c' w := by
  have unrouted : ∀ id ∈ w.leaves, c.leafRoute.find? id = none → c'.leafRoute.find? id = none :=
    fun id mem => find?_eq_none_of_imp (routes id mem)
  have owns : ∀ id l, c'.Owns w id l ↔ c.Owns w id l := by
    intro id l
    unfold Coordinator.Owns
    constructor
    · rintro ⟨mem, here⟩
      exact ⟨mem, leaves id mem ▸ here⟩
    · rintro ⟨mem, here⟩
      exact ⟨mem, (leaves id mem).trans here⟩
  refine ⟨?_, ?_, h.early, ?_, h.next, h.ordered, ?_, h.committed, ?_, ?_, ?_, h.healthy,
    fun fatal id mem => unrouted id mem (h.fatal fatal id mem)⟩
  · simpa only [owns] using h.unforked
  · simpa only [owns] using h.forked
  · simpa only [owns] using h.unclosed
  · simpa only [owns] using h.pending
  · intro phase
    obtain ⟨sent, owed, all⟩ := h.draining phase
    refine ⟨sent, by simpa only [owns] using owed, ?_⟩
    intro id l own live
    obtain ⟨p, hp⟩ := Option.isSome_iff_exists.mp live
    exact all id l ((owns id l).mp own) (Option.isSome_iff_exists.mpr ⟨p, routes id own.1 p hp⟩)
  · intro id l own gone
    exact unrouted id own.1 (h.drained id l ((owns id l).mp own) gone)
  · simpa only [owns] using h.owed

theorem Consistent.settled (drained : ∀ id l, c.Owns w' id l → l.returnDrained = true →
    c.leafRoute.find? id = none) (phase : w'.phase = .aborted ∨ w'.phase = .committed ∧
      w'.parentCancelSent = false ∧ w'.routeFatal = false)
    (fatal : w'.routeFatal = true → ∀ id ∈ w'.leaves, c.leafRoute.find? id = none)
    (ordered : w'.cleanupCommands.Pairwise CleanupCommand.Before)
    (done : w'.cleanupCommands[w'.cleanupIndex]? = none) : Consistent c w' := by
  have past : ∀ i command, w'.cleanupIndex ≤ i → w'.cleanupCommands[i]? ≠ some command := by
    intro i command le
    have := List.getElem?_eq_none_iff.mp done
    rw [List.getElem?_eq_none_iff.mpr (by omega)]
    simp
  refine ⟨?_, ?_, ?_, ?_, ?_, ordered, ?_, ?_, ?_, drained, ?_, ?_, fatal⟩
  · intro prepared
    simp [prepared] at phase
  · intro verifying
    simp [verifying] at phase
  · rcases phase with phase | ⟨phase, -⟩ <;> simp [phase, TreePhase.early]
  · rcases phase with phase | ⟨phase, -⟩ <;> simp [phase, TreePhase.early]
  · intro command hc
    simp [done] at hc
  · intro i command le hc
    exact absurd hc (past i command le)
  · intro committed
    simp only [committed, reduceCtorEq, false_or, true_and] at phase
    exact phase.1
  · intro draining
    simp [draining] at phase
  · rcases phase with phase | ⟨phase, -⟩ <;> simp [phase, TreePhase.early]
  · intro alive
    exact (phase.resolve_left alive).2.2

theorem Consistent.rephase (h : Consistent c w) (before : w.phase.early = true)
    (now : phase.early = true) (started : phase ≠ .prepared)
    (all : phase = .verifying → ∀ id l, c.Owns w id l → l.forkSent = true) :
    Consistent c { w with phase := phase } := by
  obtain ⟨empty, start, reason, unsent⟩ := h.early before
  refine ⟨fun e => absurd e started, all, fun _ => ⟨empty, start, reason, unsent⟩,
    fun _ => h.unclosed before, ?_, h.ordered, ?_, fun _ => unsent, ?_, h.drained,
    fun _ => h.owed before, fun _ => h.healthy ?_, h.fatal⟩
  · simp [empty]
  · simp [empty]
  · intro draining
    subst draining
    cases now
  · intro aborted
    rw [aborted] at before
    cases before

theorem Consistent.no_next (h : Consistent c w)
    (phase : w.phase ≠ .cleaning ∧ w.phase ≠ .promoting ∧ w.phase ≠ .truncating) :
    w.cleanupCommands[w.cleanupIndex]? = none := by
  cases hc : w.cleanupCommands[w.cleanupIndex]? with
  | none => rfl
  | some command =>
    obtain ⟨waits, reason, -⟩ := h.next command hc
    rw [waits] at phase
    cases command <;> simp [Wave.phaseBefore, reason] at phase

theorem Wave.phaseBefore_late (w : Wave) (command : CleanupCommand)
    (reason : w.abortReason = none) : w.phaseBefore command ≠ .prepared ∧
    w.phaseBefore command ≠ .verifying ∧
      (w.phaseBefore command).early = false ∧ w.phaseBefore command ≠ .draining := by
  cases command <;> simp [phaseBefore, reason, TreePhase.early]

theorem Consistent.waveStep (h : Consistent c w) (s : WaveStep c ref w es w') :
    Consistent c w' := by
  cases s with
  | fork phase | resolve phase =>
    apply h.rephase (by simp [phase, TreePhase.early]) rfl <;> simp
  | verify phase all =>
    exact h.rephase (by simp [phase, TreePhase.early]) rfl (by simp) fun _ => all
  | merge target phase | postpone =>
    exact ⟨h.unforked, h.forked, h.early, h.unclosed, h.next, h.ordered, h.pending, h.committed,
      h.draining, h.drained, h.owed, h.healthy, h.fatal⟩
  | plan resolution carrier first rest phase resolving ordered waits =>
    have isEarly : w.phase.early = true := by simp [resolving, TreePhase.early]
    obtain ⟨-, -, reason, unsent⟩ := h.early isEarly
    have waits := waits reason
    obtain ⟨notPrepared, notVerifying, notEarly, notDraining⟩ :=
      waits ▸ w.phaseBefore_late first reason
    refine ⟨fun e => absurd e notPrepared, fun e => absurd e notVerifying, ?_, ?_, ?_, ordered,
      ?_, fun _ => unsent, fun e => absurd e notDraining, h.drained, ?_,
      fun _ => h.healthy (by simp [resolving]), h.fatal⟩
    · simp [notEarly]
    · simp [notEarly]
    · intro command hc
      obtain rfl : first = command := by simpa using hc
      exact ⟨waits, reason, unsent⟩
    · intro _ _ _ _ id l _ own
      exact h.unclosed isEarly id l own
    · simp [notEarly]
  | abort reason healthy unrouted owed =>
    exact .settled h.drained (.inl rfl) (fun _ => unrouted) List.Pairwise.nil rfl
  | fallback reason phase =>
    obtain ⟨empty, -⟩ := h.early (by simp [phase, TreePhase.early])
    exact .settled h.drained (.inl rfl) h.fatal h.ordered (by simp [empty])
  | cancelCommitted phase =>
    exact .settled h.drained (.inl rfl) h.fatal h.ordered (h.no_next (by simp [phase]))
  | cancel waits phase owed =>
    obtain ⟨empty, -⟩ := h.early phase
    cases waits with
    | false => exact .settled h.drained (.inl rfl) h.fatal h.ordered (by simp [empty])
    | true =>
      obtain ⟨some, all⟩ := owed rfl
      have alive : w.phase ≠ .aborted := by
        intro aborted
        simp [aborted, TreePhase.early] at phase
      refine ⟨?_, ?_, ?_, ?_, ?_, h.ordered, ?_, ?_, fun _ => ⟨rfl, some, all⟩, h.drained, ?_,
        fun _ => h.healthy alive, h.fatal⟩ <;> simp [empty, TreePhase.early]

theorem Coordinator.owns_insert (c : Coordinator) (w : Wave) (l l' : Leaf) (id : Nat) (x : Leaf) :
    Coordinator.Owns { c with leaves := c.leaves.insert l.virtualRequestId l' } w id x ↔
      (id = l.virtualRequestId ∧ id ∈ w.leaves ∧ x = l') ∨
        (id ≠ l.virtualRequestId ∧ c.Owns w id x) := by
  unfold Coordinator.Owns
  rw [find?_insert]
  by_cases e : l.virtualRequestId = id
  · simp [e, eq_comm]
  · simp [e, Ne.symm e]

theorem Consistent.setLeaf (h : Consistent c w) (own : c.Owns w l.virtualRequestId l) (l' : Leaf)
    (routes : Dict Nat Nat) (fewer : ∀ id p, routes.find? id = some p →
      c.leafRoute.find? id = some p)
    (unforked : w.phase = .prepared → l'.forkSent = false)
    (forked : w.phase = .verifying → l'.forkSent = true)
    (closed : l'.physicallyClosed = l.physicallyClosed)
    (tombstone : l.returnTombstone = true → l'.returnTombstone = true)
    (gone : l'.returnDrained = true → routes.find? l.virtualRequestId = none)
    (owed : w.phase = .draining ∨ w.phase.early = true ∧
        (l'.returnDrained = true ∨ ∃ id x, c.Owns w id x ∧ x.returnDrained = true) →
      ∃ id x, Coordinator.Owns { c with leaves := c.leaves.insert l.virtualRequestId l' } w id x ∧
      x.Owed) :
    Consistent { c with
      leaves := c.leaves.insert l.virtualRequestId l', leafRoute := routes } w := by
  have owns := Coordinator.owns_insert c w l l'
  have unrouted : ∀ id, c.leafRoute.find? id = none → routes.find? id = none :=
    fun id => find?_eq_none_of_imp (fewer id)
  refine ⟨?_, ?_, h.early, ?_, h.next, h.ordered, ?_, h.committed, ?_, ?_, ?_, h.healthy,
    fun fatal id mem => unrouted id (h.fatal fatal id mem)⟩
  · intro phase id x hx
    rcases (owns id x).mp hx with ⟨rfl, -, rfl⟩ | ⟨-, hx⟩
    · exact unforked phase
    · exact h.unforked phase id x hx
  · intro phase id x hx
    rcases (owns id x).mp hx with ⟨rfl, -, rfl⟩ | ⟨-, hx⟩
    · exact forked phase
    · exact h.forked phase id x hx
  · intro phase id x hx
    rcases (owns id x).mp hx with ⟨rfl, -, rfl⟩ | ⟨-, hx⟩
    · exact closed.trans (h.unclosed phase _ l own)
    · exact h.unclosed phase id x hx
  · intro i command le hc id x target hx
    rcases (owns id x).mp hx with ⟨rfl, -, rfl⟩ | ⟨-, hx⟩
    · exact closed.trans (h.pending i command le hc _ l target own)
    · exact h.pending i command le hc id x target hx
  · intro phase
    obtain ⟨sent, -, all⟩ := h.draining phase
    refine ⟨sent, owed (.inl phase), ?_⟩
    intro id x hx live
    obtain ⟨p, hp⟩ := Option.isSome_iff_exists.mp live
    have before := Option.isSome_iff_exists.mpr ⟨p, fewer id p hp⟩
    rcases (owns id x).mp hx with ⟨rfl, -, rfl⟩ | ⟨-, hx⟩
    · exact tombstone (all _ l own before)
    · exact all id x hx before
  · intro id x hx drained
    rcases (owns id x).mp hx with ⟨rfl, -, rfl⟩ | ⟨-, hx⟩
    · exact gone drained
    · exact unrouted id (h.drained id x hx drained)
  · intro phase id x hx drained
    apply owed (.inr ⟨phase, ?_⟩)
    rcases (owns id x).mp hx with ⟨rfl, -, rfl⟩ | ⟨-, hx⟩
    · exact .inl drained
    · exact .inr ⟨id, x, hx, drained⟩

theorem Consistent.leafStep (h : Consistent c w) (own : c.Owns w l.virtualRequestId l)
    (s : LeafStep w l es l') :
    Consistent { c with leaves := c.leaves.insert l.virtualRequestId l' } w := by
  have drained : l'.returnDrained = l.returnDrained := by cases s <;> rfl
  have tombstone : l.returnTombstone = true → l'.returnTombstone = true := by
    cases s <;> simp
  apply h.setLeaf own l' c.leafRoute (fun _ _ h => h) _ _ _ tombstone
  · intro gone
    exact h.drained _ l own (drained.symm.trans gone)
  · intro cause
    have before : ∃ id x, c.Owns w id x ∧ x.Owed := by
      rcases cause with phase | ⟨phase, gone | ⟨id, x, hx, gone⟩⟩
      · exact (h.draining phase).2.1
      · exact h.owed phase _ l own (drained.symm.trans gone)
      · exact h.owed phase id x hx gone
    obtain ⟨id, x, hx, waits⟩ := before
    by_cases e : id = l.virtualRequestId
    · subst e
      obtain rfl : x = l := Option.some.inj (hx.2.symm.trans own.2)
      exact ⟨_, l', (c.owns_insert w x l' _ _).mpr (.inl ⟨rfl, own.1, rfl⟩), tombstone waits.1,
        drained.trans waits.2⟩
    · exact ⟨id, x, (c.owns_insert w l l' _ _).mpr (.inr ⟨e, hx⟩), waits⟩
  · intro phase
    cases s with
    | fork forking => simp [phase] at forking
    | verify _ verifying | result _ verifying => simp [phase] at verifying
    | tombstone => exact h.unforked phase _ l own
  · intro phase
    cases s with
    | fork => rfl
    | verify | result | tombstone => exact h.forked phase _ l own
  · cases s <;> rfl

theorem mem_outstandingTombstones (linked : ∀ id l, c.Owns w id l → l.virtualRequestId = id) :
    id ∈ c.outstandingTombstones w ↔ ∃ l, c.Owns w id l ∧ l.Owed := by
  simp only [Coordinator.outstandingTombstones, Coordinator.orderedLeaves, List.mem_map,
    List.mem_filter, List.mem_filterMap, Bool.and_eq_true, Bool.not_eq_true', Leaf.Owed]
  constructor
  · rintro ⟨l, ⟨⟨id', mem, here⟩, owed⟩, name⟩
    obtain rfl : id' = id := (linked id' l ⟨mem, here⟩).symm.trans name
    exact ⟨l, ⟨mem, here⟩, owed⟩
  · rintro ⟨l, own, owed⟩
    exact ⟨l, ⟨⟨id, own.1, own.2⟩, owed⟩, linked id l own⟩

theorem Consistent.drain (h : Consistent c w)
    (linked : ∀ id l, c.Owns w id l → l.virtualRequestId = id) (own : c.Owns w l.virtualRequestId l)
    (phase : TreePhase) (hphase : phase = if ((c.drain ref w
      l).outstandingTombstones w).isEmpty = true ∧
      (w.cleanupComplete = true ∨ w.phase = .draining) then .aborted else
      w.phase) : Consistent (c.drain ref w l) { w with phase := phase } := by
  have owns := Coordinator.owns_insert c w l { l with returnDrained := true }
  have linked' : ∀ id x, (c.drain ref w l).Owns w id x → x.virtualRequestId = id := by
    intro id x hx
    rcases (owns id x).mp hx with ⟨rfl, -, rfl⟩ | ⟨-, hx⟩
    · rfl
    · exact linked id x hx
  have drained : ∀ id x, (c.drain ref w l).Owns w id x → x.returnDrained = true →
      (c.drain ref w l).leafRoute.find? id = none := by
    intro id x hx gone
    simp only [Coordinator.drain, find?_erase]
    rcases (owns id x).mp hx with ⟨rfl, -, rfl⟩ | ⟨-, hx⟩
    · simp
    · simp [h.drained id x hx gone]
  have fatal : w.routeFatal = true → ∀ id ∈ w.leaves,
      (c.drain ref w l).leafRoute.find? id = none := by
    intro fatal id mem
    simp only [Coordinator.drain, find?_erase]
    simp [h.fatal fatal id mem]
  split at hphase
  case isTrue last =>
    subst hphase
    have done : w.cleanupCommands[w.cleanupIndex]? = none := by
      rcases last.2 with complete | draining
      · have : w.cleanupIndex = w.cleanupCommands.length := by
          simpa [Wave.cleanupComplete] using complete
        simp [this]
      · exact h.no_next (by simp [draining])
    exact .settled drained (.inl rfl) fatal h.ordered done
  case isFalse more =>
    subst hphase
    -- a wave that goes on still waits for another return
    have waits : w.phase = .draining ∨ w.phase.early = true →
        ∃ id x, (c.drain ref w l).Owns w id x ∧ x.Owed := by
      intro phase
      have going : w.cleanupComplete = true ∨ w.phase = .draining := by
        rcases phase with phase | phase
        · exact .inr phase
        · obtain ⟨empty, start, -⟩ := h.early phase
          exact .inl (by simp [Wave.cleanupComplete, empty, start])
      have some : (c.drain ref w l).outstandingTombstones w ≠ [] := by
        intro none
        exact more ⟨by simp [none], going⟩
      obtain ⟨id, mem⟩ := List.exists_mem_of_ne_nil _ some
      obtain ⟨x, hx, owed⟩ := (mem_outstandingTombstones linked').mp mem
      exact ⟨id, x, hx, owed⟩
    have set := h.setLeaf own { l with returnDrained := true }
      (c.leafRoute.erase l.virtualRequestId) (fun _ _ => find?_of_erase)
      (fun e => h.unforked e _ l own) (fun e => h.forked e _ l own) rfl (fun t => t)
      (fun _ => by simp) (fun cause => waits (cause.imp_right And.left))
    exact set.frame (fun _ _ => rfl) fun _ _ _ hp => hp

theorem Closes.owns (s : Closes c ref w command es c')
    (hx : c'.Owns w id x) : ∃ y, c.Owns w id y ∧ y.returnDrained = x.returnDrained ∧
      (command.target ≠ some id → y = x) := by
  cases s with
  | finish l pop own | promote p l own =>
    rcases (c.owns_insert w l _ id x).mp hx with ⟨rfl, -, rfl⟩ | ⟨-, hx⟩
    · exact ⟨l, own, rfl, fun other => absurd rfl other⟩
    · exact ⟨x, hx, rfl, fun _ => rfl⟩
  | truncate r k => exact ⟨x, hx, rfl, fun _ => rfl⟩

theorem Closes.routes (s : Closes c ref w command es c') (id p : Nat)
    (hp : c'.leafRoute.find? id = some p) : c.leafRoute.find? id = some p := by
  cases s with
  | finish l pop own =>
    cases pop with
    | true => exact find?_of_erase hp
    | false => exact hp
  | promote _ l own => exact find?_of_erase hp
  | truncate r k => exact hp

theorem Consistent.confirm (h : Consistent c w)
    (next : w.cleanupCommands[w.cleanupIndex]? = some command)
    (closes : Closes c ref w command es c') (advances : Advances ref w fs w') :
    Consistent c' w' := by
  obtain ⟨phase, reason, unsent⟩ := h.next command next
  have healthy : w.routeFatal = false := by
    apply h.healthy
    rw [phase]
    cases command <;> simp [Wave.phaseBefore, reason]
  have unrouted : ∀ id, c.leafRoute.find? id = none → c'.leafRoute.find? id = none :=
    fun id => find?_eq_none_of_imp (closes.routes id)
  have fatal : w.routeFatal = true → ∀ id ∈ w.leaves, c'.leafRoute.find? id = none :=
    fun fatal id mem => unrouted id (h.fatal fatal id mem)
  have drained : ∀ id x, c'.Owns w id x → x.returnDrained = true →
      c'.leafRoute.find? id = none := by
    intro id x hx gone
    obtain ⟨y, hy, same, -⟩ := closes.owns hx
    exact unrouted id (h.drained id y hy (same.trans gone))
  cases advances with
  | committed done => exact .settled drained (.inr ⟨rfl, unsent, healthy⟩) fatal h.ordered done
  | cancelled done => exact .settled drained (.inl rfl) fatal h.ordered done
  | next following hf =>
    obtain ⟨notPrepared, notVerifying, notEarly, notDraining⟩ := w.phaseBefore_late following reason
    refine ⟨fun e => absurd e notPrepared, fun e => absurd e notVerifying, ?_, ?_, ?_, h.ordered,
      ?_, fun _ => unsent, fun e => absurd e notDraining, drained, ?_, fun _ => healthy, fatal⟩
    · simp [notEarly]
    · simp [notEarly]
    · intro command' hc
      obtain rfl : following = command' := Option.mem_unique hf hc
      exact ⟨rfl, reason, unsent⟩
    · intro i command' le hc id x target hx
      obtain ⟨y, hy, -, same⟩ := closes.owns hx
      have other : command.target ≠ some id := by
        intro twice
        obtain ⟨hi, rfl⟩ := List.getElem?_eq_some_iff.mp next
        obtain ⟨hj, rfl⟩ := List.getElem?_eq_some_iff.mp hc
        have before := List.pairwise_iff_getElem.mp h.ordered w.cleanupIndex i hi hj le
        exact before.2 id twice target
      rw [← same other]
      exact h.pending i command' (by have : w.cleanupIndex + 1 ≤ i := le; omega) hc id y target hy
    · simp [notEarly]

section

variable (h : Fresh c w leaves)
include h

theorem Fresh.exists_leaf (mem : id ∈ w.leaves) : ∃ l ∈ leaves, l.virtualRequestId = id := by
  rw [← h.ids] at mem
  exact List.mem_map.mp mem

theorem Fresh.find_new (mem : l ∈ leaves) :
    (c.register w leaves).leaves.find? l.virtualRequestId = some l := by
  have distinct : (leaves.map Leaf.virtualRequestId).Nodup := by
    rw [h.ids]
    exact h.increasing.imp fun lt => Nat.ne_of_lt lt
  exact find?_foldl_insert_of_mem _ (fun l => l) distinct c.leaves mem

theorem Fresh.find_old (old : id ∉ w.leaves) :
    (c.register w leaves).leaves.find? id = c.leaves.find? id := by
  rw [← h.ids] at old
  exact find?_foldl_insert_of_not_mem _ (fun l => l) c.leaves old

theorem Fresh.mark :
    c.virtualIdHighWater ≤ (c.register w leaves).virtualIdHighWater ∧
      ∀ id ∈ w.leaves, (id : Int) ≤ (c.register w leaves).virtualIdHighWater := by
  have increasing := h.increasing
  have above := h.above
  simp only [Coordinator.register]
  cases hlast : w.leaves.getLast? with
  | none =>
    obtain empty : w.leaves = [] := by simpa using hlast
    simp [empty]
  | some last =>
    obtain ⟨front, hfront⟩ := List.getLast?_eq_some_iff.mp hlast
    rw [hfront] at increasing above
    have below := (List.pairwise_append.mp increasing).2.2
    constructor
    · have := above last (by simp)
      simp only [Option.map_some, Option.getD_some, Int.ofNat_eq_natCast]
      omega
    intro id mem
    simp only [Option.map_some, Option.getD_some, Int.ofNat_eq_natCast]
    rw [hfront] at mem
    rcases List.mem_append.mp mem with inFront | isLast
    · have := below id inFront last (by simp)
      omega
    · obtain rfl : id = last := by simpa using isLast
      exact le_rfl

theorem Fresh.not_old (linked : Linked c) (found : c.waves.find? ref₀ = some w₀)
    (mem : id ∈ w₀.leaves) : id ∉ w.leaves := by
  intro new
  have low := (linked.known ref₀ w₀ id found mem).1
  have high := h.above id new
  omega

end

theorem Coordinator.register_waves (c : Coordinator) (w : Wave) (leaves : List Leaf) (ref : WaveRef)
    (w' : Wave) : (c.register w leaves).waves.find? ref = some w' ↔
      ref = c.nextWave ∧ w' = w ∨ ref ≠ c.nextWave ∧ c.waves.find? ref = some w' := by
  simp only [Coordinator.register, find?_insert]
  by_cases e : c.nextWave = ref
  · simp [e, eq_comm]
  · simp [e, Ne.symm e]

theorem Linked.register (linked : Linked c) (h : Fresh c w leaves) :
    Linked (c.register w leaves) := by
  have older : ∀ {ref w₀}, c.waves.find? ref = some w₀ →
      (c.register w leaves).waves.find? ref = some w₀ := by
    intro ref w₀ found
    have lt := linked.fresh ref w₀ found
    exact (c.register_waves w leaves ref w₀).mpr (.inr ⟨Nat.ne_of_lt lt, found⟩)
  have newer : (c.register w leaves).waves.find? c.nextWave = some w :=
    (c.register_waves w leaves _ w).mpr (.inl ⟨rfl, rfl⟩)
  have parents : ∀ p, (c.register w leaves).treeByParent.find? p =
      if w.parentRequestId = p then some c.nextWave else c.treeByParent.find? p := by
    intro p
    simp [Coordinator.register]
  refine ⟨?_, ?_, ?_, ?_, ?_, ?_, ?_⟩
  · intro p ref hp
    rw [parents] at hp
    split at hp
    case isTrue same =>
      obtain rfl := Option.some.inj hp
      exact ⟨w, newer, same⟩
    case isFalse =>
      obtain ⟨w₀, found, parent⟩ := linked.registered p ref hp
      exact ⟨w₀, older found, parent⟩
  · intro id p hp
    by_cases new : id ∈ w.leaves
    · obtain ⟨l, mem, rfl⟩ := h.exists_leaf new
      have distinct : (leaves.map Leaf.virtualRequestId).Nodup := by
        rw [h.ids]
        exact h.increasing.imp fun lt => Nat.ne_of_lt lt
      have here := find?_foldl_insert_of_mem Leaf.virtualRequestId
        (fun _ => w.parentRequestId) distinct c.leafRoute mem
      obtain rfl : w.parentRequestId = p := Option.mem_unique here hp
      exact ⟨c.nextWave, w, by rw [parents, if_pos rfl], newer, new⟩
    · have away : id ∉ leaves.map Leaf.virtualRequestId := h.ids ▸ new
      have here := find?_foldl_insert_of_not_mem Leaf.virtualRequestId
        (fun _ => w.parentRequestId) c.leafRoute away
      obtain ⟨ref, w₀, there, found, mem⟩ := linked.routed id p (here.symm.trans hp)
      have other : w.parentRequestId ≠ p := by
        rintro rfl
        simp [h.vacant] at there
      exact ⟨ref, w₀, by rw [parents, if_neg other, there], older found, mem⟩
  · intro ref w₀ found
    rcases (c.register_waves w leaves ref w₀).mp found with ⟨rfl, -⟩ | ⟨-, found⟩
    · exact Nat.lt_succ_self _
    · exact Nat.lt_succ_of_lt (linked.fresh ref w₀ found)
  · intro ref w₀ id found mem
    rcases (c.register_waves w leaves ref w₀).mp found with ⟨rfl, rfl⟩ | ⟨-, found⟩
    · obtain ⟨l, hl, rfl⟩ := h.exists_leaf mem
      exact ⟨h.mark.2 _ mem, l, h.find_new hl⟩
    · obtain ⟨low, l, here⟩ := linked.known ref w₀ id found mem
      exact ⟨low.trans h.mark.1, l, (h.find_old (h.not_old linked found mem)).trans here⟩
  · intro id l here
    by_cases new : id ∈ w.leaves
    · obtain ⟨l₀, mem, rfl⟩ := h.exists_leaf new
      obtain rfl : l₀ = l := Option.some.inj ((h.find_new mem).symm.trans here)
      exact ⟨rfl, c.nextWave, w, newer, new⟩
    rw [h.find_old new] at here
    obtain ⟨name, ref, w₀, found, mem⟩ := linked.named id l here
    exact ⟨name, ref, w₀, older found, mem⟩
  · intro ref₁ w₁ ref₂ w₂ id found₁ found₂ mem₁ mem₂
    rcases (c.register_waves w leaves ref₁ w₁).mp found₁ with ⟨rfl, rfl⟩ | ⟨-, old₁⟩ <;>
      rcases (c.register_waves _ leaves ref₂ w₂).mp found₂ with ⟨rfl, rfl⟩ | ⟨-, old₂⟩
    · rfl
    · exact absurd mem₁ (h.not_old linked old₂ mem₂)
    · exact absurd mem₂ (h.not_old linked old₁ mem₁)
    · exact linked.owner ref₁ w₁ ref₂ w₂ id old₁ old₂ mem₁ mem₂
  · intro ref w₀ found
    rcases (c.register_waves w leaves ref w₀).mp found with ⟨rfl, rfl⟩ | ⟨-, found⟩
    · exact ⟨h.increasing, h.parent⟩
    · exact linked.distinct ref w₀ found

theorem Consistent.fresh (h : Fresh c w leaves) : Consistent (c.register w leaves) w := by
  have untouched : ∀ id l, (c.register w leaves).Owns w id l → l ∈ leaves := by
    rintro id l ⟨own, here⟩
    obtain ⟨l₀, mem, rfl⟩ := h.exists_leaf own
    obtain rfl : l₀ = l := Option.some.inj ((h.find_new mem).symm.trans here)
    exact mem
  refine ⟨?_, ?_, fun _ => ⟨h.commands, h.index, h.reason, h.unsent⟩, ?_, ?_, ?_, ?_,
    fun _ => h.unsent, ?_, ?_, ?_, fun _ => h.healthy, ?_⟩
  · intro _ id l own
    exact (h.untouched l (untouched id l own)).1
  · simp [h.phase]
  · intro _ id l own
    exact (h.untouched l (untouched id l own)).2.1
  · simp [h.commands]
  · simp [h.commands]
  · simp [h.commands]
  · simp [h.phase]
  · intro id l own gone
    simp [(h.untouched l (untouched id l own)).2.2] at gone
  · intro _ id l own gone
    simp [(h.untouched l (untouched id l own)).2.2] at gone
  · simp [h.healthy]

theorem Linked.retire (linked : Linked c) (found : c.waves.find? ref = some w)
    (there : c.treeByParent.find? w.parentRequestId = some ref)
    (unrouted : ∀ id ∈ w.leaves, c.leafRoute.find? id = none) :
    Linked { c with treeByParent := c.treeByParent.erase w.parentRequestId } := by
  refine ⟨?_, ?_, linked.fresh, linked.known, linked.named, linked.owner, linked.distinct⟩
  · intro p ref' hp
    exact linked.registered p ref' (find?_of_erase hp)
  intro id p hp
  obtain ⟨ref', w', there', found', mem⟩ := linked.routed id p hp
  have other : w.parentRequestId ≠ p := by
    rintro rfl
    obtain rfl : ref = ref' := Option.mem_unique there there'
    obtain rfl : w = w' := Option.mem_unique found found'
    simp [unrouted id mem] at hp
  exact ⟨ref', w', by simpa [other] using there', found', mem⟩

theorem WaveStep.same (s : WaveStep c ref w es w') : w'.parentRequestId = w.parentRequestId ∧
    w'.leaves = w.leaves := by
  cases s <;> exact ⟨rfl, rfl⟩

theorem Advances.same (s : Advances ref w es w') : w'.parentRequestId = w.parentRequestId ∧
    w'.leaves = w.leaves := by
  cases s <;> exact ⟨rfl, rfl⟩

theorem LeafStep.same (s : LeafStep w l es l') : l'.virtualRequestId = l.virtualRequestId := by
  cases s <;> rfl

theorem Inv.named_owns (h : Inv c) (id : Nat) (l : Leaf) (own : c.Owns w id l) :
    l.virtualRequestId = id := (h.named id l own.2).1

theorem Inv.change (h : Inv c) (found : c.waves.find? ref = some w)
    (waves : ∀ ref', c'.waves.find? ref' = if ref = ref' then some w' else c.waves.find? ref')
    (same : w'.parentRequestId = w.parentRequestId ∧ w'.leaves = w.leaves)
    (parents : c'.treeByParent = c.treeByParent)
    (mark : c'.virtualIdHighWater = c.virtualIdHighWater) (counter : c'.nextWave = c.nextWave)
    (routes : ∀ id p, c'.leafRoute.find? id = some p → c.leafRoute.find? id = some p)
    (names : ∀ id, (c'.leaves.find? id).map Leaf.virtualRequestId =
      (c.leaves.find? id).map Leaf.virtualRequestId)
    (others : ∀ id, id ∉ w.leaves → c'.leaves.find? id = c.leaves.find? id)
    (this : Consistent c' w') : Inv c' where
  toLinked := by
    apply h.toLinked.touch parents mark counter routes _ names
    intro ref'
    rw [waves]
    split
    case isTrue e => simp [← e, found, same]
    case isFalse => rfl
  wave := by
    intro ref' w₀ found'
    rw [waves] at found'
    split at found'
    case isTrue =>
      obtain rfl := Option.some.inj found'
      exact this
    case isFalse other =>
      apply (h.wave ref' w₀ found').frame _ fun id _ p => routes id p
      intro id mem
      apply others
      intro shared
      exact other (h.owner ref w ref' w₀ id found found' shared mem)

theorem Coordinator.insert_names (own : c.Owns w l.virtualRequestId l)
    (same : l'.virtualRequestId = l.virtualRequestId) (id : Nat) :
    ((c.leaves.insert l.virtualRequestId l').find? id).map Leaf.virtualRequestId =
      (c.leaves.find? id).map Leaf.virtualRequestId := by
  rw [find?_insert]
  split
  case isTrue e => simp [← e, own.2, same]
  case isFalse => rfl

theorem Coordinator.insert_others (own : c.Owns w l.virtualRequestId l) (other : id ∉ w.leaves) :
    (c.leaves.insert l.virtualRequestId l').find? id = c.leaves.find? id := by
  rw [find?_insert, if_neg]
  rintro rfl
  exact other own.1

theorem Closes.keeps (s : Closes c ref w command es c') :
    c'.waves = c.waves ∧ c'.treeByParent = c.treeByParent ∧
      c'.virtualIdHighWater = c.virtualIdHighWater ∧ c'.nextWave = c.nextWave ∧
      (∀ id, (c'.leaves.find? id).map Leaf.virtualRequestId =
        (c.leaves.find? id).map Leaf.virtualRequestId) ∧
      ∀ id, id ∉ w.leaves → c'.leaves.find? id = c.leaves.find? id := by
  cases s with
  | finish l pop own | promote p l own =>
    exact ⟨rfl, rfl, rfl, rfl, Coordinator.insert_names own rfl,
      fun _ => Coordinator.insert_others own⟩
  | truncate r k => exact ⟨rfl, rfl, rfl, rfl, fun _ => rfl, fun _ _ => rfl⟩

theorem Move.inv (m : Move c es c') (h : Inv c) : Inv c' := by
  cases m with
  | tree trees =>
    exact ⟨h.toLinked.touch rfl rfl rfl (fun _ _ hp => hp) (fun _ => rfl) fun _ => rfl,
      fun ref w found => (h.wave ref w found).frame (fun _ _ => rfl) fun _ _ _ hp => hp⟩
  | @register w leaves new =>
    refine ⟨h.toLinked.register new, ?_⟩
    intro ref w₀ found
    rcases (c.register_waves w leaves ref w₀).mp found with ⟨rfl, rfl⟩ | ⟨-, old⟩
    · exact Consistent.fresh new
    apply (h.wave ref w₀ old).frame
    · intro id mem
      exact new.find_old (new.not_old h.toLinked old mem)
    intro id mem p hp
    have away : id ∉ leaves.map Leaf.virtualRequestId :=
      new.ids ▸ new.not_old h.toLinked old mem
    exact (find?_foldl_insert_of_not_mem Leaf.virtualRequestId
      (fun _ => w.parentRequestId) c.leafRoute away).symm.trans hp
  | retire found there unrouted =>
    exact ⟨h.toLinked.retire found there unrouted,
      fun ref w found => (h.wave ref w found).frame (fun _ _ => rfl) fun _ _ _ hp => hp⟩
  | pop id =>
    exact ⟨h.toLinked.touch rfl rfl rfl (fun _ _ => find?_of_erase) (fun _ => rfl) fun _ => rfl,
      fun ref w found => (h.wave ref w found).frame (fun _ _ => rfl) fun _ _ _ => find?_of_erase⟩
  | @wave ref w w' _ found s =>
    exact h.change found (fun _ => find?_insert ..) s.same rfl rfl rfl (fun _ _ hp => hp)
      (fun _ => rfl) (fun _ _ => rfl)
      (((h.wave ref w found).waveStep s).frame (fun _ _ => rfl) fun _ _ _ hp => hp)
  | @leaf ref w l l' _ found own s =>
    have waves : ∀ ref', c.waves.find? ref' = if ref = ref' then some w
        else c.waves.find? ref' := by
      intro ref'
      split
      case isTrue e => exact e ▸ found
      case isFalse => rfl
    exact h.change found waves ⟨rfl, rfl⟩ rfl rfl rfl (fun _ _ hp => hp)
      (Coordinator.insert_names own s.same) (fun _ => Coordinator.insert_others own)
      ((h.wave ref w found).leafStep own s)
  | @drain ref w l found own owed =>
    exact h.change found (fun _ => find?_insert ..) ⟨rfl, rfl⟩ rfl rfl rfl
      (fun _ _ => find?_of_erase) (Coordinator.insert_names own rfl)
      (fun _ => Coordinator.insert_others own)
      ((h.wave ref w found).drain h.named_owns own _ rfl)
  | @confirm c₁ ref w w' command _ _ found next closes advances =>
    obtain ⟨waves, parents, mark, counter, names, others⟩ := closes.keeps
    exact h.change found (fun _ => by rw [waves, find?_insert]) advances.same parents mark
      counter closes.routes names others
      (((h.wave ref w found).confirm next closes advances).frame (fun _ _ => rfl)
        fun _ _ _ hp => hp)

end Mycellios.PhysicalTree
