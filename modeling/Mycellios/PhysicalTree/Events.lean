import Mycellios.PhysicalTree.Invariant

namespace Mycellios.PhysicalTree

open Data Dict Logic MacroWave

variable {c c' : Coordinator} {ref : WaveRef} {w w' : Wave} {l l' : Leaf} {es : List Event}
  {command : CleanupCommand} {id : Nat}

structure Leaf.Le (l l' : Leaf) : Prop where
  fork : l.forkSent = true → l'.forkSent = true
  verify : l.verifySent = true → l'.verifySent = true
  closed : l.physicallyClosed = true → l'.physicallyClosed = true

theorem Leaf.Le.refl (l : Leaf) : l.Le l := ⟨id, id, id⟩

structure Wave.Le (w w' : Wave) : Prop where
  leaves : w'.leaves = w.leaves
  late : w.phase.late = true → w'.phase.late = true
  sent : w.parentCancelSent = true → w'.parentCancelSent = true
  aborted : w.phase = .aborted → w'.phase = .aborted

theorem Wave.Le.refl (w : Wave) : w.Le w := ⟨rfl, id, id, id⟩

theorem LeafStep.le (s : LeafStep w l es l') : l.Le l' := by
  cases s <;> constructor <;> simp

theorem WaveStep.le (s : WaveStep c ref w es w') : w.Le w' := by
  refine ⟨s.same.2, ?_, ?_, ?_⟩
  · cases s with
    | cancel waits phase =>
      intro late
      cases hp : w.phase <;> simp [hp, TreePhase.early, TreePhase.late] at phase late
    | _ => simp_all [TreePhase.late]
  · cases s <;> simp
  · cases s with
    | cancel waits phase =>
      intro aborted
      simp [aborted, TreePhase.early] at phase
    | _ => simp_all

theorem Consistent.truncate_follows
    (h : Consistent c w) (next : w.cleanupCommands[i]? = some command)
    (notFinish : ¬∃ id, command = .finish id) (hf : w.cleanupCommands[i + 1]? = some following) :
    ∃ r k, following = .truncate r k := by
  obtain ⟨hi, rfl⟩ := List.getElem?_eq_some_iff.mp next
  obtain ⟨hj, rfl⟩ := List.getElem?_eq_some_iff.mp hf
  have before := List.pairwise_iff_getElem.mp h.ordered _ _ hi hj (Nat.lt_succ_self _)
  exact before.1.resolve_left notFinish

theorem Advances.le (h : Consistent c w) (next : w.cleanupCommands[w.cleanupIndex]? = some command)
    (s : Advances ref w es w') : w.Le w' := by
  obtain ⟨phase, reason, unsent⟩ := h.next command next
  have notAborted : w.phase ≠ .aborted := by
    rw [phase]
    cases command <;> simp [Wave.phaseBefore, reason]
  refine ⟨s.same.2, ?_, ?_, fun aborted => absurd aborted notAborted⟩
  · intro late
    cases s with
    | committed | cancelled => rfl
    | next following hf =>
      have notFinish : ¬∃ id, command = .finish id := by
        rintro ⟨id, rfl⟩
        simp [phase, Wave.phaseBefore, reason, TreePhase.late] at late
      obtain ⟨r, k, rfl⟩ := h.truncate_follows next notFinish hf
      rfl
  · cases s <;> simp

theorem Move.wave_le (m : Move c es c') (h : Inv c) (found : c.waves.find? ref = some w) :
    ∃ w', c'.waves.find? ref = some w' ∧ w.Le w' := by
  cases m with
  | tree | retire | pop | leaf => exact ⟨w, found, .refl w⟩
  | @register w₁ leaves new =>
    have lt := h.fresh ref w found
    exact ⟨w, (c.register_waves w₁ leaves ref w).mpr (.inr ⟨Nat.ne_of_lt lt, found⟩), .refl w⟩
  | wave found₁ s =>
    refine exists_find?_insert found₁ found ?_ (.refl w)
    rintro rfl rfl
    exact s.le
  | drain found₁ own owed =>
    refine exists_find?_insert found₁ found ?_ (.refl w)
    rintro rfl rfl
    refine ⟨rfl, fun late => ?_, id, fun aborted => ?_⟩ <;> dsimp only <;> split
    · rfl
    · exact late
    · rfl
    · exact aborted
  | confirm found₁ next closes advances =>
    have waves := closes.keeps.1
    refine exists_find?_insert (waves ▸ found₁) (waves ▸ found) ?_ (.refl w)
    rintro rfl rfl
    exact advances.le (h.wave _ _ found) next

theorem Move.leaf_le (m : Move c es c') (h : Inv c) (here : c.leaves.find? id = some l) :
    ∃ l', c'.leaves.find? id = some l' ∧ l.Le l' := by
  have insert : ∀ {l₁ l₂ : Leaf}, c.leaves.find? l₁.virtualRequestId = some l₁ → l₁.Le l₂ →
      ∃ l', (c.leaves.insert l₁.virtualRequestId l₂).find? id = some l' ∧ l.Le l' :=
    fun here₁ le => exists_find?_insert here₁ here (fun _ same => same ▸ le) (.refl l)
  cases m with
  | tree | retire | pop | wave => exact ⟨l, here, .refl l⟩
  | register new =>
    obtain ⟨-, ref, w₀, found, mem⟩ := h.named id l here
    exact ⟨l, (new.find_old (new.not_old h.toLinked found mem)).trans here, .refl l⟩
  | leaf found own s => exact insert own.2 s.le
  | drain found own owed => exact insert own.2 (by constructor <;> simp)
  | confirm found next closes advances =>
    cases closes with
    | finish l₁ pop own | promote p l₁ own => exact insert own.2 (by constructor <;> simp)
    | truncate r k => exact ⟨l, here, .refl l⟩

def Event.Spent (c : Coordinator) : Event → Prop
  | .prepared ref _ => ref < c.nextWave
  | .fork id => ∃ l, c.leaves.find? id = some l ∧ l.forkSent = true
  | .verify id => ∃ l, c.leaves.find? id = some l ∧ l.verifySent = true
  | .closed id => ∃ l, c.leaves.find? id = some l ∧ l.physicallyClosed = true
  | .promoted ref => ∃ w, c.waves.find? ref = some w ∧ w.phase.late = true
  | .cancelled ref => ∃ w, c.waves.find? ref = some w ∧ w.parentCancelSent = true
  | .fallback ref => ∃ w, c.waves.find? ref = some w ∧ w.phase = .aborted

theorem Move.counter_le (m : Move c es c') : c.nextWave ≤ c'.nextWave := by
  cases m with
  | register => exact Nat.le_succ _
  | confirm found next closes advances => exact (closes.keeps.2.2.2.1).ge
  | _ => exact le_rfl

theorem Move.stable {e : Event} (m : Move c es c') (h : Inv c) (spent : e.Spent c) :
    e.Spent c' := by
  cases e with
  | prepared ref ids => exact Nat.lt_of_lt_of_le spent m.counter_le
  | fork id =>
    obtain ⟨l, here, sent⟩ := spent
    obtain ⟨l', here', le⟩ := m.leaf_le h here
    exact ⟨l', here', le.fork sent⟩
  | verify id =>
    obtain ⟨l, here, sent⟩ := spent
    obtain ⟨l', here', le⟩ := m.leaf_le h here
    exact ⟨l', here', le.verify sent⟩
  | closed id =>
    obtain ⟨l, here, closed⟩ := spent
    obtain ⟨l', here', le⟩ := m.leaf_le h here
    exact ⟨l', here', le.closed closed⟩
  | promoted ref =>
    obtain ⟨w, found, late⟩ := spent
    obtain ⟨w', found', le⟩ := m.wave_le h found
    exact ⟨w', found', le.late late⟩
  | cancelled ref =>
    obtain ⟨w, found, sent⟩ := spent
    obtain ⟨w', found', le⟩ := m.wave_le h found
    exact ⟨w', found', le.sent sent⟩
  | fallback ref =>
    obtain ⟨w, found, aborted⟩ := spent
    obtain ⟨w', found', le⟩ := m.wave_le h found
    exact ⟨w', found', le.aborted aborted⟩

theorem Coordinator.not_exists_leaf {flag : Leaf → Bool} (here : c.leaves.find? id = some l)
    (unset : flag l = false) : ¬∃ l, c.leaves.find? id = some l ∧ flag l = true := by
  rintro ⟨l', here', set⟩
  obtain rfl : l = l' := Option.mem_unique here here'
  simp [unset] at set

theorem Coordinator.not_exists_wave {P : Wave → Prop} (found : c.waves.find? ref = some w)
    (unset : ¬P w) : ¬∃ w, c.waves.find? ref = some w ∧ P w := by
  rintro ⟨w', found', set⟩
  obtain rfl : w = w' := Option.mem_unique found found'
  exact unset set

theorem spends_one {e : Event} (fresh : ¬e.Spent c) (spent : e.Spent c') :
    [e].Nodup ∧ ∀ e' ∈ [e], ¬e'.Spent c ∧ e'.Spent c' :=
  ⟨List.nodup_singleton e, List.forall_mem_singleton.mpr ⟨fresh, spent⟩⟩

theorem WaveStep.spends (h : Inv c) (found : c.waves.find? ref = some w)
    (s : WaveStep c ref w es w') :
    es.Nodup ∧ ∀ e ∈ es, ¬e.Spent c ∧ e.Spent { c with waves := c.waves.insert ref w' } := by
  have consistent := h.wave ref w found
  cases s with
  | fallback reason phase =>
    exact spends_one (Coordinator.not_exists_wave found (by simp [phase])) ⟨_,
      find?_insert_self .., rfl⟩
  | cancelCommitted phase =>
    exact spends_one (Coordinator.not_exists_wave found (by simp [consistent.committed phase]))
      ⟨_, find?_insert_self .., rfl⟩
  | cancel waits phase =>
    exact spends_one (Coordinator.not_exists_wave found (by simp [consistent.early phase]))
      ⟨_, find?_insert_self .., rfl⟩
  | _ => simp

theorem LeafStep.spends (own : c.Owns w l.virtualRequestId l) (s : LeafStep w l es l') :
    es.Nodup ∧ ∀ e ∈ es, ¬e.Spent c ∧
      e.Spent { c with leaves := c.leaves.insert l.virtualRequestId l' } := by
  cases s with
  | fork phase fresh | verify at_ phase fresh =>
    exact spends_one (Coordinator.not_exists_leaf own.2 fresh) ⟨_, find?_insert_self .., rfl⟩
  | _ => simp

theorem Advances.late (h : Consistent c w)
    (next : w.cleanupCommands[w.cleanupIndex]? = some (.promote p id)) (s : Advances ref w es w') :
    w'.phase.late = true := by
  cases s with
  | committed | cancelled => rfl
  | next following hf =>
    obtain ⟨r, k, rfl⟩ := h.truncate_follows next (by simp) hf
    rfl

theorem Closes.spends (h : Consistent c w)
    (next : w.cleanupCommands[w.cleanupIndex]? = some command) (s : Closes c ref w command es c')
    (closed : .closed id ∈ es) :
    ¬Event.Spent c (.closed id) ∧ Event.Spent { c' with waves := waves } (.closed id) := by
  have unclosed : ∀ {l}, command.target = some l.virtualRequestId → c.Owns w l.virtualRequestId l →
      l.physicallyClosed = false :=
    fun target own => h.pending _ command le_rfl next _ _ target own
  cases s with
  | finish l pop own | promote p l own =>
    obtain rfl : id = l.virtualRequestId := by simpa using closed
    exact ⟨Coordinator.not_exists_leaf own.2 (unclosed rfl own), _, find?_insert_self .., rfl⟩
  | truncate r k => simp at closed

section

variable (m : Move c es c')
include m

theorem Move.spends (h : Inv c) : es.Nodup ∧ ∀ e ∈ es, ¬e.Spent c ∧ e.Spent c' := by
  cases m with
  | tree | retire | pop | drain => simp
  | register new => exact spends_one (Nat.lt_irrefl _) (Nat.lt_succ_self _)
  | wave found s => exact s.spends h found
  | leaf found own s => exact s.spends own
  | @confirm c₁ ref w w' command cs as found next closes advances =>
    have consistent := h.wave ref w found
    obtain ⟨phase, reason, unsent⟩ := consistent.next command next
    refine ⟨?_, ?_⟩
    · cases closes <;> cases advances <;> simp
    intro e he
    rcases List.mem_append.mp he with he | he
    · cases e with
      | closed id => exact closes.spends consistent next he
      | promoted ref' =>
        cases closes with
        | promote p l own =>
          obtain rfl : ref' = ref := by simpa using he
          refine ⟨Coordinator.not_exists_wave found ?_, w', find?_insert_self ..,
            advances.late consistent next⟩
          simp [phase, Wave.phaseBefore, TreePhase.late]
        | finish | truncate => simp at he
      | _ => cases closes <;> simp at he
    · cases advances with
      | cancelled done =>
        obtain rfl := List.mem_singleton.mp he
        exact ⟨Coordinator.not_exists_wave found (by simp [unsent]), _, find?_insert_self .., rfl⟩
      | next | committed => cases he

theorem Move.forked (spent : Event.Spent c' (.fork id)) :
    Event.Spent c (.fork id) ∨ .fork id ∈ es := by
  obtain ⟨l', here', sent⟩ := spent
  have insert : ∀ {l₁ l₂ : Leaf}, c.leaves.find? l₁.virtualRequestId = some l₁ →
      (c.leaves.insert l₁.virtualRequestId l₂).find? id = some l' →
      (l₂.forkSent = true → l₁.forkSent = true ∨ .fork l₁.virtualRequestId ∈ es) →
      Event.Spent c (.fork id) ∨ .fork id ∈ es := by
    intro l₁ l₂ here₁ found origin
    rcases of_find?_insert found with ⟨rfl, rfl⟩ | ⟨-, found⟩
    · exact (origin sent).imp_left fun sent => ⟨l₁, here₁, sent⟩
    · exact .inl ⟨l', found, sent⟩
  cases m with
  | tree | retire | pop | wave => exact .inl ⟨l', here', sent⟩
  | @register w leaves new =>
    by_cases mem : id ∈ w.leaves
    · obtain ⟨l₀, hl, rfl⟩ := new.exists_leaf mem
      obtain rfl : l₀ = l' := Option.some.inj ((new.find_new hl).symm.trans here')
      simp [(new.untouched l₀ hl).1] at sent
    · exact .inl ⟨l', (new.find_old mem).symm.trans here', sent⟩
  | leaf found own s =>
    apply insert own.2 here'
    cases s with
    | fork => exact fun _ => .inr List.mem_cons_self
    | verify | result | tombstone => exact .inl
  | drain found own owed => exact insert own.2 here' .inl
  | confirm found next closes advances =>
    cases closes with
    | finish l pop own | promote p l own => exact insert own.2 here' .inl
    | truncate => exact .inl ⟨l', here', sent⟩

theorem Move.verified (h : Inv c) (event : .verify id ∈ es) :
    ∃ ref w, c.waves.find? ref = some w ∧ id ∈ w.leaves ∧
      ∀ id ∈ w.leaves, Event.Spent c (.fork id) := by
  cases m with
  | tree | retire | pop | register | drain => simp at event
  | wave found s => cases s <;> simp at event
  | @leaf ref w l l' _ found own s =>
    cases s with
    | verify at_ phase fresh =>
      obtain rfl : id = l.virtualRequestId := by simpa using event
      refine ⟨ref, w, found, own.1, ?_⟩
      intro id mem
      obtain ⟨l₀, here⟩ := (h.known ref w id found mem).2
      exact ⟨l₀, here, (h.wave ref w found).forked phase id l₀ ⟨mem, here⟩⟩
    | fork | result | tombstone => simp at event
  | confirm found next closes advances =>
    cases closes <;> cases advances <;> simp at event

theorem Move.fallback (h : Inv c) (event : .fallback ref ∈ es) :
    es = [.fallback ref] ∧ ∃ w, c.waves.find? ref = some w ∧
      ∀ id ∈ w.leaves, ¬Event.Spent c (.fork id) := by
  cases m with
  | tree | retire | pop | register | drain => simp at event
  | @wave ref₁ w w' _ found s =>
    cases s with
    | fallback reason phase =>
      obtain rfl : ref = ref₁ := by simpa using event
      refine ⟨rfl, w, found, ?_⟩
      intro id mem
      obtain ⟨l, here⟩ := (h.known ref w id found mem).2
      exact Coordinator.not_exists_leaf here ((h.wave ref w found).unforked phase id l ⟨mem, here⟩)
    | _ => simp at event
  | leaf found own s => cases s <;> simp at event
  | confirm found next closes advances =>
    cases closes <;> cases advances <;> simp at event

end

def Event.ids : Event → List Nat
  | .prepared _ ids => ids
  | _ => []

theorem Move.ids (m : Move c es c') : c.virtualIdHighWater ≤ c'.virtualIdHighWater ∧
    (es.flatMap Event.ids).Pairwise (· < ·) ∧ ∀ id ∈ es.flatMap Event.ids,
      c.virtualIdHighWater < id ∧ (id : Int) ≤ c'.virtualIdHighWater := by
  cases m with
  | tree | retire | pop | drain => exact ⟨le_rfl, by simp, by simp⟩
  | register new =>
    obtain ⟨grows, covers⟩ := new.mark
    simp only [Event.ids, List.flatMap_cons, List.flatMap_nil, List.append_nil]
    exact ⟨grows, new.increasing, fun id mem => ⟨new.above id mem, covers id mem⟩⟩
  | wave found s | leaf found own s =>
    have none : es.flatMap Event.ids = [] := by cases s <;> rfl
    exact ⟨le_rfl, by simp [none], by simp [none]⟩
  | @confirm c₁ ref w w' command cs as found next closes advances =>
    have none : (cs ++ as).flatMap Event.ids = [] := by cases closes <;> cases advances <;> rfl
    refine ⟨closes.keeps.2.2.1.ge, ?_⟩
    rw [none]
    exact ⟨.nil, by simp⟩

/-- A wave that was given up because a return is overdue. -/
def Wave.TimedOut (w : Wave) : Prop :=
  w.routeFatal = true ∧ ∃ id ∈ w.leaves, w.abortReason = some (timeoutReason id)

def Wave.Drained (c : Coordinator) (w : Wave) : Prop :=
  w.phase = .draining ∨ w.phase = .aborted ∧ ((∀ id l, c.Owns w id l → ¬l.Owed) ∨ w.TimedOut)

theorem Wave.Drained.not_early (stands : w.Drained c) : w.phase.early = false := by
  rcases stands with phase | ⟨phase, -⟩ <;> rw [phase] <;> rfl

theorem Wave.Drained.mono (stands : w.Drained c) (same : w' = w)
    (owns : ∀ id l', c'.Owns w id l' → l'.Owed → ∃ l, c.Owns w id l ∧ l.Owed) : w'.Drained c' := by
  subst same
  rcases stands with phase | ⟨phase, none | timedOut⟩
  · exact .inl phase
  · refine .inr ⟨phase, .inl ?_⟩
    intro id l' own owed
    obtain ⟨l, own, owed⟩ := owns id l' own owed
    exact none id l own owed
  · exact .inr ⟨phase, .inr timedOut⟩

theorem WaveStep.drained (s : WaveStep c ref w es w') (stands : w.Drained c) : w'.Drained c := by
  have early := stands.not_early
  cases s with
  | abort reason healthy unrouted owed =>
    rcases stands with phase | ⟨phase, none | timedOut⟩
    · obtain ⟨id, mem, rfl⟩ := owed phase
      exact .inr ⟨rfl, .inr ⟨rfl, id, mem, rfl⟩⟩
    · exact .inr ⟨rfl, .inl none⟩
    · simp [timedOut.1] at healthy
  | postpone => exact stands
  | cancelCommitted phase => rcases stands with other | ⟨other, -⟩ <;> simp [phase] at other
  | cancel _ phase => simp [phase] at early
  | fork phase | verify phase | resolve phase | plan _ _ _ _ _ phase =>
    simp [phase, TreePhase.early] at early
  | merge _ phase | fallback _ phase => simp [phase, TreePhase.early] at early

theorem Coordinator.owed_insert (here : c.leaves.find? l₁.virtualRequestId = some l₁) (l₂ : Leaf)
    (le : l₁.virtualRequestId ∈ w.leaves → l₂.Owed → l₁.Owed)
    (own : Coordinator.Owns { c with leaves := c.leaves.insert l₁.virtualRequestId l₂ } w id l')
    (owed : l'.Owed) : ∃ l, c.Owns w id l ∧ l.Owed := by
  rcases (c.owns_insert w l₁ l₂ id l').mp own with ⟨rfl, mem, rfl⟩ | ⟨-, own⟩
  · exact ⟨l₁, ⟨mem, here⟩, le mem owed⟩
  · exact ⟨l', own, owed⟩

theorem Move.drained (m : Move c es c') (inv : Inv c) (found : c.waves.find? ref = some w)
    (stands : w.Drained c) : ∃ w', c'.waves.find? ref = some w' ∧ w'.Drained c' := by
  cases m with
  | tree | retire | pop => exact ⟨w, found, stands⟩
  | @register w₁ leaves new =>
    have lt := inv.fresh ref w found
    refine ⟨w, (c.register_waves w₁ leaves ref w).mpr (.inr ⟨Nat.ne_of_lt lt, found⟩),
      stands.mono rfl ?_⟩
    intro id l' own owed
    have old := new.find_old (new.not_old inv.toLinked found own.1)
    exact ⟨l', ⟨own.1, old.symm.trans own.2⟩, owed⟩
  | @leaf ref₁ w₁ l₁ l₂ _ found₁ own₁ s =>
    refine ⟨w, found, stands.mono rfl ?_⟩
    intro id l' own owed
    apply Coordinator.owed_insert own₁.2 l₂ _ own owed
    intro mem
    obtain rfl := inv.owner ref₁ w₁ ref w _ found₁ found own₁.1 mem
    obtain rfl : w₁ = w := Option.mem_unique found₁ found
    cases s with
    | tombstone phase => simp [stands.not_early] at phase
    | fork | verify | result => exact fun owed => owed
  | wave found₁ s =>
    refine exists_find?_insert found₁ found ?_ stands
    rintro rfl rfl
    exact s.drained stands
  | @drain ref₁ w₁ l found₁ own owed =>
    have shrink : ∀ {w : Wave} id l', (c.drain ref₁ w₁ l).Owns w id l' → l'.Owed →
        ∃ l, c.Owns w id l ∧ l.Owed := by
      intro w id l' own' owed'
      exact Coordinator.owed_insert own.2 _ (fun _ _ => owed) own' owed'
    refine exists_find?_insert found₁ found ?_ (stands.mono rfl shrink)
    rintro rfl rfl
    have named := ((Move.drain found₁ own owed).inv inv).named_owns (w := w₁)
    by_cases last : ((c.drain ref₁ w₁ l).outstandingTombstones w₁).isEmpty = true ∧
        (w₁.cleanupComplete = true ∨ w₁.phase = .draining)
    · refine .inr ⟨if_pos last, .inl ?_⟩
      intro id l' own' owed'
      have mem := (mem_outstandingTombstones named).mpr ⟨l', own', owed'⟩
      rw [List.isEmpty_iff.mp last.1] at mem
      cases mem
    · apply stands.mono _ shrink
      exact congrArg (fun phase => { w₁ with phase := phase }) (if_neg last)
  | confirm found₁ next closes advances =>
    have waves := closes.keeps.1
    refine exists_find?_insert (waves ▸ found₁) (waves ▸ found) ?_ (stands.mono rfl ?_)
    · rintro rfl rfl
      have none := (inv.wave _ _ found).no_next (by
        rcases stands with phase | ⟨phase, -⟩ <;> simp [phase])
      simp [none] at next
    intro id l' own owed
    cases closes with
    | finish l pop own₁ | promote p l own₁ =>
      exact Coordinator.owed_insert own₁.2 { l with physicallyClosed := true } (fun _ owed => owed)
        own owed
    | truncate => exact ⟨l', own, owed⟩

end Mycellios.PhysicalTree
