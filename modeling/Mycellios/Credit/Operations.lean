import Mycellios.Credit.Moves

namespace Mycellios.Credit

open Data Logic Relation

def Poisons (s : Ledger) (e : CreditError) (t : Ledger) : Prop :=
  Moves s t ∧ ∃ reason, e = .fatal reason ∧ t.fatalReason = some reason

def Raises (s : Ledger) (e : CreditError) (t : Ledger) : Prop :=
  Poisons s e t ∨ Moves s t ∧ t.Healthy ∧ ∀ reason, e ≠ .fatal reason

section Checks

variable {s t : Ledger} {α : Type} {Q : α → Ledger → Prop} {E : CreditError → Ledger → Prop}

theorem wp_fatal (hs : s.Healthy) (reason : String) :
    wp (fatal reason) Q E s ↔ E (.fatal reason) { s with fatalReason := some reason } := by
  rw [Ledger.Healthy] at hs
  simp [fatal, hs]

theorem wp_fatalIf {Q : Unit → Ledger → Prop} (hs : s.Healthy) (c : Prop) [Decidable c]
    (reason : String) : wp (fatalIf c reason) Q E s ↔
      (c → E (.fatal reason) { s with fatalReason := some reason }) ∧ (¬c → Q () s) := by
  unfold fatalIf
  by_cases h : c <;> simp [h, wp_fatal hs]

theorem Moves.poisons (h : Moves s t) (ht : t.Healthy) (reason : String) :
    Poisons s (.fatal reason) { t with fatalReason := some reason } :=
  ⟨h.then ht (.poison reason), reason, rfl, rfl⟩

theorem ensureHealthy_spec {Q : Unit → Ledger → Prop} (hs : s.Healthy) :
    wp ensureHealthy Q E s ↔ Q () s := by
  rw [Ledger.Healthy] at hs
  simp [ensureHealthy, hs]

theorem recordAt_spec {Q : CreditRecord → Ledger → Prop}
    (hr : s.records.find? k = some r) : wp (recordAt k) Q E s ↔ Q r s := by
  simp [recordAt, hr]

end Checks

def Ledger.KeepsCrossed (s t : Ledger) : Prop :=
  ∀ k r, s.records.find? k = some r → r.state.Crossed → t.records.find? k = some r

theorem Ledger.KeepsCrossed.insert {s t : Ledger} (found : s.records.find? key = some old)
    (hold : ¬old.state.Crossed) (records : t.records = s.records.insert key new) :
    s.KeepsCrossed t := by
  intro k r hr hc
  have hne : key ≠ k := by
    rintro rfl
    obtain rfl : old = r := by simpa [found] using hr
    exact hold hc
  simp [records, hne, hr]

section Advance

variable {s t : Ledger} (hs : s.Sound)
include hs

theorem expireEntry_spec (ht : Moves s t) (healthy : t.Healthy) (heap : t.expiryHeap = e :: rest) :
    wp (expireEntry e.2)
      (fun _ u => Moves s u ∧ u.Healthy ∧ u.expiryHeap = rest ∧ t.KeepsCrossed u) (Poisons s)
      { t with expiryHeap := rest } := by
  obtain ⟨r, hr, -⟩ := (ht.sound hs).indexed.heap e (by simp [heap])
  rw [expireEntry, wp_bind, recordAt_spec (s := { t with expiryHeap := rest }) hr]
  cases hstate : r.state with
  | issued =>
    exact ⟨ht.then healthy (.lapse heap hr (.inl hstate)), healthy, rfl,
      .insert hr (by simp [CreditState.Crossed, hstate]) rfl⟩
  | consumed =>
    exact ⟨ht.then healthy (.lapse heap hr (.inr hstate)), healthy, rfl,
      .insert hr (by simp [CreditState.Crossed, hstate]) rfl⟩
  | mutating =>
    simp only [wp_fatal (s := { t with expiryHeap := rest }) healthy]
    exact ⟨ht.then healthy (.overrun heap hr hstate), _, rfl, rfl⟩
  | released | expired | completed =>
    refine ⟨ht.then healthy (.drop heap ?_), healthy, rfl, fun _ _ h _ => h⟩
    intro r' hr'
    obtain rfl : r = r' := by simpa [hr] using hr'
    simp [hstate, CreditState.isOpen]

theorem expireFrom_spec (now : ℚ) (heap : List (ℚ × Key)) (ht : Moves s t) (healthy : t.Healthy)
    (hheap : t.expiryHeap = heap) :
    wp (expireFrom now heap)
      (fun _ u => Moves s u ∧ u.Healthy ∧ (∀ e ∈ u.expiryHeap, now < e.1) ∧ t.KeepsCrossed u)
      (Poisons s) t := by
  induction heap generalizing t with
  | nil => exact ⟨ht, healthy, by simp [hheap], fun _ _ h _ => h⟩
  | cons e rest ih =>
    rw [expireFrom, wp_ite]
    split
    · rw [wp_bind, wp_modify, wp_bind]
      refine wp_post (expireEntry_spec hs ht healthy hheap) ?_
      rintro _ u ⟨hu, hh, hrest, hkeep⟩
      refine wp_post (ih hu hh hrest) ?_
      rintro _ v ⟨hv, hh, due, hkeep'⟩
      exact ⟨hv, hh, due, fun k r hr hc => hkeep' k r (hkeep k r hr hc) hc⟩
    rename_i hdue
    refine ⟨ht, healthy, ?_, fun _ _ h _ => h⟩
    have sorted := (ht.sound hs).indexed.sorted
    rw [hheap] at sorted ⊢
    intro d hd
    rcases List.mem_cons.mp hd with rfl | hd
    · exact not_le.mp hdue
    · exact (not_le.mp hdue).trans_le ((List.pairwise_cons.mp sorted).1 d hd)

theorem expire_spec (now : ℚ) (healthy : s.Healthy) :
    wp (expire now)
      (fun _ u => Moves s u ∧ u.Healthy ∧ (∀ e ∈ u.expiryHeap, now < e.1) ∧ s.KeepsCrossed u)
      (Poisons s) s := by
  rw [expire, wp_bind, wp_get]
  exact expireFrom_spec hs now _ .refl healthy rfl

end Advance

section Observe

variable {s t : Ledger} (ht : Moves s t) (healthy : t.Healthy)
include ht healthy

theorem checkUsages_spec (excluded : Option Key) (usages : List KVUsage) :
    wp (checkUsages excluded usages) (fun _ u => u = t) (Poisons s) t := by
  induction usages with
  | nil => rfl
  | cons usage usages ih =>
    rw [checkUsages, wp_bind, wp_get]
    cases t.records.find? usage.key with
    | none =>
      simp only [wp_fatal healthy]
      exact ht.poisons healthy _
    | some record =>
      simp only [wp_bind, wp_fatalIf healthy]
      exact ⟨fun _ => ht.poisons healthy _, fun _ => ⟨fun _ => ht.poisons healthy _, fun _ => ih⟩⟩

theorem checkRevision_spec (o : Observation) (previous : Option Observation) :
    wp (checkRevision o previous) (fun _ u => u = t) (Poisons s) t := by
  cases previous with
  | none => rfl
  | some previous =>
    simp only [checkRevision, wp_bind, wp_fatalIf healthy]
    exact ⟨fun _ => ht.poisons healthy _,
      fun _ => ⟨fun _ => ht.poisons healthy _, fun _ => trivial⟩⟩

theorem observe_spec (o : Observation) (limit : Option Int) (excluded : Option Key) :
    wp (observe o limit excluded)
      (fun _ u => t.config.Accepts o ∧ u = { t with lastObservation := some o } ∧ Moves s u)
      (Poisons s) t := by
  have raised : ∀ reason, Poisons s (.fatal reason) { t with fatalReason := some reason } :=
    fun reason => ht.poisons healthy reason
  rw [observe, wp_bind, wp_get]
  simp only [wp_bind, wp_fatalIf healthy]
  refine ⟨fun _ => raised _, fun epoch => ⟨fun _ => raised _, fun total => ?_⟩⟩
  refine wp_post (checkRevision_spec ht healthy o _) ?_
  rintro _ _ rfl
  refine wp_post (checkUsages_spec ht healthy excluded _) ?_
  rintro _ _ rfl
  simp only [wp_fatalIf healthy]
  refine ⟨fun _ => raised _, fun _ => ⟨fun _ => raised _, fun headroom => ⟨fun _ => raised _,
    fun physical => ⟨fun _ => raised _, fun ordinary => ?_⟩⟩⟩⟩
  have ok : LedgerConfig.Accepts _ o :=
    ⟨not_not.mp epoch, not_not.mp total, not_lt.mp headroom, not_lt.mp physical, not_lt.mp ordinary⟩
  exact ⟨ok, rfl, ht.then healthy (.accept o ok)⟩

end Observe

structure Advanced (s : Ledger) (now : ℚ) (o : Observation) (t : Ledger) : Prop where
  moves : Moves s t
  healthy : t.Healthy
  due : ∀ e ∈ t.expiryHeap, now < e.1
  keeps : s.KeepsCrossed t
  accepts : t.config.Accepts o

theorem advanceTo_spec (hs : s.Sound) (healthy : s.Healthy) (now : ℚ)
    (o : Observation) : wp (advanceTo now o) (fun _ t => Advanced s now o t) (Poisons s) s := by
  rw [advanceTo, wp_bind, ensureHealthy_spec healthy, wp_bind]
  refine wp_post (expire_spec hs now healthy) ?_
  rintro _ t ⟨ht, hh, due, keeps⟩
  refine wp_post (observe_spec ht hh o none none) ?_
  rintro _ _ ⟨ok, rfl, hu⟩
  exact ⟨hu, hh, due, keeps, ok⟩

section Lookup

variable {s t : Ledger} (hs : s.Sound) (ht : Moves s t) (healthy : t.Healthy)
include ht healthy

theorem Moves.raises (he : ∀ reason, e ≠ .fatal reason) : Raises s e t :=
  .inr ⟨ht, healthy, he⟩

theorem requireBinding_spec (record : CreditRecord) (binding : Binding) (operation : String) :
    wp (requireBinding record binding operation)
      (fun _ u => u = t ∧ binding = record.credit.binding) (Raises s) t := by
  unfold requireBinding
  split
  · exact ⟨rfl, ‹_›⟩
  split
  · rw [wp_fatal healthy]
    exact .inl (ht.poisons healthy _)
  · exact ht.raises healthy (by simp)

include hs

theorem findRecord_spec (key : Key) :
    wp (findRecord key) (fun r u => u = t ∧ t.records.find? key = some r) (Raises s) t := by
  rw [findRecord, wp_bind, wp_get, wp_bind, wp_raiseIf]
  refine ⟨fun _ => ht.raises healthy (by simp), fun _ => ?_⟩
  cases hr : t.records.find? key with
  | some record => exact ⟨rfl, rfl⟩
  | none =>
    cases hn : t.nonceKeys.find? key.nonce with
    | none => exact ht.raises healthy (by simp)
    | some previousKey =>
      obtain ⟨-, previous, hprev⟩ := (ht.sound hs).indexed.spent _ _ hn
      simp only [wp_bind, recordAt_spec hprev, wp_fatalIf healthy, wp_throw]
      exact ⟨fun _ => .inl (ht.poisons healthy _), fun _ => ht.raises healthy (by simp)⟩

theorem boundRecord_bind {β : Type} {body : CreditRecord → LedgerM β} {Q : β → Ledger → Prop}
    (h : ∀ r, t.records.find? key = some r → wp (body r) Q (Raises s) t) :
    wp (boundRecord key binding operation >>= body) Q (Raises s) t := by
  rw [wp_bind, boundRecord, wp_bind]
  refine wp_post (findRecord_spec hs ht healthy key) ?_
  rintro r _ ⟨rfl, hr⟩
  rw [wp_bind]
  refine wp_post (requireBinding_spec ht healthy r binding operation) ?_
  rintro _ _ ⟨rfl, -⟩
  exact h r hr

theorem checkNonceUnspent_spec (nonce : Nat) :
    wp (checkNonceUnspent nonce) (fun _ u => u = t ∧ t.nonceKeys.find? nonce = none)
      (Raises s) t := by
  rw [checkNonceUnspent, wp_bind, wp_get]
  cases hn : t.nonceKeys.find? nonce with
  | none => exact ⟨rfl, rfl⟩
  | some previousKey =>
    obtain ⟨-, previous, hprev⟩ := (ht.sound hs).indexed.spent _ _ hn
    simp only [wp_bind, recordAt_spec hprev, wp_fatalIf healthy, wp_throw]
    exact ⟨fun _ => .inl (ht.poisons healthy _), fun _ => ht.raises healthy (by simp)⟩

omit hs

theorem checkCapacity_spec (binding : Binding) :
    wp (checkCapacity binding)
      (fun _ u => u = t ∧ t.reservedBlockCount + binding.blockCount ≤ t.config.headroomBlocks)
      (Raises s) t := by
  have raised : ∀ message, Raises s (.unavailable message) t :=
    fun _ => ht.raises healthy (by simp)
  rw [checkCapacity, wp_bind, wp_get]
  simp only [wp_bind, wp_raiseIf]
  exact ⟨fun _ => raised _, fun _ => ⟨fun _ => raised _, fun _ => ⟨fun _ => raised _,
    fun _ => ⟨fun _ => raised _, fun room => ⟨trivial, not_lt.mp room⟩⟩⟩⟩⟩

end Lookup

theorem makeKey_epoch (h : makeKey config leaseId nonce = .ok key) : key.epoch = config.epoch := by
  obtain ⟨l, -, h⟩ := bind_eq_ok.mp h
  obtain ⟨n, -, h⟩ := bind_eq_ok.mp h
  cases h
  rfl

def Settles (s t : Ledger) : Prop := Moves s t ∧ t.Healthy

theorem timeValue_error (h : timeValue name now = .error e) (reason : String) :
    e ≠ .fatal reason := by
  cases now <;> grind [timeValue]

theorem checkTtl_error (h : checkTtl fp config ttl = .error e) (reason : String) :
    e ≠ .fatal reason := by
  rcases bind_eq_error.mp h with h | ⟨t, -, h⟩
  · exact timeValue_error h reason
  · grind

theorem makeKey_error (h : makeKey config leaseId nonce = .error e) (reason : String) :
    e ≠ .fatal reason := by
  rcases bind_eq_error.mp h with h | ⟨l, -, h⟩
  · grind [boundedText]
  rcases bind_eq_error.mp h with h | ⟨n, -, h⟩
  · grind [boundedInteger]
  · cases h

section Calls

variable {s : Ledger} (hs : s.Sound) (healthy : s.Healthy)
include hs healthy

theorem advanced_wp {α : Type} {body : ℚ → LedgerM α} {Q : α → Ledger → Prop}
    {E : CreditError → Ledger → Prop} (early : ∀ e, timeValue "now" now = .error e → E e s)
    (poisoned : ∀ e t, Poisons s e t → E e t) (h : ∀ t u, Advanced s t o u → wp (body t) Q E u) :
    wp (do let t ← check (timeValue "now" now); advanceTo t o; body t) Q E s := by
  rw [wp_bind, wp_check]
  refine ⟨fun t _ => ?_, early⟩
  rw [wp_bind]
  exact wp_mono (advanceTo_spec hs healthy t o) (fun _ u hu => h t u hu) poisoned

theorem advanced_spec {α : Type} {body : ℚ → LedgerM α}
    {Q : α → Ledger → Prop} (h : ∀ t u, Advanced s t o u → wp (body t) Q (Raises s) u) :
    wp (do let t ← check (timeValue "now" now); advanceTo t o; body t) Q (Raises s) s :=
  advanced_wp hs healthy (fun _ he => Moves.raises .refl healthy (timeValue_error he))
    (fun _ _ h => .inl h) h

theorem issue_spec (fp : FloatOps) (binding : Binding) (leaseId : String) (nonce : Int)
    (ttl now : Number) (o : Observation) :
    wp (issue fp binding leaseId nonce ttl now o)
      (fun credit t => Settles s t ∧ t.nonceKeys.find? credit.key.nonce = some credit.key ∧
        ∃ u, Moves s u ∧ u.nonceKeys.find? credit.key.nonce = none) (Raises s) s := by
  rw [issue, wp_bind, wp_get, wp_bind, wp_check]
  refine ⟨fun key hkey => ?_, fun e he => Moves.raises .refl healthy (makeKey_error he)⟩
  rw [wp_bind, wp_check]
  refine ⟨fun ttl _ => ?_, fun e he => Moves.raises .refl healthy (checkTtl_error he)⟩
  refine advanced_spec hs healthy fun now u hu => ?_
  rw [wp_bind]
  refine wp_post (checkNonceUnspent_spec hs hu.moves hu.healthy key.nonce) ?_
  rintro _ _ ⟨rfl, fresh⟩
  rw [wp_bind]
  refine wp_post (checkCapacity_spec hu.moves hu.healthy binding) ?_
  rintro _ _ ⟨rfl, room⟩
  cases fp.add now ttl with
  | none => exact hu.moves.raises hu.healthy (by simp)
  | some expiresAt =>
    have epoch := (makeKey_epoch hkey).trans (congrArg _ hu.moves.config.symm)
    exact ⟨⟨hu.moves.then hu.healthy (.store ⟨key, binding, now, expiresAt⟩ fresh epoch room),
      hu.healthy⟩, by simp, _, hu.moves, fresh⟩

theorem consume_spec (key : Key) (binding : Binding) (now : Number) (o : Observation) :
    wp (consume key binding now o) (fun _ t => Settles s t) (Raises s) s := by
  refine advanced_spec hs healthy fun now u hu => ?_
  refine boundRecord_bind hs hu.moves hu.healthy fun r hr => ?_
  cases hstate : r.state with
  | issued => exact ⟨hu.moves.then hu.healthy (.consume now hr hstate), hu.healthy⟩
  | consumed => exact ⟨hu.moves, hu.healthy⟩
  | mutating | completed =>
    simp only [wp_fatal hu.healthy]
    exact .inl (hu.moves.poisons hu.healthy _)
  | released | expired => exact hu.moves.raises hu.healthy (by simp)

theorem release_spec (key : Key) (binding : Binding) (now : Number) (o : Observation) :
    wp (release key binding now o) (fun _ t => Settles s t) (Raises s) s := by
  refine advanced_spec hs healthy fun now u hu => ?_
  refine boundRecord_bind hs hu.moves hu.healthy fun r hr => ?_
  cases hstate : r.state with
  | issued => exact ⟨hu.moves.then hu.healthy (.release now hr (.inl hstate)), hu.healthy⟩
  | consumed => exact ⟨hu.moves.then hu.healthy (.release now hr (.inr hstate)), hu.healthy⟩
  | mutating | completed =>
    simp only [wp_fatal hu.healthy]
    exact .inl (hu.moves.poisons hu.healthy _)
  | released | expired => exact ⟨hu.moves, hu.healthy⟩

theorem beginMutation_spec (key : Key) (binding : Binding) (now : Number) (o : Observation) :
    wp (beginMutation key binding now o)
      (fun _ t => Settles s t ∧ (∃ r, t.records.find? key = some r ∧ r.state = .mutating) ∧
        ∃ u r, Moves s u ∧ u.records.find? key = some r ∧ r.state = .consumed) (Raises s) s := by
  refine advanced_spec hs healthy fun now u hu => ?_
  refine boundRecord_bind hs hu.moves hu.healthy fun r hr => ?_
  cases hstate : r.state with
  | consumed =>
    exact ⟨⟨hu.moves.then hu.healthy (.mutate now hr hstate), hu.healthy⟩, ⟨_, by simp; rfl, rfl⟩,
      _, r, hu.moves, hr, hstate⟩
  | mutating | completed =>
    simp only [wp_fatal hu.healthy]
    exact .inl (hu.moves.poisons hu.healthy _)
  | issued | released | expired => exact hu.moves.raises hu.healthy (by simp)

theorem completeMutation_spec (key : Key) (binding : Binding) (now : Number) (o : Observation) :
    wp (completeMutation key binding now o) (fun _ t => Settles s t) (Raises s) s := by
  rw [completeMutation, wp_bind, wp_check]
  refine ⟨fun now _ => ?_, fun e he => Moves.raises .refl healthy (timeValue_error he)⟩
  rw [wp_bind, ensureHealthy_spec healthy, wp_bind]
  refine wp_mono (expire_spec hs now healthy) ?_ fun _ _ h => .inl h
  rintro _ u ⟨hu, hh, -⟩
  refine boundRecord_bind hs hu hh fun r hr => ?_
  cases hstate : r.state with
  | mutating =>
    simp only [wp_bind, wp_get]
    refine wp_mono (observe_spec hu hh o _ _) ?_ fun _ _ h => .inl h
    rintro _ v ⟨-, rfl, hv⟩
    exact ⟨hv.then hh (.complete now hr hstate), hh⟩
  | completed =>
    simp only [wp_fatal hh]
    exact .inl (hu.poisons hh _)
  | issued | consumed | released | expired => exact hu.raises hh (by simp)

theorem advance_spec (now : Number) (o : Observation) :
    wp (advance now o) (fun _ t => Settles s t) (Raises s) s := by
  rw [advance, wp_bind, wp_check]
  refine ⟨fun now _ => ?_, fun e he => Moves.raises .refl healthy (timeValue_error he)⟩
  exact wp_mono (advanceTo_spec hs healthy now o) (fun _ _ h => ⟨h.moves, h.healthy⟩) fun _ _ h =>
    .inl h

theorem ordinaryAdmissibleBlocks_spec (now : Number) (o : Observation) :
    wp (ordinaryAdmissibleBlocks now o)
      (fun a t => Settles s t ∧ t.config.Accepts o ∧ a = ordinaryFreeBlocks t.config o)
      (Raises s) s := by
  refine advanced_spec hs healthy fun now u hu => ?_
  exact ⟨⟨hu.moves, hu.healthy⟩, hu.accepts, rfl⟩

theorem perform_spec (fp : FloatOps) (call : Call) :
    wp (perform fp call) (fun _ t => Settles s t) (Raises s) s := by
  cases call with
  | issue binding leaseId nonce ttl now o =>
    rw [perform, wp_map]
    exact wp_post (issue_spec hs healthy fp binding leaseId nonce ttl now o) (fun _ _ h => h.1)
  | consume key binding now o => exact (wp_map _ _).mpr (consume_spec hs healthy key binding now o)
  | release key binding now o => exact (wp_map _ _).mpr (release_spec hs healthy key binding now o)
  | beginMutation key binding now o =>
    rw [perform, wp_map]
    exact wp_post (beginMutation_spec hs healthy key binding now o) (fun _ _ h => h.1)
  | completeMutation key binding now o =>
    exact (wp_map _ _).mpr (completeMutation_spec hs healthy key binding now o)
  | advance now o => exact (wp_map _ _).mpr (advance_spec hs healthy now o)
  | ordinaryAdmissibleBlocks now o =>
    rw [perform, wp_map]
    exact wp_post (ordinaryAdmissibleBlocks_spec hs healthy now o) (fun _ _ h => h.1)

end Calls

def Call.now : Call → Number
  | .issue _ _ _ _ now _ => now
  | .consume _ _ now _ => now
  | .release _ _ now _ => now
  | .beginMutation _ _ now _ => now
  | .completeMutation _ _ now _ => now
  | .advance now _ => now
  | .ordinaryAdmissibleBlocks now _ => now

def Call.Valid (fp : FloatOps) (config : LedgerConfig) (call : Call) : Prop :=
  (∃ t, timeValue "now" call.now = .ok t) ∧
    match call with
    | .issue _ leaseId nonce ttl _ _ =>
      (∃ key, makeKey config leaseId nonce = .ok key) ∧ ∃ t, checkTtl fp config ttl = .ok t
    | _ => True

theorem perform_head {R : CreditError → Ledger → Prop}
    (early : ∀ e, ¬call.Valid fp s.config → R e s)
    (head : ∀ (t : ℚ) (α : Type) (body : LedgerM α), timeValue "now" call.now = .ok t →
      wp (do ensureHealthy; expire t; body) (fun _ _ => False) R s) :
    wp (perform fp call) (fun _ _ => False) R s := by
  have timed : ∀ {α : Type} {body : ℚ → LedgerM α}, wp (do
      let t ← check (timeValue "now" call.now); ensureHealthy; expire t; body t)
      (fun _ _ => False) R s := by
    intro α body
    rw [wp_bind, wp_check]
    refine ⟨fun t ht => head t α (body t) ht, fun e he => early e ?_⟩
    rintro ⟨⟨t, ht⟩, -⟩
    simp [ht] at he
  cases call with
  | issue binding leaseId nonce ttl now o =>
    rw [perform, wp_map, issue, wp_bind, wp_get, wp_bind, wp_check]
    refine ⟨fun key _ => ?_, fun e he => early e ?_⟩
    · rw [wp_bind, wp_check]
      refine ⟨fun t _ => ?_, fun e he => early e ?_⟩
      · simp only [advanceTo, bind_assoc]
        exact timed
      · rintro ⟨-, -, t, ht⟩
        simp [ht] at he
    · rintro ⟨-, ⟨key, hkey⟩, -⟩
      simp [hkey] at he
  | consume | release | beginMutation | ordinaryAdmissibleBlocks | advance =>
    rw [perform, wp_map]
    simp only [consume, release, beginMutation, ordinaryAdmissibleBlocks, advance, advanceTo,
      bind_assoc]
    exact timed
  | completeMutation =>
    rw [perform, wp_map]
    exact timed

/-- A poisoned ledger never changes, and answers valid calls with the first reason. -/
theorem perform_fatal (hs : s.fatalReason = some reason) (fp : FloatOps) (call : Call) :
    wp (perform fp call) (fun _ _ => False)
      (fun e t => t = s ∧ (call.Valid fp s.config → e = .fatal reason)) s := by
  refine perform_head (fun e hv => ⟨rfl, fun h => absurd h hv⟩) fun t α body _ => ?_
  simp [ensureHealthy, hs]

theorem perform_overdue (hs : s.Sound) (healthy : s.Healthy) (valid : call.Valid fp s.config)
    (hr : s.records.find? k = some r) (mutating : r.state = .mutating)
    (due : ∀ t, timeValue "now" call.now = .ok t → r.credit.expiresAt ≤ t) :
    wp (perform fp call) (fun _ _ => False) (Poisons s) s := by
  refine perform_head (fun e hv => absurd valid hv) fun t α body ht => ?_
  rw [wp_bind, ensureHealthy_spec healthy, wp_bind]
  refine wp_post (expire_spec hs t healthy) ?_
  rintro _ u ⟨hu, hh, hdue, keeps⟩
  -- the record is still mutating, so its entry is still in the heap, yet nothing due is left there
  have hpending := (hu.sound hs).indexed.pending hh k r (keeps k r hr (.inl mutating))
    (by simp [mutating, CreditState.isOpen])
  exact absurd (hdue _ hpending) (not_lt.mpr (due t ht))

theorem step_moves (hs : s.Sound) (fp : FloatOps) (call : Call) : Moves s (step fp s call).1 := by
  cases hf : s.fatalReason with
  | none =>
    refine wp_after (P := Moves s) (wp_mono (perform_spec hs hf fp call) (fun _ _ h => h.1) ?_)
    rintro e t (h | h)
    · exact h.1
    · exact h.1
  | some reason =>
    refine wp_after (P := Moves s) (wp_mono (perform_fatal hf fp call) (fun _ _ h => h.elim) ?_)
    rintro e t ⟨rfl, -⟩
    exact .refl

theorem final_sound (fp : FloatOps) (config : LedgerConfig) (calls : List Call) :
    (final (step fp) (.init config) calls).Sound ∧
      (final (step fp) (.init config) calls).config = config := by
  apply final_invariant (P := fun s : Ledger => s.Sound ∧ s.config = config)
  · intro s call hs
    have hm := step_moves hs.1 fp call
    exact ⟨hm.sound hs.1, hm.config.trans hs.2⟩
  · exact ⟨.init config, rfl⟩

/-- Every credit can be found by its nonce and by its expiry, so that `advance` leaves no open
credit that has expired. -/
theorem open_credits_expire_later (fp : FloatOps) (config : LedgerConfig) (calls : List Call) :
    (final (step fp) (.init config) calls).Indexed ∧
      ∀ now o time t, timeValue "now" now = .ok time →
        step fp (final (step fp) (.init config) calls) (.advance now o) = (t, .ok .done) →
        ∀ k r, t.records.find? k = some r → r.state.isOpen = true → time < r.credit.expiresAt := by
  obtain ⟨sound, -⟩ := final_sound fp config calls
  refine ⟨sound.indexed, fun now o time t read done k r found opened => ?_⟩
  generalize final (step fp) (.init config) calls = s at sound done
  obtain ⟨rfl, ok⟩ := Prod.mk.inj done
  cases healthy : s.fatalReason with
  | some reason => exact (wp_ok (perform_fatal healthy fp _) ok).elim
  | none =>
    have advanced : wp (perform fp (.advance now o)) (fun _ u => Advanced s time o u)
        (fun _ _ => True) s := by
      rw [perform, wp_map, advance, wp_bind, wp_check]
      refine ⟨fun time' read' => ?_, fun _ _ => trivial⟩
      obtain rfl := ok_unique read read'
      exact wp_mono (advanceTo_spec sound healthy time o) (fun _ _ h => h) fun _ _ _ => trivial
    have after := wp_ok advanced ok
    exact after.due _ ((after.moves.sound sound).indexed.pending after.healthy k r found opened)

end Mycellios.Credit
