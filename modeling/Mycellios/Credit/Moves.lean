import Mycellios.Credit.Ledger

namespace Mycellios.Credit

open Data Logic Relation

def CreditState.isOpen : CreditState → Bool
  | .issued | .consumed | .mutating => true
  | .released | .expired | .completed => false

inductive CreditState.Edge : CreditState → CreditState → Prop
  | consume : Edge .issued .consumed
  | mutate : Edge .consumed .mutating
  | complete : Edge .mutating .completed
  | releaseIssued : Edge .issued .released
  | releaseConsumed : Edge .consumed .released
  | expireIssued : Edge .issued .expired
  | expireConsumed : Edge .consumed .expired

def CreditState.Unmutated (c : CreditState) : Prop := c = .issued ∨ c = .consumed

def CreditState.Crossed (c : CreditState) : Prop := c = .mutating ∨ c = .completed

def Ledger.Healthy (s : Ledger) : Prop := s.fatalReason = none

instance (s : Ledger) : Decidable s.Healthy := inferInstanceAs (Decidable (s.fatalReason = none))

/-- The partition checks an observation passes before it is recorded. -/
structure LedgerConfig.Accepts (c : LedgerConfig) (o : Observation) : Prop where
  epoch : o.epoch = c.epoch
  total : o.totalBlocks = c.totalBlocks
  headroom : o.creditBlocksInUse ≤ c.headroomBlocks
  physical : (o.creditBlocksInUse : Int) ≤ o.physicallyUsed
  ordinary : o.ordinaryUsed ≤ c.ordinaryCapacityBlocks

inductive Move (s : Ledger) : Ledger → Prop
  | poison (reason : String) : Move s { s with fatalReason := some reason }
  | accept (o : Observation) (ok : s.config.Accepts o) : Move s { s with lastObservation := some o }
  | drop {e : ℚ × Key} {rest : List (ℚ × Key)} (heap : s.expiryHeap = e :: rest)
      (closed : ∀ r, s.records.find? e.2 = some r → r.state.isOpen = false) :
      Move s { s with expiryHeap := rest }
  | lapse {e : ℚ × Key} {rest : List (ℚ × Key)} {r : CreditRecord}
      (heap : s.expiryHeap = e :: rest) (found : s.records.find? e.2 = some r)
      (live : r.state.Unmutated) :
      Move s { s with
        expiryHeap := rest
        records := s.records.insert e.2
          { r with state := .expired, closedAt := some r.credit.expiresAt }
        reservedBlockCount := s.reservedBlockCount - r.credit.binding.blockCount }
  | overrun {e : ℚ × Key} {rest : List (ℚ × Key)} {r : CreditRecord}
      (heap : s.expiryHeap = e :: rest) (found : s.records.find? e.2 = some r)
      (mutating : r.state = .mutating) :
      Move s { s with
        expiryHeap := rest
        fatalReason := some "credit TTL expired after mutation began" }
  | store (credit : CapacityCredit) (fresh : s.nonceKeys.find? credit.key.nonce = none)
      (epoch : credit.key.epoch = s.config.epoch)
      (room : s.reservedBlockCount + credit.binding.blockCount ≤ s.config.headroomBlocks) :
      Move s { s with
        records := s.records.insert credit.key { credit := credit }
        nonceKeys := s.nonceKeys.insert credit.key.nonce credit.key
        reservedBlockCount := s.reservedBlockCount + credit.binding.blockCount
        expiryHeap := heapPush (credit.expiresAt, credit.key) s.expiryHeap }
  | consume {key : Key} {r : CreditRecord} (now : ℚ) (found : s.records.find? key = some r)
      (issued : r.state = .issued) :
      Move s { s with
        records := s.records.insert key { r with state := .consumed, consumedAt := some now } }
  | release {key : Key} {r : CreditRecord} (now : ℚ) (found : s.records.find? key = some r)
      (live : r.state.Unmutated) :
      Move s { s with
        records := s.records.insert key { r with state := .released, closedAt := some now }
        reservedBlockCount := s.reservedBlockCount - r.credit.binding.blockCount }
  | mutate {key : Key} {r : CreditRecord} (now : ℚ) (found : s.records.find? key = some r)
      (consumed : r.state = .consumed) :
      Move s { s with
        records := s.records.insert key { r with state := .mutating, mutationStartedAt := some now }
        mutatingBlockLimit := s.mutatingBlockLimit + r.credit.binding.blockCount }
  | complete {key : Key} {r : CreditRecord} (now : ℚ) (found : s.records.find? key = some r)
      (mutating : r.state = .mutating) :
      Move s { s with
        records := s.records.insert key { r with state := .completed, closedAt := some now }
        reservedBlockCount := s.reservedBlockCount - r.credit.binding.blockCount
        mutatingBlockLimit := s.mutatingBlockLimit - r.credit.binding.blockCount }

def Moves : Ledger → Ledger → Prop := ReflTransGen fun s t => s.Healthy ∧ Move s t

variable {s t : Ledger} {r : CreditRecord}

theorem Moves.then (h : Moves s t) (ht : t.Healthy) (hu : Move t u) : Moves s u := h.tail ⟨ht, hu⟩

theorem Move.record (h : Move s t) (fresh : ∀ k r, s.records.find? k = some r →
    s.nonceKeys.find? k.nonce = some k) (hr : s.records.find? k = some r) :
    ∃ r', t.records.find? k = some r' ∧ r'.credit = r.credit ∧
      (r'.state = r.state ∨ CreditState.Edge r.state r'.state) := by
  have write : ∀ (key : Key) (old new : CreditRecord), s.records.find? key = some old →
      new.credit = old.credit → CreditState.Edge old.state new.state →
      ∃ r', (s.records.insert key new).find? k = some r' ∧ r'.credit = r.credit ∧
        (r'.state = r.state ∨ CreditState.Edge r.state r'.state) := by
    intro key old new hold hcredit hedge
    by_cases hk : key = k
    · subst hk
      obtain rfl : old = r := by simpa [hold] using hr
      exact ⟨new, by simp, hcredit, .inr hedge⟩
    · exact ⟨r, by simp [hk, hr], rfl, .inl rfl⟩
  cases h with
  | poison | accept | drop | overrun => exact ⟨r, hr, rfl, .inl rfl⟩
  | lapse heap found live =>
    refine write _ _ _ found rfl ?_
    rcases live with h | h <;> rw [h]
    · exact .expireIssued
    · exact .expireConsumed
  | store credit hfresh =>
    have hne : credit.key ≠ k := by
      rintro rfl
      simp [fresh _ _ hr] at hfresh
    exact ⟨r, by simp [hne, hr], rfl, .inl rfl⟩
  | consume now found issued => exact write _ _ _ found rfl (by rw [issued]; exact .consume)
  | release now found live =>
    refine write _ _ _ found rfl ?_
    rcases live with h | h <;> rw [h]
    · exact .releaseIssued
    · exact .releaseConsumed
  | mutate now found consumed => exact write _ _ _ found rfl (by rw [consumed]; exact .mutate)
  | complete now found mutating => exact write _ _ _ found rfl (by rw [mutating]; exact .complete)

def CreditRecord.reservedBlocks (r : CreditRecord) : Int :=
  if r.state.isOpen then r.credit.binding.blockCount else 0

def CreditRecord.mutatingBlocks (r : CreditRecord) : Int :=
  if r.state = .mutating then r.credit.binding.blockCount else 0

structure Ledger.Balanced (s : Ledger) : Prop where
  reserved : s.reservedBlockCount = s.records.sumBy CreditRecord.reservedBlocks
  mutating : s.mutatingBlockLimit = s.records.sumBy CreditRecord.mutatingBlocks
  room : s.reservedBlockCount ≤ s.config.headroomBlocks
  observed : ∀ o, s.lastObservation = some o → s.config.Accepts o

structure Ledger.Indexed (s : Ledger) : Prop where
  nonce : ∀ k r, s.records.find? k = some r →
    r.credit.key = k ∧ k.epoch = s.config.epoch ∧ s.nonceKeys.find? k.nonce = some k
  spent : ∀ n k, s.nonceKeys.find? n = some k → k.nonce = n ∧ ∃ r, s.records.find? k = some r
  sorted : s.expiryHeap.Pairwise fun a b => a.1 ≤ b.1
  heap : ∀ e ∈ s.expiryHeap, ∃ r, s.records.find? e.2 = some r ∧ e.1 = r.credit.expiresAt
  pending : s.Healthy → ∀ k r, s.records.find? k = some r → r.state.isOpen = true →
    (r.credit.expiresAt, k) ∈ s.expiryHeap

theorem Ledger.Balanced.init (config : LedgerConfig) : (Ledger.init config).Balanced where
  reserved := rfl
  mutating := rfl
  room := by simp [Ledger.init]
  observed := by simp [Ledger.init]

theorem Ledger.Indexed.init (config : LedgerConfig) : (Ledger.init config).Indexed := by
  constructor <;> simp [Ledger.init]

theorem Ledger.sumBy_rewrite (found : s.records.find? key = some r) (w : CreditRecord → Int)
    (r' : CreditRecord) : (s.records.insert key r').sumBy w = s.records.sumBy w + w r' - w r := by
  simp [Dict.sumBy_insert, found]

theorem Move.balanced (h : Move s t) (hi : s.Indexed) (hs : s.Balanced) : t.Balanced := by
  cases h with
  | poison | drop | overrun => exact ⟨hs.reserved, hs.mutating, hs.room, hs.observed⟩
  | accept o ok =>
    refine ⟨hs.reserved, hs.mutating, hs.room, ?_⟩
    rintro o' ⟨⟩
    exact ok
  | @lapse e _ r heap found live | @release e r _ found live =>
    have hb := hs.room
    refine ⟨?_, ?_, ?_, hs.observed⟩
    · rcases live with h | h <;>
        simp [Ledger.sumBy_rewrite found, CreditRecord.reservedBlocks, CreditState.isOpen, h,
          hs.reserved]
    · rcases live with h | h <;> simp [Ledger.sumBy_rewrite found, CreditRecord.mutatingBlocks, h,
        hs.mutating]
    · dsimp only; omega
  | store credit fresh epoch room =>
    have hnew : s.records.find? credit.key = none := by
      cases hr : s.records.find? credit.key with
      | none => rfl
      | some r => simp [(hi.nonce _ _ hr).2.2] at fresh
    refine ⟨?_, ?_, room, hs.observed⟩
    · simp [Dict.sumBy_insert, hnew, CreditRecord.reservedBlocks, CreditState.isOpen, hs.reserved]
    · simp [Dict.sumBy_insert, hnew, CreditRecord.mutatingBlocks, hs.mutating]
  | consume now found issued =>
    refine ⟨?_, ?_, hs.room, hs.observed⟩
    · simp [Ledger.sumBy_rewrite found, CreditRecord.reservedBlocks, CreditState.isOpen, issued,
        hs.reserved]
    · simp [Ledger.sumBy_rewrite found, CreditRecord.mutatingBlocks, issued, hs.mutating]
  | mutate now found consumed =>
    refine ⟨?_, ?_, hs.room, hs.observed⟩
    · simp [Ledger.sumBy_rewrite found, CreditRecord.reservedBlocks, CreditState.isOpen, consumed,
        hs.reserved]
    · simp [Ledger.sumBy_rewrite found, CreditRecord.mutatingBlocks, consumed, hs.mutating]
  | complete now found mutating =>
    have hb := hs.room
    refine ⟨?_, ?_, ?_, hs.observed⟩
    · simp [Ledger.sumBy_rewrite found, CreditRecord.reservedBlocks, CreditState.isOpen, mutating,
        hs.reserved]
    · simp [Ledger.sumBy_rewrite found, CreditRecord.mutatingBlocks, mutating, hs.mutating]
    · dsimp only; omega

theorem Ledger.Indexed.of_rewrite (hs : s.Indexed) (config : t.config = s.config)
    (nonces : t.nonceKeys = s.nonceKeys) (heap : t.expiryHeap.Sublist s.expiryHeap)
    (forth : ∀ k r, s.records.find? k = some r → ∃ r', t.records.find? k = some r' ∧
      r'.credit = r.credit)
    (back : ∀ k r', t.records.find? k = some r' → ∃ r, s.records.find? k = some r ∧
      r'.credit = r.credit ∧ (t.Healthy → r'.state.isOpen = true → s.Healthy ∧
        r.state.isOpen = true ∧ ∀ e ∈ s.expiryHeap, e.2 = k → e ∈ t.expiryHeap)) : t.Indexed where
  nonce k r' hr' := by
    obtain ⟨r, hr, hc, -⟩ := back k r' hr'
    rw [hc, config, nonces]
    exact hs.nonce k r hr
  spent n k hk := by
    rw [nonces] at hk
    obtain ⟨hn, r, hr⟩ := hs.spent n k hk
    obtain ⟨r', hr', -⟩ := forth k r hr
    exact ⟨hn, r', hr'⟩
  sorted := hs.sorted.sublist heap
  heap e he := by
    obtain ⟨r, hr, ht⟩ := hs.heap e (heap.subset he)
    obtain ⟨r', hr', hc⟩ := forth e.2 r hr
    exact ⟨r', hr', by rw [ht, hc]⟩
  pending healthy k r' hr' hopen := by
    obtain ⟨r, hr, hc, hk⟩ := back k r' hr'
    obtain ⟨hh, ho, hkeep⟩ := hk healthy hopen
    rw [hc]
    exact hkeep _ (hs.pending hh k r hr ho) rfl

theorem mem_heapPush :
    x ∈ heapPush e h ↔ x = e ∨ x ∈ h := by
  induction h with
  | nil => simp [heapPush]
  | cons d ds ih =>
    unfold heapPush
    split
    · simp
    · simp only [List.mem_cons, ih]
      tauto

theorem heapBefore_le : (heapBefore a b = true → a.1 ≤ b.1) ∧
    (heapBefore a b = false → b.1 ≤ a.1) := by
  unfold heapBefore
  constructor
  · intro h
    rcases Bool.or_eq_true_iff.mp h with h | h
    · exact (of_decide_eq_true h).le
    · exact (eq_of_beq (Bool.and_eq_true_iff.mp h).1).le
  · intro h
    exact not_lt.mp (of_decide_eq_false (Bool.or_eq_false_iff.mp h).1)

theorem heapPush_sorted (hs : h.Pairwise fun a b => a.1 ≤ b.1) :
    (heapPush e h).Pairwise fun a b => a.1 ≤ b.1 := by
  induction h with
  | nil => simp [heapPush]
  | cons d ds ih =>
    obtain ⟨hd, hds⟩ := List.pairwise_cons.mp hs
    unfold heapPush
    split
    · rename_i hb
      have hle := heapBefore_le.1 hb
      refine List.pairwise_cons.mpr ⟨?_, hs⟩
      intro x hx
      rcases List.mem_cons.mp hx with rfl | hx
      · exact hle
      · exact hle.trans (hd x hx)
    · rename_i hb
      refine List.pairwise_cons.mpr ⟨?_, ih hds⟩
      intro x hx
      rcases mem_heapPush.mp hx with rfl | hx
      · exact heapBefore_le.2 (Bool.eq_false_iff.mpr hb)
      · exact hd x hx

theorem Ledger.Indexed.of_insert (hs : s.Indexed) (found : s.records.find? key = some old)
    (records : t.records = s.records.insert key new) (config : t.config = s.config)
    (nonces : t.nonceKeys = s.nonceKeys) (heap : t.expiryHeap.Sublist s.expiryHeap)
    (credit : new.credit = old.credit) (hopen : new.state.isOpen = true → old.state.isOpen = true)
    (healthy : t.Healthy → s.Healthy) (keep : ∀ e ∈ s.expiryHeap, e ∉ t.expiryHeap → e.2 = key ∧
      new.state.isOpen = false) : t.Indexed := by
  apply hs.of_rewrite config nonces heap
  · intro k r hr
    rw [records, Dict.find?_insert]
    split
    · rename_i hk
      subst hk
      obtain rfl : old = r := by simpa [found] using hr
      exact ⟨new, rfl, credit⟩
    · exact ⟨r, hr, rfl⟩
  · intro k r' hr'
    rcases Dict.of_find?_insert (records ▸ hr') with ⟨rfl, rfl⟩ | ⟨hk, hr'⟩
    · refine ⟨old, found, credit, fun hh ho => ⟨healthy hh, hopen ho, ?_⟩⟩
      intro e he _
      by_contra hne
      simp [(keep e he hne).2] at ho
    refine ⟨r', hr', rfl, fun hh ho => ⟨healthy hh, ho, ?_⟩⟩
    intro e he hek
    by_contra hne
    exact hk ((keep e he hne).1.symm.trans hek)

theorem Move.indexed (h : Move s t) (hs : s.Indexed) : t.Indexed := by
  cases h with
  | poison | overrun =>
    refine hs.of_rewrite rfl rfl (by simp [*]) (fun k r hr => ⟨r, hr, rfl⟩) ?_
    exact fun k r hr => ⟨r, hr, rfl, by simp [Ledger.Healthy]⟩
  | accept =>
    refine hs.of_rewrite rfl rfl (.refl _) (fun k r hr => ⟨r, hr, rfl⟩) ?_
    exact fun k r hr => ⟨r, hr, rfl, fun hh ho => ⟨hh, ho, fun e he _ => he⟩⟩
  | drop heap closed =>
    refine hs.of_rewrite rfl rfl (by simp [heap]) (fun k r hr => ⟨r, hr, rfl⟩) ?_
    refine fun k r hr => ⟨r, hr, rfl, fun hh ho => ⟨hh, ho, ?_⟩⟩
    rintro e he rfl
    rcases List.mem_cons.mp (heap ▸ he) with rfl | he
    · simp [closed r hr] at ho
    · exact he
  | lapse heap found live =>
    refine hs.of_insert found rfl rfl rfl (by simp [heap]) rfl (by simp [CreditState.isOpen]) id ?_
    intro e he hne
    rcases List.mem_cons.mp (heap ▸ he) with rfl | he
    · exact ⟨rfl, rfl⟩
    · exact absurd he hne
  | store credit fresh epoch room =>
    have other : ∀ k r, s.records.find? k = some r → credit.key ≠ k := by
      rintro k r hr rfl
      simp [(hs.nonce _ _ hr).2.2] at fresh
    refine ⟨?_, ?_, heapPush_sorted hs.sorted, ?_, ?_⟩
    · intro k r hr
      rcases Dict.of_find?_insert hr with ⟨rfl, rfl⟩ | ⟨-, hr⟩
      · exact ⟨rfl, epoch, by simp⟩
      obtain ⟨hk, he, hn⟩ := hs.nonce k r hr
      refine ⟨hk, he, ?_⟩
      have hne : credit.key.nonce ≠ k.nonce := by
        intro h
        simp [h, hn] at fresh
      simp [hne, hn]
    · intro n k hk
      rcases Dict.of_find?_insert hk with ⟨hn, rfl⟩ | ⟨-, hk⟩
      · exact ⟨hn, _, by simp; rfl⟩
      · obtain ⟨hn, r, hr⟩ := hs.spent n k hk
        exact ⟨hn, r, by simp [other k r hr, hr]⟩
    · intro e he
      rcases mem_heapPush.mp he with rfl | he
      · exact ⟨_, by simp; rfl, rfl⟩
      · obtain ⟨r, hr, ht⟩ := hs.heap e he
        exact ⟨r, by simp [other _ r hr, hr], ht⟩
    · intro hh k r hr ho
      rcases Dict.of_find?_insert hr with ⟨rfl, rfl⟩ | ⟨-, hr⟩
      · exact mem_heapPush.mpr (.inl rfl)
      · exact mem_heapPush.mpr (.inr (hs.pending hh k r hr ho))
  | consume now found state | mutate now found state | complete now found state =>
    exact hs.of_insert found rfl rfl rfl (.refl _) rfl (by simp [CreditState.isOpen, state]) id
      fun e he hne => absurd he hne
  | release now found live =>
    exact hs.of_insert found rfl rfl rfl (.refl _) rfl (by simp [CreditState.isOpen]) id
      fun e he hne => absurd he hne

structure Ledger.Sound (s : Ledger) : Prop where
  indexed : s.Indexed
  balanced : s.Balanced

theorem Ledger.Sound.init (config : LedgerConfig) : (Ledger.init config).Sound :=
  ⟨.init config, .init config⟩

theorem Moves.sound (h : Moves s t) (hs : s.Sound) : t.Sound := by
  induction h with
  | refl => exact hs
  | tail _ hm ih => exact ⟨hm.2.indexed ih.indexed, hm.2.balanced ih.indexed ih.balanced⟩

theorem Moves.config (h : Moves s t) : t.config = s.config := by
  induction h with
  | refl => rfl
  | tail _ hm ih =>
    rw [← ih]
    cases hm.2 <;> rfl

theorem Moves.record (h : Moves s t) (hs : s.Sound) (hr : s.records.find? k = some r) :
    ∃ r', t.records.find? k = some r' ∧ r'.credit = r.credit ∧
      ReflTransGen CreditState.Edge r.state r'.state := by
  induction h with
  | refl => exact ⟨r, hr, rfl, .refl⟩
  | tail hm hstep ih =>
    obtain ⟨r₁, hr₁, hc₁, hp₁⟩ := ih
    obtain ⟨r₂, hr₂, hc₂, he⟩ :=
      hstep.2.record (fun k r hk => ((Moves.sound hm hs).indexed.nonce k r hk).2.2) hr₁
    refine ⟨r₂, hr₂, hc₂.trans hc₁, ?_⟩
    rcases he with he | he
    · rwa [he]
    · exact hp₁.tail he

end Mycellios.Credit
