import Mycellios.Credit.Operations

namespace Mycellios.Credit

open Data Logic

def Ledger.blocksIn (s : Ledger) (states : List CreditState) : Int :=
  s.records.sumBy fun r => if r.state ∈ states then r.credit.binding.blockCount else 0

theorem Ledger.sumBy_reservedBlocks (s : Ledger) :
    s.records.sumBy CreditRecord.reservedBlocks = s.blocksIn [.issued, .consumed, .mutating] := by
  unfold Ledger.blocksIn
  congr 1
  funext r
  cases h : r.state <;> simp [CreditRecord.reservedBlocks, CreditState.isOpen, h]

theorem Ledger.sumBy_mutatingBlocks (s : Ledger) :
    s.records.sumBy CreditRecord.mutatingBlocks = s.blocksIn [.mutating] := by
  unfold Ledger.blocksIn
  congr 1
  funext r
  simp [CreditRecord.mutatingBlocks]

theorem Ledger.blocksIn_nonneg (s : Ledger) (states : List CreditState) :
    0 ≤ s.blocksIn states := by
  apply Dict.sumBy_nonneg
  intro r
  split <;> simp

theorem Ledger.blocksIn_mono (s : Ledger) (h : states ⊆ states') :
    s.blocksIn states ≤ s.blocksIn states' := by
  apply Dict.sumBy_le_sumBy
  intro r
  by_cases hr : r.state ∈ states
  · simp [hr, h hr]
  · simp only [hr, if_false]
    split <;> simp

theorem LedgerConfig.Accepts.protects (h : c.Accepts o) (room : reserved ≤ c.headroomBlocks) :
    0 ≤ ordinaryFreeBlocks c o ∧
      reserved - o.creditBlocksInUse ≤ o.freeBlocks - ordinaryFreeBlocks c o := by
  have total := h.total
  have ordinary := h.ordinary
  simp only [ordinaryFreeBlocks, LedgerConfig.ordinaryCapacityBlocks, Observation.ordinaryUsed,
    Observation.physicallyUsed] at ordinary ⊢
  omega

theorem step_ordinaryAdmissibleBlocks (hs : s.Sound)
    (h : step fp s (.ordinaryAdmissibleBlocks now o) = (t, .ok (.blocks a))) :
    t.config.Accepts o ∧ a = ordinaryFreeBlocks t.config o := by
  obtain ⟨hafter, hanswer⟩ := Prod.mk.injEq .. ▸ h
  cases hf : s.fatalReason with
  | none =>
    obtain ⟨a', ha, ⟨⟩⟩ := answer_map_eq_ok.mp hanswer
    have hspec := wp_ok (ordinaryAdmissibleBlocks_spec hs hf now o) ha
    rw [perform, after_map] at hafter
    exact hafter ▸ hspec.2
  | some reason => exact (wp_ok (perform_fatal hf fp _) hanswer).elim

theorem counters_balance_and_admission_is_safe (fp : FloatOps) (config : LedgerConfig)
    (calls : List Call) (s : Ledger) (hs : s = final (step fp) (.init config) calls) :
    s.reservedBlockCount = s.blocksIn [.issued, .consumed, .mutating] ∧
    s.mutatingBlockLimit = s.blocksIn [.mutating] ∧
    0 ≤ s.mutatingBlockLimit ∧ s.mutatingBlockLimit ≤ s.reservedBlockCount ∧
    s.reservedBlockCount ≤ config.headroomBlocks ∧
    (∀ o, s.lastObservation = some o →
      0 ≤ ordinaryFreeBlocks config o ∧
      s.reservedBlockCount - o.creditBlocksInUse ≤ o.freeBlocks - ordinaryFreeBlocks config o) ∧
    ∀ now o a t, step fp s (.ordinaryAdmissibleBlocks now o) = (t, .ok (.blocks a)) →
      0 ≤ a ∧ t.reservedBlockCount - o.creditBlocksInUse ≤ o.freeBlocks - a := by
  obtain ⟨sound, hconfig⟩ := hs ▸ final_sound fp config calls
  have reserved := sound.balanced.reserved.trans s.sumBy_reservedBlocks
  have mutating := sound.balanced.mutating.trans s.sumBy_mutatingBlocks
  refine ⟨reserved, mutating, ?_, ?_, hconfig ▸ sound.balanced.room, ?_, ?_⟩
  · exact mutating ▸ s.blocksIn_nonneg _
  · exact mutating ▸ reserved ▸ s.blocksIn_mono (by simp)
  · intro o ho
    exact hconfig ▸ (sound.balanced.observed o ho).protects sound.balanced.room
  · intro now o a t h
    have ht := step_moves sound fp (.ordinaryAdmissibleBlocks now o)
    rw [h] at ht
    obtain ⟨ok, rfl⟩ := step_ordinaryAdmissibleBlocks sound h
    exact ok.protects (ht.sound sound).balanced.room

def exactFloat : FloatOps := ⟨fun a b => some (a + b), fun _ => "300.0"⟩

def sampleConfig : LedgerConfig where
  epoch := 1
  totalBlocks := 10
  headroomBlocks := 4
  maxLanesPerCredit := 2
  maxTtlSeconds := 300
  maxCreditsPerEpoch := 65536
  epoch_range := by decide
  total_range := by decide
  headroom_range := by decide
  lanes_range := by decide
  ttl_pos := by decide
  credits_range := by decide

def sampleBinding : Binding where
  modelId := "model"
  routeId := "route"
  stageId := "stage"
  parentRequestId := 7
  step := 0
  topologyDigest := List.replicate 32 0
  blockCount := 3
  laneCount := 2
  texts := by decide
  parent_range := by decide
  step_range := by decide
  digest_length := by decide
  block_range := by decide
  lane_range := by decide

def sampleObservation : Observation where
  epoch := 1
  revision := 0
  totalBlocks := 10
  freeBlocks := 9
  creditUsages := []
  epoch_range := by decide
  revision_range := by decide
  total_range := by decide
  free_range := by decide
  usages_epoch := by simp
  usages_sorted := by simp
  usages_total := by simp

def sampleKey : Key := ⟨1, "lease", 1, by decide, by decide, by decide⟩

def sampleCalls : List Call :=
  [.issue sampleBinding "lease" 1 (.finite 60) (.finite 0) sampleObservation,
    .consume sampleKey sampleBinding (.finite 1) sampleObservation,
    .beginMutation sampleKey sampleBinding (.finite 2) sampleObservation]

theorem sample_admission_is_safe :
    (step exactFloat (final (step exactFloat) (.init sampleConfig) sampleCalls)
      (.ordinaryAdmissibleBlocks (.finite 3) sampleObservation)).2 = .ok (.blocks 5) ∧
    (final (step exactFloat) (.init sampleConfig) sampleCalls).mutatingBlockLimit =
      (final (step exactFloat) (.init sampleConfig) sampleCalls).blocksIn [.mutating] ∧
    (step exactFloat (final (step exactFloat) (.init sampleConfig) sampleCalls)
      (.ordinaryAdmissibleBlocks (.finite 3) sampleObservation)).1.reservedBlockCount - 0 ≤
      9 - 5 := by
  have answer : (step exactFloat (final (step exactFloat) (.init sampleConfig) sampleCalls)
      (.ordinaryAdmissibleBlocks (.finite 3) sampleObservation)).2 = .ok (.blocks 5) := by
    decide +kernel
  have safe := counters_balance_and_admission_is_safe exactFloat sampleConfig sampleCalls _ rfl
  exact ⟨answer, safe.2.1, (safe.2.2.2.2.2.2 _ _ _ _ (Prod.ext rfl answer)).2⟩

end Mycellios.Credit
