import Mycellios.Credit.Accounting

namespace Mycellios.Credit

open Data Logic Relation

theorem CreditState.Edge.crossed (h : ReflTransGen Edge a b) (ha : a.Crossed) : b.Crossed := by
  induction h with
  | refl => exact ha
  | tail _ he ih => rcases ih with rfl | rfl <;> cases he; exact .inr rfl

theorem CreditState.Edge.terminal (h : ReflTransGen Edge a b) (ha : a.isOpen = false) : b = a := by
  induction h with
  | refl => rfl
  | tail _ he ih =>
    subst ih
    cases he <;> simp [isOpen] at ha

variable {call : Call} {n : Nat} {key : Key}

theorem Moves.nonce (h : Moves s t) (hn : s.nonceKeys.find? n = some k) :
    t.nonceKeys.find? n = some k := by
  induction h with
  | refl => exact hn
  | tail _ hm ih =>
    cases hm.2 with
    | store credit fresh =>
      have hne : credit.key.nonce ≠ n := by
        rintro rfl
        simp [ih] at fresh
      simp [hne, ih]
    | _ => exact ih

theorem Moves.born (h : Moves s t) (hs : s.Sound) (hk : s.records.find? k = none)
    (hr : t.records.find? k = some r) : ReflTransGen CreditState.Edge .issued r.state := by
  induction h generalizing r with
  | refl => simp [hk] at hr
  | @tail u v hm hstep ih =>
    have sound := Moves.sound hm hs
    cases hu : u.records.find? k with
    | some r₁ =>
      obtain ⟨r₂, hr₂, -, he⟩ :=
        hstep.2.record (fun k r hk => (sound.indexed.nonce k r hk).2.2) hu
      obtain rfl : r₂ = r := by simpa [hr₂] using hr
      rcases he with he | he
      · exact he ▸ ih hu
      · exact (ih hu).tail he
    | none =>
      have other : ∀ {key : Key} {old : CreditRecord}, u.records.find? key = some old →
          key ≠ k := by
        rintro key old hold rfl
        simp [hu] at hold
      cases hstep.2 with
      | poison | accept | drop | overrun => simp [hu] at hr
      | store credit =>
        by_cases hne : credit.key = k
        · obtain rfl : _ = r := by simpa [hne] using hr
          exact .refl
        · simp [hne, hu] at hr
      | lapse _ found | consume _ found | release _ found | mutate _ found | complete _ found =>
        simp [other found, hu] at hr

theorem Ledger.Sound.key_unique {s : Ledger} (hs : s.Sound)
    (hk : s.records.find? k = some r) (hk' : s.records.find? k' = some r')
    (hn : k.nonce = k'.nonce) : k = k' := by
  have h := (hs.indexed.nonce k r hk).2.2
  have h' := (hs.indexed.nonce k' r' hk').2.2
  rw [hn, h', Option.some.injEq] at h
  exact h.symm

abbrev CallTransition := Transition Ledger Call (Except CreditError Answer)

def issuesNonce (n : Nat) (t : CallTransition) : Bool :=
  match t.input, t.output with
  | .issue .., .ok (.credit credit) => credit.key.nonce == n
  | _, _ => false

def crossesNonce (n : Nat) (t : CallTransition) : Bool :=
  match t.input, t.output with
  | .beginMutation key .., .ok _ => key.nonce == n
  | _, _ => false

def Ledger.Spent (n : Nat) (s : Ledger) : Prop := ∃ k, s.nonceKeys.find? n = some k

def Ledger.Crossed (n : Nat) (s : Ledger) : Prop :=
  ∃ k r, k.nonce = n ∧ s.records.find? k = some r ∧ r.state.Crossed

theorem Moves.spent (h : Moves s t) (hs : s.Spent n) : t.Spent n := by
  obtain ⟨k, hk⟩ := hs
  exact ⟨k, h.nonce hk⟩

theorem Moves.crossed (h : Moves s t) (sound : s.Sound) (hs : s.Crossed n) : t.Crossed n := by
  obtain ⟨k, r, hn, hr, hc⟩ := hs
  obtain ⟨r', hr', -, hp⟩ := h.record sound hr
  exact ⟨k, r', hn, hr', CreditState.Edge.crossed hp hc⟩

theorem step_issues (hs : s.Sound)
    (h : issuesNonce n ⟨s, call, (step fp s call).2, (step fp s call).1⟩ = true) :
    ¬s.Spent n ∧ (step fp s call).1.Spent n := by
  cases hf : s.fatalReason with
  | some reason =>
    cases ho : (step fp s call).2 with
    | ok a => exact (wp_ok (perform_fatal hf fp call) ho).elim
    | error e => simp [issuesNonce, ho] at h
  | none =>
    unfold issuesNonce at h
    split at h
    · rename_i binding leaseId nonce ttl now o credit hcall ho
      dsimp only at hcall ho
      subst hcall
      obtain ⟨c, hc, ⟨⟩⟩ := answer_map_eq_ok.mp ho
      obtain ⟨-, hnew, u, hu, hfresh⟩ :=
        wp_ok (issue_spec hs hf fp binding leaseId nonce ttl now o) hc
      rw [beq_iff_eq.mp h] at hnew hfresh
      rw [step, perform, after_map]
      refine ⟨fun hspent => ?_, _, hnew⟩
      obtain ⟨k, hk⟩ := hu.spent hspent
      simp [hk] at hfresh
    · cases h

theorem step_crosses {s : Ledger} (hs : s.Sound)
    (h : crossesNonce n ⟨s, call, (step fp s call).2, (step fp s call).1⟩ = true) :
    ¬s.Crossed n ∧ (step fp s call).1.Crossed n := by
  cases hf : s.fatalReason with
  | some reason =>
    cases ho : (step fp s call).2 with
    | ok a => exact (wp_ok (perform_fatal hf fp call) ho).elim
    | error e => simp [crossesNonce, ho] at h
  | none =>
    unfold crossesNonce at h
    split at h
    · rename_i key binding now o a hcall ho
      dsimp only at hcall ho
      subst hcall
      obtain ⟨c, hc, -⟩ := answer_map_eq_ok.mp ho
      obtain ⟨-, ⟨r, hr, hm⟩, u, r₀, hu, hr₀, hconsumed⟩ :=
        wp_ok (beginMutation_spec hs hf key binding now o) hc
      have hn := beq_iff_eq.mp h
      rw [step, perform, after_map]
      refine ⟨fun hcross => ?_, key, r, hn, hr, .inl hm⟩
      obtain ⟨k, r', hn', hr', hc'⟩ := hu.crossed hs hcross
      obtain rfl := (hu.sound hs).key_unique hr' hr₀ (hn'.trans hn.symm)
      obtain rfl : r' = r₀ := by simpa [hr'] using hr₀
      rcases hc' with hc' | hc' <;> simp [hc'] at hconsumed
    · cases h

/-- The calls that use a credit again after its mutation began, other than its exact completion. -/
def Call.Reuses (k : Key) (r : CreditRecord) : Call → Prop
  | .issue _ _ nonce _ _ _ => nonce = k.nonce
  | .consume key _ _ _ => key.epoch = k.epoch ∧ key.nonce = k.nonce
  | .release key _ _ _ => key.epoch = k.epoch ∧ key.nonce = k.nonce
  | .beginMutation key _ _ _ => key.epoch = k.epoch ∧ key.nonce = k.nonce
  | .completeMutation key binding _ _ =>
    key.epoch = k.epoch ∧ key.nonce = k.nonce ∧
      ¬(key = k ∧ binding = r.credit.binding ∧ r.state = .mutating)
  | .advance .. => False
  | .ordinaryAdmissibleBlocks .. => False

section Reuse

variable {s t : Ledger} (hs : s.Sound) (ht : Moves s t) (healthy : t.Healthy)
  {k : Key} {r : CreditRecord} (hr : t.records.find? k = some r) (crossed : r.state.Crossed)
include hs ht healthy hr crossed

theorem checkNonceUnspent_crossed :
    wp (checkNonceUnspent k.nonce) (fun _ _ => False) (Poisons s) t := by
  have hn := ((ht.sound hs).indexed.nonce k r hr).2.2
  rw [checkNonceUnspent, wp_bind, wp_get]
  simp only [hn, wp_bind, recordAt_spec hr, wp_fatalIf healthy]
  exact ⟨fun _ => ht.poisons healthy _, fun h => absurd crossed h⟩

theorem boundRecord_crossed (epoch : key.epoch = k.epoch) (nonce : key.nonce = k.nonce)
    (binding : Binding) (operation : String) :
    wp (boundRecord key binding operation)
      (fun r' u => u = t ∧ r' = r ∧ key = k ∧ binding = r.credit.binding) (Poisons s) t := by
  obtain ⟨-, hepoch, hn⟩ := (ht.sound hs).indexed.nonce k r hr
  rw [boundRecord, wp_bind, findRecord, wp_bind, wp_get, wp_bind, wp_raiseIf]
  refine ⟨fun h => absurd (epoch.trans hepoch) h, fun _ => ?_⟩
  cases hkey : t.records.find? key with
  | none =>
    simp only [nonce, hn, wp_bind, recordAt_spec hr, wp_fatalIf healthy]
    exact ⟨fun _ => ht.poisons healthy _, fun h => absurd crossed h⟩
  | some r' =>
    obtain rfl := (ht.sound hs).key_unique hkey hr nonce
    obtain rfl : r' = r := by simpa [hkey] using hr
    simp only [wp_pure, wp_bind]
    unfold requireBinding
    split
    · exact ⟨rfl, trivial, trivial, ‹_›⟩
    split
    · rw [wp_fatal healthy]
      exact ht.poisons healthy _
    · rename_i h
      exact absurd crossed h

end Reuse

theorem makeKey_nonce (h : makeKey config leaseId nonce = .ok key) : key.nonce = nonce.toNat := by
  obtain ⟨l, -, h⟩ := bind_eq_ok.mp h
  obtain ⟨n, hn, h⟩ := bind_eq_ok.mp h
  cases h
  grind [boundedInteger]

section Fatal

variable {s : Ledger} (hs : s.Sound) (healthy : s.Healthy) {fp : FloatOps} {k : Key}
  {r : CreditRecord} (hr : s.records.find? k = some r) (crossed : r.state.Crossed)
include hs healthy hr crossed

theorem advanced_crossed {α : Type} (hnow : ∃ t, timeValue "now" now = .ok t)
    (epoch : key.epoch = k.epoch) (nonce : key.nonce = k.nonce)
    {body : ℚ → CreditRecord → LedgerM α}
    (h : ∀ t u, u.Healthy → Moves s u → wp (body t r) (fun _ _ => False) (Poisons s) u) : wp (do
      let t ← check (timeValue "now" now); advanceTo t o
      let record ← boundRecord key binding operation; body t record)
      (fun _ _ => False) (Poisons s) s := by
  refine advanced_wp hs healthy ?_ (fun _ _ h => h) fun t u hu => ?_
  · rintro e he
    obtain ⟨t, ht⟩ := hnow
    simp [ht] at he
  rw [wp_bind]
  refine wp_post (boundRecord_crossed hs hu.moves hu.healthy (hu.keeps k r hr crossed) crossed epoch
    nonce binding operation) ?_
  rintro _ _ ⟨rfl, rfl, -, -⟩
  exact h t _ hu.healthy hu.moves

theorem perform_reuse (valid : call.Valid fp s.config) (reuses : call.Reuses k r) :
    wp (perform fp call) (fun _ _ => False) (Poisons s) s := by
  cases call with
  | issue binding leaseId nonce ttl now o =>
    obtain ⟨⟨t, ht⟩, ⟨key, hkey⟩, ⟨l, hl⟩⟩ := valid
    have hn : key.nonce = k.nonce := by
      rw [makeKey_nonce hkey, reuses]
      rfl
    rw [perform, wp_map, issue, wp_bind, wp_get, wp_bind, wp_check]
    refine ⟨fun key' hkey' => ?_, fun e he => by simp [hkey] at he⟩
    obtain rfl : key = key' := by simpa [hkey] using hkey'
    rw [wp_bind, wp_check]
    refine ⟨fun ttl _ => ?_, fun e he => by simp [hl] at he⟩
    refine advanced_wp hs healthy (fun e he => by simp [show timeValue "now" now = _ from ht] at he)
      (fun _ _ h => h) fun t u hu => ?_
    rw [wp_bind, hn]
    exact wp_post (checkNonceUnspent_crossed hs hu.moves hu.healthy (hu.keeps k r hr crossed)
      crossed) (fun _ _ h => h.elim)
  | consume key binding now o | release key binding now o | beginMutation key binding now o =>
    rw [perform, wp_map]
    refine advanced_crossed hs healthy hr crossed valid.1 reuses.1 reuses.2 fun t u hh hu => ?_
    rcases crossed with hstate | hstate <;> simp only [hstate, wp_fatal hh] <;>
      exact hu.poisons hh _
  | completeMutation key binding now o =>
    obtain ⟨epoch, nonce, different⟩ := reuses
    obtain ⟨t, ht⟩ := valid.1
    rw [perform, wp_map, completeMutation, show timeValue "now" now = _ from ht]
    simp only [check, wp_pure, wp_bind, ensureHealthy_spec healthy]
    refine wp_post (expire_spec hs t healthy) ?_
    rintro _ u ⟨hu, hh, -, keeps⟩
    refine wp_post (boundRecord_crossed hs hu hh (keeps k r hr crossed) crossed epoch nonce
      binding _) ?_
    rintro _ _ ⟨rfl, rfl, rfl, rfl⟩
    rcases crossed with hstate | hstate
    · exact absurd ⟨rfl, rfl, hstate⟩ different
    · simp only [hstate, wp_fatal hh]
      exact hu.poisons hh _
  | advance | ordinaryAdmissibleBlocks => exact reuses.elim

end Fatal

theorem step_poisons (h : wp (perform fp call) (fun _ _ => False) (Poisons s) s) :
    ∃ reason, (step fp s call).1.fatalReason = some reason ∧
      (step fp s call).2 = .error (.fatal reason) := by
  cases ho : (step fp s call).2 with
  | ok a => exact (wp_ok h ho).elim
  | error e =>
    obtain ⟨-, reason, rfl, hreason⟩ := wp_error h ho
    exact ⟨reason, hreason, rfl⟩

structure Follows (k : Key) (s t : Ledger) : Prop where
  kept : ∀ r, s.records.find? k = some r → ∃ r', t.records.find? k = some r' ∧
    r'.credit = r.credit ∧ ReflTransGen CreditState.Edge r.state r'.state ∧
    (r.state.isOpen = false → r'.state = r.state)
  born : ∀ r, s.records.find? k = none → t.records.find? k = some r →
    ReflTransGen CreditState.Edge .issued r.state

theorem Moves.follows (h : Moves s t) (hs : s.Sound) (k : Key) : Follows k s t where
  kept r hr := by
    obtain ⟨r', hr', hc, hp⟩ := h.record hs hr
    exact ⟨r', hr', hc, hp, CreditState.Edge.terminal hp⟩
  born r hk hr := h.born hs hk hr

section Runs

variable (fp : FloatOps) (config : LedgerConfig) (calls : List Call)

theorem issues_at_most_once (n : Nat) :
    (trace (step fp) (.init config) calls).countP (issuesNonce n) ≤ 1 :=
  trace_countP_le_one (P := Ledger.Sound) (S := Ledger.Spent n)
    (fun _ call hs => (step_moves hs fp call).sound hs)
    (fun _ call hs => (step_moves hs fp call).spent)
    (fun _ _ hs => step_issues hs) (.init config) calls

theorem crosses_at_most_once (n : Nat) :
    (trace (step fp) (.init config) calls).countP (crossesNonce n) ≤ 1 :=
  trace_countP_le_one (P := Ledger.Sound) (S := Ledger.Crossed n)
    (fun _ call hs => (step_moves hs fp call).sound hs)
    (fun _ call hs => (step_moves hs fp call).crossed hs)
    (fun _ _ hs => step_crosses hs) (.init config) calls

theorem trace_follows {t : CallTransition} (ht : t ∈ trace (step fp) (.init config) calls)
    (k : Key) : Follows k t.pre t.post := by
  obtain ⟨js, ks, -, hpre, -, hpost⟩ := mem_trace ht
  have sound := (final_sound fp config js).1
  rw [hpost, hpre]
  exact (step_moves sound fp t.input).follows sound k

end Runs

def Call.Overdue (r : CreditRecord) (call : Call) : Prop :=
  ∀ t, timeValue "now" call.now = .ok t → r.credit.expiresAt ≤ t

theorem credits_are_spent_once_and_failure_is_sticky (fp : FloatOps) (config : LedgerConfig)
    (calls : List Call) (s : Ledger) (hs : s = final (step fp) (.init config) calls) :
    (∀ n, (trace (step fp) (.init config) calls).countP (issuesNonce n) ≤ 1 ∧
      (trace (step fp) (.init config) calls).countP (crossesNonce n) ≤ 1) ∧
    (∀ k k' r r', s.records.find? k = some r → s.records.find? k' = some r' → k.nonce = k'.nonce →
      k = k') ∧
    (∀ t ∈ trace (step fp) (.init config) calls, ∀ k, Follows k t.pre t.post) ∧
    (∀ call, s.Healthy → call.Valid fp config → ∀ k r, s.records.find? k = some r →
      (r.state.Crossed ∧ call.Reuses k r ∨ r.state = .mutating ∧ call.Overdue r) →
      ∃ reason, (step fp s call).1.fatalReason = some reason ∧
      (step fp s call).2 = .error (.fatal reason)) ∧
    ∀ reason, s.fatalReason = some reason → ∀ call, (step fp s call).1 = s ∧
      (call.Valid fp config → (step fp s call).2 = .error (.fatal reason)) := by
  obtain ⟨sound, hconfig⟩ := hs ▸ final_sound fp config calls
  refine ⟨fun n => ⟨issues_at_most_once fp config calls n, crosses_at_most_once fp config calls n⟩,
    fun k k' r r' => sound.key_unique, fun t ht k => trace_follows fp config calls ht k, ?_, ?_⟩
  · intro call healthy valid k r hr h
    subst hconfig
    apply step_poisons
    rcases h with ⟨crossed, reuses⟩ | ⟨mutating, overdue⟩
    · exact perform_reuse sound healthy hr crossed valid reuses
    · exact perform_overdue sound healthy valid hr mutating overdue
  intro reason hfatal call
  have hspec := perform_fatal hfatal fp call
  refine ⟨wp_after (P := fun t => t = s) (wp_mono hspec (fun _ _ h => h.elim) fun _ _ h => h.1), ?_⟩
  intro valid
  cases ho : (step fp s call).2 with
  | ok a => exact (wp_ok hspec ho).elim
  | error e => rw [(wp_error hspec ho).2 (hconfig.symm ▸ valid)]

theorem sample_reuse_is_fatal :
    (trace (step exactFloat) (.init sampleConfig) sampleCalls).countP (crossesNonce 1) = 1 ∧
    ∃ reason, (step exactFloat (final (step exactFloat) (.init sampleConfig) sampleCalls)
      (.consume sampleKey sampleBinding (.finite 3) sampleObservation)).1.fatalReason =
      some reason := by
  refine ⟨by decide +kernel, ?_⟩
  have safe :=
    credits_are_spent_once_and_failure_is_sticky exactFloat sampleConfig sampleCalls _ rfl
  have found : ((final (step exactFloat) (.init sampleConfig) sampleCalls).records.find?
      sampleKey).map CreditRecord.state = some .mutating := by decide +kernel
  obtain ⟨r, hr, hstate⟩ := Option.map_eq_some_iff.mp found
  obtain ⟨reason, hreason, -⟩ := safe.2.2.2.1
    (.consume sampleKey sampleBinding (.finite 3) sampleObservation) (by decide +kernel)
    ⟨⟨3, by decide +kernel⟩, trivial⟩ sampleKey r hr (.inl ⟨.inl hstate, rfl, rfl⟩)
  exact ⟨reason, hreason⟩

def driftedObservation : Observation :=
  { sampleObservation with
    epoch := 2, epoch_range := by decide, usages_epoch := by simp [sampleObservation] }

/-- A negative time is still a validation error, and the lapse of a completed credit is no
failure. -/
theorem fatal_answer_needs_valid_arguments :
    ¬(∀ (calls : List Call) (call : Call) (reason : String),
      (final (step exactFloat) (.init sampleConfig) calls).fatalReason = some reason →
      (step exactFloat (final (step exactFloat) (.init sampleConfig) calls) call).2 =
      .error (.fatal reason)) ∧
    (∃ (calls : List Call) (r : CreditRecord),
      (final (step exactFloat) (.init sampleConfig) calls).records.find? sampleKey = some r ∧
      r.state = .completed ∧ r.credit.expiresAt ≤ 100 ∧
      (step exactFloat (final (step exactFloat) (.init sampleConfig) calls)
        (.advance (.finite 100) sampleObservation)).1.fatalReason = none) := by
  constructor
  · intro h
    have hanswer := h [.advance (.finite 0) driftedObservation]
      (.advance (.finite (-1)) sampleObservation) "physical KV epoch drift" (by decide +kernel)
    revert hanswer
    decide +kernel
  refine ⟨sampleCalls ++ [.completeMutation sampleKey sampleBinding (.finite 3) sampleObservation],
    ⟨⟨sampleKey, sampleBinding, 0, 60⟩, .completed, some 1, some 2, some 3⟩, ?_⟩
  decide +kernel

end Mycellios.Credit
