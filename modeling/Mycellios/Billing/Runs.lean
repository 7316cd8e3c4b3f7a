import Mycellios.Billing.Payments

namespace Mycellios.Billing.Tables

open Data Logic

namespace Call

def key : Call → Option (Provider × String)
  | .applyPaidSubscription event _ => some (event.provider, event.providerEventId)
  | .applyPaidTopUp event _ => some (event.provider, event.providerEventId)
  | .applyPaymentReversal event _ => some (event.provider, event.providerEventId)
  | .applySubscriptionStatus event _ => some (event.provider, event.providerEventId)
  | _ => none

def quote : Call → Option String
  | .applyPaidTopUp event _ => some event.quoteId
  | _ => none

def intent : Call → Option String
  | .applyPaidSubscription event _ => intentOf event.toPaidEvent
  | .applyPaidTopUp event _ => intentOf event.toPaidEvent
  | _ => none

def manual (user : String) : Call → Int
  | .grantTokens userId amount => if userId = user then amount else 0
  | _ => 0

def charges {δ : Type} (t : Tables δ) (user : String) : Call → Int
  | .completeUsage usageId inputTokens outputTokens =>
    t.charge usageId inputTokens outputTokens user
  | _ => 0

end Call

variable {δ : Type} [DecidableEq δ] {host : Host δ} {t t' : Tables δ}

structure Effect (host : Host δ) (t t' : Tables δ) (c : Call) (duplicate : Bool) : Prop where
  keeps : Keeps host t t' fun user => c.manual user - c.charges t user
  again : duplicate = true → t' = t
  event : duplicate = false → ∀ k, c.key = some k → ¬t.Seen k ∧ t'.Seen k
  quote : duplicate = false → ∀ id, c.quote = some id → ¬t.QuoteSpent id ∧ t'.QuoteSpent id
  intent : duplicate = false → ∀ id, c.intent = some id → ¬t.IntentSpent id ∧ t'.IntentSpent id

omit [DecidableEq δ] in
theorem Effect.internal {change : String → Int} (keeps : Keeps host t t' change)
    (same : ∀ user, c.manual user - c.charges t user = change user) (noKey : c.key = none)
    (noQuote : c.quote = none) (noIntent : c.intent = none) : Effect host t t' c false where
  keeps := keeps.congr same
  again := by simp
  event := fun _ k listed => by rw [noKey] at listed; cases listed
  quote := fun _ id listed => by rw [noQuote] at listed; cases listed
  intent := fun _ id listed => by rw [noIntent] at listed; cases listed

theorem perform_effect (purse : t.Purse) (books : t.Books host)
    (h : perform host c t = .ok (a, t')) : Effect host t t' c.1 a.duplicate := by
  obtain ⟨c, moment⟩ := c
  cases c with
  | getOrCreateAccount userId =>
    obtain ⟨rfl, rfl⟩ := ok_inj h
    have opened := getOrCreateAccount_opens host moment t userId
    exact .internal (opened.keeps purse books) (fun _ => rfl) rfl rfl rfl
  | beginUsage userId apiKeyId request =>
    obtain ⟨r, done, rfl, rfl⟩ := map_ok_inj h
    exact .internal (beginUsage_keeps purse books done) (fun _ => rfl) rfl rfl rfl
  | completeUsage usageId inputTokens outputTokens =>
    obtain ⟨r, done, rfl, rfl⟩ := map_ok_inj h
    exact .internal (completeUsage_keeps purse books done) (fun _ => zero_sub _) rfl rfl rfl
  | failUsage usageId errorCode =>
    obtain ⟨r, done, rfl, rfl⟩ := map_ok_inj h
    exact .internal (failUsage_keeps purse books done) (fun _ => rfl) rfl rfl rfl
  | grantTokens userId amount =>
    obtain ⟨rfl, rfl⟩ := ok_inj h
    exact .internal (grantTokens_keeps purse books rfl) (fun _ => sub_zero _) rfl rfl rfl
  | applyPaidSubscription event finalized =>
    obtain ⟨r, done, rfl, rfl⟩ := map_ok_inj h
    obtain ⟨applied, intents⟩ := applyPaidSubscription_spec purse books done
    refine ⟨applied.keeps, applied.again, fun fresh k named => ?_, by simp [Call.quote], intents⟩
    exact Option.some.inj named ▸ applied.first fresh
  | applyPaidTopUp event finalized =>
    obtain ⟨r, done, rfl, rfl⟩ := map_ok_inj h
    obtain ⟨applied, spends⟩ := applyPaidTopUp_spec purse books done
    refine ⟨applied.keeps, applied.again, fun fresh k named => ?_, fun fresh id named => ?_,
      fun fresh => (spends fresh).2⟩
    · exact Option.some.inj named ▸ applied.first fresh
    · exact Option.some.inj named ▸ (spends fresh).1
  | applyPaymentReversal event finalized =>
    obtain ⟨r, done, rfl, rfl⟩ := map_ok_inj h
    have applied := applyPaymentReversal_spec purse books done
    refine ⟨applied.keeps, applied.again,
      fun fresh k named => ?_, by simp [Call.quote], by simp [Call.intent]⟩
    exact Option.some.inj named ▸ applied.first fresh
  | applySubscriptionStatus event finalized =>
    obtain ⟨r, done, rfl, rfl⟩ := map_ok_inj h
    have applied := applySubscriptionStatus_spec purse books done
    refine ⟨applied.keeps, applied.again,
      fun fresh k named => ?_, by simp [Call.quote], by simp [Call.intent]⟩
    exact Option.some.inj named ▸ applied.first fresh

theorem step_cases (c : Call × Moment) (purse : t.Purse) (books : t.Books host) :
    (∃ e, step host t c = (t, .error e)) ∨
      ∃ a t', step host t c = (t', .ok a) ∧ Effect host t t' c.1 a.duplicate := by
  unfold step commit
  cases done : perform host c t with
  | error e => exact .inl ⟨e, rfl⟩
  | ok result => exact .inr ⟨result.1, result.2, rfl, perform_effect purse books done⟩

abbrev Move (δ : Type) := Transition (Tables δ) (Call × Moment) (Except Failure Answer)

def Effective (m : Move δ) : Bool :=
  match m.output with
  | .ok a => !a.duplicate
  | .error _ => false

def manualTotal (user : String) (history : List (Move δ)) : Int :=
  (history.map fun m => if Effective m then m.input.1.manual user else 0).sum

def chargeTotal (user : String) (history : List (Move δ)) : Int :=
  (history.map fun m => if Effective m then m.input.1.charges m.pre user else 0).sum

structure Run (host : Host δ) (history : List (Move δ)) (t : Tables δ) : Prop where
  purse : t.Purse
  books : t.Books host
  gap : ∀ user, t.gap host user = manualTotal user history - chargeTotal user history
  unchanged : ∀ m ∈ history, Effective m = false → m.post = m.pre

omit [DecidableEq δ] in
theorem Run.start (plans : Dict (String × Nat) BillingPlan) (quotes : Dict String TopUpQuote)
    (intents : Dict String StablecoinIntent) : Run host [] (start plans quotes intents) where
  purse := .start plans quotes intents
  books := .start plans quotes intents
  gap := fun user => by
    simp [Tables.gap, worth, booked, balance, starter, tokenDebt, manualTotal, chargeTotal,
      Tables.start]
  unchanged := fun m mem => absurd mem List.not_mem_nil

omit [DecidableEq δ] in
theorem Run.idle (run : Run host history t) (idle : Effective m = false)
    (pre : m.pre = t) (post : m.post = t) : Run host (history ++ [m]) t := by
  refine ⟨run.purse, run.books, fun user => ?_, fun n mem => ?_⟩
  · rw [run.gap, manualTotal, manualTotal, chargeTotal, chargeTotal]
    simp [idle]
  rcases List.mem_append.mp mem with old | new
  · exact run.unchanged n old
  · rw [List.mem_singleton.mp new, pre, post]
    exact fun _ => rfl

theorem Run.step (run : Run host history t) (c : Call × Moment) :
    Run host (history ++ [⟨t, c, (t.step host c).2, (t.step host c).1⟩]) (t.step host c).1 := by
  obtain ⟨e, rejected⟩ | ⟨a, t', done, effect⟩ := step_cases c run.purse run.books
  · rw [rejected]
    exact run.idle rfl rfl rfl
  rw [done]
  cases again : a.duplicate with
  | true =>
    have idle : Effective (⟨t, c, .ok a, t'⟩ : Move δ) = false := by simp [Effective, again]
    obtain rfl := effect.again again
    exact run.idle idle rfl rfl
  | false =>
    have taken : Effective (⟨t, c, .ok a, t'⟩ : Move δ) = true := by simp [Effective, again]
    refine ⟨effect.keeps.purse, effect.keeps.books, fun user => ?_, fun m mem idle => ?_⟩
    · rw [effect.keeps.gap, run.gap, manualTotal, manualTotal, chargeTotal, chargeTotal]
      simp only [List.map_append, List.sum_append, List.map_cons, List.map_nil, List.sum_singleton,
        taken, if_true]
      omega
    rcases List.mem_append.mp mem with old | new
    · exact run.unchanged m old idle
    · rw [List.mem_singleton.mp new, taken] at idle
      cases idle

theorem countP_le_one (Spent : Tables δ → Prop) (spends : Call → Bool)
    (stays : ∀ t t', Grows t t' → Spent t → Spent t') (spent : ∀ t t' c, Effect host t t' c false →
      spends c = true → ¬Spent t ∧ Spent t') (purse : t.Purse)
    (books : t.Books host) (calls : List (Call × Moment)) :
    (trace (step host) t calls).countP (fun m => Effective m && spends m.input.1) ≤ 1 := by
  refine trace_countP_le_one (P := fun t => t.Purse ∧ t.Books host) (S := Spent) ?_ ?_ ?_ ⟨purse,
    books⟩ calls
  · rintro t c ⟨purse, books⟩
    obtain ⟨e, rejected⟩ | ⟨a, t', done, effect⟩ := step_cases c purse books
    · rw [rejected]
      exact ⟨purse, books⟩
    · rw [done]
      exact ⟨effect.keeps.purse, effect.keeps.books⟩
  · rintro t c ⟨purse, books⟩ before
    obtain ⟨e, rejected⟩ | ⟨a, t', done, effect⟩ := step_cases c purse books
    · rw [rejected]
      exact before
    · rw [done]
      exact stays t t' effect.keeps.grows before
  · rintro t c ⟨purse, books⟩ event
    obtain ⟨e, rejected⟩ | ⟨a, t', done, effect⟩ := step_cases c purse books
    · rw [rejected] at event
      cases event
    rw [done] at event ⊢
    obtain ⟨taken, spends⟩ := Bool.and_eq_true_iff.mp event
    have fresh : a.duplicate = false := by simpa [Effective] using taken
    exact spent t t' c.1 (fresh ▸ effect) spends

/-- Tokens are conserved and payments count once, over a run. -/
structure Accounted (host : Host δ) (history : List (Move δ)) (t : Tables δ) : Prop where
  conserved : ∀ user, t.balance user + t.usages.sumBy (reservedOf user) - t.tokenDebt user =
    t.starter host user + t.grants.sumBy (grantOf user) + manualTotal user history -
      t.reversals.sumBy (reversalOf user) - chargeTotal user history
  balance : ∀ user, 0 ≤ t.balance user
  debt : ∀ user, 0 ≤ t.tokenDebt user
  events : ∀ k, history.countP (fun m => Effective m && m.input.1.key = some k) ≤ 1
  tables : ∀ k, ¬(t.events.contains k ∧ t.reversals.contains k) ∧
    ¬(t.events.contains k ∧ t.statusEvents.contains k) ∧
    ¬(t.reversals.contains k ∧ t.statusEvents.contains k)
  grants : ∀ id g id' g', t.grants.find? id = some g → t.grants.find? id' = some g' →
    g.sourceEventId = g'.sourceEventId → id = id'
  reversals : ∀ id g, t.grants.find? id = some g → t.reversedTotal g.sourceEventId ≤ g.tokenAmount
  quotes : ∀ id, history.countP (fun m => Effective m && m.input.1.quote = some id) ≤ 1
  intents : ∀ id, history.countP (fun m => Effective m && m.input.1.intent = some id) ≤ 1
  unchanged : ∀ m ∈ history, Effective m = false → m.post = m.pre

theorem tokens_conserved (host : Host δ) (plans : Dict (String × Nat) BillingPlan)
    (quotes : Dict String TopUpQuote) (intents : Dict String StablecoinIntent)
    (calls : List (Call × Moment)) :
    Accounted host (trace (step host) (start plans quotes intents) calls)
      (final (step host) (start plans quotes intents) calls) := by
  have run : Run host (trace (step host) (start plans quotes intents) calls)
      (final (step host) (start plans quotes intents) calls) :=
    trace_invariant (P := Run host) (fun _ _ c before => before.step c)
      (.start plans quotes intents) calls
  have purse : (start plans quotes intents : Tables δ).Purse := .start plans quotes intents
  have books : (start plans quotes intents : Tables δ).Books host := .start plans quotes intents
  refine {
    conserved := fun user => ?_
    balance := fun user => ?_
    debt := run.purse.tokenDebt_nonneg
    events := fun k => ?_
    tables := fun k => ?_
    grants := run.books.once
    reversals := run.books.bound
    quotes := fun id => ?_
    intents := fun id => ?_
    unchanged := run.unchanged }
  · have gap := run.gap user
    rw [Tables.gap, worth, booked] at gap
    omega
  · rw [balance]
    cases found : (final (step host) (start plans quotes intents) calls).accounts.find? user with
    | none => exact le_rfl
    | some a => exact run.purse.balances user a found
  · refine countP_le_one (Seen · k) (·.key = some k) (fun t t' grows => grows.seen k) ?_ purse
      books calls
    exact fun t t' c effect named => effect.event rfl k (of_decide_eq_true named)
  · refine ⟨fun both => (run.books.paidOnly k both.1).1 both.2,
      fun both => (run.books.paidOnly k both.1).2 both.2,
      fun both => run.books.reversedOnly k both.1 both.2⟩
  · refine countP_le_one (QuoteSpent · id) (·.quote = some id) (fun t t' grows => grows.quotes id)
      ?_ purse books calls
    exact fun t t' c effect named => effect.quote rfl id (of_decide_eq_true named)
  · refine countP_le_one (IntentSpent · id) (·.intent = some id)
      (fun t t' grows => grows.intents id) ?_ purse books calls
    exact fun t t' c effect named => effect.intent rfl id (of_decide_eq_true named)

/-- Whatever is recorded names an account, and the event that it comes from. -/
theorem records_refer (host : Host δ) (plans : Dict (String × Nat) BillingPlan)
    (quotes : Dict String TopUpQuote) (intents : Dict String StablecoinIntent)
    (calls : List (Call × Moment)) :
    let t := final (step host) (start plans quotes intents) calls
    (∀ id u, t.usages.find? id = some u → ∃ a, t.accounts.find? u.userId = some a) ∧
    (∀ id g, t.grants.find? id = some g → ∃ k e, t.events.find? k = some e ∧
      e.id = g.sourceEventId) ∧
    (∀ k e, t.events.find? k = some e → (∃ a, t.accounts.find? e.userId = some a) ∧
      ∃ c : Content, e.eventDigest = host.eventDigest c ∧ c.userId = e.userId) ∧
    ∀ k r, t.reversals.find? k = some r → (∃ a, t.accounts.find? r.userId = some a) ∧
      (∃ k' e, t.events.find? k' = some e ∧ e.id = r.originalEventId) ∧
      ∃ c : Content, r.eventDigest = host.eventDigest c ∧ c.userId = r.userId := by
  have run : Run host (trace (step host) (start plans quotes intents) calls)
      (final (step host) (start plans quotes intents) calls) :=
    trace_invariant (P := Run host) (fun _ _ c before => before.step c)
      (.start plans quotes intents) calls
  refine ⟨run.purse.users, run.books.source, fun k e found => ?_, fun k r found => ?_⟩
  · exact ⟨run.purse.payers k e found, run.books.paid k e found⟩
  · exact ⟨run.purse.reversed k r found, run.books.original k r found, run.books.returned k r found⟩

end Mycellios.Billing.Tables
