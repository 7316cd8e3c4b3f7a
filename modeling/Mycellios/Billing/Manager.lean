import Mycellios.Data.Dict
import Mycellios.Data.JavaScript
import Mycellios.Logic.Transaction
import Mycellios.Logic.Wp

/-! `api-access.ts` and `billing.ts`. A table is a dictionary by its key, or by the columns that
rows are looked up with. Amounts that are checked to be positive are natural numbers; balances and
debts are integers. API keys and the jobs of usages are left out, apart from the foreign key. -/

namespace Mycellios.Billing

open Data Logic

/-- `ApiAccessError`, `BillingError`, or a constraint of the database. -/
inductive Failure
  | access (code message : String) (statusCode : Nat) (retryAfterSeconds : Option Int)
  | billing (code message : String)
  | constraint
  deriving DecidableEq

inductive Provider
  | stripe | stablecoin
  deriving DecidableEq

def Provider.text : Provider → String
  | .stripe => "stripe"
  | .stablecoin => "stablecoin"

inductive UsageStatus
  | pending | completed | failed
  deriving DecidableEq

inductive PlanStatus
  | draft | active | retired
  deriving DecidableEq

inductive QuoteStatus
  | open | consumed
  deriving DecidableEq

inductive IntentStatus
  | allocating | awaitingPayment | consumed
  deriving DecidableEq

inductive PaidKind
  | subscription | topup
  deriving DecidableEq

inductive SubscriptionStatus
  | active | pastDue | cancelled
  deriving DecidableEq

inductive LapsedStatus
  | pastDue | cancelled
  deriving DecidableEq

def LapsedStatus.toStatus : LapsedStatus → SubscriptionStatus
  | .pastDue => .pastDue
  | .cancelled => .cancelled

inductive ReversalReason
  | refund | dispute | stablecoinReorg
  deriving DecidableEq

structure ApiAccount where
  userId : String
  (tokenBalance usdMicros lifetimeInputTokens lifetimeOutputTokens : Int)
  requestCount : Nat
  createdAt : Int
  updatedAt : Int
  deriving DecidableEq

structure ApiUsage where
  userId : String
  apiKeyId : Option String
  sessionId : Option String
  model : String
  (reservedTokens inputTokens outputTokens : Int)
  status : UsageStatus
  errorCode : Option String
  createdAt : Int
  completedAt : Option Int
  deriving DecidableEq

structure BillingPlan where
  priceCurrency : String
  priceMicros : Nat
  includedTokens : Nat
  status : PlanStatus
  deriving DecidableEq

structure TopUpQuote where
  userId : String
  amountMicros : Nat
  currency : String
  tokenAmount : Nat
  status : QuoteStatus
  consumedEventKey : Option String
  expiresAt : Int
  consumedAt : Option Int
  deriving DecidableEq

structure StablecoinIntent where
  userId : String
  kind : PaidKind
  quoteId : Option String
  planId : Option String
  planVersion : Option Nat
  subscriptionId : Option String
  periodDurationMs : Option Int
  amountMicros : Nat
  (currency chainId asset assetAtomicAmount : String)
  recipient : Option String
  status : IntentStatus
  consumedEventKey : Option String
  expiresAt : Int
  consumedAt : Option Int
  updatedAt : Int
  deriving DecidableEq

structure BillingSubscription where
  (id userId planId : String)
  planVersion : Nat
  status : SubscriptionStatus
  (periodStart periodEnd statusChangedAt createdAt updatedAt : Int)
  deriving DecidableEq

structure PaidEvent where
  provider : Provider
  providerEventId : String
  userId : String
  amountMicros : Nat
  currency : String
  occurredAt : Int
  (stablecoinPaymentIntentId stablecoinChainId stablecoinAsset : Option String)
  stablecoinAssetAtomicAmount : Option String
  stablecoinRecipient : Option String
  deriving DecidableEq

structure PaidSubscriptionEvent extends PaidEvent where
  providerSubscriptionId : String
  planId : String
  planVersion : Nat
  periodStart : Int
  periodEnd : Int
  deriving DecidableEq

structure PaidTopUpEvent extends PaidEvent where
  paymentReference : String
  quoteId : String
  tokenAmount : Nat
  deriving DecidableEq

structure PaymentReversalEvent where
  provider : Provider
  (providerEventId originalProviderEventId userId : String)
  reason : ReversalReason
  tokenAmount : Nat
  occurredAt : Int
  deriving DecidableEq

structure SubscriptionStatusEvent where
  provider : Provider
  (providerEventId providerSubscriptionId userId : String)
  status : LapsedStatus
  occurredAt : Int
  deriving DecidableEq

/-- What `eventDigest` is taken of: an event without `finalized`, and its type. -/
inductive Content
  | subscriptionPaid (event : PaidSubscriptionEvent)
  | topupPaid (event : PaidTopUpEvent)
  | paymentReversed (event : PaymentReversalEvent)
  | subscriptionStatus (event : SubscriptionStatusEvent)
  deriving DecidableEq

section Ledger

variable (δ : Type)

structure BillingEvent where
  id : String
  kind : PaidKind
  userId : String
  eventDigest : δ
  externalReference : String
  amountMicros : Nat
  currency : String
  occurredAt : Int
  processedAt : Int

structure CreditGrant where
  userId : String
  idempotencyKey : String
  sourceType : PaidKind
  sourceEventId : String
  tokenAmount : Nat
  debtRepaidTokens : Int
  createdAt : Int
  deriving DecidableEq

structure BillingReversal where
  (id originalEventId userId : String)
  reason : ReversalReason
  eventDigest : δ
  tokenAmount : Nat
  (recoveredTokens debtTokens occurredAt processedAt : Int)

structure SubscriptionEvent where
  (id providerSubscriptionId userId : String)
  status : LapsedStatus
  eventDigest : δ
  occurredAt : Int
  processedAt : Int
  applied : Bool

structure Tables where
  accounts : Dict String ApiAccount
  usages : Dict String ApiUsage
  operatorFunded : List String
  plans : Dict (String × Nat) BillingPlan
  quotes : Dict String TopUpQuote
  intents : Dict String StablecoinIntent
  subscriptions : Dict (Provider × String) BillingSubscription
  events : Dict (Provider × String) (BillingEvent δ)
  grants : Dict String CreditGrant
  debts : Dict String Int
  reversals : Dict (Provider × String) (BillingReversal δ)
  statusEvents : Dict (Provider × String) (SubscriptionEvent δ)

end Ledger

structure ApiAccessLimits where
  (starterTokens requestsPerMinute maxConcurrent : Nat)

/-- What the managers are built with. Different contents have different digests. -/
structure Host (δ : Type) where
  limits : ApiAccessLimits
  operatorQuotaModels : String → Option (List String)
  toUpperCase : String → String
  eventDigest : Content → δ
  digest_injective : Function.Injective eventDigest

/-- The time, the ids a call would generate, and the keys that exist. -/
structure Moment where
  now : Int
  newId : String → String
  apiKeys : List String

structure ChatMessage where
  role : String
  content : String

structure ChatCompletionRequest where
  model : String
  messages : List ChatMessage
  maxTokens : Option Nat
  sessionId : Option String

def utf16Length (text : String) : Nat :=
  (text.toList.map fun c => if c.toNat < 0x10000 then 1 else 2).sum

def estimateInputTokens (request : ChatCompletionRequest) : Nat :=
  let characters := (request.messages.map fun m => utf16Length m.role + utf16Length m.content).sum
  max 1 ((characters + 3) / 4)

namespace Tables

variable {δ : Type} (host : Host δ) (moment : Moment) (t : Tables δ)

/-- `UPDATE api_accounts SET … WHERE user_id = ?`. -/
def updateAccount (userId : String) (f : ApiAccount → ApiAccount) : Tables δ :=
  match t.accounts.find? userId with
  | none => t
  | some account => { t with accounts := t.accounts.insert userId (f account) }

def getOrCreateAccount (userId : String) : ApiAccount × Tables δ :=
  match t.accounts.find? userId with
  | some account => (account, t)
  | none =>
    let account : ApiAccount :=
      ⟨userId, host.limits.starterTokens, 0, 0, 0, 0, moment.now, moment.now⟩
    (account, { t with accounts := t.accounts.insert userId account })

structure ApiUsageReservation where
  id : String
  userId : String
  reservedTokens : Int
  remainingTokens : Int
  limit : Nat
  remaining : Int
  resetAt : Int
  deriving DecidableEq

def recentRows (userId : String) : List Int :=
  ((t.usages.values.filter fun u => u.userId = userId ∧ moment.now - 60000 ≤ u.createdAt).map
    (·.createdAt)).insertionSort (· ≤ ·)

def pendingCount (userId : String) : Nat :=
  t.usages.values.countP fun u => u.userId = userId ∧ u.status = .pending

def insertUsage (userId : String) (apiKeyId : Option String) (request : ChatCompletionRequest)
    (operatorFunded : Bool) (reservedTokens : Int) : Except Failure (Tables δ) := do
  if t.usages.contains (moment.newId "use") ∨
      (operatorFunded ∧ moment.newId "use" ∈ t.operatorFunded) ∨
      ∃ key ∈ apiKeyId, key ∉ moment.apiKeys then throw .constraint
  let t := { t with
    usages := t.usages.insert (moment.newId "use")
      ⟨userId, apiKeyId, request.sessionId, request.model, reservedTokens, 0, 0, .pending, none,
        moment.now, none⟩
    operatorFunded := if operatorFunded then moment.newId "use" :: t.operatorFunded
      else t.operatorFunded }
  pure (t.updateAccount userId fun a =>
    { a with tokenBalance := a.tokenBalance - reservedTokens, updatedAt := moment.now })

def beginUsage (userId : String) (apiKeyId : Option String) (request : ChatCompletionRequest) :
    Except Failure (ApiUsageReservation × Tables δ) := do
  let (account, t) := t.getOrCreateAccount host moment userId
  let recent := t.recentRows moment userId
  if host.limits.requestsPerMinute ≤ recent.length then
    throw (.access "rate_limit_exceeded"
      "The account request limit has been reached. Retry after the current minute window." 429
      (some (max 1 ((recent.headD 0 + 60000 - moment.now + 999) / 1000))))
  if host.limits.maxConcurrent ≤ t.pendingCount userId then
    throw (.access "concurrency_limit_exceeded"
      ("The account can run at most " ++ toString host.limits.maxConcurrent ++
        " concurrent requests.") 429 (some 1))
  let operatorFunded := (apiKeyId.bind host.operatorQuotaModels).any (request.model ∈ ·)
  let reservedTokens : Int :=
    if operatorFunded then 0 else estimateInputTokens request + request.maxTokens.getD 256
  if account.tokenBalance < reservedTokens then
    throw (.access "insufficient_token_balance"
      ("This request needs up to " ++ toString reservedTokens ++ " tokens but the account has " ++
        toString account.tokenBalance ++ ".") 402 none)
  let t ← t.insertUsage moment userId apiKeyId request operatorFunded reservedTokens
  pure (⟨moment.newId "use", userId, reservedTokens, account.tokenBalance - reservedTokens,
    host.limits.requestsPerMinute, max 0 (host.limits.requestsPerMinute - recent.length - 1),
    (recent.head?.getD moment.now) + 60000⟩, t)

def actualTokens (usageId : String) (inputTokens outputTokens : Int) : Int :=
  if usageId ∈ t.operatorFunded then 0 else max 0 inputTokens + max 0 outputTokens

def completeUsage (usageId : String) (inputTokens outputTokens : Int) :
    Except Failure (Option ApiAccount × Tables δ) :=
  match t.usages.find? usageId with
  | none => pure (none, t)
  | some usage =>
    if usage.status ≠ .pending then pure (none, t)
    else
      let actual := t.actualTokens usageId inputTokens outputTokens
      let refund := max 0 (usage.reservedTokens - actual)
      let additionalCharge := max 0 (actual - usage.reservedTokens)
      let t := t.updateAccount usage.userId fun a => { a with
        tokenBalance := max 0 (a.tokenBalance + refund - additionalCharge)
        lifetimeInputTokens := a.lifetimeInputTokens + inputTokens
        lifetimeOutputTokens := a.lifetimeOutputTokens + outputTokens
        requestCount := a.requestCount + 1
        updatedAt := moment.now }
      let t := { t with usages := t.usages.insert usageId { usage with
        inputTokens := inputTokens
        outputTokens := outputTokens
        status := .completed
        errorCode := none
        completedAt := some moment.now } }
      pure (t.accounts.find? usage.userId, t)

def failUsage (usageId errorCode : String) : Except Failure (Option ApiAccount × Tables δ) :=
  match t.usages.find? usageId with
  | none => pure (none, t)
  | some usage =>
    if usage.status ≠ .pending then pure (none, t)
    else
      let t := t.updateAccount usage.userId fun a =>
        { a with tokenBalance := a.tokenBalance + usage.reservedTokens, updatedAt := moment.now }
      let t := { t with usages := t.usages.insert usageId { usage with
        status := .failed
        errorCode := some (String.ofList (errorCode.toList.take 120))
        completedAt := some moment.now } }
      pure (t.accounts.find? usage.userId, t)

def grantTokens (userId : String) (amount : Nat) : Except Failure (Option ApiAccount × Tables δ) :=
  let t := (t.getOrCreateAccount host moment userId).2
  let t := t.updateAccount userId fun a =>
    { a with tokenBalance := a.tokenBalance + amount, updatedAt := moment.now }
  pure (t.accounts.find? userId, t)

def validateIdentifier (value label : String) : Except Failure Unit :=
  if isId value then .ok ()
  else .error (.billing "invalid_identifier" ("The " ++ label ++ " is invalid."))

def validatePositiveInteger (value : Nat) (label : String) : Except Failure Unit :=
  if maxSafeInteger < value ∨ value = 0 then
    .error (.billing "invalid_amount" ("The " ++ label ++ " must be a positive safe integer."))
  else .ok ()

/-- `/^[A-Z]{3,8}$/.test(value.toUpperCase())`. -/
def validateCurrency (value : String) : Except Failure Unit :=
  let upper := (host.toUpperCase value).toList
  if upper.all (fun c => 'A' ≤ c ∧ c ≤ 'Z') ∧ 3 ≤ upper.length ∧ upper.length ≤ 8 then .ok ()
  else .error (.billing "invalid_currency" "The currency must be a canonical uppercase code.")

/-- `Number.isSafeInteger(occurredAt) && occurredAt > 0`. -/
def validateOccurredAt (occurredAt : Int) (message : String) : Except Failure Unit :=
  if occurredAt ≤ 0 ∨ maxSafeInteger < occurredAt then
    .error (.billing "invalid_occurred_at" message)
  else .ok ()

def validatePaidEvent (input : PaidEvent) (finalized : Bool) : Except Failure Unit := do
  validateIdentifier input.providerEventId "provider event id"
  validateIdentifier input.userId "user id"
  validatePositiveInteger input.amountMicros "paid amount"
  validateCurrency host input.currency
  validateOccurredAt input.occurredAt "The provider event timestamp is invalid."
  if ¬finalized then
    throw (.billing "payment_not_finalized"
      "Only finalized payments may create entitlements or grants.")

def intentMatches (intent : StablecoinIntent) (input : PaidEvent) (kind : PaidKind)
    (economic : StablecoinIntent → Bool) : Bool :=
  intent.userId = input.userId ∧ intent.kind = kind ∧ intent.amountMicros = input.amountMicros ∧
    intent.currency = host.toUpperCase input.currency ∧
    some intent.chainId = input.stablecoinChainId ∧
    some intent.asset = input.stablecoinAsset.map host.toUpperCase ∧
    some intent.assetAtomicAmount = input.stablecoinAssetAtomicAmount ∧
    intent.recipient = input.stablecoinRecipient ∧ economic intent

def validateStablecoinIntent (input : PaidEvent) (kind : PaidKind)
    (economic : StablecoinIntent → Bool) : Except Failure Unit :=
  let binding := [input.stablecoinPaymentIntentId, input.stablecoinChainId, input.stablecoinAsset,
    input.stablecoinAssetAtomicAmount, input.stablecoinRecipient]
  match input.provider with
  | .stripe =>
    if binding.any Option.isSome then
      .error (.billing "unexpected_stablecoin_binding"
        "Stripe events cannot carry stablecoin intent fields.")
    else .ok ()
  | .stablecoin =>
    if binding.any fun value => value.getD "" = "" then
      .error (.billing "stablecoin_intent_required"
        "Stablecoin payments require a complete server-side intent binding.")
    else
      match input.stablecoinPaymentIntentId.bind t.intents.find? with
      | none =>
        .error (.billing "stablecoin_intent_not_found"
          "The stablecoin payment intent does not exist.")
      | some intent => do
        if ¬intentMatches host intent input kind economic then
          throw (.billing "stablecoin_intent_mismatch"
            "The watcher event does not match the server-side payment intent.")
        if intent.expiresAt < input.occurredAt then
          throw (.billing "stablecoin_intent_expired"
            "The stablecoin transfer occurred after the payment intent expired.")
        if intent.status = .allocating then
          throw (.billing "stablecoin_intent_not_ready"
            "The stablecoin payment intent has no allocated recipient.")
        if intent.status = .consumed ∧
            intent.consumedEventKey ≠ some ("stablecoin:" ++ input.providerEventId) then
          throw (.billing "stablecoin_intent_consumed"
            "The stablecoin payment intent was already consumed by another transfer.")

structure BillingApplicationResult where
  eventId : String
  grantId : String
  tokenAmount : Nat
  debtRepaidTokens : Int
  tokenBalance : Int
  duplicate : Bool
  deriving DecidableEq

def tokenDebt (userId : String) : Int := (t.debts.find? userId).getD 0

def eventKey (key : Provider × String) : String := key.1.text ++ ":" ++ key.2

/-- `UPDATE … SET status = 'consumed' … WHERE status = 'awaiting_payment'`. -/
def consumeStablecoinIntent (input : PaidEvent) : Except Failure (Tables δ) :=
  match input.provider with
  | .stripe => pure t
  | .stablecoin =>
    let id := input.stablecoinPaymentIntentId.getD ""
    match t.intents.find? id with
    | none => throw (.billing "stablecoin_intent_consume_conflict"
        "The stablecoin payment intent could not be consumed atomically.")
    | some intent =>
      if intent.status ≠ .awaitingPayment then
        throw (.billing "stablecoin_intent_consume_conflict"
          "The stablecoin payment intent could not be consumed atomically.")
      else if ∃ i ∈ t.intents.values, i.consumedEventKey =
          some ("stablecoin:" ++ input.providerEventId) then
        throw .constraint
      else pure { t with intents := t.intents.insert id { intent with
        status := .consumed
        consumedEventKey := some ("stablecoin:" ++ input.providerEventId)
        consumedAt := some moment.now
        updatedAt := moment.now } }

/-- `onFirstApplication` of a subscription. -/
def renewSubscription (input : PaidSubscriptionEvent) : Except Failure (Tables δ) :=
  match t.subscriptions.find? (input.provider, input.providerSubscriptionId) with
  | some existing =>
    if existing.userId ≠ input.userId then
      throw (.billing "subscription_owner_conflict"
        "A provider subscription cannot move between accounts.")
    else if existing.statusChangedAt ≤ input.occurredAt then
      let renewed := { existing with
        planId := input.planId
        planVersion := input.planVersion
        status := .active
        periodStart := input.periodStart
        periodEnd := input.periodEnd
        statusChangedAt := input.occurredAt
        updatedAt := moment.now }
      pure { t with
        subscriptions := t.subscriptions.insert (input.provider, input.providerSubscriptionId)
          renewed }
    else pure t
  | none =>
    let opened : BillingSubscription :=
      ⟨moment.newId "sub", input.userId, input.planId, input.planVersion, .active,
        input.periodStart, input.periodEnd, input.occurredAt, moment.now, moment.now⟩
    if ∃ s ∈ t.subscriptions.values, s.id = moment.newId "sub" then throw .constraint
    else pure { t with
      subscriptions := t.subscriptions.insert (input.provider, input.providerSubscriptionId)
        opened }

/-- `onFirstApplication` of a top-up. -/
def consumeQuote (input : PaidTopUpEvent) : Except Failure (Tables δ) :=
  match t.quotes.find? input.quoteId with
  | none =>
    throw (.billing "topup_quote_consume_conflict" "The quote could not be consumed atomically.")
  | some quote =>
    if quote.status ≠ .open then
      throw (.billing "topup_quote_consume_conflict" "The quote could not be consumed atomically.")
    else if ∃ q ∈ t.quotes.values, q.consumedEventKey =
        some (eventKey (input.provider, input.providerEventId)) then
      throw .constraint
    else pure { t with quotes := t.quotes.insert input.quoteId { quote with
      status := .consumed
      consumedEventKey := some (eventKey (input.provider, input.providerEventId))
      consumedAt := some moment.now } }

structure GrantInput (δ : Type) where
  key : Provider × String
  kind : PaidKind
  userId : String
  digest : δ
  externalReference : String
  amountMicros : Nat
  currency : String
  occurredAt : Int
  tokenAmount : Nat

def insertGrant (input : GrantInput δ) : Except Failure (BillingApplicationResult × Tables δ) := do
  let debt := t.tokenDebt input.userId
  let debtRepaidTokens := min debt input.tokenAmount
  let availableTokens := input.tokenAmount - debtRepaidTokens
  if t.grants.contains (moment.newId "grant") ∨ ∃ g ∈ t.grants.values, g.idempotencyKey =
      eventKey input.key then
    throw .constraint
  let t := { t with
    grants := t.grants.insert (moment.newId "grant") ⟨input.userId, eventKey input.key, input.kind,
      moment.newId "bill", input.tokenAmount, debtRepaidTokens, moment.now⟩
    debts := match t.debts.find? input.userId with
      | some debt =>
        if 0 < debtRepaidTokens then t.debts.insert input.userId (debt - debtRepaidTokens)
          else t.debts
      | none => t.debts }
  let t := t.updateAccount input.userId fun a =>
    { a with tokenBalance := a.tokenBalance + availableTokens, updatedAt := moment.now }
  let (account, t) := t.getOrCreateAccount host moment input.userId
  pure (⟨moment.newId "bill", moment.newId "grant", input.tokenAmount, debtRepaidTokens,
    account.tokenBalance, false⟩, t)

def applyGrant (input : GrantInput δ) (onFirstApplication : Tables δ → Except Failure (Tables δ))
    [DecidableEq δ] : Except Failure (BillingApplicationResult × Tables δ) := do
  if t.reversals.contains input.key then
    throw (.billing "billing_event_conflict" "A provider event id is already used by a reversal.")
  if t.statusEvents.contains input.key then
    throw (.billing "billing_event_conflict"
      "A provider event id is already used by a subscription status event.")
  match t.events.find? input.key with
  | some existing =>
    if existing.eventDigest ≠ input.digest then
      throw (.billing "billing_event_conflict"
        "A provider event id was reused with different economic content.")
    match t.grants.entries.find? (·.2.sourceEventId = existing.id) with
    | none =>
      throw (.billing "billing_ledger_incomplete"
        "The billing event exists without its atomic credit grant.")
    | some grant =>
      let (account, t) := t.getOrCreateAccount host moment input.userId
      pure (⟨existing.id, grant.1, grant.2.tokenAmount, grant.2.debtRepaidTokens,
        account.tokenBalance, true⟩, t)
  | none =>
    let t := (t.getOrCreateAccount host moment input.userId).2
    if ∃ e ∈ t.events.values, e.id = moment.newId "bill" then throw .constraint
    let t := { t with
      events := t.events.insert input.key ⟨moment.newId "bill", input.kind, input.userId,
        input.digest,
      input.externalReference, input.amountMicros, host.toUpperCase input.currency,
        input.occurredAt, moment.now⟩ }
    let t ← onFirstApplication t
    t.insertGrant host moment input

def subscriptionIntent (input : PaidSubscriptionEvent) (intent : StablecoinIntent) : Bool :=
  intent.planId = some input.planId ∧ intent.planVersion = some input.planVersion ∧
    intent.subscriptionId = some input.providerSubscriptionId ∧
    input.periodStart = input.occurredAt ∧ some (input.periodEnd - input.periodStart) =
    intent.periodDurationMs

def applyPaidSubscription [DecidableEq δ] (input : PaidSubscriptionEvent) (finalized : Bool) :
    Except Failure (BillingApplicationResult × Tables δ) := do
  validatePaidEvent host input.toPaidEvent finalized
  t.validateStablecoinIntent host input.toPaidEvent .subscription (subscriptionIntent input)
  validateIdentifier input.providerSubscriptionId "provider subscription id"
  validateIdentifier input.planId "plan id"
  validatePositiveInteger input.planVersion "plan version"
  if maxSafeInteger < input.periodStart.natAbs ∨ input.periodEnd ≤ input.periodStart then
    throw (.billing "invalid_billing_period"
      "The billing period must have an ordered start and end.")
  match t.plans.find? (input.planId, input.planVersion) with
  | none =>
    throw (.billing "plan_not_active"
      "The paid event references a plan version that is not active.")
  | some plan =>
    if plan.status ≠ .active then
      throw (.billing "plan_not_active"
        "The paid event references a plan version that is not active.")
    if plan.priceCurrency ≠ host.toUpperCase input.currency ∨
        plan.priceMicros ≠ input.amountMicros then
      throw (.billing "plan_price_mismatch"
        "The paid amount does not match the immutable plan version.")
    t.applyGrant host moment ⟨(input.provider, input.providerEventId), .subscription, input.userId,
      host.eventDigest (.subscriptionPaid input), input.providerSubscriptionId, input.amountMicros,
      input.currency, input.occurredAt, plan.includedTokens⟩
      fun t => do
        let t ← t.renewSubscription moment input
        t.consumeStablecoinIntent moment input.toPaidEvent

def applyPaidTopUp [DecidableEq δ] (input : PaidTopUpEvent) (finalized : Bool) :
    Except Failure (BillingApplicationResult × Tables δ) := do
  validatePaidEvent host input.toPaidEvent finalized
  t.validateStablecoinIntent host input.toPaidEvent .topup (·.quoteId = some input.quoteId)
  validateIdentifier input.paymentReference "payment reference"
  validateIdentifier input.quoteId "quote id"
  validatePositiveInteger input.tokenAmount "top-up tokens"
  match t.quotes.find? input.quoteId with
  | none => throw (.billing "topup_quote_not_found" "The paid top-up quote does not exist.")
  | some quote =>
    if quote.userId ≠ input.userId then
      throw (.billing "topup_quote_owner_conflict" "A top-up quote cannot move between accounts.")
    if quote.amountMicros ≠ input.amountMicros ∨ quote.currency ≠ host.toUpperCase input.currency ∨
        quote.tokenAmount ≠ input.tokenAmount then
      throw (.billing "topup_quote_value_mismatch"
        "The paid event does not match the immutable quote.")
    if quote.expiresAt < input.occurredAt then
      throw (.billing "topup_quote_expired" "The payment occurred after the quote expired.")
    if quote.status = .consumed ∧ quote.consumedEventKey ≠
        some (eventKey (input.provider, input.providerEventId)) then
      throw (.billing "topup_quote_already_consumed"
        "The quote was already consumed by another payment.")
    t.applyGrant host moment ⟨(input.provider, input.providerEventId), .topup, input.userId,
      host.eventDigest (.topupPaid input), input.paymentReference, input.amountMicros,
      input.currency, input.occurredAt, input.tokenAmount⟩
      fun t => do
        let t ← t.consumeQuote moment input
        t.consumeStablecoinIntent moment input.toPaidEvent

structure BillingReversalResult where
  reversalId : String
  (recoveredTokens debtTokens tokenBalance totalTokenDebt : Int)
  duplicate : Bool
  deriving DecidableEq

/-- `SUM(token_amount)` over the reversals of a paid event. -/
def reversedTotal (eventId : String) : Int :=
  t.reversals.sumBy fun r => if r.originalEventId = eventId then r.tokenAmount else 0

def insertReversal (input : PaymentReversalEvent) (originalId : String) :
    Except Failure (BillingReversalResult × Tables δ) := do
  let (account, t) := t.getOrCreateAccount host moment input.userId
  let recoveredTokens := min account.tokenBalance input.tokenAmount
  let debtTokens := input.tokenAmount - recoveredTokens
  if ∃ r ∈ t.reversals.values, r.id = moment.newId "reverse" then throw .constraint
  let t := { t with
    reversals := t.reversals.insert (input.provider, input.providerEventId) ⟨moment.newId "reverse",
      originalId, input.userId, input.reason, host.eventDigest (.paymentReversed input),
      input.tokenAmount, recoveredTokens, debtTokens, input.occurredAt, moment.now⟩ }
  let t := t.updateAccount input.userId fun a =>
    { a with tokenBalance := a.tokenBalance - recoveredTokens, updatedAt := moment.now }
  let t := if 0 < debtTokens then
      { t with debts := t.debts.insert input.userId (t.tokenDebt input.userId + debtTokens) }
    else t
  pure (⟨moment.newId "reverse", recoveredTokens, debtTokens,
    account.tokenBalance - recoveredTokens, t.tokenDebt input.userId, false⟩, t)

def applyPaymentReversal [DecidableEq δ] (input : PaymentReversalEvent) (finalized : Bool) :
    Except Failure (BillingReversalResult × Tables δ) := do
  validateIdentifier input.providerEventId "provider event id"
  validateIdentifier input.originalProviderEventId "original provider event id"
  validateIdentifier input.userId "user id"
  validatePositiveInteger input.tokenAmount "reversed token amount"
  validateOccurredAt input.occurredAt "The reversal timestamp is invalid."
  if ¬finalized then
    throw (.billing "reversal_not_finalized" "Only finalized reversals may change credit state.")
  if input.reason = .stablecoinReorg ∧ input.provider ≠ .stablecoin then
    throw (.billing "invalid_reversal_reason"
      "A stablecoin reorg must come from the stablecoin provider.")
  if t.events.contains (input.provider, input.providerEventId) then
    throw (.billing "billing_event_conflict" "A provider event id is already used by a paid event.")
  if t.statusEvents.contains (input.provider, input.providerEventId) then
    throw (.billing "billing_event_conflict"
      "A provider event id is already used by a subscription status event.")
  match t.reversals.find? (input.provider, input.providerEventId) with
  | some existing =>
    if existing.eventDigest ≠ host.eventDigest (.paymentReversed input) then
      throw (.billing "billing_event_conflict"
        "A reversal event id was reused with different economic content.")
    let (account, t) := t.getOrCreateAccount host moment input.userId
    pure (⟨existing.id, existing.recoveredTokens, existing.debtTokens, account.tokenBalance,
      t.tokenDebt input.userId, true⟩, t)
  | none =>
    match t.events.find? (input.provider, input.originalProviderEventId) with
    | none =>
      throw (.billing "original_payment_not_found" "The reversed paid event does not exist.")
    | some original =>
      if original.userId ≠ input.userId then
        throw (.billing "reversal_owner_conflict"
          "A payment reversal cannot move between accounts.")
      match t.grants.entries.find? (·.2.sourceEventId = original.id) with
      | none =>
        throw (.billing "billing_ledger_incomplete" "The original paid event has no credit grant.")
      | some grant =>
        if grant.2.tokenAmount - t.reversedTotal original.id < input.tokenAmount then
          throw (.billing "reversal_exceeds_grant"
            "The reversal exceeds the unreversed part of the original grant.")
        t.insertReversal host moment input original.id

structure SubscriptionStatusResult where
  eventId : String
  status : LapsedStatus
  applied : Bool
  duplicate : Bool
  deriving DecidableEq

def applySubscriptionStatus [DecidableEq δ] (input : SubscriptionStatusEvent) (finalized : Bool) :
    Except Failure (SubscriptionStatusResult × Tables δ) := do
  validateIdentifier input.providerEventId "provider event id"
  validateIdentifier input.providerSubscriptionId "provider subscription id"
  validateIdentifier input.userId "user id"
  validateOccurredAt input.occurredAt "The subscription event timestamp is invalid."
  if ¬finalized then
    throw (.billing "subscription_event_not_finalized"
      "Only finalized subscription events may change state.")
  if t.events.contains (input.provider, input.providerEventId) ∨
      t.reversals.contains (input.provider, input.providerEventId) then
    throw (.billing "billing_event_conflict"
      "A provider event id is already used by another economic event.")
  match t.statusEvents.find? (input.provider, input.providerEventId) with
  | some existing =>
    if existing.eventDigest ≠ host.eventDigest (.subscriptionStatus input) then
      throw (.billing "billing_event_conflict"
        "A subscription event id was reused with different content.")
    pure (⟨existing.id, existing.status, existing.applied, true⟩, t)
  | none =>
    match t.subscriptions.find? (input.provider, input.providerSubscriptionId) with
    | none => throw (.billing "subscription_not_found" "The provider subscription does not exist.")
    | some subscription =>
      if subscription.userId ≠ input.userId then
        throw (.billing "subscription_owner_conflict"
          "A subscription event cannot move between accounts.")
      let applied := decide (subscription.statusChangedAt ≤ input.occurredAt)
      if ∃ s ∈ t.statusEvents.values, s.id = moment.newId "subevt" then throw .constraint
      pure (⟨moment.newId "subevt", input.status, applied, false⟩, { t with
        subscriptions := if applied then
            t.subscriptions.insert (input.provider, input.providerSubscriptionId)
                { subscription with
              status := input.status.toStatus
              statusChangedAt := input.occurredAt
              updatedAt := moment.now }
          else t.subscriptions
        statusEvents := t.statusEvents.insert (input.provider, input.providerEventId)
          ⟨moment.newId "subevt", input.providerSubscriptionId, input.userId, input.status,
            host.eventDigest (.subscriptionStatus input), input.occurredAt, moment.now, applied⟩ })

inductive Call
  | getOrCreateAccount (userId : String)
  | beginUsage (userId : String) (apiKeyId : Option String) (request : ChatCompletionRequest)
  | completeUsage (usageId : String) (inputTokens outputTokens : Int)
  | failUsage (usageId errorCode : String)
  | grantTokens (userId : String) (amount : Nat)
  | applyPaidSubscription (event : PaidSubscriptionEvent) (finalized : Bool)
  | applyPaidTopUp (event : PaidTopUpEvent) (finalized : Bool)
  | applyPaymentReversal (event : PaymentReversalEvent) (finalized : Bool)
  | applySubscriptionStatus (event : SubscriptionStatusEvent) (finalized : Bool)

inductive Answer
  | account (account : Option ApiAccount)
  | reserved (reservation : ApiUsageReservation)
  | paid (result : BillingApplicationResult)
  | reversed (result : BillingReversalResult)
  | status (result : SubscriptionStatusResult)

def Answer.duplicate : Answer → Bool
  | .paid result => result.duplicate
  | .reversed result => result.duplicate
  | .status result => result.duplicate
  | _ => false

def perform [DecidableEq δ] (c : Call × Moment) (t : Tables δ) :
    Except Failure (Answer × Tables δ) :=
  match c.1 with
  | .getOrCreateAccount userId =>
    .ok (.account (some (t.getOrCreateAccount host c.2 userId).1),
      (t.getOrCreateAccount host c.2 userId).2)
  | .beginUsage userId apiKeyId request =>
    (t.beginUsage host c.2 userId apiKeyId request).map fun r => (.reserved r.1, r.2)
  | .completeUsage usageId inputTokens outputTokens =>
    (t.completeUsage c.2 usageId inputTokens outputTokens).map fun r => (.account r.1, r.2)
  | .failUsage usageId errorCode =>
    (t.failUsage c.2 usageId errorCode).map fun r => (.account r.1, r.2)
  | .grantTokens userId amount =>
    (t.grantTokens host c.2 userId amount).map fun r => (.account r.1, r.2)
  | .applyPaidSubscription event finalized =>
    (t.applyPaidSubscription host c.2 event finalized).map fun r => (.paid r.1, r.2)
  | .applyPaidTopUp event finalized =>
    (t.applyPaidTopUp host c.2 event finalized).map fun r => (.paid r.1, r.2)
  | .applyPaymentReversal event finalized =>
    (t.applyPaymentReversal host c.2 event finalized).map fun r => (.reversed r.1, r.2)
  | .applySubscriptionStatus event finalized =>
    (t.applySubscriptionStatus host c.2 event finalized).map fun r => (.status r.1, r.2)

def step [DecidableEq δ] (t : Tables δ) (c : Call × Moment) : Tables δ × Except Failure Answer :=
  commit (perform host c) t

def start (plans : Dict (String × Nat) BillingPlan) (quotes : Dict String TopUpQuote)
    (intents : Dict String StablecoinIntent) : Tables δ :=
  ⟨Dict.empty, Dict.empty, [], plans, quotes, intents, Dict.empty, Dict.empty, Dict.empty,
    Dict.empty, Dict.empty, Dict.empty⟩

end Tables

end Mycellios.Billing
