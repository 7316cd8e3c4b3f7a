import Mycellios.Payouts.Manager

/-! `payout-dispatch.ts`. A call of `dispatch` or `reconcile` is suspended while the provider
answers; what happens in between is an event. The triggers that guard updates of
`payout_dispatch_operations` are modelled, in the order of the schema; of the others a call is told
whether they let it pass. -/

namespace Mycellios.Payouts

open Data Logic

inductive DispatchState
  | dispatching | uncertain | submitted | paid | rejected
  deriving DecidableEq

def DispatchState.final : DispatchState → Bool
  | .paid | .rejected => true
  | .dispatching | .uncertain | .submitted => false

structure Operation where
  id : String
  payoutMethod : PayoutMethod
  dispatchKey : String
  state : DispatchState
  (externalReference settlementReference sporeQuoteId sporeQuoteAttestationDigest : Option String)
  lastError : Option String
  createdAt : Nat
  updatedAt : Nat
  reconciledAt : Option Nat
  deriving DecidableEq

/-- `PayoutSettlementAttestation`, by `batch_id`. -/
structure Settlement where
  (schemaName externalReference settlementReference : String)
  paidAt : Nat
  issuedAt : Nat
  verifierKeyId : String
  signature : String
  deriving DecidableEq

/-- A `PayoutProviderObservation` that is not `absent`. -/
inductive Transfer
  | rejected (reason : String)
  | submitted (externalReference : String)
  | paid (externalReference settlementReference : String) (paidAt : Nat)

structure Books where
  tables : Tables
  operations : Dict String Operation
  settlements : Dict String Settlement

def Books.empty : Books := ⟨.empty, .empty, .empty⟩

/-- What the provider throws, what the payouts throw, or a trigger that aborts. -/
inductive Fault
  | provider (message : String)
  | raised (failure : Failure)
  | aborted (trigger : String)

def Fault.message : Fault → String
  | .provider message => message
  | .raised (.payout _ message) => message
  | .raised (.earnings _ message) => message
  | .raised .constraint => "constraint failed"
  | .aborted trigger => trigger

def bounded (text : String) : String := String.ofList (text.toList.take 500)

def boundedError (fault : Fault) : String :=
  if bounded fault.message = "" then "provider_dispatch_failed" else bounded fault.message

/-- A `SporeConversionQuote`; whether its destination is the batch's is taken as it comes. -/
structure SporeQuote where
  (quoteId batchId sellerId : String)
  usdMicros : Nat
  sameDestination : Bool
  attestationDigest : String

structure Service where
  host : Host
  gateways : PayoutMethod → Bool
  sporeQuotes : Bool

/-- What a step finds: the active quote of the batch, and the quotes by their ids. -/
structure Surroundings extends Moment where
  activeQuote : Except String (Option SporeQuote)
  storedQuote : String → Option SporeQuote

def PayoutMethod.text : PayoutMethod → String
  | .stable => "stable"
  | .spore => "spore"

def raise {α : Type} (code message : String) : Except Fault α :=
  .error (.raised (.payout code message))

def lift {α : Type} (result : Except Failure α) : Except Fault α := result.mapError .raised

namespace Books

variable (service : Service) (around : Surroundings) (b : Books)

def requireBatch (batchId : String) : Except Fault PayoutBatch :=
  lift (b.tables.getBatchRequired batchId)

def requirePreparedBatch (batchId : String) : Except Fault PayoutBatch := do
  let batch ← b.requireBatch batchId
  if batch.status ≠ .prepared then
    raise "payout_not_dispatchable" "Only a prepared payout can be dispatched."
  pure batch

def requireGateway (method : PayoutMethod) : Except Fault Unit :=
  if service.gateways method then .ok ()
  else raise "payout_gateway_unavailable" ("No " ++ method.text ++ " payout gateway is configured.")

def itemRows (batchId : String) : List (PayoutItem × SellerEarning) :=
  (b.tables.items.filter (·.batchId = batchId)).filterMap fun i =>
    (b.tables.earnings.find? i.earningId).map (i, ·)

def allowedEarningStatuses : PayoutStatus → List EarningStatus
  | .cancelled => [.available]
  | .paid => [.paid, .reversed]
  | .prepared | .submitted => [.batched]

def submittedIdentityMatches (operation : Operation) (batch : PayoutBatch) : Bool :=
  batch.status = .submitted ∧ batch.dispatchKey = some operation.dispatchKey ∧
    batch.externalReference = operation.externalReference ∧ batch.settlementReference = none

def paidIdentityMatches (operation : Operation) (batch : PayoutBatch) : Bool :=
  batch.status = .paid ∧ batch.dispatchKey = some operation.dispatchKey ∧
    batch.externalReference = operation.externalReference ∧
    batch.settlementReference = operation.settlementReference

def statesMatch (operation : Operation) (batch : PayoutBatch) : Bool :=
  match operation.state with
  | .dispatching => batch.status = .prepared
  | .uncertain => (operation.externalReference = none ∧ batch.status = .prepared) ∨
      (operation.externalReference ≠ none ∧ submittedIdentityMatches operation batch)
  | .submitted => submittedIdentityMatches operation batch
  | .paid => paidIdentityMatches operation batch
  | .rejected => (operation.externalReference = none ∧ batch.status = .cancelled) ∨
      (operation.externalReference ≠ none ∧ submittedIdentityMatches operation batch)

def earningsMatch (batchId : String) (batch : PayoutBatch) : Bool :=
  b.itemRows batchId ≠ [] ∧ ∀ row ∈ b.itemRows batchId, row.2.status ∈ allowedEarningStatuses
    batch.status

def projectionIntegrity (batchId : String) (operation : Operation) (batch : PayoutBatch) : Bool :=
  b.earningsMatch batchId batch ∧ batch.payoutMethod = operation.payoutMethod ∧
    statesMatch operation batch

def assertProjectionIntegrity (batchId : String) (operation : Operation) (batch : PayoutBatch) :
    Except Fault Unit :=
  if b.projectionIntegrity batchId operation batch then .ok ()
  else raise "payout_dispatch_projection_conflict"
    "The durable dispatch operation and payout batch projections do not match."

def assertBatchEconomicIntegrity (batchId : String) (batch : PayoutBatch) : Except Fault Unit :=
  let rows := b.itemRows batchId
  if rows = [] ∨ (rows.map (·.1.amountUsdMicros)).sum ≠ batch.grossUsdMicros ∨
      ∃ row ∈ rows, row.2.sellerId ≠ batch.sellerId ∨ row.2.payoutMethod ≠ batch.payoutMethod ∨
        row.2.status ≠ .batched ∨ row.1.amountUsdMicros ≠ row.2.amountUsdMicros then
    raise "payout_batch_audit_conflict"
      "The payout batch item audit does not match its sealed economics."
  else .ok ()

def requireDispatchableSporeQuote (batch : PayoutBatch) : Except Fault (Option SporeQuote) :=
  match batch.payoutMethod with
  | .stable => .ok none
  | .spore =>
    if ¬service.sporeQuotes then
      raise "spore_quote_required" "SPORE payout dispatch requires a configured quote verifier."
    else
      match around.activeQuote with
      | .error message => raise "spore_quote_not_dispatchable" message
      | .ok none => raise "spore_quote_required" "SPORE payout dispatch requires an active quote."
      | .ok (some quote) =>
        if quote.sellerId ≠ batch.sellerId ∨ quote.usdMicros ≠ batch.amountUsdMicros ∨
            ¬quote.sameDestination then
          raise "spore_quote_batch_mismatch"
            "The active SPORE quote no longer matches the payout batch."
        else .ok (some quote)

def assertSporeQuoteAuditIntegrity (batchId : String) (operation : Operation) : Except Fault Unit :=
  match operation.payoutMethod with
  | .stable => .ok ()
  | .spore =>
    match service.sporeQuotes, operation.sporeQuoteId, operation.sporeQuoteAttestationDigest with
    | true, some quoteId, some digest =>
      if (around.storedQuote quoteId).any fun quote => quote.batchId = batchId ∧
        quote.attestationDigest = digest then .ok ()
      else raise "spore_dispatch_quote_audit_conflict"
        "The SPORE dispatch quote audit link is inconsistent."
    | _, _, _ =>
      raise "spore_dispatch_quote_audit_missing"
        "The SPORE dispatch has no durable quote audit link."

/-- `payout_dispatch_time_update_guard`. -/
def timeGuard (new old : Operation) : Bool :=
  new.createdAt ≠ old.createdAt ∨ new.updatedAt < old.updatedAt ∨ new.updatedAt < new.createdAt ∨
    (new.reconciledAt.any fun time => time < new.createdAt ∨ new.updatedAt < time)

/-- `payout_dispatch_provider_identity_immutable_guard`. -/
def identityGuard (new old : Operation) : Bool :=
  (old.externalReference ≠ none ∧ old.externalReference ≠ new.externalReference) ∨
    (old.state.final ∧ old.externalReference ≠ new.externalReference) ∨
    (old.settlementReference ≠ none ∧ old.settlementReference ≠ new.settlementReference)

/-- `payout_dispatch_settlement_evidence_binding_guard`. -/
def settlementGuard (batchId : String) (new : Operation) : Bool :=
  new.state = .paid ∧ (b.settlements.find? batchId).any fun s =>
    new.externalReference.any (s.externalReference ≠ ·) ∨
      new.settlementReference.any (s.settlementReference ≠ ·)

/-- `payout_dispatch_state_transition_guard`. -/
def transitionGuard (new old : Operation) : Bool :=
  ¬(old.state = new.state ∨ ¬old.state.final ∧ new.state ≠ .dispatching)

/-- An equation of SQL, which does not hold of `NULL`. -/
def same (a c : Option String) : Bool := a ≠ none ∧ a = c

/-- `payout_dispatch_batch_projection_update_guard`. -/
def projectionGuard (batchId : String) (new : Operation) : Bool :=
  ¬(b.tables.batches.find? batchId).any fun batch =>
    let submitted := batch.status = .submitted ∧ batch.dispatchKey = some new.dispatchKey ∧
      same batch.externalReference new.externalReference
    match new.state with
    | .dispatching => new.externalReference = none ∧ batch.status = .prepared
    | .uncertain => (new.externalReference = none ∧ batch.status = .prepared) ∨
        (new.externalReference ≠ none ∧ submitted)
    | .submitted => submitted
    | .paid => batch.status = .paid ∧ batch.dispatchKey = some new.dispatchKey ∧
        same batch.externalReference new.externalReference ∧
        same batch.settlementReference new.settlementReference
    | .rejected =>
      (new.externalReference = none ∧ (batch.status = .prepared ∨ batch.status = .cancelled)) ∨
        (new.externalReference ≠ none ∧ submitted)

/-- `payout_dispatch_state_evidence_update_guard`. -/
def evidenceGuard (new : Operation) : Bool :=
  ((new.state = .submitted ∨ new.state = .paid) ∧ new.externalReference = none) ∨
    (new.state = .paid ∧ new.settlementReference = none) ∨
    (new.state ≠ .paid ∧ new.settlementReference ≠ none)

def updateGuards (batchId : String) (new old : Operation) : Except Fault Unit := do
  if timeGuard new old then throw (.aborted "invalid_payout_dispatch_time")
  if identityGuard new old then throw (.aborted "immutable_payout_dispatch_provider_identity")
  if b.settlementGuard batchId new then
    throw (.aborted "invalid_payout_settlement_evidence_binding")
  if transitionGuard new old then throw (.aborted "invalid_payout_dispatch_state_transition")
  if b.projectionGuard batchId new then throw (.aborted "invalid_payout_dispatch_batch_projection")
  if evidenceGuard new then throw (.aborted "invalid_payout_dispatch_state_evidence")

structure Update where
  state : DispatchState
  (externalReference settlementReference lastError : Option String)
  reconciledAt : Option Nat

/-- `COALESCE(?, external_reference)`, and so on. -/
def Update.apply (input : Update) (now : Nat) (old : Operation) : Operation :=
  { old with
    state := input.state
    externalReference := input.externalReference.or old.externalReference
    settlementReference := input.settlementReference.or old.settlementReference
    lastError := input.lastError
    updatedAt := now
    reconciledAt := input.reconciledAt }

def updateOperation (id : String) (input : Update) : Except Fault (Operation × Books) :=
  match b.operations.entries.find? (·.2.id = id) with
  | none => raise "payout_dispatch_not_found" "The payout dispatch operation disappeared."
  | some (batchId, old) => do
    let new := input.apply around.now old
    b.updateGuards batchId new old
    pure (new, { b with operations := b.operations.insert batchId new })

/-- The insertion of a new operation; its triggers repeat what `dispatch` has checked. -/
def createOperation (batchId : String) (batch : PayoutBatch) (quote : Option SporeQuote) :
    Except Fault ((Operation × Bool) × Books) :=
  match b.operations.find? batchId with
  | some existing => .ok ((existing, false), b)
  | none => do
    let operation : Operation := {
      id := around.newId
      payoutMethod := batch.payoutMethod
      dispatchKey := "payout:" ++ batchId
      state := .dispatching
      externalReference := none
      settlementReference := none
      sporeQuoteId := quote.map (·.quoteId)
      sporeQuoteAttestationDigest := quote.map (·.attestationDigest)
      lastError := none
      createdAt := around.now
      updatedAt := around.now
      reconciledAt := none }
    if (∃ o ∈ b.operations.values, o.id = operation.id ∨ o.dispatchKey = operation.dispatchKey) ∨
        ¬around.triggersPass then
      throw (.raised .constraint)
    pure ((operation, true), { b with operations := b.operations.insert batchId operation })

structure DispatchResult where
  operation : Operation
  batch : PayoutBatch
  duplicate : Bool

structure TransferRequest where
  batchId : String
  sellerId : String
  payoutMethod : PayoutMethod
  amountUsdMicros : Nat
  dispatchKey : String
  sporeQuote : Option SporeQuote

def dispatchOf (batchId : String) : Option Dispatch :=
  (b.operations.find? batchId).map fun o => ⟨o.state = .rejected, o.externalReference,
    o.settlementReference⟩

def applyObservation (batchId : String) (operation : Operation) (transfer : Transfer)
    (reconciled : Bool) : Except Fault (DispatchResult × Books) :=
  let reconciledAt := if reconciled then some around.now else none
  match transfer with
  | .rejected reason => do
    let (rejected, b) ← b.updateOperation around operation.id
      ⟨.rejected, none, none, some (bounded reason), reconciledAt⟩
    if rejected.externalReference = none then
      let (result, tables) ← lift (b.tables.cancelPrepared around.toMoment batchId
        (b.dispatchOf batchId))
      pure (⟨rejected, result.batch, false⟩, { b with tables := tables })
    else
      let batch ← b.requireBatch batchId
      pure (⟨rejected, batch, false⟩, b)
  | .submitted externalReference => do
    let (_, tables) ← lift (b.tables.markSubmitted around.toMoment batchId operation.dispatchKey
      externalReference)
    let (updated, b) ← { b with tables := tables }.updateOperation around operation.id
      ⟨.submitted, some externalReference, none, none, reconciledAt⟩
    let batch ← b.requireBatch batchId
    pure (⟨updated, batch, false⟩, b)
  | .paid externalReference settlementReference paidAt => do
    let (_, tables) ← lift (b.tables.markSubmitted around.toMoment batchId operation.dispatchKey
      externalReference)
    let (_, tables) ← lift (tables.markPaid around.toMoment batchId settlementReference paidAt)
    let (updated, b) ← { b with tables := tables }.updateOperation around operation.id
      ⟨.paid, some externalReference, some settlementReference, none, reconciledAt⟩
    let batch ← b.requireBatch batchId
    pure (⟨updated, batch, false⟩, b)

/-- `dispatch` up to the call of `createTransfer`. -/
def dispatch (batchId : String) :
    Except Fault ((DispatchResult ⊕ Operation × TransferRequest) × Books) := do
  let current ← b.requireBatch batchId
  match b.operations.find? batchId with
  | some existing =>
    b.assertProjectionIntegrity batchId existing current
    pure (.inl ⟨existing, current, true⟩, b)
  | none =>
    let batch ← b.requirePreparedBatch batchId
    b.assertBatchEconomicIntegrity batchId batch
    lift (assertMethodEnabled service.host.policy batch.payoutMethod)
    requireGateway service batch.payoutMethod
    let quote ← requireDispatchableSporeQuote service around batch
    let ((operation, created), b) ← b.createOperation around batchId batch quote
    if ¬created then
      b.assertProjectionIntegrity batchId operation batch
      pure (.inl ⟨operation, batch, true⟩, b)
    else
      pure (.inr (operation, ⟨batchId, batch.sellerId, batch.payoutMethod, batch.amountUsdMicros,
        operation.dispatchKey, quote⟩), b)

/-- `reconcile` up to the call of `inspectTransfer`. -/
def reconcile (batchId : String) : Except Fault (DispatchResult ⊕ Operation) :=
  match b.operations.find? batchId with
  | none => raise "payout_dispatch_not_found" "The payout has no dispatch operation."
  | some operation => do
    let batch ← b.requireBatch batchId
    b.assertProjectionIntegrity batchId operation batch
    if operation.state = .paid ∨ operation.state = .rejected then
      pure (.inl ⟨operation, batch, true⟩)
    else
      assertSporeQuoteAuditIntegrity service around batchId operation
      requireGateway service operation.payoutMethod
      pure (.inr operation)

def recordEvidence (batchId : String) (evidence : Settlement) : Except Fault Books :=
  match b.settlements.find? batchId with
  | some existing =>
    if existing = evidence then .ok b
    else raise "payout_settlement_evidence_conflict"
      "The payout already has different signed settlement evidence."
  | none =>
    if (∃ s ∈ b.settlements.values, s.settlementReference = evidence.settlementReference) ∨
        ¬around.triggersPass then
      raise "payout_settlement_evidence_conflict" (boundedError (.raised .constraint))
    else .ok { b with settlements := b.settlements.insert batchId evidence }

def recordSettlement (batchId : String) (evidence : Settlement) :
    Except Fault (DispatchResult × Books) :=
  match b.operations.find? batchId with
  | none => raise "payout_dispatch_not_found" "The payout has no dispatch operation."
  | some operation => do
    let batch ← b.requireBatch batchId
    b.assertProjectionIntegrity batchId operation batch
    if operation.state = .rejected then
      raise "payout_dispatch_terminal" "A rejected payout dispatch cannot be settled."
    assertSporeQuoteAuditIntegrity service around batchId operation
    if operation.externalReference ≠ some evidence.externalReference then
      raise "payout_settlement_identity_conflict"
        "Settlement evidence does not match the dispatched transfer."
    let recorded ← b.recordEvidence around batchId evidence
    let (settled, after) ← recorded.applyObservation around batchId operation
      (.paid evidence.externalReference evidence.settlementReference evidence.paidAt) true
    pure ({ settled with duplicate := b.settlements.contains batchId || operation.state = .paid },
      after)

end Books

inductive Awaited
  | createTransfer | inspectTransfer
  deriving DecidableEq

/-- A call that waits for the provider, with the operation as it has read it. -/
structure Waiting where
  awaited : Awaited
  batchId : String
  operation : Operation

structure State where
  books : Books
  calls : Dict Nat Waiting

def State.empty : State := ⟨.empty, .empty⟩

/-- Calls of the managers and the service, and the provider's answers to the numbered calls. -/
inductive Event
  | setPayoutPreference (sellerId : String) (method : PayoutMethod)
  | recordAcceptedReceipt (receipt : SignedWorkReceipt)
  | recordEarningReversal (reversal : SignedEarningReversal)
  | prepare (input : Tables.PrepareInput) (destination : Option String)
  | cancelPrepared (batchId : String)
  | recordSettlement (batchId : String) (evidence : Settlement)
  | dispatch (call : Nat) (batchId : String)
  | reconcile (call : Nat) (batchId : String)
  | created (call : Nat) (answer : Except String Transfer)
  | inspected (call : Nat) (answer : Except String (Option Transfer))

inductive Reply
  | createTransfer (request : Books.TransferRequest)
  | inspectTransfer (dispatchKey : String) (externalReference : Option String)
  | returned (result : Books.DispatchResult)
  | done
  | failed (fault : Fault)
  | ignored

namespace State

variable (service : Service) (around : Surroundings) (s : State)

def manage (call : Tables.Call) : State × Reply :=
  match s.books.tables.call service.host (call, around.toMoment) with
  | .error failure => (s, .failed (.raised failure))
  | .ok (_, tables) => ({ s with books := { s.books with tables := tables } }, .done)

def transact (result : Except Fault (Books.DispatchResult × Books)) : State × Reply :=
  match result with
  | .error fault => (s, .failed fault)
  | .ok (result, books) => ({ s with books := books }, .returned result)

/-- The operation becomes uncertain, even if the batch cannot be read afterwards. -/
def leaveUncertain (waiting : Waiting) (lastError : String) (reconciledAt : Option Nat)
    (duplicate : Bool) : State × Reply :=
  match s.books.updateOperation around waiting.operation.id ⟨.uncertain, none, none, some lastError,
      reconciledAt⟩ with
  | .error fault => (s, .failed fault)
  | .ok (uncertain, books) =>
    ({ s with books := books },
      match books.requireBatch waiting.batchId with
      | .error fault => .failed fault
      | .ok batch => .returned ⟨uncertain, batch, duplicate⟩)

/-- `dispatch` after the answer; whatever is thrown leaves the operation uncertain. -/
def created (waiting : Waiting) (answer : Except String Transfer) : State × Reply :=
  match (answer.mapError .provider).bind fun transfer =>
      s.books.applyObservation around waiting.batchId waiting.operation transfer false with
  | .error fault => s.leaveUncertain around waiting (boundedError fault) none false
  | .ok (result, books) => ({ s with books := books }, .returned result)

/-- `reconcile` after the answer. -/
def inspected (waiting : Waiting) : Except String (Option Transfer) → State × Reply
  | .error message => (s, .failed (.provider message))
  | .ok none => s.leaveUncertain around waiting "provider_transfer_absent" (some around.now) true
  | .ok (some transfer) =>
    s.transact (s.books.applyObservation around waiting.batchId waiting.operation transfer true)

def handle : Event → State × Reply
  | .setPayoutPreference sellerId method =>
    s.manage service around (.setPayoutPreference sellerId method)
  | .recordAcceptedReceipt receipt => s.manage service around (.recordAcceptedReceipt receipt)
  | .recordEarningReversal reversal => s.manage service around (.recordEarningReversal reversal)
  | .prepare input destination => s.manage service around (.prepare input destination)
  | .cancelPrepared batchId =>
    s.manage service around (.cancelPrepared batchId (s.books.dispatchOf batchId))
  | .recordSettlement batchId evidence =>
    s.transact (s.books.recordSettlement service around batchId evidence)
  | .dispatch call batchId =>
    if s.calls.contains call then (s, .ignored)
    else
      match s.books.dispatch service around batchId with
      | .error fault => (s, .failed fault)
      | .ok (.inl result, books) => ({ s with books := books }, .returned result)
      | .ok (.inr (operation, request), books) =>
        (⟨books, s.calls.insert call ⟨.createTransfer, batchId, operation⟩⟩,
          .createTransfer request)
  | .reconcile call batchId =>
    if s.calls.contains call then (s, .ignored)
    else
      match s.books.reconcile service around batchId with
      | .error fault => (s, .failed fault)
      | .ok (.inl result) => (s, .returned result)
      | .ok (.inr operation) =>
        ({ s with calls := s.calls.insert call ⟨.inspectTransfer, batchId, operation⟩ },
          .inspectTransfer operation.dispatchKey operation.externalReference)
  | .created call answer =>
    match s.calls.find? call with
    | some waiting =>
      if waiting.awaited = .createTransfer then
        { s with calls := s.calls.erase call }.created around waiting answer
      else (s, .ignored)
    | none => (s, .ignored)
  | .inspected call answer =>
    match s.calls.find? call with
    | some waiting =>
      if waiting.awaited = .inspectTransfer then
        { s with calls := s.calls.erase call }.inspected around waiting answer
      else (s, .ignored)
    | none => (s, .ignored)

end State

def dispatchStep (service : Service) (s : State) (i : Surroundings × Event) : State × Reply :=
  s.handle service i.1 i.2

end Mycellios.Payouts
