import Mycellios.Data.Dict
import Mycellios.Data.JavaScript
import Mycellios.Logic.Transaction
import Mycellios.Logic.Wp

/-! `payouts.ts` and `seller-earnings.ts`. A table is a dictionary by its primary key, or by the key
that rows are looked up with. Amounts and times are natural numbers. Whether a trigger of the schema
aborts a call is part of what the call is given. -/

namespace Mycellios.Payouts

open Data Logic

inductive Failure
  | payout (code message : String)
  | earnings (code message : String)
  | constraint

def isSignature (s : String) : Bool :=
  s.toList.all (fun c => c.isAlphanum || ['_', '-'].contains c) &&
    decide (80 ≤ s.toList.length ∧ s.toList.length ≤ 120)

inductive PayoutMethod
  | stable | spore
  deriving DecidableEq

inductive PayoutStatus
  | prepared | submitted | paid | cancelled
  deriving DecidableEq

inductive EarningStatus
  | available | batched | paid | reversed
  deriving DecidableEq

inductive ReversalState
  | applied | sellerDebt | pendingPayout
  deriving DecidableEq

inductive ReversalReason
  | fraud | verificationError | buyerDispute
  deriving DecidableEq

structure SignedWorkReceipt where
  (schemaName receiptId sellerId workerId jobId stageId pricingVersion : String)
  amountUsdMicros : Nat
  evidenceDigest : String
  accepted : Bool
  acceptedAt : Nat
  verifierKeyId : String
  signature : String

structure SignedEarningReversal where
  (schemaName reversalId earningId sellerId : String)
  reason : ReversalReason
  evidenceDigest : String
  reversedAt : Nat
  verifierKeyId : String
  signature : String

structure SellerEarning where
  sellerId : String
  receiptId : String
  amountUsdMicros : Nat
  payoutMethod : PayoutMethod
  status : EarningStatus
  createdAt : Nat

structure PayoutBatch where
  sellerId : String
  payoutMethod : PayoutMethod
  idempotencyKey : String
  requestDigest : String
  (grossUsdMicros debtOffsetUsdMicros amountUsdMicros : Nat)
  destinationId : Option String
  status : PayoutStatus
  (dispatchKey externalReference settlementReference : Option String)
  createdAt : Nat
  updatedAt : Nat
  (submittedAt paidAt cancelledAt : Option Nat)

structure PayoutItem where
  batchId : String
  earningId : String
  amountUsdMicros : Nat

structure EarningReversal where
  (id earningId sellerId : String)
  reason : ReversalReason
  (evidenceDigest verifierKeyId signature : String)
  amountUsdMicros : Nat
  state : ReversalState
  reversedAt : Nat
  recordedAt : Nat
  resolvedAt : Option Nat

structure Tables where
  preferences : Dict String PayoutMethod
  receipts : Dict String SignedWorkReceipt
  earnings : Dict String SellerEarning
  batches : Dict String PayoutBatch
  items : List PayoutItem
  reversals : Dict String EarningReversal
  debts : Dict String Nat

def Tables.empty : Tables :=
  ⟨Dict.empty, Dict.empty, Dict.empty, Dict.empty, [], Dict.empty, Dict.empty⟩

structure SporePayoutGates where
  (legalApproved custodyApproved liquidityApproved antifraudApproved : Bool)

/-- `PayoutPolicy`, as its constructor accepts it. -/
structure PayoutPolicy where
  minimumUsdMicros : Nat
  spore : SporePayoutGates
  requireVerifiedDestination : Bool
  minimum_pos : 0 < minimumUsdMicros

/-- What the managers are built with. Signatures and digests are taken as they come. -/
structure Host where
  policy : PayoutPolicy
  trustedVerifierKeys : Dict String String
  verifyReceipt : String → SignedWorkReceipt → Bool
  verifyReversal : String → SignedEarningReversal → Bool
  requestDigest : String → PayoutMethod → List String → String

/-- The time, the id a call would generate, and whether the triggers let its writes pass. -/
structure Moment where
  now : Nat
  newId : String
  triggersPass : Bool

/-- A row of `payout_dispatch_operations`, as far as a cancellation reads it. -/
structure Dispatch where
  rejected : Bool
  externalReference : Option String
  settlementReference : Option String

def earningsId (value label : String) : Except Failure Unit :=
  if isId value then .ok ()
    else .error (.earnings "invalid_identifier" ("The " ++ label ++ " is invalid."))

def payoutId (value label : String) : Except Failure Unit :=
  if isId value then .ok ()
    else .error (.payout "invalid_identifier" ("The " ++ label ++ " is invalid."))

def validateReceipt (r : SignedWorkReceipt) : Except Failure Unit := do
  if r.schemaName ≠ "mycellios.work-receipt.v1" then
    throw (.earnings "unsupported_receipt_schema" "The work receipt schema is unsupported.")
  earningsId r.receiptId "receipt id"
  earningsId r.sellerId "seller id"
  earningsId r.workerId "worker id"
  earningsId r.jobId "job id"
  earningsId r.stageId "stage id"
  earningsId r.pricingVersion "pricing version"
  earningsId r.verifierKeyId "verifier key id"
  if maxSafeInteger < r.amountUsdMicros ∨ r.amountUsdMicros = 0 then
    throw (.earnings "invalid_earning_amount" "The receipt amount must be a positive safe integer.")
  if ¬isDigest r.evidenceDigest then
    throw (.earnings "invalid_evidence_digest" "The evidence digest must be canonical SHA-256 hex.")
  if maxSafeInteger < r.acceptedAt ∨ r.acceptedAt = 0 then
    throw (.earnings "invalid_accepted_at" "The accepted timestamp is invalid.")
  if ¬isSignature r.signature then
    throw (.earnings "invalid_receipt_signature" "The work receipt signature encoding is invalid.")

def validateEarningReversal (r : SignedEarningReversal) : Except Failure Unit := do
  if r.schemaName ≠ "mycellios.earning-reversal.v1" then
    throw (.earnings "unsupported_reversal_schema" "The earning reversal schema is unsupported.")
  earningsId r.reversalId "reversal id"
  earningsId r.earningId "earning id"
  earningsId r.sellerId "seller id"
  earningsId r.verifierKeyId "verifier key id"
  if ¬isDigest r.evidenceDigest then
    throw (.earnings "invalid_evidence_digest"
      "The reversal evidence digest must be canonical SHA-256 hex.")
  if maxSafeInteger < r.reversedAt ∨ r.reversedAt = 0 then
    throw (.earnings "invalid_reversed_at" "The reversal timestamp is invalid.")
  if ¬isSignature r.signature then
    throw (.earnings "invalid_reversal_signature" "The reversal signature encoding is invalid.")

def validateIds (label : String) : List String → Except Failure Unit
  | [] => .ok ()
  | id :: ids => do
    payoutId id label
    validateIds label ids

def assertMethodEnabled (policy : PayoutPolicy) : PayoutMethod → Except Failure Unit
  | .stable => .ok ()
  | .spore =>
    let missing :=
      ([("legalApproved", policy.spore.legalApproved),
        ("custodyApproved", policy.spore.custodyApproved),
        ("liquidityApproved", policy.spore.liquidityApproved),
      ("antifraudApproved", policy.spore.antifraudApproved)].filter (¬·.2)).map (·.1)
    if missing = [] then .ok ()
    else .error (.payout "spore_payout_gates_closed"
      ("SPORE payout gates are closed: " ++ ", ".intercalate missing ++ "."))

namespace Tables

section Earnings

variable (host : Host) (moment : Moment) (t : Tables)

/-- `ON CONFLICT(seller_id) DO UPDATE SET amount = amount + excluded.amount`. -/
def addDebt (debts : Dict String Nat) (sellerId : String) (amount : Nat) : Dict String Nat :=
  debts.insert sellerId ((debts.find? sellerId).getD 0 + amount)

def storedReceiptMatches (stored receipt : SignedWorkReceipt) : Bool :=
  stored.sellerId = receipt.sellerId ∧ stored.workerId = receipt.workerId ∧
    stored.jobId = receipt.jobId ∧ stored.stageId = receipt.stageId ∧
    stored.pricingVersion = receipt.pricingVersion ∧
    stored.amountUsdMicros = receipt.amountUsdMicros ∧
    stored.evidenceDigest = receipt.evidenceDigest ∧ stored.acceptedAt = receipt.acceptedAt ∧
    stored.verifierKeyId = receipt.verifierKeyId ∧ stored.signature = receipt.signature

def setPayoutPreference (sellerId : String) (method : PayoutMethod) :
    Except Failure (Unit × Tables) := do
  earningsId sellerId "seller id"
  pure ((), { t with preferences := t.preferences.insert sellerId method })

def insertEarning (receipt : SignedWorkReceipt) :
    Except Failure ((String × SellerEarning) × Tables) := do
  let earning : SellerEarning := {
    sellerId := receipt.sellerId
    receiptId := receipt.receiptId
    amountUsdMicros := receipt.amountUsdMicros
    payoutMethod := (t.preferences.find? receipt.sellerId).getD .stable
    status := .available
    createdAt := moment.now }
  if t.receipts.contains receipt.receiptId ∨
      (∃ r ∈ t.receipts.values, r.jobId = receipt.jobId ∧ r.stageId = receipt.stageId) ∨
      t.earnings.contains moment.newId ∨ ¬moment.triggersPass then throw .constraint
  pure ((moment.newId, earning), { t with
    receipts := t.receipts.insert receipt.receiptId receipt
    earnings := t.earnings.insert moment.newId earning })

def recordAcceptedReceipt (receipt : SignedWorkReceipt) :
    Except Failure ((String × SellerEarning) × Tables) := do
  validateReceipt receipt
  match host.trustedVerifierKeys.find? receipt.verifierKeyId with
  | none => throw (.earnings "untrusted_receipt_verifier" "The receipt verifier is not trusted.")
  | some publicKey =>
    if ¬host.verifyReceipt publicKey receipt then
      throw (.earnings "invalid_receipt_signature" "The work receipt signature is invalid.")
    if ¬receipt.accepted then
      throw (.earnings "work_not_accepted" "Rejected work cannot create seller earnings.")
    match t.earnings.entries.find? (·.2.receiptId = receipt.receiptId) with
    | some existing =>
      if ¬((t.receipts.find? receipt.receiptId).any (storedReceiptMatches · receipt)) then
        throw (.earnings "receipt_replay_conflict"
          "A receipt id was reused with different work evidence.")
      pure (existing, t)
    | none => t.insertEarning moment receipt

def storedReversalMatches (stored : EarningReversal) (reversal : SignedEarningReversal) : Bool :=
  stored.earningId = reversal.earningId ∧ stored.sellerId = reversal.sellerId ∧
    stored.reason = reversal.reason ∧ stored.evidenceDigest = reversal.evidenceDigest ∧
    stored.verifierKeyId = reversal.verifierKeyId ∧ stored.signature = reversal.signature ∧
    stored.reversedAt = reversal.reversedAt

/-- The batches that hold an earning and are prepared or submitted, the newest first. -/
def openBatches (earningId : String) : List PayoutBatch :=
  ((t.items.filter (·.earningId = earningId)).filterMap fun i => t.batches.find? i.batchId).filter
      (fun b =>
    b.status = .prepared ∨ b.status = .submitted) |>.insertionSort fun a b => b.createdAt ≤
      a.createdAt

def reversalState (earningId : String) : EarningStatus → Except Failure ReversalState
  | .available => .ok .applied
  | .paid => .ok .sellerDebt
  | .batched =>
    match t.openBatches earningId with
    | [] =>
      .error (.earnings "earning_batch_inconsistent"
        "The batched earning has no active payout batch.")
    | b :: _ =>
      if b.status = .prepared then
        .error (.earnings "earning_in_prepared_payout"
          "Cancel the prepared payout before reversing this earning.")
      else .ok .pendingPayout
  | .reversed => .error (.earnings "earning_already_reversed" "The earning is already reversed.")

/-- `UPDATE seller_earnings SET status = … WHERE … AND status = …`. -/
def moveStatus (earnings : Dict String SellerEarning) (which : String → Bool)
    (source target : EarningStatus) : Dict String SellerEarning :=
  earnings.mapValues fun id e => if which id ∧ e.status = source then { e with status := target }
    else e

structure EarningReversalResult where
  (id reversalId earningId sellerId : String)
  amountUsdMicros : Nat
  state : ReversalState
  duplicate : Bool

def insertReversal (reversal : SignedEarningReversal) (earning : SellerEarning)
    (state : ReversalState) : Except Failure (EarningReversalResult × Tables) := do
  if (∃ r ∈ t.reversals.values, r.id = moment.newId) ∨ ¬moment.triggersPass then throw .constraint
  let row : EarningReversal := {
    id := moment.newId
    earningId := reversal.earningId
    sellerId := reversal.sellerId
    reason := reversal.reason
    evidenceDigest := reversal.evidenceDigest
    verifierKeyId := reversal.verifierKeyId
    signature := reversal.signature
    amountUsdMicros := earning.amountUsdMicros
    state := state
    reversedAt := reversal.reversedAt
    recordedAt := moment.now
    resolvedAt := if state = .pendingPayout then none else some moment.now }
  let t := { t with reversals := t.reversals.insert reversal.reversalId row }
  let t := match state with
    | .applied =>
      { t with earnings := moveStatus t.earnings (· = reversal.earningId) .available .reversed }
    | .sellerDebt => { t with
        debts := addDebt t.debts reversal.sellerId earning.amountUsdMicros
        earnings := moveStatus t.earnings (· = reversal.earningId) .paid .reversed }
    | .pendingPayout => t
  pure (⟨moment.newId, reversal.reversalId, reversal.earningId, reversal.sellerId,
    earning.amountUsdMicros, state, false⟩, t)

def recordEarningReversal (reversal : SignedEarningReversal) :
    Except Failure (EarningReversalResult × Tables) := do
  validateEarningReversal reversal
  match host.trustedVerifierKeys.find? reversal.verifierKeyId with
  | none => throw (.earnings "untrusted_reversal_verifier" "The reversal verifier is not trusted.")
  | some publicKey =>
    if ¬host.verifyReversal publicKey reversal then
      throw (.earnings "invalid_reversal_signature" "The earning reversal signature is invalid.")
    match t.reversals.find? reversal.reversalId with
    | some existing =>
      if ¬storedReversalMatches existing reversal then
        throw (.earnings "reversal_replay_conflict"
          "A reversal id was reused with different evidence.")
      pure (⟨existing.id, reversal.reversalId, existing.earningId, existing.sellerId,
        existing.amountUsdMicros, existing.state, true⟩, t)
    | none =>
      match t.earnings.find? reversal.earningId with
      | none => throw (.earnings "earning_not_found" "The reversed earning does not exist.")
      | some earning =>
        if earning.sellerId ≠ reversal.sellerId then
          throw (.earnings "earning_owner_conflict"
            "An earning reversal cannot move between sellers.")
        if ∃ r ∈ t.reversals.values, r.earningId = reversal.earningId then
          throw (.earnings "earning_already_reversed" "The earning already has a reversal.")
        let state ← t.reversalState reversal.earningId earning.status
        t.insertReversal moment reversal earning state

end Earnings

section Payouts

variable (host : Host) (moment : Moment) (t : Tables)

structure PayoutMutationResult where
  batchId : String
  batch : PayoutBatch
  earningIds : List String
  duplicate : Bool

def getBatchRequired (batchId : String) : Except Failure PayoutBatch :=
  match t.batches.find? batchId with
  | some batch => .ok batch
  | none => .error (.payout "payout_not_found" "The payout batch does not exist.")

def earningIdsOf (batchId : String) : List String :=
  ((t.items.filter (·.batchId = batchId)).map (·.earningId)).insertionSort (· ≤ ·)

def mutation (batchId : String) (duplicate : Bool) : Except Failure PayoutMutationResult := do
  let batch ← t.getBatchRequired batchId
  pure ⟨batchId, batch, t.earningIdsOf batchId, duplicate⟩

def activeBatchCount (earningId : String) : Nat :=
  (t.items.filter fun i => i.earningId = earningId ∧
    (t.batches.find? i.batchId).any (·.status ≠ .cancelled)).length

def checkRows (sellerId : String) (method : PayoutMethod) :
    List (String × SellerEarning) → Except Failure Unit
  | [] => .ok ()
  | row :: rows => do
    if row.2.sellerId ≠ sellerId then
      throw (.payout "earning_owner_conflict" "A payout cannot include another seller's earning.")
    if row.2.payoutMethod ≠ method then
      throw (.payout "earning_method_conflict"
        "All earnings must match the payout method snapshot.")
    if row.2.status ≠ .available then
      throw (.payout "earning_not_available" "Every earning must still be available.")
    if t.activeBatchCount row.1 ≠ 0 then
      throw (.payout "earning_already_allocated"
        "An earning cannot be allocated while a previous payout batch remains active.")
    checkRows sellerId method rows

structure PrepareInput where
  sellerId : String
  payoutMethod : PayoutMethod
  earningIds : List String
  idempotencyKey : String

def requestedRows (earningIds : List String) : List (String × SellerEarning) :=
  (t.earnings.entries.filter fun e => e.1 ∈ earningIds).insertionSort fun a b => a.1 ≤ b.1

def insertBatch (input : PrepareInput) (earningIds : List String) (destination : Option String)
    (gross offset : Nat) (rows : List (String × SellerEarning)) :
    Except Failure (PayoutMutationResult × Tables) := do
  if t.batches.contains moment.newId ∨ ¬moment.triggersPass then throw .constraint
  let batch : PayoutBatch := {
    sellerId := input.sellerId
    payoutMethod := input.payoutMethod
    idempotencyKey := input.idempotencyKey
    requestDigest := host.requestDigest input.sellerId input.payoutMethod earningIds
    grossUsdMicros := gross
    debtOffsetUsdMicros := offset
    amountUsdMicros := gross - offset
    destinationId := destination
    status := .prepared
    dispatchKey := none
    externalReference := none
    settlementReference := none
    createdAt := moment.now
    updatedAt := moment.now
    submittedAt := none
    paidAt := none
    cancelledAt := none }
  let t : Tables := { t with
    batches := t.batches.insert moment.newId batch
    debts := match t.debts.find? input.sellerId with
      | some debt => if 0 < offset then t.debts.insert input.sellerId (debt - offset) else t.debts
      | none => t.debts
    items := t.items ++ rows.map fun row => ⟨moment.newId, row.1, row.2.amountUsdMicros⟩
    earnings := moveStatus t.earnings (· ∈ earningIds) .available .batched }
  let result ← t.mutation moment.newId false
  pure (result, t)

/-- `PayoutManager.prepare`, with the seller's active destination. -/
def prepare (input : PrepareInput) (destination : Option String) :
    Except Failure (PayoutMutationResult × Tables) := do
  payoutId input.sellerId "seller id"
  payoutId input.idempotencyKey "idempotency key"
  assertMethodEnabled host.policy input.payoutMethod
  let earningIds := input.earningIds.dedup.insertionSort (· ≤ ·)
  if earningIds.length = 0 ∨ earningIds.length ≠ input.earningIds.length then
    throw (.payout "invalid_payout_items" "A payout requires unique earning ids.")
  validateIds "earning id" earningIds
  match t.batches.entries.find? (·.2.idempotencyKey = input.idempotencyKey) with
  | some existing =>
    if existing.2.requestDigest ≠ host.requestDigest input.sellerId input.payoutMethod
        earningIds then
      throw (.payout "payout_idempotency_conflict"
        "The payout key was reused with different items.")
    let result ← t.mutation existing.1 true
    pure (result, t)
  | none =>
    let rows := t.requestedRows earningIds
    if rows.length ≠ earningIds.length then
      throw (.payout "earning_not_found" "At least one payout earning does not exist.")
    t.checkRows input.sellerId input.payoutMethod rows
    if host.policy.requireVerifiedDestination ∧ destination = none then
      throw (.payout "verified_payout_destination_required"
        "A verified, non-expired payout destination is required.")
    let gross := (rows.map (·.2.amountUsdMicros)).sum
    let sellerDebt := (t.debts.find? input.sellerId).getD 0
    let offset := min sellerDebt gross
    let amount := gross - offset
    if maxSafeInteger < gross ∨ maxSafeInteger < amount ∨ amount < host.policy.minimumUsdMicros then
      throw (.payout "payout_below_minimum"
        "The selected earnings do not reach the payout minimum.")
    t.insertBatch host moment input earningIds destination gross offset rows

def markSubmitted (batchId dispatchKey externalReference : String) :
    Except Failure (PayoutMutationResult × Tables) := do
  payoutId batchId "batch id"
  payoutId dispatchKey "dispatch key"
  payoutId externalReference "external reference"
  let batch ← t.getBatchRequired batchId
  if batch.status = .submitted ∨ batch.status = .paid then
    if batch.dispatchKey ≠ some dispatchKey ∨ batch.externalReference ≠ some externalReference then
      throw (.payout "payout_submission_conflict"
        "A submitted batch cannot change external identity.")
    let result ← t.mutation batchId true
    pure (result, t)
  else if batch.status ≠ .prepared then
    throw (.payout "payout_not_submittable" "Only a prepared payout can be submitted.")
  else if (∃ b ∈ t.batches.values, b.dispatchKey = some dispatchKey ∨
      b.externalReference = some externalReference) ∨ ¬moment.triggersPass then
    throw (.payout "payout_external_identity_conflict" "constraint failed")
  else
    let t := { t with batches := t.batches.insert batchId { batch with
      status := .submitted
      dispatchKey := some dispatchKey
      externalReference := some externalReference
      submittedAt := some moment.now
      updatedAt := moment.now } }
    let result ← t.mutation batchId false
    pure (result, t)

def holds (batchId earningId : String) : Bool :=
  t.items.any fun i => i.batchId = batchId ∧ i.earningId = earningId

def pendingReversals (batchId : String) : List (String × EarningReversal) :=
  t.reversals.entries.filter fun r => r.2.state = .pendingPayout ∧ t.holds batchId r.2.earningId

def resolveReversal (now : Nat) (t : Tables) (r : String × EarningReversal) : Tables :=
  { t with
    debts := addDebt t.debts r.2.sellerId r.2.amountUsdMicros
    earnings := moveStatus t.earnings (· = r.2.earningId) .paid .reversed
    reversals := t.reversals.mapValues fun id row =>
      if id = r.1 ∧ row.state = .pendingPayout then
        { row with state := .sellerDebt, resolvedAt := some now } else row }

def markPaid (batchId settlementReference : String) (paidAt : Nat) :
    Except Failure (PayoutMutationResult × Tables) := do
  payoutId batchId "batch id"
  payoutId settlementReference "settlement reference"
  if maxSafeInteger < paidAt ∨ paidAt = 0 then
    throw (.payout "invalid_paid_at" "The payout settlement timestamp is invalid.")
  let batch ← t.getBatchRequired batchId
  if batch.status = .paid then
    if batch.settlementReference ≠ some settlementReference ∨ batch.paidAt ≠ some paidAt then
      throw (.payout "payout_settlement_conflict" "A paid batch cannot change settlement evidence.")
    let result ← t.mutation batchId true
    pure (result, t)
  else if batch.status ≠ .submitted then
    throw (.payout "payout_not_submitted" "A payout must be submitted before it can be paid.")
  else if ¬moment.triggersPass then throw .constraint
  else
    let t : Tables := { t with
      batches := t.batches.insert batchId { batch with
        status := .paid
        settlementReference := some settlementReference
        paidAt := some paidAt
        updatedAt := moment.now }
      earnings := t.earnings.mapValues fun id e => if t.holds batchId id then
        { e with status := .paid } else e }
    let t := (t.pendingReversals batchId).foldl (resolveReversal moment.now) t
    let result ← t.mutation batchId false
    pure (result, t)

def cancelPrepared (batchId : String) (dispatch : Option Dispatch) :
    Except Failure (PayoutMutationResult × Tables) := do
  payoutId batchId "batch id"
  let batch ← t.getBatchRequired batchId
  if batch.status = .cancelled then
    let result ← t.mutation batchId true
    pure (result, t)
  else if batch.status ≠ .prepared then
    throw (.payout "payout_cancellation_unsafe"
      "A submitted or paid payout cannot be released automatically.")
  else if dispatch.any fun d => ¬(d.rejected ∧ d.externalReference = none ∧
      d.settlementReference = none) then
    throw (.payout "payout_cancellation_unsafe"
      "A payout with a durable dispatch operation must be reconciled before funds can be released.")
  else if ¬moment.triggersPass then throw .constraint
  else
    let t : Tables := { t with
      batches := t.batches.insert batchId { batch with
        status := .cancelled
        cancelledAt := some moment.now
        updatedAt := moment.now }
      earnings := moveStatus t.earnings (t.holds batchId) .batched .available
      debts := if 0 < batch.debtOffsetUsdMicros then
        addDebt t.debts batch.sellerId batch.debtOffsetUsdMicros
        else t.debts }
    let result ← t.mutation batchId false
    pure (result, t)

end Payouts

inductive Call
  | setPayoutPreference (sellerId : String) (method : PayoutMethod)
  | recordAcceptedReceipt (receipt : SignedWorkReceipt)
  | recordEarningReversal (reversal : SignedEarningReversal)
  | prepare (input : PrepareInput) (destination : Option String)
  | markSubmitted (batchId dispatchKey externalReference : String)
  | markPaid (batchId settlementReference : String) (paidAt : Nat)
  | cancelPrepared (batchId : String) (dispatch : Option Dispatch)

def call (host : Host) (c : Call × Moment) (t : Tables) : Except Failure (Unit × Tables) :=
  match c.1 with
  | .setPayoutPreference sellerId method => t.setPayoutPreference sellerId method
  | .recordAcceptedReceipt receipt =>
    (t.recordAcceptedReceipt host c.2 receipt).map fun r => ((), r.2)
  | .recordEarningReversal reversal =>
    (t.recordEarningReversal host c.2 reversal).map fun r => ((), r.2)
  | .prepare input destination => (t.prepare host c.2 input destination).map fun r => ((), r.2)
  | .markSubmitted batchId dispatchKey externalReference =>
    (t.markSubmitted c.2 batchId dispatchKey externalReference).map fun r => ((), r.2)
  | .markPaid batchId settlementReference paidAt =>
    (t.markPaid c.2 batchId settlementReference paidAt).map fun r => ((), r.2)
  | .cancelPrepared batchId dispatch =>
    (t.cancelPrepared c.2 batchId dispatch).map fun r => ((), r.2)

def run (host : Host) (t : Tables) (calls : List (Call × Moment)) : Tables :=
  final (fun t c => commit (call host c) t) t calls

end Tables

end Mycellios.Payouts
