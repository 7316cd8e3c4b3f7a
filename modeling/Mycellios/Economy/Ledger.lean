import Mycellios.Data.Dict
import Mycellios.Data.JavaScript
import Mycellios.Data.Rows
import Mycellios.Data.Shares
import Mycellios.Logic.Transaction
import Mycellios.Logic.Wp

/-! `economic-ledger.ts`. A table is a list of rows in the order of their insertion; an insertion
that breaks a key or a unique constraint raises. Token counts, prices and weights are natural
numbers. -/

namespace Mycellios.Economy

open Data Logic

inductive LedgerError
  | schema
  | thrown (message : String)
  | constraint

/-- `identifierSchema`: at most 256 characters. -/
def isIdentifier : String → Bool := isMarkedId ['.', '_', ':', '/', '-'] 255

inductive RouteClass
  | localComplete | remoteReplica | distributedPipeline
  deriving DecidableEq

structure PricingPolicyInput where
  modelId : String
  routeClass : RouteClass
  (version inputMicrounitsPerToken outputMicrounitsPerToken platformFeeBps effectiveAt : Nat)
  retiredAt : Option Nat

def PricingPolicyInput.Valid (p : PricingPolicyInput) : Prop :=
  (isIdentifier p.modelId ∨ p.modelId = "*") ∧ 0 < p.version ∧ p.version ≤ maxSafeInteger ∧
    p.inputMicrounitsPerToken ≤ maxSafeInteger ∧ p.outputMicrounitsPerToken ≤ maxSafeInteger ∧
    p.platformFeeBps ≤ 10000 ∧ p.effectiveAt ≤ maxSafeInteger ∧
    ∀ at' ∈ p.retiredAt, at' ≤ maxSafeInteger ∧ p.effectiveAt < at'

instance (p : PricingPolicyInput) : Decidable p.Valid := by
  unfold PricingPolicyInput.Valid
  infer_instance

structure PricingPolicy extends PricingPolicyInput where
  id : String
  valid : toPricingPolicyInput.Valid

inductive RecoveryMode
  | none | promptReplay | deterministicPrefixReplay

structure ExecutionRecovery where
  mode : RecoveryMode
  attempts : Nat
  replayedTokenEvents : Nat

structure Contributor where
  nodeId : String
  weight : Nat

structure EconomicSettlementInput where
  (jobId executionReceiptId contributionEvidenceId pricingPolicyId : String)
  executionRecovery : ExecutionRecovery
  payerAccountId : String
  inputTokens : Nat
  outputTokens : Nat
  contributors : List Contributor
  createdAt : Nat

def EconomicSettlementInput.Valid (i : EconomicSettlementInput) : Prop :=
  isIdentifier i.jobId ∧ isSha256 i.executionReceiptId ∧ isSha256 i.contributionEvidenceId ∧
    isSha256 i.pricingPolicyId ∧ 0 < i.executionRecovery.attempts ∧
    i.executionRecovery.attempts ≤ maxSafeInteger ∧ i.executionRecovery.replayedTokenEvents ≤
    maxSafeInteger ∧ isIdentifier i.payerAccountId ∧ i.inputTokens ≤ maxSafeInteger ∧
    i.outputTokens ≤ maxSafeInteger ∧ i.contributors ≠ [] ∧ i.contributors.length ≤ 1024 ∧
    (∀ c ∈ i.contributors, isIdentifier c.nodeId ∧ 0 < c.weight ∧ c.weight ≤ maxSafeInteger) ∧
    i.createdAt ≤ maxSafeInteger ∧ (i.contributors.map (·.nodeId)).Nodup

instance (i : EconomicSettlementInput) : Decidable i.Valid := by
  unfold EconomicSettlementInput.Valid
  infer_instance

structure Credit where
  nodeId : String
  amountMicrounits : Nat
  deriving DecidableEq

structure Participant where
  nodeId : String
  stageCount : Nat

structure Evidence where
  (id jobId executionReceiptId : String)
  participants : List Participant
  physicalBoundaryCount : Nat

inductive OwnerKind
  | account | node | platform
  deriving DecidableEq

inductive Category
  | usage | work | platformFee
  deriving DecidableEq

structure SettlementRow where
  (id jobId executionReceiptId contributionEvidenceId pricingPolicyId payerAccountId : String)
  (inputTokens outputTokens grossMicrounits providerMicrounits platformMicrounits : Nat)
  requestDigest : String
  createdAt : Nat

structure AccountRow where
  id : String
  ownerKind : OwnerKind
  ownerId : String
  createdAt : Nat

structure EntryRow where
  (id settlementId accountId : String)
  category : Category
  amountMicrounits : Int
  createdAt : Nat

structure ReputationRow where
  (verifiedJobs verifiedStageCount verifiedPhysicalBoundaries earnedMicrounits : Nat)
  lastEvidenceId : String
  updatedAt : Nat

structure HashedCredit where
  nodeIdHash : String
  amountMicrounits : Nat

/-- `signedBodySchema`, with the key the document is signed with. -/
structure EconomicSettlementReceipt where
  (settlementId jobId executionReceiptId contributionEvidenceId pricingPolicyId : String)
  executionRecovery : ExecutionRecovery
  payerAccountHash : String
  (grossMicrounits providerMicrounits platformMicrounits : Nat)
  contributorCredits : List HashedCredit
  createdAt : Nat
  keyId : String

structure EconomicSettlement where
  (id jobId executionReceiptId contributionEvidenceId pricingPolicyId payerAccountId : String)
  (grossMicrounits providerMicrounits platformMicrounits : Nat)
  contributorCredits : List Credit
  receipt : EconomicSettlementReceipt
  createdAt : Nat

structure EconomicLedger where
  pricingPolicies : List PricingPolicy
  evidence : List Evidence
  settlements : List SettlementRow
  accounts : List AccountRow
  entries : List EntryRow
  reputation : Dict String ReputationRow
  receipts : List EconomicSettlementReceipt

def EconomicLedger.empty : EconomicLedger := ⟨[], [], [], [], [], Dict.empty, []⟩

/-- `localeCompare`, of which only the order matters; different texts may be equal in it. -/
structure Collation where
  le : String → String → Bool
  total : ∀ a b, le a b ∨ le b a
  trans : ∀ a b c, le a b → le b c → le a c

/-- `sha256CanonicalEvidence`, of which only that accounts of two owners differ is assumed. -/
structure Digests where
  pricingPolicy : PricingPolicyInput → String
  settlementRequest : EconomicSettlementInput → String
  settlement : String → Nat → Nat → Nat → List Credit → String
  account : OwnerKind → String → String
  account_injective : ∀ {kind kind' id id'}, account kind id = account kind' id' → kind = kind' ∧
    id = id'
  entry : String → String → Category → Int → String
  owner : OwnerKind → String → String
  receipt : EconomicSettlementReceipt → String

/-- What the ledger is given: the collation, the digests, and the key that signs receipts. -/
structure Host where
  collation : Collation
  digests : Digests
  keyId : String
  keyIsEd25519 : Bool

def safeBigIntToNumber (value : Nat) (error : String) : Except LedgerError Nat :=
  if maxSafeInteger < value then .error (.thrown error) else .ok value

def byNode (collation : Collation) (a b : Contributor) : Prop := collation.le a.nodeId b.nodeId

instance (collation : Collation) : DecidableRel (byNode collation) :=
  fun a b => inferInstanceAs (Decidable (collation.le a.nodeId b.nodeId = true))

def Credit.addOne (c : Credit) : Credit := { c with amountMicrounits := c.amountMicrounits + 1 }

def distribute (collation : Collation) (total : Nat) (contributors : List Contributor) :
    Except LedgerError (List Credit) := do
  let ordered := contributors.insertionSort (byNode collation)
  let totalWeight := (ordered.map (·.weight)).sum
  let credits ← ordered.mapM fun c => do
    let amount ← safeBigIntToNumber (total * c.weight / totalWeight)
      "economic_settlement_amount_is_unsafe"
    pure (⟨c.nodeId, amount⟩ : Credit)
  let remainder : Int := total - ((credits.map (·.amountMicrounits)).sum : Nat)
  pure (handOut Credit.addOne remainder credits)

namespace EconomicLedger

section Reads

variable (l : EconomicLedger)

def readPricingPolicy (id : String) : Except LedgerError PricingPolicy :=
  match l.pricingPolicies.find? (·.id = id) with
  | some policy => .ok policy
  | none => .error (.thrown "economic_pricing_policy_not_found")

def readEvidence (id : String) : Except LedgerError Evidence :=
  match l.evidence.find? (·.id = id) with
  | some evidence => .ok evidence
  | none => .error (.thrown "economic_contribution_evidence_not_found")

def balance (ownerKind : OwnerKind) (ownerId : String) : Int :=
  ((l.accounts.filter fun a => a.ownerKind = ownerKind ∧ a.ownerId = ownerId).map fun a =>
    sumAt (·.accountId) (·.amountMicrounits) a.id l.entries).sum

def earnedMicrounits (nodeId : String) : Nat :=
  ((l.reputation.find? nodeId).map (·.earnedMicrounits)).getD 0

def workCredits (id : String) : List Credit :=
  ((l.entries.filter fun e => e.settlementId = id ∧ e.category = .work).flatMap fun e =>
    (l.accounts.filter (·.id = e.accountId)).map fun a =>
      (⟨a.ownerId, e.amountMicrounits.toNat⟩ : Credit)).insertionSort fun a b => a.nodeId ≤ b.nodeId

def readSettlement (id : String) : Except LedgerError EconomicSettlement :=
  match l.settlements.find? (·.id = id) with
  | none => .error (.thrown "economic_settlement_not_found")
  | some row =>
    match l.receipts.find? (·.settlementId = id) with
    | none => .error (.thrown "economic_settlement_receipt_not_found")
    | some receipt => .ok {
        id := row.id
        jobId := row.jobId
        executionReceiptId := row.executionReceiptId
        contributionEvidenceId := row.contributionEvidenceId
        pricingPolicyId := row.pricingPolicyId
        payerAccountId := row.payerAccountId
        grossMicrounits := row.grossMicrounits
        providerMicrounits := row.providerMicrounits
        platformMicrounits := row.platformMicrounits
        contributorCredits := l.workCredits id
        receipt := receipt
        createdAt := row.createdAt }

end Reads

section Writes

variable (host : Host) (l : EconomicLedger)

def registerPricingPolicy (input : PricingPolicyInput) :
    Except LedgerError (PricingPolicy × EconomicLedger) :=
  if valid : input.Valid then
    let policy : PricingPolicy :=
      { input with id := host.digests.pricingPolicy input, valid := valid }
    if l.pricingPolicies.any (·.id = policy.id) then .ok (policy, l)
    else if l.pricingPolicies.any fun p =>
        p.modelId = input.modelId ∧ p.routeClass = input.routeClass ∧ p.version = input.version then
      .error (.thrown "economic_pricing_version_conflict")
    else .ok (policy, { l with pricingPolicies := l.pricingPolicies ++ [policy] })
  else .error .schema

def certify (evidence : Evidence) : Except LedgerError (Evidence × EconomicLedger) :=
  match l.evidence.find? fun e =>
      e.jobId = evidence.jobId ∨ e.executionReceiptId = evidence.executionReceiptId with
  | some replay =>
    if replay.id ≠ evidence.id then
      .error (.thrown "economic_contribution_evidence_replay_conflict")
    else .ok (replay, l)
  | none =>
    if l.evidence.any (·.id = evidence.id) then .error .constraint
    else .ok (evidence, { l with evidence := l.evidence ++ [evidence] })

def insertSettlement (row : SettlementRow) : Except LedgerError EconomicLedger :=
  if l.settlements.any fun s => s.id = row.id ∨ s.jobId = row.jobId ∨
      s.executionReceiptId = row.executionReceiptId ∨
      s.contributionEvidenceId = row.contributionEvidenceId then .error .constraint
  else .ok { l with settlements := l.settlements ++ [row] }

def ensureAccount (ownerKind : OwnerKind) (ownerId : String) (createdAt : Nat) : EconomicLedger :=
  let id := host.digests.account ownerKind ownerId
  if l.accounts.any fun a => a.id = id ∨ a.ownerKind = ownerKind ∧ a.ownerId = ownerId then l
  else { l with accounts := l.accounts ++ [⟨id, ownerKind, ownerId, createdAt⟩] }

def entryRow (settlementId accountId : String) (category : Category) (amount : Int)
    (createdAt : Nat) : EntryRow where
  id := host.digests.entry settlementId accountId category amount
  settlementId := settlementId
  accountId := accountId
  category := category
  amountMicrounits := amount
  createdAt := createdAt

def insertEntry (settlementId accountId : String) (category : Category) (amount : Int)
    (createdAt : Nat) : Except LedgerError EconomicLedger :=
  let row := entryRow host settlementId accountId category amount createdAt
  if amount = 0 ∨ l.entries.any fun e => e.id = row.id ∨
      e.settlementId = settlementId ∧ e.accountId = accountId ∧ e.category = category then
      .error .constraint
  else .ok { l with entries := l.entries ++ [row] }

def insertWork (settlementId : String) (createdAt : Nat) : List Credit → EconomicLedger →
    Except LedgerError EconomicLedger
  | [], l => .ok l
  | credit :: credits, l =>
    if credit.amountMicrounits = 0 then insertWork settlementId createdAt credits l
    else do
      let l := l.ensureAccount host .node credit.nodeId createdAt
      let l ← l.insertEntry host settlementId (host.digests.account .node credit.nodeId) .work
        credit.amountMicrounits createdAt
      insertWork settlementId createdAt credits l

def insertFee (settlementId : String) (platform createdAt : Nat) :
    Except LedgerError EconomicLedger :=
  if 0 < platform then
    l.insertEntry host settlementId (host.digests.account .platform "mycellios") .platformFee
      platform createdAt
  else .ok l

def creditOf (credits : List Credit) (nodeId : String) : Nat :=
  ((credits.find? (·.nodeId = nodeId)).map (·.amountMicrounits)).getD 0

/-- `INSERT … ON CONFLICT(node_id) DO UPDATE`. -/
def addReputation (evidence : Evidence) (credits : List Credit) (createdAt : Nat)
    (reputation : Dict String ReputationRow) (p : Participant) : Dict String ReputationRow :=
  let earned := creditOf credits p.nodeId
  reputation.insert p.nodeId
    (match reputation.find? p.nodeId with
    | none => ⟨1, p.stageCount, evidence.physicalBoundaryCount, earned, evidence.id, createdAt⟩
    | some row => {
        verifiedJobs := row.verifiedJobs + 1
        verifiedStageCount := row.verifiedStageCount + p.stageCount
        verifiedPhysicalBoundaries := row.verifiedPhysicalBoundaries +
          evidence.physicalBoundaryCount
        earnedMicrounits := row.earnedMicrounits + earned
        lastEvidenceId := evidence.id
        updatedAt := createdAt })

/-- `signEconomicSettlementReceipt`: the checks of the body and of the key. -/
def signReceipt (receipt : EconomicSettlementReceipt) :
    Except LedgerError EconomicSettlementReceipt :=
  let hashes := receipt.contributorCredits.map (·.nodeIdHash)
  if receipt.providerMicrounits + receipt.platformMicrounits ≠ receipt.grossMicrounits ∨
      (receipt.contributorCredits.map (·.amountMicrounits)).sum ≠ receipt.providerMicrounits ∨
      ¬hashes.Nodup ∨ ¬hashes.Pairwise (· ≤ ·) then .error .schema
  else if ¬host.keyIsEd25519 then .error (.thrown "economic_receipt_private_key_is_not_ed25519")
  else .ok receipt

def insertReceipt (receipt : EconomicSettlementReceipt) : Except LedgerError EconomicLedger :=
  if l.receipts.any fun r => r.settlementId = receipt.settlementId ∨
      host.digests.receipt r = host.digests.receipt receipt then .error .constraint
  else .ok { l with receipts := l.receipts ++ [receipt] }

end Writes

section Settle

variable (host : Host) (l : EconomicLedger) (input : EconomicSettlementInput)

structure Priced where
  policy : PricingPolicy
  evidence : Evidence
  gross : Nat
  provider : Nat
  credits : List Credit

def price : Except LedgerError Priced := do
  let policy ← l.readPricingPolicy input.pricingPolicyId
  let evidence ← l.readEvidence input.contributionEvidenceId
  if evidence.jobId ≠ input.jobId ∨ evidence.executionReceiptId ≠ input.executionReceiptId then
    throw (.thrown "economic_contribution_evidence_binding_is_invalid")
  let verifiedNodes := (evidence.participants.map (·.nodeId)).insertionSort (· ≤ ·)
  let creditedNodes := (input.contributors.map (·.nodeId)).insertionSort (· ≤ ·)
  if verifiedNodes ≠ creditedNodes then
    throw (.thrown "economic_contributors_do_not_match_physical_evidence")
  if input.createdAt < policy.effectiveAt ∨ ∃ at' ∈ policy.retiredAt, at' ≤ input.createdAt then
    throw (.thrown "economic_pricing_policy_is_not_effective")
  let gross ← safeBigIntToNumber
    (input.inputTokens * policy.inputMicrounitsPerToken + input.outputTokens *
      policy.outputMicrounitsPerToken)
    "economic_settlement_amount_is_unsafe"
  if gross = 0 then throw (.thrown "economic_settlement_amount_is_zero")
  let provider ← safeBigIntToNumber (gross * (10000 - policy.platformFeeBps) / 10000)
    "economic_settlement_amount_is_unsafe"
  let credits ← distribute host.collation provider input.contributors
  pure ⟨policy, evidence, gross, provider, credits⟩

def Priced.platform (p : Priced) : Nat := p.gross - p.provider

def Priced.settlementId (p : Priced) : String :=
  host.digests.settlement (host.digests.settlementRequest input) p.gross p.provider p.platform
    p.credits

def Priced.row (p : Priced) : SettlementRow where
  id := p.settlementId host input
  jobId := input.jobId
  executionReceiptId := input.executionReceiptId
  contributionEvidenceId := input.contributionEvidenceId
  pricingPolicyId := p.policy.id
  payerAccountId := input.payerAccountId
  inputTokens := input.inputTokens
  outputTokens := input.outputTokens
  grossMicrounits := p.gross
  providerMicrounits := p.provider
  platformMicrounits := p.platform
  requestDigest := host.digests.settlementRequest input
  createdAt := input.createdAt

def Priced.receipt (p : Priced) : EconomicSettlementReceipt where
  settlementId := p.settlementId host input
  jobId := input.jobId
  executionReceiptId := input.executionReceiptId
  contributionEvidenceId := p.evidence.id
  pricingPolicyId := p.policy.id
  executionRecovery := input.executionRecovery
  payerAccountHash := host.digests.owner .account input.payerAccountId
  grossMicrounits := p.gross
  providerMicrounits := p.provider
  platformMicrounits := p.platform
  contributorCredits :=
    (p.credits.map fun c => (⟨host.digests.owner .node c.nodeId,
      c.amountMicrounits⟩ : HashedCredit)).insertionSort fun a b => host.collation.le a.nodeIdHash
      b.nodeIdHash
  createdAt := input.createdAt
  keyId := host.keyId

def record (p : Priced) : Except LedgerError (EconomicSettlement × EconomicLedger) := do
  let id := p.settlementId host input
  let l ← l.insertSettlement (p.row host input)
  let l := l.ensureAccount host .account input.payerAccountId input.createdAt
  let l := l.ensureAccount host .platform "mycellios" input.createdAt
  let l ← l.insertEntry host id (host.digests.account .account input.payerAccountId) .usage
    (-(p.gross : Int)) input.createdAt
  let l ← insertWork host id input.createdAt p.credits l
  let l ← l.insertFee host id p.platform input.createdAt
  if sumAt (·.settlementId) (·.amountMicrounits) id l.entries ≠ 0 then
    throw (.thrown "economic_ledger_is_unbalanced")
  let l := { l with
    reputation := p.evidence.participants.foldl (addReputation p.evidence p.credits input.createdAt)
      l.reputation }
  let receipt ← signReceipt host (p.receipt host input)
  let l ← l.insertReceipt host receipt
  let settlement ← l.readSettlement id
  pure (settlement, l)

def settle : Except LedgerError (EconomicSettlement × EconomicLedger) := do
  if ¬input.Valid then throw .schema
  match l.settlements.find? (·.jobId = input.jobId) with
  | some replay =>
    if replay.requestDigest ≠ host.digests.settlementRequest input then
      throw (.thrown "economic_settlement_job_conflict")
    let settlement ← l.readSettlement replay.id
    pure (settlement, l)
  | none =>
    if l.settlements.any (·.executionReceiptId = input.executionReceiptId) then
      throw (.thrown "economic_settlement_receipt_replay")
    let priced ← l.price host input
    l.record host input priced

end Settle

inductive Call
  | registerPricingPolicy (input : PricingPolicyInput)
  | certify (evidence : Evidence)
  | settle (input : EconomicSettlementInput)

inductive Answer
  | policy (p : PricingPolicy)
  | evidence (e : Evidence)
  | settlement (s : EconomicSettlement)

def call (host : Host) (c : Call) (l : EconomicLedger) :
    Except LedgerError (Answer × EconomicLedger) :=
  match c with
  | .registerPricingPolicy input =>
    (l.registerPricingPolicy host input).map fun r => (.policy r.1, r.2)
  | .certify evidence => (l.certify evidence).map fun r => (.evidence r.1, r.2)
  | .settle input => (l.settle host input).map fun r => (.settlement r.1, r.2)

def run (host : Host) (l : EconomicLedger) (calls : List Call) : EconomicLedger :=
  final (fun l c => commit (call host c) l) l calls

end EconomicLedger

end Mycellios.Economy
