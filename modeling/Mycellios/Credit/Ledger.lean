import Mycellios.Data.Dict
import Mycellios.Data.Python
import Mycellios.Logic.Wp
import Mycellios.Logic.Machine

/-! `tree_capacity_credit.py`. A raise keeps what was already written. Times are the finite doubles,
read as rationals. -/

namespace Mycellios.Credit

open Data Logic

def uint32Max : Nat := 2 ^ 32 - 1

def uint64Max : Nat := 2 ^ 64 - 1

def topologyDigestBytes : Nat := 32

def maxIdUtf8Bytes : Nat := 256

/-- The exceptions of the module, with the built-in `KeyError` and
`OverflowError`. -/
inductive CreditError
  | validation (message : String)
  | unavailable (message : String)
  | replay (message : String)
  | binding (message : String)
  | fatal (reason : String)
  | key | overflow
  deriving DecidableEq

/-- Binary floating point: the rounded sum, `none` on overflow, and the text of a number. -/
structure FloatOps where
  add : ℚ → ℚ → Option ℚ
  text : ℚ → String

def isTrimmed (cs : List Char) : Bool := !cs.head?.any isSpace && !cs.getLast?.any isSpace

def isSpelled (value : String) : Bool :=
  !value.isEmpty && isTrimmed value.toList && !value.toList.contains (Char.ofNat 0)

def TextOk (value : String) : Prop := isSpelled value = true ∧ value.utf8ByteSize ≤ maxIdUtf8Bytes

instance (value : String) : Decidable (TextOk value) := inferInstanceAs (Decidable (_ ∧ _))

def boundedText (name value : String) : Except CreditError { v : String // TextOk v } :=
  if spelled : isSpelled value = true then
    if short : value.utf8ByteSize ≤ maxIdUtf8Bytes then .ok ⟨value, spelled, short⟩
    else .error (.validation s!"{name} exceeds {maxIdUtf8Bytes} UTF-8 bytes")
  else .error (.validation s!"{name} must be non-empty, trimmed and contain no NUL")

def boundedInteger (name : String) (value : Int) (minimum maximum : Nat) :
    Except CreditError { n : Nat // minimum ≤ n ∧ n ≤ maximum } :=
  if range : minimum ≤ value ∧ value ≤ maximum then .ok ⟨value.toNat, by omega⟩
  else .error (.validation s!"{name} must be in [{minimum}, {maximum}]")

def timeValue (name : String) : Number → Except CreditError ℚ
  | .finite value =>
    if value < 0 then .error (.validation s!"{name} must be finite and non-negative")
    else .ok value
  | .notFinite => .error (.validation s!"{name} must be finite and non-negative")
  | .tooLarge => .error .overflow

/-- `TreeCapacityCreditBinding`: the exact one-wave scope of a credit. -/
structure Binding where
  (modelId routeId stageId : String)
  parentRequestId : Nat
  step : Nat
  topologyDigest : List UInt8
  blockCount : Nat
  laneCount : Nat
  texts : TextOk modelId ∧ TextOk routeId ∧ TextOk stageId
  parent_range : 1 ≤ parentRequestId ∧ parentRequestId ≤ uint64Max
  step_range : step ≤ uint32Max
  digest_length : topologyDigest.length = topologyDigestBytes
  block_range : 1 ≤ blockCount ∧ blockCount ≤ uint32Max
  lane_range : 1 ≤ laneCount ∧ laneCount ≤ uint32Max
  deriving DecidableEq

/-- `TreeCapacityCreditKey`: the replay identity of a credit. -/
structure Key where
  epoch : Nat
  leaseId : String
  nonce : Nat
  epoch_range : 1 ≤ epoch ∧ epoch ≤ uint64Max
  lease_text : TextOk leaseId
  nonce_range : 1 ≤ nonce ∧ nonce ≤ uint64Max
  deriving DecidableEq

def Key.before (a b : Key) : Bool :=
  a.epoch < b.epoch || (a.epoch == b.epoch &&
    (a.leaseId < b.leaseId || (a.leaseId == b.leaseId && a.nonce < b.nonce)))

structure KVUsage where
  key : Key
  blockCount : Nat
  block_range : 1 ≤ blockCount ∧ blockCount ≤ uint32Max
  deriving DecidableEq

/-- `PhysicalKVObservation`: atomic counters of the physical allocator. -/
structure Observation where
  (epoch revision totalBlocks freeBlocks : Nat)
  creditUsages : List KVUsage
  epoch_range : 1 ≤ epoch ∧ epoch ≤ uint64Max
  revision_range : revision ≤ uint64Max
  total_range : 1 ≤ totalBlocks ∧ totalBlocks ≤ uint32Max
  free_range : freeBlocks ≤ totalBlocks
  usages_epoch : ∀ u ∈ creditUsages, u.key.epoch = epoch
  usages_sorted : creditUsages.IsChain fun a b => a.key.before b.key = true
  usages_total : (creditUsages.map KVUsage.blockCount).sum ≤ totalBlocks
  deriving DecidableEq

def Observation.creditBlocksInUse (o : Observation) : Nat :=
  (o.creditUsages.map KVUsage.blockCount).sum

inductive CreditState
  | issued | consumed | mutating | released | expired | completed
  deriving DecidableEq

def CreditState.value : CreditState → String
  | .issued => "issued"
  | .consumed => "consumed"
  | .mutating => "mutating"
  | .released => "released"
  | .expired => "expired"
  | .completed => "completed"

structure CapacityCredit where
  key : Key
  binding : Binding
  issuedAt : ℚ
  expiresAt : ℚ
  deriving DecidableEq

structure CreditRecord where
  credit : CapacityCredit
  state : CreditState := .issued
  consumedAt : Option ℚ := none
  mutationStartedAt : Option ℚ := none
  closedAt : Option ℚ := none
  deriving DecidableEq

/-- The values sealed by the constructor of `TreeCapacityCreditLedger`. -/
structure LedgerConfig where
  (epoch totalBlocks headroomBlocks maxLanesPerCredit : Nat)
  maxTtlSeconds : ℚ
  maxCreditsPerEpoch : Nat
  epoch_range : 1 ≤ epoch ∧ epoch ≤ uint64Max
  total_range : 1 ≤ totalBlocks ∧ totalBlocks ≤ uint32Max
  headroom_range : 1 ≤ headroomBlocks ∧ headroomBlocks ≤ totalBlocks
  lanes_range : 1 ≤ maxLanesPerCredit ∧ maxLanesPerCredit ≤ uint32Max
  ttl_pos : 0 < maxTtlSeconds
  credits_range : 1 ≤ maxCreditsPerEpoch ∧ maxCreditsPerEpoch ≤ uint32Max

/-- `TreeCapacityCreditLedger`; the heap is listed in the order of `heappop`. -/
structure Ledger where
  config : LedgerConfig
  records : Dict Key CreditRecord
  nonceKeys : Dict Nat Key
  expiryHeap : List (ℚ × Key)
  reservedBlockCount : Int
  mutatingBlockLimit : Int
  lastObservation : Option Observation
  fatalReason : Option String

def Ledger.init (config : LedgerConfig) : Ledger where
  config := config
  records := .empty
  nonceKeys := .empty
  expiryHeap := []
  reservedBlockCount := 0
  mutatingBlockLimit := 0
  lastObservation := none
  fatalReason := none

def LedgerConfig.ordinaryCapacityBlocks (c : LedgerConfig) : Int := c.totalBlocks - c.headroomBlocks

abbrev LedgerM := EStateM CreditError Ledger

def heapBefore (a b : ℚ × Key) : Bool := a.1 < b.1 || (a.1 == b.1 && a.2.before b.2)

def heapPush (e : ℚ × Key) : List (ℚ × Key) → List (ℚ × Key)
  | [] => [e]
  | d :: ds => if heapBefore e d then e :: d :: ds else d :: heapPush e ds

def putRecord (key : Key) (record : CreditRecord) : LedgerM Unit :=
  modify fun s => { s with records := s.records.insert key record }

def ensureHealthy : LedgerM Unit := do
  match (← get).fatalReason with
  | some reason => throw (.fatal reason)
  | none => pure ()

def fatal (reason : String) : LedgerM α := do
  let s ← get
  match s.fatalReason with
  | none =>
    set { s with fatalReason := some reason }
    throw (.fatal reason)
  | some first => throw (.fatal first)

def fatalIf (c : Prop) [Decidable c] (reason : String) : LedgerM Unit :=
  if c then fatal reason else pure ()

def recordAt (key : Key) : LedgerM CreditRecord := do
  match (← get).records.find? key with
  | some record => pure record
  | none => throw .key

/-- One popped heap entry: a live credit closes, a mutating one is fatal. -/
def expireEntry (key : Key) : LedgerM Unit := do
  let record ← recordAt key
  match record.state with
  | .issued | .consumed =>
    putRecord key { record with state := .expired, closedAt := some record.credit.expiresAt }
    modify fun s => { s with
      reservedBlockCount := s.reservedBlockCount - record.credit.binding.blockCount }
  | .mutating => fatal "credit TTL expired after mutation began"
  | .released | .expired | .completed => pure ()

def expireFrom (now : ℚ) : List (ℚ × Key) → LedgerM Unit
  | [] => pure ()
  | (expiresAt, key) :: rest =>
    if expiresAt ≤ now then do
      modify fun s => { s with expiryHeap := rest }
      expireEntry key
      expireFrom now rest
    else pure ()

def expire (now : ℚ) : LedgerM Unit := do
  expireFrom now (← get).expiryHeap

def checkUsages (excluded : Option Key) : List KVUsage → LedgerM Unit
  | [] => pure ()
  | usage :: usages => do
    match (← get).records.find? usage.key with
    | none => fatal "physical KV usage is not owned by a live mutating credit"
    | some record =>
      fatalIf (some usage.key = excluded ∨ record.state ≠ .mutating)
        "physical KV usage is not owned by a live mutating credit"
      fatalIf (usage.blockCount > record.credit.binding.blockCount)
        "physical KV usage exceeds its credit block limit"
      checkUsages excluded usages

def checkRevision (observation : Observation) : Option Observation → LedgerM Unit
  | none => pure ()
  | some previous => do
    fatalIf (observation.revision < previous.revision)
      "physical KV observation revision moved backwards"
    fatalIf (observation.revision = previous.revision ∧ observation ≠ previous)
      "physical KV counters changed without a new revision"

def Observation.physicallyUsed (o : Observation) : Int := o.totalBlocks - o.freeBlocks

def Observation.ordinaryUsed (o : Observation) : Int := o.physicallyUsed - o.creditBlocksInUse

def observe (observation : Observation) (mutatingLimitOverride : Option Int := none)
    (excludedMutatingKey : Option Key := none) : LedgerM Unit := do
  let s ← get
  fatalIf (observation.epoch ≠ s.config.epoch) "physical KV epoch drift"
  fatalIf (observation.totalBlocks ≠ s.config.totalBlocks) "physical KV total-block drift"
  checkRevision observation s.lastObservation
  checkUsages excludedMutatingKey observation.creditUsages
  fatalIf ((observation.creditBlocksInUse : Int) > mutatingLimitOverride.getD s.mutatingBlockLimit)
    "credit KV usage exceeds all mutating credit limits"
  fatalIf (observation.creditBlocksInUse > s.config.headroomBlocks)
    "credit KV usage exceeds protected headroom"
  fatalIf ((observation.creditBlocksInUse : Int) > observation.physicallyUsed)
    "credit KV usage exceeds total physical occupancy"
  fatalIf (observation.ordinaryUsed > s.config.ordinaryCapacityBlocks)
    "ordinary KV occupancy crossed the protected headroom floor"
  modify fun s => { s with lastObservation := some observation }

def advanceTo (now : ℚ) (observation : Observation) : LedgerM Unit := do
  ensureHealthy
  expire now
  observe observation

/-- `_record`; poisons the ledger when the nonce belongs to a credit whose mutation began. -/
def findRecord (key : Key) : LedgerM CreditRecord := do
  let s ← get
  raiseIf (key.epoch ≠ s.config.epoch) (.replay "credit belongs to another epoch")
  match s.records.find? key with
  | some record => pure record
  | none =>
    match s.nonceKeys.find? key.nonce with
    | none => throw (.replay "unknown or spent credit identity")
    | some previousKey =>
      let previous ← recordAt previousKey
      fatalIf (previous.state = .mutating ∨ previous.state = .completed)
        "credit identity replay after mutation began"
      throw (.replay "unknown or spent credit identity")

def requireBinding (record : CreditRecord) (binding : Binding) (operation : String) :
    LedgerM Unit := do
  if binding = record.credit.binding then
    pure ()
  else if record.state = .mutating ∨ record.state = .completed then
    fatal s!"credit {operation} binding mismatch after mutation began"
  else
    throw (.binding s!"credit {operation} does not match its sealed binding")

/-- The lookup that `consume`, `release`, `begin_mutation` and
`complete_mutation` share. -/
def boundRecord (key : Key) (binding : Binding) (operation : String) : LedgerM CreditRecord := do
  let record ← findRecord key
  requireBinding record binding operation
  return record

section Issue

variable (fp : FloatOps)

def checkTtl (config : LedgerConfig) (ttlSeconds : Number) : Except CreditError ℚ := do
  let ttl ← timeValue "ttl_seconds" ttlSeconds
  if ttl ≤ 0 ∨ ttl > config.maxTtlSeconds then
    .error (.validation s!"ttl_seconds must be in (0, {fp.text config.maxTtlSeconds}]")
  else .ok ttl

def checkNonceUnspent (nonce : Nat) : LedgerM Unit := do
  let s ← get
  match s.nonceKeys.find? nonce with
  | none => pure ()
  | some previousKey =>
    let previous ← recordAt previousKey
    fatalIf (previous.state = .mutating ∨ previous.state = .completed)
      "credit nonce replay after mutation began"
    throw (.replay "credit nonce is already spent in this epoch")

def checkCapacity (binding : Binding) : LedgerM Unit := do
  let s ← get
  raiseIf (binding.blockCount > s.config.headroomBlocks)
    (.unavailable "credit exceeds protected KV headroom")
  raiseIf (binding.laneCount > s.config.maxLanesPerCredit)
    (.unavailable "credit exceeds the sealed lane limit")
  raiseIf (s.records.size ≥ s.config.maxCreditsPerEpoch)
    (.unavailable "credit epoch record limit reached; rotate the epoch")
  raiseIf (s.reservedBlockCount + binding.blockCount > s.config.headroomBlocks)
    (.unavailable "aggregate credits exceed protected KV headroom")

def storeCredit (credit : CapacityCredit) : LedgerM Unit :=
  modify fun s => { s with
    records := s.records.insert credit.key { credit := credit }
    nonceKeys := s.nonceKeys.insert credit.key.nonce credit.key
    reservedBlockCount := s.reservedBlockCount + credit.binding.blockCount
    expiryHeap := heapPush (credit.expiresAt, credit.key) s.expiryHeap }

def makeKey (config : LedgerConfig) (leaseId : String) (nonce : Int) :
    Except CreditError Key := do
  let leaseId ← boundedText "lease_id" leaseId
  let nonce ← boundedInteger "nonce" nonce 1 uint64Max
  return ⟨config.epoch, leaseId, nonce, config.epoch_range, leaseId.2, nonce.2⟩

def issue (binding : Binding) (leaseId : String) (nonce : Int) (ttlSeconds now : Number)
    (observation : Observation) : LedgerM CapacityCredit := do
  let config := (← get).config
  let key ← check (makeKey config leaseId nonce)
  let ttl ← check (checkTtl fp config ttlSeconds)
  let now ← check (timeValue "now" now)
  advanceTo now observation
  checkNonceUnspent key.nonce
  checkCapacity binding
  match fp.add now ttl with
  | none => throw (.validation "credit expiry overflow")
  | some expiresAt =>
    let credit : CapacityCredit := ⟨key, binding, now, expiresAt⟩
    storeCredit credit
    return credit

end Issue

def consume (key : Key) (binding : Binding) (now : Number) (observation : Observation) :
    LedgerM CapacityCredit := do
  let now ← check (timeValue "now" now)
  advanceTo now observation
  let record ← boundRecord key binding "consume"
  match record.state with
  | .issued =>
    putRecord key { record with state := .consumed, consumedAt := some now }
    return record.credit
  | .consumed => return record.credit
  | .mutating | .completed => fatal "credit consume replay after mutation began"
  | .released | .expired => throw (.replay s!"cannot consume a {record.state.value} credit")

def release (key : Key) (binding : Binding) (now : Number) (observation : Observation) :
    LedgerM Bool := do
  let now ← check (timeValue "now" now)
  advanceTo now observation
  let record ← boundRecord key binding "release"
  match record.state with
  | .issued | .consumed =>
    putRecord key { record with state := .released, closedAt := some now }
    modify fun s => { s with
      reservedBlockCount := s.reservedBlockCount - record.credit.binding.blockCount }
    return true
  | .released | .expired => return false
  | .mutating | .completed => fatal "credit cancellation/release after mutation began"

def beginMutation (key : Key) (binding : Binding) (now : Number) (observation : Observation) :
    LedgerM CapacityCredit := do
  let now ← check (timeValue "now" now)
  advanceTo now observation
  let record ← boundRecord key binding "begin mutation"
  match record.state with
  | .consumed =>
    putRecord key { record with state := .mutating, mutationStartedAt := some now }
    modify fun s => { s with
      mutatingBlockLimit := s.mutatingBlockLimit + record.credit.binding.blockCount }
    return record.credit
  | .mutating | .completed => fatal "credit mutation replay after mutation began"
  | .issued | .released | .expired =>
    throw (.replay s!"cannot mutate with a {record.state.value} credit")

def completeMutation (key : Key) (binding : Binding) (now : Number) (observation : Observation) :
    LedgerM Unit := do
  let now ← check (timeValue "now" now)
  ensureHealthy
  expire now
  let record ← boundRecord key binding "complete mutation"
  match record.state with
  | .mutating =>
    let s ← get
    observe observation (some (s.mutatingBlockLimit - record.credit.binding.blockCount)) (some key)
    putRecord key { record with state := .completed, closedAt := some now }
    modify fun s => { s with
      reservedBlockCount := s.reservedBlockCount - record.credit.binding.blockCount
      mutatingBlockLimit := s.mutatingBlockLimit - record.credit.binding.blockCount }
  | .completed => fatal "credit completion replay after mutation began"
  | .issued | .consumed | .released | .expired =>
    throw (.replay s!"cannot complete a {record.state.value} credit")

def advance (now : Number) (observation : Observation) : LedgerM Unit := do
  let now ← check (timeValue "now" now)
  advanceTo now observation

def ordinaryFreeBlocks (config : LedgerConfig) (observation : Observation) : Int :=
  config.ordinaryCapacityBlocks - observation.ordinaryUsed

def ordinaryAdmissibleBlocks (now : Number) (observation : Observation) : LedgerM Int := do
  let now ← check (timeValue "now" now)
  advanceTo now observation
  return ordinaryFreeBlocks (← get).config observation

inductive Call
  | issue (binding : Binding) (leaseId : String) (nonce : Int) (ttlSeconds now : Number)
    (observation : Observation)
  | consume (key : Key) (binding : Binding) (now : Number) (observation : Observation)
  | release (key : Key) (binding : Binding) (now : Number) (observation : Observation)
  | beginMutation (key : Key) (binding : Binding) (now : Number) (observation : Observation)
  | completeMutation (key : Key) (binding : Binding) (now : Number) (observation : Observation)
  | advance (now : Number) (observation : Observation)
  | ordinaryAdmissibleBlocks (now : Number) (observation : Observation)

inductive Answer
  | credit (credit : CapacityCredit)
  | released (changed : Bool)
  | done
  | blocks (count : Int)
  deriving DecidableEq

def perform (fp : FloatOps) : Call → LedgerM Answer
  | .issue binding leaseId nonce ttl now o => .credit <$> issue fp binding leaseId nonce ttl now o
  | .consume key binding now o => .credit <$> consume key binding now o
  | .release key binding now o => .released <$> release key binding now o
  | .beginMutation key binding now o => .credit <$> beginMutation key binding now o
  | .completeMutation key binding now o => (fun _ => .done) <$> completeMutation key binding now o
  | .advance now o => (fun _ => .done) <$> advance now o
  | .ordinaryAdmissibleBlocks now o => .blocks <$> ordinaryAdmissibleBlocks now o

def step (fp : FloatOps) (s : Ledger) (call : Call) : Ledger × Except CreditError Answer :=
  (after (perform fp call) s, answer (perform fp call) s)

end Mycellios.Credit
