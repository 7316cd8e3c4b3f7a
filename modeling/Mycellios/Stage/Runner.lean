import Mycellios.Data.Dict
import Mycellios.Protocol.Frame
import Mycellios.Stage.Areas

/-! The state of a stage process: `stage.py`. The reads of a runner do not change it, so the checks
that they did not are left out. -/

namespace Mycellios.Stage

open Data Protocol

/-- The exceptions of `stage.py`, of the runner, and an ERROR frame from upstream. -/
inductive StageError
  | value (message : String)
  | type (message : String)
  | runtime (message : String)
  | timeout (message : String)
  | key (requestId : Nat)
  | runner (message : String)
  | upstream (payload : List UInt8)

inductive TokenMode
  | none | all | last

/-- `activation_token_mode`, on the types that reach it. -/
def activationTokenMode : FrameType → TokenMode
  | .prefill => .none
  | .verify | .samplingVerify => .all
  | _ => .last

inductive Peer
  | downstream | back
  deriving DecidableEq

structure Outgoing where
  peer : Peer
  frameType : FrameType
  requestId : Nat
  step : Nat := 0
  tokenCount : Nat := 0
  hiddenSize : Nat := 0
  flags : Nat := 0
  payload : List UInt8 := []

/-- The second part of a runner's result: `int | tuple[int, ...] | None`. -/
inductive StageToken
  | none
  | one (token : Nat)
  | many (tokens : List Nat)

/-- The shape of an output, the output as the codec writes it, and the token. -/
structure StageResult where
  tokenCount : Nat
  hiddenSize : Nat
  payload : List UInt8
  token : StageToken

/-- `StageRunnerContract` over a state of its own. `forward` is one physical batch, with a result
for every frame; `samplingLogits` is `project_sampling_logits`. -/
structure Runner (ρ : Type) where
  hiddenSize : Nat
  batches : Bool
  certified : Bool
  begin : Nat → ρ → Except StageError ρ
  forward : List Frame → ρ → Except StageError (List StageResult × ρ)
  samplingLogits : Option (StageResult → Except StageError (Nat × Nat × List UInt8))
  truncate : Nat → Nat → ρ → Except StageError ρ
  finish : Nat → ρ → Except StageError ρ
  forkRequest : (child source : Nat) → (maxCacheBytes : Int) → ρ → Except StageError (Nat × ρ)
  promoteRequest : (owner descendant : Nat) → ρ → Except StageError ρ
  sequenceLength : Nat → ρ → Except StageError Nat
  physicalBatchKey : (request tokenCount : Nat) → TokenMode → ρ → Option Nat
  requestCacheBytes : Nat → ρ → Except StageError Nat
  projectRequestCacheBytes : (request tokens : Nat) → ρ → Except StageError Nat
  uniquePhysicalCacheBytes : Option (List Nat → ρ → Except StageError Nat)
  availablePhysicalCacheBytes : Option (ρ → Nat)
  projectTreeIncremental : Option (Nat → List Nat → ρ → Except StageError Nat)
  projectRequestIncremental : Option (Nat → Nat → ρ → Except StageError Nat)
  lastForkReport : Option (ρ → Option (Nat × Nat))

structure StageConfig where
  pipelineId : Nat
  layerStart : Nat
  hasNext : Bool
  codec : Nat
  sealedWaveTokens : Option Nat
  maxPrefillChunkTokens : Option Nat
  (maxPhysicalBatchSize maxSpeculativeBranches : Nat)
  (maxSpeculativeBranchTokens maxSpeculativeKvBytes : Nat)

structure TreeCapacityProjection where
  (projectedKvBytes currentBranchCount currentBranchBytes parentTokens parentCacheBytes : Nat)
  branchIds : List Nat
  availablePhysicalBytes : Option Nat := none
  rejection : TreePrepareRejection := .none
  required : Nat := 0
  limit : Nat := 0
  deriving DecidableEq

structure TreeCapacityReservation where
  (nonce parentRequestId step : Nat)
  pathLengths : List Nat
  projection : TreeCapacityProjection
  expectedCommitPredecessors : Nat
  deadlineAt : ℚ
  committed : Bool := false
  consumedForks : Nat := 0
  quotedChildren : Dict Nat Nat := .empty
  consumedVerifies : List Nat := []

structure TreeLeafShape where
  (parentRequestId nonce expectedTokens : Nat)

/-- `TreeReservationBook`. The identity of the last quote is kept after it is gone. -/
structure TreeReservationBook where
  active : Option TreeCapacityReservation := none
  last : Option (Nat × Nat × Nat) := none
  lastMutated : Bool := false

structure StageBranchLedger where
  logicalOwners : Dict Nat Nat := .empty
  forkSources : Dict Nat Nat := .empty

def StageBranchLedger.register (lineage : StageBranchLedger) (child owner source : Nat) :
    Except StageError StageBranchLedger :=
  if child ∈ lineage.logicalOwners.keys ∨ child ∈ lineage.forkSources.keys then
    .error (.value s!"speculative request {child} is already registered")
  else if owner ∈ lineage.logicalOwners.keys then
    .error (.value "logical owner must be an ordinary root request")
  else if source ≠ owner ∧ lineage.logicalOwners.find? source ≠ some owner then
    .error (.value "physical fork source does not belong to the logical owner")
  else .ok ⟨lineage.logicalOwners.insert child owner, lineage.forkSources.insert child source⟩

def StageBranchLedger.release (lineage : StageBranchLedger) (request : Nat) : StageBranchLedger :=
  ⟨lineage.logicalOwners.erase request, lineage.forkSources.erase request⟩

def StageBranchLedger.ownedRequests (lineage : StageBranchLedger) (owner : Nat) : List Nat :=
  (lineage.logicalOwners.entries.filter fun e => e.2 = owner).map Prod.fst

/-- A stage between two frames; `moves` lists what was done with the frames so far. -/
structure StageState (ρ : Type) where
  runner : ρ
  frames : Dict Nat Nat := .empty
  lineage : StageBranchLedger := {}
  reservations : TreeReservationBook := {}
  leafShapes : Dict Nat TreeLeafShape := .empty
  areas : Areas
  moves : List Move := []
  sent : List Outgoing := []
  halted : Bool := false

def StageState.init {ρ : Type} (runner : ρ) (arrivals : List Frame) : StageState ρ :=
  { runner := runner, areas := .init arrivals }

end Mycellios.Stage
