import Mycellios.Data.Dict
import Mycellios.Data.Python
import Mycellios.Logic.Machine
import Mycellios.Logic.Wp

/-! `batching.py`. Times are doubles, read as rationals; what the code computes with them is rounded
in a way that `Rounding` leaves open. A compatibility key is any value with decidable equality. -/

namespace Mycellios.Batching

open Data Logic

inductive Failure
  | valueError (message : String)
  | keyError | indexError | overflowError

def finiteNonNegative (name : String) : Number → Except Failure ℚ
  | .finite value =>
    if value < 0 then .error (.valueError (name ++ " must be finite and non-negative"))
      else .ok value
  | .notFinite => .error (.valueError (name ++ " must be finite and non-negative"))
  | .tooLarge => .error .overflowError

/-- What the code computes with doubles. -/
structure Rounding where
  /-- `(now - enqueued_at) * 1_000`. -/
  ageMs : ℚ → ℚ → ℚ
  /-- `alpha * current + (1.0 - alpha) * previous`. -/
  blend : ℚ → ℚ → ℚ → ℚ
  (scale add sub : ℚ → ℚ → ℚ)

/-- `FairBatchConfig`, as `__post_init__` lets it pass. -/
structure FairBatchConfig where
  maxBatchSize : Nat
  initialBatchSize : Nat
  targetBatchLatencyMs : ℚ
  phaseWeights : List (String × Nat)
  phaseMaxWaitMs : List (String × ℚ)
  starvationMs : ℚ
  ewmaAlpha : ℚ
  growthInterval : Nat
  growthHeadroomRatio : ℚ
  initial_range : 1 ≤ initialBatchSize ∧ initialBatchSize ≤ maxBatchSize
  target_pos : 0 < targetBatchLatencyMs
  starvation_pos : 0 < starvationMs
  alpha_range : 0 < ewmaAlpha ∧ ewmaAlpha ≤ 1
  headroom_range : 0 < growthHeadroomRatio ∧ growthHeadroomRatio < 1
  interval_pos : 1 ≤ growthInterval
  weights_named : ∀ w ∈ phaseWeights, strip w.1 ≠ ""
  weights_nodup : (phaseWeights.map Prod.fst).Nodup
  weights_pos : ∀ w ∈ phaseWeights, 1 ≤ w.2
  weights_ne : phaseWeights ≠ []
  waits_nodup : (phaseMaxWaitMs.map Prod.fst).Nodup
  waits_nonneg : ∀ w ∈ phaseMaxWaitMs, 0 ≤ w.2
  waits_phases : ∀ phase, phase ∈ phaseMaxWaitMs.map Prod.fst ↔ phase ∈ phaseWeights.map Prod.fst

def FairBatchConfig.default : FairBatchConfig where
  maxBatchSize := 8
  initialBatchSize := 2
  targetBatchLatencyMs := 50
  phaseWeights := [("decode", 4), ("verify", 2), ("prefill", 1)]
  phaseMaxWaitMs := [("decode", 0), ("verify", 0), ("prefill", 2)]
  starvationMs := 20
  ewmaAlpha := 1 / 4
  growthInterval := 3
  growthHeadroomRatio := 4 / 5
  initial_range := by decide
  target_pos := by norm_num
  starvation_pos := by norm_num
  alpha_range := by norm_num
  headroom_range := by norm_num
  interval_pos := by decide
  weights_named := by decide +kernel
  weights_nodup := by decide
  weights_pos := by decide
  weights_ne := by decide
  waits_nodup := by decide
  waits_nonneg := by simp
  waits_phases := by simp

section Rows

variable (κ π : Type)

structure BatchWork where
  requestId : Int
  phase : String
  compatibilityKey : κ
  tokenCount : Int
  payload : π
  enqueuedAt : ℚ

structure BatchSelection where
  items : List (BatchWork κ π)
  selectedAt : ℚ
  adaptiveLimit : Nat
  starved : Bool

structure BatchProfile where
  adaptiveLimit : Nat
  observations : Nat
  ewmaLatencyMs : Option ℚ
  ewmaBytes : Option ℚ
  targetViolations : Nat
  consecutiveHeadroom : Nat

structure PhaseQueue where
  flows : Dict Int (List (BatchWork κ π))
  rotation : List Int
  size : Int

structure FairAdaptiveBatchQueue where
  config : FairBatchConfig
  phaseQueues : Dict String (PhaseQueue κ π)
  phaseCursor : Nat
  profiles : Dict (String × κ) BatchProfile
  (enqueuedItems dequeuedItems cancelledItems : Int)
  batches : Nat
  maxQueueDepth : Int
  totalWaitMs : ℚ
  maximumWaitMs : ℚ
  starvationSelections : Nat
  transferredBytes : Int
  phaseBatches : Dict String Nat

end Rows

variable {κ π : Type}

namespace PhaseQueue

def empty : PhaseQueue κ π := ⟨Dict.empty, [], 0⟩

def push (work : BatchWork κ π) (q : PhaseQueue κ π) : PhaseQueue κ π :=
  match q.flows.find? work.requestId with
  | none => ⟨q.flows.insert work.requestId [work], q.rotation ++ [work.requestId], q.size + 1⟩
  | some flow => ⟨q.flows.insert work.requestId (flow ++ [work]), q.rotation, q.size + 1⟩

def first : List (BatchWork κ π) → Except Failure (BatchWork κ π)
  | [] => .error .indexError
  | work :: _ => .ok work

def head (q : PhaseQueue κ π) (requestId : Int) : Except Failure (BatchWork κ π) :=
  match q.flows.find? requestId with
  | none => .error .keyError
  | some flow => first flow

def roundRobinHead (q : PhaseQueue κ π) : Except Failure (BatchWork κ π) :=
  match q.rotation with
  | [] => .error .indexError
  | requestId :: _ => q.head requestId

def oldest (works : List (BatchWork κ π)) : Except Failure (BatchWork κ π) :=
  match works.argmin (·.enqueuedAt) with
  | none => .error (.valueError "min() iterable argument is empty")
  | some work => .ok work

def oldestHead (q : PhaseQueue κ π) : Except Failure (BatchWork κ π) := do
  let heads ← q.flows.values.mapM first
  oldest heads

def dropFromRotation (requestId : Int) : EStateM Failure (PhaseQueue κ π) Unit := do
  let q ← get
  raiseIf (requestId ∉ q.rotation) (.valueError "deque.remove(x): x not in deque")
  modify fun q => { q with rotation := q.rotation.erase requestId }

def popRequest (requestId : Int) : EStateM Failure (PhaseQueue κ π) (BatchWork κ π) := do
  let q ← get
  match q.flows.find? requestId with
  | none => throw .keyError
  | some [] => throw .indexError
  | some (work :: flow) => do
    modify fun q => { q with flows := q.flows.insert requestId flow, size := q.size - 1 }
    dropFromRotation requestId
    modify fun q =>
      if flow = [] then { q with flows := q.flows.erase requestId }
      else { q with rotation := q.rotation ++ [requestId] }
    pure work

def cancelRequest (requestId : Int) : EStateM Failure (PhaseQueue κ π) (List (BatchWork κ π)) := do
  let q ← get
  match q.flows.find? requestId with
  | none => pure []
  | some removed => do
    modify fun q => { q with flows := q.flows.erase requestId }
    dropFromRotation requestId
    modify fun q => { q with size := q.size - removed.length }
    pure removed

/-- The loop of `pop_batch` over a snapshot of the rotation. -/
def select [DecidableEq κ] (limit : Nat) (key : κ) : List Int → List (BatchWork κ π) → List Int →
    EStateM Failure (PhaseQueue κ π) (List (BatchWork κ π))
  | [], selected, _ => pure selected
  | requestId :: requestIds, selected, selectedRequests =>
    if limit ≤ selected.length then pure selected
    else if requestId ∈ selectedRequests then select limit key requestIds selected selectedRequests
    else do
      let q ← get
      let candidate ← check (q.head requestId)
      if candidate.compatibilityKey ≠ key then select limit key requestIds selected selectedRequests
      else do
        let work ← popRequest requestId
        select limit key requestIds (selected ++ [work]) (selectedRequests ++ [requestId])

end PhaseQueue

namespace FairAdaptiveBatchQueue

def init (config : FairBatchConfig) : FairAdaptiveBatchQueue κ π where
  config := config
  phaseQueues := ⟨config.phaseWeights.map fun w => (w.1, PhaseQueue.empty), by
    simpa [Function.comp_def] using config.weights_nodup⟩
  phaseCursor := 0
  profiles := Dict.empty
  enqueuedItems := 0
  dequeuedItems := 0
  cancelledItems := 0
  batches := 0
  maxQueueDepth := 0
  totalWaitMs := 0
  maximumWaitMs := 0
  starvationSelections := 0
  transferredBytes := 0
  phaseBatches := ⟨config.phaseWeights.map fun w => (w.1, 0), by
    simpa [Function.comp_def] using config.weights_nodup⟩

def maxWaitByPhase (config : FairBatchConfig) : Dict String ℚ :=
  ⟨config.phaseMaxWaitMs, config.waits_nodup⟩

def phaseCycle (config : FairBatchConfig) : List String :=
  config.phaseWeights.flatMap fun w => List.replicate w.2 w.1

def length (q : FairAdaptiveBatchQueue κ π) : Int := q.phaseQueues.sumBy (·.size)

def phaseQueue (phase : String) :
    EStateM Failure (FairAdaptiveBatchQueue κ π) (PhaseQueue κ π) := do
  let q ← get
  match q.phaseQueues.find? phase with
  | none => throw .keyError
  | some phaseQueue => pure phaseQueue

def inPhase {α : Type} (phase : String) (m : EStateM Failure (PhaseQueue κ π) α) :
    EStateM Failure (FairAdaptiveBatchQueue κ π) α := do
  let queue ← phaseQueue phase
  zoom (fun _ => queue) (fun queue q => { q with phaseQueues := q.phaseQueues.insert phase queue })
    m

/-- The time of a call: as given, or read from the clock. -/
def timeOf (clock : ℚ) : Option Number → Except Failure ℚ
  | none => .ok clock
  | some now => finiteNonNegative "now" now

def enqueue (clock : ℚ) (payload : π) (requestId : Int) (phase : String) (compatibilityKey : κ)
    (tokenCount : Int) (now : Option Number) :
    EStateM Failure (FairAdaptiveBatchQueue κ π) (BatchWork κ π) := do
  raiseIf (requestId < 0) (.valueError "request_id must be a non-negative integer")
  let q ← get
  raiseIf (phase ∉ q.phaseQueues.keys) (.valueError ("unknown batch phase '" ++ phase ++ "'"))
  raiseIf (tokenCount < 1) (.valueError "token_count must be a positive integer")
  let enqueuedAt ← check (timeOf clock now)
  let work : BatchWork κ π := ⟨requestId, phase, compatibilityKey, tokenCount, payload, enqueuedAt⟩
  inPhase phase (modify (PhaseQueue.push work))
  modify fun q => { q with enqueuedItems := q.enqueuedItems + 1 }
  modify fun q => { q with maxQueueDepth := max q.maxQueueDepth q.length }
  pure work

def cancelIn (requestId : Int) :
    List String → EStateM Failure (FairAdaptiveBatchQueue κ π) (List (BatchWork κ π))
  | [] => pure []
  | phase :: phases => do
    let removed ← inPhase phase (PhaseQueue.cancelRequest requestId)
    let rest ← cancelIn requestId phases
    pure (removed ++ rest)

def cancelRequest (requestId : Int) :
    EStateM Failure (FairAdaptiveBatchQueue κ π) (List (BatchWork κ π)) := do
  raiseIf (requestId < 0) (.valueError "request_id must be a non-negative integer")
  let q ← get
  let removed ← cancelIn requestId q.phaseQueues.keys
  modify fun q => { q with cancelledItems := q.cancelledItems + removed.length }
  pure (removed.insertionSort fun a b => a.enqueuedAt ≤ b.enqueuedAt)

variable [DecidableEq κ] (r : Rounding)

def profile (phase : String) (key : κ) :
    EStateM Failure (FairAdaptiveBatchQueue κ π) BatchProfile := do
  let q ← get
  match q.profiles.find? (phase, key) with
  | some profile => pure profile
  | none => do
    let profile : BatchProfile := ⟨q.config.initialBatchSize, 0, none, none, 0, 0⟩
    modify fun q => { q with profiles := q.profiles.insert (phase, key) profile }
    pure profile

def phaseReady (now : ℚ) (phase : String) : EStateM Failure (FairAdaptiveBatchQueue κ π) Bool := do
  let queue ← phaseQueue phase
  if queue.size = 0 then pure false
  else do
    let oldest ← check queue.oldestHead
    let q ← get
    match (maxWaitByPhase q.config).find? phase with
    | none => throw .keyError
    | some wait =>
      if wait ≤ max 0 (r.ageMs now oldest.enqueuedAt) then pure true
      else do
        let anchor ← check queue.roundRobinHead
        let profile ← profile phase anchor.compatibilityKey
        let heads ← check (queue.rotation.mapM queue.head)
        pure (decide (profile.adaptiveLimit ≤ heads.countP
          (·.compatibilityKey = anchor.compatibilityKey)))

def readyPhases (now : ℚ) : List String → EStateM Failure (FairAdaptiveBatchQueue κ π) (List String)
  | [] => pure []
  | phase :: phases => do
    let ready ← phaseReady r now phase
    let rest ← readyPhases now phases
    pure (if ready then phase :: rest else rest)

omit [DecidableEq κ] in
def turn (q : FairAdaptiveBatchQueue κ π) (allowed : List String) : Option (Nat × String) :=
  (List.range (phaseCycle q.config).length).findSome? fun offset =>
    let index := (q.phaseCursor + offset) % (phaseCycle q.config).length
    ((phaseCycle q.config)[index]?).bind fun phase => if phase ∈ allowed then some (index, phase)
      else none

omit [DecidableEq κ] in
def choosePhase (allowed : List String) :
    EStateM Failure (FairAdaptiveBatchQueue κ π) (Option String) := do
  let q ← get
  match q.turn allowed with
  | none => pure none
  | some (index, phase) => do
    modify fun q => { q with phaseCursor := (index + 1) % (phaseCycle q.config).length }
    pure (some phase)

omit [DecidableEq κ] in
def oldestHead (q : FairAdaptiveBatchQueue κ π) : Except Failure (BatchWork κ π) := do
  let heads ← (q.phaseQueues.values.filter (·.size ≠ 0)).mapM PhaseQueue.oldestHead
  PhaseQueue.oldest heads

/-- The phase and the request that a batch starts with, or nothing yet. -/
def anchorOf (selectedAt : ℚ) (force starved : Bool) (oldest : BatchWork κ π) :
    EStateM Failure (FairAdaptiveBatchQueue κ π) (Option (String × Int)) := do
  if starved then pure (some (oldest.phase, oldest.requestId))
  else do
    let q ← get
    let ready ← readyPhases r selectedAt q.phaseQueues.keys
    let chosen ← choosePhase ready
    let phase ← match chosen with
      | some phase => pure (some phase)
      | none =>
        if force then
          choosePhase ((q.phaseQueues.entries.filter (·.2.size ≠ 0)).map Prod.fst)
        else pure none
    match phase with
    | none => pure none
    | some phase => do
      let queue ← phaseQueue phase
      match queue.rotation with
      | [] => throw .indexError
      | requestId :: _ => pure (some (phase, requestId))

def takeBatch (phase : String) (anchorRequest : Int) :
    EStateM Failure (FairAdaptiveBatchQueue κ π) (List (BatchWork κ π) × Nat) := do
  let queue ← phaseQueue phase
  let anchor ← check (queue.head anchorRequest)
  let profile ← profile phase anchor.compatibilityKey
  let selected ← inPhase phase do
    let work ← PhaseQueue.popRequest anchorRequest
    let queue ← get
    PhaseQueue.select profile.adaptiveLimit anchor.compatibilityKey queue.rotation [work]
      [anchorRequest]
  pure (selected, profile.adaptiveLimit)

omit [DecidableEq κ] in
def countBatch (selectedAt : ℚ) (phase : String) (starved : Bool)
    (selected : List (BatchWork κ π)) : EStateM Failure (FairAdaptiveBatchQueue κ π) Unit := do
  let waits := selected.map fun item => max 0 (r.ageMs selectedAt item.enqueuedAt)
  modify fun q => { q with
    dequeuedItems := q.dequeuedItems + selected.length, batches := q.batches + 1 }
  let q ← get
  match q.phaseBatches.find? phase with
  | none => throw .keyError
  | some count => modify fun q => { q with phaseBatches := q.phaseBatches.insert phase (count + 1) }
  modify fun q => { q with totalWaitMs := r.add q.totalWaitMs (waits.foldl r.add 0) }
  match waits.max? with
  | none => throw (.valueError "max() arg is an empty sequence")
  | some longest => modify fun q => { q with maximumWaitMs := max q.maximumWaitMs longest }
  if starved then modify fun q => { q with starvationSelections := q.starvationSelections + 1 }

def popBatch (clock : ℚ) (now : Option Number) (force : Bool) :
    EStateM Failure (FairAdaptiveBatchQueue κ π) (Option (BatchSelection κ π)) := do
  let q ← get
  if q.length = 0 then pure none
  else do
    let selectedAt ← check (timeOf clock now)
    let oldest ← check q.oldestHead
    let starved := decide (q.config.starvationMs ≤ r.ageMs selectedAt oldest.enqueuedAt)
    match ← anchorOf r selectedAt force starved oldest with
    | none => pure none
    | some (phase, anchorRequest) => do
      let (selected, limit) ← takeBatch phase anchorRequest
      countBatch r selectedAt phase starved selected
      pure (some ⟨selected, selectedAt, limit, starved⟩)

omit [DecidableEq κ] in
def observe (config : FairBatchConfig) (selection : BatchSelection κ π) (latency : ℚ) (bytes : Int)
    (profile : BatchProfile) : BatchProfile :=
  let ewma (previous : Option ℚ) (current : ℚ) : ℚ :=
    match previous with
    | none => current
    | some previous => r.blend config.ewmaAlpha current previous
  let profile := { profile with
    observations := profile.observations + 1
    ewmaLatencyMs := some (ewma profile.ewmaLatencyMs latency)
    ewmaBytes := some (ewma profile.ewmaBytes bytes) }
  if config.targetBatchLatencyMs < latency then { profile with
    targetViolations := profile.targetViolations + 1
    consecutiveHeadroom := 0
    adaptiveLimit := max 1 (profile.adaptiveLimit / 2) }
  else if latency ≤ r.scale config.targetBatchLatencyMs config.growthHeadroomRatio ∧
      selection.adaptiveLimit ≤ selection.items.length then
    if config.growthInterval ≤ profile.consecutiveHeadroom + 1 then { profile with
      adaptiveLimit := min config.maxBatchSize (profile.adaptiveLimit + 1)
      consecutiveHeadroom := 0 }
    else { profile with consecutiveHeadroom := profile.consecutiveHeadroom + 1 }
  else { profile with consecutiveHeadroom := 0 }

def recordBatch (selection : BatchSelection κ π) (latencyMs : Number) (transferredBytes : Int) :
    EStateM Failure (FairAdaptiveBatchQueue κ π) Unit :=
  match selection.items with
  | [] => throw (.valueError "selection cannot be empty")
  | item :: _ => do
    raiseIf ((selection.items.map (·.phase)).dedup.length ≠ 1 ∨
        (selection.items.map (·.compatibilityKey)).dedup.length ≠ 1)
      (.valueError "selection contains incompatible work")
    raiseIf ((selection.items.map (·.requestId)).dedup.length ≠ selection.items.length)
      (.valueError "a physical batch cannot repeat a request id")
    let latency ← check (finiteNonNegative "latency_ms" latencyMs)
    raiseIf (latency = 0) (.valueError "latency_ms must be positive")
    raiseIf (transferredBytes < 0) (.valueError "transferred_bytes must be a non-negative integer")
    let profile ← profile item.phase item.compatibilityKey
    modify fun q => { q with
      profiles := q.profiles.insert (item.phase, item.compatibilityKey)
        (observe r q.config selection latency transferredBytes profile)
      transferredBytes := q.transferredBytes + transferredBytes }

def waitsOf (now : ℚ) (q : FairAdaptiveBatchQueue κ π) :
    List (String × PhaseQueue κ π) → Except Failure (List ℚ)
  | [] => .ok []
  | (phase, queue) :: rest => do
    if queue.size = 0 then waitsOf now q rest
    else do
      let oldest ← queue.oldestHead
      let age := max 0 (r.ageMs now oldest.enqueuedAt)
      match (maxWaitByPhase q.config).find? phase with
      | none => throw .keyError
      | some wait => do
        let waits ← waitsOf now q rest
        pure (max 0 (r.sub wait age) :: max 0 (r.sub q.config.starvationMs age) :: waits)

/-- `any(…)`: the phases are asked in turn, until one is ready. -/
def anyReady (now : ℚ) : List String → EStateM Failure (FairAdaptiveBatchQueue κ π) Bool
  | [] => pure false
  | phase :: phases => do
    if ← phaseReady r now phase then pure true else anyReady now phases

def nextReadyInMs (clock : ℚ) (now : Option Number) :
    EStateM Failure (FairAdaptiveBatchQueue κ π) (Option ℚ) := do
  let q ← get
  if q.length = 0 then pure none
  else do
    let selectedAt ← check (timeOf clock now)
    if ← anyReady r selectedAt q.phaseQueues.keys then pure (some 0)
    else do
      let waits ← check (waitsOf r selectedAt q q.phaseQueues.entries)
      match waits.min? with
      | none => throw (.valueError "min() iterable argument is empty")
      | some wait => pure (some wait)

inductive Call (κ π : Type)
  | enqueue (clock : ℚ) (payload : π) (requestId : Int) (phase : String) (compatibilityKey : κ)
      (tokenCount : Int) (now : Option Number)
  | cancelRequest (requestId : Int)
  | popBatch (clock : ℚ) (now : Option Number) (force : Bool)
  | recordBatch (selection : BatchSelection κ π) (latencyMs : Number) (transferredBytes : Int)
  | nextReadyInMs (clock : ℚ) (now : Option Number)

inductive Answer (κ π : Type)
  | enqueued (work : BatchWork κ π)
  | cancelled (works : List (BatchWork κ π))
  | popped (selection : Option (BatchSelection κ π))
  | recorded
  | ready (wait : Option ℚ)

def perform : Call κ π → EStateM Failure (FairAdaptiveBatchQueue κ π) (Answer κ π)
  | .enqueue clock payload requestId phase key tokenCount now =>
    .enqueued <$> enqueue clock payload requestId phase key tokenCount now
  | .cancelRequest requestId => .cancelled <$> cancelRequest requestId
  | .popBatch clock now force => .popped <$> popBatch r clock now force
  | .recordBatch selection latencyMs transferredBytes =>
    (fun _ => .recorded) <$> recordBatch r selection latencyMs transferredBytes
  | .nextReadyInMs clock now => .ready <$> nextReadyInMs r clock now

def step (q : FairAdaptiveBatchQueue κ π) (c : Call κ π) :
    FairAdaptiveBatchQueue κ π × Except Failure (Answer κ π) :=
  (after (perform r c) q, answer (perform r c) q)

end FairAdaptiveBatchQueue

end Mycellios.Batching
