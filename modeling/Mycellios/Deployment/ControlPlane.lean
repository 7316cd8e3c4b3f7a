import Mathlib.Data.Rat.Floor
import Mathlib.Data.List.Sort
import Mycellios.Data.Dict
import Mycellios.Logic.Transaction
import Mycellios.Logic.Wp

/-! `deployment-control-plane.ts`. A table is a dictionary by its primary key. Several controllers
share the tables, so the owner is part of what a call is given. Metadata, canaries, digests and
timestamps for listings are left out. -/

namespace Mycellios.Deployment

open Data Logic

/-- An `Error` by its message, or a constraint of the database. -/
inductive Failure
  | error (message : String)
  | constraint
  deriving DecidableEq

inductive DesiredState
  | active | inactive
  deriving DecidableEq

inductive ObservedState
  | inactive | waitingCapacity | preparing | canary | active | degraded | failed | stopping
  deriving DecidableEq

inductive OperationKind
  | activate | deactivate | repair | replan
  deriving DecidableEq

inductive OperationStatus
  | pending | running | succeeded | failed | cancelled | interrupted
  deriving DecidableEq

inductive ReservationStatus
  | prepared | committed | released | expired | failed
  deriving DecidableEq

inductive LeaseStatus
  | prepared | committed | released | expired
  deriving DecidableEq

def OperationKind.text : OperationKind → String
  | .activate => "activate"
  | .deactivate => "deactivate"
  | .repair => "repair"
  | .replan => "replan"

def ReservationStatus.text : ReservationStatus → String
  | .prepared => "prepared"
  | .committed => "committed"
  | .released => "released"
  | .expired => "expired"
  | .failed => "failed"

def OperationStatus.unfinished (s : OperationStatus) : Bool := s = .pending ∨ s = .running

def ReservationStatus.live (s : ReservationStatus) : Bool := s = .prepared ∨ s = .committed

def LeaseStatus.live (s : LeaseStatus) : Bool := s = .prepared ∨ s = .committed

structure DeploymentState where
  desiredState : DesiredState
  observedState : ObservedState
  (generation observedGeneration retryCount : Nat)
  nextRetryAt : Option ℚ
  (lastError activeOperationId controllerOwner : Option String)
  controllerLeaseUntil : Option ℚ
  deriving DecidableEq

structure DeploymentOperation where
  modelId : String
  generation : Nat
  kind : OperationKind
  status : OperationStatus
  attempt : Nat
  idempotencyKey : String
  errorCode : Option String
  errorMessage : Option String
  deriving DecidableEq

/-- `RouteStageReservation`, as a caller gives it. -/
structure RouteStage where
  nodeId : String
  (stageIndex layerStart layerEnd : Int)
  memoryMiB : ℚ
  capacityMiB : ℚ
  artifactBytes : Option ℚ

/-- `RouteStageReservation`, as `prepareRoute` normalizes it. -/
structure NormalizedStage where
  nodeId : String
  (stageIndex layerStart layerEnd : Int)
  (memoryMiB capacityMiB artifactBytes : Nat)
  deriving DecidableEq

structure RouteReservation where
  modelId : String
  operationId : String
  generation : Nat
  status : ReservationStatus
  stages : List NormalizedStage
  expiresAt : ℚ
  error : Option String
  deriving DecidableEq

structure StageLease where
  (reservationId modelId nodeId : String)
  stageIndex : Int
  memoryMiB : Nat
  status : LeaseStatus
  expiresAt : ℚ

/-- `requestedModels` holds whether a model is activated on its own. -/
structure Tables where
  requestedModels : Dict String Bool
  states : Dict String DeploymentState
  operations : Dict String DeploymentOperation
  reservations : Dict String RouteReservation
  leases : Dict String StageLease

def Tables.empty : Tables := ⟨Dict.empty, Dict.empty, Dict.empty, Dict.empty, Dict.empty⟩

section Environment

/-- The calling controller, the time, the random part of each id, and the locale's order of node
ids. -/
structure Moment where
  owner : String
  now : ℚ
  uuid : Nat → String
  localeLe : String → String → Bool

variable (moment : Moment)

def Moment.newId (kind : String) (n : Nat) : String := kind ++ "_" ++ moment.uuid n

/-- `now + Math.max(1_000, …)`. -/
def Moment.deadline (ms : ℚ) : ℚ := moment.now + max 1000 ms

def Moment.leaseHolds (s : DeploymentState) : Bool := moment.now < s.controllerLeaseUntil.getD 0

end Environment

def idempotencyKey (modelId : String) (generation : Nat) (kind : OperationKind) (attempt : Nat) :
    String :=
  modelId ++ ":" ++ generation.repr ++ ":" ++ kind.text ++ ":" ++ attempt.repr

/-- `text.slice(0, 2_000)`, over characters. -/
def clip (text : String) : String := String.ofList (text.toList.take 2000)

namespace Tables

section States

variable (moment : Moment) (t : Tables)

def freshState (autoActivate : Bool) : DeploymentState where
  desiredState := if autoActivate then .active else .inactive
  observedState := .inactive
  generation := 1
  observedGeneration := 0
  retryCount := 0
  nextRetryAt := none
  lastError := none
  activeOperationId := none
  controllerOwner := none
  controllerLeaseUntil := none

def ensureModel (modelId : String) (autoActivate : Bool) :
    Except Failure (DeploymentState × Tables) :=
  match t.states.find? modelId with
  | some s => .ok (s, t)
  | none =>
    if t.requestedModels.contains modelId then
      .ok (freshState autoActivate,
        { t with states := t.states.insert modelId (freshState autoActivate) })
    else .error .constraint

def requireModel (modelId : String) : Except Failure (DeploymentState × Tables) :=
  match t.requestedModels.find? modelId with
  | none => .error (.error ("deployment_model_not_found:" ++ modelId))
  | some autoActivate => t.ensureModel modelId autoActivate

def setDesiredState (modelId : String) (desiredState : DesiredState) :
    Except Failure (DeploymentState × Tables) := do
  let (s, t) ← t.requireModel modelId
  let s := if s.desiredState = desiredState then s else { s with
    desiredState := desiredState
    generation := s.generation + 1
    retryCount := 0
    nextRetryAt := none
    lastError := none }
  pure (s, { t with states := t.states.insert modelId s })

def rearmAfterRuntimeChange (modelId reason : String) :
    Except Failure (DeploymentState × Tables) := do
  let (s, t) ← t.requireModel modelId
  if s.activeOperationId ≠ none then throw (.error ("deployment_operation_is_active:" ++ modelId))
  let s := { s with
    generation := s.generation + 1
    observedState := .failed
    retryCount := 0
    nextRetryAt := none
    lastError := some (clip reason)
    controllerOwner := none
    controllerLeaseUntil := none }
  pure (s, { t with states := t.states.insert modelId s })

def markWaitingCapacity (modelId : String) (message : Option String) : Tables :=
  { t with
      states := t.states.update (fun m s => m = modelId ∧ s.desiredState = .active) fun s =>
          { s with
      observedState := .waitingCapacity
      lastError := message
      activeOperationId := none
      controllerOwner := none
      controllerLeaseUntil := none } }

def adoptObservedState (modelId : String) (observedState : ObservedState) : Tables :=
  { t with
      states := t.states.update (fun m s => m = modelId ∧ s.activeOperationId = none) fun s =>
          { s with
      observedState := observedState
      observedGeneration := if observedState = .active ∨ observedState = .inactive then s.generation
        else s.observedGeneration
      nextRetryAt := if observedState = .degraded then some moment.now else none
      lastError := if observedState = .degraded then s.lastError else none } }

end States

section Operations

variable (moment : Moment) (t : Tables)

/-- `state.activeOperationId ? getOperation(state.activeOperationId) : null`. -/
def activeOperation (s : DeploymentState) : Option (String × DeploymentOperation) :=
  match s.activeOperationId with
  | none => none
  | some id => if id = "" then none else (t.operations.find? id).map fun o => (id, o)

def finishOperationRow (operationId : String) (status : OperationStatus)
    (errorCode errorMessage : String) : Tables :=
  { t with
      operations := t.operations.update (fun id o => id = operationId ∧ o.status.unfinished)
          fun o => { o with
      status := status
      errorCode := some errorCode
      errorMessage := some (clip errorMessage) } }

def newOperation (modelId : String) (s : DeploymentState) (kind : OperationKind) :
    DeploymentOperation where
  modelId := modelId
  generation := s.generation
  kind := kind
  status := .running
  attempt := s.retryCount + 1
  idempotencyKey := idempotencyKey modelId s.generation kind (s.retryCount + 1)
  errorCode := none
  errorMessage := none

def claimedState (s : DeploymentState) (id : String) (kind : OperationKind) (leaseMs : Option ℚ) :
    DeploymentState := { s with
  observedState := if kind = .deactivate then .stopping else .preparing
  activeOperationId := some id
  controllerOwner := some moment.owner
  controllerLeaseUntil := some (moment.deadline (leaseMs.getD 60000))
  nextRetryAt := none }

def insertOperation (modelId : String) (s : DeploymentState) (kind : OperationKind)
    (leaseMs : Option ℚ) : Except Failure (Option (String × DeploymentOperation) × Tables) := do
  let id := moment.newId "dop" 0
  let row := newOperation modelId s kind
  if t.operations.contains id ∨ ∃ o ∈ t.operations.values, o.idempotencyKey =
      row.idempotencyKey then
    throw .constraint
  pure (some (id, row), { t with
    operations := t.operations.insert id row
    states := t.states.insert modelId (claimedState moment s id kind leaseMs) })

def runningWithKey (key : String) : Option (String × DeploymentOperation) :=
  (t.operations.entries.find? (·.2.idempotencyKey = key)).filter (·.2.status = .running)

def runningActive (s : DeploymentState) : Option (String × DeploymentOperation) :=
  (t.activeOperation s).filter (·.2.status = .running)

def interruptActive (s : DeploymentState) : Tables :=
  match t.runningActive s with
  | none => t
  | some (id, _) => t.finishOperationRow id .interrupted "controller_lease_expired"
      "The previous controller lease expired before the operation completed."

def claimOperation (modelId : String) (kind : OperationKind) (leaseMs : Option ℚ) :
    Except Failure (Option (String × DeploymentOperation) × Tables) := do
  let (s, t) ← t.requireModel modelId
  if (t.runningActive s).isSome ∧ s.controllerOwner = some moment.owner ∧ moment.leaseHolds s then
    pure (t.runningActive s, t)
  else if s.controllerOwner.any (fun owner => owner ≠ "" ∧ owner ≠ moment.owner) ∧
      moment.leaseHolds s then
    pure (none, t)
  else
    let t := t.interruptActive s
    match t.runningWithKey (idempotencyKey modelId s.generation kind (s.retryCount + 1)) with
    | some row => pure (some row, t)
    | none => t.insertOperation moment modelId s kind leaseMs

def runningOperation (operationId : String) : Option DeploymentOperation :=
  (t.operations.find? operationId).filter (·.status = .running)

/-- `WHERE model_id = ? AND active_operation_id = ? AND controller_owner = ?`. -/
def updateOwned (operationId : String) (set : DeploymentState → DeploymentState) : Bool × Tables :=
  match t.runningOperation operationId with
  | none => (false, t)
  | some o =>
    let which (m : String) (s : DeploymentState) : Bool :=
      m = o.modelId ∧ s.activeOperationId = some operationId ∧ s.controllerOwner = some moment.owner
    ((t.states.filter which).size = 1, { t with states := t.states.update which set })

def renewOperation (operationId : String) (leaseMs : Option ℚ) : Bool × Tables :=
  t.updateOwned moment operationId fun s => { s with
    controllerLeaseUntil := some (moment.deadline (leaseMs.getD 60000)) }

def markCanary (operationId : String) : Bool × Tables :=
  t.updateOwned moment operationId fun s => { s with observedState := .canary }

def succeededState (observedState : ObservedState) (s : DeploymentState) : DeploymentState :=
    { s with
  observedState := observedState
  observedGeneration := s.generation
  retryCount := 0
  nextRetryAt := none
  lastError := none
  activeOperationId := none
  controllerOwner := none
  controllerLeaseUntil := none }

def failedState (errorMessage : String) (retryAt : Option ℚ) (s : DeploymentState) :
    DeploymentState := { s with
  observedState := .failed
  retryCount := s.retryCount + 1
  nextRetryAt := retryAt
  lastError := some (clip errorMessage)
  activeOperationId := none
  controllerOwner := none
  controllerLeaseUntil := none }

/-- `WHERE model_id = ? AND active_operation_id = ?`. -/
def settleState (modelId operationId : String) (set : DeploymentState → DeploymentState) : Tables :=
  { t with
    states := t.states.update (fun m s => m = modelId ∧
      s.activeOperationId = some operationId) set }

/-- `SET status = 'succeeded' … WHERE id = ? AND status = 'running'`. -/
def succeedOperationRow (operationId : String) : Tables :=
  { t with
      operations := t.operations.update (fun id o => id = operationId ∧ o.status = .running)
          fun o => { o with
      status := .succeeded } }

def completeOperation (operationId : String) (observedState : ObservedState) : Bool × Tables :=
  match t.runningOperation operationId with
  | none => (false, t)
  | some o =>
    (true, (t.succeedOperationRow operationId).settleState o.modelId operationId
      (succeededState observedState))

def failPreparedReservations (operationId error : String) : Tables :=
  { t with
    reservations := t.reservations.update (fun _ r => r.operationId = operationId ∧
        r.status = .prepared) fun r =>
      { r with status := .failed, error := some (clip error) }
    leases := t.leases.update (fun _ l =>
        (t.reservations.find? l.reservationId).any (·.operationId = operationId) ∧
            l.status = .prepared) fun l =>
      { l with status := .released } }

def failOperation (operationId errorCode errorMessage : String) (retryAt : Option ℚ) :
    Bool × Tables :=
  match t.runningOperation operationId with
  | none => (false, t)
  | some o =>
    (true, ((t.finishOperationRow operationId .failed errorCode errorMessage).settleState o.modelId
      operationId (failedState errorMessage retryAt)).failPreparedReservations operationId
      errorMessage)

end Operations

section Routes

variable (moment : Moment) (t : Tables)

def expireReservations (now : ℚ) : Nat × Tables :=
  let rows := t.reservations.filter fun _ r => r.status.live ∧ r.expiresAt ≤ now
  if rows.size = 0 then (0, t)
  else (rows.size, { t with
    reservations := t.reservations.update (fun _ r => r.status.live ∧ r.expiresAt ≤ now) fun r =>
      { r with status := .expired }
    leases := t.leases.update (fun _ l => l.status.live ∧ l.expiresAt ≤ now) fun l =>
      { l with status := .expired } })

/-- `Math.max(0, Math.ceil(…))`, and `Math.floor` for the capacity. -/
def normalize (stage : RouteStage) : NormalizedStage where
  nodeId := stage.nodeId
  stageIndex := stage.stageIndex
  layerStart := stage.layerStart
  layerEnd := stage.layerEnd
  memoryMiB := ⌈stage.memoryMiB⌉.toNat
  capacityMiB := ⌊stage.capacityMiB⌋.toNat
  artifactBytes := ⌈stage.artifactBytes.getD 0⌉.toNat

def normalized (stages : List RouteStage) : List NormalizedStage :=
  (stages.map normalize).insertionSort fun left right =>
    left.stageIndex < right.stageIndex ∨
      left.stageIndex = right.stageIndex ∧ moment.localeLe left.nodeId right.nodeId = true

structure NodeRequest where
  requested : Nat
  capacity : Nat

def requestedByNode : Dict String NodeRequest → List NormalizedStage →
    Except Failure (Dict String NodeRequest)
  | requests, [] => .ok requests
  | requests, stage :: stages => do
    if stage.nodeId = "" ∨ stage.stageIndex < 0 ∨ stage.layerEnd ≤ stage.layerStart then
      throw (.error "invalid_route_stage_reservation")
    let current := (requests.find? stage.nodeId).getD ⟨0, stage.capacityMiB⟩
    requestedByNode (requests.insert stage.nodeId
      ⟨current.requested + stage.memoryMiB, min current.capacity stage.capacityMiB⟩) stages

/-- `SUM(memory_mib)` over the live leases of a node that expire after a time. -/
def leased (nodeId : String) (now : ℚ) : Int :=
  t.leases.sumBy fun l => if l.nodeId = nodeId ∧ l.status.live ∧ now < l.expiresAt then l.memoryMiB
    else 0

def assertCapacity (now : ℚ) : List (String × NodeRequest) → Except Failure Unit
  | [] => .ok ()
  | (nodeId, request) :: requests => do
    if (request.capacity : Int) < t.leased nodeId now + request.requested then
      throw (.error ("route_capacity_conflict:" ++ nodeId ++ ":requested=" ++
        request.requested.repr ++ ":leased=" ++ toString (t.leased nodeId now) ++ ":capacity=" ++
        request.capacity.repr))
    assertCapacity now requests

def insertLeases (reservationId modelId : String) (expiresAt : ℚ) :
    Nat → List NormalizedStage → Dict String StageLease → Except Failure (Dict String StageLease)
  | _, [], leases => .ok leases
  | n, stage :: stages, leases => do
    let id := moment.newId "dls" n
    if leases.contains id ∨ ∃ l ∈ leases.values, l.reservationId = reservationId ∧
        l.nodeId = stage.nodeId ∧ l.stageIndex = stage.stageIndex then throw .constraint
    insertLeases reservationId modelId expiresAt (n + 1) stages (leases.insert id {
      reservationId := reservationId
      modelId := modelId
      nodeId := stage.nodeId
      stageIndex := stage.stageIndex
      memoryMiB := stage.memoryMiB
      status := .prepared
      expiresAt := expiresAt })

def preparedRow (operationId : String) (operation : DeploymentOperation)
    (stages : List NormalizedStage) (ttlMs : Option ℚ) : RouteReservation where
  modelId := operation.modelId
  operationId := operationId
  generation := operation.generation
  status := .prepared
  stages := stages
  expiresAt := moment.deadline (ttlMs.getD 90000)
  error := none

def insertRoute (row : RouteReservation) :
    Except Failure ((String × RouteReservation) × Tables) := do
  let id := moment.newId "rsv" 0
  if t.reservations.contains id then throw .constraint
  let leases ← insertLeases moment id row.modelId row.expiresAt 1 row.stages t.leases
  pure ((id, row), { t with reservations := t.reservations.insert id row, leases := leases })

def prepareRoute (operationId : String) (stages : List RouteStage) (ttlMs : Option ℚ) :
    Except Failure ((String × RouteReservation) × Tables) := do
  if stages = [] then throw (.error "route_reservation_requires_stages")
  let t := (t.expireReservations moment.now).2
  match t.runningOperation operationId with
  | none => throw (.error ("deployment_operation_not_running:" ++ operationId))
  | some operation =>
    let requests ← requestedByNode Dict.empty (normalized moment stages)
    t.assertCapacity moment.now requests.entries
    t.insertRoute moment (preparedRow moment operationId operation (normalized moment stages) ttlMs)

def commitReservation (reservationId : String) : Tables :=
  { t with
    reservations := t.reservations.update (fun id r => id = reservationId ∧ r.status = .prepared)
        fun r =>
      { r with status := .committed }
    leases := t.leases.update (fun _ l => l.reservationId = reservationId ∧ l.status = .prepared)
        fun l =>
      { l with status := .committed } }

def commitRoute (reservationId : String) : Except Failure ((String × RouteReservation) × Tables) :=
  match t.reservations.find? reservationId with
  | none => .error (.error ("route_reservation_not_found:" ++ reservationId))
  | some r =>
    if r.status = .committed then .ok ((reservationId, r), t)
    else if r.status ≠ .prepared then
      .error (.error ("route_reservation_not_prepared:" ++ reservationId ++ ":" ++ r.status.text))
    -- what the source expires here is rolled back with the error
    else if r.expiresAt ≤ moment.now then
      .error (.error ("route_reservation_expired:" ++ reservationId))
    else .ok ((reservationId, { r with status := .committed }),
      -- the result of completing the operation is not looked at
      ((t.commitReservation reservationId).completeOperation r.operationId .active).2)

def renewRoute (reservationId : String) (ttlMs : Option ℚ) : Bool × Tables :=
  let expiresAt := moment.deadline (ttlMs.getD 90000)
  let which (id : String) (r : RouteReservation) : Bool :=
    id = reservationId ∧ r.status.live ∧ moment.now < r.expiresAt
  if (t.reservations.filter which).size = 0 then (false, t)
  else (true, { t with
    reservations := t.reservations.update which fun r => { r with expiresAt := expiresAt }
    leases := t.leases.update (fun _ l => l.reservationId = reservationId ∧ l.status.live) fun l =>
      { l with expiresAt := expiresAt } })

def renewRoutes (ttlMs : Option ℚ) : List String → Tables → Nat × Tables
  | [], t => (0, t)
  | id :: ids, t =>
    let (renewed, t) := t.renewRoute moment id ttlMs
    let (count, t) := renewRoutes ttlMs ids t
    (if renewed then count + 1 else count, t)

def renewCommittedRoutesForModel (modelId : String) (ttlMs : Option ℚ) : Nat × Tables :=
  let rows := t.reservations.filter fun _ r =>
    r.modelId = modelId ∧ r.status = .committed ∧ moment.now < r.expiresAt
  renewRoutes moment ttlMs rows.keys t

def releaseRoutesForModel (modelId : String) : Nat × Tables :=
  ((t.reservations.filter fun _ r => r.modelId = modelId ∧ r.status.live).size, { t with
    reservations := t.reservations.update (fun _ r => r.modelId = modelId ∧ r.status.live) fun r =>
      { r with status := .released }
    leases := t.leases.update (fun _ l => l.modelId = modelId ∧ l.status.live) fun l =>
      { l with status := .released } })

def removeModelState (modelId : String) : Tables :=
  let t := (t.releaseRoutesForModel modelId).2
  { t with states := t.states.erase modelId }

end Routes

section Store

variable (moment : Moment) (t : Tables)

def upsertRequestedModel (modelId : String) (autoActivate : Bool) : Tables :=
  { t with requestedModels := t.requestedModels.insert modelId autoActivate }

/-- `DELETE FROM requested_models`, with what `ON DELETE CASCADE` takes along. -/
def removeRequestedModel (modelId : String) : Bool × Tables :=
  if t.requestedModels.contains modelId then
    let operations := t.operations.filter fun _ o => o.modelId ≠ modelId
    let reservations :=
      t.reservations.filter fun _ r => r.modelId ≠ modelId ∧ operations.contains r.operationId
    (true, {
      requestedModels := t.requestedModels.erase modelId
      states := t.states.erase modelId
      operations := operations
      reservations := reservations
      leases := t.leases.filter fun _ l => l.modelId ≠ modelId ∧
        reservations.contains l.reservationId })
  else (false, t)

def ensureModels : List (String × Bool) → Tables → Except Failure Tables
  | [], t => .ok t
  | (modelId, autoActivate) :: models, t => do
    let (_, t) ← t.ensureModel modelId autoActivate
    ensureModels models t

def interruptAll : Tables :=
  { t with operations := t.operations.update (fun _ o => o.status.unfinished) fun o => { o with
      status := .interrupted
      errorCode := some "coordinator_restarted"
      errorMessage := some "The coordinator restarted while the operation was running." } }

def resetStates : Tables :=
  { t with states := t.states.update (fun _ s => s.activeOperationId.isSome) fun s => { s with
      observedState := if s.desiredState = .active then .degraded else .inactive
      nextRetryAt := if s.desiredState = .active then some moment.now else none
      lastError := if s.desiredState = .active then some "coordinator_restarted" else none
      activeOperationId := none
      controllerOwner := none
      controllerLeaseUntil := none } }

structure Initialized where
  (models interruptedOperations expiredReservations : Nat)
  deriving DecidableEq

def initializePlane : Except Failure (Initialized × Tables) := do
  let t ← ensureModels t.requestedModels.entries t
  let interrupted := (t.operations.filter fun _ o => o.status.unfinished).size
  let t := t.interruptAll
  let t := if 0 < interrupted then t.resetStates moment else t
  let (expired, t) := t.expireReservations moment.now
  pure (⟨t.requestedModels.size, interrupted, expired⟩, t)

end Store

end Tables

section Calls

inductive Call
  | upsertRequestedModel (modelId : String) (autoActivate : Bool)
  | removeRequestedModel (modelId : String)
  | initializePlane
  | ensureModel (modelId : String) (autoActivate : Bool)
  | setDesiredState (modelId : String) (desiredState : DesiredState)
  | rearmAfterRuntimeChange (modelId reason : String)
  | claimOperation (modelId : String) (kind : OperationKind) (leaseMs : Option ℚ)
  | renewOperation (operationId : String) (leaseMs : Option ℚ)
  | markWaitingCapacity (modelId : String) (message : Option String)
  | adoptObservedState (modelId : String) (observedState : ObservedState)
  | markCanary (operationId : String)
  | completeOperation (operationId : String) (observedState : ObservedState)
  | failOperation (operationId errorCode errorMessage : String) (retryAt : Option ℚ)
  | prepareRoute (operationId : String) (stages : List RouteStage) (ttlMs : Option ℚ)
  | commitRoute (reservationId : String)
  | renewRoute (reservationId : String) (ttlMs : Option ℚ)
  | renewCommittedRoutesForModel (modelId : String) (ttlMs : Option ℚ)
  | releaseRoutesForModel (modelId : String)
  | removeModelState (modelId : String)

inductive Reply
  | done
  | changed (hit : Bool)
  | count (rows : Nat)
  | initialized (result : Tables.Initialized)
  | state (row : DeploymentState)
  | operation (row : Option (String × DeploymentOperation))
  | reservation (row : String × RouteReservation)
  deriving DecidableEq

variable (moment : Moment)

def Tables.perform (t : Tables) : Call → Except Failure (Reply × Tables)
  | .upsertRequestedModel modelId autoActivate =>
    .ok (.done, t.upsertRequestedModel modelId autoActivate)
  | .removeRequestedModel modelId => .ok ((t.removeRequestedModel modelId).map .changed id)
  | .initializePlane => (t.initializePlane moment).map (·.map .initialized id)
  | .ensureModel modelId autoActivate => (t.ensureModel modelId autoActivate).map (·.map .state id)
  | .setDesiredState modelId desiredState =>
    (t.setDesiredState modelId desiredState).map (·.map .state id)
  | .rearmAfterRuntimeChange modelId reason =>
    (t.rearmAfterRuntimeChange modelId reason).map (·.map .state id)
  | .claimOperation modelId kind leaseMs =>
    (t.claimOperation moment modelId kind leaseMs).map (·.map .operation id)
  | .renewOperation operationId leaseMs =>
    .ok ((t.renewOperation moment operationId leaseMs).map .changed id)
  | .markWaitingCapacity modelId message => .ok (.done, t.markWaitingCapacity modelId message)
  | .adoptObservedState modelId observedState =>
    .ok (.done, t.adoptObservedState moment modelId observedState)
  | .markCanary operationId => .ok ((t.markCanary moment operationId).map .changed id)
  | .completeOperation operationId observedState =>
    .ok ((t.completeOperation operationId observedState).map .changed id)
  | .failOperation operationId errorCode errorMessage retryAt =>
    .ok ((t.failOperation operationId errorCode errorMessage retryAt).map .changed id)
  | .prepareRoute operationId stages ttlMs =>
    (t.prepareRoute moment operationId stages ttlMs).map (·.map .reservation id)
  | .commitRoute reservationId => (t.commitRoute moment reservationId).map (·.map .reservation id)
  | .renewRoute reservationId ttlMs =>
    .ok ((t.renewRoute moment reservationId ttlMs).map .changed id)
  | .renewCommittedRoutesForModel modelId ttlMs =>
    .ok ((t.renewCommittedRoutesForModel moment modelId ttlMs).map .count id)
  | .releaseRoutesForModel modelId => .ok ((t.releaseRoutesForModel modelId).map .count id)
  | .removeModelState modelId => .ok (.done, t.removeModelState modelId)

theorem reply_eq_ok {α : Type} {x : Except Failure (α × Tables)} {f : α → Reply}
    (ok : x.map (·.map f id) = .ok (reply, u)) : ∃ a, x = .ok (a, u) ∧ f a = reply := by
  obtain ⟨⟨a, v⟩, done, rfl, rfl⟩ := map_ok_inj ok
  exact ⟨a, done, rfl⟩

/-- What a call has done to the tables when it has succeeded. -/
inductive Performs (moment : Moment) (t : Tables) : Call → Tables → Prop
  | upsertRequestedModel : Performs moment t (.upsertRequestedModel m a)
    (t.upsertRequestedModel m a)
  | removeRequestedModel : Performs moment t (.removeRequestedModel m) (t.removeRequestedModel m).2
  | initializePlane (done : t.initializePlane moment = .ok (r, u)) :
    Performs moment t .initializePlane u
  | ensureModel (done : t.ensureModel m a = .ok (r, u)) : Performs moment t (.ensureModel m a) u
  | setDesiredState (done : t.setDesiredState m s = .ok (r, u)) :
    Performs moment t (.setDesiredState m s) u
  | rearmAfterRuntimeChange (done : t.rearmAfterRuntimeChange m s = .ok (r, u)) :
    Performs moment t (.rearmAfterRuntimeChange m s) u
  | claimOperation (done : t.claimOperation moment m k l = .ok (r, u)) :
    Performs moment t (.claimOperation m k l) u
  | renewOperation : Performs moment t (.renewOperation o l) (t.renewOperation moment o l).2
  | markWaitingCapacity : Performs moment t (.markWaitingCapacity m s) (t.markWaitingCapacity m s)
  | adoptObservedState : Performs moment t (.adoptObservedState m s)
    (t.adoptObservedState moment m s)
  | markCanary : Performs moment t (.markCanary o) (t.markCanary moment o).2
  | completeOperation : Performs moment t (.completeOperation o s) (t.completeOperation o s).2
  | failOperation : Performs moment t (.failOperation o c e r) (t.failOperation o c e r).2
  | prepareRoute (done : t.prepareRoute moment o s l = .ok (r, u)) :
    Performs moment t (.prepareRoute o s l) u
  | commitRoute (done : t.commitRoute moment i = .ok (r, u)) : Performs moment t (.commitRoute i) u
  | renewRoute : Performs moment t (.renewRoute i l) (t.renewRoute moment i l).2
  | renewCommittedRoutesForModel :
    Performs moment t (.renewCommittedRoutesForModel m l)
    (t.renewCommittedRoutesForModel moment m l).2
  | releaseRoutesForModel : Performs moment t (.releaseRoutesForModel m)
    (t.releaseRoutesForModel m).2
  | removeModelState : Performs moment t (.removeModelState m) (t.removeModelState m)

theorem perform_ok {moment : Moment} (ok : t.perform moment call = .ok (reply, u)) :
    Performs moment t call u := by
  cases call with
  | initializePlane | ensureModel | setDesiredState | rearmAfterRuntimeChange | claimOperation
  | prepareRoute | commitRoute =>
    obtain ⟨_, done, _⟩ := reply_eq_ok ok
    constructor
    exact done
  | _ =>
    obtain ⟨_, rfl⟩ := ok_inj ok
    constructor

def step (t : Tables) (i : Moment × Call) : Tables × Except Failure Reply :=
  commit (fun t => t.perform i.1 i.2) t

def Moment.of (owner : String) (now : ℚ) (serial : String) : Moment where
  owner := owner
  now := now
  uuid n := serial ++ n.repr
  localeLe left right := left ≤ right

end Calls

end Mycellios.Deployment
