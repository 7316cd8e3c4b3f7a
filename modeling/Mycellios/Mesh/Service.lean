import Mycellios.Data.Dict
import Mycellios.Data.JavaScript
import Mycellios.Logic.Machine
import Mycellios.Logic.Wp

/-! `mesh-service.ts`. A job's queue is kept by the job's id, because the client holds it after the
runtime is gone. A timer is a field that says whether it is armed. What the hub, the scheduler and
the worker table answer is part of each input, by job and planned route. Traces, telemetry and
listeners are left out. -/

namespace Mycellios.Mesh

open Data Logic

inductive JobStatus
  | queued | leasing | running | streaming | completed | failed | cancelled | expired
  deriving DecidableEq

def JobStatus.terminal : JobStatus → Bool
  | .completed | .failed | .cancelled | .expired => true
  | .queued | .leasing | .running | .streaming => false

def JobStatus.active : JobStatus → Bool
  | .leasing | .running | .streaming => true
  | .queued | .completed | .failed | .cancelled | .expired => false

structure ChatMessage where
  role : String
  content : String

structure ChatCompletionRequest where
  model : String
  messages : List ChatMessage
  maxTokens : Option Nat
  seed : Option Int
  sessionId : Option String
  workloadClass : Option String
  deadlineMs : Option Nat

structure RouteStage where
  (workerId deploymentId modelDigest : String)

structure ScheduledRoute where
  model : String
  stages : List RouteStage

structure TokenEvent where
  index : Nat
  text : String
  deriving DecidableEq

inductive RecoveryMode
  | none | promptReplay | deterministicPrefixReplay

structure ExecutionRecoveryTrace where
  mode : RecoveryMode
  attempts : Nat
  replayedTokenEvents : Nat

inductive FinishReason
  | stop | length | cancelled | error

structure CompletionResult where
  (jobId leaseId text : String)
  finishReason : FinishReason
  inputTokens : Nat
  outputTokens : Nat
  recovery : Option ExecutionRecoveryTrace

inductive Phase
  | waitingFirstToken | recovering

inductive JobStreamEvent
  | accepted (jobId sessionId : String) (route : ScheduledRoute)
  | progress (phase : Phase) (message : String) (attempt : Nat) (workerId nodeId : Option String)
      (recoveryMode : Option RecoveryMode)
  | token (token : TokenEvent)
  | completed (result : CompletionResult)
  | failed (code message : String)

structure JobPayload where
  (jobId leaseId modelDigest : String)
  deadlineAt : Int
  request : ChatCompletionRequest

inductive Message
  | leaseOffer (payload : JobPayload)
  | taskCancel (jobId : String)

inductive Envelope
  | leaseAccept (jobId leaseId : String)
  | leaseReject (jobId leaseId : String) (reason : Option String)
  | taskToken (jobId leaseId : String) (index : Nat) (text : String)
  | taskComplete (result : CompletionResult)
  | taskFail (jobId leaseId : String) (code message : Option String)

structure DeploymentStage where
  nodeId : String
  deviceName : String

inductive Adapter
  | kokoro | decision | other

/-- A deployment; `adapter` is the special deployment that it is recognised to be. -/
structure ModelDeployment where
  deploymentId : String
  adapter : Adapter
  stages : List DeploymentStage

structure Worker where
  nodeId : Option String
  deployments : List ModelDeployment

structure StoredJob where
  (sessionId model workloadClass : String)
  status : JobStatus
  (workerId deploymentId modelDigest leaseId : Option String)
  inputTokens : Nat
  outputTokens : Nat
  failureCode : Option String
  deadlineAt : Int

structure AsyncQueue (α : Type) where
  values : List α
  closed : Bool

namespace AsyncQueue

variable {α : Type}

def new : AsyncQueue α := ⟨[], false⟩

def push (q : AsyncQueue α) (value : α) : AsyncQueue α :=
  if q.closed then q else { q with values := q.values ++ [value] }

def close (q : AsyncQueue α) : AsyncQueue α := { q with closed := true }

end AsyncQueue

structure PromptCheckpoint where
  request : ChatCompletionRequest
  requestHash : String

structure ReplayPrefix where
  tokens : List String
  nextIndex : Nat

structure RuntimeJob where
  request : ChatCompletionRequest
  route : ScheduledRoute
  routePlan : List ScheduledRoute
  routeIndex : Nat
  promptCheckpoint : PromptCheckpoint
  output : String
  outputTokens : List String
  outputBytes : Nat
  nextTokenIndex : Nat
  replayPrefix : Option ReplayPrefix
  recoveryMode : RecoveryMode
  replayedTokenEvents : Nat
  leaseTimer : Bool
  firstTokenTimer : Option Nat
  attempt : Nat

/-- The service with the tables of its store, and all that it gave the hub to send. -/
structure MeshService where
  jobs : Dict String StoredJob
  idempotencyKeys : Dict String (String × String)
  runtimes : Dict String RuntimeJob
  activeSessions : Dict String String
  queues : Dict String (AsyncQueue JobStreamEvent)
  sent : List (String × Message)

structure Host where
  inputHashForRequest : ChatCompletionRequest → String
  requestTimeoutMs : Nat

inductive Verdict
  | ok
  | invalid (reason : String)
  | raised

/-- What the surroundings answer while one input is handled. -/
structure Moment where
  now : String → Nat → Int
  connected : String → Nat → String → Bool
  /-- `isRouteCurrentlyEligible`, when a standby is chosen and when it is dispatched. -/
  standbyEligible : String → Nat → Bool
  dispatchEligible : String → Nat → Bool
  newLeaseId : String → Nat → String
  offered : String → Nat → Bool
  getWorker : String → Option Worker
  validateCompletion : StoredJob → RuntimeJob → CompletionResult → Verdict
  firstTokenTimeoutFor : String → Nat
  newSessionId : String
  newJobId : String
  selectRoutePlan : Option (ScheduledRoute × List ScheduledRoute)
  privacyFailure : Option (String × String)

structure MeshServiceError where
  code : String
  message : String
  statusCode : Nat

namespace MeshService

section Store

variable (s : MeshService)

def updateJob (jobId : String) (f : StoredJob → StoredJob) : MeshService :=
  match s.jobs.find? jobId with
  | none => s
  | some job => { s with jobs := s.jobs.insert jobId (f job) }

def setJobStatus (jobId : String) (status : JobStatus) (failureCode : Option String) :
    MeshService :=
  s.updateJob jobId fun job => { job with status := status, failureCode := failureCode }

def assign (stage : RouteStage) (leaseId : String) (job : StoredJob) : StoredJob := { job with
  status := .leasing
  workerId := some stage.workerId
  deploymentId := some stage.deploymentId
  leaseId := some leaseId
  modelDigest := some stage.modelDigest }

/-- `UPDATE jobs … WHERE id = ? AND status = 'queued'`. -/
def setJobRoute (jobId : String) (stage : RouteStage) (leaseId : String) : MeshService :=
  s.updateJob jobId fun job => if job.status = .queued then assign stage leaseId job else job

def promoteJobRoute (jobId : String) (stage : RouteStage) (leaseId : String) : Option MeshService :=
  match s.jobs.find? jobId with
  | none => none
  | some job =>
    if job.status.terminal then none
    else some (s.updateJob jobId fun job => { assign stage leaseId job with failureCode := none })

def completeJob (jobId : String) (result : CompletionResult) : MeshService :=
  s.updateJob jobId fun job => { job with
    status := .completed
    inputTokens := result.inputTokens
    outputTokens := result.outputTokens }

def send (workerId : String) (message : Message) : MeshService :=
  { s with sent := s.sent ++ [(workerId, message)] }

/-- `if (job.workerId) this.hub.send(job.workerId, "task.cancel", …)`. -/
def cancelTask (jobId : String) (job : StoredJob) : MeshService :=
  match job.workerId with
  | none => s
  | some workerId => s.send workerId (.taskCancel jobId)

def push (jobId : String) (event : JobStreamEvent) : MeshService :=
  match s.queues.find? jobId with
  | none => s
  | some queue => { s with queues := s.queues.insert jobId (queue.push event) }

def setRuntime (jobId : String) (runtime : RuntimeJob) : MeshService :=
  { s with runtimes := s.runtimes.insert jobId runtime }

end Store

section Lifecycle

variable (host : Host) (m : Moment) (s : MeshService)

def releaseSession (jobId : String) : MeshService :=
  match s.jobs.find? jobId with
  | none => s
  | some job =>
    if s.activeSessions.find? job.sessionId = some jobId then
      { s with activeSessions := s.activeSessions.erase job.sessionId }
    else s

def closeQueue (jobId : String) : MeshService :=
  match s.queues.find? jobId with
  | none => s
  | some queue => { s with queues := s.queues.insert jobId queue.close }

def finishRuntime (jobId : String) : MeshService :=
  match s.runtimes.find? jobId with
  | none => s
  | some _ =>
    let s := (s.releaseSession jobId).closeQueue jobId
    { s with runtimes := s.runtimes.erase jobId }

def failRuntime (jobId code message : String) : MeshService :=
  match s.jobs.find? jobId, s.runtimes.find? jobId with
  | some job, some _ =>
    let s := s.cancelTask jobId job
    let s :=
      s.setJobStatus jobId (if code = "deadline_exceeded" then .expired else .failed) (some code)
    (s.push jobId (.failed code message)).finishRuntime jobId
  | _, _ => s

/-- A lease for the first stage; `retry` is called when the offer cannot be sent. -/
def offer (retry : String → Option String → MeshService → MeshService) (jobId : String)
    (runtime : RuntimeJob) (stage : RouteStage) (promote : Bool) : MeshService :=
  let leaseId := m.newLeaseId jobId runtime.routeIndex
  let assigned :=
    if promote then s.promoteJobRoute jobId stage leaseId
      else some (s.setJobRoute jobId stage leaseId)
  match assigned with
  | none => s
  | some s =>
    match s.jobs.find? jobId with
    | none => s
    | some job =>
      let payload : JobPayload :=
        ⟨jobId, leaseId, stage.modelDigest, job.deadlineAt, runtime.promptCheckpoint.request⟩
      let s := s.send stage.workerId (.leaseOffer payload)
      if m.offered jobId runtime.routeIndex then
        s.setRuntime jobId { runtime with leaseTimer := true }
      else retry "worker_unreachable" none s

/-- `retry` is `retryOrFail` for this job. -/
def dispatch (retry : String → Option String → MeshService → MeshService) (jobId : String)
    (runtime : RuntimeJob) (promote : Bool) : MeshService :=
  if host.inputHashForRequest runtime.promptCheckpoint.request ≠
      runtime.promptCheckpoint.requestHash then
    s.failRuntime jobId "prompt_checkpoint_corrupt"
      "The immutable prompt checkpoint failed its integrity check"
  else
    match runtime.route.stages.head? with
    | none => s.failRuntime jobId "empty_route" "Scheduler produced an empty route"
    | some stage =>
      if (s.jobs.find? jobId).all (·.deadlineAt ≤ m.now jobId runtime.routeIndex) then
        s.failRuntime jobId "deadline_exceeded" "The request expired before dispatch"
      else if m.dispatchEligible jobId runtime.routeIndex then
        s.offer m retry jobId runtime stage promote
      else retry "route_no_longer_eligible" (some "The planned route is no longer eligible") s

def isSafeInteger (seed : Option Int) : Bool := seed.any (·.natAbs ≤ maxSafeInteger)

/-- The runtime on a standby, which has to replay the published tokens. -/
def restart (route : ScheduledRoute) (runtime : RuntimeJob) : RuntimeJob :=
  let replaying := decide (0 < runtime.nextTokenIndex)
  { runtime with
    route := route
    replayPrefix := if replaying then some ⟨runtime.outputTokens, 0⟩ else none
    recoveryMode := if replaying then .deterministicPrefixReplay else .promptReplay
    replayedTokenEvents := runtime.replayedTokenEvents + if replaying then
      runtime.outputTokens.length else 0
    attempt := runtime.attempt + 1 }

def recovering (previousWorkerId : Option String) (runtime : RuntimeJob) : JobStreamEvent :=
  let replaying := decide (0 < runtime.nextTokenIndex)
  .progress .recovering
    (if replaying then "Replaying " ++ toString runtime.outputTokens.length ++
        " committed token event(s) on an exact-revision standby; duplicate output is suppressed."
      else "The route failed before token zero. Retrying on an exact-model standby.")
    runtime.attempt previousWorkerId none
    (some (if replaying then .deterministicPrefixReplay else .promptReplay))

/-- The beginning of `retryOrFail`: the attempt ends, and `next` looks for another route. -/
def endAttempt (jobId reason : String) (next : StoredJob → RuntimeJob → MeshService → MeshService) :
    MeshService :=
  match s.jobs.find? jobId, s.runtimes.find? jobId with
  | some job, some runtime =>
    let runtime := { runtime with leaseTimer := false, firstTokenTimer := none }
    let s := s.setRuntime jobId runtime
    if 0 < runtime.nextTokenIndex ∧ ¬isSafeInteger runtime.request.seed then
      s.failRuntime jobId reason
        "Streaming already began and exact replay requires an explicit deterministic seed"
    else next job runtime (s.cancelTask jobId job)
  | _, _ => s

/-- The loop of `retryOrFail` over the routes that the plan has left. -/
def tryRoutes (jobId reason : String) (failureMessage : Option String) :
    List ScheduledRoute → StoredJob → RuntimeJob → MeshService → MeshService
  | [], _, runtime, s =>
    (s.setRuntime jobId runtime).failRuntime jobId reason (failureMessage.getD
      (if 0 < runtime.nextTokenIndex then
        "No exact-model preplanned standby remains for deterministic prefix replay"
      else "No exact-model preplanned standby remains for prompt recomputation"))
  | route :: routes, job, runtime, s =>
    let runtime := { runtime with routeIndex := runtime.routeIndex + 1 }
    if route.stages.all fun stage => m.connected jobId runtime.routeIndex stage.workerId then
      if m.standbyEligible jobId runtime.routeIndex then
        let runtime := restart route runtime
        let s := (s.setRuntime jobId runtime).push jobId (recovering job.workerId runtime)
        -- an attempt that fails at once goes on with the routes after this one
        s.dispatch host m (fun reason message s => s.endAttempt jobId reason
          (tryRoutes jobId reason message routes)) jobId runtime true
      else tryRoutes jobId reason failureMessage routes job runtime s
    else tryRoutes jobId reason failureMessage routes job runtime s

def retryOrFail (jobId reason : String) (failureMessage : Option String) : MeshService :=
  s.endAttempt jobId reason fun job runtime =>
    tryRoutes host m jobId reason failureMessage (runtime.routePlan.drop (runtime.routeIndex + 1))
      job runtime

end Lifecycle

section Client

variable (host : Host) (m : Moment) (s : MeshService)

def decisionModel : String := "jev"

def decisionDeadlineMs : Nat := 540000

def generationOnlyRequest (request : ChatCompletionRequest) : ChatCompletionRequest :=
  { request with workloadClass := none, deadlineMs := none }

def createPromptCheckpoint (request : ChatCompletionRequest) : PromptCheckpoint :=
  ⟨generationOnlyRequest request, host.inputHashForRequest (generationOnlyRequest request)⟩

def newRuntime (request : ChatCompletionRequest) (primary : ScheduledRoute)
    (standbys : List ScheduledRoute) : RuntimeJob where
  request := request
  route := primary
  routePlan := primary :: standbys
  routeIndex := 0
  promptCheckpoint := createPromptCheckpoint host request
  output := ""
  outputTokens := []
  outputBytes := 0
  nextTokenIndex := 0
  replayPrefix := none
  recoveryMode := .none
  replayedTokenEvents := 0
  leaseTimer := false
  firstTokenTimer := none
  attempt := 1

structure JobHandle where
  jobId : String
  sessionId : String

def newJob (sessionId : String) (request : ChatCompletionRequest) (deadlineAt : Int) :
    StoredJob where
  sessionId := sessionId
  model := request.model
  workloadClass := request.workloadClass.getD "interactive"
  status := .queued
  workerId := none
  deploymentId := none
  modelDigest := none
  leaseId := none
  inputTokens := 0
  outputTokens := 0
  failureCode := none
  deadlineAt := deadlineAt

def createJob (jobId sessionId : String) (request : ChatCompletionRequest) (deadlineAt : Int) :
    MeshService :=
  { s with jobs := s.jobs.insert jobId (newJob sessionId request deadlineAt) }

def bindIdempotencyKey (idempotencyKey : Option String) (requestHash jobId : String) :
    MeshService :=
  match idempotencyKey with
  | none | some "" => s
  | some key => { s with idempotencyKeys := s.idempotencyKeys.insert key (requestHash, jobId) }

def start (jobId sessionId : String) (request : ChatCompletionRequest) (primary : ScheduledRoute)
    (standbys : List ScheduledRoute) : MeshService :=
  let runtime := newRuntime host request primary standbys
  let s := { s with
    runtimes := s.runtimes.insert jobId runtime
    activeSessions := s.activeSessions.insert sessionId jobId
    queues := s.queues.insert jobId AsyncQueue.new }
  let s := s.push jobId (.accepted jobId sessionId primary)
  s.dispatch host m (fun reason message s => s.retryOrFail host m jobId reason message) jobId
    runtime false

def noCapacity (request : ChatCompletionRequest) (jobId : String) :
    MeshServiceError × MeshService :=
  let s := s.setJobStatus jobId .failed (some "no_capacity")
  match m.privacyFailure with
  | some (code, message) => (⟨code, message, 503⟩, s.setJobStatus jobId .failed (some code))
  | none =>
    (⟨"no_capacity", "No healthy replica is currently available for " ++ request.model, 503⟩, s)

def replayedKey (request : ChatCompletionRequest) (idempotencyKey : Option String) :
    Option MeshServiceError :=
  (idempotencyKey.bind fun key => if key = "" then none else s.idempotencyKeys.find? key).map
      fun existing =>
    ⟨if existing.1 = host.inputHashForRequest request then "idempotency_replayed"
      else "idempotency_key_reused", "Idempotency key is already bound to job " ++ existing.2, 409⟩

def deadlineMs (request : ChatCompletionRequest) : Nat :=
  let deadlineCeiling :=
    if request.model = decisionModel then decisionDeadlineMs else host.requestTimeoutMs
  min (request.deadlineMs.getD deadlineCeiling) deadlineCeiling

def admitJob (request : ChatCompletionRequest) (sessionId jobId : String)
    (idempotencyKey : Option String) (clock : Int) :
    Except MeshServiceError JobHandle × MeshService :=
  let s := s.createJob jobId sessionId request (clock + deadlineMs host request)
  let s := s.bindIdempotencyKey idempotencyKey (host.inputHashForRequest request) jobId
  match m.selectRoutePlan with
  | none =>
    let (error, s) := s.noCapacity m request jobId
    (.error error, s)
  | some (primary, standbys) =>
    (.ok ⟨jobId, sessionId⟩, s.start host m jobId sessionId request primary standbys)

/-- A job id that the table already has raises in the database. -/
def submit (request : ChatCompletionRequest) (requestedSessionId idempotencyKey : Option String)
    (clock : Int) : Except MeshServiceError JobHandle × MeshService :=
  let sessionId := (requestedSessionId <|> request.sessionId).getD m.newSessionId
  match s.activeSessions.find? sessionId with
  | some activeJobId =>
    (.error ⟨"session_busy", "Session already has an active request: " ++ activeJobId, 409⟩, s)
  | none =>
    match replayedKey host s request idempotencyKey with
    | some error => (.error error, s)
    | none =>
      if s.jobs.contains m.newJobId then
        (.error ⟨"constraint", "UNIQUE constraint failed: jobs.id", 500⟩, s)
      else s.admitJob host m request sessionId m.newJobId idempotencyKey clock

def cancel (jobId : String) : Bool × MeshService :=
  match s.jobs.find? jobId, s.runtimes.find? jobId with
  | some job, some _ =>
    let s := s.cancelTask jobId job
    let s := s.setJobStatus jobId .cancelled (some "cancelled_by_client")
    (true, (s.push jobId (.failed "cancelled" "Request cancelled")).finishRuntime jobId)
  | _, _ => (false, s)

def cancelMatchingActiveSession (request : ChatCompletionRequest)
    (requestedSessionId : Option String) : Option String × MeshService :=
  match (requestedSessionId <|> request.sessionId).bind fun id => if id = "" then none
      else s.activeSessions.find? id with
  | none => (none, s)
  | some activeJobId =>
    match s.runtimes.find? activeJobId with
    | none => (none, s)
    | some runtime =>
      if host.inputHashForRequest request ≠ runtime.promptCheckpoint.requestHash then (none, s)
      else
        let (cancelled, s) := s.cancel activeJobId
        (if cancelled then some activeJobId else none, s)

end Client

section Workers

variable (host : Host) (m : Moment) (s : MeshService)

def validJobEnvelope (workerId jobId leaseId : String) : Option StoredJob :=
  match s.jobs.find? jobId with
  | none => none
  | some job =>
    if job.workerId ≠ some workerId ∨ job.leaseId ≠ some leaseId then none
    else if job.status.terminal then none
    else some job

def onLeaseAccepted (workerId jobId leaseId : String) : MeshService :=
  match s.validJobEnvelope workerId jobId leaseId with
  | none => s
  | some _ =>
    let s := s.setJobStatus jobId .running none
    match s.runtimes.find? jobId with
    | none => s
    | some runtime =>
      let s := s.push jobId (.progress .waitingFirstToken
        "Route accepted. Waiting for the first model token." runtime.attempt (some workerId)
        none none)
      s.setRuntime jobId { runtime with
        leaseTimer := false, firstTokenTimer := some (m.firstTokenTimeoutFor jobId) }

def onLeaseRejected (workerId jobId leaseId : String) (reason : Option String) : MeshService :=
  match s.validJobEnvelope workerId jobId leaseId with
  | none => s
  | some _ => s.retryOrFail host m jobId (reason.getD "lease_rejected") none

def maxDecisionResponseBytes : Nat := 16384

def maxSpeechResponseBytes : Nat := 1500000

def replicaOutputByteLimit (deployment : Option ModelDeployment) (maxTokens : Option Nat) : Nat :=
  match deployment.map ModelDeployment.adapter with
  | some .decision => maxDecisionResponseBytes
  | some .kokoro => maxSpeechResponseBytes
  | _ => min (2 * 1024 * 1024) (max 4096 (maxTokens.getD 256 * 32))

def replayToken (jobId : String) (runtime : RuntimeJob) (replay : ReplayPrefix) (index : Nat)
    (text : String) : MeshService :=
  if index ≠ replay.nextIndex ∨ some text ≠ replay.tokens[replay.nextIndex]? then
    s.failRuntime jobId "replay_prefix_mismatch"
      "The exact-revision standby diverged while replaying the committed output prefix"
  else
    let next := replay.nextIndex + 1
    s.setRuntime jobId { runtime with
      replayPrefix := if next = replay.tokens.length then none
        else some { replay with nextIndex := next } }

def append (runtime : RuntimeJob) (text : String) : RuntimeJob := { runtime with
  nextTokenIndex := runtime.nextTokenIndex + 1
  output := runtime.output ++ text
  outputTokens := runtime.outputTokens ++ [text]
  outputBytes := runtime.outputBytes + text.utf8ByteSize }

def publishToken (jobId : String) (runtime : RuntimeJob) (maxOutputBytes index : Nat)
    (text : String) : MeshService :=
  if index ≠ runtime.nextTokenIndex ∨ 65536 < text.utf8ByteSize ∨
      maxOutputBytes < runtime.outputBytes + text.utf8ByteSize then
    s.failRuntime jobId "invalid_stream" "Worker sent an invalid token sequence"
  else
    let runtime := append runtime text
    let s := s.setRuntime jobId runtime
    let s := if runtime.nextTokenIndex = 1 then s.setJobStatus jobId .streaming none else s
    s.push jobId (.token ⟨index, text⟩)

def onToken (workerId jobId leaseId : String) (index : Nat) (text : String) : MeshService :=
  match s.validJobEnvelope workerId jobId leaseId, s.runtimes.find? jobId with
  | some job, some runtime =>
    let runtime := { runtime with leaseTimer := false, firstTokenTimer := none }
    let s := s.setRuntime jobId runtime
    match runtime.replayPrefix with
    | some replay => s.replayToken jobId runtime replay index text
    | none =>
      let deployment := (m.getWorker workerId).bind fun worker =>
        worker.deployments.find? fun d => some d.deploymentId = job.deploymentId
      s.publishToken jobId runtime (replicaOutputByteLimit deployment runtime.request.maxTokens)
        index text
  | _, _ => s

def onComplete (workerId : String) (result : CompletionResult) : MeshService :=
  match s.validJobEnvelope workerId result.jobId result.leaseId, s.runtimes.find? result.jobId with
  | some job, some runtime =>
    match runtime.replayPrefix with
    | some _ => s.failRuntime result.jobId "replay_prefix_incomplete"
        "The exact-revision standby completed before reproducing the committed output prefix"
    | none =>
      match m.validateCompletion job runtime result with
      | .raised => s
      | .invalid reason => s.failRuntime result.jobId "invalid_completion" reason
      | .ok =>
        let s := s.completeJob result.jobId result
        let s := s.push result.jobId (.completed { result with
          text := runtime.output
          recovery := some ⟨runtime.recoveryMode, runtime.attempt, runtime.replayedTokenEvents⟩ })
        s.finishRuntime result.jobId
  | _, _ => s

def onFailure (workerId jobId leaseId : String) (code message : Option String) : MeshService :=
  match s.validJobEnvelope workerId jobId leaseId with
  | none => s
  | some _ => s.retryOrFail host m jobId (code.getD "worker_failed") message

def handleWorkerEnvelope (workerId : String) : Envelope → MeshService
  | .leaseAccept jobId leaseId => s.onLeaseAccepted m workerId jobId leaseId
  | .leaseReject jobId leaseId reason => s.onLeaseRejected host m workerId jobId leaseId reason
  | .taskToken jobId leaseId index text => s.onToken m workerId jobId leaseId index text
  | .taskComplete result => s.onComplete m workerId result
  | .taskFail jobId leaseId code message => s.onFailure host m workerId jobId leaseId code message

def listActiveJobsForWorker (workerId : String) : List String :=
  (s.jobs.entries.filter fun entry => entry.2.workerId = some workerId ∧ entry.2.status.active).map
    Prod.fst

def affectedStage (job : StoredJob) (nodeId : String) : Option DeploymentStage := do
  let workerId ← job.workerId
  let deploymentId ← job.deploymentId
  let worker ← m.getWorker workerId
  let deployment ← worker.deployments.find? (·.deploymentId = deploymentId)
  deployment.stages.find? (·.nodeId = nodeId)

def loseStage (workerId nodeId jobId : String) : MeshService :=
  match s.runtimes.find? jobId, (s.jobs.find? jobId).bind fun job => affectedStage m job nodeId with
  | some runtime, some stage =>
    let message :=
      stage.deviceName ++ " (" ++ nodeId ++ ") disconnected from the distributed pipeline"
    let s :=
      s.push jobId (.progress .recovering message runtime.attempt (some workerId)
        (some nodeId) none)
    s.retryOrFail host m jobId "pipeline_stage_disconnected" (some message)
  | _, _ => s

def handleWorkerDisconnect (workerId : String) : MeshService :=
  let handledJobs := s.listActiveJobsForWorker workerId
  let s := handledJobs.foldl (fun s jobId =>
    s.retryOrFail host m jobId "worker_disconnected"
      (some "Worker disconnected after streaming began")) s
  match (m.getWorker workerId).bind (·.nodeId) with
  | none => s
  | some nodeId =>
    (s.runtimes.keys.filter (· ∉ handledJobs)).foldl
      (fun s jobId => s.loseStage host m workerId nodeId jobId) s

end Workers

section Timers

variable (host : Host) (m : Moment) (s : MeshService)

def leaseTimeout (jobId : String) : MeshService :=
  match s.runtimes.find? jobId with
  | none => s
  | some runtime =>
    if runtime.leaseTimer then s.retryOrFail host m jobId "lease_accept_timeout" none else s

def firstTokenTimeout (jobId : String) : MeshService :=
  match s.runtimes.find? jobId with
  | none => s
  | some runtime =>
    match runtime.firstTokenTimer with
    | none => s
    | some firstTokenTimeoutMs =>
      if 0 < runtime.nextTokenIndex ∧ runtime.replayPrefix.isNone then
        s.setRuntime jobId { runtime with firstTokenTimer := none }
      else s.retryOrFail host m jobId "first_token_timeout"
        (some ("The selected route produced no first token within " ++
          toString firstTokenTimeoutMs ++ " ms"))

def deadlineTimeout (jobId : String) : MeshService :=
  s.failRuntime jobId "deadline_exceeded" "The distributed request timed out"

end Timers

inductive Input
  | submit (request : ChatCompletionRequest) (requestedSessionId idempotencyKey : Option String)
    (clock : Int)
  | cancel (jobId : String)
  | cancelMatchingActiveSession (request : ChatCompletionRequest)
    (requestedSessionId : Option String)
  | envelope (workerId : String) (envelope : Envelope)
  | disconnect (workerId : String)
  | leaseTimeout (jobId : String)
  | firstTokenTimeout (jobId : String)
  | deadlineTimeout (jobId : String)

def step (host : Host) (s : MeshService) (input : Input × Moment) :
    MeshService × Option JobHandle :=
  match input with
  | (.submit request requestedSessionId idempotencyKey clock, m) =>
    let (answer, s) := s.submit host m request requestedSessionId idempotencyKey clock
    (s, answer.toOption)
  | (.cancel jobId, _) => ((s.cancel jobId).2, none)
  | (.cancelMatchingActiveSession request requestedSessionId, _) =>
    ((s.cancelMatchingActiveSession host request requestedSessionId).2, none)
  | (.envelope workerId envelope, m) => (s.handleWorkerEnvelope host m workerId envelope, none)
  | (.disconnect workerId, m) => (s.handleWorkerDisconnect host m workerId, none)
  | (.leaseTimeout jobId, m) => (s.leaseTimeout host m jobId, none)
  | (.firstTokenTimeout jobId, m) => (s.firstTokenTimeout host m jobId, none)
  | (.deadlineTimeout jobId, _) => (s.deadlineTimeout jobId, none)

/-- `recoverOrphanedJobs`: what an earlier process left running has failed. -/
def recoverOrphanedJobs (jobs : Dict String StoredJob) : Dict String StoredJob :=
  jobs.mapValues fun _ job =>
    if job.status.terminal then job
      else { job with status := .failed, failureCode := some "coordinator_restarted" }

def new (jobs : Dict String StoredJob) (idempotencyKeys : Dict String (String × String)) :
    MeshService :=
  ⟨recoverOrphanedJobs jobs, idempotencyKeys, Dict.empty, Dict.empty, Dict.empty, []⟩

end MeshService

end Mycellios.Mesh
