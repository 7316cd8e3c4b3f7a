import Mathlib
import Mycellios.Logic.Wp

/-! `cost-model.ts`. Numbers are exact rationals; only a bandwidth may be infinite. A field the cost
model does not read is left out. -/

namespace Mycellios.Planning

inductive ActivationCodecId
  | fp16 | int8 | int8Grouped | int8Hadamard | q4
  deriving DecidableEq

structure ActivationCodec where
  (bytesPerElement encodeGbps decodeGbps fixedEncodeMs fixedDecodeMs estimatedQualityLoss : ℚ)

def activationCodec : ActivationCodecId → ActivationCodec
  | .fp16 => ⟨2, 1, 1, 0, 0, 0⟩
  | .int8 => ⟨1, 12, 18, 15 / 1000, 10 / 1000, 1 / 1000⟩
  | .int8Grouped => ⟨10625 / 10000, 10, 14, 20 / 1000, 15 / 1000, 1 / 1000⟩
  | .int8Hadamard => ⟨10625 / 10000, 7, 9, 30 / 1000, 25 / 1000, 1 / 1000⟩
  | .q4 => ⟨5 / 10, 7, 11, 25 / 1000, 20 / 1000, 20 / 1000⟩

structure LayerProfile where
  (weightBytes activationElements kvBytesPerToken decodeMsAtUnit prefillMsPerTokenAtUnit : ℚ)
  weightBytes_nonneg : 0 ≤ weightBytes
  kvBytesPerToken_nonneg : 0 ≤ kvBytesPerToken

structure DistributedModelProfile where
  layers : List LayerProfile
  embeddingBytes : ℚ
  lmHeadBytes : ℚ
  tiedEmbeddingAndHead : Bool
  (runtimeOverheadBytesPerStage embeddingDecodeMsAtUnit lmHeadDecodeMsAtUnit : ℚ)
  embeddingPrefillMsPerTokenAtUnit : ℚ
  lmHeadPrefillMsPerTokenAtUnit : ℚ
  embeddingBytes_nonneg : 0 ≤ embeddingBytes
  lmHeadBytes_nonneg : 0 ≤ lmHeadBytes

inductive StageRole
  | head | middle | tail
  deriving DecidableEq

structure ComputeNodeProfile where
  id : String
  region : String
  (memoryBytes reserveBytes decodeScale prefillScale codecScale batchGain maxBatchSpeedup : ℚ)
  powerWatts : ℚ
  availability : ℚ
  maxStageLayers : Option ℚ
  stageRoles : Option (List StageRole)

/-- A directed link.  Its bandwidth is positive, and infinite when there is none. -/
structure DirectedLinkProfile where
  fromId : String
  toId : String
  oneWayLatencyMs : ℚ
  jitterP95Ms : ℚ
  bandwidthMbps : Option ℚ
  lossRate : ℚ
  availability : Option ℚ
  bandwidthMbps_pos : ∀ b ∈ bandwidthMbps, 0 < b

theorem unlimited_pos : ∀ b ∈ (none : Option ℚ), 0 < b := nofun

structure DistributionTopology where
  nodes : List ComputeNodeProfile
  links : List DirectedLinkProfile

structure DistributionWorkload where
  (promptTokens outputTokens contextTokens concurrentSequences maxStages maxQualityLoss : ℚ)
  minRouteAvailability : ℚ
  batchWindowMs : ℚ
  p95 : Bool

structure StagePlacement where
  nodeId : String
  layerStart : Nat
  layerEnd : Nat
  deriving DecidableEq

structure Tuning where
  codec : ActivationCodecId
  microBatchSize : ℚ
  prefillChunkTokens : ℚ
  deriving DecidableEq

structure DistributionPlan extends Tuning where
  algorithm : String
  stages : List StagePlacement
  deriving DecidableEq

inductive InfeasibleReason
  | mustBeAPositiveInteger (field : String)
  | batchWindowMs | activationQualityBudgetExceeded | invalidStageCount
  | layersAreNotCoveredExactlyOnce | nodeReusedInRoute
  | unknownNode (id : String)
  | engineStageRoleUnsupported (id : String)
  | engineLayerCapacityExceeded (id : String)
  | memoryExceeded (id : String)
  | missingLink (fromId toId : String)
  | missingReturnLink (fromId toId : String)
  | routeAvailabilityBelowMinimum

/-- The metrics of an infeasible plan, as far as they vary. -/
structure Infeasible where
  reason : InfeasibleReason
  qualityLoss : ℚ
  routeAvailability : ℚ := 0
  peakStageMemoryBytes : ℚ := 0

structure StageMetrics where
  nodeId : String
  layerStart : Nat
  layerEnd : Nat
  (memoryBytes memoryLimitBytes decodeBatchComputeMs decodeOutgoingMs prefillChunkComputeMs : ℚ)
  prefillOutgoingMs : ℚ

/-- The metrics of a feasible plan.  A rate is infinite when a token takes no time. -/
structure DistributionMetrics where
  stages : Nat
  ttftMs : ℚ
  tpotMs : ℚ
  tokensPerSecondPerSequence : Option ℚ
  aggregateTokensPerSecond : Option ℚ
  (responseTimeMs pipelineCycleMs pathDecodeMs tokenReturnMs routeAvailability : ℚ)
  (energyWhPerOutputToken peakStageMemoryBytes networkBytesPerOutputToken qualityLoss : ℚ)
  stageMetrics : List StageMetrics

structure ObjectiveWeights where
  (tpot ttft response energy unavailability : ℚ)

/-- `Number.isSafeInteger(x) && x >= 1`. -/
def PositiveInteger (x : ℚ) : Prop := x.den = 1 ∧ x ≤ 9007199254740991 ∧ 1 ≤ x

instance (x : ℚ) : Decidable (PositiveInteger x) := inferInstanceAs (Decidable (_ ∧ _))

def clampProbability (value : ℚ) : ℚ := max 0 (min 1 value)

/-- `Math.max(...values)`, of values that are there. -/
def peak : List ℚ → ℚ
  | [] => 0
  | x :: xs => xs.foldl max x

def usableMemory (node : ComputeNodeProfile) : ℚ := max 0 (node.memoryBytes - node.reserveBytes)

def exceedsStageLayerLimit (node : ComputeNodeProfile) (layerStart layerEnd : Nat) : Bool :=
  match node.maxStageLayers with
  | none => false
  | some limit => decide (limit < (layerEnd : ℚ) - layerStart)

def nodeSupportsStagePosition (node : ComputeNodeProfile) (first last : Bool) : Bool :=
  match node.stageRoles with
  | none => true
  | some roles =>
    if first && !roles.contains .head then false
    else if last && !roles.contains .tail then false
    else first || last || roles.contains .middle

def batchSpeedup (node : ComputeNodeProfile) (batchSize : ℚ) : ℚ :=
  max 1 (min node.maxBatchSpeedup (1 + node.batchGain * max 0 (batchSize - 1)))

def stageLayers (model : DistributedModelProfile) (layerStart layerEnd : Nat) : List LayerProfile :=
  (model.layers.drop layerStart).take (layerEnd - layerStart)

def sumLayers (model : DistributedModelProfile) (stage : StagePlacement)
    (value : LayerProfile → ℚ) : ℚ :=
  ((stageLayers model stage.layerStart stage.layerEnd).map value).sum

def activationElements (model : DistributedModelProfile) (stage : StagePlacement) : ℚ :=
  (model.layers[stage.layerEnd - 1]?).elim 0 (·.activationElements)

def endpointWeights (model : DistributedModelProfile) (first last : Bool) : ℚ :=
  if first && last && model.tiedEmbeddingAndHead then max model.embeddingBytes model.lmHeadBytes
  else (if first then model.embeddingBytes else 0) + (if last then model.lmHeadBytes else 0)

def stageMemoryBytes (model : DistributedModelProfile) (stage : StagePlacement)
    (workload : DistributionWorkload) (first last : Bool) : ℚ :=
  model.runtimeOverheadBytesPerStage + sumLayers model stage (·.weightBytes) +
    endpointWeights model first last + sumLayers model stage (·.kvBytesPerToken) *
    workload.contextTokens * workload.concurrentSequences

namespace DistributionTopology

/-- `nodeById.get(id)`: the last node of that id. -/
def nodeById (topology : DistributionTopology) (id : String) : Option ComputeNodeProfile :=
  topology.nodes.reverse.find? fun node => node.id = id

def directedLink (topology : DistributionTopology) (fromId toId : String) :
    Option DirectedLinkProfile :=
  if fromId = toId then
    some ⟨fromId, toId, 0, 0, none, 0, some 1, unlimited_pos⟩
  else topology.links.find? fun link => link.fromId = fromId ∧ link.toId = toId

end DistributionTopology

def rawTransferMs (bytes : ℚ) (link : DirectedLinkProfile) (p95 : Bool) : ℚ :=
  let serializationMs :=
    link.bandwidthMbps.elim 0 fun bandwidth => bytes / (bandwidth * 125000) * 1000
  let loss := min (9 / 10) (clampProbability link.lossRate)
  let retransmitFactor := 1 / max (1 / 10) (1 - loss)
  let expectedRecoveryMs :=
    if 0 < loss then loss / max (1 / 10) (1 - loss) * 2 * link.oneWayLatencyMs else 0
  link.oneWayLatencyMs + (if p95 then link.jitterP95Ms else 0) + serializationMs *
    retransmitFactor + expectedRecoveryMs

def tensorTransferMs (elements : ℚ) (codec : ActivationCodec) (link : DirectedLinkProfile)
    (sender receiver : ComputeNodeProfile) (p95 : Bool) : ℚ :=
  let rawBytes := elements * 2
  let encodeMs :=
    codec.fixedEncodeMs + rawBytes * 8 / (codec.encodeGbps * 1000000) * sender.codecScale
  let decodeMs :=
    codec.fixedDecodeMs + rawBytes * 8 / (codec.decodeGbps * 1000000) * receiver.codecScale
  encodeMs + rawTransferMs (elements * codec.bytesPerElement) link p95 + decodeMs

def coversFrom (layers : Nat) : Nat → List StagePlacement → Bool
  | nextLayer, [] => nextLayer = layers
  | nextLayer, stage :: stages =>
    stage.layerStart = nextLayer && stage.layerStart < stage.layerEnd && stage.layerEnd ≤ layers &&
      coversFrom layers stage.layerEnd stages

/-- Bounds are natural numbers here; a fractional or unsafe one is refused alike. -/
def validContiguousCoverage (model : DistributedModelProfile) (stages : List StagePlacement) :
    Bool :=
  coversFrom model.layers.length 0 stages

section Evaluate

structure StageCost where
  (memoryBytes decodeCompute decodeOutgoing prefillCompute prefillOutgoing : ℚ)

structure Route where
  costs : List StageCost := []
  routeAvailability : ℚ := 1
  networkBytesPerOutputToken : ℚ := 0

/-- Decode and prefill times, the availability of the link, and the bytes for each token. -/
structure Outgoing where
  (decode prefill availability bytes : ℚ)

variable (model : DistributedModelProfile) (topology : DistributionTopology)
  (workload : DistributionWorkload) (tuning : Tuning)

def batchSize : ℚ := max 1 (min tuning.microBatchSize workload.concurrentSequences)

def prefillChunk : ℚ := max 1 (min tuning.prefillChunkTokens workload.promptTokens)

def infeasible (tuning : Tuning) (reason : InfeasibleReason) : Infeasible :=
  { reason, qualityLoss := (activationCodec tuning.codec).estimatedQualityLoss }

def outgoing (head : ComputeNodeProfile) (stage : StagePlacement) (node : ComputeNodeProfile) :
    Option ComputeNodeProfile → Except Infeasible Outgoing
  | some next =>
    match topology.directedLink node.id next.id with
    | none => throw (infeasible tuning (.missingLink node.id next.id))
    | some link =>
      let codec := activationCodec tuning.codec
      let elements := activationElements model stage
      .ok {
        decode := tensorTransferMs (elements * batchSize workload tuning) codec link node next
          workload.p95
        prefill := tensorTransferMs (elements * prefillChunk workload tuning) codec link node next
          workload.p95
        availability := clampProbability (link.availability.getD 1)
        bytes := elements * codec.bytesPerElement }
  | none =>
    if node.id = head.id then .ok ⟨0, 0, 1, 0⟩
    else
      match topology.directedLink node.id head.id with
      | none => throw (infeasible tuning (.missingReturnLink node.id head.id))
      | some link => .ok {
          decode := rawTransferMs (4 * batchSize workload tuning) link workload.p95
          prefill := 0
          availability := clampProbability (link.availability.getD 1)
          bytes := 4 }

def decodeCompute (stage : StagePlacement) (node : ComputeNodeProfile) (first last : Bool) : ℚ :=
  let size := batchSize workload tuning
  let endpointDecode :=
    (if first then model.embeddingDecodeMsAtUnit else 0) + (if last then model.lmHeadDecodeMsAtUnit
      else 0)
  (sumLayers model stage (·.decodeMsAtUnit) + endpointDecode) * node.decodeScale *
    size / batchSpeedup node size

def prefillCompute (stage : StagePlacement) (node : ComputeNodeProfile) (first last : Bool) : ℚ :=
  let endpointPrefill :=
    (if first then model.embeddingPrefillMsPerTokenAtUnit else 0) +
      (if last then model.lmHeadPrefillMsPerTokenAtUnit else 0)
  (sumLayers model stage (·.prefillMsPerTokenAtUnit) + endpointPrefill) * node.prefillScale *
    prefillChunk workload tuning

/-- One turn of the loop over the stages; the last one has no next node. -/
def evaluateStage (head : ComputeNodeProfile) (first : Bool) (route : Route)
    (stage : StagePlacement) (node : ComputeNodeProfile) (next : Option ComputeNodeProfile) :
    Except Infeasible Route :=
  let memoryBytes := stageMemoryBytes model stage workload first next.isNone
  if ¬nodeSupportsStagePosition node first next.isNone then
    throw (infeasible tuning (.engineStageRoleUnsupported node.id))
  else if exceedsStageLayerLimit node stage.layerStart stage.layerEnd then
    throw (infeasible tuning (.engineLayerCapacityExceeded node.id))
  else if usableMemory node < memoryBytes then
    throw { infeasible tuning (.memoryExceeded node.id) with
      peakStageMemoryBytes := peak (route.costs.map (·.memoryBytes) ++ [memoryBytes]) }
  else do
    let out ← outgoing model topology workload tuning head stage node next
    return {
      costs := route.costs ++ [{
        memoryBytes
        decodeCompute := decodeCompute model workload tuning stage node first next.isNone
        decodeOutgoing := out.decode
        prefillCompute := prefillCompute model workload tuning stage node first next.isNone
        prefillOutgoing := out.prefill }]
      routeAvailability := route.routeAvailability * clampProbability node.availability *
        out.availability
      networkBytesPerOutputToken := route.networkBytesPerOutputToken + out.bytes }

def evaluateStages (head : ComputeNodeProfile) (first : Bool) (route : Route) :
    List (StagePlacement × ComputeNodeProfile) → Except Infeasible Route
  | [] => .ok route
  | (stage, node) :: rest => do
    let route ← evaluateStage model topology workload tuning head first route stage node
      (rest.head?.map Prod.snd)
    evaluateStages head false route rest

def stageNodes (tuning : Tuning) : List StagePlacement → Except Infeasible (List ComputeNodeProfile)
  | [] => .ok []
  | stage :: stages =>
    match topology.nodeById stage.nodeId with
    | none => throw (infeasible tuning (.unknownNode stage.nodeId))
    | some node => (node :: ·) <$> stageNodes tuning stages

def ratio (a b : ℚ) : Option ℚ := if b = 0 then none else some (a / b)

variable (plan : DistributionPlan)

def metrics (nodes : List ComputeNodeProfile) (route : Route) : DistributionMetrics :=
  let size := batchSize workload plan.toTuning
  let chunk := prefillChunk workload plan.toTuning
  let decodeServices := route.costs.map fun cost => cost.decodeCompute + cost.decodeOutgoing
  let prefillServices := route.costs.map fun cost => cost.prefillCompute + cost.prefillOutgoing
  let pathDecodeMs := decodeServices.sum
  let pipelineCycleMs := peak decodeServices
  let batchesPerRound : ℚ := ⌈workload.concurrentSequences / size⌉
  let batchingDelay := if 1 < size then workload.batchWindowMs else 0
  let tpotMs := max pathDecodeMs (batchesPerRound * pipelineCycleMs) + batchingDelay
  let prefillChunks : ℚ := ⌈workload.promptTokens / chunk⌉
  let prefillPipelineMs := prefillServices.sum + max 0 (prefillChunks - 1) * peak prefillServices
  let tokenReturnMs := (route.costs.getLast?).elim 0 (·.decodeOutgoing)
  let firstTokenHeadMs := model.lmHeadDecodeMsAtUnit * (nodes.getLast?).elim 0 (·.decodeScale)
  let ttftMs := prefillPipelineMs + firstTokenHeadMs + tokenReturnMs + batchingDelay
  let energyPerBatchWh := ((nodes.zip route.costs).map fun (node, cost) =>
    node.powerWatts * (cost.decodeCompute + cost.decodeOutgoing * (15 / 100)) / 3600000).sum
  { stages := plan.stages.length
    ttftMs
    tpotMs
    tokensPerSecondPerSequence := ratio 1000 tpotMs
    aggregateTokensPerSecond := ratio (workload.concurrentSequences * 1000) tpotMs
    responseTimeMs := ttftMs + max 0 (workload.outputTokens - 1) * tpotMs
    pipelineCycleMs
    pathDecodeMs
    tokenReturnMs
    routeAvailability := route.routeAvailability
    energyWhPerOutputToken := energyPerBatchWh * batchesPerRound / workload.concurrentSequences
    peakStageMemoryBytes := peak (route.costs.map (·.memoryBytes))
    networkBytesPerOutputToken := route.networkBytesPerOutputToken
    qualityLoss := (activationCodec plan.codec).estimatedQualityLoss
    stageMetrics := (plan.stages.zip (nodes.zip route.costs)).map fun (stage, node, cost) =>
      { nodeId := stage.nodeId
        layerStart := stage.layerStart
        layerEnd := stage.layerEnd
        memoryBytes := cost.memoryBytes
        memoryLimitBytes := node.memoryBytes - node.reserveBytes
        decodeBatchComputeMs := cost.decodeCompute
        decodeOutgoingMs := cost.decodeOutgoing
        prefillChunkComputeMs := cost.prefillCompute
        prefillOutgoingMs := cost.prefillOutgoing } }

def counts : List (String × ℚ) := [
  ("concurrent_sequences", workload.concurrentSequences),
  ("prompt_tokens", workload.promptTokens),
  ("output_tokens", workload.outputTokens),
  ("context_tokens", workload.contextTokens),
  ("max_stages", workload.maxStages),
  ("micro_batch_size", plan.microBatchSize),
  ("prefill_chunk_tokens", plan.prefillChunkTokens)]

def checkPlan : Except Infeasible Unit :=
  match (counts workload plan).find? fun count => ¬PositiveInteger count.2 with
  | some count => throw (infeasible plan.toTuning (.mustBeAPositiveInteger count.1))
  | none =>
    if workload.batchWindowMs < 0 then throw (infeasible plan.toTuning .batchWindowMs)
    else if workload.maxQualityLoss < (activationCodec plan.codec).estimatedQualityLoss then
      throw (infeasible plan.toTuning .activationQualityBudgetExceeded)
    else if plan.stages.length < 1 ∨ workload.maxStages < plan.stages.length then
      throw (infeasible plan.toTuning .invalidStageCount)
    else if ¬validContiguousCoverage model plan.stages then
      throw (infeasible plan.toTuning .layersAreNotCoveredExactlyOnce)
    else if ¬(plan.stages.map (·.nodeId)).Nodup then
      throw (infeasible plan.toTuning .nodeReusedInRoute)
    else .ok ()

def evaluateRoute (nodes : List ComputeNodeProfile) : Except Infeasible Route :=
  match nodes with
  | [] => .ok {}
  | head :: _ =>
    evaluateStages model topology workload plan.toTuning head true {} (plan.stages.zip nodes)

def evaluateDistributionPlan : Except Infeasible DistributionMetrics := do
  checkPlan model workload plan
  let nodes ← stageNodes topology plan.toTuning plan.stages
  let route ← evaluateRoute model topology workload plan nodes
  if route.routeAvailability < workload.minRouteAvailability then
    throw { infeasible plan.toTuning .routeAvailabilityBelowMinimum with
      routeAvailability := route.routeAvailability
      peakStageMemoryBytes := peak (route.costs.map (·.memoryBytes)) }
  else return metrics model workload plan nodes route

def feasible : Bool := (evaluateDistributionPlan model topology workload plan).toBool

def objectiveOf (metrics : DistributionMetrics) (weights : ObjectiveWeights) : ℚ :=
  weights.tpot * metrics.tpotMs + weights.ttft * metrics.ttftMs + weights.response *
    metrics.responseTimeMs + weights.energy * metrics.energyWhPerOutputToken * 1000 +
    weights.unavailability * (1 - metrics.routeAvailability) * 1000

/-- The objective, infinite (`none`) when the plan is not feasible. -/
def distributionObjective (result : Except Infeasible DistributionMetrics)
    (weights : ObjectiveWeights) : Option ℚ :=
  match result with
  | .error _ => none
  | .ok metrics => some (objectiveOf metrics weights)

end Evaluate

end Mycellios.Planning
