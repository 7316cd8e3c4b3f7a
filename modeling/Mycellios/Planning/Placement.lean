import Mycellios.Planning.Feasible
import Mycellios.Data.Dict

namespace Mycellios.Planning

open Data

section Lists

def sliceTo {α : Type} (n : ℚ) (values : List α) : List α :=
  if 0 ≤ n then values.take ⌊n⌋.toNat else values.take (values.length - (-⌈n⌉).toNat)

variable {α : Type}

def sortBy {α : Type} (key : α → ℚ) (values : List α) : List α :=
  values.insertionSort fun a b => key a ≤ key b

def boundsTo (start limit : Nat) : List Nat := List.range' (start + 1) (limit - start)

theorem mem_boundsTo : e ∈ boundsTo start limit ↔ start < e ∧ e ≤ limit := by
  rw [boundsTo, List.mem_range'_1]
  omega

end Lists

section Heuristics

variable (model : DistributedModelProfile) (topology : DistributionTopology)

def stageHeuristicMs (stage : StagePlacement) (node : ComputeNodeProfile) (promptTokens : ℚ) : ℚ :=
  sumLayers model stage (·.decodeMsAtUnit) * node.decodeScale +
    sumLayers model stage (·.prefillMsPerTokenAtUnit) * node.prefillScale * promptTokens * (5 / 100)

/-- Infinite (`none`) without a link. -/
def boundaryHeuristicMs (previous : StagePlacement) (nextNodeId : String) (p95 : Bool) : Option ℚ :=
  (topology.directedLink previous.nodeId nextNodeId).map fun link =>
    rawTransferMs (activationElements model previous * 2) link p95

def linkCost (previous : Option StagePlacement) (nextNodeId : String) (p95 : Bool) : Option ℚ :=
  match previous with
  | none => some 0
  | some stage => boundaryHeuristicMs model topology stage nextNodeId p95

/-- Without nodes the minimum is infinite, but then nothing is compared with it. -/
def optimisticRemainingCompute (nodes : List ComputeNodeProfile) (fromLayer : Nat) : ℚ :=
  let fastest := ((nodes.map (·.decodeScale)).min?).getD 0
  ((model.layers.drop fromLayer).map fun layer => layer.decodeMsAtUnit * fastest).sum

def unmeasuredRttMs : ℚ := 65

def nodeLatencyScore (node : ComputeNodeProfile) : ℚ :=
  let outgoing := topology.links.filter fun link => link.fromId = node.id
  let meanLink :=
    if 0 < outgoing.length then
      (outgoing.map fun link =>
        link.oneWayLatencyMs + link.jitterP95Ms + link.bandwidthMbps.elim 0 (10 / ·)).sum /
          outgoing.length
    else unmeasuredRttMs
  node.decodeScale + node.prefillScale * (25 / 100) + meanLink * (8 / 100)

end Heuristics

section Ends

variable (model : DistributedModelProfile) (workload : DistributionWorkload)
  (node : ComputeNodeProfile) (first : Bool) (start : Nat)

/-- The loop over the end of a stage: it stops at a layer limit or at the memory, and passes over an
end whose position the node does not support. -/
def stageEndsAmong : List Nat → List Nat
  | [] => []
  | layerEnd :: ends =>
    let last := layerEnd == model.layers.length
    if exceedsStageLayerLimit node start layerEnd then []
    else if !nodeSupportsStagePosition node first last then stageEndsAmong ends
    else if usableMemory node < stageMemoryBytes model ⟨node.id, start, layerEnd⟩ workload first
      last then []
    else layerEnd :: stageEndsAmong ends

def stageEnds : List Nat :=
  stageEndsAmong model workload node first start (boundsTo start model.layers.length)

def furthestLayerThatFits : Nat := (stageEnds model workload node first start).getLastD start

def fitsMemory (last : Bool) (layerEnd : Nat) : Bool :=
  decide (stageMemoryBytes model ⟨node.id, start, layerEnd⟩ workload first last ≤ usableMemory node)

def maximumLayerCount (last : Bool) : Nat :=
  ((boundsTo start model.layers.length).takeWhile fun layerEnd =>
    !exceedsStageLayerLimit node start layerEnd &&
      fitsMemory model workload node first start last layerEnd).length

end Ends

section Proportional

variable (model : DistributedModelProfile) (workload : DistributionWorkload)
  (nodes : List ComputeNodeProfile)

def capacityOf (counts : List Nat) (index shift : Nat) : Nat :=
  (nodes[index]?).elim 0 fun node =>
    maximumLayerCount model workload node (index == 0) ((counts.take index).sum + shift)
      (index + 1 == nodes.length)

def laterNodesStayUsable (counts : List Nat) (index : Nat) : Bool :=
  (List.range' (index + 1) (nodes.length - (index + 1))).all fun later =>
    decide (counts.getD later 0 ≤ capacityOf model workload nodes counts later 1)

structure Choice where
  index : Nat
  keepsLaterNodesUsable : Bool
  deficit : ℚ

def chooseNode (counts : List Nat) : Option Choice :=
  let speeds := nodes.map fun node => 1 / max (1 / 100) node.decodeScale
  (List.range nodes.length).foldl (fun chosen index =>
    if capacityOf model workload nodes counts index 0 ≤ counts.getD index 0 then chosen
    else
      let keeps := laterNodesStayUsable model workload nodes counts index
      let target := (model.layers.length : ℚ) * speeds.getD index 0 / speeds.sum
      let deficit := target - (counts.getD index 0 : Nat)
      match chosen with
      | none => some ⟨index, keeps, deficit⟩
      | some best =>
        if (keeps && !best.keepsLaterNodesUsable) ||
            (keeps == best.keepsLaterNodesUsable && decide (best.deficit < deficit)) then
          some ⟨index, keeps, deficit⟩
        else some best) none

def distributeLayers : Nat → List Nat → Option (List Nat)
  | 0, counts => some counts
  | remaining + 1, counts =>
    (chooseNode model workload nodes counts).bind fun chosen =>
      distributeLayers remaining (counts.set chosen.index (counts.getD chosen.index 0 + 1))

def stagesOfCounts : Nat → List (ComputeNodeProfile × Nat) → List StagePlacement
  | _, [] => []
  | start, (node, count) :: rest =>
    ⟨node.id, start, start + count⟩ :: stagesOfCounts (start + count) rest

def proportionalPlacement : Option (List StagePlacement) :=
  if model.layers.length < nodes.length then none
  else
    (distributeLayers model workload nodes (model.layers.length - nodes.length)
      (nodes.map fun _ => 1)).bind fun counts =>
        if (List.range nodes.length).any fun index =>
            capacityOf model workload nodes counts index 0 < counts.getD index 0 then none
        else some (stagesOfCounts 0 (nodes.zip counts))

end Proportional

section OrderedDp

structure Cell where
  cost : ℚ
  stages : List StagePlacement

variable (model : DistributedModelProfile) (topology : DistributionTopology)
  (workload : DistributionWorkload)

def dpSweep (node : ComputeNodeProfile) (first last : Bool) (start : Nat) (cell : Cell) :
    List Nat → Dict Nat Cell → Dict Nat Cell
  | [], nextCells => nextCells
  | layerEnd :: ends, nextCells =>
    let stage : StagePlacement := ⟨node.id, start, layerEnd⟩
    if last && layerEnd != model.layers.length then
      dpSweep node first last start cell ends nextCells
    else if exceedsStageLayerLimit node start layerEnd then nextCells
    else if usableMemory node < stageMemoryBytes model stage workload first last then nextCells
    else
      match linkCost model topology cell.stages.getLast? node.id workload.p95 with
      | none => dpSweep node first last start cell ends nextCells
      | some link =>
        let cost := cell.cost + stageHeuristicMs model stage node workload.promptTokens + link
        dpSweep node first last start cell ends
          (if (nextCells.find? layerEnd).all fun existing => decide (cost < existing.cost) then
            nextCells.insert layerEnd ⟨cost, cell.stages ++ [stage]⟩
          else nextCells)

def dpStages : Bool → List ComputeNodeProfile → Dict Nat Cell → Option (Dict Nat Cell)
  | _, [], cells => some cells
  | first, node :: rest, cells =>
    let nextCells := cells.entries.foldl (fun nextCells (start, cell) =>
      dpSweep model topology workload node first rest.isEmpty start cell
        (boundsTo start (model.layers.length - rest.length)) nextCells) .empty
    if nextCells.size = 0 then none else dpStages false rest nextCells

def orderedDpPlacement (nodes : List ComputeNodeProfile) : Option (List StagePlacement) :=
  (dpStages model topology workload true nodes (Dict.empty.insert 0 ⟨0, []⟩)).bind fun cells =>
    (cells.find? model.layers.length).map (·.stages)

end OrderedDp

section Tune

structure SearchOptions where
  beamWidth : ℚ
  candidateCodecs : List ActivationCodecId
  candidateMicroBatchSizes : List ℚ
  candidatePrefillChunks : List ℚ
  objectiveWeights : ObjectiveWeights

structure EvaluatedDistributionPlan (model : DistributedModelProfile)
    (topology : DistributionTopology) (workload : DistributionWorkload) where
  plan : DistributionPlan
  metrics : DistributionMetrics
  evaluated : evaluateDistributionPlan model topology workload plan = .ok metrics

variable (model : DistributedModelProfile) (topology : DistributionTopology)
  (workload : DistributionWorkload) (options : SearchOptions)

variable {model topology workload} in
def EvaluatedDistributionPlan.objective (weights : ObjectiveWeights)
    (tuned : EvaluatedDistributionPlan model topology workload) :
    ℚ := objectiveOf tuned.metrics weights

def evaluatePlan (plan : DistributionPlan) :
    Option (EvaluatedDistributionPlan model topology workload) :=
  match evaluated : evaluateDistributionPlan model topology workload plan with
  | .ok metrics => some ⟨plan, metrics, evaluated⟩
  | .error _ => none

def candidatePlans (algorithm : String) (stages : List StagePlacement) : List DistributionPlan :=
  options.candidateCodecs.flatMap fun codec =>
    (options.candidateMicroBatchSizes.filter (· ≤ workload.concurrentSequences)).flatMap
        fun microBatchSize =>
      options.candidatePrefillChunks.map fun prefillChunkTokens =>
        ⟨⟨codec, microBatchSize, prefillChunkTokens⟩, algorithm, stages⟩

/-- The first of the best: `if (!best || tuned.objective < best.objective) best = tuned`. -/
def bestOf (tuned : List (EvaluatedDistributionPlan model topology workload)) :
    Option (EvaluatedDistributionPlan model topology workload) :=
  tuned.argmin (·.objective options.objectiveWeights)

def tunePlacement (algorithm : String) (stages : List StagePlacement) :
    Option (EvaluatedDistributionPlan model topology workload) :=
  bestOf model topology workload options
    ((candidatePlans workload options algorithm stages).filterMap
      (evaluatePlan model topology workload))

end Tune

section Refine

variable {model : DistributedModelProfile} {topology : DistributionTopology}
  {workload : DistributionWorkload} (options : SearchOptions)

def indexPairs (count : Nat) : List (Nat × Nat) :=
  (List.range count).flatMap fun left => (List.range' (left + 1) (count - (left + 1))).map (left, ·)

def swapAt (ids : List String) (left right : Nat) : List String :=
  (ids.set left (ids.getD right "")).set right (ids.getD left "")

def withNodeIds (stages : List StagePlacement) (ids : List String) : List StagePlacement :=
  (stages.zip ids).map fun (stage, id) => { stage with nodeId := id }

/-- The loop of `binomial`; every intermediate result is a whole number. -/
def binomialFrom (base result : Nat) : List Nat → Nat
  | [] => result
  | index :: rest =>
    let next := result * (base + index) / index
    if 5000 < next then next else binomialFrom base next rest

def binomial (n k : Nat) : Nat :=
  if n < k then 0
  else
    let reduced := min k (n - k)
    binomialFrom (n - reduced) 1 (List.range' 1 reduced)

variable (model workload) in
/-- Every split of the layers over nodes in a given order that fits their memory. -/
def boundaryPlacements : Bool → List ComputeNodeProfile → List StagePlacement → Nat →
    List (List StagePlacement)
  | _, [], _, _ => []
  | first, [node], stages, nextLayer =>
    let stage : StagePlacement := ⟨node.id, nextLayer, model.layers.length⟩
    if usableMemory node < stageMemoryBytes model stage workload first true then []
      else [stages ++ [stage]]
  | first, node :: next :: rest, stages, nextLayer =>
    ((boundsTo nextLayer (model.layers.length - (rest.length + 1))).takeWhile
      (fitsMemory model workload node first nextLayer false)).flatMap fun layerEnd =>
        boundaryPlacements false (next :: rest) (stages ++ [⟨node.id, nextLayer, layerEnd⟩])
          layerEnd

def exhaustiveLocalBoundaryRefinement
    (initial : EvaluatedDistributionPlan model topology workload) :
    EvaluatedDistributionPlan model topology workload :=
  let order := initial.plan.stages.map (·.nodeId)
  let orders := order :: (indexPairs order.length).map fun (left, right) => swapAt order left right
  if 5000 < binomial (model.layers.length - 1) (order.length - 1) * orders.length then initial
  else
    let placements := orders.flatMap fun order =>
      match order.mapM topology.nodeById with
      | none => []
      | some nodes => boundaryPlacements model workload true nodes [] 0
    (placements.filterMap (tunePlacement model topology workload options
      initial.plan.algorithm)).foldl (fun best tuned =>
        if tuned.objective options.objectiveWeights < best.objective options.objectiveWeights then
          tuned else best)
      initial

def shiftBoundary (stages : List StagePlacement) (boundary : Nat) (delta : Int) :
    Option (List StagePlacement) :=
  match stages[boundary]?, stages[boundary + 1]? with
  | some left, some right =>
    let split : Int := left.layerEnd + delta
    if split ≤ left.layerStart ∨ right.layerEnd ≤ split then none
    else some ((stages.set boundary { left with layerEnd := split.toNat }).set (boundary + 1)
      { right with layerStart := split.toNat })
  | _, _ => none

def placementNeighbors (stages : List StagePlacement) (nodes : List ComputeNodeProfile) :
    List (List StagePlacement) :=
  let ids := stages.map (·.nodeId)
  ((List.range (stages.length - 1)).flatMap fun boundary =>
    [-2, -1, 1, 2].filterMap (shiftBoundary stages boundary)) ++
  ((indexPairs stages.length).map fun (left, right) => withNodeIds stages (swapAt ids left right))
    ++
  ((List.range stages.length).flatMap fun index =>
    (nodes.filter fun node => !ids.contains node.id).map fun node =>
      withNodeIds stages (ids.set index node.id))

/-- The neighbours, and for each order of nodes its split by the dynamic program. -/
def neighborsWithRebalanced (best : EvaluatedDistributionPlan model topology workload) :
    List (List StagePlacement) :=
  let neighbors := placementNeighbors best.plan.stages topology.nodes
  neighbors ++ neighbors.filterMap fun neighbor =>
    (neighbor.mapM fun stage => topology.nodeById stage.nodeId).bind
      (orderedDpPlacement model topology workload)

def refineIterations : Nat → EvaluatedDistributionPlan model topology workload →
    EvaluatedDistributionPlan model topology workload
  | 0, best => best
  | iterations + 1, best =>
    let objective (tuned : EvaluatedDistributionPlan model topology workload) :=
      tuned.objective options.objectiveWeights
    let tuned := (neighborsWithRebalanced best).filterMap
      (tunePlacement model topology workload options best.plan.algorithm)
    let improved := tuned.foldl (fun improved tuned =>
      if objective tuned + 1 / 1000000000 < objective improved then tuned else improved) best
    if objective best ≤ objective improved + 1 / 1000000000 then best
      else refineIterations iterations improved

def refineEvaluatedPlan (initial : EvaluatedDistributionPlan model topology workload) :
    EvaluatedDistributionPlan model topology workload :=
  refineIterations options 4 (exhaustiveLocalBoundaryRefinement options initial)

end Refine

end Mycellios.Planning
