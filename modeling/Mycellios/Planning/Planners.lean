import Mycellios.Planning.Placement

namespace Mycellios.Planning

open Data

variable (model : DistributedModelProfile) (topology : DistributionTopology)
  (workload : DistributionWorkload) (options : SearchOptions)

def greedyStages : List ComputeNodeProfile → List StagePlacement → Nat →
    Option (List StagePlacement)
  | [], _, _ => none
  | node :: rest, stages, layerStart =>
    let layerEnd := furthestLayerThatFits model workload node stages.isEmpty layerStart
    if layerEnd ≤ layerStart then greedyStages rest stages layerStart
    else
      let stages := stages ++ [⟨node.id, layerStart, layerEnd⟩]
      if layerEnd = model.layers.length then some stages else greedyStages rest stages layerEnd

def vramGreedyPlan : Option DistributionPlan :=
  let ordered := topology.nodes.insertionSort fun a b =>
    usableMemory b < usableMemory a ∨ usableMemory b = usableMemory a ∧
      a.decodeScale ≤ b.decodeScale
  ((greedyStages model workload (sliceTo workload.maxStages ordered) [] 0).bind
    (tunePlacement model topology workload options "vram-greedy")).map (·.plan)

def planByCount (algorithm : String)
    (place : List ComputeNodeProfile → Option (List StagePlacement)) : Option DistributionPlan :=
  let ordered := sortBy (nodeLatencyScore topology) topology.nodes
  let maxStages := ⌊min workload.maxStages (min ordered.length model.layers.length : Nat)⌋.toNat
  (bestOf model topology workload options ((List.range' 1 maxStages).filterMap fun count =>
    (place (ordered.take count)).bind
      (tunePlacement model topology workload options algorithm))).map (·.plan)

def proportionalComputePlan : Option DistributionPlan :=
  planByCount model topology workload options "compute-proportional"
    (proportionalPlacement model workload)

def orderedDynamicProgrammingPlan : Option DistributionPlan :=
  planByCount model topology workload options "ordered-dp"
    (orderedDpPlacement model topology workload)

section Beam

structure BeamState where
  stages : List StagePlacement
  usedNodes : List String
  nextLayer : Nat
  (routeAvailability heuristic lowerBound : ℚ)

def BeamState.key (state : BeamState) : String :=
  toString state.nextLayer ++ "|" ++ String.intercalate "," (state.usedNodes.insertionSort (· ≤ ·))
    ++ "|" ++ state.stages.getLast?.elim "" (·.nodeId)

variable (nodes : List ComputeNodeProfile)

def extend (state : BeamState) (node : ComputeNodeProfile) (layerEnd : Nat) : Option BeamState :=
  let stage : StagePlacement := ⟨node.id, state.nextLayer, layerEnd⟩
  let previous := state.stages.getLast?
  let availability := state.routeAvailability * node.availability *
    previous.elim 1 fun stage => 1 - (topology.directedLink stage.nodeId node.id).elim 1
    (·.lossRate)
  (linkCost model topology previous node.id workload.p95).bind fun link =>
    if availability ≤ 0 then none
    else
      let heuristic :=
        state.heuristic + stageHeuristicMs model stage node workload.promptTokens + link
      some {
        stages := state.stages ++ [stage]
        usedNodes := state.usedNodes ++ [node.id]
        nextLayer := layerEnd
        routeAvailability := availability
        heuristic
        lowerBound := heuristic + optimisticRemainingCompute model nodes layerEnd }

def expand (state : BeamState) : List BeamState :=
  (nodes.filter fun node => !state.usedNodes.contains node.id).flatMap fun node =>
    (stageEnds model workload node state.stages.isEmpty state.nextLayer).filterMap
      (extend model topology workload nodes state node)

def capacityFrom (nextLayer : Nat) (node : ComputeNodeProfile) : Nat :=
  ((List.range' nextLayer (model.layers.length - nextLayer)).map fun start =>
    ((boundsTo start model.layers.length).takeWhile
      (fitsMemory model workload node false start false)).length).foldl max 0

def canStillCoverRemainingLayers (usedNodes : List String) (nextLayer : Nat) (stagesLeft : ℚ) :
    Bool :=
  if model.layers.length ≤ nextLayer then true
  else if stagesLeft ≤ 0 then false
  else
    let capacities :=
      (nodes.filter fun node => !usedNodes.contains node.id).map
        (capacityFrom model workload nextLayer)
    decide (model.layers.length - nextLayer ≤
      (sliceTo stagesLeft (capacities.insertionSort fun a b => b ≤ a)).sum)

def deduplicateBeamStates (states : List BeamState) : List BeamState :=
  (states.foldl (fun (best : Dict String BeamState) state =>
    if (best.find? state.key).all fun existing =>
        decide (state.lowerBound < existing.lowerBound) then
      best.insert state.key state
    else best) .empty).values

def groupsBy {α κ : Type} [DecidableEq κ] (key : α → κ) (values : List α) : Dict κ (List α) :=
  values.foldl (fun groups value => groups.insert (key value) ((groups.find? (key value)).getD [] ++
    [value])) .empty

/-- The states have distinct keys, which stand for their identity. -/
def stratifiedBeamPrune (states : List BeamState) (beamWidth : ℚ) : List BeamState :=
  if states.length ≤ beamWidth then sortBy (·.lowerBound) states
  else
    let groups := (groupsBy (·.nextLayer) states).values.map (sortBy (·.lowerBound))
    let quota : ℚ := max 1 ⌊beamWidth / groups.length⌋
    let selected := groups.flatMap (sliceTo quota)
    let selected :=
      if selected.length < beamWidth then
        let remaining := states.filter fun state => !(selected.map (·.key)).contains state.key
        selected ++ sliceTo (beamWidth - selected.length) (sortBy (·.lowerBound) remaining)
      else selected
    sliceTo beamWidth (sortBy (·.lowerBound) selected)

def completing (generated : List BeamState) : List BeamState :=
  generated.filter fun state => state.nextLayer = model.layers.length

def continuing (generated : List BeamState) : List BeamState :=
  generated.filter fun state => state.nextLayer ≠ model.layers.length ∧
    canStillCoverRemainingLayers model workload nodes state.usedNodes state.nextLayer
      (workload.maxStages - state.stages.length)

def beamLevels : Nat → List BeamState → List BeamState → List BeamState
  | 0, _, completed => completed
  | levels + 1, frontier, completed =>
    let generated := frontier.flatMap (expand model topology workload nodes)
    let completed := completed ++ completing model generated
    let frontier :=
      stratifiedBeamPrune (deduplicateBeamStates (continuing model workload nodes generated))
        options.beamWidth
    if frontier.isEmpty then completed else beamLevels levels frontier completed

def beamNodes : List ComputeNodeProfile :=
  sortBy (nodeLatencyScore topology) (topology.nodes.filter fun node => 0 < node.availability)

def beamCompleted : List BeamState :=
  let nodes := beamNodes topology
  beamLevels model topology workload options nodes ⌈workload.maxStages⌉.toNat
    [⟨[], [], 0, 1, 0, optimisticRemainingCompute model nodes 0⟩] []

def topologyBeamPlan : Option DistributionPlan :=
  let states :=
    sliceTo (options.beamWidth * 2)
      (sortBy (·.heuristic) (beamCompleted model topology workload options))
  (bestOf model topology workload options (states.filterMap fun state =>
    tunePlacement model topology workload options "topology-beam" state.stages)).map fun best =>
      (refineEvaluatedPlan options best).plan

end Beam

section Fleet

structure FleetPlannerOptions where
  (candidateLimit cellLimit nodesPerCell : Nat)

def median (values : List ℚ) : ℚ :=
  let sorted := sortBy id values
  let middle := sorted.length / 2
  if sorted.length = 0 then 0
  else if sorted.length % 2 = 1 then sorted.getD middle 0
  else (sorted.getD (middle - 1) 0 + sorted.getD middle 0) / 2

def nodeMedians : Dict String ℚ :=
  let samples := (topology.links.filter fun link => 0 < link.oneWayLatencyMs).flatMap fun link =>
    [(link.fromId, link.oneWayLatencyMs), (link.toId, link.oneWayLatencyMs)]
  (groupsBy Prod.fst samples).entries.foldl (fun medians (id, samples) =>
    medians.insert id (median (samples.map Prod.snd))) .empty

/-- `evictFarNodes`, with the defaults for its options: who is evicted. -/
def farNodes : List String :=
  let medians := nodeMedians topology
  let fleetMedian := median medians.values
  let candidates := (sortBy (fun entry => -entry.2)
    (medians.entries.filter fun entry => fleetMedian * 3 < entry.2)).map Prod.fst
  if topology.nodes.length ≤ 2 ∨ medians.size < 3 ∨ fleetMedian ≤ 0 ∨
      (topology.nodes.length : Int) - candidates.length < 2 then []
  else candidates

def evictFarNodes : DistributionTopology :=
  let evicted := farNodes topology
  if evicted.isEmpty then topology else topology.restrict fun id => !evicted.contains id

/-- `Math.log2` is any function here. -/
def fleetCellScore (log2 : ℚ → ℚ) (nodes : List ComputeNodeProfile) : ℚ :=
  let sample := (sortBy id (nodes.map (nodeLatencyScore topology))).take 8
  sample.sum / max 1 sample.length - log2 (1 + (nodes.map usableMemory).sum / (1024 * 1024 * 1024))
    * (35 / 100)

def diverseNodeCandidates (nodes : List ComputeNodeProfile) (limit : Nat) :
    List ComputeNodeProfile :=
  if nodes.length ≤ limit then nodes
  else
    let orderings := [sortBy (·.decodeScale) nodes, sortBy (·.prefillScale) nodes,
      sortBy (fun node => -usableMemory node) nodes, sortBy (nodeLatencyScore topology) nodes]
    (List.range nodes.length).foldl (fun selected rank =>
      orderings.foldl (fun selected ordering =>
        match ordering[rank]? with
        | none => selected
        | some node =>
          if limit ≤ selected.length ∨ (selected.map (·.id)).contains node.id then selected
          else selected ++ [node]) selected) []

def topologySubset (nodes : List ComputeNodeProfile) : DistributionTopology where
  nodes
  links := topology.links.filter fun link =>
    (nodes.map (·.id)).contains link.fromId && (nodes.map (·.id)).contains link.toId

def deduplicateNodePools (pools : List (List ComputeNodeProfile)) :
    List (List ComputeNodeProfile) :=
  ((pools.filter (!·.isEmpty)).foldl (fun (unique : Dict String (List ComputeNodeProfile)) pool =>
    unique.insert (String.intercalate "\x00" ((pool.map (·.id)).insertionSort (· ≤ ·))) pool)
      .empty).values

variable (fleet : FleetPlannerOptions) (log2 : ℚ → ℚ)

def fleetPools : List (List ComputeNodeProfile) :=
  let cells :=
    (sortBy (fleetCellScore topology log2) (groupsBy (·.region) topology.nodes).values).take
      fleet.cellLimit
  let pools := cells.map fun nodes =>
    diverseNodeCandidates topology nodes (min fleet.nodesPerCell fleet.candidateLimit)
  let combined := diverseNodeCandidates topology pools.flatten fleet.candidateLimit
  deduplicateNodePools (if combined.isEmpty then pools else pools ++ [combined])

def DistributionPlan.named (plan : DistributionPlan) (algorithm : String) : DistributionPlan :=
  { plan with algorithm }

def planWithin : Option DistributionPlan :=
  if topology.nodes.length ≤ fleet.candidateLimit then
    (topologyBeamPlan model topology workload options).map (·.named "fleet-topology")
  else
    (bestOf model topology workload options ((fleetPools topology fleet log2).filterMap fun nodes =>
      (topologyBeamPlan model (topologySubset topology nodes) workload options).bind
        (evaluatePlan model topology workload))).map (·.plan.named "fleet-topology")

def fleetTopologyPlan : Option DistributionPlan :=
  match planWithin model (evictFarNodes topology) workload options fleet log2 with
  | some plan => some plan
  | none =>
    if (farNodes topology).isEmpty then none
      else planWithin model topology workload options fleet log2

end Fleet

/-- The placements tuned so far are `visited`, as many as `evaluations`. -/
abbrev Visited := List (List StagePlacement)

def visitNode (go : Visited → List StagePlacement → List String → Nat → Visited)
    (stages : List StagePlacement) (used : List String) (nextLayer : Nat) (visited : Visited)
    (node : ComputeNodeProfile) : Visited :=
  if used.contains node.id then visited
  else
    (stageEnds model workload node stages.isEmpty nextLayer).foldl (fun visited layerEnd =>
      go visited (stages ++ [⟨node.id, nextLayer, layerEnd⟩]) (used ++ [node.id]) layerEnd) visited

/-- A stage takes a layer, so the number of layers is enough fuel. -/
def visit (maxPlacements : ℚ) (fuel : Nat) (visited : Visited) (stages : List StagePlacement)
    (used : List String) (nextLayer : Nat) : Visited :=
  if maxPlacements ≤ visited.length then visited
  else if nextLayer = model.layers.length then visited ++ [stages]
  else if workload.maxStages ≤ stages.length then visited
  else
    match fuel with
    | 0 => visited
    | fuel + 1 =>
      topology.nodes.foldl (visitNode model workload (visit maxPlacements fuel) stages used
        nextLayer) visited

def visitedPlacements (maxPlacements : ℚ) : Visited :=
  visit model topology workload maxPlacements model.layers.length [] [] [] 0

def exhaustiveTopologyPlan (maxPlacements : ℚ) : Option DistributionPlan :=
  (bestOf model topology workload options
    ((visitedPlacements model topology workload maxPlacements).filterMap
      (tunePlacement model topology workload options "exhaustive-optimal"))).map (·.plan)

end Mycellios.Planning
