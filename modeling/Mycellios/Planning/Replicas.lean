import Mycellios.Data.JavaScript
import Mycellios.Planning.Exhaustive

namespace Mycellios.Planning

open Data Logic

inductive EngineRole
  | head | middle | tail | draft | auxiliary
  deriving DecidableEq

def EngineRole.stageRole : EngineRole → Option StageRole
  | .head => some .head
  | .middle => some .middle
  | .tail => some .tail
  | _ => none

def EngineRole.isPipelineRole (role : EngineRole) : Bool := role.stageRole.isSome

structure NativeEngineNodeCapability where
  (profileId descriptorDigest certificationId artifactManifestDigest backend runtimeAbi : String)
  quantizations : List String
  (maxContextTokens maxLayerCount kvBytesPerToken maxKvTokens decodeScale prefillScale : ℚ)
  fastKernel : Bool
  graphAvailable : Bool
  roles : List EngineRole
  validUntilMs : ℚ

structure NativeFleetNodeState where
  (nodeId physicalHostId failureDomainId : String)
  (queuedRequests activeRequests capacity freeSlots : ℚ)
  observedP95ServiceMs : Option ℚ
  kvSessionIds : List String
  engineCapability : Option NativeEngineNodeCapability

structure NativeEngineRouteRequirement where
  (descriptorDigest certificationId artifactManifestDigest backend runtimeAbi quantization : String)
  contextTokens : ℚ
  requiredRoles : List EngineRole
  requireFastKernel : Bool
  requireGraph : Bool
  nowMs : ℚ

structure NativeRouteRequest where
  interactive : Bool
  sessionId : Option String
  kvMissPenaltyMs : ℚ
  engine : Option NativeEngineRouteRequirement

structure NativeRouteScore where
  (total computeMs queueMs p95Ms kvPenaltyMs physicalBoundaryMs : ℚ)
  physicalBoundaryCount : Nat
  failureRisk : ℚ

structure NativePlacementCandidate where
  plan : DistributionPlan
  metrics : DistributionMetrics
  score : NativeRouteScore

structure NativeCompleteChain extends NativePlacementCandidate where
  chainId : String
  nodeIds : List String
  failureDomainIds : List String

/-- The order of `localeCompare`, `Math.log2` and the digest of a chain. -/
structure Host where
  localeLe : String → String → Bool
  log2 : ℚ → ℚ
  chainDigest : DistributionPlan → List String → String

def engineCapabilityIsValid : Option NativeEngineNodeCapability → Bool
  | none => true
  | some c =>
    isSha256 c.profileId && isSha256 c.descriptorDigest && isSha256 c.certificationId &&
      isSha256 c.artifactManifestDigest && !c.backend.isEmpty && !c.runtimeAbi.isEmpty &&
      !c.quantizations.isEmpty &&
      decide (c.quantizations.Nodup ∧ PositiveInteger c.maxContextTokens ∧
        PositiveInteger c.maxLayerCount ∧ PositiveInteger c.kvBytesPerToken ∧
        PositiveInteger c.maxKvTokens ∧ c.maxContextTokens ≤ c.maxKvTokens ∧ 0 < c.decodeScale ∧
        0 < c.prefillScale ∧ PositiveInteger c.validUntilMs ∧ c.roles.Nodup)

def stateIsValid (state : NativeFleetNodeState) : Bool :=
  !state.nodeId.isEmpty && !state.physicalHostId.isEmpty && !state.failureDomainId.isEmpty &&
    decide (state.queuedRequests.den = 1 ∧ 0 ≤ state.queuedRequests ∧ state.activeRequests.den = 1 ∧
      0 ≤ state.activeRequests ∧ state.capacity.den = 1 ∧ 1 ≤ state.capacity ∧
      state.freeSlots.den = 1 ∧ 0 ≤ state.freeSlots ∧ state.freeSlots ≤ state.capacity) &&
    engineCapabilityIsValid state.engineCapability

def collectStates : List NativeFleetNodeState → Dict String NativeFleetNodeState →
    Except String (Dict String NativeFleetNodeState)
  | [], result => .ok result
  | state :: states, result =>
    if ¬stateIsValid state then throw ("native_node_state_is_invalid:" ++ state.nodeId)
    else if result.contains state.nodeId then
      throw ("native_node_state_is_duplicate:" ++ state.nodeId)
    else collectStates states (result.insert state.nodeId
      { state with kvSessionIds := state.kvSessionIds.dedup.insertionSort (· ≤ ·) })

def validateNodeStates (topology : DistributionTopology) (nodeStates : List NativeFleetNodeState) :
    Except String (Dict String NativeFleetNodeState) := do
  let result ← collectStates nodeStates .empty
  match topology.nodes.find? fun node => !result.contains node.id with
  | some node => throw ("native_node_state_is_missing:" ++ node.id)
  | none => return result

def engineNodeIsEligible (state : NativeFleetNodeState) : Option NativeEngineRouteRequirement → Bool
  | none => true
  | some r =>
    state.engineCapability.any fun c =>
      decide (r.nowMs < c.validUntilMs ∧ c.descriptorDigest = r.descriptorDigest ∧
        c.certificationId = r.certificationId ∧
        c.artifactManifestDigest = r.artifactManifestDigest ∧ c.backend = r.backend ∧
        c.runtimeAbi = r.runtimeAbi ∧ r.quantization ∈ c.quantizations ∧
        r.contextTokens ≤ c.maxContextTokens ∧ r.contextTokens ≤ c.maxKvTokens ∧
        0 < c.maxLayerCount) &&
      (!r.requireFastKernel || c.fastKernel) && (!r.requireGraph || c.graphAvailable) &&
      (r.requiredRoles.filter (·.isPipelineRole)).any c.roles.contains &&
      (r.requiredRoles.filter (!·.isPipelineRole)).all c.roles.contains

def congestionAdjustedNode (stateByNode : Dict String NativeFleetNodeState)
    (engine : Option NativeEngineRouteRequirement) (node : ComputeNodeProfile) :
    ComputeNodeProfile :=
  match stateByNode.find? node.id with
  | none => node
  | some state =>
    let congestion :=
      1 + state.activeRequests / max 1 state.capacity + state.queuedRequests / max 1
        state.capacity * 2
    match engine, state.engineCapability with
    | some _, some c => { node with
        maxStageLayers := some c.maxLayerCount
        stageRoles := some (c.roles.filterMap (·.stageRole))
        decodeScale := c.decodeScale * congestion
        prefillScale := c.prefillScale * congestion }
    | _, _ => { node with
        decodeScale := node.decodeScale * congestion
        prefillScale := node.prefillScale * congestion }

def adjustedTopology (topology : DistributionTopology)
    (stateByNode : Dict String NativeFleetNodeState)
    (engine : Option NativeEngineRouteRequirement) : DistributionTopology where
  nodes := topology.nodes.map (congestionAdjustedNode stateByNode engine)
  links := topology.links

section Candidates

variable (host : Host) (model : DistributedModelProfile) (topology : DistributionTopology)
  (workload : DistributionWorkload) (stateByNode : Dict String NativeFleetNodeState)
  (request : NativeRouteRequest) (options : SearchOptions)

def physicalBoundaryCost : List (String × String) → Option (Nat × ℚ)
  | [] => some (0, 0)
  | (a, b) :: rest =>
    match stateByNode.find? a, stateByNode.find? b with
    | some x, some y =>
      if x.physicalHostId = y.physicalHostId then physicalBoundaryCost rest
      else
        (topology.links.find? fun link => link.fromId = a ∧ link.toId = b).bind fun link =>
          (physicalBoundaryCost rest).map fun (count, ms) =>
            (count + 1, link.oneWayLatencyMs + link.jitterP95Ms + ms)
    | _, _ => none

/-- `scoreNativeRoute` of a feasible plan; without a score it is infinite. -/
def scoreNativeRoute (plan : DistributionPlan) (metrics : DistributionMetrics) :
    Except String (Option NativeRouteScore) :=
  let ids := plan.stages.map (·.nodeId)
  match ids.mapM fun id => (stateByNode.find? id).bind fun state =>
      (state.observedP95ServiceMs.filter (0 < ·)).bind fun service =>
        if state.freeSlots < 1 then none else some (state, service) with
  | none => .ok none
  | some states =>
    let hit :=
      request.sessionId.any fun id => states.all fun (state, _) => state.kvSessionIds.contains id
    if ¬hit ∧ request.kvMissPenaltyMs < 0 then throw "native_route_penalty_is_invalid"
    else
      .ok ((physicalBoundaryCost topology stateByNode (if ids.length ≤ 1 then []
        else ids.zip (ids.rotate 1))).map fun (count, ms) =>
          let queueCosts :=
            states.map fun (state, service) => state.queuedRequests * service / max 1 state.capacity
          let gather (costs : List ℚ) := if request.interactive then costs.sum else peak costs
          let computeMs :=
            if request.interactive then metrics.pathDecodeMs else metrics.pipelineCycleMs
          let p95Ms := gather (states.map Prod.snd)
          let kvPenaltyMs := if hit then 0 else request.kvMissPenaltyMs
          let failureRisk :=
              (ids.map fun id => (topology.nodes.find? (·.id = id)).elim 1 fun node =>
            1 - clampProbability node.availability).sum
          ⟨computeMs + gather queueCosts + p95Ms + kvPenaltyMs + ms + failureRisk * 1000, computeMs,
            gather queueCosts, p95Ms, kvPenaltyMs, ms, count, failureRisk⟩)

def nativePlanIdentity (plan : DistributionPlan) : String :=
  "|".intercalate (plan.stages.map fun stage =>
    stage.nodeId ++ ":" ++ toString stage.layerStart ++ "-" ++ toString stage.layerEnd)

def nodeSets : List (List String) :=
  let ids := topology.nodes.map (·.id)
  ids :: ids.map ([·]) ++ (groupsBy (fun id => (stateByNode.find? id).map (·.physicalHostId))
    ids).values

def searchScope (candidates : Dict String NativePlacementCandidate) (ids : List String) :
    Except String (Dict String NativePlacementCandidate) :=
  let scope := topology.restrict ids.contains
  let plan := if 64 < scope.nodes.length then
      fleetTopologyPlan model scope workload options ⟨64, 4, 16⟩ host.log2
    else topologyBeamPlan model scope workload options
  match plan with
  | none => .ok candidates
  | some plan =>
    if candidates.contains (nativePlanIdentity plan) then .ok candidates
    else
      match evaluateDistributionPlan model topology workload plan with
      | .error _ => .ok candidates
      | .ok metrics => do
        match ← scoreNativeRoute topology stateByNode request plan metrics with
        | none => return candidates
        | some score => return candidates.insert (nativePlanIdentity plan) ⟨plan, metrics, score⟩

def nativePlacementCandidates : Except String (List NativePlacementCandidate) := do
  let candidates ← (nodeSets topology stateByNode).foldlM
    (searchScope host model topology workload stateByNode request options) .empty
  return candidates.values.insertionSort fun a b => a.score.total < b.score.total ∨
    a.score.total = b.score.total ∧
    (a.plan.stages.length < b.plan.stages.length ∨ a.plan.stages.length = b.plan.stages.length ∧
      host.localeLe (nativePlanIdentity a.plan) (nativePlanIdentity b.plan))

def domainsOf (ids : List String) : List String :=
  (ids.filterMap fun id => (stateByNode.find? id).map (·.failureDomainId)).dedup.insertionSort
    (· ≤ ·)

def usable (excludedNodes excludedFailureDomains : List String) (id : String) : Bool :=
  (stateByNode.find? id).any fun state =>
    0 < state.freeSlots && engineNodeIsEligible state request.engine &&
      !excludedNodes.contains id && !excludedFailureDomains.contains state.failureDomainId

def replicaRounds : Nat → List String → List String → Except String (List NativeCompleteChain)
  | 0, _, _ => .ok []
  | replicas + 1, excludedNodes, excludedFailureDomains => do
    let ids := (topology.nodes.map (·.id)).filter
      (usable stateByNode request excludedNodes excludedFailureDomains)
    let candidates ← nativePlacementCandidates host model
      ((adjustedTopology topology stateByNode request.engine).restrict ids.contains) workload
      stateByNode request options
    match candidates.head? with
    | none => return []
    | some selected =>
      let nodeIds := selected.plan.stages.map (·.nodeId)
      let domains := domainsOf stateByNode nodeIds
      let chain := { selected with
        plan := selected.plan.named "native-two-phase"
        chainId := host.chainDigest selected.plan domains
        nodeIds
        failureDomainIds := domains }
      let rest ← replicaRounds replicas (excludedNodes ++ nodeIds)
        (excludedFailureDomains ++ domains)
      return chain :: rest

def planNativeReplicaChains (nodeStates : List NativeFleetNodeState) (desiredReplicas : ℚ) :
    Except String (List NativeCompleteChain) := do
  if ¬(PositiveInteger desiredReplicas ∧ desiredReplicas ≤ 64) then
    throw "native_replica_count_is_invalid"
  else
    let stateByNode ← validateNodeStates topology nodeStates
    replicaRounds host model topology workload stateByNode request options ⌊desiredReplicas⌋.toNat
      [] []

end Candidates

section Chains

variable {host : Host} {model : DistributedModelProfile} {topology : DistributionTopology}
  {workload : DistributionWorkload} {stateByNode : Dict String NativeFleetNodeState}
  {request : NativeRouteRequest} {options : SearchOptions}

theorem searchScope_evaluated {before after : Dict String NativePlacementCandidate}
    (h : searchScope host model topology workload stateByNode request options before ids =
      .ok after)
    (all : ∀ c ∈ before.values, evaluateDistributionPlan model topology workload c.plan =
      .ok c.metrics) :
    ∀ c ∈ after.values, evaluateDistributionPlan model topology workload c.plan =
    .ok c.metrics := by
  simp only [searchScope] at h
  split at h
  · exact Except.ok.inj h ▸ all
  split_ifs at h
  · exact Except.ok.inj h ▸ all
  split at h
  · exact Except.ok.inj h ▸ all
  rename_i evaluated
  obtain ⟨score, -, h⟩ := bind_eq_ok.1 h
  cases score with
  | none => exact Except.ok.inj h ▸ all
  | some score =>
    obtain rfl := Except.ok.inj h
    intro c member
    obtain ⟨key, found⟩ := Dict.exists_find?_of_mem_values member
    rcases Dict.of_find?_insert found with ⟨-, rfl⟩ | ⟨-, found⟩
    · exact evaluated
    · exact all c (Dict.mem_values_of_find? found)

theorem nativePlacementCandidates_evaluated
    (h : nativePlacementCandidates host model topology workload stateByNode request options =
      .ok candidates) :
    ∀ c ∈ candidates, evaluateDistributionPlan model topology workload c.plan = .ok c.metrics := by
  obtain ⟨found, searched, h⟩ := bind_eq_ok.1 h
  obtain rfl := Except.ok.inj h
  have all : ∀ (scopes : List (List String)) (before : Dict String NativePlacementCandidate),
      (∀ c ∈ before.values, evaluateDistributionPlan model topology workload c.plan =
        .ok c.metrics) →
      scopes.foldlM (searchScope host model topology workload stateByNode request options) before =
      .ok found → ∀ c ∈ found.values, evaluateDistributionPlan model topology workload c.plan =
      .ok c.metrics := by
    intro scopes
    induction scopes with
    | nil => exact fun before all h => Except.ok.inj h ▸ all
    | cons ids scopes ih =>
      intro before all h
      obtain ⟨between, once, h⟩ := bind_eq_ok.1 h
      exact ih between (searchScope_evaluated once all) h
  intro c member
  rw [(List.perm_insertionSort _ _).mem_iff] at member
  exact all _ _ (by rintro c ⟨⟩) searched c member

theorem keeps_of_feasible {keep : String → Bool} {plan : DistributionPlan}
    {metrics : DistributionMetrics}
    (h : evaluateDistributionPlan model (topology.restrict keep) workload plan = .ok metrics)
    {id : String} (member : id ∈ plan.stages.map (·.nodeId)) : keep id = true := by
  obtain ⟨-, placed, -, located, -⟩ := evaluateDistributionPlan_eq_ok h
  rw [← located.stages, List.map_map] at member
  obtain ⟨entry, inside, rfl⟩ := List.mem_map.1 member
  exact (nodeById_restrict (located.nodes entry inside)).1

theorem usable_iff {id : String} :
    usable stateByNode request nodes domains id = true ↔
    ∃ state, stateByNode.find? id = some state ∧
      0 < state.freeSlots ∧ engineNodeIsEligible state request.engine = true ∧ id ∉ nodes ∧
      state.failureDomainId ∉ domains := by
  simp [usable, Option.any_eq_true, and_assoc]

variable (model topology workload stateByNode request) in
/-- A complete placement on usable nodes, with its nodes and domains listed. -/
structure Chained (chain : NativeCompleteChain) : Prop where
  feasible : feasible model (adjustedTopology topology stateByNode request.engine) workload
    chain.plan = true
  nodeIds : chain.nodeIds = chain.plan.stages.map (·.nodeId)
  failureDomainIds : chain.failureDomainIds = domainsOf stateByNode chain.nodeIds
  usable : ∀ id ∈ chain.nodeIds, usable stateByNode request [] [] id = true

def Independent (a b : NativeCompleteChain) : Prop :=
  a.nodeIds.Disjoint b.nodeIds ∧ a.failureDomainIds.Disjoint b.failureDomainIds

theorem replicaRounds_chained {nodes domains : List String}
    (h : replicaRounds host model topology workload stateByNode request options replicas nodes
      domains = .ok chains) :
    (∀ chain ∈ chains, Chained model topology workload stateByNode request chain ∧
      ∀ id ∈ chain.nodeIds, usable stateByNode request nodes domains id = true) ∧
      chains.Pairwise Independent := by
  induction replicas generalizing nodes domains chains with
  | zero =>
    obtain rfl := Except.ok.inj h
    exact ⟨by simp, .nil⟩
  | succ replicas ih =>
    obtain ⟨candidates, searched, h⟩ := bind_eq_ok.1 h
    cases chosen : candidates.head? with
    | none =>
      rw [chosen] at h
      obtain rfl := Except.ok.inj h
      exact ⟨by simp, .nil⟩
    | some selected =>
      rw [chosen] at h
      obtain ⟨rest, later, h⟩ := bind_eq_ok.1 h
      obtain rfl := Except.ok.inj h
      have evaluated :=
        nativePlacementCandidates_evaluated searched selected (List.mem_of_head? chosen)
      have here : ∀ id ∈ selected.plan.stages.map (·.nodeId),
          usable stateByNode request nodes domains id = true := fun id member =>
        (List.mem_filter.1 (List.contains_iff_mem.1 (keeps_of_feasible evaluated member))).2
      obtain ⟨sound, apart⟩ := ih later
      refine ⟨List.forall_mem_cons.2 ⟨⟨⟨?_, rfl, rfl, ?_⟩, here⟩, ?_⟩,
        List.pairwise_cons.2 ⟨?_, apart⟩⟩
      · exact feasible_iff.2 ⟨_, evaluateDistributionPlan_of_restrict evaluated⟩
      · intro id member
        obtain ⟨state, found, free, eligible, -⟩ := usable_iff.1 (here id member)
        exact usable_iff.2 ⟨state, found, free, eligible, by simp, by simp⟩
      · intro chain member
        refine ⟨(sound chain member).1, fun id inside => ?_⟩
        obtain ⟨state, found, free, eligible, unused, apart⟩ :=
          usable_iff.1 ((sound chain member).2 id inside)
        rw [List.mem_append, not_or] at unused apart
        exact usable_iff.2 ⟨state, found, free, eligible, unused.1, apart.1⟩
      · -- a later chain is planned without the nodes and domains of this one
        intro chain member
        obtain ⟨chained, others⟩ := sound chain member
        have outside := fun id inside => usable_iff.1 (others id inside)
        constructor
        · intro id mine theirs
          obtain ⟨-, -, -, -, unused, -⟩ := outside id theirs
          exact unused (List.mem_append_right _ mine)
        intro domain mine theirs
        rw [chained.failureDomainIds, domainsOf, List.mem_insertionSort, List.mem_dedup,
          List.mem_filterMap] at theirs
        obtain ⟨id, inside, located⟩ := theirs
        obtain ⟨state, found, -, -, -, apart⟩ := outside id inside
        rw [found] at located
        obtain rfl := Option.some.inj located
        exact apart (List.mem_append_right _ mine)

end Chains

section Rescaled

variable {model : DistributedModelProfile} {topology : DistributionTopology}
  {workload : DistributionWorkload} {f : ComputeNodeProfile → ComputeNodeProfile}

structure Alike (a b : ComputeNodeProfile) : Prop where
  id : a.id = b.id
  memory : usableMemory a = usableMemory b
  availability : a.availability = b.availability
  layers : a.maxStageLayers = b.maxStageLayers
  roles : a.stageRoles = b.stageRoles

theorem Holds.alike (same : Alike a b)
    (h : Holds model workload stage a first last) : Holds model workload stage b first last := by
  obtain ⟨role, layers, memory⟩ := h
  refine ⟨?_, ?_, same.memory ▸ memory⟩
  · unfold nodeSupportsStagePosition at role ⊢
    rw [← same.roles]
    exact role
  unfold exceedsStageLayerLimit at layers ⊢
  rw [← same.layers]
  exact layers

theorem nextNode_alike (same : ∀ node, Alike (f node) node) (head : ComputeNodeProfile)
    (placed : Placed) :
    (nextNode (f head) (placed.map (Prod.map id f))).id = (nextNode head placed).id := by
  cases placed with
  | nil => exact (same head).id
  | cons entry placed => exact (same entry.2).id

theorem routed_alike (same : ∀ node, Alike (f node) node)
    (h : Routed model ⟨nodes, topology.links⟩ workload (f head) first
      (placed.map (Prod.map id f))) :
    Routed model topology workload head first placed ∧
      availabilityOf ⟨nodes, topology.links⟩ (f head) (placed.map (Prod.map id f)) =
        availabilityOf topology head placed := by
  induction placed generalizing first with
  | nil => exact ⟨trivial, rfl⟩
  | cons entry rest ih =>
    obtain ⟨holds, linked, routed⟩ := h
    obtain ⟨behind, available⟩ := ih routed
    have next := nextNode_alike same head rest
    rw [List.isEmpty_map] at holds
    unfold Linked at linked
    rw [next, (same entry.2).id] at linked
    refine ⟨⟨holds.alike (same entry.2), linked, behind⟩, ?_⟩
    simp only [List.map_cons, Prod.map, availabilityOf, linkAvailability] at available ⊢
    rw [available, next, (same entry.2).id, (same entry.2).availability]
    rfl

theorem feasible_of_alike (same : ∀ node, Alike (f node) node)
    (h : feasible model ⟨topology.nodes.map f, topology.links⟩ workload plan = true) :
    feasible model topology workload plan = true := by
  obtain ⟨metrics, evaluated⟩ := feasible_iff.1 h
  obtain ⟨checked, placed, head, located, served⟩ := evaluateDistributionPlan_eq_ok evaluated
  have found : ∀ entry ∈ placed, ∃ node, topology.nodeById entry.1.nodeId = some node ∧
      f node = entry.2 := by
    intro entry member
    have there := located.nodes entry member
    rw [DistributionTopology.nodeById, ← List.map_reverse, List.find?_map] at there
    obtain ⟨node, found, image⟩ := Option.map_eq_some_iff.1 there
    refine ⟨node, ?_, image⟩
    rw [DistributionTopology.nodeById, ← found]
    congr 1
    funext other
    simp [(same other).id]
  -- the route over the nodes as they were
  obtain ⟨original, rfl, nodes⟩ : ∃ original : Placed, original.map (Prod.map id f) = placed ∧
      ∀ entry ∈ original, topology.nodeById entry.1.nodeId = some entry.2 := by
    clear served located
    induction placed with
    | nil => exact ⟨[], rfl, by simp⟩
    | cons entry placed ih =>
      obtain ⟨⟨node, here, image⟩, found⟩ := List.forall_mem_cons.1 found
      obtain ⟨original, rfl, nodes⟩ := ih found
      exact ⟨(entry.1, node) :: original, by simp [image], List.forall_mem_cons.2 ⟨here, nodes⟩⟩
  cases original with
  | nil => cases served.heads
  | cons entry rest =>
    obtain rfl := Option.some.inj served.heads
    obtain ⟨routed, available⟩ := routed_alike same served.routed
    refine feasible_iff.2 (exists_evaluateDistributionPlan checked ⟨?_, nodes⟩
      ⟨rfl, routed, available ▸ served.available⟩)
    rw [← located.stages, List.map_map]
    rfl

end Rescaled

/-- Every chain is a complete placement, feasible on the adjusted topology, and on the given one if
no engine is required; two chains share neither a node nor a domain. -/
theorem replica_chains_are_independent {host : Host} {model : DistributedModelProfile}
    {topology : DistributionTopology} {workload : DistributionWorkload}
    {request : NativeRouteRequest} {options : SearchOptions}
    {nodeStates : List NativeFleetNodeState} {desiredReplicas : ℚ}
    {chains : List NativeCompleteChain}
    (h : planNativeReplicaChains host model topology workload request options nodeStates
      desiredReplicas = .ok chains) :
      ∃ stateByNode, validateNodeStates topology nodeStates = .ok stateByNode ∧
      (∀ chain ∈ chains, Chained model topology workload stateByNode request chain ∧
        (request.engine = none → feasible model topology workload chain.plan = true)) ∧
      chains.Pairwise Independent := by
  obtain ⟨-, h⟩ := raise_eq_ok.1 h
  obtain ⟨stateByNode, valid, h⟩ := bind_eq_ok.1 h
  obtain ⟨sound, apart⟩ := replicaRounds_chained h
  refine ⟨stateByNode, valid, fun chain member => ⟨(sound chain member).1, fun none => ?_⟩, apart⟩
  have adjusted := (sound chain member).1.feasible
  rw [none] at adjusted
  refine feasible_of_alike (fun node => ?_) adjusted
  unfold congestionAdjustedNode
  split
  · exact ⟨rfl, rfl, rfl, rfl, rfl⟩
  · exact ⟨rfl, rfl, rfl, rfl, rfl⟩

def plainHost : Host := ⟨fun a b => decide (a ≤ b), id, fun _ _ => ""⟩

def tinyDigest : String := "sha256:" ++ String.ofList (List.replicate 64 'a')

def tinyState : NativeFleetNodeState := ⟨"a", "host", "home", 0, 0, 1, 1, some 1, [],
  some ⟨tinyDigest, tinyDigest, tinyDigest, tinyDigest, "b", "abi", ["q"], 1, 1, 1, 1, 1, 1,
    true, true, [.head, .tail], 10⟩⟩

def tinyRequirement : NativeEngineRouteRequirement :=
  ⟨tinyDigest, tinyDigest, tinyDigest, "b", "abi", "q", 1, [.head], false, false, 1⟩

/-- Two machines at different places. -/
def apartTopology : DistributionTopology where
  nodes := tinyTopology.nodes ++ tinyTopology.nodes.map ({ · with id := "b" })
  links := []

def apartStates : List NativeFleetNodeState :=
  [tinyState, { tinyState with
    nodeId := "b", physicalHostId := "other", failureDomainId := "office" }]

theorem one_chain_on_each_machine :
    ∃ chains, planNativeReplicaChains plainHost tinyModel apartTopology tinyWorkload ⟨true, none, 0,
      none⟩ (tinyOptions 1) apartStates 2 = .ok chains ∧ chains.map (·.nodeIds) = [["a"], ["b"]] ∧
      (∀ chain ∈ chains, feasible tinyModel apartTopology tinyWorkload chain.plan = true) ∧
      chains.Pairwise Independent := by
  have two : (planNativeReplicaChains plainHost tinyModel apartTopology tinyWorkload ⟨true, none,
    0, none⟩ (tinyOptions 1) apartStates 2).toOption.map (·.map (·.nodeIds)) =
    some [["a"], ["b"]] := by
    decide +kernel
  cases planned : planNativeReplicaChains plainHost tinyModel apartTopology tinyWorkload
      ⟨true, none, 0, none⟩ (tinyOptions 1) apartStates 2 with
  | error e =>
    rw [planned] at two
    cases two
  | ok chains =>
    rw [planned] at two
    obtain ⟨_, -, chained, apart⟩ := replica_chains_are_independent planned
    exact ⟨chains, rfl, Option.some.inj two, fun chain member => (chained chain member).2 rfl,
      apart⟩

theorem engine_overrides_stage_limit :
    (planNativeReplicaChains plainHost tinyModel
      { tinyTopology with nodes := tinyTopology.nodes.map ({ · with maxStageLayers := some 0 }) }
      tinyWorkload ⟨true, none, 0, some tinyRequirement⟩ (tinyOptions 1) [tinyState] 1).toOption.map
      (fun chains =>
        chains.map fun chain => feasible tinyModel
          { tinyTopology with
            nodes := tinyTopology.nodes.map ({ · with maxStageLayers := some 0 }) } tinyWorkload
          chain.plan) = some [false] := by
  decide +kernel

end Mycellios.Planning
