import Mycellios.Planning.CostModel

namespace Mycellios.Planning

open List Logic

variable {model : DistributedModelProfile} {topology : DistributionTopology}
  {workload : DistributionWorkload} {tuning : Tuning} {head node : ComputeNodeProfile}
  {next : Option ComputeNodeProfile} {stage : StagePlacement}

abbrev Placed := List (StagePlacement × ComputeNodeProfile)

def nextNode (head : ComputeNodeProfile) (rest : Placed) : ComputeNodeProfile :=
  (rest.head?.map Prod.snd).getD head

variable (model workload) in
structure Holds (stage : StagePlacement) (node : ComputeNodeProfile) (first last : Bool) :
    Prop where
  role : nodeSupportsStagePosition node first last = true
  layers : exceedsStageLayerLimit node stage.layerStart stage.layerEnd = false
  memory : stageMemoryBytes model stage workload first last ≤ usableMemory node

variable (topology) in
def Linked (a b : ComputeNodeProfile) : Prop := (topology.directedLink a.id b.id).isSome

variable (topology) in
def linkAvailability (a b : ComputeNodeProfile) : ℚ :=
  (topology.directedLink a.id b.id).elim 0 fun link => clampProbability (link.availability.getD 1)

variable (model topology workload) in
def Routed (head : ComputeNodeProfile) : Bool → Placed → Prop
  | _, [] => True
  | first, (stage, node) :: rest =>
    Holds model workload stage node first rest.isEmpty ∧ Linked topology node (nextNode head rest) ∧
      Routed head false rest

variable (topology) in
def availabilityOf (head : ComputeNodeProfile) : Placed → ℚ
  | [] => 1
  | (_, node) :: rest =>
    clampProbability node.availability * linkAvailability topology node (nextNode head rest) *
      availabilityOf head rest

theorem directedLink_self (topology : DistributionTopology) (id : String) :
    topology.directedLink id id = some ⟨id, id, 0, 0, none, 0, some 1, by simp⟩ := by
  simp [DistributionTopology.directedLink]

theorem outgoing_eq_ok
    (h : outgoing model topology workload tuning head stage node next = .ok out) :
    Linked topology node (next.getD head) ∧
    out.availability = linkAvailability topology node (next.getD head) := by
  unfold outgoing at h
  unfold Linked linkAvailability
  cases next with
  | some next =>
    cases link : topology.directedLink node.id next.id with
    | none => simp [link, throw, throwThe, MonadExceptOf.throw] at h
    | some found =>
      simp only [link, Except.ok.injEq] at h
      subst h
      simp [link]
  | none =>
    by_cases same : node.id = head.id
    · simp only [same, if_true, Except.ok.injEq] at h
      subst h
      simp [same, directedLink_self, clampProbability]
    cases link : topology.directedLink node.id head.id with
    | none => simp [same, link, throw, throwThe, MonadExceptOf.throw] at h
    | some found =>
      simp only [same, link, if_false, Except.ok.injEq] at h
      subst h
      simp [link]

theorem exists_outgoing (linked : Linked topology node (next.getD head)) :
    ∃ out, outgoing model topology workload tuning head stage node next = .ok out := by
  obtain ⟨link, found⟩ := Option.isSome_iff_exists.1 linked
  unfold outgoing
  cases next with
  | some next =>
    simp only [Option.getD_some] at found
    simp [found]
  | none =>
    simp only [Option.getD_none] at found
    by_cases same : node.id = head.id
    · exact ⟨_, if_pos same⟩
    · simp [same, found]

theorem evaluateStage_eq_ok
    (h : evaluateStage model topology workload tuning head first route stage node next = .ok done) :
    Holds model workload stage node first next.isNone ∧ Linked topology node (next.getD head) ∧
      done.routeAvailability = route.routeAvailability * clampProbability node.availability *
        linkAvailability topology node (next.getD head) := by
  unfold evaluateStage at h
  obtain ⟨role, h⟩ := raise_eq_ok.1 h
  obtain ⟨layers, h⟩ := raise_eq_ok.1 h
  obtain ⟨memory, h⟩ := raise_eq_ok.1 h
  obtain ⟨out, sends, h⟩ := bind_eq_ok.1 h
  obtain ⟨linked, available⟩ := outgoing_eq_ok sends
  obtain rfl := Except.ok.inj h
  refine ⟨⟨by simpa using role, by simpa using layers, not_lt.1 memory⟩, linked, ?_⟩
  rw [← available]

theorem exists_evaluateStage (route : Route)
    (holds : Holds model workload stage node first next.isNone)
    (linked : Linked topology node (next.getD head)) :
    ∃ done, evaluateStage model topology workload tuning head first route stage node next =
    .ok done := by
  obtain ⟨out, sends⟩ : ∃ out, outgoing model topology workload tuning head stage node next =
      .ok out :=
    exists_outgoing linked
  unfold evaluateStage
  rw [if_neg (by simp [holds.role]), if_neg (by simp [holds.layers]),
    if_neg (not_lt.2 holds.memory), sends]
  exact ⟨_, rfl⟩

theorem isNone_head? (rest : Placed) : (rest.head?.map Prod.snd).isNone = rest.isEmpty := by
  cases rest <;> rfl

theorem evaluateStages_eq_ok
    (h : evaluateStages model topology workload tuning head first route placed = .ok done) :
    Routed model topology workload head first placed ∧
      done.routeAvailability = route.routeAvailability * availabilityOf topology head placed := by
  induction placed generalizing first route with
  | nil =>
    obtain rfl := Except.ok.inj h
    exact ⟨trivial, by simp [availabilityOf]⟩
  | cons entry rest ih =>
    obtain ⟨stage, node⟩ := entry
    obtain ⟨between, once, h⟩ := bind_eq_ok.1 h
    obtain ⟨holds, linked, available⟩ := evaluateStage_eq_ok once
    obtain ⟨routed, rests⟩ := ih h
    rw [isNone_head?] at holds
    refine ⟨⟨holds, linked, routed⟩, ?_⟩
    rw [rests, available, availabilityOf, nextNode]
    ring

theorem exists_evaluateStages (route : Route)
    (routed : Routed model topology workload head first placed) :
    ∃ done, evaluateStages model topology workload tuning head first route placed = .ok done := by
  induction placed generalizing first route with
  | nil => exact ⟨route, rfl⟩
  | cons entry rest ih =>
    obtain ⟨stage, node⟩ := entry
    obtain ⟨holds, linked, routed⟩ := routed
    rw [← isNone_head?] at holds
    obtain ⟨between, once⟩ : ∃ between, evaluateStage model topology workload tuning head first
        route stage node (rest.head?.map Prod.snd) = .ok between :=
      exists_evaluateStage route holds linked
    obtain ⟨done, rests⟩ := ih between routed
    refine ⟨done, ?_⟩
    rw [evaluateStages, once]
    exact rests

variable (model workload plan) in
structure Checked : Prop where
  counts : ∀ count ∈ counts workload plan, PositiveInteger count.2
  window : 0 ≤ workload.batchWindowMs
  quality : (activationCodec plan.codec).estimatedQualityLoss ≤ workload.maxQualityLoss
  nonempty : plan.stages ≠ []
  stageCount : (plan.stages.length : ℚ) ≤ workload.maxStages
  coverage : validContiguousCoverage model plan.stages = true
  distinct : (plan.stages.map (·.nodeId)).Nodup

theorem checkPlan_eq_ok : checkPlan model workload plan = .ok () ↔ Checked model workload plan := by
  unfold checkPlan
  constructor
  · intro h
    split at h
    · cases h
    rename_i positive
    obtain ⟨window, h⟩ := raise_eq_ok.1 h
    obtain ⟨quality, h⟩ := raise_eq_ok.1 h
    obtain ⟨stageCount, h⟩ := raise_eq_ok.1 h
    obtain ⟨coverage, h⟩ := raise_eq_ok.1 h
    obtain ⟨distinct, -⟩ := raise_eq_ok.1 h
    rw [not_or, not_lt, not_lt] at stageCount
    exact {
      counts := by simpa using positive
      window := not_lt.1 window
      quality := not_lt.1 quality
      nonempty := ne_nil_of_length_pos stageCount.1
      stageCount := stageCount.2
      coverage := by simpa using coverage
      distinct := not_not.1 distinct }
  · intro h
    have positive : ((counts workload plan).find? fun count => ¬PositiveInteger count.2) =
        none := by
      simpa using h.counts
    have some_stage : ¬plan.stages.length < 1 := not_lt.2 (length_pos_of_ne_nil h.nonempty)
    rw [positive]
    simp [not_lt.2 h.window, not_lt.2 h.quality, some_stage, not_lt.2 h.stageCount, h.coverage,
      h.distinct]

variable (topology) in
structure Located (stages : List StagePlacement) (placed : Placed) : Prop where
  stages : placed.map Prod.fst = stages
  nodes : ∀ entry ∈ placed, topology.nodeById entry.1.nodeId = some entry.2

variable (model topology workload) in
structure Served (placed : Placed) (head : ComputeNodeProfile) : Prop where
  heads : placed.head?.map Prod.snd = some head
  routed : Routed model topology workload head true placed
  available : workload.minRouteAvailability ≤ availabilityOf topology head placed

theorem stageNodes_eq_ok (h : stageNodes topology tuning stages = .ok nodes) :
    nodes.length = stages.length ∧ Located topology stages (stages.zip nodes) := by
  induction stages generalizing nodes with
  | nil =>
    obtain rfl := Except.ok.inj h
    exact ⟨rfl, rfl, by simp⟩
  | cons stage stages ih =>
    unfold stageNodes at h
    cases found : topology.nodeById stage.nodeId with
    | none => simp [found, throw, throwThe, MonadExceptOf.throw] at h
    | some node =>
      simp only [found] at h
      obtain ⟨rest, located, rfl⟩ := map_eq_ok.1 h
      obtain ⟨length, tail⟩ := ih located
      exact ⟨by simp [length], by simp [tail.stages], by simpa [found] using tail.nodes⟩

theorem stageNodes_of_located
    (h : Located topology stages placed) :
    stageNodes topology tuning stages = .ok (placed.map Prod.snd) := by
  obtain ⟨rfl, nodes⟩ := h
  induction placed with
  | nil => rfl
  | cons entry placed ih =>
    obtain ⟨found, nodes⟩ := forall_mem_cons.1 nodes
    simp only [map_cons, stageNodes, found, ih nodes]
    rfl

theorem evaluateDistributionPlan_eq_ok {metrics : DistributionMetrics}
    (h : evaluateDistributionPlan model topology workload plan = .ok metrics) :
    Checked model workload plan ∧ ∃ placed head, Located topology plan.stages placed ∧
      Served model topology workload placed head := by
  obtain ⟨⟨⟩, checked, h⟩ := bind_eq_ok.1 h
  obtain ⟨nodes, located, h⟩ := bind_eq_ok.1 h
  obtain ⟨route, evaluated, h⟩ := bind_eq_ok.1 h
  obtain ⟨available, -⟩ := raise_eq_ok.1 h
  have checked := checkPlan_eq_ok.1 checked
  obtain ⟨length, located⟩ := stageNodes_eq_ok located
  cases stages : plan.stages with
  | nil => exact absurd stages checked.nonempty
  | cons stage rest =>
    cases nodes with
    | nil => simp [stages] at length
    | cons node nodes =>
      obtain ⟨routed, total⟩ := evaluateStages_eq_ok evaluated
      rw [stages] at located routed total
      refine ⟨checked, _, node, located, rfl, routed, ?_⟩
      rw [not_lt, total, one_mul] at available
      exact available

theorem exists_evaluateDistributionPlan (checked : Checked model workload plan)
    (located : Located topology plan.stages placed)
    (served : Served model topology workload placed head) :
    ∃ metrics, evaluateDistributionPlan model topology workload plan = .ok metrics := by
  obtain ⟨done, evaluated⟩ : ∃ done, evaluateStages model topology workload plan.toTuning head true
      {} placed = .ok done :=
    exists_evaluateStages {} served.routed
  have total := (evaluateStages_eq_ok evaluated).2
  have zipped : plan.stages.zip (placed.map Prod.snd) = placed := by
    rw [← located.stages, zip_map']
    simp
  have route : evaluateRoute model topology workload plan (placed.map Prod.snd) = .ok done := by
    obtain ⟨heads, -, -⟩ := served
    cases placed with
    | nil => cases heads
    | cons entry placed =>
      obtain rfl := Option.some.inj heads
      rw [map_cons, evaluateRoute, ← map_cons, zipped, evaluated]
  unfold evaluateDistributionPlan
  rw [checkPlan_eq_ok.2 checked, ok_bind, stageNodes_of_located located, ok_bind, route,
    ok_bind, if_neg (by rw [not_lt, total, one_mul]; exact served.available)]
  exact ⟨_, rfl⟩

theorem feasible_iff : feasible model topology workload plan = true ↔
    ∃ metrics, evaluateDistributionPlan model topology workload plan = .ok metrics := by
  unfold feasible
  cases evaluateDistributionPlan model topology workload plan <;> simp [Except.toBool]

section Restrict

def DistributionTopology.restrict (topology : DistributionTopology) (keep : String → Bool) :
    DistributionTopology where
  nodes := topology.nodes.filter fun node => keep node.id
  links := topology.links.filter fun link => keep link.fromId && keep link.toId

variable {keep : String → Bool}

theorem nodeById_restrict {id : String}
    (h : (topology.restrict keep).nodeById id = some node) :
    keep id = true ∧ topology.nodeById id = some node := by
  unfold DistributionTopology.nodeById DistributionTopology.restrict at h
  have kept : keep id = true := by
    have same := find?_some h
    have member := mem_of_find?_eq_some h
    simp only [mem_reverse, mem_filter, decide_eq_true_eq] at same member
    exact same ▸ member.2
  refine ⟨kept, ?_⟩
  rw [← filter_reverse, find?_filter] at h
  rw [DistributionTopology.nodeById, ← h]
  congr 1
  funext found
  by_cases same : found.id = id <;> simp [same, kept]

theorem directedLink_restrict (ha : keep a = true) (hb : keep b = true) :
    (topology.restrict keep).directedLink a b = topology.directedLink a b := by
  unfold DistributionTopology.directedLink DistributionTopology.restrict
  split
  · rfl
  rw [find?_filter]
  congr 1
  funext link
  by_cases same : link.fromId = a ∧ link.toId = b
  · simp [same, ha, hb]
  · simp [same]

theorem outgoing_congr
    (same : topology.directedLink node.id (next.getD head).id = topology'.directedLink node.id
      (next.getD head).id) :
    outgoing model topology workload tuning head stage node next =
      outgoing model topology' workload tuning head stage node next := by
  cases next with
  | some next =>
    rw [Option.getD_some] at same
    rw [outgoing, outgoing, same]
  | none =>
    rw [Option.getD_none] at same
    rw [outgoing, outgoing, same]

theorem evaluateStages_congr (among : String → Prop)
    (same : ∀ a b, among a → among b → topology.directedLink a b = topology'.directedLink a b)
    (atHead : among head.id) (within : ∀ entry ∈ placed, among entry.2.id) :
    evaluateStages model topology workload tuning head first route placed =
      evaluateStages model topology' workload tuning head first route placed := by
  induction placed generalizing first route with
  | nil => rfl
  | cons entry rest ih =>
    obtain ⟨stage, node⟩ := entry
    obtain ⟨here, within⟩ := forall_mem_cons.1 within
    have next : among ((rest.head?.map Prod.snd).getD head).id := by
      cases rest with
      | nil => exact atHead
      | cons entry rest => exact within entry (mem_cons_self ..)
    have once : evaluateStage model topology workload tuning head first route stage node
        (rest.head?.map Prod.snd) = evaluateStage model topology' workload tuning head first route
        stage node (rest.head?.map Prod.snd) := by
      unfold evaluateStage
      rw [outgoing_congr (same _ _ here next)]
    rw [evaluateStages, evaluateStages, once]
    congr 1
    funext between
    exact ih within

theorem nodeById_id {id : String} (h : topology.nodeById id = some node) : node.id = id := by
  simpa using find?_some h

theorem evaluateDistributionPlan_of_restrict {metrics : DistributionMetrics}
    (h : evaluateDistributionPlan model (topology.restrict keep) workload plan = .ok metrics) :
    evaluateDistributionPlan model topology workload plan = .ok metrics := by
  unfold evaluateDistributionPlan at h ⊢
  obtain ⟨⟨⟩, checked, h⟩ := bind_eq_ok.1 h
  obtain ⟨nodes, located, h⟩ := bind_eq_ok.1 h
  obtain ⟨route, evaluated, h⟩ := bind_eq_ok.1 h
  obtain ⟨length, found⟩ := stageNodes_eq_ok located
  have whole : Located topology plan.stages (plan.stages.zip nodes) :=
    ⟨found.stages, fun entry member => (nodeById_restrict (found.nodes entry member)).2⟩
  have kept : ∀ entry ∈ plan.stages.zip nodes, keep entry.2.id = true := fun entry member => by
    have at_id := found.nodes entry member
    rw [nodeById_id at_id]
    exact (nodeById_restrict at_id).1
  have nodes_eq : (plan.stages.zip nodes).map Prod.snd = nodes := map_snd_zip length.le
  have route_eq : evaluateRoute model topology workload plan nodes = .ok route := by
    rw [← evaluated]
    cases nodes with
    | nil => rfl
    | cons head nodes =>
      have atHead : keep head.id = true := by
        have member : head ∈ (plan.stages.zip (head :: nodes)).map Prod.snd := by
          rw [nodes_eq]; simp
        obtain ⟨entry, member, rfl⟩ := mem_map.1 member
        exact kept entry member
      exact evaluateStages_congr (fun id => keep id = true)
        (fun a b ha hb => (directedLink_restrict ha hb).symm) atHead kept
  rw [checked, ok_bind, stageNodes_of_located whole, nodes_eq, ok_bind, route_eq]
  exact h

end Restrict

variable (model) in
theorem sumLayers_le {value : LayerProfile → ℚ} (nonneg : ∀ layer, 0 ≤ value layer) (id : String)
    (start : Nat) (h : e ≤ f) :
    sumLayers model ⟨id, start, e⟩ value ≤ sumLayers model ⟨id, start, f⟩ value := by
  unfold sumLayers stageLayers
  have shorter : ((model.layers.drop start).take (e - start)).Sublist
      ((model.layers.drop start).take (f - start)) :=
    (take_prefix_take_left (Nat.sub_le_sub_right h start)).sublist
  refine (shorter.map value).sum_le_sum fun x member => ?_
  obtain ⟨layer, -, rfl⟩ := mem_map.1 member
  exact nonneg layer

variable (model) in
theorem endpointWeights_le (first : Bool) (h : last = true → last' = true) :
    endpointWeights model first last ≤ endpointWeights model first last' := by
  have lmHead := model.lmHeadBytes_nonneg
  have tied := le_max_left model.embeddingBytes model.lmHeadBytes
  unfold endpointWeights
  cases last with
  | true => rw [h rfl]
  | false =>
    cases last' with
    | false => exact le_rfl
    | true => cases first <;> cases model.tiedEmbeddingAndHead <;> simp <;> linarith

theorem stageMemoryBytes_le (context : 0 ≤ workload.contextTokens)
    (sequences : 0 ≤ workload.concurrentSequences) (id : String) (start : Nat) (first : Bool)
    (h : e ≤ f) (ends : last = true → last' = true) :
    stageMemoryBytes model ⟨id, start, e⟩ workload first last ≤
      stageMemoryBytes model ⟨id, start, f⟩ workload first last' := by
  have weights := sumLayers_le model LayerProfile.weightBytes_nonneg id start h
  have kv := sumLayers_le model LayerProfile.kvBytesPerToken_nonneg id start h
  have endpoints := endpointWeights_le model first ends
  unfold stageMemoryBytes
  gcongr

theorem exceedsStageLayerLimit_mono (h : e ≤ f)
    (exceeds : exceedsStageLayerLimit node start e = true) :
    exceedsStageLayerLimit node start f = true := by
  unfold exceedsStageLayerLimit at exceeds ⊢
  cases found : node.maxStageLayers with
  | none => simp [found] at exceeds
  | some limit =>
    have longer : (e : ℚ) ≤ f := by exact_mod_cast h
    simp only [found, decide_eq_true_eq] at exceeds ⊢
    linarith

end Mycellios.Planning
