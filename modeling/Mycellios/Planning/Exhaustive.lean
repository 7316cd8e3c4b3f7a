import Mycellios.Planning.Planners

namespace Mycellios.Planning

open Logic

variable {model : DistributedModelProfile} {topology : DistributionTopology}
  {workload : DistributionWorkload} {options : SearchOptions} {plan : DistributionPlan}
  {stages : List StagePlacement}

section Sound

theorem EvaluatedDistributionPlan.feasible
    (tuned : EvaluatedDistributionPlan model topology workload) :
    feasible model topology workload tuned.plan = true := feasible_iff.2 ⟨_, tuned.evaluated⟩

theorem feasible_named (algorithm : String) (h : feasible model topology workload plan = true) :
    feasible model topology workload (plan.named algorithm) = true := h

theorem feasible_of_map {tuned : Option (EvaluatedDistributionPlan model topology workload)}
    (h : tuned.map (·.plan) = some plan) : feasible model topology workload plan = true := by
  obtain ⟨found, -, rfl⟩ := Option.map_eq_some_iff.1 h
  exact found.feasible

theorem feasible_topologyBeamPlan
    (h : topologyBeamPlan model topology workload options = some plan) :
    feasible model topology workload plan = true := by
  obtain ⟨best, -, rfl⟩ := Option.map_eq_some_iff.1 h
  exact (refineEvaluatedPlan options best).feasible

variable {log2 : ℚ → ℚ}

theorem feasible_planWithin
    (h : planWithin model topology workload options fleet log2 = some plan) :
    feasible model topology workload plan = true := by
  unfold planWithin at h
  split at h
  · obtain ⟨direct, found, rfl⟩ := Option.map_eq_some_iff.1 h
    exact feasible_named _ (feasible_topologyBeamPlan found)
  · obtain ⟨best, -, rfl⟩ := Option.map_eq_some_iff.1 h
    exact feasible_named _ best.feasible

theorem feasible_evictFarNodes (h : feasible model (evictFarNodes topology) workload plan = true) :
    feasible model topology workload plan = true := by
  simp only [evictFarNodes] at h
  split_ifs at h
  · exact h
  · obtain ⟨metrics, evaluated⟩ := feasible_iff.1 h
    exact feasible_iff.2 ⟨metrics, evaluateDistributionPlan_of_restrict evaluated⟩

theorem feasible_fleetTopologyPlan
    (h : fleetTopologyPlan model topology workload options fleet log2 = some plan) :
    feasible model topology workload plan = true := by
  unfold fleetTopologyPlan at h
  split at h
  · rename_i pruned found
    obtain rfl := Option.some.inj h
    exact feasible_evictFarNodes (feasible_planWithin found)
  split at h
  · cases h
  · exact feasible_planWithin h

end Sound

section Ends

variable {node : ComputeNodeProfile} {first : Bool}

theorem mem_stageEndsAmong (context : 0 ≤ workload.contextTokens)
    (sequences : 0 ≤ workload.concurrentSequences) (sorted : ends.Pairwise (· < ·))
    (member : e ∈ ends) (within : e ≤ model.layers.length)
    (holds : Holds model workload ⟨node.id, start, e⟩ node first (e == model.layers.length)) :
    e ∈ stageEndsAmong model workload node first start ends := by
  induction ends with
  | nil => cases member
  | cons x ends ih =>
    obtain ⟨below, sorted⟩ := List.pairwise_cons.1 sorted
    have le : x ≤ e := by
      rcases List.mem_cons.1 member with rfl | later
      · exact le_rfl
      · exact (below e later).le
    have layers : exceedsStageLayerLimit node start x = false := by
      by_contra exceeds
      have longer := exceedsStageLayerLimit_mono le (Bool.eq_true_of_not_eq_false exceeds)
      rw [holds.layers] at longer
      cases longer
    have memory : stageMemoryBytes model ⟨node.id, start, x⟩ workload first
        (x == model.layers.length) ≤ usableMemory node := by
      refine le_trans (stageMemoryBytes_le context sequences node.id start first le fun last => ?_)
        holds.memory
      rw [beq_iff_eq] at last ⊢
      omega
    unfold stageEndsAmong
    simp only [layers, not_lt.2 memory, if_false, Bool.false_eq_true]
    rcases List.mem_cons.1 member with rfl | later
    · simp [holds.role]
    split
    · exact ih sorted later
    · exact List.mem_cons_of_mem _ (ih sorted later)

theorem mem_stageEnds (context : 0 ≤ workload.contextTokens)
    (sequences : 0 ≤ workload.concurrentSequences) (after : start < e)
    (within : e ≤ model.layers.length)
    (holds : Holds model workload ⟨node.id, start, e⟩ node first (e == model.layers.length)) :
    e ∈ stageEnds model workload node first start :=
  mem_stageEndsAmong context sequences (List.pairwise_lt_range' ..) (mem_boundsTo.2 ⟨after, within⟩)
    within holds

end Ends

variable (model topology workload) in
def Reaches : Bool → List String → Nat → List StagePlacement → Prop
  | _, _, nextLayer, [] => nextLayer = model.layers.length
  | first, used, nextLayer, stage :: rest =>
    stage.layerStart = nextLayer ∧ nextLayer < model.layers.length ∧ stage.nodeId ∉ used ∧
      (∃ node ∈ topology.nodes, node.id = stage.nodeId ∧
        stage.layerEnd ∈ stageEnds model workload node first nextLayer) ∧
      Reaches false (used ++ [stage.nodeId]) stage.layerEnd rest

theorem nodeById_mem {id : String} (h : topology.nodeById id = some node) :
    node ∈ topology.nodes := List.mem_reverse.1 (List.mem_of_find?_eq_some h)

theorem reaches_of_routed (context : 0 ≤ workload.contextTokens)
    (sequences : 0 ≤ workload.concurrentSequences)
    (nodes : ∀ entry ∈ placed, topology.nodeById entry.1.nodeId = some entry.2)
    (routed : Routed model topology workload head first placed)
    (covers : coversFrom model.layers.length nextLayer (placed.map Prod.fst) = true)
    (distinct : (used ++ (placed.map Prod.fst).map (·.nodeId)).Nodup) :
    Reaches model topology workload first used nextLayer (placed.map Prod.fst) := by
  induction placed generalizing first used nextLayer with
  | nil => simpa [Reaches, coversFrom] using covers
  | cons entry rest ih =>
    obtain ⟨stage, node⟩ := entry
    obtain ⟨found, nodes⟩ := List.forall_mem_cons.1 nodes
    obtain ⟨holds, -, routed⟩ := routed
    have name : node.id = stage.nodeId := nodeById_id found
    simp only [List.map_cons, coversFrom, Bool.and_eq_true, decide_eq_true_eq] at covers
    obtain ⟨⟨⟨rfl, after⟩, within⟩, covers⟩ := covers
    -- the stage is the last one exactly if it ends with the model
    have last : rest.isEmpty = (stage.layerEnd == model.layers.length) := by
      cases rest with
      | nil => simpa [coversFrom] using covers
      | cons next rest =>
        simp only [List.map_cons, coversFrom, Bool.and_eq_true, decide_eq_true_eq] at covers
        symm
        simpa using (by omega : stage.layerEnd ≠ model.layers.length)
    rw [last] at holds
    rw [List.map_cons, List.map_cons, ← List.singleton_append, ← List.append_assoc] at distinct
    refine ⟨rfl, by omega, ?_, ⟨node, nodeById_mem found, name, ?_⟩,
      ih nodes routed covers distinct⟩
    · intro member
      exact List.disjoint_of_nodup_append (List.nodup_append.1 distinct).1 member
        (List.mem_singleton_self _)
    refine mem_stageEnds context sequences after within ?_
    rw [name]
    exact holds

theorem prefix_foldl {α β : Type} {f : List α → β → List α} (grows : ∀ acc x, acc <+: f acc x)
    (xs : List β) (start : List α) : start <+: xs.foldl f start := by
  induction xs generalizing start with
  | nil => exact List.prefix_rfl
  | cons x xs ih => exact (grows start x).trans (ih _)

theorem exists_prefix_foldl {α β : Type} {f : List α → β → List α}
    (grows : ∀ acc x, acc <+: f acc x) {x : β} {xs : List β} (member : x ∈ xs) (start : List α) :
    ∃ acc, f acc x <+: xs.foldl f start := by
  obtain ⟨before, after, rfl⟩ := List.append_of_mem member
  refine ⟨before.foldl f start, ?_⟩
  rw [List.foldl_append, List.foldl_cons]
  exact prefix_foldl grows after _

theorem visitNode_grows
    (grows : ∀ visited stages used nextLayer, visited <+: go visited stages used nextLayer)
    (stages : List StagePlacement) (used : List String) (nextLayer : Nat) (visited : Visited)
    (node : ComputeNodeProfile) :
    visited <+: visitNode model workload go stages used nextLayer visited node := by
  unfold visitNode
  split
  · exact List.prefix_rfl
  · exact prefix_foldl (fun acc e => grows acc _ _ e) _ _

theorem visit_grows (maxPlacements : ℚ) (fuel : Nat) (visited : Visited)
    (stages : List StagePlacement) (used : List String) (nextLayer : Nat) :
    visited <+: visit model topology workload maxPlacements fuel visited stages used nextLayer := by
  induction fuel generalizing visited stages used nextLayer with
  | zero =>
    unfold visit
    split_ifs
    · exact List.prefix_rfl
    · exact List.prefix_append ..
    · exact List.prefix_rfl
    · exact List.prefix_rfl
  | succ fuel ih =>
    unfold visit
    split_ifs
    · exact List.prefix_rfl
    · exact List.prefix_append ..
    · exact List.prefix_rfl
    · exact prefix_foldl (visitNode_grows ih stages used nextLayer) _ _

theorem mem_visit {rest : List StagePlacement}
    (reaches : Reaches model topology workload first used nextLayer rest)
    (start : first = stages.isEmpty) (enough : rest.length ≤ fuel)
    (short : (stages.length : ℚ) + rest.length ≤ workload.maxStages)
    (uncut : (visit model topology workload maxPlacements fuel visited stages used nextLayer).length
      < maxPlacements) : stages ++ rest ∈ visit model topology workload maxPlacements fuel visited
      stages used nextLayer := by
  have below : ∀ {earlier : Visited},
      earlier <+: visit model topology workload maxPlacements fuel visited stages used nextLayer →
      (earlier.length : ℚ) < maxPlacements := fun earlier =>
    lt_of_le_of_lt (by exact_mod_cast earlier.length_le) uncut
  have open_ : ¬maxPlacements ≤ visited.length := not_le.2 (below (visit_grows ..))
  induction rest generalizing first fuel visited stages used nextLayer with
  | nil =>
    have done : nextLayer = model.layers.length := reaches
    unfold visit
    rw [if_neg open_, if_pos done]
    simp
  | cons stage rest ih =>
    obtain ⟨rfl, inside, unused, ⟨node, member, name, ends⟩, reaches⟩ := reaches
    rw [List.length_cons, Nat.cast_succ] at short
    rw [List.length_cons] at enough
    obtain ⟨fuel, rfl⟩ : ∃ k, fuel = k + 1 := ⟨fuel - 1, by omega⟩
    have room : ¬workload.maxStages ≤ stages.length := by
      have := Nat.cast_nonneg (α := ℚ) rest.length
      linarith
    -- the loops over the nodes and over the ends come to this stage, and only add to what they have
    have step : visit model topology workload maxPlacements (fuel + 1) visited stages used
        stage.layerStart = topology.nodes.foldl
        (visitNode model workload (visit model topology workload maxPlacements fuel) stages used
          stage.layerStart) visited := by
      rw [visit, if_neg open_, if_neg inside.ne, if_neg room]
    have grows : ∀ acc node, acc <+: visitNode model workload
        (visit model topology workload maxPlacements fuel) stages used stage.layerStart acc node :=
      visitNode_grows (visit_grows maxPlacements fuel) stages used _
    obtain ⟨acc, outer⟩ := exists_prefix_foldl grows member visited
    rw [← step, visitNode, if_neg (by simpa [name] using unused), name, ← start] at outer
    obtain ⟨mid, found⟩ := exists_prefix_foldl (f := fun visited e =>
      visit model topology workload maxPlacements fuel visited
        (stages ++ [⟨stage.nodeId, stage.layerStart, e⟩]) (used ++ [stage.nodeId]) e)
        (fun acc e => visit_grows ..) ends acc
    have deeper := found.trans outer
    have here := ih reaches (by simp) (by omega) (by simp; linarith) (below deeper)
      (fun earlier => below (earlier.trans deeper))
      (not_le.2 (below ((visit_grows ..).trans deeper)))
    rw [List.append_assoc, List.singleton_append] at here
    exact deeper.subset here

section Optimal

variable (workload options plan) in
/-- A plan over the candidates, with a micro-batch that the sequences can fill. -/
structure Candidate : Prop where
  codec : plan.codec ∈ options.candidateCodecs
  microBatchSize : plan.microBatchSize ∈ options.candidateMicroBatchSizes
  filled : plan.microBatchSize ≤ workload.concurrentSequences
  prefillChunkTokens : plan.prefillChunkTokens ∈ options.candidatePrefillChunks

theorem mem_candidatePlans :
    plan ∈ candidatePlans workload options algorithm stages ↔
      Candidate workload options plan ∧ plan.algorithm = algorithm ∧ plan.stages = stages := by
  simp only [candidatePlans, List.mem_flatMap, List.mem_filter, List.mem_map, decide_eq_true_eq]
  constructor
  · rintro ⟨codec, hcodec, size, ⟨hsize, filled⟩, chunk, hchunk, rfl⟩
    exact ⟨⟨hcodec, hsize, filled, hchunk⟩, rfl, rfl⟩
  · rintro ⟨candidate, rfl, rfl⟩
    exact ⟨_, candidate.codec, _, ⟨candidate.microBatchSize, candidate.filled⟩, _,
      candidate.prefillChunkTokens, rfl⟩

variable {metrics : DistributionMetrics}

theorem evaluatePlan_of_ok
    (h : evaluateDistributionPlan model topology workload plan = .ok metrics) :
    evaluatePlan model topology workload plan = some ⟨plan, metrics, h⟩ := by
  unfold evaluatePlan
  split
  · rename_i found evaluated
    obtain rfl := ok_unique h evaluated
    rfl
  · rename_i failed
    cases h.symm.trans failed

theorem plan_of_evaluatePlan (h : evaluatePlan model topology workload plan = some tuned) :
    tuned.plan = plan := by
  unfold evaluatePlan at h
  split at h
  · obtain rfl := Option.some.inj h
    rfl
  · cases h

variable (options) in
theorem exists_bestOf (member : other ∈ tuned) :
    ∃ best, bestOf model topology workload options tuned = some best ∧
      best.objective options.objectiveWeights ≤ other.objective options.objectiveWeights := by
  cases found : bestOf model topology workload options tuned with
  | none =>
    rw [List.argmin_eq_none.1 found] at member
    cases member
  | some best => exact ⟨best, rfl, List.le_of_mem_argmin member found⟩

theorem candidate_of_tunePlacement
    (h : tunePlacement model topology workload options algorithm stages = some tuned) :
    Candidate workload options tuned.plan := by
  obtain ⟨plan, member, evaluated⟩ :=
    List.mem_filterMap.1 (List.argmin_mem (show tuned ∈ List.argmin _ _ from h))
  rw [plan_of_evaluatePlan evaluated]
  exact (mem_candidatePlans.1 member).1

theorem exists_tunePlacement (algorithm : String)
    (h : evaluateDistributionPlan model topology workload plan = .ok metrics)
    (candidate : Candidate workload options plan) :
    ∃ tuned, tunePlacement model topology workload options algorithm plan.stages = some tuned ∧
      tuned.objective options.objectiveWeights ≤ objectiveOf metrics options.objectiveWeights := by
  have evaluated : evaluateDistributionPlan model topology workload (plan.named algorithm) =
    .ok metrics := h
  have member : plan.named algorithm ∈ candidatePlans workload options algorithm plan.stages :=
    mem_candidatePlans.2 ⟨⟨candidate.codec, candidate.microBatchSize, candidate.filled,
      candidate.prefillChunkTokens⟩, rfl, rfl⟩
  have tried : ⟨plan.named algorithm, metrics, evaluated⟩ ∈
      (candidatePlans workload options algorithm plan.stages).filterMap
      (evaluatePlan model topology workload) :=
    List.mem_filterMap.2 ⟨_, member, evaluatePlan_of_ok evaluated⟩
  obtain ⟨best, chosen, le⟩ := exists_bestOf options tried
  exact ⟨best, chosen, le⟩

theorem counts_nonneg (checked : Checked model workload plan) :
    0 ≤ workload.contextTokens ∧ 0 ≤ workload.concurrentSequences := by
  have positive : ∀ name x, (name, x) ∈ counts workload plan → 0 ≤ x := fun name x member =>
    le_trans zero_le_one (checked.counts _ member).2.2
  exact ⟨positive "context_tokens" _ (by simp [counts]),
    positive "concurrent_sequences" _ (by simp [counts])⟩

theorem reaches_of_evaluated
    (h : evaluateDistributionPlan model topology workload plan = .ok metrics) :
    Reaches model topology workload true [] 0 plan.stages := by
  obtain ⟨checked, placed, head, located, served⟩ := evaluateDistributionPlan_eq_ok h
  rw [← located.stages]
  refine reaches_of_routed (counts_nonneg checked).1 (counts_nonneg checked).2 located.nodes
    served.routed ?_ ?_
  · rw [located.stages]
    exact checked.coverage
  · rw [located.stages]
    exact checked.distinct

theorem mem_visitedPlacements
    (h : evaluateDistributionPlan model topology workload plan = .ok metrics)
    (uncut : (visitedPlacements model topology workload maxPlacements).length < maxPlacements) :
    plan.stages ∈ visitedPlacements model topology workload maxPlacements := by
  obtain ⟨checked, -⟩ := evaluateDistributionPlan_eq_ok h
  have layers : ∀ (stages : List StagePlacement) (nextLayer : Nat),
      coversFrom model.layers.length nextLayer stages = true →
      nextLayer + stages.length ≤ model.layers.length := by
    intro stages
    induction stages with
    | nil => simp +contextual [coversFrom]
    | cons stage stages ih =>
      intro nextLayer covers
      simp only [coversFrom, Bool.and_eq_true, decide_eq_true_eq] at covers
      have := ih _ covers.2
      rw [List.length_cons]
      omega
  exact mem_visit (reaches_of_evaluated h) rfl (by simpa using layers _ 0 checked.coverage)
    (by simpa using checked.stageCount) uncut

/-- Every plan is feasible on the topology the planner was given, and a search that is not cut off
finds a best one. -/
theorem planners_are_sound_and_exhaustive_is_optimal (model : DistributedModelProfile)
    (topology : DistributionTopology) (workload : DistributionWorkload) (options : SearchOptions)
    (fleet : FleetPlannerOptions) (log2 : ℚ → ℚ) (maxPlacements : ℚ) :
    (∀ plan, some plan ∈ [vramGreedyPlan model topology workload options,
        proportionalComputePlan model topology workload options,
        orderedDynamicProgrammingPlan model topology workload options,
        topologyBeamPlan model topology workload options,
        fleetTopologyPlan model topology workload options fleet log2,
        exhaustiveTopologyPlan model topology workload options maxPlacements] →
      feasible model topology workload plan = true) ∧
    ((visitedPlacements model topology workload maxPlacements).length < maxPlacements →
      match exhaustiveTopologyPlan model topology workload options maxPlacements with
      | none =>
        ∀ plan, Candidate workload options plan → feasible model topology workload plan = false
      | some best => Candidate workload options best ∧
        ∀ plan, Candidate workload options plan → ∀ cost ∈ distributionObjective
          (evaluateDistributionPlan model topology workload plan) options.objectiveWeights,
          ∃ least ∈ distributionObjective (evaluateDistributionPlan model topology workload best)
            options.objectiveWeights, least ≤ cost) := by
  constructor
  · intro plan member
    simp only [List.mem_cons, List.not_mem_nil, or_false] at member
    rcases member with h | h | h | h | h | h
    · exact feasible_of_map h.symm
    · exact feasible_of_map h.symm
    · exact feasible_of_map h.symm
    · exact feasible_topologyBeamPlan h.symm
    · exact feasible_fleetTopologyPlan h.symm
    · exact feasible_of_map h.symm
  · intro uncut
    -- a feasible candidate is tuned when its placement is visited, to something no worse
    have best : ∀ plan, Candidate workload options plan → ∀ metrics,
        evaluateDistributionPlan model topology workload plan = .ok metrics → ∃ best,
          bestOf model topology workload options
          ((visitedPlacements model topology workload maxPlacements).filterMap
            (tunePlacement model topology workload options "exhaustive-optimal")) = some best ∧
          best.objective options.objectiveWeights ≤
          objectiveOf metrics options.objectiveWeights := by
      intro plan candidate metrics evaluated
      obtain ⟨tuned, found, le⟩ := exists_tunePlacement "exhaustive-optimal" evaluated candidate
      obtain ⟨best, chosen, least⟩ := exists_bestOf options
        (List.mem_filterMap.2 ⟨_, mem_visitedPlacements evaluated uncut, found⟩)
      exact ⟨best, chosen, least.trans le⟩
    unfold exhaustiveTopologyPlan
    cases chosen : bestOf model topology workload options
        ((visitedPlacements model topology workload maxPlacements).filterMap
          (tunePlacement model topology workload options "exhaustive-optimal")) with
    | none =>
      intro plan candidate
      by_contra possible
      obtain ⟨metrics, evaluated⟩ := feasible_iff.1 (Bool.eq_true_of_not_eq_false possible)
      obtain ⟨best, found, -⟩ := best plan candidate metrics evaluated
      rw [chosen] at found
      cases found
    | some tuned =>
      constructor
      · obtain ⟨stages, -, found⟩ :=
          List.mem_filterMap.1 (List.argmin_mem (show tuned ∈ List.argmin _ _ from chosen))
        exact candidate_of_tunePlacement found
      intro plan candidate cost member
      cases evaluated : evaluateDistributionPlan model topology workload plan with
      | error e => simp [evaluated, distributionObjective] at member
      | ok metrics =>
        obtain ⟨best, found, le⟩ := best plan candidate metrics evaluated
        obtain rfl := Option.mem_unique chosen found
        simp only [evaluated, distributionObjective, Option.mem_some_iff] at member
        subst member
        exact ⟨_, by rw [tuned.evaluated]; rfl, le⟩

end Optimal

def tinyModel : DistributedModelProfile :=
    ⟨[⟨1, 1, 1, 1, 1, by decide, by decide⟩], 1, 1, false, 1, 1, 1, 1, 1,
  by decide, by decide⟩

def tinyTopology : DistributionTopology :=
  ⟨[⟨"a", "home", 100, 0, 1, 1, 1, 1, 1, 1, 1, none, none⟩], []⟩

def tinyWorkload : DistributionWorkload := ⟨1, 1, 1, 1, 1, 1, 0, 0, false⟩

def tinyOptions (microBatchSize : ℚ) : SearchOptions :=
  ⟨1, [.fp16], [microBatchSize], [1], ⟨1, 1, 1, 1, 1⟩⟩

/-- Two layers, of which a node of the pair has memory for one. -/
def pairModel : DistributedModelProfile :=
  { tinyModel with layers := tinyModel.layers ++ tinyModel.layers }

def pairLink (fromId toId : String) : DirectedLinkProfile :=
  ⟨fromId, toId, 1, 0, none, 0, none, unlimited_pos⟩

def pairTopology : DistributionTopology where
  nodes := [⟨"a", "home", 5, 0, 1, 1, 1, 1, 1, 1, 1, none, none⟩,
    ⟨"b", "home", 5, 0, 2, 1, 1, 1, 1, 1, 1, none, none⟩]
  links := [pairLink "a" "b", pairLink "b" "a"]

def pairWorkload : DistributionWorkload := { tinyWorkload with maxStages := 2 }

def pairOptions : SearchOptions := { tinyOptions 1 with candidateCodecs := [.fp16, .int8] }

theorem pair_search_is_optimal :
    pairTopology.nodes.map (stageEnds pairModel pairWorkload · true 0) = [[1], [1]] ∧
      (visitedPlacements pairModel pairTopology pairWorkload 10).length < (10 : ℚ) ∧
      ∃ best, exhaustiveTopologyPlan pairModel pairTopology pairWorkload pairOptions 10 =
      some best ∧
        best.stages.length = 2 ∧ Candidate pairWorkload pairOptions best ∧
        ∀ plan, Candidate pairWorkload pairOptions plan → ∀ cost ∈ distributionObjective
          (evaluateDistributionPlan pairModel pairTopology pairWorkload plan)
          pairOptions.objectiveWeights,
          ∃ least ∈ distributionObjective (evaluateDistributionPlan pairModel pairTopology
            pairWorkload best) pairOptions.objectiveWeights, least ≤ cost := by
  have uncut : (visitedPlacements pairModel pairTopology pairWorkload 10).length < (10 : ℚ) := by
    decide +kernel
  have chosen : (exhaustiveTopologyPlan pairModel pairTopology pairWorkload pairOptions 10).map
      (·.stages.length) = some 2 := by decide +kernel
  obtain ⟨best, found, split⟩ := Option.map_eq_some_iff.mp chosen
  have optimal := (planners_are_sound_and_exhaustive_is_optimal pairModel pairTopology pairWorkload
    pairOptions ⟨1, 1, 1⟩ id 10).2 uncut
  rw [found] at optimal
  exact ⟨by decide +kernel, uncut, best, found, split, optimal⟩

theorem unfilled_micro_batch_is_skipped :
    (visitedPlacements tinyModel tinyTopology tinyWorkload 10).length < (10 : ℚ) ∧
      exhaustiveTopologyPlan tinyModel tinyTopology tinyWorkload (tinyOptions 2) 10 = none ∧
      feasible tinyModel tinyTopology tinyWorkload ⟨⟨.fp16, 2, 1⟩, "any", [⟨"a", 0, 1⟩]⟩ = true :=
  ⟨by decide +kernel, by decide +kernel, by decide +kernel⟩

end Mycellios.Planning
