import Mycellios.PrefixWave.Plan

namespace Mycellios.PrefixWave

open Data List Logic MacroWave

abbrev TokenLanes := Nat → Option (List Nat)

def PrefixSegmentOperation.run : PrefixSegmentOperation → TokenLanes → Option TokenLanes
  | .fork f, lanes =>
    match lanes f.sourceLaneId, lanes f.targetLaneId with
    | some tokens, none => some (Function.update lanes f.targetLaneId (some tokens))
    | _, _ => none
  | .segment s, lanes =>
    match lanes s.laneId with
    | some tokens => some (Function.update lanes s.laneId (some (tokens ++ s.tokens)))
    | none => none

def runOperations : List PrefixSegmentOperation → TokenLanes → Option TokenLanes
  | [], lanes => some lanes
  | op :: ops, lanes => op.run lanes >>= runOperations ops

def emptyLane : TokenLanes := fun lane => if lane = 0 then some [] else none

def PrefixSegmentSchedule.prefixOf (s : PrefixSegmentSchedule) (id : Nat) : Option (List Nat) :=
  s.nodes[id]?.map (·.tokens)

def PrefixSegmentSchedule.childrenOf (s : PrefixSegmentSchedule) (id : Nat) : List Nat :=
  (s.nodes[id]?.map (·.childNodeIds)).getD []

def PrefixSegmentOperation.Finds (s : PrefixSegmentSchedule) (lanes : TokenLanes) :
    PrefixSegmentOperation → Prop
  | .fork f =>
    s.prefixOf f.divergenceNodeId = some f.tokens ∧ lanes f.sourceLaneId = some f.tokens ∧
      lanes f.targetLaneId = none
  | .segment g => ∃ parent, s.prefixOf g.parentNodeId = some parent ∧ lanes g.laneId = some parent

def PrefixSegmentOperation.frontierIndex : PrefixSegmentOperation → Nat
  | .fork f => f.frontierIndex
  | .segment g => g.frontierIndex

def PrefixSegmentOperation.fork? : PrefixSegmentOperation → Option PrefixSegmentFork
  | .fork f => some f
  | .segment _ => none

def PrefixSegmentOperation.segment? : PrefixSegmentOperation → Option PrefixComputeSegment
  | .fork _ => none
  | .segment g => some g

/-- A segment is a maximal unary chain of the trie below the root or below a divergence. -/
structure PrefixComputeSegment.Unary (s : PrefixSegmentSchedule) (g : PrefixComputeSegment) :
    Prop where
  parent : g.parentNodeId = 0 ∨ 1 < (s.childrenOf g.parentNodeId).length
  first : ∃ id, g.nodeIds.head? = some id ∧ id ∈ s.childrenOf g.parentNodeId
  chain : List.IsChain (fun a b => s.childrenOf a = [b]) g.nodeIds
  last : ∃ id, g.nodeIds.getLast? = some id ∧ (s.childrenOf id).length ≠ 1

structure PrefixSegmentSchedule.Executes (s : PrefixSegmentSchedule) (shared : List Nat)
    (candidates : List (List Nat)) : Prop where
  accepts : s.candidatePaths.Perm candidates
  forks : s.operations.filterMap PrefixSegmentOperation.fork? = s.forks
  segments : s.operations.filterMap PrefixSegmentOperation.segment? = s.segments
  finds : ∀ before op behind, s.operations = before ++ op :: behind →
    ∃ lanes, runOperations before emptyLane = some lanes ∧ op.Finds s lanes
  ends : ∃ lanes, runOperations s.operations emptyLane = some lanes ∧
    ∀ leaf ∈ s.leaves, lanes leaf.laneId = some (shared ++ leaf.candidatePath)
  leaves : s.leaves.map (·.candidatePath) = s.candidatePaths
  computes : ∀ g ∈ s.segments, ∃ parent, s.prefixOf g.parentNodeId = some parent ∧
    g.nodeIds.map s.prefixOf = (List.range g.tokens.length).map fun k =>
    some (parent ++ g.tokens.take (k + 1))
  once : ((s.segments.flatMap (·.nodeIds)).map s.prefixOf).Nodup
  all : ∀ tokens, some tokens ∈ (s.segments.flatMap (·.nodeIds)).map s.prefixOf ↔
    tokens ≠ [] ∧ ∃ path ∈ candidates, tokens <+: shared ++ path
  forksFirst : s.operations.Pairwise fun a b => a.frontierIndex < b.frontierIndex ∨
    a.frontierIndex = b.frontierIndex ∧ (a.segment?.isSome → b.segment?.isSome)
  laneCount : s.cost.laneCount = s.leaves.length
  forkCount : s.cost.forkCount + 1 = s.leaves.length ∧ s.cost.forkCount = s.forks.length
  unary : ∀ g ∈ s.segments, g.Unary s

variable {nodes : List (List Nat)} {p : List Nat} {g : Segment (List Nat)}

def Grows (a b : List Nat) : Prop := ∃ token, b = a ++ [token]

theorem Grows.eq (h : Grows a b) : b = a ++ [lastToken b] := by
  obtain ⟨token, rfl⟩ := h
  rw [lastToken, getLastD_concat]

theorem grows_take (chain : List.IsChain Grows (p :: nodes)) :
    nodes = (List.range nodes.length).map fun k => p ++ (nodes.map lastToken).take (k + 1) := by
  induction nodes generalizing p with
  | nil => rfl
  | cons q nodes ih =>
    obtain ⟨grows, chain⟩ := isChain_cons_cons.mp chain
    have here := grows.eq
    rw [length_cons, range_succ_eq_map, map_cons, map_map]
    congr 1
    conv_lhs => rw [ih chain]
    refine map_congr_left fun k _ => ?_
    rw [Function.comp_apply, map_cons, take_succ_cons]
    nth_rewrite 1 [here]
    rw [append_assoc, singleton_append]

theorem grows_last (chain : List.IsChain Grows (p :: nodes)) :
    nodes.getLastD p = p ++ nodes.map lastToken := by
  induction nodes generalizing p with
  | nil => simp
  | cons q nodes ih =>
    obtain ⟨grows, chain⟩ := isChain_cons_cons.mp chain
    rw [getLastD_cons, ih chain, map_cons]
    nth_rewrite 1 [grows.eq]
    rw [append_assoc, singleton_append]

theorem limb_grows (closed : PrefixClosed ordered) {l : Limb (List Nat)}
    (max : l.Maximal (trie ordered)) : List.IsChain Grows (l.parent :: l.nodes) := by
  have step : ∀ a b, b ∈ (trie ordered).children a → Grows a b := fun a b child =>
    (closed.mem_children.mp child).2
  have only : ∀ a b, (trie ordered).children a = [b] → Grows a b := fun a b only =>
    step a b (only ▸ mem_singleton_self b)
  exact isChain_cons_cons.mpr ⟨step _ _ max.child, max.chain.isChain.imp only⟩

section Tables

variable {ordered fullPaths paths : List (List Nat)} {shared : List Nat} {st : Planner (List Nat)}
  {s : PrefixSegmentSchedule}

theorem zip_map_self (f : α → β) (xs : List α) : xs.zip (xs.map f) = xs.map fun x => (x, f x) := by
  have both : (xs.map id).zip (xs.map f) = xs.map fun x => (x, f x) := zip_map'
  rwa [map_id] at both

theorem nodeId_root (closed : PrefixClosed ordered) : nodeId ordered [] = 0 := by
  obtain ⟨rest, rfl⟩ := head?_eq_some_iff.mp closed.head
  exact idxOf_cons_self

theorem Scheduled.prefixOf (h : Scheduled ordered fullPaths paths st s) (mem : p ∈ ordered) :
    s.prefixOf (nodeId ordered p) = some p := by
  obtain ⟨node, found, of⟩ := forall₂_getElem? h.nodes (getElem?_nodeId mem)
  rw [PrefixSegmentSchedule.prefixOf, found, Option.map_some, of.tokens]

theorem Scheduled.childrenOf (h : Scheduled ordered fullPaths paths st s)
    (mem : p ∈ ordered) :
    s.childrenOf (nodeId ordered p) = (childrenIn ordered p).map (nodeId ordered) := by
  obtain ⟨node, found, of⟩ := forall₂_getElem? h.nodes (getElem?_nodeId mem)
  rw [PrefixSegmentSchedule.childrenOf, found, Option.map_some, Option.getD_some, of.children]

theorem Scheduled.map_prefixOf (h : Scheduled ordered fullPaths paths st s)
    (mem : ∀ p ∈ nodes, p ∈ ordered) :
    (nodes.map (nodeId ordered)).map s.prefixOf = nodes.map some := by
  rw [map_map]
  exact map_congr_left fun p listed => h.prefixOf (mem p listed)

theorem Scheduled.leaf_of_mem (h : Scheduled ordered (paths.map (shared ++ ·)) paths st s)
    (mem : leaf ∈ s.leaves) : ∃ path ∈ paths, leaf.candidatePath = path ∧
      st.laneOf.find? (shared ++ path) = some leaf.laneId := by
  obtain ⟨i, found⟩ := mem_iff_getElem?.mp mem
  obtain ⟨entry, listed, of⟩ := forall₂_getElem? h.leaves.flip found
  have inside : entry.1 ∈ paths.zip (paths.map (shared ++ ·)) :=
    fst_mem_of_mem_zipIdx (mem_of_getElem? listed)
  rw [zip_map_self] at inside
  obtain ⟨path, member, same⟩ := mem_map.mp inside
  refine ⟨path, member, ?_, ?_⟩
  · rw [of.candidatePath, ← same]
  · rw [← of.lane, ← same]

theorem Scheduled.map_candidatePath (h : Scheduled ordered (paths.map (shared ++ ·)) paths st s) :
    s.leaves.map (·.candidatePath) = paths := by
  have each : ∀ {entries : List ((List Nat × List Nat) × Nat)} {leaves : List PrefixSegmentLeaf},
      List.Forall₂ (PrefixSegmentLeaf.Of st.laneOf) entries leaves →
        leaves.map (·.candidatePath) = entries.map (·.1.1) := by
    intro entries leaves of
    induction of with
    | nil => rfl
    | cons here _ ih => rw [map_cons, map_cons, here.candidatePath, ih]
  calc s.leaves.map (·.candidatePath)
      = ((paths.zip (paths.map (shared ++ ·))).zipIdx.map Prod.fst).map Prod.fst := by
        rw [each h.leaves, map_map]
        rfl
    _ = paths := by
        rw [zipIdx_map_fst, zip_map_self, map_map]
        exact map_id' paths

theorem Scheduled.chainOf (h : Scheduled ordered fullPaths paths st s)
    (mem : ∀ p ∈ nodes, p ∈ ordered)
    (chain : List.IsChain (fun a b => (trie ordered).children a = [b]) nodes) :
    List.IsChain (fun a b => s.childrenOf a = [b]) (nodes.map (nodeId ordered)) := by
  refine (isChain_map _).mpr ?_
  refine (List.IsChain.imp_of_mem_imp · chain) fun a b listed _ only => ?_
  rw [h.childrenOf (mem a listed)]
  exact congrArg (List.map (nodeId ordered)) only

theorem Scheduled.unary (h : Scheduled ordered fullPaths paths st s) (closed : PrefixClosed ordered)
    (max : g.Maximal (trie ordered)) (parent : g.parent ∈ ordered) :
    (g.schedule ordered).Unary s := by
  obtain ⟨l, limb, parentEq, nodesEq⟩ := max.limb
  have inside : ∀ p ∈ l.nodes, p ∈ ordered := limb.mem_nodes closed.wf (parentEq ▸ parent)
  have children := h.childrenOf parent
  refine ⟨?_, ⟨nodeId ordered l.first, ?_, ?_⟩, ?_, ⟨nodeId ordered l.last, ?_, ?_⟩⟩
  · refine max.divergence.imp (fun root => ?_) fun many => ?_
    · change nodeId ordered g.parent = 0
      rw [root]
      exact nodeId_root closed
    · change 1 < (s.childrenOf (nodeId ordered g.parent)).length
      rwa [children, length_map]
  · change (g.nodes.map (nodeId ordered)).head? = _
    rw [nodesEq]
    rfl
  · change _ ∈ s.childrenOf (nodeId ordered g.parent)
    rw [children, parentEq]
    exact mem_map_of_mem limb.child
  · change List.IsChain _ (g.nodes.map (nodeId ordered))
    rw [nodesEq]
    exact h.chainOf inside limb.chain.isChain
  · change (g.nodes.map (nodeId ordered)).getLast? = _
    rw [nodesEq, getLast?_map, Limb.nodes, getLast?_cons, ← getLastD_eq_getLast?]
    rfl
  · rw [h.childrenOf (inside _ l.last_mem), length_map]
    exact limb.chain.last_children

end Tables

section Runs

structure Segment.Inside (ordered : List (List Nat)) (g : Segment (List Nat)) : Prop where
  max : g.Maximal (trie ordered)
  parent : g.parent ∈ ordered
  nodes : ∀ p ∈ g.nodes, p ∈ ordered

theorem Segment.Inside.grows (inside : g.Inside ordered) (closed : PrefixClosed ordered) :
    List.IsChain Grows (g.parent :: g.nodes) := by
  obtain ⟨l, limb, parentEq, nodesEq⟩ := inside.max.limb
  rw [parentEq, nodesEq]
  exact limb_grows closed limb

theorem Segment.Inside.last (inside : g.Inside ordered) : g.nodes.getLastD g.parent ∈ ordered := by
  obtain ⟨l, -, -, nodesEq⟩ := inside.max.limb
  rw [nodesEq, Limb.nodes, getLastD_cons]
  exact inside.nodes _ (nodesEq ▸ l.last_mem)

def Operation.Inside (ordered : List (List Nat)) (op : Operation (List Nat)) : Prop :=
  ∀ g, op = .segment g → g.Inside ordered

def Known (ordered : List (List Nat)) (lanes : TokenLanes) : Prop :=
  ∀ lane p, lanes lane = some p → p ∈ ordered

theorem Known.update {lane : Nat} (known : Known ordered lanes) (mem : p ∈ ordered) :
    Known ordered (Function.update lanes lane (some p)) := by
  intro other q found
  by_cases same : other = lane
  · rw [same, Function.update_self] at found
    exact Option.some.inj found ▸ mem
  · rw [Function.update_of_ne same] at found
    exact known other q found

theorem run_schedule (closed : PrefixClosed ordered) {op : Operation (List Nat)}
    (inside : op.Inside ordered) (known : Known ordered lanes) (ran : op.run lanes = some lanes') :
    (op.schedule ordered).run lanes = some lanes' ∧ Known ordered lanes' ∧
      ∀ s : PrefixSegmentSchedule, (∀ p ∈ ordered, s.prefixOf (nodeId ordered p) = some p) →
        (op.schedule ordered).Finds s lanes := by
  cases op with
  | fork f =>
    rw [Operation.run, Option.ite_none_right_eq_some] at ran
    obtain ⟨⟨source, target⟩, done⟩ := ran
    have divergence := known _ _ source
    refine ⟨?_, Option.some.inj done ▸ known.update divergence,
      fun s named => ⟨named _ divergence, source, target⟩⟩
    rw [← done]
    simp only [Operation.schedule, Fork.schedule, PrefixSegmentOperation.run, source, target]
  | segment g =>
    rw [Operation.run, Option.ite_none_right_eq_some] at ran
    obtain ⟨held, done⟩ := ran
    have inside := inside g rfl
    refine ⟨?_, Option.some.inj done ▸ known.update inside.last,
      fun s named => ⟨g.parent, named _ inside.parent, held⟩⟩
    rw [← done, grows_last (inside.grows closed)]
    simp only [Operation.schedule, Segment.schedule, PrefixSegmentOperation.run, held]

theorem runOperations_schedule (closed : PrefixClosed ordered)
    (inside : ∀ op ∈ ops, op.Inside ordered) (known : Known ordered lanes)
    (ran : runAll ops lanes = some lanes') :
    runOperations (ops.map (Operation.schedule ordered)) lanes = some lanes' ∧
    Known ordered lanes' := by
  induction ops generalizing lanes with
  | nil => exact ⟨ran, Option.some.inj ran ▸ known⟩
  | cons op ops ih =>
    obtain ⟨here, inside⟩ := forall_mem_cons.mp inside
    obtain ⟨middle, first, rest⟩ := Option.bind_eq_some_iff.mp ran
    obtain ⟨step, known, -⟩ := run_schedule closed here known first
    rw [map_cons, runOperations, step]
    exact ih inside known rest

end Runs

section Correct

theorem Operation.schedule_fork? (ordered : List (List Nat)) (op : Operation (List Nat)) :
    (op.schedule ordered).fork? = op.fork?.map (Fork.schedule ordered) := by cases op <;> rfl

theorem Operation.schedule_segment? (ordered : List (List Nat)) (op : Operation (List Nat)) :
    (op.schedule ordered).segment? = op.segment?.map (Segment.schedule ordered) := by cases op
    <;> rfl

theorem Operation.schedule_frontierIndex (ordered : List (List Nat)) (op : Operation (List Nat)) :
    (op.schedule ordered).frontierIndex = op.frontierIndex := by cases op <;> rfl

theorem Accepted.executes (h : Accepted shared candidates paths) {lanes : TokenLanes}
    (scheduled : Scheduled (triePrefixes shared paths) (paths.map (shared ++ ·)) paths st s)
    (plans : st.Plans (Data.trie (triePrefixes shared paths)) (triePrefixes shared paths) lanes) :
    s.Executes shared candidates := by
  have tree : PathTrie (paths.map (shared ++ ·)) (triePrefixes shared paths) := h.trie
  set ordered := triePrefixes shared paths
  have computed : ∀ p, p ∈ st.segments.flatMap (·.nodes) → p ∈ ordered := fun p mem =>
    plans.reached.mem_iff.mp (mem_cons_of_mem _ mem)
  have inside : ∀ g ∈ st.segments, g.Inside ordered := by
    intro g mem
    refine ⟨plans.segments g mem, ?_, fun p listed => computed p (mem_flatMap.mpr ⟨g, mem, listed⟩)⟩
    rcases plans.earlier g mem with root | ⟨g', mem', -, listed⟩
    · exact root ▸ mem_of_head? tree.head
    · exact computed _ (mem_flatMap.mpr ⟨g', mem', listed⟩)
  have insideOps : ∀ op ∈ st.operations, op.Inside ordered := by
    rintro op mem g rfl
    refine inside g ?_
    rw [plans.numbered.segments]
    exact mem_filterMap.mpr ⟨_, mem, rfl⟩
  have start : Known ordered emptyLane := by
    intro lane p found
    rw [emptyLane, Option.ite_none_right_eq_some] at found
    exact Option.some.inj found.2 ▸ mem_of_head? tree.head
  have ids : (s.segments.flatMap (·.nodeIds)).map s.prefixOf = (st.segments.flatMap (·.nodes)).map
      Option.some := by
    rw [← scheduled.map_prefixOf computed, scheduled.segments, flatMap_map, map_flatMap, map_map,
      map_flatMap]
    simp only [Segment.schedule, map_map]
  have reachedNodup := plans.reached.nodup_iff.mpr tree.nodup
  have leafCount : s.leaves.length = paths.length := by
    rw [← scheduled.leaves.length_eq, length_zipIdx, length_zip, length_map, Nat.min_self]
  have laneCount : st.nextLane = paths.length := by
    have sizes := plans.leaves.length_eq
    rw [length_map, length_map, length_range] at sizes
    exact sizes.symm.trans (tree.leaves_perm.length_eq.trans (length_map _))
  exact {
    accepts := scheduled.candidatePaths ▸ h.perm
    forks := by
      rw [scheduled.operations, scheduled.forks, plans.numbered.forks, filterMap_map, map_filterMap]
      exact filterMap_congr fun op _ => op.schedule_fork? ordered
    segments := by
      rw [scheduled.operations, scheduled.segments, plans.numbered.segments, filterMap_map,
        map_filterMap]
      exact filterMap_congr fun op _ => op.schedule_segment? ordered
    finds := by
      intro before op behind split
      rw [scheduled.operations] at split
      obtain ⟨before', rest, operations, rfl, restEq⟩ := map_eq_append_iff.mp split
      obtain ⟨op', behind', rfl, rfl, -⟩ := map_eq_cons_iff.mp restEq
      have ran := plans.runs
      rw [operations, runAll_append] at ran
      obtain ⟨middle, first, rest⟩ := Option.bind_eq_some_iff.mp ran
      obtain ⟨last, step, -⟩ := Option.bind_eq_some_iff.mp rest
      rw [operations] at insideOps
      obtain ⟨ran', known⟩ := runOperations_schedule tree.closed
        (fun op mem => insideOps op (mem_append_left _ mem)) start first
      have here := insideOps op' (mem_append_right _ mem_cons_self)
      exact ⟨middle, ran', (run_schedule tree.closed here known step).2.2 s fun p mem =>
        scheduled.prefixOf mem⟩
    ends := by
      have ran := (runOperations_schedule tree.closed insideOps start plans.runs).1
      refine ⟨lanes, scheduled.operations ▸ ran, fun leaf mem => ?_⟩
      obtain ⟨path, listed, candidatePath, lane⟩ := scheduled.leaf_of_mem mem
      have full : shared ++ path ∈ paths.map (shared ++ ·) := mem_map_of_mem listed
      have known := tree.path_mem full
      rw [candidatePath]
      exact plans.content _ known ((tree.leaf_iff known).mpr full) _ lane
    leaves := by rw [scheduled.map_candidatePath, scheduled.candidatePaths]
    computes := by
      intro g mem
      rw [scheduled.segments] at mem
      obtain ⟨g', listed, rfl⟩ := mem_map.mp mem
      have here := inside g' listed
      refine ⟨g'.parent, scheduled.prefixOf here.parent, ?_⟩
      change (g'.nodes.map (nodeId ordered)).map s.prefixOf = _
      rw [scheduled.map_prefixOf here.nodes]
      conv_lhs => rw [grows_take (here.grows tree.closed), map_map]
      rw [Segment.schedule, length_map]
      rfl
    once := by
      rw [ids]
      exact (nodup_cons.mp reachedNodup).2.map (Option.some_injective _)
    all := by
      intro tokens
      rw [ids, mem_map_of_injective (Option.some_injective _)]
      have root : [] ∉ st.segments.flatMap (·.nodes) := (nodup_cons.mp reachedNodup).1
      have reached : tokens ∈ st.reached (Data.trie ordered) ↔ _ :=
        plans.reached.mem_iff.trans (tree.mem tokens)
      rw [Planner.reached, mem_cons, mem_prefixSet] at reached
      constructor
      · intro mem
        have some : tokens ≠ [] := fun empty => root (empty ▸ mem)
        obtain ⟨full, listed, pre⟩ := (reached.mp (.inr mem)).resolve_left some
        obtain ⟨path, member, rfl⟩ := mem_map.mp listed
        exact ⟨some, path, h.perm.mem_iff.mp member, pre⟩
      rintro ⟨some, path, member, pre⟩
      have full : shared ++ path ∈ paths.map (shared ++ ·) :=
        mem_map_of_mem (h.perm.mem_iff.mpr member)
      exact (reached.mpr (.inr ⟨_, full, pre⟩)).resolve_left some
    forksFirst := by
      rw [scheduled.operations]
      refine pairwise_map.mpr (plans.numbered.order.imp fun before => ?_)
      simpa only [Operation.schedule_frontierIndex, Operation.schedule_segment?, Option.isSome_map,
        Operation.Before] using before
    laneCount := by rw [scheduled.laneCount, leafCount, laneCount]
    forkCount := by
      have lanes := plans.numbered.lanes
      rw [scheduled.forkCount, leafCount, scheduled.forks, length_map]
      exact ⟨lanes.trans laneCount, rfl⟩
    unary := by
      intro g mem
      rw [scheduled.segments] at mem
      obtain ⟨g', listed, rfl⟩ := mem_map.mp mem
      exact scheduled.unary tree.closed (inside g' listed).max (inside g' listed).parent }

theorem compressed_trie_schedule (candidates : List (List Nat)) (shared : List Nat)
    (maxPaths maxDepth maxNodes : Nat) :
    (∀ paths, sortedCandidates candidates shared maxPaths maxDepth maxNodes = .ok paths →
      ∃ s, planPrefixSegmentSchedule candidates shared maxPaths maxDepth maxNodes = .ok s) ∧
    ∀ s, planPrefixSegmentSchedule candidates shared maxPaths maxDepth maxNodes = .ok s →
      s.Executes shared candidates := by
  constructor
  · intro paths sorted
    obtain ⟨st, lanes, s, returned, -⟩ := (sortedCandidates_ok sorted).scheduled
    exact ⟨s, by rw [planPrefixSegmentSchedule, sorted]; exact returned⟩
  intro s returned
  obtain ⟨paths, sorted, planned⟩ := (bind_eq_ok ..).mp returned
  have accepted := sortedCandidates_ok sorted
  obtain ⟨st, lanes, s', returned', scheduled, plans⟩ := accepted.scheduled
  obtain rfl := ok_unique planned returned'
  exact accepted.executes scheduled plans

theorem three_candidates_execute : ∃ s,
    planPrefixSegmentSchedule [[5, 6], [8], [5, 7, 9]] [1, 2] 64 64 4096 = .ok s ∧
      s.cost.laneCount = 3 ∧ s.Executes [1, 2] [[5, 6], [8], [5, 7, 9]] := by
  obtain ⟨s, returned⟩ := (compressed_trie_schedule [[5, 6], [8], [5, 7, 9]] [1, 2] 64 64 4096).1
    [[5, 6], [5, 7, 9], [8]] (by decide +kernel)
  have executes :=
    (compressed_trie_schedule [[5, 6], [8], [5, 7, 9]] [1, 2] 64 64 4096).2 s returned
  have lanes := executes.laneCount
  rw [← length_map (·.candidatePath), executes.leaves, executes.accepts.length_eq] at lanes
  exact ⟨s, returned, lanes, executes⟩

end Correct

end Mycellios.PrefixWave
