import Mycellios.Data.Python
import Mycellios.Data.Trie
import Mycellios.Logic.Wp
import Mycellios.MacroWave.Adapter
import Mycellios.PrefixWave.Planner

/-! `prefix_segment_schedule.py`. Token ids and limits are natural numbers. -/

namespace Mycellios.PrefixWave

open Data MacroWave

/-- `ValueError`, `RuntimeError`, `KeyError`, and a loop that has not ended. -/
inductive ScheduleError
  | value (message : String)
  | runtime (message : String)
  | key | unfinished
  deriving DecidableEq

def uint32Max : Nat := 2 ^ 32 - 1
def hardMaxPaths : Nat := 4096
def hardMaxDepth : Nat := 256
def hardMaxNodes : Nat := 65536

structure PrefixSegmentNode where
  nodeId : Nat
  parentNodeId : Option Nat
  laneId : Nat
  token : Option Nat
  depth : Nat
  (tokens childNodeIds descendantLeafIds : List Nat)
  terminal : Bool

structure PrefixSegmentLeaf where
  (leafId nodeId laneId : Nat)
  candidatePath : List Nat
  fullPath : List Nat

structure PrefixSegmentFork where
  (sequenceIndex forkId frontierIndex divergenceNodeId sourceLaneId targetLaneId : Nat)
  targetChildNodeId : Nat
  tokens : List Nat

structure PrefixComputeSegment where
  (sequenceIndex segmentId frontierIndex compatibleGroupId laneId parentNodeId : Nat)
  nodeIds : List Nat
  tokens : List Nat
  startDepth : Nat
  endDepth : Nat

inductive PrefixSegmentOperation
  | fork (f : PrefixSegmentFork)
  | segment (s : PrefixComputeSegment)

structure PrefixCompatibleFrontierGroup where
  (groupId frontierIndex startDepth tokenCount : Nat)
  segmentIds : List Nat
  firstOperationIndex : Nat
  lastOperationIndex : Nat

structure PrefixSegmentCostReport where
  (leafCount maximumDepth sharedPrefixTokenCount flatTokenSteps uniqueTokenSteps : Nat)
  (savedTokenSteps nodeCalls segmentCalls forkCount laneCount frontierCount : Nat)
  compatibleFrontierGroups : List PrefixCompatibleFrontierGroup

structure PrefixSegmentSchedule where
  sharedPrefixTokens : List Nat
  candidatePaths : List (List Nat)
  nodes : List PrefixSegmentNode
  leaves : List PrefixSegmentLeaf
  forks : List PrefixSegmentFork
  segments : List PrefixComputeSegment
  operations : List PrefixSegmentOperation
  compatibleFrontierGroups : List PrefixCompatibleFrontierGroup
  cost : PrefixSegmentCostReport

def boundedLimit (name : String) (value hardMaximum : Nat) : Except ScheduleError Unit :=
  if value < 1 ∨ hardMaximum < value then
    .error (.value (name ++ s!" must be an integer in [1, {hardMaximum}]"))
  else .ok ()

def checkToken (value : Nat) : Except ScheduleError Unit :=
  if uint32Max < value then .error (.value s!"token id must be an integer in [0, {uint32Max}]")
    else .ok ()

def checkTokens : List Nat → Except ScheduleError Unit
  | [] => .ok ()
  | token :: tokens => do
    checkToken token
    checkTokens tokens

/-- `_token_path`, which hands its argument on. -/
def tokenPath (name : String) (values : List Nat) (maximumDepth : Nat) (allowEmpty : Bool) :
    Except ScheduleError Unit := do
  if values = [] ∧ allowEmpty = false then throw (.value (name ++ " must not be empty"))
  if maximumDepth < values.length then
    throw (.value (name ++ s!" depth {values.length} exceeds limit {maximumDepth}"))
  checkTokens values

def candidatePathsOk (maximumDepth : Nat) : List (List Nat) → Except ScheduleError Unit
  | [] => .ok ()
  | path :: paths => do
    tokenPath "candidate path" path maximumDepth false
    candidatePathsOk maximumDepth paths

section Plan

/-- The prefixes in the order of `(len(item), item)`, the empty one first. -/
def orderedPrefixes (prefixes : List (List Nat)) : List (List Nat) :=
  [] :: (prefixes.filter (· ≠ [])).insertionSort pathLe

def PlanError.schedule : PlanError → ScheduleError
  | leafInFrontier => .runtime "leaf node unexpectedly entered a compute frontier"
  | unassigned => .key
  | unfinished => .unfinished

def planTrie (ordered : List (List Nat)) : Except ScheduleError (Planner (List Nat)) :=
  match planTree (trie ordered) id ordered.length with
  | .ok st => .ok st
  | .error e => .error e.schedule

variable (ordered fullPaths : List (List Nat))

def nodeId (p : List Nat) : Nat := ordered.idxOf p

def Fork.schedule (f : Fork (List Nat)) : PrefixSegmentFork where
  sequenceIndex := f.sequenceIndex
  forkId := f.forkId
  frontierIndex := f.frontierIndex
  divergenceNodeId := nodeId ordered f.divergence
  sourceLaneId := f.sourceLane
  targetLaneId := f.targetLane
  targetChildNodeId := nodeId ordered f.targetChild
  tokens := f.divergence

def Segment.schedule (s : Segment (List Nat)) : PrefixComputeSegment where
  sequenceIndex := s.sequenceIndex
  segmentId := s.segmentId
  frontierIndex := s.frontierIndex
  compatibleGroupId := s.groupId
  laneId := s.lane
  parentNodeId := nodeId ordered s.parent
  nodeIds := s.nodes.map (nodeId ordered)
  tokens := s.nodes.map lastToken
  startDepth := s.startDepth
  endDepth := s.endDepth

def Operation.schedule : Operation (List Nat) → PrefixSegmentOperation
  | .fork f => .fork (f.schedule ordered)
  | .segment s => .segment (s.schedule ordered)

def Group.schedule (g : Group) : PrefixCompatibleFrontierGroup where
  groupId := g.groupId
  frontierIndex := g.frontierIndex
  startDepth := g.startDepth
  tokenCount := g.tokenCount
  segmentIds := g.segmentIds
  firstOperationIndex := g.firstOperation
  lastOperationIndex := g.lastOperation

def keyed (x : Option α) : Except ScheduleError α :=
  match x with
  | some value => .ok value
  | none => .error .key

/-- The leaves below each of the prefixes, which come with the longest first. -/
def descendantLeaves : List (List Nat) → Dict (List Nat) (List Nat) →
    Except ScheduleError (Dict (List Nat) (List Nat))
  | [], below => .ok below
  | p :: prefixes, below => do
    let own := if p ∈ fullPaths then [fullPaths.idxOf p] else []
    let inherited ← (childrenIn ordered p).mapM fun child => keyed (below.find? child)
    descendantLeaves prefixes (below.insert p ((own ++ inherited.flatten).insertionSort (· ≤ ·)))

def makeNode (laneOf : Dict (List Nat) Nat) (below : Dict (List Nat) (List Nat)) (p : List Nat) :
    Except ScheduleError PrefixSegmentNode := do
  let lane ← keyed (laneOf.find? p)
  let leaves ← keyed (below.find? p)
  pure {
    nodeId := nodeId ordered p
    parentNodeId := if p = [] then none else some (nodeId ordered p.dropLast)
    laneId := lane
    token := p.getLast?
    depth := p.length
    tokens := p
    childNodeIds := (childrenIn ordered p).map (nodeId ordered)
    descendantLeafIds := leaves
    terminal := p ∈ fullPaths }

def makeLeaf (laneOf : Dict (List Nat) Nat) (entry : (List Nat × List Nat) × Nat) :
    Except ScheduleError PrefixSegmentLeaf := do
  let lane ← keyed (laneOf.find? entry.1.2)
  pure {
    leafId := entry.2
    nodeId := nodeId ordered entry.1.2
    laneId := lane
    candidatePath := entry.1.1
    fullPath := entry.1.2 }

/-- The checks of the arguments; the result is the sorted candidate paths. -/
def sortedCandidates (candidatePaths : List (List Nat)) (sharedPrefixTokens : List Nat)
    (maxPaths maxDepth maxNodes : Nat) : Except ScheduleError (List (List Nat)) := do
  boundedLimit "max_paths" maxPaths hardMaxPaths
  boundedLimit "max_depth" maxDepth hardMaxDepth
  boundedLimit "max_nodes" maxNodes hardMaxNodes
  tokenPath "shared_prefix_tokens" sharedPrefixTokens maxDepth true
  if candidatePaths = [] then throw (.value "candidate_paths must not be empty")
  if maxPaths < candidatePaths.length then
    throw (.value s!"candidate_paths contains {candidatePaths.length} paths, limit is {maxPaths}")
  candidatePathsOk (maxDepth - sharedPrefixTokens.length) candidatePaths
  let paths := candidatePaths.insertionSort (· ≤ ·)
  if ¬paths.Nodup then throw (.value "candidate_paths must not contain duplicates")
  if prefixesSuccessor paths then
    throw (.value "a candidate path cannot be a prefix of another path")
  let prefixes := prefixSet (paths.map (sharedPrefixTokens ++ ·))
  if maxNodes < prefixes.length then
    throw (.value s!"candidate trie contains {prefixes.length} nodes, limit is {maxNodes}")
  pure paths

def scheduleCandidates (sharedPrefixTokens : List Nat) (paths : List (List Nat)) :
    Except ScheduleError PrefixSegmentSchedule := do
  let fullPaths := paths.map (sharedPrefixTokens ++ ·)
  let prefixes := prefixSet fullPaths
  let ordered := orderedPrefixes prefixes
  let st ← planTrie ordered
  if st.laneOf.size ≠ prefixes.length then
    throw (.runtime "prefix-segment planner did not assign every trie node")
  let segments := st.segments.map (Segment.schedule ordered)
  let computed := segments.flatMap (·.nodeIds)
  if computed.length ≠ prefixes.length - 1 ∨ ¬computed.Nodup then
    throw (.runtime "prefix-segment planner did not compute each node once")
  let below ← descendantLeaves ordered fullPaths ordered.reverse Dict.empty
  let nodes ← ordered.mapM (makeNode ordered fullPaths st.laneOf below)
  let leaves ← (paths.zip fullPaths).zipIdx.mapM (makeLeaf ordered st.laneOf)
  let flatTokenSteps := (fullPaths.map List.length).sum
  let uniqueTokenSteps := prefixes.length - 1
  if flatTokenSteps < uniqueTokenSteps then
    throw (.runtime "prefix-segment planner produced negative compute saving")
  let groups := st.groups.map Group.schedule
  pure {
    sharedPrefixTokens := sharedPrefixTokens
    candidatePaths := paths
    nodes := nodes
    leaves := leaves
    forks := st.forks.map (Fork.schedule ordered)
    segments := segments
    operations := st.operations.map (Operation.schedule ordered)
    compatibleFrontierGroups := groups
    cost := {
      leafCount := paths.length
      maximumDepth := (fullPaths.map List.length).foldl max 0
      sharedPrefixTokenCount := sharedPrefixTokens.length
      flatTokenSteps := flatTokenSteps
      uniqueTokenSteps := uniqueTokenSteps
      savedTokenSteps := flatTokenSteps - uniqueTokenSteps
      nodeCalls := uniqueTokenSteps
      segmentCalls := segments.length
      forkCount := st.forks.length
      laneCount := st.nextLane
      frontierCount := st.frontierIndex
      compatibleFrontierGroups := groups } }

def planPrefixSegmentSchedule (candidatePaths : List (List Nat)) (sharedPrefixTokens : List Nat)
    (maxPaths maxDepth maxNodes : Nat) : Except ScheduleError PrefixSegmentSchedule := do
  let paths ← sortedCandidates candidatePaths sharedPrefixTokens maxPaths maxDepth maxNodes
  scheduleCandidates sharedPrefixTokens paths

end Plan

end Mycellios.PrefixWave
