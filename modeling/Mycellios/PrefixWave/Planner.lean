import Mycellios.Data.Dict
import Mycellios.Data.OrderedTree

namespace Mycellios.PrefixWave

open Data

variable {ν : Type}

structure Fork (ν : Type) where
  (sequenceIndex forkId frontierIndex : Nat)
  divergence : ν
  sourceLane : Nat
  targetLane : Nat
  targetChild : ν

structure Segment (ν : Type) where
  (sequenceIndex segmentId frontierIndex groupId lane : Nat)
  parent : ν
  nodes : List ν
  startDepth : Nat
  endDepth : Nat

inductive Operation (ν : Type)
  | fork (f : Fork ν)
  | segment (s : Segment ν)

structure Group where
  (groupId frontierIndex startDepth tokenCount firstSegment : Nat)
  segmentIds : List Nat
  firstOperation : Nat
  lastOperation : Nat

/-- `_SegmentSpec`: a chain and the lane it is computed on. -/
structure SegmentSpec (ν : Type) where
  lane : Nat
  limb : Limb ν

def SegmentSpec.tokenCount (spec : SegmentSpec ν) : Nat := spec.limb.nodes.length

structure Planner (ν : Type) where
  laneOf : Dict ν Nat
  nextLane : Nat
  operations : List (Operation ν)
  forks : List (Fork ν)
  segments : List (Segment ν)
  groups : List Group
  frontierIndex : Nat

/-- A leaf in a frontier, a node without a lane (`KeyError`), or no end within as many rounds as
nodes. -/
inductive PlanError
  | leafInFrontier | unassigned | unfinished

variable [DecidableEq ν] (t : OrderedTree ν) (path : ν → List Nat)

def Planner.init : Planner ν where
  laneOf := Dict.empty.insert t.root 0
  nextLane := 1
  operations := []
  forks := []
  segments := []
  groups := []
  frontierIndex := 0

def assigned (laneOf : Dict ν Nat) (node : ν) : Except PlanError Nat :=
  match laneOf.find? node with
  | some lane => .ok lane
  | none => .error .unassigned

section Forks

variable (index : Nat)

def forkChild (parent : ν) (source : Nat) (st : Planner ν) (child : ν) : Planner ν :=
  let fork : Fork ν :=
    { sequenceIndex := st.operations.length
      forkId := st.forks.length
      frontierIndex := index
      divergence := parent
      sourceLane := source
      targetLane := st.nextLane
      targetChild := child }
  { st with
    laneOf := st.laneOf.insert child st.nextLane
    nextLane := st.nextLane + 1
    forks := st.forks ++ [fork]
    operations := st.operations ++ [.fork fork] }

def openParents : List ν → Planner ν → Except PlanError (Planner ν)
  | [], st => .ok st
  | parent :: parents, st =>
    match t.children parent with
    | [] => .error .leafInFrontier
    | primary :: others => do
      let source ← assigned st.laneOf parent
      openParents parents
        (others.foldl (forkChild index parent source) { st with
          laneOf := st.laneOf.insert primary source })

end Forks

section Chains

variable (size : Nat)

/-- The second phase: the maximal unary chain behind each child, all on the child's lane. -/
def discoverChains :
    List (ν × ν) → Dict ν Nat → Except PlanError (List (SegmentSpec ν) × Dict ν Nat)
  | [], laneOf => .ok ([], laneOf)
  | (parent, first) :: pairs, laneOf => do
    let lane ← assigned laneOf first
    match t.chain size first with
    | none => .error .unfinished
    | some rest =>
      let (specs, laneOf) ← discoverChains pairs
        (rest.foldl (fun d node => d.insert node lane) laneOf)
      pure (⟨lane, parent, first, rest⟩ :: specs, laneOf)

end Chains

/-- The sort key `(start_depth, token_count, path of the first node)`. -/
def specLe (a b : SegmentSpec ν) : Prop :=
  t.depth a.limb.parent < t.depth b.limb.parent ∨
    t.depth a.limb.parent = t.depth b.limb.parent ∧
      (a.tokenCount < b.tokenCount ∨ a.tokenCount = b.tokenCount ∧
        path a.limb.first ≤ path b.limb.first)

instance : DecidableRel (specLe t path) := fun _ _ => inferInstanceAs (Decidable (_ ∨ _))

def compatible (a b : SegmentSpec ν) : Bool :=
  t.depth a.limb.parent = t.depth b.limb.parent ∧ a.tokenCount = b.tokenCount

section Emit

variable (index : Nat)

def emitSegment (groupId : Nat) (st : Planner ν) (spec : SegmentSpec ν) : Planner ν :=
  let segment : Segment ν :=
    { sequenceIndex := st.operations.length
      segmentId := st.segments.length
      frontierIndex := index
      groupId := groupId
      lane := spec.lane
      parent := spec.limb.parent
      nodes := spec.limb.nodes
      startDepth := t.depth spec.limb.parent
      endDepth := t.depth spec.limb.parent + spec.tokenCount }
  { st with
    segments := st.segments ++ [segment], operations := st.operations ++ [.segment segment] }

def emitGroups : List (List (SegmentSpec ν)) → Planner ν → Planner ν
  | [], st => st
  | [] :: groups, st => emitGroups groups st
  | (spec :: specs) :: groups, st =>
    let emitted := (spec :: specs).foldl (emitSegment t index st.groups.length) st
    let group : Group :=
      { groupId := st.groups.length
        frontierIndex := index
        startDepth := t.depth spec.limb.parent
        tokenCount := spec.tokenCount
        firstSegment := st.segments.length
        segmentIds := (emitted.segments.drop st.segments.length).map (·.segmentId)
        firstOperation := st.operations.length
        lastOperation := emitted.operations.length - 1 }
    emitGroups groups { emitted with groups := emitted.groups ++ [group] }

end Emit

def sortNodes (nodes : List ν) : List ν := nodes.insertionSort fun a b => path a ≤ path b

/-- One round of the loop; also the next frontier. -/
def runFrontier (size index : Nat) (frontier : List ν) (st : Planner ν) :
    Except PlanError (Planner ν × List ν) := do
  let parents := sortNodes path frontier
  let opened ← openParents t index parents st
  let (specs, laneOf) ← discoverChains t size
    (parents.flatMap fun parent => (t.children parent).map fun child => (parent, child))
    opened.laneOf
  let sorted := specs.insertionSort (specLe t path)
  let emitted := emitGroups t index (sorted.splitBy (compatible t)) { opened with laneOf := laneOf }
  let ends := (sorted.map (·.limb.last)).filter fun node => 1 < (t.children node).length
  pure ({ emitted with frontierIndex := index + 1 }, sortNodes path ends)

def planFrontiers (size : Nat) : (fuel index : Nat) → List ν → Planner ν →
    Except PlanError (Planner ν)
  | _, _, [], st => .ok st
  | 0, _, _ :: _, _ => .error .unfinished
  | fuel + 1, index, parent :: parents, st => do
    let (st, next) ← runFrontier t path size index (parent :: parents) st
    planFrontiers size fuel (index + 1) next st

def planTree (size : Nat) : Except PlanError (Planner ν) :=
  planFrontiers t path size size 0 [t.root] (Planner.init t)

end Mycellios.PrefixWave
