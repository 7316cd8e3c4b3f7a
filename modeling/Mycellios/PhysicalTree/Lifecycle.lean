import Mycellios.Logic.History
import Mycellios.PhysicalTree.Coordinator

namespace Mycellios.PhysicalTree

open Data Logic MacroWave

inductive Event
  | prepared (ref : WaveRef) (ids : List Nat)
  | fork (id : Nat)
  | verify (id : Nat)
  | closed (id : Nat)
  | promoted (ref : WaveRef)
  | cancelled (ref : WaveRef)
  | fallback (ref : WaveRef)
  deriving DecidableEq

def TreePhase.early : TreePhase → Bool
  | .prepared | .forking | .verifying | .resolving => true
  | _ => false

def TreePhase.late : TreePhase → Bool
  | .truncating | .committed | .aborted => true
  | _ => false

def CleanupCommand.target : CleanupCommand → Option Nat
  | .finish id => some id
  | .promote _ id => some id
  | .truncate .. => none

/-- Losers end first, a truncation comes last, and no leaf is closed twice. -/
def CleanupCommand.Before (a b : CleanupCommand) : Prop :=
  ((∃ id, a = .finish id) ∨ ∃ r k, b = .truncate r k) ∧ ∀ id, a.target = some id →
    b.target ≠ some id

def Coordinator.Owns (c : Coordinator) (w : Wave) (id : Nat) (l : Leaf) : Prop :=
  id ∈ w.leaves ∧ c.leaves.find? id = some l

def Leaf.Owed (l : Leaf) : Prop := l.returnTombstone = true ∧ l.returnDrained = false

inductive WaveStep (c : Coordinator) (ref : WaveRef) (w : Wave) : List Event → Wave → Prop
  | fork (h : w.phase = .prepared) : WaveStep c ref w [] { w with phase := .forking }
  | verify (h : w.phase = .forking) (all : ∀ id l, c.Owns w id l → l.forkSent = true) :
    WaveStep c ref w [] { w with phase := .verifying }
  | resolve (h : w.phase = .verifying) : WaveStep c ref w [] { w with phase := .resolving }
  | merge (target : Dict (List Nat) Nat) (h : w.phase = .resolving) :
    WaveStep c ref w [] { w with targetArgmaxByPrefix := target }
  | plan (resolution : Resolution) (carrier : Nat) (first : CleanupCommand)
      (rest : List CleanupCommand) (phase : TreePhase) (h : w.phase = .resolving)
      (ordered : (first :: rest).Pairwise CleanupCommand.Before)
      (waits : w.abortReason = none → phase = w.phaseBefore first) :
    WaveStep c ref w [] { w with
      resolution := some resolution
      carrierRequestId := some carrier
      cleanupCommands := first :: rest
      cleanupIndex := 0
      phase := phase }
  | abort (reason : String) (healthy : w.routeFatal = false)
      (unrouted : ∀ id ∈ w.leaves, c.leafRoute.find? id = none)
      (owed : w.phase = .draining → ∃ id ∈ w.leaves, reason = timeoutReason id) :
    WaveStep c ref w [] { w with
      abortReason := some reason
      routeFatal := true
      cleanupCommands := []
      cleanupIndex := 0
      phase := .aborted }
  | fallback (reason : String) (h : w.phase = .prepared) :
    WaveStep c ref w [.fallback ref] { w with abortReason := some reason, phase := .aborted }
  | postpone : WaveStep c ref w [] { w with cancelRequested := true }
  | cancelCommitted (h : w.phase = .committed) :
    WaveStep c ref w [.cancelled ref] { w with
      phase := .aborted, cancelRequested := true, parentCancelSent := true }
  | cancel (waits : Bool) (h : w.phase.early = true)
      (owed : waits = true → (∃ id l, c.Owns w id l ∧ l.Owed) ∧
        ∀ id l, c.Owns w id l → (c.leafRoute.find? id).isSome → l.returnTombstone = true) :
    WaveStep c ref w [.cancelled ref] { w with
      abortReason := some "cancelled"
      cancelRequested := true
      parentCancelSent := true
      phase := if waits then .draining else .aborted }

inductive LeafStep (w : Wave) (l : Leaf) : List Event → Leaf → Prop
  | fork (h : w.phase = .forking) (fresh : l.forkSent = false) :
    LeafStep w l [.fork l.virtualRequestId] { l with forkSent := true }
  | verify (at_ : ℚ) (h : w.phase = .verifying) (fresh : l.verifySent = false) :
    LeafStep w l [.verify l.virtualRequestId] { l with
      verifySent := true, verifySentAt := some at_ }
  | result (targets : List Nat) (h : w.phase = .verifying) :
    LeafStep w l [] { l with result := some targets }
  | tombstone (h : w.phase.early = true) : LeafStep w l [] { l with returnTombstone := true }

def Coordinator.drain (c : Coordinator) (ref : WaveRef) (w : Wave) (l : Leaf) : Coordinator :=
  let c' := { c with
    leaves := c.leaves.insert l.virtualRequestId { l with returnDrained := true }
    leafRoute := c.leafRoute.erase l.virtualRequestId }
  { c' with waves := c'.waves.insert ref { w with
      phase := if (c'.outstandingTombstones w).isEmpty = true ∧
          (w.cleanupComplete = true ∨ w.phase = .draining) then .aborted else w.phase } }

def Coordinator.close (c : Coordinator) (l : Leaf) (pop : Bool) : Coordinator :=
  { c with
    leaves := c.leaves.insert l.virtualRequestId { l with physicallyClosed := true }
    leafRoute := if pop then c.leafRoute.erase l.virtualRequestId else c.leafRoute }

inductive Closes (c : Coordinator) (ref : WaveRef) (w : Wave) :
    CleanupCommand → List Event → Coordinator → Prop
  | finish (l : Leaf) (pop : Bool) (own : c.Owns w l.virtualRequestId l) :
    Closes c ref w (.finish l.virtualRequestId) [.closed l.virtualRequestId] (c.close l pop)
  | promote (p : Nat) (l : Leaf) (own : c.Owns w l.virtualRequestId l) :
    Closes c ref w (.promote p l.virtualRequestId) [.closed l.virtualRequestId, .promoted ref]
    (c.close l true)
  | truncate (r k : Nat) : Closes c ref w (.truncate r k) [] c

inductive Advances (ref : WaveRef) (w : Wave) : List Event → Wave → Prop
  | next (command : CleanupCommand) (h : w.cleanupCommands[w.cleanupIndex + 1]? = some command) :
    Advances ref w [] { w with
      cleanupIndex := w.cleanupIndex + 1, phase := w.phaseBefore command }
  | committed (h : w.cleanupCommands[w.cleanupIndex + 1]? = none) :
    Advances ref w [] { w with cleanupIndex := w.cleanupIndex + 1, phase := .committed }
  | cancelled (h : w.cleanupCommands[w.cleanupIndex + 1]? = none) :
    Advances ref w [.cancelled ref] { w with
      cleanupIndex := w.cleanupIndex + 1, phase := .aborted, parentCancelSent := true }

structure Fresh (c : Coordinator) (w : Wave) (leaves : List Leaf) : Prop where
  ids : leaves.map Leaf.virtualRequestId = w.leaves
  increasing : w.leaves.Pairwise (· < ·)
  above : ∀ id ∈ w.leaves, c.virtualIdHighWater < id
  parent : w.parentRequestId ∉ w.leaves
  vacant : c.treeByParent.find? w.parentRequestId = none
  phase : w.phase = .prepared
  commands : w.cleanupCommands = []
  index : w.cleanupIndex = 0
  reason : w.abortReason = none
  unsent : w.parentCancelSent = false
  healthy : w.routeFatal = false
  untouched : ∀ l ∈ leaves, l.forkSent = false ∧ l.physicallyClosed = false ∧
    l.returnDrained = false

def Coordinator.register (c : Coordinator) (w : Wave) (leaves : List Leaf) : Coordinator :=
  { c with
    nextWave := c.nextWave + 1
    waves := c.waves.insert c.nextWave w
    leaves := leaves.foldl (fun d l => d.insert l.virtualRequestId l) c.leaves
    treeByParent := c.treeByParent.insert w.parentRequestId c.nextWave
    leafRoute := leaves.foldl (fun d l => d.insert l.virtualRequestId w.parentRequestId) c.leafRoute
    virtualIdHighWater := (w.leaves.getLast?.map Int.ofNat).getD c.virtualIdHighWater }

inductive Move : Coordinator → List Event → Coordinator → Prop
  | tree (c : Coordinator) (trees : TreeRef → Tree) : Move c [] { c with trees := trees }
  | register {c : Coordinator} {w : Wave} {leaves : List Leaf} (h : Fresh c w leaves) :
    Move c [.prepared c.nextWave w.leaves] (c.register w leaves)
  | retire {c : Coordinator} {ref : WaveRef} {w : Wave} (found : c.waves.find? ref = some w)
      (there : c.treeByParent.find? w.parentRequestId = some ref)
      (unrouted : ∀ id ∈ w.leaves, c.leafRoute.find? id = none) :
    Move c [] { c with treeByParent := c.treeByParent.erase w.parentRequestId }
  | pop (c : Coordinator) (id : Nat) : Move c [] { c with leafRoute := c.leafRoute.erase id }
  | wave {c : Coordinator} {ref : WaveRef} {w w' : Wave} {es : List Event}
      (found : c.waves.find? ref = some w) (h : WaveStep c ref w es w') :
    Move c es { c with waves := c.waves.insert ref w' }
  | leaf {c : Coordinator} {ref : WaveRef} {w : Wave} {l l' : Leaf} {es : List Event}
      (found : c.waves.find? ref = some w) (own : c.Owns w l.virtualRequestId l)
      (h : LeafStep w l es l') :
    Move c es { c with leaves := c.leaves.insert l.virtualRequestId l' }
  | drain {c : Coordinator} {ref : WaveRef} {w : Wave} {l : Leaf}
      (found : c.waves.find? ref = some w) (own : c.Owns w l.virtualRequestId l) (owed : l.Owed) :
    Move c [] (c.drain ref w l)
  | confirm {c c' : Coordinator} {ref : WaveRef} {w w' : Wave} {command : CleanupCommand}
      {es fs : List Event} (found : c.waves.find? ref = some w)
      (next : w.cleanupCommands[w.cleanupIndex]? = some command)
      (closes : Closes c ref w command es c') (advances : Advances ref w fs w') :
    Move c (es ++ fs) { c' with waves := c'.waves.insert ref w' }

end Mycellios.PhysicalTree
