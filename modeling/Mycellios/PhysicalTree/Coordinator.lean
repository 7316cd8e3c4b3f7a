import Mycellios.Logic.Machine
import Mycellios.MacroWave.Adapter

/-! `physical_tree.py`. Waves, leaves and candidate trees are objects that several places name, so
the state keeps them in heaps: waves under a counter, leaves under their virtual id, and the trees
of the callers, who may change them at any time, under any name. -/

namespace Mycellios.PhysicalTree

open Data Logic MacroWave

def uint32Max : Nat := 2 ^ 32 - 1

def uint64Max : Nat := 2 ^ 64 - 1

/-- The exceptions of the module, with the built-in ones it lets through. -/
inductive TreeError
  | value (message : String)
  | physical (message : String)
  | protocol (message : String)
  | unknownVirtual (message : String)
  | key (message : String)
  | wave (error : WaveError)
  | overflow
  deriving DecidableEq

inductive TreePhase
  | prepared | forking | verifying | resolving | cleaning | promoting | truncating | committed
  | aborting | draining | aborted
  deriving DecidableEq

def TreePhase.value : TreePhase → String
  | .prepared => "prepared"
  | .forking => "forking"
  | .verifying => "verifying"
  | .resolving => "resolving"
  | .cleaning => "cleaning"
  | .promoting => "promoting"
  | .truncating => "truncating"
  | .committed => "committed"
  | .aborting => "aborting"
  | .draining => "draining"
  | .aborted => "aborted"

structure ForkCommand where
  childRequestId : Nat
  parentRequestId : Nat
  deriving DecidableEq

structure VerifyCommand where
  requestId : Nat
  step : Nat
  inputTokens : List Nat
  deriving DecidableEq

structure CancelCommand where
  requestId : Nat
  deriving DecidableEq

inductive CleanupCommand
  | finish (requestId : Nat)
  | promote (parentRequestId childRequestId : Nat)
  | truncate (requestId keepTokens : Nat)
  deriving DecidableEq

def CleanupCommand.repr : CleanupCommand → String
  | .finish r => s!"EndCommand(request_id={r})"
  | .promote p c => s!"PromoteCommand(parent_request_id={p}, child_request_id={c})"
  | .truncate r k => s!"TruncateCommand(request_id={r}, keep_tokens={k})"

structure Leaf where
  path : List Nat
  (virtualRequestId inheritedStep expectedTargets ordinal : Nat)
  forkSent : Bool := false
  verifySent : Bool := false
  verifySentAt : Option ℚ := none
  result : Option (List Nat) := none
  returnTombstone : Bool := false
  returnDrained : Bool := false
  physicallyClosed : Bool := false

abbrev WaveRef := Nat

/-- `PhysicalTreeWave`.  Its leaves are listed by virtual id, in ordinal order. -/
structure Wave where
  parentRequestId : Nat
  proposal : Proposal
  (baseKvTokens pendingToken inheritedStep : Nat)
  leaves : List Nat
  targetArgmaxByPrefix : Dict (List Nat) Nat
  deadlineAt : ℚ
  phase : TreePhase := .prepared
  carrierRequestId : Option Nat := none
  resolution : Option Resolution := none
  cleanupCommands : List CleanupCommand := []
  cleanupIndex : Nat := 0
  abortReason : Option String := none
  routeFatal : Bool := false
  cancelRequested : Bool := false
  parentCancelSent : Bool := false

def Wave.cleanupComplete (w : Wave) : Bool := w.cleanupIndex == w.cleanupCommands.length

structure TreeCommitPlan where
  parentRequestId : Nat
  resolution : Resolution
  carrierRequestId : Nat
  targetArgmaxByPrefix : List (List Nat × Nat)
  commands : List CleanupCommand
  nextStep : Nat
  deriving DecidableEq

structure TreeAbortPlan where
  parentRequestId : Nat
  reason : String
  commands : List CleanupCommand
  routeFatal : Bool
  oldestVirtualRequestId : Option Nat := none
  deriving DecidableEq

structure CancellationPlan where
  parentRequestId : Nat
  commands : List CancelCommand
  deferredUntilCommit : Bool
  drainingVirtualRequestIds : List Nat
  deriving DecidableEq

structure TombstoneDrain where
  parentRequestId : Nat
  virtualRequestId : Nat
  waveDrained : Bool
  deriving DecidableEq

inductive TreeResult
  | commit (plan : TreeCommitPlan)
  | abort (plan : TreeAbortPlan)
  | drain (drain : TombstoneDrain)
  | pending
  deriving DecidableEq

structure Coordinator where
  treeByParent : Dict Nat WaveRef
  leafRoute : Dict Nat Nat
  virtualIdHighWater : Int
  waves : Dict WaveRef Wave
  nextWave : WaveRef
  leaves : Dict Nat Leaf
  trees : TreeRef → Tree

def Coordinator.init (trees : TreeRef → Tree) : Coordinator where
  treeByParent := .empty
  leafRoute := .empty
  virtualIdHighWater := -1
  waves := .empty
  nextWave := 0
  leaves := .empty
  trees := trees

abbrev CoordinatorM := EStateM TreeError Coordinator

def boundedInt (name : String) (value : Int) (maximum : Nat) : Except TreeError Nat :=
  if value < 0 ∨ value > maximum then
    .error (.value s!"{name} must be an integer in [0, {maximum}]")
  else .ok value.toNat

def boundedTokens (name : String) : List Int → Except TreeError (List Nat)
  | [] => .ok []
  | value :: values => do
    let token ← boundedInt name value uint32Max
    let tokens ← boundedTokens name values
    return token :: tokens

def finiteTime (name : String) : Number → Except TreeError ℚ
  | .finite value =>
    if value < 0 then .error (.value s!"{name} must be a finite non-negative number")
    else .ok value
  | .notFinite => .error (.value s!"{name} must be a finite non-negative number")
  | .tooLarge => .error .overflow

inductive Now
  | given (now : Number)
  | clock (reading : ℚ)

def Now.read : Now → Except TreeError ℚ
  | .given now => finiteTime "now" now
  | .clock reading => .ok reading

def waveOf (parentRequestId : Int) : CoordinatorM (WaveRef × Wave) := do
  let parent ← check (boundedInt "parent_request_id" parentRequestId uint64Max)
  let c ← get
  match c.treeByParent.find? parent with
  | none => throw (.key s!"parent request {parent} has no physical tree wave")
  | some ref =>
    match c.waves.find? ref with
    | none => throw (.key s!"parent request {parent} has no physical tree wave")
    | some wave => pure (ref, wave)

def Coordinator.orderedLeaves (c : Coordinator) (w : Wave) : List Leaf :=
  w.leaves.filterMap c.leaves.find?

def setWave (ref : WaveRef) (wave : Wave) : CoordinatorM Unit :=
  modify fun c => { c with waves := c.waves.insert ref wave }

def setLeaf (leaf : Leaf) : CoordinatorM Unit :=
  modify fun c => { c with leaves := c.leaves.insert leaf.virtualRequestId leaf }

def popRoute (virtualId : Nat) : CoordinatorM Unit :=
  modify fun c => { c with leafRoute := c.leafRoute.erase virtualId }

/-- Runs an operation on the caller's tree; what it raises is raised. -/
def onTree (ref : TreeRef) (m : TreeM α) : CoordinatorM α := fun c =>
  match m (c.trees ref) with
  | .ok a t => .ok a { c with trees := Function.update c.trees ref t }
  | .error e t => .error (.wave e) { c with trees := Function.update c.trees ref t }

def rollbackIfOpen (wave : Wave) : CoordinatorM Unit := do
  if ((← get).trees wave.proposal.tree).state = .openWave then
    let _ ← onTree wave.proposal.tree rollback
    pure ()
  else pure ()

def popRoutes : List Nat → CoordinatorM Unit
  | [] => pure ()
  | id :: ids => do
    popRoute id
    popRoutes ids

def abortFatal (ref : WaveRef) (wave : Wave) (reason : String) : CoordinatorM TreeAbortPlan := do
  rollbackIfOpen wave
  setWave ref { wave with
    abortReason := some reason
    routeFatal := true
    cleanupCommands := []
    cleanupIndex := 0
    phase := .aborted }
  popRoutes wave.leaves
  return ⟨wave.parentRequestId, reason, [], true, none⟩

def Leaf.outstanding (l : Leaf) : Bool := l.verifySent && l.result.isNone && !l.returnDrained

def Leaf.older (a b : Leaf) : Bool :=
  match a.verifySentAt, b.verifySentAt with
  | some x, some y => x < y || (x == y && a.ordinal ≤ b.ordinal)
  | some _, none => true
  | none, some _ => false
  | none, none => a.ordinal ≤ b.ordinal

def oldestLeaf : Leaf → List Leaf → Leaf
  | a, [] => a
  | a, b :: rest => oldestLeaf (if Leaf.older a b then a else b) rest

def timeoutReason (virtualId : Nat) : String :=
  s!"physical tree VERIFY_RESULT timeout for oldest virtual request {virtualId}"

def timeoutPlan (ref : WaveRef) (wave : Wave) : CoordinatorM TreeAbortPlan := do
  match ((← get).orderedLeaves wave).filter Leaf.outstanding with
  | [] => throw (.physical "cannot time out a wave with no outstanding return")
  | leaf :: rest =>
    let oldest := oldestLeaf leaf rest
    let plan ← abortFatal ref wave (timeoutReason oldest.virtualRequestId)
    return { plan with
      routeFatal := true
      oldestVirtualRequestId := some oldest.virtualRequestId }

def Coordinator.outstandingTombstones (c : Coordinator) (w : Wave) : List Nat :=
  ((c.orderedLeaves w).filter fun l => l.returnTombstone && !l.returnDrained).map
    Leaf.virtualRequestId

structure PrepareArgs where
  parentRequestId : Int
  proposal : Proposal
  (baseKvTokens pendingToken inheritedStep : Int)
  virtualRequestIds : List Int
  deadlineAt : Number

def validateLeafPaths (paths : List (List Nat)) : Except TreeError Unit :=
  if paths = [] ∨ [] ∈ paths then .error (.value "candidate paths must contain non-empty leaves")
  else if ¬paths.Nodup then .error (.value "candidate leaf paths must not contain duplicates")
  else if Prefixes paths then .error (.value "one candidate leaf path cannot prefix another")
  else .ok ()

def sortPaths (paths : List (List Nat)) : List (List Nat) := paths.insertionSort pathLe

def coveredPrefixes (paths : List (List Nat)) : List (List Nat) :=
  paths.flatMap fun path => (List.range (path.length + 1)).map path.take

def boundedIds : List Int → Except TreeError (List Nat)
  | [] => .ok []
  | value :: values => do
    let id ← boundedInt "virtual_request_id" value uint64Max
    let ids ← boundedIds values
    return id :: ids

def freshLeaves (step : Nat) : Nat → List (List Nat) → List Nat → List Leaf
  | ordinal, path :: paths, id :: ids =>
    { path := path
      virtualRequestId := id
      inheritedStep := step
      expectedTargets := 1 + path.length
      ordinal := ordinal } :: freshLeaves step (ordinal + 1) paths ids
  | _, _, _ => []

def register (wave : Wave) (leaves : List Leaf) : CoordinatorM WaveRef := do
  let ref := (← get).nextWave
  modify fun c => { c with
    nextWave := ref + 1
    waves := c.waves.insert ref wave
    leaves := leaves.foldl (fun d l => d.insert l.virtualRequestId l) c.leaves
    treeByParent := c.treeByParent.insert wave.parentRequestId ref
    leafRoute := leaves.foldl (fun d l => d.insert l.virtualRequestId wave.parentRequestId)
      c.leafRoute
    virtualIdHighWater := (wave.leaves.getLast?.map Int.ofNat).getD c.virtualIdHighWater }
  return ref

def prepareWave (a : PrepareArgs) : CoordinatorM WaveRef := do
  let parent ← check (boundedInt "parent_request_id" a.parentRequestId uint64Max)
  let base ← check (boundedInt "base_kv_tokens" a.baseKvTokens uint32Max)
  let pending ← check (boundedInt "pending_token" a.pendingToken uint32Max)
  let step ← check (boundedInt "inherited_step" a.inheritedStep (uint32Max - 1))
  let deadline ← check (finiteTime "deadline_at" a.deadlineAt)
  let c ← get
  let tree := c.trees a.proposal.tree
  raiseIf (tree.state ≠ .openWave) (.value "proposal must still be open")
  raiseIf (c.treeByParent.contains parent = true)
    (.value s!"parent request {parent} already has a physical tree wave")
  raiseIf (c.leafRoute.contains parent = true)
    (.value "a real parent ID cannot collide with a live virtual ID")
  raiseIf (∃ path ∈ a.proposal.candidatePaths, ∃ token ∈ path, uint32Max < token)
    (.value s!"candidate path must be an integer in [0, {uint32Max}]")
  let paths := sortPaths a.proposal.candidatePaths
  check (validateLeafPaths paths)
  raiseIf (¬(coveredPrefixes paths ⊆ a.proposal.prefixes ∧
    a.proposal.prefixes ⊆ coveredPrefixes paths))
    (.value "candidate leaves do not exactly cover the proposal tree")
  raiseIf (a.virtualRequestIds.length ≠ paths.length)
    (.value "one virtual request ID is required for every candidate leaf")
  let ids ← check (boundedIds a.virtualRequestIds)
  raiseIf (¬ids.IsChain (· < ·)) (.value "virtual request IDs must be strictly increasing")
  raiseIf (∃ first ∈ ids.head?, (first : Int) ≤ c.virtualIdHighWater)
    (.value "virtual request IDs must be globally monotonic and never reused")
  raiseIf (parent ∈ ids) (.value "a virtual request ID cannot equal its real parent ID")
  raiseIf (∃ id ∈ ids, c.treeByParent.contains id = true)
    (.value "a virtual request ID cannot equal a registered parent ID")
  raiseIf (tree.basePrefixTokens = [])
    (.value "proposal base prefix must contain the pending token")
  raiseIf (tree.basePrefixTokens.getLast? ≠ some pending)
    (.value "pending_token must be the last visible proposal token")
  raiseIf (base ≠ tree.basePrefixTokens.length - 1)
    (.value "base_kv_tokens must equal visible proposal length minus pending token")
  register
    { parentRequestId := parent
      proposal := a.proposal
      baseKvTokens := base
      pendingToken := pending
      inheritedStep := step
      leaves := ids
      targetArgmaxByPrefix := .empty
      deadlineAt := deadline }
    (freshLeaves step 0 paths ids)

def nextForkCommand (parentRequestId : Int) : CoordinatorM (Option ForkCommand) := do
  let (ref, wave) ← waveOf parentRequestId
  let wave := if wave.phase = .prepared then { wave with phase := .forking } else wave
  setWave ref wave
  raiseIf (wave.phase ≠ .forking) (.physical s!"cannot issue FORK while wave is {wave.phase.value}")
  match ((← get).orderedLeaves wave).find? fun l => !l.forkSent with
  | none => return none
  | some leaf =>
    setLeaf { leaf with forkSent := true }
    return some ⟨leaf.virtualRequestId, wave.parentRequestId⟩

def nextVerifyCommand (parentRequestId : Int) (now : Now) :
    CoordinatorM (Option VerifyCommand) := do
  let (ref, wave) ← waveOf parentRequestId
  let leaves := (← get).orderedLeaves wave
  raiseIf (wave.phase = .forking ∧ leaves.any (fun l => !l.forkSent) = true)
    (.physical "all FORK commands must be issued before VERIFY")
  let wave := if wave.phase = .forking then { wave with phase := .verifying } else wave
  setWave ref wave
  raiseIf (wave.phase ≠ .verifying)
    (.physical s!"cannot issue VERIFY while wave is {wave.phase.value}")
  let issuedAt ← check now.read
  match leaves.find? fun l => !l.verifySent with
  | none => return none
  | some leaf =>
    setLeaf { leaf with verifySent := true, verifySentAt := some issuedAt }
    return some ⟨leaf.virtualRequestId, wave.inheritedStep, wave.pendingToken :: leaf.path⟩

/-- The inner loop of `_resolve`: one leaf's targets, from a position on. -/
def mergeResult (path : List Nat) : Nat → List Nat → Dict (List Nat) Nat →
    Except String (Dict (List Nat) Nat)
  | _, [], target => .ok target
  | index, token :: tokens, target =>
    match target.find? (path.take index) with
    | some existing =>
      if existing ≠ token then
        .error ("contradictory target argmax for shared prefix " ++ tupleRepr (path.take index) ++
          ": " ++ toString existing ++ " != " ++ toString token)
      else mergeResult path (index + 1) tokens (target.insert (path.take index) token)
    | none => mergeResult path (index + 1) tokens (target.insert (path.take index) token)

def mergeResults : List Leaf → Dict (List Nat) Nat → Except String (Dict (List Nat) Nat)
  | [], target => .ok target
  | leaf :: leaves, target =>
    match leaf.result with
    | none => .error "a physical leaf result is missing"
    | some result =>
      match mergeResult leaf.path 0 result target with
      | .error e => .error e
      | .ok target => mergeResults leaves target

def missingReason (expected found : List (List Nat)) : String :=
  "physical targets do not cover the proposal; missing=" ++
    tupleReprs (sortPaths (expected.filter (· ∉ found))) ++ ", extra=" ++
    tupleReprs (sortPaths (found.filter (· ∉ expected)))

def WaveError.message : WaveError → String
  | .value m => m
  | .runtime m => m
  | .key m => "'" ++ m ++ "'"
  | .overflow => ""

/-- The leaf with the smallest id among those that carry the accepted path. -/
def carrierOf (accepted : List Nat) (leaves : List Leaf) : Option Nat :=
  ((leaves.filter fun l => l.path.take accepted.length = accepted).map Leaf.virtualRequestId).min?

def commitCommands (wave : Wave) (resolution : Resolution) (leaves : List Leaf) (carrier : Nat) :
    List CleanupCommand :=
  let losers := ((leaves.map Leaf.virtualRequestId).filter (· ≠ carrier)).insertionSort (· ≤ ·)
  losers.map .finish ++ [.promote wave.parentRequestId carrier] ++
    if resolution.truncateRequired then
      [.truncate wave.parentRequestId (wave.baseKvTokens + 1 + resolution.acceptedDraftTokens)]
    else []

/-- Resolves on the caller's tree, keeping what `resolve_macro_wave` raised. -/
def tryResolve (proposal : Proposal) (target : Dict (List Nat) Nat) :
    CoordinatorM (Except WaveError Resolution) := fun c =>
  match resolveMacroWave proposal target (c.trees proposal.tree) with
  | .ok r t => .ok (.ok r) { c with trees := Function.update c.trees proposal.tree t }
  | .error .overflow t =>
    .error .overflow { c with trees := Function.update c.trees proposal.tree t }
  | .error e t => .ok (.error e) { c with trees := Function.update c.trees proposal.tree t }

/-- The last part of `_resolve`: the carrier, the cleanup commands and the plan. -/
def planCleanup (ref : WaveRef) (wave : Wave) (target : Dict (List Nat) Nat)
    (resolution : Resolution) : CoordinatorM TreeResult := do
  let leaves := (← get).orderedLeaves wave
  match carrierOf resolution.commitTokens leaves with
  | none => throw (.physical "exact resolution has no physical carrier leaf")
  | some carrier =>
    let commands := commitCommands wave resolution leaves carrier
    setWave ref { wave with
      resolution := some resolution
      carrierRequestId := some carrier
      cleanupCommands := commands
      cleanupIndex := 0
      phase := match commands with
        | .finish _ :: _ => .cleaning
        | _ => .promoting }
    return .commit {
      parentRequestId := wave.parentRequestId
      resolution := resolution
      carrierRequestId := carrier
      targetArgmaxByPrefix := target.entries.insertionSort fun a b => pathLe a.1 b.1
      commands := commands
      nextStep := wave.inheritedStep + 1 }

def resolveMerged (ref : WaveRef) (wave : Wave) (target : Dict (List Nat) Nat) :
    CoordinatorM TreeResult :=
  if ¬(target.keys ⊆ wave.proposal.prefixes ∧ wave.proposal.prefixes ⊆ target.keys) then
    .abort <$> abortFatal ref wave (missingReason wave.proposal.prefixes target.keys)
  else do
    let wave := { wave with targetArgmaxByPrefix := target }
    setWave ref wave
    match ← tryResolve wave.proposal target with
    | .error e =>
      .abort <$> abortFatal ref wave ("exact MacroWave resolution failed: " ++ WaveError.message e)
    | .ok resolution => planCleanup ref wave target resolution

def resolveWave (ref : WaveRef) (wave : Wave) : CoordinatorM TreeResult := do
  let wave := { wave with phase := .resolving }
  setWave ref wave
  match mergeResults ((← get).orderedLeaves wave) .empty with
  | .error reason => .abort <$> abortFatal ref wave reason
  | .ok target => resolveMerged ref wave target

def drainTombstone (ref : WaveRef) (wave : Wave) (leaf : Leaf) (parent : Nat) :
    CoordinatorM TreeResult := do
  raiseIf (leaf.returnDrained = true)
    (.protocol s!"duplicate return for tombstoned virtual request {leaf.virtualRequestId}")
  setLeaf { leaf with returnDrained := true }
  popRoute leaf.virtualRequestId
  let drained := ((← get).outstandingTombstones wave).isEmpty
  setWave ref { wave with
    phase := if drained = true ∧ (wave.cleanupComplete = true ∨ wave.phase = .draining) then
      .aborted
      else wave.phase }
  return .drain ⟨parent, leaf.virtualRequestId, drained⟩

def recordResult (ref : WaveRef) (wave : Wave) (leaf : Leaf) (targets : List Nat) :
    CoordinatorM TreeResult := do
  setLeaf { leaf with result := some targets }
  if ((← get).orderedLeaves wave).any (fun l => l.result.isNone) then return .pending
  else resolveWave ref wave

def TreeError.text : TreeError → String
  | .value m => m
  | .physical m => m
  | .protocol m => m
  | .unknownVirtual m => m
  | .key m => m
  | .wave e => WaveError.message e
  | .overflow => ""

def acceptTargets (ref : WaveRef) (wave : Wave) (leaf : Leaf) (step : Int)
    (targetTokens : List Int) : CoordinatorM TreeResult :=
  if wave.phase ≠ .verifying ∨ leaf.verifySent = false then
    .abort <$> abortFatal ref wave
      s!"VERIFY_RESULT for {leaf.virtualRequestId} arrived outside its verifying state"
  else if leaf.result.isSome then
    .abort <$> abortFatal ref wave
      s!"duplicate VERIFY_RESULT for virtual request {leaf.virtualRequestId}"
  else
    match boundedInt "step" step uint32Max with
    | .error e =>
      .abort <$> abortFatal ref wave ("invalid VERIFY_RESULT step: " ++ TreeError.text e)
    | .ok observed =>
      if observed ≠ leaf.inheritedStep then
        .abort <$> abortFatal ref wave
          s!"VERIFY_RESULT step {observed} != inherited step {leaf.inheritedStep}"
      else
        match boundedTokens "target_tokens" targetTokens with
        | .error e =>
          .abort <$> abortFatal ref wave ("invalid VERIFY_RESULT targets: " ++ TreeError.text e)
        | .ok targets =>
          if targets.length ≠ leaf.expectedTargets then
            .abort <$> abortFatal ref wave ("VERIFY_RESULT target count " ++
              toString targets.length ++ " != expected " ++ toString leaf.expectedTargets)
          else recordResult ref wave leaf targets

def acceptVerifyResult (virtualRequestId step : Int) (targetTokens : List Int) (now : Now) :
    CoordinatorM TreeResult := do
  let virtualId ← check (boundedInt "virtual_request_id" virtualRequestId uint64Max)
  let c ← get
  match c.leafRoute.find? virtualId with
  | none => throw (.unknownVirtual s!"unknown virtual request ID {virtualId}")
  | some parent =>
    match c.leaves.find? virtualId, (c.treeByParent.find? parent).bind fun ref =>
        (c.waves.find? ref).map fun wave => (ref, wave) with
    | some leaf, some (ref, wave) => do
      let observedAt ← check now.read
      if (wave.phase = .verifying ∨ wave.phase = .draining) ∧ wave.deadlineAt ≤ observedAt ∧
          (c.orderedLeaves wave).any Leaf.outstanding = true then
        .abort <$> timeoutPlan ref wave
      else if leaf.returnTombstone then drainTombstone ref wave leaf parent
      else acceptTargets ref wave leaf step targetTokens
    | _, _ => throw (.key (toString parent))

def closeLeaf (wave : Wave) : CleanupCommand → CoordinatorM Unit
  | .finish id => do
    match (← get).leaves.find? id with
    | none => throw (.key (toString id))
    | some leaf =>
      raiseIf (id ∉ wave.leaves) (.key (toString id))
      setLeaf { leaf with physicallyClosed := true }
      if leaf.returnTombstone = false ∨ leaf.returnDrained = true then popRoute id else pure ()
  | .promote _ id => do
    match (← get).leaves.find? id with
    | none => throw (.key (toString id))
    | some leaf =>
      raiseIf (id ∉ wave.leaves) (.key (toString id))
      setLeaf { leaf with physicallyClosed := true }
      popRoute id
  | .truncate .. => pure ()

def Wave.phaseBefore (w : Wave) : CleanupCommand → TreePhase
  | .promote .. => .promoting
  | .truncate .. => .truncating
  | .finish _ => if w.abortReason.isSome then .aborting else .cleaning

/-- What follows the last confirmed command. -/
def finishCleanup (ref : WaveRef) (wave : Wave) : CoordinatorM (Option CancelCommand) := do
  if wave.abortReason.isSome then
    let drained := ((← get).outstandingTombstones wave).isEmpty
    let wave := { wave with phase := if drained then .aborted else .draining }
    if wave.cancelRequested = true ∧ wave.parentCancelSent = false then
      setWave ref { wave with parentCancelSent := true }
      return some ⟨wave.parentRequestId⟩
    else
      setWave ref wave
      return none
  else if wave.cancelRequested then
    setWave ref { wave with phase := .aborted, parentCancelSent := true }
    return some ⟨wave.parentRequestId⟩
  else
    setWave ref { wave with phase := .committed }
    return none

def confirmCleanupCommand (parentRequestId : Int) (command : CleanupCommand) :
    CoordinatorM (Option CancelCommand) := do
  let (ref, wave) ← waveOf parentRequestId
  match wave.cleanupCommands[wave.cleanupIndex]? with
  | none => throw (.physical "the wave has no cleanup command left to confirm")
  | some expected =>
    raiseIf (command ≠ expected) (.physical ("cleanup order violation: expected " ++
      CleanupCommand.repr expected ++ ", got " ++ CleanupCommand.repr command))
    closeLeaf wave command
    let wave := { wave with cleanupIndex := wave.cleanupIndex + 1 }
    match wave.cleanupCommands[wave.cleanupIndex]? with
    | some following =>
      setWave ref { wave with phase := wave.phaseBefore following }
      return none
    | none => finishCleanup ref wave

def tombstoneLeaves : List Leaf → CoordinatorM (List Nat)
  | [] => pure []
  | leaf :: leaves => do
    if leaf.verifySent = true ∧ leaf.result.isNone = true then
      setLeaf { leaf with returnTombstone := true }
      let draining ← tombstoneLeaves leaves
      return leaf.virtualRequestId :: draining
    else
      popRoute leaf.virtualRequestId
      tombstoneLeaves leaves

/-- The branch of `request_cancel` for a wave without a cleanup plan. -/
def cancelWave (ref : WaveRef) (wave : Wave) : CoordinatorM CancellationPlan := do
  let leaves := (← get).orderedLeaves wave
  let created := ((leaves.filter Leaf.forkSent).map Leaf.virtualRequestId).insertionSort (· ≤ ·)
  let draining ← tombstoneLeaves leaves
  rollbackIfOpen wave
  setWave ref { wave with
    abortReason := some "cancelled"
    cancelRequested := true
    parentCancelSent := true
    phase := if draining.isEmpty then .aborted else .draining }
  return ⟨wave.parentRequestId, (created ++ [wave.parentRequestId]).map CancelCommand.mk, false,
    draining.insertionSort (· ≤ ·)⟩

def requestCancel (parentRequestId : Int) : CoordinatorM CancellationPlan := do
  let (ref, wave) ← waveOf parentRequestId
  let c ← get
  match wave.phase with
  | .cleaning | .promoting | .truncating | .aborting =>
    setWave ref { wave with cancelRequested := true }
    return ⟨wave.parentRequestId, [], true, []⟩
  | .draining =>
    if wave.parentCancelSent = true ∨ wave.abortReason = some "cancelled" then
      return ⟨wave.parentRequestId, [], false, c.outstandingTombstones wave⟩
    else
      setWave ref { wave with cancelRequested := true, parentCancelSent := true }
      return ⟨wave.parentRequestId, [⟨wave.parentRequestId⟩], false, c.outstandingTombstones wave⟩
  | .committed =>
    setWave ref { wave with phase := .aborted, cancelRequested := true, parentCancelSent := true }
    return ⟨wave.parentRequestId, [⟨wave.parentRequestId⟩], false, []⟩
  | .aborted => return ⟨wave.parentRequestId, [], false, []⟩
  | .prepared | .forking | .verifying | .resolving => cancelWave ref wave

def abortBeforeWire (parentRequestId : Int) (reason : String) : CoordinatorM TreeAbortPlan := do
  let (ref, wave) ← waveOf parentRequestId
  let c ← get
  raiseIf (wave.phase ≠ .prepared ∨ (c.orderedLeaves wave).any Leaf.forkSent = true)
    (.physical "same-route fallback is only safe before first FORK")
  raiseIf ((strip reason).isEmpty = true) (.value "reason must be a non-empty string")
  rollbackIfOpen wave
  setWave ref { wave with abortReason := some (strip reason), phase := .aborted }
  popRoutes wave.leaves
  return ⟨wave.parentRequestId, strip reason, [], false, none⟩

/-- The loop of `check_timeouts` over the waves registered when it started. -/
def checkTimeoutsFrom (observedAt : ℚ) : List WaveRef → CoordinatorM (List TreeAbortPlan)
  | [] => pure []
  | ref :: refs => do
    let c ← get
    match c.waves.find? ref with
    | none => checkTimeoutsFrom observedAt refs
    | some wave =>
      if (wave.phase = .verifying ∨ wave.phase = .draining) ∧ wave.deadlineAt ≤ observedAt ∧
          (c.orderedLeaves wave).any Leaf.outstanding = true then do
        let plan ← timeoutPlan ref wave
        let plans ← checkTimeoutsFrom observedAt refs
        return plan :: plans
      else checkTimeoutsFrom observedAt refs

def checkTimeouts (now : Number) : CoordinatorM (List TreeAbortPlan) := do
  let observedAt ← check (finiteTime "now" now)
  checkTimeoutsFrom observedAt (← get).treeByParent.values

def retireWave (parentRequestId : Int) : CoordinatorM WaveRef := do
  let (ref, wave) ← waveOf parentRequestId
  let c ← get
  raiseIf (wave.phase ≠ .committed ∧ wave.phase ≠ .aborted)
    (.physical s!"cannot retire a wave while it is {wave.phase.value}")
  raiseIf (∃ id ∈ wave.leaves, c.leafRoute.contains id = true)
    (.physical "cannot retire a wave with live virtual routes")
  modify fun c => { c with treeByParent := c.treeByParent.erase wave.parentRequestId }
  return ref

/-- A call on the coordinator, or a change its caller makes to a shared tree. -/
inductive Call
  | prepareWave (args : PrepareArgs)
  | nextForkCommand (parentRequestId : Int)
  | nextVerifyCommand (parentRequestId : Int) (now : Now)
  | acceptVerifyResult (virtualRequestId step : Int) (targetTokens : List Int) (now : Now)
  | confirmCleanupCommand (parentRequestId : Int) (command : CleanupCommand)
  | requestCancel (parentRequestId : Int)
  | abortBeforeWire (parentRequestId : Int) (reason : String)
  | checkTimeouts (now : Number)
  | retireWave (parentRequestId : Int)
  | changeTree (ref : TreeRef) (tree : Tree)

inductive Answer
  | wave (ref : WaveRef)
  | fork (command : Option ForkCommand)
  | verify (command : Option VerifyCommand)
  | result (result : TreeResult)
  | confirmed (cancel : Option CancelCommand)
  | cancellation (plan : CancellationPlan)
  | abort (plan : TreeAbortPlan)
  | timeouts (plans : List TreeAbortPlan)
  | done
  deriving DecidableEq

def perform : Call → CoordinatorM Answer
  | .prepareWave args => .wave <$> prepareWave args
  | .nextForkCommand p => .fork <$> nextForkCommand p
  | .nextVerifyCommand p now => .verify <$> nextVerifyCommand p now
  | .acceptVerifyResult v s ts now => .result <$> acceptVerifyResult v s ts now
  | .confirmCleanupCommand p c => .confirmed <$> confirmCleanupCommand p c
  | .requestCancel p => .cancellation <$> requestCancel p
  | .abortBeforeWire p reason => .abort <$> abortBeforeWire p reason
  | .checkTimeouts now => .timeouts <$> checkTimeouts now
  | .retireWave p => .wave <$> retireWave p
  | .changeTree ref tree => do
    modify fun c => { c with trees := Function.update c.trees ref tree }
    return .done

def step (c : Coordinator) (call : Call) : Coordinator × Except TreeError Answer :=
  (after (perform call) c, answer (perform call) c)

end Mycellios.PhysicalTree
