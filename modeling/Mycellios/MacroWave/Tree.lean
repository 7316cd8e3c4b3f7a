import Mycellios.Data.Dict
import Mycellios.Data.Python
import Mycellios.Logic.Wp

/-! `macro_wave.py`. A branch is named by the child slots on the way to it; the wave identity is
kept once, in the tree. -/

namespace Mycellios.MacroWave

open Data Logic

abbrev Branch := List Nat

instance Branch.lawful : LawfulBEq Branch := inferInstanceAs (LawfulBEq (List Nat))

/-- The exceptions the tree raises, with the built-in `OverflowError` of
`int.to_bytes`. -/
inductive WaveError
  | value (message : String)
  | runtime (message : String)
  | key (message : String)
  | overflow
  deriving DecidableEq

structure WaveIdentity where
  requestId : String
  ordinal : Nat
  prefixDigest : String
  deriving DecidableEq

def WaveIdentity.key (w : WaveIdentity) : String := s!"{w.requestId}:{w.ordinal}:{w.prefixDigest}"

def branchKey (w : WaveIdentity) (b : Branch) : String :=
  w.key ++ "/" ++ if b.isEmpty then "root" else ".".intercalate (b.map toString)

/-- `WaveIdentity.for_prefix`; the digest is any function of the parent version and the prefix. -/
def WaveIdentity.forPrefix (digest : Nat → List Nat → String) (requestId : String) (ordinal : Nat)
    (prefixTokens : List Nat) (parentKvVersion : Nat) : Except WaveError WaveIdentity :=
  if (strip requestId).isEmpty then .error (.value "request_id must not be empty")
  else if 2 ^ 64 ≤ parentKvVersion ∨ ∃ token ∈ prefixTokens, 2 ^ 64 ≤ token then .error .overflow
  else .ok ⟨strip requestId, ordinal, digest parentKvVersion prefixTokens⟩

inductive SnapshotState
  | committed | speculative | rolledBack
  deriving DecidableEq

structure KVRecord where
  version : Nat
  parentVersion : Option Nat
  deltaTokens : List Nat
  ownerBranch : Option Branch
  state : SnapshotState

structure KVLedger where
  (baseVersion headVersion nextVersion : Nat)
  records : Dict Nat KVRecord
  finalized : Bool

def KVLedger.init (basePrefixTokens : List Nat) (baseVersion : Nat) : KVLedger where
  baseVersion := baseVersion
  headVersion := baseVersion
  nextVersion := baseVersion + 1
  records := Dict.empty.insert baseVersion
    { version := baseVersion
      parentVersion := none
      deltaTokens := basePrefixTokens
      ownerBranch := none
      state := .committed }
  finalized := false

abbrev KVLedgerM := EStateM WaveError KVLedger

def KVLedger.record (version : Nat) : KVLedgerM KVRecord := do
  match (← get).records.find? version with
  | some record => pure record
  | none => throw (.key s!"unknown logical KV version kv:{version}")

def KVLedger.fork (parentVersion : Nat) (ownerBranch : Branch) (tokenId : Nat) :
    KVLedgerM Nat := do
  raiseIf ((← get).finalized = true) (.runtime "KV ledger is finalized")
  let parent ← KVLedger.record parentVersion
  raiseIf (parent.state = .rolledBack) (.runtime "cannot fork a rolled-back KV version")
  let version := (← get).nextVersion
  modify fun l => { l with
    nextVersion := version + 1
    records := l.records.insert version
      { version := version
        parentVersion := some parent.version
        deltaTokens := [tokenId]
        ownerBranch := some ownerBranch
        state := .speculative } }
  return version

/-- The walk of `_ancestry` and `resolve_tokens` to the base, in as many steps as the ledger has
records. -/
def KVLedger.chain (l : KVLedger) : Nat → List Nat → KVRecord → Except WaveError (List KVRecord)
  | 0, _, _ => .error (.runtime "logical KV parent cycle detected")
  | fuel + 1, visited, record =>
    if record.version ∈ visited then .error (.runtime "logical KV parent cycle detected")
    else
      match record.parentVersion with
      | none => .ok [record]
      | some parent =>
        match l.records.find? parent with
        | none => .error (.key s!"unknown logical KV version kv:{parent}")
        | some above => do
          let rest ← l.chain fuel (record.version :: visited) above
          return record :: rest

def KVLedger.chainOf (version : Nat) : KVLedgerM (List KVRecord) := do
  let record ← KVLedger.record version
  let l ← get
  match l.chain (l.records.size + 1) [] record with
  | .ok records => pure records
  | .error e => throw e

def KVLedger.ancestry (version : Nat) : KVLedgerM (List Nat) := do
  return (← KVLedger.chainOf version).map KVRecord.version

def KVLedger.resolveTokens (version : Nat) : KVLedgerM (List Nat) := do
  return ((← KVLedger.chainOf version).reverse.map KVRecord.deltaTokens).flatten

def KVRecord.settle (accepted : List Nat) (r : KVRecord) : KVRecord :=
  if r.state = .speculative then
    { r with state := if r.version ∈ accepted then .committed else .rolledBack }
  else r

structure KVFinalizeResult where
  committedHead : Nat
  newlyCommitted : List Nat
  rolledBack : List Nat

def KVLedger.finalize (acceptedHead : Nat) : KVLedgerM KVFinalizeResult := do
  raiseIf ((← get).finalized = true) (.runtime "KV ledger is already finalized")
  let accepted ← KVLedger.ancestry acceptedHead
  let l ← get
  raiseIf (l.baseVersion ∉ accepted) (.runtime "accepted KV version does not descend from the base")
  let open_ := (l.records.values.filter fun r => r.state = .speculative).map KVRecord.version
  let sorted := open_.insertionSort (· ≤ ·)
  set { l with
    records := l.records.mapValues fun _ r => r.settle accepted
    headVersion := acceptedHead
    finalized := true }
  return ⟨acceptedHead, sorted.filter (· ∈ accepted), sorted.filter (· ∉ accepted)⟩

def KVLedger.rollback : KVLedgerM KVFinalizeResult := do
  KVLedger.finalize (← get).baseVersion

inductive WaveState
  | openWave | committed | rolledBack
  deriving DecidableEq

def WaveState.value : WaveState → String
  | .openWave => "open"
  | .committed => "committed"
  | .rolledBack => "rolled-back"

structure BranchRecord where
  identity : Branch
  parentIdentity : Option Branch
  tokenId : Option Nat
  parentKvVersion : Nat
  kvVersion : Nat
  state : SnapshotState

structure Tree where
  identity : WaveIdentity
  basePrefixTokens : List Nat
  ledger : KVLedger
  state : WaveState
  records : Dict Branch BranchRecord
  children : Dict Branch (List Branch)

abbrev TreeM := EStateM WaveError Tree

def rootIdentity : Branch := []

def Tree.init (identity : WaveIdentity) (basePrefixTokens : List Nat) (parentKvVersion : Nat) :
    Tree where
  identity := identity
  basePrefixTokens := basePrefixTokens
  ledger := .init basePrefixTokens parentKvVersion
  state := .openWave
  records := Dict.empty.insert rootIdentity
    { identity := rootIdentity
      parentIdentity := none
      tokenId := none
      parentKvVersion := parentKvVersion
      kvVersion := parentKvVersion
      state := .committed }
  children := Dict.empty.insert rootIdentity []

/-- `MacroWaveTree.create`; the constructor checks the identity it was given. -/
def Tree.create (digest : Nat → List Nat → String) (requestId : String) (ordinal : Nat)
    (basePrefixTokens : List Nat) (parentKvVersion : Nat) : Except WaveError Tree := do
  let identity ← WaveIdentity.forPrefix digest requestId ordinal basePrefixTokens parentKvVersion
  let expected ← WaveIdentity.forPrefix digest identity.requestId identity.ordinal basePrefixTokens
    parentKvVersion
  if expected.prefixDigest ≠ identity.prefixDigest then
    .error (.value "wave identity does not match its prefix and parent KV version")
  else .ok (.init identity basePrefixTokens parentKvVersion)

def onLedger (m : KVLedgerM α) : TreeM α :=
  zoom Tree.ledger (fun l t => { t with ledger := l }) m

def requireOpen : TreeM Unit := do
  let t ← get
  raiseIf (t.state ≠ .openWave) (.runtime s!"macro wave is already {t.state.value}")

def record (identity : Branch) : TreeM BranchRecord := do
  let t ← get
  match t.records.find? identity with
  | some r => pure r
  | none => throw (.key ("unknown branch " ++ branchKey t.identity identity))

def Tree.childRecords (t : Tree) (parent : Branch) : List BranchRecord :=
  ((t.children.find? parent).getD []).filterMap t.records.find?

def Tree.childWithToken (t : Tree) (parent : Branch) (token : Nat) : Option BranchRecord :=
  (t.childRecords parent).find? fun r => r.tokenId = some token

def childrenOf (parent : Branch) : TreeM (List BranchRecord) := do
  let _ ← record parent
  return (← get).childRecords parent

def addBranch (parent : Branch) (tokenId : Nat) : TreeM Branch := do
  requireOpen
  let parentRecord ← record parent
  raiseIf (parentRecord.state = .rolledBack) (.runtime "cannot extend a rolled-back branch")
  let t ← get
  raiseIf ((t.childWithToken parent tokenId).isSome = true)
    (.value "a parent cannot contain duplicate candidate tokens")
  let siblings := (t.children.find? parent).getD []
  let childIdentity := parent ++ [siblings.length]
  let kvVersion ← onLedger (KVLedger.fork parentRecord.kvVersion childIdentity tokenId)
  modify fun t => { t with
    records := t.records.insert childIdentity
      { identity := childIdentity
        parentIdentity := some parent
        tokenId := some tokenId
        parentKvVersion := parentRecord.kvVersion
        kvVersion := kvVersion
        state := .speculative }
    children := (t.children.insert parent (siblings ++ [childIdentity])).insert childIdentity [] }
  return childIdentity

def descend : Branch → List Nat → TreeM Branch
  | current, [] => pure current
  | current, token :: tokens => do
    match (← get).childWithToken current token with
    | some child => descend child.identity tokens
    | none => do
      let child ← addBranch current token
      descend child tokens

def ensurePath (candidateTokens : List Nat) : TreeM Branch := do
  requireOpen
  let _ ← record rootIdentity
  descend rootIdentity candidateTokens

/-- The upward walk of `candidate_tokens`, one step for each slot of the branch. -/
def Tree.tokensUp (t : Tree) : Nat → BranchRecord → List Nat → Except WaveError (List Nat)
  | 0, _, tokens => .ok tokens
  | fuel + 1, r, tokens =>
    match r.parentIdentity with
    | none => .ok tokens
    | some parent =>
      match r.tokenId with
      | none => .error (.runtime "non-root branch has no token")
      | some token =>
        match t.records.find? parent with
        | none => .error (.key ("unknown branch " ++ branchKey t.identity parent))
        | some above => t.tokensUp fuel above (token :: tokens)

def Tree.candidateTokens (t : Tree) (b : Branch) : Except WaveError (List Nat) :=
  match t.records.find? b with
  | none => .error (.key ("unknown branch " ++ branchKey t.identity b))
  | some r => t.tokensUp b.length r []

structure GreedyAcceptance where
  waveIdentity : WaveIdentity
  acceptedBranches : List Branch
  acceptedTokens : List Nat
  continuationToken : Nat
  emittedTokens : List Nat
  terminalPrefixBranch : Branch
  stopReason : String
  deriving DecidableEq

structure MacroWaveCommit where
  waveIdentity : WaveIdentity
  committedKvVersion : Nat
  committedBranchIds : List Branch
  rolledBackBranchIds : List Branch
  (rolledBackKvVersions kvPrefixTokens visiblePrefixTokens : List Nat)
  pendingToken : Nat
  deriving DecidableEq

/-- The loop of `commit_greedy`: the KV versions of the accepted branches, and the last branch. -/
def acceptedVersions : Branch → List (Branch × Nat) → TreeM (List Nat × Branch)
  | parent, [] => pure ([], parent)
  | parent, (branch, token) :: rest => do
    let r ← record branch
    raiseIf (r.parentIdentity ≠ some parent)
      (.value "accepted branches must form one contiguous prefix")
    raiseIf (r.tokenId ≠ some token) (.value "accepted branch token does not match acceptance")
    let (versions, last) ← acceptedVersions branch rest
    return (r.kvVersion :: versions, last)

def sortBranches (bs : List Branch) : List Branch := bs.insertionSort (· ≤ ·)

def settleBranches (accepted : List Branch) : TreeM (List Branch) := do
  let t ← get
  set { t with
    records := t.records.mapValues fun b r =>
      if b = rootIdentity then r
      else { r with state := if b ∈ accepted then .committed else .rolledBack } }
  return sortBranches (t.records.keys.filter fun b => b ≠ rootIdentity ∧ b ∉ accepted)

def commitGreedy (acceptance : GreedyAcceptance) : TreeM MacroWaveCommit := do
  requireOpen
  let t ← get
  raiseIf (acceptance.waveIdentity ≠ t.identity) (.value "acceptance belongs to another wave")
  raiseIf (acceptance.acceptedBranches.length ≠ acceptance.acceptedTokens.length)
    (.value "accepted branch and token counts must match")
  raiseIf (acceptance.emittedTokens ≠ acceptance.acceptedTokens ++ [acceptance.continuationToken])
    (.value "greedy acceptance emitted token contract is invalid")
  let (versions, last) ← acceptedVersions rootIdentity
    (acceptance.acceptedBranches.zip acceptance.acceptedTokens)
  raiseIf (last ≠ acceptance.terminalPrefixBranch)
    (.value "terminal prefix branch does not match accepted path")
  let committedHead := versions.getLast?.getD t.ledger.baseVersion
  let finalized ← onLedger (KVLedger.finalize committedHead)
  let rolledBack ← settleBranches acceptance.acceptedBranches
  modify fun t => { t with state := .committed }
  let kvPrefix ← onLedger (KVLedger.resolveTokens committedHead)
  return {
    waveIdentity := t.identity
    committedKvVersion := committedHead
    committedBranchIds := acceptance.acceptedBranches
    rolledBackBranchIds := rolledBack
    rolledBackKvVersions := finalized.rolledBack
    kvPrefixTokens := kvPrefix
    visiblePrefixTokens := kvPrefix ++ [acceptance.continuationToken]
    pendingToken := acceptance.continuationToken }

structure MacroWaveRollback where
  waveIdentity : WaveIdentity
  restoredKvVersion : Nat
  restoredPrefixTokens : List Nat
  rolledBackBranchIds : List Branch
  rolledBackKvVersions : List Nat

def rollback : TreeM MacroWaveRollback := do
  requireOpen
  let finalized ← onLedger KVLedger.rollback
  let rolledBack ← settleBranches []
  modify fun t => { t with state := .rolledBack }
  let t ← get
  return ⟨t.identity, t.ledger.baseVersion, t.basePrefixTokens, rolledBack, finalized.rolledBack⟩

/-- The loop of `verify_greedy_exact`; the tree is no deeper than it has
records. -/
def followTargets (targets : Dict Branch Nat) : Nat → Branch → List Branch → List Nat →
    TreeM GreedyAcceptance
  | 0, _, _, _ => throw (.runtime "candidate tree is deeper than its branches")
  | fuel + 1, current, branches, tokens => do
    let t ← get
    match targets.find? current with
    | none =>
      throw (.value ("missing target argmax for selected prefix " ++ branchKey t.identity current))
    | some target =>
      let children ← childrenOf current
      match children.find? fun r => r.tokenId = some target with
      | some child =>
        followTargets targets fuel child.identity (branches ++ [child.identity])
          (tokens ++ [target])
      | none =>
        return {
          waveIdentity := t.identity
          acceptedBranches := branches
          acceptedTokens := tokens
          continuationToken := target
          emittedTokens := tokens ++ [target]
          terminalPrefixBranch := current
          stopReason := if children.isEmpty then "candidate_exhausted" else "candidate_mismatch" }

def verifyGreedyExact (targets : Dict Branch Nat) : TreeM GreedyAcceptance := do
  requireOpen
  followTargets targets ((← get).records.size + 1) rootIdentity [] []

end Mycellios.MacroWave
