import Mycellios.MacroWave.Tree

namespace Mycellios.MacroWave

open Data Logic

def pathLe (a b : List Nat) : Prop := a.length < b.length ∨ a.length = b.length ∧ a ≤ b

instance : DecidableRel pathLe := fun _ _ => inferInstanceAs (Decidable (_ ∨ _))

/-- The object name of a `MacroWaveTree`, which a proposal shares with its
caller. -/
abbrev TreeRef := Nat

structure Proposal where
  tree : TreeRef
  candidatePaths : List (List Nat)
  strategy : String
  prefixBranches : List (List Nat × Branch)

def Proposal.prefixes (p : Proposal) : List (List Nat) := p.prefixBranches.map Prod.fst

def Proposal.branchForPrefix (p : Proposal) (tokens : List Nat) : Except WaveError Branch :=
  match p.prefixBranches.find? fun e => e.1 = tokens with
  | some (_, branch) => .ok branch
  | none => .error (.key ("candidate prefix is not present in this wave: " ++ tupleRepr tokens))

def checkStrategy (value : String) : Except WaveError String :=
  if (strip value).isEmpty then .error (.value "strategy must be a non-empty string")
  else .ok (strip value)

def Prefixes (paths : List (List Nat)) : Prop :=
  ∃ p ∈ paths, ∃ q ∈ paths, p.length < q.length ∧ q.take p.length = p

instance (paths : List (List Nat)) : Decidable (Prefixes paths) :=
  inferInstanceAs (Decidable (∃ p ∈ paths, ∃ q ∈ paths, _ ∧ _))

def checkCandidates (paths : List (List Nat)) : Except WaveError Unit :=
  if paths = [] ∨ [] ∈ paths then
    .error (.value "candidate_paths must contain non-empty token paths")
  else if ¬paths.Nodup then .error (.value "candidate_paths must not contain duplicates")
  else if Prefixes paths then
    .error (.value "candidate paths must be leaves; one path cannot prefix another")
  else .ok ()

def ensurePaths : List (List Nat) → TreeM Unit
  | [] => pure ()
  | path :: paths => do
    let _ ← ensurePath path
    ensurePaths paths

/-- `tree.branches()` with their token paths. -/
def Tree.prefixBranches (t : Tree) : Except WaveError (List (List Nat × Branch)) := do
  let named ← (sortBranches t.records.keys).mapM fun b => do
    return (← t.candidateTokens b, b)
  return named.insertionSort fun a b => pathLe a.1 b.1

def runTree (m : TreeM α) (t : Tree) : Except WaveError Tree :=
  match m t with
  | .ok _ t => .ok t
  | .error e _ => .error e

/-- `branched_candidates_to_macro_wave`: the proposal and the tree it names. -/
def branchedCandidates (digest : Nat → List Nat → String) (candidatePaths : List (List Nat))
    (requestId : String) (ordinal : Nat) (basePrefixTokens : List Nat) (parentKvVersion : Nat)
    (strategy : String) (ref : TreeRef) : Except WaveError (Proposal × Tree) := do
  checkCandidates candidatePaths
  let tree ← Tree.create digest requestId ordinal basePrefixTokens parentKvVersion
  let tree ← runTree (ensurePaths candidatePaths) tree
  let prefixBranches ← tree.prefixBranches
  let strategy ← checkStrategy strategy
  return (⟨ref, candidatePaths, strategy, prefixBranches⟩, tree)

inductive ContinuationKind
  | correction | bonus
  deriving DecidableEq

/-- `MacroWaveResolution`; exactly one of correction and bonus is there. -/
structure Resolution where
  acceptance : GreedyAcceptance
  commit : MacroWaveCommit
  commitTokens : List Nat
  truncateDraftTo : Nat
  truncateRequired : Bool
  continuationKind : ContinuationKind
  correctionToken : Option Nat
  bonusToken : Option Nat
  emittedTokens : List Nat
  deriving DecidableEq

def Resolution.acceptedDraftTokens (r : Resolution) : Nat := r.commitTokens.length

/-- The checks of `MacroWaveResolution.__post_init__`. -/
def Resolution.check (r : Resolution) : TreeM Unit := do
  raiseIf (r.commitTokens ≠ r.acceptance.acceptedTokens)
    (.value "commit_tokens must equal the exact accepted draft prefix")
  raiseIf (r.truncateDraftTo ≠ r.commitTokens.length)
    (.value "truncate_draft_to must equal the committed draft count")
  raiseIf (r.emittedTokens ≠ r.acceptance.emittedTokens)
    (.value "emitted_tokens must equal the exact greedy output")
  raiseIf (r.correctionToken.isSome = r.bonusToken.isSome)
    (.value "exactly one correction_token or bonus_token is required")
  match r.continuationKind with
  | .bonus => do
    raiseIf (r.bonusToken ≠ some r.acceptance.continuationToken)
      (.value "bonus_token must be the accepted leaf continuation")
    raiseIf (r.correctionToken.isSome = true ∨ r.truncateRequired = true)
      (.value "a bonus cannot also request correction or truncation")
  | .correction => do
    raiseIf (r.correctionToken ≠ some r.acceptance.continuationToken)
      (.value "correction_token must be the mismatch continuation")
    raiseIf (r.bonusToken.isSome = true ∨ r.truncateRequired = false)
      (.value "a correction must request truncation")

def Proposal.targetsByBranch (p : Proposal) :
    Dict Branch Nat → List (List Nat × Nat) → Except WaveError (Dict Branch Nat)
  | byBranch, [] => .ok byBranch
  | byBranch, (tokens, target) :: rest =>
    if tokens ∉ p.prefixes then
      .error (.value ("target argmax contains an unknown candidate prefix: " ++ tupleRepr tokens))
    else
      match p.branchForPrefix tokens with
      | .error e => .error e
      | .ok branch =>
        if byBranch.contains branch then
          .error (.value ("duplicate target argmax for candidate prefix: " ++ tupleRepr tokens))
        else p.targetsByBranch (byBranch.insert branch target) rest

def raiseExcept (x : Except WaveError α) : TreeM α :=
  match x with
  | .ok a => pure a
  | .error e => throw e

def GreedyAcceptance.resolution (acceptance : GreedyAcceptance) (commit : MacroWaveCommit) :
    Resolution :=
  let isBonus := acceptance.stopReason == "candidate_exhausted"
  { acceptance := acceptance
    commit := commit
    commitTokens := acceptance.acceptedTokens
    truncateDraftTo := acceptance.acceptedTokens.length
    truncateRequired := !isBonus
    continuationKind := if isBonus then .bonus else .correction
    correctionToken := if isBonus then none else some acceptance.continuationToken
    bonusToken := if isBonus then some acceptance.continuationToken else none
    emittedTokens := acceptance.emittedTokens }

/-- `resolve_macro_wave`, on the tree the proposal names. -/
def resolveMacroWave (proposal : Proposal) (targetArgmaxByPrefix : Dict (List Nat) Nat) :
    TreeM Resolution := do
  let byBranch ← raiseExcept (proposal.targetsByBranch .empty targetArgmaxByPrefix.entries)
  let acceptance ← verifyGreedyExact byBranch
  let commit ← commitGreedy acceptance
  (acceptance.resolution commit).check
  return acceptance.resolution commit

end Mycellios.MacroWave
