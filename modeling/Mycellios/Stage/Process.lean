import Mycellios.Logic.Wp
import Mycellios.Stage.Runner

/-! `run_stage_process` and the functions it calls, for a runner without a bound on its active
requests. -/

namespace Mycellios.Stage

open Data Logic Protocol

abbrev StageM (ρ : Type) := EStateM StageError (StageState ρ)

/-- The clock readings of an iteration, and how many frames its window finds. -/
structure Tick where
  now : ℚ
  later : ℚ
  readable : Nat

def maxSpeculativeBranches : Nat := 64
def treeReservationTtlSeconds : ℚ := 120

section Process

variable {ρ : Type} (config : StageConfig) (runner : Runner ρ)

def shift (m : Move) : StageM ρ Unit :=
  modify fun s => { s with areas := s.areas.move m, moves := s.moves ++ [m] }

def send (frame : Outgoing) : StageM ρ Unit := modify fun s => { s with sent := s.sent ++ [frame] }

def call (f : ρ → Except StageError ρ) : StageM ρ Unit := do
  let next ← check (f (← get).runner)
  modify fun s => { s with runner := next }

def setActive (active : Option TreeCapacityReservation) : StageM ρ Unit :=
  modify fun s => { s with reservations := { s.reservations with active := active } }

def valueError {α : Type} : Except String α → Except StageError α
  | .ok a => .ok a
  | .error message => .error (.value message)

def beginStageRequest (frame : Frame) (how : Move) : StageM ρ Unit := do
  call (runner.begin frame.requestId)
  shift how
  modify fun s => { s with frames := s.frames.insert frame.requestId 0 }
  if config.hasNext then
    send { peer := .downstream, frameType := .begin, requestId := frame.requestId }

def expireTreeReservation (now : ℚ) : StageM ρ Unit := do
  match (← get).reservations.active with
  | none => pure ()
  | some active =>
    if now < active.deadlineAt then pure ()
    else
      raiseIf (active.consumedForks ≠ 0)
        (.timeout "committed tree reservation expired after speculative KV mutation")
      setActive none

def treeReservationDefersFrame (frame : Frame) (reservations : TreeReservationBook) : Bool :=
  match reservations.active with
  | none => false
  | some active =>
    if frame.requestId = active.parentRequestId ∨ frame.requestId ∈ active.quotedChildren.keys then
      false
    else
      match frame.frameType with
      | .begin | .activation | .prefill | .verify | .samplingVerify | .truncate | .promote | .end
      | .cancel => true
      | _ => false

def validateTreeVerify (frame : Frame) (active : TreeCapacityReservation) (owners : Dict Nat Nat) :
    Except StageError Unit :=
  if active.consumedForks ≠ active.pathLengths.length then
    .error (.value "tree VERIFY cannot overtake quoted FORKs")
  else
    match active.quotedChildren.find? frame.requestId with
    | none => .error (.value "tree VERIFY is not bound to a quoted child")
    | some expected =>
      if owners.find? frame.requestId ≠ some active.parentRequestId then
        .error (.value "quoted tree VERIFY lost its parent binding")
      else if frame.requestId ∈ active.consumedVerifies then
        .error (.value "quoted tree VERIFY cannot be replayed")
      else if frame.tokenCount ≠ expected then
        .error (.value
          s!"quoted tree VERIFY token count mismatch: got {frame.tokenCount}, expected {expected}")
      else .ok ()

def validateTreeReservationFrameOrder (frame : Frame) (reservations : TreeReservationBook)
    (owners : Dict Nat Nat) : Except StageError Unit :=
  match reservations.active with
  | none => .ok ()
  | some active =>
    let overtakes := Except.error <| .value <| frame.frameType.name ++ " cannot overtake a " ++
      (if active.committed then "committed" else "prepared") ++ " tree reservation"
    match frame.frameType with
    | .ping | .shutdown | .error | .treeReservationCancel => .ok ()
    | .treeReservationCommit =>
      if active.committed then .error (.value "tree reservation COMMIT cannot be replayed")
        else .ok ()
    | .fork => if active.committed then .ok () else overtakes
    | .verify => if active.committed then validateTreeVerify frame active owners else overtakes
    | _ => overtakes

def sumCacheBytes (runner : Runner ρ) (s : ρ) : List Nat → Except StageError Nat
  | [] => .ok 0
  | request :: requests => do
    let bytes ← runner.requestCacheBytes request s
    let rest ← sumCacheBytes runner s requests
    pure (bytes + rest)

def speculativeKvBytes (s : ρ) (owners : Dict Nat Nat) : Except StageError Nat :=
  if owners.entries = [] then .ok 0
  else
    match runner.uniquePhysicalCacheBytes with
    | some unique => do
      let parents := owners.values.dedup.insertionSort (· ≤ ·)
      let everyone := (owners.keys ++ owners.values).dedup.insertionSort (· ≤ ·)
      let allBytes ← unique everyone s
      let parentBytes ← unique parents s
      if allBytes < parentBytes then
        throw (.runtime "speculative physical KV accounting moved backwards")
      else pure (allBytes - parentBytes)
    | none => sumCacheBytes runner s owners.keys

def sumProjectedBytes (runner : Runner ρ) (s : ρ) (parent parentCacheBytes : Nat) :
    List Nat → Except StageError Nat
  | [] => .ok 0
  | delta :: deltas => do
    let bytes ← runner.projectRequestCacheBytes parent delta s
    if bytes < parentCacheBytes then
      throw (.type "stage runner returned invalid projected tree KV bytes")
    let rest ← sumProjectedBytes runner s parent parentCacheBytes deltas
    pure (bytes + rest)

/-- The first limit that a quote breaks: its reason, what it needs and the limit. -/
def capacityRejection (requiredCount requiredTokens branchBytes newBytes : Nat)
    (available : Option Nat) : TreePrepareRejection × Nat × Nat :=
  if config.maxSpeculativeBranches < requiredCount then
    (.branchCount, requiredCount, config.maxSpeculativeBranches)
  else if config.maxSpeculativeBranchTokens < requiredTokens then
    (.branchTokens, requiredTokens, config.maxSpeculativeBranchTokens)
  else if config.maxSpeculativeKvBytes < branchBytes + newBytes then
    (.kvBytes, branchBytes + newBytes, config.maxSpeculativeKvBytes)
  else
    match available with
    | some bytes =>
      if bytes < newBytes then (.kvBytes, branchBytes + newBytes, branchBytes + bytes)
        else (.none, 0, 0)
    | none => (.none, 0, 0)

def projectTreeCapacity (s : StageState ρ) (pathLengths : List Nat) (parent : Nat) :
    Except StageError TreeCapacityProjection := do
  if pathLengths = [] ∨ maxSpeculativeBranches < pathLengths.length then
    throw (.value "tree capacity quote has an invalid path count")
  if 0 ∈ pathLengths then throw (.value "tree capacity path lengths must be positive integers")
  let parentTokens ← runner.sequenceLength parent s.runner
  if parentTokens < 1 then throw (.value "TREE_PREPARE requires a non-empty parent KV cache")
  let owners := s.lineage.logicalOwners
  let branchIds := owners.keys.insertionSort (· ≤ ·)
  let requiredCount := branchIds.length + pathLengths.length
  if config.maxSpeculativeBranches = 0 then
    return {
      projectedKvBytes := 0
      currentBranchCount := branchIds.length
      currentBranchBytes := 0
      parentTokens := parentTokens
      parentCacheBytes := 0
      branchIds := branchIds
      rejection := .treeDisabled
      required := requiredCount }
  let branchBytes ← speculativeKvBytes runner s.runner owners
  let available := runner.availablePhysicalCacheBytes.map (· s.runner)
  let parentCacheBytes ← runner.requestCacheBytes parent s.runner
  if parentCacheBytes < 1 then throw (.type "stage runner returned invalid parent cache bytes")
  let deltas := pathLengths.map (1 + ·)
  let newBytes ← match runner.projectTreeIncremental with
    | some project => project parent deltas s.runner
    | none => sumProjectedBytes runner s.runner parent parentCacheBytes deltas
  if 2 ^ 64 - 1 < branchBytes + newBytes then
    throw (.value "tree capacity projection exceeds uint64")
  let (rejection, required, limit) := capacityRejection config requiredCount
    (parentTokens + 1 + pathLengths.foldr max 0) branchBytes newBytes available
  return {
    projectedKvBytes := branchBytes + newBytes
    currentBranchCount := branchIds.length
    currentBranchBytes := branchBytes
    parentTokens := parentTokens
    parentCacheBytes := parentCacheBytes
    branchIds := branchIds
    availablePhysicalBytes := available
    rejection := rejection
    required := required
    limit := limit }

def TreePrepareQuote.accumulate (quote : TreePrepareQuote) (projection : TreeCapacityProjection) :
    TreePrepareQuote :=
  let counted := { quote with
    stageCount := quote.stageCount + 1
    totalProjectedBytes := quote.totalProjectedBytes + projection.projectedKvBytes }
  if quote.status = .ready ∧ projection.rejection ≠ .none then
    { counted with
      status := .reject
      rejection := projection.rejection
      rejectingLayerStart := config.layerStart
      required := projection.required
      limit := projection.limit }
  else counted

def prepareTreeCapacity (frame : Frame) (later : ℚ) : StageM ρ Unit := do
  let s ← get
  raiseIf s.reservations.active.isSome (.value "another tree reservation is already active")
  let quote ← check (valueError (decodeTreePrepare frame))
  raiseIf (s.reservations.last.map Prod.fst = some quote.nonce)
    (.value "tree reservation nonce cannot be replayed")
  match s.frames.find? frame.requestId with
  | none => throw (.value s!"TREE_PREPARE parent request {frame.requestId} is not active")
  | some expectedStep =>
    raiseIf (frame.step ≠ expectedStep) (.value
      (s!"TREE_PREPARE step mismatch for request {frame.requestId}: " ++
        s!"got {frame.step}, expected {expectedStep}"))
    raiseIf (2 ^ 16 - 1 ≤ quote.stageCount) (.value "tree prepare stage count overflow")
    modify fun s => { s with
      reservations := { s.reservations with
        last := some (quote.nonce, frame.requestId, frame.step), lastMutated := false } }
    let projection ← check (projectTreeCapacity config runner s quote.pathLengths frame.requestId)
    raiseIf (2 ^ 64 - 1 < quote.totalProjectedBytes + projection.projectedKvBytes)
      (.value "tree prepare aggregate projection exceeds uint64")
    let payload ← check (valueError
      (encodeTreePrepareQuote (TreePrepareQuote.accumulate config quote projection)))
    if quote.status = .ready ∧ projection.rejection = .none then
      setActive (some {
        nonce := quote.nonce
        parentRequestId := frame.requestId
        step := frame.step
        pathLengths := quote.pathLengths
        projection := projection
        expectedCommitPredecessors := quote.stageCount
        deadlineAt := later + treeReservationTtlSeconds })
    send {
      peer := if config.hasNext then .downstream else .back
      frameType := if config.hasNext then .treePrepare else .treePrepareResult
      requestId := frame.requestId
      step := frame.step
      tokenCount := quote.pathLengths.length
      payload := payload }

def commitTreeReservation (frame : Frame) (later : ℚ) : StageM ρ Unit := do
  let nonce ← check (valueError (decodeTreeReservationNonce frame))
  let s ← get
  match s.reservations.active with
  | none => throw (.value "TREE_RESERVATION_COMMIT has no active quote")
  | some active =>
    raiseIf (nonce ≠ active.nonce ∨ frame.requestId ≠ active.parentRequestId ∨
      frame.step ≠ active.step) (.value "TREE_RESERVATION_COMMIT identity mismatch")
    raiseIf (active.committed = true) (.value "TREE_RESERVATION_COMMIT cannot be replayed")
    raiseIf (frame.tokenCount ≠ active.expectedCommitPredecessors) (.value
      ("TREE_RESERVATION_COMMIT predecessor count mismatch: " ++
        s!"got {frame.tokenCount}, expected {active.expectedCommitPredecessors}"))
    match s.frames.find? frame.requestId with
    | none => throw (.value "tree reservation parent is no longer active")
    | some step =>
      raiseIf (step ≠ active.step) (.runtime "tree reservation parent step changed before COMMIT")
      let observed ← check (projectTreeCapacity config runner s active.pathLengths
        active.parentRequestId)
      raiseIf (observed.rejection ≠ .none)
        (.runtime "reserved tree capacity disappeared before COMMIT")
      raiseIf (observed ≠ active.projection)
        (.runtime "tree reservation snapshot changed before COMMIT")
      setActive (some { active with
        committed := true, deadlineAt := later + treeReservationTtlSeconds })
      send {
        peer := if config.hasNext then .downstream else .back
        frameType := if config.hasNext then .treeReservationCommit else .treeReservationCommitResult
        requestId := frame.requestId
        step := frame.step
        tokenCount := frame.tokenCount + 1
        payload := frame.payload }

def cancelTreeReservation (frame : Frame) : StageM ρ Unit := do
  let nonce ← check (valueError (decodeTreeReservationNonce frame))
  let reservations := (← get).reservations
  raiseIf (some (nonce, frame.requestId, frame.step) ≠ reservations.last)
    (.value "TREE_RESERVATION_CANCEL identity mismatch")
  match reservations.active with
  | some active =>
    raiseIf ((nonce, frame.requestId, frame.step) ≠ (active.nonce, active.parentRequestId,
      active.step)) (.value "TREE_RESERVATION_CANCEL targets another nonce")
    raiseIf (active.consumedForks ≠ 0) (.value "cannot cancel a reservation after FORK consumption")
    setActive none
  | none =>
    raiseIf (reservations.lastMutated = true)
      (.value "cannot cancel a reservation after FORK consumption")
  if config.hasNext then
    send {
      peer := .downstream, frameType := .treeReservationCancel, requestId := frame.requestId
      step := frame.step, payload := frame.payload }

def abandonTreeReservationForRequest (request : Nat) : StageM ρ Unit := do
  match (← get).reservations.active with
  | none => pure ()
  | some active => if active.parentRequestId = request then setActive none else pure ()

def discardFailedPhysicalFork (child : Nat) (e : StageError) : StageM ρ Unit := do
  modify fun s => { s with frames := s.frames.erase child, lineage := s.lineage.release child }
  call (runner.finish child)
  throw e

/-- The checks of a fork before anything is copied: frames, and bytes in use, to be added and
left. -/
def preflightFork (s : StageState ρ) (child source owner : Nat) :
    Except StageError (Nat × Nat × Nat × Int) := do
  let owners := s.lineage.logicalOwners
  if config.maxSpeculativeBranches = 0 then
    throw (.value "FORK is disabled by the sealed stage contract")
  if child = source then throw (.value "FORK child and physical source request IDs must differ")
  if child = owner then throw (.value "FORK child and logical owner request IDs must differ")
  if owner ∈ owners.keys then throw (.value "FORK logical owner must be an ordinary root request")
  if owner ∉ s.frames.keys then throw (.value s!"FORK logical owner request {owner} is not active")
  match s.frames.find? source with
  | none =>
    throw (.value s!"FORK physical source request {source} is not active on this stage")
  | some sourceFrames =>
    if source ≠ owner ∧ owners.find? source ≠ some owner then
      throw (.value "FORK physical source is outside the logical tree")
    if child ∈ s.frames.keys ∨ child ∈ owners.keys ∨ child ∈ s.lineage.forkSources.keys then
      throw (.value s!"FORK child request {child} is already active")
    if config.maxSpeculativeBranches ≤ owners.size then
      throw (.value (s!"FORK exceeds max_speculative_branches: {owners.size + 1} > " ++
        s!"{config.maxSpeculativeBranches}"))
    let sourceTokens ← runner.sequenceLength source s.runner
    if sourceTokens < 1 then
      throw (.value "FORK requires a non-empty prefilled physical source KV cache")
    if config.maxSpeculativeBranchTokens < sourceTokens then
      throw (.value ("FORK physical source cache exceeds max_speculative_branch_tokens: " ++
        s!"{sourceTokens} > {config.maxSpeculativeBranchTokens}"))
    let currentBytes ← speculativeKvBytes runner s.runner owners
    let sourceBytes ← runner.requestCacheBytes source s.runner
    let remaining : Int := config.maxSpeculativeKvBytes - currentBytes
    if sourceBytes < 1 then throw (.value "FORK physical source has no measurable KV cache")
    let projected ← match runner.projectTreeIncremental with
      | some project => project source [0] s.runner
      | none => pure sourceBytes
    if remaining < projected then
      throw (.value ("FORK exceeds max_speculative_kv_bytes before cloning: " ++
        s!"{currentBytes + projected} > {config.maxSpeculativeKvBytes}"))
    if runner.availablePhysicalCacheBytes.any (· s.runner < projected) then
      throw (.value "FORK exceeds available physical KV pool capacity")
    pure (sourceFrames, currentBytes, projected, remaining)

def checkFork (s : StageState ρ) (copied currentBytes projected : Nat) : Option StageError :=
  match speculativeKvBytes runner s.runner s.lineage.logicalOwners with
  | .error e => some e
  | .ok observed =>
    let increment : Int := observed - currentBytes
    if increment ≠ projected then
      some (.runtime ("stage runner physical FORK allocation changed after preflight: " ++
        s!"{increment} != {projected}"))
    else
      match runner.lastForkReport.bind (· s.runner) with
      | none => none
      | some (reportCopied, reportReserved) =>
        if reportCopied ≠ copied then
          some (.runtime "stage runner FORK report copied-byte mismatch")
        else if (reportReserved : Int) ≠ increment then
          some (.runtime "stage runner FORK report physical-byte mismatch")
        else none

def forkPhysicalStageRequest (child source owner : Nat) (how : Move) : StageM ρ Unit := do
  let s ← get
  let (sourceFrames, currentBytes, projected, remaining) ← check
    (preflightFork config runner s child source owner)
  let (copied, forked) ← check (runner.forkRequest child source remaining s.runner)
  modify fun s => { s with runner := forked }
  shift how
  match s.lineage.register child owner source with
  | .error e => do
    call (runner.finish child)
    throw e
  | .ok lineage =>
    modify fun s => { s with lineage := lineage }
    match checkFork runner (← get) copied currentBytes projected with
    | some e => discardFailedPhysicalFork runner child e
    | none => modify fun s => { s with frames := s.frames.insert child sourceFrames }

def forkStageRequest (frame : Frame) (how : Move) (later : ℚ) : StageM ρ Unit := do
  let parent ← check (valueError (decodeBranchRequestId frame))
  match (← get).reservations.active with
  | none => throw (.value "FORK requires an active committed tree reservation")
  | some active =>
    raiseIf (active.committed = false)
      (.value "FORK cannot consume an uncommitted tree reservation")
    raiseIf (parent ≠ active.parentRequestId)
      (.value "FORK parent does not match committed tree reservation")
    match active.pathLengths[active.consumedForks]? with
    | none => throw (.value "FORK exceeds committed tree reservation count")
    | some pathLength =>
      forkPhysicalStageRequest config runner frame.requestId parent parent how
      if config.hasNext then
        send {
          peer := .downstream, frameType := .fork, requestId := frame.requestId
          payload := frame.payload }
      modify fun s => { s with
        leafShapes := s.leafShapes.insert frame.requestId ⟨parent, active.nonce, 1 + pathLength⟩
        reservations := { s.reservations with lastMutated := true } }
      setActive (some { active with
        consumedForks := active.consumedForks + 1
        quotedChildren := active.quotedChildren.insert frame.requestId (1 + pathLength)
        deadlineAt := later + treeReservationTtlSeconds })

def consumeVerifies (active : TreeCapacityReservation) :
    List Frame → Except StageError TreeCapacityReservation
  | [] => .ok active
  | frame :: frames =>
    if frame.frameType ≠ .verify then
      .error (.runtime "non-VERIFY frame consumed quoted tree capacity")
    else if active.quotedChildren.find? frame.requestId ≠ some frame.tokenCount then
      .error (.runtime "quoted VERIFY changed shape after validation")
    else if frame.requestId ∈ active.consumedVerifies then
      .error (.runtime "quoted VERIFY was consumed twice")
    else
      consumeVerifies { active with
        consumedVerifies := active.consumedVerifies ++ [frame.requestId] } frames

def consumeTreeReservationVerifies (frames : List Frame) (later : ℚ) : StageM ρ Unit := do
  match (← get).reservations.active with
  | none => pure ()
  | some active =>
    let quoted := frames.filter (·.requestId ∈ active.quotedChildren.keys)
    if quoted = [] then pure ()
    else
      raiseIf (active.consumedForks ≠ active.pathLengths.length)
        (.runtime "quoted VERIFY completed before every FORK")
      let consumed ← check (consumeVerifies active quoted)
      raiseIf (active.pathLengths.length < consumed.consumedVerifies.length)
        (.runtime "tree reservation consumed too many VERIFY frames")
      if consumed.consumedVerifies.length = active.pathLengths.length then setActive none
      else setActive (some { consumed with deadlineAt := later + treeReservationTtlSeconds })

def endStageRequest (frame : Frame) (how : Move) : StageM ρ Unit := do
  let request := frame.requestId
  raiseIf (request ∈ (← get).lineage.logicalOwners.values) (.value
    (s!"cannot {frame.frameType.name} request {request} while it still logically " ++
      "owns speculative branches"))
  call (runner.finish request)
  shift how
  modify fun s => { s with
    frames := s.frames.erase request
    lineage := s.lineage.release request
    leafShapes := s.leafShapes.erase request }
  abandonTreeReservationForRequest request
  if config.hasNext then
    send { peer := .downstream, frameType := frame.frameType, requestId := request }

def promoteStageRequest (frame : Frame) (how : Move) : StageM ρ Unit := do
  let owner := frame.requestId
  let child ← check (valueError (decodeBranchRequestId frame))
  let s ← get
  raiseIf (child ∉ s.leafShapes.keys)
    (.value "PROMOTE child is not bound to a committed tree quote")
  raiseIf (config.maxSpeculativeBranches = 0)
    (.value "PROMOTE is disabled by the sealed stage contract")
  raiseIf (child = owner) (.value "PROMOTE owner and descendant request IDs must differ")
  raiseIf (owner ∈ s.lineage.logicalOwners.keys)
    (.value "PROMOTE logical owner must be an ordinary root request")
  raiseIf (owner ∉ s.frames.keys) (.value s!"PROMOTE owner request {owner} is not active")
  match s.frames.find? child with
  | none => throw (.value s!"PROMOTE descendant request {child} is not active")
  | some childFrames =>
    raiseIf (s.lineage.logicalOwners.find? child ≠ some owner)
      (.value "PROMOTE descendant is outside the logical tree")
    raiseIf (s.lineage.ownedRequests owner ≠ [child])
      (.value "PROMOTE requires the selected descendant to be the sole live branch")
    call (runner.promoteRequest owner child)
    shift how
    modify fun s => { s with
      frames := (s.frames.erase child).insert owner childFrames
      lineage := s.lineage.release child
      leafShapes := s.leafShapes.erase child }
    if config.hasNext then
      send { peer := .downstream, frameType := .promote, requestId := owner,
             payload := frame.payload }

def sumGrowth (runner : Runner ρ) (s : ρ) : List Frame → Except StageError Nat
  | [] => .ok 0
  | frame :: frames => do
    let growth ← match runner.projectRequestIncremental with
      | some project => project frame.requestId frame.tokenCount s
      | none => do
        let current ← runner.requestCacheBytes frame.requestId s
        let projected ← runner.projectRequestCacheBytes frame.requestId frame.tokenCount s
        if projected < current then
          throw (.value "stage runner projected speculative KV bytes backwards")
        pure (projected - current)
    let rest ← sumGrowth runner s frames
    pure (growth + rest)

def validateSpeculativeKvPreflight (s : StageState ρ) (frames : List Frame) :
    Except StageError Unit := do
  let owners := s.lineage.logicalOwners
  let branchFrames := frames.filter (·.requestId ∈ owners.keys)
  if branchFrames = [] then return ()
  if ¬(branchFrames.map Frame.requestId).Nodup then
    throw (.value "one speculative request cannot appear twice in a physical batch")
  let current ← speculativeKvBytes runner s.runner owners
  let growth ← sumGrowth runner s.runner branchFrames
  if runner.availablePhysicalCacheBytes.any (· s.runner < growth) then
    throw (.value "speculative KV growth exceeds available physical cache pool")
  if config.maxSpeculativeKvBytes < current + growth then
    throw (.value ("speculative KV bytes exceed max_speculative_kv_bytes before child forward: " ++
      s!"{current + growth} > {config.maxSpeculativeKvBytes}"))

def validateLeafShape (s : StageState ρ) (frame : Frame) : Except StageError Unit :=
  match s.leafShapes.find? frame.requestId with
  | none => .ok ()
  | some shape =>
    if frame.frameType ≠ .verify then
      .error (.value "quoted physical tree leaves require a VERIFY frame")
    else if frame.tokenCount ≠ shape.expectedTokens then
      .error (.value ("quoted physical tree leaf shape mismatch: " ++
        s!"got {frame.tokenCount}, expected {shape.expectedTokens}"))
    else if s.lineage.logicalOwners.find? frame.requestId ≠ some shape.parentRequestId then
      .error (.runtime "quoted physical tree leaf lost its parent binding")
    else .ok ()

def validateTokenCount (frame : Frame) : Except StageError Unit :=
  let limit :=
    max (config.sealedWaveTokens.getD 1 |>.max 1) (config.maxPrefillChunkTokens.getD 1 |>.max 1)
  match frame.frameType with
  | .verify =>
    match config.sealedWaveTokens with
    | some tokens =>
      if tokens < frame.tokenCount then
        .error (.value
          s!"VERIFY token_count exceeds sealed_wave_tokens: {frame.tokenCount} > {tokens}")
      else .ok ()
    | none => .ok ()
  | .prefill =>
    match config.maxPrefillChunkTokens with
    | some tokens =>
      if tokens < frame.tokenCount then
        .error (.value
          s!"PREFILL token_count exceeds max_prefill_chunk_tokens: {frame.tokenCount} > {tokens}")
      else .ok ()
    | none => .ok ()
  | _ =>
    if (config.sealedWaveTokens.isSome ∨ config.maxPrefillChunkTokens.isSome) ∧
        limit < frame.tokenCount then
      .error (.value (frame.frameType.name ++ " token_count exceeds sealed activation capacity: " ++
        s!"{frame.tokenCount} > {limit}"))
    else .ok ()

def validateActivation (s : StageState ρ) (frame : Frame) : Except StageError Unit := do
  match s.frames.find? frame.requestId with
  | none => throw (.value s!"activation for request {frame.requestId} arrived before BEGIN")
  | some expectedStep =>
    validateLeafShape s frame
    validateTokenCount config frame
    if frame.step ≠ expectedStep then
      throw (.value (s!"activation step mismatch for request {frame.requestId}: " ++
        s!"got {frame.step}, expected {expectedStep}"))
    if frame.flags ≠ config.codec then
      throw (.value s!"activation codec mismatch: got {frame.flags}, expected {config.codec}")
    if frame.hiddenSize ≠ runner.hiddenSize then
      throw (.value (s!"activation hidden size mismatch: got {frame.hiddenSize}, " ++
        s!"expected {runner.hiddenSize}"))
    let currentTokens ← runner.sequenceLength frame.requestId s.runner
    if frame.requestId ∈ s.lineage.logicalOwners.keys then
      if config.maxSpeculativeBranchTokens < currentTokens + frame.tokenCount then
        throw (.value ("speculative child activation exceeds max_speculative_branch_tokens: " ++
          s!"{currentTokens + frame.tokenCount} > {config.maxSpeculativeBranchTokens}"))
      validateSpeculativeKvPreflight config runner s [frame]

def isTreeLeaf (s : StageState ρ) (frame : Frame) : Bool :=
  frame.requestId ∈ s.lineage.logicalOwners.keys

def batchKey (s : StageState ρ) (frame : Frame) : Option Nat :=
  runner.physicalBatchKey frame.requestId frame.tokenCount (activationTokenMode frame.frameType)
    s.runner

def compatible (s : StageState ρ) (first : Frame) (firstKey : Nat) (candidate : Frame) : Bool :=
  candidate.frameType == first.frameType && candidate.flags == first.flags &&
    candidate.tokenCount == first.tokenCount && candidate.hiddenSize == first.hiddenSize &&
    batchKey runner s candidate == some firstKey

def joins (s : StageState ρ) (first : Frame) (firstKey : Nat) (candidate : Frame) :
    Except StageError Bool :=
  if candidate.requestId ∈ s.areas.batch.map Frame.requestId then .ok false
  else if isTreeLeaf s candidate ≠ isTreeLeaf s first then .ok false
  else if isTreeLeaf s candidate ∧ runner.certified = false then .ok false
  else do
    validateActivation config runner s candidate
    pure (compatible runner s first firstKey candidate)

/-- The rounds of `collect_compatible_activation_frames` in which the socket is readable. -/
def collect (first : Frame) (firstKey : Nat) : Nat → StageM ρ Unit
  | 0 => pure ()
  | readable + 1 => do
    let s ← get
    match s.areas.upstream with
    | [] => pure ()
    | candidate :: _ =>
      if config.maxPhysicalBatchSize ≤ s.areas.batch.length then pure ()
      else if treeReservationDefersFrame candidate s.reservations then shift .aside
      else
        check (validateTreeReservationFrameOrder candidate s.reservations s.lineage.logicalOwners)
        if candidate.frameType = .begin then
          beginStageRequest config runner candidate .begin
          collect first firstKey readable
        else if candidate.frameType.isTensor = false then shift .aside
        else
          if ← check (joins config runner s first firstKey candidate) then
            shift .join
            collect first firstKey readable
          else shift .aside

def collectCompatibleActivationFrames (first : Frame) (readable : Nat) : StageM ρ Unit := do
  let s ← get
  if config.maxPhysicalBatchSize < 2 ∨ runner.batches = false ∨
      (isTreeLeaf s first ∧ runner.certified = false) then pure ()
  else
    match batchKey runner s first with
    | none => pure ()
    | some firstKey => collect config runner first firstKey readable

def routeStageResult (frame : Frame) (result : StageResult) : Except StageError Outgoing :=
  let answer : Outgoing :=
    { peer := .back, frameType := frame.frameType, requestId := frame.requestId, step :=
        frame.step }
  if config.hasNext then
    .ok { answer with
      peer := .downstream
      tokenCount := result.tokenCount
      hiddenSize := result.hiddenSize
      flags := config.codec
      payload := result.payload }
  else
    match frame.frameType with
    | .prefill => .ok { answer with frameType := .prefillAck }
    | .samplingVerify =>
      match runner.samplingLogits with
      | none => .error (.runtime "last-stage backend does not expose certified sampling logits")
      | some project => do
        let (rows, vocabulary, payload) ← project result
        if rows ≠ frame.tokenCount then
          throw (.runtime "last stage returned an invalid sampling distribution")
        pure { answer with
          frameType := .samplingVerifyResult
          tokenCount := rows
          hiddenSize := vocabulary
          payload := payload }
    | .verify =>
      match result.token with
      | .many tokens => do
        if tokens.length ≠ frame.tokenCount then
          throw (.runtime "last stage returned an invalid verification vector")
        let payload ← valueError (verifyResultPayload tokens)
        pure { answer with
          frameType := .verifyResult, tokenCount := tokens.length, payload := payload }
      | _ => .error (.runtime "last stage returned an invalid verification vector")
    | _ =>
      match result.token with
      | .one token => do
        let payload ← valueError (tokenPayload token)
        pure { answer with frameType := .token, payload := payload }
      | _ => .error (.runtime "last stage did not return a token")

def routeResults : List (Frame × StageResult) → StageM ρ Unit
  | [] => pure ()
  | (frame, result) :: rest => do
    match (← get).frames.find? frame.requestId with
    | none => throw (.key frame.requestId)
    | some n =>
      modify fun s => { s with frames := s.frames.insert frame.requestId (n + 1) }
      send (← check (routeStageResult config runner frame result))
      routeResults rest

def processActivationFrames (frames : List Frame) : StageM ρ Unit := do
  let s ← get
  raiseIf (frames.length > 1 ∧ frames.any (isTreeLeaf s) ∧ ¬frames.all (isTreeLeaf s))
    (.value "physical batches cannot mix real requests and tree leaves")
  raiseIf (frames.length > 1 ∧ frames.any (isTreeLeaf s) ∧ runner.certified = false)
    (.value ("physical tree VERIFY batching requires exact-token and " ++
      "bounded-workspace executor certification"))
  check (validateSpeculativeKvPreflight config runner s frames)
  let (results, next) ← check (runner.forward frames s.runner)
  modify fun s => { s with runner := next }
  shift .run
  raiseIf (results.length ≠ frames.length)
    (.runtime "physical batch returned the wrong number of results")
  routeResults config runner (frames.zip results)

def StageState.nextSource (s : StageState ρ) : Source :=
  if s.reservations.active.isNone ∧ s.areas.deferred ≠ [] then .deferred
  else if s.areas.pending ≠ [] then .pending
  else .upstream

def activate (frame : Frame) (source : Source) (tick : Tick) : StageM ρ Unit := do
  check (validateActivation config runner (← get) frame)
  shift (.enter source)
  collectCompatibleActivationFrames config runner frame tick.readable
  let frames := (← get).areas.batch
  processActivationFrames config runner frames
  consumeTreeReservationVerifies frames tick.later

def truncate (frame : Frame) (source : Source) : StageM ρ Unit := do
  call (runner.truncate frame.requestId frame.tokenCount)
  shift (.apply source)
  if config.hasNext then
    send {
      peer := .downstream, frameType := .truncate, requestId := frame.requestId
      tokenCount := frame.tokenCount }

def ping (frame : Frame) (source : Source) : StageM ρ Unit := do
  raiseIf (frame.requestId ≠ config.pipelineId)
    (.value "route PING belongs to another pipeline session")
  shift (.skip source)
  send {
    peer := if config.hasNext then .downstream else .back
    frameType := if config.hasNext then .ping else .pong
    requestId := frame.requestId
    step := frame.step }

def shutdown (frame : Frame) (source : Source) : StageM ρ Unit := do
  shift (.skip source)
  setActive none
  modify fun s => { s with leafShapes := .empty, lineage := {}, halted := true }
  if config.hasNext then
    send { peer := .downstream, frameType := .shutdown, requestId := frame.requestId }
  shift .stop

def handle (frame : Frame) (source : Source) (tick : Tick) : StageM ρ Unit :=
  match frame.frameType with
  | .begin => beginStageRequest config runner frame (.apply source)
  | .treePrepare => do
    prepareTreeCapacity config runner frame tick.later
    shift (.skip source)
  | .treeReservationCommit => do
    commitTreeReservation config runner frame tick.later
    shift (.skip source)
  | .treeReservationCancel => do
    cancelTreeReservation config frame
    shift (.skip source)
  | .fork => forkStageRequest config runner frame (.apply source) tick.later
  | .promote => promoteStageRequest config runner frame (.apply source)
  | .activation | .prefill | .verify | .samplingVerify => activate config runner frame source tick
  | .truncate => truncate config runner frame source
  | .end | .cancel => endStageRequest config runner frame (.apply source)
  | .ping => ping config frame source
  | .shutdown => shutdown config frame source
  | .error => throw (.upstream frame.payload)
  | _ => throw (.value s!"unexpected frame {frame.frameType.name}")

/-- One iteration of the loop of `run_stage_process`. It waits when nothing has arrived. -/
def iterate (tick : Tick) : StageM ρ Unit := do
  expireTreeReservation tick.now
  let s ← get
  match (s.areas.source s.nextSource).head? with
  | none => pure ()
  | some frame =>
    if treeReservationDefersFrame frame s.reservations then shift (.defer s.nextSource)
    else
      check (validateTreeReservationFrameOrder frame s.reservations s.lineage.logicalOwners)
      handle config runner frame s.nextSource tick

/-- One more iteration, unless SHUTDOWN or an exception has ended the loop. -/
def step (s : StageState ρ) (tick : Tick) : StageState ρ × Except StageError Unit :=
  if s.halted then (s, .ok ())
  else
    match iterate config runner tick s with
    | .ok _ next => (next, .ok ())
    | .error e next => ({ next with halted := true }, .error e)

end Process

end Mycellios.Stage
