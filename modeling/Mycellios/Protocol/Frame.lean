import Mycellios.Data.Bytes

namespace Mycellios.Protocol

open Data

inductive FrameType
  | hello | ready | begin | activation | token
  | «end»
  | cancel | error | shutdown | prefill | prefillAck | truncate | verify | verifyResult | ping
  | pong | fork | promote | treePrepare | treePrepareResult | treeReservationCommit
  | treeReservationCancel | treeReservationCommitResult | receiptEnvelope | receiptAck
  | samplingVerify | samplingVerifyResult | samplingRngCheckpoint
  deriving DecidableEq

def FrameType.name : FrameType → String
  | hello => "HELLO"
  | ready => "READY"
  | begin => "BEGIN"
  | activation => "ACTIVATION"
  | token => "TOKEN"
  | «end» => "END"
  | cancel => "CANCEL"
  | error => "ERROR"
  | shutdown => "SHUTDOWN"
  | prefill => "PREFILL"
  | prefillAck => "PREFILL_ACK"
  | truncate => "TRUNCATE"
  | verify => "VERIFY"
  | verifyResult => "VERIFY_RESULT"
  | ping => "PING"
  | pong => "PONG"
  | fork => "FORK"
  | promote => "PROMOTE"
  | treePrepare => "TREE_PREPARE"
  | treePrepareResult => "TREE_PREPARE_RESULT"
  | treeReservationCommit => "TREE_RESERVATION_COMMIT"
  | treeReservationCancel => "TREE_RESERVATION_CANCEL"
  | treeReservationCommitResult => "TREE_RESERVATION_COMMIT_RESULT"
  | receiptEnvelope => "RECEIPT_ENVELOPE"
  | receiptAck => "RECEIPT_ACK"
  | samplingVerify => "SAMPLING_VERIFY"
  | samplingVerifyResult => "SAMPLING_VERIFY_RESULT"
  | samplingRngCheckpoint => "SAMPLING_RNG_CHECKPOINT"

def FrameType.isTensor : FrameType → Bool
  | activation | prefill | verify | samplingVerify => true
  | _ => false

structure Frame where
  frameType : FrameType
  (flags requestId step tokenCount hiddenSize : Nat)
  payload : List UInt8
  sequence : Nat
  deriving DecidableEq

inductive TreePrepareStatus
  | ready | reject
  deriving DecidableEq

inductive TreePrepareRejection
  | none | treeDisabled | reservationBusy | branchCount | branchTokens | kvBytes
  deriving DecidableEq

structure TreePrepareQuote where
  nonce : Nat
  pathLengths : List Nat
  status : TreePrepareStatus := .ready
  rejection : TreePrepareRejection := .none
  stageCount : Nat := 0
  rejectingLayerStart : Nat := 0
  required : Nat := 0
  limit : Nat := 0
  totalProjectedBytes : Nat := 0

def TreePrepareStatus.code : TreePrepareStatus → Nat
  | ready => 0
  | reject => 1

def TreePrepareStatus.ofCode : Nat → Except String TreePrepareStatus
  | 0 => .ok ready
  | 1 => .ok reject
  | n => .error s!"unknown tree prepare status {n}"

def TreePrepareRejection.code : TreePrepareRejection → Nat
  | none => 0
  | treeDisabled => 1
  | reservationBusy => 2
  | branchCount => 3
  | branchTokens => 4
  | kvBytes => 5

def TreePrepareRejection.ofCode : Nat → Except String TreePrepareRejection
  | 0 => .ok none
  | 1 => .ok treeDisabled
  | 2 => .ok reservationBusy
  | 3 => .ok branchCount
  | 4 => .ok branchTokens
  | 5 => .ok kvBytes
  | n => .error s!"unknown tree prepare rejection {n}"

def requireUnsigned (name : String) (value maximum : Nat) : Except String Unit :=
  if maximum < value then .error s!"{name} must be between 0 and {maximum}" else .ok ()

def tokenPayload (token : Nat) : Except String (List UInt8) := do
  requireUnsigned "token_id" token (2 ^ 32 - 1)
  pure (packWord 4 token)

def checkTokenIds : List Nat → Except String Unit
  | [] => .ok ()
  | token :: tokens => do
    requireUnsigned "token_id" token (2 ^ 32 - 1)
    checkTokenIds tokens

def verifyResultPayload (tokens : List Nat) : Except String (List UInt8) := do
  if tokens = [] then throw "verification result cannot be empty"
  checkTokenIds tokens
  pure (tokens.flatMap (packWord 4))

def maxTreePreparePaths : Nat := 64
def maxTreePreparePathTokens : Nat := 1048575

def checkPathLengths : List Nat → Except String Unit
  | [] => .ok ()
  | length :: lengths => do
    requireUnsigned "tree path length" length maxTreePreparePathTokens
    if length < 1 then throw "tree path lengths must be positive"
    checkPathLengths lengths

def encodeTreePrepareQuote (quote : TreePrepareQuote) : Except String (List UInt8) := do
  requireUnsigned "tree reservation nonce" quote.nonce (2 ^ 64 - 1)
  if quote.pathLengths.length < 1 ∨ maxTreePreparePaths < quote.pathLengths.length then
    throw s!"tree prepare path count must be between 1 and {maxTreePreparePaths}"
  checkPathLengths quote.pathLengths
  requireUnsigned "tree quote stage_count" quote.stageCount (2 ^ 16 - 1)
  requireUnsigned "tree quote rejecting_layer_start" quote.rejectingLayerStart (2 ^ 32 - 1)
  requireUnsigned "tree quote required" quote.required (2 ^ 64 - 1)
  requireUnsigned "tree quote limit" quote.limit (2 ^ 64 - 1)
  requireUnsigned "tree quote total_projected_bytes" quote.totalProjectedBytes (2 ^ 64 - 1)
  match quote.status with
  | .ready =>
    if quote.rejection ≠ .none then throw "READY tree quote cannot carry a rejection reason"
    if quote.rejectingLayerStart ≠ 0 ∨ quote.required ≠ 0 ∨ quote.limit ≠ 0 then
      throw "READY tree quote must use zero rejection fields"
  | .reject =>
    if quote.rejection = .none then throw "REJECT tree quote requires a structured rejection reason"
  pure <| packWord 8 quote.nonce ++ packWord 1 quote.status.code ++
    packWord 1 quote.rejection.code ++ packWord 2 quote.stageCount ++
    packWord 4 quote.rejectingLayerStart ++ packWord 8 quote.required ++ packWord 8 quote.limit ++
    packWord 8 quote.totalProjectedBytes ++ quote.pathLengths.flatMap (packWord 4)

def treePreparePrefixSize : Nat := 40

def decodeTreePrepare (frame : Frame) : Except String TreePrepareQuote := do
  if frame.frameType ≠ .treePrepare ∧ frame.frameType ≠ .treePrepareResult then
    throw "frame is not a tree capacity quote"
  if frame.tokenCount < 1 ∨ maxTreePreparePaths < frame.tokenCount then
    throw "tree prepare frame has an invalid path count"
  let expected := treePreparePrefixSize + frame.tokenCount * 4
  if frame.payload.length ≠ expected then
    throw s!"tree prepare payload has {frame.payload.length} bytes, expected {expected}"
  let word (offset size : Nat) := unpackWord (slice frame.payload offset size)
  let status ← TreePrepareStatus.ofCode (word 8 1)
  let rejection ← TreePrepareRejection.ofCode (word 9 1)
  let quote : TreePrepareQuote :=
    { nonce := word 0 8
      pathLengths := (List.range frame.tokenCount).map fun i =>
        word (treePreparePrefixSize + 4 * i) 4
      status := status
      rejection := rejection
      stageCount := word 10 2
      rejectingLayerStart := word 12 4
      required := word 16 8
      limit := word 24 8
      totalProjectedBytes := word 32 8 }
  let canonical ← encodeTreePrepareQuote quote
  if canonical ≠ frame.payload then throw "tree prepare payload is not canonical"
  pure quote

def decodeBranchRequestId (frame : Frame) : Except String Nat :=
  if frame.frameType ≠ .fork ∧ frame.frameType ≠ .promote then
    .error "frame is not a branch lifecycle control"
  else if frame.payload.length ≠ 8 then
    .error "branch control payload must contain exactly one uint64"
  else .ok (unpackWord frame.payload)

def decodeTreeReservationNonce (frame : Frame) : Except String Nat :=
  if frame.frameType ≠ .treeReservationCommit ∧ frame.frameType ≠ .treeReservationCancel ∧
      frame.frameType ≠ .treeReservationCommitResult then
    .error "frame is not a tree reservation control"
  else if frame.payload.length ≠ 8 then
    .error "tree reservation payload must contain exactly one uint64"
  else .ok (unpackWord frame.payload)

end Mycellios.Protocol
