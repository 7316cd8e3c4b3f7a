import Mycellios.Protocol.Frame

namespace Mycellios.Protocol

def maxPayloadBytes : Nat := 64 * 1024 * 1024
def maxReceiptEnvelopeBytes : Nat := 1024 * 1024
def receiptIdBytes : Nat := 32
def quantGroupSize : Nat := 64

inductive TensorCodec
  | fp32 | fp16 | int8 | int8Grouped | int8Hadamard | int8GroupedDeflate | int8HadamardDeflate
  deriving DecidableEq

def TensorCodec.ofCode : Nat → Except String TensorCodec
  | 0 => .ok fp32
  | 1 => .ok fp16
  | 2 => .ok int8
  | 3 => .ok int8Grouped
  | 4 => .ok int8Hadamard
  | 5 => .ok int8GroupedDeflate
  | 6 => .ok int8HadamardDeflate
  | flags => .error s!"unsupported tensor codec {flags}"

def TensorCodec.name : TensorCodec → String
  | fp32 => "FP32"
  | fp16 => "FP16"
  | int8 => "INT8"
  | int8Grouped => "INT8_GROUPED"
  | int8Hadamard => "INT8_HADAMARD"
  | int8GroupedDeflate => "INT8_GROUPED_DEFLATE"
  | int8HadamardDeflate => "INT8_HADAMARD_DEFLATE"

def TensorCodec.deflateBase : TensorCodec → Option TensorCodec
  | int8GroupedDeflate => some int8Grouped
  | int8HadamardDeflate => some int8Hadamard
  | _ => none

/-- The blocks from a start on; each is at least one wide. -/
def quantizationBlocksFrom (hiddenSize : Nat) (hadamard : Bool) :
    (fuel start : Nat) → List (Nat × Nat)
  | 0, _ => []
  | fuel + 1, start =>
    if start < hiddenSize then
      let remaining := hiddenSize - start
      let size :=
        if hadamard then 2 ^ (min quantGroupSize remaining).log2 else min quantGroupSize remaining
      (start, start + size) :: quantizationBlocksFrom hiddenSize hadamard fuel (start + size)
    else []

def quantizationBlocks (hiddenSize : Nat) (hadamard : Bool) : Except String (List (Nat × Nat)) :=
  if hiddenSize < 1 then .error "hidden size must be positive"
  else .ok (quantizationBlocksFrom hiddenSize hadamard hiddenSize 0)

def activationPayloadBytes (codec : TensorCodec) (tokenCount hiddenSize : Nat) :
    Except String Nat := do
  if codec.deflateBase.isSome then throw (codec.name ++ " payload size is data-dependent")
  if tokenCount < 1 ∨ hiddenSize < 1 then throw "activation shape must be positive"
  let elements := tokenCount * hiddenSize
  match codec with
  | .fp32 => pure (elements * 4)
  | .fp16 => pure (elements * 2)
  | .int8 => pure (elements + 4)
  | _ => do
    let blocks ← quantizationBlocks hiddenSize (codec = .int8Hadamard)
    pure (elements + tokenCount * blocks.length * 4)

def deflateBound (size : Nat) : Nat := size + size / 2 ^ 12 + size / 2 ^ 14 + size / 2 ^ 25 + 13 + 6

def validateTensorMetadata (flags tokenCount hiddenSize payloadSize : Nat) :
    Except String Unit := do
  let codec ← TensorCodec.ofCode flags
  match codec.deflateBase with
  | some base =>
    let inflated ← activationPayloadBytes base tokenCount hiddenSize
    if maxPayloadBytes < inflated then
      throw s!"activation would inflate to {inflated} bytes, exceeding {maxPayloadBytes}"
    let bound := deflateBound inflated
    if payloadSize < 1 ∨ bound < payloadSize then
      throw s!"activation payload has {payloadSize} bytes, expected between 1 and {bound}"
  | none =>
    let expected ← activationPayloadBytes codec tokenCount hiddenSize
    if expected ≠ payloadSize then
      throw s!"activation payload has {payloadSize} bytes, expected {expected}"

def refuse (bad : Prop) [Decidable bad] (message : String) : Except String Unit :=
  if bad then .error message else .ok ()

def validateFrameMetadata (frameType : FrameType)
    (flags step tokenCount hiddenSize payloadSize : Nat) : Except String Unit := do
  refuse (maxPayloadBytes < payloadSize) s!"payload exceeds {maxPayloadBytes} bytes"
  match frameType with
  | .ping | .pong =>
    refuse (flags ≠ 0 ∨ tokenCount ≠ 0 ∨ hiddenSize ≠ 0 ∨ payloadSize ≠ 0)
      (frameType.name ++
        " frames require flags=token_count=hidden_size=0 and cannot carry a payload")
  | .begin | .end | .cancel | .shutdown =>
    refuse (flags ≠ 0 ∨ step ≠ 0 ∨ tokenCount ≠ 0 ∨ hiddenSize ≠ 0 ∨ payloadSize ≠ 0)
      (frameType.name ++
        " frames require flags=step=token_count=hidden_size=0 and cannot carry a payload")
  | .truncate =>
    refuse (flags ≠ 0 ∨ step ≠ 0 ∨ hiddenSize ≠ 0 ∨ payloadSize ≠ 0)
      "TRUNCATE frames require flags=step=hidden_size=0 and cannot carry a payload"
  | .fork | .promote => do
    refuse (flags ≠ 0 ∨ step ≠ 0 ∨ tokenCount ≠ 0 ∨ hiddenSize ≠ 0)
      (frameType.name ++ " frames require flags=step=token_count=hidden_size=0")
    refuse (payloadSize ≠ 8) (frameType.name ++ " payload must contain exactly one uint64")
  | .treePrepare | .treePrepareResult => do
    refuse (flags ≠ 0 ∨ hiddenSize ≠ 0) (frameType.name ++ " frames require flags=hidden_size=0")
    refuse (tokenCount < 1 ∨ maxTreePreparePaths < tokenCount)
      (frameType.name ++ s!" token_count must be between 1 and {maxTreePreparePaths}")
    let expected := treePreparePrefixSize + tokenCount * 4
    refuse (payloadSize ≠ expected)
      (frameType.name ++ s!" payload has {payloadSize} bytes, expected {expected}")
  | .treeReservationCommit => do
    refuse (flags ≠ 0 ∨ hiddenSize ≠ 0) (frameType.name ++ " frames require flags=hidden_size=0")
    refuse (2 ^ 16 - 1 - 1 < tokenCount)
      (frameType.name ++ " token_count must contain a uint16 predecessor count")
    refuse (payloadSize ≠ 8) (frameType.name ++ " payload must contain exactly one uint64")
  | .treeReservationCancel => do
    refuse (flags ≠ 0 ∨ tokenCount ≠ 0 ∨ hiddenSize ≠ 0)
      (frameType.name ++ " frames require flags=token_count=hidden_size=0")
    refuse (payloadSize ≠ 8) (frameType.name ++ " payload must contain exactly one uint64")
  | .treeReservationCommitResult => do
    refuse (flags ≠ 0 ∨ hiddenSize ≠ 0) (frameType.name ++ " frames require flags=hidden_size=0")
    refuse (tokenCount < 1 ∨ 2 ^ 16 - 1 < tokenCount)
      (frameType.name ++ " token_count must contain a positive uint16 stage count")
    refuse (payloadSize ≠ 8) (frameType.name ++ " payload must contain exactly one uint64")
  | .receiptEnvelope => do
    refuse (flags ≠ 0 ∨ step ≠ 0 ∨ tokenCount ≠ 0 ∨ hiddenSize ≠ 0)
      "RECEIPT_ENVELOPE frames require flags=step=token_count=hidden_size=0"
    refuse (payloadSize < 1 ∨ maxReceiptEnvelopeBytes < payloadSize)
      s!"RECEIPT_ENVELOPE payload must contain between 1 and {maxReceiptEnvelopeBytes} bytes"
  | .receiptAck => do
    refuse (flags ≠ 0 ∨ step ≠ 0 ∨ tokenCount ≠ 0 ∨ hiddenSize ≠ 0)
      "RECEIPT_ACK frames require flags=step=token_count=hidden_size=0"
    refuse (payloadSize ≠ receiptIdBytes) "RECEIPT_ACK payload must contain one SHA-256 digest"
  | .samplingVerifyResult => do
    refuse (flags ≠ 0 ∨ tokenCount < 1 ∨ hiddenSize < 1)
      "SAMPLING_VERIFY_RESULT requires flags=0 and a positive matrix shape"
    refuse (payloadSize ≠ tokenCount * hiddenSize * 4)
      "sampling result payload must contain one float32 per logit"
  | .samplingRngCheckpoint => do
    refuse (flags ≠ 0 ∨ step ≠ 0 ∨ tokenCount ≠ 0 ∨ hiddenSize ≠ 0)
      "SAMPLING_RNG_CHECKPOINT requires zero frame metadata"
    refuse (payloadSize ≠ 40) "sampling RNG checkpoint payload must contain seed and counter"
  | .activation | .prefill | .verify | .samplingVerify =>
    validateTensorMetadata flags tokenCount hiddenSize payloadSize
  | .token => refuse (payloadSize ≠ 4) "token payload must contain exactly four bytes"
  | .verifyResult =>
    refuse (tokenCount < 1 ∨ payloadSize ≠ tokenCount * 4)
      "verification result payload must contain one uint32 per token"
  | .error => .ok ()
  | .hello | .ready | .prefillAck =>
    refuse (payloadSize ≠ 0) (frameType.name ++ " frames cannot carry a payload")

end Mycellios.Protocol
