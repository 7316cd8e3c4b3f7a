import Mycellios.Data.Bytes
import Mycellios.Logic.Wp

/-! The first half of `packed_tree_wave.py`. zlib is any value of the record below, the measured
seconds are any numbers, and the floats of the break-even are rationals. -/

namespace Mycellios.TreeWave

open Data

/-- `PackedTreeWaveError`, the `ValueError` of an argument, and `AssertionError`. -/
inductive PackError
  | wave (message : String)
  | value (message : String)
  | assertion (message : String)
  deriving DecidableEq

/-- What `decompress(value, max_length)` leaves, and what `flush` adds. -/
structure Inflated where
  decoded : List UInt8
  unconsumedTail : List UInt8
  eof : Bool
  unusedData : List UInt8
  flushed : Option (List UInt8)

/-- Raw deflate at a level, and raw inflate up to a length; `none` is `zlib.error`. -/
structure Zlib where
  deflate : (level : Nat) → List UInt8 → List UInt8
  inflate : (maxLength : Nat) → List UInt8 → Option Inflated

inductive CompressionMode
  | none | rawDeflate | bytePlaneDeflate
  deriving DecidableEq

def CompressionMode.code : CompressionMode → Nat
  | none => 0
  | rawDeflate => 1
  | bytePlaneDeflate => 2

def CompressionMode.ofCode : Nat → Option CompressionMode
  | 0 => some none
  | 1 => some rawDeflate
  | 2 => some bytePlaneDeflate
  | _ => Option.none

def CompressionMode.name : CompressionMode → String
  | none => "NONE"
  | rawDeflate => "RAW_DEFLATE"
  | bytePlaneDeflate => "BYTE_PLANE_DEFLATE"

def maxPackedEntries : Nat := 64
def maxPackedSlabBytes : Nat := 64 * 1024 * 1024
def maxPackedLogicalBytes : Nat := 256 * 1024 * 1024
def maxPackedTokenCount : Nat := 4096
def packetDeflateLevel : Nat := 1

def boundedInt (name : String) (value minimum maximum : Nat) : Except PackError Unit :=
  if value < minimum ∨ maximum < value then
    .error (.value (name ++ s!" must be in [{minimum}, {maximum}]"))
  else .ok ()

def checkedAdd (name : String) (left right maximum : Nat) : Except PackError Nat :=
  if maximum < left + right then .error (.wave (name ++ " overflows its sealed range"))
  else .ok (left + right)

def checkedMul (name : String) (left right maximum : Nat) : Except PackError Nat :=
  if left ≠ 0 ∧ maximum / left < right then .error (.wave (name ++ " overflows its sealed range"))
  else .ok (left * right)

section Lossless

variable (zlib : Zlib)

def rawInflateBounded (value : List UInt8) (expectedBytes maximumBytes : Nat) :
    Except PackError (List UInt8) := do
  boundedInt "expected_bytes" expectedBytes 1 maximumBytes
  match zlib.inflate (expectedBytes + 1) value with
  | none => throw (.wave "invalid raw-deflate payload")
  | some inflated =>
    if expectedBytes < inflated.decoded.length ∨ inflated.unconsumedTail ≠ [] then
      throw (.wave "raw-deflate payload exceeds declared output")
    if inflated.eof = false then throw (.wave "truncated raw-deflate payload")
    if inflated.unusedData ≠ [] then throw (.wave "raw-deflate payload has trailing data")
    match inflated.flushed with
    | none => throw (.wave "invalid raw-deflate payload")
    | some tail =>
      if (inflated.decoded ++ tail).length ≠ expectedBytes then
        throw (.wave "raw-deflate output length does not match the declaration")
      pure (inflated.decoded ++ tail)

def plane (raw : List UInt8) (index width : Nat) : List UInt8 :=
  (List.range ((raw.length - index + width - 1) / width)).map fun k =>
    raw.getD (index + k * width) 0

def interleave (planes : List (List UInt8)) (width expected : Nat) : List UInt8 :=
  (List.range expected).map fun j => (planes.getD (j % width) []).getD (j / width) 0

def checkPlaneWidth (elementWidth : Nat) : Except PackError Unit := do
  boundedInt "element_width" elementWidth 2 4
  if elementWidth ≠ 2 ∧ elementWidth ≠ 4 then
    throw (.value "byte-plane compression supports 2- or 4-byte elements")

def compressLossless (raw : List UInt8) (mode : CompressionMode) (elementWidth level : Nat) :
    Except PackError (List UInt8) := do
  boundedInt "level" level 0 9
  if raw = [] then throw (.value "cannot compress an empty payload")
  match mode with
  | .none =>
    if elementWidth ≠ 0 ∧ elementWidth ≠ 1 then throw (.value "NONE does not use an element width")
    pure raw
  | .rawDeflate =>
    if elementWidth ≠ 0 ∧ elementWidth ≠ 1 then
      throw (.value "RAW_DEFLATE does not use an element width")
    pure (zlib.deflate level raw)
  | .bytePlaneDeflate =>
    checkPlaneWidth elementWidth
    if raw.length % elementWidth ≠ 0 then
      throw (.value "payload length must be divisible by element_width")
    let planes := (List.range elementWidth).map fun index =>
      zlib.deflate level (plane raw index elementWidth)
    pure (planes.flatMap (fun p => packWord 4 p.length) ++ planes.flatten)

def planesEnd : List Nat → (cursor : Nat) → Except PackError Nat
  | [], cursor => .ok cursor
  | length :: lengths, cursor => do
    let next ← checkedAdd "byte-plane payload" cursor length (2 ^ 32 - 1)
    planesEnd lengths next

def inflatePlanes (encoded : List UInt8) (planeBytes maximum : Nat) :
    List Nat → (cursor : Nat) → Except PackError (List (List UInt8))
  | [], _ => .ok []
  | length :: lengths, cursor => do
    let p ← rawInflateBounded zlib (slice encoded cursor length) planeBytes maximum
    let rest ← inflatePlanes encoded planeBytes maximum lengths (cursor + length)
    pure (p :: rest)

def decompressLossless (encoded : List UInt8) (mode : CompressionMode)
    (expectedBytes elementWidth maximumBytes : Nat) : Except PackError (List UInt8) := do
  boundedInt "maximum_bytes" maximumBytes 1 maxPackedLogicalBytes
  boundedInt "expected_bytes" expectedBytes 1 maximumBytes
  match mode with
  | .none =>
    if elementWidth ≠ 0 ∧ elementWidth ≠ 1 then throw (.value "NONE does not use an element width")
    if encoded.length ≠ expectedBytes then
      throw (.wave "raw payload length does not match declaration")
    pure encoded
  | .rawDeflate =>
    if elementWidth ≠ 0 ∧ elementWidth ≠ 1 then
      throw (.value "RAW_DEFLATE does not use an element width")
    rawInflateBounded zlib encoded expectedBytes maximumBytes
  | .bytePlaneDeflate =>
    checkPlaneWidth elementWidth
    if expectedBytes % elementWidth ≠ 0 then
      throw (.wave "declared byte-plane output is not divisible by element width")
    let lengthsBytes ← checkedMul "byte-plane length table" elementWidth 4 (2 ^ 32 - 1)
    if encoded.length < lengthsBytes then throw (.wave "truncated byte-plane length table")
    let lengths :=
      (List.range elementWidth).map fun index => unpackWord (slice encoded (index * 4) 4)
    if 0 ∈ lengths then throw (.wave "byte-plane streams cannot be empty")
    let finish ← planesEnd lengths lengthsBytes
    if finish ≠ encoded.length then
      throw (.wave ((if encoded.length < finish then "truncated" else "trailing") ++
        " byte-plane payload"))
    let planes ← inflatePlanes zlib encoded (expectedBytes / elementWidth) maximumBytes lengths
      lengthsBytes
    pure (interleave planes elementWidth expectedBytes)

end Lossless

section Policy

/-- A policy that has passed its own check. -/
structure CompressionPolicy where
  bandwidthMbps : ℚ
  minimumSavingsSeconds : ℚ
  modes : List CompressionMode
  bandwidth_pos : 0 < bandwidthMbps
  savings_nonneg : 0 ≤ minimumSavingsSeconds
  modes_nonempty : modes ≠ []
  modes_nodup : modes.Nodup
  modes_compress : CompressionMode.none ∉ modes

structure CompressionBreakEven where
  compressedTotalSeconds : ℚ
  netSavingsSeconds : ℚ
  beneficial : Bool

structure CompressionAssessment where
  mode : CompressionMode
  elementWidth : Nat
  payload : List UInt8
  breakEven : CompressionBreakEven

structure CompressionSelection where
  mode : CompressionMode
  elementWidth : Nat
  payload : List UInt8
  sourceSha256 : List UInt8
  assessments : List CompressionAssessment

def CompressionSelection.selectedAssessment (selection : CompressionSelection) :
    Option CompressionAssessment :=
  selection.assessments.find? fun item => item.mode = selection.mode

def nonNegative (name : String) (value : ℚ) : Except PackError Unit :=
  if value < 0 then .error (.value (name ++ " must be finite and non-negative")) else .ok ()

def compressionBreakEven (rawBytes compressedBytes : Nat)
    (compressionSeconds decompressionSeconds : ℚ) (policy : CompressionPolicy) :
    Except PackError CompressionBreakEven := do
  boundedInt "raw_bytes" rawBytes 1 maxPackedLogicalBytes
  boundedInt "compressed_bytes" compressedBytes 1 (2 ^ 32 - 1)
  nonNegative "compression_seconds" compressionSeconds
  nonNegative "decompression_seconds" decompressionSeconds
  let bytesPerSecond := policy.bandwidthMbps * 1000000 / 8
  let rawTransfer := rawBytes / bytesPerSecond
  let compressedTransfer := compressedBytes / bytesPerSecond
  let compressedTotal := compressionSeconds + decompressionSeconds + compressedTransfer
  let savings := rawTransfer - compressedTotal
  pure {
    compressedTotalSeconds := compressedTotal
    netSavingsSeconds := savings
    beneficial := compressedBytes < rawBytes ∧ policy.minimumSavingsSeconds < savings }

variable (zlib : Zlib) (sha : Sha256)

/-- One mode with its measured medians; one repeat stands for all. -/
def measureMode (raw : List UInt8) (mode : CompressionMode) (elementWidth : Nat)
    (policy : CompressionPolicy) (seconds : ℚ × ℚ) : Except PackError CompressionAssessment := do
  let width := if mode = .bytePlaneDeflate then elementWidth else 0
  let payload ← compressLossless zlib raw mode width packetDeflateLevel
  let decoded ← decompressLossless zlib payload mode raw.length width raw.length
  if decoded ≠ raw then throw (.wave (mode.name ++ " failed byte-exact roundtrip"))
  let breakEven ← compressionBreakEven raw.length payload.length seconds.1 seconds.2 policy
  pure { mode := mode, elementWidth := width, payload := payload, breakEven := breakEven }

def assessModes (raw : List UInt8) (width : Nat) (policy : CompressionPolicy)
    (seconds : CompressionMode → ℚ × ℚ) :
    List CompressionMode → Except PackError (List CompressionAssessment)
  | [] => .ok []
  | mode :: modes => do
    if mode = .bytePlaneDeflate ∧ ((width ≠ 2 ∧ width ≠ 4) ∨ raw.length % width ≠ 0) then
      assessModes raw width policy seconds modes
    else
      let item ← measureMode zlib raw mode width policy (seconds mode)
      let rest ← assessModes raw width policy seconds modes
      pure (item :: rest)

def fastest : List CompressionAssessment → Option CompressionAssessment
  | [] => none
  | item :: items =>
    match fastest items with
    | none => some item
    | some best =>
      if best.breakEven.compressedTotalSeconds < item.breakEven.compressedTotalSeconds ∨
          (best.breakEven.compressedTotalSeconds = item.breakEven.compressedTotalSeconds ∧
            best.mode.code < item.mode.code) then some best
      else some item

def selectCompressionForBandwidth (raw : List UInt8) (elementWidth : Nat)
    (policy : CompressionPolicy) (seconds : CompressionMode → ℚ × ℚ) :
    Except PackError CompressionSelection := do
  if raw = [] then throw (.value "cannot select compression for an empty payload")
  boundedInt "element_width" elementWidth 1 8
  let assessments ← assessModes zlib raw elementWidth policy seconds policy.modes
  match fastest (assessments.filter (·.breakEven.beneficial)) with
  | none => pure {
      mode := .none
      elementWidth := 0
      payload := raw
      sourceSha256 := (sha raw).toList
      assessments := assessments }
  | some selected => pure {
      mode := selected.mode
      elementWidth := selected.elementWidth
      payload := selected.payload
      sourceSha256 := (sha raw).toList
      assessments := assessments }

end Policy

end Mycellios.TreeWave
