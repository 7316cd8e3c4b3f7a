import Mycellios.TreeWave.Compression

/-! The second half of `packed_tree_wave.py`. Bytes are immutable here, so what is done about
mutable buffers is left out. -/

namespace Mycellios.TreeWave

open Data

/-- Limits that have passed their own check. -/
structure PackedTreeWaveLimits where
  (maxEntries maxSlabBytes maxLogicalBytes maxTokenCount : Nat)
  entries_le : maxEntries ≤ maxPackedEntries
  slab_le : maxSlabBytes ≤ maxPackedSlabBytes
  logical_le : maxLogicalBytes ≤ maxPackedLogicalBytes
  tokens_le : maxTokenCount ≤ maxPackedTokenCount
  slab_le_logical : maxSlabBytes ≤ maxLogicalBytes
  pos : 1 ≤ maxEntries ∧ 1 ≤ maxSlabBytes ∧ 1 ≤ maxLogicalBytes ∧ 1 ≤ maxTokenCount

structure PackedTreeLeaf where
  (requestId step tokenCount : Nat)
  slab : List UInt8

def magic : List UInt8 := ascii "PTWV"
def version : Nat := 1
def headerBytes : Nat := 92
def descriptorBytes : Nat := 24

/-- The fields of `_HEADER`, `<4sBBHIIBBHQQQIIII32s`. -/
structure Header where
  magic : List UInt8
  (version compression headerBytes entryCount descriptorBytes elementWidth reserved8 flags : Nat)
  (tableBytes logicalBytes wireBytes tableCrc logicalCrc wireCrc reserved32 : Nat)
  digest : List UInt8

def Header.pack (h : Header) : List UInt8 :=
  h.magic ++ (packWord 1 h.version ++ (packWord 1 h.compression ++ (packWord 2 h.headerBytes ++
    (packWord 4 h.entryCount ++ (packWord 4 h.descriptorBytes ++ (packWord 1 h.elementWidth ++
    (packWord 1 h.reserved8 ++ (packWord 2 h.flags ++ (packWord 8 h.tableBytes ++
    (packWord 8 h.logicalBytes ++ (packWord 8 h.wireBytes ++ (packWord 4 h.tableCrc ++
    (packWord 4 h.logicalCrc ++ (packWord 4 h.wireCrc ++ (packWord 4 h.reserved32 ++
    h.digest)))))))))))))))

def Header.unpack (raw : List UInt8) : Header :=
  let word (offset size : Nat) := unpackWord (slice raw offset size)
  { magic := slice raw 0 4
    version := word 4 1
    compression := word 5 1
    headerBytes := word 6 2
    entryCount := word 8 4
    descriptorBytes := word 12 4
    elementWidth := word 16 1
    reserved8 := word 17 1
    flags := word 18 2
    tableBytes := word 20 8
    logicalBytes := word 28 8
    wireBytes := word 36 8
    tableCrc := word 44 4
    logicalCrc := word 48 4
    wireCrc := word 52 4
    reserved32 := word 56 4
    digest := slice raw 60 32 }

/-- The fields of `_DESCRIPTOR`, `<QIIII`. -/
structure Descriptor where
  (requestId step tokenCount offset length : Nat)

def Descriptor.pack (d : Descriptor) : List UInt8 :=
  packWord 8 d.requestId ++ (packWord 4 d.step ++ (packWord 4 d.tokenCount ++
    (packWord 4 d.offset ++ packWord 4 d.length)))

def Descriptor.unpack (raw : List UInt8) : Descriptor :=
  let word (offset size : Nat) := unpackWord (slice raw offset size)
  ⟨word 0 8, word 8 4, word 12 4, word 16 4, word 20 4⟩

/-- zlib, CRC32 and SHA-256, each any function. -/
structure Primitives where
  zlib : Zlib
  crc : List UInt8 → Nat
  sha : Sha256

def Primitives.crc32 (prim : Primitives) (bytes : List UInt8) : Nat := prim.crc bytes % 2 ^ 32

/-- The digest over a header without its digest, the table and both arenas. -/
def Primitives.seal (prim : Primitives) (h : Header) (table logical wire : List UInt8) :
    List UInt8 :=
  let unsigned := { h with digest := List.replicate 32 0 }
  (prim.sha (ascii "GDLP2/PTWV/canonical-v1" ++ [0] ++ unsigned.pack ++ table ++ logical ++
    wire)).toList

section Encode

variable (prim : Primitives) (limits : PackedTreeWaveLimits)

def leafName (ordinal : Nat) (field : String) : String := s!"leaves[{ordinal}]." ++ field

def validateLeaves : List PackedTreeLeaf → (ordinal : Nat) → (seen : List Nat) →
    (logicalTotal : Nat) → Except PackError Unit
  | [], _, _, _ => .ok ()
  | leaf :: leaves, ordinal, seen, logicalTotal => do
    boundedInt (leafName ordinal "request_id") leaf.requestId 1 (2 ^ 64 - 1)
    if leaf.requestId ∈ seen then throw (.wave s!"duplicate request id {leaf.requestId}")
    boundedInt (leafName ordinal "step") leaf.step 0 (2 ^ 32 - 1)
    boundedInt (leafName ordinal "token_count") leaf.tokenCount 1 limits.maxTokenCount
    if leaf.slab.length < 1 ∨ limits.maxSlabBytes < leaf.slab.length then
      throw (.wave (leafName ordinal "slab exceeds sealed size bounds"))
    if leaf.slab.length % leaf.tokenCount ≠ 0 then
      throw (.wave (leafName ordinal "slab is not divisible by token_count"))
    if limits.maxLogicalBytes < logicalTotal + leaf.slab.length then
      throw (.wave s!"logical slab arena exceeds sealed limit {limits.maxLogicalBytes}")
    validateLeaves leaves (ordinal + 1) (leaf.requestId :: seen) (logicalTotal + leaf.slab.length)

def PackedTreeLeaf.bytesPerToken (leaf : PackedTreeLeaf) : Nat := leaf.slab.length / leaf.tokenCount

def sortLeaves (leaves : List PackedTreeLeaf) : List PackedTreeLeaf :=
  leaves.insertionSort fun a b => a.requestId ≤ b.requestId

def validatedEntries (leaves : List PackedTreeLeaf) : Except PackError (List PackedTreeLeaf) := do
  if leaves = [] then throw (.wave "a packed tree wave needs at least one leaf")
  if limits.maxEntries < leaves.length then
    throw (.wave s!"entry count exceeds sealed limit {limits.maxEntries}")
  validateLeaves limits leaves 0 [] 0
  let sorted := sortLeaves leaves
  if sorted.any fun leaf => sorted.head?.any (leaf.bytesPerToken ≠ ·.bytesPerToken) then
    throw (.wave "all slabs must have the same bytes per token")
  pure sorted

def describe : List PackedTreeLeaf → (offset : Nat) → Except PackError (List Descriptor)
  | [], _ => .ok []
  | leaf :: leaves, offset => do
    let offsetEnd ← checkedAdd "logical slab arena" offset leaf.slab.length (2 ^ 32 - 1)
    if limits.maxLogicalBytes < offsetEnd then
      throw (.wave s!"logical slab arena exceeds sealed limit {limits.maxLogicalBytes}")
    let rest ← describe leaves offsetEnd
    pure (⟨leaf.requestId, leaf.step, leaf.tokenCount, offset, leaf.slab.length⟩ :: rest)

structure PackedTreeWaveEncoding where
  packet : List UInt8
  compression : CompressionSelection
  entryCount : Nat
  logicalBytes : Nat

def selectStored (logical : List UInt8) (policy : Option CompressionPolicy)
    (seconds : CompressionMode → ℚ × ℚ) (elementWidth : Nat) :
    Except PackError CompressionSelection :=
  match policy with
  | none =>
    if elementWidth ≠ 0 ∧ elementWidth ≠ 1 then
      .error (.value "element_width is only used by compression policy")
    else .ok ⟨.none, 0, logical, (prim.sha logical).toList, []⟩
  | some policy =>
    selectCompressionForBandwidth prim.zlib prim.sha logical elementWidth policy seconds

def checkSelection (logical : List UInt8) (selection : CompressionSelection) :
    Except PackError Unit := do
  if selection.sourceSha256 ≠ (prim.sha logical).toList then
    throw (.assertion "compression selection is not bound to logical arena")
  if selection.mode ≠ .none then
    if selection.selectedAssessment.all (·.breakEven.beneficial = false) then
      throw (.assertion "compression cannot activate without break-even proof")
    if logical.length ≤ selection.payload.length then
      throw (.assertion "selected compression must reduce stored bytes")

def packPackedTreeWave (leaves : List PackedTreeLeaf) (policy : Option CompressionPolicy)
    (seconds : CompressionMode → ℚ × ℚ) (elementWidth : Nat) :
    Except PackError PackedTreeWaveEncoding := do
  let entries ← validatedEntries limits leaves
  let descriptors ← describe limits entries 0
  let table := descriptors.flatMap Descriptor.pack
  let logical := entries.flatMap PackedTreeLeaf.slab
  let expectedTableBytes ← checkedMul "descriptor table" entries.length descriptorBytes (2 ^ 64 - 1)
  if table.length ≠ expectedTableBytes then
    throw (.assertion "internal descriptor table length mismatch")
  let selection ← selectStored prim logical policy seconds elementWidth
  checkSelection prim logical selection
  let wire := selection.payload
  let unsigned : Header :=
    { magic := magic
      version := version
      compression := selection.mode.code
      headerBytes := headerBytes
      entryCount := entries.length
      descriptorBytes := descriptorBytes
      elementWidth := selection.elementWidth
      reserved8 := 0
      flags := 0
      tableBytes := table.length
      logicalBytes := logical.length
      wireBytes := wire.length
      tableCrc := prim.crc32 table
      logicalCrc := prim.crc32 logical
      wireCrc := prim.crc32 wire
      reserved32 := 0
      digest := List.replicate 32 0 }
  let header := { unsigned with digest := prim.seal unsigned table logical wire }
  pure {
    packet := header.pack ++ (table ++ wire)
    compression := selection
    entryCount := entries.length
    logicalBytes := logical.length }

def encodePackedTreeWave (leaves : List PackedTreeLeaf) (policy : Option CompressionPolicy)
    (seconds : CompressionMode → ℚ × ℚ) (elementWidth : Nat) : Except PackError (List UInt8) := do
  let encoding ← packPackedTreeWave prim limits leaves policy seconds elementWidth
  pure encoding.packet

end Encode

structure DecodedPackedTreeLeaf where
  (requestId step tokenCount offset : Nat)
  slab : List UInt8

/-- The decoded wave; `arena` is the logical arena that its slabs are slices of. -/
structure DecodedPackedTreeWave where
  leaves : List DecodedPackedTreeLeaf
  compression : CompressionMode
  logicalBytes : Nat
  storedBytes : Nat
  digest : List UInt8
  arena : List UInt8

section Decode

variable (prim : Primitives) (limits : PackedTreeWaveLimits)

def checkArena (mode : CompressionMode) (elementWidth logicalBytes wireBytes : Nat) :
    Except PackError Unit :=
  match mode with
  | .none =>
    if elementWidth ≠ 0 ∨ wireBytes ≠ logicalBytes then
      .error (.wave "non-canonical uncompressed arena metadata")
    else .ok ()
  | .rawDeflate =>
    if elementWidth ≠ 0 ∨ logicalBytes ≤ wireBytes then
      .error (.wave "non-canonical raw-deflate arena metadata")
    else .ok ()
  | .bytePlaneDeflate =>
    if (elementWidth ≠ 2 ∧ elementWidth ≠ 4) ∨ logicalBytes % elementWidth ≠ 0 then
      .error (.wave "invalid byte-plane arena metadata")
    else if logicalBytes ≤ wireBytes then
      .error (.wave "byte-plane arena did not reduce stored bytes")
    else .ok ()

def checkHeader (h : Header) : Except PackError CompressionMode := do
  if h.magic ≠ magic then throw (.wave "invalid packed-tree-wave magic")
  if h.version ≠ version then throw (.wave s!"unsupported packed-tree-wave version {h.version}")
  match CompressionMode.ofCode h.compression with
  | none => throw (.wave s!"unknown packed-tree-wave compression {h.compression}")
  | some compression =>
    if h.headerBytes ≠ headerBytes ∨ h.descriptorBytes ≠ descriptorBytes then
      throw (.wave "non-canonical packed-tree-wave structure sizes")
    if h.reserved8 ≠ 0 ∨ h.flags ≠ 0 ∨ h.reserved32 ≠ 0 then
      throw (.wave "reserved packed-tree-wave fields must be zero")
    if h.entryCount < 1 ∨ limits.maxEntries < h.entryCount then
      throw (.wave "packed-tree-wave entry count exceeds limits")
    let expectedTableBytes ← checkedMul "descriptor table" h.entryCount descriptorBytes (2 ^ 64 - 1)
    if h.tableBytes ≠ expectedTableBytes then
      throw (.wave "descriptor table length is not canonical")
    if h.logicalBytes < 1 ∨ limits.maxLogicalBytes < h.logicalBytes then
      throw (.wave "logical slab arena exceeds limits")
    if h.wireBytes < 1 ∨ limits.maxLogicalBytes < h.wireBytes then
      throw (.wave "stored slab arena exceeds limits")
    checkArena compression h.elementWidth h.logicalBytes h.wireBytes
    pure compression

def readDescriptors (logicalBytes : Nat) (table : List UInt8) :
    (count ordinal : Nat) → (previous : Int) → (expectedOffset : Nat) →
    (bytesPerToken : Option Nat) → Except PackError (List Descriptor)
  | 0, _, _, expectedOffset, _ =>
    if expectedOffset ≠ logicalBytes then
      .error (.wave "descriptor slabs do not cover the logical arena")
    else .ok []
  | count + 1, ordinal, previous, expectedOffset, bytesPerToken => do
    let d := Descriptor.unpack (slice table (ordinal * descriptorBytes) descriptorBytes)
    if d.requestId = 0 ∨ (d.requestId : Int) ≤ previous then
      throw (.wave ((if (d.requestId : Int) = previous then "duplicate" else "unordered") ++
        " request id in descriptor table"))
    if d.tokenCount < 1 ∨ limits.maxTokenCount < d.tokenCount then
      throw (.wave "descriptor token count exceeds limits")
    if d.length < 1 ∨ limits.maxSlabBytes < d.length then
      throw (.wave "descriptor slab length exceeds limits")
    let finish ← checkedAdd "descriptor slab" d.offset d.length (2 ^ 32 - 1)
    if d.offset ≠ expectedOffset then
      throw (.wave ("descriptor slab " ++ (if d.offset < expectedOffset then "overlaps"
        else "leaves a gap")))
    if logicalBytes < finish then throw (.wave "descriptor slab exceeds logical arena")
    if d.length % d.tokenCount ≠ 0 then
      throw (.wave "descriptor slab is not divisible by token count")
    if bytesPerToken.any (· ≠ d.length / d.tokenCount) then
      throw (.wave "descriptor slabs disagree on bytes per token")
    let rest ← readDescriptors logicalBytes table count (ordinal + 1) d.requestId finish
      (some (d.length / d.tokenCount))
    pure (d :: rest)

def logicalArena (compression : CompressionMode) (h : Header) (wire : List UInt8) :
    Except PackError (List UInt8) :=
  if compression = .none then .ok wire
  else
    decompressLossless prim.zlib wire compression h.logicalBytes h.elementWidth
      limits.maxLogicalBytes

def decodePackedTreeWave (packet : List UInt8) : Except PackError DecodedPackedTreeWave := do
  if packet.length < headerBytes then throw (.wave "truncated packed-tree-wave header")
  if headerBytes + limits.maxEntries * descriptorBytes + limits.maxLogicalBytes < packet.length then
    throw (.wave "packed-tree-wave packet exceeds sealed limits")
  let h := Header.unpack (slice packet 0 headerBytes)
  let compression ← checkHeader limits h
  let wireStart ← checkedAdd "packet table end" headerBytes h.tableBytes (2 ^ 64 - 1)
  let packetEnd ← checkedAdd "packet end" wireStart h.wireBytes (2 ^ 64 - 1)
  if packetEnd ≠ packet.length then
    throw (.wave ((if packet.length < packetEnd then "truncated" else "trailing") ++
      " packed-tree-wave bytes"))
  let table := slice packet headerBytes h.tableBytes
  let wire := slice packet wireStart h.wireBytes
  let descriptors ← readDescriptors limits h.logicalBytes table h.entryCount 0 (-1) 0 none
  if prim.crc32 table ≠ h.tableCrc then throw (.wave "descriptor table CRC mismatch")
  if prim.crc32 wire ≠ h.wireCrc then throw (.wave "stored slab arena CRC mismatch")
  let logical ← logicalArena prim limits compression h wire
  if prim.crc32 logical ≠ h.logicalCrc then throw (.wave "logical slab arena CRC mismatch")
  if prim.seal h table logical wire ≠ h.digest then
    throw (.wave "packed-tree-wave SHA-256 mismatch")
  pure {
    leaves := descriptors.map fun d =>
      ⟨d.requestId, d.step, d.tokenCount, d.offset, slice logical d.offset d.length⟩
    compression := compression
    logicalBytes := h.logicalBytes
    storedBytes := h.wireBytes
    digest := h.digest
    arena := logical }

end Decode

end Mycellios.TreeWave
