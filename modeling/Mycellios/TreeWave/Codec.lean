import Mycellios.TreeWave.Layout

namespace Mycellios.TreeWave

open Data List Logic

variable {decoded encoded : List UInt8} {expected max : Nat}

section Selection

variable {zlib : Zlib} {seconds : CompressionMode → ℚ × ℚ} {mode : CompressionMode}
  {width max' : Nat}

theorem rawInflateBounded_mono (le : max ≤ max')
    (h : rawInflateBounded zlib value expected max = .ok decoded) :
    rawInflateBounded zlib value expected max' = .ok decoded := by
  simp only [rawInflateBounded, bind_eq_ok, boundedInt_eq_ok] at h ⊢
  obtain ⟨_, bound, h⟩ := h
  exact ⟨(), ⟨bound.1, bound.2.trans le⟩, h⟩

theorem inflatePlanes_mono (le : max ≤ max')
    (h : inflatePlanes zlib encoded planeBytes max lengths cursor = .ok planes) :
    inflatePlanes zlib encoded planeBytes max' lengths cursor = .ok planes := by
  induction lengths generalizing cursor planes with
  | nil => exact h
  | cons length lengths ih =>
    simp only [inflatePlanes, bind_eq_ok] at h ⊢
    obtain ⟨first, inflated, rest, others, done⟩ := h
    exact ⟨first, rawInflateBounded_mono le inflated, rest, ih others, done⟩

theorem decompressLossless_mono (le : max ≤ max') (cap : max' ≤ maxPackedLogicalBytes)
    (h : decompressLossless zlib encoded mode expected width max = .ok decoded) :
    decompressLossless zlib encoded mode expected width max' = .ok decoded := by
  simp only [decompressLossless, bind_eq_ok, boundedInt_eq_ok] at h ⊢
  obtain ⟨_, bound, _, size, h⟩ := h
  refine ⟨(), ⟨bound.1.trans le, cap⟩, (), ⟨size.1, size.2.trans le⟩, ?_⟩
  cases mode with
  | none => exact h
  | rawDeflate =>
    simp only [throw_bind, raise_eq_ok] at h ⊢
    exact ⟨h.1, rawInflateBounded_mono le h.2⟩
  | bytePlaneDeflate =>
    simp only [throw_bind, raise_eq_ok, bind_eq_ok] at h ⊢
    obtain ⟨u, good, divides, lengthsBytes, mul, long, streams, finish, ends, closed, planes,
      inflated, done⟩ := h
    exact ⟨u, good, divides, lengthsBytes, mul, long, streams, finish, ends, closed, planes,
      inflatePlanes_mono le inflated, done⟩

def planeWidth (mode : CompressionMode) (width : Nat) : Nat :=
  if mode = .bytePlaneDeflate then width else 0

theorem measureMode_ok (h : measureMode zlib raw mode width policy times = .ok item) :
    item.mode = mode ∧ item.elementWidth = planeWidth mode width ∧ 1 ≤ item.payload.length ∧
      decompressLossless zlib item.payload mode raw.length (planeWidth mode width) raw.length =
      .ok raw := by
  simp only [measureMode, bind_eq_ok, throw_bind, raise_eq_ok] at h
  obtain ⟨payload, -, decoded, inflated, same, breakEven, even, done⟩ := h
  obtain rfl := not_not.mp same
  simp only [compressionBreakEven, bind_eq_ok, boundedInt_eq_ok] at even
  obtain ⟨_, -, _, size, -⟩ := even
  rw [← Except.ok.inj done]
  exact ⟨rfl, rfl, size.1, inflated⟩

theorem assessModes_mem (h : assessModes zlib raw width policy seconds modes = .ok items) :
    ∀ item ∈ items, ∃ mode ∈ modes, measureMode zlib raw mode width policy (seconds mode) =
    .ok item ∧
      (mode = .bytePlaneDeflate → (width = 2 ∨ width = 4) ∧ raw.length % width = 0) := by
  induction modes generalizing items with
  | nil =>
    rw [← Except.ok.inj h]
    simp
  | cons mode modes ih =>
    rw [assessModes] at h
    intro item mem
    split at h
    next skip =>
      obtain ⟨mode, listed, rest⟩ := ih h item mem
      exact ⟨mode, mem_cons_of_mem _ listed, rest⟩
    next fit =>
      simp only [bind_eq_ok] at h
      obtain ⟨first, measured, rest, others, done⟩ := h
      rw [← Except.ok.inj done] at mem
      rcases mem_cons.mp mem with rfl | mem
      · refine ⟨mode, mem_cons_self, measured, fun plane => ?_⟩
        by_contra bad
        exact fit ⟨plane, by omega⟩
      · obtain ⟨mode, listed, rest⟩ := ih others item mem
        exact ⟨mode, mem_cons_of_mem _ listed, rest⟩

theorem fastest_mem (h : fastest items = some best) : best ∈ items := by
  induction items generalizing best with
  | nil => cases h
  | cons item items ih =>
    rw [fastest] at h
    split at h
    next => exact Option.some.inj h ▸ mem_cons_self
    next other found =>
      split at h
      · exact Option.some.inj h ▸ mem_cons_of_mem _ (ih found)
      · exact Option.some.inj h ▸ mem_cons_self

variable (prim : Primitives) (limits : PackedTreeWaveLimits)

structure Stores (mode : CompressionMode) (width : Nat) (logical wire : List UInt8) : Prop where
  logical_pos : 1 ≤ logical.length
  logical_le : logical.length ≤ limits.maxLogicalBytes
  wire_pos : 1 ≤ wire.length
  wire_le : wire.length ≤ limits.maxLogicalBytes
  width_lt : width < 2 ^ 8
  sizes : checkArena mode width logical.length wire.length = .ok ()
  reads : mode ≠ .none →
    decompressLossless prim.zlib wire mode logical.length width limits.maxLogicalBytes = .ok logical
  same : mode = .none → wire = logical

variable {prim limits}

theorem stores_none (pos : 1 ≤ logical.length)
    (le : logical.length ≤ limits.maxLogicalBytes) :
    Stores prim limits .none 0 logical logical where
  logical_pos := pos
  logical_le := le
  wire_pos := pos
  wire_le := le
  width_lt := by decide
  sizes := by simp [checkArena]
  reads := fun h => absurd rfl h
  same := fun _ => rfl

theorem selectStored_stores {policy : Option CompressionPolicy} (pos : 1 ≤ logical.length)
    (le : logical.length ≤ limits.maxLogicalBytes)
    (selected : selectStored prim logical policy seconds width = .ok selection)
    (checked : checkSelection prim logical selection = .ok u) :
    Stores prim limits selection.mode selection.elementWidth logical selection.payload := by
  cases policy with
  | none =>
    rw [selectStored] at selected
    split at selected
    · cases selected
    · rw [← Except.ok.inj selected]
      exact stores_none pos le
  | some policy =>
    simp only [selectStored, selectCompressionForBandwidth, bind_eq_ok, throw_bind,
      raise_eq_ok] at selected
    obtain ⟨-, _, -, items, assessed, selected⟩ := selected
    split at selected
    next =>
      rw [← Except.ok.inj selected]
      exact stores_none pos le
    next best found =>
      have mem := (mem_filter.mp (fastest_mem found)).1
      obtain ⟨mode, listed, measured, fit⟩ := assessModes_mem assessed best mem
      obtain ⟨rfl, widthEq, some, inflated⟩ := measureMode_ok measured
      have active : best.mode ≠ .none := fun none => policy.modes_compress (none ▸ listed)
      rw [← Except.ok.inj selected] at checked ⊢
      simp only [checkSelection, throw_bind, raise_eq_ok] at checked
      have shorter : best.payload.length < logical.length := by
        have := checked.2
        rw [if_pos active] at this
        simp only [raise_eq_ok] at this
        omega
      have sizes : checkArena best.mode best.elementWidth logical.length best.payload.length =
          .ok () ∧ best.elementWidth < 2 ^ 8 := by
        rw [widthEq]
        cases kind : best.mode with
        | none => exact absurd kind active
        | rawDeflate =>
          simp [checkArena, planeWidth, shorter]
        | bytePlaneDeflate =>
          obtain ⟨twoOrFour, divides⟩ := fit kind
          have bad : ¬((width ≠ 2 ∧ width ≠ 4) ∨ logical.length % width ≠ 0) := by omega
          simp only [checkArena, planeWidth, if_true, if_neg bad, if_neg (Nat.not_le.mpr shorter)]
          exact ⟨trivial, by omega⟩
      exact {
        logical_pos := pos
        logical_le := le
        wire_pos := some
        wire_le := shorter.le.trans le
        width_lt := sizes.2
        sizes := sizes.1
        reads := fun _ => widthEq ▸ decompressLossless_mono le limits.logical_le inflated
        same := fun none => absurd none active }

end Selection

section Packet

variable (prim : Primitives) (limits : PackedTreeWaveLimits)

def sealedHeader (mode : CompressionMode) (width entryCount : Nat)
    (table logical wire : List UInt8) : Header :=
  let unsigned : Header :=
    { magic := magic
      version := version
      compression := mode.code
      headerBytes := headerBytes
      entryCount := entryCount
      descriptorBytes := descriptorBytes
      elementWidth := width
      reserved8 := 0
      flags := 0
      tableBytes := table.length
      logicalBytes := logical.length
      wireBytes := wire.length
      tableCrc := prim.crc32 table
      logicalCrc := prim.crc32 logical
      wireCrc := prim.crc32 wire
      reserved32 := 0
      digest := List.replicate 32 0 }
  { unsigned with digest := prim.seal unsigned table logical wire }

def sealedPacket (mode : CompressionMode) (width : Nat) (entries : List PackedTreeLeaf)
    (wire : List UInt8) : List UInt8 :=
  let table := (layout entries 0).flatMap Descriptor.pack
  (sealedHeader prim mode width entries.length table (entries.flatMap PackedTreeLeaf.slab)
    wire).pack ++ (table ++ wire)

variable {prim limits}

theorem length_table (ds : List Descriptor) :
    (ds.flatMap Descriptor.pack).length = ds.length * descriptorBytes :=
  length_flatMap fun d _ => d.length_pack

theorem packPackedTreeWave_eq_ok {seconds : CompressionMode → ℚ × ℚ} :
    packPackedTreeWave prim limits leaves policy seconds width = .ok encoding ↔
      Valid limits leaves ∧ ∃ selection,
        selectStored prim ((sortLeaves leaves).flatMap PackedTreeLeaf.slab) policy seconds width =
        .ok selection ∧
          checkSelection prim ((sortLeaves leaves).flatMap PackedTreeLeaf.slab) selection = .ok () ∧
          encoding = ⟨sealedPacket prim selection.mode selection.elementWidth (sortLeaves leaves)
            selection.payload, selection, (sortLeaves leaves).length,
            ((sortLeaves leaves).flatMap PackedTreeLeaf.slab).length⟩ := by
  simp only [packPackedTreeWave, bind_eq_ok, validatedEntries_eq_ok, throw_bind,
    raise_eq_ok]
  constructor
  · rintro ⟨entries, ⟨valid, rfl⟩, ds, described, _, -, -, selection, selected, _, checked, done⟩
    obtain rfl := describe_eq_layout described
    exact ⟨valid, selection, selected, checked, (Except.ok.inj done).symm⟩
  rintro ⟨valid, selection, selected, checked, rfl⟩
  have sorted := valid.perm (sortLeaves_perm leaves).symm
  have count : (sortLeaves leaves).length ≤ 64 := sorted.count.trans limits.entries_le
  refine ⟨_, ⟨valid, rfl⟩, _, describe_layout (by rw [Nat.zero_add]; exact sorted.total), _,
    checkedMul_of_le (by rw [descriptorBytes]; omega), ?_, selection, selected, (), checked, rfl⟩
  rw [length_table, length_layout]
  exact not_not.mpr rfl

theorem Header.fits_unpack (raw : List UInt8) (len : raw.length = TreeWave.headerBytes) :
    (unpack raw).Fits where
  magic := length_slice (by rw [len]; decide)
  version := unpackWord_slice_lt raw 4 1
  compression := unpackWord_slice_lt raw 5 1
  headerBytes := unpackWord_slice_lt raw 6 2
  entryCount := unpackWord_slice_lt raw 8 4
  descriptorBytes := unpackWord_slice_lt raw 12 4
  elementWidth := unpackWord_slice_lt raw 16 1
  reserved8 := unpackWord_slice_lt raw 17 1
  flags := unpackWord_slice_lt raw 18 2
  tableBytes := unpackWord_slice_lt raw 20 8
  logicalBytes := unpackWord_slice_lt raw 28 8
  wireBytes := unpackWord_slice_lt raw 36 8
  tableCrc := unpackWord_slice_lt raw 44 4
  logicalCrc := unpackWord_slice_lt raw 48 4
  wireCrc := unpackWord_slice_lt raw 52 4
  reserved32 := unpackWord_slice_lt raw 56 4
  digest := length_slice (by rw [len]; decide)

theorem ofCode_eq_some :
    CompressionMode.ofCode code = some mode ↔ code = mode.code := by
  constructor
  · intro h
    rw [CompressionMode.ofCode.eq_def] at h
    split at h <;> cases h <;> rfl
  · rintro rfl
    cases mode <;> rfl

structure HeaderOk (limits : PackedTreeWaveLimits) (h : Header) (mode : CompressionMode) :
    Prop where
  magic : h.magic = TreeWave.magic
  version : h.version = TreeWave.version
  compression : h.compression = mode.code
  headerBytes : h.headerBytes = TreeWave.headerBytes
  descriptorBytes : h.descriptorBytes = TreeWave.descriptorBytes
  reserved8 : h.reserved8 = 0
  flags : h.flags = 0
  reserved32 : h.reserved32 = 0
  entryCount : 1 ≤ h.entryCount ∧ h.entryCount ≤ limits.maxEntries
  tableBytes : h.tableBytes = h.entryCount * TreeWave.descriptorBytes
  logicalBytes : 1 ≤ h.logicalBytes ∧ h.logicalBytes ≤ limits.maxLogicalBytes
  wireBytes : 1 ≤ h.wireBytes ∧ h.wireBytes ≤ limits.maxLogicalBytes
  arena : checkArena mode h.elementWidth h.logicalBytes h.wireBytes = .ok ()

theorem checkHeader_eq_ok :
    checkHeader limits h = .ok mode ↔ HeaderOk limits h mode := by
  simp only [checkHeader, throw_bind, raise_eq_ok]
  cases known : CompressionMode.ofCode h.compression with
  | none =>
    constructor
    · rintro ⟨-, -, ⟨⟩⟩
    · intro ok
      cases (ofCode_eq_some.mpr ok.compression).symm.trans known
  | some code =>
    have coded := ofCode_eq_some.mp known
    simp only [raise_eq_ok, bind_eq_ok]
    constructor
    · rintro ⟨magic, version, sizes, reserved, count, _, mul, table, logical, wire, _, arena, done⟩
      obtain rfl := Except.ok.inj done
      obtain rfl := checkedMul_eq_ok mul
      exact ⟨not_not.mp magic, not_not.mp version,
        coded, by omega, by omega, by omega, by omega, by omega, by omega,
        not_not.mp table, by omega, by omega, arena⟩
    intro ok
    obtain rfl : code = mode := by
      have := ofCode_eq_some.mpr ok.compression
      exact Option.mem_unique known this
    have entries := limits.entries_le
    rw [maxPackedEntries] at entries
    have count := ok.entryCount
    have mul : h.entryCount * descriptorBytes ≤ 2 ^ 64 - 1 := by rw [descriptorBytes]; omega
    have sizes := ok.headerBytes
    have row := ok.descriptorBytes
    have reserved8 := ok.reserved8
    have flags := ok.flags
    have reserved32 := ok.reserved32
    have logical := ok.logicalBytes
    have wire := ok.wireBytes
    exact ⟨not_not.mpr ok.magic, not_not.mpr ok.version, by omega, by omega, by omega, _,
      checkedMul_of_le mul, not_not.mpr ok.tableBytes, by omega, by omega, (), ok.arena, rfl⟩

/-- What a packet has passed when it is read as an arena and its descriptors. -/
structure Reads (prim : Primitives) (limits : PackedTreeWaveLimits) (h : Header)
    (table wire logical : List UInt8) (mode : CompressionMode) (ds : List Descriptor) : Prop where
  fits : h.Fits
  header : HeaderOk limits h mode
  tableLen : table.length = h.tableBytes
  wireLen : wire.length = h.wireBytes
  descriptors : readDescriptors limits h.logicalBytes table h.entryCount 0 (-1) 0 none = .ok ds
  tableCrc : prim.crc32 table = h.tableCrc
  wireCrc : prim.crc32 wire = h.wireCrc
  arena : logicalArena prim limits mode h wire = .ok logical
  logicalCrc : prim.crc32 logical = h.logicalCrc
  digest : prim.seal h table logical wire = h.digest

def waveOf (h : Header) (logical : List UInt8) (mode : CompressionMode) (ds : List Descriptor) :
    DecodedPackedTreeWave where
  leaves := ds.map fun d => ⟨d.requestId, d.step, d.tokenCount, d.offset,
    slice logical d.offset d.length⟩
  compression := mode
  logicalBytes := h.logicalBytes
  storedBytes := h.wireBytes
  digest := h.digest
  arena := logical

theorem decodePackedTreeWave_eq_ok :
    decodePackedTreeWave prim limits packet = .ok wave ↔ ∃ h table wire logical mode ds,
      packet = Header.pack h ++ (table ++ wire) ∧ Reads prim limits h table wire logical mode ds ∧
        wave = waveOf h logical mode ds := by
  simp only [decodePackedTreeWave, throw_bind, raise_eq_ok, bind_eq_ok,
    checkHeader_eq_ok, checkedAdd_eq_ok]
  constructor
  · rintro ⟨long, -, mode, header, _, ⟨-, rfl⟩, _, ⟨-, rfl⟩, ends, ds, read, tableCrc, wireCrc,
      logical, arena, logicalCrc, digest, done⟩
    have first : (slice packet 0 headerBytes).length = headerBytes := length_slice (by omega)
    have ends := not_not.mp ends
    have fits := Header.fits_unpack _ first
    have again := Header.pack_unpack first
    generalize Header.unpack (slice packet 0 headerBytes) = h at *
    refine ⟨h, slice packet headerBytes h.tableBytes,
      slice packet (headerBytes + h.tableBytes) h.wireBytes, logical, mode, ds, ?_,
      ⟨fits, header, length_slice (by omega), length_slice (by omega), read, not_not.mp tableCrc,
        not_not.mp wireCrc, arena, not_not.mp logicalCrc, not_not.mp digest⟩,
      (Except.ok.inj done).symm⟩
    have joined := slice_append_slice packet 0 headerBytes (h.tableBytes + h.wireBytes)
    rw [Nat.zero_add] at joined
    rw [again, slice_append_slice, joined, slice_all (by omega)]
  · rintro ⟨h, table, wire, logical, mode, ds, rfl, reads, rfl⟩
    have first : h.pack.length = headerBytes :=
      Header.length_pack reads.fits.magic reads.fits.digest
    have whole : (h.pack ++ (table ++ wire)).length = headerBytes + h.tableBytes + h.wireBytes := by
      rw [length_append, length_append, first, reads.tableLen, reads.wireLen, Nat.add_assoc]
    have tableSlice : slice (h.pack ++ (table ++ wire)) headerBytes h.tableBytes = table := by
      rw [slice_skip first.le, first, Nat.sub_self, slice_here reads.tableLen]
    have wireSlice : slice (h.pack ++ (table ++ wire)) (headerBytes + h.tableBytes) h.wireBytes =
        wire := by
      have start : headerBytes + h.tableBytes = (h.pack ++ table).length := by
        rw [length_append, first, reads.tableLen]
      rw [← append_assoc, start, slice_skip le_rfl, Nat.sub_self, slice_all reads.wireLen]
    have room : h.tableBytes ≤ limits.maxEntries * descriptorBytes := by
      rw [reads.header.tableBytes]
      exact Nat.mul_le_mul_right _ reads.header.entryCount.2
    have small : limits.maxEntries * descriptorBytes + limits.maxLogicalBytes ≤ 2 ^ 32 := by
      have := limits.entries_le
      have := maxLogicalBytes_small limits
      rw [maxPackedEntries] at *
      rw [descriptorBytes]
      omega
    have size := reads.header.wireBytes.2
    have short : headerBytes = 92 := rfl
    rw [whole, slice_here first, Header.unpack_pack reads.fits, tableSlice]
    refine ⟨by omega, by omega, mode, reads.header, _, ⟨by omega, rfl⟩, _, ⟨by omega, rfl⟩,
      not_not.mpr rfl, ds, reads.descriptors, not_not.mpr reads.tableCrc, ?_⟩
    rw [wireSlice]
    exact ⟨not_not.mpr reads.wireCrc, logical, reads.arena, not_not.mpr reads.logicalCrc,
      not_not.mpr reads.digest, rfl⟩

end Packet

section RoundTrip

def DecodedPackedTreeLeaf.leaf (leaf : DecodedPackedTreeLeaf) : PackedTreeLeaf :=
  ⟨leaf.requestId, leaf.step, leaf.tokenCount, leaf.slab⟩

theorem leaves_waveOf (h : Header) (logical : List UInt8) (mode : CompressionMode)
    (ds : List Descriptor) :
    (waveOf h logical mode ds).leaves.map DecodedPackedTreeLeaf.leaf =
    ds.map (Descriptor.leaf logical) := by
  rw [waveOf, map_map]
  rfl

theorem Primitives.length_seal (prim : Primitives) (h : Header) (table logical wire : List UInt8) :
    (prim.seal h table logical wire).length = 32 := Vector.length_toList

theorem Primitives.crc32_lt (prim : Primitives) (bytes : List UInt8) : prim.crc32 bytes < 2 ^ 32 :=
  Nat.mod_lt _ (by decide)

theorem decode_sealedPacket (valid : Valid limits entries)
    (sorted : entries.Pairwise (·.requestId < ·.requestId))
    (stores : Stores prim limits mode width (entries.flatMap PackedTreeLeaf.slab) wire) :
    decodePackedTreeWave prim limits (sealedPacket prim mode width entries wire) =
      .ok (waveOf (sealedHeader prim mode width entries.length
        ((layout entries 0).flatMap Descriptor.pack) (entries.flatMap PackedTreeLeaf.slab) wire)
        (entries.flatMap PackedTreeLeaf.slab) mode (layout entries 0)) := by
  have room : 0 + slabBytes entries ≤ limits.maxLogicalBytes := by
    rw [Nat.zero_add]
    exact valid.total
  have rows : ((layout entries 0).flatMap Descriptor.pack).length = entries.length *
      descriptorBytes := by
    rw [length_table, length_layout]
  have count : entries.length ≤ 64 := valid.count.trans limits.entries_le
  have small := maxLogicalBytes_small limits
  have row : descriptorBytes = 24 := rfl
  have logicalSmall := stores.logical_le
  have wireSmall := stores.wire_le
  have coded : mode.code < 2 ^ 8 := by cases mode <;> decide
  refine decodePackedTreeWave_eq_ok.mpr ⟨_, _, wire, _, mode, _, rfl, ?_, rfl⟩
  exact {
    fits := {
      magic := rfl
      version := show TreeWave.version < 2 ^ 8 by decide
      compression := coded
      headerBytes := show TreeWave.headerBytes < 2 ^ 16 by decide
      entryCount := show entries.length < 2 ^ 32 by omega
      descriptorBytes := show TreeWave.descriptorBytes < 2 ^ 32 by decide
      elementWidth := stores.width_lt
      reserved8 := Nat.two_pow_pos 8
      flags := Nat.two_pow_pos 16
      tableBytes := rows.trans_lt (by rw [row]; omega)
      logicalBytes := show (entries.flatMap PackedTreeLeaf.slab).length < 2 ^ 64 by omega
      wireBytes := show wire.length < 2 ^ 64 by omega
      tableCrc := prim.crc32_lt _
      logicalCrc := prim.crc32_lt _
      wireCrc := prim.crc32_lt _
      reserved32 := Nat.two_pow_pos 32
      digest := prim.length_seal _ _ _ _ }
    header := {
      magic := rfl
      version := rfl
      compression := rfl
      headerBytes := rfl
      descriptorBytes := rfl
      reserved8 := rfl
      flags := rfl
      reserved32 := rfl
      entryCount := ⟨length_pos_iff.mpr valid.nonempty, valid.count⟩
      tableBytes := rows
      logicalBytes := ⟨stores.logical_pos, stores.logical_le⟩
      wireBytes := ⟨stores.wire_pos, stores.wire_le⟩
      arena := stores.sizes }
    tableLen := rfl
    wireLen := rfl
    descriptors := by
      have tiled : Tiled limits (0 + slabBytes entries) (-1) 0 none (layout entries 0) :=
        layout_tiled valid.each sorted (fun leaf _ => by omega) valid.uniform (by simp) room
      have rows := unpack_rows (layout_fits valid.each room)
      rw [Nat.zero_add, ← length_arena] at tiled
      rw [length_layout] at rows
      exact readDescriptors_eq_ok.mpr ⟨rows.symm, tiled⟩
    tableCrc := rfl
    wireCrc := rfl
    arena := by
      rw [logicalArena]
      split
      next none => rw [stores.same none]
      next active => exact stores.reads active
    logicalCrc := rfl
    digest := rfl }

theorem rawInflateBounded_length
    (h : rawInflateBounded zlib value expected max = .ok decoded) : decoded.length = expected := by
  simp only [rawInflateBounded, bind_eq_ok] at h
  obtain ⟨_, -, h⟩ := h
  split at h
  next => cases h
  next inflated _ =>
    simp only [throw_bind, raise_eq_ok] at h
    obtain ⟨-, -, -, h⟩ := h
    split at h
    next => cases h
    next tail _ =>
      simp only [raise_eq_ok] at h
      rw [← Except.ok.inj h.2]
      exact not_not.mp h.1

theorem decompressLossless_length
    (h : decompressLossless zlib encoded mode expected width max = .ok decoded) :
    decoded.length = expected := by
  simp only [decompressLossless, bind_eq_ok] at h
  obtain ⟨_, -, _, -, h⟩ := h
  cases mode with
  | none =>
    simp only [throw_bind, raise_eq_ok] at h
    rw [← Except.ok.inj h.2.2]
    exact not_not.mp h.2.1
  | rawDeflate =>
    simp only [throw_bind, raise_eq_ok] at h
    exact rawInflateBounded_length h.2
  | bytePlaneDeflate =>
    simp only [throw_bind, raise_eq_ok, bind_eq_ok] at h
    obtain ⟨_, -, -, _, -, -, -, _, -, -, planes, -, done⟩ := h
    rw [← Except.ok.inj done, interleave, length_map, length_range]

section Accepted

variable (reads : Reads prim limits h table wire logical mode ds)

include reads

theorem Reads.length_logical : logical.length = h.logicalBytes := by
  have arena := reads.arena
  rw [logicalArena] at arena
  split at arena
  next none =>
    have sizes := reads.header.arena
    rw [none, checkArena] at sizes
    split at sizes
    · cases sizes
    next canonical =>
      rw [← Except.ok.inj arena, reads.wireLen]
      omega
  next => exact decompressLossless_length arena

theorem Reads.tiled : Tiled limits h.logicalBytes (-1) 0 none ds :=
  (readDescriptors_eq_ok.mp reads.descriptors).2

theorem Reads.rows : ds = (List.range' 0 h.entryCount).map fun i => Descriptor.unpack
    (slice table (i * descriptorBytes) descriptorBytes) :=
  (readDescriptors_eq_ok.mp reads.descriptors).1

theorem Reads.table_eq : table = ds.flatMap Descriptor.pack := by
  rw [reads.rows, pack_rows (reads.tableLen.trans reads.header.tableBytes)]

theorem Reads.length_ds : ds.length = h.entryCount := by
  rw [reads.rows, length_map, length_range']

theorem Reads.arena_eq : (ds.map (Descriptor.leaf logical)).flatMap PackedTreeLeaf.slab = logical :=
  reads.tiled.cover reads.length_logical

theorem Reads.valid : Valid limits (ds.map (Descriptor.leaf logical)) where
  nonempty := by
    have := reads.header.entryCount.1
    have := reads.length_ds
    intro empty
    rw [map_eq_nil_iff.mp empty, length_nil] at this
    omega
  count := by
    rw [length_map, reads.length_ds]
    exact reads.header.entryCount.2
  each := by
    refine reads.tiled.each reads.length_logical fun d mem => ?_
    rw [reads.rows] at mem
    obtain ⟨i, -, rfl⟩ := mem_map.mp mem
    exact Descriptor.fits_unpack _
  ids := by
    refine List.Pairwise.map _ ?_ reads.tiled.sorted.1
    exact fun a b less => Nat.ne_of_lt less
  total := by
    rw [← length_arena, reads.arena_eq, reads.length_logical]
    exact reads.header.logicalBytes.2
  uniform := by
    obtain ⟨bytes, -, same⟩ := reads.tiled.uniform reads.length_logical
    exact fun a ha b hb => (same a ha).trans (same b hb).symm

omit reads in
theorem Reads.plain (reads : Reads prim limits h table wire logical .none ds) :
    wire = logical ∧ h.elementWidth = 0 := by
  have sizes := reads.header.arena
  rw [checkArena] at sizes
  split at sizes
  next => cases sizes
  next canonical =>
    refine ⟨?_, by omega⟩
    have arena := reads.arena
    rw [logicalArena, if_pos rfl] at arena
    exact Except.ok.inj arena

theorem Reads.header_eq :
    h = sealedHeader prim mode h.elementWidth ds.length table logical wire := by
  have ok := reads.header
  have digest := reads.digest
  have tableLen := reads.tableLen
  have wireLen := reads.wireLen
  have logicalLen := reads.length_logical
  have tableCrc := reads.tableCrc
  have wireCrc := reads.wireCrc
  have logicalCrc := reads.logicalCrc
  have count := reads.length_ds
  obtain ⟨magic, version, compression, headerBytes, descriptorBytes, reserved8, flags, reserved32,
    -, -, -, -, -⟩ := ok
  obtain ⟨⟩ := h
  simp only at *
  subst magic version compression headerBytes descriptorBytes reserved8 flags reserved32 tableLen
    wireLen logicalLen tableCrc wireCrc logicalCrc count
  rw [← digest]
  rfl

theorem Reads.packet_eq : h.pack ++ (table ++ wire) =
    sealedPacket prim mode h.elementWidth (ds.map (Descriptor.leaf logical)) wire := by
  simp only [sealedPacket]
  rw [reads.tiled.layout reads.length_logical, reads.arena_eq, ← reads.table_eq, length_map,
    ← reads.header_eq]

end Accepted

/-- The slabs lie one behind the other and fill the arena, with so many bytes a token. -/
structure DecodedPackedTreeWave.Partition (wave : DecodedPackedTreeWave) (bytesPerToken : Nat) :
    Prop where
  slices : ∀ leaf ∈ wave.leaves, leaf.slab = slice wave.arena leaf.offset leaf.slab.length
  contiguous : ∀ before leaf behind, wave.leaves = before ++ leaf :: behind →
    leaf.offset = (before.map (·.slab.length)).sum
  disjoint : wave.leaves.Pairwise fun a b => a.offset + a.slab.length ≤ b.offset
  cover : wave.leaves.flatMap (·.slab) = wave.arena
  size : wave.arena.length = wave.logicalBytes
  uniform : ∀ leaf ∈ wave.leaves, leaf.slab.length = leaf.tokenCount * bytesPerToken

theorem Reads.partition (reads : Reads prim limits h table wire logical mode ds) :
    ∃ bytes, (waveOf h logical mode ds).Partition bytes := by
  have full := reads.length_logical
  have tiled := reads.tiled
  have size : ∀ d ∈ ds, (slice logical d.offset d.length).length = d.length := by
    intro d mem
    apply length_slice
    rw [full]
    exact (tiled.inside d mem).1
  obtain ⟨bytes, -, same⟩ := tiled.uniform full
  refine ⟨bytes, ⟨?_, ?_, ?_, ?_, full, ?_⟩⟩
  · intro leaf mem
    obtain ⟨d, listed, rfl⟩ := mem_map.mp mem
    change _ = slice logical d.offset _
    rw [size d listed]
  · intro before leaf behind cut
    obtain ⟨before, rest, rfl, rfl, cut'⟩ := map_eq_append_iff.mp cut
    obtain ⟨d, behind, rfl, rfl, rfl⟩ := map_eq_cons_iff.mp cut'
    have start := tiled.contiguous rfl
    rw [Nat.zero_add] at start
    rw [map_map]
    refine start.trans (congrArg List.sum (map_congr_left fun d mem => ?_))
    exact (size d (mem_append_left _ mem)).symm
  · refine pairwise_map.mpr (tiled.disjoint.1.imp_of_mem fun mem _ behind => ?_)
    simpa only [size _ mem] using behind
  · have cover := reads.arena_eq
    rw [flatMap_map] at cover
    exact (flatMap_map ..).trans cover
  · intro leaf mem
    obtain ⟨d, listed, rfl⟩ := mem_map.mp mem
    have divides := (tiled.inside d listed).2
    have per := same _ (mem_map_of_mem listed)
    rw [Descriptor.leaf, PackedTreeLeaf.bytesPerToken] at per
    simp only [size d listed] at per ⊢
    rw [← per, Nat.mul_div_cancel' (Nat.dvd_of_mod_eq_zero divides)]

theorem packed_tree_wave_codec (prim : Primitives) (limits : PackedTreeWaveLimits) :
    (∀ leaves policy seconds width encoding,
      packPackedTreeWave prim limits leaves policy seconds width = .ok encoding →
        ∃ wave, decodePackedTreeWave prim limits encoding.packet = .ok wave ∧
          (wave.leaves.map DecodedPackedTreeLeaf.leaf).Perm leaves ∧
          wave.leaves.Pairwise (·.requestId < ·.requestId)) ∧
    (∀ packet wave, decodePackedTreeWave prim limits packet = .ok wave → wave.compression = .none →
      ∀ seconds, encodePackedTreeWave prim limits (wave.leaves.map DecodedPackedTreeLeaf.leaf)
        none seconds 0 = .ok packet) ∧
    (∀ packet wave, decodePackedTreeWave prim limits packet = .ok wave →
      ∃ bytesPerToken, wave.Partition bytesPerToken) := by
  refine ⟨fun leaves policy seconds width encoding packed => ?_,
    fun packet wave decoded plain seconds => ?_, fun packet wave decoded => ?_⟩
  · obtain ⟨valid, selection, selected, checked, rfl⟩ := packPackedTreeWave_eq_ok.mp packed
    have perm := sortLeaves_perm leaves
    have sorted := sortLeaves_ids valid.ids
    have entries := valid.perm perm.symm
    have slabs := length_arena (sortLeaves leaves)
    have stores :=
      selectStored_stores (slabs ▸ entries.slabBytes_pos) (slabs ▸ entries.total) selected checked
    have leavesEq : (layout (sortLeaves leaves) 0).map
        (Descriptor.leaf ((sortLeaves leaves).flatMap PackedTreeLeaf.slab)) = sortLeaves leaves :=
      layout_leaves [] rfl
    refine ⟨_, decode_sealedPacket entries sorted stores, ?_, ?_⟩
    · rw [leaves_waveOf, leavesEq]
      exact perm
    · rw [← leavesEq, pairwise_map] at sorted
      exact pairwise_map.mpr sorted
  · obtain ⟨h, table, wire, logical, mode, ds, rfl, reads, rfl⟩ :=
      decodePackedTreeWave_eq_ok.mp decoded
    obtain rfl : mode = .none := plain
    obtain ⟨rfl, narrow⟩ := reads.plain
    have sorted : sortLeaves (ds.map (Descriptor.leaf wire)) = ds.map (Descriptor.leaf wire) :=
      sortLeaves_of_sorted reads.tiled.sorted.1
    rw [leaves_waveOf, reads.packet_eq, narrow]
    simp only [encodePackedTreeWave, bind_eq_ok, packPackedTreeWave_eq_ok]
    refine ⟨_, ⟨reads.valid, ⟨.none, 0, wire, (prim.sha wire).toList, []⟩, ?_, ?_, rfl⟩, ?_⟩
    · rw [sorted, reads.arena_eq]
      rfl
    · rw [sorted, reads.arena_eq]
      simp [checkSelection]
      rfl
    · rw [sorted]
      rfl
  · obtain ⟨h, table, wire, logical, mode, ds, rfl, reads, rfl⟩ :=
      decodePackedTreeWave_eq_ok.mp decoded
    exact reads.partition

theorem two_leaves_round_trip :
    let prim : Primitives :=
      ⟨⟨fun _ raw => raw, fun _ _ => none⟩, List.length, fun _ => Vector.replicate 32 7⟩
    let limits : PackedTreeWaveLimits :=
      ⟨4, 64, 128, 8, by decide, by decide, by decide, by decide, by decide, by decide⟩
    let leaves : List PackedTreeLeaf := [⟨9, 1, 2, [1, 2, 3, 4]⟩, ⟨5, 0, 1, [8, 9]⟩]
    ∃ encoding wave, packPackedTreeWave prim limits leaves none (fun _ => 0) 0 = .ok encoding ∧
      decodePackedTreeWave prim limits encoding.packet = .ok wave ∧
      (wave.leaves.map DecodedPackedTreeLeaf.leaf).Perm leaves ∧
      encodePackedTreeWave prim limits (wave.leaves.map DecodedPackedTreeLeaf.leaf) none
      (fun _ => 0) 0 =
        .ok encoding.packet ∧ ∃ bytesPerToken, wave.Partition bytesPerToken := by
  intro prim limits leaves
  have run : (do
      let encoding ← packPackedTreeWave prim limits leaves none (fun _ => 0) 0
      let wave ← decodePackedTreeWave prim limits encoding.packet
      pure wave.compression : Except PackError CompressionMode) = .ok .none := by decide +kernel
  simp only [bind_eq_ok] at run
  obtain ⟨encoding, packed, wave, decoded, plain⟩ := run
  obtain ⟨forth, back, parts⟩ := packed_tree_wave_codec prim limits
  obtain ⟨again, decoded', perm, -⟩ := forth _ _ _ _ _ packed
  obtain rfl := ok_unique decoded' decoded
  exact ⟨encoding, again, packed, decoded, perm, back _ _ decoded (Except.ok.inj plain) _,
    parts _ _ decoded⟩

end RoundTrip

end Mycellios.TreeWave
