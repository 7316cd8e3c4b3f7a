import Mycellios.TreeWave.Packet

namespace Mycellios.TreeWave

open Data Logic

structure Header.Fits (h : Header) : Prop where
  magic : h.magic.length = 4
  version : h.version < 2 ^ 8
  compression : h.compression < 2 ^ 8
  headerBytes : h.headerBytes < 2 ^ 16
  entryCount : h.entryCount < 2 ^ 32
  descriptorBytes : h.descriptorBytes < 2 ^ 32
  elementWidth : h.elementWidth < 2 ^ 8
  reserved8 : h.reserved8 < 2 ^ 8
  flags : h.flags < 2 ^ 16
  tableBytes : h.tableBytes < 2 ^ 64
  logicalBytes : h.logicalBytes < 2 ^ 64
  wireBytes : h.wireBytes < 2 ^ 64
  tableCrc : h.tableCrc < 2 ^ 32
  logicalCrc : h.logicalCrc < 2 ^ 32
  wireCrc : h.wireCrc < 2 ^ 32
  reserved32 : h.reserved32 < 2 ^ 32
  digest : h.digest.length = 32

theorem Header.length_pack {h : Header} (magic : h.magic.length = 4)
    (digest : h.digest.length = 32) : h.pack.length = TreeWave.headerBytes := by
  simp [pack, magic, digest, TreeWave.headerBytes]

theorem Header.unpack_pack (fits : h.Fits) : unpack h.pack = h := by
  obtain ⟨magic, version, compression, headerBytes, entryCount, descriptorBytes, elementWidth,
    reserved8, flags, tableBytes, logicalBytes, wireBytes, tableCrc, logicalCrc, wireCrc,
    reserved32, digest⟩ := fits
  simp only [unpack, pack]
  obtain ⟨⟩ := h
  simp only [Header.mk.injEq]
  refine ⟨?_, ?_, ?_, ?_, ?_, ?_, ?_, ?_, ?_, ?_, ?_, ?_, ?_, ?_, ?_, ?_, ?_⟩ <;>
    simp [slice_skip, slice_here, slice_all, unpackWord_packWord, *] <;> omega

theorem Header.pack_unpack (len : raw.length = TreeWave.headerBytes) : (unpack raw).pack = raw := by
  rw [TreeWave.headerBytes] at len
  have word : ∀ {offset size : Nat}, offset + size ≤ 92 →
      packWord size (unpackWord (slice raw offset size)) = slice raw offset size :=
    fun le => packWord_unpackWord_slice (len ▸ le)
  simp (disch := decide) only [pack, unpack, word]
  rw [slice_append_slice raw 56 4 32, slice_append_slice raw 52 4 36,
    slice_append_slice raw 48 4 40, slice_append_slice raw 44 4 44, slice_append_slice raw 36 8 48,
    slice_append_slice raw 28 8 56, slice_append_slice raw 20 8 64, slice_append_slice raw 18 2 72,
    slice_append_slice raw 17 1 74, slice_append_slice raw 16 1 75, slice_append_slice raw 12 4 76,
    slice_append_slice raw 8 4 80, slice_append_slice raw 6 2 84, slice_append_slice raw 5 1 86,
    slice_append_slice raw 4 1 87, slice_append_slice raw 0 4 88]
  exact slice_all len

structure Descriptor.Fits (d : Descriptor) : Prop where
  requestId : d.requestId < 2 ^ 64
  step : d.step < 2 ^ 32
  tokenCount : d.tokenCount < 2 ^ 32
  offset : d.offset < 2 ^ 32
  length : d.length < 2 ^ 32

@[simp] theorem Descriptor.length_pack (d : Descriptor) : d.pack.length = descriptorBytes := by
  simp [pack, descriptorBytes]

theorem Descriptor.unpack_pack (fits : d.Fits) : unpack d.pack = d := by
  obtain ⟨requestId, step, tokenCount, offset, length⟩ := fits
  simp only [unpack, pack]
  obtain ⟨⟩ := d
  simp only [Descriptor.mk.injEq]
  refine ⟨?_, ?_, ?_, ?_, ?_⟩ <;> simp [slice_skip, slice_here, slice_all, unpackWord_packWord]
    <;> omega

theorem Descriptor.pack_unpack (len : raw.length = descriptorBytes) : (unpack raw).pack = raw := by
  rw [descriptorBytes] at len
  have word : ∀ {offset size : Nat}, offset + size ≤ 24 →
      packWord size (unpackWord (slice raw offset size)) = slice raw offset size :=
    fun le => packWord_unpackWord_slice (len ▸ le)
  simp (disch := decide) only [pack, unpack, word]
  rw [slice_append_slice raw 16 4 4, slice_append_slice raw 12 4 8, slice_append_slice raw 8 4 12,
    slice_append_slice raw 0 8 16]
  exact slice_all len

theorem Descriptor.fits_unpack (raw : List UInt8) : (unpack raw).Fits where
  requestId := unpackWord_slice_lt raw 0 8
  step := unpackWord_slice_lt raw 8 4
  tokenCount := unpackWord_slice_lt raw 12 4
  offset := unpackWord_slice_lt raw 16 4
  length := unpackWord_slice_lt raw 20 4

section Leaves

variable (limits : PackedTreeWaveLimits)

structure LeafOk (leaf : PackedTreeLeaf) : Prop where
  requestId : 1 ≤ leaf.requestId ∧ leaf.requestId < 2 ^ 64
  step : leaf.step < 2 ^ 32
  tokenCount : 1 ≤ leaf.tokenCount ∧ leaf.tokenCount ≤ limits.maxTokenCount
  slab : 1 ≤ leaf.slab.length ∧ leaf.slab.length ≤ limits.maxSlabBytes
  divides : leaf.slab.length % leaf.tokenCount = 0

def slabBytes (leaves : List PackedTreeLeaf) : Nat := (leaves.map (·.slab.length)).sum

theorem length_arena (leaves : List PackedTreeLeaf) :
    (leaves.flatMap PackedTreeLeaf.slab).length = slabBytes leaves := List.length_flatMap ..

structure Valid (leaves : List PackedTreeLeaf) : Prop where
  nonempty : leaves ≠ []
  count : leaves.length ≤ limits.maxEntries
  each : ∀ leaf ∈ leaves, LeafOk limits leaf
  ids : (leaves.map (·.requestId)).Nodup
  total : slabBytes leaves ≤ limits.maxLogicalBytes
  uniform : ∀ a ∈ leaves, ∀ b ∈ leaves, a.bytesPerToken = b.bytesPerToken

variable {limits}

theorem Valid.perm (perm : leaves.Perm leaves')
    (h : Valid limits leaves) : Valid limits leaves' where
  nonempty := fun empty => h.nonempty (List.perm_nil.mp (empty ▸ perm))
  count := perm.length_eq ▸ h.count
  each := fun leaf mem => h.each leaf (perm.mem_iff.mpr mem)
  ids := (perm.map _).nodup_iff.mp h.ids
  total := by
    rw [slabBytes, ← (perm.map _).sum_eq]
    exact h.total
  uniform := fun a ha b hb => h.uniform a (perm.mem_iff.mpr ha) b (perm.mem_iff.mpr hb)

theorem Valid.slabBytes_pos (h : Valid limits leaves) : 1 ≤ slabBytes leaves := by
  obtain ⟨leaf, mem⟩ := List.exists_mem_of_ne_nil _ h.nonempty
  have part : leaf.slab.length ≤ slabBytes leaves :=
    List.single_le_sum (fun _ _ => Nat.zero_le _) _ (List.mem_map_of_mem mem)
  exact (h.each leaf mem).slab.1.trans part

theorem boundedInt_eq_ok :
    boundedInt name value minimum maximum = .ok u ↔ minimum ≤ value ∧ value ≤ maximum := by
  rw [boundedInt]
  split <;> simp <;> omega

theorem checkedAdd_eq_ok :
    checkedAdd name left right maximum = .ok sum ↔ left + right ≤ maximum ∧ left + right = sum := by
  rw [checkedAdd]
  split <;> simp <;> omega

theorem checkedMul_eq_ok (h : checkedMul name left right maximum = .ok product) :
    left * right = product := by
  rw [checkedMul] at h
  split at h
  · cases h
  · exact Except.ok.inj h

theorem checkedMul_of_le (le : left * right ≤ maximum) :
    checkedMul name left right maximum = .ok (left * right) := by
  rw [checkedMul, if_neg]
  rintro ⟨pos, past⟩
  have more := (Nat.div_lt_iff_lt_mul (Nat.pos_of_ne_zero pos)).mp past
  rw [Nat.mul_comm] at more
  omega

theorem validateLeaves_eq_ok : validateLeaves limits leaves ordinal seen total = .ok u ↔
      (∀ leaf ∈ leaves, LeafOk limits leaf) ∧ (leaves.map (·.requestId)).Nodup ∧
        (∀ leaf ∈ leaves, leaf.requestId ∉ seen) ∧
        (leaves ≠ [] → total + slabBytes leaves ≤ limits.maxLogicalBytes) := by
  induction leaves generalizing ordinal seen total with
  | nil => simp [validateLeaves]
  | cons leaf leaves ih =>
    have sum : slabBytes (leaf :: leaves) = leaf.slab.length + slabBytes leaves := List.sum_cons
    simp only [validateLeaves, bind_eq_ok, boundedInt_eq_ok, throw_bind, raise_eq_ok,
      ih, List.map_cons, List.nodup_cons, List.forall_mem_cons, sum]
    constructor
    · rintro ⟨_, id, fresh, _, step, _, tokens, slab, divides, room, each, nodup, unseen, total⟩
      have other : leaf.requestId ∉ leaves.map (·.requestId) := by
        intro mem
        obtain ⟨twin, mem, same⟩ := List.mem_map.mp mem
        exact unseen twin mem (same ▸ List.mem_cons_self)
      refine ⟨⟨⟨⟨id.1, by omega⟩, by omega, tokens, by omega, by omega⟩, each⟩, ⟨other, nodup⟩,
        ⟨fresh, fun twin mem old => unseen twin mem (List.mem_cons_of_mem _ old)⟩, fun _ => ?_⟩
      by_cases last : leaves = []
      · subst last
        have none : slabBytes [] = 0 := rfl
        omega
      · have := total last
        omega
    · rintro ⟨⟨ok, each⟩, ⟨other, nodup⟩, ⟨fresh, unseen⟩, total⟩
      have whole := total (List.cons_ne_nil _ _)
      refine ⟨(), ⟨ok.requestId.1, by have := ok.requestId.2; omega⟩, fresh, (),
        ⟨Nat.zero_le _, by have := ok.step; omega⟩, (), ok.tokenCount, by have := ok.slab; omega,
        by have := ok.divides; omega, by omega, each, nodup, fun twin mem => ?_, fun _ => by omega⟩
      intro seen
      rcases List.mem_cons.mp seen with same | old
      · exact other (same ▸ List.mem_map_of_mem mem)
      · exact unseen twin mem old

theorem sortLeaves_perm (leaves : List PackedTreeLeaf) : (sortLeaves leaves).Perm leaves :=
  List.perm_insertionSort _ leaves

theorem validatedEntries_eq_ok :
    validatedEntries limits leaves = .ok entries ↔ Valid limits leaves ∧
    entries = sortLeaves leaves := by
  have perm := sortLeaves_perm leaves
  have uniform : (sortLeaves leaves).any (fun leaf => (sortLeaves leaves).head?.any
      (leaf.bytesPerToken ≠ ·.bytesPerToken)) = false ↔
      ∀ a ∈ leaves, ∀ b ∈ leaves, a.bytesPerToken = b.bytesPerToken := by
    cases sorted : sortLeaves leaves with
    | nil =>
      have empty : leaves = [] := List.perm_nil.mp (sorted ▸ perm.symm)
      simp [empty]
    | cons first rest =>
      have mem : ∀ a, a ∈ leaves ↔ a ∈ first :: rest := fun a => (sorted ▸ perm).mem_iff.symm
      simp only [List.head?_cons, Option.any_some, List.any_eq_false, decide_eq_true_eq, ne_eq,
        not_not, mem]
      constructor
      · exact fun h a ha b hb => (h a ha).trans (h b hb).symm
      · exact fun h a ha => h a ha first List.mem_cons_self
  simp only [validatedEntries, throw_bind, raise_eq_ok, bind_eq_ok,
    validateLeaves_eq_ok, Bool.not_eq_true, uniform]
  constructor
  · rintro ⟨nonempty, count, _, ⟨each, nodup, -, total⟩, same, done⟩
    have whole := total nonempty
    exact ⟨⟨nonempty, Nat.not_lt.mp count, each, nodup, by omega, same⟩, (Except.ok.inj done).symm⟩
  rintro ⟨valid, rfl⟩
  exact ⟨valid.nonempty, Nat.not_lt.mpr valid.count, (), ⟨valid.each, valid.ids, by simp,
    fun _ => by have := valid.total; omega⟩, valid.uniform, rfl⟩

theorem sortLeaves_ids (nodup : (leaves.map (·.requestId)).Nodup) :
    (sortLeaves leaves).Pairwise (·.requestId < ·.requestId) := by
  have perm := sortLeaves_perm leaves
  have distinct : (sortLeaves leaves).Pairwise (·.requestId ≠ ·.requestId) := by
    have := (perm.map (·.requestId)).nodup_iff.mpr nodup
    exact List.pairwise_map.mp this
  have sorted : (sortLeaves leaves).Pairwise (·.requestId ≤ ·.requestId) :=
    List.pairwise_insertionSort (fun a b : PackedTreeLeaf => a.requestId ≤ b.requestId) leaves
  exact (sorted.and distinct).imp fun both => lt_of_le_of_ne both.1 both.2

theorem sortLeaves_of_sorted (sorted : leaves.Pairwise (·.requestId < ·.requestId)) :
    sortLeaves leaves = leaves :=
  List.Pairwise.insertionSort_eq (sorted.imp le_of_lt)

end Leaves

section Descriptors

variable (limits : PackedTreeWaveLimits)

def layout : List PackedTreeLeaf → (offset : Nat) → List Descriptor
  | [], _ => []
  | leaf :: leaves, offset =>
    ⟨leaf.requestId, leaf.step, leaf.tokenCount, offset, leaf.slab.length⟩ :: layout leaves
      (offset + leaf.slab.length)

/-- What the decoder accepts as descriptors, from an offset to the end of the arena. -/
def Tiled (logicalBytes : Nat) : (previous : Int) → (offset : Nat) → (bytesPerToken : Option Nat) →
    List Descriptor → Prop
  | _, offset, _, [] => offset = logicalBytes
  | previous, offset, bytesPerToken, d :: ds =>
    (d.requestId ≠ 0 ∧ previous < d.requestId) ∧
      (1 ≤ d.tokenCount ∧ d.tokenCount ≤ limits.maxTokenCount) ∧
      (1 ≤ d.length ∧ d.length ≤ limits.maxSlabBytes) ∧ d.offset + d.length ≤ 2 ^ 32 - 1 ∧
      d.offset = offset ∧ d.offset + d.length ≤ logicalBytes ∧ d.length % d.tokenCount = 0 ∧
      (∀ bytes ∈ bytesPerToken, bytes = d.length / d.tokenCount) ∧
      Tiled logicalBytes d.requestId (d.offset + d.length) (some (d.length / d.tokenCount)) ds

variable {limits}

theorem readDescriptors_eq_ok :
    readDescriptors limits logicalBytes table count ordinal previous offset bytesPerToken = .ok ds ↔
      ds = (List.range' ordinal count).map (fun i => Descriptor.unpack
        (slice table (i * descriptorBytes) descriptorBytes)) ∧
      Tiled limits logicalBytes previous offset bytesPerToken ds := by
  induction count generalizing ordinal previous offset bytesPerToken ds with
  | zero =>
    rw [readDescriptors]
    split
    next gap =>
      constructor
      · rintro ⟨⟩
      · rintro ⟨rfl, tiled⟩
        exact absurd tiled gap
    next closed =>
      constructor
      · rintro ⟨⟩
        exact ⟨rfl, not_not.mp closed⟩
      · rintro ⟨rfl, -⟩
        rfl
  | succ count ih =>
    simp only [readDescriptors, throw_bind, raise_eq_ok, bind_eq_ok, checkedAdd_eq_ok,
      ih, List.range'_succ, List.map_cons]
    constructor
    · rintro ⟨id, tokens, len, finish, ⟨small, rfl⟩, start, inside, divides, agree, rest,
        ⟨rfl, tiled⟩, done⟩
      rw [← Except.ok.inj done]
      refine ⟨rfl, ⟨?_, by omega, by omega, small, by omega, by omega, by omega, ?_, tiled⟩⟩
      · constructor
        · exact fun zero => id (.inl zero)
        · exact Int.not_le.mp fun le => id (.inr le)
      intro bytes some
      rw [Option.mem_def.mp some] at agree
      simpa using agree
    · rintro ⟨rfl, ⟨id, tokens, len, small, start, inside, divides, agree, tiled⟩⟩
      refine ⟨?_, by omega, by omega, _, ⟨small, rfl⟩, by omega, by omega, by omega, ?_, _,
        ⟨rfl, tiled⟩, rfl⟩
      · rintro (zero | le)
        · exact id.1 zero
        · exact absurd id.2 (Int.not_lt.mpr le)
      cases bytesPerToken with
      | none => simp
      | some bytes => simpa using agree bytes rfl

theorem unpack_rows (fits : ∀ d ∈ ds, d.Fits) :
    (List.range' 0 ds.length).map (fun i => Descriptor.unpack
      (slice (ds.flatMap Descriptor.pack) (i * descriptorBytes) descriptorBytes)) = ds := by
  apply List.ext_getElem (by simp)
  intro i _ h
  have row := slice_flatMap (fun d (_ : d ∈ ds) => d.length_pack) [] h
  rw [List.append_nil] at row
  rw [List.getElem_map, List.getElem_range', Nat.zero_add, Nat.one_mul, row,
    Descriptor.unpack_pack (fits _ (List.getElem_mem h))]

theorem pack_rows (len : table.length = count * descriptorBytes) :
    ((List.range' 0 count).map fun i => Descriptor.unpack
      (slice table (i * descriptorBytes) descriptorBytes)).flatMap Descriptor.pack = table := by
  rw [List.flatMap_map, ← List.range_eq_range']
  conv_rhs => rw [← flatMap_slice len]
  apply List.flatMap_congr
  intro i mem
  apply Descriptor.pack_unpack
  apply length_slice
  have := Nat.mul_le_mul_right descriptorBytes (Nat.succ_le_of_lt (List.mem_range.mp mem))
  rw [Nat.succ_mul] at this
  omega

theorem slabBytes_cons (leaf : PackedTreeLeaf) (leaves : List PackedTreeLeaf) :
    slabBytes (leaf :: leaves) = leaf.slab.length + slabBytes leaves := List.sum_cons

theorem maxLogicalBytes_small (limits : PackedTreeWaveLimits) : limits.maxLogicalBytes ≤ 2 ^ 28 :=
  limits.logical_le

theorem describe_eq_layout (h : describe limits leaves offset = .ok ds) :
    ds = layout leaves offset := by
  induction leaves generalizing offset ds with
  | nil => exact (Except.ok.inj h).symm
  | cons leaf leaves ih =>
    simp only [describe, bind_eq_ok, checkedAdd_eq_ok, throw_bind, raise_eq_ok] at h
    obtain ⟨finish, ⟨-, rfl⟩, -, rest, described, done⟩ := h
    rw [← Except.ok.inj done, ih described]
    rfl

theorem describe_layout (room : offset + slabBytes leaves ≤ limits.maxLogicalBytes) :
    describe limits leaves offset = .ok (layout leaves offset) := by
  induction leaves generalizing offset with
  | nil => rfl
  | cons leaf leaves ih =>
    have small := maxLogicalBytes_small limits
    rw [slabBytes_cons] at room
    simp only [describe, bind_eq_ok, checkedAdd_eq_ok, throw_bind, raise_eq_ok]
    exact ⟨_, ⟨by omega, rfl⟩, by omega, _, ih (by omega), rfl⟩

theorem length_layout : (layout leaves offset).length = leaves.length := by
  induction leaves generalizing offset with
  | nil => rfl
  | cons leaf leaves ih => simp [layout, ih]

theorem layout_fits (each : ∀ leaf ∈ leaves, LeafOk limits leaf)
    (room : offset + slabBytes leaves ≤ limits.maxLogicalBytes) :
    ∀ d ∈ layout leaves offset, d.Fits := by
  induction leaves generalizing offset with
  | nil => simp [layout]
  | cons leaf leaves ih =>
    have small := maxLogicalBytes_small limits
    have tokens := limits.tokens_le
    rw [maxPackedTokenCount] at tokens
    rw [slabBytes_cons] at room
    have ok := each leaf List.mem_cons_self
    have count : leaf.tokenCount < 2 ^ 32 := by have := ok.tokenCount.2; omega
    have start : offset < 2 ^ 32 := by omega
    have size : leaf.slab.length < 2 ^ 32 := by omega
    intro d mem
    rcases List.mem_cons.mp mem with rfl | mem
    · exact ⟨ok.requestId.2, ok.step, count, start, size⟩
    · exact ih (fun leaf mem => each leaf (List.mem_cons_of_mem _ mem)) (by omega) d mem

theorem layout_tiled {previous : Int} (each : ∀ leaf ∈ leaves, LeafOk limits leaf)
    (sorted : leaves.Pairwise (·.requestId < ·.requestId))
    (above : ∀ leaf ∈ leaves, previous < leaf.requestId)
    (uniform : ∀ a ∈ leaves, ∀ b ∈ leaves, a.bytesPerToken = b.bytesPerToken)
    (agree : ∀ bytes ∈ bytesPerToken, ∀ leaf ∈ leaves, bytes = leaf.bytesPerToken)
    (room : offset + slabBytes leaves ≤ limits.maxLogicalBytes) :
    Tiled limits (offset + slabBytes leaves) previous offset bytesPerToken
    (layout leaves offset) := by
  induction leaves generalizing offset previous bytesPerToken with
  | nil => rfl
  | cons leaf leaves ih =>
    have small := maxLogicalBytes_small limits
    have ok := each leaf List.mem_cons_self
    have id := ok.requestId
    obtain ⟨first, sorted⟩ := List.pairwise_cons.mp sorted
    rw [slabBytes_cons] at room ⊢
    have rest : Tiled limits (offset + leaf.slab.length + slabBytes leaves) leaf.requestId
        (offset + leaf.slab.length) (some leaf.bytesPerToken)
        (layout leaves (offset + leaf.slab.length)) := ih
      (fun leaf mem => each leaf (List.mem_cons_of_mem _ mem)) sorted
      (fun leaf mem => Int.ofNat_lt.mpr (first leaf mem))
      (fun a ha b hb => uniform a (List.mem_cons_of_mem _ ha) b (List.mem_cons_of_mem _ hb))
      (fun bytes some other mem => by
        obtain rfl := Option.some.inj some
        exact uniform leaf List.mem_cons_self other (List.mem_cons_of_mem _ mem)) (by omega)
    rw [Nat.add_assoc] at rest
    exact ⟨⟨by change leaf.requestId ≠ 0; omega, above leaf List.mem_cons_self⟩, ok.tokenCount,
      ok.slab, by change offset + leaf.slab.length ≤ 2 ^ 32 - 1; omega, rfl,
      by change offset + leaf.slab.length ≤ _; omega, ok.divides,
      fun bytes some => agree bytes some leaf List.mem_cons_self, rest⟩

def Descriptor.leaf (arena : List UInt8) (d : Descriptor) : PackedTreeLeaf :=
  ⟨d.requestId, d.step, d.tokenCount, slice arena d.offset d.length⟩

theorem layout_leaves (before : List UInt8) (behind : before.length = offset) :
    (layout leaves offset).map (Descriptor.leaf (before ++ leaves.flatMap PackedTreeLeaf.slab)) =
    leaves := by
  induction leaves generalizing offset before with
  | nil => rfl
  | cons leaf leaves ih =>
    have length : (before ++ leaf.slab).length = offset + leaf.slab.length := by
      rw [List.length_append, behind]
    have rest := ih (before ++ leaf.slab) length
    rw [List.append_assoc] at rest
    rw [layout, List.map_cons, List.flatMap_cons, rest, Descriptor.leaf]
    simp only [slice_skip behind.le, behind, Nat.sub_self, slice_here]

section Tiled

variable (tiled : Tiled limits logicalBytes previous offset bytesPerToken ds)

include tiled

theorem Tiled.layout (full : arena.length = logicalBytes) :
    layout (ds.map (Descriptor.leaf arena)) offset = ds := by
  induction ds generalizing previous offset bytesPerToken with
  | nil => rfl
  | cons d ds ih =>
    obtain ⟨-, -, -, -, rfl, inside, -, -, tiled⟩ := tiled
    have size : (slice arena d.offset d.length).length = d.length := length_slice (by omega)
    rw [List.map_cons, TreeWave.layout, Descriptor.leaf, size, ih tiled]

theorem Tiled.cover (full : arena.length = logicalBytes) :
    (ds.map (Descriptor.leaf arena)).flatMap PackedTreeLeaf.slab = arena.drop offset := by
  induction ds generalizing previous offset bytesPerToken with
  | nil =>
    have closed : offset = logicalBytes := tiled
    rw [List.drop_of_length_le (by omega)]
    rfl
  | cons d ds ih =>
    obtain ⟨-, -, -, -, rfl, inside, -, -, tiled⟩ := tiled
    rw [List.map_cons, List.flatMap_cons, ih tiled, Descriptor.leaf, slice, ← List.drop_drop,
      List.take_append_drop]

theorem Tiled.sorted : (ds.map (Descriptor.leaf arena)).Pairwise (·.requestId < ·.requestId) ∧
    ∀ d ∈ ds, previous < d.requestId := by
  induction ds generalizing previous offset bytesPerToken with
  | nil => simp
  | cons d ds ih =>
    obtain ⟨id, -, -, -, -, -, -, -, tiled⟩ := tiled
    obtain ⟨sorted, above⟩ := ih tiled
    refine ⟨List.pairwise_cons.mpr ⟨fun leaf mem => ?_, sorted⟩, fun d' mem => ?_⟩
    · obtain ⟨d', listed, rfl⟩ := List.mem_map.mp mem
      exact Int.ofNat_lt.mp (above d' listed)
    rcases List.mem_cons.mp mem with rfl | mem
    · exact id.2
    · exact id.2.trans (above d' mem)

theorem Tiled.disjoint : ds.Pairwise (fun d d' => d.offset + d.length ≤ d'.offset) ∧
    ∀ d ∈ ds, offset ≤ d.offset := by
  induction ds generalizing previous offset bytesPerToken with
  | nil => simp
  | cons d ds ih =>
    obtain ⟨-, -, -, -, rfl, -, -, -, tiled⟩ := tiled
    obtain ⟨disjoint, behind⟩ := ih tiled
    refine ⟨List.pairwise_cons.mpr ⟨behind, disjoint⟩, fun d' mem => ?_⟩
    rcases List.mem_cons.mp mem with rfl | mem
    · exact le_rfl
    · have := behind d' mem
      omega

theorem Tiled.contiguous (cut : ds = before ++ d :: behind) :
    d.offset = offset + (before.map (·.length)).sum := by
  induction ds generalizing previous offset bytesPerToken before with
  | nil => simp at cut
  | cons first ds ih =>
    obtain ⟨-, -, -, -, rfl, -, -, -, tiled⟩ := tiled
    cases before with
    | nil => rw [← (List.cons.inj cut).1, List.map_nil, List.sum_nil, Nat.add_zero]
    | cons d' before =>
      obtain ⟨rfl, rest⟩ := List.cons.inj cut
      rw [ih tiled rest, List.map_cons, List.sum_cons, Nat.add_assoc]

theorem Tiled.inside : ∀ d ∈ ds, d.offset + d.length ≤ logicalBytes ∧
    d.length % d.tokenCount = 0 := by
  induction ds generalizing previous offset bytesPerToken with
  | nil => simp
  | cons d ds ih =>
    obtain ⟨-, -, -, -, -, inside, divides, -, tiled⟩ := tiled
    exact List.forall_mem_cons.mpr ⟨⟨inside, divides⟩, ih tiled⟩

theorem Tiled.each (full : arena.length = logicalBytes) (fits : ∀ d ∈ ds, d.Fits) :
    ∀ leaf ∈ ds.map (Descriptor.leaf arena), LeafOk limits leaf := by
  induction ds generalizing previous offset bytesPerToken with
  | nil => simp
  | cons d ds ih =>
    obtain ⟨id, tokens, len, -, -, inside, divides, -, tiled⟩ := tiled
    have fit := fits d List.mem_cons_self
    have size : (slice arena d.offset d.length).length = d.length := length_slice (by omega)
    intro leaf mem
    rcases List.mem_cons.mp mem with rfl | mem
    · refine ⟨⟨Nat.pos_of_ne_zero id.1, fit.requestId⟩, fit.step, tokens, ?_, ?_⟩
      · rw [Descriptor.leaf, size]
        exact len
      · rw [Descriptor.leaf, size]
        exact divides
    · exact ih tiled (fun d mem => fits d (List.mem_cons_of_mem _ mem)) leaf mem

theorem Tiled.uniform (full : arena.length = logicalBytes) : ∃ bytes,
    (∀ b ∈ bytesPerToken, b = bytes) ∧
      ∀ leaf ∈ ds.map (Descriptor.leaf arena), leaf.bytesPerToken = bytes := by
  induction ds generalizing previous offset bytesPerToken with
  | nil => exact ⟨bytesPerToken.getD 0, by rintro b rfl; rfl, by simp⟩
  | cons d ds ih =>
    obtain ⟨-, -, -, -, -, inside, -, agree, tiled⟩ := tiled
    have size : (slice arena d.offset d.length).length = d.length := length_slice (by omega)
    obtain ⟨bytes, same, rest⟩ := ih tiled
    obtain rfl := same _ rfl
    refine ⟨_, agree, fun leaf mem => ?_⟩
    rcases List.mem_cons.mp mem with rfl | mem
    · rw [Descriptor.leaf, PackedTreeLeaf.bytesPerToken, size]
    · exact rest leaf mem

end Tiled

end Descriptors

end Mycellios.TreeWave
