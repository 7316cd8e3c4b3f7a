import Mathlib

namespace Mycellios.Data

def packWord (size value : Nat) : List UInt8 :=
  (List.range size).map fun i => UInt8.ofNat (value / 256 ^ i)

def unpackWord : List UInt8 → Nat
  | [] => 0
  | byte :: bytes => byte.toNat + 256 * unpackWord bytes

/-- A function with digests of the size of SHA-256. -/
abbrev Sha256 := List UInt8 → Vector UInt8 32

def ascii (text : String) : List UInt8 := text.toList.map fun c => UInt8.ofNat c.toNat

def slice (bytes : List UInt8) (offset size : Nat) : List UInt8 := (bytes.drop offset).take size

@[simp] theorem length_packWord (size value : Nat) : (packWord size value).length = size := by
  simp [packWord]

theorem packWord_succ (size value : Nat) :
    packWord (size + 1) value = UInt8.ofNat value :: packWord size (value / 256) := by
  simp only [packWord, List.range_succ_eq_map, List.map_cons, List.map_map, pow_zero, Nat.div_one]
  congr 1
  apply List.map_congr_left
  intro i _
  simp only [Function.comp_apply, Nat.succ_eq_add_one, pow_succ', Nat.div_div_eq_div_mul]

theorem unpackWord_packWord (size value : Nat) :
    unpackWord (packWord size value) = value % 256 ^ size := by
  induction size generalizing value with
  | zero => simp [packWord, unpackWord, Nat.mod_one]
  | succ size ih =>
    have low : (UInt8.ofNat value).toNat = value % 256 := UInt8.toNat_ofNat'
    have split : value % 256 ^ (size + 1) = value % 256 + 256 * (value / 256 % 256 ^ size) := by
      rw [pow_succ', Nat.mod_mul]
    rw [packWord_succ, unpackWord, ih, low, split]

theorem unpackWord_packWord_of_lt (h : value < 256 ^ size) :
    unpackWord (packWord size value) = value := by
  rw [unpackWord_packWord, Nat.mod_eq_of_lt h]

theorem unpackWord_lt (bytes : List UInt8) : unpackWord bytes < 256 ^ bytes.length := by
  induction bytes with
  | nil => simp [unpackWord]
  | cons byte bytes ih =>
    have small := byte.toNat_lt
    rw [unpackWord, List.length_cons, pow_succ']
    omega

theorem packWord_unpackWord (bytes : List UInt8) :
    packWord bytes.length (unpackWord bytes) = bytes := by
  induction bytes with
  | nil => rfl
  | cons byte bytes ih =>
    have small := byte.toNat_lt
    have high : unpackWord (byte :: bytes) / 256 = unpackWord bytes := by
      rw [unpackWord]
      omega
    have low : UInt8.ofNat (unpackWord (byte :: bytes)) = byte := by
      apply UInt8.toNat_inj.mp
      rw [UInt8.toNat_ofNat', unpackWord]
      omega
    rw [List.length_cons, packWord_succ, high, low, ih]

variable {bytes : List UInt8} {offset : Nat}

theorem slice_skip (h : before.length ≤ offset) :
    slice (before ++ behind) offset size = slice behind (offset - before.length) size := by
  rw [slice, slice, List.drop_append, List.drop_of_length_le h, List.nil_append]

theorem slice_here (h : mid.length = size) : slice (mid ++ behind) 0 size = mid := by
  rw [slice, List.drop_zero, List.take_left' h]

theorem slice_all (h : bytes.length = size) : slice bytes 0 size = bytes := by
  rw [slice, List.drop_zero, ← h, List.take_length]

theorem length_slice (h : offset + size ≤ bytes.length) :
    (slice bytes offset size).length = size := by
  rw [slice, List.length_take, List.length_drop]
  omega

theorem slice_append_slice (bytes : List UInt8) (offset m n : Nat) :
    slice bytes offset m ++ slice bytes (offset + m) n = slice bytes offset (m + n) := by
  rw [slice, slice, slice, List.take_add, List.drop_drop]

theorem packWord_unpackWord_slice (h : offset + size ≤ bytes.length) :
    packWord size (unpackWord (slice bytes offset size)) = slice bytes offset size := by
  have full := packWord_unpackWord (slice bytes offset size)
  rwa [length_slice h] at full

theorem unpackWord_slice_lt (bytes : List UInt8) (offset size : Nat) :
    unpackWord (slice bytes offset size) < 256 ^ size := by
  apply (unpackWord_lt _).trans_le
  apply Nat.pow_le_pow_right (by decide)
  rw [slice, List.length_take]
  exact Nat.min_le_left ..

section Table

variable {α : Type*} {f : α → List UInt8} {size : Nat} {rows : List α}
  (len : ∀ row ∈ rows, (f row).length = size)

include len

theorem length_flatMap : (rows.flatMap f).length = rows.length * size := by
  rw [List.length_flatMap]
  have same : rows.map (fun row => (f row).length) = rows.map fun _ => size :=
    List.map_congr_left len
  rw [same, List.map_const', List.sum_replicate, smul_eq_mul]

theorem slice_flatMap (behind : List UInt8) (h : i < rows.length) :
    slice (rows.flatMap f ++ behind) (i * size) size = f rows[i] := by
  have split : rows.flatMap f = (rows.take i).flatMap f ++
      (f rows[i] ++ (rows.drop (i + 1)).flatMap f) := by
    conv_lhs => rw [← List.take_append_drop i rows, List.drop_eq_getElem_cons h]
    rw [List.flatMap_append, List.flatMap_cons]
  have before : ((rows.take i).flatMap f).length = i * size := by
    rw [length_flatMap fun row mem => len row (List.mem_of_mem_take mem), List.length_take,
      Nat.min_eq_left h.le]
  rw [split, List.append_assoc, List.append_assoc, slice_skip before.le, before, Nat.sub_self,
    slice_here (len _ (List.getElem_mem h))]

end Table

theorem flatMap_slice (h : bytes.length = count * size) :
    (List.range count).flatMap (fun i => slice bytes (i * size) size) = bytes := by
  have beginning : ∀ n, n ≤ count →
      (List.range n).flatMap (fun i => slice bytes (i * size) size) = slice bytes 0 (n * size) := by
    intro n
    induction n with
    | zero => simp [slice]
    | succ n ih =>
      intro le
      have joined := slice_append_slice bytes 0 (n * size) size
      rw [Nat.zero_add] at joined
      rw [List.range_succ, List.flatMap_append, ih (Nat.le_of_succ_le le), List.flatMap_singleton,
        joined, Nat.succ_mul]
  rw [beginning count le_rfl, slice_all h]

end Mycellios.Data
