import Mycellios.Logic.Wp
import Mycellios.Protocol.Frame

namespace Mycellios.Protocol

open Data Logic

def treePreparePayload (nonce : Nat) (pathLengths : List Nat) : Except String (List UInt8) :=
  encodeTreePrepareQuote { nonce := nonce, pathLengths := pathLengths }

theorem requireUnsigned_eq_ok :
    requireUnsigned name value maximum = .ok u ↔ value ≤ maximum := by
  rw [requireUnsigned]
  split <;> simp <;> omega

@[simp] theorem TreePrepareStatus.ofCode_code (status : TreePrepareStatus) :
    ofCode status.code = .ok status := by
  cases status <;> rfl

@[simp] theorem TreePrepareRejection.ofCode_code (rejection : TreePrepareRejection) :
    ofCode rejection.code = .ok rejection := by
  cases rejection <;> rfl

theorem TreePrepareStatus.code_lt (status : TreePrepareStatus) : status.code < 256 := by
  cases status <;> decide

theorem TreePrepareRejection.code_lt (rejection : TreePrepareRejection) : rejection.code < 256 := by
  cases rejection <;> decide

theorem checkPathLengths_le (h : checkPathLengths lengths = .ok ()) :
    ∀ length ∈ lengths, 1 ≤ length ∧ length ≤ maxTreePreparePathTokens := by
  induction lengths with
  | nil => simp
  | cons length lengths ih =>
    simp only [checkPathLengths, bind_eq_ok, requireUnsigned_eq_ok, throw_bind,
      raise_eq_ok] at h
    obtain ⟨-, bound, positive, h⟩ := h
    intro n mem
    rcases List.mem_cons.mp mem with rfl | mem
    · exact ⟨by omega, bound⟩
    · exact ih h n mem

def TreePrepareQuote.fields (quote : TreePrepareQuote) : List UInt8 :=
  packWord 8 quote.nonce ++ packWord 1 quote.status.code ++
    packWord 1 quote.rejection.code ++ packWord 2 quote.stageCount ++
    packWord 4 quote.rejectingLayerStart ++ packWord 8 quote.required ++ packWord 8 quote.limit ++
    packWord 8 quote.totalProjectedBytes

structure TreePrepareQuote.Fits (quote : TreePrepareQuote) : Prop where
  nonce : quote.nonce < 2 ^ 64
  paths : 1 ≤ quote.pathLengths.length ∧ quote.pathLengths.length ≤ maxTreePreparePaths
  lengths : ∀ length ∈ quote.pathLengths, length < 2 ^ 32
  stageCount : quote.stageCount < 2 ^ 16
  rejectingLayerStart : quote.rejectingLayerStart < 2 ^ 32
  required : quote.required < 2 ^ 64
  limit : quote.limit < 2 ^ 64
  totalProjectedBytes : quote.totalProjectedBytes < 2 ^ 64

variable {quote : TreePrepareQuote}

theorem encodeTreePrepareQuote_ok (h : encodeTreePrepareQuote quote = .ok payload) :
    quote.Fits ∧ payload = quote.fields ++ quote.pathLengths.flatMap (packWord 4) := by
  simp only [encodeTreePrepareQuote, bind_eq_ok, requireUnsigned_eq_ok, throw_bind,
    raise_eq_ok] at h
  obtain ⟨_, nonce, paths, _, lengths, _, stageCount, _, layer, _, required, _, limit, _, total,
    h⟩ := h
  have small := checkPathLengths_le lengths
  constructor
  · refine ⟨by omega, by omega, fun n mem => ?_, by omega, by omega, by omega, by omega, by omega⟩
    have bound := (small n mem).2
    rw [maxTreePreparePathTokens] at bound
    omega
  cases status : quote.status <;> simp only [status, raise_eq_ok] at h
  · rw [← Except.ok.inj h.2.2, TreePrepareQuote.fields, status]
  · rw [← Except.ok.inj h.2, TreePrepareQuote.fields, status]

theorem TreePrepareQuote.length_fields (quote : TreePrepareQuote) :
    quote.fields.length = treePreparePrefixSize := by
  simp [fields, treePreparePrefixSize]

theorem TreePrepareQuote.words_fields (fits : quote.Fits) (rest : List UInt8) :
    let word (offset size : Nat) := unpackWord (slice (quote.fields ++ rest) offset size)
    word 0 8 = quote.nonce ∧ word 8 1 = quote.status.code ∧ word 9 1 = quote.rejection.code ∧
      word 10 2 = quote.stageCount ∧ word 12 4 = quote.rejectingLayerStart ∧
      word 16 8 = quote.required ∧ word 24 8 = quote.limit ∧
      word 32 8 = quote.totalProjectedBytes := by
  have status := quote.status.code_lt
  have rejection := quote.rejection.code_lt
  obtain ⟨nonce, -, -, stageCount, layer, required, limit, total⟩ := fits
  simp only [fields, List.append_assoc]
  refine ⟨?_, ?_, ?_, ?_, ?_, ?_, ?_, ?_⟩ <;> simp [slice_skip, slice_here, unpackWord_packWord]
    <;> omega

theorem TreePrepareQuote.lengths_fields (fits : quote.Fits) :
    ((List.range quote.pathLengths.length).map fun i => unpackWord (slice
      (quote.fields ++ quote.pathLengths.flatMap (packWord 4)) (treePreparePrefixSize + 4 * i) 4)) =
      quote.pathLengths := by
  apply List.ext_getElem
  · simp
  intro i hi hlen
  have found : slice (quote.pathLengths.flatMap (packWord 4)) (i * 4) 4 =
      packWord 4 quote.pathLengths[i] := by
    simpa using slice_flatMap (fun length _ => length_packWord 4 length) [] hlen
  have skipped : slice (quote.fields ++ quote.pathLengths.flatMap (packWord 4))
      (treePreparePrefixSize + 4 * i) 4 = packWord 4 quote.pathLengths[i] := by
    rw [slice_skip (by rw [quote.length_fields]; omega), quote.length_fields,
      Nat.add_sub_cancel_left, Nat.mul_comm, found]
  rw [List.getElem_map, List.getElem_range, skipped, unpackWord_packWord_of_lt]
  have := fits.lengths _ (List.getElem_mem hlen)
  omega

theorem decodeTreePrepare_encode (h : encodeTreePrepareQuote quote = .ok frame.payload)
    (type : frame.frameType = .treePrepare ∨ frame.frameType = .treePrepareResult)
    (count : frame.tokenCount = quote.pathLengths.length) :
    decodeTreePrepare frame = .ok quote := by
  obtain ⟨fits, payload⟩ := encodeTreePrepareQuote_ok h
  have size : frame.payload.length = treePreparePrefixSize + frame.tokenCount * 4 := by
    rw [payload, List.length_append, quote.length_fields, count,
      length_flatMap fun length _ => length_packWord 4 length]
  have lengths := TreePrepareQuote.lengths_fields fits
  have paths := fits.paths
  have known : ¬(frame.frameType ≠ .treePrepare ∧ frame.frameType ≠ .treePrepareResult) := by tauto
  have counted : ¬(frame.tokenCount < 1 ∨ maxTreePreparePaths < frame.tokenCount) := by omega
  obtain ⟨nonce, status, rejection, stageCount, layer, required, limit, total⟩ :=
    TreePrepareQuote.words_fields fits (quote.pathLengths.flatMap (packWord 4))
  rw [← payload] at nonce status rejection stageCount layer required limit total lengths
  rw [← count] at lengths
  rw [decodeTreePrepare, if_neg known, if_neg counted, if_neg (by simpa using size)]
  simp only [lengths, nonce, status, rejection, stageCount, layer, required, limit, total,
    TreePrepareStatus.ofCode_code, TreePrepareRejection.ofCode_code]
  change (encodeTreePrepareQuote quote >>= fun canonical => _) = _
  rw [h]
  change (if frame.payload ≠ frame.payload then _ else _) = _
  rw [if_neg (by simp)]
  rfl

/-- The quotes that can be encoded. -/
structure TreePrepareQuote.Encodable (quote : TreePrepareQuote) : Prop extends quote.Fits where
  checked : checkPathLengths quote.pathLengths = .ok ()
  ready : quote.status = .ready →
    quote.rejection = .none ∧ quote.rejectingLayerStart = 0 ∧ quote.required = 0 ∧ quote.limit = 0
  reject : quote.status = .reject → quote.rejection ≠ .none

theorem TreePrepareQuote.encodable_iff :
    quote.Encodable ↔ ∃ payload, encodeTreePrepareQuote quote = .ok payload := by
  constructor
  · rintro ⟨⟨nonce, paths, -, stageCount, layer, required, limit, total⟩, checked, ready, reject⟩
    simp only [encodeTreePrepareQuote, bind_eq_ok, requireUnsigned_eq_ok, throw_bind, raise_eq_ok]
    cases status : quote.status with
    | ready =>
      obtain ⟨none, zero⟩ := ready status
      simp only [raise_eq_ok]
      exact ⟨_, (), by omega, by omega, (), checked, (), by omega, (), by omega, (), by omega,
        (), by omega, (), by omega, not_not.mpr none, by omega, rfl⟩
    | reject =>
      simp only [raise_eq_ok]
      exact ⟨_, (), by omega, by omega, (), checked, (), by omega, (), by omega, (), by omega,
        (), by omega, (), by omega, reject status, rfl⟩
  · rintro ⟨payload, encoded⟩
    have fits := (encodeTreePrepareQuote_ok encoded).1
    simp only [encodeTreePrepareQuote, bind_eq_ok, requireUnsigned_eq_ok, throw_bind,
      raise_eq_ok] at encoded
    obtain ⟨_, -, -, _, checked, _, -, _, -, _, -, _, -, _, -, encoded⟩ := encoded
    refine ⟨fits, checked, fun status => ?_, fun status => ?_⟩
    · simp only [status, raise_eq_ok] at encoded
      exact ⟨not_not.mp encoded.1, by omega⟩
    · simp only [status, raise_eq_ok] at encoded
      exact encoded.1

theorem encode_of_decodeTreePrepare (h : decodeTreePrepare frame = .ok quote) :
    encodeTreePrepareQuote quote = .ok frame.payload := by
  simp only [decodeTreePrepare, bind_eq_ok, throw_bind, raise_eq_ok, ne_eq, not_not] at h
  obtain ⟨-, -, -, status, -, rejection, -, canonical, encoded, same, done⟩ := h
  obtain rfl := Except.ok.inj done
  rw [encoded, same]

end Mycellios.Protocol
