import Mathlib.Data.List.Nodup
import Mathlib.Logic.Function.Basic
import Mathlib.Tactic.Common

/-! Ideal authenticated encryption: only what was sealed can be unsealed. -/

universe u v

namespace Mycellios.Crypto

open List

abbrev Bytes := List UInt8

section Ciphers

variable {Key : Type u}

/-- What a plaintext becomes under a key, a nonce and data that is authenticated with it. -/
structure Cipher (Key : Type u) where
  encrypt : Key → Bytes → Bytes → Bytes → Bytes
  overhead : Nat
  length_encrypt : ∀ key nonce aad plaintext, (encrypt key nonce aad plaintext).length =
    plaintext.length + overhead

structure Sealed (Key : Type u) where
  key : Key
  (nonce aad plaintext : Bytes)

variable [DecidableEq Key] (cipher : Cipher Key) (log : List (Sealed Key))

def Cipher.decrypt (key : Key) (nonce aad body : Bytes) : Option Bytes :=
  (log.find? fun m => m.key = key ∧ m.nonce = nonce ∧ m.aad = aad ∧
    cipher.encrypt key nonce aad m.plaintext = body).map Sealed.plaintext

theorem Cipher.decrypt_eq_some (h : cipher.decrypt log key nonce aad body = some plaintext) :
    ⟨key, nonce, aad, plaintext⟩ ∈ log ∧ cipher.encrypt key nonce aad plaintext = body := by
  obtain ⟨m, found, rfl⟩ := Option.map_eq_some_iff.mp h
  have matched := find?_some found
  simp only [decide_eq_true_eq] at matched
  obtain ⟨rfl, rfl, rfl, sealed⟩ := matched
  exact ⟨mem_of_find?_eq_some found, sealed⟩

end Ciphers

section Numbered

variable {Key : Type u} {ι : Type v}

structure Numbering where
  nonce : Nat → Bytes
  bound : Nat
  injective : ∀ m n, m < bound → n < bound → nonce m = nonce n → m = n

/-- What each party has sealed, under its key and its number. -/
structure Numbered (key : ι → Key) (numbering : Numbering) (log : List (Sealed Key))
    (parts : ι → List (Bytes × Bytes)) : Prop where
  bounded : ∀ i, (parts i).length ≤ numbering.bound
  entries : ∀ m ∈ log, ∃ i n part, (parts i)[n]? = some part ∧
    m = ⟨key i, numbering.nonce n, part.1, part.2⟩
  unique : (log.map fun m => (m.key, m.nonce)).Nodup

variable {key : ι → Key} {numbering : Numbering} {log : List (Sealed Key)}
  {parts : ι → List (Bytes × Bytes)}

theorem numbered_nil : Numbered key numbering [] fun _ => [] :=
  ⟨fun _ => Nat.zero_le _, fun _ => (absurd · not_mem_nil), nodup_nil⟩

theorem Numbered.encrypt [DecidableEq ι] (h : Numbered key numbering log parts)
    (injective : Function.Injective key) (i : ι) (part : Bytes × Bytes)
    (room : (parts i).length < numbering.bound) :
    Numbered key numbering (log ++ [⟨key i, numbering.nonce (parts i).length, part.1, part.2⟩])
      (Function.update parts i (parts i ++ [part])) where
  bounded j := by
    by_cases same : j = i
    · subst same
      rw [Function.update_self, length_append]
      exact room
    · rw [Function.update_of_ne same]
      exact h.bounded j
  entries m mem := by
    rcases mem_append.mp mem with mem | mem
    · obtain ⟨j, n, old, there, rfl⟩ := h.entries m mem
      refine ⟨j, n, old, ?_, rfl⟩
      by_cases same : j = i
      · subst same
        rw [Function.update_self, List.getElem?_append_left (List.getElem?_eq_some_iff.mp there).1]
        exact there
      · rw [Function.update_of_ne same]
        exact there
    · rw [mem_singleton.mp mem]
      exact ⟨i, (parts i).length, part, by simp, rfl⟩
  unique := by
    rw [map_append, map_singleton]
    refine nodup_append.mpr ⟨h.unique, nodup_singleton _, fun used mem used' mem' => ?_⟩
    obtain ⟨m, listed, rfl⟩ := mem_map.mp mem
    obtain ⟨j, n, old, there, rfl⟩ := h.entries m listed
    rw [mem_singleton.mp mem']
    intro same
    obtain ⟨sameKey, sameNonce⟩ := Prod.mk.inj same
    obtain rfl := injective sameKey
    have earlier := (List.getElem?_eq_some_iff.mp there).1
    have number := numbering.injective n _ (by omega) room sameNonce
    omega

theorem Numbered.decrypt [DecidableEq Key] (h : Numbered key numbering log parts)
    (injective : Function.Injective key) {cipher : Cipher Key} (small : n < numbering.bound)
    (opened : cipher.decrypt log (key i) (numbering.nonce n) aad body = some plaintext) :
    (parts i)[n]? = some (aad, plaintext) ∧
    cipher.encrypt (key i) (numbering.nonce n) aad plaintext = body := by
  obtain ⟨mem, sealed⟩ := cipher.decrypt_eq_some log opened
  refine ⟨?_, sealed⟩
  obtain ⟨j, m, part, there, same⟩ := h.entries _ mem
  simp only [Sealed.mk.injEq] at same
  obtain ⟨sameKey, sameNonce, rfl, rfl⟩ := same
  obtain rfl := injective sameKey
  have bound := h.bounded i
  have earlier := (List.getElem?_eq_some_iff.mp there).1
  rw [numbering.injective n m small (by omega) sameNonce]
  exact there

end Numbered

end Mycellios.Crypto
