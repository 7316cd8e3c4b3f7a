import Mathlib

universe u v

namespace Mycellios.Data

open List

variable {α : Type u} {κ : Type v} [DecidableEq κ] (key : α → κ) (w : α → Int)

def sumAt (k : κ) (xs : List α) : Int := ((xs.filter (key · = k)).map w).sum

variable {key w} {k : κ} {xs ys : List α}

@[simp] theorem sumAt_nil : sumAt key w k [] = 0 := rfl

theorem sumAt_cons (x : α) (xs : List α) :
    sumAt key w k (x :: xs) = (if key x = k then w x else 0) + sumAt key w k xs := by
  by_cases here : key x = k
  · simp [sumAt, here]
  · simp [sumAt, here]

@[simp] theorem sumAt_append : sumAt key w k (xs ++ ys) = sumAt key w k xs + sumAt key w k ys := by
  rw [sumAt, filter_append, map_append, sum_append]
  rfl

theorem sumAt_eq_zero (none : ∀ x ∈ xs, key x ≠ k) : sumAt key w k xs = 0 := by
  rw [sumAt, filter_eq_nil_iff.mpr fun x mem => by simpa using none x mem]
  rfl

theorem sum_ite_eq {ks : List κ} (nodup : ks.Nodup) (mem : a ∈ ks) (v : Int) :
    (ks.map fun k => if a = k then v else 0).sum = v := by
  induction ks with
  | nil => cases mem
  | cons k ks ih =>
    obtain ⟨fresh, nodup⟩ := nodup_cons.mp nodup
    rw [map_cons, sum_cons]
    by_cases here : a = k
    · have rest : ∀ j ∈ ks, (if a = j then v else 0) = 0 := by
        intro j listed
        have other : a ≠ j := fun same => fresh (here ▸ same ▸ listed)
        exact if_neg other
      rw [if_pos here, map_congr_left rest]
      simp
    · rw [if_neg here, zero_add]
      exact ih nodup ((mem_cons.mp mem).resolve_left here)

theorem sum_sumAt {ks : List κ} (nodup : ks.Nodup) (all : ∀ x ∈ xs, key x ∈ ks) :
    (ks.map fun k => sumAt key w k xs).sum = (xs.map w).sum := by
  induction xs with
  | nil => simp
  | cons x xs ih =>
    obtain ⟨here, all⟩ := forall_mem_cons.mp all
    calc (ks.map fun k => sumAt key w k (x :: xs)).sum
        = (ks.map fun k => (if key x = k then w x else 0) + sumAt key w k xs).sum := by
          simp only [sumAt_cons]
      _ = w x + (xs.map w).sum := by rw [sum_map_add, sum_ite_eq nodup here, ih all]
      _ = ((x :: xs).map w).sum := by rw [map_cons, sum_cons]

theorem filter_key_eq_singleton (nodup : (xs.map key).Nodup) (mem : a ∈ xs) :
    xs.filter (key · = key a) = [a] := by
  induction xs with
  | nil => cases mem
  | cons x xs ih =>
    obtain ⟨fresh, nodup⟩ := nodup_cons.mp nodup
    rcases mem_cons.mp mem with rfl | mem
    · have none : xs.filter (key · = key a) = [] := by
        refine filter_eq_nil_iff.mpr fun y listed same => fresh ?_
        exact mem_map.mpr ⟨y, listed, of_decide_eq_true same⟩
      rw [filter_cons_of_pos (by simp), none]
    have other : key x ≠ key a := fun same => fresh (same ▸ mem_map_of_mem mem)
    rw [filter_cons_of_neg (by simpa using other)]
    exact ih nodup mem

end Mycellios.Data
