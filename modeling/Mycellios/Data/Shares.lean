import Mathlib

universe u

namespace Mycellios.Data

variable {α : Type u} (add : α → α)

/-- One more for the elements in front, as long as something is left. -/
def handOut : Int → List α → List α
  | _, [] => []
  | left, x :: xs => if left = 0 then x :: xs else add x :: handOut (left - 1) xs

theorem forall₂_handOut (left : Int) (xs : List α) :
    List.Forall₂ (fun x y => y = x ∨ y = add x) xs (handOut add left xs) := by
  induction xs generalizing left with
  | nil => exact .nil
  | cons x xs ih =>
    rw [handOut]
    split
    · exact .cons (.inl rfl) (List.forall₂_same.mpr fun _ _ => .inl rfl)
    · exact .cons (.inr rfl) (ih _)

variable {add}

theorem sum_handOut {value : α → Nat} (adds : ∀ x, value (add x) = value x + 1) {n : Nat}
    (enough : n ≤ xs.length) : ((handOut add n xs).map value).sum = (xs.map value).sum + n := by
  induction xs generalizing n with
  | nil =>
    obtain rfl := Nat.le_zero.mp enough
    rfl
  | cons x xs ih =>
    cases n with
    | zero => simp [handOut]
    | succ n =>
      have left : ((n + 1 : Nat) : Int) ≠ 0 := by omega
      have less : ((n + 1 : Nat) : Int) - 1 = n := by omega
      rw [handOut, if_neg left, less, List.map_cons, List.sum_cons, adds,
        ih (Nat.le_of_succ_le_succ enough), List.map_cons, List.sum_cons]
      omega

section Floors

variable (total : Nat) {weights : List Nat}

theorem sum_floor_add_rest (whole : Nat) (weights : List Nat) :
    whole * (weights.map fun w => total * w / whole).sum +
    (weights.map fun w => total * w % whole).sum =
      total * weights.sum := by
  induction weights with
  | nil => rfl
  | cons w weights ih =>
    have here := Nat.div_add_mod (total * w) whole
    simp only [List.map_cons, List.sum_cons, Nat.mul_add] at ih ⊢
    omega

theorem sum_floor_le (some : 0 < weights.sum) :
    (weights.map fun w => total * w / weights.sum).sum ≤ total := by
  have divided := sum_floor_add_rest total weights.sum weights
  refine Nat.le_of_mul_le_mul_left ?_ some
  rw [Nat.mul_comm weights.sum total]
  omega

theorem rest_lt_length (some : 0 < weights.sum) :
    total - (weights.map fun w => total * w / weights.sum).sum < weights.length := by
  have divided := sum_floor_add_rest total weights.sum weights
  have nonempty : weights ≠ [] := fun none => by simp [none] at some
  have small : (weights.map fun w => total * w % weights.sum).sum < weights.length *
      weights.sum := by
    calc (weights.map fun w => total * w % weights.sum).sum
        < (weights.map fun _ => weights.sum).sum :=
          List.sum_lt_sum_of_ne_nil nonempty _ _ fun w _ => Nat.mod_lt _ some
      _ = weights.length * weights.sum := by rw [List.map_const', List.sum_replicate, smul_eq_mul]
  have below := sum_floor_le total some
  refine Nat.lt_of_mul_lt_mul_left (a := weights.sum) ?_
  rw [Nat.mul_sub, Nat.mul_comm weights.sum weights.length, Nat.mul_comm weights.sum total]
  omega

end Floors

end Mycellios.Data
