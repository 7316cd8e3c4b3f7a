import Mathlib

universe u

namespace Mycellios.Data

variable {α : Type u} (f : List α → α)

def greedy (h : List α) : Nat → List α
  | 0 => []
  | n + 1 => f h :: greedy (h ++ [f h]) n

theorem greedy_add (h : List α) (m n : Nat) :
    greedy f h (m + n) = greedy f h m ++ greedy f (h ++ greedy f h m) n := by
  induction m generalizing h with
  | zero => simp [greedy]
  | succ m ih => rw [Nat.add_right_comm, greedy, ih, greedy]; simp

theorem greedy_succ (h : List α) (n : Nat) :
    greedy f h (n + 1) = greedy f h n ++ [f (h ++ greedy f h n)] := by
  rw [greedy_add]
  rfl

theorem greedy_shift (g h : List α) (n : Nat) :
    greedy (fun us => f (g ++ us)) h n = greedy f (g ++ h) n := by
  induction n generalizing h with
  | zero => rfl
  | succ n ih => rw [greedy, ih, greedy, List.append_assoc]

end Mycellios.Data
