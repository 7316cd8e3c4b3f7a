import Mathlib.Data.List.Forall2

universe u v

namespace Mycellios.Data

variable {α : Type u} {β : Type v} {R : α → β → Prop} {xs : List α} {ys : List β}

theorem forall₂_getElem? (h : List.Forall₂ R xs ys) {i : Nat} (found : xs[i]? = some x) :
    ∃ y, ys[i]? = some y ∧ R x y := by
  induction h generalizing i with
  | nil => cases found
  | @cons x' y' _ _ here _ ih =>
    cases i with
    | zero =>
      obtain rfl := Option.some.inj found
      exact ⟨y', rfl, here⟩
    | succ i => exact ih found

theorem forall₂_of_mem (h : List.Forall₂ R xs ys) {x : α} (mem : x ∈ xs) : ∃ y ∈ ys, R x y := by
  obtain ⟨i, found⟩ := List.mem_iff_getElem?.mp mem
  obtain ⟨y, there, related⟩ := forall₂_getElem? h found
  exact ⟨y, List.mem_of_getElem? there, related⟩

section InOrder

variable {es es' as : List α} {a : α}

/-- `as` reads entries of `es` forwards, each of them any number of times. -/
def InOrder (es as : List α) : Prop :=
  ∃ ps : List Nat, ps.Pairwise (· ≤ ·) ∧ List.Forall₂ (fun p a => es[p]? = some a) ps as

theorem InOrder.nil (es : List α) : InOrder es [] := ⟨[], .nil, .nil⟩

theorem InOrder.append (h : InOrder es as) (es' : List α) : InOrder (es ++ es') as := by
  obtain ⟨ps, sorted, reads⟩ := h
  refine ⟨ps, sorted, reads.imp fun p a read => ?_⟩
  rw [List.getElem?_append_left (List.getElem?_eq_some_iff.mp read).1]
  exact read

theorem InOrder.read_last (h : InOrder es as) (last : es.getLast? = some a) :
    InOrder es (as ++ [a]) := by
  obtain ⟨ps, sorted, reads⟩ := h
  refine ⟨ps ++ [es.length - 1], ?_, List.rel_append reads (.cons ?_ .nil)⟩
  · refine List.pairwise_append.mpr ⟨sorted, List.pairwise_singleton _ _, fun p mem j here => ?_⟩
    obtain ⟨_, _, read⟩ := forall₂_of_mem reads mem
    have bound := (List.getElem?_eq_some_iff.mp read).1
    rw [List.mem_singleton.mp here]
    omega
  · rw [← List.getLast?_eq_getElem?]
    exact last

end InOrder

end Mycellios.Data
