import Mathlib.Tactic.Basic

universe u v

namespace Mycellios.Logic

variable {σ : Type u} {ε : Type v}

/-- A run of moves, with the events it caused from first to last. -/
inductive Run (Move : σ → List ε → σ → Prop) : σ → List ε → σ → Prop
  | refl (s : σ) : Run Move s [] s
  | tail {s t u : σ} {h es : List ε} (run : Run Move s h t) (move : Move t es u) :
    Run Move s (h ++ es) u

variable {Move : σ → List ε → σ → Prop} {s t u : σ} {h k : List ε}

theorem Run.single (move : Move s k t) : Run Move s k t := (Run.refl s).tail move

theorem Run.trans (first : Run Move s h t) (second : Run Move t k u) : Run Move s (h ++ k) u := by
  induction second with
  | refl => rwa [List.append_nil]
  | tail run move ih =>
    rw [← List.append_assoc]
    exact ih.tail move

theorem Run.then_silent (first : Run Move s h t) (second : Run Move t [] u) : Run Move s h u := by
  have := first.trans second
  rwa [List.append_nil] at this

variable {I : σ → Prop} (hI : ∀ ⦃s es t⦄, Move s es t → I s → I t)
include hI

theorem Run.invariant (run : Run Move s h t) (hs : I s) : I t := by
  induction run with
  | refl => exact hs
  | tail _ move ih => exact hI move ih

/-- The induction rule for what relates the events of a run to its state. -/
theorem Run.history {P : List ε → σ → Prop} (hP : ∀ ⦃h s es t⦄, Move s es t → I s → P h s →
    P (h ++ es) t) (run : Run Move s h t) (hs : I s) (start : P [] s) : P h t := by
  induction run with
  | refl => exact start
  | tail run move ih => exact hP move (run.invariant hI hs) ih

/-- A fact that only an event can bring about has this event in its past. -/
theorem Run.origin {F : σ → Prop} (hF : ∀ ⦃s es t⦄, Move s es t → I s → F t → F s ∨ e ∈ es)
    (run : Run Move s h t) (hs : I s) (start : ¬F s) (fact : F t) : e ∈ h := by
  apply Run.history hI (P := fun h t => F t → e ∈ h) _ run hs (fun f => (start f).elim) fact
  intro h s es t move inv past now
  rcases hF move inv now with before | here
  · exact List.mem_append_left _ (past before)
  · exact List.mem_append_right _ here

/-- Events that need an unspent state and spend it do not repeat. -/
theorem Run.nodup {S : ε → σ → Prop} (stable : ∀ ⦃e s es t⦄, Move s es t → I s → S e s → S e t)
    (spends : ∀ ⦃s es t⦄, Move s es t → I s → es.Nodup ∧ ∀ e ∈ es, ¬S e s ∧ S e t)
    (run : Run Move s h t) (hs : I s) : h.Nodup ∧ ∀ e ∈ h, S e t := by
  apply Run.history hI (P := fun h t => h.Nodup ∧ ∀ e ∈ h, S e t) _ run hs
    ⟨List.nodup_nil, fun e he => absurd he List.not_mem_nil⟩
  rintro h s es t move inv ⟨distinct, spent⟩
  obtain ⟨fresh, new⟩ := spends move inv
  refine ⟨List.nodup_append.mpr ⟨distinct, fresh, ?_⟩, ?_⟩
  · rintro e old _ now rfl
    exact (new e now).1 (spent e old)
  intro e he
  rcases List.mem_append.mp he with old | now
  · exact stable move inv (spent e old)
  · exact (new e now).2

omit hI

theorem Run.split (run : Run Move s h t) (hh : h = pre ++ e :: post) :
    ∃ h₁ u before behind v h₂, Run Move s h₁ u ∧ Move u (before ++ e :: behind) v ∧
      Run Move v h₂ t ∧ pre = h₁ ++ before := by
  induction run generalizing pre post with
  | refl => simp at hh
  | @tail t u h es run move ih =>
    rcases List.append_eq_append_iff.mp hh with ⟨rest, hpre, hes⟩ | ⟨rest, hpast, hrest⟩
    · exact ⟨h, t, rest, post, u, [], run, hes ▸ move, Run.refl u, hpre⟩
    cases rest with
    | nil =>
      rw [List.append_nil] at hpast
      exact ⟨h, t, [], post, u, [], run, hrest ▸ move, Run.refl u, by simp [hpast]⟩
    | cons e' rest =>
      obtain ⟨rfl, -⟩ := List.cons.inj hrest
      obtain ⟨h₁, x, before, behind, y, h₂, first, here, second, hp⟩ := ih hpast
      exact ⟨h₁, x, before, behind, y, h₂ ++ es, first, here, second.tail move, hp⟩

end Mycellios.Logic
