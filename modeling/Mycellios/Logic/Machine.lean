import Mathlib.Tactic.Basic

universe u v w

namespace Mycellios.Logic

variable {σ : Type u} {ι : Type v} {ω : Type w}

structure Transition (σ : Type u) (ι : Type v) (ω : Type w) where
  pre : σ
  input : ι
  output : ω
  post : σ

variable (step : σ → ι → σ × ω)

def final (s : σ) : List ι → σ
  | [] => s
  | i :: is => final (step s i).1 is

def trace (s : σ) : List ι → List (Transition σ ι ω)
  | [] => []
  | i :: is => ⟨s, i, (step s i).2, (step s i).1⟩ :: trace (step s i).1 is

@[simp] theorem final_nil (s : σ) : final step s [] = s := rfl

@[simp] theorem final_cons (s : σ) (i : ι) (is : List ι) :
    final step s (i :: is) = final step (step s i).1 is := rfl

theorem final_append (s : σ) (is js : List ι) :
    final step s (is ++ js) = final step (final step s is) js := by
  induction is generalizing s with
  | nil => rfl
  | cons i is ih => exact ih _

theorem trace_append (s : σ) (is js : List ι) :
    trace step s (is ++ js) = trace step s is ++ trace step (final step s is) js := by
  induction is generalizing s with
  | nil => rfl
  | cons i is ih => simp [trace, ih]

@[simp] theorem trace_map_input (s : σ) (is : List ι) :
    (trace step s is).map Transition.input = is := by
  induction is generalizing s with
  | nil => rfl
  | cons i is ih => simp [trace, ih]

variable {step}

theorem final_invariant {P : σ → Prop} (hstep : ∀ s i, P s → P (step s i).1)
    (hs : P s) (is : List ι) : P (final step s is) := by
  induction is generalizing s with
  | nil => exact hs
  | cons i is ih => exact ih (hstep s i hs)

theorem trace_invariant {P : List (Transition σ ι ω) → σ → Prop}
    (hstep : ∀ h s i, P h s → P (h ++ [⟨s, i, (step s i).2, (step s i).1⟩]) (step s i).1)
    (hs : P h s) (is : List ι) : P (h ++ trace step s is) (final step s is) := by
  induction is generalizing h s with
  | nil => simpa [trace] using hs
  | cons i is ih => simpa [trace] using ih (hstep h s i hs)

theorem mem_trace (h : t ∈ trace step s is) :
    ∃ js ks, is = js ++ t.input :: ks ∧ t.pre = final step s js ∧
      t.output = (step t.pre t.input).2 ∧ t.post = (step t.pre t.input).1 := by
  induction is generalizing s with
  | nil => simp [trace] at h
  | cons i is ih =>
    rcases List.mem_cons.mp h with rfl | h
    · exact ⟨[], is, rfl, rfl, rfl, rfl⟩
    · obtain ⟨js, ks, hk, hpre, hout, hpost⟩ := ih h
      exact ⟨i :: js, ks, by rw [hk]; rfl, hpre, hout, hpost⟩

section Conditional

variable {P : σ → Prop} {C : σ → ι → Prop} (hstep : ∀ s i, C s i → P s → P (step s i).1)
include hstep

/-- An invariant of the steps that meet a condition holds after every run of such steps. -/
theorem final_invariant_of (hs : P s) (h : ∀ t ∈ trace step s is, C t.pre t.input) :
    P (final step s is) := by
  induction is generalizing s with
  | nil => exact hs
  | cons i is ih =>
    obtain ⟨here, later⟩ := List.forall_mem_cons.mp h
    exact ih (hstep s i here hs) later

/-- In such a run every transition is one step from a state that meets the invariant. -/
theorem mem_trace_of (hs : P s) (h : ∀ t ∈ trace step s is, C t.pre t.input)
    (mem : t ∈ trace step s is) : P t.pre ∧ t.output = (step t.pre t.input).2 ∧
    t.post = (step t.pre t.input).1 := by
  induction is generalizing s with
  | nil => exact absurd mem List.not_mem_nil
  | cons i is ih =>
    obtain ⟨here, later⟩ := List.forall_mem_cons.mp h
    rcases List.mem_cons.mp mem with rfl | mem
    · exact ⟨hs, rfl, rfl⟩
    · exact ih (hstep s i here hs) later mem

end Conditional

section AtMostOnce

variable {P S : σ → Prop} {event : Transition σ ι ω → Bool}
  (hP : ∀ s i, P s → P (step s i).1) (hS : ∀ s i, P s → S s → S (step s i).1)
  (hevent : ∀ s i, P s → event ⟨s, i, (step s i).2, (step s i).1⟩ = true → ¬S s ∧ S (step s i).1)
include hP hS hevent

theorem trace_countP_eq_zero (hs : P s) (spent : S s) (is : List ι) :
    (trace step s is).countP event = 0 := by
  induction is generalizing s with
  | nil => rfl
  | cons i is ih =>
    have hno : event ⟨s, i, (step s i).2, (step s i).1⟩ ≠ true := fun h => (hevent s i hs h).1 spent
    rw [trace, List.countP_cons_of_neg hno]
    exact ih (hP s i hs) (hS s i hs spent)

/-- An event that needs an unspent state and spends it happens at most once. -/
theorem trace_countP_le_one (hs : P s) (is : List ι) : (trace step s is).countP event ≤ 1 := by
  induction is generalizing s with
  | nil => exact Nat.zero_le 1
  | cons i is ih =>
    by_cases h : event ⟨s, i, (step s i).2, (step s i).1⟩ = true
    · have hrest := trace_countP_eq_zero hP hS hevent (hP s i hs) (hevent s i hs h).2 is
      simp [trace, h, hrest]
    · rw [trace, List.countP_cons_of_neg h]
      exact ih (hP s i hs)

end AtMostOnce

end Mycellios.Logic
