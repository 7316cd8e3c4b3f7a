import Mycellios.Logic.Machine

universe u v w

namespace Mycellios.Logic

variable {ε : Type u} {σ : Type v} {α : Type w}

def commit (f : σ → Except ε (α × σ)) (s : σ) : σ × Except ε α :=
  match f s with
  | .ok (a, t) => (t, .ok a)
  | .error e => (s, .error e)

/-- What holds before a call and after a call that commits holds after every call. -/
theorem commit_invariant {P : σ → Prop} {f : σ → Except ε (α × σ)} (before : P s)
    (commits : ∀ a t, f s = .ok (a, t) → P t) : P (commit f s).1 := by
  unfold commit
  cases result : f s with
  | error e => exact before
  | ok done => exact commits done.1 done.2 result

end Mycellios.Logic
