import Mathlib.Data.List.Forall2
import Mathlib.Order.Defs.Unbundled
import Mathlib.Tactic.Basic

/-! Weakest preconditions for computations that read and write a state and may raise. A raise keeps
the state it was reached in. -/

universe u

namespace Mycellios.Logic

variable {σ ε α β : Type u}

def wp (m : EStateM ε σ α) (Q : α → σ → Prop) (E : ε → σ → Prop) (s : σ) : Prop :=
  match m s with
  | .ok a t => Q a t
  | .error e t => E e t

def after (m : EStateM ε σ α) (s : σ) : σ :=
  match m s with
  | .ok _ t => t
  | .error _ t => t

def answer (m : EStateM ε σ α) (s : σ) : Except ε α :=
  match m s with
  | .ok a _ => .ok a
  | .error e _ => .error e

def zoom {τ : Type u} (part : σ → τ) (put : τ → σ → σ) (m : EStateM ε τ α) : EStateM ε σ α :=
  fun s =>
    match m (part s) with
    | .ok a t => .ok a (put t s)
    | .error e t => .error e (put t s)

/-- `if c: raise e`. -/
def raiseIf (c : Prop) [Decidable c] (e : ε) : EStateM ε σ PUnit := if c then throw e else pure ⟨⟩

def check : Except ε α → EStateM ε σ α
  | .ok a => pure a
  | .error e => throw e

theorem wp_iff (m : EStateM ε σ α) (Q : α → σ → Prop) (E : ε → σ → Prop) (s : σ) :
    wp m Q E s ↔
      (∀ a, answer m s = .ok a → Q a (after m s)) ∧
        (∀ e, answer m s = .error e → E e (after m s)) := by
  unfold wp answer after
  cases m s with
  | ok a t | error e t => simp

theorem wp_after {m : EStateM ε σ α} {P : σ → Prop} (h : wp m (fun _ => P) (fun _ => P) s) :
    P (after m s) := by
  unfold wp at h
  unfold after
  cases hm : m s with
  | ok a t | error e t => simpa [hm] using h

theorem wp_ok {Q : α → σ → Prop} {E : ε → σ → Prop} (h : wp m Q E s) (ha : answer m s = .ok a) :
    Q a (after m s) :=
  ((wp_iff m Q E s).mp h).1 a ha

theorem wp_error {Q : α → σ → Prop} {E : ε → σ → Prop}
    (h : wp m Q E s) (he : answer m s = .error e) : E e (after m s) :=
  ((wp_iff m Q E s).mp h).2 e he

theorem ok_of_wp {m : EStateM ε σ α} (h : wp m (fun b u => b = a ∧ u = t) (fun _ _ => False) s) :
    m s = .ok a t := by
  unfold wp at h
  cases hm : m s with
  | ok b u => rw [hm] at h; rw [h.1, h.2]
  | error e u => rw [hm] at h; exact h.elim

theorem error_of_wp {m : EStateM ε σ α}
    (h : wp m (fun _ _ => False) (fun _ _ => True) s) : ∃ e t, m s = .error e t := by
  unfold wp at h
  cases hm : m s with
  | ok b u => rw [hm] at h; exact h.elim
  | error e u => exact ⟨e, u, rfl⟩

theorem wp_mono {Q Q' : α → σ → Prop} {E E' : ε → σ → Prop} (h : wp m Q E s)
    (hQ : ∀ a t, Q a t → Q' a t) (hE : ∀ e t, E e t → E' e t) : wp m Q' E' s := by
  unfold wp at h ⊢
  cases hm : m s with
  | ok a t => rw [hm] at h; exact hQ a t h
  | error e t => rw [hm] at h; exact hE e t h

theorem wp_post {Q Q' : α → σ → Prop} {E : ε → σ → Prop} (h : wp m Q E s)
    (hQ : ∀ a t, Q a t → Q' a t) : wp m Q' E s :=
  wp_mono h hQ fun _ _ => id

theorem wp_and {Q Q' : α → σ → Prop} {E : ε → σ → Prop} (h : wp m Q E s)
    (h' : wp m Q' (fun _ _ => True) s) : wp m (fun a t => Q a t ∧ Q' a t) E s := by
  unfold wp at *
  cases hm : m s with
  | ok a t => simp_all
  | error e t => simp_all

variable {Q : α → σ → Prop} {R : β → σ → Prop} {E : ε → σ → Prop} {f : α → Except ε β}
  {x : Except ε α}

@[simp] theorem wp_true (m : EStateM ε σ α) : wp m (fun _ _ => True) (fun _ _ => True) s := by
  unfold wp
  split <;> trivial

@[simp] theorem wp_pure (a : α) : wp (pure a : EStateM ε σ α) Q E s ↔ Q a s := Iff.rfl

@[simp] theorem wp_bind (m : EStateM ε σ α) (f : α → EStateM ε σ β) :
    wp (m >>= f) R E s ↔ wp m (fun a t => wp (f a) R E t) E s := by
  unfold wp
  change (match EStateM.bind m f s with | .ok a t => R a t | .error e t => E e t) ↔ _
  unfold EStateM.bind
  cases m s <;> rfl

@[simp] theorem wp_map (m : EStateM ε σ α) (f : α → β) :
    wp (f <$> m) R E s ↔ wp m (fun a t => R (f a) t) E s := by
  unfold wp
  change (match EStateM.map f m s with | .ok a t => R a t | .error e t => E e t) ↔ _
  unfold EStateM.map
  cases m s <;> rfl

@[simp] theorem wp_throw (e : ε) : wp (throw e : EStateM ε σ α) Q E s ↔ E e s := Iff.rfl

@[simp] theorem wp_get {R : σ → σ → Prop} : wp (get : EStateM ε σ σ) R E s ↔ R s s := Iff.rfl

@[simp] theorem wp_set {R : PUnit → σ → Prop} (t : σ) : wp (set t : EStateM ε σ PUnit) R E s ↔
    R ⟨⟩ t := Iff.rfl

@[simp] theorem wp_modify {R : PUnit → σ → Prop} (f : σ → σ) :
    wp (modify f : EStateM ε σ PUnit) R E s ↔ R ⟨⟩ (f s) := Iff.rfl

@[simp] theorem wp_ite (c : Prop) {_ : Decidable c} (m n : EStateM ε σ α) :
    wp (if c then m else n) Q E s ↔ if c then wp m Q E s else wp n Q E s := by
  split <;> rfl

@[simp] theorem wp_zoom {τ : Type u} (part : σ → τ) (put : τ → σ → σ) (m : EStateM ε τ α) :
    wp (zoom part put m) Q E s ↔
      wp m (fun a t => Q a (put t s)) (fun e t => E e (put t s)) (part s) := by
  unfold wp zoom
  cases m (part s) <;> rfl

@[simp] theorem wp_raiseIf {R : PUnit → σ → Prop} (c : Prop) {_ : Decidable c} (e : ε) :
    wp (raiseIf c e) R E s ↔ (c → E e s) ∧ (¬c → R ⟨⟩ s) := by
  unfold raiseIf
  by_cases h : c <;> simp [h]

theorem wp_check (x : Except ε α) : wp (check x) Q E s ↔ (∀ a, x = .ok a → Q a s) ∧
    ∀ e, x = .error e → E e s := by
  cases x <;> simp [check]

@[simp] theorem wp_check_ok (a : α) : wp (check (.ok a)) Q E s ↔ Q a s := Iff.rfl

/-- Whatever comes of a computation, it ends in a state that is related to its first one. -/
def Within (r : σ → σ → Prop) (m : EStateM ε σ α) (s : σ) : Prop :=
  wp m (fun _ t => r s t) (fun _ t => r s t) s

section Within

variable {r : σ → σ → Prop} [Std.Refl r]

theorem within_pure (a : α) : Within r (pure a : EStateM ε σ α) s := refl s

theorem within_throw (e : ε) : Within r (throw e : EStateM ε σ α) s := refl s

omit [Std.Refl r] in
theorem within_modify {f : σ → σ} (h : r s (f s)) : Within r (modify f : EStateM ε σ PUnit) s := h

theorem within_check (x : Except ε α) : Within r (check x : EStateM ε σ α) s := by
  cases x with
  | ok a => exact within_pure a
  | error e => exact within_throw e

theorem within_raiseIf (c : Prop) {_ : Decidable c} (e : ε) :
    Within r (raiseIf c e : EStateM ε σ PUnit) s := by
  rw [raiseIf]
  split
  · exact within_throw e
  · exact within_pure _

omit [Std.Refl r] in
theorem within_ite {_ : Decidable c} (hm : c → Within r m s)
    (hn : ¬c → Within r n s) : Within r (if c then m else n) s := by
  split
  · exact hm ‹_›
  · exact hn ‹_›

omit [Std.Refl r] in
theorem within_get_bind {f : σ → EStateM ε σ β} (h : Within r (f s) s) : Within r (get >>= f) s := h

omit [Std.Refl r] in
theorem within_bind [IsTrans σ r] {f : α → EStateM ε σ β} (hm : Within r m s)
    (hf : ∀ a t, r s t → Within r (f a) t) : Within r (m >>= f) s := by
  rw [Within, wp_bind]
  refine wp_post hm ?_
  intro a t first
  exact wp_mono (hf a t first) (fun _ _ => trans_of r first) fun _ _ => trans_of r first

end Within

@[simp] theorem after_map (m : EStateM ε σ α) (f : α → β) : after (f <$> m) s = after m s := by
  unfold after
  change (match EStateM.map f m s with | .ok _ t => t | .error _ t => t) = _
  unfold EStateM.map
  cases m s <;> rfl

theorem answer_map_eq_ok {m : EStateM ε σ α} {f : α → β} :
    answer (f <$> m) s = .ok b ↔ ∃ a, answer m s = .ok a ∧ f a = b := by
  unfold answer
  change (match EStateM.map f m s with | .ok a _ => Except.ok a | .error e _ => .error e) = _ ↔ _
  unfold EStateM.map
  cases m s <;> simp

theorem bind_eq_ok :
    (x >>= f) = .ok b ↔ ∃ a, x = .ok a ∧ f a = .ok b := by
  cases x <;> simp [bind, Except.bind]

theorem ok_inj (h : (Except.ok (a, s) : Except ε (α × σ)) = .ok (b, t)) : a = b ∧ s = t :=
  Prod.mk.inj (Except.ok.inj h)

theorem ok_unique {x : Except ε α} (h : x = .ok a) (h' : x = .ok b) : a = b :=
  Except.ok.inj (h.symm.trans h')

theorem ok_bind (a : α) (f : α → Except ε β) : (Except.ok a >>= f) = f a := rfl

theorem throw_bind (e : ε) (f : α → Except ε β) : (throw e >>= f) = throw e := rfl

theorem raise_eq_ok {_ : Decidable c} : (if c then throw e else x) = .ok a ↔ ¬c ∧ x = .ok a := by
  by_cases h : c
  · simp only [h, if_true, not_true, false_and, iff_false]
    rintro ⟨⟩
  · simp [h]

theorem bind_eq_error :
    (x >>= f) = .error e ↔ x = .error e ∨ ∃ a, x = .ok a ∧ f a = .error e := by
  cases x <;> simp [bind, Except.bind]

theorem map_eq_ok {f : α → β} : x.map f = .ok b ↔ ∃ a, x = .ok a ∧ f a = b := by
  cases x <;> simp [Except.map]

theorem map_ok_inj {f : α → β × σ} (h : x.map f = .ok (b, t)) :
    ∃ a, x = .ok a ∧ (f a).1 = b ∧ (f a).2 = t := by
  obtain ⟨a, done, same⟩ := map_eq_ok.mp h
  exact ⟨a, done, same ▸ rfl, same ▸ rfl⟩

theorem mapM_eq_ok :
    xs.mapM f = .ok ys ↔ List.Forall₂ (fun x y => f x = .ok y) xs ys := by
  induction xs generalizing ys with
  | nil =>
    rw [List.mapM_nil, List.forall₂_nil_left_iff]
    exact ⟨fun h => (Except.ok.inj h).symm, fun h => h ▸ rfl⟩
  | cons x xs ih =>
    simp only [List.mapM_cons, bind_eq_ok, ih, List.forall₂_cons_left_iff]
    constructor
    · rintro ⟨y, here, ys, rest, done⟩
      exact ⟨y, ys, here, rest, (Except.ok.inj done).symm⟩
    · rintro ⟨y, ys, here, rest, rfl⟩
      exact ⟨y, here, ys, rest, rfl⟩

theorem mapM_total {xs : List α} (total : ∀ x ∈ xs, ∃ y, f x = .ok y) :
    ∃ ys, xs.mapM f = .ok ys ∧ (∀ x ∈ xs, ∃ y ∈ ys, f x = .ok y) ∧
    ∀ y ∈ ys, ∃ x ∈ xs, f x = .ok y := by
  induction xs with
  | nil => exact ⟨[], rfl, by simp⟩
  | cons x xs ih =>
    obtain ⟨y, here⟩ := total x List.mem_cons_self
    obtain ⟨ys, all, into, each⟩ := ih fun z mem => total z (List.mem_cons_of_mem x mem)
    refine ⟨y :: ys, ?_, List.forall_mem_cons.mpr ⟨⟨y, List.mem_cons_self, here⟩, fun z mem => ?_⟩,
      List.forall_mem_cons.mpr ⟨⟨x, List.mem_cons_self, here⟩, fun z mem => ?_⟩⟩
    · rw [List.mapM_cons, here, all]
      rfl
    · obtain ⟨w, listed, found⟩ := into z mem
      exact ⟨w, List.mem_cons_of_mem y listed, found⟩
    · obtain ⟨w, listed, found⟩ := each z mem
      exact ⟨w, List.mem_cons_of_mem x listed, found⟩

end Mycellios.Logic
