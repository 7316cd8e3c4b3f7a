import Mathlib

universe u v

namespace Mycellios.Data

variable {α : Type u} {κ : Type v} [DecidableEq κ] (key : α → Option κ)

def lane (r : κ) (xs : List α) : List α := xs.filter fun x => key x = some r

/-- Two lists with the same lanes: one is the other reordered across lanes only. -/
def SameLanes (xs ys : List α) : Prop := ∀ r, lane key r xs = lane key r ys

def Apart (x y : α) : Prop := ∀ r, key x = some r → key y ≠ some r

instance (x y : α) : Decidable (Apart key x y) :=
  decidable_of_iff (key x = none ∨ key x ≠ key y) (by
    cases hx : key x with
    | none => simp [Apart, hx]
    | some r => simp [Apart, hx, eq_comm])

variable {key} {x : α} {xs ys zs mid : List α}

@[simp] theorem lane_append (r : κ) (xs ys : List α) :
    lane key r (xs ++ ys) = lane key r xs ++ lane key r ys := List.filter_append ..

theorem mem_lane : x ∈ lane key r xs ↔ x ∈ xs ∧ key x = some r := by
  simp [lane]

theorem lane_eq_nil : lane key r xs = [] ↔ ∀ x ∈ xs, key x ≠ some r := by
  simp [lane]

theorem lane_singleton_self (h : key x = some r) : lane key r [x] = [x] := by
  simp [lane, h]

theorem SameLanes.refl (xs : List α) : SameLanes key xs xs := fun _ => rfl

theorem SameLanes.symm (h : SameLanes key xs ys) : SameLanes key ys xs := fun r => (h r).symm

theorem SameLanes.trans (h : SameLanes key xs ys) (h' : SameLanes key ys zs) :
    SameLanes key xs zs :=
  fun r => (h r).trans (h' r)

theorem sameLanes_context (before behind : List α) :
    SameLanes key (before ++ (xs ++ behind)) (before ++ (ys ++ behind)) ↔ SameLanes key xs ys := by
  apply forall_congr'
  intro r
  simp only [lane_append, List.append_cancel_left_eq, List.append_cancel_right_eq]

theorem sameLanes_overtake_iff (fresh : x ∉ mid) :
    SameLanes key (x :: mid) (mid ++ [x]) ↔ ∀ y ∈ mid, Apart key x y := by
  rw [← List.singleton_append]
  constructor
  · intro same y mem r hx hy
    have lanes := same r
    rw [lane_append, lane_append, lane_singleton_self hx] at lanes
    have inLane : y ∈ lane key r mid := mem_lane.mpr ⟨mem, hy⟩
    cases h : lane key r mid with
    | nil => simp [h] at inLane
    | cons z rest =>
      rw [h, List.singleton_append, List.cons_append] at lanes
      have first : x ∈ lane key r mid := by
        rw [h, (List.cons.inj lanes).1]
        exact List.mem_cons_self
      exact fresh (mem_lane.mp first).1
  · intro apart r
    rw [lane_append, lane_append]
    cases hx : decide (key x = some r) with
    | true =>
      have none : lane key r mid = [] :=
        lane_eq_nil.mpr fun y mem => apart y mem r (of_decide_eq_true hx)
      simp [none]
    | false =>
      have none : lane key r [x] = [] := lane_eq_nil.mpr (by simpa using hx)
      simp [none]

theorem sameLanes_front_iff (before behind : List α) (distinct : (mid ++ xs.take 1).Nodup) :
    SameLanes key (before ++ (xs.take 1 ++ mid ++ behind))
    (before ++ (mid ++ xs.take 1 ++ behind)) ↔
      ∀ x ∈ xs.take 1, ∀ y ∈ mid, Apart key x y := by
  rw [sameLanes_context]
  cases xs with
  | nil => simpa using SameLanes.refl mid
  | cons x xs =>
    have fresh : x ∉ mid := by
      intro mem
      exact (List.nodup_append.mp distinct).2.2 x mem x (by simp) rfl
    simpa using sameLanes_overtake_iff fresh

theorem sameLanes_drop_iff : SameLanes key [] xs ↔ ∀ x ∈ xs, key x = none := by
  constructor
  · intro same x mem
    cases hx : key x with
    | none => rfl
    | some r =>
      have inLane : x ∈ lane key r xs := mem_lane.mpr ⟨mem, hx⟩
      rw [← same r] at inLane
      cases inLane
  · intro none r
    symm
    apply lane_eq_nil.mpr
    intro x mem
    simp [none x mem]

end Mycellios.Data
