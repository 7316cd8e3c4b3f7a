import Mathlib.Data.List.Basic
import Mycellios.Data.Dict

/-! `kv_arena.py`, refined against plain lists of positions; and the rollback of a request in
`model.py`. -/

namespace Mycellios.KvArena

open Data List

variable {γ α : Type}

def minimumArenaTokens : Nat := 64

/-- An allocated tensor; `none` was never written. One cell stands for a key and its value. -/
structure Storage (γ α : Type) where
  geometry : γ
  cells : List (Option α)

structure Memory (γ α : Type) where
  next : Nat
  storage : Nat → Storage γ α

structure View where
  storage : Nat
  length : Nat

structure ArenaLayer where
  arena : Option Nat
  length : Nat
  keys : View

namespace Memory

def read (m : Memory γ α) (v : View) : List (Option α) := (m.storage v.storage).cells.take v.length

def alloc (m : Memory γ α) (s : Storage γ α) : Memory γ α :=
  ⟨m.next + 1, Function.update m.storage m.next s⟩

/-- There is nothing behind the last cell of a tensor. -/
def write (m : Memory γ α) (id start : Nat) (xs : List (Option α)) : Memory γ α :=
  let s := m.storage id
  { m with storage := Function.update m.storage id { s with
      cells := (s.cells.take start ++ xs ++ s.cells.drop (start + xs.length)).take s.cells.length }
             }

end Memory

/-- Doubles until there is room; the target is never zero. -/
def doubled (target needed : Nat) : Nat :=
  if 0 < target ∧ target < needed then doubled (target * 2) needed else target
termination_by needed - target

/-- The base class of a layer, whose code is not the repository's: an empty layer stays empty. -/
structure DynamicLayer (γ α : Type) where
  crop : Int → View → View
  reset : Memory γ α → View → Memory γ α × View
  crop_empty : ∀ maxLength v, v.length = 0 → (crop maxLength v).length = 0
  reset_empty : ∀ m v, v.length = 0 → (reset m v).1 = m ∧ (reset m v).2.length = 0

namespace ArenaLayer

def publish (l : ArenaLayer) : ArenaLayer :=
  { l with keys := l.arena.elim l.keys fun id => ⟨id, l.length⟩ }

/-- `_reserve`; an arena of this geometry is copied, and otherwise the layer starts again. -/
def reserve [DecidableEq γ] (template : γ) (needed : Nat) (m : Memory γ α) (l : ArenaLayer) :
    Memory γ α × ArenaLayer :=
  let fits := l.arena.filter fun id => (m.storage id).geometry = template
  let capacity := fits.elim 0 fun id => (m.storage id).cells.length
  if fits.isSome ∧ needed ≤ capacity then (m, l)
  else
    let m' :=
      m.alloc ⟨template, List.replicate (doubled (max minimumArenaTokens capacity) needed) none⟩
    (m'.write m.next 0 (fits.elim [] fun id => m.read ⟨id, l.length⟩),
      { l with arena := some m.next, length := if fits.isSome then l.length else 0 })

def update [DecidableEq γ] (template : γ) (states : List (Option α)) (m : Memory γ α)
    (l : ArenaLayer) : Memory γ α × ArenaLayer :=
  let (m, l) := l.reserve template (l.length + states.length) m
  (l.arena.elim m fun id => m.write id l.length states,
    publish { l with length := l.length + states.length })

def crop (base : DynamicLayer γ α) (maxLength : Int) (l : ArenaLayer) : ArenaLayer :=
  if l.arena.isNone then { l with keys := base.crop maxLength l.keys }
  else
    let maxLength := if maxLength ≤ 0 then l.length - |maxLength| else maxLength
    if l.length ≤ maxLength then l else publish { l with length := (max 0 maxLength).toNat }

def reset (base : DynamicLayer γ α) (m : Memory γ α) (l : ArenaLayer) : Memory γ α × ArenaLayer :=
  if l.arena.isNone then ((base.reset m l.keys).1, { l with keys := (base.reset m l.keys).2 })
  else (m, publish { l with length := 0 })

/-- The live positions go into a new arena; without any, the empty tensor is cloned. -/
def deepcopy [DecidableEq γ] (m : Memory γ α) (l : ArenaLayer) : Memory γ α × ArenaLayer :=
  match l.arena.filter fun _ => l.length ≠ 0 with
  | some id => update (m.storage id).geometry (m.read ⟨id, l.length⟩) m ⟨none, 0, ⟨0, 0⟩⟩
  | none =>
    (m.alloc { m.storage l.keys.storage with cells := m.read l.keys },
      ⟨none, 0, ⟨m.next, l.keys.length⟩⟩)

end ArenaLayer

section Runs

/-- What can be done with a layer; a copy is kept under a name of its own. -/
inductive Op (α : Type)
  | update (states : List α)
  | crop (maxLength : Int)
  | reset
  | deepcopy (into : Nat)

structure Layers (γ α : Type) where
  memory : Memory γ α
  layer : Nat → ArenaLayer

variable [DecidableEq γ] (base : DynamicLayer γ α) (template : γ)

def Op.target (name : Nat) : Op α → Nat
  | .deepcopy into => into
  | _ => name

def Op.perform (m : Memory γ α) (l : ArenaLayer) : Op α → Memory γ α × ArenaLayer
  | .update states => l.update template (states.map some) m
  | .crop maxLength => (m, l.crop base maxLength)
  | .reset => l.reset base m
  | .deepcopy _ => l.deepcopy m

def Layers.step (s : Layers γ α) (c : Nat × Op α) : Layers γ α :=
  let r := c.2.perform base template s.memory (s.layer c.1)
  ⟨r.1, Function.update s.layer (c.2.target c.1) r.2⟩

def Layers.initial : Layers γ α := ⟨⟨1, fun _ => ⟨template, []⟩⟩, fun _ => ⟨none, 0, ⟨0, 0⟩⟩⟩

def Layers.published (s : Layers γ α) (name : Nat) : List (Option α) :=
  s.memory.read (s.layer name).keys

def Op.reference (xs : List α) : Op α → List α
  | .update states => xs ++ states
  | .crop maxLength =>
    xs.take (if maxLength < 0 then xs.length - maxLength.natAbs else maxLength.toNat)
  | .reset => []
  | .deepcopy _ => xs

def refer (refs : Nat → List α) (c : Nat × Op α) : Nat → List α :=
  Function.update refs (c.2.target c.1) (c.2.reference (refs c.1))

structure StageModel (γ α : Type) where
  arenas : Layers γ α
  caches : Dict Nat (List Nat)
  tokensSeen : Dict Nat Nat

/-- The library's cache of a request, whose `crop` crops each of its layers. -/
structure Cache where
  crop : Int → List Nat → Layers γ α → Layers γ α
  crop_each : ∀ maxLength names s,
    crop maxLength names s = (names.map fun name => (name, .crop maxLength)).foldl
    (Layers.step base template) s

variable {base template}

/-- `truncate`; the requests that are active are those with tokens counted. -/
def StageModel.truncate (cache : Cache base template) (s : StageModel γ α) (requestId : Nat)
    (tokenCount : Int) : Except String (StageModel γ α) :=
  match s.tokensSeen.find? requestId with
  | none => .error s!"request {requestId} has not received BEGIN"
  | some current =>
    if ¬(0 ≤ tokenCount ∧ tokenCount ≤ current) then
      .error s!"cannot truncate request {requestId} from {current} to {tokenCount} tokens"
    else
      let cropped := if tokenCount < current then s.caches.find? requestId else none
      .ok { s with
        arenas := cropped.elim s.arenas fun names => cache.crop tokenCount names s.arenas
        tokensSeen := s.tokensSeen.insert requestId tokenCount.toNat }

end Runs

section Specs

variable {base : DynamicLayer γ α} {template : γ} {m m' : Memory γ α} {l : ArenaLayer} {xs : List α}

theorem foldl_refer_crop (refs : Nat → List α) (names : List Nat) (n name : Nat) :
    (names.map fun name => (name, .crop n)).foldl refer refs name =
      if name ∈ names then (refs name).take n else refs name := by
  induction names generalizing refs with
  | nil => simp
  | cons first names ih =>
    rw [map_cons, foldl_cons, ih]
    by_cases here : name = first
    · subst here
      simp [refer, Op.target, Op.reference, show ¬(n : Int) < 0 by omega, take_take]
    · simp [refer, Op.target, here]

/-- A layer shows a list: these are the first cells of its arena, if it has one. -/
structure Holds (template : γ) (m : Memory γ α) (l : ArenaLayer) (xs : List α) : Prop where
  length : l.length = xs.length
  shown : l.keys.length = xs.length
  bare : l.arena = none → xs = []
  stored : ∀ id, l.arena = some id → l.keys.storage = id ∧ id < m.next ∧
    (m.storage id).geometry = template ∧ (m.storage id).cells.take xs.length = xs.map some

/-- What a call may do to the memory: write the arena it owns, and allocate. -/
structure Acts (template : γ) (m : Memory γ α) (own : Option Nat) (r : Memory γ α × ArenaLayer)
    (xs : List α) : Prop where
  holds : Holds template r.1 r.2 xs
  grows : m.next ≤ r.1.next
  arena : ∀ id, r.2.arena = some id → own = some id ∨ m.next ≤ id
  frame : ∀ id, id < m.next → own ≠ some id → r.1.storage id = m.storage id

theorem Holds.read (h : Holds template m l xs) : m.read l.keys = xs.map some := by
  rw [Memory.read, h.shown]
  cases arena : l.arena with
  | none => simp [h.bare arena]
  | some id =>
    obtain ⟨rfl, -, -, cells⟩ := h.stored id arena
    exact cells

theorem holds_publish {id : Nat} (arena : l.arena = some id) (length : l.length = xs.length)
    (old : id < m.next) (geometry : (m.storage id).geometry = template)
    (cells : (m.storage id).cells.take xs.length = xs.map some) :
    Holds template m l.publish xs := by
  constructor <;> simp [ArenaLayer.publish, arena, length, old, geometry, cells]

theorem Holds.cut (h : Holds template m l xs) (arena : l.arena ≠ none) {k : Nat}
    (le : k ≤ xs.length) :
    Acts template m l.arena (m, ArenaLayer.publish { l with length := k }) (xs.take k) := by
  obtain ⟨id, arena⟩ := Option.ne_none_iff_exists'.mp arena
  obtain ⟨-, old, geometry, cells⟩ := h.stored id arena
  refine ⟨holds_publish arena (by simp [le]) old geometry ?_, le_rfl, fun _ => .inl,
    fun _ _ _ => rfl⟩
  rw [length_take, map_take, ← cells, take_take, min_eq_left le]

theorem crop_spec (h : Holds template m l xs) (nonzero : maxLength ≠ 0) :
    Acts template m l.arena (m, l.crop base maxLength) ((Op.crop maxLength).reference xs) := by
  have length := h.length
  have shown := h.shown
  unfold ArenaLayer.crop Op.reference
  by_cases bare : l.arena = none
  · obtain rfl := h.bare bare
    have empty := base.crop_empty maxLength l.keys shown
    refine ⟨⟨?_, ?_, ?_, ?_⟩, le_rfl, ?_, fun _ _ _ => rfl⟩ <;> simp [bare, length, empty]
  · simp only [Option.isNone_iff_eq_none, bare, if_false]
    generalize least : (if maxLength ≤ 0 then (l.length : Int) - |maxLength| else maxLength) = kept
    split
    · rename_i le
      have all : xs.length ≤ if maxLength < 0 then xs.length - maxLength.natAbs
          else maxLength.toNat := by
        grind
      rw [take_of_length_le all]
      exact ⟨h, le_rfl, fun _ => .inl, fun _ _ _ => rfl⟩
    · rename_i more
      have same : (if maxLength < 0 then xs.length - maxLength.natAbs else maxLength.toNat) =
          (max 0 kept).toNat := by
        grind
      rw [same]
      exact h.cut bare (by omega)

theorem reset_spec (h : Holds template m l xs) : Acts template m l.arena (l.reset base m) [] := by
  unfold ArenaLayer.reset
  by_cases bare : l.arena = none
  · obtain rfl := h.bare bare
    obtain ⟨same, empty⟩ := base.reset_empty m l.keys h.shown
    simp only [bare, Option.isNone_none, if_true, same]
    exact ⟨⟨h.length, empty, fun _ => rfl, by simp⟩, le_rfl, by simp, fun _ _ _ => rfl⟩
  · simp only [Option.isNone_iff_eq_none, bare, if_false]
    exact h.cut bare (Nat.zero_le _)

theorem le_doubled (pos : 0 < target) (needed : Nat) :
    target ≤ doubled target needed ∧ needed ≤ doubled target needed := by
  fun_induction doubled target needed with
  | case1 target more ih => exact ⟨by have := (ih (by omega)).1; omega, (ih (by omega)).2⟩
  | case2 target enough => omega

theorem storage_write {id start : Nat}
    (room : start + states.length ≤ (m.storage id).cells.length) :
    (m.write id start states).storage id = { m.storage id with
      cells := (m.storage id).cells.take start ++ states ++ (m.storage id).cells.drop
          (start + states.length) } := by
  simp only [Memory.write, Function.update_self]
  rw [take_of_length_le]
  simp only [length_append, length_take, length_drop]
  omega

variable [DecidableEq γ]

section

variable (h : Holds template m l xs)
include h

theorem reserve_spec {needed : Nat}
    (reserved : l.reserve template needed m = (m', l')) : ∃ id, l' = { l with arena := some id } ∧
      Acts template m l.arena (m', l'.publish) xs ∧ needed ≤ (m'.storage id).cells.length := by
  obtain ⟨fits, kept, length, held⟩ :
      l.arena.filter (fun id => decide ((m.storage id).geometry = template)) = l.arena ∧
      (l.arena.elim [] fun id => m.read ⟨id, l.length⟩) = xs.map some ∧
      (if l.arena.isSome = true then l.length else 0) = l.length ∧
      xs.length ≤ l.arena.elim 0 fun id => (m.storage id).cells.length := by
    cases arena : l.arena with
    | none => simp [h.length, h.bare arena]
    | some id =>
      obtain ⟨-, -, geometry, cells⟩ := h.stored id arena
      have long := congrArg List.length cells
      exact ⟨by simp [geometry], by simpa [Memory.read, h.length] using cells,
        rfl, by simpa using long⟩
  simp only [ArenaLayer.reserve, fits, kept, length] at reserved
  split at reserved <;> obtain ⟨rfl, rfl⟩ := Prod.mk.inj reserved
  · rename_i room
    obtain ⟨id, arena⟩ := Option.isSome_iff_exists.mp room.1
    obtain ⟨-, old, geometry, cells⟩ := h.stored id arena
    have acts := holds_publish arena h.length old geometry cells
    refine ⟨id, by rw [← arena], ⟨acts, le_rfl, fun _ => .inl,
      fun _ _ _ => rfl⟩, by simpa [arena] using room.2⟩
  · have pos : 0 < max minimumArenaTokens (l.arena.elim 0 fun id => (m.storage id).cells.length) :=
      lt_max_of_lt_left (by decide)
    have wide := le_doubled pos needed
    generalize doubled _ needed = target at wide
    have room : 0 + (xs.map some).length ≤
        ((m.alloc ⟨template, List.replicate target none⟩).storage m.next).cells.length := by
      simp [Memory.alloc]
      omega
    refine ⟨m.next, rfl, ⟨holds_publish rfl h.length (Nat.lt_succ_self _) ?_ ?_, Nat.le_succ _, ?_,
      ?_⟩, ?_⟩
    · rw [storage_write room]
      simp [Memory.alloc]
    · rw [storage_write room]
      simp
    · rintro _ ⟨⟩
      exact .inr le_rfl
    · intro id old _
      simp [Memory.write, Memory.alloc, old.ne]
    · rw [storage_write room]
      simp [Memory.alloc]
      omega

theorem update_spec (states : List α) :
    Acts template m l.arena (l.update template (states.map some) m) (xs ++ states) := by
  obtain ⟨⟨m', l'⟩, reserved⟩ : ∃ r, r = l.reserve template (l.length + (states.map some).length)
    m := ⟨_, rfl⟩
  obtain ⟨id, rfl, acts, room⟩ := reserve_spec h reserved.symm
  obtain ⟨-, old, geometry, cells⟩ := acts.holds.stored id rfl
  have own := acts.arena id rfl
  simp only [ArenaLayer.update, ← reserved, Option.elim_some]
  refine ⟨holds_publish rfl ?_ old ?_ ?_, acts.grows, ?_, fun j before other => ?_⟩
  · simp [h.length]
  · rw [storage_write room]
    exact geometry
  · have written : (xs ++ states).length = (xs.map some ++ states.map some).length := by simp
    rw [storage_write room, h.length, cells, written, take_left, map_append]
  · rintro _ ⟨⟩
    exact own
  · have apart : j ≠ id := by
      rintro rfl
      exact own.elim other (by omega)
    simpa [Memory.write, apart] using acts.frame j before other

theorem deepcopy_spec : Acts template m none (l.deepcopy m) xs := by
  unfold ArenaLayer.deepcopy
  split
  · rename_i id live
    obtain ⟨arena, -⟩ := Option.filter_eq_some_iff.mp live
    obtain ⟨-, -, geometry, cells⟩ := h.stored id arena
    rw [geometry, Memory.read, h.length, cells]
    have blank : Holds template m ⟨none, 0, ⟨0, 0⟩⟩ ([] : List α) :=
      ⟨rfl, rfl, fun _ => rfl, by simp⟩
    exact update_spec blank xs
  · rename_i dead
    obtain rfl : xs = [] := by
      cases arena : l.arena with
      | none => exact h.bare arena
      | some id => simpa [arena, h.length] using dead
    refine ⟨⟨rfl, h.shown, fun _ => rfl, by simp⟩, Nat.le_succ _, by simp, fun id old _ => ?_⟩
    simp [Memory.alloc, old.ne]

end

variable (base) in
theorem perform_spec (h : Holds template m l xs) {op : Op α} (nonzero : op ≠ .crop 0) (name : Nat) :
    ∃ own, Acts template m own (op.perform base template m l) (op.reference xs) ∧
      ∀ id, own = some id → l.arena = some id ∧ op.target name = name := by
  cases op with
  | update states => exact ⟨_, update_spec h states, fun _ own => ⟨own, rfl⟩⟩
  | crop maxLength =>
    exact ⟨_, crop_spec h fun here => nonzero (by rw [here]), fun _ own => ⟨own, rfl⟩⟩
  | reset => exact ⟨_, reset_spec h, fun _ own => ⟨own, rfl⟩⟩
  | deepcopy into => exact ⟨none, deepcopy_spec h, by simp⟩

/-- Every layer shows its list, and no two layers share an arena. -/
structure Refines (template : γ) (s : Layers γ α) (refs : Nat → List α) : Prop where
  holds : ∀ name, Holds template s.memory (s.layer name) (refs name)
  apart : ∀ name other id, (s.layer name).arena = some id → (s.layer other).arena = some id →
    name = other

variable {s : Layers γ α} {refs : Nat → List α}

theorem Refines.step (h : Refines template s refs) (c : Nat × Op α) (nonzero : c.2 ≠ .crop 0) :
    Refines template (s.step base template c) (refer refs c) := by
  obtain ⟨own, acts, mine⟩ := perform_spec base (h.holds c.1) nonzero c.1
  -- a layer that keeps its name keeps its arena, which the call does not write
  have old : ∀ name id, name ≠ c.2.target c.1 → (s.layer name).arena = some id →
      id < s.memory.next ∧ own ≠ some id := by
    intro name id other arena
    refine ⟨((h.holds name).stored id arena).2.1, fun owned => other ?_⟩
    obtain ⟨here, same⟩ := mine id owned
    rw [same, h.apart name c.1 id arena here]
  constructor
  · intro name
    by_cases here : name = c.2.target c.1
    · subst here
      simpa [Layers.step, refer] using acts.holds
    · simp only [Layers.step, refer, Function.update_of_ne here]
      refine { h.holds name with stored := fun id arena => ?_ }
      obtain ⟨lt, other⟩ := old name id here arena
      obtain ⟨view, -, stored⟩ := (h.holds name).stored id arena
      rw [acts.frame id lt other]
      exact ⟨view, lt.trans_le acts.grows, stored⟩
  · intro name other id
    have fresh : ∀ name, name ≠ c.2.target c.1 → (s.layer name).arena = some id →
        (c.2.perform base template s.memory (s.layer c.1)).2.arena ≠ some id := by
      intro name here arena new
      obtain ⟨lt, notOwn⟩ := old name id here arena
      exact (acts.arena id new).elim notOwn (by omega)
    simp only [Layers.step, Function.update_apply]
    split <;> split <;> rename_i here there <;> intro arena arena'
    · rw [here, there]
    · exact absurd arena (fresh other there arena')
    · exact absurd arena' (fresh name here arena)
    · exact h.apart name other id arena arena'

variable (base) in
theorem Refines.run (h : Refines template s refs) (calls : List (Nat × Op α))
    (nonzero : ∀ c ∈ calls, c.2 ≠ .crop 0) :
    Refines template (calls.foldl (Layers.step base template) s) (calls.foldl refer refs) := by
  induction calls generalizing s refs with
  | nil => exact h
  | cons c calls ih =>
    exact ih (h.step c (nonzero c mem_cons_self)) fun c' mem => nonzero c' (mem_cons_of_mem c mem)

/-- A request with full layers is truncated to so many positions, but not from some to none. -/
def Truncates (cache : Cache base template) (s : Layers γ α) : Prop :=
  ∀ (stage : StageModel γ α) requestId names current n, stage.arenas = s →
    stage.caches.find? requestId = some names → stage.tokensSeen.find? requestId = some current →
    (∀ name ∈ names, (s.published name).length = current) → n ≤ current → (n = 0 → current = 0) →
    ∃ after, stage.truncate cache requestId n = .ok after ∧
      after.tokensSeen.find? requestId = some n ∧ ∀ name ∈ names,
        after.arenas.published name = (s.published name).take n ∧
        (after.arenas.published name).length = n

theorem Refines.truncates (h : Refines template s refs) (cache : Cache base template) :
    Truncates cache s := by
  rintro stage requestId names current n rfl cached seen full le zero
  have fits : ∀ name ∈ names, (refs name).length = current := by
    intro name mem
    rw [← full name mem, Layers.published, (h.holds name).read, length_map]
  refine ⟨_, by simp [StageModel.truncate, seen, le]; rfl, by simp, fun name mem => ?_⟩
  suffices kept : _ = (stage.arenas.published name).take n from
    ⟨kept, by rw [kept, length_take, full name mem, min_eq_left le]⟩
  rw [Layers.published, Layers.published, (h.holds name).read, ← map_take]
  by_cases fewer : n < current
  · have run := h.run base (names.map fun name => (name, .crop n)) fun c listed => by
      obtain ⟨_, -, rfl⟩ := mem_map.mp listed
      simp
      omega
    have kept := (run.holds name).read
    rw [foldl_refer_crop, if_pos mem] at kept
    simpa [fewer, cached, cache.crop_each] using kept
  · rw [take_of_length_le (by rw [fits name mem]; omega)]
    simpa [fewer] using (h.holds name).read

/-- Unless a layer is cropped to zero. -/
theorem arena_refines_list (base : DynamicLayer γ α) (cache : Cache base template)
    (calls : List (Nat × Op α)) (nonzero : ∀ c ∈ calls, c.2 ≠ .crop 0) :
    (∀ name, (calls.foldl (Layers.step base template) (.initial template)).published name =
      (calls.foldl refer (fun _ => []) name).map some) ∧
    Truncates cache (calls.foldl (Layers.step base template) (.initial template)) := by
  have fresh : Refines template (Layers.initial template) (fun _ => ([] : List α)) :=
    ⟨fun _ => ⟨rfl, rfl, fun _ => rfl, by simp [Layers.initial]⟩, by simp [Layers.initial]⟩
  have h := fresh.run base calls nonzero
  exact ⟨fun name => (h.holds name).read, h.truncates cache⟩

def shortening : DynamicLayer Unit Nat where
  crop maxLength v := { v with length := min v.length maxLength.toNat }
  reset m v := (m, { v with length := 0 })
  crop_empty _ _ empty := by simp [empty]
  reset_empty _ _ _ := ⟨rfl, rfl⟩

def eachLayer : Cache shortening () := ⟨_, fun _ _ _ => rfl⟩

theorem two_positions_cropped :
    ([(0, .update [7, 8]), (0, .crop 1)].foldl (Layers.step shortening ())
      (.initial ())).published 0 = [some 7] := by
  exact (arena_refines_list shortening eachLayer _ (by simp)).1 0

/-- `crop(0)` drops nothing, so a request truncated to no tokens keeps its position. -/
theorem cropped_to_zero_keeps_all :
    let kept := [(0, .update [7]), (0, .crop 0)].foldl (Layers.step shortening ()) (.initial ())
    let stage := ⟨[(0, .update [7])].foldl (Layers.step shortening ()) (.initial ()),
      Dict.empty.insert 1 [0], Dict.empty.insert 1 1⟩
    kept.published 0 = [some 7] ∧ (StageModel.truncate eachLayer stage 1 0).map (fun after =>
      (after.tokensSeen.find? 1, after.arenas.published 0)) = .ok (some 0, [some 7]) := by
  have enough : doubled 64 1 = 64 := by simp [doubled]
  simp [Layers.step, Op.perform, Op.target, ArenaLayer.update, ArenaLayer.reserve, ArenaLayer.crop,
    ArenaLayer.publish, Layers.initial, Layers.published, StageModel.truncate, eachLayer.crop_each,
    Memory.read, Memory.write, Memory.alloc, minimumArenaTokens, enough, Except.map]

end Specs

end Mycellios.KvArena
