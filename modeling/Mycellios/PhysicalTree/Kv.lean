import Mycellios.PhysicalTree.Resolve

namespace Mycellios.PhysicalTree

open Data List Logic MacroWave

abbrev Kv := Nat → Option (List Nat)

inductive WireCommand
  | fork (command : ForkCommand)
  | verify (command : VerifyCommand)
  | cleanup (command : CleanupCommand)

def Kv.apply (kv : Kv) : WireCommand → Option Kv
  | .fork ⟨child, parent⟩ =>
    match kv child, kv parent with
    | none, some tokens => some (Function.update kv child (some tokens))
    | _, _ => none
  | .verify ⟨request, _, input⟩ =>
    (kv request).map fun tokens => Function.update kv request (some (tokens ++ input))
  | .cleanup (.finish request) => (kv request).map fun _ => Function.update kv request none
  | .cleanup (.promote parent child) =>
    match kv parent, kv child with
    | some _, some tokens =>
      some (Function.update (Function.update kv parent (some tokens)) child none)
    | _, _ => none
  | .cleanup (.truncate request keep) =>
    (kv request).map fun tokens => Function.update kv request (some (tokens.take keep))

def Kv.run (kv : Kv) : List WireCommand → Option Kv
  | [] => some kv
  | command :: commands => (kv.apply command).bind fun kv => kv.run commands

theorem Kv.run_append (kv : Kv) (first second : List WireCommand) :
    kv.run (first ++ second) = (kv.run first).bind fun kv => kv.run second := by
  induction first generalizing kv with
  | nil => rfl
  | cons command first ih =>
    rw [cons_append, Kv.run, Kv.run]
    cases kv.apply command with
    | none => rfl
    | some kv' => exact ih kv'

variable {kv : Kv}

theorem Kv.run_forks (there : kv parent = some base) {ids : List Nat}
    (distinct : ids.Nodup) (absent : ∀ id ∈ ids, kv id = none) :
    kv.run (ids.map fun id => .fork ⟨id, parent⟩) =
      some fun r => if r ∈ ids then some base else kv r := by
  induction ids generalizing kv with
  | nil => simp [Kv.run]
  | cons id ids ih =>
    obtain ⟨fresh, distinct⟩ := nodup_cons.mp distinct
    have none := absent id mem_cons_self
    have other : parent ≠ id := by
      rintro rfl
      simp [there] at none
    have step : kv.apply (.fork ⟨id, parent⟩) = some (Function.update kv id (some base)) := by
      simp [Kv.apply, none, there]
    rw [map_cons, Kv.run, step, Option.bind_some, ih]
    · congr 1
      funext r
      by_cases e : r = id
      · simp [e]
      · simp [e, Function.update_of_ne]
    · simp [other, there]
    · exact distinct
    · intro id' mem
      have : id' ≠ id := fun e => fresh (e ▸ mem)
      simp [this, absent id' (mem_cons_of_mem _ mem)]

theorem Kv.run_verifies (step pending : Nat) {leaves : List Leaf}
    (distinct : (leaves.map Leaf.virtualRequestId).Nodup)
    (there : ∀ l ∈ leaves, kv l.virtualRequestId = some base) :
    ∃ kv', kv.run (leaves.map fun l => .verify ⟨l.virtualRequestId, step, pending :: l.path⟩) =
    some kv' ∧
      (∀ l ∈ leaves, kv' l.virtualRequestId = some (base ++ pending :: l.path)) ∧
      ∀ r, r ∉ leaves.map Leaf.virtualRequestId → kv' r = kv r := by
  induction leaves generalizing kv with
  | nil => exact ⟨kv, rfl, by simp, fun _ _ => rfl⟩
  | cons l leaves ih =>
    obtain ⟨fresh, distinct⟩ := nodup_cons.mp distinct
    have here := there l mem_cons_self
    have apart : ∀ x ∈ leaves, x.virtualRequestId ≠ l.virtualRequestId :=
      fun x mem e => fresh (e ▸ mem_map_of_mem mem)
    have next : ∀ x ∈ leaves, (Function.update kv l.virtualRequestId
        (some (base ++ pending :: l.path)) : Kv) x.virtualRequestId = some base := by
      intro x mem
      simp [apart x mem, there x (mem_cons_of_mem _ mem)]
    obtain ⟨kv', run, each, others⟩ := ih distinct next
    refine ⟨kv', ?_, ?_, ?_⟩
    · simpa [Kv.run, Kv.apply, here] using run
    · intro x mem
      rcases mem_cons.mp mem with rfl | mem
      · simpa using others _ fresh
      · exact each x mem
    · intro r hr
      rw [map_cons, mem_cons, not_or] at hr
      simpa [hr.1] using others r hr.2

theorem Kv.run_ends {ids : List Nat} (distinct : ids.Nodup) (there : ∀ id ∈ ids, (kv id).isSome) :
    kv.run (ids.map fun id => .cleanup (.finish id)) =
      some fun r => if r ∈ ids then none else kv r := by
  induction ids generalizing kv with
  | nil => simp [Kv.run]
  | cons id ids ih =>
    obtain ⟨fresh, distinct⟩ := nodup_cons.mp distinct
    obtain ⟨tokens, here⟩ := Option.isSome_iff_exists.mp (there id mem_cons_self)
    have step : kv.apply (.cleanup (.finish id)) = some (Function.update kv id none) := by
      simp [Kv.apply, here]
    rw [map_cons, Kv.run, step, Option.bind_some, ih distinct]
    · congr 1
      funext r
      by_cases e : r = id
      · simp [e]
      · simp [e, Function.update_of_ne]
    intro id' mem
    have : id' ≠ id := fun e => fresh (e ▸ mem)
    simpa [this] using there id' (mem_cons_of_mem _ mem)

def launch (w : Wave) (leaves : List Leaf) : List WireCommand :=
  (leaves.map Leaf.virtualRequestId).map (fun id => .fork ⟨id, w.parentRequestId⟩) ++
    leaves.map fun l => .verify ⟨l.virtualRequestId, w.inheritedStep, w.pendingToken :: l.path⟩

section Launch

variable {w : Wave} {leaves : List Leaf} {visible : List Nat}
  (distinct : (leaves.map Leaf.virtualRequestId).Nodup)
  (apart : w.parentRequestId ∉ leaves.map Leaf.virtualRequestId)
  (pending : visible.getLast? = some w.pendingToken)

include distinct apart pending

theorem Kv.run_launch (there : kv w.parentRequestId = some visible.dropLast)
    (absent : ∀ id ∈ leaves.map Leaf.virtualRequestId, kv id = none) :
    ∃ kv', kv.run (launch w leaves) = some kv' ∧
      (∀ l ∈ leaves, kv' l.virtualRequestId = some (visible ++ l.path)) ∧
      kv' w.parentRequestId = some visible.dropLast := by
  have whole : ∀ path, visible.dropLast ++ w.pendingToken :: path = visible ++ path := by
    intro path
    rw [append_cons, dropLast_append_getLast? w.pendingToken pending]
  obtain ⟨kv₀, forked, base, parent₀⟩ : ∃ kv₀, kv.run ((leaves.map Leaf.virtualRequestId).map
      fun id => .fork ⟨id, w.parentRequestId⟩) = some kv₀ ∧
      (∀ l ∈ leaves, kv₀ l.virtualRequestId = some visible.dropLast) ∧
      kv₀ w.parentRequestId = some visible.dropLast :=
    ⟨_, Kv.run_forks there distinct absent, fun l mem => if_pos (mem_map_of_mem mem),
      (if_neg apart).trans there⟩
  obtain ⟨kv', verified, each, others⟩ :=
    Kv.run_verifies w.inheritedStep w.pendingToken distinct base
  refine ⟨kv', ?_, ?_, ?_⟩
  · rw [launch, Kv.run_append, forked]
    exact verified
  · intro l mem
    rw [each l mem, whole]
  · rw [others _ apart, parent₀]

theorem Kv.run_plan {g : List Nat → Nat} (resolved : Resolved g w leaves plan)
    (nonempty : visible ≠ []) (base : w.baseKvTokens = visible.length - 1)
    (there : kv w.parentRequestId = some visible.dropLast)
    (absent : ∀ id ∈ leaves.map Leaf.virtualRequestId, kv id = none) :
    ∃ kv', kv.run (launch w leaves ++ plan.commands.map .cleanup) = some kv' ∧
      kv' w.parentRequestId = some (visible ++ plan.resolution.commitTokens) ∧
      ∀ id ∈ leaves.map Leaf.virtualRequestId, kv' id = none := by
  obtain ⟨kv₁, launched, each, parent₁⟩ := Kv.run_launch distinct apart pending there absent
  obtain ⟨carrier, mem, name, within, full⟩ := resolved.carrier
  have own : carrier.virtualRequestId ∈ leaves.map Leaf.virtualRequestId := mem_map_of_mem mem
  have other : w.parentRequestId ≠ carrier.virtualRequestId := fun e => apart (e ▸ own)
  generalize hlosers : ((leaves.map Leaf.virtualRequestId).filter
    (· ≠ carrier.virtualRequestId)).insertionSort (· ≤ ·) = losers
  have mem_losers : ∀ id, id ∈ losers ↔
      id ∈ leaves.map Leaf.virtualRequestId ∧ id ≠ carrier.virtualRequestId := by
    intro id
    rw [← hlosers, mem_insertionSort, mem_filter]
    simp
  have distinctLosers : losers.Nodup := by
    rw [← hlosers]
    exact (perm_insertionSort _ _).nodup_iff.mpr (distinct.filter _)
  have present : ∀ id ∈ losers, (kv₁ id).isSome := by
    intro id hid
    obtain ⟨l, hl, rfl⟩ := mem_map.mp ((mem_losers id).mp hid).1
    simp [each l hl]
  obtain ⟨kv₂, ended, kept₂, none₂⟩ : ∃ kv₂, kv₁.run (losers.map fun id => .cleanup (.finish id)) =
      some kv₂ ∧ (∀ r, r ∉ losers → kv₂ r = kv₁ r) ∧ ∀ id ∈ losers, kv₂ id = none :=
    ⟨_, Kv.run_ends distinctLosers present, fun r h => if_neg h, fun id h => if_pos h⟩
  have parentKept : w.parentRequestId ∉ losers := fun h => apart ((mem_losers _).mp h).1
  have carrierKept : carrier.virtualRequestId ∉ losers := fun h => ((mem_losers _).mp h).2 rfl
  have promoted : kv₂.apply (.cleanup (.promote w.parentRequestId carrier.virtualRequestId)) =
      some (Function.update (Function.update kv₂ w.parentRequestId (some (visible ++ carrier.path)))
        carrier.virtualRequestId none) := by
    simp [Kv.apply, kept₂ _ parentKept, parent₁, kept₂ _ carrierKept, each carrier mem]
  have closed : ∀ id ∈ leaves.map Leaf.virtualRequestId, ∀ tokens,
      Function.update (Function.update (Function.update kv₂ w.parentRequestId
        (some (visible ++ carrier.path))) carrier.virtualRequestId none) w.parentRequestId
        tokens id = none := by
    intro id hid tokens
    have notParent : id ≠ w.parentRequestId := fun e => apart (e ▸ hid)
    by_cases e : id = carrier.virtualRequestId
    · simp [e, Ne.symm other]
    · simp [notParent, e, none₂ id ((mem_losers id).mpr ⟨hid, e⟩)]
  have keep : w.baseKvTokens + 1 + plan.resolution.acceptedDraftTokens =
      visible.length + plan.resolution.commitTokens.length := by
    have := length_pos_of_ne_nil nonempty
    rw [base, Resolution.acceptedDraftTokens]
    omega
  rw [Kv.run_append, launched, Option.bind_some, resolved.commands, name, commitCommands, hlosers]
  simp only [map_append, map_map, Kv.run_append, Function.comp_def, ended, Option.bind_some]
  simp only [map_cons, map_nil, Kv.run, promoted, Option.bind_some]
  cases required : plan.resolution.truncateRequired with
  | true =>
    refine ⟨Function.update _ w.parentRequestId (some (visible ++ plan.resolution.commitTokens)),
      ?_, by simp, fun id hid => closed id hid _⟩
    have taken : (visible ++ carrier.path).take
        (visible.length + plan.resolution.commitTokens.length) = visible ++
        plan.resolution.commitTokens := by
      rw [take_length_add_append, ← prefix_iff_eq_take.mp within]
    simp [Kv.run, Kv.apply, other, keep, taken]
  | false =>
    refine ⟨_, rfl, ?_, ?_⟩
    · simp [other, full required]
    intro id hid
    have notParent : id ≠ w.parentRequestId := fun e => apart (e ▸ hid)
    simpa [notParent] using closed id hid none

end Launch

end Mycellios.PhysicalTree
