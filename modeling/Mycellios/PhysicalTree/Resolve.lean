import Mycellios.MacroWave.Exact
import Mycellios.PhysicalTree.Operations

namespace Mycellios.PhysicalTree

open Data List Logic MacroWave

variable {g : List Nat → Nat} {d : Dict (List Nat) Nat} {leaves : List Leaf}

def targetsOf (g : List Nat → Nat) (path : List Nat) : List Nat :=
  (List.range (path.length + 1)).map fun i => g (path.take i)

def Follows (g : List Nat → Nat) (d : Dict (List Nat) Nat) : Prop :=
  ∀ tokens v, d.find? tokens = some v → v = g tokens

theorem Follows.insert (h : Follows g d) (tokens : List Nat) :
    Follows g (d.insert tokens (g tokens)) := Dict.forall_find?_insert rfl h

theorem mergeResult_follows (path : List Nat) (n index : Nat) (h : Follows g d) :
    ∃ d', mergeResult path index
        ((List.range' index n).map fun i => g (path.take i)) d = .ok d' ∧ Follows g d' ∧
      ∀ us, us ∈ d'.keys ↔ us ∈ d.keys ∨ ∃ i, index ≤ i ∧ i < index + n ∧ path.take i = us := by
  induction n generalizing index d with
  | zero =>
    refine ⟨d, rfl, h, fun us => ?_⟩
    simp only [Nat.add_zero]
    constructor
    · exact .inl
    rintro (old | ⟨i, le, lt, -⟩)
    · exact old
    · omega
  | succ n ih =>
    obtain ⟨d', hd', follows, keys⟩ := ih (index + 1) (h.insert (path.take index))
    refine ⟨d', ?_, follows, ?_⟩
    · rw [range'_succ, map_cons, mergeResult]
      cases hf : d.find? (path.take index) with
      | none => exact hd'
      | some v =>
        obtain rfl := h _ v hf
        simpa using hd'
    intro us
    rw [keys us, Dict.mem_keys_insert]
    constructor
    · rintro ((rfl | old) | ⟨i, le, lt, rfl⟩)
      · exact .inr ⟨index, le_rfl, by omega, rfl⟩
      · exact .inl old
      · exact .inr ⟨i, by omega, by omega, rfl⟩
    rintro (old | ⟨i, le, lt, rfl⟩)
    · exact .inl (.inr old)
    rcases Nat.eq_or_lt_of_le le with rfl | lt'
    · exact .inl (.inl rfl)
    · exact .inr ⟨i, lt', by omega, rfl⟩

theorem exists_take_iff {path us : List Nat} :
    (∃ i, 0 ≤ i ∧ i < 0 + (path.length + 1) ∧ path.take i = us) ↔ us <+: path := by
  constructor
  · rintro ⟨i, -, -, rfl⟩
    exact take_prefix i path
  · intro h
    exact ⟨us.length, Nat.zero_le _, by have := h.length_le; omega, (prefix_iff_eq_take.mp h).symm⟩

theorem mergeResults_follows (answered : ∀ l ∈ leaves, l.result = some (targetsOf g l.path))
    (h : Follows g d) : ∃ d', mergeResults leaves d = .ok d' ∧ Follows g d' ∧
      ∀ us, us ∈ d'.keys ↔ us ∈ d.keys ∨ ∃ l ∈ leaves, us <+: l.path := by
  induction leaves generalizing d with
  | nil => exact ⟨d, rfl, h, by simp⟩
  | cons l leaves ih =>
    obtain ⟨d₁, hd₁, follows₁, keys₁⟩ := mergeResult_follows l.path (l.path.length + 1) 0 h
    obtain ⟨d', hd', follows, keys⟩ := ih (fun l hl => answered l (mem_cons_of_mem _ hl)) follows₁
    refine ⟨d', ?_, follows, ?_⟩
    · rw [mergeResults, answered l mem_cons_self]
      simp only [targetsOf, range_eq_range', hd₁, hd']
    intro us
    rw [keys us, keys₁ us, exists_take_iff, or_assoc]
    simp

theorem carrierOf_spec (held : ∃ l ∈ leaves, accepted <+: l.path) :
    ∃ l ∈ leaves, carrierOf accepted leaves = some l.virtualRequestId ∧ accepted <+: l.path := by
  unfold carrierOf
  obtain ⟨l, mem, prefixes⟩ := held
  have hit : l.virtualRequestId ∈
      (leaves.filter fun l => l.path.take accepted.length = accepted).map Leaf.virtualRequestId :=
    mem_map_of_mem (mem_filter.mpr ⟨mem, by simpa using (prefix_iff_eq_take.mp prefixes).symm⟩)
  cases hmin : ((leaves.filter fun l => l.path.take accepted.length = accepted).map
      Leaf.virtualRequestId).min? with
  | none =>
    rw [min?_eq_none_iff.mp hmin] at hit
    cases hit
  | some id =>
    obtain ⟨l', mem', rfl⟩ := mem_map.mp (min?_mem hmin)
    obtain ⟨mem', same⟩ := mem_filter.mp mem'
    have taken : l'.path.take accepted.length = accepted := by simpa using same
    exact ⟨l', mem', rfl, prefix_iff_eq_take.mpr taken.symm⟩

def commitPlan (w : Wave) (leaves : List Leaf) (target : Dict (List Nat) Nat)
    (resolution : Resolution) (carrier : Nat) : TreeCommitPlan where
  parentRequestId := w.parentRequestId
  resolution := resolution
  carrierRequestId := carrier
  targetArgmaxByPrefix := target.entries.insertionSort fun a b => pathLe a.1 b.1
  commands := commitCommands w resolution leaves carrier
  nextStep := w.inheritedStep + 1

/-- The accepted tokens are the greedy ones that the tree holds, and the carrier holds them. -/
structure Resolved (g : List Nat → Nat) (w : Wave) (leaves : List Leaf) (plan : TreeCommitPlan) :
    Prop where
  greedy : plan.resolution.commitTokens = Data.greedy g [] plan.resolution.commitTokens.length
  emitted : plan.resolution.emittedTokens = plan.resolution.commitTokens ++
    [g plan.resolution.commitTokens]
  carrier : ∃ l ∈ leaves, plan.carrierRequestId = l.virtualRequestId ∧
    plan.resolution.commitTokens <+: l.path ∧
    (plan.resolution.truncateRequired = false → plan.resolution.commitTokens = l.path)
  commands : plan.commands = commitCommands w plan.resolution leaves plan.carrierRequestId

theorem tryResolve_ok {Q : Except WaveError Resolution → Coordinator → Prop}
    {E : TreeError → Coordinator → Prop}
    (h : resolveMacroWave proposal target (c.trees proposal.tree) = .ok r t)
    (hQ : Q (.ok r) { c with trees := Function.update c.trees proposal.tree t }) :
    wp (tryResolve proposal target) Q E c := by
  unfold wp tryResolve
  rw [h]
  exact hQ

theorem resolveWave_commits (fits : w.proposal.Fits t)
    (answered : ∀ l ∈ leaves, l.result = some (targetsOf g l.path))
    (paths : ∀ path, path ∈ w.proposal.candidatePaths ↔ ∃ l ∈ leaves, l.path = path) :
    ∃ plan, Resolved g w leaves plan ∧
      ∀ (c : Coordinator) (ref : WaveRef) (E : TreeError → Coordinator → Prop),
        c.orderedLeaves w = leaves → c.trees w.proposal.tree = t →
        wp (resolveWave ref w) (fun a _ => a = .commit plan) E c := by
  obtain ⟨target, merged, follows, keys⟩ :=
    mergeResults_follows answered (d := .empty) (by simp [Follows])
  have known : ∀ us, us ∈ target.keys ↔ t.Has us := by
    intro us
    rw [keys us, fits.has us]
    constructor
    · rintro (h | ⟨l, mem, h⟩)
      · simp [Dict.keys, Dict.empty] at h
      · exact ⟨l.path, (paths _).mpr ⟨l, mem, rfl⟩, h⟩
    rintro ⟨path, mem, h⟩
    obtain ⟨l, hl, rfl⟩ := (paths _).mp mem
    exact .inr ⟨l, hl, h⟩
  have cover : ∀ us, t.Has us → target.find? us = some (g us) := by
    intro us has
    cases hf : target.find? us with
    | none => exact absurd ((known us).mpr has) ((Dict.find?_eq_none_iff _ _).mp hf)
    | some v => rw [follows us v hf]
  have resolve := fits.resolve cover (fun us h => (known us).mp h) (E := fun _ _ => False)
  unfold wp at resolve
  cases hres : resolveMacroWave w.proposal target t with
  | error e t' =>
    rw [hres] at resolve
    exact resolve.elim
  | ok resolution t' =>
    rw [hres] at resolve
    obtain ⟨-, has, greedy, stop, emitted, full⟩ := resolve
    obtain ⟨path, mem, prefixes⟩ := (fits.has _).mp has
    obtain ⟨l, hl, rfl⟩ := (paths _).mp mem
    obtain ⟨carrier, hcarrier, isCarrier, within⟩ := carrierOf_spec ⟨l, hl, prefixes⟩
    refine ⟨commitPlan w leaves target resolution carrier.virtualRequestId,
      ⟨greedy, emitted, ⟨carrier, hcarrier, rfl, within, ?_⟩, rfl⟩, ?_⟩
    · intro bonus
      -- no branch goes on from the accepted tokens, so the carrier ends there
      obtain ⟨rest, hrest⟩ := within
      cases rest with
      | nil => exact (append_nil _).symm.trans hrest
      | cons token rest =>
        refine absurd ?_ (full.mp bonus token)
        refine (fits.has _).mpr ⟨carrier.path, (paths _).mpr ⟨carrier, hcarrier, rfl⟩, rest, ?_⟩
        simpa using hrest
    · intro c ref E ordered tree
      have cover : target.keys ⊆ w.proposal.prefixes ∧ w.proposal.prefixes ⊆ target.keys :=
        ⟨fun us h => fits.mem_prefixes.mpr ((known us).mp h),
          fun us h => (known us).mpr (fits.mem_prefixes.mp h)⟩
      have ordered : w.leaves.filterMap c.leaves.find? = leaves := ordered
      rw [resolveWave]
      simp only [wp_bind, setWave, wp_modify, wp_get, Coordinator.orderedLeaves, ordered, merged]
      simp only [resolveMerged, cover, and_self, not_true_eq_false, if_false, wp_bind, setWave,
        wp_modify]
      apply tryResolve_ok (tree ▸ hres)
      simp only [planCleanup, wp_bind, wp_get, Coordinator.orderedLeaves, ordered, isCarrier]
      rfl

end Mycellios.PhysicalTree
