import Mycellios.Data.Greedy
import Mycellios.MacroWave.Shape

namespace Mycellios.MacroWave

open Data List Logic

variable {E : WaveError → Tree → Prop} {g : List Nat → Nat} {tokens : List Nat}
  {b parent last : Branch} {bs : List Branch}

section Paths

variable {t : Tree} (ht : t.Wf)
include ht

theorem Tree.Wf.tokensUp (hat : t.At b tokens) (hr : t.records.find? b = some r) (acc : List Nat) :
    t.tokensUp b.length r acc = .ok (tokens ++ acc) := by
  induction hat generalizing r acc with
  | root => rfl
  | @child b tokens i token r' above found named ih =>
    obtain rfl : r' = r := by simpa [found] using hr
    obtain ⟨hp, -, ⟨above, habove⟩, -⟩ := ht.node b i r' found
    rw [length_append, length_singleton, Tree.tokensUp]
    simp only [hp, named, habove]
    rw [ih habove]
    simp

theorem Tree.Wf.candidateTokens (hat : t.At b tokens) : t.candidateTokens b = .ok tokens := by
  obtain ⟨r, hr⟩ := hat.record ht
  simp [Tree.candidateTokens, hr, ht.tokensUp hat hr]

theorem Tree.Wf.prefixBranches : ∃ pbs, t.prefixBranches = .ok pbs ∧
    ∀ tokens b, (tokens, b) ∈ pbs ↔ t.At b tokens := by
  have named : ∀ bs : List Branch, (∀ b ∈ bs, ∃ r, t.records.find? b = some r) → ∃ pbs,
      bs.mapM (fun b => do return (← t.candidateTokens b, b)) = Except.ok pbs ∧
      ∀ tokens b, (tokens, b) ∈ pbs ↔ b ∈ bs ∧ t.At b tokens := by
    intro bs
    induction bs with
    | nil => exact fun _ => ⟨[], rfl, by simp⟩
    | cons b bs ih =>
      intro h
      obtain ⟨r, hr⟩ := h b mem_cons_self
      obtain ⟨tokens, hat⟩ := ht.exists_at hr
      obtain ⟨pbs, hpbs, hmem⟩ := ih fun c hc => h c (mem_cons_of_mem b hc)
      refine ⟨(tokens, b) :: pbs, ?_, ?_⟩
      · rw [mapM_cons, hpbs, ht.candidateTokens hat]
        rfl
      intro us c
      rw [mem_cons, hmem, Prod.mk.injEq, mem_cons]
      constructor
      · rintro (⟨rfl, rfl⟩ | ⟨hc, h⟩)
        · exact ⟨.inl rfl, hat⟩
        · exact ⟨.inr hc, h⟩
      rintro ⟨rfl | hc, hus⟩
      · exact .inl ⟨hus.tokens_unique hat, rfl⟩
      · exact .inr ⟨hc, hus⟩
  obtain ⟨pbs, hpbs, hmem⟩ := named (sortBranches t.records.keys) (by
    intro b hb
    have hkey : b ∈ t.records.keys := (perm_insertionSort _ _).mem_iff.mp hb
    cases h : t.records.find? b with
    | none => exact absurd hkey ((Dict.find?_eq_none_iff _ _).mp h)
    | some r => exact ⟨r, rfl⟩)
  refine ⟨pbs.insertionSort fun a b => pathLe a.1 b.1, ?_, ?_⟩
  · rw [Tree.prefixBranches, hpbs]
    rfl
  intro tokens b
  rw [(perm_insertionSort _ _).mem_iff, hmem]
  refine ⟨And.right, fun h => ⟨?_, h⟩⟩
  obtain ⟨r, hr⟩ := h.record ht
  exact (perm_insertionSort _ _).mem_iff.mpr (Dict.mem_keys_of_find? hr)

theorem Tree.At.length_lt (hat : t.At b tokens) : tokens.length < t.records.size := by
  have ancestors : ∀ k ≤ b.length, ∃ r, t.records.find? (b.take k) = some r := by
    induction hat with
    | root =>
      intro k _
      obtain ⟨r, hr, -⟩ := ht.root
      exact ⟨r, by simpa using hr⟩
    | @child b tokens i token r above found named ih =>
      intro k hk
      rw [length_append, length_singleton] at hk
      rcases Nat.le_succ_iff.mp hk with hk | rfl
      · rw [take_append_of_le_length hk]
        exact ih k hk
      · exact ⟨r, by rw [take_of_length_le (by simp)]; exact found⟩
  have hlen : b.length = tokens.length := by
    clear ancestors
    induction hat with
    | root => rfl
    | child _ _ _ ih => simp [ih]
  have hsub : (List.range (b.length + 1)).map (fun k => b.take k) ⊆ t.records.keys := by
    intro c hc
    obtain ⟨k, hk, rfl⟩ := mem_map.mp hc
    obtain ⟨r, hr⟩ := ancestors k (Nat.lt_succ_iff.mp (mem_range.mp hk))
    exact Dict.mem_keys_of_find? hr
  have hnodup : ((List.range (b.length + 1)).map (fun k => b.take k)).Nodup := by
    refine nodup_range.map_on fun i hi j hj h => ?_
    have hi := mem_range.mp hi
    have hj := mem_range.mp hj
    have := congrArg List.length h
    rw [length_take, length_take] at this
    omega
  have := (subperm_of_subset hnodup hsub).length_le
  simp only [length_map, length_range, Dict.length_keys] at this
  omega

end Paths

structure Proposal.Fits (p : Proposal) (t : Tree) : Prop where
  wf : t.Wf
  opened : t.Open
  has : ∀ tokens, t.Has tokens ↔ ∃ path ∈ p.candidatePaths, tokens <+: path
  branches : ∀ tokens b, (tokens, b) ∈ p.prefixBranches ↔ t.At b tokens

theorem Tree.init_has (identity : WaveIdentity) (base : List Nat) (version : Nat)
    (tokens : List Nat) : (Tree.init identity base version).Has tokens ↔ tokens = [] := by
  constructor
  · rintro ⟨b, h⟩
    cases h with
    | root => rfl
    | child _ found => simp [Tree.init, rootIdentity] at found
  · rintro rfl
    exact ⟨[], .root⟩

theorem branchedCandidates_fits {digest : Nat → List Nat → String}
    (h : branchedCandidates digest paths requestId ordinal base version strategy ref = .ok (p, t)) :
    p.Fits t ∧ p.candidatePaths = paths ∧ p.tree = ref ∧ t.basePrefixTokens = base := by
  obtain ⟨⟨⟩, hpaths, h⟩ := bind_eq_ok.mp h
  obtain ⟨t₀, ht₀, h⟩ := bind_eq_ok.mp h
  obtain ⟨t₁, ht₁, h⟩ := bind_eq_ok.mp h
  obtain ⟨pbs, hpbs, h⟩ := bind_eq_ok.mp h
  obtain ⟨st, -, h⟩ := bind_eq_ok.mp h
  cases h
  obtain ⟨identity, -, ht₀⟩ := bind_eq_ok.mp ht₀
  obtain ⟨expected, -, ht₀⟩ := bind_eq_ok.mp ht₀
  obtain rfl : Tree.init identity base version = t₀ := by
    split at ht₀
    · cases ht₀
    · simpa using ht₀
  obtain ⟨wf, opened⟩ := Tree.init_wf identity base version
  have ext : (Tree.init identity base version).Extends (fun us => ∃ path ∈ paths, us <+: path)
      t := by
    have hspec := ensurePaths_spec (E := fun _ _ => False) wf opened paths
    unfold runTree at ht₁
    unfold wp at hspec
    cases hrun : ensurePaths paths (Tree.init identity base version) with
    | ok a u =>
      rw [hrun] at hspec ht₁
      cases ht₁
      exact hspec
    | error e u =>
      rw [hrun] at hspec
      exact hspec.elim
  obtain ⟨pbs', hpbs', hmem⟩ := ext.wf.prefixBranches
  obtain rfl : pbs = pbs' := by simpa [hpbs] using hpbs'
  refine ⟨⟨ext.wf, ext.opened, fun tokens => ?_, hmem⟩, rfl, rfl, ext.prefixTokens⟩
  rw [ext.has, Tree.init_has]
  refine ⟨?_, .inr⟩
  rintro (rfl | h)
  · cases paths with
    | nil => simp [checkCandidates] at hpaths
    | cons path paths => exact ⟨path, mem_cons_self, nil_prefix⟩
  · exact h

def Tree.Descends (t : Tree) : Branch → List Branch → List Nat → Branch → Prop
  | parent, [], [], last => parent = last
  | parent, b :: bs, token :: tokens, last =>
    (∃ r, t.records.find? b = some r ∧ r.parentIdentity = some parent ∧ r.tokenId = some token) ∧
      t.Descends b bs tokens last
  | _, _, _, _ => False

theorem Tree.Descends.snoc {t : Tree} (h : t.Descends parent bs tokens last)
    (hr : t.records.find? b = some r) (hp : r.parentIdentity = some last)
    (htoken : r.tokenId = some token) : t.Descends parent (bs ++ [b]) (tokens ++ [token]) b := by
  induction bs generalizing parent tokens with
  | nil =>
    cases tokens with
    | nil =>
      obtain rfl : parent = last := h
      exact ⟨⟨r, hr, hp, htoken⟩, rfl⟩
    | cons => exact h.elim
  | cons c bs ih =>
    cases tokens with
    | nil => exact h.elim
    | cons token' tokens => exact ⟨h.1, ih h.2⟩

theorem Tree.Descends.length_eq {t : Tree} (h : t.Descends parent bs tokens last) :
    bs.length = tokens.length := by
  induction bs generalizing parent tokens with
  | nil =>
    cases tokens with
    | nil => rfl
    | cons => exact h.elim
  | cons c bs ih =>
    cases tokens with
    | nil => exact h.elim
    | cons token tokens => simp [ih h.2]

structure Tree.Accepts (t : Tree) (g : List Nat → Nat) (a : GreedyAcceptance) : Prop where
  wave : a.waveIdentity = t.identity
  descends : t.Descends rootIdentity a.acceptedBranches a.acceptedTokens a.terminalPrefixBranch
  has : t.Has a.acceptedTokens
  exact : a.acceptedTokens = greedy g [] a.acceptedTokens.length
  continuation : a.continuationToken = g a.acceptedTokens
  emitted : a.emittedTokens = a.acceptedTokens ++ [a.continuationToken]
  stuck : ¬t.Has (a.acceptedTokens ++ [a.continuationToken])
  reason : a.stopReason = "candidate_exhausted" ↔ ∀ token, ¬t.Has (a.acceptedTokens ++ [token])

theorem followTargets_spec (ht : t.Wf)
    (htargets : ∀ b tokens, t.At b tokens → targets.find? b = some (g tokens))
    (hat : t.At current tokens) (hdesc : t.Descends rootIdentity branches tokens current)
    (hexact : tokens = greedy g [] tokens.length) (hfuel : t.records.size ≤ tokens.length + fuel) :
    wp (followTargets targets fuel current branches tokens) (fun a t' => t' = t ∧
      t.Accepts g a) E t := by
  induction fuel generalizing current branches tokens with
  | zero => exact absurd (hat.length_lt ht) (by omega)
  | succ fuel ih =>
    obtain ⟨r, hr⟩ := hat.record ht
    simp only [followTargets, childrenOf, record, wp_bind, wp_get, htargets current tokens hat, hr,
      wp_pure]
    cases hchild : (t.childRecords current).find? fun r => r.tokenId = some (g tokens) with
    | some child =>
      obtain ⟨hc, hp, htoken, hfound⟩ := ht.at_child hat hchild
      refine ih hc (hdesc.snoc hfound hp htoken) ?_ (by simp; omega)
      rw [length_append, length_singleton, greedy_succ, ← hexact, nil_append]
    | none =>
      refine ⟨rfl, rfl, hdesc, ⟨current, hat⟩, hexact, rfl, rfl, ?_, ?_⟩
      · rintro ⟨c, hc⟩
        exact ht.no_child hat hchild c hc
      have leaf : t.childRecords current = [] ↔ ∀ token, ¬t.Has (tokens ++ [token]) := by
        simp only [ht.childRecords_eq_nil hat, Tree.Has, not_exists]
      rw [← leaf]
      by_cases h : t.childRecords current = [] <;> simp [h]

theorem verifyGreedyExact_spec (ht : t.Wf) (ho : t.Open)
    (htargets : ∀ b tokens, t.At b tokens → targets.find? b = some (g tokens)) :
    wp (verifyGreedyExact targets) (fun a t' => t' = t ∧ t.Accepts g a) E t := by
  simp only [verifyGreedyExact, requireOpen, wp_bind, wp_get, wp_raiseIf]
  refine ⟨fun h => absurd ho.state h, fun _ => ?_⟩
  have start : t.Descends rootIdentity [] [] rootIdentity := rfl
  exact followTargets_spec ht htargets .root start rfl (by simp)

theorem acceptedVersions_spec (ht : t.Wf) (h : t.Descends parent bs tokens last) :
    wp (acceptedVersions parent (bs.zip tokens)) (fun a t' => t' = t ∧ a.2 = last ∧
      ∀ v ∈ a.1, ∃ kv, t.ledger.records.find? v = some kv) E t := by
  induction bs generalizing parent tokens with
  | nil =>
    cases tokens with
    | nil => exact ⟨rfl, h, by simp⟩
    | cons => exact h.elim
  | cons b bs ih =>
    cases tokens with
    | nil => exact h.elim
    | cons token tokens =>
      obtain ⟨⟨r, hr, hp, htoken⟩, hrest⟩ := h
      simp only [zip_cons_cons, acceptedVersions, record, wp_bind, wp_get, hr, wp_pure,
        wp_raiseIf]
      refine ⟨fun h => absurd hp h, fun _ => ⟨fun h => absurd htoken h, fun _ => ?_⟩⟩
      refine wp_post (ih hrest) ?_
      rintro ⟨vs, l⟩ _ ⟨rfl, hl, hvs⟩
      refine ⟨rfl, hl, fun v hv => ?_⟩
      rcases mem_cons.mp hv with rfl | hv
      · exact ht.version b r hr
      · exact hvs v hv

theorem commitGreedy_spec (ht : t.Wf) (ho : t.Open) (ha : t.Accepts g a) :
    wp (commitGreedy a) (fun _ t' => t'.state = .committed) E t := by
  simp only [commitGreedy, requireOpen, wp_bind, wp_get, wp_raiseIf]
  refine ⟨fun h => absurd ho.state h, fun _ => ⟨fun h => absurd ha.wave h, fun _ =>
    ⟨fun h => absurd ha.descends.length_eq h,
      fun _ => ⟨fun h => absurd ha.emitted h, fun _ => ?_⟩⟩⟩⟩
  refine wp_post (acceptedVersions_spec ht ha.descends) ?_
  rintro ⟨vs, last⟩ u ⟨hu, hlast, hvs⟩
  rw [hu]
  refine ⟨fun h => absurd hlast h, fun _ => ?_⟩
  have head : ∃ kv, t.ledger.records.find? (vs.getLast?.getD t.ledger.baseVersion) = some kv := by
    cases hv : vs.getLast? with
    | none => exact ht.ledger.base
    | some v => exact hvs v (mem_of_getLast? hv)
  obtain ⟨kv, hkv⟩ := head
  simp only [onLedger, settleBranches, wp_zoom, wp_bind, wp_get, wp_set, wp_modify, wp_pure]
  refine wp_post (ht.ledger.finalize ho.finalized hkv) ?_
  rintro _ l ⟨hl, -, r, hr⟩
  rw [KVLedger.resolveTokens, wp_bind]
  exact hl.chainOf hr fun _ _ => trivial

theorem resolution_check (a : GreedyAcceptance) (c : MacroWaveCommit) :
    wp (a.resolution c).check (fun _ t' => t' = t) E t := by
  by_cases exhausted : a.stopReason = "candidate_exhausted"
  · have kind : (a.resolution c).continuationKind = .bonus := by
      simp [GreedyAcceptance.resolution, exhausted]
    simp only [Resolution.check, kind, wp_bind, wp_raiseIf]
    simp [GreedyAcceptance.resolution, exhausted]
  have kind : (a.resolution c).continuationKind = .correction := by
    simp [GreedyAcceptance.resolution, exhausted]
  simp only [Resolution.check, kind, wp_bind, wp_raiseIf]
  simp [GreedyAcceptance.resolution, exhausted]

section Resolve

variable {p : Proposal} {t : Tree} (hp : p.Fits t)
include hp

theorem Proposal.Fits.mem_prefixes : tokens ∈ p.prefixes ↔ t.Has tokens := by
  simp only [Proposal.prefixes, mem_map, Prod.exists, exists_and_right, exists_eq_right]
  exact exists_congr fun b => hp.branches tokens b

theorem Proposal.Fits.branchForPrefix (hat : t.At b tokens) : p.branchForPrefix tokens = .ok b := by
  unfold Proposal.branchForPrefix
  cases h : p.prefixBranches.find? fun e => e.1 = tokens with
  | none => simpa using find?_eq_none.mp h (tokens, b) ((hp.branches tokens b).mpr hat)
  | some e =>
    obtain ⟨tokens', c⟩ := e
    obtain rfl : tokens' = tokens := by simpa using find?_some h
    have hc := (hp.branches tokens' c).mp (mem_of_find?_eq_some h)
    rw [hp.wf.at_injective hc hat]

theorem Proposal.Fits.targetsByBranch (entries : List (List Nat × Nat))
    (hknown : ∀ e ∈ entries, t.Has e.1) (hnodup : (entries.map Prod.fst).Nodup)
    (acc : Dict Branch Nat) (hacc : ∀ e ∈ entries, ∀ b, t.At b e.1 → acc.find? b = none) :
    ∃ d, p.targetsByBranch acc entries = .ok d ∧
      (∀ e ∈ entries, ∀ b, t.At b e.1 → d.find? b = some e.2) ∧
      ∀ b v, acc.find? b = some v → d.find? b = some v := by
  induction entries generalizing acc with
  | nil => exact ⟨acc, rfl, by simp, fun _ _ h => h⟩
  | cons e entries ih =>
    obtain ⟨tokens, target⟩ := e
    obtain ⟨b, hat⟩ := hknown _ mem_cons_self
    obtain ⟨hfresh, hnodup⟩ := nodup_cons.mp hnodup
    have hnone := hacc _ mem_cons_self b hat
    obtain ⟨d, hd, hall, hkeep⟩ := ih (fun e he => hknown e (mem_cons_of_mem _ he)) hnodup
      (acc.insert b target) (by
        intro e he c hc
        have hne : b ≠ c := by
          rintro rfl
          exact hfresh (mem_map.mpr ⟨e, he, hc.tokens_unique hat⟩)
        simpa [hne] using hacc e (mem_cons_of_mem _ he) c hc)
    refine ⟨d, ?_, ?_, ?_⟩
    · rw [Proposal.targetsByBranch, if_neg (not_not.mpr (hp.mem_prefixes.mpr ⟨b, hat⟩)),
        hp.branchForPrefix hat]
      simpa [Dict.contains, hnone] using hd
    · intro e he c hc
      rcases mem_cons.mp he with rfl | he
      · obtain rfl := hp.wf.at_injective hat hc
        exact hkeep _ _ (by simp)
      · exact hall e he c hc
    · intro c v hc
      refine hkeep c v ?_
      have hne : b ≠ c := by
        rintro rfl
        simp [hnone] at hc
      simp [hne, hc]

/-- Where the targets follow one function, the greedy continuation is accepted as far as the tree
holds it. -/
theorem Proposal.Fits.resolve
    (hcover : ∀ tokens, t.Has tokens → targets.find? tokens = some (g tokens))
    (hknown : ∀ tokens ∈ targets.keys, t.Has tokens) :
    wp (resolveMacroWave p targets) (fun res t' => t'.state = .committed ∧
      t.Has res.commitTokens ∧ res.commitTokens = greedy g [] res.commitTokens.length ∧
      ¬t.Has (res.commitTokens ++ [g res.commitTokens]) ∧
      res.emittedTokens = res.commitTokens ++ [g res.commitTokens] ∧
      (res.truncateRequired = false ↔ ∀ token, ¬t.Has (res.commitTokens ++ [token]))) E t := by
  obtain ⟨d, hd, hall, -⟩ := hp.targetsByBranch targets.entries
    (fun e he => hknown e.1 (mem_map.mpr ⟨e, he, rfl⟩)) targets.nodup .empty (by simp)
  have hbranch : ∀ b tokens, t.At b tokens → d.find? b = some (g tokens) := by
    intro b tokens hat
    have hfind := hcover tokens ⟨b, hat⟩
    exact hall _ ((Dict.find?_eq_some_iff _ _ _).mp hfind) b hat
  simp only [resolveMacroWave, hd, raiseExcept, wp_bind, wp_pure]
  refine wp_post (verifyGreedyExact_spec hp.wf hp.opened hbranch) ?_
  rintro a u ⟨hu, ha⟩
  rw [hu]
  refine wp_post (commitGreedy_spec hp.wf hp.opened ha) ?_
  intro c u hu
  refine wp_post (resolution_check a c) ?_
  rintro _ v rfl
  refine ⟨hu, ha.has, ha.exact, ?_, ?_, ?_⟩
  · exact ha.continuation ▸ ha.stuck
  · exact ha.emitted.trans (by rw [ha.continuation]; rfl)
  · simp only [GreedyAcceptance.resolution, Bool.not_eq_false', beq_iff_eq]
    exact ha.reason

end Resolve

end Mycellios.MacroWave
