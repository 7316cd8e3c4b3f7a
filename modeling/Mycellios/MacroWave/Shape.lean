import Mycellios.MacroWave.Adapter

namespace Mycellios.MacroWave

open Data Dict List Logic

structure KVLedger.Wf (l : KVLedger) : Prop where
  base : ∃ r, l.records.find? l.baseVersion = some r
  version : ∀ v r, l.records.find? v = some r → r.version = v ∧ v < l.nextVersion
  parent : ∀ v r, l.records.find? v = some r →
    (r.parentVersion = none → v = l.baseVersion) ∧
    ∀ p, r.parentVersion = some p → p < v ∧ ∃ above, l.records.find? p = some above

theorem KVLedger.Wf.init (tokens : List Nat) (base : Nat) : (KVLedger.init tokens base).Wf where
  base := ⟨_, by simp [KVLedger.init]; rfl⟩
  version v r h := by
    simp only [KVLedger.init, find?_insert, find?_empty] at h ⊢
    split at h
    · cases h
      simp_all
    · cases h
  parent v r h := by
    simp only [KVLedger.init, find?_insert, find?_empty] at h ⊢
    split at h
    · cases h
      simp_all
    · cases h

def KVLedger.below (l : KVLedger) (v : Nat) : List Nat := l.records.keys.filter (· ≤ v)

variable {tokens : List Nat} {b : Branch} {r : BranchRecord} {E : WaveError → Tree → Prop}
  {t : Tree} {l : KVLedger} {v : Nat}

theorem KVLedger.below_lt {r : KVRecord}
    (hr : l.records.find? v = some r) (hp : p < v) : (l.below p).length < (l.below v).length := by
  have hmem : v ∈ l.below v := by
    rw [below, mem_filter]
    exact ⟨mem_keys_of_find? hr, by simp⟩
  have hsub : l.below p = (l.below v).filter (· ≤ p) := by
    rw [below, below, filter_filter]
    refine filter_congr fun x _ => ?_
    rw [Bool.eq_iff_iff]
    simp only [Bool.and_eq_true, decide_eq_true_eq]
    omega
  rw [hsub]
  refine length_filter_lt_length_iff_exists.mpr ⟨v, hmem, ?_⟩
  simpa using hp

theorem KVLedger.Wf.chain (hl : l.Wf) {r : KVRecord} (hr : l.records.find? v = some r)
    (hfuel : (l.below v).length ≤ fuel) (visited : List Nat) (hvisited : ∀ w ∈ visited, v < w) :
    ∃ rs, l.chain (fuel + 1) visited r = .ok rs ∧ l.baseVersion ∈ rs.map KVRecord.version := by
  induction fuel generalizing visited v r with
  | zero =>
    have hp : ∀ p, r.parentVersion ≠ some p := by
      intro p hp
      have := KVLedger.below_lt hr ((hl.parent v r hr).2 p hp).1
      omega
    have hnone : r.parentVersion = none := by
      cases h : r.parentVersion with
      | none => rfl
      | some p => exact absurd h (hp p)
    have hv := (hl.version v r hr).1
    have hbase := (hl.parent v r hr).1 hnone
    have hnot : r.version ∉ visited := fun h => absurd (hvisited _ h) (by omega)
    exact ⟨[r], by simp [KVLedger.chain, hnot, hnone], by simp [hv, hbase]⟩
  | succ fuel ih =>
    have hv := (hl.version v r hr).1
    have hnot : r.version ∉ visited := fun h => absurd (hvisited _ h) (by omega)
    cases hparent : r.parentVersion with
    | none =>
      exact ⟨[r], by simp [KVLedger.chain, hnot, hparent], by simp [hv,
        (hl.parent v r hr).1 hparent]⟩
    | some p =>
      obtain ⟨hlt, above, habove⟩ := (hl.parent v r hr).2 p hparent
      have hless := KVLedger.below_lt hr hlt
      obtain ⟨rs, hrs, hbase⟩ := ih habove (by omega) (r.version :: visited) (by
        intro w hw
        rcases mem_cons.mp hw with rfl | hw
        · omega
        · exact hlt.trans (hvisited w hw))
      refine ⟨r :: rs, ?_, mem_cons_of_mem _ hbase⟩
      rw [KVLedger.chain, if_neg hnot]
      simp only [hparent, habove, hrs]
      rfl

theorem KVLedger.Wf.chainOf (hl : l.Wf) {r : KVRecord}
    (hr : l.records.find? v = some r) {Q : List KVRecord → KVLedger → Prop}
    {E : WaveError → KVLedger → Prop} (hQ : ∀ rs, l.baseVersion ∈ rs.map KVRecord.version →
      Q rs l) : wp (chainOf v) Q E l := by
  have hsize : (l.below v).length ≤ l.records.size := by
    refine (length_filter_le _ _).trans ?_
    simp [Dict.keys, Dict.size]
  obtain ⟨rs, hrs, hbase⟩ := hl.chain hr hsize [] (by simp)
  simp only [KVLedger.chainOf, KVLedger.record, wp_bind, wp_get, hr, wp_pure, hrs]
  exact hQ rs hbase

@[simp] theorem KVRecord.settle_version (accepted : List Nat) (r : KVRecord) :
    (r.settle accepted).version = r.version := by
  unfold settle
  split <;> rfl

@[simp] theorem KVRecord.settle_parentVersion (accepted : List Nat) (r : KVRecord) :
    (r.settle accepted).parentVersion = r.parentVersion := by
  unfold settle
  split <;> rfl

theorem KVLedger.Wf.settle {l' : KVLedger} (hl : l.Wf) (hbase : l'.baseVersion = l.baseVersion)
    (hnext : l'.nextVersion = l.nextVersion)
    (hrecords : l'.records = l.records.mapValues fun _ r => r.settle accepted) : l'.Wf where
  base := by
    obtain ⟨r, hr⟩ := hl.base
    exact ⟨r.settle accepted, by simp [hrecords, hbase, hr]⟩
  version v r hr := by
    rw [hrecords, find?_mapValues] at hr
    obtain ⟨old, hold, rfl⟩ := Option.map_eq_some_iff.mp hr
    simpa [hnext] using hl.version v old hold
  parent v r hr := by
    rw [hrecords, find?_mapValues] at hr
    obtain ⟨old, hold, rfl⟩ := Option.map_eq_some_iff.mp hr
    rw [KVRecord.settle_parentVersion, hbase]
    obtain ⟨hnone, hsome⟩ := hl.parent v old hold
    refine ⟨hnone, fun p hp => ?_⟩
    obtain ⟨hlt, above, habove⟩ := hsome p hp
    exact ⟨hlt, above.settle accepted, by simp [hrecords, habove]⟩

theorem KVLedger.Wf.finalize (hl : l.Wf) (hopen : l.finalized = false)
    {r : KVRecord} (hr : l.records.find? v = some r) {E : WaveError → KVLedger → Prop} :
    wp (finalize v) (fun _ l' => l'.Wf ∧ l'.baseVersion = l.baseVersion ∧
      ∃ r', l'.records.find? v = some r') E l := by
  rw [KVLedger.finalize, wp_bind, wp_get, wp_bind, wp_raiseIf]
  refine ⟨fun h => by simp [hopen] at h, fun _ => ?_⟩
  rw [wp_bind, KVLedger.ancestry, wp_bind]
  refine hl.chainOf hr fun rs hbase => ?_
  simp only [wp_pure, wp_bind, wp_get, wp_raiseIf, wp_set]
  exact ⟨fun h => absurd hbase h, fun _ => ⟨hl.settle rfl rfl rfl, trivial, _, by simp [hr]; rfl⟩⟩

theorem KVLedger.Wf.fork (hl : l.Wf) (hopen : l.finalized = false) {parent : Nat}
    {r : KVRecord} (hr : l.records.find? parent = some r) (hstate : r.state ≠ .rolledBack)
    (owner : Branch) (token : Nat) {E : WaveError → KVLedger → Prop} :
    wp (fork parent owner token) (fun v l' => v = l.nextVersion ∧ l' = { l with
      nextVersion := v + 1
      records := l.records.insert v ⟨v, some parent, [token], some owner, .speculative⟩ }) E l := by
  have hv := (hl.version parent r hr).1
  simp only [KVLedger.fork, KVLedger.record, wp_bind, wp_get, wp_raiseIf, hr, wp_pure, wp_modify]
  refine ⟨fun h => by simp [hopen] at h,
    fun _ => ⟨fun h => absurd h hstate, fun _ => ⟨trivial, ?_⟩⟩⟩
  rw [hv]

theorem KVLedger.Wf.insert (hl : l.Wf) {parent : Nat} {r : KVRecord}
    (hr : l.records.find? parent = some r) (owner : Branch) (token : Nat) :
    KVLedger.Wf { l with
      nextVersion := l.nextVersion + 1
      records := l.records.insert l.nextVersion
        ⟨l.nextVersion, some parent, [token], some owner, .speculative⟩ } where
  base := by
    obtain ⟨b, hb⟩ := hl.base
    have hlt := (hl.version _ _ hb).2
    exact ⟨b, by simp [hlt.ne', hb]⟩
  version v rec hrec := by
    rcases of_find?_insert hrec with ⟨rfl, rfl⟩ | ⟨-, hrec⟩
    · exact ⟨rfl, by dsimp only; omega⟩
    · have := hl.version v rec hrec
      exact ⟨this.1, by dsimp only; omega⟩
  parent v rec hrec := by
    have hlt := (hl.version _ _ hr).2
    have keep : ∀ p above, l.records.find? p = some above →
        ∃ above, (l.records.insert l.nextVersion
          ⟨l.nextVersion, some parent, [token], some owner, .speculative⟩).find? p =
          some above := by
      intro p above hp
      exact ⟨above, by simp [(hl.version p above hp).2.ne', hp]⟩
    rcases of_find?_insert hrec with ⟨rfl, rfl⟩ | ⟨-, hrec⟩
    · refine ⟨by simp, ?_⟩
      rintro p ⟨⟩
      exact ⟨by omega, keep _ _ hr⟩
    obtain ⟨hnone, hsome⟩ := hl.parent v rec hrec
    refine ⟨hnone, fun p hp => ?_⟩
    obtain ⟨hlt', above, habove⟩ := hsome p hp
    exact ⟨hlt', keep p above habove⟩

/-- What `add_branch` keeps: one tree over the slots, children by their lists, siblings of different
tokens, and a KV version for every branch. -/
structure Tree.Wf (t : Tree) : Prop where
  root : ∃ r, t.records.find? [] = some r ∧ r.parentIdentity = none
  identity : ∀ b r, t.records.find? b = some r → r.identity = b
  node : ∀ b i r, t.records.find? (b ++ [i]) = some r →
    r.parentIdentity = some b ∧ (∃ token, r.tokenId = some token) ∧
    (∃ above, t.records.find? b = some above) ∧ ∃ kids, t.children.find? b = some kids ∧
    i < kids.length
  kids : ∀ b kids, t.children.find? b = some kids →
    kids = (List.range kids.length).map (fun i => b ++ [i]) ∧
    ∀ i < kids.length, ∃ r, t.records.find? (b ++ [i]) = some r
  family : ∀ b r, t.records.find? b = some r → ∃ kids, t.children.find? b = some kids
  distinct : ∀ b i j r r', t.records.find? (b ++ [i]) = some r →
    t.records.find? (b ++ [j]) = some r' → r.tokenId = r'.tokenId → i = j
  version : ∀ b r, t.records.find? b = some r → ∃ kv, t.ledger.records.find? r.kvVersion = some kv
  ledger : t.ledger.Wf

structure Tree.Open (t : Tree) : Prop where
  state : t.state = .openWave
  finalized : t.ledger.finalized = false
  branches : ∀ b r, t.records.find? b = some r → r.state ≠ .rolledBack
  versions : ∀ v r, t.ledger.records.find? v = some r → r.state ≠ .rolledBack

inductive Tree.At (t : Tree) : Branch → List Nat → Prop
  | root : t.At [] []
  | child {b : Branch} {tokens : List Nat} {i token : Nat} {r : BranchRecord}
      (above : t.At b tokens) (found : t.records.find? (b ++ [i]) = some r)
      (named : r.tokenId = some token) : t.At (b ++ [i]) (tokens ++ [token])

theorem Tree.init_wf (identity : WaveIdentity) (tokens : List Nat) (version : Nat) :
    (Tree.init identity tokens version).Wf ∧ (Tree.init identity tokens version).Open := by
  have none_child : ∀ b i, (Tree.init identity tokens version).records.find? (b ++ [i]) = none := by
    intro b i
    simp [Tree.init, rootIdentity]
  have only_root : ∀ b r, (Tree.init identity tokens version).records.find? b = some r →
      b = [] ∧ r = ⟨[], none, none, version, version, .committed⟩ := by
    intro b r h
    simp only [Tree.init, rootIdentity, find?_insert, find?_empty] at h
    split at h
    · exact ⟨Eq.symm ‹_›, by cases h; rfl⟩
    · cases h
  constructor
  · refine ⟨⟨_, by simp [Tree.init, rootIdentity]; rfl, rfl⟩, ?_, ?_, ?_, ?_, ?_, ?_, .init _ _⟩
    · intro b r h
      obtain ⟨rfl, rfl⟩ := only_root b r h
      rfl
    · intro b i r h
      simp [none_child] at h
    · intro b kids h
      simp only [Tree.init, rootIdentity, find?_insert, find?_empty] at h
      split at h
      · cases h
        simp
      · cases h
    · intro b r h
      obtain ⟨rfl, rfl⟩ := only_root b r h
      exact ⟨[], by simp [Tree.init, rootIdentity]⟩
    · intro b i j r r' h
      simp [none_child] at h
    · intro b r h
      obtain ⟨rfl, rfl⟩ := only_root b r h
      exact ⟨_, by simp [Tree.init, KVLedger.init]; rfl⟩
  · refine ⟨rfl, rfl, ?_, ?_⟩
    · intro b r h
      obtain ⟨rfl, rfl⟩ := only_root b r h
      simp
    intro v r h
    simp only [Tree.init, KVLedger.init, find?_insert, find?_empty] at h
    split at h
    · cases h
      simp
    · cases h

section Paths

variable {t : Tree} (ht : t.Wf)
include ht

theorem Tree.Wf.exists_at (hr : t.records.find? b = some r) : ∃ tokens, t.At b tokens := by
  induction b using List.reverseRecOn generalizing r with
  | nil => exact ⟨[], .root⟩
  | append_singleton b i ih =>
    obtain ⟨-, ⟨token, htoken⟩, ⟨above, habove⟩, -⟩ := ht.node b i r hr
    obtain ⟨tokens, hat⟩ := ih habove
    exact ⟨tokens ++ [token], .child hat hr htoken⟩

theorem Tree.At.record (h : t.At b tokens) : ∃ r, t.records.find? b = some r := by
  cases h with
  | root =>
    obtain ⟨r, hr, -⟩ := ht.root
    exact ⟨r, hr⟩
  | child _ found _ => exact ⟨_, found⟩

omit ht in
theorem Tree.At.tokens_unique (h : t.At b tokens) (h' : t.At b tokens') : tokens = tokens' := by
  induction h generalizing tokens' with
  | root =>
    generalize hb : ([] : Branch) = b at h'
    cases h' with
    | root => rfl
    | child => simp at hb
  | @child b tokens i token r above found named ih =>
    generalize hb : b ++ [i] = c at h'
    cases h' with
    | root => simp at hb
    | child above' found' named' =>
      obtain ⟨rfl, hi⟩ := append_inj' hb rfl
      cases hi
      rw [found, Option.some.injEq] at found'
      subst found'
      rw [named, Option.some.injEq] at named'
      rw [ih above', named']

theorem Tree.Wf.at_injective (h : t.At b tokens) (h' : t.At b' tokens) : b = b' := by
  induction h generalizing b' with
  | root =>
    generalize hk : ([] : List Nat) = tokens at h'
    cases h' with
    | root => rfl
    | child => simp at hk
  | @child b tokens i token r above found named ih =>
    generalize hk : tokens ++ [token] = tokens' at h'
    cases h' with
    | root => simp at hk
    | child above' found' named' =>
      obtain ⟨rfl, htoken⟩ := append_inj' hk rfl
      cases htoken
      obtain rfl := ih above'
      rw [ht.distinct _ _ _ _ _ found found' (named.trans named'.symm)]

theorem Tree.Wf.mem_childRecords :
    r ∈ t.childRecords b ↔ ∃ i, t.records.find? (b ++ [i]) = some r := by
  unfold Tree.childRecords
  constructor
  · intro h
    obtain ⟨c, hc, hr⟩ := mem_filterMap.mp h
    cases hk : t.children.find? b with
    | none => simp [hk] at hc
    | some kids =>
      rw [hk, Option.getD_some, (ht.kids b kids hk).1] at hc
      obtain ⟨i, -, rfl⟩ := mem_map.mp hc
      exact ⟨i, hr⟩
  · rintro ⟨i, hr⟩
    obtain ⟨-, -, -, kids, hk, hi⟩ := ht.node b i r hr
    refine mem_filterMap.mpr ⟨b ++ [i], ?_, hr⟩
    rw [hk, Option.getD_some, (ht.kids b kids hk).1]
    exact mem_map.mpr ⟨i, mem_range.mpr hi, rfl⟩

theorem Tree.Wf.at_child
    (hb : t.At b tokens) (h : (t.childRecords b).find? (fun r => r.tokenId = some token) = some r) :
    t.At r.identity (tokens ++ [token]) ∧ r.parentIdentity = some b ∧ r.tokenId = some token ∧
      t.records.find? r.identity = some r := by
  obtain ⟨i, hi⟩ := ht.mem_childRecords.mp (mem_of_find?_eq_some h)
  have htoken : r.tokenId = some token := by simpa using find?_some h
  rw [ht.identity _ _ hi]
  exact ⟨.child hb hi htoken, (ht.node b i r hi).1, htoken, hi⟩

theorem Tree.Wf.no_child (hb : t.At b tokens)
    (h : (t.childRecords b).find? (fun r => r.tokenId = some token) = none) (c : Branch) :
    ¬t.At c (tokens ++ [token]) := by
  intro hc
  generalize hk : tokens ++ [token] = tokens' at hc
  cases hc with
  | root => simp at hk
  | @child b' _ i _ r above found named =>
    obtain ⟨rfl, htoken⟩ := append_inj' hk rfl
    cases htoken
    obtain rfl := ht.at_injective hb above
    have hmem := ht.mem_childRecords.mpr ⟨i, found⟩
    simpa [named] using find?_eq_none.mp h r hmem

theorem Tree.Wf.childRecords_eq_nil (hb : t.At b tokens) :
    t.childRecords b = [] ↔ ∀ token c, ¬t.At c (tokens ++ [token]) := by
  constructor
  · intro h token c
    exact ht.no_child hb (by simp [h]) c
  intro h
  rw [eq_nil_iff_forall_not_mem]
  intro r hr
  obtain ⟨i, hi⟩ := ht.mem_childRecords.mp hr
  obtain ⟨-, ⟨token, htoken⟩, -⟩ := ht.node b i r hi
  exact h token _ (.child hb hi htoken)

end Paths

/-- The tree after a branch for `token` was added below `parent`. -/
def Tree.grow (t : Tree) (parent : Branch) (parentRecord : BranchRecord) (kids : List Branch)
    (token : Nat) : Tree :=
  { t with
    ledger := { t.ledger with
      nextVersion := t.ledger.nextVersion + 1
      records := t.ledger.records.insert t.ledger.nextVersion
        ⟨t.ledger.nextVersion, some parentRecord.kvVersion, [token],
          some (parent ++ [kids.length]), .speculative⟩ }
    records := t.records.insert (parent ++ [kids.length])
      ⟨parent ++ [kids.length], some parent, some token, parentRecord.kvVersion,
        t.ledger.nextVersion, .speculative⟩
    children := (t.children.insert parent (kids ++ [parent ++ [kids.length]])).insert
      (parent ++ [kids.length]) [] }

section Grow

variable {t : Tree} (ht : t.Wf) {parent : Branch} {parentRecord : BranchRecord}
  {kids ks : List Branch} {token : Nat} (hparent : t.records.find? parent = some parentRecord)
  (hkids : t.children.find? parent = some kids)
include ht hkids

theorem Tree.Wf.slot_free : t.records.find? (parent ++ [kids.length]) = none := by
  cases h : t.records.find? (parent ++ [kids.length]) with
  | none => rfl
  | some r =>
    obtain ⟨-, -, -, kids', hk, hlt⟩ := ht.node parent _ r h
    rw [hkids, Option.some.injEq] at hk
    subst hk
    exact absurd hlt (lt_irrefl _)

theorem Tree.Wf.grow_find (hr : t.records.find? b = some r) :
    (t.grow parent parentRecord kids token).records.find? b = some r := by
  have hne : parent ++ [kids.length] ≠ b := by
    rintro rfl
    simp [ht.slot_free hkids] at hr
  simp [Tree.grow, hne, hr]

omit ht hkids in
theorem Tree.grow_find_inv (hr : (t.grow parent parentRecord kids token).records.find? b = some r) :
    t.records.find? b = some r ∨ b = parent ++ [kids.length] ∧
      r = ⟨b, some parent, some token, parentRecord.kvVersion, t.ledger.nextVersion,
        .speculative⟩ := by
  rcases of_find?_insert hr with ⟨rfl, rfl⟩ | ⟨-, hr⟩
  · exact .inr ⟨rfl, rfl⟩
  · exact .inl hr

theorem Tree.Wf.grow_at (h : t.At b tokens) :
    (t.grow parent parentRecord kids token).At b tokens := by
  induction h with
  | root => exact .root
  | child _ found named ih => exact .child ih (ht.grow_find hkids found) named

theorem Tree.Wf.grow_at_iff (hat : t.At parent tokens) (b : Branch)
    (us : List Nat) : (t.grow parent parentRecord kids token).At b us ↔
      t.At b us ∨ b = parent ++ [kids.length] ∧ us = tokens ++ [token] := by
  constructor
  · intro h
    induction h with
    | root => exact .inl .root
    | @child b us i tok r above found named ih =>
      rcases Tree.grow_find_inv found with hfound | ⟨hb, rfl⟩
      · rcases ih with ih | ⟨rfl, -⟩
        · exact .inl (.child ih hfound named)
        -- nothing hangs below a slot that was free
        obtain ⟨-, -, ⟨above, habove⟩, -⟩ := ht.node _ i r hfound
        simp [ht.slot_free hkids] at habove
      obtain ⟨rfl, hi⟩ := append_inj' hb rfl
      cases named
      rcases ih with ih | ⟨hself, -⟩
      · rw [ih.tokens_unique hat]
        exact .inr ⟨hb, rfl⟩
      · simp at hself
  · rintro (h | ⟨rfl, rfl⟩)
    · exact ht.grow_at hkids h
    · exact .child (ht.grow_at hkids hat) (by simp [Tree.grow]; rfl) rfl

omit ht hkids in
theorem Tree.grow_kids_inv
    (h : (t.grow parent parentRecord kids token).children.find? b = some ks) :
    (b = parent ++ [kids.length] ∧ ks = []) ∨
      (b = parent ∧ ks = kids ++ [parent ++ [kids.length]]) ∨ t.children.find? b = some ks := by
  rcases of_find?_insert h with ⟨rfl, rfl⟩ | ⟨-, h⟩
  · exact .inl ⟨rfl, rfl⟩
  rcases of_find?_insert h with ⟨rfl, rfl⟩ | ⟨-, h⟩
  · exact .inr (.inl ⟨rfl, rfl⟩)
  · exact .inr (.inr h)

theorem Tree.Wf.slot_childless (h : t.children.find? (parent ++ [kids.length]) = some ks) :
    ks = [] := by
  rw [← length_eq_zero_iff]
  by_contra hlen
  obtain ⟨r, hr⟩ := (ht.kids _ ks h).2 0 (Nat.pos_of_ne_zero hlen)
  obtain ⟨-, -, ⟨above, habove⟩, -⟩ := ht.node _ 0 r hr
  simp [ht.slot_free hkids] at habove

theorem Tree.Wf.grow_kids (h : t.children.find? b = some ks) :
    ∃ ks', (t.grow parent parentRecord kids token).children.find? b = some ks' ∧
      ks.length ≤ ks'.length := by
  by_cases hb : b = parent
  · subst hb
    obtain rfl : kids = ks := by simpa [hkids] using h
    exact ⟨kids ++ [b ++ [kids.length]], by simp [Tree.grow], by simp⟩
  by_cases hc : b = parent ++ [kids.length]
  · subst hc
    exact ⟨[], by simp [Tree.grow], by simp [ht.slot_childless hkids h]⟩
  · exact ⟨ks, by simp [Tree.grow, Ne.symm hb, Ne.symm hc, h], le_rfl⟩

theorem Tree.Wf.grow_distinct (hnew : ∀ r ∈ t.childRecords parent, r.tokenId ≠ some token)
    (hr : (t.grow parent parentRecord kids token).records.find? (b ++ [i]) = some r)
    (hr' : (t.grow parent parentRecord kids token).records.find? (b ++ [j]) = some r')
    (htok : r.tokenId = r'.tokenId) : i = j := by
  have fresh : ∀ {l x}, t.records.find? (parent ++ [l]) = some x → x.tokenId ≠ some token :=
    fun h => hnew _ (ht.mem_childRecords.mpr ⟨_, h⟩)
  rcases Tree.grow_find_inv hr with old | ⟨hb, rfl⟩ <;> rcases Tree.grow_find_inv hr' with old' |
    ⟨hb', rfl⟩
  · exact ht.distinct b i j r r' old old' htok
  · obtain ⟨rfl, -⟩ := append_inj' hb' rfl
    exact absurd htok (fresh old)
  · obtain ⟨rfl, -⟩ := append_inj' hb rfl
    exact absurd htok.symm (fresh old')
  · simpa using hb.trans hb'.symm

include hparent

theorem Tree.Wf.grow (hnew : ∀ r ∈ t.childRecords parent, r.tokenId ≠ some token) :
    (t.grow parent parentRecord kids token).Wf where
  root := by
    obtain ⟨r, hr, hn⟩ := ht.root
    exact ⟨r, ht.grow_find hkids hr, hn⟩
  identity b r hr := by
    rcases Tree.grow_find_inv hr with hr | ⟨rfl, rfl⟩
    · exact ht.identity b r hr
    · rfl
  node b i r hr := by
    rcases Tree.grow_find_inv hr with hr | ⟨hb, rfl⟩
    · obtain ⟨hp, htok, ⟨above, habove⟩, ks, hks, hi⟩ := ht.node b i r hr
      obtain ⟨ks', hks', hle⟩ := ht.grow_kids hkids hks
      exact ⟨hp, htok, ⟨above, ht.grow_find hkids habove⟩, ks', hks', hi.trans_le hle⟩
    obtain ⟨rfl, hi⟩ := append_inj' hb rfl
    cases hi
    exact ⟨rfl, ⟨token, rfl⟩, ⟨parentRecord, ht.grow_find hkids hparent⟩,
      kids ++ [b ++ [kids.length]], by simp [Tree.grow], by simp⟩
  kids b ks hks := by
    rcases Tree.grow_kids_inv hks with ⟨rfl, rfl⟩ | ⟨rfl, rfl⟩ | hks
    · simp
    · obtain ⟨hrange, hall⟩ := ht.kids b kids hkids
      refine ⟨?_, fun i hi => ?_⟩
      · rw [length_append, length_singleton, range_succ, map_append, ← hrange]
        rfl
      rw [length_append, length_singleton] at hi
      rcases Nat.lt_succ_iff_lt_or_eq.mp hi with hi | rfl
      · obtain ⟨r, hr⟩ := hall i hi
        exact ⟨r, ht.grow_find hkids hr⟩
      · exact ⟨_, by simp [Tree.grow]; rfl⟩
    · obtain ⟨hrange, hall⟩ := ht.kids b ks hks
      refine ⟨hrange, fun i hi => ?_⟩
      obtain ⟨r, hr⟩ := hall i hi
      exact ⟨r, ht.grow_find hkids hr⟩
  family b r hr := by
    rcases Tree.grow_find_inv hr with hr | ⟨rfl, -⟩
    · obtain ⟨ks, hks⟩ := ht.family b r hr
      obtain ⟨ks', hks', -⟩ := ht.grow_kids hkids hks
      exact ⟨ks', hks'⟩
    · exact ⟨[], by simp [Tree.grow]⟩
  distinct b i j r r' hr hr' htok := ht.grow_distinct hkids hnew hr hr' htok
  version b r hr := by
    rcases Tree.grow_find_inv hr with hr | ⟨-, rfl⟩
    · obtain ⟨kv, hkv⟩ := ht.version b r hr
      exact ⟨kv, by simp [Tree.grow, (ht.ledger.version _ _ hkv).2.ne', hkv]⟩
    · exact ⟨_, by simp [Tree.grow]; rfl⟩
  ledger := by
    obtain ⟨kv, hkv⟩ := ht.version parent parentRecord hparent
    exact ht.ledger.insert hkv _ token

omit ht hkids hparent in
theorem Tree.Open.grow (ho : t.Open) : (t.grow parent parentRecord kids token).Open where
  state := ho.state
  finalized := ho.finalized
  branches b r hr := by
    rcases Tree.grow_find_inv hr with hr | ⟨-, rfl⟩
    · exact ho.branches b r hr
    · simp
  versions v r hr := by
    rcases of_find?_insert hr with ⟨-, rfl⟩ | ⟨-, hr⟩
    · simp
    · exact ho.versions v r hr

end Grow

theorem addBranch_spec (ht : t.Wf) (ho : t.Open) (hat : t.At parent tokens)
    (hnew : (t.childRecords parent).find? (fun r => r.tokenId = some token) = none) :
    wp (addBranch parent token) (fun child t' => ∃ parentRecord kids,
      t.records.find? parent = some parentRecord ∧ t.children.find? parent = some kids ∧
      child = parent ++ [kids.length] ∧ t' = t.grow parent parentRecord kids token) E t := by
  obtain ⟨parentRecord, hparent⟩ := hat.record ht
  obtain ⟨kids, hkids⟩ := ht.family parent parentRecord hparent
  obtain ⟨kv, hkv⟩ := ht.version parent parentRecord hparent
  simp only [addBranch, requireOpen, record, onLedger, wp_bind, wp_get, wp_raiseIf, hparent,
    wp_pure, hkids, wp_zoom, wp_modify]
  refine ⟨fun h => absurd ho.state h, fun _ => ⟨fun h => absurd h (ho.branches _ _ hparent),
      fun _ =>
    ⟨fun h => by simp [Tree.childWithToken, hnew] at h, fun _ => ?_⟩⟩⟩
  refine wp_mono (ht.ledger.fork ho.finalized hkv (ho.versions _ _ hkv) _ token) ?_ fun e l h => h
  rintro v l ⟨rfl, rfl⟩
  exact ⟨parentRecord, kids, rfl, rfl, rfl, rfl⟩

def Tree.Has (t : Tree) (tokens : List Nat) : Prop := ∃ b, t.At b tokens

/-- A well-formed open tree with the paths of the old one and the new ones. -/
structure Tree.Extends (t : Tree) (new : List Nat → Prop) (t' : Tree) : Prop where
  wf : t'.Wf
  opened : t'.Open
  prefixTokens : t'.basePrefixTokens = t.basePrefixTokens
  has : ∀ tokens, t'.Has tokens ↔ t.Has tokens ∨ new tokens

theorem descend_spec (ht : t.Wf) (ho : t.Open) (hat : t.At current tokens) (rest : List Nat) :
    wp (descend current rest) (fun b t' => t'.At b (tokens ++ rest) ∧
      t.Extends (fun us => tokens <+: us ∧ us <+: tokens ++ rest) t') E t := by
  induction rest generalizing t current tokens with
  | nil =>
    rw [descend, wp_pure, append_nil]
    refine ⟨hat, ht, ho, rfl, fun us => ⟨.inl, ?_⟩⟩
    rintro (h | ⟨h, h'⟩)
    · exact h
    · rw [h'.eq_of_length_le h.length_le]
      exact ⟨current, hat⟩
  | cons token rest ih =>
    have cover : ∀ us, tokens <+: us ∧ us <+: tokens ++ token :: rest ↔
        us = tokens ∨ (tokens ++ [token] <+: us ∧ us <+: tokens ++ [token] ++ rest) := by
      intro us
      rw [append_assoc, singleton_append]
      constructor
      · rintro ⟨⟨v, rfl⟩, h⟩
        rw [prefix_append_right_inj] at h
        cases v with
        | nil => exact .inl (append_nil _)
        | cons x v =>
          obtain ⟨rfl, -⟩ := cons_prefix_cons.mp h
          refine .inr ⟨⟨v, by simp⟩, ?_⟩
          rwa [prefix_append_right_inj]
      · rintro (rfl | ⟨h, h'⟩)
        · exact ⟨prefix_rfl, prefix_append _ _⟩
        · exact ⟨(prefix_append _ _).trans h, h'⟩
    rw [descend, wp_bind, wp_get]
    cases hchild : t.childWithToken current token with
    | some child =>
      obtain ⟨hc, -⟩ := ht.at_child hat hchild
      refine wp_post (ih ht ho hc) ?_
      rintro b t' ⟨hb, ext⟩
      refine ⟨by simpa using hb, ext.wf, ext.opened, ext.prefixTokens, fun us => ?_⟩
      rw [ext.has, cover]
      constructor
      · rintro (h | h)
        · exact .inl h
        · exact .inr (.inr h)
      rintro (h | rfl | h)
      · exact .inl h
      · exact .inl ⟨current, hat⟩
      · exact .inr h
    | none =>
      rw [wp_bind]
      refine wp_post (addBranch_spec ht ho hat hchild) ?_
      rintro child _ ⟨parentRecord, kids, hparent, hkids, rfl, rfl⟩
      have hnew : ∀ r ∈ t.childRecords current, r.tokenId ≠ some token := by
        intro r hr
        simpa using find?_eq_none.mp hchild r hr
      have hwf := ht.grow hparent hkids hnew
      have hgrown : ∀ b us, (t.grow current parentRecord kids token).At b us ↔ _ :=
        ht.grow_at_iff hkids hat
      have hc := (hgrown _ _).mpr (.inr ⟨rfl, rfl⟩)
      refine wp_post (ih hwf ho.grow hc) ?_
      rintro b t' ⟨hb, ext⟩
      refine ⟨by simpa using hb, ext.wf, ext.opened, ext.prefixTokens, fun us => ?_⟩
      rw [ext.has, cover]
      constructor
      · rintro (⟨c, h⟩ | h)
        · rcases (hgrown c us).mp h with h | ⟨-, rfl⟩
          · exact .inl ⟨c, h⟩
          · exact .inr (.inr ⟨prefix_rfl, prefix_append _ _⟩)
        · exact .inr (.inr h)
      rintro (⟨c, h⟩ | rfl | h)
      · exact .inl ⟨c, (hgrown c us).mpr (.inl h)⟩
      · exact .inl ⟨current, (hgrown _ _).mpr (.inl hat)⟩
      · exact .inr h

theorem ensurePath_spec (ht : t.Wf) (ho : t.Open) (path : List Nat) :
    wp (ensurePath path) (fun _ t' => t.Extends (· <+: path) t') E t := by
  obtain ⟨root, hroot, -⟩ := ht.root
  simp only [ensurePath, requireOpen, record, rootIdentity, wp_bind, wp_get, wp_raiseIf, hroot,
    wp_pure]
  refine ⟨fun h => absurd ho.state h, fun _ => ?_⟩
  refine wp_post (descend_spec ht ho .root path) ?_
  rintro b t' ⟨-, ext⟩
  exact ⟨ext.wf, ext.opened, ext.prefixTokens, by simpa using ext.has⟩

theorem ensurePaths_spec (ht : t.Wf) (ho : t.Open) (paths : List (List Nat)) :
    wp (ensurePaths paths) (fun _ t' => t.Extends (fun us => ∃ path ∈ paths, us <+: path) t') E
    t := by
  induction paths generalizing t with
  | nil => exact ⟨ht, ho, rfl, by simp⟩
  | cons path paths ih =>
    rw [ensurePaths, wp_bind]
    refine wp_post (ensurePath_spec ht ho path) ?_
    rintro _ t' ext
    refine wp_post (ih ext.wf ext.opened) ?_
    rintro _ u ext'
    refine ⟨ext'.wf, ext'.opened, ext'.prefixTokens.trans ext.prefixTokens, fun us => ?_⟩
    rw [ext'.has, ext.has]
    simp only [mem_cons, exists_eq_or_imp]
    tauto

end Mycellios.MacroWave
