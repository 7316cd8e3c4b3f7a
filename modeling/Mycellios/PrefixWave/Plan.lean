import Mycellios.PrefixWave.Rounds
import Mycellios.PrefixWave.Schedule

namespace Mycellios.PrefixWave

open Data List Logic MacroWave

section Ordered

theorem pathLe_total (a b : List Nat) : pathLe a b ∨ pathLe b a := by
  rcases Nat.lt_trichotomy a.length b.length with less | same | more
  · exact .inl (.inl less)
  · exact (le_total a b).imp (fun le => .inr ⟨same, le⟩) (fun le => .inr ⟨same.symm, le⟩)
  · exact .inr (.inl more)

theorem pathLe_trans (ab : pathLe a b) (bc : pathLe b c) : pathLe a c := by
  rcases ab with ab | ⟨ab, le⟩ <;> rcases bc with bc | ⟨bc, le'⟩
  · exact .inl (ab.trans bc)
  · exact .inl (bc ▸ ab)
  · exact .inl (ab ▸ bc)
  · exact .inr ⟨ab.trans bc, le.trans le'⟩

instance : Std.Total pathLe := ⟨pathLe_total⟩

instance : IsTrans (List Nat) pathLe := ⟨fun _ _ _ => pathLe_trans⟩

theorem pathLe_length (h : pathLe a b) : a.length ≤ b.length :=
  h.elim Nat.le_of_lt fun same => same.1.le

theorem mem_orderedPrefixes :
    p ∈ orderedPrefixes (prefixSet fullPaths) ↔ p ∈ prefixSet fullPaths := by
  rw [orderedPrefixes, mem_cons, mem_insertionSort, mem_filter, decide_eq_true_eq]
  constructor
  · rintro (rfl | mem)
    · exact mem_prefixSet.mpr (.inl rfl)
    · exact mem.1
  intro mem
  by_cases empty : p = []
  · exact .inl empty
  · exact .inr ⟨mem, empty⟩

theorem nodup_orderedPrefixes : (orderedPrefixes (prefixSet fullPaths)).Nodup := by
  have rest := (perm_insertionSort pathLe ((prefixSet fullPaths).filter (· ≠ []))).nodup_iff.mpr
    ((nodup_prefixSet fullPaths).filter _)
  refine nodup_cons.mpr ⟨fun mem => ?_, rest⟩
  rw [mem_insertionSort, mem_filter] at mem
  exact of_decide_eq_true mem.2 rfl

theorem orderedPrefixes_perm : (orderedPrefixes (prefixSet fullPaths)).Perm (prefixSet fullPaths) :=
  (perm_ext_iff_of_nodup nodup_orderedPrefixes (nodup_prefixSet _)).mpr fun _ => mem_orderedPrefixes

theorem orderedPrefixes_length :
    (orderedPrefixes (prefixSet fullPaths)).Pairwise fun a b => a.length ≤ b.length := by
  refine pairwise_cons.mpr ⟨fun _ _ => Nat.zero_le _, ?_⟩
  exact (pairwise_insertionSort pathLe _).imp pathLe_length

end Ordered

section Accepted

theorem checkTokens_eq_ok :
    checkTokens tokens = .ok u ↔ ∀ token ∈ tokens, token ≤ uint32Max := by
  induction tokens with
  | nil => simp [checkTokens]
  | cons token tokens ih =>
    simp only [checkTokens, bind_eq_ok, ih, checkToken, forall_mem_cons]
    by_cases large : uint32Max < token
    · simp [large]
    · simp [large, Nat.not_lt.mp large]

theorem tokenPath_eq_ok :
    tokenPath name values depth allowEmpty = .ok u ↔ (values = [] → allowEmpty = true) ∧
      values.length ≤ depth ∧ ∀ token ∈ values, token ≤ uint32Max := by
  simp only [tokenPath, throw_bind, raise_eq_ok, checkTokens_eq_ok, not_lt, not_and,
    Bool.not_eq_false]

theorem candidatePathsOk_eq_ok : candidatePathsOk depth paths = .ok u ↔
    ∀ path ∈ paths, path ≠ [] ∧ path.length ≤ depth ∧ ∀ token ∈ path, token ≤ uint32Max := by
  induction paths with
  | nil => simp [candidatePathsOk]
  | cons path paths ih =>
    simp only [candidatePathsOk, bind_eq_ok, ih, tokenPath_eq_ok, forall_mem_cons,
      Bool.false_eq_true, imp_false]
    exact ⟨fun ⟨_, here, rest⟩ => ⟨here, rest⟩, fun ⟨here, rest⟩ => ⟨(), here, rest⟩⟩

structure Accepted (shared : List Nat) (candidates paths : List (List Nat)) : Prop where
  perm : paths.Perm candidates
  some : paths ≠ []
  inner : [] ∉ paths
  sorted : paths.Pairwise (· < ·)
  free : paths.Pairwise fun a b => ¬a <+: b

theorem sortedCandidates_ok
    (h : sortedCandidates candidates shared maxPaths maxDepth maxNodes = .ok paths) :
    Accepted shared candidates paths := by
  simp only [sortedCandidates, bind_eq_ok, throw_bind, raise_eq_ok,
    candidatePathsOk_eq_ok] at h
  obtain ⟨_, -, _, -, _, -, _, -, some, -, _, each, nodup, free, -, done⟩ := h
  obtain rfl := Except.ok.inj done
  have perm : (candidates.insertionSort (· ≤ ·)).Perm candidates := perm_insertionSort _ candidates
  have distinct := not_not.mp nodup
  have sorted : (candidates.insertionSort (· ≤ ·)).Pairwise (· < ·) :=
    ((pairwise_insertionSort (α := List Nat) (· ≤ ·) candidates).and distinct).imp
      fun both => lt_of_le_of_ne both.1 both.2
  refine ⟨perm, fun none => some (perm_nil.mp (none ▸ perm.symm)), fun mem => ?_, sorted, ?_⟩
  · exact (each [] (perm.mem_iff.mp mem)).1 rfl
  · exact prefixFree_of_sorted sorted (Bool.not_eq_true _ ▸ free)

variable (h : Accepted shared candidates paths)

include h

theorem Accepted.prefix_eq (ha : a ∈ paths) (hb : b ∈ paths) (pre : a <+: b) : a = b := by
  have apart : paths.Pairwise fun a b => ¬a <+: b ∧ ¬b <+: a :=
    (h.sorted.and h.free).imp fun ⟨less, free⟩ => ⟨free, fun back => back.le less⟩
  have : Std.Symm fun a b : List Nat => ¬a <+: b ∧ ¬b <+: a := ⟨fun _ _ both => both.symm⟩
  by_contra other
  exact (apart.forall ha hb other).1 pre

theorem Accepted.trie :
    PathTrie (paths.map (shared ++ ·)) (orderedPrefixes (prefixSet (paths.map (shared ++ ·)))) where
  head := rfl
  nodup := nodup_orderedPrefixes
  mem := fun _ => mem_orderedPrefixes
  some := fun none => h.some (map_eq_nil_iff.mp none)
  inner := by
    intro mem
    obtain ⟨path, listed, empty⟩ := mem_map.mp mem
    exact h.inner ((append_eq_nil_iff.mp empty).2 ▸ listed)
  distinct := by
    have distinct : paths.Nodup := h.sorted.imp ne_of_lt
    exact distinct.map fun _ _ same => append_cancel_left same
  free := by
    intro a ha b hb pre
    obtain ⟨p, listed, rfl⟩ := mem_map.mp ha
    obtain ⟨q, listed', rfl⟩ := mem_map.mp hb
    rw [h.prefix_eq listed listed' ((prefix_append_right_inj shared).mp pre)]

end Accepted

section Tables

theorem nodeId_inj (hp : p ∈ ordered) (same : nodeId ordered p = nodeId ordered q) : p = q := by
  have found := List.getElem_idxOf (List.idxOf_lt_length_iff.mpr hp)
  have inside : nodeId ordered q < ordered.length := same ▸ List.idxOf_lt_length_iff.mpr hp
  have found' := List.getElem_idxOf inside
  rw [← found, ← found']
  exact getElem_congr_idx same

theorem getElem?_nodeId (hp : p ∈ ordered) : ordered[nodeId ordered p]? = some p :=
  List.getElem?_eq_some_iff.mpr ⟨_, List.getElem_idxOf (List.idxOf_lt_length_iff.mpr hp)⟩

theorem keyed_eq_ok {a : α} : keyed x = .ok a ↔ x = some a := by
  cases x <;> simp [keyed]

structure PrefixSegmentNode.Of (ordered : List (List Nat)) (p : List Nat)
    (node : PrefixSegmentNode) : Prop where
  tokens : node.tokens = p
  children : node.childNodeIds = (childrenIn ordered p).map (PrefixWave.nodeId ordered)

theorem makeNode_ok {laneOf : Dict (List Nat) Nat} {below : Dict (List Nat) (List Nat)}
    {node : PrefixSegmentNode} (h : makeNode ordered fullPaths laneOf below p = .ok node) :
    node.Of ordered p := by
  simp only [makeNode, bind_eq_ok, keyed_eq_ok] at h
  obtain ⟨_, -, _, -, done⟩ := h
  rw [← Except.ok.inj done]
  exact ⟨rfl, rfl⟩

structure PrefixSegmentLeaf.Of (laneOf : Dict (List Nat) Nat) (entry : (List Nat × List Nat) × Nat)
    (leaf : PrefixSegmentLeaf) : Prop where
  lane : laneOf.find? entry.1.2 = some leaf.laneId
  candidatePath : leaf.candidatePath = entry.1.1

theorem makeLeaf_ok {laneOf : Dict (List Nat) Nat} {entry : (List Nat × List Nat) × Nat}
    {leaf : PrefixSegmentLeaf} (h : makeLeaf ordered laneOf entry = .ok leaf) :
    leaf.Of laneOf entry := by
  simp only [makeLeaf, bind_eq_ok, keyed_eq_ok] at h
  obtain ⟨lane, found, done⟩ := h
  rw [← Except.ok.inj done]
  exact ⟨found, rfl⟩

theorem exists_mapM {f : α → Except ε β} {xs : List α} (each : ∀ x ∈ xs, ∃ y, f x = .ok y) :
    ∃ ys, xs.mapM f = .ok ys := by
  induction xs with
  | nil => exact ⟨[], rfl⟩
  | cons x xs ih =>
    obtain ⟨⟨y, here⟩, each⟩ := forall_mem_cons.mp each
    obtain ⟨ys, rest⟩ := ih each
    exact ⟨y :: ys, by rw [mapM_cons, here, rest]; rfl⟩

theorem descendantLeaves_ok (closed : PrefixClosed ordered) {todo : List (List Nat)}
    (sorted : todo.Pairwise fun a b => b.length ≤ a.length)
    (all : ∀ p ∈ ordered, p ∈ below.keys ∨ p ∈ todo) :
    ∃ below', descendantLeaves ordered fullPaths todo below = .ok below' ∧
    ∀ p ∈ ordered, p ∈ below'.keys := by
  induction todo generalizing below with
  | nil => exact ⟨below, rfl, fun p mem => (all p mem).resolve_right not_mem_nil⟩
  | cons p todo ih =>
    obtain ⟨first, sorted⟩ := pairwise_cons.mp sorted
    have known : ∀ c ∈ childrenIn ordered p, ∃ leaves, keyed (below.find? c) = .ok leaves := by
      intro c child
      obtain ⟨mem, token, rfl⟩ := closed.mem_children.mp child
      have old : p ++ [token] ∈ below.keys := by
        refine (all _ mem).resolve_right fun later => ?_
        have short : (p ++ [token]).length ≤ p.length :=
          (mem_cons.mp later).elim (fun same => (congrArg List.length same).le) (first _)
        rw [length_append, length_singleton] at short
        omega
      obtain ⟨leaves, found⟩ := Option.ne_none_iff_exists'.mp fun missing =>
        (Dict.find?_eq_none_iff ..).mp missing old
      exact ⟨leaves, keyed_eq_ok.mpr found⟩
    obtain ⟨inherited, found⟩ := exists_mapM known
    have later : ∀ leaves, ∀ q ∈ ordered, q ∈ (below.insert p leaves).keys ∨ q ∈ todo := by
      intro leaves q mem
      rw [Dict.mem_keys_insert]
      rcases all q mem with old | later
      · exact .inl (.inr old)
      rcases mem_cons.mp later with here | later
      · exact .inl (.inl here)
      · exact .inr later
    simp only [descendantLeaves, found]
    exact ih sorted (later _)

end Tables

section Scheduled

structure Scheduled (ordered fullPaths paths : List (List Nat)) (st : Planner (List Nat))
    (s : PrefixSegmentSchedule) : Prop where
  candidatePaths : s.candidatePaths = paths
  nodes : List.Forall₂ (PrefixSegmentNode.Of ordered) ordered s.nodes
  leaves : List.Forall₂ (PrefixSegmentLeaf.Of st.laneOf) (paths.zip fullPaths).zipIdx s.leaves
  forks : s.forks = st.forks.map (Fork.schedule ordered)
  segments : s.segments = st.segments.map (Segment.schedule ordered)
  operations : s.operations = st.operations.map (Operation.schedule ordered)
  forkCount : s.cost.forkCount = st.forks.length
  laneCount : s.cost.laneCount = st.nextLane

def triePrefixes (shared : List Nat) (paths : List (List Nat)) : List (List Nat) :=
  orderedPrefixes (prefixSet (paths.map (shared ++ ·)))

theorem scheduleCandidates_ok (h : scheduleCandidates shared paths = .ok s) :
    ∃ st, planTrie (triePrefixes shared paths) = .ok st ∧
      Scheduled (triePrefixes shared paths) (paths.map (shared ++ ·)) paths st s := by
  simp only [scheduleCandidates, bind_eq_ok, throw_bind, raise_eq_ok] at h
  obtain ⟨st, planned, -, -, below, -, nodes, made, leaves, madeLeaves, -, done⟩ := h
  rw [← Except.ok.inj done]
  exact ⟨st, planned, rfl, (mapM_eq_ok.mp made).imp fun _ _ => makeNode_ok,
    (mapM_eq_ok.mp madeLeaves).imp fun _ _ => makeLeaf_ok, rfl, rfl, rfl, rfl, rfl⟩

theorem Accepted.scheduled (h : Accepted shared candidates paths) : ∃ st lanes s,
    scheduleCandidates shared paths = .ok s ∧
      Scheduled (triePrefixes shared paths) (paths.map (shared ++ ·)) paths st s ∧
      st.Plans (Data.trie (triePrefixes shared paths)) (triePrefixes shared paths) lanes := by
  rw [triePrefixes]
  set fullPaths := paths.map (shared ++ ·) with fullEq
  set ordered := orderedPrefixes (prefixSet fullPaths) with orderedEq
  have tree : PathTrie fullPaths ordered := h.trie
  obtain ⟨st, lanes, planned, plans⟩ := planTree_spec id tree.wf tree.root_children
  have length : ordered.length = (prefixSet fullPaths).length := orderedPrefixes_perm.length_eq
  have size : st.laneOf.size = (prefixSet fullPaths).length := by
    rw [← Dict.length_keys, plans.keys.length_eq, length]
  have reached := plans.reached
  have computed : ((st.segments.map (Segment.schedule ordered)).flatMap (·.nodeIds)) =
      (st.segments.flatMap (·.nodes)).map (nodeId ordered) := by
    rw [flatMap_map, map_flatMap]
    rfl
  have computedLength : ((st.segments.map (Segment.schedule ordered)).flatMap (·.nodeIds)).length =
      (prefixSet fullPaths).length - 1 := by
    have := reached.length_eq
    rw [Planner.reached, length_cons, length] at this
    rw [computed, length_map]
    omega
  have computedNodup :
      ((st.segments.map (Segment.schedule ordered)).flatMap (·.nodeIds)).Nodup := by
    have distinct := reached.nodup_iff.mpr tree.nodup
    rw [computed]
    refine (nodup_cons.mp distinct).2.map_on fun p hp q _ same => nodeId_inj ?_ same
    exact reached.mem_iff.mp (mem_cons_of_mem _ hp)
  obtain ⟨below, described, complete⟩ : ∃ below,
      descendantLeaves ordered fullPaths ordered.reverse Dict.empty = .ok below ∧
      ∀ p ∈ ordered, p ∈ below.keys :=
    descendantLeaves_ok tree.closed (pairwise_reverse.mpr orderedPrefixes_length)
      fun p mem => .inr (mem_reverse.mpr mem)
  have laneOf : ∀ p ∈ ordered, ∃ lane, st.laneOf.find? p = Option.some lane := fun p mem =>
    Option.ne_none_iff_exists'.mp fun missing =>
      (Dict.find?_eq_none_iff ..).mp missing (plans.keys.mem_iff.mpr mem)
  obtain ⟨nodes, made⟩ : ∃ nodes, ordered.mapM (makeNode ordered fullPaths st.laneOf below) =
      .ok nodes := by
    refine exists_mapM fun p mem => ?_
    obtain ⟨lane, found⟩ := laneOf p mem
    obtain ⟨leaves, found'⟩ := Option.ne_none_iff_exists'.mp
      fun missing => (Dict.find?_eq_none_iff ..).mp missing (complete p mem)
    exact ⟨_, by rw [makeNode, found, found']; rfl⟩
  obtain ⟨leaves, madeLeaves⟩ : ∃ leaves,
      (paths.zip fullPaths).zipIdx.mapM (makeLeaf ordered st.laneOf) = .ok leaves := by
    refine exists_mapM fun entry mem => ?_
    have listed : entry.1.2 ∈ fullPaths := (of_mem_zip (fst_mem_of_mem_zipIdx mem)).2
    obtain ⟨lane, found⟩ := laneOf _ (tree.path_mem listed)
    exact ⟨_, by rw [makeLeaf, found]; rfl⟩
  have saving : ¬(fullPaths.map List.length).sum < (prefixSet fullPaths).length - 1 := by
    have short : (prefixSet fullPaths).length ≤ (fullPaths.map List.length).sum + 1 := by
      refine (dedup_sublist _).length_le.trans ?_
      simp [List.length_flatMap]
    omega
  have trieEq : planTrie ordered = .ok st := by rw [planTrie, planned]
  have returned : ∃ s, scheduleCandidates shared paths = .ok s := by
    simp only [scheduleCandidates, bind_eq_ok, throw_bind, raise_eq_ok]
    refine ⟨_, st, trieEq, not_not.mpr size, ?_, below, described, nodes, made, leaves, madeLeaves,
      saving, rfl⟩
    rintro (long | again)
    · exact long computedLength
    · exact again computedNodup
  obtain ⟨s, returned⟩ := returned
  obtain ⟨st', planned', scheduled⟩ := scheduleCandidates_ok returned
  obtain rfl := ok_unique planned' trieEq
  exact ⟨st', lanes, s, returned, scheduled, plans⟩

end Scheduled

end Mycellios.PrefixWave
