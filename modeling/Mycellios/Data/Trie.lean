import Mycellios.Data.OrderedTree

namespace Mycellios.Data

open List

def prefixSet (paths : List (List Nat)) : List (List Nat) :=
  ([] :: paths.flatMap fun path => (List.range path.length).map fun depth =>
    path.take (depth + 1)).dedup

theorem nodup_prefixSet (paths : List (List Nat)) : (prefixSet paths).Nodup := nodup_dedup _

variable {p : List Nat}

theorem mem_prefixSet :
    p ∈ prefixSet paths ↔ p = [] ∨ ∃ path ∈ paths, p <+: path := by
  simp only [prefixSet, mem_dedup, mem_cons, mem_flatMap, mem_map, mem_range]
  refine or_congr_right' fun inner => ?_
  constructor
  · rintro ⟨path, listed, depth, -, rfl⟩
    exact ⟨path, listed, take_prefix ..⟩
  rintro ⟨path, listed, pre⟩
  have pos := length_pos_iff.mpr inner
  have le := pre.length_le
  refine ⟨path, listed, p.length - 1, by omega, ?_⟩
  rw [Nat.sub_add_cancel pos]
  exact (prefix_iff_eq_take.mp pre).symm

def lastToken (p : List Nat) : Nat := p.getLastD 0

def childrenIn (ordered : List (List Nat)) (p : List Nat) : List (List Nat) :=
  ((ordered.drop 1).filter fun q => q.dropLast = p).insertionSort fun a b => lastToken a ≤
    lastToken b

def trie (ordered : List (List Nat)) : OrderedTree (List Nat) where
  root := []
  children := childrenIn ordered
  depth := List.length

/-- Prefixes, the empty one first, closed under prefixes. -/
structure PrefixClosed (ordered : List (List Nat)) : Prop where
  head : ordered.head? = some []
  nodup : ordered.Nodup
  closed : ∀ p ∈ ordered, p.dropLast ∈ ordered

section Trie

variable {ordered : List (List Nat)} (closed : PrefixClosed ordered)

include closed

theorem PrefixClosed.mem_drop : p ∈ ordered.drop 1 ↔ p ∈ ordered ∧ p ≠ [] := by
  obtain ⟨head, nodup, -⟩ := closed
  cases ordered with
  | nil => cases head
  | cons first rest =>
    obtain rfl : first = [] := Option.some.inj head
    have out := (nodup_cons.mp nodup).1
    rw [drop_one, tail_cons, mem_cons]
    constructor
    · exact fun mem => ⟨.inr mem, fun empty => out (empty ▸ mem)⟩
    · exact fun ⟨mem, inner⟩ => mem.resolve_left inner

theorem PrefixClosed.mem_children :
    c ∈ childrenIn ordered p ↔ c ∈ ordered ∧ ∃ token, c = p ++ [token] := by
  rw [childrenIn, mem_insertionSort, List.mem_filter, closed.mem_drop, decide_eq_true_eq, and_assoc]
  refine and_congr_right fun _ => ?_
  constructor
  · rintro ⟨inner, rfl⟩
    exact ⟨c.getLast inner, (dropLast_append_getLast inner).symm⟩
  · rintro ⟨token, rfl⟩
    exact ⟨by simp, dropLast_concat⟩

theorem PrefixClosed.wf : (trie ordered).Wf ordered where
  nodup := closed.nodup
  root_mem := mem_of_head? closed.head
  children_mem := fun p _ c child => (closed.mem_children.mp child).1
  parent := by
    intro v mem inner
    refine ⟨v.dropLast, closed.closed v mem, closed.mem_children.mpr ⟨mem, v.getLast inner, ?_⟩⟩
    exact (dropLast_append_getLast inner).symm
  children_nodup := by
    intro p _
    refine (perm_insertionSort _ _).nodup_iff.mpr (List.Nodup.filter _ ?_)
    exact closed.nodup.sublist (drop_sublist ..)
  parent_unique := by
    intro p _ q _ v hp hq
    obtain ⟨-, a, rfl⟩ := closed.mem_children.mp hp
    obtain ⟨-, b, same⟩ := closed.mem_children.mp hq
    exact (append_inj' same rfl).1
  depth_root := rfl
  depth_child := by
    intro p _ c child
    obtain ⟨-, a, rfl⟩ := closed.mem_children.mp child
    exact length_append

end Trie

theorem prefix_of_lt_of_lt {a b c : List Nat} (ab : a < b) (bc : b < c) (pre : a <+: c) :
    a <+: b := by
  induction a generalizing b c with
  | nil => exact nil_prefix
  | cons x a ih =>
    obtain ⟨c, rfl, tail⟩ : ∃ c', c = x :: c' ∧ a <+: c' := by
      obtain ⟨rest, rfl⟩ := pre
      exact ⟨a ++ rest, rfl, prefix_append ..⟩
    cases b with
    | nil => exact absurd ab (not_lt_nil _)
    | cons y b =>
      rw [cons_lt_cons_iff] at ab bc
      obtain rfl : x = y := by omega
      have ab := ab.resolve_left (Nat.lt_irrefl x)
      have bc := bc.resolve_left (Nat.lt_irrefl x)
      exact cons_prefix_cons.mpr ⟨rfl, ih ab.2 bc.2 tail⟩

def prefixesSuccessor (paths : List (List Nat)) : Bool :=
  (paths.zip (paths.drop 1)).any fun pair =>
    pair.1.length < pair.2.length ∧ pair.2.take pair.1.length = pair.1

theorem prefixFree_of_sorted (sorted : paths.Pairwise (· < ·))
    (ok : prefixesSuccessor paths = false) : paths.Pairwise fun a b => ¬a <+: b := by
  induction paths with
  | nil => exact .nil
  | cons a paths ih =>
    obtain ⟨least, sorted⟩ := pairwise_cons.mp sorted
    cases paths with
    | nil => exact pairwise_singleton ..
    | cons b paths =>
      rw [prefixesSuccessor, drop_one, tail_cons, zip_cons_cons, any_cons,
        Bool.or_eq_false_iff] at ok
      have next : ¬a <+: b := by
        intro pre
        have other : a.length ≠ b.length := fun same =>
          absurd (pre.eq_of_length same ▸ least b mem_cons_self) (lt_irrefl _)
        refine of_decide_eq_false ok.1 ⟨lt_of_le_of_ne pre.length_le other, ?_⟩
        exact (prefix_iff_eq_take.mp pre).symm
      refine pairwise_cons.mpr ⟨forall_mem_cons.mpr ⟨next, fun c mem pre => next ?_⟩,
        ih sorted ok.2⟩
      exact prefix_of_lt_of_lt (least b mem_cons_self) ((pairwise_cons.mp sorted).1 c mem) pre

section Leaves

/-- The prefixes of paths of which none is a prefix of another. -/
structure PathTrie (paths ordered : List (List Nat)) : Prop where
  head : ordered.head? = some []
  nodup : ordered.Nodup
  mem : ∀ p, p ∈ ordered ↔ p ∈ prefixSet paths
  some : paths ≠ []
  inner : [] ∉ paths
  distinct : paths.Nodup
  free : ∀ a ∈ paths, ∀ b ∈ paths, a <+: b → a = b

variable {paths ordered : List (List Nat)} (h : PathTrie paths ordered)

include h

theorem PathTrie.closed : PrefixClosed ordered where
  head := h.head
  nodup := h.nodup
  closed := by
    intro p mem
    rw [h.mem, mem_prefixSet] at mem ⊢
    rcases mem with rfl | ⟨path, listed, pre⟩
    · exact .inl rfl
    · exact .inr ⟨path, listed, p.dropLast_prefix.trans pre⟩

theorem PathTrie.wf : (trie ordered).Wf ordered := h.closed.wf

theorem PathTrie.path_mem (mem : path ∈ paths) : path ∈ ordered :=
  (h.mem path).mpr (mem_prefixSet.mpr (.inr ⟨path, mem, prefix_rfl⟩))

theorem PathTrie.exists_path (mem : p ∈ ordered) : ∃ path ∈ paths, p <+: path := by
  rcases mem_prefixSet.mp ((h.mem p).mp mem) with rfl | found
  · obtain ⟨path, listed⟩ := exists_mem_of_ne_nil _ h.some
    exact ⟨path, listed, nil_prefix⟩
  · exact found

theorem PathTrie.leaf_iff (mem : p ∈ ordered) : childrenIn ordered p = [] ↔ p ∈ paths := by
  constructor
  · intro none
    obtain ⟨path, listed, rest, rfl⟩ := h.exists_path mem
    cases rest with
    | nil => rwa [append_nil] at listed
    | cons token rest =>
      have child : p ++ [token] ∈ childrenIn ordered p := by
        refine h.closed.mem_children.mpr ⟨?_, token, rfl⟩
        refine (h.mem _).mpr (mem_prefixSet.mpr (.inr ⟨_, listed, rest, ?_⟩))
        rw [append_assoc, singleton_append]
      rw [none] at child
      cases child
  · intro listed
    refine eq_nil_iff_forall_not_mem.mpr fun c child => ?_
    obtain ⟨known, token, rfl⟩ := h.closed.mem_children.mp child
    obtain ⟨path, other, pre⟩ := h.exists_path known
    have same := h.free p listed path other ((prefix_append ..).trans pre)
    have long := pre.length_le
    rw [← same, length_append, length_singleton] at long
    omega

theorem PathTrie.leaves_perm :
    (ordered.filter fun p => (childrenIn ordered p).isEmpty).Perm paths := by
  refine (perm_ext_iff_of_nodup (h.nodup.filter _) h.distinct).mpr fun p => ?_
  rw [List.mem_filter, List.isEmpty_iff]
  constructor
  · exact fun ⟨mem, childless⟩ => (h.leaf_iff mem).mp childless
  · exact fun listed => ⟨h.path_mem listed, (h.leaf_iff (h.path_mem listed)).mpr listed⟩

theorem PathTrie.root_children : childrenIn ordered [] ≠ [] := fun none =>
  h.inner ((h.leaf_iff (mem_of_head? h.head)).mp none)

end Leaves

end Mycellios.Data
