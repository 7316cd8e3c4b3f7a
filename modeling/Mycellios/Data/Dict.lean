import Mathlib

universe u v

namespace Mycellios.Data

structure Dict (κ : Type u) (ν : Type v) where
  entries : List (κ × ν)
  nodup : (entries.map Prod.fst).Nodup

namespace Dict

variable {κ : Type u} {ν : Type v} {d : Dict κ ν} {es : List (κ × ν)} {which : κ → ν → Bool}
  {set : ν → ν} {w : ν → Int} {f : κ → ν → ν} {k : κ} {v : ν}

@[ext] theorem ext (h : d.entries = e.entries) : d = e := by
  cases d
  cases e
  cases h
  rfl

def empty : Dict κ ν := ⟨[], List.nodup_nil⟩

def keys (d : Dict κ ν) : List κ := d.entries.map Prod.fst

def values (d : Dict κ ν) : List ν := d.entries.map Prod.snd

def size (d : Dict κ ν) : Nat := d.entries.length

variable [DecidableEq κ]

def lookup (k : κ) : List (κ × ν) → Option ν
  | [] => none
  | (j, v) :: es => if j = k then some v else lookup k es

def write (k : κ) (v : ν) : List (κ × ν) → List (κ × ν)
  | [] => [(k, v)]
  | (j, w) :: es => if j = k then (j, v) :: es else (j, w) :: write k v es

def remove (k : κ) : List (κ × ν) → List (κ × ν)
  | [] => []
  | (j, w) :: es => if j = k then es else (j, w) :: remove k es

theorem mem_keys_write (k : κ) (v : ν) (es : List (κ × ν)) (j : κ) :
    j ∈ (write k v es).map Prod.fst ↔ j = k ∨ j ∈ es.map Prod.fst := by
  induction es with
  | nil => simp [write]
  | cons e es ih =>
    obtain ⟨i, w⟩ := e
    by_cases h : i = k
    · subst h
      simp [write]
    · simp only [write, h, if_false, List.map_cons, List.mem_cons, ih]
      tauto

theorem nodup_write (k : κ) (v : ν) (h : (es.map Prod.fst).Nodup) :
    ((write k v es).map Prod.fst).Nodup := by
  induction es with
  | nil => simp [write]
  | cons e es ih =>
    obtain ⟨i, w⟩ := e
    simp only [List.map_cons, List.nodup_cons] at h
    by_cases hi : i = k
    · simpa only [write, hi, if_true, List.map_cons, List.nodup_cons] using hi ▸ h
    · rw [write, if_neg hi, List.map_cons, List.nodup_cons, mem_keys_write, not_or]
      exact ⟨⟨hi, h.1⟩, ih h.2⟩

theorem remove_sublist (k : κ) (es : List (κ × ν)) : (remove k es).Sublist es := by
  induction es with
  | nil => exact List.Sublist.refl _
  | cons e es ih =>
    obtain ⟨i, w⟩ := e
    by_cases hi : i = k
    · simp [remove, hi]
    · simpa [remove, hi] using ih

def find? (d : Dict κ ν) (k : κ) : Option ν := lookup k d.entries

def insert (d : Dict κ ν) (k : κ) (v : ν) : Dict κ ν :=
  ⟨write k v d.entries, nodup_write k v d.nodup⟩

def erase (d : Dict κ ν) (k : κ) : Dict κ ν :=
  ⟨remove k d.entries, d.nodup.sublist ((remove_sublist k d.entries).map Prod.fst)⟩

def contains (d : Dict κ ν) (k : κ) : Bool := (d.find? k).isSome

@[simp] theorem find?_empty (k : κ) : (empty : Dict κ ν).find? k = none := rfl

theorem lookup_write (k : κ) (v : ν) (es : List (κ × ν)) (j : κ) :
    lookup j (write k v es) = if k = j then some v else lookup j es := by
  induction es with
  | nil => simp [write, lookup]
  | cons e es ih =>
    obtain ⟨i, w⟩ := e
    by_cases hi : i = k
    · subst hi
      by_cases hj : i = j <;> simp [write, lookup, hj]
    by_cases hj : i = j
    · subst hj
      simp [write, lookup, hi, Ne.symm hi]
    · simp [write, lookup, hi, hj, ih]

@[simp] theorem find?_insert (d : Dict κ ν) (k : κ) (v : ν) (j : κ) :
    (d.insert k v).find? j = if k = j then some v else d.find? j :=
  lookup_write k v d.entries j

theorem find?_insert_self (d : Dict κ ν) (k : κ) (v : ν) : (d.insert k v).find? k = some v := by
  rw [find?_insert, if_pos rfl]

theorem of_find?_insert (h : (d.insert k v).find? j = some u) :
    k = j ∧ v = u ∨ k ≠ j ∧ d.find? j = some u := by
  rw [find?_insert] at h
  split at h
  case isTrue same => exact .inl ⟨same, Option.some.inj h⟩
  case isFalse other => exact .inr ⟨other, h⟩

theorem forall_find?_insert {P : κ → ν → Prop} (new : P k v)
    (old : ∀ j u, d.find? j = some u → P j u) (j : κ) (u : ν)
    (h : (d.insert k v).find? j = some u) : P j u := by
  rcases of_find?_insert h with ⟨rfl, rfl⟩ | ⟨-, h⟩
  · exact new
  · exact old j u h

theorem unique_insert {f : ν → β} (old : ∀ i x j y, d.find? i = some x → d.find? j = some y →
    f x = f y → i = j) (fresh : ∀ i x, d.find? i = some x → f x ≠ f v) :
    ∀ i x j y, (d.insert k v).find? i = some x → (d.insert k v).find? j = some y → f x = f y →
    i = j := by
  intro i x j y found found' same
  rcases of_find?_insert found with ⟨here, rfl⟩ | ⟨-, found⟩ <;>
    rcases of_find?_insert found' with ⟨here', rfl⟩ | ⟨-, found'⟩
  · exact here.symm.trans here'
  · exact absurd same.symm (fresh j y found')
  · exact absurd same (fresh i x found)
  · exact old i x j y found found' same

theorem exists_find?_insert {P : ν → Prop} (here : d.find? k = some v) (found : d.find? j = some u)
    (same : k = j → v = u → P v') (other : P u) : ∃ x, (d.insert k v').find? j = some x ∧ P x := by
  rw [find?_insert]
  split
  case isTrue e =>
    subst e
    exact ⟨v', rfl, same rfl (Option.mem_unique here found)⟩
  case isFalse => exact ⟨u, found, other⟩

theorem find?_eq_none_of_imp {e : Dict κ ν} (sub : ∀ v, d.find? k = some v → e.find? k = some v)
    (missing : e.find? k = none) : d.find? k = none := by
  rw [Option.eq_none_iff_forall_ne_some]
  intro v found
  cases missing.symm.trans (sub v found)

theorem write_of_lookup (h : lookup k es = some v) : write k v es = es := by
  induction es with
  | nil => cases h
  | cons e es ih =>
    obtain ⟨j, w⟩ := e
    by_cases e : j = k
    · simp_all [lookup, write]
    · simp_all [lookup, write]

theorem insert_eq_self (h : d.find? k = some v) : d.insert k v = d :=
  ext (write_of_lookup h)

theorem lookup_eq_none_iff (k : κ) (es : List (κ × ν)) :
    lookup k es = none ↔ k ∉ es.map Prod.fst := by
  induction es with
  | nil => simp [lookup]
  | cons e es ih =>
    obtain ⟨i, w⟩ := e
    by_cases hi : i = k
    · simp [lookup, hi]
    · simp [lookup, hi, ih, Ne.symm hi]

theorem find?_eq_none_iff (d : Dict κ ν) (k : κ) : d.find? k = none ↔ k ∉ d.keys :=
  lookup_eq_none_iff k d.entries

theorem mem_keys_insert : j ∈ (d.insert k v).keys ↔ j = k ∨ j ∈ d.keys :=
  mem_keys_write k v d.entries j

theorem lookup_remove (h : (es.map Prod.fst).Nodup) (k j : κ) :
    lookup j (remove k es) = if k = j then none else lookup j es := by
  induction es with
  | nil => simp [remove, lookup]
  | cons e es ih =>
    obtain ⟨i, w⟩ := e
    simp only [List.map_cons, List.nodup_cons] at h
    by_cases hi : i = k
    · subst hi
      by_cases hj : i = j
      · subst hj
        simpa [remove] using (lookup_eq_none_iff i es).mpr h.1
      · simp [remove, lookup, hj]
    by_cases hj : i = j
    · subst hj
      simp [remove, lookup, hi, Ne.symm hi]
    · simp [remove, lookup, hi, hj, ih h.2]

@[simp] theorem find?_erase (d : Dict κ ν) (k j : κ) : (d.erase k).find? j = if k = j then none
    else d.find? j :=
  lookup_remove d.nodup k j

theorem find?_of_erase (h : (d.erase k).find? j = some v) : d.find? j = some v := by
  rw [find?_erase] at h
  split at h
  · cases h
  · exact h

theorem find?_foldl_insert_of_not_mem {α : Type*} (key : α → κ) (value : α → ν) {as : List α}
    (d : Dict κ ν) (h : j ∉ as.map key) :
    (as.foldl (fun d a => d.insert (key a) (value a)) d).find? j = d.find? j := by
  induction as generalizing d with
  | nil => rfl
  | cons a as ih =>
    obtain ⟨head, tail⟩ := not_or.mp (mt List.mem_cons.mpr h)
    rw [List.foldl_cons, ih _ tail, find?_insert, if_neg (Ne.symm head)]

theorem find?_foldl_insert_of_mem {α : Type*} (key : α → κ) (value : α → ν) {as : List α}
    (distinct : (as.map key).Nodup) (d : Dict κ ν) {a : α} (h : a ∈ as) :
    (as.foldl (fun d a => d.insert (key a) (value a)) d).find? (key a) = some (value a) := by
  induction as generalizing d with
  | nil => cases h
  | cons b as ih =>
    obtain ⟨fresh, distinct⟩ := List.nodup_cons.mp distinct
    rw [List.foldl_cons]
    rcases List.mem_cons.mp h with rfl | h
    · rw [find?_foldl_insert_of_not_mem key value _ fresh, find?_insert, if_pos rfl]
    · exact ih distinct _ h

theorem lookup_eq_some_iff (h : (es.map Prod.fst).Nodup) (k : κ) (v : ν) :
    lookup k es = some v ↔ (k, v) ∈ es := by
  induction es with
  | nil => simp [lookup]
  | cons e es ih =>
    obtain ⟨i, w⟩ := e
    simp only [List.map_cons, List.nodup_cons] at h
    by_cases hi : i = k
    · subst hi
      have hout : (i, v) ∉ es := fun hm => h.1 (List.mem_map_of_mem (f := Prod.fst) hm)
      simp [lookup, hout, eq_comm]
    · simp [lookup, hi, ih h.2, Ne.symm hi]

theorem find?_eq_some_iff (d : Dict κ ν) (k : κ) (v : ν) :
    d.find? k = some v ↔ (k, v) ∈ d.entries :=
  lookup_eq_some_iff d.nodup k v

theorem mem_values_of_find? (h : d.find? k = some v) : v ∈ d.values :=
  List.mem_map_of_mem (f := Prod.snd) ((d.find?_eq_some_iff k v).mp h)

theorem exists_find?_of_mem_values (h : v ∈ d.values) : ∃ k, d.find? k = some v := by
  obtain ⟨⟨k, w⟩, hm, rfl⟩ := List.mem_map.mp h
  exact ⟨k, (d.find?_eq_some_iff k w).mpr hm⟩

def sumBy (w : ν → Int) (d : Dict κ ν) : Int := (d.values.map w).sum

omit [DecidableEq κ] in
@[simp] theorem sumBy_empty (w : ν → Int) : (empty : Dict κ ν).sumBy w = 0 := rfl

theorem sum_write (w : ν → Int) (k : κ) (v : ν) (es : List (κ × ν)) :
    ((write k v es).map (fun e => w e.2)).sum =
      (es.map (fun e => w e.2)).sum + w v - ((lookup k es).map w).getD 0 := by
  induction es with
  | nil => simp [write, lookup]
  | cons e es ih =>
    obtain ⟨i, u⟩ := e
    by_cases hi : i = k
    · simp [write, lookup, hi]
      omega
    · simp only [write, hi, if_false, lookup, List.map_cons, List.sum_cons, ih]
      omega

theorem sumBy_insert (w : ν → Int) (d : Dict κ ν) (k : κ) (v : ν) :
    (d.insert k v).sumBy w = d.sumBy w + w v - ((d.find? k).map w).getD 0 := by
  simpa [sumBy, values, insert, find?, Function.comp_def] using sum_write w k v d.entries

theorem sum_remove (w : ν → Int) (k : κ) (es : List (κ × ν)) :
    ((remove k es).map (fun e => w e.2)).sum =
      (es.map (fun e => w e.2)).sum - ((lookup k es).map w).getD 0 := by
  induction es with
  | nil => simp [remove, lookup]
  | cons e es ih =>
    obtain ⟨i, u⟩ := e
    by_cases hi : i = k
    · simp [remove, lookup, hi]
    · simp only [remove, hi, if_false, lookup, List.map_cons, List.sum_cons, ih]
      omega

theorem sumBy_erase (w : ν → Int) (d : Dict κ ν) (k : κ) :
    (d.erase k).sumBy w = d.sumBy w - ((d.find? k).map w).getD 0 := by
  simpa [sumBy, values, erase, find?, Function.comp_def] using sum_remove w k d.entries

omit [DecidableEq κ] in
theorem sumBy_nonneg (hw : ∀ v, 0 ≤ w v) (d : Dict κ ν) : 0 ≤ d.sumBy w := by
  apply List.sum_nonneg
  intro x hx
  obtain ⟨v, -, rfl⟩ := List.mem_map.mp hx
  exact hw v

omit [DecidableEq κ] in
theorem sumBy_le_sumBy (h : ∀ v, w v ≤ u v) (d : Dict κ ν) : d.sumBy w ≤ d.sumBy u :=
  List.sum_le_sum fun v _ => h v

omit [DecidableEq κ] in
@[simp] theorem length_keys (d : Dict κ ν) : d.keys.length = d.size := by simp [keys, size]

theorem mem_keys_of_find? (h : d.find? k = some v) : k ∈ d.keys := by
  by_contra hk
  rw [(find?_eq_none_iff d k).mpr hk] at h
  cases h

def mapValues (d : Dict κ ν) (f : κ → ν → ν) : Dict κ ν :=
  ⟨d.entries.map fun e => (e.1, f e.1 e.2), by simpa [Function.comp_def] using d.nodup⟩

theorem lookup_map (f : κ → ν → ν) (k : κ) (es : List (κ × ν)) :
    lookup k (es.map fun e => (e.1, f e.1 e.2)) = (lookup k es).map (f k) := by
  induction es with
  | nil => rfl
  | cons e es ih =>
    obtain ⟨j, w⟩ := e
    by_cases h : j = k
    · subst h
      simp [lookup]
    · simp [lookup, h, ih]

@[simp] theorem find?_mapValues (d : Dict κ ν) (f : κ → ν → ν) (k : κ) :
    (d.mapValues f).find? k = (d.find? k).map (f k) := lookup_map f k d.entries

theorem of_find?_map {d' : Dict κ ν} (h : ∀ k, d'.find? k = (d.find? k).map (f k))
    (new : d'.find? k = some v) : ∃ old, d.find? k = some old ∧ v = f k old := by
  rw [h] at new
  obtain ⟨old, listed, rfl⟩ := Option.map_eq_some_iff.mp new
  exact ⟨old, listed, rfl⟩

theorem map_eq_write (others : ∀ j w, j ≠ k → f j w = w) (nodup : (es.map Prod.fst).Nodup)
    (found : lookup k es = some v) : es.map (fun e => (e.1, f e.1 e.2)) = write k (f k v) es := by
  induction es with
  | nil => cases found
  | cons e es ih =>
    obtain ⟨j, w⟩ := e
    obtain ⟨fresh, nodup⟩ := List.nodup_cons.mp nodup
    rw [lookup] at found
    rw [List.map_cons, write]
    by_cases here : j = k
    · subst here
      rw [if_pos rfl, Option.some.injEq] at found
      have rest : ∀ e ∈ es, (e.1, f e.1 e.2) = e := by
        intro e mem
        rw [others e.1 e.2 fun same => fresh (List.mem_map.mpr ⟨e, mem, same⟩)]
      rw [if_pos rfl, found, List.map_congr_left rest, List.map_id']
    · rw [if_neg here] at found
      rw [if_neg here, others j w here, ih nodup found]

theorem mapValues_eq_insert (found : d.find? k = some v)
    (others : ∀ j w, j ≠ k → f j w = w) : d.mapValues f = d.insert k (f k v) :=
  ext (map_eq_write others d.nodup found)

theorem le_sumBy (hw : ∀ v ∈ d.values, 0 ≤ w v) (h : d.find? k = some v) : w v ≤ d.sumBy w := by
  refine List.single_le_sum (fun x mem => ?_) _ (List.mem_map_of_mem (mem_values_of_find? h))
  obtain ⟨v, listed, rfl⟩ := List.mem_map.mp mem
  exact hw v listed

omit [DecidableEq κ] in
theorem sumBy_congr (h : ∀ v ∈ d.values, w v = u v) : d.sumBy w = d.sumBy u := by
  rw [sumBy, sumBy, List.map_congr_left h]

omit [DecidableEq κ] in
theorem sumBy_mapValues_le (h : ∀ k v, w (f k v) ≤ w v) (d : Dict κ ν) :
    (d.mapValues f).sumBy w ≤ d.sumBy w := by
  simp only [sumBy, values, mapValues, List.map_map]
  exact List.sum_le_sum fun e _ => h e.1 e.2

/-- `UPDATE … SET … WHERE …`. -/
def update (d : Dict κ ν) (which : κ → ν → Bool) (set : ν → ν) : Dict κ ν :=
  d.mapValues fun k v => if which k v then set v else v

theorem find?_update (d : Dict κ ν) (which : κ → ν → Bool) (set : ν → ν) (k : κ) :
    (d.update which set).find? k = (d.find? k).map fun v => if which k v then set v else v :=
  find?_mapValues d _ k

theorem find?_update_eq_some :
    (d.update which set).find? k = some u ↔
      ∃ v, d.find? k = some v ∧ (if which k v then set v else v) = u := by
  rw [find?_update, Option.map_eq_some_iff]

theorem find?_update_ne_none (found : d.find? k ≠ none) : (d.update which set).find? k ≠ none := by
  rw [find?_update]
  simpa using found

theorem find?_update_of_missed
    (found : d.find? k = some v) (missed : which k v = false) :
    (d.update which set).find? k = some v := by
  rw [find?_update, found, Option.map_some, missed]
  rfl

omit [DecidableEq κ] in
theorem sumBy_update_le
    (h : ∀ k v, which k v = true → w (set v) ≤ w v) (d : Dict κ ν) :
    (d.update which set).sumBy w ≤ d.sumBy w := by
  refine sumBy_mapValues_le (fun k v => ?_) d
  by_cases hit : which k v = true
  · rw [if_pos hit]
    exact h k v hit
  · rw [if_neg hit]

/-- `SELECT … WHERE …`, and what `DELETE` leaves. -/
def filter (d : Dict κ ν) (keep : κ → ν → Bool) : Dict κ ν :=
  ⟨d.entries.filter fun e => keep e.1 e.2, d.nodup.sublist (List.filter_sublist.map Prod.fst)⟩

theorem find?_filter_eq_some :
    (d.filter keep).find? k = some v ↔ d.find? k = some v ∧ keep k v = true := by
  rw [find?_eq_some_iff, find?_eq_some_iff]
  exact List.mem_filter

omit [DecidableEq κ] in
theorem sumBy_filter_le (hw : ∀ v, 0 ≤ w v) (keep : κ → ν → Bool) (d : Dict κ ν) :
    (d.filter keep).sumBy w ≤ d.sumBy w := by
  simp only [sumBy, values, filter, List.map_map]
  induction d.entries with
  | nil => exact le_refl _
  | cons e es ih =>
    have here := hw e.2
    by_cases kept : keep e.1 e.2 = true
    · simpa [List.filter_cons, kept] using ih
    · simp only [List.filter_cons, kept, List.map_cons, List.sum_cons, Function.comp_apply]
      exact le_add_of_nonneg_of_le here ih

theorem size_filter_eq_zero :
    (d.filter keep).size = 0 ↔ ∀ k v, d.find? k = some v → keep k v ≠ true := by
  rw [size, List.length_eq_zero_iff]
  constructor
  · intro none k v found hit
    have mem := (find?_eq_some_iff _ k v).mp (find?_filter_eq_some.mpr ⟨found, hit⟩)
    rw [none] at mem
    exact absurd mem List.not_mem_nil
  intro none
  refine List.filter_eq_nil_iff.mpr fun e mem => ?_
  exact none e.1 e.2 ((find?_eq_some_iff d e.1 e.2).mpr mem)

theorem update_eq_self (none : (d.filter which).size = 0) : d.update which set = d := by
  refine ext ((List.map_congr_left fun e mem => ?_).trans (List.map_id' _))
  have missed := size_filter_eq_zero.mp none e.1 e.2 ((find?_eq_some_iff d e.1 e.2).mpr mem)
  exact Prod.ext rfl (if_neg missed)

end Dict

end Mycellios.Data
