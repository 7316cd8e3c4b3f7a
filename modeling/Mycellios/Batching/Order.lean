import Mycellios.Batching.Queue

namespace Mycellios.Batching

open Data Dict List Logic

variable {κ π : Type}

namespace PhaseQueue

variable {phase : String} {q : PhaseQueue κ π} {id : Int} {work : BatchWork κ π}

def flow (q : PhaseQueue κ π) (id : Int) : List (BatchWork κ π) := (q.flows.find? id).getD []

/-- The rotation holds the requests with work, and each flow the work of its request. -/
structure Wf (phase : String) (q : PhaseQueue κ π) : Prop where
  nodup : q.rotation.Nodup
  listed : ∀ id, id ∈ q.rotation ↔ q.flow id ≠ []
  filled : ∀ id, q.flows.find? id ≠ some []
  owned : ∀ id, ∀ w ∈ q.flow id, w.requestId = id ∧ w.phase = phase
  size : q.size = q.flows.sumBy (·.length)

theorem Wf.empty (phase : String) : (PhaseQueue.empty : PhaseQueue κ π).Wf phase :=
  ⟨nodup_nil, by simp [PhaseQueue.empty,
    flow], by simp [PhaseQueue.empty], by simp [PhaseQueue.empty, flow], rfl⟩

theorem find?_of_flow (h : q.flow id = w :: ws) : q.flows.find? id = some (w :: ws) := by
  rw [flow] at h
  cases found : q.flows.find? id with
  | none =>
    rw [found] at h
    cases h
  | some flow =>
    rw [found, Option.getD_some] at h
    rw [h]

theorem Wf.find?_none (wf : q.Wf phase) (h : q.flow id = []) : q.flows.find? id = none := by
  cases found : q.flows.find? id with
  | none => rfl
  | some flow =>
    rw [PhaseQueue.flow, found, Option.getD_some] at h
    exact absurd (found.trans (congrArg some h)) (wf.filled id)

theorem Wf.rewrite (wf : q.Wf phase) (q' : PhaseQueue κ π) (id : Int) (new : List (BatchWork κ π))
    (flows : ∀ j, q'.flows.find? j = if id = j then (if new = [] then none else some new)
      else q.flows.find? j)
    (nodup : q'.rotation.Nodup) (listed : ∀ j, j ∈ q'.rotation ↔ if id = j then new ≠ []
      else j ∈ q.rotation)
    (owned : ∀ w ∈ new, w.requestId = id ∧ w.phase = phase)
    (size : q'.size = q'.flows.sumBy (·.length)) : q'.Wf phase ∧ ∀ j, q'.flow j = if id = j then new
    else q.flow j := by
  have flow : ∀ j, q'.flow j = if id = j then new else q.flow j := by
    intro j
    rw [PhaseQueue.flow, flows]
    by_cases here : id = j
    · by_cases none : new = [] <;> simp [here, none]
    · simp only [here, if_false, PhaseQueue.flow]
  refine ⟨⟨nodup, fun j => ?_, fun j => ?_, fun j w mem => ?_, size⟩, flow⟩
  · rw [listed, flow]
    split
    · rfl
    · exact wf.listed j
  · rw [flows]
    split
    · split
      · simp
      · rename_i some
        simpa using some
    · exact wf.filled j
  · rw [flow] at mem
    split at mem
    · rename_i here
      exact here ▸ owned w mem
    · exact wf.owned j w mem

theorem length_flow (q : PhaseQueue κ π) (id : Int) :
    ((q.flows.find? id).map fun f => (f.length : Int)).getD 0 = (q.flow id).length := by
  rw [flow]
  cases q.flows.find? id <;> rfl

theorem Wf.push_eq (wf : q.Wf phase) (work : BatchWork κ π) : q.push work =
    ⟨q.flows.insert work.requestId (q.flow work.requestId ++ [work]),
      if work.requestId ∈ q.rotation then q.rotation else q.rotation ++ [work.requestId],
          q.size + 1⟩ := by
  rw [push]
  cases found : q.flows.find? work.requestId with
  | none =>
    have bare : q.flow work.requestId = [] := by rw [flow, found]; rfl
    rw [if_neg fun mem => (wf.listed _).mp mem bare, bare]
    rfl
  | some works =>
    have here : q.flow work.requestId = works := by rw [flow, found]; rfl
    have filled : q.flow work.requestId ≠ [] :=
      fun bare => wf.filled work.requestId (by rw [found, ← here, bare])
    rw [if_pos ((wf.listed _).mpr filled), here]

theorem Wf.push (wf : q.Wf phase) (mine : work.phase = phase) :
    (q.push work).Wf phase ∧ (q.push work).size = q.size + 1 ∧
      ∀ j, (q.push work).flow j = if work.requestId = j then q.flow work.requestId ++ [work]
      else q.flow j := by
  rw [wf.push_eq]
  have grown := wf.rewrite ⟨q.flows.insert work.requestId (q.flow work.requestId ++ [work]),
    if work.requestId ∈ q.rotation then q.rotation else q.rotation ++ [work.requestId], q.size + 1⟩
    work.requestId (q.flow work.requestId ++ [work]) ?_ ?_ ?_ ?_ ?_
  · exact ⟨grown.1, rfl, grown.2⟩
  · intro j
    rw [find?_insert, if_neg (append_ne_nil_of_right_ne_nil _ (cons_ne_nil _ _))]
  · split
    · exact wf.nodup
    · rename_i fresh
      exact nodup_append'.mpr ⟨wf.nodup, nodup_singleton _, disjoint_singleton.mpr fresh⟩
  · intro j
    have some : q.flow work.requestId ++ [work] ≠ [] := by simp
    by_cases here : work.requestId = j
    · subst here
      rw [if_pos rfl]
      split <;> simp_all
    · rw [if_neg here]
      split <;> simp [Ne.symm here]
  · intro w mem
    rcases mem_append.mp mem with old | new
    · exact wf.owned _ w old
    · rw [mem_singleton.mp new]
      exact ⟨rfl, mine⟩
  · rw [sumBy_insert, length_flow, wf.size, length_append, length_singleton]
    push_cast
    omega

theorem popRequest_spec (wf : q.Wf phase) (found : q.flow id = work :: rest) :
    wp (popRequest id) (fun a u => a = work ∧ u.Wf phase ∧ u.size = q.size - 1 ∧
      ∀ j, u.flow j = if id = j then rest else q.flow j) (fun _ _ => False) q := by
  have mem : id ∈ q.rotation := (wf.listed id).mpr (by rw [found]; simp)
  rw [popRequest, wp_bind, wp_get, find?_of_flow found]
  simp only [wp_bind, wp_modify, wp_pure, dropFromRotation, wp_get, wp_raiseIf, mem, not_true,
    false_implies, not_false_eq_true, true_implies, true_and]
  have owned : ∀ w ∈ rest, w.requestId = id ∧ w.phase = phase := fun w later =>
    wf.owned id w (by rw [found]; exact mem_cons_of_mem _ later)
  have shorter : (q.flow id).length = rest.length + 1 := by rw [found]; rfl
  split
  · rename_i last
    subst last
    have done :=
      wf.rewrite ⟨(q.flows.insert id []).erase id, q.rotation.erase id, q.size - 1⟩ id [] ?_ ?_ ?_
        owned ?_
    · exact ⟨done.1, rfl, done.2⟩
    · intro j
      rw [find?_erase, find?_insert]
      split <;> simp_all
    · exact wf.nodup.erase id
    · intro j
      rw [wf.nodup.mem_erase_iff]
      by_cases here : id = j <;> simp [here, eq_comm]
    · rw [sumBy_erase, find?_insert_self, sumBy_insert, length_flow, wf.size, shorter]
      simp
  · rename_i more
    have done :=
      wf.rewrite ⟨q.flows.insert id rest, q.rotation.erase id ++ [id], q.size - 1⟩ id rest ?_ ?_ ?_
        owned ?_
    · exact ⟨done.1, rfl, done.2⟩
    · intro j
      rw [find?_insert, if_neg more]
    · exact nodup_append'.mpr ⟨wf.nodup.erase id, nodup_singleton _,
        disjoint_singleton.mpr wf.nodup.not_mem_erase⟩
    · intro j
      rw [mem_append, wf.nodup.mem_erase_iff, mem_singleton]
      by_cases here : id = j
      · simp [here, more]
      · simp [here, Ne.symm here]
    · rw [sumBy_insert, length_flow, wf.size, shorter]
      push_cast
      omega

theorem cancelRequest_spec (wf : q.Wf phase) (id : Int) :
    wp (cancelRequest id) (fun removed u => removed = q.flow id ∧ u.Wf phase ∧
      u.size = q.size - removed.length ∧ ∀ j, u.flow j = if id = j then []
        else q.flow j) (fun _ _ => False) q := by
  rw [cancelRequest, wp_bind, wp_get]
  cases found : q.flow id with
  | nil =>
    rw [wf.find?_none found]
    refine ⟨rfl, wf, by simp, fun j => ?_⟩
    split
    · rename_i here
      rw [← here, found]
    · rfl
  | cons work rest =>
    have mem : id ∈ q.rotation := (wf.listed id).mpr (by rw [found]; simp)
    rw [find?_of_flow found]
    simp only [wp_bind, wp_modify, wp_pure, dropFromRotation, wp_get, wp_raiseIf, mem, not_true,
      false_implies, not_false_eq_true, true_implies, true_and]
    have done := wf.rewrite ⟨q.flows.erase id, q.rotation.erase id,
      q.size - (work :: rest).length⟩ id [] ?_ ?_ ?_ (by simp) ?_
    · exact ⟨done.1, done.2⟩
    · intro j
      rw [find?_erase]
      split <;> simp_all
    · exact wf.nodup.erase id
    · intro j
      rw [wf.nodup.mem_erase_iff]
      by_cases here : id = j <;> simp [here, eq_comm]
    · rw [sumBy_erase, length_flow, wf.size, found]

theorem head_ok (filled : q.flow id ≠ []) : ∃ work rest, q.flow id = work :: rest ∧
    q.head id = .ok work := by
  obtain ⟨work, rest, found⟩ := exists_cons_of_ne_nil filled
  exact ⟨work, rest, found, by rw [head, find?_of_flow found]; rfl⟩

/-- A batch under way: its work was taken from the fronts of flows. -/
structure Selecting (phase : String) (key : κ) (start q : PhaseQueue κ π)
    (selected : List (BatchWork κ π)) : Prop where
  wf : q.Wf phase
  taken : ∀ j, start.flow j = selected.filter (·.requestId = j) ++ q.flow j
  nodup : (selected.map (·.requestId)).Nodup
  alike : ∀ w ∈ selected, w.phase = phase ∧ w.compatibilityKey = key
  size : q.size = start.size - selected.length

theorem Selecting.refl (wf : q.Wf phase) (key : κ) : Selecting phase key q q [] :=
  ⟨wf, fun _ => rfl, nodup_nil, fun _ mem => absurd mem not_mem_nil, by simp⟩

theorem Selecting.pop
    (h : Selecting phase key start q selected) (found : q.flow id = work :: rest)
    (same : work.compatibilityKey = key) (fresh : id ∉ selected.map (·.requestId)) (wf : u.Wf phase)
    (size : u.size = q.size - 1) (flow : ∀ j, u.flow j = if id = j then rest else q.flow j) :
    Selecting phase key start u (selected ++ [work]) := by
  obtain ⟨mine, here⟩ := h.wf.owned id work (by rw [found]; exact mem_cons_self)
  refine ⟨wf, fun j => ?_, ?_, fun w mem => ?_, ?_⟩
  · rw [h.taken, flow, filter_append, append_assoc]
    by_cases at_id : id = j
    · simp [at_id, mine, ← found]
    · simp [at_id, mine]
  · rw [map_append, map_singleton, mine]
    exact nodup_append'.mpr ⟨h.nodup, nodup_singleton _, disjoint_singleton.mpr fresh⟩
  · rcases mem_append.mp mem with old | new
    · exact h.alike w old
    · rw [mem_singleton.mp new]
      exact ⟨here, same⟩
  · rw [size, h.size, length_append, length_singleton]
    push_cast
    omega

theorem select_spec [DecidableEq κ] (limit : Nat) (ids : List Int)
    (h : Selecting phase key start q selected) (nodup : ids.Nodup)
    (filled : ∀ j ∈ ids, j ∉ selected.map (·.requestId) → q.flow j ≠ []) :
    wp (select limit key ids selected (selected.map (·.requestId)))
    (fun out u => Selecting phase key start u out ∧
      selected <+: out ∧ out.length ≤ max selected.length limit) (fun _ _ => False) q := by
  induction ids generalizing q selected with
  | nil => exact ⟨h, prefix_rfl, le_max_left _ _⟩
  | cons j ids ih =>
    obtain ⟨later, nodup⟩ := nodup_cons.mp nodup
    have rest : ∀ i ∈ ids, i ∉ selected.map (·.requestId) → q.flow i ≠ [] := fun i mem =>
      filled i (mem_cons_of_mem j mem)
    rw [select, wp_ite]
    split
    · exact ⟨h, prefix_rfl, le_max_left _ _⟩
    rename_i room
    rw [wp_ite]
    split
    · exact ih h nodup rest
    rename_i fresh
    obtain ⟨work, more, found, head⟩ := head_ok (filled j mem_cons_self fresh)
    rw [wp_bind, wp_get, wp_bind, wp_check, head]
    refine ⟨fun a same => ?_, by simp⟩
    obtain rfl := Except.ok.inj same
    rw [wp_ite]
    split
    · exact ih h nodup rest
    rename_i alike
    rw [wp_bind]
    refine wp_mono (popRequest_spec h.wf found) ?_ fun _ _ => False.elim
    rintro a u ⟨served, wf, size, flow⟩
    have popped := h.pop found (not_not.mp alike) fresh wf size flow
    have ids' : selected.map (·.requestId) ++ [j] = (selected ++ [work]).map (·.requestId) := by
      rw [map_append, map_singleton, (h.wf.owned j work (by rw [found]; exact mem_cons_self)).1]
    rw [served, ids']
    refine wp_mono (ih popped nodup ?_) ?_ fun _ _ => False.elim
    · intro i mem unserved
      have other : j ≠ i := fun same => later (same ▸ mem)
      rw [flow, if_neg other]
      rw [← ids', mem_append, not_or] at unserved
      exact rest i mem unserved.1
    rintro out v ⟨done, kept, upper⟩
    rw [length_append, length_singleton] at upper
    exact ⟨done, (prefix_append _ _).trans kept, by omega⟩

end PhaseQueue

namespace PhaseQueue

variable {q : PhaseQueue κ π}

theorem oldest_ok {works : List (BatchWork κ π)} (some : works ≠ []) :
    ∃ work ∈ works, oldest works = .ok work ∧
    ∀ other ∈ works, work.enqueuedAt ≤ other.enqueuedAt := by
  cases least : works.argmin (·.enqueuedAt) with
  | none => exact absurd (argmin_eq_none.mp least) some
  | some work =>
    exact ⟨work, argmin_mem least, by rw [oldest, least], fun _ mem => le_of_mem_argmin mem least⟩

theorem oldestHead_ok (wf : q.Wf phase) (busy : q.size ≠ 0) :
    ∃ work rest, q.oldestHead = .ok work ∧ q.flow work.requestId = work :: rest ∧
      ∀ id other rest, q.flow id = other :: rest → work.enqueuedAt ≤ other.enqueuedAt := by
  have fronts : ∀ flow ∈ q.flows.values, ∃ work, first flow = .ok work := by
    intro flow mem
    obtain ⟨id, found⟩ := exists_find?_of_mem_values mem
    cases flow with
    | nil => exact absurd found (wf.filled id)
    | cons work rest => exact ⟨work, rfl⟩
  obtain ⟨heads, all, into, each⟩ := mapM_total fronts
  have busy' : heads ≠ [] := by
    rintro rfl
    have none : q.flows.values = [] :=
      eq_nil_iff_forall_not_mem.mpr fun flow mem => by simpa using into flow mem
    exact busy (by rw [wf.size, Dict.sumBy, none]; rfl)
  obtain ⟨work, mem, least, older⟩ := oldest_ok busy'
  obtain ⟨flow, listed, front⟩ := each work mem
  obtain ⟨id, found⟩ := exists_find?_of_mem_values listed
  cases flow with
  | nil => cases front
  | cons w rest =>
    obtain rfl := Except.ok.inj front
    have here : q.flow id = w :: rest := by rw [PhaseQueue.flow, found]; rfl
    refine ⟨w, rest, ?_, ?_, fun j other more front => ?_⟩
    · rw [oldestHead, all]
      exact least
    · rw [(wf.owned id w (by rw [here]; exact mem_cons_self)).1]
      exact here
    · obtain ⟨head, mem, front'⟩ := into _ (mem_values_of_find? (find?_of_flow front))
      obtain rfl := Except.ok.inj front'
      exact older _ mem

theorem size_nonneg (wf : q.Wf phase) : 0 ≤ q.size := by
  rw [wf.size]
  exact sumBy_nonneg (fun _ => Int.natCast_nonneg _) _

theorem size_pos {id : Int} (wf : q.Wf phase) (filled : q.flow id ≠ []) : 0 < q.size := by
  obtain ⟨work, rest, found⟩ := exists_cons_of_ne_nil filled
  have most := le_sumBy (w := fun f : List (BatchWork κ π) => (f.length : Int))
    (fun _ _ => Int.natCast_nonneg _) (find?_of_flow found)
  rw [wf.size]
  exact lt_of_lt_of_le (by simp) most

theorem rotation_ne_nil (wf : q.Wf phase) (busy : q.size ≠ 0) : q.rotation ≠ [] := by
  obtain ⟨work, rest, -, found, -⟩ := oldestHead_ok wf busy
  exact ne_nil_of_mem ((wf.listed _).mpr (by rw [found]; exact cons_ne_nil _ _))

end PhaseQueue

namespace FairAdaptiveBatchQueue

def flow (q : FairAdaptiveBatchQueue κ π) (phase : String) (id : Int) : List (BatchWork κ π) :=
  ((q.phaseQueues.find? phase).map (·.flow id)).getD []

def ofRequest (phase : String) (id : Int) (works : List (BatchWork κ π)) : List (BatchWork κ π) :=
  works.filter fun w => w.phase = phase ∧ w.requestId = id

variable [DecidableEq κ] {q : FairAdaptiveBatchQueue κ π} {phase : String} {id : Int}

def Limited (config : FairBatchConfig) (profiles : Dict (String × κ) BatchProfile) : Prop :=
  ∀ k p, profiles.find? k = some p → 1 ≤ p.adaptiveLimit ∧ p.adaptiveLimit ≤ config.maxBatchSize

def limit (q : FairAdaptiveBatchQueue κ π) (phase : String) (key : κ) : Nat :=
  ((q.profiles.find? (phase, key)).map (·.adaptiveLimit)).getD q.config.initialBatchSize

structure Core (q : FairAdaptiveBatchQueue κ π) : Prop where
  phases : ∀ phase, phase ∈ q.phaseQueues.keys ↔ phase ∈ q.config.phaseWeights.map Prod.fst
  batches : ∀ phase, phase ∈ q.phaseBatches.keys ↔ phase ∈ q.config.phaseWeights.map Prod.fst
  queues : ∀ phase queue, q.phaseQueues.find? phase = some queue → queue.Wf phase
  limits : Limited q.config q.profiles

structure Inv (q : FairAdaptiveBatchQueue κ π) : Prop extends Core q where
  balance : q.enqueuedItems = q.length + q.dequeuedItems + q.cancelledItems

variable {queue : PhaseQueue κ π}

omit [DecidableEq κ] in
theorem flow_eq (found : q.phaseQueues.find? phase = some queue) (id : Int) :
    q.flow phase id = queue.flow id := by
  rw [flow, found]
  rfl

omit [DecidableEq κ] in
theorem exists_of_flow_ne_nil (filled : q.flow phase id ≠ []) :
    ∃ queue, q.phaseQueues.find? phase = some queue ∧ queue.flow id ≠ [] := by
  cases found : q.phaseQueues.find? phase with
  | none =>
    rw [flow, found] at filled
    exact absurd rfl filled
  | some queue => exact ⟨queue, rfl, flow_eq found id ▸ filled⟩

def Looked (q u : FairAdaptiveBatchQueue κ π) : Prop :=
  ∃ profiles cursor, u = { q with profiles := profiles, phaseCursor := cursor } ∧
    Limited q.config profiles

theorem Looked.refl (inv : q.Inv) : Looked q q := ⟨q.profiles, q.phaseCursor, rfl, inv.limits⟩

theorem Looked.trans (first : Looked q u) (second : Looked u v) : Looked q v := by
  obtain ⟨profiles, cursor, rfl, limits⟩ := first
  obtain ⟨profiles', cursor', rfl, limits'⟩ := second
  exact ⟨profiles', cursor', rfl, limits'⟩

theorem Looked.inv (h : Looked q u) (inv : q.Inv) : u.Inv := by
  obtain ⟨profiles, cursor, rfl, limits⟩ := h
  exact { inv with limits := limits }

theorem Looked.phaseQueues (h : Looked q u) : u.phaseQueues = q.phaseQueues := by
  obtain ⟨profiles, cursor, rfl, limits⟩ := h
  rfl

theorem Looked.config (h : Looked q u) : u.config = q.config := by
  obtain ⟨profiles, cursor, rfl, limits⟩ := h
  rfl

structure Glanced (q u : FairAdaptiveBatchQueue κ π) : Prop where
  looked : Looked q u
  limit : u.limit = q.limit
  cursor : u.phaseCursor = q.phaseCursor

theorem Glanced.refl (inv : q.Inv) : Glanced q q := ⟨.refl inv, rfl, rfl⟩

theorem Glanced.trans (first : Glanced q u) (second : Glanced u v) : Glanced q v :=
  ⟨first.looked.trans second.looked, second.limit.trans first.limit,
    second.cursor.trans first.cursor⟩

omit [DecidableEq κ] in
theorem wp_phaseQueue (found : q.phaseQueues.find? phase = some queue)
    {Q : PhaseQueue κ π → FairAdaptiveBatchQueue κ π → Prop}
    {E : Failure → FairAdaptiveBatchQueue κ π → Prop} :
    wp (phaseQueue phase) Q E q ↔ Q queue q := by
  rw [phaseQueue, wp_bind, wp_get, found]
  exact Iff.rfl

omit [DecidableEq κ] in
theorem wp_inPhase {α : Type} {m : EStateM Failure (PhaseQueue κ π) α}
    (found : q.phaseQueues.find? phase = some queue) {Q : α → FairAdaptiveBatchQueue κ π → Prop}
    {E : Failure → FairAdaptiveBatchQueue κ π → Prop} : wp (inPhase phase m) Q E q ↔
      wp m (fun a queue => Q a { q with phaseQueues := q.phaseQueues.insert phase queue })
        (fun e queue => E e { q with phaseQueues := q.phaseQueues.insert phase queue }) queue := by
  rw [inPhase, wp_bind, wp_phaseQueue found, wp_zoom]

theorem profile_spec (inv : q.Inv) (phase : String) (key : κ) :
    wp (profile phase key) (fun p u => Glanced q u ∧ u.profiles.find? (phase, key) = some p ∧
      p.adaptiveLimit = q.limit phase key) (fun _ _ => False) q := by
  rw [profile, wp_bind, wp_get]
  cases found : q.profiles.find? (phase, key) with
  | some p => exact ⟨.refl inv, found, by rw [limit, found]; rfl⟩
  | none =>
    simp only [wp_bind, wp_modify, wp_pure]
    refine ⟨⟨⟨_, q.phaseCursor, rfl, forall_find?_insert q.config.initial_range inv.limits⟩,
      ?_, rfl⟩, find?_insert_self .., by rw [limit, found]; rfl⟩
    funext p k
    rw [limit, limit, find?_insert]
    split
    · rename_i same
      rw [← same, found]
      rfl
    · rfl

def Busy (q : FairAdaptiveBatchQueue κ π) (phase : String) : Prop :=
  ∃ queue, q.phaseQueues.find? phase = some queue ∧ queue.size ≠ 0

def Fronts (q : FairAdaptiveBatchQueue κ π) (phase : String) (oldest : BatchWork κ π) (wait : ℚ) :
    Prop :=
  ∃ queue, q.phaseQueues.find? phase = some queue ∧ queue.size ≠ 0 ∧ queue.oldestHead = .ok oldest ∧
    (maxWaitByPhase q.config).find? phase = some wait

def Full (q : FairAdaptiveBatchQueue κ π) (phase : String) : Prop :=
  ∃ queue anchor heads, q.phaseQueues.find? phase = some queue ∧ queue.roundRobinHead = .ok anchor ∧
    queue.rotation.mapM queue.head = .ok heads ∧
    q.limit phase anchor.compatibilityKey ≤
    heads.countP (·.compatibilityKey = anchor.compatibilityKey)

def Ready (r : Rounding) (now : ℚ) (q : FairAdaptiveBatchQueue κ π) (phase : String) : Prop :=
  ∃ oldest wait, Fronts q phase oldest wait ∧
    (wait ≤ max 0 (r.ageMs now oldest.enqueuedAt) ∨ Full q phase)

theorem Ready.busy (h : Ready r now q phase) : Busy q phase := by
  obtain ⟨oldest, wait, ⟨queue, found, busy, -⟩, -⟩ := h
  exact ⟨queue, found, busy⟩

theorem Glanced.ready (h : Glanced q u) (now : ℚ) : Ready r now u = Ready r now q := by
  funext phase
  simp only [Ready, Fronts, Full, h.looked.phaseQueues, h.looked.config, h.limit]

theorem Inv.wait (inv : q.Inv) (mem : phase ∈ q.phaseQueues.keys) :
    ∃ wait, (maxWaitByPhase q.config).find? phase = some wait := by
  have listed := (q.config.waits_phases phase).mpr ((inv.phases phase).mp mem)
  refine Option.ne_none_iff_exists'.mp fun none => ?_
  exact (find?_eq_none_iff (maxWaitByPhase q.config) phase).mp none listed

theorem Inv.exists_queue (inv : q.Inv) (mem : phase ∈ q.phaseQueues.keys) :
    ∃ queue, q.phaseQueues.find? phase = some queue ∧ queue.Wf phase := by
  obtain ⟨queue, found⟩ := Option.ne_none_iff_exists'.mp fun none =>
    (find?_eq_none_iff q.phaseQueues phase).mp none mem
  exact ⟨queue, found, inv.queues phase queue found⟩

theorem phaseReady_spec (inv : q.Inv) (mem : phase ∈ q.phaseQueues.keys) (now : ℚ) :
    wp (phaseReady r now phase) (fun ready u => Glanced q u ∧ (ready = true ↔ Ready r now q phase))
      (fun _ _ => False) q := by
  obtain ⟨queue, found, wf⟩ := inv.exists_queue mem
  obtain ⟨wait, known⟩ := inv.wait mem
  rw [phaseReady, wp_bind, wp_phaseQueue found, wp_ite]
  split
  · rename_i idle
    exact ⟨.refl inv, by simp [Ready, Fronts, found, idle]⟩
  rename_i busy
  obtain ⟨oldest, rest, least, -⟩ := PhaseQueue.oldestHead_ok wf busy
  rw [least, wp_bind, wp_check_ok, wp_bind, wp_get, known]
  simp only [wp_ite]
  have fronts : Fronts q phase oldest wait := ⟨queue, found, busy, least, known⟩
  split
  · rename_i late
    exact ⟨.refl inv, fun _ => ⟨oldest, wait, fronts, .inl late⟩, fun _ => rfl⟩
  rename_i early
  obtain ⟨anchor, others, rotation⟩ := exists_cons_of_ne_nil (PhaseQueue.rotation_ne_nil wf busy)
  have filled : ∀ j ∈ queue.rotation, ∃ work, queue.head j = .ok work := by
    intro j listed
    obtain ⟨work, more, -, front⟩ := PhaseQueue.head_ok ((wf.listed j).mp listed)
    exact ⟨work, front⟩
  obtain ⟨work, front⟩ := filled anchor (by rw [rotation]; exact mem_cons_self)
  obtain ⟨heads, all, -, -⟩ := mapM_total filled
  have first : queue.roundRobinHead = .ok work := by
    rw [PhaseQueue.roundRobinHead, rotation]; exact front
  rw [wp_bind, first, wp_check_ok, wp_bind]
  refine wp_mono (profile_spec inv phase work.compatibilityKey) ?_ fun _ _ => id
  rintro p u ⟨glanced, -, known'⟩
  rw [wp_bind, all, wp_check_ok]
  refine ⟨glanced, ?_⟩
  rw [decide_eq_true_iff, known']
  constructor
  · exact fun full => ⟨oldest, wait, fronts, .inr ⟨queue, work, heads, found, first, all, full⟩⟩
  rintro ⟨oldest', wait', ⟨queue', found', -, least', listed⟩, ready⟩
  obtain rfl := Option.mem_unique found found'
  obtain rfl := ok_unique least least'
  obtain rfl := Option.mem_unique known listed
  obtain ⟨queue', work', heads', found', first', all', full⟩ := ready.resolve_left early
  obtain rfl := Option.mem_unique found found'
  obtain rfl := ok_unique first first'
  obtain rfl := ok_unique all all'
  exact full

theorem readyPhases_spec (inv : q.Inv) (now : ℚ) (phases : List String)
    (known : ∀ p ∈ phases, p ∈ q.phaseQueues.keys) :
    wp (readyPhases r now phases) (fun ready u => Glanced q u ∧ ∀ p, p ∈ ready ↔ p ∈ phases ∧
      Ready r now q p) (fun _ _ => False) q := by
  induction phases generalizing q with
  | nil => exact ⟨.refl inv, by simp⟩
  | cons phase phases ih =>
    rw [readyPhases, wp_bind]
    refine wp_mono (phaseReady_spec inv (known phase mem_cons_self) now) ?_ fun _ _ => id
    rintro ready u ⟨glanced, here⟩
    rw [wp_bind]
    refine wp_mono (ih (glanced.looked.inv inv) fun p mem => ?_) ?_ fun _ _ => id
    · rw [glanced.looked.phaseQueues]
      exact known p (mem_cons_of_mem phase mem)
    rintro rest v ⟨glanced', others⟩
    rw [glanced.ready] at others
    refine ⟨glanced.trans glanced', fun p => ?_⟩
    split
    · rename_i yes
      rw [mem_cons, mem_cons, others, or_and_right]
      refine or_congr ⟨fun same => ⟨same, same ▸ here.mp yes⟩, And.left⟩ Iff.rfl
    rename_i no
    rw [mem_cons, others, or_and_right]
    refine ⟨Or.inr, Or.rec (fun ⟨same, ready⟩ => absurd (here.mpr (same ▸ ready)) no) id⟩

section Turn

def Turned (q u : FairAdaptiveBatchQueue κ π) (allowed : String → Prop) (phase : String) : Prop :=
  ∃ skipped rest, (phaseCycle q.config).rotate q.phaseCursor = skipped ++ phase :: rest ∧
    (phaseCycle q.config).rotate u.phaseCursor = rest ++ skipped ++ [phase] ∧
    ∀ p ∈ skipped, ¬allowed p

theorem mem_phaseCycle {config : FairBatchConfig} :
    phase ∈ phaseCycle config ↔ phase ∈ config.phaseWeights.map Prod.fst := by
  simp only [phaseCycle, mem_flatMap, mem_replicate, mem_map]
  constructor
  · rintro ⟨w, mem, -, rfl⟩
    exact ⟨w, mem, rfl⟩
  · rintro ⟨w, mem, rfl⟩
    exact ⟨w, mem, Nat.pos_iff_ne_zero.mp (config.weights_pos w mem), rfl⟩

omit [DecidableEq κ] in
theorem slot (q : FairAdaptiveBatchQueue κ π) (h : offset < (phaseCycle q.config).length) :
    (phaseCycle q.config)[(q.phaseCursor + offset) % (phaseCycle q.config).length]? =
      ((phaseCycle q.config).rotate q.phaseCursor)[offset]? := by
  rw [getElem?_rotate h, Nat.add_comm]

omit [DecidableEq κ] in
theorem turn_spec (h : q.turn allowed = some (index, phase)) :
    phase ∈ allowed ∧ Turned q { q with phaseCursor := (index + 1) % (phaseCycle q.config).length }
    (· ∈ allowed) phase := by
  obtain ⟨before, offset, later, split, found, passed⟩ := findSome?_eq_some_iff.mp h
  rw [range_eq_range', range'_eq_append_iff] at split
  obtain ⟨k, le, rfl, here⟩ := split
  obtain ⟨rfl, within⟩ : offset = k ∧ k < (phaseCycle q.config).length := by
    rw [eq_comm, range'_eq_cons_iff] at here
    omega
  obtain ⟨p, taken, mem⟩ := Option.bind_eq_some_iff.mp found
  split at mem
  · rename_i listed
    obtain ⟨rfl, rfl⟩ := Prod.mk.inj (Option.some.inj mem)
    set slots := (phaseCycle q.config).rotate q.phaseCursor with cycle
    rw [slot q within, ← cycle] at taken
    obtain ⟨bound, at_offset⟩ := List.getElem?_eq_some_iff.mp taken
    refine ⟨listed, slots.take offset, slots.drop (offset + 1), ?_, ?_, fun p mem => ?_⟩
    · rw [← at_offset, getElem_cons_drop, take_append_drop]
    · rw [rotate_mod, ← rotate_mod, Nat.mod_add_mod, rotate_mod, Nat.add_assoc, ← rotate_rotate,
        ← cycle, rotate_eq_drop_append_take (by omega), take_succ_eq_append_getElem bound,
        at_offset, append_assoc]
    · obtain ⟨j, lt, rfl⟩ := mem_take_iff_getElem.mp mem
      have earlier : j < offset := by omega
      have out := passed j (mem_range'_1.mpr ⟨j.zero_le, by omega⟩)
      simp only [slot q (earlier.trans within), ← cycle, getElem?_eq_getElem (earlier.trans bound),
        Option.bind_some] at out
      intro allowed
      rw [if_pos allowed] at out
      cases out
  · cases mem

omit [DecidableEq κ] in
theorem turn_none (h : q.turn allowed = none) (mem : phase ∈ phaseCycle q.config) :
    phase ∉ allowed := by
  intro listed
  obtain ⟨offset, bound, rfl⟩ := getElem_of_mem (mem_rotate (n := q.phaseCursor) |>.mpr mem)
  have within : offset < (phaseCycle q.config).length := by simpa using bound
  have out := findSome?_eq_none_iff.mp h offset (mem_range.mpr within)
  simp only [slot q within, getElem?_eq_getElem bound, Option.bind_some, if_pos listed] at out
  cases out

omit [DecidableEq κ] in
theorem choosePhase_spec {Q : Option String → FairAdaptiveBatchQueue κ π → Prop}
    {E : Failure → FairAdaptiveBatchQueue κ π → Prop}
    (none : (∀ p ∈ phaseCycle q.config, p ∉ allowed) → Q none q)
    (some : ∀ phase cursor, phase ∈ allowed →
      Turned q { q with phaseCursor := cursor } (· ∈ allowed) phase →
      Q (some phase) { q with phaseCursor := cursor }) : wp (choosePhase allowed) Q E q := by
  rw [choosePhase, wp_bind, wp_get]
  cases found : q.turn allowed with
  | none => exact none fun p mem => turn_none found mem
  | some chosen =>
    obtain ⟨mem, turned⟩ := turn_spec found
    exact some chosen.2 _ mem turned

end Turn

section

variable (inv : q.Inv)
include inv

theorem Fronts.flow (h : Fronts q phase work wait) :
    work.phase = phase ∧ ∃ rest, q.flow phase work.requestId = work :: rest := by
  obtain ⟨queue, found, busy, least, -⟩ := h
  have wf := inv.queues phase queue found
  obtain ⟨work', rest, least', here, -⟩ := PhaseQueue.oldestHead_ok wf busy
  obtain rfl := ok_unique least' least
  refine ⟨(wf.owned _ work' (by rw [here]; exact mem_cons_self)).2, rest, ?_⟩
  rw [flow_eq found, here]

theorem length_ne_zero (filled : q.flow phase id ≠ []) : q.length ≠ 0 := by
  obtain ⟨queue, found, filled⟩ := exists_of_flow_ne_nil filled
  have pos := PhaseQueue.size_pos (inv.queues phase queue found) filled
  have le := le_sumBy (w := (·.size)) (fun queue mem => by
    obtain ⟨p, found⟩ := exists_find?_of_mem_values mem
    exact PhaseQueue.size_nonneg (inv.queues p queue found)) found
  exact (lt_of_lt_of_le pos le).ne'

theorem oldestHead_ok (busy : q.length ≠ 0) : ∃ work wait, q.oldestHead = .ok work ∧
    Fronts q work.phase work wait ∧
    ∀ phase id other rest, q.flow phase id = other :: rest →
    work.enqueuedAt ≤ other.enqueuedAt := by
  have fronts : ∀ queue ∈ q.phaseQueues.values.filter (·.size ≠ 0), ∃ work, queue.oldestHead =
      .ok work := by
    intro queue mem
    obtain ⟨listed, busy⟩ := mem_filter.mp mem
    obtain ⟨phase, found⟩ := exists_find?_of_mem_values listed
    obtain ⟨work, rest, least, -⟩ :=
      PhaseQueue.oldestHead_ok (inv.queues phase queue found) (of_decide_eq_true busy)
    exact ⟨work, least⟩
  obtain ⟨heads, all, into, each⟩ := mapM_total fronts
  have filled : heads ≠ [] := by
    rintro rfl
    refine busy (sum_eq_zero fun size mem => ?_)
    obtain ⟨queue, listed, rfl⟩ := mem_map.mp mem
    by_contra some
    simpa using into queue (mem_filter.mpr ⟨listed, decide_eq_true some⟩)
  obtain ⟨work, mem, least, older⟩ := PhaseQueue.oldest_ok filled
  obtain ⟨queue, listed, front⟩ := each work mem
  obtain ⟨listed, busy⟩ := mem_filter.mp listed
  obtain ⟨phase, found⟩ := exists_find?_of_mem_values listed
  obtain ⟨wait, known⟩ := inv.wait (mem_keys_of_find? found)
  have fronts : Fronts q phase work wait := ⟨queue, found, of_decide_eq_true busy, front, known⟩
  refine ⟨work, wait, ?_, by rw [(fronts.flow inv).1]; exact fronts, fun p j other more here => ?_⟩
  · rw [oldestHead, all]
    exact least
  obtain ⟨queue', found', filled'⟩ :=
    exists_of_flow_ne_nil (by rw [here]; exact cons_ne_nil other more)
  have wf' := inv.queues p queue' found'
  have busy' := (PhaseQueue.size_pos wf' filled').ne'
  obtain ⟨head, -, least', -, before⟩ := PhaseQueue.oldestHead_ok wf' busy'
  obtain ⟨head', mem', same⟩ :=
    into queue' (mem_filter.mpr ⟨mem_values_of_find? found', decide_eq_true busy'⟩)
  obtain rfl := ok_unique least' same
  exact (older _ mem').trans (before j other more (flow_eq found' j ▸ here))

theorem Busy.anchor (busy : Busy q phase) : ∃ queue id others,
    q.phaseQueues.find? phase = some queue ∧ queue.rotation = id :: others ∧
    q.flow phase id ≠ [] := by
  obtain ⟨queue, found, some⟩ := busy
  have wf := inv.queues phase queue found
  obtain ⟨id, others, rotation⟩ := exists_cons_of_ne_nil (PhaseQueue.rotation_ne_nil wf some)
  refine ⟨queue, id, others, found, rotation, ?_⟩
  rw [flow_eq found]
  exact (wf.listed id).mp (by rw [rotation]; exact mem_cons_self)

end

structure Anchored (r : Rounding) (now : ℚ) (force starved : Bool) (oldest : BatchWork κ π)
    (q u : FairAdaptiveBatchQueue κ π) (anchor : Option (String × Int)) : Prop where
  looked : Looked q u
  filled : ∀ p, anchor = some p → q.flow p.1 p.2 ≠ []
  first : starved = true → anchor = some (oldest.phase, oldest.requestId)
  ready : starved = false → force = false → ∀ p, anchor = some p → Ready r now q p.1
  turned : starved = false → ∀ p, anchor = some p → (∃ phase, Ready r now q phase) →
    Turned q u (Ready r now q) p.1
  idle : anchor = none → u.phaseCursor = q.phaseCursor ∧ ∀ phase, ¬Ready r now q phase

theorem Inv.ready_mem (inv : q.Inv) (ready : Ready r now q phase) :
    phase ∈ phaseCycle q.config := by
  obtain ⟨queue, found, -⟩ := ready.busy
  exact mem_phaseCycle.mpr ((inv.phases phase).mp (mem_keys_of_find? found))

theorem anchorOf_spec (inv : q.Inv) (selectedAt : ℚ) (force starved : Bool)
    (front : q.flow oldest.phase oldest.requestId ≠ []) :
    wp (anchorOf r selectedAt force starved oldest)
    (fun anchor u => Anchored r selectedAt force starved oldest q u anchor)
      (fun _ _ => False) q := by
  cases starved with
  | true =>
    exact ⟨.refl inv, fun p same => Option.some.inj same ▸ front,
      fun _ => rfl, by simp, by simp, by simp⟩
  | false =>
    rw [anchorOf, if_neg (by simp), wp_bind, wp_get, wp_bind]
    refine wp_mono (readyPhases_spec inv selectedAt _ fun _ mem => mem) ?_ fun _ _ => id
    rintro ready u ⟨glanced, listed⟩
    have listed : ∀ p, p ∈ ready ↔ Ready r selectedAt q p := fun p =>
      ⟨fun mem => ((listed p).mp mem).2, fun ready => (listed p).mpr ⟨by
        obtain ⟨queue, found, -⟩ := ready.busy
        exact mem_keys_of_find? found, ready⟩⟩
    rw [wp_bind]
    refine choosePhase_spec (fun none => ?_) fun phase cursor mem turned => ?_
    · have none : ∀ phase, ¬Ready r selectedAt q phase := fun phase ready =>
        none phase (glanced.looked.config ▸ inv.ready_mem ready) ((listed phase).mpr ready)
      have done : Anchored r selectedAt force false oldest q u Option.none :=
        ⟨glanced.looked, by simp, by simp, by simp, by simp, fun _ => ⟨glanced.cursor, none⟩⟩
      cases force with
      | false => exact done
      | true =>
        simp only [if_true]
        rw [wp_bind]
        refine choosePhase_spec (fun _ => done) fun phase cursor mem _ => ?_
        obtain ⟨entry, kept, rfl⟩ := mem_map.mp mem
        obtain ⟨listed, busy⟩ := mem_filter.mp kept
        have known := (q.phaseQueues.find?_eq_some_iff _ _).mpr listed
        obtain ⟨queue, id, others, found, rotation, filled⟩ :=
          Busy.anchor inv ⟨entry.2, known, of_decide_eq_true busy⟩
        have looked : Looked q { u with phaseCursor := cursor } :=
          glanced.looked.trans ⟨_, _, rfl, (glanced.looked.inv inv).limits⟩
        simp only [wp_bind, wp_phaseQueue (looked.phaseQueues ▸ found), rotation]
        exact ⟨looked, fun p same => Option.some.inj same ▸ filled, by simp, by simp,
          fun _ _ _ any => any.elim fun phase ready => absurd ready (none phase), by simp⟩
    · have here := (listed phase).mp mem
      obtain ⟨queue, id, others, found, rotation, filled⟩ := here.busy.anchor inv
      have looked : Looked q { u with phaseCursor := cursor } :=
        glanced.looked.trans ⟨_, _, rfl, (glanced.looked.inv inv).limits⟩
      simp only [wp_bind, wp_pure, wp_phaseQueue (looked.phaseQueues ▸ found), rotation]
      refine ⟨looked, fun p same => Option.some.inj same ▸ filled, by simp,
        fun _ _ p same => Option.some.inj same ▸ here, fun _ p same _ => ?_, by simp⟩
      obtain ⟨skipped, rest, slots, next, passed⟩ := turned
      rw [glanced.looked.config, glanced.cursor] at slots
      rw [glanced.looked.config] at next
      rw [← Option.some.inj same]
      exact ⟨skipped, rest, slots, next, fun p mem ready => passed p mem ((listed p).mpr ready)⟩

end FairAdaptiveBatchQueue

end Mycellios.Batching
