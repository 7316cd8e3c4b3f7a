import Mycellios.Data.Pointwise
import Mycellios.Persistence.Outbox

namespace Mycellios.Persistence

open Data Dict List Logic

section InStep

variable {s : State} {q : Record → List Change} {run id : Nat} {record : Record} {now : Int}

namespace State

theorem rowOf_eq_some (found : s.rowOf record = some (id, row)) :
    s.rows.find? id = some row ∧ row.record = record :=
  ⟨(find?_eq_some_iff _ _ _).mpr (mem_of_find?_eq_some found), by simpa using find?_some found⟩

theorem rowOf_eq_none (none : s.rowOf record = none) (found : s.rows.find? id = some row) :
    row.record ≠ record := by
  simpa using find?_eq_none.mp none _ ((find?_eq_some_iff _ _ _).mp found)

end State

/-- A row or a listed copy holds the last change of its record, and a record without a row is up to
date. -/
structure InStep (q : Record → List Change) (s : State) : Prop where
  rows : ∀ id row, s.rows.find? id = some row → (q row.record).getLast? = some row.change ∧
    id ≤ s.sequence
  unique : ∀ id row id' row', s.rows.find? id = some row → s.rows.find? id' = some row' →
    row.record = row'.record → id = id'
  copies : ∀ n r, s.runs.find? n = some r → ∀ c ∈ r.pending, (q c.2.record).getLast? =
    some c.2.change ∧ c.1 ≤ s.sequence ∧ ∀ row, s.rows.find? c.1 = some row →
    row.record = c.2.record
  flight : ∀ n r c, s.runs.find? n = some r → r.accepted = true → r.pending.head? = some c →
    (s.acceptedFor c.2.record).getLast? = some c.2.change
  settled : ∀ k, (∀ id row, s.rows.find? id = some row → row.record ≠ k) →
    (s.acceptedFor k).getLast? = (q k).getLast?
  order : ∀ k, InOrder (q k) (s.acceptedFor k)

theorem inStep_empty : InStep (fun _ => []) .empty where
  rows _ _ found := by cases found
  unique _ _ _ _ found := by cases found
  copies _ _ found := by cases found
  flight _ _ _ found := by cases found
  settled _ _ := rfl
  order _ := .nil _

theorem InStep.setRuns (h : InStep q s)
    (copies : ∀ n r, runs.find? n = some r → s.runs.find? n = some r ∨ r.accepted = false ∧
      ∀ c ∈ r.pending, (q c.2.record).getLast? = some c.2.change ∧ c.1 ≤ s.sequence ∧
        ∀ row, s.rows.find? c.1 = some row → row.record = c.2.record) :
        InStep q { s with runs := runs } where
  rows := h.rows
  unique := h.unique
  copies n r found := by
    rcases copies n r found with before | ⟨_, copies⟩
    · exact h.copies n r before
    · exact copies
  flight n r c found accepted head := by
    rcases copies n r found with before | ⟨waits, _⟩
    · exact h.flight n r c before accepted head
    · rw [waits] at accepted
      cases accepted
  settled := h.settled
  order := h.order

theorem InStep.finish (h : InStep q s) (run : Nat) : InStep q (s.finish run) :=
  h.setRuns fun _ _ found => .inl (find?_of_erase found)

theorem InStep.markFailed (h : InStep q s) (id : Nat) (error : String) (now : Int) :
    InStep q (s.markRemoteChangeFailed id error now) := by
  have rows : ∀ key row, (s.markRemoteChangeFailed id error now).rows.find? key = some row →
      ∃ row', s.rows.find? key = some row' ∧ row.record = row'.record ∧
      row.change = row'.change := by
    intro key row found
    obtain ⟨row', found', rfl⟩ := find?_update_eq_some.mp found
    refine ⟨row', found', ?_⟩
    split <;> exact ⟨rfl, rfl⟩
  constructor
  · intro key row found
    obtain ⟨row', found', record, change⟩ := rows key row found
    rw [record, change]
    exact h.rows key row' found'
  · intro key row key' row' found found' same
    obtain ⟨p, foundP, recordP, _⟩ := rows key row found
    obtain ⟨p', foundP', recordP', _⟩ := rows key' row' found'
    exact h.unique key p key' p' foundP foundP' (recordP.symm.trans (same.trans recordP'))
  · intro n r found c mem
    obtain ⟨last, bound, copy⟩ := h.copies n r found c mem
    refine ⟨last, bound, fun row foundRow => ?_⟩
    obtain ⟨row', found', record, _⟩ := rows c.1 row foundRow
    exact record.trans (copy row' found')
  · exact h.flight
  · intro k none
    refine h.settled k fun key row found => ?_
    have found' : (s.markRemoteChangeFailed id error now).rows.find? key = some _ :=
      find?_update_eq_some.mpr ⟨row, found, rfl⟩
    obtain ⟨p, foundP, record, _⟩ := rows key _ found'
    rw [found] at foundP
    rw [Option.some.inj foundP, ← record]
    exact none key _ found'
  · exact h.order

theorem InStep.markSynced (h : InStep q s) (found : s.runs.find? run = some r)
    (accepted : r.accepted = true) (head : r.pending.head? = some c) :
    InStep q (s.markRemoteChangeSynced c.1) where
  rows id row found := h.rows id row (find?_of_erase found)
  unique id row id' row' found found' :=
    h.unique id row id' row' (find?_of_erase found) (find?_of_erase found')
  copies n r found c mem := by
    obtain ⟨last, bound, copy⟩ := h.copies n r found c mem
    exact ⟨last, bound, fun row foundRow => copy row (find?_of_erase foundRow)⟩
  flight := h.flight
  settled k none := by
    obtain ⟨last, _, copy⟩ := h.copies run r found c (mem_of_head? head)
    by_cases here : c.2.record = k
    · rw [← here, last]
      exact h.flight run r c found accepted head
    refine h.settled k fun id row foundRow => ?_
    by_cases deleted : c.1 = id
    · rw [copy row (deleted ▸ foundRow)]
      exact here
    refine none id row ?_
    rw [State.markRemoteChangeSynced, find?_erase, if_neg deleted]
    exact foundRow
  order := h.order

theorem State.acceptedFor_append (s : State) (u : Record × Change) (k : Record) :
    State.acceptedFor { s with remote := s.remote ++ [u] } k =
      s.acceptedFor k ++ if u.1 = k then [u.2] else [] := by
  by_cases here : u.1 = k
  · simp [State.acceptedFor, here]
  · simp [State.acceptedFor, here]

section

variable (h : InStep q s)
include h

theorem InStep.deliver (last : (q u.1).getLast? = some u.2) :
    InStep q { s with remote := s.remote ++ [u] } := by
  -- what is accepted of the record is its last change, whoever had it in flight
  have accepted : ∀ k change, (q k).getLast? = some change →
      (s.acceptedFor k).getLast? = some change ∨ u.1 = k →
        (State.acceptedFor { s with remote := s.remote ++ [u] } k).getLast? = some change := by
    intro k change lastK before
    rw [State.acceptedFor_append]
    by_cases here : u.1 = k
    · rw [if_pos here, getLast?_concat, ← lastK, ← here, last]
    · rw [if_neg here, append_nil]
      exact before.resolve_right here
  refine ⟨h.rows, h.unique, h.copies, ?_, ?_, ?_⟩
  · intro n r c found acceptedR head
    have copy := (h.copies n r found c (mem_of_head? head)).1
    exact accepted _ _ copy (.inl (h.flight n r c found acceptedR head))
  · intro k none
    have before := h.settled k none
    by_cases here : u.1 = k
    · rw [← here] at before ⊢
      rw [last]
      exact accepted _ _ last (.inr rfl)
    · rw [State.acceptedFor_append, if_neg here, append_nil]
      exact before
  · intro k
    rw [State.acceptedFor_append]
    split
    · rename_i here
      exact (h.order k).read_last (here ▸ last)
    · rw [append_nil]
      exact h.order k

theorem InStep.accept (run : Nat) : InStep q (s.accept run) := by
  unfold State.accept
  split
  · exact h
  rename_i r found
  split
  · rename_i id row rest waits pending
    obtain ⟨last, _⟩ := h.copies run r found (id, row) (by rw [pending]; exact mem_cons_self)
    have delivered := h.deliver (u := (row.record, row.change)) last
    refine ⟨h.rows, h.unique, ?_, ?_, delivered.settled, delivered.order⟩
    · intro n r' found'
      rcases of_find?_insert found' with ⟨-, rfl⟩ | ⟨-, before⟩
      · exact h.copies run r found
      · exact h.copies n r' before
    · intro n r' c found' acceptedR head
      rcases of_find?_insert found' with ⟨-, rfl⟩ | ⟨-, before⟩
      · have same : (id, row) = c := by simpa [pending] using head
        rw [← same]
        exact (congrArg _ (State.acceptedFor_append ..)).trans (by simp)
      · exact delivered.flight n r' c before acceptedR head
  · exact h

theorem InStep.upload
    (copies : ∀ c ∈ pending, (q c.2.record).getLast? = some c.2.change ∧ c.1 ≤ s.sequence ∧
      ∀ row, s.rows.find? c.1 = some row → row.record = c.2.record)
    (run listed processed : Nat) (now : Int) :
    InStep q (s.upload run pending listed processed now) := by
  unfold State.upload
  split
  · exact h.finish run
  split
  · refine h.setRuns fun n r found => ?_
    rcases of_find?_insert found with ⟨-, rfl⟩ | ⟨-, found⟩
    · exact .inr ⟨rfl, copies⟩
    · exact .inl found
  · exact (h.markFailed _ _ now).finish run

theorem InStep.list (run processed : Nat) (now : Int) :
    InStep q (s.list run processed now) := by
  simp only [State.list]
  split
  · exact h.finish run
  refine h.upload (fun c mem => ?_) run _ _ now
  have found :=
    (find?_eq_some_iff s.rows c.1 c.2).mpr ((mem_insertionSort _).mp (mem_of_mem_take mem))
  obtain ⟨last, bound⟩ := h.rows c.1 c.2 found
  refine ⟨last, bound, fun row foundRow => ?_⟩
  rw [found] at foundRow
  rw [Option.some.inj foundRow]

theorem InStep.failed (run : Nat) (error : String) (now : Int) :
    InStep q (s.answered run false error now) := by
  simp only [State.answered]
  split
  · exact h
  split
  · exact h
  · exact { (h.markFailed _ error now).finish run with }

/-- What was given up may arrive late as long as its row is unchanged. -/
theorem InStep.acceptLate (waits : ∀ u, s.givenUp[n]? = some u →
      ∃ id row, s.rows.find? id = some row ∧ (row.record, row.change) = u) :
    InStep q (s.acceptLate n) := by
  unfold State.acceptLate
  split
  · exact h
  rename_i u found
  obtain ⟨id, row, stored, rfl⟩ := waits u found
  exact { h.deliver (u := (row.record, row.change)) (h.rows id row stored).1 with }

theorem InStep.succeeded
    (accepted : ∀ r, s.runs.find? run = some r → r.pending ≠ [] → r.accepted = true)
    (error : String) (now : Int) : InStep q (s.answered run true error now) := by
  simp only [State.answered]
  split
  · exact h
  rename_i r found
  split
  · exact h
  rename_i id row rest pending
  have synced_ :=
    h.markSynced found (accepted r found (by rw [pending]; simp)) (c := (id, row))
      (by rw [pending]; rfl)
  have rest_ : ∀ c ∈ rest, (q c.2.record).getLast? = some c.2.change ∧
      c.1 ≤ (s.markRemoteChangeSynced id).sequence ∧
      ∀ row, (s.markRemoteChangeSynced id).rows.find? c.1 = some row → row.record = c.2.record :=
    fun c mem =>
    synced_.copies run r found c (by rw [pending]; exact mem_cons_of_mem _ mem)
  rw [if_pos trivial]
  split
  · split
    · exact synced_.finish run
    · exact synced_.list run _ now
  · exact synced_.upload rest_ run _ _ now

/-- The row of the record is written, at an id of its own. -/
theorem InStep.enqueued (record : Record) (change : Change) (now : Int) : ∃ id row,
    (s.enqueueRemoteChange record change now).rows = s.rows.insert id row ∧ row.record = record ∧
    row.change = change ∧ id ≤ (s.enqueueRemoteChange record change now).sequence ∧
    ((∃ old, s.rows.find? id = some old) ∨ s.sequence < id) ∧
    ∀ id' row', s.rows.find? id' = some row' → (row'.record = record ↔ id' = id) := by
  unfold State.enqueueRemoteChange
  split
  · rename_i id row found
    obtain ⟨foundRow, here⟩ := State.rowOf_eq_some found
    refine ⟨id, _, rfl, here, rfl, (h.rows id row foundRow).2, .inl ⟨row, foundRow⟩,
      fun id' row' found' => ⟨fun same => ?_, ?_⟩⟩
    · exact h.unique id' row' id row found' foundRow (same.trans here.symm)
    rintro rfl
    rw [foundRow] at found'
    rw [← Option.some.inj found']
    exact here
  · rename_i none
    refine ⟨s.sequence + 1, _, rfl, rfl, rfl, le_refl _, .inr (Nat.lt_succ_self _),
      fun id' row' found' => ⟨fun same => ?_, ?_⟩⟩
    · exact absurd same (State.rowOf_eq_none none found')
    rintro rfl
    have := (h.rows _ _ found').2
    omega

omit h in
theorem State.enqueueRemoteChange_kept (s : State) (record : Record) (change : Change) (now : Int) :
    (s.enqueueRemoteChange record change now).runs = s.runs ∧
      (∀ k, (s.enqueueRemoteChange record change now).acceptedFor k = s.acceptedFor k) ∧
      s.sequence ≤ (s.enqueueRemoteChange record change now).sequence := by
  unfold State.enqueueRemoteChange
  split
  · exact ⟨rfl, fun _ => rfl, le_refl _⟩
  · exact ⟨rfl, fun _ => rfl, Nat.le_succ _⟩

theorem InStep.enqueue
    (calm : ∀ n r c, s.runs.find? n = some r → c ∈ r.pending → c.2.record ≠ record) :
    InStep (fun k => q k ++ if record = k then [change] else [])
      (s.enqueueRemoteChange record change now) := by
  obtain ⟨id, row, rows, rowRecord, rowChange, bound, known, own⟩ := h.enqueued record change now
  obtain ⟨runs, remote, later⟩ := s.enqueueRemoteChange_kept record change now
  have elsewhere : ∀ k, record ≠ k → (q k ++ if record = k then [change] else []) = q k := by
    intro k other
    rw [if_neg other, append_nil]
  have found? : ∀ id' row', (s.enqueueRemoteChange record change now).rows.find? id' = some row' →
      id' = id ∧ row' = row ∨ row'.record ≠ record ∧ s.rows.find? id' = some row' := by
    intro id' row' found
    rcases of_find?_insert (rows ▸ found) with ⟨rfl, rfl⟩ | ⟨other, found⟩
    · exact .inl ⟨rfl, rfl⟩
    · exact .inr ⟨fun same => other ((own id' row' found).mp same).symm, found⟩
  constructor
  · intro id' row' found
    rcases found? id' row' found with ⟨rfl, rfl⟩ | ⟨other, before⟩
    · refine ⟨?_, bound⟩
      simp only [rowRecord, if_true, getLast?_concat, rowChange]
    · obtain ⟨last, below⟩ := h.rows id' row' before
      exact ⟨by simp only [elsewhere _ (Ne.symm other)]; exact last, below.trans later⟩
  · intro id' row' id'' row'' found found' same
    rcases found? id' row' found with ⟨rfl, rfl⟩ | ⟨other, before⟩
    · rcases found? id'' row'' found' with ⟨rfl, _⟩ | ⟨other', _⟩
      · rfl
      · exact absurd (same.symm.trans rowRecord) other'
    rcases found? id'' row'' found' with ⟨_, rfl⟩ | ⟨_, before'⟩
    · exact absurd (same.trans rowRecord) other
    · exact h.unique id' row' id'' row'' before before' same
  · intro n r found c mem
    rw [runs] at found
    have other := calm n r c found mem
    obtain ⟨last, below, copy⟩ := h.copies n r found c mem
    refine ⟨by simp only [elsewhere _ (Ne.symm other)]; exact last, below.trans later,
      fun row' foundRow => ?_⟩
    rcases found? c.1 row' foundRow with ⟨here, rfl⟩ | ⟨_, before⟩
    · -- the id of a copy belongs to its record for good
      rcases known with ⟨old, foundOld⟩ | fresh
      · have copied := copy old (here ▸ foundOld)
        exact absurd (copied.symm.trans ((own id old foundOld).mpr rfl)) other
      · omega
    · exact copy row' before
  · intro n r c found accepted head
    rw [runs] at found
    rw [remote]
    exact h.flight n r c found accepted head
  · intro k none
    have other : record ≠ k := by
      rintro rfl
      exact none id row (by rw [rows]; exact find?_insert_self ..) rowRecord
    simp only [elsewhere k other, remote]
    refine h.settled k fun id' row' found' => ?_
    by_cases here : row'.record = record
    · rw [here]
      exact other
    refine none id' row' ?_
    have apart : id ≠ id' := fun same => here ((own id' row' found').mpr same.symm)
    rw [rows, find?_insert, if_neg apart]
    exact found'
  · intro k
    rw [remote]
    exact (h.order k).append _

end

end InStep

section Runs

variable {q : Record → List Change}

/-- A change is queued for a record only while no run has listed it, and what was given up is taken
only while it is still to be sent. -/
def Calm (s : State) : Event → Bool
  | .enqueue record _ => ∀ r ∈ s.runs.values, ∀ c ∈ r.pending, c.2.record ≠ record
  | .late upload => ∀ u ∈ s.givenUp[upload]?, ∃ row ∈ s.rows.values, (row.record, row.change) = u
  | _ => true

def Event.queues (record : Record) : Event → List Change
  | .enqueue r change => if r = record then [change] else []
  | _ => []

theorem queued_concat (record : Record) (events : List (Int × Event)) (i : Int × Event) :
    queued record (events ++ [i]) = queued record events ++ i.2.queues record := by
  obtain ⟨now, event⟩ := i
  cases event with
  | enqueue r change =>
    by_cases here : r = record
    · simp [queued, Event.queues, here]
    · simp [queued, Event.queues, here]
  | _ => simp [queued, Event.queues]

theorem State.accept_accepted (s : State) (found : (s.accept run).runs.find? run = some r)
    (pending : r.pending ≠ []) : r.accepted = true := by
  unfold State.accept at found
  split at found
  · rename_i none
    rw [none] at found
    cases found
  rename_i r' found'
  split at found
  · rw [find?_insert_self] at found
    rw [← Option.some.inj found]
  rename_i other
  rw [found'] at found
  rw [Option.some.inj found] at other
  cases accepted : r.accepted with
  | true => rfl
  | false =>
    cases copies : r.pending with
    | nil => exact absurd copies pending
    | cons c rest => exact (other c.1 c.2 rest accepted copies).elim

theorem inStep_step (calm : Calm s i.2 = true) (h : InStep q s) :
    InStep (fun k => q k ++ i.2.queues k) (step s i).1 := by
  obtain ⟨now, event⟩ := i
  have nothing : (fun k => q k ++ []) = q := by
    funext k
    exact append_nil _
  cases event with
  | enqueue record change =>
    have calm := of_decide_eq_true calm
    exact h.enqueue fun n r c found mem => calm r (mem_values_of_find? found) c mem
  | flush run =>
    simp only [Event.queues, nothing, step, State.handle]
    split
    · exact h
    · exact h.list run 0 now
  | accept run =>
    simp only [Event.queues, nothing]
    exact h.accept run
  | answer run ok error =>
    simp only [Event.queues, nothing]
    cases ok with
    | true => exact (h.accept run).succeeded (fun r found => s.accept_accepted found) error now
    | false => exact h.failed run error now
  | late upload =>
    simp only [Event.queues, nothing]
    refine h.acceptLate fun u found => ?_
    obtain ⟨row, listed, same⟩ := of_decide_eq_true calm u found
    obtain ⟨id, stored⟩ := exists_find?_of_mem_values listed
    exact ⟨id, row, stored, same⟩
  | close =>
    simp only [Event.queues, nothing]
    exact ⟨h.rows, h.unique, h.copies, h.flight, h.settled, h.order⟩

def Kept (h : List (Transition State (Int × Event) Unit)) (s : State) : Prop :=
  (∀ x ∈ h, Calm x.pre x.input.2 = true) → InStep (fun k => queued k (h.map Transition.input)) s

theorem kept_step (h : List (Transition State (Int × Event) Unit)) (s : State) (i : Int × Event)
    (kept : Kept h s) : Kept (h ++ [⟨s, i, (step s i).2, (step s i).1⟩]) (step s i).1 := by
  intro calm
  obtain ⟨earlier, here⟩ := forall_mem_append.mp calm
  simp only [map_append, map_cons, map_nil, queued_concat]
  exact inStep_step (here _ (mem_singleton_self _)) (kept earlier)

theorem inStep_final (calm : ∀ x ∈ trace step .empty events, Calm x.pre x.input.2 = true) :
    InStep (fun k => queued k events) (final step .empty events) := by
  have inStep := trace_invariant (P := Kept) (h := []) kept_step (fun _ => inStep_empty) events calm
  simpa using inStep

/-- If no change is queued for a record that is being uploaded, and none that was given up arrives
after its row has changed, a record without a row is up to date and its changes came in order. -/
theorem no_change_lost (events : List (Int × Event))
    (calm : ∀ x ∈ trace step .empty events, Calm x.pre x.input.2 = true) (record : Record) :
    ((final step .empty events).rowOf record = none →
      ((final step .empty events).acceptedFor record).getLast? = (queued record events).getLast?) ∧
    InOrder (queued record events) ((final step .empty events).acceptedFor record) := by
  have inStep := inStep_final calm
  refine ⟨fun none => ?_, inStep.order record⟩
  exact inStep.settled record fun id row found => State.rowOf_eq_none none found

end Runs

def upsert (payload : String) : Change := ⟨.upsert, some payload⟩

def worker : Record := ("workers", "node")

def overtaken : List (Int × Event) :=
  [(0, .enqueue worker (upsert "first")),
    (1, .flush 0),
    (2, .enqueue worker (upsert "second")),
    (3, .answer 0 true "")]

theorem second_change_lost :
    (final step .empty overtaken).rowOf worker = none ∧
    (final step .empty overtaken).acceptedFor worker = [upsert "first"] ∧
    queued worker overtaken = [upsert "first", upsert "second"] := by
  decide +kernel

def retried : List (Int × Event) :=
  [(0, .enqueue worker (upsert "first")),
    (1, .flush 0),
    (2, .answer 0 true ""),
    (3, .enqueue worker (upsert "second")),
    (4, .flush 1),
    (5, .answer 1 false "timeout"),
    (6, .late 0),
    (7, .flush 2),
    (8, .answer 2 true "")]

theorem retried_up_to_date :
    (final step .empty retried).rowOf worker = none ∧
    ((final step .empty retried).acceptedFor worker).getLast? =
      (queued worker retried).getLast? := by
  have none : (final step .empty retried).rowOf worker = none := by decide +kernel
  exact ⟨none, (no_change_lost retried (by decide +kernel) worker).1 none⟩

end Mycellios.Persistence
