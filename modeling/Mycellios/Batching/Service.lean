import Mycellios.Batching.Runs

namespace Mycellios.Batching.FairAdaptiveBatchQueue

open Data Logic

variable {κ π : Type} [DecidableEq κ] {r : Rounding} {q u : FairAdaptiveBatchQueue κ π}
  {phase : String} {clock : ℚ} {now : Option Number} {time : ℚ} {force : Bool}

theorem final_spec (inv : q.Inv) (calls : List (Call κ π)) :
    (final (step r) q calls).Inv ∧ (final (step r) q calls).config = q.config :=
  final_invariant (P := fun u : FairAdaptiveBatchQueue κ π => u.Inv ∧ u.config = q.config)
      (fun _ c h =>
    have effect := (step_spec h.1 c).1
    ⟨effect.inv, effect.config.trans h.2⟩) ⟨inv, rfl⟩ calls

theorem popBatch_ok (inv : q.Inv) (read : timeOf clock now = .ok time) (force : Bool) :
    ∃ selection, answer (popBatch r clock now force) q = .ok selection ∧
      selection.elim (Waited r time q)
      (Chosen r time force q (after (popBatch r clock now force) q)) := by
  obtain ⟨done, failed⟩ := (wp_iff ..).mp (popBatch_spec (r := r) inv clock now force)
  cases result : answer (popBatch r clock now force) q with
  | ok selection => exact ⟨selection, rfl, (done selection result).2.2 time read⟩
  | error e => exact absurd read ((failed e result).2 time)

theorem nextReadyInMs_ok (inv : q.Inv) (read : timeOf clock now = .ok time) :
    ∃ wait, answer (nextReadyInMs r clock now) q = .ok wait ∧ Awaited r time q wait := by
  obtain ⟨done, failed⟩ := (wp_iff ..).mp (nextReadyInMs_spec (r := r) inv clock now)
  cases result : answer (nextReadyInMs r clock now) q with
  | ok wait => exact ⟨wait, rfl, (done wait result).2 time read⟩
  | error e => exact absurd read ((failed e result).2 time)

def Front (q : FairAdaptiveBatchQueue κ π) (work : BatchWork κ π) : Prop :=
  ∃ rest, q.flow work.phase work.requestId = work :: rest

def Starving (time : ℚ) (q : FairAdaptiveBatchQueue κ π) : Prop :=
  ∃ work, Front q work ∧ q.config.starvationMs ≤ (time - work.enqueuedAt) * 1000

theorem Fronts.front (inv : q.Inv) (h : Fronts q phase work wait) : Front q work := by
  obtain ⟨rfl, rest, here⟩ := h.flow inv
  exact ⟨rest, here⟩

theorem Inv.busy_of_front (inv : q.Inv) (front : Front q work) : q.length ≠ 0 := by
  obtain ⟨rest, here⟩ := front
  exact length_ne_zero inv (by rw [here]; exact List.cons_ne_nil _ _)

theorem oldestHead_front (inv : q.Inv) (busy : q.length ≠ 0) : ∃ oldest, q.oldestHead = .ok oldest ∧
    Front q oldest ∧ (∃ wait, Fronts q oldest.phase oldest wait) ∧ ∀ other, Front q other →
    oldest.enqueuedAt ≤ other.enqueuedAt := by
  obtain ⟨oldest, wait, least, fronts, older⟩ := oldestHead_ok inv busy
  exact ⟨oldest, least, fronts.front inv, ⟨wait, fronts⟩,
    fun other ⟨rest, here⟩ => older _ _ other rest here⟩

/-- `pop_batch` without force returns a batch when a head starves or a phase is ready. -/
theorem popBatch_some_iff (inv : q.Inv) (read : timeOf clock now = .ok time) :
    (∃ s, answer (popBatch unrounded clock now false) q = .ok (some s)) ↔
      Starving time q ∨ ∃ phase, Ready unrounded time q phase := by
  obtain ⟨selection, result, outcome⟩ := popBatch_ok (r := unrounded) inv read false
  rw [result]
  cases selection with
  | none =>
    refine ⟨by simp, ?_⟩
    rintro (⟨work, front, late⟩ | ⟨phase, ready⟩)
    · have busy := inv.busy_of_front front
      obtain ⟨oldest, least, -, -, older⟩ := oldestHead_front inv busy
      have early : (time - oldest.enqueuedAt) * 1000 < _ := (outcome busy).2 oldest least
      linarith [older work front]
    · exact absurd ready ((outcome (inv.length_of_ready ready)).1 phase)
  | some s =>
    refine ⟨fun _ => ?_, fun _ => ⟨s, rfl⟩⟩
    cases late : s.starved with
    | false => exact .inr (outcome.ready late rfl)
    | true =>
      obtain ⟨oldest, least, starved, -⟩ := outcome.starved
      obtain ⟨oldest', least', front, -⟩ := oldestHead_front inv outcome.busy
      obtain rfl := ok_unique least least'
      exact .inl ⟨oldest, front, of_decide_eq_true (starved.symm.trans late)⟩

/-- `next_ready_in_ms` answers zero in the same cases. -/
theorem nextReadyInMs_zero_iff (inv : q.Inv) (read : timeOf clock now = .ok time) :
    answer (nextReadyInMs unrounded clock now) q = .ok (some 0) ↔
      Starving time q ∨ ∃ phase, Ready unrounded time q phase := by
  obtain ⟨wait, result, bare, ready, least⟩ := nextReadyInMs_ok (r := unrounded) inv read
  rw [result]
  by_cases any : ∃ phase, Ready unrounded time q phase
  · exact ⟨fun _ => .inr any, fun _ => by rw [ready any]⟩
  by_cases busy : q.length = 0
  · rw [bare busy]
    refine ⟨by simp, ?_⟩
    rintro (⟨work, front, -⟩ | ready)
    · exact absurd busy (inv.busy_of_front front)
    · exact absurd ready any
  obtain ⟨w, rfl, ⟨phase, oldest, limit, fronts, attained⟩, le⟩ :=
    least busy fun phase ready => any ⟨phase, ready⟩
  have pos := q.config.starvation_pos
  constructor
  · intro zero
    obtain rfl := Option.some.inj (Except.ok.inj zero)
    rcases attained with early | late
    · -- the phase would be ready
      refine absurd ⟨phase, oldest, limit, fronts, .inl ?_⟩ any
      have le := le_max_right (0 : ℚ) (limit - max 0 ((time - oldest.enqueuedAt) * 1000))
      rw [show max 0 (limit - max 0 ((time - oldest.enqueuedAt) * 1000)) = 0 from early.symm] at le
      exact sub_nonpos.mp le
    refine .inl ⟨oldest, fronts.front inv, ?_⟩
    have le :=
      le_max_right (0 : ℚ) (q.config.starvationMs - max 0 ((time - oldest.enqueuedAt) * 1000))
    rw [show max 0 (q.config.starvationMs - max 0 ((time - oldest.enqueuedAt) * 1000)) =
      0 from late.symm] at le
    rcases le_max_iff.mp (sub_nonpos.mp le) with none | late
    · exact absurd none (not_le.mpr pos)
    · exact late
  · rintro (⟨work, front, late⟩ | ready)
    · obtain ⟨oldest', -, -, ⟨limit', fronts'⟩, older⟩ := oldestHead_front inv busy
      have first := le oldest' limit' fronts'
      have age : q.config.starvationMs ≤ (time - oldest'.enqueuedAt) * 1000 := by
        linarith [older work front]
      rw [show max 0 (unrounded.sub q.config.starvationMs
          (max 0 (unrounded.ageMs time oldest'.enqueuedAt))) = 0 from
        max_eq_left (sub_nonpos.mpr (le_max_of_le_right age))] at first
      have nonneg : 0 ≤ w := by rcases attained with rfl | rfl <;> exact le_max_left _ _
      rw [le_antisymm first nonneg]
    · exact absurd ready any

theorem due_after_wait (inv : q.Inv) (read : timeOf clock now = .ok time) (pos : 0 < w)
    (told : answer (nextReadyInMs unrounded clock now) q = .ok (some w))
    (past : ∀ work, Front q work → work.enqueuedAt ≤ time) (queues : u.phaseQueues = q.phaseQueues)
    (config : u.config = q.config) :
    Starving (time + w / 1000) u ∨ ∃ phase, Ready unrounded (time + w / 1000) u phase := by
  obtain ⟨wait, result, bare, ready, least⟩ := nextReadyInMs_ok (r := unrounded) inv read
  obtain rfl := ok_unique told result
  have none : ∀ phase, ¬Ready unrounded time q phase := fun phase here =>
    pos.ne' (Option.some.inj (ready ⟨phase, here⟩))
  obtain ⟨w', same, ⟨phase, oldest, limit, fronts, attained⟩, -⟩ :=
    least (fun none => by simpa using bare none) none
  obtain rfl := Option.some.inj same
  have front := fronts.front inv
  have age : max 0 (unrounded.ageMs time oldest.enqueuedAt) = (time - oldest.enqueuedAt) * 1000 :=
    max_eq_right (mul_nonneg (sub_nonneg.mpr (past oldest front)) (by norm_num))
  have later : (time + w / 1000 - oldest.enqueuedAt) * 1000 = (time - oldest.enqueuedAt) * 1000 +
    w := by ring
  have settle : ∀ {a b : ℚ}, w = max 0 (a - b) → a = b + w := fun {a b} same => by
    rcases max_choice 0 (a - b) with zero | here
    · exact absurd (same.trans zero) pos.ne'
    · linarith [same.trans here]
  rw [age] at attained
  rcases attained with early | late
  · refine .inr ⟨phase, oldest, limit, ?_, .inl (le_max_of_le_right ?_)⟩
    · rw [Fronts, queues, config]
      exact fronts
    · exact ((settle early).trans later.symm).le
  refine .inl ⟨oldest, ?_, ?_⟩
  · rw [Front, flow_congr queues]
    exact front
  · rw [config]
    exact ((settle late).trans later.symm).le

structure Punctual (q : FairAdaptiveBatchQueue κ π) (clock : ℚ) (now : Option Number) (time : ℚ) :
    Prop where
  agree : (∃ s, answer (popBatch unrounded clock now false) q = .ok (some s)) ↔
    answer (nextReadyInMs unrounded clock now) q = .ok (some 0)
  wake : ∀ w, 0 < w → answer (nextReadyInMs unrounded clock now) q = .ok (some w) →
    (∀ work, Front q work → work.enqueuedAt ≤ time) → ∀ (between : List (Call κ π)) clock' now',
    (final (step unrounded) q between).phaseQueues = q.phaseQueues →
    timeOf clock' now' = .ok (time + w / 1000) →
    ∃ s, answer (popBatch unrounded clock' now' false) (final (step unrounded) q between) =
    .ok (some s)
  oldest : Starving time q → ∀ force, ∃ s, answer (popBatch unrounded clock now force) q =
    .ok (some s) ∧ ∃ oldest ∈ s.items, Front q oldest ∧ ∀ other, Front q other →
    oldest.enqueuedAt ≤ other.enqueuedAt

theorem wakeups_agree (config : FairBatchConfig) (calls : List (Call κ π)) (clock : ℚ)
    (now : Option Number) (time : ℚ) (read : timeOf clock now = .ok time) :
    Punctual (final (step unrounded) (init config) calls) clock now time := by
  have inv := (final_spec (r := unrounded) (Inv.init config) calls).1
  generalize final (step unrounded) (init config) calls = q at inv
  refine ⟨(popBatch_some_iff inv read).trans (nextReadyInMs_zero_iff inv read).symm, ?_, ?_⟩
  · intro w pos told past between clock' now' queues read'
    obtain ⟨inv', config'⟩ := final_spec (r := unrounded) inv between
    exact (popBatch_some_iff inv' read').mpr (due_after_wait inv read pos told past queues config')
  rintro ⟨work, front, late⟩ force
  have busy := inv.busy_of_front front
  obtain ⟨oldest, least, first, -, older⟩ := oldestHead_front inv busy
  have age : q.config.starvationMs ≤ (time - oldest.enqueuedAt) * 1000 := by
    linarith [older work front]
  obtain ⟨selection, result, outcome⟩ := popBatch_ok (r := unrounded) inv read force
  cases selection with
  | none => exact absurd age (not_le.mpr ((outcome busy).2 oldest least))
  | some s =>
    obtain ⟨oldest', least', starved, head⟩ := outcome.starved
    obtain rfl := ok_unique least least'
    exact ⟨s, result, oldest, List.mem_of_mem_head? (head (starved.trans (decide_eq_true age))),
      first, older⟩

def enqueuedAhead : FairAdaptiveBatchQueue Nat Nat :=
  final (step unrounded) (init .default) [.enqueue 0 1 1 "prefill" 0 1 (some (.finite 10))]

theorem enqueuedAhead_punctual : Punctual enqueuedAhead 0 (some (.finite 10)) 10 :=
  wakeups_agree .default [.enqueue 0 1 1 "prefill" 0 1 (some (.finite 10))] 0 (some (.finite 10))
    10 rfl

/-- Work yet to come has age zero, so the owner sleeps 2 ms and finds nothing. -/
theorem woken_too_early :
    (answer (nextReadyInMs unrounded 0 (some (.finite 0))) enqueuedAhead).toOption = some (some 2) ∧
      (answer (popBatch unrounded 0 (some (.finite (0 + 2 / 1000))) false)
        (after (nextReadyInMs unrounded 0 (some (.finite 0))) enqueuedAhead)).toOption.map
        Option.isSome = some false := by
  decide +kernel

abbrev Called (κ π : Type) :=
  Transition (FairAdaptiveBatchQueue κ π) (Call κ π) (Except Failure (Answer κ π))

abbrev call (r : Rounding) (q : FairAdaptiveBatchQueue κ π) (c : Call κ π) : Called κ π :=
  ⟨q, c, (step r q c).2, (step r q c).1⟩

def served (t : Called κ π) : Option String := ((poppedBy t.output).head?).map (·.phase)

def pops (t : Called κ π) : Bool :=
  match t.input with
  | .popBatch .. => true
  | _ => false

/-- A call that pops finds the phase ready and no head starved. -/
def Waits (r : Rounding) (phase : String) (t : Called κ π) : Prop :=
  ∀ clock now force, t.input = .popBatch clock now force → ∃ time, timeOf clock now = .ok time ∧
    answer (phaseReady r time phase) t.pre = .ok true ∧ ∀ oldest, t.pre.oldestHead = .ok oldest →
      r.ageMs time oldest.enqueuedAt < t.pre.config.starvationMs

theorem length_phaseCycle (config : FairBatchConfig) :
    (phaseCycle config).length = (config.phaseWeights.map Prod.snd).sum := by
  simp [phaseCycle, List.length_flatMap]

theorem count_phaseCycle {config : FairBatchConfig} (mem : (phase, weight) ∈ config.phaseWeights) :
    (phaseCycle config).count phase = weight := by
  have nodup := config.weights_nodup
  rw [phaseCycle]
  generalize config.phaseWeights = ws at mem nodup
  induction ws with
  | nil => cases mem
  | cons w ws ih =>
    rw [List.map_cons, List.nodup_cons] at nodup
    rw [List.flatMap_cons, List.count_append, List.count_replicate]
    rcases List.mem_cons.mp mem with rfl | mem
    · have none : (ws.flatMap fun w => List.replicate w.2 w.1).count phase = 0 := by
        refine List.count_eq_zero.mpr fun mem => nodup.1 ?_
        obtain ⟨w, listed, here⟩ := List.mem_flatMap.mp mem
        exact List.mem_map.mpr ⟨w, listed, (List.eq_of_mem_replicate here).symm⟩
      simp [none]
    · have other : ¬w.1 = phase := fun same => nodup.1 (same ▸ List.mem_map_of_mem mem)
      simp [other, ih mem nodup.2]

theorem popped_inv
    (h : (step r q c).2 = .ok (.popped selection)) :
    ∃ clock now force, c = .popBatch clock now force ∧
      answer (popBatch r clock now force) q = .ok selection ∧
      (step r q c).1 = after (popBatch r clock now force) q := by
  cases c with
  | popBatch clock now force =>
    obtain ⟨selection', result, same⟩ := answer_map_eq_ok.mp h
    obtain rfl := Answer.popped.inj same
    exact ⟨clock, now, force, rfl, result, after_map ..⟩
  | _ =>
    obtain ⟨_, -, same⟩ := answer_map_eq_ok.mp h
    cases same

theorem Waits.ready (inv : q.Inv) (mem : phase ∈ phaseCycle q.config)
    (waits : Waits r phase (call r q (.popBatch clock now force))) :
    ∃ time, timeOf clock now = .ok time ∧ Ready r time q phase ∧
      ∀ oldest, q.oldestHead = .ok oldest →
      r.ageMs time oldest.enqueuedAt < q.config.starvationMs := by
  obtain ⟨time, read, yes, fed⟩ := waits clock now force rfl
  have listed := (inv.phases phase).mpr (mem_phaseCycle.mp mem)
  exact ⟨time, read, (((wp_iff ..).mp (phaseReady_spec inv listed time)).1 true yes).2.mp rfl, fed⟩

theorem waiting_served (inv : q.Inv) (mem : phase ∈ phaseCycle q.config)
    (waits : Waits r phase (call r q (.popBatch clock now force))) :
    ∃ first, served (call r q (.popBatch clock now force)) = some first ∧
      Turned q (step r q (.popBatch clock now force)).1
        (Waits r · (call r q (.popBatch clock now force))) first := by
  obtain ⟨time, read, ready, early⟩ := waits.ready inv mem
  obtain ⟨selection, popped, outcome⟩ := popBatch_ok (r := r) inv read force
  have result : (step r q (.popBatch clock now force)).2 = .ok (.popped selection) :=
    answer_map_eq_ok.mpr ⟨selection, popped, rfl⟩
  cases selection with
  | none => exact absurd ready ((outcome (inv.length_of_ready ready)).1 phase)
  | some s =>
    have fed : s.starved = false := by
      obtain ⟨oldest, least, starved, -⟩ := outcome.starved
      rw [starved]
      exact decide_eq_false (not_le.mpr (early oldest least))
    obtain ⟨work, head, skipped, rest, slots, turned, passed⟩ := outcome.turned fed ⟨phase, ready⟩
    have here : served (call r q (.popBatch clock now force)) = some work.phase := by
      simp only [served, result, poppedBy]
      rw [head, Option.map_some]
    refine ⟨work.phase, here, skipped, rest, slots, ?_, ?_⟩
    · rw [show (step r q (.popBatch clock now force)).1 = _ from after_map ..]
      exact turned
    · intro p mem waits
      refine passed p mem ?_
      have listed := (List.mem_rotate (n := q.phaseCursor)).mp (slots ▸ List.mem_append_left _ mem)
      obtain ⟨time', read', ready, -⟩ := waits.ready inv listed
      obtain rfl := ok_unique read read'
      exact ready

theorem served_pops (here : served (call r q c) = some first) :
    ∃ clock now force, c = .popBatch clock now force := by
  obtain ⟨work, head, rfl⟩ := Option.map_eq_some_iff.mp here
  simp only [poppedBy] at head
  split at head
  · rename_i result
    obtain ⟨clock, now, force, same, -⟩ := popped_inv result
    exact ⟨clock, now, force, same⟩
  · cases head

theorem served_turned (inv : q.Inv) (here : served (call r q c) = some first)
    (mem : phase ∈ phaseCycle q.config) (waits : Waits r phase (call r q c)) :
    Turned q (step r q c).1 (Waits r · (call r q c)) first := by
  obtain ⟨clock, now, force, rfl⟩ := served_pops here
  obtain ⟨first', here', turned⟩ := waiting_served inv mem waits
  obtain rfl := Option.mem_unique here here'
  exact turned

theorem served_none (inv : q.Inv) (here : served (call r q c) = none) :
    (step r q c).1.phaseCursor = q.phaseCursor :=
  (step_spec inv c).1.cursor (List.head?_eq_none_iff.mp (Option.map_eq_none_iff.mp here))

def slotsBefore (phase : String) (q : FairAdaptiveBatchQueue κ π) : List String :=
  ((phaseCycle q.config).rotate q.phaseCursor).takeWhile (· ≠ phase)

theorem takeWhile_append_of_exists {α : Type} {p : α → Bool} {l m : List α}
    (h : ∃ a ∈ l, ¬p a = true) : (l ++ m).takeWhile p = l.takeWhile p := by
  obtain ⟨a, mem, no⟩ := h
  rw [List.takeWhile_append, if_neg]
  intro all
  have same := (List.takeWhile_prefix p).eq_of_length all
  exact no (List.mem_takeWhile_imp (same.symm ▸ mem))

omit [DecidableEq κ] in
theorem Turned.slotsBefore {allowed : String → Prop} {first : String} (h : Turned q u allowed first)
    (config : u.config = q.config) (mem : phase ∈ phaseCycle q.config) (waits : allowed phase)
    (other : first ≠ phase) : (slotsBefore phase u).length < (slotsBefore phase q).length := by
  obtain ⟨skipped, rest, slots, next, passed⟩ := h
  have before : ∀ p ∈ skipped, decide (p ≠ phase) = true := fun p listed =>
    decide_eq_true fun same => passed p listed (same ▸ waits)
  have later : ∃ p ∈ rest, ¬decide (p ≠ phase) = true := by
    have mem := (List.mem_rotate (n := q.phaseCursor)).mpr mem
    rw [slots, List.mem_append, List.mem_cons] at mem
    refine ⟨phase, (mem.resolve_left fun listed => passed phase listed waits).resolve_left
      other.symm, by simp⟩
  rw [FairAdaptiveBatchQueue.slotsBefore, FairAdaptiveBatchQueue.slotsBefore, config, slots, next,
    List.takeWhile_append_of_pos before, List.takeWhile_cons_of_pos (by simpa using other),
    List.append_assoc, takeWhile_append_of_exists later, List.length_append, List.length_cons]
  omega

omit [DecidableEq κ] in
theorem length_slotsBefore (mem : (phase, weight) ∈ q.config.phaseWeights) :
    (slotsBefore phase q).length ≤ (q.config.phaseWeights.map Prod.snd).sum - weight := by
  have all : (slotsBefore phase q).countP (· ≠ phase) = (slotsBefore phase q).length :=
    List.countP_eq_length.mpr fun p listed => by simpa using List.mem_takeWhile_imp listed
  have part : (slotsBefore phase q).countP (· ≠ phase) ≤
      (phaseCycle q.config).countP (· ≠ phase) := by
    rw [← (List.rotate_perm (phaseCycle q.config) q.phaseCursor).countP_eq]
    exact (List.takeWhile_sublist _).countP_le
  have total := List.length_eq_countP_add_countP (· == phase) (l := phaseCycle q.config)
  have mine : (phaseCycle q.config).countP (· == phase) = weight := count_phaseCycle mem
  simp only [ne_eq, decide_not, beq_eq_decide, Bool.not_eq_true, Bool.decide_eq_false]
    at all part total mine
  rw [length_phaseCycle] at total
  omega

theorem served_length_le (inv : q.Inv) (mem : phase ∈ phaseCycle q.config)
    (window : List (Call κ π)) (waits : ∀ t ∈ trace (step r) q window, Waits r phase t)
    (never : phase ∉ (trace (step r) q window).filterMap served) :
    ((trace (step r) q window).filterMap served).length ≤ (slotsBefore phase q).length := by
  induction window generalizing q with
  | nil => exact Nat.zero_le _
  | cons c window ih =>
    obtain ⟨here, later⟩ := List.forall_mem_cons.mp waits
    have effect := (step_spec (r := r) inv c).1
    have ih := ih effect.inv (by rw [effect.config]; exact mem) later
    rw [trace] at never ⊢
    cases result : served (call r q c) with
    | none =>
      rw [List.filterMap_cons_none result] at never ⊢
      refine (ih never).trans_eq ?_
      rw [slotsBefore, slotsBefore, effect.config, served_none inv result]
    | some first =>
      rw [List.filterMap_cons_some result] at never ⊢
      obtain ⟨other, never⟩ := not_or.mp (List.mem_cons.not.mp never)
      have turned := served_turned inv result mem here
      have less := turned.slotsBefore effect.config mem here (Ne.symm other)
      have rest := ih never
      rw [List.length_cons]
      omega

theorem served_slots (inv : q.Inv) (window : List (Call κ π))
    (waits : ∀ phase ∈ phaseCycle q.config, ∀ t ∈ trace (step r) q window, Waits r phase t)
    (short : ((trace (step r) q window).filterMap served).length ≤ (phaseCycle q.config).length) :
    (trace (step r) q window).filterMap served <+: (phaseCycle q.config).rotate q.phaseCursor := by
  induction window generalizing q with
  | nil => exact List.nil_prefix
  | cons c window ih =>
    have effect := (step_spec (r := r) inv c).1
    have ih := ih effect.inv (by
      rw [effect.config]
      exact fun phase mem t later => waits phase mem t (List.mem_cons_of_mem _ later))
    rw [effect.config] at ih
    rw [trace] at short ⊢
    cases result : served (call r q c) with
    | none =>
      rw [List.filterMap_cons_none result] at short ⊢
      rw [← served_none inv result]
      exact ih short
    | some first =>
      rw [List.filterMap_cons_some result] at short ⊢
      have ready : ∀ phase ∈ phaseCycle q.config, Waits r phase (call r q c) := fun phase mem =>
        waits phase mem _ List.mem_cons_self
      obtain ⟨phase, mem⟩ :=
        List.exists_mem_of_ne_nil _ (List.ne_nil_of_length_pos (Nat.lt_of_lt_of_le (by simp) short))
      obtain ⟨skipped, rest, slots, next, passed⟩ := served_turned inv result mem (ready phase mem)
      -- every phase waits, so no slot is passed over
      obtain rfl : skipped = [] := List.eq_nil_iff_forall_not_mem.mpr fun p mem =>
        passed p mem
          (ready p ((List.mem_rotate (n := q.phaseCursor)).mp (slots ▸ List.mem_append_left _ mem)))
      have size := congrArg List.length slots
      rw [List.length_rotate] at size
      simp only [List.nil_append, List.length_cons] at size short
      rw [slots]
      refine List.prefix_cons_inj first |>.mpr ?_
      have ahead := ih (by omega)
      rw [next, List.append_nil] at ahead
      exact List.prefix_of_prefix_length_le ahead (List.prefix_append _ _) (by omega)

theorem served_isSome (inv : q.Inv) (mem : phase ∈ phaseCycle q.config)
    (waits : Waits r phase (call r q c)) : (served (call r q c)).isSome = pops (call r q c) := by
  cases result : served (call r q c) with
  | some first =>
    obtain ⟨clock, now, force, rfl⟩ := served_pops result
    rfl
  | none =>
    cases c with
    | popBatch clock now force =>
      obtain ⟨first, here, -⟩ := waiting_served inv mem waits
      exact absurd (here.symm.trans result) (Option.some_ne_none first)
    | _ => rfl

theorem pops_served (inv : q.Inv) (mem : phase ∈ phaseCycle q.config) (window : List (Call κ π))
    (waits : ∀ t ∈ trace (step r) q window, Waits r phase t) :
    ∀ t ∈ trace (step r) q window, (served t).isSome = pops t := by
  induction window generalizing q with
  | nil => exact List.forall_mem_nil _
  | cons c window ih =>
    obtain ⟨here, later⟩ := List.forall_mem_cons.mp waits
    have effect := (step_spec (r := r) inv c).1
    exact List.forall_mem_cons.mpr ⟨served_isSome inv mem here,
      ih effect.inv (by rw [effect.config]; exact mem) later⟩

/-- In every reachable state: while a phase waits, every call that pops serves a phase, and the
phase itself before there are more calls than the others have slots; while all wait, each phase has
its slots in every round of calls. -/
theorem phases_served_by_weight (r : Rounding) (config : FairBatchConfig)
    (calls window : List (Call κ π)) :
    let past := trace (step r) (final (step r) (init config) calls) window
    (∀ phase weight, (phase, weight) ∈ config.phaseWeights → (∀ t ∈ past, Waits r phase t) →
      (∀ t ∈ past, pops t = true → (served t).isSome = true) ∧
      (phase ∉ past.filterMap served →
        past.countP pops ≤ (config.phaseWeights.map Prod.snd).sum - weight)) ∧
    ((∀ entry ∈ config.phaseWeights, ∀ t ∈ past, Waits r entry.1 t) →
      past.countP pops = (config.phaseWeights.map Prod.snd).sum →
        ∀ phase weight, (phase, weight) ∈ config.phaseWeights →
          (past.filterMap served).count phase = weight) := by
  obtain ⟨inv, same⟩ :=
    final_spec (r := r) (Inv.init config : (init config : FairAdaptiveBatchQueue κ π).Inv) calls
  change _ = config at same
  generalize final (step r) (init config) calls = q at inv same
  subst same
  have counted : ∀ phase ∈ phaseCycle q.config, (∀ t ∈ trace (step r) q window, Waits r phase t) →
      (trace (step r) q window).countP pops =
      ((trace (step r) q window).filterMap served).length := by
    intro phase mem waits
    rw [List.length_filterMap_eq_countP]
    exact List.countP_congr fun t listed => by rw [pops_served inv mem window waits t listed]
  refine ⟨fun phase weight mem waits => ?_, fun waits full phase weight mem => ?_⟩ <;>
  have listed := mem_phaseCycle.mpr (List.mem_map_of_mem (f := Prod.fst) mem)
  · refine ⟨fun t here popped => ?_, fun never => ?_⟩
    · rw [pops_served inv listed window waits t here, popped]
    · rw [counted phase listed waits]
      exact (served_length_le inv listed window waits never).trans (length_slotsBefore mem)
  rw [counted phase listed (waits _ mem), ← length_phaseCycle] at full
  have slots := served_slots inv window (fun phase mem => by
    obtain ⟨entry, listed, rfl⟩ := List.mem_map.mp (mem_phaseCycle.mp mem)
    exact waits entry listed) full.le
  rw [slots.eq_of_length (by rw [full, List.length_rotate]), (List.rotate_perm ..).count_eq,
    count_phaseCycle mem]

end Mycellios.Batching.FairAdaptiveBatchQueue
