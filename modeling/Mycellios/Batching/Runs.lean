import Mycellios.Batching.Order

namespace Mycellios.Batching.FairAdaptiveBatchQueue

open Data Dict List Logic

variable {κ π : Type} {r : Rounding} {q u v : FairAdaptiveBatchQueue κ π} {phase : String}
  {id : Int} {queue queue' : PhaseQueue κ π}

theorem flow_congr (same : u.phaseQueues = q.phaseQueues) : u.flow = q.flow := by
  funext phase id
  rw [flow, flow, same]

theorem flow_insert (h : u.phaseQueues = q.phaseQueues.insert phase queue) (p : String) (j : Int) :
    u.flow p j = if phase = p then queue.flow j else q.flow p j := by
  rw [flow, h, find?_insert]
  split
  · rfl
  · rfl

theorem length_insert (h : u.phaseQueues = q.phaseQueues.insert phase queue')
    (found : q.phaseQueues.find? phase = some queue) :
    u.length = q.length + queue'.size - queue.size := by
  rw [length, h, sumBy_insert, found]
  rfl

theorem ofRequest_alike {works : List (BatchWork κ π)} (alike : ∀ w ∈ works, w.phase = phase)
    (p : String) (j : Int) : ofRequest p j works = if phase = p then works.filter (·.requestId = j)
    else [] := by
  split
  · rename_i here
    refine filter_congr fun w mem => ?_
    simp [alike w mem, here]
  rename_i other
  refine filter_eq_nil_iff.mpr fun w mem same => ?_
  rw [decide_eq_true_iff, alike w mem] at same
  exact other same.1

variable [DecidableEq κ]

theorem Core.insert (core : q.Core) (found : q.phaseQueues.find? phase = some queue)
    (wf : queue'.Wf phase) : Core { q with phaseQueues := q.phaseQueues.insert phase queue' } where
  phases := by
    intro p
    rw [mem_keys_insert, ← core.phases p]
    refine ⟨?_, Or.inr⟩
    rintro (rfl | old)
    · exact mem_keys_of_find? found
    · exact old
  batches := core.batches
  queues := forall_find?_insert wf core.queues
  limits := core.limits

/-- A call puts work behind the flows and takes work from their fronts, in order. -/
structure Effect (q u : FairAdaptiveBatchQueue κ π) (put popped cancelled : List (BatchWork κ π)) :
    Prop where
  inv : u.Inv
  config : u.config = q.config
  flows : ∀ phase id, ∃ gone, q.flow phase id ++ ofRequest phase id put = gone ++ u.flow phase id ∧
    (ofRequest phase id popped).Sublist gone ∧
    gone.Perm (ofRequest phase id popped ++ ofRequest phase id cancelled)
  enqueued : u.enqueuedItems = q.enqueuedItems + put.length
  dequeued : u.dequeuedItems = q.dequeuedItems + popped.length
  cancelled : u.cancelledItems = q.cancelledItems + cancelled.length
  cursor : popped = [] → u.phaseCursor = q.phaseCursor

theorem Looked.effect (h : Looked q u) (still : u.phaseCursor = q.phaseCursor) (inv : q.Inv) :
    Effect q u [] [] [] := by
  have inv' := h.inv inv
  obtain ⟨profiles, cursor, rfl, -⟩ := h
  refine ⟨inv', rfl, fun phase id => ⟨[], ?_, List.Sublist.refl _, List.Perm.refl _⟩, ?_, ?_, ?_,
    fun _ => still⟩
  · rw [ofRequest, filter_nil, append_nil]
    rfl
  · simp
  · simp
  · simp

theorem Effect.replace {put popped : List (BatchWork κ π)} (inv : q.Inv)
    (found : q.phaseQueues.find? phase = some queue) (wf : queue'.Wf phase)
    (config : u.config = q.config) (queues : u.phaseQueues = q.phaseQueues.insert phase queue')
    (limits : Limited u.config u.profiles)
    (batches : ∀ p, p ∈ u.phaseBatches.keys ↔ p ∈ q.phaseBatches.keys)
    (cursor : popped = [] → u.phaseCursor = q.phaseCursor)
    (enqueued : u.enqueuedItems = q.enqueuedItems + put.length)
    (dequeued : u.dequeuedItems = q.dequeuedItems + popped.length)
    (cancelled : u.cancelledItems = q.cancelledItems)
    (size : queue'.size = queue.size + put.length - popped.length)
    (putHere : ∀ w ∈ put, w.phase = phase) (poppedHere : ∀ w ∈ popped, w.phase = phase)
    (flows : ∀ j, queue.flow j ++ put.filter (·.requestId = j) = popped.filter (·.requestId = j) ++
      queue'.flow j) : Effect q u put popped [] where
  inv := by
    have core := inv.toCore.insert found wf
    have length := length_insert queues found
    have balance := inv.balance
    exact {
      phases := by rw [config, queues]; exact core.phases
      batches := fun p => by rw [config, batches]; exact core.batches p
      queues := by rw [queues]; exact core.queues
      limits := limits
      balance := by omega }
  config := config
  flows := by
    intro p j
    refine ⟨ofRequest p j popped, ?_, List.Sublist.refl _, by simp [ofRequest]⟩
    rw [ofRequest_alike putHere, ofRequest_alike poppedHere, flow_insert queues]
    split
    · rename_i here
      rw [← here, flow_eq found]
      exact flows j
    · rw [append_nil, nil_append]
  enqueued := enqueued
  dequeued := dequeued
  cancelled := by simp [cancelled]
  cursor := cursor

theorem enqueue_spec (inv : q.Inv) (clock : ℚ) (payload : π) (requestId : Int) (phase : String)
    (key : κ) (tokenCount : Int) (now : Option Number) :
    wp (enqueue clock payload requestId phase key tokenCount now)
    (fun work u => Effect q u [work] [] [])
      (fun _ u => u = q) q := by
  simp only [enqueue, wp_bind, wp_raiseIf, wp_get]
  refine ⟨fun _ => trivial, fun _ =>
    ⟨fun _ => trivial, fun known => ⟨fun _ => trivial, fun _ => ?_⟩⟩⟩
  rw [wp_check]
  refine ⟨fun enqueuedAt _ => ?_, fun _ _ => rfl⟩
  obtain ⟨queue, found, wf⟩ := inv.exists_queue (not_not.mp known)
  have mine : (⟨requestId, phase, key, tokenCount, payload, enqueuedAt⟩ : BatchWork κ π).phase =
    phase := rfl
  obtain ⟨wf', size, flow⟩ := wf.push mine
  rw [wp_inPhase found]
  refine .replace inv found wf' rfl rfl inv.limits (fun _ => Iff.rfl) (fun _ => rfl) (by simp)
    (by simp) rfl (by simp [size]) (fun w mem => by rw [mem_singleton.mp mem])
    (fun w mem => absurd mem not_mem_nil) fun j => ?_
  rw [flow]
  by_cases here : requestId = j
  · simp [here]
  · simp [here]

theorem cancelIn_spec (core : q.Core) (id : Int) (phases : List String)
    (known : ∀ p ∈ phases, p ∈ q.phaseQueues.keys) :
    wp (cancelIn id phases) (fun removed u => u.Core ∧ u = { q with phaseQueues := u.phaseQueues } ∧
      u.length = q.length - removed.length ∧ ∀ p j, q.flow p j = ofRequest p j removed ++
      u.flow p j) (fun _ _ => False) q := by
  induction phases generalizing q with
  | nil => exact ⟨core, rfl, by simp, fun p j => rfl⟩
  | cons phase phases ih =>
    obtain ⟨queue, found⟩ := Option.ne_none_iff_exists'.mp fun none =>
      (find?_eq_none_iff q.phaseQueues phase).mp none (known phase mem_cons_self)
    have wf := core.queues phase queue found
    rw [cancelIn, wp_bind, wp_inPhase found]
    refine wp_mono (PhaseQueue.cancelRequest_spec wf id) ?_ fun _ _ => False.elim
    rintro removed queue' ⟨rfl, wf', size, flow⟩
    rw [wp_bind]
    refine wp_mono (ih (core.insert found wf') fun p mem => ?_) ?_ fun _ _ => False.elim
    · exact mem_keys_insert.mpr (.inr (known p (mem_cons_of_mem phase mem)))
    rintro rest u ⟨core', same, length, flows⟩
    refine ⟨core', same, ?_, fun p j => ?_⟩
    · rw [length, length_insert rfl found, size, length_append]
      push_cast
      omega
    have owned : ∀ w ∈ queue.flow id, w.phase = phase := fun w mem => (wf.owned id w mem).2
    have here :=
      flow_insert (q := q) (u := { q with phaseQueues := q.phaseQueues.insert phase queue' })
        rfl p j
    rw [ofRequest, filter_append]
    change _ = ofRequest p j _ ++ ofRequest p j _ ++ _
    rw [append_assoc, ← flows p j, ofRequest_alike owned, here]
    split
    · rename_i here
      rw [← here, flow_eq found, flow]
      split
      · rename_i same
        rw [append_nil, ← same, filter_eq_self.mpr]
        exact fun w mem => decide_eq_true (wf.owned id w mem).1
      rename_i other
      rw [filter_eq_nil_iff.mpr, nil_append]
      exact fun w mem mine => other ((wf.owned id w mem).1.symm.trans (of_decide_eq_true mine))
    · rfl

theorem cancelRequest_spec (inv : q.Inv) (id : Int) :
    wp (cancelRequest id) (fun removed u => Effect q u [] [] removed) (fun _ u => u = q) q := by
  simp only [cancelRequest, wp_bind, wp_raiseIf, wp_get]
  refine ⟨fun _ => trivial, fun _ => ?_⟩
  refine wp_mono (cancelIn_spec inv.toCore id _ fun _ mem => mem) ?_ fun _ _ => False.elim
  rintro removed u ⟨core, same, length, flows⟩
  have sorted := perm_insertionSort (fun a b : BatchWork κ π => a.enqueuedAt ≤ b.enqueuedAt) removed
  have balance := inv.balance
  simp only [wp_modify, wp_pure]
  have config : u.config = q.config := by rw [same]
  have enqueued : u.enqueuedItems = q.enqueuedItems := by rw [same]
  have dequeued : u.dequeuedItems = q.dequeuedItems := by rw [same]
  have cancelled : u.cancelledItems = q.cancelledItems := by rw [same]
  refine ⟨⟨{ core with }, ?_⟩, config, fun p j => ?_, ?_, ?_, ?_, fun _ => by rw [same]⟩
  · change u.enqueuedItems = u.length + u.dequeuedItems + (u.cancelledItems + removed.length)
    omega
  · refine ⟨ofRequest p j removed, ?_, nil_sublist _, ?_⟩
    · rw [ofRequest, filter_nil, append_nil]
      exact flows p j
    · exact (sorted.symm.filter _)
  · simp [enqueued]
  · simp [dequeued]
  · simp [cancelled, sorted.length_eq]

/-- A batch of one phase and key, each request once, within the limit of its profile. -/
structure Batch (u : FairAdaptiveBatchQueue κ π) (items : List (BatchWork κ π)) (limit : Nat) :
    Prop where
  profile : ∃ phase key p, u.profiles.find? (phase, key) = some p ∧ p.adaptiveLimit = limit ∧
    ∀ w ∈ items, w.phase = phase ∧ w.compatibilityKey = key
  nodup : (items.map (·.requestId)).Nodup
  pos : 1 ≤ items.length
  le : items.length ≤ limit

theorem takeBatch_spec (inv : q.Inv) (filled : q.flow phase id ≠ []) :
    wp (takeBatch phase id) (fun out u => Batch u out.1 out.2 ∧ (∀ w ∈ out.1, w.phase = phase) ∧
      out.1.head? = (q.flow phase id).head? ∧ u.phaseCursor = q.phaseCursor ∧
      ∃ queue queue' v, Looked q v ∧ q.phaseQueues.find? phase = some queue ∧ queue'.Wf phase ∧
        u = { v with phaseQueues := q.phaseQueues.insert phase queue' } ∧
        queue'.size = queue.size - out.1.length ∧
        ∀ j, queue.flow j = out.1.filter (·.requestId = j) ++ queue'.flow j) (fun _ _ => False)
        q := by
  obtain ⟨queue, found, filled⟩ := exists_of_flow_ne_nil filled
  have wf := inv.queues phase queue found
  obtain ⟨work, rest, flow, head⟩ := PhaseQueue.head_ok filled
  rw [takeBatch, wp_bind, wp_phaseQueue found, head, wp_bind, wp_check_ok, wp_bind]
  refine wp_mono (profile_spec inv phase work.compatibilityKey) ?_ fun _ _ => False.elim
  rintro p v ⟨⟨looked, -, cursor⟩, known, -⟩
  have limit := (looked.inv inv).limits _ p known
  have there : v.phaseQueues.find? phase = some queue := by rw [looked.phaseQueues, found]
  rw [wp_bind, wp_inPhase there, wp_bind]
  refine wp_mono (PhaseQueue.popRequest_spec wf flow) ?_ fun _ _ => False.elim
  rintro a popped ⟨served, wf', size, flows⟩
  have start :=
    (PhaseQueue.Selecting.refl wf work.compatibilityKey).pop flow rfl not_mem_nil wf' size flows
  have mine := (wf.owned id work (by rw [flow]; exact mem_cons_self)).1
  rw [wp_bind, wp_get, served]
  have loop := PhaseQueue.select_spec p.adaptiveLimit popped.rotation start wf'.nodup fun j mem _ =>
    (wf'.listed j).mp mem
  rw [nil_append, map_singleton, mine] at loop
  refine wp_mono loop ?_ fun _ _ => False.elim
  rintro selected queue' ⟨done, ⟨more, rfl⟩, upper⟩
  rw [length_singleton, max_eq_right limit.1] at upper
  refine ⟨⟨⟨phase, work.compatibilityKey, p, known, rfl, done.alike⟩, done.nodup, by simp, upper⟩,
    fun w mem => (done.alike w mem).1, by rw [flow_eq found, flow]; rfl, cursor, queue, queue', v,
    looked, found, done.wf, ?_, done.size, done.taken⟩
  rw [looked.phaseQueues]

omit [DecidableEq κ] in
theorem countBatch_spec (selectedAt : ℚ) (starved : Bool)
    (known : phase ∈ u.phaseBatches.keys) (some : 1 ≤ selected.length) :
    wp (countBatch r selectedAt phase starved selected) (fun _ v => v.config = u.config ∧
      v.phaseQueues = u.phaseQueues ∧ v.profiles = u.profiles ∧
      (∀ p, p ∈ v.phaseBatches.keys ↔ p ∈ u.phaseBatches.keys) ∧ v.enqueuedItems = u.enqueuedItems ∧
      v.dequeuedItems = u.dequeuedItems + selected.length ∧ v.cancelledItems = u.cancelledItems ∧
      v.phaseCursor = u.phaseCursor) (fun _ _ => False) u := by
  obtain ⟨count, listed⟩ := Option.ne_none_iff_exists'.mp fun none =>
    (find?_eq_none_iff u.phaseBatches phase).mp none known
  obtain ⟨longest, most⟩ :
      ∃ longest, (selected.map fun item => max 0 (r.ageMs selectedAt item.enqueuedAt)).max? =
      Option.some longest := by
    cases selected with
    | nil => simp at some
    | cons w ws => exact ⟨_, max?_cons'⟩
  simp only [countBatch, wp_bind, wp_modify, wp_get, listed, most, wp_ite, wp_pure]
  have keys : ∀ p, p ∈ (u.phaseBatches.insert phase (count + 1)).keys ↔
      p ∈ u.phaseBatches.keys := by
    intro p
    rw [mem_keys_insert]
    refine ⟨?_, Or.inr⟩
    rintro (rfl | old)
    · exact known
    · exact old
  split
  · exact ⟨trivial, trivial, trivial, keys, trivial, trivial, trivial, trivial⟩
  · exact ⟨trivial, trivial, trivial, keys, trivial, trivial, trivial, trivial⟩

/-- How a batch was chosen: the oldest head if it starves, else a phase in its turn. -/
structure Chosen (r : Rounding) (now : ℚ) (force : Bool) (q u : FairAdaptiveBatchQueue κ π)
    (s : BatchSelection κ π) : Prop where
  busy : q.length ≠ 0
  starved : ∃ oldest, q.oldestHead = .ok oldest ∧
    s.starved = decide (q.config.starvationMs ≤ r.ageMs now oldest.enqueuedAt) ∧
    (s.starved = true → s.items.head? = some oldest)
  ready : s.starved = false → force = false → ∃ phase, Ready r now q phase
  turned : s.starved = false → (∃ phase, Ready r now q phase) →
    ∃ first ∈ s.items.head?, Turned q u (Ready r now q) first.phase

def Waited (r : Rounding) (now : ℚ) (q : FairAdaptiveBatchQueue κ π) : Prop :=
  q.length ≠ 0 → (∀ phase, ¬Ready r now q phase) ∧
    ∀ oldest, q.oldestHead = .ok oldest → r.ageMs now oldest.enqueuedAt < q.config.starvationMs

theorem popBatch_spec (inv : q.Inv) (clock : ℚ) (now : Option Number) (force : Bool) :
    wp (popBatch r clock now force) (fun selection u =>
      Effect q u [] (selection.elim [] (·.items)) [] ∧
        (∀ s, selection = some s → Batch u s.items s.adaptiveLimit) ∧
      ∀ time, timeOf clock now = .ok time →
        selection.elim (Waited r time q) (Chosen r time force q u))
      (fun _ u => u = q ∧ ∀ time, timeOf clock now ≠ .ok time) q := by
  rw [popBatch, wp_bind, wp_get, wp_ite]
  split
  · rename_i bare
    exact ⟨(Looked.refl inv).effect rfl inv, by simp, fun _ _ some => absurd bare some⟩
  rename_i busy
  rw [wp_bind, wp_check]
  refine ⟨fun selectedAt time => ?_, fun _ failed => ⟨rfl, by simp [failed]⟩⟩
  obtain ⟨oldest, wait, least, fronts, -⟩ := oldestHead_ok inv busy
  obtain ⟨-, rest, front⟩ := fronts.flow inv
  rw [least, wp_bind, wp_check_ok, wp_bind]
  refine wp_mono (anchorOf_spec inv selectedAt force _ (by rw [front]; simp)) ?_ fun _ _ =>
    False.elim
  rintro anchor u ⟨looked, filled, first, ready, turned, idle⟩
  cases anchor with
  | none =>
    refine ⟨looked.effect (idle rfl).1 inv, by simp, fun time' same => ?_⟩
    obtain rfl := ok_unique time same
    refine fun _ => ⟨(idle rfl).2, fun oldest' least' => ?_⟩
    obtain rfl := ok_unique least least'
    exact lt_of_not_ge fun late => by simpa using first (decide_eq_true late)
  | some anchor =>
    obtain ⟨phase, anchorRequest⟩ := anchor
    have filled' : u.flow phase anchorRequest ≠ [] := by
      rw [flow_congr looked.phaseQueues]
      exact filled _ rfl
    rw [wp_bind]
    refine wp_mono (takeBatch_spec (looked.inv inv) filled') ?_ fun _ _ => False.elim
    rintro out v ⟨batch, here, head, kept, queue, queue', w, looked', found, wf, same, size, flows⟩
    rw [flow_congr looked.phaseQueues] at head
    obtain ⟨profiles, cursor, rfl, limits⟩ := looked.trans looked'
    rw [looked.phaseQueues] at found same
    have known : phase ∈ v.phaseBatches.keys := by
      rw [same]
      exact (inv.batches phase).mpr ((inv.phases phase).mp (mem_keys_of_find? found))
    rw [wp_bind]
    refine wp_mono (countBatch_spec selectedAt _ known batch.pos) ?_ fun _ _ => False.elim
    rintro _ t ⟨config, queues, sameProfiles, batches, enqueued, dequeued, cancelled, still⟩
    rw [kept] at still
    rw [same] at config queues sameProfiles batches enqueued dequeued cancelled
    refine ⟨.replace inv found wf config queues ?_ batches
      (absurd · (ne_nil_of_length_pos batch.pos)) (by simp [enqueued]) dequeued cancelled
      (by simp [size]) (fun w mem => absurd mem not_mem_nil) here fun j => ?_, ?_,
      fun time' same => ?_⟩
    · rw [config, sameProfiles]
      exact limits
    · simpa using flows j
    · intro s taken
      obtain rfl := Option.some.inj taken
      exact { batch with profile := by rw [sameProfiles]; rw [same] at batch; exact batch.profile }
    · obtain rfl := ok_unique time same
      refine ⟨busy, ⟨oldest, least, rfl, fun starved => ?_⟩,
        fun fed soft => ⟨phase, ready fed soft _ rfl⟩, fun fed any => ?_⟩
      · obtain ⟨rfl, rfl⟩ := Prod.mk.inj (Option.some.inj (first starved))
        exact head.trans (by rw [front]; rfl)
      obtain ⟨work, more, flow⟩ := exists_cons_of_ne_nil (filled _ rfl)
      rw [flow] at head
      obtain ⟨skipped, rest, slots, next, passed⟩ := turned fed _ rfl any
      refine ⟨work, head, ?_⟩
      rw [here work (mem_of_mem_head? head)]
      exact ⟨skipped, rest, slots, by rw [still]; exact next, passed⟩

omit [DecidableEq κ] in
theorem observe_limit {config : FairBatchConfig} {selection : BatchSelection κ π} {latency : ℚ}
    {bytes : Int} {p : BatchProfile}
    (h : 1 ≤ p.adaptiveLimit ∧ p.adaptiveLimit ≤ config.maxBatchSize) :
    1 ≤ (observe r config selection latency bytes p).adaptiveLimit ∧
      (observe r config selection latency bytes p).adaptiveLimit ≤ config.maxBatchSize := by
  have room := config.initial_range
  simp only [observe]
  split
  · simp only
    omega
  split
  · split
    · simp only
      omega
    · exact h
  · exact h

theorem recordBatch_spec (inv : q.Inv) (selection : BatchSelection κ π) (latencyMs : Number)
    (transferredBytes : Int) :
    wp (recordBatch r selection latencyMs transferredBytes) (fun _ u => Effect q u [] [] [])
    (fun _ u => u = q) q := by
  rw [recordBatch]
  split
  · exact rfl
  rename_i item rest _
  simp only [wp_bind, wp_raiseIf]
  refine ⟨fun _ => trivial, fun _ => ⟨fun _ => trivial, fun _ => ?_⟩⟩
  rw [wp_check]
  refine ⟨fun latency _ => ⟨fun _ => rfl, fun _ => ⟨fun _ => rfl, fun _ => ?_⟩⟩, fun _ _ => rfl⟩
  refine wp_mono (profile_spec inv item.phase item.compatibilityKey) ?_ fun _ _ => False.elim
  rintro p u ⟨⟨looked, -, still⟩, known, -⟩
  have bound := (looked.inv inv).limits _ p known
  obtain ⟨profiles, cursor, rfl, limits⟩ := looked
  have written : Looked q { q with
      profiles := profiles.insert (item.phase, item.compatibilityKey)
        (observe r q.config selection latency transferredBytes p)
      phaseCursor := cursor } :=
    ⟨_, _, rfl, forall_find?_insert (observe_limit bound) limits⟩
  have effect := written.effect still inv
  exact { effect with inv := { effect.inv with } }

theorem anyReady_spec (inv : q.Inv) (now : ℚ) (phases : List String)
    (known : ∀ p ∈ phases, p ∈ q.phaseQueues.keys) :
    wp (anyReady r now phases) (fun ready u => Glanced q u ∧
      (ready = true ↔ ∃ p ∈ phases, Ready r now q p)) (fun _ _ => False) q := by
  induction phases generalizing q with
  | nil => exact ⟨.refl inv, by simp⟩
  | cons phase phases ih =>
    rw [anyReady, wp_bind]
    refine wp_mono (phaseReady_spec inv (known phase mem_cons_self) now) ?_ fun _ _ => id
    rintro ready u ⟨glanced, here⟩
    rw [wp_ite]
    split
    · rename_i yes
      exact ⟨glanced, fun _ => ⟨phase, mem_cons_self, here.mp yes⟩, fun _ => rfl⟩
    rename_i no
    refine wp_mono (ih (glanced.looked.inv inv) fun p mem => ?_) ?_ fun _ _ => id
    · rw [glanced.looked.phaseQueues]
      exact known p (mem_cons_of_mem phase mem)
    rintro any v ⟨glanced', others⟩
    rw [glanced.ready] at others
    refine ⟨glanced.trans glanced', ?_⟩
    rw [others, exists_mem_cons_iff, or_iff_right fun ready => no (here.mpr ready)]

theorem waitsOf_ok (inv : q.Inv) (now : ℚ) (entries : List (String × PhaseQueue κ π))
    (known : ∀ e ∈ entries, q.phaseQueues.find? e.1 = some e.2) :
    ∃ waits, waitsOf r now q entries = .ok waits ∧ (∀ e ∈ entries, e.2.size ≠ 0 → ∃ oldest wait,
      Fronts q e.1 oldest wait ∧
      max 0 (r.sub q.config.starvationMs (max 0 (r.ageMs now oldest.enqueuedAt))) ∈ waits) ∧
      ∀ w ∈ waits, ∃ phase oldest wait, Fronts q phase oldest wait ∧
        (w = max 0 (r.sub wait (max 0 (r.ageMs now oldest.enqueuedAt))) ∨
          w = max 0 (r.sub q.config.starvationMs (max 0 (r.ageMs now oldest.enqueuedAt)))) := by
  induction entries with
  | nil => exact ⟨[], rfl, by simp⟩
  | cons entry entries ih =>
    obtain ⟨phase, queue⟩ := entry
    obtain ⟨waits, rest, into, each⟩ := ih fun e mem => known e (mem_cons_of_mem _ mem)
    have found := known (phase, queue) mem_cons_self
    by_cases quiet : queue.size = 0
    · refine ⟨waits, by rw [waitsOf, if_pos quiet]; exact rest, ?_, each⟩
      exact forall_mem_cons.mpr ⟨fun busy => absurd quiet busy, into⟩
    obtain ⟨work, more, least, -⟩ := PhaseQueue.oldestHead_ok (inv.queues phase queue found) quiet
    obtain ⟨wait, listed⟩ := inv.wait (mem_keys_of_find? found)
    have fronts : Fronts q phase work wait := ⟨queue, found, quiet, least, listed⟩
    refine ⟨max 0 (r.sub wait (max 0 (r.ageMs now work.enqueuedAt))) ::
      max 0 (r.sub q.config.starvationMs (max 0 (r.ageMs now work.enqueuedAt))) :: waits, ?_,
      ?_, ?_⟩
    · rw [waitsOf, if_neg quiet, least]
      simp only [bind, Except.bind, listed, rest]
      rfl
    · refine forall_mem_cons.mpr ⟨fun _ => ⟨work, wait, fronts, by simp⟩, fun e mem busy => ?_⟩
      obtain ⟨oldest, wait, fronts, mem⟩ := into e mem busy
      exact ⟨oldest, wait, fronts, mem_cons_of_mem _ (mem_cons_of_mem _ mem)⟩
    · exact forall_mem_cons.mpr ⟨⟨phase, work, wait, fronts, .inl rfl⟩,
        forall_mem_cons.mpr ⟨⟨phase, work, wait, fronts, .inr rfl⟩, each⟩⟩

/-- `next_ready_in_ms`: nothing for an empty queue, else the least of the waits. -/
structure Awaited (r : Rounding) (now : ℚ) (q : FairAdaptiveBatchQueue κ π) (answer : Option ℚ) :
    Prop where
  bare : q.length = 0 → answer = none
  ready : (∃ phase, Ready r now q phase) → answer = some 0
  least : q.length ≠ 0 → (∀ phase, ¬Ready r now q phase) → ∃ w, answer = some w ∧
    (∃ phase oldest wait, Fronts q phase oldest wait ∧
      (w = max 0 (r.sub wait (max 0 (r.ageMs now oldest.enqueuedAt))) ∨
        w = max 0 (r.sub q.config.starvationMs (max 0 (r.ageMs now oldest.enqueuedAt))))) ∧
    ∀ oldest wait, Fronts q oldest.phase oldest wait →
      w ≤ max 0 (r.sub q.config.starvationMs (max 0 (r.ageMs now oldest.enqueuedAt)))

theorem Inv.length_of_ready (inv : q.Inv) (ready : Ready r now q phase) : q.length ≠ 0 := by
  obtain ⟨queue, id, others, -, -, filled⟩ := ready.busy.anchor inv
  exact length_ne_zero inv filled

theorem nextReadyInMs_spec (inv : q.Inv) (clock : ℚ) (now : Option Number) :
    wp (nextReadyInMs r clock now) (fun wait u => Effect q u [] [] [] ∧
      ∀ time, timeOf clock now = .ok time → Awaited r time q wait)
      (fun _ u => u = q ∧ ∀ time, timeOf clock now ≠ .ok time) q := by
  rw [nextReadyInMs, wp_bind, wp_get, wp_ite]
  split
  · rename_i bare
    exact ⟨(Looked.refl inv).effect rfl inv, fun _ _ => ⟨fun _ => rfl, fun ⟨phase, ready⟩ =>
      absurd bare (inv.length_of_ready ready), fun busy => absurd bare busy⟩⟩
  rename_i busy
  rw [wp_bind, wp_check]
  refine ⟨fun selectedAt time => ?_, fun _ failed => ⟨rfl, by simp [failed]⟩⟩
  rw [wp_bind]
  refine wp_mono (anyReady_spec inv selectedAt _ fun _ mem => mem) ?_ fun _ _ => False.elim
  rintro any u ⟨glanced, yes⟩
  rw [wp_ite]
  split
  · rename_i some
    obtain ⟨phase, -, ready⟩ := yes.mp some
    refine ⟨glanced.looked.effect glanced.cursor inv, fun time' same => ?_⟩
    obtain rfl := ok_unique time same
    exact ⟨fun bare => absurd bare busy, fun _ => rfl, fun _ none => absurd ready (none phase)⟩
  rename_i none
  obtain ⟨waits, found, into, each⟩ :=
      waitsOf_ok (r := r) inv selectedAt q.phaseQueues.entries fun e mem =>
    (q.phaseQueues.find?_eq_some_iff _ _).mpr mem
  obtain ⟨oldest, wait, -, ⟨queue, listed, some, -⟩, -⟩ := oldestHead_ok inv busy
  obtain ⟨head, limit, front, first⟩ :=
    into _ ((q.phaseQueues.find?_eq_some_iff _ _).mp listed) some
  obtain ⟨w, more, rfl⟩ := exists_cons_of_ne_nil (ne_nil_of_mem first)
  rw [wp_bind, found, wp_check_ok]
  have least := min?_eq_some_iff.mp (min?_cons' : (w :: more).min? = Option.some _)
  rw [min?_cons']
  refine ⟨glanced.looked.effect glanced.cursor inv, fun time' same => ?_⟩
  obtain rfl := ok_unique time same
  refine ⟨fun bare => absurd bare busy, fun ⟨phase, ready⟩ => ?_,
    fun _ _ => ⟨_, rfl, each _ least.1, ?_⟩⟩
  · obtain ⟨queue, found, -⟩ := ready.busy
    exact absurd (yes.mpr ⟨phase, mem_keys_of_find? found, ready⟩) none
  rintro oldest wait ⟨queue, listed, some, front, -⟩
  obtain ⟨oldest', wait', ⟨queue', listed', -, front', -⟩, mem⟩ :=
    into _ ((q.phaseQueues.find?_eq_some_iff _ _).mp listed) some
  obtain rfl := Option.mem_unique listed listed'
  obtain rfl := ok_unique front front'
  exact least.2 _ mem

def putBy : Except Failure (Answer κ π) → List (BatchWork κ π)
  | .ok (.enqueued work) => [work]
  | _ => []

def poppedBy : Except Failure (Answer κ π) → List (BatchWork κ π)
  | .ok (.popped (some selection)) => selection.items
  | _ => []

def cancelledBy : Except Failure (Answer κ π) → List (BatchWork κ π)
  | .ok (.cancelled works) => works
  | _ => []

theorem perform_spec (inv : q.Inv) (c : Call κ π) :
    wp (perform r c) (fun a u => Effect q u (putBy (.ok a)) (poppedBy (.ok a))
      (cancelledBy (.ok a)) ∧ ∀ s, a = .popped (some s) → Batch u s.items s.adaptiveLimit)
      (fun _ u => u = q) q := by
  cases c with
  | enqueue clock payload requestId phase key tokenCount now =>
    rw [perform, wp_map]
    exact wp_mono (enqueue_spec inv ..) (fun _ _ effect => ⟨effect, by simp⟩) fun _ _ => id
  | cancelRequest requestId =>
    rw [perform, wp_map]
    exact wp_mono (cancelRequest_spec inv requestId) (fun _ _ effect => ⟨effect, by simp⟩)
      fun _ _ => id
  | popBatch clock now force =>
    rw [perform, wp_map]
    refine wp_mono (popBatch_spec inv clock now force) ?_ fun _ _ => And.left
    rintro selection u ⟨effect, batch, -⟩
    cases selection with
    | none => exact ⟨effect, by simp⟩
    | some s => exact ⟨effect, fun s' same => batch s' (Answer.popped.inj same)⟩
  | recordBatch selection latencyMs transferredBytes =>
    rw [perform, wp_map]
    exact wp_mono (recordBatch_spec inv ..) (fun _ _ effect => ⟨effect, by simp⟩) fun _ _ => id
  | nextReadyInMs clock now =>
    rw [perform, wp_map]
    exact wp_mono (nextReadyInMs_spec inv clock now) (fun _ _ done => ⟨done.1, by simp⟩) fun _ _ =>
      And.left

theorem step_spec (inv : q.Inv) (c : Call κ π) :
    Effect q (step r q c).1 (putBy (step r q c).2) (poppedBy (step r q c).2)
    (cancelledBy (step r q c).2) ∧
      ∀ s, (step r q c).2 = .ok (.popped (some s)) →
      Batch (step r q c).1 s.items s.adaptiveLimit := by
  obtain ⟨done, raised⟩ := (wp_iff ..).mp (perform_spec (r := r) inv c)
  simp only [step]
  cases result : answer (perform r c) q with
  | ok a =>
    obtain ⟨effect, batch⟩ := done a result
    exact ⟨effect, fun s same => batch s (Except.ok.inj same)⟩
  | error e =>
    rw [raised e result]
    exact ⟨(Looked.refl inv).effect rfl inv, by simp⟩

abbrev History (κ π : Type) :=
  List (Transition (FairAdaptiveBatchQueue κ π) (Call κ π) (Except Failure (Answer κ π)))

/-- No work is lost, duplicated or reordered. -/
structure Orderly (config : FairBatchConfig) (history : History κ π)
    (q : FairAdaptiveBatchQueue κ π) : Prop where
  rotation : ∀ phase queue, q.phaseQueues.find? phase = some queue →
    queue.rotation.Nodup ∧ ∀ id, id ∈ queue.rotation ↔ queue.flow id ≠ []
  size : ∀ phase queue, q.phaseQueues.find? phase = some queue →
    queue.size = queue.flows.sumBy (·.length)
  balance : q.enqueuedItems = q.length + q.dequeuedItems + q.cancelledItems
  enqueued : q.enqueuedItems = (history.flatMap fun t => putBy t.output).length
  dequeued : q.dequeuedItems = (history.flatMap fun t => poppedBy t.output).length
  cancelled : q.cancelledItems = (history.flatMap fun t => cancelledBy t.output).length
  order : ∀ phase id, ∃ gone,
    ofRequest phase id (history.flatMap fun t => putBy t.output) = gone ++ q.flow phase id ∧
    (ofRequest phase id (history.flatMap fun t => poppedBy t.output)).Sublist gone ∧
    gone.Perm (ofRequest phase id (history.flatMap fun t => poppedBy t.output) ++
      ofRequest phase id (history.flatMap fun t => cancelledBy t.output))
  batches : ∀ t ∈ history, ∀ s, t.output = .ok (.popped (some s)) →
    Batch t.post s.items s.adaptiveLimit
  limits : ∀ k p, q.profiles.find? k = some p → 1 ≤ p.adaptiveLimit ∧
    p.adaptiveLimit ≤ config.maxBatchSize

omit [DecidableEq κ] in
theorem ofRequest_append (phase : String) (id : Int) (ws ws' : List (BatchWork κ π)) :
    ofRequest phase id (ws ++ ws') = ofRequest phase id ws ++ ofRequest phase id ws' :=
  filter_append ..

theorem Effect.order {put popped cancelled put' popped' cancelled' : List (BatchWork κ π)}
    (effect : Effect q u put' popped' cancelled')
    (h : ∃ gone, ofRequest phase id put = gone ++ q.flow phase id ∧
      (ofRequest phase id popped).Sublist gone ∧
      gone.Perm (ofRequest phase id popped ++ ofRequest phase id cancelled)) :
    ∃ gone, ofRequest phase id (put ++ put') = gone ++ u.flow phase id ∧
      (ofRequest phase id (popped ++ popped')).Sublist gone ∧
      gone.Perm (ofRequest phase id (popped ++ popped') ++
        ofRequest phase id (cancelled ++ cancelled')) := by
  obtain ⟨gone, all, ordered, parts⟩ := h
  obtain ⟨gone', all', ordered', parts'⟩ := effect.flows phase id
  refine ⟨gone ++ gone', ?_, ?_, ?_⟩
  · rw [ofRequest_append, all, append_assoc, all', append_assoc]
  · rw [ofRequest_append]
    exact ordered.append ordered'
  · rw [ofRequest_append, ofRequest_append]
    refine (parts.append parts').trans ?_
    simp only [append_assoc]
    refine List.Perm.append_left _ ?_
    rw [← append_assoc, ← append_assoc]
    exact List.Perm.append_right _ perm_append_comm

theorem Orderly.next {config : FairBatchConfig} (h : Orderly config history q) (inv : q.Inv)
    (same : q.config = config) (c : Call κ π) :
    Orderly config (history ++ [⟨q, c, (step r q c).2, (step r q c).1⟩]) (step r q c).1 := by
  obtain ⟨effect, batch⟩ := step_spec (r := r) inv c
  have after := effect.inv
  exact {
    rotation := fun phase queue found =>
      have wf := after.queues phase queue found
      ⟨wf.nodup, wf.listed⟩
    size := fun phase queue found => (after.queues phase queue found).size
    balance := after.balance
    enqueued := by
      rw [effect.enqueued, h.enqueued, flatMap_append, flatMap_singleton, length_append]
      rfl
    dequeued := by
      rw [effect.dequeued, h.dequeued, flatMap_append, flatMap_singleton, length_append]
      rfl
    cancelled := by
      rw [effect.cancelled, h.cancelled, flatMap_append, flatMap_singleton, length_append]
      rfl
    order := fun phase id => by
      simp only [flatMap_append, flatMap_singleton]
      exact effect.order (h.order phase id)
    batches := fun t mem s popped => by
      rcases mem_append.mp mem with old | new
      · exact h.batches t old s popped
      · rw [mem_singleton.mp new] at popped ⊢
        exact batch s popped
    limits := by
      rw [← same, ← effect.config]
      exact after.limits }

theorem Inv.init (config : FairBatchConfig) : (init config : FairAdaptiveBatchQueue κ π).Inv where
  phases := by simp [FairAdaptiveBatchQueue.init, Dict.keys]
  batches := by simp [FairAdaptiveBatchQueue.init, Dict.keys]
  queues := by
    intro phase queue found
    obtain ⟨w, -, same⟩ := mem_map.mp ((find?_eq_some_iff _ _ _).mp found)
    rw [← (Prod.mk.inj same).2]
    exact .empty phase
  limits := by simp [FairAdaptiveBatchQueue.init, Limited]
  balance := by
    have none : (FairAdaptiveBatchQueue.init config : FairAdaptiveBatchQueue κ π).length = 0 := by
      refine sum_eq_zero fun size mem => ?_
      simp only [FairAdaptiveBatchQueue.init, Dict.values, map_map, mem_map] at mem
      obtain ⟨w, -, rfl⟩ := mem
      rfl
    rw [none]
    rfl

theorem Orderly.init (config : FairBatchConfig) :
    Orderly config [] (init config : FairAdaptiveBatchQueue κ π) where
  rotation := fun phase queue found =>
    have wf := (Inv.init config).queues phase queue found
    ⟨wf.nodup, wf.listed⟩
  size := fun phase queue found => ((Inv.init config).queues phase queue found).size
  balance := (Inv.init config).balance
  enqueued := rfl
  dequeued := rfl
  cancelled := rfl
  order := by
    intro phase id
    have bare : (FairAdaptiveBatchQueue.init config : FairAdaptiveBatchQueue κ π).flow phase id =
        [] := by
      cases found :
          (FairAdaptiveBatchQueue.init config : FairAdaptiveBatchQueue κ π).phaseQueues.find?
          phase with
      | none => rw [flow, found]; rfl
      | some queue =>
        obtain ⟨w, -, same⟩ := mem_map.mp ((find?_eq_some_iff _ _ _).mp found)
        rw [flow_eq found, ← (Prod.mk.inj same).2]
        rfl
    exact ⟨[], by rw [bare]; rfl, List.Sublist.refl _, List.Perm.refl _⟩
  batches := fun t mem => absurd mem not_mem_nil
  limits := (Inv.init config).limits

theorem served_once_in_order (r : Rounding) (config : FairBatchConfig) (calls : List (Call κ π)) :
    Orderly config (trace (step r) (init config) calls) (final (step r) (init config) calls) := by
  have run : ∀ (h : History κ π) q c, Orderly config h q ∧ q.Inv ∧ q.config = config →
      Orderly config (h ++ [⟨q, c, (step r q c).2, (step r q c).1⟩]) (step r q c).1 ∧
      (step r q c).1.Inv ∧
        (step r q c).1.config = config := by
    rintro h q c ⟨orderly, inv, same⟩
    have effect := (step_spec (r := r) inv c).1
    exact ⟨orderly.next inv same c, effect.inv, effect.config.trans same⟩
  exact (trace_invariant run ⟨Orderly.init config, Inv.init config, rfl⟩ calls).1

def unrounded : Rounding where
  ageMs now enqueuedAt := (now - enqueuedAt) * 1000
  blend alpha current previous := alpha * current + (1 - alpha) * previous
  scale target ratio := target * ratio
  add a b := a + b
  sub a b := a - b

end Mycellios.Batching.FairAdaptiveBatchQueue
