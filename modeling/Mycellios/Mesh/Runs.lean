import Mycellios.Mesh.Handlers

namespace Mycellios.Mesh.MeshService

open Data Logic

variable {host : Host} {m : Moment} {s s' u : MeshService} {j : String} {job : StoredJob}
  {rt rt' : RuntimeJob} {q : AsyncQueue JobStreamEvent}

section Steps

structure Effect (s : MeshService) (input : Input) (s' : MeshService) : Prop where
  inv : s'.Inv
  queues : ∀ k, s'.queues.find? k = none → s.queues.find? k = none
  published : ∀ k, s'.published k = s.published k ∨ ∃ workerId leaseId index text job rt,
    input = .envelope workerId (.taskToken k leaseId index text) ∧ s.jobs.find? k = some job ∧
      job.workerId = some workerId ∧ job.leaseId = some leaseId ∧ s.runtimes.find? k = some rt ∧
      rt.replayPrefix = none ∧ s'.published k = s.published k ++ [⟨index, text⟩]
  standby : ∀ k rt rt', s.runtimes.find? k = some rt → s'.runtimes.find? k = some rt' →
    rt'.routePlan = rt.routePlan ∧
      (rt'.attempt ≠ rt.attempt → rt'.replayPrefix = wholePrefix ((s.published k).map (·.text)))
  replayed : ∀ workerId k leaseId index text rt p, input =
    .envelope workerId (.taskToken k leaseId index text) → s.runtimes.find? k = some rt →
    rt.replayPrefix = some p →
      (s.validJobEnvelope workerId k leaseId = none ∧ s' = s) ∨ s'.runtimes.find? k = none ∨
      (index = p.nextIndex ∧ p.tokens[index]? = some text ∧ ∃ rt', s'.runtimes.find? k = some rt' ∧
        rt'.replayPrefix = if index + 1 = p.tokens.length then none else some ⟨p.tokens, index + 1⟩)

theorem Quiet.standby (quiet : Quiet s s') (inv : s.Inv)
    (before : s.runtimes.find? k = some rt) (after : s'.runtimes.find? k = some rt') :
    rt'.routePlan = rt.routePlan ∧
      (rt'.attempt ≠ rt.attempt → rt'.replayPrefix = wholePrefix
        ((s.published k).map (·.text))) := by
  obtain ⟨job, q, live⟩ := inv.live k rt before
  obtain missing | ⟨earlier, found, follows⟩ := quiet.runtimes k rt' after
  · rw [live.queue] at missing
    cases missing
  obtain rfl := Option.mem_unique before found
  refine ⟨follows.plan, fun new => ?_⟩
  obtain ⟨same, -⟩ | ⟨-, whole⟩ := follows.replay
  · exact absurd same new
  · rw [whole, live.published, map_text_numbered]

theorem Quiet.effect (quiet : Quiet s s') (inv : s.Inv)
    (other : ∀ workerId k leaseId index text, input ≠ .envelope workerId
      (.taskToken k leaseId index text)) :
    Effect s input s' where
  inv := quiet.inv
  queues := quiet.queues
  published := fun k => .inl (quiet.published k)
  standby := fun _ _ _ => quiet.standby inv
  replayed := fun workerId k leaseId index text _ _ same =>
    absurd same (other workerId k leaseId index text)

variable {workerId leaseId text : String} {index : Nat}

theorem Effect.of_stale (inv : s.Inv)
    (stale : ∀ job rt, s.validJobEnvelope workerId j leaseId = some job →
      s.runtimes.find? j = some rt → False) :
    Effect s (.envelope workerId (.taskToken j leaseId index text)) s where
  inv := inv
  queues := fun _ => id
  published := fun _ => .inl rfl
  standby := fun _ _ _ => (Quiet.refl inv).standby inv
  replayed := by
    intro w k l i t rt p same running replay
    cases same
    refine .inl ⟨?_, rfl⟩
    cases valid : s.validJobEnvelope workerId j leaseId with
    | none => rfl
    | some job => exact absurd running fun running => stale job rt valid running

theorem Live.fail_effect (inv : s.Inv) (h : Live s j job rt q) (via : Via j s job rt u job rt' q)
    (code message : String) :
    Effect s (.envelope workerId (.taskToken j leaseId index text))
    (u.failRuntime j code message) := by
  obtain ⟨job', q', done⟩ := via.live.fail code message
  have quiet := inv.outcome h (.finished job' q' (via.over done))
  refine ⟨quiet.inv, quiet.queues, fun k => .inl (quiet.published k),
    fun _ _ _ => quiet.standby inv, ?_⟩
  intro w k l i t rt'' p same running replay
  cases same
  exact .inr (.inl done.runtime)

theorem Live.take_effect (inv : s.Inv) (h : Live s j job rt q) (elsewhere : Elsewhere j s s')
    (live : Live s' j job' rt' q') (session : job'.sessionId = job.sessionId)
    (active : s'.activeSessions = s.activeSessions) (plan : rt'.routePlan = rt.routePlan)
    (same : rt'.attempt = rt.attempt)
    (tokens : rt'.outputTokens = rt.outputTokens ∨
      job.workerId = some workerId ∧ job.leaseId = some leaseId ∧ rt.replayPrefix = none ∧
      index = rt.outputTokens.length ∧ rt'.outputTokens = rt.outputTokens ++ [text])
    (replays : ∀ p, rt.replayPrefix = some p → index = p.nextIndex ∧
      p.tokens[index]? = some text ∧ rt'.replayPrefix =
        if index + 1 = p.tokens.length then none else some ⟨p.tokens, index + 1⟩) :
    Effect s (.envelope workerId (.taskToken j leaseId index text)) s' := by
  refine ⟨inv.via h elsewhere live session active, fun k => elsewhere.missing live.queue,
    fun k => ?_, fun k before after found found' => ?_,
    fun w k l i t before p input found replay => ?_⟩
  · by_cases mine : j = k
    · subst mine
      rw [live.published, h.published]
      obtain kept | ⟨worker, lease, noReplay, rfl, more⟩ := tokens
      · exact .inl (by rw [kept])
      · refine .inr ⟨workerId, leaseId, _, text, job, rt, rfl, h.stored, worker, lease, h.runtime,
          noReplay, ?_⟩
        rw [more, numbered_concat]
    · exact .inl (elsewhere.published mine)
  · by_cases mine : j = k
    · subst mine
      rw [← Option.mem_unique live.runtime found', ← Option.mem_unique h.runtime found]
      exact ⟨plan, fun new => absurd same new⟩
    rw [elsewhere.runtimes k mine, found] at found'
    rw [Option.some.inj found']
    exact ⟨rfl, fun new => absurd rfl new⟩
  · cases input
    obtain rfl := Option.mem_unique h.runtime found
    obtain ⟨next, expected, left⟩ := replays p replay
    exact .inr (.inr ⟨next, expected, rt', live.runtime, left⟩)

theorem replayToken_effect (inv : s.Inv) (h : Live s j job rt q) (via : Via j s job rt u job rt' q)
    (p : ReplayPrefix) (same : rt'.attempt = rt.attempt) (replay : rt.replayPrefix = some p)
    (replay' : rt'.replayPrefix = some p) :
    Effect s (.envelope workerId (.taskToken j leaseId index text))
    (u.replayToken j rt' p index text) := by
  rw [replayToken]
  split
  · exact h.fail_effect inv via _ _
  rename_i matched
  obtain ⟨next, expected⟩ := not_or.mp matched
  obtain rfl := not_not.mp next
  simp only
  generalize leftOf : (if p.nextIndex + 1 = p.tokens.length then none else
    some { p with nextIndex := p.nextIndex + 1 }) = left
  have fits : ({ rt' with replayPrefix := left } : RuntimeJob).Fits := by
    refine { via.live.fits with replay := fun r rest => ?_ }
    obtain ⟨tokens, bound⟩ := via.live.fits.replay p replay'
    rw [← leftOf] at rest
    split at rest
    · cases rest
    · obtain rfl := Option.some.inj rest
      exact ⟨tokens, by simp only; omega⟩
  have elsewhere : Elsewhere j u (u.setRuntime j { rt' with replayPrefix := left }) :=
    ⟨fun _ _ => rfl, fun k other => by simp [MeshService.setRuntime, other], fun _ _ => rfl⟩
  have live : Live (u.setRuntime j { rt' with replayPrefix := left }) j job { rt' with
      replayPrefix := left } q :=
    { via.live with runtime := Dict.find?_insert_self .., fits := fits }
  refine h.take_effect inv (via.elsewhere.trans elsewhere) live rfl via.active via.follows.plan same
    (.inl via.follows.tokens) ?_
  intro r replaying
  obtain rfl := Option.mem_unique replay replaying
  exact ⟨rfl, (not_not.mp expected).symm, leftOf.symm⟩

theorem markStreaming (h : Live s j job rt q) (rt' : RuntimeJob) :
    ∃ u job', (if rt'.nextTokenIndex = 1 then (s.setRuntime j rt').setJobStatus j .streaming none
        else s.setRuntime j rt') = u ∧ Elsewhere j s u ∧ u.jobs.find? j = some job' ∧
          job'.sessionId = job.sessionId ∧
      job'.status.terminal = false ∧ u.runtimes = s.runtimes.insert j rt' ∧ u.queues = s.queues ∧
      u.activeSessions = s.activeSessions := by
  split
  · refine ⟨_, { job with status := .streaming, failureCode := none }, rfl, ?_⟩
    rw [setJobStatus, updateJob_eq (s := s.setRuntime j rt') h.stored]
    exact ⟨⟨fun k other => by simp [MeshService.setRuntime, other],
      fun k other => by simp [MeshService.setRuntime, other], fun _ _ => rfl⟩,
      Dict.find?_insert_self .., rfl, rfl, rfl, rfl, rfl⟩
  · exact ⟨_, job, rfl, ⟨fun _ _ => rfl, fun k other => by simp [MeshService.setRuntime, other],
      fun _ _ => rfl⟩, h.stored, rfl, h.status, rfl, rfl, rfl⟩

theorem publishToken_effect (inv : s.Inv) (h : Live s j job rt q) (via : Via j s job rt u job rt' q)
    (worker : job.workerId = some workerId) (lease : job.leaseId = some leaseId)
    (same : rt'.attempt = rt.attempt) (replay : rt.replayPrefix = none)
    (replay' : rt'.replayPrefix = none) (limit : Nat) :
    Effect s (.envelope workerId (.taskToken j leaseId index text))
    (u.publishToken j rt' limit index text) := by
  rw [publishToken]
  split
  · exact h.fail_effect inv via _ _
  rename_i checked
  obtain ⟨next, -⟩ := not_or.mp checked
  obtain rfl := not_not.mp next
  have before := via.live
  have fits : (append rt' text).Fits := { before.fits with
    output := by simp [append, before.fits.output, String.join_append]
    next := by simp [append, before.fits.next]
    replay := fun p replaying => by
      rw [append, replay'] at replaying
      cases replaying }
  simp only
  obtain ⟨v, job', marked, away, stored, session, status, runtimes, queues, active⟩ :=
    markStreaming before (append rt' text)
  rw [marked, push_eq (queues ▸ before.queue)]
  have published := before.fits.next ▸ before.stream.publish text
  refine h.take_effect inv (via.elsewhere.trans (away.trans ?_))
    ⟨stored, by rw [runtimes]; exact Dict.find?_insert_self .., Dict.find?_insert_self .., status,
      published, fits, by rw [active, session]; exact before.session⟩ session
      (active.trans via.active)
    via.follows.plan same
    (.inr ⟨worker, lease, replay, ?_, ?_⟩) fun p replaying => ?_
  · exact ⟨fun _ _ => rfl, fun _ _ => rfl, fun k other => by simp [other]⟩
  · rw [before.fits.next, via.follows.tokens]
  · rw [append, via.follows.tokens]
  · rw [replay] at replaying
    cases replaying

theorem Live.clearTimers (live : Live s j job rt q) :
    Via j s job rt (s.setRuntime j { rt with leaseTimer := false, firstTokenTimer := none }) job
      { rt with leaseTimer := false, firstTokenTimer := none } q :=
  live.setRuntime { live.fits with } ⟨rfl, rfl, .inl ⟨rfl, rfl⟩⟩

theorem onToken_effect (inv : s.Inv) (m : Moment) :
    Effect s (.envelope workerId (.taskToken j leaseId index text))
    (s.onToken m workerId j leaseId index text) := by
  rw [onToken]
  split
  · rename_i job rt valid running
    obtain ⟨stored, worker, lease⟩ := validJobEnvelope_eq_some valid
    obtain ⟨job', q, live⟩ := inv.live j rt running
    obtain rfl := Option.mem_unique live.stored stored
    simp only
    split
    · rename_i p replay
      exact replayToken_effect inv live live.clearTimers p rfl replay replay
    · rename_i replay
      exact publishToken_effect inv live live.clearTimers worker lease rfl replay replay _
  · rename_i stale
    exact .of_stale inv fun job rt valid running => stale job rt valid running

/-- How many bytes the worker's deployment may publish for the job. -/
def outputByteLimit (m : Moment) (workerId : String) (job : StoredJob) (rt : RuntimeJob) : Nat :=
  replicaOutputByteLimit ((m.getWorker workerId).bind fun worker =>
    worker.deployments.find? fun d => some d.deploymentId = job.deploymentId) rt.request.maxTokens

theorem publishToken_next (h : Live s j job rt q) (short : text.utf8ByteSize ≤ 65536)
    (within : rt.outputBytes + text.utf8ByteSize ≤ limit) :
    (s.publishToken j rt limit rt.outputTokens.length text).published j =
      numbered rt.outputTokens ++ [⟨rt.outputTokens.length, text⟩] := by
  have next := h.fits.next
  obtain ⟨v, _, marked, _, _, _, _, _, queues, _⟩ := markStreaming h (append rt text)
  rw [publishToken, if_neg (by omega)]
  simp only
  rw [marked, push_eq (queues ▸ h.queue), published_of_find? (Dict.find?_insert_self ..),
    (h.stream.publish text).tokens, numbered_concat]

theorem onToken_next (inv : s.Inv) (m : Moment) (stored : s.jobs.find? j = some job)
    (worker : job.workerId = some workerId) (lease : job.leaseId = some leaseId)
    (running : s.runtimes.find? j = some rt) (replay : rt.replayPrefix = none)
    (short : text.utf8ByteSize ≤ 65536)
    (within : rt.outputBytes + text.utf8ByteSize ≤ outputByteLimit m workerId job rt) :
    (s.onToken m workerId j leaseId (s.published j).length text).published j =
      s.published j ++ [⟨(s.published j).length, text⟩] := by
  obtain ⟨job', q, live⟩ := inv.live j rt running
  obtain rfl := Option.mem_unique live.stored stored
  have valid : s.validJobEnvelope workerId j leaseId = some job' := by
    simp [validJobEnvelope, stored, worker, lease, live.status]
  rw [live.published, numbered, List.length_mapIdx, onToken, valid, running]
  simp only
  split
  · rename_i replaying
    rw [replay] at replaying
    cases replaying
  · exact publishToken_next live.clearTimers.live short within

theorem step_effect (host : Host) (inv : s.Inv) (input : Input × Moment) :
    Effect s input.1 (s.step host input).1 := by
  obtain ⟨input, m⟩ := input
  cases input with
  | submit request session key clock =>
    exact (submit_spec inv request session key clock).1.effect inv (by simp)
  | cancel jobId => exact (cancel_quiet inv jobId).effect inv (by simp)
  | cancelMatchingActiveSession request session =>
    exact (cancelMatchingActiveSession_quiet inv request session).effect inv (by simp)
  | envelope workerId envelope =>
    cases envelope with
    | leaseAccept jobId leaseId =>
      exact (onLeaseAccepted_quiet inv workerId jobId leaseId).effect inv (by simp)
    | leaseReject jobId leaseId reason =>
      exact (onLeaseRejected_quiet inv workerId jobId leaseId reason).effect inv (by simp)
    | taskToken jobId leaseId index text => exact onToken_effect inv m
    | taskComplete result => exact (onComplete_quiet inv workerId result).effect inv (by simp)
    | taskFail jobId leaseId code message =>
      exact (onFailure_quiet inv workerId jobId leaseId code message).effect inv (by simp)
  | disconnect workerId => exact (handleWorkerDisconnect_quiet inv workerId).effect inv (by simp)
  | leaseTimeout jobId => exact (leaseTimeout_quiet inv jobId).effect inv (by simp)
  | firstTokenTimeout jobId => exact (firstTokenTimeout_quiet inv jobId).effect inv (by simp)
  | deadlineTimeout jobId => exact (failRuntime_quiet inv jobId _ _).effect inv (by simp)

end Steps

abbrev Move := Transition MeshService (Input × Moment) (Option JobHandle)

structure Run (history : List Move) (s : MeshService) : Prop where
  inv : s.Inv
  moves : ∀ t ∈ history, t.pre.Inv ∧ Effect t.pre t.input.1 t.post
  submitted : ∀ t ∈ history, ∀ handle, t.output = some handle → s.queues.find? handle.jobId ≠ none

theorem step_handle (inv : s.Inv) (input : Input × Moment) (handle : JobHandle)
    (returned : (s.step host input).2 = some handle) :
    (s.step host input).1.queues.find? handle.jobId ≠ none := by
  obtain ⟨input, m⟩ := input
  cases input with
  | submit request session key clock =>
    refine (submit_spec inv request session key clock).2 handle ?_
    simp only [step] at returned
    cases answer : (s.submit host m request session key clock).1 with
    | error e =>
      rw [answer] at returned
      cases returned
    | ok h =>
      rw [answer] at returned
      rw [Option.some.inj returned]
  | _ => cases returned

theorem Run.step (run : Run history s) (input : Input × Moment) :
    Run (history ++ [⟨s, input, (s.step host input).2, (s.step host input).1⟩])
    (s.step host input).1 := by
  have effect := step_effect host run.inv input
  refine ⟨effect.inv, fun t mem => ?_, fun t mem handle returned => ?_⟩
  · rcases List.mem_append.mp mem with old | new
    · exact run.moves t old
    · rw [List.mem_singleton.mp new]
      exact ⟨run.inv, effect⟩
  rcases List.mem_append.mp mem with old | new
  · exact fun missing => run.submitted t old handle returned (effect.queues _ missing)
  · rw [List.mem_singleton.mp new] at returned
    exact step_handle run.inv input handle returned

/-- Over a run, every stream is numbered without gaps, ends once and says what it published, and the
next token of the assigned worker is published. -/
structure ExactlyOnce (host : Host) (history : List Move) (s : MeshService) : Prop where
  submitted : ∀ t ∈ history, ∀ handle, t.output = some handle → s.queues.find? handle.jobId ≠ none
  indices : ∀ j q, s.queues.find? j = some q →
    (tokensOf q.values).map (·.index) = List.range (tokensOf q.values).length
  running : ∀ j q rt, s.queues.find? j = some q → s.runtimes.find? j = some rt →
    q.closed = false ∧ ∀ e ∈ q.values, e.terminal = false
  ended : ∀ j q, s.queues.find? j = some q → s.runtimes.find? j = none →
    q.closed = true ∧ ∃ events e, q.values = events ++ [e] ∧ e.terminal = true ∧
    ∀ e ∈ events, e.terminal = false
  completed : ∀ j q r, s.queues.find? j = some q → .completed r ∈ q.values →
    r.text = String.join ((tokensOf q.values).map (·.text))
  deadline : ∀ j m, (s.step host (.deadlineTimeout j, m)).1.runtimes.find? j = none
  taken : ∀ t ∈ history, ∀ j, t.post.published j = t.pre.published j ∨
    ∃ workerId leaseId index text job rt, t.input.1 =
    .envelope workerId (.taskToken j leaseId index text) ∧ t.pre.jobs.find? j = some job ∧
      job.workerId = some workerId ∧ job.leaseId = some leaseId ∧ t.pre.runtimes.find? j = some rt ∧
      rt.replayPrefix = none ∧ t.post.published j = t.pre.published j ++ [⟨index, text⟩]
  next : ∀ t ∈ history, ∀ workerId j leaseId text job rt,
    t.input.1 = .envelope workerId (.taskToken j leaseId (t.pre.published j).length text) →
    t.pre.jobs.find? j = some job → job.workerId = some workerId → job.leaseId = some leaseId →
    t.pre.runtimes.find? j = some rt → rt.replayPrefix = none → text.utf8ByteSize ≤ 65536 →
    rt.outputBytes + text.utf8ByteSize ≤ outputByteLimit t.input.2 workerId job rt →
    t.post.published j = t.pre.published j ++ [⟨(t.pre.published j).length, text⟩]
  standby : ∀ t ∈ history, ∀ j rt rt', t.pre.runtimes.find? j = some rt →
    t.post.runtimes.find? j = some rt' → rt'.routePlan = rt.routePlan ∧
      (rt'.attempt ≠ rt.attempt → rt'.replayPrefix = wholePrefix ((t.pre.published j).map (·.text)))
  replayed : ∀ t ∈ history, ∀ workerId j leaseId index text rt p,
    t.input.1 = .envelope workerId (.taskToken j leaseId index text) →
    t.pre.runtimes.find? j = some rt →
      rt.replayPrefix = some p → p.tokens = (t.pre.published j).map (·.text) ∧
        t.post.published j = t.pre.published j ∧
        ((t.pre.validJobEnvelope workerId j leaseId = none ∧ t.post = t.pre) ∨
          t.post.runtimes.find? j = none ∨ (index = p.nextIndex ∧ p.tokens[index]? = some text ∧
            ∃ rt', t.post.runtimes.find? j = some rt' ∧
            rt'.replayPrefix = if index + 1 = p.tokens.length then none
            else some ⟨p.tokens, index + 1⟩))
  attempts : ∀ j rt, s.runtimes.find? j = some rt → rt.attempt ≤ rt.routePlan.length
  sessions : ∀ session j, s.activeSessions.find? session = some j ↔
    ∃ rt job, s.runtimes.find? j = some rt ∧ s.jobs.find? j = some job ∧ job.sessionId = session

theorem Inv.tokens (inv : s.Inv) (listed : s.queues.find? j = some q) :
    ∃ texts, tokensOf q.values = numbered texts ∧ ∀ r, .completed r ∈ q.values →
    r.text = String.join texts := by
  cases running : s.runtimes.find? j with
  | none =>
    obtain ⟨texts, ended⟩ := inv.ended j q listed running
    exact ⟨texts, ended.tokens, ended.text⟩
  | some rt =>
    obtain ⟨job, q', live⟩ := inv.live j rt running
    obtain rfl := Option.mem_unique live.queue listed
    refine ⟨_, live.stream.tokens, fun r completed => ?_⟩
    cases live.stream.running _ completed

theorem Inv.deadline (inv : s.Inv) (j : String) (m : Moment) :
    (s.step host (.deadlineTimeout j, m)).1.runtimes.find? j = none := by
  cases running : s.runtimes.find? j with
  | none =>
    rw [MeshService.step, deadlineTimeout, failRuntime_of_idle running]
    exact running
  | some rt =>
    obtain ⟨job, q, live⟩ := inv.live j rt running
    obtain ⟨job', q', done⟩ := live.fail "deadline_exceeded" "The distributed request timed out"
    exact done.runtime

theorem tokens_published_once (host : Host) (jobs : Dict String StoredJob)
    (idempotencyKeys : Dict String (String × String)) (inputs : List (Input × Moment)) :
    ExactlyOnce host (trace (step host) (new jobs idempotencyKeys) inputs)
      (final (step host) (new jobs idempotencyKeys) inputs) := by
  have start : Run [] (new jobs idempotencyKeys) := ⟨.new jobs idempotencyKeys, by simp, by simp⟩
  have run : Run (trace (step host) (new jobs idempotencyKeys) inputs)
      (final (step host) (new jobs idempotencyKeys) inputs) :=
    trace_invariant (P := Run) (fun _ _ input before => before.step input) start inputs
  refine {
    submitted := run.submitted
    indices := fun j q listed => ?_
    running := fun j q rt listed running => ?_
    ended := fun j q listed gone => ?_
    completed := fun j q r listed mem => ?_
    deadline := run.inv.deadline
    taken := fun t mem => (run.moves t mem).2.published
    next := fun t mem workerId j leaseId text job rt input stored worker lease running replay short
      within => ?_
    standby := fun t mem => (run.moves t mem).2.standby
    replayed := fun t mem workerId j leaseId index text rt p input running replay => ?_
    attempts := fun j rt running => ?_
    sessions := fun session j => ⟨run.inv.sessions session j, ?_⟩ }
  · obtain ⟨texts, numbers, -⟩ := run.inv.tokens listed
    rw [numbers, map_index_numbered, numbered, List.length_mapIdx]
  · obtain ⟨job, q', live⟩ := run.inv.live j rt running
    obtain rfl := Option.mem_unique live.queue listed
    exact ⟨live.stream.opened, live.stream.running⟩
  · obtain ⟨texts, done⟩ := run.inv.ended j q listed gone
    exact ⟨done.closed, done.last⟩
  · obtain ⟨texts, numbers, text⟩ := run.inv.tokens listed
    rw [numbers, map_text_numbered]
    exact text r mem
  · obtain ⟨inv, -⟩ := run.moves t mem
    obtain ⟨-, -, -, -, -, post⟩ := mem_trace mem
    rw [post, ← Prod.eta t.input, input]
    exact onToken_next inv _ stored worker lease running replay short within
  · obtain ⟨inv, effect⟩ := run.moves t mem
    obtain ⟨job, q, live⟩ := inv.live j rt running
    refine ⟨?_, ?_, effect.replayed workerId j leaseId index text rt p input running replay⟩
    · rw [live.published, map_text_numbered]
      exact (live.fits.replay p replay).1
    obtain same | ⟨_, _, _, _, _, other, -, -, -, -, found, noReplay, -⟩ := effect.published j
    · exact same
    · rw [← Option.mem_unique running found, replay] at noReplay
      cases noReplay
  · obtain ⟨job, q, live⟩ := run.inv.live j rt running
    exact live.fits.attempts.trans live.fits.planned
  · rintro ⟨rt, job, running, stored, rfl⟩
    obtain ⟨job', q, live⟩ := run.inv.live j rt running
    obtain rfl := Option.mem_unique live.stored stored
    exact live.session

end Mycellios.Mesh.MeshService
