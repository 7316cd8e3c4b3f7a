import Mycellios.Mesh.Failover

namespace Mycellios.Mesh.MeshService

open Data Logic

variable {host : Host} {m : Moment} {s s' u : MeshService} {j : String} {job : StoredJob}
  {rt : RuntimeJob} {q : AsyncQueue JobStreamEvent}

section Invariant

/-- A job with a runtime streams, one without has ended; sessions are those of the runtimes. -/
structure Inv (s : MeshService) : Prop where
  live : ∀ j rt, s.runtimes.find? j = some rt → ∃ job q, Live s j job rt q
  ended : ∀ j q, s.queues.find? j = some q → s.runtimes.find? j = none → ∃ texts, Ended texts q
  sessions : ∀ session j, s.activeSessions.find? session = some j →
    ∃ rt job, s.runtimes.find? j = some rt ∧ s.jobs.find? j = some job ∧ job.sessionId = session
  stored : ∀ j q, s.queues.find? j = some q → ∃ job, s.jobs.find? j = some job

theorem Inv.new (jobs : Dict String StoredJob) (idempotencyKeys : Dict String (String × String)) :
    (new jobs idempotencyKeys).Inv :=
  ⟨by simp [MeshService.new], by simp [MeshService.new], by simp [MeshService.new],
    by simp [MeshService.new]⟩

theorem published_of_find? (h : s.queues.find? j = some q) : s.published j = tokensOf q.values := by
  rw [published, h]
  rfl

theorem Live.published (h : Live s j job rt q) : s.published j = numbered rt.outputTokens := by
  rw [published_of_find? h.queue, h.stream.tokens]

/-- The same tokens are published, and a runtime is an earlier one or that of a new job. -/
structure Quiet (s s' : MeshService) : Prop where
  inv : s'.Inv
  published : ∀ k, s'.published k = s.published k
  queues : ∀ k, s'.queues.find? k = none → s.queues.find? k = none
  runtimes : ∀ k rt', s'.runtimes.find? k = some rt' →
    s.queues.find? k = none ∨ ∃ rt, s.runtimes.find? k = some rt ∧ rt.Follows rt'

theorem Quiet.refl (inv : s.Inv) : Quiet s s :=
  ⟨inv, fun _ => rfl, fun _ => id, fun _ rt found => .inr ⟨rt, found, .refl rt⟩⟩

theorem Quiet.trans (first : Quiet s u) (second : Quiet u s') : Quiet s s' where
  inv := second.inv
  published := fun k => (second.published k).trans (first.published k)
  queues := fun k missing => first.queues k (second.queues k missing)
  runtimes := fun k rt'' found => by
    obtain missing | ⟨rt', found, later⟩ := second.runtimes k rt'' found
    · exact .inl (first.queues k missing)
    obtain missing | ⟨rt, found, earlier⟩ := first.runtimes k rt' found
    · exact .inl missing
    · exact .inr ⟨rt, found, earlier.trans later⟩

variable {q' : AsyncQueue JobStreamEvent} {k : String}

theorem Elsewhere.live (h : Elsewhere j s s') (other : j ≠ k) (live : Live s k job rt q)
    (session : s'.activeSessions.find? job.sessionId = some k) : Live s' k job rt q where
  stored := (h.jobs k other).trans live.stored
  runtime := (h.runtimes k other).trans live.runtime
  queue := (h.queues k other).trans live.queue
  status := live.status
  stream := live.stream
  fits := live.fits
  session := session

theorem Elsewhere.published (h : Elsewhere j s s') (other : j ≠ k) :
    s'.published k = s.published k := by
  rw [MeshService.published, MeshService.published, h.queues k other]

theorem Elsewhere.missing (h : Elsewhere j s s') (queue : s'.queues.find? j = some q')
    (missing : s'.queues.find? k = none) : s.queues.find? k = none := by
  by_cases mine : j = k
  · rw [← mine, queue] at missing
    cases missing
  · rwa [← h.queues k mine]

section

variable (inv : s.Inv) (h : Live s j job rt q)

include inv h

theorem Inv.via (elsewhere : Elsewhere j s s') (live : Live s' j job' rt' q')
    (session : job'.sessionId = job.sessionId) (active : s'.activeSessions = s.activeSessions) :
    s'.Inv := by
  refine ⟨fun k rt'' found => ?_, fun k q'' listed gone => ?_, fun key k found => ?_,
    fun k q'' listed => ?_⟩
  · by_cases mine : j = k
    · subst mine
      obtain rfl := Option.mem_unique live.runtime found
      exact ⟨job', q', live⟩
    rw [elsewhere.runtimes k mine] at found
    obtain ⟨job'', q'', other⟩ := inv.live k rt'' found
    exact ⟨job'', q'', elsewhere.live mine other (active ▸ other.session)⟩
  · by_cases mine : j = k
    · rw [← mine, live.runtime] at gone
      cases gone
    rw [elsewhere.queues k mine] at listed
    rw [elsewhere.runtimes k mine] at gone
    exact inv.ended k q'' listed gone
  · rw [active] at found
    obtain ⟨rt'', job'', running, stored, same⟩ := inv.sessions key k found
    by_cases mine : j = k
    · subst mine
      obtain rfl := Option.mem_unique h.stored stored
      exact ⟨rt', job', live.runtime, live.stored, session.trans same⟩
    · exact ⟨rt'', job'', (elsewhere.runtimes k mine).trans running,
        (elsewhere.jobs k mine).trans stored, same⟩
  · by_cases mine : j = k
    · exact ⟨job', mine ▸ live.stored⟩
    rw [elsewhere.queues k mine] at listed
    rw [elsewhere.jobs k mine]
    exact inv.stored k q'' listed

theorem Inv.finished (done : Over j s job rt s' job' q') : s'.Inv := by
  -- a session belongs to one job, so the others keep theirs
  have keeps : ∀ key k, s.activeSessions.find? key = some k → j ≠ k →
      s'.activeSessions.find? key = some k := by
    intro key k listed other
    rw [done.active, Dict.find?_erase, if_neg]
    · exact listed
    · rintro rfl
      exact other (Option.mem_unique h.session listed)
  refine ⟨fun k rt'' running => ?_, fun k q'' listed gone => ?_, fun key k listed => ?_,
    fun k q'' listed => ?_⟩
  · by_cases mine : j = k
    · rw [← mine, done.runtime] at running
      cases running
    rw [done.elsewhere.runtimes k mine] at running
    obtain ⟨job'', q'', other⟩ := inv.live k rt'' running
    exact ⟨job'', q'', done.elsewhere.live mine other (keeps _ k other.session mine)⟩
  · by_cases mine : j = k
    · subst mine
      obtain rfl := Option.mem_unique done.queue listed
      exact ⟨_, done.ended⟩
    rw [done.elsewhere.queues k mine] at listed
    rw [done.elsewhere.runtimes k mine] at gone
    exact inv.ended k q'' listed gone
  · rw [done.active, Dict.find?_erase] at listed
    split at listed
    · cases listed
    rename_i other
    obtain ⟨rt'', job'', running, stored, same⟩ := inv.sessions key k listed
    have mine : j ≠ k := by
      rintro rfl
      obtain rfl := Option.mem_unique h.stored stored
      exact other same
    exact ⟨rt'', job'', (done.elsewhere.runtimes k mine).trans running,
      (done.elsewhere.jobs k mine).trans stored, same⟩
  · by_cases mine : j = k
    · exact ⟨job', mine ▸ done.stored⟩
    rw [done.elsewhere.queues k mine] at listed
    rw [done.elsewhere.jobs k mine]
    exact inv.stored k q'' listed

theorem Inv.outcome (outcome : Outcome j s job rt s') : Quiet s s' := by
  cases outcome with
  | live job' rt' q' via =>
    refine ⟨inv.via h via.elsewhere via.live via.session via.active, fun k => ?_,
      fun k => via.elsewhere.missing via.live.queue, fun k rt'' running => ?_⟩
    · by_cases mine : j = k
      · rw [← mine, via.live.published, h.published, via.follows.tokens]
      · exact via.elsewhere.published mine
    by_cases mine : j = k
    · subst mine
      obtain rfl := Option.mem_unique via.live.runtime running
      exact .inr ⟨rt, h.runtime, via.follows⟩
    · rw [via.elsewhere.runtimes k mine] at running
      exact .inr ⟨rt'', running, .refl rt''⟩
  | finished job' q' done =>
    refine ⟨inv.finished h done, fun k => ?_, fun k => done.elsewhere.missing done.queue,
      fun k rt'' running => ?_⟩
    · by_cases mine : j = k
      · rw [← mine, published_of_find? done.queue, h.published, done.ended.tokens]
      · exact done.elsewhere.published mine
    by_cases mine : j = k
    · rw [← mine, done.runtime] at running
      cases running
    · rw [done.elsewhere.runtimes k mine] at running
      exact .inr ⟨rt'', running, .refl rt''⟩

end

theorem Inv.quiet (inv : s.Inv) (absent : s.runtimes.find? j = none → s' = s)
    (outcome : ∀ job rt q, Live s j job rt q → Outcome j s job rt s') : Quiet s s' := by
  cases running : s.runtimes.find? j with
  | none =>
    rw [absent running]
    exact .refl inv
  | some rt =>
    obtain ⟨job, q, live⟩ := inv.live j rt running
    exact inv.outcome live (outcome job rt q live)

theorem Inv.insertJob (inv : s.Inv) (idle : s.runtimes.find? j = none) (job : StoredJob) :
    Quiet s { s with jobs := s.jobs.insert j job } := by
  have elsewhere : Elsewhere j s { s with jobs := s.jobs.insert j job } :=
    ⟨fun k other => by simp [other], fun _ _ => rfl, fun _ _ => rfl⟩
  have other : ∀ {k rt}, s.runtimes.find? k = some rt → j ≠ k := by
    rintro k rt running rfl
    rw [idle] at running
    cases running
  refine ⟨⟨fun k rt running => ?_, inv.ended, fun key k listed => ?_, fun k q listed => ?_⟩,
    fun _ => rfl, fun _ => id, fun k rt running => .inr ⟨rt, running, .refl rt⟩⟩
  · obtain ⟨job', q, live⟩ := inv.live k rt running
    exact ⟨job', q, elsewhere.live (other running) live live.session⟩
  · obtain ⟨rt, job', running, found, same⟩ := inv.sessions key k listed
    exact ⟨rt, job', running, (elsewhere.jobs k (other running)).trans found, same⟩
  · by_cases mine : j = k
    · exact ⟨job, mine ▸ Dict.find?_insert_self ..⟩
    · rw [elsewhere.jobs k mine]
      exact inv.stored k q listed

theorem Inv.updateJob (inv : s.Inv) (idle : s.runtimes.find? j = none) {f : StoredJob → StoredJob} :
    Quiet s (s.updateJob j f) := by
  rw [MeshService.updateJob]
  split
  · exact .refl inv
  · exact inv.insertJob idle _

end Invariant

theorem push_quiet (inv : s.Inv) (running : s.runtimes.find? j = some rt)
    (runs : e.terminal = false) (noToken : e.token? = none) : Quiet s (s.push j e) := by
  obtain ⟨job, q, live⟩ := inv.live j rt running
  exact inv.outcome live (.live _ _ _ (live.push runs noToken))

theorem failRuntime_of_idle (idle : s.runtimes.find? j = none) (code message : String) :
    s.failRuntime j code message = s := by
  rw [failRuntime, idle]
  split
  · rename_i running
    cases running
  · rfl

theorem failRuntime_quiet (inv : s.Inv) (j code message : String) :
    Quiet s (s.failRuntime j code message) :=
  inv.quiet (fun idle => failRuntime_of_idle idle code message) fun _ _ _ live =>
    live.failed code message

theorem retryOrFail_quiet (inv : s.Inv) (j reason : String) (message : Option String) :
    Quiet s (s.retryOrFail host m j reason message) := by
  refine inv.quiet (fun absent => ?_) fun job rt q live => retryOrFail_outcome live reason message
  rw [retryOrFail, endAttempt, absent]
  split
  · rename_i running
    cases running
  · rfl

theorem cancel_quiet (inv : s.Inv) (j : String) : Quiet s (s.cancel j).2 := by
  refine inv.quiet (j := j) (fun absent => ?_) fun job rt q live => ?_
  · rw [cancel, absent]
    split
    · rename_i running
      cases running
    · rfl
  · simp only [cancel, live.stored, live.runtime, setJobStatus]
    exact .finished _ _ (live.cancelTask.over (live.cancelTask.live.finish rfl rfl (by simp)))

theorem cancelMatchingActiveSession_quiet (inv : s.Inv) (request : ChatCompletionRequest)
    (requestedSessionId : Option String) :
    Quiet s (s.cancelMatchingActiveSession host request requestedSessionId).2 := by
  rw [cancelMatchingActiveSession]
  split
  · exact .refl inv
  split
  · exact .refl inv
  split
  · exact .refl inv
  · exact cancel_quiet inv _

theorem validJobEnvelope_eq_some (h : s.validJobEnvelope workerId j leaseId = some job) :
    s.jobs.find? j = some job ∧ job.workerId = some workerId ∧ job.leaseId = some leaseId := by
  rw [validJobEnvelope] at h
  split at h
  · cases h
  rename_i found
  simp only [Option.ite_none_left_eq_some, not_or, not_not, Option.some.injEq,
    Bool.not_eq_true] at h
  obtain ⟨⟨worker, lease⟩, -, rfl⟩ := h
  exact ⟨found, worker, lease⟩

theorem onLeaseAccepted_quiet (inv : s.Inv) (workerId j leaseId : String) :
    Quiet s (s.onLeaseAccepted m workerId j leaseId) := by
  rw [onLeaseAccepted]
  split
  · exact .refl inv
  rename_i job valid
  have same : (s.setJobStatus j .running none).runtimes = s.runtimes := by
    rw [setJobStatus, updateJob_eq (validJobEnvelope_eq_some valid).1]
  simp only [same]
  split
  · rename_i idle
    exact inv.updateJob idle
  rename_i rt running
  obtain ⟨job, q, live⟩ := inv.live j rt running
  have accepted : Via j s job rt (s.setJobStatus j .running none) _ rt q := live.updateJob rfl rfl
  have noted := accepted.trans (accepted.live.push (e := .progress .waitingFirstToken
    "Route accepted. Waiting for the first model token." rt.attempt (some workerId) none none)
    rfl rfl)
  refine inv.outcome live (.live _ _ _
    (noted.trans (noted.live.setRuntime { noted.live.fits with } ?_)))
  exact ⟨rfl, rfl, .inl ⟨rfl, rfl⟩⟩

theorem onLeaseRejected_quiet (inv : s.Inv) (workerId j leaseId : String) (reason : Option String) :
    Quiet s (s.onLeaseRejected host m workerId j leaseId reason) := by
  rw [onLeaseRejected]
  split
  · exact .refl inv
  · exact retryOrFail_quiet inv _ _ _

theorem onFailure_quiet (inv : s.Inv) (workerId j leaseId : String) (code message : Option String) :
    Quiet s (s.onFailure host m workerId j leaseId code message) := by
  rw [onFailure]
  split
  · exact .refl inv
  · exact retryOrFail_quiet inv _ _ _

theorem onComplete_quiet (inv : s.Inv) (workerId : String) (result : CompletionResult) :
    Quiet s (s.onComplete m workerId result) := by
  rw [onComplete]
  split
  · rename_i job rt valid running
    split
    · exact failRuntime_quiet inv _ _ _
    split
    · exact .refl inv
    · exact failRuntime_quiet inv _ _ _
    · obtain ⟨job', q, live⟩ := inv.live _ rt running
      refine inv.outcome live (.finished _ _ (live.finish rfl rfl fun r same => ?_))
      rw [← JobStreamEvent.completed.inj same]
      exact live.fits.output
  · exact .refl inv

theorem loseStage_quiet (inv : s.Inv) (workerId nodeId j : String) :
    Quiet s (s.loseStage host m workerId nodeId j) := by
  rw [loseStage]
  split
  · rename_i rt stage running affected
    have noted :=
      push_quiet inv running (e := .progress .recovering (stage.deviceName ++ " (" ++ nodeId ++
        ") disconnected from the distributed pipeline") rt.attempt (some workerId) (some nodeId)
        none) rfl rfl
    exact noted.trans (retryOrFail_quiet noted.inv _ _ _)
  · exact .refl inv

theorem foldl_quiet {f : MeshService → String → MeshService}
    (handle : ∀ s j, Inv s → Quiet s (f s j)) (inv : s.Inv) (ids : List String) :
    Quiet s (ids.foldl f s) := by
  induction ids generalizing s with
  | nil => exact .refl inv
  | cons id ids ih =>
    have first := handle s id inv
    exact first.trans (ih first.inv)

theorem handleWorkerDisconnect_quiet (inv : s.Inv) (workerId : String) :
    Quiet s (s.handleWorkerDisconnect host m workerId) := by
  have first := foldl_quiet (f := fun s j => s.retryOrFail host m j "worker_disconnected"
    (some "Worker disconnected after streaming began")) (fun s j inv => retryOrFail_quiet inv _ _ _)
    inv (s.listActiveJobsForWorker workerId)
  simp only [handleWorkerDisconnect]
  split
  · exact first
  · exact first.trans (foldl_quiet (fun s j inv => loseStage_quiet inv _ _ _) first.inv _)

theorem leaseTimeout_quiet (inv : s.Inv) (j : String) : Quiet s (s.leaseTimeout host m j) := by
  rw [leaseTimeout]
  split
  · exact .refl inv
  split
  · exact retryOrFail_quiet inv _ _ _
  · exact .refl inv

theorem firstTokenTimeout_quiet (inv : s.Inv) (j : String) :
    Quiet s (s.firstTokenTimeout host m j) := by
  rw [firstTokenTimeout]
  split
  · exact .refl inv
  rename_i rt running
  split
  · exact .refl inv
  split
  · obtain ⟨job, q, live⟩ := inv.live j rt running
    exact inv.outcome live (.live _ _ _
      (live.setRuntime { live.fits with } ⟨rfl, rfl, .inl ⟨rfl, rfl⟩⟩))
  · exact retryOrFail_quiet inv _ _ _

theorem Inv.addRuntime (inv : s.Inv) (stored : s.jobs.find? j = some job)
    (status : job.status.terminal = false) (free : s.activeSessions.find? job.sessionId = none)
    (unlisted : s.queues.find? j = none) (idle : s.runtimes.find? j = none) (fits : rt.Fits)
    (silent : rt.outputTokens = []) (same : u = { s with
      runtimes := s.runtimes.insert j rt
      activeSessions := s.activeSessions.insert job.sessionId j
      queues := s.queues.insert j AsyncQueue.new }) : Quiet s u ∧
          Live u j job rt AsyncQueue.new := by
  have elsewhere : Elsewhere j s u := by
    rw [same]
    exact ⟨fun _ _ => rfl, fun k other => by simp [other], fun k other => by simp [other]⟩
  have active : u.activeSessions = s.activeSessions.insert job.sessionId j := by rw [same]
  have runtime : u.runtimes.find? j = some rt := by rw [same]; exact Dict.find?_insert_self ..
  have queue : u.queues.find? j = some AsyncQueue.new := by
    rw [same]; exact Dict.find?_insert_self ..
  have stored' : u.jobs.find? j = some job := by rw [same]; exact stored
  have session : u.activeSessions.find? job.sessionId = some j := by
    rw [active]; exact Dict.find?_insert_self ..
  have live : Live u j job rt AsyncQueue.new :=
    ⟨stored', runtime, queue, status, silent ▸ ⟨rfl, by simp [AsyncQueue.new], rfl⟩, fits, session⟩
  have other : ∀ {k rt}, s.runtimes.find? k = some rt → j ≠ k := by
    rintro k rt running rfl
    rw [idle] at running
    cases running
  refine ⟨⟨⟨fun k rt' running => ?_, fun k q listed gone => ?_, fun key k listed => ?_,
    fun k q listed => ?_⟩, fun k => ?_, fun k => elsewhere.missing queue, fun k rt' running => ?_⟩,
    live⟩
  · by_cases mine : j = k
    · subst mine
      obtain rfl := Option.mem_unique runtime running
      exact ⟨job, _, live⟩
    rw [elsewhere.runtimes k mine] at running
    obtain ⟨job', q, there⟩ := inv.live k rt' running
    refine ⟨job', q, elsewhere.live mine there ?_⟩
    rw [active, Dict.find?_insert, if_neg]
    · exact there.session
    intro shared
    rw [shared, there.session] at free
    cases free
  · by_cases mine : j = k
    · rw [← mine, runtime] at gone
      cases gone
    rw [elsewhere.queues k mine] at listed
    rw [elsewhere.runtimes k mine] at gone
    exact inv.ended k q listed gone
  · rcases Dict.of_find?_insert (active ▸ listed) with ⟨here, rfl⟩ | ⟨-, listed⟩
    · exact ⟨rt, job, runtime, stored', here⟩
    obtain ⟨rt', job', running, found, same⟩ := inv.sessions key k listed
    exact ⟨rt', job', (elsewhere.runtimes k (other running)).trans running,
      (elsewhere.jobs k (other running)).trans found, same⟩
  · by_cases mine : j = k
    · exact ⟨job, mine ▸ stored'⟩
    rw [elsewhere.queues k mine] at listed
    rw [elsewhere.jobs k mine]
    exact inv.stored k q listed
  · by_cases mine : j = k
    · rw [← mine, published_of_find? queue, published, unlisted]
      rfl
    · exact elsewhere.published mine
  · by_cases mine : j = k
    · exact .inl (mine ▸ unlisted)
    · rw [elsewhere.runtimes k mine] at running
      exact .inr ⟨rt', running, .refl rt'⟩

theorem start_spec (host : Host) (m : Moment) (inv : s.Inv) (stored : s.jobs.find? j = some job)
    (status : job.status.terminal = false) (free : s.activeSessions.find? job.sessionId = none)
    (unlisted : s.queues.find? j = none) (idle : s.runtimes.find? j = none)
    (request : ChatCompletionRequest) (primary : ScheduledRoute) (standbys : List ScheduledRoute) :
    Quiet s (s.start host m j job.sessionId request primary standbys) ∧
      (s.start host m j job.sessionId request primary standbys).queues.find? j ≠ none := by
  have fits : (newRuntime host request primary standbys).Fits :=
    ⟨rfl, rfl, by simp [newRuntime], le_rfl, by simp [newRuntime]⟩
  obtain ⟨added, live⟩ := inv.addRuntime stored status free unlisted idle fits rfl rfl
  have noted := live.push (e := .accepted j job.sessionId primary) rfl rfl
  have dispatched : Quiet _ (s.start host m j job.sessionId request primary standbys) :=
    added.inv.outcome live (noted.outcome (dispatch_outcome noted.live false
      fun v job' reason message via => via.outcome (retryOrFail_outcome via.live reason message)))
  refine ⟨added.trans dispatched, fun missing => ?_⟩
  have before := dispatched.queues j missing
  rw [live.queue] at before
  cases before

theorem bindIdempotencyKey_quiet (inv : s.Inv) (idempotencyKey : Option String)
    (requestHash jobId : String) :
    Quiet s (s.bindIdempotencyKey idempotencyKey requestHash jobId) := by
  have bound : ∀ keys, Quiet s { s with idempotencyKeys := keys } := fun keys => by
    refine { Quiet.refl inv with inv := { inv with live := fun j rt running => ?_ } }
    obtain ⟨job, q, live⟩ := inv.live j rt running
    exact ⟨job, q, { live with }⟩
  unfold bindIdempotencyKey
  split
  · exact .refl inv
  · exact .refl inv
  · exact bound _

theorem bindIdempotencyKey_eq (idempotencyKey : Option String) (requestHash jobId : String) :
    (s.bindIdempotencyKey idempotencyKey requestHash jobId).jobs = s.jobs ∧
      (s.bindIdempotencyKey idempotencyKey requestHash jobId).runtimes = s.runtimes ∧
      (s.bindIdempotencyKey idempotencyKey requestHash jobId).activeSessions = s.activeSessions ∧
      (s.bindIdempotencyKey idempotencyKey requestHash jobId).queues = s.queues := by
  unfold bindIdempotencyKey
  split <;> exact ⟨rfl, rfl, rfl, rfl⟩

theorem noCapacity_quiet (inv : s.Inv) (idle : s.runtimes.find? j = none)
    (request : ChatCompletionRequest) : Quiet s (s.noCapacity m request j).2 := by
  have failed : Quiet s (s.setJobStatus j .failed (some "no_capacity")) := inv.updateJob idle
  have idle' : (s.setJobStatus j .failed (some "no_capacity")).runtimes.find? j = none := by
    rw [setJobStatus, MeshService.updateJob]
    split <;> exact idle
  simp only [noCapacity]
  split
  · exact failed.trans (failed.inv.updateJob idle')
  · exact failed

theorem admit_spec (inv : s.Inv) (missing : s.jobs.find? j = none)
    (free : s.activeSessions.find? session = none) (request : ChatCompletionRequest)
    (idempotencyKey : Option String) (clock : Int) :
    Quiet s (s.admitJob host m request session j idempotencyKey clock).2 ∧
      ∀ handle, (s.admitJob host m request session j idempotencyKey clock).1 = .ok handle →
        (s.admitJob host m request session j idempotencyKey clock).2.queues.find? handle.jobId ≠
        none := by
  have idle : s.runtimes.find? j = none := by
    cases running : s.runtimes.find? j with
    | none => rfl
    | some rt =>
      obtain ⟨job, q, live⟩ := inv.live j rt running
      rw [live.stored] at missing
      cases missing
  have unlisted : s.queues.find? j = none := by
    cases listed : s.queues.find? j with
    | none => rfl
    | some q =>
      obtain ⟨job, stored⟩ := inv.stored j q listed
      rw [stored] at missing
      cases missing
  rw [admitJob]
  have created : Quiet s (s.createJob j session request (clock + deadlineMs host request)) :=
    inv.insertJob idle _
  have bound :=
    created.trans (bindIdempotencyKey_quiet created.inv idempotencyKey
      (host.inputHashForRequest request) j)
  obtain ⟨jobs, runtimes, active, queues⟩ := bindIdempotencyKey_eq
    (s := s.createJob j session request (clock + deadlineMs host request)) idempotencyKey
    (host.inputHashForRequest request) j
  simp only
  generalize (s.createJob j session request _).bindIdempotencyKey _ _ _ = u at *
  have stored : u.jobs.find? j =
      some (newJob session request (clock + deadlineMs host request)) := by
    rw [jobs]
    exact Dict.find?_insert_self ..
  split
  · exact ⟨bound.trans (noCapacity_quiet bound.inv (runtimes ▸ idle) request), by simp⟩
  obtain ⟨started, listed⟩ := start_spec host m bound.inv stored rfl (active ▸ free)
    (queues ▸ unlisted) (runtimes ▸ idle) request _ _
  refine ⟨bound.trans started, fun handle same => ?_⟩
  rw [← Except.ok.inj same]
  exact listed

theorem submit_spec (inv : s.Inv) (request : ChatCompletionRequest)
    (requestedSessionId idempotencyKey : Option String) (clock : Int) :
    Quiet s (s.submit host m request requestedSessionId idempotencyKey clock).2 ∧
      ∀ handle, (s.submit host m request requestedSessionId idempotencyKey clock).1 = .ok handle →
        (s.submit host m request requestedSessionId idempotencyKey clock).2.queues.find?
        handle.jobId ≠ none := by
  rw [submit]
  split
  · exact ⟨.refl inv, by simp⟩
  rename_i free
  split
  · exact ⟨.refl inv, by simp⟩
  split
  · exact ⟨.refl inv, by simp⟩
  · rename_i fresh
    exact admit_spec inv (by simpa [Dict.contains] using fresh) free request idempotencyKey clock

end Mycellios.Mesh.MeshService
