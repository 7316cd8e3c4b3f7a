import Mycellios.Mesh.Service

namespace Mycellios.Mesh

open Data Logic

namespace JobStreamEvent

def terminal : JobStreamEvent → Bool
  | .completed _ | .failed .. => true
  | .accepted .. | .progress .. | .token _ => false

def token? : JobStreamEvent → Option TokenEvent
  | .token t => some t
  | .accepted .. | .progress .. | .completed _ | .failed .. => none

end JobStreamEvent

section Streams

variable {texts : List String} {q : AsyncQueue JobStreamEvent} {e : JobStreamEvent}

def tokensOf (events : List JobStreamEvent) : List TokenEvent :=
  events.filterMap JobStreamEvent.token?

def numbered (texts : List String) : List TokenEvent := texts.mapIdx fun i text => ⟨i, text⟩

theorem numbered_concat (texts : List String) (text : String) :
    numbered (texts ++ [text]) = numbered texts ++ [⟨texts.length, text⟩] := by
  simp [numbered, List.mapIdx_append]

theorem map_text_numbered (texts : List String) : (numbered texts).map (·.text) = texts := by
  exact List.ext_getElem (by simp [numbered]) fun i _ _ => by simp [numbered]

theorem map_index_numbered (texts : List String) :
    (numbered texts).map (·.index) = List.range texts.length := by
  exact List.ext_getElem (by simp [numbered]) fun i _ _ => by simp [numbered]

theorem terminal_token? (h : e.terminal = true) : e.token? = none := by
  cases e <;> first | rfl | cases h

structure Streaming (texts : List String) (q : AsyncQueue JobStreamEvent) : Prop where
  opened : q.closed = false
  running : ∀ e ∈ q.values, e.terminal = false
  tokens : tokensOf q.values = numbered texts

structure Ended (texts : List String) (q : AsyncQueue JobStreamEvent) : Prop where
  closed : q.closed = true
  last : ∃ events e, q.values = events ++ [e] ∧ e.terminal = true ∧ ∀ e ∈ events, e.terminal = false
  tokens : tokensOf q.values = numbered texts
  text : ∀ r, .completed r ∈ q.values → r.text = String.join texts

section

variable (h : Streaming texts q)
include h

theorem Streaming.push_values (e : JobStreamEvent) : (q.push e).values = q.values ++ [e] := by
  simp [AsyncQueue.push, h.opened]

theorem Streaming.note (runs : e.terminal = false) (noToken : e.token? = none) :
    Streaming texts (q.push e) := by
  refine ⟨by simp [AsyncQueue.push, h.opened], ?_, ?_⟩
  · rw [h.push_values]
    simp only [List.mem_append, List.mem_singleton]
    rintro f (old | rfl)
    · exact h.running f old
    · exact runs
  · rw [h.push_values, tokensOf, List.filterMap_append, ← tokensOf, h.tokens]
    simp [noToken]

theorem Streaming.publish (text : String) :
    Streaming (texts ++ [text]) (q.push (.token ⟨texts.length, text⟩)) := by
  refine ⟨by simp [AsyncQueue.push, h.opened], ?_, ?_⟩
  · rw [h.push_values]
    simp only [List.mem_append, List.mem_singleton]
    rintro f (old | rfl)
    · exact h.running f old
    · rfl
  · rw [h.push_values, tokensOf, List.filterMap_append, ← tokensOf, h.tokens, numbered_concat]
    rfl

theorem Streaming.finish (ends : e.terminal = true)
    (text : ∀ r, e = .completed r → r.text = String.join texts) : Ended texts (q.push e).close := by
  refine ⟨rfl, ⟨q.values, e, h.push_values e, ends, h.running⟩, ?_, fun r listed => ?_⟩
  · rw [AsyncQueue.close, h.push_values, tokensOf, List.filterMap_append, ← tokensOf, h.tokens]
    simp [terminal_token? ends]
  rw [AsyncQueue.close, h.push_values] at listed
  rcases List.mem_append.mp listed with old | new
  · cases h.running _ old
  · exact text r (List.mem_singleton.mp new).symm

end

end Streams

section Runtimes

def wholePrefix (texts : List String) : Option ReplayPrefix :=
  if texts = [] then none else some ⟨texts, 0⟩

structure RuntimeJob.Fits (rt : RuntimeJob) : Prop where
  output : rt.output = String.join rt.outputTokens
  next : rt.nextTokenIndex = rt.outputTokens.length
  replay : ∀ p, rt.replayPrefix = some p → p.tokens = rt.outputTokens ∧
    p.nextIndex < p.tokens.length
  attempts : rt.attempt ≤ rt.routeIndex + 1
  planned : rt.routeIndex < rt.routePlan.length

variable {rt : RuntimeJob}

theorem RuntimeJob.Fits.further (fits : rt.Fits) (later : rt.routeIndex ≤ i)
    (left : i < rt.routePlan.length) : ({ rt with routeIndex := i } : RuntimeJob).Fits :=
  { fits with attempts := fits.attempts.trans (Nat.add_le_add_right later 1), planned := left }

theorem RuntimeJob.Fits.restart (fits : rt.Fits) (route : ScheduledRoute)
    (planned : rt.routeIndex + 1 < rt.routePlan.length) :
    (MeshService.restart route { rt with routeIndex := rt.routeIndex + 1 }).Fits := by
  refine ⟨fits.output, fits.next, fun p replays => ?_, Nat.add_le_add_right fits.attempts 1,
    planned⟩
  simp only [MeshService.restart, decide_eq_true_eq] at replays
  split at replays
  · rename_i some
    rw [← Option.some.inj replays]
    exact ⟨rfl, fits.next ▸ some⟩
  · cases replays

/-- No token is published between two views of a runtime; a new attempt replays the whole prefix. -/
structure RuntimeJob.Follows (rt rt' : RuntimeJob) : Prop where
  tokens : rt'.outputTokens = rt.outputTokens
  plan : rt'.routePlan = rt.routePlan
  replay : rt'.attempt = rt.attempt ∧ rt'.replayPrefix = rt.replayPrefix ∨
    rt.attempt < rt'.attempt ∧ rt'.replayPrefix = wholePrefix rt.outputTokens

theorem RuntimeJob.Follows.refl (rt : RuntimeJob) : rt.Follows rt := ⟨rfl, rfl, .inl ⟨rfl, rfl⟩⟩

theorem RuntimeJob.Follows.trans (first : rt.Follows rt') (second : rt'.Follows rt'') :
    rt.Follows rt'' := by
  refine ⟨second.tokens.trans first.tokens, second.plan.trans first.plan, ?_⟩
  obtain ⟨sameAttempt, sameReplay⟩ | ⟨later, whole⟩ := second.replay
  · rw [sameAttempt, sameReplay]
    exact first.replay
  refine .inr ⟨?_, by rw [whole, first.tokens]⟩
  obtain ⟨sameAttempt, -⟩ | ⟨earlier, -⟩ := first.replay
  · rwa [sameAttempt] at later
  · exact earlier.trans later

theorem restart_replayPrefix (fits : rt.Fits) (route : ScheduledRoute) :
    (MeshService.restart route rt).replayPrefix = wholePrefix rt.outputTokens := by
  simp only [MeshService.restart, wholePrefix, fits.next, List.length_pos_iff, decide_not, ite_not,
    Bool.not_eq_true', decide_eq_false_iff_not]

end Runtimes

namespace MeshService

variable {s s' u : MeshService} {j : String} {job job' job'' : StoredJob} {rt rt' rt'' : RuntimeJob}
  {q q' q'' : AsyncQueue JobStreamEvent}

def published (s : MeshService) (j : String) : List TokenEvent :=
  ((s.queues.find? j).map fun q => tokensOf q.values).getD []

structure Elsewhere (j : String) (s s' : MeshService) : Prop where
  jobs : ∀ k, j ≠ k → s'.jobs.find? k = s.jobs.find? k
  runtimes : ∀ k, j ≠ k → s'.runtimes.find? k = s.runtimes.find? k
  queues : ∀ k, j ≠ k → s'.queues.find? k = s.queues.find? k

theorem Elsewhere.refl (j : String) (s : MeshService) : Elsewhere j s s :=
  ⟨fun _ _ => rfl, fun _ _ => rfl, fun _ _ => rfl⟩

theorem Elsewhere.trans (first : Elsewhere j s u) (second : Elsewhere j u s') : Elsewhere j s s' :=
  ⟨fun k other => (second.jobs k other).trans (first.jobs k other),
    fun k other => (second.runtimes k other).trans (first.runtimes k other),
    fun k other => (second.queues k other).trans (first.queues k other)⟩

structure Live (s : MeshService) (j : String) (job : StoredJob) (rt : RuntimeJob)
    (q : AsyncQueue JobStreamEvent) : Prop where
  stored : s.jobs.find? j = some job
  runtime : s.runtimes.find? j = some rt
  queue : s.queues.find? j = some q
  status : job.status.terminal = false
  stream : Streaming rt.outputTokens q
  fits : rt.Fits
  session : s.activeSessions.find? job.sessionId = some j

structure Via (j : String) (s : MeshService) (job : StoredJob) (rt : RuntimeJob) (s' : MeshService)
    (job' : StoredJob) (rt' : RuntimeJob) (q' : AsyncQueue JobStreamEvent) : Prop where
  elsewhere : Elsewhere j s s'
  live : Live s' j job' rt' q'
  session : job'.sessionId = job.sessionId
  follows : rt.Follows rt'
  active : s'.activeSessions = s.activeSessions

theorem Via.refl (h : Live s j job rt q) : Via j s job rt s job rt q :=
  ⟨.refl j s, h, rfl, .refl rt, rfl⟩

theorem Via.trans (first : Via j s job rt u job' rt' q')
    (second : Via j u job' rt' s' job'' rt'' q'') : Via j s job rt s' job'' rt'' q'' where
  elsewhere := first.elsewhere.trans second.elsewhere
  live := second.live
  session := second.session.trans first.session
  follows := first.follows.trans second.follows
  active := second.active.trans first.active

structure Over (j : String) (s : MeshService) (job : StoredJob) (rt : RuntimeJob) (s' : MeshService)
    (job' : StoredJob) (q' : AsyncQueue JobStreamEvent) : Prop where
  elsewhere : Elsewhere j s s'
  runtime : s'.runtimes.find? j = none
  stored : s'.jobs.find? j = some job'
  queue : s'.queues.find? j = some q'
  ended : Ended rt.outputTokens q'
  active : s'.activeSessions = s.activeSessions.erase job.sessionId

inductive Outcome (j : String) (s : MeshService) (job : StoredJob) (rt : RuntimeJob)
    (s' : MeshService) : Prop
  | live (job' : StoredJob) (rt' : RuntimeJob) (q' : AsyncQueue JobStreamEvent)
    (via : Via j s job rt s' job' rt' q')
  | finished (job' : StoredJob) (q' : AsyncQueue JobStreamEvent) (done : Over j s job rt s' job' q')

theorem Via.over (first : Via j s job rt u job' rt' q') (second : Over j u job' rt' s' job'' q'') :
    Over j s job rt s' job'' q'' where
  elsewhere := first.elsewhere.trans second.elsewhere
  runtime := second.runtime
  stored := second.stored
  queue := second.queue
  ended := first.follows.tokens ▸ second.ended
  active := by rw [second.active, first.active, first.session]

theorem Via.outcome (first : Via j s job rt u job' rt' q') (second : Outcome j u job' rt' s') :
    Outcome j s job rt s' := by
  cases second with
  | live job'' rt'' q'' via => exact .live job'' rt'' q'' (first.trans via)
  | finished job'' q'' done => exact .finished job'' q'' (first.over done)

theorem Live.setRuntime (h : Live s j job rt q) (fits : rt'.Fits) (follows : rt.Follows rt') :
    Via j s job rt (s.setRuntime j rt') job rt' q where
  elsewhere := ⟨fun _ _ => rfl, fun k other => by simp [MeshService.setRuntime, other],
    fun _ _ => rfl⟩
  live := ⟨h.stored, Dict.find?_insert_self .., h.queue, h.status, follows.tokens ▸ h.stream, fits,
    h.session⟩
  session := rfl
  follows := follows
  active := rfl

theorem push_eq (h : s.queues.find? j = some q) (e : JobStreamEvent) :
    s.push j e = { s with queues := s.queues.insert j (q.push e) } := by
  rw [push, h]

theorem Live.push (h : Live s j job rt q) (runs : e.terminal = false) (noToken : e.token? = none) :
    Via j s job rt (s.push j e) job rt (q.push e) := by
  rw [push_eq h.queue]
  exact {
    elsewhere := ⟨fun _ _ => rfl, fun _ _ => rfl, fun k other => by simp [other]⟩
    live := ⟨h.stored, h.runtime, Dict.find?_insert_self .., h.status, h.stream.note runs noToken,
      h.fits, h.session⟩
    session := rfl
    follows := .refl rt
    active := rfl }

theorem updateJob_eq (h : s.jobs.find? j = some job) (f : StoredJob → StoredJob) :
    s.updateJob j f = { s with jobs := s.jobs.insert j (f job) } := by
  rw [updateJob, h]

section

variable (h : Live s j job rt q)
include h

theorem Live.updateJob {f : StoredJob → StoredJob} (session : (f job).sessionId = job.sessionId)
    (status : (f job).status.terminal = false) : Via j s job rt (s.updateJob j f) (f job) rt q := by
  rw [updateJob_eq h.stored]
  exact {
    elsewhere := ⟨fun k other => by simp [other], fun _ _ => rfl, fun _ _ => rfl⟩
    live := ⟨Dict.find?_insert_self .., h.runtime, h.queue, status, h.stream, h.fits,
      session ▸ h.session⟩
    session := session
    follows := .refl rt
    active := rfl }

theorem Live.send (workerId : String) (message : Message) :
    Via j s job rt (s.send workerId message) job rt q :=
  ⟨⟨fun _ _ => rfl, fun _ _ => rfl, fun _ _ => rfl⟩, { h with }, rfl, .refl rt, rfl⟩

theorem Live.cancelTask : Via j s job rt (s.cancelTask j job) job rt q := by
  rw [MeshService.cancelTask]
  split
  · exact .refl h
  · exact h.send _ _

theorem Live.finish {f : StoredJob → StoredJob} (session : (f job).sessionId = job.sessionId)
    (ends : e.terminal = true)
    (text : ∀ r, e = .completed r → r.text = String.join rt.outputTokens) :
    Over j s job rt (((s.updateJob j f).push j e).finishRuntime j) (f job) (q.push e).close := by
  have active : s.activeSessions.find? (f job).sessionId = some j := session ▸ h.session
  have done : ((s.updateJob j f).push j e).finishRuntime j = { s with
      jobs := s.jobs.insert j (f job)
      activeSessions := s.activeSessions.erase (f job).sessionId
      queues := (s.queues.insert j (q.push e)).insert j (q.push e).close
      runtimes := s.runtimes.erase j } := by
    simp [updateJob_eq h.stored, MeshService.push, finishRuntime, releaseSession, closeQueue,
      h.queue, h.runtime, active]
  rw [done]
  exact {
    elsewhere := ⟨fun k other => by simp [other], fun k other => by simp [other],
      fun k other => by simp [other]⟩
    runtime := by simp
    stored := Dict.find?_insert_self ..
    queue := Dict.find?_insert_self ..
    ended := h.stream.finish ends text
    active := by rw [session] }

theorem Live.fail (code message : String) :
    ∃ job' q', Over j s job rt (s.failRuntime j code message) job' q' := by
  simp only [failRuntime, h.stored, h.runtime, setJobStatus]
  exact ⟨_, _, h.cancelTask.over (h.cancelTask.live.finish rfl rfl (by simp))⟩

theorem Live.failed (code message : String) :
    Outcome j s job rt (s.failRuntime j code message) := by
  obtain ⟨job', q', done⟩ := h.fail code message
  exact .finished job' q' done

end

end MeshService

end Mycellios.Mesh
