import Mycellios.Mesh.Stream

namespace Mycellios.Mesh.MeshService

open Data Logic

variable {host : Host} {m : Moment} {s s' u : MeshService} {j : String} {job job' : StoredJob}
  {rt rt' : RuntimeJob} {q q' : AsyncQueue JobStreamEvent}

section Attempts

variable {retry : String → Option String → MeshService → MeshService}

section

variable (h : Live s j job rt q)
include h

theorem Live.setJobRoute (stage : RouteStage) (leaseId : String) :
    ∃ job', Via j s job rt (s.setJobRoute j stage leaseId) job' rt q := by
  refine ⟨_, h.updateJob ?_ ?_⟩
  · split <;> rfl
  split
  · rfl
  · exact h.status

theorem Live.promoteJobRoute (stage : RouteStage) (leaseId : String) :
    ∃ u job', s.promoteJobRoute j stage leaseId = some u ∧ Via j s job rt u job' rt q := by
  rw [MeshService.promoteJobRoute, h.stored]
  simp only [h.status, Bool.false_eq_true, if_false]
  exact ⟨_, _, rfl, h.updateJob rfl rfl⟩

theorem offer_outcome (stage : RouteStage) (promote : Bool)
    (retries : ∀ u job' reason message, Via j s job rt u job' rt q →
      Outcome j s job rt (retry reason message u)) :
    Outcome j s job rt (s.offer m retry j rt stage promote) := by
  have assigned : ∃ u job', (if promote then
    s.promoteJobRoute j stage (m.newLeaseId j rt.routeIndex)
      else some (s.setJobRoute j stage (m.newLeaseId j rt.routeIndex))) = some u ∧
          Via j s job rt u job' rt q := by
    cases promote with
    | true => exact h.promoteJobRoute stage _
    | false =>
      obtain ⟨job', via⟩ := h.setJobRoute stage (m.newLeaseId j rt.routeIndex)
      exact ⟨_, job', rfl, via⟩
  obtain ⟨u, job', written, via⟩ := assigned
  simp only [offer, written, via.live.stored]
  have sent :=
    via.trans (via.live.send stage.workerId
      (.leaseOffer ⟨j, m.newLeaseId j rt.routeIndex, stage.modelDigest, job'.deadlineAt,
        rt.promptCheckpoint.request⟩))
  split
  · exact .live _ _ _ (sent.trans (sent.live.setRuntime { sent.live.fits with } ⟨rfl, rfl,
      .inl ⟨rfl, rfl⟩⟩))
  · exact retries _ job' _ _ sent

theorem dispatch_outcome (promote : Bool)
    (retries : ∀ u job' reason message, Via j s job rt u job' rt q →
      Outcome j s job rt (retry reason message u)) :
    Outcome j s job rt (s.dispatch host m retry j rt promote) := by
  rw [dispatch]
  split
  · exact h.failed _ _
  split
  · exact h.failed _ _
  split
  · exact h.failed _ _
  split
  · exact offer_outcome h _ promote retries
  · exact retries s job _ _ (.refl h)

theorem endAttempt_outcome {next : StoredJob → RuntimeJob → MeshService → MeshService}
    (nexts : ∀ u rt', Via j s job rt u job rt' q → rt'.routeIndex = rt.routeIndex →
      Outcome j s job rt (next job rt' u)) : Outcome j s job rt (s.endAttempt j reason next) := by
  simp only [endAttempt, h.stored, h.runtime]
  have cleared :
      Via j s job rt (s.setRuntime j { rt with leaseTimer := false, firstTokenTimer := none }) job
      { rt with leaseTimer := false, firstTokenTimer := none } q :=
    h.setRuntime { h.fits with } ⟨rfl, rfl, .inl ⟨rfl, rfl⟩⟩
  split
  · exact cleared.outcome (cleared.live.failed _ _)
  · exact nexts _ _ (cleared.trans cleared.live.cancelTask) rfl

theorem tryRoutes_outcome
    (i : Nat) (later : rt.routeIndex ≤ i) (left : i + routes.length < rt.routePlan.length) :
    Outcome j s job rt (tryRoutes host m j reason message routes job { rt with routeIndex := i }
      s) := by
  induction routes generalizing s job rt q reason message i with
  | nil =>
    have moved := h.setRuntime (h.fits.further later left) ⟨rfl, rfl, .inl ⟨rfl, rfl⟩⟩
    exact moved.outcome (moved.live.failed _ _)
  | cons route routes ih =>
    rw [List.length_cons] at left
    have next : i + 1 + routes.length < rt.routePlan.length := by omega
    rw [tryRoutes]
    split
    · split
      · have here := h.fits.further later (Nat.lt_of_le_of_lt (Nat.le_add_right i _) left)
        have beyond := h.fits.further (i := i + 1) (by omega) (by omega)
        have set := h.setRuntime (here.restart route (by simp only; omega))
          ⟨rfl, rfl, .inr ⟨Nat.lt_succ_self _, restart_replayPrefix beyond route⟩⟩
        have noted := set.trans (set.live.push
          (e := recovering job.workerId (restart route { rt with routeIndex := i + 1 })) rfl rfl)
        refine noted.outcome (dispatch_outcome noted.live true fun u job' reason message via => ?_)
        refine via.outcome (endAttempt_outcome via.live fun v rt' ended same => ?_)
        refine ended.outcome (ih ended.live rt'.routeIndex le_rfl ?_)
        rw [ended.follows.plan, same]
        exact next
      · exact ih h (i + 1) (by omega) next
    · exact ih h (i + 1) (by omega) next

theorem retryOrFail_outcome (reason : String) (message : Option String) :
    Outcome j s job rt (s.retryOrFail host m j reason message) := by
  refine endAttempt_outcome h fun u rt' ended same =>
    ended.outcome (tryRoutes_outcome ended.live rt'.routeIndex le_rfl ?_)
  have planned := ended.live.fits.planned
  rw [List.length_drop]
  omega

end

end Attempts

end Mycellios.Mesh.MeshService
