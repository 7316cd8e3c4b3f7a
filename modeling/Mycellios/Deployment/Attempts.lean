import Mycellios.Deployment.Operations

namespace Mycellios.Deployment

open Data Dict Logic

namespace Tables

variable {t u : Tables}

def Clean (t : Tables) (m : String) (s : DeploymentState) : Prop :=
  ∀ id o, t.operations.find? id = some o → o.modelId = m → o.generation = s.generation →
    o.status = .running ∨ o.status = .failed

/-- Operations are claimed up to the generation; while they only fail, the retries count them. -/
structure Fits (t : Tables) (m : String) (s : DeploymentState) : Prop where
  past : ∀ id o, t.operations.find? id = some o → o.modelId = m → o.generation ≤ s.generation
  attempts : t.Clean m s → ∀ id o, t.operations.find? id = some o → o.modelId = m →
    o.generation = s.generation → (o.status = .failed → o.attempt ≤ s.retryCount) ∧
    (o.status = .running → o.attempt = s.retryCount + 1)
  /-- Nothing has been claimed at a generation that began after the active operation. -/
  active : ∀ id o, s.activeOperationId = some id → t.operations.find? id = some o → o.modelId = m →
    o.generation ≠ s.generation →
    ∀ id' o', t.operations.find? id' = some o' → o'.modelId = m → o'.generation ≠ s.generation

structure Numbered (t : Tables) : Prop where
  known : ∀ id o, t.operations.find? id = some o → t.states.find? o.modelId ≠ none
  fits : ∀ m s, t.states.find? m = some s → t.Fits m s

theorem numbered_empty : Numbered empty where
  known _ _ found := by cases found
  fits _ _ found := by cases found

/-- The operations are those there were, some of them ended otherwise than by failing. -/
structure Goes (t u : Tables) (m : String) : Prop where
  back : ∀ id o', u.operations.find? id = some o' → o'.modelId = m →
    ∃ o, t.operations.find? id = some o ∧ o.modelId = m ∧ o'.generation = o.generation ∧
    o'.attempt = o.attempt ∧
      (o'.status = o.status ∨ o'.status ≠ .running ∧ o'.status ≠ .failed)
  forth : ∀ id o, t.operations.find? id = some o → o.modelId = m →
    ∃ o', u.operations.find? id = some o' ∧ o'.modelId = m

theorem Goes.of_eq (same : u.operations = t.operations) (m : String) : t.Goes u m := by
  constructor
  · intro id o found model
    exact ⟨o, same ▸ found, model, rfl, rfl, .inl rfl⟩
  · intro id o found model
    exact ⟨o, same ▸ found, model⟩

theorem Goes.ends {which : String → DeploymentOperation → Bool}
    {set : DeploymentOperation → DeploymentOperation} (ends : Ends which set)
    (operations : u.operations = t.operations.update which set)
    (otherwise : ∀ id o, which id o = true → t.operations.find? id = some o → o.modelId = m →
      (set o).status ≠ .failed) : t.Goes u m := by
  constructor
  · intro id o' found model
    rw [operations] at found
    obtain ⟨o, foundO, rfl⟩ := find?_update_eq_some.mp found
    split at model
    · rename_i hit
      rw [ends.model o] at model
      rw [if_pos hit]
      exact ⟨o, foundO, model, ends.generation o, ends.attempt o,
        .inr ⟨ends.status o, otherwise id o hit foundO model⟩⟩
    rename_i missed
    rw [if_neg missed]
    exact ⟨o, foundO, model, rfl, rfl, .inl rfl⟩
  · intro id o found model
    rw [operations, find?_update, found]
    refine ⟨if which id o then set o else o, rfl, ?_⟩
    split
    · rw [ends.model o, model]
    · exact model

inductive Follows (s s' : DeploymentState) : Prop
  | keeps (generation : s'.generation = s.generation) (retries : s'.retryCount = s.retryCount)
      (active : s'.activeOperationId = s.activeOperationId ∨ s'.activeOperationId = none)
  | begins (generation : s.generation < s'.generation)

theorem Follows.refl (s : DeploymentState) : Follows s s := .keeps rfl rfl (.inl rfl)

theorem Fits.begins (past : ∀ id o, t.operations.find? id = some o → o.modelId = modelId →
    o.generation < s.generation) : t.Fits modelId s where
  past id o found model := le_of_lt (past id o found model)
  attempts _ id o found model generation := absurd generation (ne_of_lt (past id o found model))
  active _ _ _ _ _ _ id' o' found model := ne_of_lt (past id' o' found model)

theorem Goes.clean (goes : t.Goes u modelId) (clean : u.Clean modelId s')
    (generation : s'.generation = s.generation) : t.Clean modelId s := by
  intro id o found model here
  obtain ⟨o', found', model'⟩ := goes.forth id o found model
  obtain ⟨q, foundQ, _, generation', _, status⟩ := goes.back id o' found' model'
  rw [found] at foundQ
  cases foundQ
  have ended := clean id o' found' model' (by rw [generation', here, generation])
  rcases status with same | ⟨notRunning, notFailed⟩
  · rw [← same]
    exact ended
  · exact absurd ended (by simp [notRunning, notFailed])

theorem Fits.follows (h : t.Fits modelId s) (goes : t.Goes u modelId) (follows : Follows s s') :
    u.Fits modelId s' := by
  cases follows with
  | begins later =>
    refine .begins fun id o' found model => ?_
    obtain ⟨o, foundO, modelO, generation, _⟩ := goes.back id o' found model
    rw [generation]
    exact lt_of_le_of_lt (h.past id o foundO modelO) later
  | keeps generation retries active =>
    constructor
    · intro id o' found model
      obtain ⟨o, foundO, modelO, sameGeneration, _⟩ := goes.back id o' found model
      rw [sameGeneration, generation]
      exact h.past id o foundO modelO
    · intro clean id o' found model here
      obtain ⟨o, foundO, modelO, sameGeneration, attempt, status⟩ := goes.back id o' found model
      have counts := h.attempts (goes.clean clean generation) id o foundO modelO
        (by rw [← sameGeneration, here, generation])
      rw [attempt, retries]
      rcases status with same | ⟨notRunning, notFailed⟩
      · rw [same]
        exact counts
      · exact ⟨fun failed => absurd failed notFailed, fun running => absurd running notRunning⟩
    · intro id o' activeId found model other id' q' found' model'
      obtain ⟨o, foundO, modelO, sameGeneration, _⟩ := goes.back id o' found model
      obtain ⟨q, foundQ, modelQ, generationQ, _⟩ := goes.back id' q' found' model'
      have activeS : s.activeOperationId = some id := by
        rcases active with same | none
        · rw [← same, activeId]
        · rw [none] at activeId
          cases activeId
      rw [generationQ, generation]
      rw [sameGeneration, generation] at other
      exact h.active id o activeS foundO modelO other id' q foundQ modelQ

theorem Numbered.follows (h : t.Numbered) (goes : ∀ m, t.Goes u m)
    (forth : ∀ id o, t.operations.find? id = some o → t.states.find? o.modelId ≠ none →
      u.states.find? o.modelId ≠ none)
    (back : ∀ m s', u.states.find? m = some s' → (∃ s, t.states.find? m = some s ∧ Follows s s') ∨
      t.states.find? m = none) : u.Numbered where
  known id o' found := by
    obtain ⟨o, foundO, model, _⟩ := (goes _).back id o' found rfl
    rw [← model]
    exact forth id o foundO (h.known id o foundO)
  fits m s' found := by
    rcases back m s' found with ⟨s, foundS, follows⟩ | none
    · exact (h.fits m s foundS).follows (goes m) follows
    refine .begins fun id o' foundO' model => ?_
    obtain ⟨o, foundO, modelO, _⟩ := (goes m).back id o' foundO' model
    have known := h.known id o foundO
    rw [modelO] at known
    exact absurd none known

section Calls

theorem Numbered.frame (h : t.Numbered) (same : t.SameOperations u) : u.Numbered := by
  refine h.follows (Goes.of_eq same.2) ?_ ?_
  · intro id o _ known
    rw [same.1]
    exact known
  intro m s found
  rw [same.1] at found
  exact .inl ⟨s, found, .refl s⟩

theorem Numbered.ensures (h : t.Numbered) (ensures : t.Ensures u) : u.Numbered := by
  refine h.follows (Goes.of_eq ensures.operations) ?_ ?_
  · intro id o _ known
    obtain ⟨s, found⟩ := Option.ne_none_iff_exists'.mp known
    rw [ensures.states _ s found]
    simp
  intro m s found
  rcases ensures.fresh m s found with earlier | ⟨none, _⟩
  · exact .inl ⟨s, earlier, .refl s⟩
  · exact .inr none

theorem Numbered.insert (h : t.Numbered) (operations : u.operations = t.operations)
    (states : u.states = t.states.insert modelId s') (found : t.states.find? modelId = some s)
    (follows : Follows s s') : u.Numbered := by
  refine h.follows (Goes.of_eq operations) ?_ ?_
  · intro id o _ known
    rw [states, find?_insert]
    split
    · simp
    · exact known
  intro m q foundQ
  rcases of_find?_insert (states ▸ foundQ) with ⟨rfl, rfl⟩ | ⟨-, foundQ⟩
  · exact .inl ⟨s, found, follows⟩
  · exact .inl ⟨q, foundQ, .refl q⟩

variable {which : String → DeploymentState → Bool} {set : DeploymentState → DeploymentState}

theorem Numbered.update (h : t.Numbered) {models : Dict String Bool}
    {operations : Dict String DeploymentOperation} {reservations : Dict String RouteReservation}
    {leases : Dict String StageLease}
    (goes : ∀ m, t.Goes ⟨models, t.states.update which set, operations, reservations, leases⟩ m)
    (follows : ∀ s, Follows s (set s)) :
    Numbered ⟨models, t.states.update which set, operations, reservations, leases⟩ := by
  refine h.follows goes ?_ ?_
  · intro id o _ known
    rw [find?_update]
    simpa using known
  intro m s' found
  obtain ⟨s, foundS, rfl⟩ := find?_update_eq_some.mp found
  refine .inl ⟨s, foundS, ?_⟩
  split
  · exact follows s
  · exact .refl s

theorem numbered_updateOwned (h : t.Numbered) (operationId : String)
    (follows : ∀ s, Follows s (set s)) : (t.updateOwned moment operationId set).2.Numbered := by
  unfold updateOwned
  split
  · exact h
  · exact h.update (Goes.of_eq rfl) follows

theorem Numbered.settle (h : t.Numbered) (single : t.Single)
    (running : t.runningOperation operationId = some o)
    {which : String → DeploymentOperation → Bool} {end_ : DeploymentOperation → DeploymentOperation}
    (ends : Ends which end_) (only : ∀ id o, which id o = true → id = operationId)
    (operations : u.operations = t.operations.update which end_)
    (set : DeploymentState → DeploymentState) (generation : ∀ s, (set s).generation = s.generation)
    (clears : ∀ s, (set s).activeOperationId = none)
    (states :
      u.states = t.states.update (fun m s => m = o.modelId ∧ s.activeOperationId = some operationId)
      set) (counts : ∀ s, t.states.find? o.modelId = some s → o.generation = s.generation →
        u.Clean o.modelId (set s) → ∀ id q, u.operations.find? id = some q → q.modelId = o.modelId →
        q.generation = s.generation → (q.status = .failed → q.attempt ≤ (set s).retryCount) ∧
        (q.status = .running → q.attempt = (set s).retryCount + 1)) : u.Numbered := by
  obtain ⟨found, status⟩ := runningOperation_eq_some.mp running
  obtain ⟨s, foundS, active⟩ :=
    Option.bind_eq_some_iff.mp (single.running operationId o found status)
  -- every operation keeps its model and generation
  have back : ∀ id q', u.operations.find? id = some q' → ∃ q, t.operations.find? id = some q ∧
      q'.modelId = q.modelId ∧ q'.generation = q.generation := by
    intro id q' foundQ'
    rw [operations] at foundQ'
    obtain ⟨q, foundQ, rfl⟩ := find?_update_eq_some.mp foundQ'
    refine ⟨q, foundQ, ?_⟩
    split
    · exact ⟨ends.model q, ends.generation q⟩
    · exact ⟨rfl, rfl⟩
  constructor
  · intro id q' foundQ'
    obtain ⟨q, foundQ, model, _⟩ := back id q' foundQ'
    rw [model, states, find?_update]
    simpa using h.known id q foundQ
  intro m s' foundS'
  rw [states] at foundS'
  obtain ⟨p, foundP, rfl⟩ := find?_update_eq_some.mp foundS'
  by_cases here : m = o.modelId
  · subst here
    rw [foundS] at foundP
    cases foundP
    rw [if_pos (by simp [active])]
    refine ⟨?_, ?_, ?_⟩
    · intro id q' foundQ' model'
      obtain ⟨q, foundQ, model, sameGeneration⟩ := back id q' foundQ'
      rw [sameGeneration, generation]
      exact (h.fits _ s foundS).past id q foundQ (model.symm.trans model')
    · intro clean id q' foundQ' model' now_
      rw [generation] at now_
      by_cases current : o.generation = s.generation
      · exact counts s foundS current clean id q' foundQ' model' now_
      -- the generation began after the operation, so nothing has been claimed at it
      obtain ⟨q, foundQ, model, sameGeneration⟩ := back id q' foundQ'
      have none := (h.fits _ s foundS).active operationId o active found rfl current id q foundQ
        (model.symm.trans model')
      exact absurd (sameGeneration.symm.trans now_) none
    · intro id q activeQ
      rw [clears] at activeQ
      cases activeQ
  · rw [if_neg (by simp [here])]
    refine (h.fits m p foundP).follows ?_ (.refl p)
    refine Goes.ends ends operations fun id q hit foundQ model => ?_
    rw [only id q hit, found] at foundQ
    cases foundQ
    exact absurd model.symm here

theorem numbered_completeOperation (h : t.Numbered) (single : t.Single) (operationId : String)
    (observedState : ObservedState) :
    (t.completeOperation operationId observedState).2.Numbered := by
  unfold completeOperation
  split
  · exact h
  rename_i o running
  obtain ⟨found, status⟩ := runningOperation_eq_some.mp running
  refine h.settle single running (ends_succeedOperationRow operationId)
    (fun _ _ hit => (of_decide_eq_true hit).1) rfl (succeededState observedState) (fun _ => rfl)
    (fun _ => rfl) rfl ?_
  -- the operation has succeeded at this generation
  intro s _ current clean
  have succeeded := clean operationId { o with status := .succeeded }
    (by simp [settleState, succeedOperationRow, find?_update, found, status]) rfl current
  simp at succeeded

theorem numbered_failOperation (h : t.Numbered) (single : t.Single)
    (operationId errorCode errorMessage : String) (retryAt : Option ℚ) :
    (t.failOperation operationId errorCode errorMessage retryAt).2.Numbered := by
  unfold failOperation
  split
  · exact h
  rename_i o running
  obtain ⟨found, status⟩ := runningOperation_eq_some.mp running
  refine h.settle single running (ends_finishOperationRow operationId .failed errorCode errorMessage
    (by decide)) (fun _ _ hit => (of_decide_eq_true hit).1) rfl (failedState errorMessage retryAt)
    (fun _ => rfl) (fun _ => rfl) rfl ?_
  intro s foundS current clean
  have before : t.Clean o.modelId s := by
    intro id q foundQ model generation
    by_cases here : id = operationId
    · rw [here, found] at foundQ
      cases foundQ
      exact .inl status
    · exact clean id q (finishOperationRow_find? foundQ (fun same => absurd same here)) model
        generation
  have attempts := (h.fits _ s foundS).attempts before
  intro id q foundQ model generation
  obtain ⟨p, foundP, rfl⟩ := find?_update_eq_some.mp foundQ
  by_cases here : id = operationId
  · rw [here, found] at foundP
    cases foundP
    rw [if_pos (by simp [here, status, OperationStatus.unfinished])]
    have attempt := (attempts operationId o found rfl current).2 status
    exact ⟨fun _ => le_of_eq attempt, fun running => by cases running⟩
  rw [if_neg (by simp [here])] at model generation ⊢
  have counts := attempts id p foundP model generation
  refine ⟨fun failed => (counts.1 failed).trans (Nat.le_succ _), fun runningP => ?_⟩
  -- the model has no other running operation
  have active := single.running id p foundP runningP
  rw [model, single.running operationId o found status] at active
  exact absurd (Option.some.inj active).symm here

theorem goes_interruptActive (m : String) : t.Goes (t.interruptActive s) m := by
  unfold interruptActive
  split
  · exact Goes.of_eq rfl m
  · exact Goes.ends (ends_finishOperationRow _ .interrupted _ _ (by decide)) rfl
      fun _ _ _ _ _ => by simp

section

variable (h : t.Numbered)
include h

theorem Numbered.insertOperation (idle : t.SingleBut modelId)
    (found : t.states.find? modelId = some s)
    (ok : t.insertOperation moment modelId s kind leaseMs = .ok (row, u)) : u.Numbered := by
  obtain ⟨key, _, fresh, _, operations, states⟩ := insertOperation_ok ok
  have rows : ∀ id o, u.operations.find? id = some o →
      o = newOperation modelId s kind ∨ t.operations.find? id = some o := by
    intro id o foundO
    exact (of_find?_insert (operations ▸ foundO)).imp (fun new => new.2.symm) And.right
  have kept : ∀ id o, t.operations.find? id = some o → u.operations.find? id = some o := by
    intro id o foundO
    have other : key ≠ id := by
      rintro rfl
      rw [fresh] at foundO
      cases foundO
    rw [operations, find?_insert, if_neg other]
    exact foundO
  have fits := h.fits modelId s found
  constructor
  · intro id o foundO
    rw [states, find?_insert]
    split
    · simp
    rename_i other
    rcases rows id o foundO with rfl | earlier
    · exact absurd rfl other
    · exact h.known id o earlier
  · intro m s' foundS'
    rcases of_find?_insert (states ▸ foundS') with ⟨rfl, rfl⟩ | ⟨other, foundS'⟩
    · refine ⟨?_, ?_, ?_⟩
      · intro id o foundO model
        rcases rows id o foundO with rfl | earlier
        · exact le_refl _
        · exact fits.past id o earlier model
      · intro clean id o foundO model generation
        have before : t.Clean modelId s := fun j q foundQ => clean j q (kept j q foundQ)
        rcases rows id o foundO with rfl | earlier
        · exact ⟨(fun failed => by cases failed), fun _ => rfl⟩
        · refine ⟨(fits.attempts before id o earlier model generation).1, fun running => ?_⟩
          exact absurd model (idle.running id o earlier running).1
      · intro id o active foundO _ other
        cases active
        rw [operations, find?_insert_self] at foundO
        cases foundO
        exact absurd rfl other
    · refine (h.fits m s' foundS').follows ⟨?_, ?_⟩ (.refl s')
      · intro id o foundO model
        rcases rows id o foundO with rfl | earlier
        · exact absurd model other
        · exact ⟨o, earlier, model, rfl, rfl, .inl rfl⟩
      · exact fun id o foundO model => ⟨o, kept id o foundO, model⟩

theorem numbered_claimOperation (single : t.Single)
    (ok : t.claimOperation moment modelId kind leaseMs = .ok (row, u)) : u.Numbered := by
  obtain ⟨s, v, ensures, found, cases_⟩ := claimOperation_ok ok
  have hv := h.ensures ensures
  have states : (v.interruptActive s).states = v.states := interruptActive_states
  have interrupted : (v.interruptActive s).Numbered := by
    refine hv.follows goes_interruptActive ?_ ?_
    · intro id o _ known
      rw [states]
      exact known
    intro m q foundQ
    rw [states] at foundQ
    exact .inl ⟨q, foundQ, .refl q⟩
  rcases cases_ with ⟨_, _, _, _, rfl⟩ | ⟨_, rfl⟩ | ⟨_, _, _, rfl⟩ | ⟨_, started⟩
  · exact hv
  · exact hv
  · exact interrupted
  · exact interrupted.insertOperation ((single.ensures ensures).interruptActive found)
      (by rw [states]; exact found) started

theorem Numbered.erase (modelId : String)
    (operations : ∀ id o, u.operations.find? id = some o ↔ t.operations.find? id = some o ∧
      o.modelId ≠ modelId)
    (states : u.states = t.states.erase modelId) : u.Numbered := by
  constructor
  · intro id o found
    obtain ⟨foundO, other⟩ := (operations id o).mp found
    rw [states, find?_erase, if_neg (Ne.symm other)]
    exact h.known id o foundO
  intro m s found
  rw [states, find?_erase] at found
  split at found
  · cases found
  rename_i other
  refine (h.fits m s found).follows ⟨?_, ?_⟩ (.refl s)
  · intro id o foundO model
    exact ⟨o, ((operations id o).mp foundO).1, model, rfl, rfl, .inl rfl⟩
  · intro id o foundO model
    exact ⟨o, (operations id o).mpr ⟨foundO, model ▸ Ne.symm other⟩, model⟩

theorem numbered_removeRequestedModel (modelId : String) :
    (t.removeRequestedModel modelId).2.Numbered := by
  unfold removeRequestedModel
  split
  · refine h.erase modelId (fun id o => ?_) rfl
    rw [find?_filter_eq_some]
    simp
  · exact h

theorem numbered_initializePlane (ok : t.initializePlane moment = .ok (result, u)) :
    u.Numbered := by
  simp only [initializePlane, bind_eq_ok] at ok
  obtain ⟨v, ensured, done⟩ := ok
  obtain ⟨_, rfl⟩ := ok_inj done
  have hv := h.ensures (ensures_ensureModels ensured)
  have interrupted : ∀ m, v.Goes v.interruptAll m := fun m =>
    Goes.ends ends_interruptAll rfl fun _ _ _ _ _ => by simp
  refine Numbered.frame ?_ (sameOperations_expireReservations moment.now)
  split
  · refine hv.update (fun m => ⟨(interrupted m).back, (interrupted m).forth⟩) fun s => ?_
    exact .keeps rfl rfl (.inr rfl)
  · refine hv.follows interrupted (fun _ _ _ known => known) fun m s found =>
      .inl ⟨s, found, .refl s⟩

end

end Calls

end Tables

def Call.forgets : Call → Option String
  | .removeModelState modelId => some modelId
  | _ => none

/-- No active operation is forgotten, and no state is removed from under operations. -/
def Steady (t : Tables) (call : Call) : Prop :=
  Orderly t call ∧ call.forgets.all (fun m => t.operations.values.all (·.modelId ≠ m)) = true

instance (t : Tables) (call : Call) : Decidable (Steady t call) :=
  inferInstanceAs (Decidable (_ ∧ _))

section Runs

open Tables

variable {t : Tables}

theorem numbered_removeModelState (h : t.Numbered)
    (none : t.operations.values.all (·.modelId ≠ modelId) = true) :
    (t.removeModelState modelId).Numbered := by
  refine h.erase modelId (fun id o => ?_) rfl
  refine ⟨fun found => ⟨found, ?_⟩, fun found => found.1⟩
  simpa using List.all_eq_true.mp none o (mem_values_of_find? found)

theorem numbered_perform (h : t.Numbered) (single : t.Single) {call : Call} (steady : Steady t call)
    {reply : Reply} (ok : t.perform moment call = .ok (reply, u)) : u.Numbered := by
  cases perform_ok ok with
  | upsertRequestedModel | releaseRoutesForModel => exact h.frame ⟨rfl, rfl⟩
  | removeRequestedModel => exact numbered_removeRequestedModel h _
  | initializePlane done => exact numbered_initializePlane h done
  | ensureModel done => exact h.ensures (ensures_ensureModel done).1
  | setDesiredState done =>
    obtain ⟨s, v, ensures, found, rfl, _, _, same | ⟨_, generation, _⟩⟩ := setDesiredState_ok done
    · exact (h.ensures ensures).insert rfl rfl found (same ▸ .refl s)
    · exact (h.ensures ensures).insert rfl rfl found (.begins (by omega))
  | rearmAfterRuntimeChange done =>
    obtain ⟨s, v, ensures, found, _, rfl, _, _, generation⟩ := rearmAfterRuntimeChange_ok done
    exact (h.ensures ensures).insert rfl rfl found (.begins (by omega))
  | claimOperation done => exact numbered_claimOperation h single done
  | renewOperation | markCanary => exact numbered_updateOwned h _ fun _ => .keeps rfl rfl (.inl rfl)
  | markWaitingCapacity => exact h.update (Goes.of_eq rfl) fun _ => .keeps rfl rfl (.inr rfl)
  | adoptObservedState => exact h.update (Goes.of_eq rfl) fun _ => .keeps rfl rfl (.inl rfl)
  | completeOperation => exact numbered_completeOperation h single ..
  | failOperation => exact numbered_failOperation h single ..
  | prepareRoute done => exact h.frame (sameOperations_prepareRoute done)
  | @commitRoute reservationId _ _ done =>
    obtain ⟨r, _, ⟨_, rfl⟩ | ⟨_, _, rfl⟩⟩ := commitRoute_ok done
    · exact h
    · have same : t.SameOperations (t.commitReservation reservationId) := ⟨rfl, rfl⟩
      exact numbered_completeOperation (h.frame same) (single.frame same) ..
  | renewRoute => exact h.frame (sameOperations_renewRoute ..)
  | renewCommittedRoutesForModel => exact h.frame (sameOperations_renewRoutes ..)
  | removeModelState => exact numbered_removeModelState h steady.2

theorem numbered_step (t : Tables) (i : Moment × Call) (steady : Steady t i.2)
    (h : t.Single ∧ t.Numbered) : (step t i).1.Single ∧ (step t i).1.Numbered :=
  commit_invariant (P := fun t : Tables => t.Single ∧ t.Numbered) h fun _ _ ok =>
    ⟨single_perform h.1 steady.1 ok, numbered_perform h.2 h.1 steady ok⟩

/-- The caller holds the running operation of the model under a lease that has not run out. -/
def HeldBy (moment : Moment) (modelId : String) (t : Tables) : Prop :=
  ∃ s, t.states.find? modelId = some s ∧ (t.runningActive s).isSome = true ∧
    s.controllerOwner = some moment.owner ∧ moment.leaseHolds s = true

/-- An operation of the model's generation and of the kind, running or ended, has the next
attempt's number. -/
def AttemptTaken (modelId : String) (kind : OperationKind) (t : Tables) : Prop :=
  ∃ s id o, t.states.find? modelId = some s ∧ t.operations.find? id = some o ∧
    o.modelId = modelId ∧ o.generation = s.generation ∧ o.kind = kind ∧
    o.attempt = s.retryCount + 1

theorem requireModel_of_registered (registered : t.requestedModels.contains modelId = true) :
    ∃ s v, t.requireModel modelId = .ok (s, v) := by
  obtain ⟨autoActivate, found⟩ := Option.isSome_iff_exists.mp registered
  rw [requireModel, found]
  simp only [ensureModel]
  split
  · exact ⟨_, _, rfl⟩
  · rw [if_pos registered]
    exact ⟨_, _, rfl⟩

theorem insertOperation_iff (fresh : t.operations.find? (moment.newId "dop" 0) = none) :
    (∃ id o u, t.insertOperation moment modelId s kind leaseMs = .ok (some (id, o), u)) ↔
      ∀ id o, t.operations.find? id = some o →
        o.idempotencyKey ≠ idempotencyKey modelId s.generation kind (s.retryCount + 1) := by
  constructor
  · rintro ⟨_, _, u, done⟩ id o found key
    simp only [insertOperation, throw_bind, raise_eq_ok] at done
    exact done.1 (.inr ⟨o, mem_values_of_find? found, key⟩)
  · intro free
    have passes : ¬(t.operations.contains (moment.newId "dop" 0) = true ∨
        ∃ o ∈ t.operations.values, o.idempotencyKey =
          (newOperation modelId s kind).idempotencyKey) := by
      rintro (taken | ⟨o, mem, key⟩)
      · rw [Dict.contains, fresh] at taken
        cases taken
      · obtain ⟨id, found⟩ := exists_find?_of_mem_values mem
        exact free id o found key
    simp only [insertOperation, if_neg passes]
    exact ⟨_, _, _, rfl⟩

theorem interruptActive_keys (t : Tables) (s : DeploymentState) (id : String) :
    ((t.interruptActive s).operations.find? id).map (·.idempotencyKey) =
      (t.operations.find? id).map (·.idempotencyKey) := by
  unfold interruptActive
  split
  · rfl
  rw [finishOperationRow, find?_update, Option.map_map]
  congr 1
  funext o
  rw [Function.comp_apply]
  split <;> rfl

/-- The keys are those of the attempts, so the insertion goes through unless this one is taken. -/
theorem keys_free_iff (h : t.Numbered) (single : t.Single) (ensures : t.Ensures v)
    (found : v.states.find? modelId = some s) :
    (∀ id o, (v.interruptActive s).operations.find? id = some o →
      o.idempotencyKey ≠ idempotencyKey modelId s.generation kind (s.retryCount + 1)) ↔
    ¬AttemptTaken modelId kind t := by
  constructor
  · rintro free ⟨s', id, o, foundS, foundO, model, generation, ofKind, attempt⟩
    obtain rfl : s' = s := Option.mem_unique (ensures.states modelId s' foundS) found
    have keys := interruptActive_keys v s' id
    rw [ensures.operations, foundO, Option.map_some] at keys
    obtain ⟨q, foundQ, key⟩ := Option.map_eq_some_iff.mp keys
    refine free id q foundQ (key.trans ?_)
    rw [single.keyed id o foundO, model, generation, ofKind, attempt]
  · intro untaken id o foundO key
    have keys := interruptActive_keys v s id
    rw [foundO, ensures.operations, Option.map_some] at keys
    obtain ⟨q, foundQ, same⟩ := Option.map_eq_some_iff.mp keys.symm
    rw [← same, single.keyed id q foundQ] at key
    obtain ⟨rfl, generation, ofKind, attempt⟩ := idempotencyKey_inj key
    rcases ensures.fresh q.modelId s found with old | ⟨unknown, _⟩
    · exact untaken ⟨s, id, q, old, foundQ, rfl, generation, ofKind, attempt⟩
    · exact h.known id q foundQ unknown

theorem claimOperation_iff (h : t.Numbered) (single : t.Single)
    (registered : t.requestedModels.contains modelId = true)
    (unleased : ∀ s owner, t.states.find? modelId = some s → s.controllerOwner = some owner →
      owner ≠ moment.owner → moment.leaseHolds s = false)
    (fresh : t.operations.find? (moment.newId "dop" 0) = none) (leaseMs : Option ℚ) :
    (∃ id o u, t.claimOperation moment modelId kind leaseMs = .ok (some (id, o), u)) ↔
      HeldBy moment modelId t ∨ ¬AttemptTaken modelId kind t := by
  obtain ⟨s, v, required⟩ := requireModel_of_registered registered
  obtain ⟨ensures, found⟩ := ensures_requireModel required
  have old : ∀ owner, s.controllerOwner = some owner → t.states.find? modelId = some s := by
    intro owner named
    rcases ensures.fresh modelId s found with old | ⟨_, autoActivate, rfl⟩
    · exact old
    · cases named
  have active : v.runningActive s = t.runningActive s := by
    unfold runningActive activeOperation
    rw [ensures.operations]
  simp only [claimOperation, required, ok_bind]
  split
  · rename_i held
    obtain ⟨⟨id, o⟩, row⟩ := Option.isSome_iff_exists.mp held.1
    refine iff_of_true ⟨id, o, v, by rw [row]; rfl⟩ (.inl ⟨s, old _ held.2.1, ?_, held.2⟩)
    rw [← active, row]
    rfl
  rename_i notHeld
  have unheld : ¬HeldBy moment modelId t := by
    rintro ⟨s', foundS, running, held⟩
    obtain rfl : s' = s := Option.mem_unique (ensures.states modelId s' foundS) found
    exact notHeld ⟨active ▸ running, held⟩
  split
  · -- another controller would hold an unexpired lease
    rename_i refused
    obtain ⟨owner, named, others⟩ := (Option.any_eq_true _ _).mp refused.1
    have expired := unleased s owner (old owner named) named (of_decide_eq_true others).2
    rw [refused.2] at expired
    cases expired
  · have stillFresh : (v.interruptActive s).operations.find? (moment.newId "dop" 0) = none := by
      rw [← Option.map_eq_none_iff, interruptActive_keys, ensures.operations, fresh]
      rfl
    rw [((single.ensures ensures).interruptActive found).runningWithKey]
    simp only [insertOperation_iff stillFresh, keys_free_iff h single ensures found, unheld,
      false_or]

/-- While operations and states stay together, a claim on a model that no other controller holds
returns an operation exactly if the next attempt is untaken or the caller holds the running one. -/
theorem due_operation_claimed (calls : List (Moment × Call))
    (steady : ∀ x ∈ trace step empty calls, Steady x.pre x.input.2) (moment : Moment)
    (modelId : String) (kind : OperationKind) (leaseMs : Option ℚ)
    (registered : (final step empty calls).requestedModels.contains modelId = true)
    (unleased : ∀ s owner, (final step empty calls).states.find? modelId = some s →
      s.controllerOwner = some owner → owner ≠ moment.owner → moment.leaseHolds s = false)
    (fresh : (final step empty calls).operations.find? (moment.newId "dop" 0) = none) :
    (∃ id o, (step (final step empty calls) (moment, .claimOperation modelId kind leaseMs)).2 =
      .ok (.operation (some (id, o)))) ↔
    HeldBy moment modelId (final step empty calls) ∨
      ¬AttemptTaken modelId kind (final step empty calls) := by
  obtain ⟨single, numbered⟩ :=
    final_invariant_of numbered_step ⟨single_empty, numbered_empty⟩ steady
  rw [← claimOperation_iff numbered single registered unleased fresh leaseMs]
  refine exists_congr fun id => exists_congr fun o => ?_
  rw [step, commit, perform]
  rcases (final step empty calls).claimOperation moment modelId kind leaseMs with _ | ⟨row, u⟩
  · simp [Except.map]
  · simp [Except.map]

def degraded : List (Moment × Call) :=
  [(.of "coordinator" 0 "a", .upsertRequestedModel "model" true),
    (.of "coordinator" 1 "b", .claimOperation "model" .activate none),
    (.of "coordinator" 2 "c", .completeOperation "dop_b0" .active),
    (.of "coordinator" 3 "d", .adoptObservedState "model" .degraded)]

def restarted : List (Moment × Call) :=
  [(.of "coordinator" 0 "a", .upsertRequestedModel "model" true),
    (.of "coordinator" 1 "b", .claimOperation "model" .activate none),
    (.of "coordinator" 2 "c", .initializePlane)]

def expired : List (Moment × Call) :=
  [(.of "coordinator" 0 "a", .upsertRequestedModel "model" true),
    (.of "coordinator" 1 "b", .claimOperation "model" .activate (some 1000))]

def refused (calls : List (Moment × Call)) : Bool :=
  (final step empty calls).requestedModels.contains "model" &&
    (((final step empty calls).states.find? "model").all fun s =>
      ¬(Moment.of "other" 5000 "z").leaseHolds s) &&
    (step (final step empty calls)
      (.of "other" 5000 "z", .claimOperation "model" .activate none)).2 = .error .constraint

theorem claim_violates_uniqueness : refused degraded ∧ refused restarted ∧ refused expired := by
  decide +kernel

def failedTwice : List (Moment × Call) :=
  [(.of "coordinator" 0 "a", .upsertRequestedModel "model" true),
    (.of "coordinator" 1 "b", .claimOperation "model" .activate none),
    (.of "coordinator" 2 "c", .failOperation "dop_b0" "code" "message" none),
    (.of "coordinator" 3 "d", .claimOperation "model" .activate none),
    (.of "coordinator" 4 "e", .failOperation "dop_d0" "code" "message" (some 9))]

theorem failedTwice_claimed :
    (∃ id o, (step (final step empty failedTwice)
      (.of "other" 9 "z", .claimOperation "model" .activate none)).2 =
        .ok (.operation (some (id, o)))) ∧
    ¬AttemptTaken "model" .activate (final step empty failedTwice) := by
  have counted : ((final step empty failedTwice).states.find? "model").map
      (fun s => (s.controllerOwner, s.retryCount)) = some (none, 2) := by decide +kernel
  have attempts : ∀ o ∈ (final step empty failedTwice).operations.values, o.attempt ≤ 2 := by
    decide +kernel
  have untaken : ¬AttemptTaken "model" .activate (final step empty failedTwice) := by
    rintro ⟨s, id, o, found, foundO, _, _, _, attempt⟩
    rw [found, Option.map_some, Option.some_inj, Prod.mk.injEq] at counted
    have := attempts o (mem_values_of_find? foundO)
    omega
  have unleased : ∀ s owner, (final step empty failedTwice).states.find? "model" = some s →
      s.controllerOwner = some owner → owner ≠ "other" →
      (Moment.of "other" 9 "z").leaseHolds s = false := by
    intro s owner found named _
    rw [found, Option.map_some, Option.some_inj, Prod.mk.injEq, named] at counted
    cases counted.1
  exact ⟨(due_operation_claimed failedTwice (by decide +kernel) _ "model" .activate none
    (by decide +kernel) unleased (by decide +kernel)).mpr (.inr untaken), untaken⟩

theorem attempts_numbered (calls : List (Moment × Call))
    (steady : ∀ x ∈ trace step empty calls, Steady x.pre x.input.2) :
    (final step empty calls).Numbered :=
  (final_invariant_of numbered_step ⟨single_empty, numbered_empty⟩ steady).2

theorem failedTwice_numbered :
    ((final step empty failedTwice).operations.values.map (·.attempt)) = [1, 2] ∧
      (final step empty failedTwice).Numbered :=
  ⟨by decide +kernel, attempts_numbered failedTwice (by decide +kernel)⟩

end Runs

end Mycellios.Deployment
