import Mycellios.Deployment.Operations

namespace Mycellios.Deployment

open Data Dict Logic

variable {made : String × RouteReservation} {o o' : DeploymentOperation} {id : String}
  {t u v : Tables} {moment : Moment} {modelId operationId : String} {s : DeploymentState}

namespace Tables

section Reservations

/-- Reservations stay with their operations, and what is live was so before. -/
def Settles (t u : Tables) : Prop :=
  ∀ id r', u.reservations.find? id = some r' → ∃ r, t.reservations.find? id = some r ∧
    r'.operationId = r.operationId ∧ (r'.status.live = true → r'.status = r.status)

theorem Settles.of_eq (same : u.reservations = t.reservations) : t.Settles u := by
  intro id r found
  rw [same] at found
  exact ⟨r, found, rfl, fun _ => rfl⟩

theorem Settles.trans (first : t.Settles u) (second : u.Settles v) : t.Settles v := by
  intro id r'' found
  obtain ⟨r', found', operation', live'⟩ := second id r'' found
  obtain ⟨r, found, operation, live⟩ := first id r' found'
  exact ⟨r, found, operation'.trans operation, fun h => (live' h).trans (live (live' h ▸ h))⟩

theorem settles_update {which : String → RouteReservation → Bool}
    {set : RouteReservation → RouteReservation} {leases : Dict String StageLease}
    (operation : ∀ r, (set r).operationId = r.operationId)
    (status : ∀ r, (set r).status = r.status ∨ (set r).status.live = false) :
    t.Settles { t with reservations := t.reservations.update which set, leases := leases } := by
  intro id r' found
  obtain ⟨r, earlier, rfl⟩ := find?_update_eq_some.mp found
  refine ⟨r, earlier, ?_⟩
  split
  · refine ⟨operation r, fun live => (status r).resolve_right ?_⟩
    rw [live]
    simp
  · exact ⟨rfl, fun _ => rfl⟩

theorem settles_expireReservations (now : ℚ) : t.Settles (t.expireReservations now).2 := by
  simp only [expireReservations]
  split
  · exact Settles.of_eq rfl
  · exact settles_update (fun _ => rfl) fun _ => .inr rfl

theorem settles_renewRoute (reservationId : String) (ttlMs : Option ℚ) :
    t.Settles (t.renewRoute moment reservationId ttlMs).2 := by
  simp only [renewRoute]
  split
  · exact Settles.of_eq rfl
  · exact settles_update (fun _ => rfl) fun _ => .inl rfl

theorem settles_renewRoutes (ids : List String) (ttlMs : Option ℚ) :
    t.Settles (renewRoutes moment ttlMs ids t).2 := by
  induction ids generalizing t with
  | nil => exact Settles.of_eq rfl
  | cons id ids ih => exact (settles_renewRoute id ttlMs).trans ih

theorem settles_releaseRoutesForModel (modelId : String) :
    t.Settles (t.releaseRoutesForModel modelId).2 :=
  settles_update (fun _ => rfl) fun _ => .inr rfl

theorem settles_failOperation (operationId errorCode errorMessage : String) (retryAt : Option ℚ) :
    t.Settles (t.failOperation operationId errorCode errorMessage retryAt).2 := by
  unfold failOperation
  split
  · exact Settles.of_eq rfl
  · exact settles_update (fun _ => rfl) fun _ => .inr rfl

theorem settles_removeRequestedModel (modelId : String) :
    t.Settles (t.removeRequestedModel modelId).2 := by
  unfold removeRequestedModel
  split
  · exact fun id r found => ⟨r, (find?_filter_eq_some.mp found).1, rfl, fun _ => rfl⟩
  · exact Settles.of_eq rfl

theorem expireReservations_reservations (t : Tables) (now : ℚ) :
    (t.expireReservations now).2.reservations = t.reservations.update
      (fun _ r => r.status.live ∧ r.expiresAt ≤ now) fun r => { r with status := .expired } := by
  simp only [expireReservations]
  split
  · rename_i none
    exact (update_eq_self none).symm
  · rfl

theorem initializePlane_reservations (ok : t.initializePlane moment = .ok (result, u)) :
    u.reservations = (t.expireReservations moment.now).2.reservations := by
  simp only [initializePlane, bind_eq_ok] at ok
  obtain ⟨v, ensured, done⟩ := ok
  obtain ⟨_, rfl⟩ := ok_inj done
  rw [expireReservations_reservations, expireReservations_reservations,
    ← (sameRoutes_ensureModels ensured).1]
  split <;> rfl

end Reservations

section Operations

theorem completeOperation_find? (running : t.runningOperation operationId = some o)
    (observedState : ObservedState) (id : String) :
    (t.completeOperation operationId observedState).2.operations.find? id =
      if id = operationId then some { o with status := .succeeded } else t.operations.find? id := by
  obtain ⟨found, status⟩ := runningOperation_eq_some.mp running
  rw [completeOperation, running]
  simp only [settleState, succeedOperationRow, find?_update]
  by_cases here : id = operationId
  · simp [here, found, status]
  · cases t.operations.find? id <;> simp [here]

theorem completeOperation_of_not_running (none : t.runningOperation operationId = none)
    (observedState : ObservedState) : (t.completeOperation operationId observedState).2 = t := by
  rw [completeOperation, none]

theorem completeOperation_self (found : t.operations.find? operationId = some o)
    (observedState : ObservedState) :
    ∃ o', (t.completeOperation operationId observedState).2.operations.find? operationId = some o' ∧
      o'.status = if o.status = .running then .succeeded else o.status := by
  by_cases running : o.status = .running
  · refine ⟨{ o with status := .succeeded }, ?_, (if_pos running).symm⟩
    rw [completeOperation_find? (runningOperation_eq_some.mpr ⟨found, running⟩), if_pos rfl]
  · refine ⟨o, ?_, (if_neg running).symm⟩
    rw [completeOperation_of_not_running (by simp [runningOperation, found, running])]
    exact found

theorem completeOperation_commitReservation (reservationId operationId : String)
    (observedState : ObservedState) :
    ((t.commitReservation reservationId).completeOperation operationId observedState).2.states =
      (t.completeOperation operationId observedState).2.states ∧
    ((t.commitReservation reservationId).completeOperation operationId observedState).2.operations =
      (t.completeOperation operationId observedState).2.operations := by
  have same : (t.commitReservation reservationId).runningOperation operationId =
    t.runningOperation operationId := rfl
  rw [completeOperation, completeOperation, same]
  split <;> exact ⟨rfl, rfl⟩

/-- The lease on a model keeps a claim from interrupting its operation. -/
def fencedBy (moment : Moment) (s : DeploymentState) : Bool :=
  moment.leaseHolds s ∧ s.controllerOwner.any fun owner => owner = moment.owner ∨ owner ≠ ""

theorem Open.not_fencedBy (open_ : Open moment t s) (running : (t.runningActive s).isSome = true) :
    fencedBy moment s = false := by
  by_contra fenced
  obtain ⟨lease, owner⟩ : moment.leaseHolds s = true ∧
      s.controllerOwner.any (fun owner => owner = moment.owner ∨ owner ≠ "") = true := by
    simpa [fencedBy] using fenced
  cases named : s.controllerOwner with
  | none => simp [named] at owner
  | some controller =>
    by_cases mine : controller = moment.owner
    · exact open_.not_held ⟨running, by rw [named, mine], lease⟩
    · refine open_.not_refused ⟨?_, lease⟩
      simpa [named, mine] using owner

theorem active_of_runningActive {row : String × DeploymentOperation}
    (running : t.runningActive s = some row) : s.activeOperationId = some row.1 := by
  rw [runningActive, Option.filter_eq_some_iff, activeOperation] at running
  split at running
  · cases running.1
  rename_i named
  split at running
  · cases running.1
  · obtain ⟨_, _, rfl⟩ := Option.map_eq_some_iff.mp running.1
    exact named

theorem interruptActive_ne_none (found : t.operations.find? id ≠ none) :
    (t.interruptActive s).operations.find? id ≠ none := by
  unfold interruptActive
  split
  · exact found
  · exact find?_update_ne_none found

theorem completeOperation_ne_none (found : t.operations.find? id ≠ none) :
    (t.completeOperation operationId observedState).2.operations.find? id ≠ none := by
  unfold completeOperation
  split
  · exact found
  · exact find?_update_ne_none found

theorem claimOperation_ne_none (ok : t.claimOperation moment modelId kind leaseMs = .ok (row, u))
    (found : t.operations.find? id ≠ none) : u.operations.find? id ≠ none := by
  obtain ⟨s, v, ensures, _, cases_⟩ := claimOperation_ok ok
  rw [← ensures.operations] at found
  rcases cases_ with ⟨_, _, _, _, rfl⟩ | ⟨_, rfl⟩ | ⟨_, _, _, rfl⟩ | ⟨_, started⟩
  · exact found
  · exact found
  · exact interruptActive_ne_none found
  · obtain ⟨_, _, _, _, operations, _⟩ := insertOperation_ok started
    rw [operations, find?_insert]
    split
    · simp
    · exact interruptActive_ne_none found

end Operations

end Tables

open Tables

section Advances

/-- The operations a call may end, and how. -/
def Call.Ends (t : Tables) (moment : Moment) : Call → String → OperationStatus → Prop
  | .initializePlane, _, status => status = .interrupted
  | .claimOperation modelId _ _, id, status => status = .interrupted ∧
    ∃ s, t.states.find? modelId = some s ∧ s.activeOperationId = some id ∧ fencedBy moment s = false
  | .completeOperation operationId _, id, status => status = .succeeded ∧ id = operationId
  | .failOperation operationId _ _ _, id, status => status = .failed ∧ id = operationId
  | .commitRoute reservationId, id, status => status = .succeeded ∧
    ∃ r, t.reservations.find? reservationId = some r ∧ r.status = .prepared ∧ r.operationId = id
  | _, _, _ => False

variable {call : Call} {status : OperationStatus}

theorem Call.Ends.finished (ends : call.Ends t moment id status) : status.unfinished = false := by
  cases call with
  | initializePlane => exact ends ▸ rfl
  | claimOperation | completeOperation | failOperation | commitRoute => exact ends.1 ▸ rfl
  | _ => exact ends.elim

structure Tables.Continues (t u : Tables) (ends : String → OperationStatus → Prop) : Prop where
  generation : ∀ id o o', t.operations.find? id = some o → u.operations.find? id = some o' →
    o'.generation = o.generation ∧ o'.modelId = o.modelId
  status : ∀ id o o', t.operations.find? id = some o → u.operations.find? id = some o' →
    o'.status = o.status ∨ o.status.unfinished = true ∧ ends id o'.status

variable {may : String → OperationStatus → Prop}

theorem Tables.Continues.of_eq (same : u.operations = t.operations) : t.Continues u may := by
  constructor
  · intro id o o' found found'
    rw [same, found] at found'
    cases found'
    exact ⟨rfl, rfl⟩
  intro id o o' found found'
  rw [same, found] at found'
  cases found'
  exact .inl rfl

theorem Tables.Continues.ends {which : String → DeploymentOperation → Bool}
    {set : DeploymentOperation → DeploymentOperation} (ended : Tables.Ends which set)
    (hits : ∀ id o, which id o = true → o.status.unfinished = true ∧ may id (set o).status)
    (rows : u.operations = t.operations.update which set) : t.Continues u may := by
  constructor
  · intro id o o' found found'
    obtain ⟨q, foundQ, rfl⟩ := find?_update_eq_some.mp (rows ▸ found')
    obtain rfl := Option.mem_unique found foundQ
    split
    · exact ⟨ended.generation o, ended.model o⟩
    · exact ⟨rfl, rfl⟩
  · intro id o o' found found'
    obtain ⟨q, foundQ, rfl⟩ := find?_update_eq_some.mp (rows ▸ found')
    obtain rfl := Option.mem_unique found foundQ
    split
    · rename_i hit
      exact .inr (hits id o hit)
    · exact .inl rfl

theorem Tables.Continues.grows (h : t.Continues u may)
    (rows : ∀ id o', t.operations.find? id ≠ none → v.operations.find? id = some o' →
      u.operations.find? id = some o') : t.Continues v may where
  generation id o o' found found' :=
    h.generation id o o' found (rows id o' (by simp [found]) found')
  status id o o' found found' := h.status id o o' found (rows id o' (by simp [found]) found')

theorem continues_completeOperation (operationId : String) (observedState : ObservedState)
    (succeeds : may operationId .succeeded) :
    t.Continues (t.completeOperation operationId observedState).2 may := by
  unfold completeOperation
  split
  · exact .of_eq rfl
  refine .ends (ends_succeedOperationRow operationId) (fun id o hit => ?_) rfl
  obtain ⟨rfl, running⟩ := of_decide_eq_true hit
  exact ⟨by rw [running]; rfl, succeeds⟩

theorem continues_finishOperationRow (operationId errorCode errorMessage : String)
    (finished : status.unfinished = false) (ends : may operationId status)
    (rows : u.operations =
      (t.finishOperationRow operationId status errorCode errorMessage).operations) :
    t.Continues u may := by
  refine .ends (ends_finishOperationRow operationId status errorCode errorMessage ?_) ?_ rows
  · rintro rfl
    cases finished
  · intro id o hit
    obtain ⟨rfl, unfinished⟩ := of_decide_eq_true hit
    exact ⟨unfinished, ends⟩

theorem continues_claimOperation
    (ok : t.claimOperation moment modelId kind leaseMs = .ok (row, u)) :
    t.Continues u ((Call.claimOperation modelId kind leaseMs).Ends t moment) := by
  obtain ⟨s, v, ensures, found, cases_⟩ := claimOperation_ok ok
  have interrupted : Open moment v s → t.Continues (v.interruptActive s)
      ((Call.claimOperation modelId kind leaseMs).Ends t moment) := by
    intro open_
    have inner : v.Continues (v.interruptActive s)
        ((Call.claimOperation modelId kind leaseMs).Ends t moment) := by
      unfold interruptActive
      split
      · exact .of_eq rfl
      rename_i running
      have active := active_of_runningActive running
      refine continues_finishOperationRow _ _ _ rfl ⟨rfl, s, ?_, active, ?_⟩ rfl
      · rcases ensures.fresh modelId s found with old | ⟨_, autoActivate, rfl⟩
        · exact old
        · cases active
      · exact open_.not_fencedBy (by rw [running]; rfl)
    obtain ⟨generation, status⟩ := inner
    rw [ensures.operations] at generation status
    exact ⟨generation, status⟩
  rcases cases_ with ⟨_, _, _, _, rfl⟩ | ⟨_, rfl⟩ | ⟨open_, _, _, rfl⟩ | ⟨open_, started⟩
  · exact .of_eq ensures.operations
  · exact .of_eq ensures.operations
  · exact interrupted open_
  · obtain ⟨key, _, fresh, _, operations, _⟩ := insertOperation_ok started
    refine (interrupted open_).grows fun id o' some_ found' => ?_
    rcases of_find?_insert (operations ▸ found') with ⟨rfl, -⟩ | ⟨-, found'⟩
    · -- the interrupted row is still there, so its id is not fresh
      exact absurd fresh (interruptActive_ne_none (by rw [ensures.operations]; exact some_))
    · exact found'

/-- What a call may change, whoever makes it and whenever. -/
structure Advances (moment : Moment) (call : Call) (t u : Tables) : Prop where
  operations : t.Continues u (call.Ends t moment)
  /-- An operation is deleted only with the reservations under it. -/
  kept : ∀ id r, u.reservations.find? id = some r → t.operations.find? r.operationId ≠ none →
    u.operations.find? r.operationId ≠ none
  /-- A reservation is made for a running operation and stays with it. Only `commitRoute` commits
  it, which lets a running operation succeed, and one that is no longer live stays so. -/
  reservations : ∀ id r', u.reservations.find? id = some r' →
    (∃ r, t.reservations.find? id = some r ∧ r'.operationId = r.operationId ∧
      (r'.status.live = true → r'.status = r.status ∨
        call = .commitRoute id ∧ r.status = .prepared ∧ r'.status = .committed ∧
        ∀ o, t.operations.find? r.operationId = some o →
          ∃ o', u.operations.find? r.operationId = some o' ∧
            o'.status = if o.status = .running then .succeeded else o.status)) ∨
    t.reservations.find? id = none ∧ r'.status = .prepared ∧
      (∃ stages ttlMs, call = .prepareRoute r'.operationId stages ttlMs) ∧
      ∃ o, t.runningOperation r'.operationId = some o

theorem Advances.of (continues : t.Continues u (call.Ends t moment)) (settles : t.Settles u)
    (kept : ∀ id r, u.reservations.find? id = some r → t.operations.find? r.operationId ≠ none →
      u.operations.find? r.operationId ≠ none) : Advances moment call t u := by
  refine ⟨continues, kept, fun id r' found => .inl ?_⟩
  obtain ⟨r, foundR, operation, live⟩ := settles id r' found
  exact ⟨r, foundR, operation, fun h => .inl (live h)⟩

theorem Advances.routes (settles : t.Settles u) (operations : u.operations = t.operations) :
    Advances moment call t u :=
  .of (.of_eq operations) settles fun _ _ _ stored => by rw [operations]; exact stored

theorem advances_commitRoute (ok : t.commitRoute moment reservationId = .ok (made, u)) :
    Advances moment (.commitRoute reservationId) t u := by
  obtain ⟨r, found, ⟨_, rfl⟩ | ⟨prepared, _, rfl⟩⟩ := commitRoute_ok ok
  · exact .routes (.of_eq rfl) rfl
  have rows := (completeOperation_commitReservation (t := t) reservationId r.operationId .active).2
  have continues : t.Continues _ ((Call.commitRoute reservationId).Ends t moment) :=
    continues_completeOperation r.operationId .active ⟨rfl, r, found, prepared, rfl⟩
  refine ⟨continues.grows fun id o' _ found' => rows ▸ found',
    fun _ _ _ => completeOperation_ne_none (t := t.commitReservation reservationId),
    fun id r' found' => .inl ?_⟩
  rw [(sameRoutes_completeOperation _ _).1] at found'
  obtain ⟨q, foundQ, rfl⟩ := find?_update_eq_some.mp found'
  refine ⟨q, foundQ, ?_⟩
  by_cases hit : id = reservationId ∧ q.status = .prepared
  · rw [if_pos (by simpa using hit)]
    obtain ⟨rfl, _⟩ := hit
    obtain rfl := Option.mem_unique found foundQ
    exact ⟨rfl, fun _ => .inr ⟨rfl, prepared, rfl, fun o foundO =>
      completeOperation_self (t := t.commitReservation id) foundO .active⟩⟩
  · rw [if_neg (by simpa using hit)]
    exact ⟨rfl, fun _ => .inl rfl⟩

theorem advances_prepareRoute
    (ok : t.prepareRoute moment operationId stages ttlMs = .ok (made, u)) :
    Advances moment (.prepareRoute operationId stages ttlMs) t u := by
  have same := (sameOperations_prepareRoute ok).2
  obtain ⟨operation, _, running, _, _, inserted⟩ := prepareRoute_ok ok
  obtain ⟨key, fresh, reservations, _⟩ := insertRoute_ok inserted
  refine ⟨.of_eq same, fun _ _ _ stored => by rw [same]; exact stored, fun id r' found => ?_⟩
  rcases of_find?_insert (reservations ▸ found) with ⟨rfl, rfl⟩ | ⟨-, found⟩
  · rw [expireReservations_reservations, find?_update, Option.map_eq_none_iff] at fresh
    refine .inr ⟨fresh, rfl, ⟨stages, ttlMs, rfl⟩, operation, ?_⟩
    rw [runningOperation, (sameOperations_expireReservations _).2] at running
    exact running
  · obtain ⟨r, foundR, operation, live⟩ := settles_expireReservations moment.now id r' found
    exact .inl ⟨r, foundR, operation, fun h => .inl (live h)⟩

theorem advances_updateOwned (operationId : String) (set : DeploymentState → DeploymentState) :
    Advances moment call t (t.updateOwned moment operationId set).2 := by
  unfold updateOwned
  split <;> exact .routes (.of_eq rfl) rfl

theorem advances_perform (ok : t.perform moment call = .ok (reply, u)) :
    Advances moment call t u := by
  cases perform_ok ok with
  | upsertRequestedModel | markWaitingCapacity | adoptObservedState =>
    exact .routes (.of_eq rfl) rfl
  | removeRequestedModel =>
    refine .of ?_ (settles_removeRequestedModel _) ?_ <;> unfold removeRequestedModel <;> split
    · exact (Continues.of_eq rfl).grows fun id o' _ found => (find?_filter_eq_some.mp found).1
    · exact .of_eq rfl
    · intro id r found _
      obtain ⟨_, kept⟩ := find?_filter_eq_some.mp found
      exact Option.isSome_iff_ne_none.mp (of_decide_eq_true kept).2
    · exact fun _ _ _ stored => stored
  | initializePlane done =>
    have rows := initializePlane_operations done
    refine .of (.ends ends_interruptAll (fun _ _ hit => ⟨hit, rfl⟩) rows) ?_ fun _ _ _ stored => ?_
    · exact (settles_expireReservations _).trans (.of_eq (initializePlane_reservations done))
    · rw [rows]
      exact find?_update_ne_none stored
  | ensureModel done =>
    exact .routes (.of_eq (sameRoutes_ensureModel done).1) (ensures_ensureModel done).1.operations
  | setDesiredState done =>
    have routes := (sameRoutes_setDesiredState done).1
    obtain ⟨s, v, ensures, _, rfl, _⟩ := setDesiredState_ok done
    exact .routes (.of_eq routes) ensures.operations
  | rearmAfterRuntimeChange done =>
    have routes := (sameRoutes_rearmAfterRuntimeChange done).1
    obtain ⟨s, v, ensures, _, _, rfl, _⟩ := rearmAfterRuntimeChange_ok done
    exact .routes (.of_eq routes) ensures.operations
  | claimOperation done =>
    exact .of (continues_claimOperation done) (.of_eq (sameRoutes_claimOperation done).1)
      fun _ _ _ => claimOperation_ne_none done
  | renewOperation | markCanary => exact advances_updateOwned ..
  | completeOperation =>
    exact .of (continues_completeOperation _ _ ⟨rfl, rfl⟩)
      (.of_eq (sameRoutes_completeOperation ..).1) fun _ _ _ => completeOperation_ne_none
  | failOperation =>
    refine .of ?_ (settles_failOperation _ _ _ _) ?_ <;> unfold failOperation <;> split
    · exact .of_eq rfl
    · exact continues_finishOperationRow _ _ _ rfl ⟨rfl, rfl⟩ rfl
    · exact fun _ _ _ stored => stored
    · exact fun _ _ _ stored => find?_update_ne_none stored
  | prepareRoute done => exact advances_prepareRoute done
  | commitRoute done => exact advances_commitRoute done
  | renewRoute => exact .routes (settles_renewRoute _ _) (sameOperations_renewRoute ..).2
  | renewCommittedRoutesForModel =>
    exact .routes (settles_renewRoutes _ _) (sameOperations_renewRoutes ..).2
  | releaseRoutesForModel | removeModelState =>
    exact .routes (settles_releaseRoutesForModel _) rfl

theorem advances_step (t : Tables) (i : Moment × Call) : Advances i.1 i.2 t (step t i).1 :=
  commit_invariant (P := Advances i.1 i.2 t) (.routes (.of_eq rfl) rfl) fun _ _ => advances_perform

/-- Whoever makes the calls, a reservation has its operation, which no longer runs once it is
committed. -/
structure Owned (t : Tables) : Prop where
  stored : ∀ id r, t.reservations.find? id = some r → t.operations.find? r.operationId ≠ none
  ended : ∀ id r o, t.reservations.find? id = some r → r.status = .committed →
    t.operations.find? r.operationId = some o → o.status ≠ .running

theorem owned_step (t : Tables) (i : Moment × Call) (h : Owned t) : Owned (step t i).1 := by
  have advances := advances_step t i
  constructor
  · intro id r' found
    refine advances.kept id r' found ?_
    rcases advances.reservations id r' found with ⟨r, foundR, operation, _⟩ | ⟨_, _, _, o, running⟩
    · rw [operation]
      exact h.stored id r foundR
    · simp [(runningOperation_eq_some.mp running).1]
  intro id r' o' found committed foundO' running
  rcases advances.reservations id r' found with ⟨r, foundR, operation, live⟩ | ⟨_, prepared, _⟩
  · rw [operation] at foundO'
    obtain ⟨o, foundO⟩ := Option.ne_none_iff_exists'.mp (h.stored id r foundR)
    rcases live (by rw [committed]; rfl) with same | ⟨_, _, _, after⟩
    · rcases advances.operations.status _ o o' foundO foundO' with status | ⟨_, ends⟩
      · exact h.ended id r o foundR (same ▸ committed) foundO (status ▸ running)
      · rw [running] at ends
        cases ends.finished
    · obtain ⟨_, found, status⟩ := after o foundO
      obtain rfl := Option.mem_unique found foundO'
      rw [running] at status
      split at status
      · cases status
      · rename_i stopped
        exact stopped status.symm
  · rw [committed] at prepared
    cases prepared

/-- Operations and reservations only move forward, in any order of calls of any controllers. -/
theorem reservations_owned (calls : List (Moment × Call)) :
    Owned (final step empty calls) ∧
      ∀ x ∈ trace step empty calls, Advances x.input.1 x.input.2 x.pre x.post := by
  constructor
  · refine final_invariant owned_step ⟨?_, ?_⟩ calls
    · intro _ _ found
      cases found
    · intro _ _ _ found
      cases found
  · intro x mem
    obtain ⟨_, _, _, _, _, post⟩ := mem_trace mem
    rw [post]
    exact advances_step x.pre x.input

end Advances

section Guarded

/-- A prepared route waits alone for its running operation; a committed one has seen it succeed. -/
structure Tables.Guarded (t : Tables) : Prop where
  prepared : ∀ id r, t.reservations.find? id = some r → r.status = .prepared →
    ∃ o, t.operations.find? r.operationId = some o ∧ o.status = .running
  committed : ∀ id r, t.reservations.find? id = some r → r.status = .committed →
    ∃ o, t.operations.find? r.operationId = some o ∧ o.status = .succeeded
  alone : ∀ id r id' r', t.reservations.find? id = some r → t.reservations.find? id' = some r' →
    r.status = .prepared → r'.status = .prepared → r.operationId = r'.operationId → id = id'

theorem guarded_empty : Guarded empty where
  prepared _ _ found := by cases found
  committed _ _ found := by cases found
  alone _ _ _ _ found := by cases found

def Tables.preparing (t : Tables) (operationId : String) : Bool :=
  t.reservations.values.any fun r => r.operationId = operationId ∧ r.status = .prepared

theorem not_preparing (h : t.preparing operationId = false)
    (found : t.reservations.find? id = some r) (under : r.operationId = operationId) :
    r.status ≠ .prepared := by
  intro prepared
  have none := List.any_eq_false.mp h r (mem_values_of_find? found)
  simp [under, prepared] at none

/-- No operation ends while a route waits under it, except by failing or by that route, and the
desired state changes only between operations. -/
def SparesPrepared (t : Tables) (moment : Moment) : Call → Bool
  | .initializePlane =>
    (t.expireReservations moment.now).2.reservations.values.all (·.status ≠ .prepared)
  | .setDesiredState modelId desiredState =>
    (t.states.find? modelId).all fun s => s.activeOperationId = none ∨ s.desiredState = desiredState
  | .claimOperation modelId _ _ =>
    (t.states.find? modelId).all fun s => fencedBy moment s ∨
      s.activeOperationId.all (¬t.preparing ·)
  | .completeOperation operationId _ => ¬t.preparing operationId
  | .prepareRoute operationId _ _ => ¬(t.expireReservations moment.now).2.preparing operationId
  | _ => true

variable {call : Call}

theorem Tables.Guarded.not_ends (h : t.Guarded) (quiet : SparesPrepared t moment call = true)
    (ok : t.perform moment call = .ok (reply, u)) (found : u.reservations.find? id = some r')
    (prepared : r'.status = .prepared) (foundR : t.reservations.find? id = some r)
    (before : r.status = .prepared) (running : t.runningOperation r.operationId = some o) :
    ¬call.Ends t moment r.operationId status := by
  intro ends
  cases perform_ok ok with
  | initializePlane done =>
    rw [initializePlane_reservations done] at found
    have none := List.all_eq_true.mp quiet r' (mem_values_of_find? found)
    simp [prepared] at none
  | claimOperation =>
    obtain ⟨_, s, foundS, active, unfenced⟩ := ends
    have none : t.preparing r.operationId = false := by
      simpa [SparesPrepared, foundS, active, unfenced] using quiet
    exact not_preparing none foundR rfl before
  | completeOperation =>
    exact not_preparing (by simpa [SparesPrepared] using quiet) foundR ends.2 before
  | failOperation =>
    obtain ⟨_, rfl⟩ := ends
    rw [failOperation, running] at found
    obtain ⟨q, foundQ, rfl⟩ := find?_update_eq_some.mp found
    obtain rfl := Option.mem_unique foundR foundQ
    simp [before] at prepared
  | commitRoute done =>
    -- the reservation is the one committed, since it was alone
    obtain ⟨_, q, foundQ, preparedQ, same⟩ := ends
    obtain rfl := h.alone _ q id r foundQ foundR preparedQ before same
    obtain ⟨q, foundQ, ⟨committed, _⟩ | ⟨_, _, rfl⟩⟩ := commitRoute_ok done
    · obtain rfl := Option.mem_unique foundR foundQ
      rw [before] at committed
      cases committed
    · rw [(sameRoutes_completeOperation _ _).1] at found
      obtain ⟨q, foundQ, rfl⟩ := find?_update_eq_some.mp found
      obtain rfl := Option.mem_unique foundR foundQ
      simp [before] at prepared
  | _ => exact ends

theorem alone_of_fresh (quiet : SparesPrepared t moment call = true)
    (ok : t.perform moment call = .ok (reply, u)) (found : u.reservations.find? id = some r)
    (fresh : t.reservations.find? id = none)
    (made : ∃ stages ttlMs, call = .prepareRoute r.operationId stages ttlMs)
    (found' : u.reservations.find? id' = some r') (prepared' : r'.status = .prepared)
    (same : r.operationId = r'.operationId) : id = id' := by
  obtain ⟨stages, ttlMs, rfl⟩ := made
  obtain ⟨_, done, _⟩ := reply_eq_ok ok
  obtain ⟨operation, _, _, _, _, inserted⟩ := prepareRoute_ok done
  obtain ⟨key, _, reservations, _⟩ := insertRoute_ok inserted
  rw [reservations] at found found'
  rcases of_find?_insert found with ⟨rfl, _⟩ | ⟨_, old⟩
  · rcases of_find?_insert found' with ⟨here, _⟩ | ⟨_, old'⟩
    · exact here
    · exact absurd prepared' (not_preparing (by simpa [SparesPrepared] using quiet) old' same.symm)
  · obtain ⟨_, old, _⟩ := settles_expireReservations moment.now id r old
    rw [fresh] at old
    cases old

theorem Advances.prepared (h : Advances moment call t u) (found : u.reservations.find? id = some r')
    (prepared : r'.status = .prepared) :
    (∃ r, t.reservations.find? id = some r ∧ r'.operationId = r.operationId ∧
      r.status = .prepared) ∨ t.reservations.find? id = none ∧
        (∃ stages ttlMs, call = .prepareRoute r'.operationId stages ttlMs) ∧
        ∃ o, t.runningOperation r'.operationId = some o := by
  rcases h.reservations id r' found with ⟨r, foundR, operation, live⟩ | ⟨fresh, _, made⟩
  · refine .inl ⟨r, foundR, operation, ?_⟩
    rcases live (by rw [prepared]; rfl) with same | ⟨_, before, _⟩
    · rw [← same, prepared]
    · exact before
  · exact .inr ⟨fresh, made⟩

theorem guarded_perform (h : t.Guarded) (quiet : SparesPrepared t moment call = true)
    (ok : t.perform moment call = .ok (reply, u)) : u.Guarded := by
  have advances := advances_perform ok
  have stays : ∀ {id r o}, u.reservations.find? id = some r →
      t.operations.find? r.operationId = some o → ∃ o', u.operations.find? r.operationId = some o' ∧
        (o'.status = o.status ∨ o.status.unfinished = true ∧
          call.Ends t moment r.operationId o'.status) := by
    intro id r o found foundO
    obtain ⟨o', foundO'⟩ :=
      Option.ne_none_iff_exists'.mp (advances.kept id r found (by simp [foundO]))
    exact ⟨o', foundO', advances.operations.status _ o o' foundO foundO'⟩
  constructor
  · intro id r' found prepared
    rcases advances.prepared found prepared with
      ⟨r, foundR, operation, before⟩ | ⟨_, ⟨stages, ttlMs, rfl⟩, o, running⟩
    · obtain ⟨o, foundO, running⟩ := h.prepared id r foundR before
      obtain ⟨o', foundO', same | ⟨_, ends⟩⟩ := stays found (operation ▸ foundO)
      · exact ⟨o', foundO', same.trans running⟩
      · exact absurd (operation ▸ ends) (h.not_ends quiet ok found prepared foundR before
          (runningOperation_eq_some.mpr ⟨foundO, running⟩))
    · obtain ⟨foundO, running⟩ := runningOperation_eq_some.mp running
      obtain ⟨o', foundO', same | ⟨_, ends⟩⟩ := stays found foundO
      · exact ⟨o', foundO', same.trans running⟩
      · exact ends.elim
  · intro id r' found committed
    rcases advances.reservations id r' found with ⟨r, foundR, operation, live⟩ | ⟨_, prepared, _⟩
    · rcases live (by rw [committed]; rfl) with same | ⟨_, prepared, _, after⟩
      · obtain ⟨o, foundO, succeeded⟩ := h.committed id r foundR (same ▸ committed)
        obtain ⟨o', foundO', same | ⟨unfinished, _⟩⟩ := stays found (operation ▸ foundO)
        · exact ⟨o', foundO', same.trans succeeded⟩
        · rw [succeeded] at unfinished
          cases unfinished
      · obtain ⟨o, foundO, running⟩ := h.prepared id r foundR prepared
        obtain ⟨o', foundO', status⟩ := after o foundO
        exact ⟨o', operation ▸ foundO', by rw [status, if_pos running]⟩
    · rw [committed] at prepared
      cases prepared
  · intro id r id' r' found found' prepared prepared' same
    rcases advances.prepared found prepared with ⟨q, foundQ, under, before⟩ | ⟨fresh, call, _⟩
    · rcases advances.prepared found' prepared' with ⟨q', foundQ', under', before'⟩ |
        ⟨fresh, call, _⟩
      · exact h.alone id q id' q' foundQ foundQ' before before'
          (under.symm.trans (same.trans under'))
      · exact (alone_of_fresh quiet ok found' fresh call found prepared same.symm).symm
    · exact alone_of_fresh quiet ok found fresh call found' prepared' same

end Guarded

namespace Tables

section Rows

def KeepsActive (t u : Tables) : Prop :=
  ∀ m s' id, u.states.find? m = some s' → s'.activeOperationId = some id →
    ∃ s, t.states.find? m = some s ∧ s.activeOperationId = some id ∧ s'.generation = s.generation

def KeepsObserved (t u : Tables) : Prop :=
  ∀ m s s', t.states.find? m = some s → u.states.find? m = some s' →
    s'.observedGeneration = s.observedGeneration

section Updates

variable {which : String → DeploymentState → Bool} {set : DeploymentState → DeploymentState}
  {models : Dict String Bool} {operations : Dict String DeploymentOperation}
  {reservations : Dict String RouteReservation} {leases : Dict String StageLease}

theorem keepsActive_update (keeps : ∀ s id, (set s).activeOperationId = some id →
      s.activeOperationId = some id ∧ (set s).generation = s.generation) :
    t.KeepsActive ⟨models, t.states.update which set, operations, reservations, leases⟩ := by
  intro m s' id found active
  obtain ⟨s, foundS, rfl⟩ := find?_update_eq_some.mp found
  refine ⟨s, foundS, ?_⟩
  split at active
  · rename_i hit
    rw [if_pos hit]
    exact keeps s id active
  rename_i missed
  rw [if_neg missed]
  exact ⟨active, rfl⟩

theorem keepsObserved_update (keeps : ∀ s, (set s).observedGeneration = s.observedGeneration) :
    t.KeepsObserved ⟨models, t.states.update which set, operations, reservations, leases⟩ := by
  intro m s s' found found'
  obtain ⟨q, foundQ, rfl⟩ := find?_update_eq_some.mp found'
  rw [found] at foundQ
  cases foundQ
  split
  · exact keeps s
  · rfl

theorem keepsActive_erase :
    t.KeepsActive ⟨models, t.states.erase modelId, operations, reservations, leases⟩ :=
  fun _ s' _ found active => ⟨s', find?_of_erase found, active, rfl⟩

theorem keepsObserved_erase :
    t.KeepsObserved ⟨models, t.states.erase modelId, operations, reservations, leases⟩ := by
  intro m s s' found found'
  rw [find?_of_erase found'] at found
  cases found
  rfl

end Updates

theorem KeepsActive.of_eq (same : u.states = t.states) : t.KeepsActive u := by
  intro m s' id found active
  rw [same] at found
  exact ⟨s', found, active, rfl⟩

theorem KeepsObserved.of_eq (same : u.states = t.states) : t.KeepsObserved u := by
  intro m s s' found found'
  rw [same, found] at found'
  cases found'
  rfl

theorem Ensures.keepsActive (ensures : t.Ensures u) : t.KeepsActive u := by
  intro m s' id found active
  rcases ensures.fresh m s' found with earlier | ⟨_, autoActivate, rfl⟩
  · exact ⟨s', earlier, active, rfl⟩
  · cases active

theorem Ensures.keepsObserved (ensures : t.Ensures u) : t.KeepsObserved u := by
  intro m s s' found found'
  rw [ensures.states m s found] at found'
  cases found'
  rfl

theorem KeepsActive.trans (first : t.KeepsActive u) (second : u.KeepsActive v) :
    t.KeepsActive v := by
  intro m s'' id found active
  obtain ⟨s', found', active', generation'⟩ := second m s'' id found active
  obtain ⟨s, found, active, generation⟩ := first m s' id found' active'
  exact ⟨s, found, active, generation'.trans generation⟩

theorem KeepsObserved.ensured (ensures : t.Ensures u) (second : u.KeepsObserved v) :
    t.KeepsObserved v :=
  fun m s s' found found' => second m s s' (ensures.states m s found) found'

theorem keepsObserved_insert (states : u.states = t.states.insert modelId s)
    (found : t.states.find? modelId = some s')
    (keeps : s.observedGeneration = s'.observedGeneration) : t.KeepsObserved u := by
  intro m q q' foundQ foundQ'
  rcases of_find?_insert (states ▸ foundQ') with ⟨rfl, rfl⟩ | ⟨-, foundQ'⟩
  · rw [found] at foundQ
    cases foundQ
    exact keeps
  rw [foundQ] at foundQ'
  cases foundQ'
  rfl

theorem keepsActive_insert (states : u.states = t.states.insert modelId s)
    (found : t.states.find? modelId = some s') (keeps : s.activeOperationId = none ∨ s = s') :
    t.KeepsActive u := by
  intro m q id foundQ active
  rcases of_find?_insert (states ▸ foundQ) with ⟨rfl, rfl⟩ | ⟨-, foundQ⟩
  · rcases keeps with idle | rfl
    · rw [idle] at active
      cases active
    · exact ⟨_, found, active, rfl⟩
  · exact ⟨q, foundQ, active, rfl⟩

end Rows

section Current

def Current (t : Tables) : Prop :=
  ∀ m s id o, t.states.find? m = some s → s.activeOperationId = some id →
    t.operations.find? id = some o → o.generation = s.generation

theorem current_empty : Current empty := by
  intro m s id o found
  cases found

theorem Current.of (h : t.Current) (single : t.Single) (active : t.KeepsActive u)
    (continues : t.Continues u may) : u.Current := by
  intro m s' id o' found activeS foundO'
  obtain ⟨s, foundS, activeS, generation⟩ := active m s' id found activeS
  obtain ⟨o, foundO, _⟩ := single.active m id (by rw [activeOf, foundS, Option.bind_some, activeS])
  rw [(continues.generation id o o' foundO foundO').1, generation]
  exact h m s id o foundS activeS foundO

theorem current_claimOperation (h : t.Current) (single : t.Single)
    (ok : t.claimOperation moment modelId kind leaseMs = .ok (row, u)) : u.Current := by
  have continues := continues_claimOperation ok
  obtain ⟨s, v, ensures, found, cases_⟩ := claimOperation_ok ok
  have hv := single.ensures ensures
  have interrupted : (v.interruptActive s).states = v.states := interruptActive_states
  rcases cases_ with ⟨_, _, _, _, rfl⟩ | ⟨_, rfl⟩ | ⟨_, _, _, rfl⟩ | ⟨_, started⟩
  · exact h.of single ensures.keepsActive continues
  · exact h.of single ensures.keepsActive continues
  · exact h.of single (ensures.keepsActive.trans (KeepsActive.of_eq interrupted)) continues
  · obtain ⟨key, _, fresh, _, operations, states⟩ := insertOperation_ok started
    rw [interrupted] at states
    intro m s' id o' foundS' active' foundO'
    rcases of_find?_insert (states ▸ foundS') with ⟨-, rfl⟩ | ⟨-, foundS'⟩
    · cases active'
      rw [operations, find?_insert_self] at foundO'
      cases foundO'
      rfl
    obtain ⟨q, foundQ, activeQ, generation⟩ := ensures.keepsActive m s' id foundS' active'
    obtain ⟨o, foundO, _⟩ :=
      single.active m id (by rw [activeOf, foundQ, Option.bind_some, activeQ])
    rw [(continues.generation id o o' foundO foundO').1, generation]
    exact h m q id o foundQ activeQ foundO

end Current

end Tables

section Effects

variable {call : Call}

structure Consistent (t : Tables) : Prop where
  single : t.Single
  guarded : t.Guarded
  current : t.Current

structure Effect (t u : Tables) (call : Call) : Prop where
  current : u.Current
  observed : t.KeepsObserved u ∨
    (∃ m state, call = .adoptObservedState m state ∧ ∀ j, j ≠ m →
      u.states.find? j = t.states.find? j) ∨
    ∃ id o state, t.runningOperation id = some o ∧
    u.operations = (t.completeOperation id state).2.operations ∧
      u.states = (t.completeOperation id state).2.states

theorem keepsActive_completeOperation (operationId : String) (observedState : ObservedState) :
    t.KeepsActive (t.completeOperation operationId observedState).2 := by
  unfold completeOperation
  split
  · exact .of_eq rfl
  · refine keepsActive_update fun s id active => ?_
    cases active

theorem keeps_updateOwned (operationId : String) {set : DeploymentState → DeploymentState}
    (kept : ∀ s, (set s).activeOperationId = s.activeOperationId ∧
      (set s).generation = s.generation ∧ (set s).observedGeneration = s.observedGeneration) :
    t.KeepsActive (t.updateOwned moment operationId set).2 ∧
      t.KeepsObserved (t.updateOwned moment operationId set).2 := by
  unfold updateOwned
  split
  · exact ⟨.of_eq rfl, .of_eq rfl⟩
  · exact ⟨keepsActive_update fun s id active => ⟨(kept s).1 ▸ active, (kept s).2.1⟩,
      keepsObserved_update fun s => (kept s).2.2⟩

theorem keepsObserved_claimOperation
    (ok : t.claimOperation moment modelId kind leaseMs = .ok (row, u)) : t.KeepsObserved u := by
  obtain ⟨s, v, ensures, found, cases_⟩ := claimOperation_ok ok
  have interrupted : (v.interruptActive s).states = v.states := interruptActive_states
  rcases cases_ with ⟨_, _, _, _, rfl⟩ | ⟨_, rfl⟩ | ⟨_, _, _, rfl⟩ | ⟨_, started⟩
  · exact ensures.keepsObserved
  · exact ensures.keepsObserved
  · exact .ensured ensures (.of_eq interrupted)
  · obtain ⟨key, _, _, _, _, states⟩ := insertOperation_ok started
    rw [interrupted] at states
    exact .ensured ensures (keepsObserved_insert states found rfl)

theorem keepsObserved_initializePlane (ok : t.initializePlane moment = .ok (result, u)) :
    t.KeepsObserved u := by
  simp only [initializePlane, bind_eq_ok] at ok
  obtain ⟨v, ensured, done⟩ := ok
  obtain ⟨_, rfl⟩ := ok_inj done
  refine .ensured (ensures_ensureModels ensured) ?_
  intro m s s' found found'
  rw [(sameOperations_expireReservations moment.now).1] at found'
  have reset : v.interruptAll.KeepsObserved (v.interruptAll.resetStates moment) :=
    keepsObserved_update fun _ => rfl
  split at found'
  · exact reset m s s' found found'
  · exact KeepsObserved.of_eq rfl m s s' found found'

theorem effect_perform (h : Consistent t) (quiet : SparesPrepared t moment call = true)
    (ok : t.perform moment call = .ok (reply, u)) : Effect t u call := by
  have continues := (advances_perform ok).operations
  have keeps : t.KeepsActive u → t.KeepsObserved u → Effect t u call :=
    fun active observed => ⟨h.current.of h.single active continues, .inl observed⟩
  have same : u.states = t.states → Effect t u call :=
    fun states => keeps (.of_eq states) (.of_eq states)
  cases perform_ok ok with
  | upsertRequestedModel | releaseRoutesForModel => exact same rfl
  | removeRequestedModel =>
    refine keeps ?_ ?_ <;> unfold removeRequestedModel <;> split
    · exact keepsActive_erase
    · exact .of_eq rfl
    · exact keepsObserved_erase
    · exact .of_eq rfl
  | initializePlane done =>
    refine keeps (fun m s id found active => ?_) (keepsObserved_initializePlane done)
    have idle := initializePlane_idle h.single done m
    rw [activeOf, found, Option.bind_some, active] at idle
    cases idle
  | ensureModel done =>
    have ensures := (ensures_ensureModel done).1
    exact keeps ensures.keepsActive ensures.keepsObserved
  | setDesiredState done =>
    obtain ⟨s', v, ensures, found, rfl, active, observed, change⟩ := setDesiredState_ok done
    refine keeps (ensures.keepsActive.trans (keepsActive_insert rfl found ?_))
      (.ensured ensures (keepsObserved_insert rfl found observed))
    rcases change with same | ⟨changed, _⟩
    · exact .inr same
    refine .inl (active.trans ?_)
    rcases ensures.fresh _ s' found with old | ⟨_, autoActivate, rfl⟩
    · simpa [SparesPrepared, old, changed] using quiet
    · rfl
  | rearmAfterRuntimeChange done =>
    obtain ⟨s', v, ensures, found, _, rfl, idle, observed, _⟩ := rearmAfterRuntimeChange_ok done
    exact keeps (ensures.keepsActive.trans (keepsActive_insert rfl found (.inl idle)))
      (.ensured ensures (keepsObserved_insert rfl found observed))
  | claimOperation done =>
    exact ⟨current_claimOperation h.current h.single done, .inl (keepsObserved_claimOperation done)⟩
  | renewOperation | markCanary =>
    refine (keeps_updateOwned _ ?_).elim keeps
    exact fun _ => ⟨rfl, rfl, rfl⟩
  | markWaitingCapacity =>
    refine keeps (keepsActive_update fun s id active => ?_) (keepsObserved_update fun _ => rfl)
    cases active
  | @adoptObservedState m state =>
    refine ⟨h.current.of h.single (keepsActive_update fun s id active => ⟨active, rfl⟩) continues,
      .inr (.inl ⟨m, state, rfl, fun j other => ?_⟩)⟩
    rw [adoptObservedState, find?_update]
    simp [other]
  | @completeOperation operationId state =>
    refine ⟨h.current.of h.single (keepsActive_completeOperation _ _) continues, ?_⟩
    cases running : t.runningOperation operationId with
    | none => exact .inl (.of_eq (by rw [completeOperation_of_not_running running]))
    | some o => exact .inr (.inr ⟨operationId, o, state, running, rfl, rfl⟩)
  | failOperation =>
    refine keeps ?_ ?_ <;> unfold failOperation <;> split
    · exact .of_eq rfl
    · exact keepsActive_update fun s id active => by cases active
    · exact .of_eq rfl
    · exact keepsObserved_update fun _ => rfl
  | prepareRoute done => exact same (sameOperations_prepareRoute done).1
  | @commitRoute reservationId _ _ done =>
    obtain ⟨r, found, ⟨_, rfl⟩ | ⟨prepared, _, rfl⟩⟩ := commitRoute_ok done
    · exact same rfl
    obtain ⟨o, foundO, status⟩ := h.guarded.prepared reservationId r found prepared
    obtain ⟨states, operations⟩ :=
      completeOperation_commitReservation (t := t) reservationId r.operationId .active
    refine ⟨h.current.of h.single ?_ continues, .inr (.inr
      ⟨_, o, .active, runningOperation_eq_some.mpr ⟨foundO, status⟩, operations, states⟩)⟩
    exact (keepsActive_completeOperation (t := t) r.operationId .active).trans (.of_eq states)
  | renewRoute => exact same (sameOperations_renewRoute ..).1
  | renewCommittedRoutesForModel => exact same (sameOperations_renewRoutes ..).1
  | removeModelState => exact keeps keepsActive_erase keepsObserved_erase

theorem completed_perform (ok : t.perform moment call = .ok (reply, u))
    (running : t.runningOperation id = some o) (found : u.operations.find? id = some o')
    (succeeded : o'.status = .succeeded) :
    ∃ state, u.states = (t.completeOperation id state).2.states := by
  obtain ⟨foundO, status⟩ := runningOperation_eq_some.mp running
  have ends : call.Ends t moment id .succeeded := by
    rcases (advances_perform ok).operations.status id o o' foundO found with same | ⟨_, ends⟩
    · rw [same, status] at succeeded
      cases succeeded
    · rw [← succeeded]
      exact ends
  cases perform_ok ok with
  | initializePlane => cases ends
  | claimOperation | failOperation => cases ends.1
  | completeOperation =>
    obtain ⟨_, rfl⟩ := ends
    exact ⟨_, rfl⟩
  | @commitRoute reservationId _ _ done =>
    obtain ⟨_, r, foundR, prepared, rfl⟩ := ends
    obtain ⟨q, foundQ, ⟨committed, _⟩ | ⟨_, _, rfl⟩⟩ := commitRoute_ok done
    · obtain rfl := Option.mem_unique foundR foundQ
      rw [prepared] at committed
      cases committed
    · obtain rfl := Option.mem_unique foundR foundQ
      exact ⟨.active, (completeOperation_commitReservation reservationId _ _).1⟩
  | _ => exact ends.elim

end Effects

section Runs

def OrderlySparing (t : Tables) (i : Moment × Call) : Prop :=
  Orderly t i.2 ∧ SparesPrepared t i.1 i.2 = true

instance (t : Tables) (i : Moment × Call) : Decidable (OrderlySparing t i) :=
  inferInstanceAs (Decidable (_ ∧ _))

theorem consistent_empty : Consistent empty := ⟨single_empty, guarded_empty, current_empty⟩

theorem consistent_step (t : Tables) (i : Moment × Call) (spares : OrderlySparing t i)
    (h : Consistent t) : Consistent (step t i).1 :=
  commit_invariant (P := Consistent) h fun _ _ ok =>
    ⟨single_perform h.single spares.1 ok, guarded_perform h.guarded spares.2 ok,
      (effect_perform h spares.2 ok).current⟩

structure Fenced (x : Transition Tables (Moment × Call) (Except Failure Reply)) : Prop where
  /-- A route is committed only as its operation, the active one, succeeds. -/
  commits : ∀ id r', x.post.reservations.find? id = some r' → r'.status = .committed →
    (∀ r, x.pre.reservations.find? id = some r → r.status ≠ .committed) →
    ∃ o o', x.pre.operations.find? r'.operationId = some o ∧ o.status = .running ∧
      x.pre.activeOf o.modelId = some r'.operationId ∧
      x.post.operations.find? r'.operationId = some o' ∧ o'.status = .succeeded
  /-- `commitRoute` accepts what is prepared under the active operation, or was committed. -/
  accepts : ∀ id r reply, x.input.2 = .commitRoute id → x.pre.reservations.find? id = some r →
    x.output = .ok reply → ∃ o, x.pre.operations.find? r.operationId = some o ∧
      (r.status = .prepared ∧ o.status = .running ∧ x.pre.activeOf o.modelId = some r.operationId ∨
        r.status = .committed ∧ o.status = .succeeded)
  ended : ∀ id o o', x.pre.operations.find? id = some o → x.post.operations.find? id = some o' →
    o.status.unfinished = false → o'.status = o.status
  /-- A generation is observed through the operation that succeeds, or adopted. -/
  observed : ∀ m s s', x.pre.states.find? m = some s → x.post.states.find? m = some s' →
    s'.observedGeneration ≠ s.observedGeneration →
    (∃ state, x.input.2 = .adoptObservedState m state) ∨
      ∃ id o o', x.pre.activeOf m = some id ∧ x.pre.operations.find? id = some o ∧
      o.status = .running ∧
        x.post.operations.find? id = some o' ∧ o'.status = .succeeded
  /-- The generation observed through an operation is the one it was claimed at. -/
  completed : ∀ id o o', x.pre.operations.find? id = some o → o.status = .running →
    x.post.operations.find? id = some o' → o'.status = .succeeded →
    ∀ s', x.post.states.find? o.modelId = some s' → s'.observedGeneration = o.generation
  claimed : ∀ modelId kind leaseMs id o, x.input.2 = .claimOperation modelId kind leaseMs →
    x.output = .ok (.operation (some (id, o))) → ∃ s, x.post.states.find? modelId = some s ∧
    o.generation = s.generation
  generation : ∀ id o o', x.pre.operations.find? id = some o →
    x.post.operations.find? id = some o' → o'.generation = o.generation

theorem Consistent.completeOperation_state (h : Consistent t)
    (running : t.runningOperation operationId = some o) (observedState : ObservedState) :
    (∀ s', (t.completeOperation operationId observedState).2.states.find? o.modelId = some s' →
      s'.observedGeneration = o.generation) ∧
    ∀ m, m ≠ o.modelId →
      (t.completeOperation operationId observedState).2.states.find? m = t.states.find? m := by
  obtain ⟨found, status⟩ := runningOperation_eq_some.mp running
  obtain ⟨s, foundS, active⟩ :=
    Option.bind_eq_some_iff.mp (h.single.running operationId o found status)
  rw [completeOperation, running]
  simp only [settleState, succeedOperationRow, find?_update]
  constructor
  · intro s' found'
    rw [foundS, Option.map_some, if_pos (by simp [active])] at found'
    obtain rfl := Option.some.inj found'
    exact (h.current o.modelId s operationId o foundS active found).symm
  · intro m other
    simp [other]

theorem Consistent.accepts (h : Consistent t) (found : t.reservations.find? id = some r)
    (ok : t.commitRoute moment id = .ok (made, u)) :
    ∃ o, t.operations.find? r.operationId = some o ∧
      (r.status = .prepared ∧ o.status = .running ∧ t.activeOf o.modelId = some r.operationId ∨
        r.status = .committed ∧ o.status = .succeeded) := by
  obtain ⟨q, foundQ, cases_⟩ := commitRoute_ok ok
  rw [found] at foundQ
  cases foundQ
  rcases cases_ with ⟨committed, _⟩ | ⟨prepared, _⟩
  · obtain ⟨o, foundO, succeeded⟩ := h.guarded.committed id r found committed
    exact ⟨o, foundO, .inr ⟨committed, succeeded⟩⟩
  · obtain ⟨o, foundO, running⟩ := h.guarded.prepared id r found prepared
    exact ⟨o, foundO, .inl ⟨prepared, running, h.single.running _ o foundO running⟩⟩

theorem fenced_of_error (t : Tables) (i : Moment × Call) (e : Failure) :
    Fenced ⟨t, i, .error e, t⟩ where
  commits id r' found committed before := absurd committed (before r' found)
  accepts _ _ _ _ _ ok := by cases ok
  ended id o o' found found' _ := by
    rw [found] at found'
    cases found'
    rfl
  observed m s s' found found' changed := by
    rw [found] at found'
    cases found'
    exact absurd rfl changed
  completed id o o' found running found' succeeded := by
    rw [found] at found'
    cases found'
    rw [running] at succeeded
    cases succeeded
  claimed _ _ _ _ _ _ ok := by cases ok
  generation id o o' found found' := by
    rw [found] at found'
    cases found'
    rfl

theorem fenced_of_ok (h : Consistent t) (spares : OrderlySparing t i)
    (ok : t.perform i.1 i.2 = .ok (reply, u)) : Fenced ⟨t, i, .ok reply, u⟩ := by
  have effect := effect_perform h spares.2 ok
  have advances := advances_perform ok
  constructor
  · intro id r' found committed before
    rcases advances.reservations id r' found with ⟨r, foundR, operation, live⟩ | ⟨_, prepared, _⟩
    case inr =>
      rw [committed] at prepared
      cases prepared
    have prepared : r.status = .prepared := by
      rcases live (by rw [committed]; rfl) with same | ⟨_, prepared, _⟩
      · exact absurd (same.symm.trans committed) (before r foundR)
      · exact prepared
    obtain ⟨o, foundO, running⟩ := h.guarded.prepared id r foundR prepared
    obtain ⟨o', foundO', succeeded⟩ :=
      (guarded_perform h.guarded spares.2 ok).committed id r' found committed
    rw [← operation] at foundO
    exact ⟨o, o', foundO, running, h.single.running _ o foundO running, foundO', succeeded⟩
  · intro id r reply' input found _
    obtain ⟨moment, call⟩ := i
    subst input
    obtain ⟨_, done, _⟩ := reply_eq_ok ok
    exact h.accepts found done
  · intro id o o' found found' finished
    rcases advances.operations.status id o o' found found' with same | ⟨unfinished, _⟩
    · exact same
    · rw [finished] at unfinished
      cases unfinished
  · intro m s s' found found' changed
    rcases effect.observed with kept | ⟨m', state, adopts, others⟩ |
      ⟨id, o, state, running, operations, states⟩
    · exact absurd (kept m s s' found found') changed
    · by_cases here : m = m'
      · exact .inl ⟨state, by rw [here]; exact adopts⟩
      rw [others m here, found] at found'
      cases found'
      exact absurd rfl changed
    · obtain ⟨foundO, status⟩ := runningOperation_eq_some.mp running
      by_cases here : m = o.modelId
      · refine .inr ⟨id, o, { o with status := .succeeded }, ?_, foundO, status, ?_, rfl⟩
        · rw [here]
          exact h.single.running id o foundO status
        · rw [operations, completeOperation_find? running, if_pos rfl]
      rw [states, (h.completeOperation_state running state).2 m here, found] at found'
      cases found'
      exact absurd rfl changed
  · intro id o o' found running found' succeeded s' foundS
    have runningId := runningOperation_eq_some.mpr ⟨found, running⟩
    obtain ⟨state, states⟩ := completed_perform ok runningId found' succeeded
    exact (h.completeOperation_state runningId state).1 s' (by rw [← states]; exact foundS)
  · intro modelId kind leaseMs id o input output
    obtain ⟨moment, call⟩ := i
    subst input
    obtain ⟨row, done, same⟩ := reply_eq_ok ok
    rw [Except.ok.inj output] at same
    cases same
    obtain ⟨stored, _, active, _⟩ := claimed_of_claimOperation h.single done
    obtain ⟨s, foundS, activeS⟩ := Option.bind_eq_some_iff.mp active
    exact ⟨s, foundS, effect.current modelId s id o foundS activeS stored⟩
  · intro id o o' found found'
    exact (advances.operations.generation id o o' found found').1

theorem stale_controllers_fenced (calls : List (Moment × Call))
    (spares : ∀ x ∈ trace step empty calls, OrderlySparing x.pre x.input) :
    ∀ x ∈ trace step empty calls, Fenced x := by
  intro x mem
  obtain ⟨h, output, post⟩ := mem_trace_of consistent_step consistent_empty spares mem
  have spares := spares x mem
  obtain ⟨t, i, out, u⟩ := x
  simp only [step, commit] at output post
  cases result : t.perform i.1 i.2 with
  | error e =>
    rw [result] at output post
    subst output post
    exact fenced_of_error _ i e
  | ok done =>
    rw [result] at output post
    subst output post
    exact fenced_of_ok h spares result

def stage : RouteStage := ⟨"node", 0, 0, 4, 2, 8, none⟩

def restartedBeforeCommit : List (Moment × Call) :=
  [(.of "old" 0 "a", .upsertRequestedModel "model" true),
    (.of "old" 1 "b", .claimOperation "model" .activate none),
    (.of "old" 2 "c", .prepareRoute "dop_b0" [stage] none),
    (.of "new" 3 "d", .initializePlane)]

def changedBeforeCompletion : List (Moment × Call) :=
  [(.of "old" 0 "a", .upsertRequestedModel "model" true),
    (.of "old" 1 "b", .claimOperation "model" .activate none),
    (.of "old" 2 "c", .setDesiredState "model" .inactive),
    (.of "old" 3 "d", .completeOperation "dop_b0" .active)]

theorem stale_commit_accepted :
    ((final step empty restartedBeforeCommit).operations.find? "dop_b0").map
    DeploymentOperation.status =
        some .interrupted ∧
      (step (final step empty restartedBeforeCommit) (.of "old" 4 "e",
        .commitRoute "rsv_c0")).2.toOption.isSome = true ∧
      ((step (final step empty restartedBeforeCommit) (.of "old" 4 "e",
        .commitRoute "rsv_c0")).1.reservations.find? "rsv_c0").map RouteReservation.status =
        some .committed ∧
      ((final step empty changedBeforeCompletion).operations.find? "dop_b0").map
        (fun o => (o.status, o.generation)) = some (.succeeded, 1) ∧
      ((final step empty changedBeforeCompletion).states.find? "model").map
      DeploymentState.observedGeneration =
        some 2 := by
  decide +kernel

def committedInTime : List (Moment × Call) :=
  [(.of "old" 0 "a", .upsertRequestedModel "model" true),
    (.of "old" 1 "b", .claimOperation "model" .activate none),
    (.of "old" 2 "c", .prepareRoute "dop_b0" [stage] none),
    (.of "new" 3 "d", .claimOperation "model" .activate none),
    (.of "old" 4 "e", .commitRoute "rsv_c0"),
    (.of "new" 5 "f", .setDesiredState "model" .inactive),
    (.of "new" 6 "g", .claimOperation "model" .deactivate none),
    (.of "new" 7 "h", .initializePlane),
    (.of "old" 8 "i", .commitRoute "rsv_c0")]

theorem committedInTime_fenced :
    ((final step empty committedInTime).operations.entries.map fun e => (e.1, e.2.status)) =
        [("dop_b0", .succeeded), ("dop_g0", .interrupted)] ∧
      ∀ x ∈ trace step empty committedInTime, Fenced x :=
  ⟨by decide +kernel, stale_controllers_fenced committedInTime (by decide +kernel)⟩

end Runs

end Mycellios.Deployment
