import Mycellios.Data.Rows
import Mycellios.Deployment.ControlPlane

namespace Mycellios.Deployment

open Data Dict Logic

def ReservationStatus.lease : ReservationStatus → LeaseStatus
  | .prepared => .prepared
  | .committed => .committed
  | .released => .released
  | .expired => .expired
  | .failed => .released

@[simp] theorem ReservationStatus.live_lease (s : ReservationStatus) : s.lease.live = s.live := by
  cases s <;> rfl

@[simp] theorem ReservationStatus.lease_eq_prepared (s : ReservationStatus) :
    s.lease = .prepared ↔ s = .prepared := by
  cases s <;> decide

structure StageLease.Follows (l : StageLease) (r : RouteReservation) : Prop where
  model : l.modelId = r.modelId
  expiry : l.expiresAt = r.expiresAt
  status : l.status = r.status.lease

variable {l : StageLease}

theorem StageLease.Follows.live (h : l.Follows r) : l.status.live = r.status.live := by
  rw [h.status, ReservationStatus.live_lease]

def StageLease.memoryOn (node : String) (l : StageLease) : Int :=
  if l.nodeId = node ∧ l.status.live then l.memoryMiB else 0

theorem StageLease.memoryOn_nonneg (node : String) (l : StageLease) : 0 ≤ l.memoryOn node := by
  unfold memoryOn
  split
  · exact Int.natCast_nonneg _
  · exact le_refl 0

theorem StageLease.memoryOn_of_not_live (h : l.status.live = false) : l.memoryOn node = 0 := by
  simp [memoryOn, h]

namespace Tables

/-- Every lease follows its reservation, and the live leases of a node are bounded. -/
structure Leased (bound : String → Nat) (t : Tables) : Prop where
  follows : ∀ id l, t.leases.find? id = some l → ∃ r, t.reservations.find? l.reservationId =
    some r ∧ l.Follows r
  bounded : ∀ node, t.leases.sumBy (StageLease.memoryOn node) ≤ bound node

variable {bound : String → Nat} {t u : Tables}

theorem leased_empty (bound : String → Nat) : Leased bound empty where
  follows _ _ found := by cases found
  bounded node := Int.natCast_nonneg _

section

variable (h : t.Leased bound)
include h

theorem Leased.congr (reservations : u.reservations = t.reservations)
    (leases : u.leases = t.leases) : u.Leased bound where
  follows := by rw [reservations, leases]; exact h.follows
  bounded := by rw [leases]; exact h.bounded

theorem Leased.update {whichR : String → RouteReservation → Bool}
    {setR : RouteReservation → RouteReservation} {whichL : String → StageLease → Bool}
    {setL : StageLease → StageLease} (same : ∀ l, (setL l).reservationId = l.reservationId)
    (follows : ∀ id l r, t.reservations.find? l.reservationId = some r → l.Follows r →
      whichL id l = whichR l.reservationId r ∧ (whichL id l = true → (setL l).Follows (setR r)))
    (memory : ∀ id l node, whichL id l = true → (setL l).memoryOn node ≤ l.memoryOn node) :
    Leased bound { t with
      reservations := t.reservations.update whichR setR
      leases := t.leases.update whichL setL } where
  follows id l found := by
    obtain ⟨l, earlier, rfl⟩ := find?_update_eq_some.mp found
    obtain ⟨r, foundR, match_⟩ := h.follows id l earlier
    obtain ⟨alike, set⟩ := follows id l r foundR match_
    refine ⟨if whichR l.reservationId r then setR r else r, ?_, ?_⟩
    · have key : (if whichL id l then setL l else l).reservationId = l.reservationId := by
        split
        · exact same l
        · rfl
      rw [key, find?_update, foundR, Option.map_some]
    rw [← alike]
    by_cases hit : whichL id l = true
    · rw [if_pos hit, if_pos hit]
      exact set hit
    · rw [if_neg hit, if_neg hit]
      exact match_
  bounded node :=
    (sumBy_update_le (fun id l hit => memory id l node hit) t.leases).trans (h.bounded node)

theorem Leased.end {whichR : String → RouteReservation → Bool}
    {setR : RouteReservation → RouteReservation} {whichL : String → StageLease → Bool}
    (status : LeaseStatus) (ended : status.live = false)
    (set : ∀ r, (setR r).modelId = r.modelId ∧ (setR r).expiresAt = r.expiresAt ∧
      (setR r).status.lease = status)
    (alike : ∀ id l r, t.reservations.find? l.reservationId = some r → l.Follows r →
      whichL id l = whichR l.reservationId r) :
    Leased bound { t with
      reservations := t.reservations.update whichR setR
      leases := t.leases.update whichL fun l => { l with status := status } } := by
  refine h.update (fun _ => rfl) (fun id l r found match_ => ⟨alike id l r found match_, ?_⟩) ?_
  · intro _
    obtain ⟨model, expiry, ends⟩ := set r
    exact ⟨match_.model.trans model.symm, match_.expiry.trans expiry.symm, ends.symm⟩
  intro id l node _
  rw [StageLease.memoryOn_of_not_live ended]
  exact l.memoryOn_nonneg node

theorem leased_expireReservations (now : ℚ) : (t.expireReservations now).2.Leased bound := by
  simp only [expireReservations]
  split
  · exact h
  refine h.end .expired rfl (fun _ => ⟨rfl, rfl, rfl⟩) ?_
  intro id l r _ match_
  rw [match_.live, match_.expiry]

theorem expireReservations_unexpired (now : ℚ) {id : String}
    (found : (t.expireReservations now).2.leases.find? id = some l) (live : l.status.live = true) :
    now < l.expiresAt := by
  simp only [expireReservations] at found
  split at found
  · rename_i none
    obtain ⟨r, foundR, match_⟩ := h.follows id l found
    have kept := size_filter_eq_zero.mp none _ r foundR
    rw [match_.live] at live
    rw [match_.expiry]
    simpa [live] using kept
  obtain ⟨l, _, rfl⟩ := find?_update_eq_some.mp found
  by_cases due : l.status.live = true ∧ l.expiresAt ≤ now
  · rw [if_pos (by simpa using due)] at live
    cases live
  · rw [if_neg (by simpa using due)] at live ⊢
    exact not_le.mp fun expired => due ⟨live, expired⟩

theorem leased_releaseRoutesForModel (modelId : String) :
    (t.releaseRoutesForModel modelId).2.Leased bound := by
  refine h.end .released rfl (fun _ => ⟨rfl, rfl, rfl⟩) ?_
  intro id l r _ match_
  rw [match_.live, match_.model]

theorem leased_failPreparedReservations (operationId error : String) :
    (t.failPreparedReservations operationId error).Leased bound := by
  refine h.end .released rfl (fun _ => ⟨rfl, rfl, rfl⟩) ?_
  intro id l r found match_
  simp [found, match_.status]

theorem leased_commitReservation (reservationId : String) :
    (t.commitReservation reservationId).Leased bound := by
  refine h.update (fun _ => rfl) ?_ ?_
  · intro id l r found match_
    exact ⟨by simp [match_.status], fun _ => ⟨match_.model, match_.expiry, rfl⟩⟩
  intro id l node hit
  have prepared : l.status = .prepared := (of_decide_eq_true hit).2
  simp [StageLease.memoryOn, prepared, LeaseStatus.live]

theorem leased_renewRoute (reservationId : String) (ttlMs : Option ℚ) :
    (t.renewRoute moment reservationId ttlMs).2.Leased bound := by
  simp only [renewRoute]
  split
  · exact h
  rename_i some_
  -- the count says that the reservation itself is live and unexpired
  rw [size_filter_eq_zero] at some_
  push Not at some_
  obtain ⟨key, row, foundRow, hit⟩ := some_
  obtain ⟨rfl, live, unexpired⟩ : key = reservationId ∧ row.status.live = true ∧
      moment.now < row.expiresAt := by
    simpa using hit
  refine h.update (fun _ => rfl) ?_ (fun _ _ _ _ => le_refl _)
  intro id l r found match_
  refine ⟨?_, fun _ => ⟨match_.model, rfl, match_.status⟩⟩
  by_cases here : l.reservationId = key
  · rw [here, foundRow] at found
    obtain rfl := Option.some.inj found
    simp [here, match_.live, live, unexpired]
  · simp [here]

end

theorem leased_renewRoutes (ids : List String) (ttlMs : Option ℚ) (h : t.Leased bound) :
    (renewRoutes moment ttlMs ids t).2.Leased bound := by
  induction ids generalizing t with
  | nil => exact h
  | cons id ids ih => exact ih (leased_renewRoute h id ttlMs)

theorem leased_removeRequestedModel (h : t.Leased bound) (modelId : String) :
    (t.removeRequestedModel modelId).2.Leased bound := by
  unfold removeRequestedModel
  split
  · constructor
    · intro id l found
      obtain ⟨found, kept⟩ := find?_filter_eq_some.mp found
      obtain ⟨r, foundR, match_⟩ := h.follows id l found
      obtain ⟨_, listed⟩ := of_decide_eq_true kept
      obtain ⟨r', found'⟩ := Option.isSome_iff_exists.mp listed
      have same := (find?_filter_eq_some.mp found').1
      rw [foundR] at same
      obtain rfl := Option.some.inj same
      exact ⟨r, found', match_⟩
    · intro node
      exact (sumBy_filter_le (StageLease.memoryOn_nonneg node) _ t.leases).trans (h.bounded node)
  · exact h

section Prepare

def requestedOn (node : String) (stages : List NormalizedStage) : Int :=
  sumAt NormalizedStage.nodeId (fun s => (s.memoryMiB : Int)) node stages

theorem requestedByNode_ok (ok : requestedByNode requests stages = .ok result)
    (asked : (requests.find? node).isSome ∨ ∃ s ∈ stages, s.nodeId = node) :
    ∃ q, result.find? node = some q ∧
      (q.requested : Int) = (((requests.find? node).map NodeRequest.requested).getD 0 : Nat) +
      requestedOn node stages ∧ (∀ p, requests.find? node = some p → q.capacity ≤ p.capacity) ∧
      ∀ s ∈ stages, s.nodeId = node → q.capacity ≤ s.capacityMiB := by
  induction stages generalizing requests with
  | nil =>
    obtain rfl := Except.ok.inj ok
    obtain ⟨q, found⟩ := Option.isSome_iff_exists.mp (asked.resolve_right (by simp))
    refine ⟨q, found, by simp [found, requestedOn], ?_, by simp⟩
    intro p same
    rw [found] at same
    exact le_of_eq (congrArg _ (Option.some.inj same))
  | cons stage stages ih =>
    simp only [requestedByNode, throw_bind, raise_eq_ok] at ok
    obtain ⟨_, ok⟩ := ok
    by_cases here : stage.nodeId = node
    · obtain ⟨q, found, total, least, rest⟩ := ih ok (.inl (by rw [here, find?_insert_self]; rfl))
      rw [here, find?_insert_self] at total least
      have now_ := least _ rfl
      refine ⟨q, found, ?_, ?_, ?_⟩
      · rw [requestedOn, sumAt_cons, if_pos here, total, requestedOn]
        cases requests.find? node with
        | none => simp
        | some p => simp; ring
      · intro p same
        simp only [same, Option.getD_some] at now_
        exact now_.trans (min_le_left _ _)
      · intro s mem on
        rcases List.mem_cons.mp mem with rfl | mem
        · exact now_.trans (min_le_right _ _)
        · exact rest s mem on
    · have other : ∀ v, (requests.insert stage.nodeId v).find? node = requests.find? node := by
        intro v
        rw [find?_insert, if_neg here]
      have asked : (requests.find? node).isSome ∨ ∃ s ∈ stages, s.nodeId = node := by
        refine asked.imp_right fun later => ?_
        obtain ⟨s, mem, on⟩ := later
        rcases List.mem_cons.mp mem with rfl | mem
        · exact absurd on here
        · exact ⟨s, mem, on⟩
      obtain ⟨q, found, total, least, rest⟩ := ih ok (by rw [other]; exact asked)
      rw [other] at total least
      refine ⟨q, found, by rw [total, requestedOn, requestedOn, sumAt_cons, if_neg here, zero_add],
        least, ?_⟩
      intro s mem on
      rcases List.mem_cons.mp mem with rfl | mem
      · exact absurd on here
      · exact rest s mem on

theorem assertCapacity_ok (ok : t.assertCapacity now requests = .ok ())
    (mem : (node, q) ∈ requests) : t.leased node now + q.requested ≤ q.capacity := by
  induction requests with
  | nil => exact absurd mem List.not_mem_nil
  | cons request requests ih =>
    obtain ⟨id, p⟩ := request
    simp only [assertCapacity, throw_bind, raise_eq_ok] at ok
    rcases List.mem_cons.mp mem with same | mem
    · obtain ⟨rfl, rfl⟩ := Prod.mk.inj same
      exact not_lt.mp ok.1
    · exact ih ok.2 mem

theorem insertLeases_ok {leases result : Dict String StageLease}
    (ok : insertLeases moment reservationId modelId expiresAt n stages leases = .ok result) :
    (∀ id l, result.find? id = some l → leases.find? id = some l ∨
      l.reservationId = reservationId ∧ l.modelId = modelId ∧ l.expiresAt = expiresAt ∧
      l.status = .prepared) ∧
    ∀ node, result.sumBy (StageLease.memoryOn node) =
      leases.sumBy (StageLease.memoryOn node) + requestedOn node stages := by
  induction stages generalizing n leases with
  | nil =>
    obtain rfl := Except.ok.inj ok
    exact ⟨fun id l found => .inl found, fun node => by simp [requestedOn]⟩
  | cons stage stages ih =>
    simp only [insertLeases, throw_bind, raise_eq_ok] at ok
    obtain ⟨free, ok⟩ := ok
    have fresh : leases.find? (moment.newId "dls" n) = none := by
      simpa [Dict.contains] using fun taken => free (.inl taken)
    obtain ⟨rows, total⟩ := ih ok
    constructor
    · intro id l found
      rcases rows id l found with earlier | new
      · rcases of_find?_insert earlier with ⟨-, rfl⟩ | ⟨-, earlier⟩
        · exact .inr ⟨rfl, rfl, rfl, rfl⟩
        · exact .inl earlier
      · exact .inr new
    intro node
    rw [total node, sumBy_insert, fresh, requestedOn, requestedOn, sumAt_cons]
    simp only [Option.map_none, Option.getD_none, StageLease.memoryOn, LeaseStatus.live, true_or,
      decide_true, and_true]
    ring

def Call.stages : Call → List RouteStage
  | .prepareRoute _ stages _ => stages
  | _ => []

/-- What a call asks of the nodes is measured against their own capacity. -/
def FixedCapacity (cap : String → ℚ) (call : Call) : Prop :=
  ∀ s ∈ Call.stages call, s.capacityMiB = cap s.nodeId

instance (cap : String → ℚ) (call : Call) : Decidable (FixedCapacity cap call) :=
  inferInstanceAs (Decidable (∀ _ ∈ _, _ = _))

theorem capacity_of_mem_normalized {cap : String → ℚ}
    (fixed : ∀ s ∈ stages, s.capacityMiB = cap s.nodeId) (mem : s ∈ normalized moment stages) :
    s.capacityMiB = ⌊cap s.nodeId⌋.toNat := by
  rw [normalized, List.mem_insertionSort, List.mem_map] at mem
  obtain ⟨given, listed, rfl⟩ := mem
  rw [normalize, fixed given listed]

variable {cap : String → ℚ}

theorem insertRoute_ok (ok : t.insertRoute moment row = .ok (made, u)) :
    ∃ id, t.reservations.find? id = none ∧ u.reservations = t.reservations.insert id row ∧
      insertLeases moment id row.modelId row.expiresAt 1 row.stages t.leases = .ok u.leases ∧
      u.states = t.states ∧ u.operations = t.operations := by
  simp only [insertRoute, throw_bind, raise_eq_ok, bind_eq_ok] at ok
  obtain ⟨free, leases, inserted, done⟩ := ok
  obtain ⟨-, rfl⟩ := ok_inj done
  exact ⟨_, by simpa [Dict.contains] using free, rfl, inserted, rfl, rfl⟩

theorem prepareRoute_ok (ok : t.prepareRoute moment operationId stages ttlMs = .ok (made, u)) :
    ∃ operation requests, (t.expireReservations moment.now).2.runningOperation operationId =
    some operation ∧
      requestedByNode Dict.empty (normalized moment stages) = .ok requests ∧
      (t.expireReservations moment.now).2.assertCapacity moment.now requests.entries = .ok () ∧
      (t.expireReservations moment.now).2.insertRoute moment
        (preparedRow moment operationId operation (normalized moment stages) ttlMs) =
        .ok (made, u) := by
  simp only [prepareRoute, throw_bind, raise_eq_ok] at ok
  obtain ⟨_, ok⟩ := ok
  split at ok
  · cases ok
  rename_i operation running
  simp only [bind_eq_ok] at ok
  obtain ⟨requests, counted, _, checked, inserted⟩ := ok
  exact ⟨operation, requests, running, counted, checked, inserted⟩

theorem leased_prepareRoute (h : t.Leased fun node => ⌊cap node⌋.toNat)
    (fixed : ∀ s ∈ stages, s.capacityMiB = cap s.nodeId)
    (ok : t.prepareRoute moment operationId stages ttlMs = .ok (made, u)) :
    u.Leased fun node => ⌊cap node⌋.toNat := by
  obtain ⟨operation, requests, _, counted, checked, inserted⟩ := prepareRoute_ok ok
  have swept := leased_expireReservations h moment.now
  have unexpired : ∀ id l, (t.expireReservations moment.now).2.leases.find? id = some l →
      l.status.live = true → moment.now < l.expiresAt :=
    fun _ _ => expireReservations_unexpired h moment.now
  generalize (t.expireReservations moment.now).2 = v at checked inserted swept unexpired
  obtain ⟨key, fresh, reservations, leases, _⟩ := insertRoute_ok inserted
  obtain ⟨rows, total⟩ := insertLeases_ok leases
  constructor
  · intro id l found
    rw [reservations]
    rcases rows id l found with earlier | ⟨reservation, model, expiry, status⟩
    · obtain ⟨r, foundR, match_⟩ := swept.follows id l earlier
      have other : key ≠ l.reservationId := by
        intro same
        rw [← same, fresh] at foundR
        cases foundR
      exact ⟨r, by rw [find?_insert, if_neg other]; exact foundR, match_⟩
    · rw [reservation]
      exact ⟨preparedRow .., find?_insert_self .., model, expiry, status⟩
  · intro node
    rw [total node]
    by_cases asked : ∃ s ∈ normalized moment stages, s.nodeId = node
    · -- every live lease was counted, since none of them has expired
      have all : v.leases.sumBy (StageLease.memoryOn node) = v.leased node moment.now := by
        refine sumBy_congr fun l mem => ?_
        obtain ⟨id, found⟩ := exists_find?_of_mem_values mem
        by_cases live : l.status.live = true
        · simp [StageLease.memoryOn, live, unexpired id l found live]
        · simp [StageLease.memoryOn, live]
      obtain ⟨q, found, asks, _, least⟩ := requestedByNode_ok counted (.inr asked)
      have enough := assertCapacity_ok checked ((find?_eq_some_iff _ _ _).mp found)
      obtain ⟨s, mem, rfl⟩ := asked
      have within := least s mem rfl
      rw [capacity_of_mem_normalized fixed mem] at within
      simp only [find?_empty, Option.map_none, Option.getD_none, Nat.cast_zero, zero_add] at asks
      rw [all, preparedRow, ← asks]
      exact enough.trans (by exact_mod_cast within)
    · have none : requestedOn node (normalized moment stages) = 0 :=
        sumAt_eq_zero fun s mem on => asked ⟨s, mem, on⟩
      rw [preparedRow, none, add_zero]
      exact swept.bounded node

end Prepare

section Frames

def SameRoutes (t u : Tables) : Prop := u.reservations = t.reservations ∧ u.leases = t.leases

theorem SameRoutes.trans (first : t.SameRoutes u) (second : u.SameRoutes v) : t.SameRoutes v :=
  ⟨second.1.trans first.1, second.2.trans first.2⟩

theorem ensureModel_ok (ok : t.ensureModel modelId autoActivate = .ok (s, u)) :
    t.states.find? modelId = some s ∧ u = t ∨
      t.states.find? modelId = none ∧ s = freshState autoActivate ∧
        u = { t with states := t.states.insert modelId (freshState autoActivate) } := by
  unfold ensureModel at ok
  split at ok
  · rename_i found
    obtain ⟨rfl, rfl⟩ := ok_inj ok
    exact .inl ⟨found, rfl⟩
  rename_i found
  split at ok
  · obtain ⟨rfl, rfl⟩ := ok_inj ok
    exact .inr ⟨found, rfl, rfl⟩
  · cases ok

theorem sameRoutes_ensureModel (ok : t.ensureModel modelId autoActivate = .ok (s, u)) :
    t.SameRoutes u := by
  rcases ensureModel_ok ok with ⟨_, rfl⟩ | ⟨_, _, rfl⟩ <;> exact ⟨rfl, rfl⟩

theorem sameRoutes_ensureModels (ok : ensureModels models t = .ok u) : t.SameRoutes u := by
  induction models generalizing t with
  | nil =>
    obtain rfl := Except.ok.inj ok
    exact ⟨rfl, rfl⟩
  | cons model models ih =>
    simp only [ensureModels, bind_eq_ok] at ok
    obtain ⟨⟨s, v⟩, first, rest⟩ := ok
    exact (sameRoutes_ensureModel first).trans (ih rest)

theorem sameRoutes_requireModel (ok : t.requireModel modelId = .ok (s, u)) : t.SameRoutes u := by
  unfold requireModel at ok
  split at ok
  · cases ok
  · exact sameRoutes_ensureModel ok

theorem sameRoutes_setDesiredState (ok : t.setDesiredState modelId desiredState = .ok (s, u)) :
    t.SameRoutes u := by
  simp only [setDesiredState, bind_eq_ok] at ok
  obtain ⟨⟨s, v⟩, first, done⟩ := ok
  obtain ⟨_, rfl⟩ := ok_inj done
  exact (sameRoutes_requireModel first).trans ⟨rfl, rfl⟩

theorem sameRoutes_rearmAfterRuntimeChange
    (ok : t.rearmAfterRuntimeChange modelId reason = .ok (s, u)) : t.SameRoutes u := by
  simp only [rearmAfterRuntimeChange, bind_eq_ok, throw_bind, raise_eq_ok] at ok
  obtain ⟨⟨s, v⟩, first, _, done⟩ := ok
  obtain ⟨_, rfl⟩ := ok_inj done
  exact (sameRoutes_requireModel first).trans ⟨rfl, rfl⟩

theorem sameRoutes_interruptActive : t.SameRoutes (t.interruptActive s) := by
  unfold interruptActive
  split <;> exact ⟨rfl, rfl⟩

theorem interruptActive_states : (t.interruptActive s).states = t.states := by
  unfold interruptActive
  split <;> rfl

theorem sameRoutes_insertOperation
    (ok : t.insertOperation moment modelId s kind leaseMs = .ok (row, u)) : t.SameRoutes u := by
  simp only [insertOperation, throw_bind, raise_eq_ok] at ok
  obtain ⟨_, rfl⟩ := ok_inj ok.2
  exact ⟨rfl, rfl⟩

theorem sameRoutes_claimOperation
    (ok : t.claimOperation moment modelId kind leaseMs = .ok (row, u)) : t.SameRoutes u := by
  simp only [claimOperation, bind_eq_ok] at ok
  obtain ⟨⟨s, v⟩, first, ok⟩ := ok
  have required := sameRoutes_requireModel first
  split at ok
  · obtain ⟨_, rfl⟩ := ok_inj ok
    exact required
  split at ok
  · obtain ⟨_, rfl⟩ := ok_inj ok
    exact required
  have interrupted := required.trans (sameRoutes_interruptActive (s := s))
  split at ok
  · obtain ⟨_, rfl⟩ := ok_inj ok
    exact interrupted
  · exact interrupted.trans (sameRoutes_insertOperation ok)

theorem sameRoutes_updateOwned (operationId : String) (set : DeploymentState → DeploymentState) :
    t.SameRoutes (t.updateOwned moment operationId set).2 := by
  unfold updateOwned
  split <;> exact ⟨rfl, rfl⟩

theorem sameRoutes_completeOperation (operationId : String) (observedState : ObservedState) :
    t.SameRoutes (t.completeOperation operationId observedState).2 := by
  unfold completeOperation
  split <;> exact ⟨rfl, rfl⟩

end Frames

theorem Leased.frame (h : t.Leased bound) (same : t.SameRoutes u) : u.Leased bound :=
  h.congr same.1 same.2

theorem leased_failOperation (h : t.Leased bound) (operationId errorCode errorMessage : String)
    (retryAt : Option ℚ) :
    (t.failOperation operationId errorCode errorMessage retryAt).2.Leased bound := by
  unfold failOperation
  split
  · exact h
  · refine leased_failPreparedReservations ?_ operationId errorMessage
    exact h.congr rfl rfl

theorem commitRoute_ok
    (ok : t.commitRoute moment reservationId = .ok (made, u)) :
    ∃ r, t.reservations.find? reservationId = some r ∧
      (r.status = .committed ∧ u = t ∨ r.status = .prepared ∧ moment.now < r.expiresAt ∧
        u = ((t.commitReservation reservationId).completeOperation r.operationId .active).2) := by
  unfold commitRoute at ok
  split at ok
  · cases ok
  rename_i r found
  refine ⟨r, found, ?_⟩
  split at ok
  · rename_i committed
    exact .inl ⟨committed, (ok_inj ok).2.symm⟩
  split at ok
  · cases ok
  rename_i prepared
  split at ok
  · cases ok
  · rename_i unexpired
    exact .inr ⟨not_not.mp prepared, not_le.mp unexpired, (ok_inj ok).2.symm⟩

theorem leased_commitRoute (h : t.Leased bound)
    (ok : t.commitRoute moment reservationId = .ok (made, u)) : u.Leased bound := by
  obtain ⟨r, _, ⟨_, rfl⟩ | ⟨_, _, rfl⟩⟩ := commitRoute_ok ok
  · exact h
  · exact (leased_commitReservation h reservationId).frame (sameRoutes_completeOperation ..)

theorem leased_initializePlane (h : t.Leased bound)
    (ok : t.initializePlane moment = .ok (result, u)) : u.Leased bound := by
  simp only [initializePlane, bind_eq_ok] at ok
  obtain ⟨v, ensured, done⟩ := ok
  obtain ⟨_, rfl⟩ := ok_inj done
  refine leased_expireReservations ?_ moment.now
  refine (h.frame (sameRoutes_ensureModels ensured)).frame ?_
  split <;> exact ⟨rfl, rfl⟩

end Tables

section Runs

open Tables

variable {cap : String → ℚ} {t : Tables}

theorem leased_perform (h : t.Leased fun node => ⌊cap node⌋.toNat) (fixed : FixedCapacity cap call)
    (ok : t.perform moment call = .ok (reply, u)) : u.Leased fun node => ⌊cap node⌋.toNat := by
  cases perform_ok ok with
  | upsertRequestedModel | markWaitingCapacity | adoptObservedState => exact h.congr rfl rfl
  | removeRequestedModel => exact leased_removeRequestedModel h _
  | initializePlane done => exact leased_initializePlane h done
  | ensureModel done => exact h.frame (sameRoutes_ensureModel done)
  | setDesiredState done => exact h.frame (sameRoutes_setDesiredState done)
  | rearmAfterRuntimeChange done => exact h.frame (sameRoutes_rearmAfterRuntimeChange done)
  | claimOperation done => exact h.frame (sameRoutes_claimOperation done)
  | renewOperation | markCanary => exact h.frame (sameRoutes_updateOwned ..)
  | completeOperation => exact h.frame (sameRoutes_completeOperation ..)
  | failOperation => exact leased_failOperation h ..
  | prepareRoute done => exact leased_prepareRoute h fixed done
  | commitRoute done => exact leased_commitRoute h done
  | renewRoute => exact leased_renewRoute h ..
  | renewCommittedRoutesForModel => exact leased_renewRoutes _ _ h
  | releaseRoutesForModel => exact leased_releaseRoutesForModel h _
  | removeModelState => exact (leased_releaseRoutesForModel h _).congr rfl rfl

/-- No node is overcommitted, and the leases of a route live as long as it does. -/
structure NotOvercommitted (cap : String → ℚ) (t : Tables) : Prop where
  capacity : ∀ node time, (t.leased node time : ℚ) ≤ max 0 (cap node)
  leases : ∀ id l, t.leases.find? id = some l → ∃ r, t.reservations.find? l.reservationId = some r ∧
    l.expiresAt = r.expiresAt ∧ (l.status.live = true ↔ r.status.live = true)

theorem Tables.leased_le (node : String) (time : ℚ) :
    t.leased node time ≤ t.leases.sumBy (StageLease.memoryOn node) := by
  refine sumBy_le_sumBy (fun l => ?_) t.leases
  by_cases counted : l.nodeId = node ∧ l.status.live = true ∧ time < l.expiresAt
  · simp [StageLease.memoryOn, counted]
  · rw [if_neg counted]
    exact l.memoryOn_nonneg node

theorem Tables.Leased.notOvercommitted (h : t.Leased fun node => ⌊cap node⌋.toNat) :
    NotOvercommitted cap t where
  capacity node time := by
    have whole : ((⌊cap node⌋.toNat : Int) : ℚ) ≤ max 0 (cap node) := by
      rw [Int.toNat_eq_max, max_comm, Int.cast_max]
      exact max_le_max (le_of_eq Int.cast_zero) (Int.floor_le _)
    exact le_trans (by exact_mod_cast (t.leased_le node time).trans (h.bounded node)) whole
  leases id l found := by
    obtain ⟨r, foundR, match_⟩ := h.follows id l found
    exact ⟨r, foundR, match_.expiry, by rw [match_.live]⟩

theorem leases_never_overcommit (cap : String → ℚ) (calls : List (Moment × Call))
    (fixed : ∀ i ∈ calls, FixedCapacity cap i.2) :
    NotOvercommitted cap (final step empty calls) := by
  refine Tables.Leased.notOvercommitted ?_
  refine final_invariant_of (C := fun _ i => FixedCapacity cap i.2) (fun t i fixed h => ?_)
    (leased_empty _) ?_
  · exact commit_invariant (P := Leased _) h fun reply u ok => leased_perform h fixed ok
  intro x mem
  obtain ⟨js, ks, split_, _⟩ := mem_trace mem
  exact fixed x.input (by rw [split_]; simp)

def sharedNode : List (Moment × Call) :=
  let stage (index : Int) (memory : ℚ) : RouteStage :=
    ⟨"node", index, index, index + 1, memory, 17 / 2, none⟩
  [(.of "coordinator" 0 "a", .upsertRequestedModel "model" true),
    (.of "coordinator" 1 "b", .claimOperation "model" .activate none),
    (.of "coordinator" 2 "c", .prepareRoute "dop_b0" [stage 1 (5 / 2), stage 0 2] none),
    (.of "coordinator" 3 "d", .prepareRoute "dop_b0" [stage 0 2] (some 5000)),
    (.of "coordinator" 4 "e", .commitRoute "rsv_c0"),
    (.of "coordinator" 5 "f", .prepareRoute "dop_b0" [stage 0 2] none)]

theorem sharedNode_within_capacity :
    (final step empty sharedNode).leased "node" 5 = 7 ∧
    (final step empty sharedNode).leased "node" 6000 = 5 ∧
      NotOvercommitted (fun _ => 17 / 2) (final step empty sharedNode) :=
  ⟨by decide +kernel, by decide +kernel, leases_never_overcommit _ _ (by decide +kernel)⟩

end Runs

end Mycellios.Deployment
