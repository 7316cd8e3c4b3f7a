import Mycellios.Deployment.Leases

namespace Mycellios.Deployment

open Data Dict Logic

variable {kind : OperationKind} {o : DeploymentOperation} {id : String}

theorem append_cons_inj {α : Type*} {c : α} {xs xs' ys ys' : List α}
    (h : xs ++ c :: ys = xs' ++ c :: ys') (fresh : c ∉ ys) (fresh' : c ∉ ys') :
    xs = xs' ∧ ys = ys' := by
  rcases List.append_eq_append_iff.mp h with ⟨zs, left, right⟩ | ⟨zs, left, right⟩
  · cases zs with
    | nil => exact ⟨by simpa using left.symm, (List.cons.inj right).2⟩
    | cons z zs => exact absurd (by rw [(List.cons.inj right).2]; simp) fresh
  cases zs with
  | nil => exact ⟨by simpa using left, (List.cons.inj right).2.symm⟩
  | cons z zs => exact absurd (by rw [(List.cons.inj right).2]; simp) fresh'

theorem append_colon_inj {a b a' b' : String} (h : a ++ ":" ++ b = a' ++ ":" ++ b')
    (plain : ':' ∉ b.toList) (plain' : ':' ∉ b'.toList) : a = a' ∧ b = b' := by
  have lists := congrArg String.toList h
  simp only [String.toList_append, List.append_assoc] at lists
  obtain ⟨left, right⟩ := append_cons_inj (c := ':') lists plain plain'
  exact ⟨String.toList_inj.mp left, String.toList_inj.mp right⟩

theorem colon_not_mem_repr (n : Nat) : ':' ∉ n.repr.toList := by
  rw [Nat.repr_eq_ofList_toDigits, String.toList_ofList]
  intro mem
  exact absurd (Nat.isDigit_of_mem_toDigits (by omega) (by omega) mem) (by decide)

theorem colon_not_mem_text (kind : OperationKind) : ':' ∉ kind.text.toList := by
  cases kind <;> decide +kernel

theorem OperationKind.text_injective (h : kind.text = kind'.text) : kind = kind' := by
  revert h
  cases kind <;> cases kind' <;> decide +kernel

theorem idempotencyKey_inj
    (h : idempotencyKey modelId generation kind attempt = idempotencyKey modelId' generation' kind'
      attempt') :
    modelId = modelId' ∧ generation = generation' ∧ kind = kind' ∧ attempt = attempt' := by
  obtain ⟨h, attempts⟩ := append_colon_inj h (colon_not_mem_repr _) (colon_not_mem_repr _)
  obtain ⟨h, kinds⟩ := append_colon_inj h (colon_not_mem_text _) (colon_not_mem_text _)
  obtain ⟨models, generations⟩ := append_colon_inj h (colon_not_mem_repr _) (colon_not_mem_repr _)
  exact ⟨models, Nat.repr_injective generations, OperationKind.text_injective kinds,
    Nat.repr_injective attempts⟩

namespace Tables

variable {t u v : Tables} {moment : Moment} {modelId : String} {s : DeploymentState}

def activeOf (t : Tables) (modelId : String) : Option String :=
  (t.states.find? modelId).bind DeploymentState.activeOperationId

/-- `ensureModel` at most adds a state without an operation. -/
structure Ensures (t u : Tables) : Prop where
  operations : u.operations = t.operations
  activeOf : u.activeOf = t.activeOf
  states : ∀ m s, t.states.find? m = some s → u.states.find? m = some s
  fresh : ∀ m s, u.states.find? m = some s → t.states.find? m = some s ∨
    t.states.find? m = none ∧ ∃ autoActivate, s = freshState autoActivate

theorem Ensures.refl (t : Tables) : t.Ensures t := ⟨rfl, rfl, fun _ _ => id, fun _ _ => .inl⟩

theorem Ensures.trans (first : t.Ensures u) (second : u.Ensures v) : t.Ensures v where
  operations := second.operations.trans first.operations
  activeOf := second.activeOf.trans first.activeOf
  states m s found := second.states m s (first.states m s found)
  fresh m s found := by
    rcases second.fresh m s found with earlier | ⟨missing, fresh⟩
    · exact first.fresh m s earlier
    refine .inr ⟨?_, fresh⟩
    by_contra found
    obtain ⟨s', found⟩ := Option.ne_none_iff_exists'.mp found
    rw [first.states m s' found] at missing
    cases missing

theorem ensures_ensureModel (ok : t.ensureModel modelId autoActivate = .ok (s, u)) :
    t.Ensures u ∧ u.states.find? modelId = some s := by
  rcases ensureModel_ok ok with ⟨found, rfl⟩ | ⟨missing, rfl, rfl⟩
  · exact ⟨Ensures.refl u, found⟩
  refine ⟨⟨rfl, ?_, ?_, ?_⟩, find?_insert_self ..⟩
  · funext m
    by_cases here : modelId = m
    · simp [Tables.activeOf, freshState, ← here, missing]
    · simp [Tables.activeOf, here]
  · intro m s found
    have other : modelId ≠ m := by
      rintro rfl
      rw [missing] at found
      cases found
    simpa [other] using found
  · intro m s found
    by_cases here : modelId = m
    · subst here
      rw [find?_insert_self] at found
      exact .inr ⟨missing, autoActivate, (Option.some.inj found).symm⟩
    · exact .inl (by simpa [here] using found)

theorem ensures_ensureModels (ok : ensureModels models t = .ok u) : t.Ensures u := by
  induction models generalizing t with
  | nil =>
    obtain rfl := Except.ok.inj ok
    exact Ensures.refl t
  | cons model models ih =>
    simp only [ensureModels, bind_eq_ok] at ok
    obtain ⟨⟨s, v⟩, first, rest⟩ := ok
    exact (ensures_ensureModel first).1.trans (ih rest)

theorem ensures_requireModel (ok : t.requireModel modelId = .ok (s, u)) :
    t.Ensures u ∧ u.states.find? modelId = some s := by
  unfold requireModel at ok
  split at ok
  · cases ok
  · exact ensures_ensureModel ok

theorem setDesiredState_ok (ok : t.setDesiredState modelId desiredState = .ok (s, u)) :
    ∃ s' v, t.Ensures v ∧ v.states.find? modelId = some s' ∧
      u = { v with states := v.states.insert modelId s } ∧
      s.activeOperationId = s'.activeOperationId ∧ s.observedGeneration = s'.observedGeneration ∧
      (s = s' ∨ s'.desiredState ≠ desiredState ∧ s.generation = s'.generation + 1 ∧
        s.retryCount = 0) := by
  simp only [setDesiredState, bind_eq_ok] at ok
  obtain ⟨⟨s', v⟩, first, done⟩ := ok
  obtain ⟨rfl, rfl⟩ := ok_inj done
  obtain ⟨ensures, found⟩ := ensures_requireModel first
  refine ⟨s', v, ensures, found, rfl, ?_⟩
  by_cases same : s'.desiredState = desiredState
  · simp [same]
  · simp [same]

theorem rearmAfterRuntimeChange_ok (ok : t.rearmAfterRuntimeChange modelId reason = .ok (s, u)) :
    ∃ s' v, t.Ensures v ∧ v.states.find? modelId = some s' ∧ s'.activeOperationId = none ∧
      u = { v with states := v.states.insert modelId s } ∧ s.activeOperationId = none ∧
      s.observedGeneration = s'.observedGeneration ∧ s.generation = s'.generation + 1 := by
  simp only [rearmAfterRuntimeChange, bind_eq_ok, throw_bind, raise_eq_ok] at ok
  obtain ⟨⟨s', v⟩, first, idle, done⟩ := ok
  obtain ⟨rfl, rfl⟩ := ok_inj done
  obtain ⟨ensures, found⟩ := ensures_requireModel first
  exact ⟨s', v, ensures, found, not_not.mp idle, rfl, not_not.mp idle, rfl, rfl⟩

theorem insertOperation_ok (ok : t.insertOperation moment modelId s kind leaseMs = .ok (row, u)) :
    ∃ id, id = moment.newId "dop" 0 ∧ t.operations.find? id = none ∧
      row = some (id, newOperation modelId s kind) ∧
      u.operations = t.operations.insert id (newOperation modelId s kind) ∧
      u.states = t.states.insert modelId (claimedState moment s id kind leaseMs) := by
  simp only [insertOperation, throw_bind, raise_eq_ok] at ok
  obtain ⟨free, done⟩ := ok
  obtain ⟨rfl, rfl⟩ := ok_inj done
  refine ⟨_, rfl, ?_, rfl, rfl, rfl⟩
  simpa [Dict.contains] using fun taken => free (.inl taken)

/-- The caller does not hold the operation, and nobody else holds the model. -/
structure Open (moment : Moment) (t : Tables) (s : DeploymentState) : Prop where
  not_held : ¬((t.runningActive s).isSome = true ∧ s.controllerOwner = some moment.owner ∧
    moment.leaseHolds s = true)
  not_refused : ¬(s.controllerOwner.any (fun owner => owner ≠ "" ∧ owner ≠ moment.owner) = true ∧
    moment.leaseHolds s = true)

theorem claimOperation_ok (ok : t.claimOperation moment modelId kind leaseMs = .ok (row, u)) :
    ∃ s v, t.Ensures v ∧ v.states.find? modelId = some s ∧
      ((v.runningActive s).isSome = true ∧ s.controllerOwner = some moment.owner ∧
        moment.leaseHolds s = true ∧
          row = v.runningActive s ∧ u = v ∨
        row = none ∧ u = v ∨
        Open moment v s ∧ (v.interruptActive s).runningWithKey
        (idempotencyKey modelId s.generation kind (s.retryCount + 1)) = row ∧
          row ≠ none ∧ u = v.interruptActive s ∨
        Open moment v s ∧ (v.interruptActive s).insertOperation moment modelId s kind leaseMs =
        .ok (row, u)) := by
  simp only [claimOperation, bind_eq_ok] at ok
  obtain ⟨⟨s, v⟩, first, ok⟩ := ok
  obtain ⟨ensures, found⟩ := ensures_requireModel first
  refine ⟨s, v, ensures, found, ?_⟩
  split at ok
  · rename_i held
    obtain ⟨rfl, rfl⟩ := ok_inj ok
    exact .inl ⟨held.1, held.2.1, held.2.2, rfl, rfl⟩
  rename_i not_held
  split at ok
  · obtain ⟨rfl, rfl⟩ := ok_inj ok
    exact .inr (.inl ⟨rfl, rfl⟩)
  rename_i not_refused
  split at ok
  · rename_i existing
    obtain ⟨rfl, rfl⟩ := ok_inj ok
    exact .inr (.inr (.inl ⟨⟨not_held, not_refused⟩, existing, by simp, rfl⟩))
  · exact .inr (.inr (.inr ⟨⟨not_held, not_refused⟩, ok⟩))

theorem runningOperation_eq_some :
    t.runningOperation operationId = some o ↔ t.operations.find? operationId = some o ∧
    o.status = .running := by
  simp [runningOperation, Option.filter_eq_some_iff]

section Single

/-- A model's running operation is its active one, with ids and keys as generated. -/
structure Single (t : Tables) : Prop where
  active : ∀ m id, t.activeOf m = some id → ∃ o, t.operations.find? id = some o ∧
    o.status = .running ∧ o.modelId = m
  running : ∀ id o, t.operations.find? id = some o → o.status = .running →
    t.activeOf o.modelId = some id
  named : ∀ id o, t.operations.find? id = some o → id ≠ ""
  keyed : ∀ id o, t.operations.find? id = some o →
    o.idempotencyKey = idempotencyKey o.modelId o.generation o.kind o.attempt

/-- The same, except that one model has no running operation, whatever its state says. -/
structure SingleBut (m : String) (t : Tables) : Prop where
  active : ∀ j id, j ≠ m → t.activeOf j = some id →
    ∃ o, t.operations.find? id = some o ∧ o.status = .running ∧ o.modelId = j
  running : ∀ id o, t.operations.find? id = some o → o.status = .running →
    o.modelId ≠ m ∧ t.activeOf o.modelId = some id
  named : ∀ id o, t.operations.find? id = some o → id ≠ ""
  keyed : ∀ id o, t.operations.find? id = some o →
    o.idempotencyKey = idempotencyKey o.modelId o.generation o.kind o.attempt

theorem single_empty : Single empty where
  active _ _ found := by cases found
  running _ _ found := by cases found
  named _ _ found := by cases found
  keyed _ _ found := by cases found

theorem Single.congr (h : t.Single) (operations : u.operations = t.operations)
    (active : u.activeOf = t.activeOf) : u.Single where
  active := by rw [operations, active]; exact h.active
  running := by rw [operations, active]; exact h.running
  named := by rw [operations]; exact h.named
  keyed := by rw [operations]; exact h.keyed

theorem Single.ensures (h : t.Single) (ensures : t.Ensures u) : u.Single :=
  h.congr ensures.operations ensures.activeOf

theorem activeOf_insert (states : u.states = t.states.insert modelId s) (m : String) :
    u.activeOf m = if modelId = m then s.activeOperationId else t.activeOf m := by
  rw [activeOf, states, find?_insert]
  split <;> rfl

theorem activeOf_erase (states : u.states = t.states.erase modelId) (m : String) :
    u.activeOf m = if modelId = m then none else t.activeOf m := by
  rw [activeOf, states, find?_erase]
  split <;> rfl

theorem activeOf_insert_of_keeps (states : u.states = t.states.insert modelId s)
    (found : t.states.find? modelId = some s')
    (keeps : s.activeOperationId = s'.activeOperationId) : u.activeOf = t.activeOf := by
  funext m
  rw [activeOf_insert states]
  split
  · rename_i here
    rw [keeps, activeOf, ← here, found, Option.bind_some]
  · rfl

theorem activeOf_update_of_keeps {which : String → DeploymentState → Bool}
    {set : DeploymentState → DeploymentState} (keeps : ∀ m s, t.states.find? m = some s →
      which m s = true → (set s).activeOperationId = s.activeOperationId) :
    activeOf { t with states := t.states.update which set } = t.activeOf := by
  funext m
  rw [activeOf, activeOf, find?_update]
  cases found : t.states.find? m with
  | none => rfl
  | some s =>
    rw [Option.map_some, Option.bind_some, Option.bind_some]
    split
    · rename_i hit
      exact keeps m s found hit
    · rfl

/-- The rows of an update that ends operations: none of those it hits is running after it. -/
structure Ends (which : String → DeploymentOperation → Bool)
    (set : DeploymentOperation → DeploymentOperation) : Prop where
  status : ∀ o, (set o).status ≠ .running
  model : ∀ o, (set o).modelId = o.modelId
  generation : ∀ o, (set o).generation = o.generation
  kind : ∀ o, (set o).kind = o.kind
  attempt : ∀ o, (set o).attempt = o.attempt
  key : ∀ o, (set o).idempotencyKey = o.idempotencyKey

variable {which : String → DeploymentOperation → Bool}
  {set : DeploymentOperation → DeploymentOperation}

theorem Ends.running (ends : Ends which set) {operations : Dict String DeploymentOperation}
    (found : (operations.update which set).find? id = some o) (running : o.status = .running) :
    operations.find? id = some o ∧ which id o = false := by
  obtain ⟨o', found', same⟩ := find?_update_eq_some.mp found
  by_cases hit : which id o' = true
  · rw [if_pos hit] at same
    exact absurd (same ▸ running) (ends.status o')
  · rw [if_neg hit] at same
    exact ⟨same ▸ found', by simpa [same] using hit⟩

theorem Ends.keyed (ends : Ends which set) {operations : Dict String DeploymentOperation}
    (keyed : ∀ id o, operations.find? id = some o →
      o.idempotencyKey = idempotencyKey o.modelId o.generation o.kind o.attempt)
    (id : String) (o : DeploymentOperation)
    (found : (operations.update which set).find? id = some o) :
    o.idempotencyKey = idempotencyKey o.modelId o.generation o.kind o.attempt := by
  obtain ⟨o', found', same⟩ := find?_update_eq_some.mp found
  by_cases hit : which id o' = true
  · rw [if_pos hit] at same
    rw [← same, ends.key, ends.model, ends.generation, ends.kind, ends.attempt]
    exact keyed id o' found'
  rw [if_neg hit] at same
  rw [← same]
  exact keyed id o' found'

theorem Single.ends (h : t.Single) (ends : Ends which set)
    (operations : u.operations = t.operations.update which set) (states : u.states = t.states)
    (hits : ∀ id o, t.activeOf modelId = some id → t.operations.find? id = some o →
      which id o = true)
    (only : ∀ id o, t.operations.find? id = some o → which id o = true → o.modelId = modelId) :
    u.SingleBut modelId where
  active j id other found := by
    rw [activeOf, states] at found
    obtain ⟨o, foundO, running, model⟩ := h.active j id found
    refine ⟨o, ?_, running, model⟩
    have missed : ¬which id o = true := fun hit => other (model.symm.trans (only id o foundO hit))
    rw [operations, find?_update, foundO, Option.map_some, if_neg missed]
  running id o found running := by
    rw [operations] at found
    obtain ⟨found, missed⟩ := ends.running found running
    have active := h.running id o found running
    refine ⟨?_, by rw [activeOf, states]; exact active⟩
    rintro rfl
    rw [hits id o active found] at missed
    cases missed
  named id o found := by
    rw [operations] at found
    obtain ⟨o', found', _⟩ := find?_update_eq_some.mp found
    exact h.named id o' found'
  keyed id o found := by
    rw [operations] at found
    exact ends.keyed h.keyed id o found

theorem SingleBut.clear (h : t.SingleBut modelId) (operations : u.operations = t.operations)
    (here : u.activeOf modelId = none) (others : ∀ j, j ≠ modelId → u.activeOf j = t.activeOf j) :
    u.Single where
  active j id found := by
    have other : j ≠ modelId := by
      rintro rfl
      rw [here] at found
      cases found
    rw [others j other] at found
    rw [operations]
    exact h.active j id other found
  running id o found running := by
    rw [operations] at found
    obtain ⟨other, active⟩ := h.running id o found running
    rw [others _ other]
    exact active
  named := by rw [operations]; exact h.named
  keyed := by rw [operations]; exact h.keyed

theorem newId_ne_empty (kind : String) (n : Nat) : moment.newId kind n ≠ "" := by
  intro same
  have lists := congrArg String.toList same
  simp [Moment.newId] at lists

theorem SingleBut.insertOperation (h : t.SingleBut modelId)
    (ok : t.insertOperation moment modelId s kind leaseMs = .ok (row, u)) : u.Single := by
  obtain ⟨key, keyed, fresh, _, operations, states⟩ := insertOperation_ok ok
  have unused : ∀ id o, t.operations.find? id = some o → key ≠ id := by
    rintro id o found rfl
    rw [fresh] at found
    cases found
  constructor
  · intro j id found
    rw [activeOf_insert states] at found
    rw [operations]
    split at found
    · rename_i here
      cases found
      exact ⟨newOperation modelId s kind, find?_insert_self .., rfl, here⟩
    rename_i other
    obtain ⟨o, foundO, rest⟩ := h.active j id (Ne.symm other) found
    exact ⟨o, by rw [find?_insert, if_neg (unused id o foundO)]; exact foundO, rest⟩
  · intro id o found running
    rw [activeOf_insert states]
    rcases of_find?_insert (operations ▸ found) with ⟨rfl, rfl⟩ | ⟨-, found⟩
    · exact if_pos rfl
    obtain ⟨other, active⟩ := h.running id o found running
    rw [if_neg (Ne.symm other)]
    exact active
  · intro id o found
    rcases of_find?_insert (operations ▸ found) with ⟨rfl, -⟩ | ⟨-, found⟩
    · rw [keyed]
      exact newId_ne_empty "dop" 0
    · exact h.named id o found
  · intro id o found
    rcases of_find?_insert (operations ▸ found) with ⟨-, rfl⟩ | ⟨-, found⟩
    · rfl
    · exact h.keyed id o found

theorem SingleBut.runningWithKey (h : t.SingleBut modelId) (generation : Nat) (kind : OperationKind)
    (attempt : Nat) : t.runningWithKey (idempotencyKey modelId generation kind attempt) = none := by
  by_contra some_
  obtain ⟨⟨id, o⟩, found⟩ := Option.ne_none_iff_exists'.mp some_
  rw [Tables.runningWithKey, Option.filter_eq_some_iff] at found
  obtain ⟨found, running⟩ := found
  have foundO := (find?_eq_some_iff _ _ _).mpr (List.mem_of_find?_eq_some found)
  have key : o.idempotencyKey = idempotencyKey modelId generation kind attempt := by
    simpa using List.find?_some found
  rw [h.keyed id o foundO] at key
  exact (h.running id o foundO (of_decide_eq_true running)).1 (idempotencyKey_inj key).1

end Single

section Preserved

variable {which : String → DeploymentOperation → Bool}
  {set : DeploymentOperation → DeploymentOperation}

def SameOperations (t u : Tables) : Prop := u.states = t.states ∧ u.operations = t.operations

theorem SameOperations.activeOf (same : t.SameOperations u) : u.activeOf = t.activeOf := by
  funext m
  rw [Tables.activeOf, same.1, Tables.activeOf]

theorem Single.frame (h : t.Single) (same : t.SameOperations u) : u.Single :=
  h.congr same.2 same.activeOf

theorem Single.runningActive (h : t.Single) (found : t.states.find? modelId = some s) :
    t.runningActive s = s.activeOperationId.bind fun id => (t.operations.find? id).map fun o =>
    (id, o) := by
  unfold Tables.runningActive activeOperation
  cases active : s.activeOperationId with
  | none => rfl
  | some id =>
    obtain ⟨o, foundO, running, _⟩ :=
      h.active modelId id (by rw [Tables.activeOf, found, Option.bind_some, active])
    simp [h.named id o foundO, foundO, running]

theorem ends_finishOperationRow (operationId : String) (status : OperationStatus)
    (errorCode errorMessage : String) (ended : status ≠ .running) :
    Ends (fun id o => id = operationId ∧ o.status.unfinished) fun o => { o with
      status := status
      errorCode := some errorCode
      errorMessage := some (clip errorMessage) } :=
  ⟨fun _ => ended, fun _ => rfl, fun _ => rfl, fun _ => rfl, fun _ => rfl, fun _ => rfl⟩

theorem finishOperationRow_find? {s : OperationStatus}
    (found : t.operations.find? id = some o)
    (other : id = operationId → o.status.unfinished = false) :
    (t.finishOperationRow operationId s c m).operations.find? id = some o :=
  find?_update_of_missed found (by simpa using other)

theorem ends_succeedOperationRow (operationId : String) :
    Ends (fun id o => id = operationId ∧ o.status = .running) fun o =>
    { o with status := .succeeded } :=
  ⟨fun _ => by simp, fun _ => rfl, fun _ => rfl, fun _ => rfl, fun _ => rfl, fun _ => rfl⟩

section

variable (h : t.Single)
include h

theorem Single.interruptActive (found : t.states.find? modelId = some s) :
    (t.interruptActive s).SingleBut modelId := by
  have active : t.activeOf modelId = s.activeOperationId := by
    rw [activeOf, found, Option.bind_some]
  unfold Tables.interruptActive
  rw [h.runningActive found]
  cases operation : s.activeOperationId with
  | none =>
    refine ⟨fun j id _ => h.active j id, fun id o foundO running => ?_, h.named, h.keyed⟩
    have here := h.running id o foundO running
    refine ⟨?_, here⟩
    rintro rfl
    rw [active, operation] at here
    cases here
  | some id =>
    obtain ⟨o, foundO, running, model⟩ := h.active modelId id (active.trans operation)
    rw [Option.bind_some, foundO, Option.map_some]
    refine h.ends (ends_finishOperationRow id .interrupted _ _ (by decide)) rfl rfl ?_ ?_
    · intro j o' activeJ foundJ
      rw [active, operation] at activeJ
      cases activeJ
      rw [foundO] at foundJ
      cases foundJ
      simp [running, OperationStatus.unfinished]
    intro j o' foundJ hit
    obtain ⟨rfl, _⟩ := of_decide_eq_true hit
    rw [foundO] at foundJ
    cases foundJ
    exact model

theorem Single.settle (running : t.runningOperation operationId = some o)
    (ends : Ends which set) (operations : u.operations = t.operations.update which set)
    (states : u.states = t.states) (hit : which operationId o = true)
    (only : ∀ id o, which id o = true → id = operationId)
    (settle : DeploymentState → DeploymentState)
    (clears : ∀ s, (settle s).activeOperationId = none) :
    (u.settleState o.modelId operationId settle).Single := by
  obtain ⟨found, status⟩ := runningOperation_eq_some.mp running
  have active := h.running operationId o found status
  have ended : u.SingleBut o.modelId := by
    refine h.ends ends operations states ?_ ?_
    · intro id o' activeId foundId
      rw [active] at activeId
      cases activeId
      rw [found] at foundId
      cases foundId
      exact hit
    intro id o' foundId hitId
    rw [only id o' hitId, found] at foundId
    cases foundId
    rfl
  refine ended.clear rfl ?_ ?_
  · obtain ⟨s, foundS, activeS⟩ := Option.bind_eq_some_iff.mp active
    simp [activeOf, settleState, find?_update, states, foundS, activeS, clears]
  intro j other
  rw [activeOf, settleState, find?_update]
  simp [activeOf, other]

theorem single_completeOperation (operationId : String) (observedState : ObservedState) :
    (t.completeOperation operationId observedState).2.Single := by
  unfold completeOperation
  split
  · exact h
  rename_i o running
  refine h.settle (u := t.succeedOperationRow operationId) running
    (ends_succeedOperationRow operationId)
    rfl rfl ?_ ?_ _ fun _ => rfl
  · simpa using (runningOperation_eq_some.mp running).2
  · intro id o' hit
    exact (of_decide_eq_true hit).1

theorem single_failOperation (operationId errorCode errorMessage : String) (retryAt : Option ℚ) :
    (t.failOperation operationId errorCode errorMessage retryAt).2.Single := by
  unfold failOperation
  split
  · exact h
  rename_i o running
  have settled := h.settle (u := t.finishOperationRow operationId .failed errorCode errorMessage)
    running
    (ends_finishOperationRow operationId .failed errorCode errorMessage (by decide)) rfl rfl
    (by simpa [OperationStatus.unfinished] using .inr (runningOperation_eq_some.mp running).2)
    (fun id o' hit => (of_decide_eq_true hit).1) (failedState errorMessage retryAt) fun _ => rfl
  exact settled.frame ⟨rfl, rfl⟩

theorem single_claimOperation
    (ok : t.claimOperation moment modelId kind leaseMs = .ok (row, u)) : u.Single := by
  obtain ⟨s, v, ensures, found, cases_⟩ := claimOperation_ok ok
  have hv := h.ensures ensures
  have idle := hv.interruptActive found
  rcases cases_ with ⟨_, _, _, _, rfl⟩ | ⟨_, rfl⟩ | ⟨_, existing, some_, _⟩ | ⟨_, started⟩
  · exact hv
  · exact hv
  · rw [idle.runningWithKey] at existing
    exact absurd existing.symm some_
  · exact idle.insertOperation started

theorem single_removeRequestedModel (modelId : String) :
    (t.removeRequestedModel modelId).2.Single := by
  unfold removeRequestedModel
  split
  · constructor
    · intro j id found
      rw [activeOf_erase rfl] at found
      split at found
      · cases found
      rename_i other
      obtain ⟨o, foundO, running, model⟩ := h.active j id found
      exact ⟨o, find?_filter_eq_some.mpr ⟨foundO, by simpa [model] using Ne.symm other⟩, running,
        model⟩
    · intro id o found running
      obtain ⟨foundO, other⟩ := find?_filter_eq_some.mp found
      rw [activeOf_erase rfl, if_neg (Ne.symm (of_decide_eq_true other))]
      exact h.running id o foundO running
    · intro id o found
      exact h.named id o (find?_filter_eq_some.mp found).1
    · intro id o found
      exact h.keyed id o (find?_filter_eq_some.mp found).1
  · exact h

end

theorem sameOperations_expireReservations (now : ℚ) :
    t.SameOperations (t.expireReservations now).2 := by
  simp only [expireReservations]
  split <;> exact ⟨rfl, rfl⟩

theorem sameOperations_prepareRoute
    (ok : t.prepareRoute moment operationId stages ttlMs = .ok (made, u)) : t.SameOperations u := by
  obtain ⟨_, _, _, _, _, inserted⟩ := prepareRoute_ok ok
  obtain ⟨_, _, _, _, states, operations⟩ := insertRoute_ok inserted
  have swept := sameOperations_expireReservations (t := t) moment.now
  exact ⟨states.trans swept.1, operations.trans swept.2⟩

theorem sameOperations_renewRoute (reservationId : String) (ttlMs : Option ℚ) :
    t.SameOperations (t.renewRoute moment reservationId ttlMs).2 := by
  simp only [renewRoute]
  split <;> exact ⟨rfl, rfl⟩

theorem sameOperations_renewRoutes (ids : List String) (ttlMs : Option ℚ) :
    t.SameOperations (renewRoutes moment ttlMs ids t).2 := by
  induction ids generalizing t with
  | nil => exact ⟨rfl, rfl⟩
  | cons id ids ih =>
    have first : t.SameOperations (t.renewRoute moment id ttlMs).2 :=
      sameOperations_renewRoute id ttlMs
    exact ⟨ih.1.trans first.1, ih.2.trans first.2⟩

theorem ends_interruptAll : Ends (fun _ o => o.status.unfinished) fun o => { o with
    status := .interrupted
    errorCode := some "coordinator_restarted"
    errorMessage := some "The coordinator restarted while the operation was running." } :=
  ⟨fun _ => by simp, fun _ => rfl, fun _ => rfl, fun _ => rfl, fun _ => rfl, fun _ => rfl⟩

theorem initializePlane_idle (h : t.Single) (ok : t.initializePlane moment = .ok (result, u)) :
    ∀ m, u.activeOf m = none := by
  simp only [initializePlane, bind_eq_ok] at ok
  obtain ⟨v, ensured, done⟩ := ok
  obtain ⟨_, rfl⟩ := ok_inj done
  intro m
  rw [(sameOperations_expireReservations moment.now).activeOf]
  split
  · rw [activeOf, resetStates, find?_update]
    cases v.interruptAll.states.find? m with
    | none => rfl
    | some s => cases active : s.activeOperationId <;> simp [active]
  rename_i none
  -- no operation was unfinished, so none is active
  by_contra some_
  obtain ⟨id, active⟩ := Option.ne_none_iff_exists'.mp some_
  obtain ⟨o, found, running, _⟩ := (h.ensures (ensures_ensureModels ensured)).active m id active
  have unfinished := size_filter_eq_zero.mp (Nat.eq_zero_of_not_pos none) id o found
  simp [running, OperationStatus.unfinished] at unfinished

theorem initializePlane_operations (ok : t.initializePlane moment = .ok (result, u)) :
    u.operations = t.interruptAll.operations := by
  simp only [initializePlane, bind_eq_ok] at ok
  obtain ⟨v, ensured, done⟩ := ok
  obtain ⟨_, rfl⟩ := ok_inj done
  have same : v.interruptAll.operations = t.interruptAll.operations := by
    rw [interruptAll, interruptAll, (ensures_ensureModels ensured).operations]
  rw [(sameOperations_expireReservations moment.now).2, ← same]
  split <;> rfl

theorem single_initializePlane (h : t.Single) (ok : t.initializePlane moment = .ok (result, u)) :
    u.Single := by
  have operations := initializePlane_operations ok
  constructor
  · intro m id found
    rw [initializePlane_idle h ok m] at found
    cases found
  · intro id o found running
    rw [operations] at found
    have missed := (ends_interruptAll.running found running).2
    simp [running, OperationStatus.unfinished] at missed
  · intro id o found
    rw [operations] at found
    obtain ⟨o', found', _⟩ := find?_update_eq_some.mp found
    exact h.named id o' found'
  · intro id o found
    rw [operations] at found
    exact ends_interruptAll.keyed h.keyed id o found

theorem single_updateOwned (h : t.Single) (operationId : String)
    {set : DeploymentState → DeploymentState}
    (keeps : ∀ s, (set s).activeOperationId = s.activeOperationId) :
    (t.updateOwned moment operationId set).2.Single := by
  unfold updateOwned
  split
  · exact h
  · exact h.congr rfl (activeOf_update_of_keeps fun m s _ _ => keeps s)

end Preserved

end Tables

/-- The model whose active operation a call forgets without ending it. -/
def Call.abandons : Call → Option String
  | .markWaitingCapacity modelId _ => some modelId
  | .removeModelState modelId => some modelId
  | _ => none

def Orderly (t : Tables) (call : Call) : Prop := call.abandons.bind t.activeOf = none

instance (t : Tables) (call : Call) : Decidable (Orderly t call) :=
  inferInstanceAs (Decidable (_ = none))

section Runs

open Tables

variable {t : Tables} {moment : Moment}

theorem single_markWaitingCapacity (h : t.Single) (idle : t.activeOf modelId = none)
    (message : Option String) : (t.markWaitingCapacity modelId message).Single := by
  refine h.congr rfl (activeOf_update_of_keeps fun m s found hit => ?_)
  obtain ⟨rfl, _⟩ := of_decide_eq_true hit
  rw [activeOf, found, Option.bind_some] at idle
  exact idle.symm

theorem single_removeModelState (h : t.Single) (idle : t.activeOf modelId = none) :
    (t.removeModelState modelId).Single := by
  refine h.congr rfl ?_
  funext m
  rw [activeOf_erase (t := t) rfl]
  split
  · rename_i here
    rw [← here, idle]
  · rfl

theorem single_perform (h : t.Single) (orderly : Orderly t call)
    (ok : t.perform moment call = .ok (reply, u)) : u.Single := by
  cases perform_ok ok with
  | upsertRequestedModel | releaseRoutesForModel => exact h.frame ⟨rfl, rfl⟩
  | removeRequestedModel => exact single_removeRequestedModel h _
  | initializePlane done => exact single_initializePlane h done
  | ensureModel done => exact h.ensures (ensures_ensureModel done).1
  | setDesiredState done =>
    obtain ⟨s, v, ensures, found, rfl, active, _⟩ := setDesiredState_ok done
    exact (h.ensures ensures).congr rfl (activeOf_insert_of_keeps rfl found active)
  | rearmAfterRuntimeChange done =>
    obtain ⟨s, v, ensures, found, idle, rfl, active, _⟩ := rearmAfterRuntimeChange_ok done
    exact (h.ensures ensures).congr rfl
      (activeOf_insert_of_keeps rfl found (active.trans idle.symm))
  | claimOperation done => exact single_claimOperation h done
  | renewOperation | markCanary => exact single_updateOwned h _ fun _ => rfl
  | markWaitingCapacity => exact single_markWaitingCapacity h orderly _
  | adoptObservedState => exact h.congr rfl (activeOf_update_of_keeps fun _ _ _ _ => rfl)
  | completeOperation => exact single_completeOperation h ..
  | failOperation => exact single_failOperation h ..
  | prepareRoute done => exact h.frame (sameOperations_prepareRoute done)
  | @commitRoute reservationId _ _ done =>
    obtain ⟨r, _, ⟨_, rfl⟩ | ⟨_, _, rfl⟩⟩ := commitRoute_ok done
    · exact h
    · have same : t.SameOperations (t.commitReservation reservationId) := ⟨rfl, rfl⟩
      exact single_completeOperation (h.frame same) ..
  | renewRoute => exact h.frame (sameOperations_renewRoute ..)
  | renewCommittedRoutesForModel => exact h.frame (sameOperations_renewRoutes ..)
  | removeModelState => exact single_removeModelState h orderly

theorem single_step (t : Tables) (i : Moment × Call) (orderly : Orderly t i.2) (h : t.Single) :
    (step t i).1.Single :=
  commit_invariant (P := Single) h fun _ _ ok => single_perform h orderly ok

structure OneRunning (t : Tables) : Prop where
  running_iff : ∀ id o, t.operations.find? id = some o →
    (o.status = .running ↔ t.activeOf o.modelId = some id)
  active : ∀ m id, t.activeOf m = some id → ∃ o, t.operations.find? id = some o ∧ o.modelId = m
  unique : ∀ id o id' o', t.operations.find? id = some o → t.operations.find? id' = some o' →
    o.status = .running → o'.status = .running → o.modelId = o'.modelId → id = id'

theorem Tables.Single.oneRunning (h : t.Single) : OneRunning t where
  running_iff id o found := by
    refine ⟨h.running id o found, fun active => ?_⟩
    obtain ⟨o', found', running, _⟩ := h.active _ _ active
    rw [found] at found'
    cases found'
    exact running
  active m id active := by
    obtain ⟨o, found, _, model⟩ := h.active m id active
    exact ⟨o, found, model⟩
  unique id o id' o' found found' running running' same := by
    have active := h.running id o found running
    rw [same, h.running id' o' found' running'] at active
    exact (Option.some.inj active).symm

structure Claimed (moment : Moment) (modelId id : String) (o : DeploymentOperation) (t : Tables) :
    Prop where
  stored : t.operations.find? id = some o
  running : o.status = .running
  active : t.activeOf modelId = some id
  owned : ∃ s, t.states.find? modelId = some s ∧ s.controllerOwner = some moment.owner ∧
    moment.leaseHolds s = true

theorem claimed_of_claimOperation (h : t.Single)
    (ok : t.claimOperation moment modelId kind leaseMs = .ok (some (id, o), u)) :
    Claimed moment modelId id o u := by
  obtain ⟨s, v, ensures, found, cases_⟩ := claimOperation_ok ok
  have hv := h.ensures ensures
  have idle := hv.interruptActive found
  rcases cases_ with ⟨_, owner, lease, row, rfl⟩ | ⟨row, _⟩ | ⟨_, existing, some_, _⟩ | ⟨_, started⟩
  · rw [hv.runningActive found] at row
    obtain ⟨id', active, row⟩ := Option.bind_eq_some_iff.mp row.symm
    obtain ⟨o', found', same⟩ := Option.map_eq_some_iff.mp row
    obtain ⟨rfl, rfl⟩ := Prod.mk.inj same
    have activeId : u.activeOf modelId = some id' := by
      rw [activeOf, found, Option.bind_some, active]
    obtain ⟨o, foundO, running, _⟩ := hv.active modelId id' activeId
    rw [found'] at foundO
    cases foundO
    exact ⟨found', running, activeId, s, found, owner, lease⟩
  · cases row
  · rw [idle.runningWithKey] at existing
    exact absurd existing.symm some_
  · obtain ⟨key, _, _, row, operations, states⟩ := insertOperation_ok started
    obtain ⟨rfl, rfl⟩ := Prod.mk.inj (Option.some.inj row)
    refine ⟨by rw [operations]; exact find?_insert_self .., rfl, ?_, _,
      by rw [states]; exact find?_insert_self .., rfl, ?_⟩
    · rw [activeOf_insert states, if_pos rfl]
      rfl
    have long : (1000 : ℚ) ≤ max 1000 (leaseMs.getD 60000) := le_max_left _ _
    refine decide_eq_true ?_
    simp only [claimedState, Option.getD_some, Moment.deadline]
    linarith

theorem one_running_operation (calls : List (Moment × Call))
    (orderly : ∀ x ∈ trace step empty calls, Orderly x.pre x.input.2) :
    OneRunning (final step empty calls) ∧
      ∀ x ∈ trace step empty calls, ∀ modelId kind leaseMs id o,
        x.input.2 = .claimOperation modelId kind leaseMs →
        x.output = .ok (.operation (some (id, o))) → Claimed x.input.1 modelId id o x.post := by
  refine ⟨Single.oneRunning (final_invariant_of single_step single_empty orderly), ?_⟩
  intro x mem modelId kind leaseMs id o claims returns
  obtain ⟨h, output, post⟩ := mem_trace_of single_step single_empty orderly mem
  rw [output, step, commit, claims] at returns
  rw [post, step, commit, claims]
  simp only [perform] at returns ⊢
  cases result : x.pre.claimOperation x.input.1 modelId kind leaseMs with
  | error e =>
    rw [result] at returns
    cases returns
  | ok done =>
    obtain ⟨row, u⟩ := done
    rw [result] at returns
    cases Except.ok.inj returns
    exact claimed_of_claimOperation h result

def abandoned : List (Moment × Call) :=
  [(.of "first" 0 "a", .upsertRequestedModel "model" true),
    (.of "first" 1 "b", .claimOperation "model" .activate none),
    (.of "first" 2 "c", .markWaitingCapacity "model" none)]

theorem abandoned_operation_runs_on :
    ¬OneRunning (final step empty abandoned) ∧
      (step (final step empty abandoned) (.of "second" 3 "d",
        .claimOperation "model" .activate none)).2 =
        .ok (.operation ((final step empty abandoned).operations.find? "dop_b0" |>.map fun o =>
          ("dop_b0", o))) ∧
      ((step (final step empty abandoned) (.of "second" 3 "d",
        .claimOperation "model" .activate none)).1.states.find? "model").map
        (fun s => (s.activeOperationId, s.controllerOwner)) = some (none, none) := by
  refine ⟨fun h => ?_, by decide +kernel, by decide +kernel⟩
  obtain ⟨o, found, running⟩ : ∃ o, (final step empty abandoned).operations.find? "dop_b0" =
      some o ∧ o.status = .running :=
    ⟨newOperation "model" (freshState true) .activate, by decide +kernel, rfl⟩
  have active := (h.running_iff _ o found).mp running
  have model : o.modelId = "model" := by
    have same : (final step empty abandoned).operations.find? "dop_b0" =
      some (newOperation "model" (freshState true) .activate) := by decide +kernel
    rw [found] at same
    rw [Option.some.inj same]
    rfl
  rw [model] at active
  exact absurd active (by decide +kernel)

def takenOver : List (Moment × Call) :=
  [(.of "first" 0 "a", .upsertRequestedModel "model" true),
    (.of "first" 1 "b", .claimOperation "model" .activate (some 5000)),
    (.of "second" 3 "c", .claimOperation "model" .repair none),
    (.of "second" 6000 "d", .claimOperation "model" .repair none)]

theorem takenOver_one_running :
    ((final step empty takenOver).operations.entries.map fun e => (e.1, e.2.status)) =
        [("dop_b0", .interrupted), ("dop_d0", .running)] ∧
      OneRunning (final step empty takenOver) :=
  ⟨by decide +kernel, (one_running_operation takenOver (by decide +kernel)).1⟩

end Runs

end Mycellios.Deployment
