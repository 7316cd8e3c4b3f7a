import Mycellios.Stage.Order

namespace Mycellios.Stage

open Data Logic Protocol

def reserves : FrameType → Bool
  | .treePrepare | .treePrepareResult | .treeReservationCommit | .treeReservationCommitResult =>
    true
  | _ => false

variable {ρ : Type} {s s' s'' : StageState ρ} {f : Frame}

def TensorBatch (s : StageState ρ) : Prop := ∀ f ∈ s.areas.batch, f.frameType.isTensor = true

/-- Nothing that reserves was sent, and no reservation is new. -/
structure Quiet (s s' : StageState ρ) : Prop where
  batch : TensorBatch s → TensorBatch s'
  sent : ∃ new, s'.sent = s.sent ++ new ∧ (TensorBatch s → ∀ o ∈ new, reserves o.frameType = false)
  active : ∀ r', s'.reservations.active = some r' → ∃ r, s.reservations.active = some r ∧
    r'.expectedCommitPredecessors = r.expectedCommitPredecessors

instance Quiet.isRefl : Std.Refl (@Quiet ρ) where
  refl s := ⟨id, ⟨[], by simp⟩, fun r h => ⟨r, h, rfl⟩⟩

instance Quiet.isTrans : IsTrans (StageState ρ) Quiet where
  trans s t u h h' := by
    refine ⟨h'.batch ∘ h.batch, ?_, fun r'' found => ?_⟩
    · obtain ⟨new, sent, plain⟩ := h.sent
      obtain ⟨new', sent', plain'⟩ := h'.sent
      refine ⟨new ++ new', by rw [sent', sent, List.append_assoc], fun batch o mem => ?_⟩
      exact (List.mem_append.mp mem).elim (plain batch o) (plain' (h.batch batch) o)
    obtain ⟨r', found, same'⟩ := h'.active r'' found
    obtain ⟨r, found, same⟩ := h.active r' found
    exact ⟨r, found, same'.trans same⟩

theorem Quiet.of_eq (areas : s'.areas = s.areas) (sent : s'.sent = s.sent)
    (active : s'.reservations.active = s.reservations.active) : Quiet s s' where
  batch := by rw [TensorBatch, TensorBatch, areas]; exact id
  sent := ⟨[], by simp [sent]⟩
  active := fun r found => ⟨r, active ▸ found, rfl⟩

theorem Quiet.reactivate (h : Quiet s t)
    (found : s.reservations.active = some r) (active : s'.reservations.active = some r')
    (same : r'.expectedCommitPredecessors = r.expectedCommitPredecessors)
    (areas : s'.areas = t.areas) (sent : s'.sent = t.sent) : Quiet s s' where
  batch := fun batch => by rw [TensorBatch, areas]; exact h.batch batch
  sent := by rw [sent]; exact h.sent
  active := by
    intro r'' found'
    obtain rfl := Option.mem_unique active found'
    exact ⟨r, found, same⟩

section Handlers

variable (config : StageConfig) (runner : Runner ρ) {frame : Frame} {how : Move} {source : Source}
  {frames : List Frame} {later : ℚ}

omit config runner in
theorem send_quiet (plain : reserves o.frameType = false) : Within Quiet (send o) s :=
  ⟨id, ⟨[o], rfl, fun _ o' mem => by rwa [List.mem_singleton.mp mem]⟩, fun r h => ⟨r, h, rfl⟩⟩

omit config runner in
theorem call_quiet (f : ρ → Except StageError ρ) : Within Quiet (call f) s := by
  refine within_get_bind (within_bind (within_check _) fun next t _ => ?_)
  exact within_modify (.of_eq rfl rfl rfl)

omit config runner in
theorem shift_quiet (kept : ∀ a : Areas, (a.move m).batch ⊆ a.batch) : Within Quiet (shift m) s :=
  ⟨fun batch f mem => batch f (kept _ mem), ⟨[], by simp⟩, fun r h => ⟨r, h, rfl⟩⟩

omit config runner in
theorem shift_tensor_quiet (tensor : f.frameType.isTensor = true)
    (put : (s.areas.move m).batch = s.areas.batch ++ [f]) : Within Quiet (shift m) s := by
  refine ⟨fun batch f' mem => ?_, ⟨[], by simp⟩, fun r h => ⟨r, h, rfl⟩⟩
  change f' ∈ (s.areas.move m).batch at mem
  rw [put, List.mem_append, List.mem_singleton] at mem
  rcases mem with mem | rfl
  · exact batch f' mem
  · exact tensor

omit config runner in
theorem setActive_none_quiet : Within Quiet (setActive none) s :=
  ⟨id, ⟨[], by simp⟩, fun r found => by cases found⟩

theorem apply_kept (source : Source) (a : Areas) : (a.move (.apply source)).batch ⊆ a.batch :=
  fun _ mem => pop_batch a source ▸ mem

theorem skip_kept (source : Source) (a : Areas) : (a.move (.skip source)).batch ⊆ a.batch :=
  fun _ mem => pop_batch a source ▸ mem

theorem beginStageRequest_quiet (kept : ∀ a : Areas, (a.move how).batch ⊆ a.batch) :
    Within Quiet (beginStageRequest config runner frame how) s := by
  refine within_bind (call_quiet _) fun _ t _ => within_bind (shift_quiet kept) fun _ t _ => ?_
  refine within_bind (within_modify (.of_eq rfl rfl rfl)) fun _ t _ => ?_
  exact within_ite (fun _ => send_quiet rfl) fun _ => within_pure _

theorem truncate_quiet : Within Quiet (truncate config runner frame source) s := by
  refine within_bind (call_quiet _) fun _ t _ => within_bind (shift_quiet (apply_kept _))
    fun _ t _ => ?_
  exact within_ite (fun _ => send_quiet rfl) fun _ => within_pure _

theorem ping_quiet : Within Quiet (ping config frame source) s := by
  refine within_bind (within_raiseIf _ _) fun _ t _ => within_bind (shift_quiet (skip_kept _))
    fun _ t _ => ?_
  apply send_quiet
  cases config.hasNext <;> rfl

theorem endStageRequest_quiet (kept : ∀ a : Areas, (a.move how).batch ⊆ a.batch)
    (plain : reserves frame.frameType = false) :
    Within Quiet (endStageRequest config runner frame how) s := by
  refine within_get_bind (within_bind (within_raiseIf _ _) fun _ t _ => ?_)
  refine within_bind (call_quiet _) fun _ t _ => within_bind (shift_quiet kept) fun _ t _ => ?_
  refine within_bind (within_modify (.of_eq rfl rfl rfl)) fun _ t _ => within_bind ?_
    fun _ t _ => ?_
  · apply within_get_bind
    split
    · exact within_pure _
    · exact within_ite (fun _ => setActive_none_quiet) fun _ => within_pure _
  · exact within_ite (fun _ => send_quiet plain) fun _ => within_pure _

theorem cancelTreeReservation_quiet : Within Quiet (cancelTreeReservation config frame) s := by
  refine within_bind (within_check _) fun nonce t _ => within_get_bind ?_
  refine within_bind (within_raiseIf _ _) fun _ u _ => ?_
  cases t.reservations.active with
  | none =>
    refine within_bind (within_raiseIf _ _) fun _ v _ => ?_
    exact within_ite (fun _ => send_quiet rfl) fun _ => within_pure _
  | some active =>
    refine within_bind (within_raiseIf _ _) fun _ v _ => within_bind (within_raiseIf _ _)
      fun _ v _ => ?_
    refine within_bind setActive_none_quiet fun _ v _ => ?_
    exact within_ite (fun _ => send_quiet rfl) fun _ => within_pure _

theorem forkPhysicalStageRequest_quiet (kept : ∀ a : Areas, (a.move how).batch ⊆ a.batch) :
    Within Quiet (forkPhysicalStageRequest config runner child origin owner how) s := by
  refine within_get_bind (within_bind (within_check _) fun found t _ => ?_)
  refine within_bind (within_check _) fun forked t _ => ?_
  refine within_bind (within_modify (.of_eq rfl rfl rfl)) fun _ t _ => ?_
  refine within_bind (shift_quiet kept) fun _ t _ => ?_
  split
  · exact within_bind (call_quiet _) fun _ t _ => within_throw _
  refine within_bind (within_modify (.of_eq rfl rfl rfl)) fun _ t _ => within_get_bind ?_
  split
  · refine within_bind (within_modify (.of_eq rfl rfl rfl)) fun _ t _ => ?_
    exact within_bind (call_quiet _) fun _ t _ => within_throw _
  · exact within_modify (.of_eq rfl rfl rfl)

theorem forkStageRequest_quiet (kept : ∀ a : Areas, (a.move how).batch ⊆ a.batch) :
    Within Quiet (forkStageRequest config runner frame how later) s := by
  rw [Within, forkStageRequest, wp_bind, wp_check]
  refine ⟨fun parent _ => ?_, fun _ _ => refl_of Quiet s⟩
  rw [wp_bind, wp_get]
  cases found : s.reservations.active with
  | none => exact within_throw _
  | some active =>
    simp only [wp_bind, wp_raiseIf]
    refine ⟨fun _ => refl_of Quiet s, fun _ => ⟨fun _ => refl_of Quiet s, fun _ => ?_⟩⟩
    cases active.pathLengths[active.consumedForks]? with
    | none => exact within_throw _
    | some pathLength =>
      rw [wp_bind]
      refine wp_post (forkPhysicalStageRequest_quiet config runner kept) ?_
      intro _ t forked
      rw [wp_ite]
      split
      · have passed := trans_of Quiet forked (send_quiet (s := t) (o :=
          { peer := .downstream, frameType := .fork, requestId := frame.requestId
            payload := frame.payload }) rfl)
        exact passed.reactivate found rfl rfl rfl rfl
      · exact forked.reactivate found rfl rfl rfl rfl

theorem consumeVerifies_expected (h : consumeVerifies active frames = .ok active') :
    active'.expectedCommitPredecessors = active.expectedCommitPredecessors := by
  induction frames generalizing active with
  | nil =>
    obtain rfl := Except.ok.inj h
    rfl
  | cons frame frames ih =>
    rw [consumeVerifies] at h
    split at h
    · cases h
    split at h
    · cases h
    split at h
    · cases h
    · simpa using ih h

omit config runner in
theorem consumeTreeReservationVerifies_quiet :
    Within Quiet (consumeTreeReservationVerifies frames later) s := by
  apply within_get_bind
  cases found : s.reservations.active with
  | none => exact within_pure _
  | some active =>
    refine within_ite (fun _ => within_pure _) fun _ => ?_
    rw [Within]
    simp only [wp_bind, wp_raiseIf, wp_check]
    refine ⟨fun _ => refl_of Quiet s,
      fun _ => ⟨fun consumed same => ⟨fun _ => refl_of Quiet s, fun _ => ?_⟩,
        fun _ _ => refl_of Quiet s⟩⟩
    rw [wp_ite]
    split
    · exact setActive_none_quiet
    · exact (refl_of Quiet s).reactivate found rfl (consumeVerifies_expected same :) rfl rfl

theorem promoteStageRequest_quiet (kept : ∀ a : Areas, (a.move how).batch ⊆ a.batch) :
    Within Quiet (promoteStageRequest config runner frame how) s := by
  refine within_bind (within_check _) fun child t _ => within_get_bind ?_
  refine within_bind (within_raiseIf _ _) fun _ t _ => within_bind (within_raiseIf _ _)
    fun _ t _ => ?_
  refine within_bind (within_raiseIf _ _) fun _ t _ => within_bind (within_raiseIf _ _)
    fun _ t _ => ?_
  refine within_bind (within_raiseIf _ _) fun _ t _ => ?_
  split
  · exact within_throw _
  refine within_bind (within_raiseIf _ _) fun _ t _ => within_bind (within_raiseIf _ _)
    fun _ t _ => ?_
  refine within_bind (call_quiet _) fun _ t _ => within_bind (shift_quiet kept) fun _ t _ => ?_
  refine within_bind (within_modify (.of_eq rfl rfl rfl)) fun _ t _ => ?_
  exact within_ite (fun _ => send_quiet rfl) fun _ => within_pure _

theorem routeStageResult_plain (tensor : frame.frameType.isTensor = true)
    (h : routeStageResult config runner frame result = .ok o) : reserves o.frameType = false := by
  have own : reserves frame.frameType = false := by
    cases type : frame.frameType <;> simp [type, FrameType.isTensor] at tensor <;> rfl
  rw [routeStageResult] at h
  split at h
  · rw [← Except.ok.inj h]
    exact own
  split at h
  · rw [← Except.ok.inj h]
    rfl
  · split at h
    · cases h
    simp only [bind_eq_ok, throw_bind, raise_eq_ok] at h
    obtain ⟨_, -, -, h⟩ := h
    rw [← Except.ok.inj h]
    rfl
  · split at h
    · simp only [bind_eq_ok, throw_bind, raise_eq_ok] at h
      obtain ⟨-, _, -, h⟩ := h
      rw [← Except.ok.inj h]
      rfl
    · cases h
  · split at h
    · simp only [bind_eq_ok] at h
      obtain ⟨_, -, h⟩ := h
      rw [← Except.ok.inj h]
      rfl
    · cases h

theorem routeResults_quiet (tensor : ∀ pair ∈ pairs, pair.1.frameType.isTensor = true) :
    Within Quiet (routeResults config runner pairs) s := by
  induction pairs generalizing s with
  | nil => exact within_pure _
  | cons pair pairs ih =>
    apply within_get_bind
    split
    · exact within_throw _
    refine within_bind (within_modify (.of_eq rfl rfl rfl)) fun _ t _ => ?_
    rw [Within, wp_bind, wp_check]
    refine ⟨fun o routed => ?_, fun _ _ => refl_of Quiet t⟩
    have plain := routeStageResult_plain config runner (tensor _ List.mem_cons_self) routed
    refine within_bind (send_quiet plain) fun _ u _ => ih ?_
    exact fun pair mem => tensor pair (List.mem_cons_of_mem _ mem)

theorem processActivationFrames_quiet (tensor : ∀ f ∈ frames, f.frameType.isTensor = true) :
    Within Quiet (processActivationFrames config runner frames) s := by
  refine within_get_bind (within_bind (within_raiseIf _ _) fun _ t _ => ?_)
  refine within_bind (within_raiseIf _ _) fun _ t _ => within_bind (within_check _) fun _ t _ => ?_
  refine within_bind (within_check _) fun results t _ => ?_
  refine within_bind (within_modify (.of_eq rfl rfl rfl)) fun _ t _ => ?_
  refine within_bind (shift_quiet fun a _ mem => absurd mem List.not_mem_nil) fun _ t _ => ?_
  refine within_bind (within_raiseIf _ _) fun _ t _ => routeResults_quiet config runner ?_
  exact fun pair mem => tensor _ (List.of_mem_zip mem).1

theorem collect_quiet :
    Within Quiet (collect config runner first firstKey readable) s := by
  induction readable generalizing s with
  | zero => exact within_pure _
  | succ readable ih =>
    have aside : ∀ t : StageState ρ, Within Quiet (shift .aside) t :=
      fun t => shift_quiet fun a _ mem => mem
    apply within_get_bind
    cases upstream : s.areas.upstream with
    | nil => exact within_pure _
    | cons candidate rest =>
      refine within_ite (fun _ => within_pure _) fun _ => within_ite (fun _ => aside s) fun _ => ?_
      rw [Within, wp_bind, wp_check]
      refine ⟨fun _ _ => ?_, fun _ _ => refl_of Quiet s⟩
      refine within_ite (fun _ => ?_) fun _ => within_ite (fun _ => aside s) fun tensor => ?_
      · exact within_bind (beginStageRequest_quiet config runner (apply_kept .upstream))
          fun _ t _ => ih
      rw [Within, wp_bind, wp_check]
      refine ⟨fun joined _ => ?_, fun _ _ => refl_of Quiet s⟩
      refine within_ite (fun _ => ?_) fun _ => aside s
      refine within_bind (shift_tensor_quiet (by simpa using tensor) ?_) fun _ t _ => ih
      rw [Areas.move, Areas.enterFrom, Areas.source, upstream]
      rfl

theorem collectCompatibleActivationFrames_quiet :
    Within Quiet (collectCompatibleActivationFrames config runner first readable) s := by
  refine within_get_bind (within_ite (fun _ => within_pure _) fun _ => ?_)
  split
  · exact within_pure _
  · exact collect_quiet config runner

theorem activate_quiet (front : (s.areas.source source).head? = some frame)
    (tensor : frame.frameType.isTensor = true) (batch : TensorBatch s) :
    Within Quiet (activate config runner frame source tick) s := by
  have entered : (s.areas.move (.enter source)).batch = s.areas.batch ++ [frame] := by
    change s.areas.batch ++ (s.areas.source source).take 1 = _
    rw [List.take_one, front]
    rfl
  refine within_get_bind ?_
  rw [Within, wp_bind, wp_check]
  refine ⟨fun _ _ => ?_, fun _ _ => refl_of Quiet s⟩
  refine within_bind (shift_tensor_quiet tensor entered) fun _ t first => ?_
  refine within_bind (collectCompatibleActivationFrames_quiet config runner) fun _ u second => ?_
  refine within_get_bind (within_bind (processActivationFrames_quiet config runner ?_)
    fun _ v _ => ?_)
  · exact second.batch (first.batch batch)
  · exact consumeTreeReservationVerifies_quiet

theorem shutdown_quiet : Within Quiet (shutdown config frame source) s := by
  refine within_bind (shift_quiet (skip_kept _)) fun _ t _ => within_bind setActive_none_quiet
    fun _ t _ => ?_
  refine within_bind (within_modify (.of_eq rfl rfl rfl)) fun _ t _ => ?_
  have stop : ∀ u : StageState ρ, Within Quiet (shift .stop) u :=
    fun u => shift_quiet fun a _ mem => mem
  exact within_ite (fun _ => within_bind (send_quiet rfl) fun _ u _ => stop u) fun _ => stop t

/-- The quote with what this stage adds goes on, and is reserved if it is ready so far. -/
structure Prepares (f : Frame) (s s' : StageState ρ) : Prop where
  batch : s'.areas.batch ⊆ s.areas.batch
  quoted : ∃ quote projection payload, decodeTreePrepare f = .ok quote ∧
    projectTreeCapacity config runner s' quote.pathLengths f.requestId = .ok projection ∧
    encodeTreePrepareQuote (TreePrepareQuote.accumulate config quote projection) = .ok payload ∧
    s'.sent = s.sent ++ [{
      peer := if config.hasNext then .downstream else .back
      frameType := if config.hasNext then .treePrepare else .treePrepareResult
      requestId := f.requestId
      step := f.step
      tokenCount := quote.pathLengths.length
      payload := payload }] ∧
    if quote.status = .ready ∧ projection.rejection = .none then
      ∃ deadlineAt, s'.reservations.active = some {
        nonce := quote.nonce
        parentRequestId := f.requestId
        step := f.step
        pathLengths := quote.pathLengths
        projection := projection
        expectedCommitPredecessors := quote.stageCount
        deadlineAt := deadlineAt }
    else s'.reservations.active = none

/-- The named reservation is committed with the projection that the stage still finds. -/
structure Commits (f : Frame) (s s' : StageState ρ) : Prop where
  batch : s'.areas.batch ⊆ s.areas.batch
  committed : ∃ active deadlineAt, decodeTreeReservationNonce f = .ok active.nonce ∧
    s.reservations.active = some active ∧
    f.requestId = active.parentRequestId ∧ f.step = active.step ∧
    f.tokenCount = active.expectedCommitPredecessors ∧
    projectTreeCapacity config runner s' active.pathLengths active.parentRequestId =
      .ok active.projection ∧ active.projection.rejection = .none ∧
    s'.reservations.active = some { active with committed := true, deadlineAt := deadlineAt } ∧
    s'.sent = s.sent ++ [{
      peer := if config.hasNext then .downstream else .back
      frameType := if config.hasNext then .treeReservationCommit else .treeReservationCommitResult
      requestId := f.requestId
      step := f.step
      tokenCount := f.tokenCount + 1
      payload := f.payload }]

theorem valueError_eq_ok {α : Type} {x : Except String α} {a : α} :
    valueError x = .ok a ↔ x = .ok a := by
  cases x <;> simp [valueError]

theorem prepareTreeCapacity_sends : wp (prepareTreeCapacity config runner frame later)
    (fun _ s' => Prepares config runner frame s s') (fun _ s' => Quiet s s') s := by
  have noted : ∀ book : TreeReservationBook, book.active = s.reservations.active →
      Quiet s { s with reservations := book } := fun _ same => .of_eq rfl rfl same
  simp only [prepareTreeCapacity, wp_bind, wp_get, wp_raiseIf, wp_check, valueError_eq_ok]
  refine ⟨fun _ => refl_of Quiet s, fun idle => ⟨fun quote decoded => ⟨fun _ => refl_of Quiet s,
    fun _ => ?_⟩, fun e _ => refl_of Quiet s⟩⟩
  have none : s.reservations.active = none := by simpa using idle
  cases s.frames.find? frame.requestId with
  | none => exact refl_of Quiet s
  | some expectedStep =>
    simp only [wp_bind, wp_raiseIf, wp_check, wp_modify, valueError_eq_ok]
    refine ⟨fun _ => refl_of Quiet s, fun _ => ⟨fun _ => refl_of Quiet s, fun _ =>
      ⟨fun projection projected => ⟨fun _ => noted _ rfl, fun _ => ⟨fun payload encoded => ?_,
        fun e _ => noted _ rfl⟩⟩, fun e _ => noted _ rfl⟩⟩⟩
    simp only [wp_ite, setActive, wp_modify, send]
    split
    next ready =>
      refine ⟨fun _ mem => mem, quote, projection, payload, decoded, projected, encoded, rfl, ?_⟩
      rw [if_pos ready]
      exact ⟨_, rfl⟩
    next ready =>
      refine ⟨fun _ mem => mem, quote, projection, payload, decoded, projected, encoded, rfl, ?_⟩
      rw [if_neg ready]
      exact none

theorem commitTreeReservation_sends : wp (commitTreeReservation config runner frame later)
    (fun _ s' => Commits config runner frame s s') (fun _ s' => Quiet s s') s := by
  simp only [commitTreeReservation, wp_bind, wp_get, wp_check, valueError_eq_ok]
  refine ⟨fun nonce decoded => ?_, fun e _ => refl_of Quiet s⟩
  cases found : s.reservations.active with
  | none => exact refl_of Quiet s
  | some active =>
    simp only [wp_bind, wp_raiseIf]
    refine ⟨fun _ => refl_of Quiet s, fun named => ⟨fun _ => refl_of Quiet s, fun _ =>
      ⟨fun _ => refl_of Quiet s, fun counted => ?_⟩⟩⟩
    cases s.frames.find? frame.requestId with
    | none => exact refl_of Quiet s
    | some step =>
      simp only [wp_bind, wp_raiseIf, wp_check, setActive, send, wp_modify]
      refine ⟨fun _ => refl_of Quiet s,
        fun _ => ⟨fun observed projected => ⟨fun _ => refl_of Quiet s,
          fun accepted => ⟨fun _ => refl_of Quiet s, fun unchanged => ?_⟩⟩,
          fun e _ => refl_of Quiet s⟩⟩
      obtain ⟨rfl, parent, at'⟩ : nonce = active.nonce ∧ frame.requestId = active.parentRequestId ∧
          frame.step = active.step := by simpa using named
      obtain rfl : observed = active.projection := by simpa using unchanged
      refine ⟨fun _ mem => mem, active, _, decoded, found, parent, at', by simpa using counted,
        projected, by simpa using accepted, rfl, rfl⟩

end Handlers

inductive Sends (config : StageConfig) (runner : Runner ρ) (s s' : StageState ρ) : Prop
  | quiet (h : Quiet s s')
  | prepare (f : Frame) (mem : f ∈ s.areas.order) (type : f.frameType = .treePrepare)
      (h : Prepares config runner f s s')
  | commit (f : Frame) (mem : f ∈ s.areas.order) (type : f.frameType = .treeReservationCommit)
      (h : Commits config runner f s s')

theorem Sends.halt (h : Sends config runner s s') :
    Sends config runner s { s' with halted := true } := by
  cases h with
  | quiet h => exact .quiet ⟨h.batch, h.sent, h.active⟩
  | prepare f mem type h => exact .prepare f mem type ⟨h.batch, h.quoted⟩
  | commit f mem type h => exact .commit f mem type ⟨h.batch, h.committed⟩

theorem Sends.after_expiry (areas : t.areas = s.areas) (sent : t.sent = s.sent)
    (active : ∀ r, t.reservations.active = some r → s.reservations.active = some r)
    (h : Sends config runner t s') : Sends config runner s s' := by
  cases h with
  | quiet h =>
    have expired : Quiet s t := by
      refine ⟨?_, ⟨[], by simp [sent]⟩, fun r found => ⟨r, active r found, rfl⟩⟩
      rw [TensorBatch, TensorBatch, areas]
      exact id
    exact .quiet (trans_of Quiet expired h)
  | prepare f mem type h =>
    refine .prepare f (areas ▸ mem) type ⟨areas ▸ h.batch, ?_⟩
    rw [← sent]
    exact h.quoted
  | commit f mem type h =>
    refine .commit f (areas ▸ mem) type ⟨areas ▸ h.batch, ?_⟩
    rw [← sent]
    obtain ⟨r, deadlineAt, decoded, found, rest⟩ := h.committed
    exact ⟨r, deadlineAt, decoded, active r found, rest⟩

section Iteration

variable (config : StageConfig) (runner : Runner ρ)

theorem mem_order_of_front {a : Areas} (front : (a.source source).head? = some f) :
    f ∈ a.order := by
  have mem := List.mem_of_head? front
  cases source <;> simp [Areas.order, Areas.source] at mem ⊢ <;> tauto

theorem handle_sends {tick : Tick} (batch : TensorBatch s)
    (front : (s.areas.source source).head? = some f) :
    Within (Sends config runner) (handle config runner f source tick) s := by
  have quiet : ∀ {h : StageM ρ Unit}, Within Quiet h s → Within (Sends config runner) h s :=
    fun h => wp_mono h (fun _ _ => .quiet) fun _ _ => .quiet
  have mem := mem_order_of_front front
  rw [handle]
  cases type : f.frameType with
  | treePrepare =>
    rw [Within, wp_bind]
    refine wp_mono (prepareTreeCapacity_sends config runner) ?_ fun _ _ => .quiet
    rintro _ t ⟨kept, quoted⟩
    exact .prepare f mem type ⟨fun _ mem => kept (skip_kept source _ mem), quoted⟩
  | treeReservationCommit =>
    rw [Within, wp_bind]
    refine wp_mono (commitTreeReservation_sends config runner) ?_ fun _ _ => .quiet
    rintro _ t ⟨kept, committed⟩
    exact .commit f mem type ⟨fun _ mem => kept (skip_kept source _ mem), committed⟩
  | treeReservationCancel =>
    exact quiet (within_bind (cancelTreeReservation_quiet config) fun _ t _ =>
      shift_quiet (skip_kept source))
  | begin => exact quiet (beginStageRequest_quiet config runner (apply_kept source))
  | fork => exact quiet (forkStageRequest_quiet config runner (apply_kept source))
  | promote => exact quiet (promoteStageRequest_quiet config runner (apply_kept source))
  | truncate => exact quiet (truncate_quiet config runner)
  | «end» | cancel =>
    exact quiet (endStageRequest_quiet config runner (apply_kept source) (by rw [type]; rfl))
  | ping => exact quiet (ping_quiet config)
  | shutdown => exact quiet (shutdown_quiet config)
  | activation | prefill | verify =>
    exact quiet (activate_quiet config runner front (by rw [type]; rfl) batch)
  | samplingVerify => exact quiet (activate_quiet config runner front (by rw [type]; rfl) batch)
  | _ => exact quiet (within_throw _)

omit config runner in
theorem expireTreeReservation_keeps (now : ℚ) : wp (expireTreeReservation now)
    (fun _ t => t.areas = s.areas ∧ t.sent = s.sent ∧
      ∀ r, t.reservations.active = some r → s.reservations.active = some r) (fun _ t => Quiet s t)
      s := by
  rw [expireTreeReservation, wp_bind, wp_get]
  have kept : s.areas = s.areas ∧ s.sent = s.sent ∧
      ∀ r, s.reservations.active = some r → s.reservations.active = some r :=
    ⟨rfl, rfl, fun _ => id⟩
  split
  · exact kept
  rw [wp_ite]
  split
  · exact kept
  · rw [wp_bind, wp_raiseIf]
    exact ⟨fun _ => refl_of Quiet s, fun _ => ⟨rfl, rfl, fun r found => by cases found⟩⟩

theorem iterate_sends (batch : TensorBatch s) (tick : Tick) :
    Within (Sends config runner) (iterate config runner tick) s := by
  rw [Within, iterate, wp_bind]
  refine wp_mono (expireTreeReservation_keeps tick.now) ?_ fun _ _ => .quiet
  rintro _ t ⟨areas, sent, active⟩
  refine wp_mono (Q := fun _ u => Sends config runner t u) (E := fun _ u => Sends config runner t u)
    ?_ (fun _ _ => .after_expiry areas sent active) fun _ _ => .after_expiry areas sent active
  change Within (Sends config runner) _ t
  have quiet : ∀ {h : StageM ρ Unit}, Within Quiet h t → Within (Sends config runner) h t :=
    fun h => wp_mono h (fun _ _ => .quiet) fun _ _ => .quiet
  apply within_get_bind
  split
  · exact quiet (within_pure _)
  next f front =>
    refine within_ite (fun _ => quiet (shift_quiet fun a _ mem => pop_batch a _ ▸ mem)) fun _ => ?_
    rw [Within, wp_bind, wp_check]
    refine ⟨fun _ _ => ?_, fun _ _ => .quiet (refl_of Quiet t)⟩
    refine handle_sends config runner ?_ front
    rw [TensorBatch, areas]
    exact batch

theorem step_sends (batch : TensorBatch s) (tick : Tick) :
    Sends config runner s (step config runner s tick).1 := by
  rw [step]
  split
  · exact .quiet (refl_of Quiet s)
  have spec := iterate_sends config runner batch tick
  rw [Within, wp] at spec
  cases result : iterate config runner tick s with
  | ok a t =>
    rw [result] at spec
    exact spec
  | error e t =>
    rw [result] at spec
    exact spec.halt

theorem Sends.tensorBatch (h : Sends config runner s s') (batch : TensorBatch s) :
    TensorBatch s' := by
  cases h with
  | quiet h => exact h.batch batch
  | prepare f _ _ h | commit f _ _ h => exact fun f mem => batch f (h.batch mem)

theorem step_order (tick : Tick) : (step config runner s tick).1.areas.order ⊆ s.areas.order := by
  have replayed : ∀ (moves : List Move) (a : Areas), (a.replay moves).order ⊆ a.order := by
    intro moves
    induction moves with
    | nil => exact fun a _ mem => mem
    | cons m moves ih =>
      intro a f mem
      have here := List.count_pos_iff.mpr (ih (a.move m) mem)
      exact List.count_pos_iff.mp (here.trans_le (a.move_count_le m f))
  rw [step]
  split
  · exact fun _ mem => mem
  have spec := iterate_ends config runner s tick
  rw [wp] at spec
  cases result : iterate config runner tick s with
  | ok a t =>
    rw [result] at spec
    obtain ⟨moves, does, -⟩ := spec
    rw [does.areas]
    exact replayed moves _
  | error e t =>
    rw [result] at spec
    obtain ⟨moves, does, -⟩ := spec
    change t.areas.order ⊆ _
    rw [does.areas]
    exact replayed moves _

end Iteration

end Mycellios.Stage
