import Mycellios.Protocol.TreeQuote
import Mycellios.Stage.Sends

namespace Mycellios.Stage

open Data List Logic Protocol

/-- The TREE_PREPARE of a fresh quote, or a frame of another type. -/
inductive RootSend
  | prepare (requestId step nonce : Nat) (pathLengths : List Nat)
  | other (frame : Frame) (plain : frame.frameType ≠ .treePrepare)

def RootSend.frame? : RootSend → Option Frame
  | .prepare requestId step nonce pathLengths =>
    match treePreparePayload nonce pathLengths with
    | .ok payload => some {
        frameType := .treePrepare
        flags := 0
        requestId := requestId
        step := step
        tokenCount := pathLengths.length
        hiddenSize := 0
        payload := payload
        sequence := 0 }
    | .error _ => none
  | .other frame _ => some frame

/-- The frame at the other end. No stage reads its sequence number. -/
def Outgoing.frame (o : Outgoing) : Frame where
  frameType := o.frameType
  flags := o.flags
  requestId := o.requestId
  step := o.step
  tokenCount := o.tokenCount
  hiddenSize := o.hiddenSize
  payload := o.payload
  sequence := 0

structure Chain (N : Nat) (ρ : Type) where
  config : Fin N → StageConfig
  runner : Fin N → Runner ρ
  start : Fin N → ρ

def Chain.stageConfig {N : Nat} {ρ : Type} (chain : Chain N ρ) (i : Fin N) : StageConfig :=
  { chain.config i with hasNext := decide (i.val + 1 < N) }

structure ChainState (N : Nat) (ρ : Type) where
  stages : Fin N → StageState ρ
  returned : List Frame := []

inductive ChainInput (N : Nat)
  | root (sent : RootSend)
  | stage (i : Fin N) (tick : Tick)

section Chain

variable {N : Nat} {ρ : Type}

def StageState.receive (s : StageState ρ) (frames : List Frame) : StageState ρ :=
  { s with areas := { s.areas with upstream := s.areas.upstream ++ frames } }

def ChainState.receive (c : ChainState N ρ) (i : Nat) (frames : List Frame) : ChainState N ρ :=
  { c with stages := fun j => if j.val = i then (c.stages j).receive frames else c.stages j }

variable (chain : Chain N ρ)

def Chain.init : ChainState N ρ where
  stages i := .init (chain.start i) []

def newlySent (s s' : StageState ρ) (peer : Peer) : List Frame :=
  ((s'.sent.drop s.sent.length).filter fun o => o.peer = peer).map Outgoing.frame

def Chain.step (c : ChainState N ρ) : ChainInput N → ChainState N ρ × Unit
  | .root sent => (c.receive 0 sent.frame?.toList, ())
  | .stage i tick =>
    let s := c.stages i
    let s' := (Stage.step (chain.stageConfig i) (chain.runner i) s tick).1
    let moved := { c with
      stages := Function.update c.stages i s', returned := c.returned ++ newlySent s s' .back }
    (moved.receive (i + 1) (newlySent s s' .downstream), ())

def Chain.run (inputs : List (ChainInput N)) : ChainState N ρ := final chain.step chain.init inputs

def Chain.Reserved (inputs : List (ChainInput N)) (j : Fin N) (nonce parent step : Nat)
    (pathLengths : List Nat) (projection : TreeCapacityProjection) : Prop :=
  ∃ before, before <+: inputs ∧ ∃ r, ((chain.run before).stages j).reservations.active = some r ∧
    r.nonce = nonce ∧ r.parentRequestId = parent ∧ r.step = step ∧ r.pathLengths = pathLengths ∧
    r.projection = projection ∧ projection.rejection = .none ∧
    projectTreeCapacity (chain.stageConfig j) (chain.runner j) ((chain.run before).stages j)
      pathLengths parent = .ok projection

def Chain.Committed (inputs : List (ChainInput N)) (j : Fin N) (nonce parent step : Nat) : Prop :=
  ∃ before, before <+: inputs ∧ ∃ r, ((chain.run before).stages j).reservations.active = some r ∧
    r.committed = true ∧ r.nonce = nonce ∧ r.parentRequestId = parent ∧ r.step = step ∧
    projectTreeCapacity (chain.stageConfig j) (chain.runner j) ((chain.run before).stages j)
      r.pathLengths parent = .ok r.projection

theorem Chain.Reserved.mono {chain : Chain N ρ} {inputs inputs' : List (ChainInput N)} {j : Fin N}
    {nonce parent step : Nat} {pathLengths : List Nat} {projection : TreeCapacityProjection}
    (le : inputs <+: inputs')
    (h : chain.Reserved inputs j nonce parent step pathLengths projection) :
    chain.Reserved inputs' j nonce parent step pathLengths projection := by
  obtain ⟨before, early, rest⟩ := h
  exact ⟨before, early.trans le, rest⟩

theorem Chain.Committed.mono {chain : Chain N ρ} {inputs inputs' : List (ChainInput N)} {j : Fin N}
    {nonce parent step : Nat} (le : inputs <+: inputs')
    (h : chain.Committed inputs j nonce parent step) :
    chain.Committed inputs' j nonce parent step := by
  obtain ⟨before, early, rest⟩ := h
  exact ⟨before, early.trans le, rest⟩

/-- It counts the stages it passed, and if ready sums what they have reserved. -/
def Chain.QuoteOk (inputs : List (ChainInput N)) (i : Nat) (f : Frame) : Prop :=
  ∃ quote, decodeTreePrepare f = .ok quote ∧ quote.stageCount = i ∧
    (quote.status = .ready → ∃ projections : Nat → TreeCapacityProjection,
      quote.totalProjectedBytes = ∑ j ∈ Finset.range i, (projections j).projectedKvBytes ∧
      ∀ j : Fin N, j.val < i → chain.Reserved inputs j quote.nonce f.requestId f.step
      quote.pathLengths (projections j))

def Chain.CommitOk (inputs : List (ChainInput N)) (i : Nat) (f : Frame) : Prop :=
  ∃ nonce, decodeTreeReservationNonce f = .ok nonce ∧ f.tokenCount = i ∧
    ∀ j : Fin N, j.val < i → chain.Committed inputs j nonce f.requestId f.step

structure Chain.FrameOk (inputs : List (ChainInput N)) (i : Nat) (f : Frame) : Prop where
  quote : f.frameType = .treePrepare → chain.QuoteOk inputs i f
  commit : f.frameType = .treeReservationCommit → 0 < i → chain.CommitOk inputs i f

structure Chain.ResultOk (inputs : List (ChainInput N)) (f : Frame) : Prop where
  quote : f.frameType = .treePrepareResult → chain.QuoteOk inputs N f
  commit : f.frameType = .treeReservationCommitResult → chain.CommitOk inputs N f

structure Chain.Inv (inputs : List (ChainInput N)) : Prop where
  batch : ∀ i, TensorBatch ((chain.run inputs).stages i)
  expected : ∀ i r, ((chain.run inputs).stages i).reservations.active = some r →
    r.expectedCommitPredecessors = i
  frames : ∀ i, ∀ f ∈ ((chain.run inputs).stages i).areas.order, chain.FrameOk inputs i f
  returned : ∀ f ∈ (chain.run inputs).returned, chain.ResultOk inputs f

variable {chain} {inputs inputs' : List (ChainInput N)} {f : Frame}

theorem Chain.QuoteOk.mono (le : inputs <+: inputs') {i : Nat} (h : chain.QuoteOk inputs i f) :
    chain.QuoteOk inputs' i f := by
  obtain ⟨quote, decoded, count, ready⟩ := h
  refine ⟨quote, decoded, count, fun status => ?_⟩
  obtain ⟨projections, total, reserved⟩ := ready status
  exact ⟨projections, total, fun j lt => (reserved j lt).mono le⟩

theorem Chain.CommitOk.mono (le : inputs <+: inputs') {i : Nat} (h : chain.CommitOk inputs i f) :
    chain.CommitOk inputs' i f := by
  obtain ⟨nonce, decoded, count, committed⟩ := h
  exact ⟨nonce, decoded, count, fun j lt => (committed j lt).mono le⟩

theorem Chain.FrameOk.mono (le : inputs <+: inputs') {i : Nat} (h : chain.FrameOk inputs i f) :
    chain.FrameOk inputs' i f :=
  ⟨fun type => (h.quote type).mono le, fun type pos => (h.commit type pos).mono le⟩

theorem Chain.ResultOk.mono (le : inputs <+: inputs') (h : chain.ResultOk inputs f) :
    chain.ResultOk inputs' f :=
  ⟨fun type => (h.quote type).mono le, fun type => (h.commit type).mono le⟩

theorem Chain.ok_of_plain (plain : reserves f.frameType = false) (i : Nat) :
    chain.FrameOk inputs i f ∧ chain.ResultOk inputs f := by
  have no : ∀ type, f.frameType = type → reserves type = false := fun type same => same ▸ plain
  refine ⟨⟨fun type => ?_, fun type => ?_⟩, ⟨fun type => ?_, fun type => ?_⟩⟩ <;> exact absurd
    (no _ type) (by decide)

theorem RootSend.frameOk {sent : RootSend} (left : sent.frame? = some f) :
    chain.FrameOk inputs 0 f := by
  refine ⟨fun type => ?_, fun _ pos => absurd pos (lt_irrefl 0)⟩
  cases sent with
  | other frame plain =>
    obtain rfl := Option.some.inj left
    exact absurd type plain
  | prepare requestId step nonce pathLengths =>
    rw [RootSend.frame?] at left
    split at left
    next payload encoded =>
      obtain rfl := Option.some.inj left
      refine ⟨_, decodeTreePrepare_encode encoded (.inl rfl) rfl, rfl, fun _ => ?_⟩
      exact ⟨fun _ => ⟨0, 0, 0, 0, 0, [], none, .none, 0, 0⟩, by simp,
        fun j lt => absurd lt (Nat.not_lt_zero _)⟩
    · cases left

section Accumulate

variable {config : StageConfig} {quote : TreePrepareQuote} {projection : TreeCapacityProjection}

@[simp] theorem accumulate_nonce :
    (TreePrepareQuote.accumulate config quote projection).nonce = quote.nonce := by
  unfold TreePrepareQuote.accumulate
  split <;> rfl

@[simp] theorem accumulate_pathLengths :
    (TreePrepareQuote.accumulate config quote projection).pathLengths = quote.pathLengths := by
  unfold TreePrepareQuote.accumulate
  split <;> rfl

@[simp] theorem accumulate_stageCount :
    (TreePrepareQuote.accumulate config quote projection).stageCount = quote.stageCount + 1 := by
  unfold TreePrepareQuote.accumulate
  split <;> rfl

@[simp] theorem accumulate_totalProjectedBytes :
    (TreePrepareQuote.accumulate config quote projection).totalProjectedBytes =
      quote.totalProjectedBytes + projection.projectedKvBytes := by
  unfold TreePrepareQuote.accumulate
  split <;> rfl

theorem accumulate_ready
    (h : (TreePrepareQuote.accumulate config quote projection).status = .ready) :
    quote.status = .ready ∧ projection.rejection = .none := by
  unfold TreePrepareQuote.accumulate at h
  split at h
  · cases h
  next kept =>
    have ready : quote.status = .ready := h
    exact ⟨ready, by_contra fun rejected => kept ⟨ready, rejected⟩⟩

end Accumulate

section Stage

variable {i : Fin N} {x : ChainInput N} {s s' : StageState ρ}

theorem Chain.hasNext_cases (chain : Chain N ρ) (i : Fin N) :
    (chain.stageConfig i).hasNext = true ∨ (chain.stageConfig i).hasNext = false ∧
    i.val + 1 = N := by
  have bound := i.isLt
  by_cases next : i.val + 1 < N
  · exact .inl (decide_eq_true next)
  · exact .inr ⟨decide_eq_false next, by omega⟩

/-- A frame that a stage sent is as it should be on the link or at the root. -/
def Chain.SentOk (chain : Chain N ρ) (inputs : List (ChainInput N)) (i : Fin N) (o : Outgoing) :
    Prop :=
  (o.peer = .downstream → chain.FrameOk inputs (i + 1) o.frame) ∧
    (o.peer = .back → chain.ResultOk inputs o.frame)

variable (here : (chain.run (inputs ++ [x])).stages i = s')

include here

theorem Prepares.quoteOk {quote : TreePrepareQuote} {projection : TreeCapacityProjection}
    {o : Outgoing} (ok : chain.QuoteOk inputs i f) (decoded : decodeTreePrepare f = .ok quote)
    (projected :
      projectTreeCapacity (chain.stageConfig i) (chain.runner i) s' quote.pathLengths f.requestId =
      .ok projection)
    (encoded :
      encodeTreePrepareQuote (TreePrepareQuote.accumulate (chain.stageConfig i) quote projection) =
      .ok o.payload)
    (active : quote.status = .ready ∧ projection.rejection = .none → ∃ deadlineAt,
      s'.reservations.active = some {
        nonce := quote.nonce
        parentRequestId := f.requestId
        step := f.step
        pathLengths := quote.pathLengths
        projection := projection
        expectedCommitPredecessors := quote.stageCount
        deadlineAt := deadlineAt })
    (type : o.frameType = .treePrepare ∨ o.frameType = .treePrepareResult)
    (request : o.requestId = f.requestId) (step : o.step = f.step)
    (count : o.tokenCount = quote.pathLengths.length) :
    chain.QuoteOk (inputs ++ [x]) (i + 1) o.frame := by
  obtain ⟨quote', decoded', stages, ready⟩ := ok
  obtain rfl := ok_unique decoded decoded'
  refine ⟨_, decodeTreePrepare_encode encoded type ?_, by rw [accumulate_stageCount, stages], ?_⟩
  · rw [accumulate_pathLengths]
    exact count
  intro status
  obtain ⟨readyBefore, accepted⟩ := accumulate_ready status
  obtain ⟨projections, total, reserved⟩ := ready readyBefore
  obtain ⟨deadlineAt, active⟩ := active ⟨readyBefore, accepted⟩
  refine ⟨Function.update projections i projection, ?_, ?_⟩
  · rw [accumulate_totalProjectedBytes, Finset.sum_range_succ, Function.update_self, total]
    congr 1
    apply Finset.sum_congr rfl
    intro j mem
    rw [Function.update_of_ne (Finset.mem_range.mp mem).ne]
  intro j lt
  rw [accumulate_nonce, accumulate_pathLengths]
  change chain.Reserved _ j _ o.requestId o.step _ _
  rw [request, step]
  rcases Nat.lt_succ_iff_lt_or_eq.mp lt with lt | same
  · rw [Function.update_of_ne lt.ne]
    exact (reserved j lt).mono (prefix_append _ _)
  obtain rfl := Fin.ext same
  rw [Function.update_self]
  exact ⟨inputs ++ [x], prefix_refl _, _, here ▸ active, rfl, rfl, rfl, rfl, rfl, accepted,
    here ▸ projected⟩

theorem Prepares.sentOk (h : Prepares (chain.stageConfig i) (chain.runner i) f s s')
    (ok : chain.QuoteOk inputs i f) :
    ∀ o ∈ s'.sent.drop s.sent.length, chain.SentOk (inputs ++ [x]) i o := by
  obtain ⟨quote, projection, payload, decoded, projected, encoded, sent, active⟩ := h.quoted
  have active' := fun ready => (if_pos ready).mp active
  rw [sent, drop_left]
  intro o mem
  obtain rfl := mem_singleton.mp mem
  rcases chain.hasNext_cases i with next | ⟨last, full⟩
  · simp only [next, if_true]
    refine ⟨fun _ => ⟨fun _ => ?_, fun type => ?_⟩, fun peer => ?_⟩
    · exact quoteOk here ok decoded projected encoded active' (.inl rfl) rfl rfl rfl
    · cases type
    · cases peer
  simp only [last, Bool.false_eq_true, if_false]
  refine ⟨fun peer => ?_, fun _ => ⟨fun _ => ?_, fun type => ?_⟩⟩
  · cases peer
  · have passed := quoteOk here ok decoded projected encoded active'
      (o := ⟨.back, _, _, _, _, 0, 0, payload⟩) (.inr rfl) rfl rfl rfl
    rwa [full] at passed
  · cases type

theorem Commits.commitOk {r : TreeCapacityReservation} {deadlineAt : ℚ} {o : Outgoing}
    (ok : 0 < i.val → chain.CommitOk inputs i f)
    (decoded : decodeTreeReservationNonce f = .ok r.nonce)
    (parent : f.requestId = r.parentRequestId) (at' : f.step = r.step) (count : f.tokenCount = i)
    (projected : projectTreeCapacity (chain.stageConfig i) (chain.runner i) s' r.pathLengths
      r.parentRequestId = .ok r.projection)
    (active : s'.reservations.active = some { r with
      committed := true, deadlineAt := deadlineAt })
    (type : o.frameType = .treeReservationCommit ∨ o.frameType = .treeReservationCommitResult)
    (request : o.requestId = f.requestId) (step : o.step = f.step)
    (next : o.tokenCount = f.tokenCount + 1) (payload : o.payload = f.payload) :
    chain.CommitOk (inputs ++ [x]) (i + 1) o.frame := by
  refine ⟨r.nonce, ?_, next.trans (by rw [count]), ?_⟩
  · rw [decodeTreeReservationNonce] at decoded ⊢
    split at decoded
    · cases decoded
    rw [if_neg]
    · change (if o.payload.length ≠ 8 then _ else Except.ok (unpackWord o.payload)) = _
      rw [payload]
      exact decoded
    · change ¬(o.frameType ≠ _ ∧ o.frameType ≠ _ ∧ o.frameType ≠ _)
      tauto
  · intro j lt
    change chain.Committed _ j _ o.requestId o.step
    rw [request, step]
    rcases Nat.lt_succ_iff_lt_or_eq.mp lt with lt | same
    · obtain ⟨nonce, decoded', -, committed⟩ := ok (Nat.zero_lt_of_lt lt)
      obtain rfl := ok_unique decoded decoded'
      exact (committed j lt).mono (prefix_append _ _)
    obtain rfl := Fin.ext same
    rw [parent, at']
    refine ⟨inputs ++ [x], prefix_refl _, { r with committed := true, deadlineAt := deadlineAt },
      ?_⟩
    rw [here]
    exact ⟨active, rfl, rfl, rfl, rfl, projected⟩

theorem Commits.sentOk (h : Commits (chain.stageConfig i) (chain.runner i) f s s')
    (expected : ∀ r, s.reservations.active = some r → r.expectedCommitPredecessors = i)
    (ok : 0 < i.val → chain.CommitOk inputs i f) :
    ∀ o ∈ s'.sent.drop s.sent.length, chain.SentOk (inputs ++ [x]) i o := by
  obtain ⟨r, deadlineAt, decoded, found, parent, at', counted, projected, -, active, sent⟩ :=
    h.committed
  have count := counted.trans (expected r found)
  rw [sent, drop_left]
  intro o mem
  obtain rfl := mem_singleton.mp mem
  rcases chain.hasNext_cases i with next | ⟨last, full⟩
  · simp only [next, if_true]
    refine ⟨fun _ => ⟨fun type => ?_, fun _ _ => ?_⟩, fun peer => ?_⟩
    · cases type
    · exact commitOk here ok decoded parent at' count projected active (.inl rfl) rfl rfl rfl rfl
    · cases peer
  simp only [last, Bool.false_eq_true, if_false]
  refine ⟨fun peer => ?_, fun _ => ⟨fun type => ?_, fun _ => ?_⟩⟩
  · cases peer
  · cases type
  · have passed := commitOk here ok decoded parent at' count projected active
      (o := ⟨.back, _, _, _, _, 0, 0, _⟩) (.inr rfl) rfl rfl rfl rfl
    rwa [full] at passed

theorem Sends.sentOk (h : Sends (chain.stageConfig i) (chain.runner i) s s') (batch : TensorBatch s)
    (expected : ∀ r, s.reservations.active = some r → r.expectedCommitPredecessors = i)
    (frames : ∀ f ∈ s.areas.order, chain.FrameOk inputs i f) :
    ∀ o ∈ s'.sent.drop s.sent.length, chain.SentOk (inputs ++ [x]) i o := by
  cases h with
  | quiet h =>
    obtain ⟨new, sent, plain⟩ := h.sent
    rw [sent, drop_left]
    intro o mem
    have ok : chain.FrameOk (inputs ++ [x]) (i + 1) o.frame ∧
        chain.ResultOk (inputs ++ [x]) o.frame :=
      Chain.ok_of_plain (plain batch o mem) _
    exact ⟨fun _ => ok.1, fun _ => ok.2⟩
  | prepare f mem type h => exact h.sentOk here ((frames f mem).quote type)
  | commit f mem type h => exact h.sentOk here expected fun pos => (frames f mem).commit type pos

omit here in
theorem Sends.expected (h : Sends (chain.stageConfig i) (chain.runner i) s s')
    (expected : ∀ r, s.reservations.active = some r → r.expectedCommitPredecessors = i)
    (frames : ∀ f ∈ s.areas.order, chain.FrameOk inputs i f) :
    ∀ r, s'.reservations.active = some r → r.expectedCommitPredecessors = i := by
  intro r found
  cases h with
  | quiet h =>
    obtain ⟨r', before, same⟩ := h.active r found
    rw [same, expected r' before]
  | prepare f mem type h =>
    obtain ⟨quote, projection, payload, decoded, -, -, -, active⟩ := h.quoted
    obtain ⟨quote', decoded', stages, -⟩ := (frames f mem).quote type
    obtain rfl := ok_unique decoded decoded'
    split at active
    · obtain ⟨deadlineAt, active⟩ := active
      obtain rfl := Option.mem_unique active found
      exact stages
    · cases active.symm.trans found
  | commit f mem type h =>
    obtain ⟨r', deadlineAt, -, before, -, -, -, -, -, active, -⟩ := h.committed
    obtain rfl := Option.mem_unique active found
    exact expected r' before

end Stage

section Step

variable (chain)

theorem Chain.run_append (inputs : List (ChainInput N)) (x : ChainInput N) :
    chain.run (inputs ++ [x]) = (chain.step (chain.run inputs) x).1 := final_append ..

theorem StageState.order_receive (s : StageState ρ) (frames : List Frame) :
    (s.receive frames).areas.order = s.areas.order ++ frames := by
  simp [StageState.receive, Areas.order]

theorem Chain.inv_init : chain.Inv [] where
  batch _ := fun f mem => absurd mem not_mem_nil
  expected i r found := by cases found
  frames i f mem := by simp [Chain.run, Chain.init, StageState.init, Areas.init, Areas.order] at mem
  returned f mem := absurd mem not_mem_nil

variable {chain}

theorem Chain.Inv.root (inv : chain.Inv inputs) (sent : RootSend) :
    chain.Inv (inputs ++ [.root sent]) := by
  have le := prefix_append inputs [ChainInput.root sent]
  have stages : ∀ i : Fin N, (chain.run (inputs ++ [.root sent])).stages i =
      if i.val = 0 then ((chain.run inputs).stages i).receive sent.frame?.toList
      else (chain.run inputs).stages i := fun i => by rw [chain.run_append]; rfl
  refine ⟨fun i => ?_, fun i r => ?_, fun i f mem => ?_, fun f mem => ?_⟩
  · rw [stages]
    split <;> exact inv.batch i
  · rw [stages]
    split <;> exact inv.expected i r
  · rw [stages] at mem
    split at mem
    next first =>
      rw [StageState.order_receive, mem_append, Option.mem_toList] at mem
      rw [first]
      rcases mem with old | new
      · exact (first ▸ inv.frames i f old).mono le
      · exact RootSend.frameOk new
    · exact (inv.frames i f mem).mono le
  · rw [chain.run_append] at mem
    exact (inv.returned f mem).mono le

theorem Chain.Inv.stage (inv : chain.Inv inputs) (i : Fin N) (tick : Tick) :
    chain.Inv (inputs ++ [.stage i tick]) := by
  have le := prefix_append inputs [ChainInput.stage i tick]
  set s := (chain.run inputs).stages i with hs
  set s' := (Stage.step (chain.stageConfig i) (chain.runner i) s tick).1 with hs'
  have stages : ∀ j : Fin N, (chain.run (inputs ++ [.stage i tick])).stages j =
      if j.val = i.val + 1 then ((chain.run inputs).stages j).receive (newlySent s s' .downstream)
      else if j = i then s' else (chain.run inputs).stages j := by
    intro j
    rw [chain.run_append]
    change (if j.val = i.val + 1 then
      (Function.update (chain.run inputs).stages i s' j).receive (newlySent s s' .downstream)
      else Function.update (chain.run inputs).stages i s' j) = _
    rw [Function.update_apply]
    split
    next next =>
      rw [if_neg]
      rintro rfl
      omega
    · rfl
  have here : (chain.run (inputs ++ [.stage i tick])).stages i = s' := by
    rw [stages, if_neg (by omega), if_pos rfl]
  have sends := step_sends (chain.stageConfig i) (chain.runner i) (inv.batch i) tick
  have sentOk := sends.sentOk here (inv.batch i) (inv.expected i) (inv.frames i)
  have newOk : ∀ peer, ∀ f ∈ newlySent s s' peer, ∃ o ∈ s'.sent.drop s.sent.length,
      o.peer = peer ∧ o.frame = f := by
    intro peer f mem
    obtain ⟨o, sent, rfl⟩ := mem_map.mp mem
    obtain ⟨new, same⟩ := mem_filter.mp sent
    exact ⟨o, new, by simpa using same, rfl⟩
  refine ⟨fun j => ?_, fun j r => ?_, fun j f mem => ?_, fun f mem => ?_⟩
  · rw [stages]
    split
    · exact inv.batch j
    split
    next same => exact sends.tensorBatch _ _ (inv.batch i)
    · exact inv.batch j
  · rw [stages]
    split
    · exact inv.expected j r
    split
    next same => exact same ▸ sends.expected (inv.expected i) (inv.frames i) r
    · exact inv.expected j r
  · rw [stages] at mem
    split at mem
    next next =>
      rw [StageState.order_receive, mem_append] at mem
      rcases mem with old | new
      · exact (inv.frames j f old).mono le
      obtain ⟨o, sent, peer, rfl⟩ := newOk _ f new
      rw [next]
      exact (sentOk o sent).1 peer
    split at mem
    next same =>
      subst same
      exact (inv.frames j f (step_order _ _ tick mem)).mono le
    · exact (inv.frames j f mem).mono le
  · rw [chain.run_append] at mem
    rcases mem_append.mp mem with old | new
    · exact (inv.returned f old).mono le
    · obtain ⟨o, sent, peer, rfl⟩ := newOk _ f new
      exact (sentOk o sent).2 peer

variable (chain)

theorem Chain.inv (inputs : List (ChainInput N)) : chain.Inv inputs := by
  induction inputs using List.reverseRecOn with
  | nil => exact chain.inv_init
  | append_singleton inputs x ih =>
    cases x with
    | root sent => exact ih.root sent
    | stage i tick => exact ih.stage i tick

/-- The commit barrier, in any interleaving: a commit result counts all stages, each of which has
held the named reservation as committed with an unchanged projection; a ready prepare result counts
all stages that hold the reservation, and totals their projections. -/
theorem tree_reservation_holds_on_every_stage (inputs : List (ChainInput N)) :
    ∀ f ∈ (chain.run inputs).returned,
      (f.frameType = .treeReservationCommitResult → ∃ nonce,
        decodeTreeReservationNonce f = .ok nonce ∧ f.tokenCount = N ∧
          ∀ j, chain.Committed inputs j nonce f.requestId f.step) ∧
      (f.frameType = .treePrepareResult → ∃ quote, decodeTreePrepare f = .ok quote ∧
        (quote.status = .ready → quote.stageCount = N ∧
          ∃ projections : Fin N → TreeCapacityProjection, quote.totalProjectedBytes = ∑ j,
          (projections j).projectedKvBytes ∧
          ∀ j, chain.Reserved inputs j quote.nonce f.requestId f.step quote.pathLengths
          (projections j))) := by
  intro f mem
  have ok := (chain.inv inputs).returned f mem
  constructor
  · intro type
    obtain ⟨nonce, decoded, count, committed⟩ := ok.commit type
    exact ⟨nonce, decoded, count, fun j => committed j j.isLt⟩
  intro type
  obtain ⟨quote, decoded, count, ready⟩ := ok.quote type
  refine ⟨quote, decoded, fun status => ⟨count, ?_⟩⟩
  obtain ⟨projections, total, reserved⟩ := ready status
  refine ⟨fun j => projections j, ?_, fun j => reserved j j.isLt⟩
  rw [total, Finset.sum_range]

end Step

end Chain

def twoStages : Chain 2 Unit := ⟨fun _ => twoFrameConfig, fun _ => idleRunner, fun _ => ()⟩

def committedTree : List (ChainInput 2) :=
  let commit : Frame := ⟨.treeReservationCommit, 0, 1, 0, 0, 0, packWord 8 5, 0⟩
  let hop : List (ChainInput 2) := [.stage 0 ⟨0, 0, 0⟩, .stage 1 ⟨0, 0, 0⟩]
  [.root (.other ⟨.begin, 0, 1, 0, 0, 0, [], 0⟩ (by decide))] ++ hop ++
    [.root (.prepare 1 0 5 [1])] ++ hop ++ [.root (.other commit (by decide))] ++ hop

theorem committed_tree_on_both_stages : ∃ f ∈ (twoStages.run committedTree).returned,
    f.frameType = .treeReservationCommitResult ∧ f.tokenCount = 2 ∧
      ∃ nonce, ∀ j, twoStages.Committed committedTree j nonce f.requestId f.step := by
  have answered : ∃ f ∈ (twoStages.run committedTree).returned,
      f.frameType = .treeReservationCommitResult := by decide +kernel
  obtain ⟨f, mem, type⟩ := answered
  obtain ⟨nonce, -, count, committed⟩ :=
    (tree_reservation_holds_on_every_stage twoStages committedTree f mem).1 type
  exact ⟨f, mem, type, count, nonce, committed⟩

section Quotes

variable {ρ : Type} {config : StageConfig} {runner : Runner ρ} {s : StageState ρ}
  {lengths : List Nat} {parent : Nat} {quote : TreePrepareQuote}
  {projection : TreeCapacityProjection}

theorem accumulate_encodable (h : quote.Encodable) (stages : quote.stageCount + 1 < 2 ^ 16)
    (bytes : quote.totalProjectedBytes + projection.projectedKvBytes < 2 ^ 64)
    (layer : config.layerStart < 2 ^ 32) (required : projection.required < 2 ^ 64)
    (limit : projection.limit ≤ projection.required) :
    (TreePrepareQuote.accumulate config quote projection).Encodable := by
  unfold TreePrepareQuote.accumulate
  split
  · rename_i rejects
    exact { h with
      stageCount := stages
      totalProjectedBytes := bytes
      rejectingLayerStart := layer
      required := required
      limit := by simp only; omega
      ready := nofun
      reject := fun _ => rejects.2 }
  · exact { h with stageCount := stages, totalProjectedBytes := bytes }

theorem capacityRejection_fits {count tokens branch new : Nat} {available : Option Nat}
    (counted : count < 2 ^ 64) (short : tokens < 2 ^ 64) (bytes : branch + new < 2 ^ 64) :
    (capacityRejection config count tokens branch new available).2.2 ≤
        (capacityRejection config count tokens branch new available).2.1 ∧
      (capacityRejection config count tokens branch new available).2.1 < 2 ^ 64 := by
  unfold capacityRejection
  split
  · exact ⟨Nat.le_of_lt ‹_›, counted⟩
  split
  · exact ⟨Nat.le_of_lt ‹_›, short⟩
  split
  · exact ⟨Nat.le_of_lt ‹_›, bytes⟩
  split
  · split
    · exact ⟨Nat.add_le_add_left (Nat.le_of_lt ‹_›) _, bytes⟩
    · simp
  · simp

/-- A stage of a running route: `HELLO` carried its first layer in 32 bits, the branches are within
the limit of `validate_stage_config`, and the parent's cache is shorter than `2 ^ 63` tokens. -/
structure Admitted (config : StageConfig) (runner : Runner ρ) (s : StageState ρ) (parent : Nat) :
    Prop where
  layerStart : config.layerStart < 2 ^ 32
  branches : s.lineage.logicalOwners.keys.length ≤ maxSpeculativeBranches
  tokens : ∀ count, runner.sequenceLength parent s.runner = .ok count → count < 2 ^ 63

theorem projectTreeCapacity_fits (admitted : Admitted config runner s parent)
    (short : ∀ length ∈ lengths, length < 2 ^ 32)
    (h : projectTreeCapacity config runner s lengths parent = .ok projection) :
    projection.limit ≤ projection.required ∧ projection.required < 2 ^ 64 := by
  simp only [projectTreeCapacity, bind_eq_ok, throw_bind, raise_eq_ok] at h
  obtain ⟨few, -, tokens, counted, -, h⟩ := h
  have branches := admitted.branches
  have count : (s.lineage.logicalOwners.keys.insertionSort (· ≤ ·)).length + lengths.length <
      2 ^ 64 := by
    rw [length_insertionSort]
    unfold maxSpeculativeBranches at branches few
    omega
  split at h
  · obtain rfl := Except.ok.inj h
    exact ⟨Nat.zero_le _, count⟩
  have longest : lengths.foldr max 0 < 2 ^ 32 := by
    clear h few count
    induction lengths with
    | nil => simp
    | cons length rest ih =>
      exact max_lt (short _ mem_cons_self) (ih fun l mem => short l (mem_cons_of_mem _ mem))
  have tokens := admitted.tokens _ counted
  simp only [bind_eq_ok, raise_eq_ok] at h
  obtain ⟨branch, -, cached, -, -, h⟩ := h
  split at h
  all_goals
    simp only [bind_eq_ok, raise_eq_ok] at h
    obtain ⟨new, -, bytes, done⟩ := h
    obtain rfl := Except.ok.inj done
    exact capacityRejection_fits count (by omega) (by omega)

/-- Quotes and payloads determine each other, and what an admitted stage adds to a quote can be
encoded again as long as the stages and the bytes can be counted. -/
theorem tree_quotes_encodable :
    (∀ frame quote, encodeTreePrepareQuote quote = .ok frame.payload →
      frame.frameType = .treePrepare ∨ frame.frameType = .treePrepareResult →
      frame.tokenCount = quote.pathLengths.length → decodeTreePrepare frame = .ok quote) ∧
    (∀ frame quote, decodeTreePrepare frame = .ok quote →
      encodeTreePrepareQuote quote = .ok frame.payload) ∧
    (∀ quote payload, encodeTreePrepareQuote quote = .ok payload →
      (quote.status = .ready →
        quote.rejection = .none ∧ quote.rejectingLayerStart = 0 ∧ quote.required = 0 ∧
        quote.limit = 0) ∧
      (quote.status = .reject → quote.rejection ≠ .none)) ∧
    ∀ (ρ : Type) config (runner : Runner ρ) s frame quote projection,
      Admitted config runner s frame.requestId → decodeTreePrepare frame = .ok quote →
      projectTreeCapacity config runner s quote.pathLengths frame.requestId = .ok projection →
      quote.stageCount + 1 < 2 ^ 16 →
      quote.totalProjectedBytes + projection.projectedKvBytes < 2 ^ 64 →
      ∃ payload, encodeTreePrepareQuote (TreePrepareQuote.accumulate config quote projection) =
        .ok payload := by
  refine ⟨fun _ _ => decodeTreePrepare_encode, fun _ _ => encode_of_decodeTreePrepare, ?_, ?_⟩
  · intro quote payload encoded
    have encodable := TreePrepareQuote.encodable_iff.mpr ⟨payload, encoded⟩
    exact ⟨encodable.ready, encodable.reject⟩
  · intro ρ config runner s frame quote projection admitted decoded projected stages bytes
    have encodable := TreePrepareQuote.encodable_iff.mpr ⟨_, encode_of_decodeTreePrepare decoded⟩
    obtain ⟨limit, required⟩ := projectTreeCapacity_fits admitted encodable.lengths projected
    exact TreePrepareQuote.encodable_iff.mp
      (accumulate_encodable encodable stages bytes admitted.layerStart required limit)

end Quotes

end Mycellios.Stage
