import Mycellios.Protocol.TreeQuote
import Mycellios.Protocol.Wire

namespace Mycellios.Protocol

open Data List Logic

def WireFrame.header (f : WireFrame) : Header where
  magic := magic
  version := version
  typeValue := f.frameType.code
  flags := f.flags
  requestId := f.requestId
  deploymentGeneration := f.deploymentGeneration
  routeDigest := f.routeDigest
  waveStrategyDigest := f.waveStrategyDigest
  waveArtifactDigest := f.waveArtifactDigest
  sequence := f.sequence
  step := f.step
  tokenCount := f.tokenCount
  hiddenSize := f.hiddenSize
  payloadSize := f.payload.length
  waveDigest := f.waveDigest

def WireFrame.wire (f : WireFrame) : List UInt8 := f.header.pack ++ f.payload

section Header

structure Header.Fits (h : Header) : Prop where
  magic : h.magic.length = 4
  version : h.version < 256
  typeValue : h.typeValue < 256
  flags : h.flags < 2 ^ 16
  requestId : h.requestId < 2 ^ 64
  deploymentGeneration : h.deploymentGeneration < 2 ^ 64
  routeDigest : h.routeDigest.length = digestBytes
  waveStrategyDigest : h.waveStrategyDigest.length = digestBytes
  waveArtifactDigest : h.waveArtifactDigest.length = digestBytes
  sequence : h.sequence < 2 ^ 64
  step : h.step < 2 ^ 32
  tokenCount : h.tokenCount < 2 ^ 32
  hiddenSize : h.hiddenSize < 2 ^ 32
  payloadSize : h.payloadSize < 2 ^ 32
  waveDigest : h.waveDigest.length = digestBytes

variable {h : Header}

theorem Header.length_pack (fits : h.Fits) : h.pack.length = headerBytes := by
  simp [pack, fits.magic, fits.routeDigest, fits.waveStrategyDigest, fits.waveArtifactDigest,
    fits.waveDigest, digestBytes, headerBytes]

theorem Header.unpack_pack (fits : h.Fits) : unpack h.pack = h := by
  obtain ⟨magic, version, typeValue, flags, requestId, generation, route, strategy, artifact,
    sequence, step, tokenCount, hiddenSize, payloadSize, digest⟩ := fits
  simp only [digestBytes] at route strategy artifact digest
  simp only [unpack, pack, append_assoc]
  obtain ⟨⟩ := h
  simp only [Header.mk.injEq]
  refine ⟨?_, ?_, ?_, ?_, ?_, ?_, ?_, ?_, ?_, ?_, ?_, ?_, ?_, ?_, ?_⟩ <;>
    simp [slice_skip, slice_here, slice_all, unpackWord_packWord, *] <;> omega

end Header

theorem FrameType.ofCode_code (type : FrameType) : ofCode type.code = .ok type := by
  cases type <;> rfl

theorem FrameType.code_lt (type : FrameType) : type.code < 256 := by
  cases type <;> decide

structure WireFrame.Sealed (sha : Sha256) (b : SocketFrameBinding) (f : WireFrame) : Prop where
  fits : f.header.Fits
  payload : f.payload.length ≤ maxPayloadBytes
  metadata : validateFrameMetadata f.frameType f.flags f.step f.tokenCount f.hiddenSize
    f.payload.length = .ok ()
  digest : f.waveDigest = f.header.seal sha f.payload
  generation : f.deploymentGeneration = b.deploymentGeneration
  route : f.routeDigest = b.routeDigest
  strategy : f.waveStrategyDigest = b.waveStrategyDigest
  artifact : f.waveArtifactDigest = b.waveArtifactDigest
  unused : f.sequence < 2 ^ 64 - 1

section Send

variable (sha : Sha256)

def SendCall.frame (call : SendCall) (binding : Option SocketFrameBinding) : WireFrame :=
  let f : WireFrame :=
    { frameType := call.frameType
      flags := call.flags
      requestId := call.requestId
      step := call.step
      tokenCount := call.tokenCount
      hiddenSize := call.hiddenSize
      payload := call.payload
      sequence := selected call.sequence binding (·.nextSendSequence) 0
      deploymentGeneration := selected call.deploymentGeneration binding (·.deploymentGeneration) 0
      routeDigest := selected call.routeDigest binding (·.routeDigest) (staticRouteDigest sha)
      waveStrategyDigest := selected call.waveStrategyDigest binding (·.waveStrategyDigest)
        (staticWaveStrategyDigest sha)
      waveArtifactDigest := selected call.waveArtifactDigest binding (·.waveArtifactDigest)
        (staticWaveArtifactDigest sha)
      waveDigest := List.replicate digestBytes 0 }
  { f with waveDigest := f.header.seal sha f.payload }

theorem wp_ask {α : Type} {x : Except String α} {Q : α → Socket → Prop}
    {E : WireError → Socket → Prop} : wp (ask x) Q E s ↔
      (∀ a, x = .ok a → Q a s) ∧ ∀ message, x = .error message → E (.value message) s := by
  cases x <;> simp [ask]

theorem length_seal (h : Header) (payload : List UInt8) :
    (h.seal sha payload).length = digestBytes := by
  simp [Header.seal, digestBytes]

theorem sendFrame_spec (call : SendCall) {s : Socket} (bound : s.binding = some b) :
    wp (sendFrame sha call)
      (fun _ t => (call.frame sha s.binding).Sealed sha b ∧
        (call.frame sha s.binding).sequence = b.nextSendSequence ∧
        t = { s with
          binding := some { b with nextSendSequence := b.nextSendSequence + 1 }
          written := s.written ++ (call.frame sha s.binding).wire })
      (fun _ t => t = s) s := by
  simp only [sendFrame, wp_bind, wp_ask, wp_raiseIf, wp_get, requireUnsigned_eq_ok, wp_modify,
    wp_pure, bound, Option.any_some, decide_eq_true_eq, not_not, ne_eq, implies_true, and_true,
    true_and]
  intro _ flags _ request _ generation sameGeneration routeSize sameRoute strategySize artifactSize
    sameStrategy sameArtifact _ sequence sameSequence _ step _ tokenCount _ hiddenSize payload _
    metadata _ unused
  rw [sameSequence] at unused
  refine ⟨⟨⟨rfl, (by decide : version < 256), call.frameType.code_lt, ?_, ?_, ?_, routeSize,
    strategySize, artifactSize, ?_, ?_, ?_, ?_, ?_, length_seal sha _ _⟩, Nat.not_lt.mp payload,
    metadata, rfl, sameGeneration.symm, sameRoute.symm, sameStrategy.symm, sameArtifact.symm, ?_⟩,
    sameSequence.symm, rfl⟩
  · exact Nat.lt_of_le_pred (by decide) flags
  · exact Nat.lt_of_le_pred (by decide) request
  · exact Nat.lt_of_le_pred (by decide) generation
  · exact Nat.lt_of_le_pred (by decide) sequence
  · exact Nat.lt_of_le_pred (by decide) step
  · exact Nat.lt_of_le_pred (by decide) tokenCount
  · exact Nat.lt_of_le_pred (by decide) hiddenSize
  · exact (Nat.not_lt.mp payload).trans_lt (by decide)
  · exact lt_of_le_of_ne sequence unused

end Send

section Receive

variable (sha : Sha256)

theorem recvExact_front (full : front.length = size)
    (arrived : s.incoming = front ++ rest) {Q : List UInt8 → Socket → Prop}
    {E : WireError → Socket → Prop} :
    wp (recvExact size) Q E s ↔ Q front { s with incoming := rest } := by
  have enough : ¬s.incoming.length < size := by rw [arrived, length_append]; omega
  simp only [recvExact, wp_bind, wp_get, wp_ite, if_neg enough, wp_set, wp_pure]
  rw [arrived, take_left' full, drop_left' full]

variable {sha} {f : WireFrame} {s : Socket} {b : SocketFrameBinding} {rest : List UInt8}
  {Q : Unit → Socket → Prop} {E : WireError → Socket → Prop}
  (sealed : f.Sealed sha b) (bound : s.binding = some b)

include sealed bound

theorem admit_next (next : f.sequence = b.nextReceiveSequence)
    (h : Q () { s with binding := some { b with
      nextReceiveSequence := b.nextReceiveSequence + 1 } }) :
    wp (admitHeader f.header) Q E s := by
  rw [admitHeader, wp_bind, wp_get, bound]
  simp only [wp_bind, wp_raiseIf, wp_modify]
  refine ⟨fun bad => absurd sealed.generation bad,
      fun _ => ⟨fun bad => absurd sealed.route bad, fun _ =>
    ⟨fun bad => absurd sealed.strategy bad, fun _ => ⟨fun bad => absurd sealed.artifact bad,
        fun _ =>
    ⟨fun bad => absurd next bad, fun _ => ⟨fun bad => ?_, fun _ => h⟩⟩⟩⟩⟩⟩
  exact absurd (next.trans bad) sealed.unused.ne

omit sealed in
theorem admit_other (other : f.sequence ≠ b.nextReceiveSequence) :
    wp (admitHeader f.header) (fun _ _ => False) (fun _ _ => True) s := by
  rw [admitHeader, wp_bind, wp_get, bound]
  simp only [wp_bind, wp_raiseIf, wp_modify, implies_true, true_and]
  intro _ _ _ _ same
  exact absurd same (not_not.mpr other)

omit bound in
theorem recvFrame_of_admit (arrived : s.incoming = f.wire ++ rest) {Q : WireFrame → Socket → Prop}
    (admitted : wp (admitHeader f.header) (fun _ t => t.incoming = f.payload ++ rest ∧
      Q f { t with incoming := rest }) E { s with incoming := f.payload ++ rest }) :
    wp (recvFrame sha) Q E s := by
  rw [WireFrame.wire, append_assoc] at arrived
  rw [recvFrame, wp_bind, recvExact_front (Header.length_pack sealed.fits) arrived,
    Header.unpack_pack sealed.fits]
  simp only [wp_bind, wp_raiseIf, wp_ask]
  refine ⟨fun bad => absurd rfl bad, fun _ => ⟨fun bad => absurd rfl bad, fun _ =>
    ⟨fun bad => absurd sealed.payload (Nat.not_le.mpr bad), fun _ => ?_⟩⟩⟩
  refine wp_post admitted ?_
  rintro _ t ⟨waiting, done⟩
  refine ⟨fun type decoded => ?_, fun _ bad => ?_⟩
  · obtain rfl := Except.ok.inj (decoded.symm.trans (FrameType.ofCode_code f.frameType))
    refine ⟨fun _ _ => ?_, fun _ bad => ?_⟩
    · have full : f.payload.length = f.header.payloadSize := rfl
      rw [recvExact_front full waiting]
      exact ⟨fun bad => absurd sealed.digest bad, fun _ => done⟩
    · cases sealed.metadata.symm.trans bad
  · cases (FrameType.ofCode_code f.frameType).symm.trans bad

theorem recvFrame_next (arrived : s.incoming = f.wire ++ rest)
    (next : f.sequence = b.nextReceiveSequence) : recvFrame sha s = .ok f { s with
      binding := some { b with nextReceiveSequence := b.nextReceiveSequence + 1 }
      incoming := rest } := by
  apply ok_of_wp
  exact recvFrame_of_admit sealed arrived (admit_next sealed bound next ⟨rfl, rfl, rfl⟩)

theorem recvFrame_other (arrived : s.incoming = f.wire ++ rest)
    (other : f.sequence ≠ b.nextReceiveSequence) : ∃ e t, recvFrame sha s = .error e t := by
  apply error_of_wp
  apply recvFrame_of_admit sealed arrived
  exact wp_post (admit_other (f := f) (s := { s with incoming := f.payload ++ rest }) bound other)
    (fun _ _ => False.elim)

end Receive

theorem recvFrame_eof (sha : Sha256) (empty : s.incoming = []) :
    ∃ e t, recvFrame sha s = .error e t := by
  apply error_of_wp
  have short : s.incoming.length < headerBytes := by rw [empty]; decide
  simp only [recvFrame, recvExact, wp_bind, wp_get, wp_ite, if_pos short, wp_set, wp_throw]

section Stream

variable (sha : Sha256)

def sendAll : List SendCall → Socket → List WireFrame × Socket
  | [], s => ([], s)
  | call :: calls, s =>
    match sendFrame sha call s with
    | .ok _ t => ((call.frame sha s.binding) :: (sendAll calls t).1, (sendAll calls t).2)
    | .error _ t => sendAll calls t

def receiveAll : Nat → Socket → List WireFrame × Option WireError
  | 0, _ => ([], none)
  | n + 1, s =>
    match recvFrame sha s with
    | .ok f t => (f :: (receiveAll n t).1, (receiveAll n t).2)
    | .error e _ => ([], some e)

def SocketFrameBinding.SameIdentity (b b' : SocketFrameBinding) : Prop :=
  b.deploymentGeneration = b'.deploymentGeneration ∧ b.routeDigest = b'.routeDigest ∧
    b.waveStrategyDigest = b'.waveStrategyDigest ∧ b.waveArtifactDigest = b'.waveArtifactDigest

/-- Two ends that are bound to the same identity, the receiver at the sender's number. -/
structure Paired (sender receiver : Socket) : Prop where
  bound : ∃ b b', sender.binding = some b ∧ receiver.binding = some b' ∧ b.SameIdentity b' ∧
    b'.nextReceiveSequence = b.nextSendSequence

variable {sha} {s : Socket} {b : SocketFrameBinding} {f : WireFrame}

theorem WireFrame.Sealed.congr (h : f.Sealed sha b) (same : b.SameIdentity b') :
    f.Sealed sha b' := by
  obtain ⟨generation, route, strategy, artifact⟩ := same
  exact ⟨h.fits, h.payload, h.metadata, h.digest, h.generation.trans generation,
    h.route.trans route, h.strategy.trans strategy, h.artifact.trans artifact, h.unused⟩

theorem WireFrame.Sealed.renumber (h : f.Sealed sha b) (m n : Nat) :
    f.Sealed sha { b with nextSendSequence := m, nextReceiveSequence := n } :=
  h.congr ⟨rfl, rfl, rfl, rfl⟩

theorem sendAll_spec (bound : s.binding = some b) (calls : List SendCall) :
    (∀ f ∈ (sendAll sha calls s).1, f.Sealed sha b) ∧
      (sendAll sha calls s).1.map (·.sequence) = List.range' b.nextSendSequence
      (sendAll sha calls s).1.length ∧ (sendAll sha calls s).2.written = s.written ++
      (sendAll sha calls s).1.flatMap WireFrame.wire := by
  induction calls generalizing s b with
  | nil => simp [sendAll]
  | cons call calls ih =>
    have spec := sendFrame_spec sha call bound
    rw [wp] at spec
    rw [sendAll]
    cases sent : sendFrame sha call s with
    | ok n t =>
      rw [sent] at spec
      obtain ⟨sealed, number, rfl⟩ := spec
      obtain ⟨all, numbers, written⟩ := ih (s := { s with
        binding := some { b with nextSendSequence := b.nextSendSequence + 1 }
        written := s.written ++ (call.frame sha s.binding).wire }) rfl
      refine ⟨?_, ?_, ?_⟩
      · intro f mem
        rcases mem_cons.mp mem with rfl | mem
        · exact sealed
        · exact (all f mem).renumber b.nextSendSequence b.nextReceiveSequence
      · simp only [map_cons, length_cons, range'_succ, numbers, number]
      · simp only [written, flatMap_cons, append_assoc]
    | error e t =>
      rw [sent] at spec
      rw [spec]
      exact ih bound

section Numbered

variable {sent : List WireFrame} {base : Nat}
  (numbers : sent.map (·.sequence) = List.range' base sent.length)

include numbers

theorem sequence_of_numbered (h : i < sent.length) : sent[i].sequence = base + i := by
  have found : (sent.map (·.sequence))[i]? = some (base + i) := by
    rw [numbers, getElem?_range' h, Nat.one_mul]
  simpa [h] using found

theorem drop_of_sequence (mem : f ∈ sent) (h : f.sequence = base + k) :
    sent.drop k = f :: sent.drop (k + 1) := by
  obtain ⟨i, bound, rfl⟩ := mem_iff_getElem.mp mem
  have same := sequence_of_numbered numbers bound
  obtain rfl : i = k := by omega
  exact drop_eq_getElem_cons bound

/-- The frames before the first change are accepted, and then `recv_frame` raises. -/
theorem receiveAll_spec (bound : s.binding = some b) (position : b.nextReceiveSequence = base + k)
    (sealed : ∀ f ∈ stream, f.Sealed sha b) (ours : ∀ f ∈ stream, f ∈ sent)
    (arrived : s.incoming = stream.flatMap WireFrame.wire) (enough : stream.length < n) :
    (receiveAll sha n s).2.isSome = true ∧ (receiveAll sha n s).1 <+: sent.drop k ∧
      (receiveAll sha n s).1 <+: stream ∧
      ∀ p, p <+: sent.drop k → p <+: stream → p <+: (receiveAll sha n s).1 := by
  induction stream generalizing s b k n with
  | nil =>
    obtain ⟨n, rfl⟩ := Nat.exists_eq_add_of_lt enough
    obtain ⟨e, t, raised⟩ := recvFrame_eof sha arrived
    simp [receiveAll, raised]
  | cons f stream ih =>
    obtain ⟨n, rfl⟩ : ∃ m, n = m + 1 := Nat.exists_eq_add_one.mpr (Nat.zero_lt_of_lt enough)
    rw [flatMap_cons] at arrived
    rw [receiveAll]
    by_cases next : f.sequence = base + k
    · rw [recvFrame_next (sealed f mem_cons_self) bound arrived (next.trans position.symm)]
      obtain ⟨raised, isSent, isStream, longest⟩ := ih (k := k + 1) (n := n) (s := { s with
          binding := some { b with nextReceiveSequence := b.nextReceiveSequence + 1 }
          incoming := stream.flatMap WireFrame.wire }) rfl (by simp only [position]; omega)
        (fun g mem => (sealed g (mem_cons_of_mem _ mem)).renumber b.nextSendSequence _)
        (fun g mem => ours g (mem_cons_of_mem _ mem)) rfl (by simpa using enough)
      rw [drop_of_sequence numbers (ours f mem_cons_self) next]
      refine ⟨raised, cons_prefix_cons.mpr ⟨rfl, isSent⟩, cons_prefix_cons.mpr ⟨rfl, isStream⟩, ?_⟩
      intro p first second
      cases p with
      | nil => exact nil_prefix
      | cons g p =>
        obtain ⟨same, isSent'⟩ := cons_prefix_cons.mp first
        exact cons_prefix_cons.mpr ⟨same, longest p isSent' (cons_prefix_cons.mp second).2⟩
    · obtain ⟨e, t, raised⟩ := recvFrame_other (sealed f mem_cons_self) bound arrived
        (fun same => next (same.trans position))
      rw [raised]
      refine ⟨rfl, nil_prefix, nil_prefix, fun p first second => ?_⟩
      cases p with
      | nil => exact nil_prefix
      | cons g p =>
        obtain ⟨rfl, -⟩ := cons_prefix_cons.mp second
        have short : k < sent.length := by
          by_contra past
          rw [drop_of_length_le (Nat.not_lt.mp past)] at first
          cases prefix_nil.mp first
        rw [drop_eq_getElem_cons short, cons_prefix_cons] at first
        exact absurd (first.1 ▸ sequence_of_numbered numbers short) next

end Numbered

theorem receiveAll_same (bound : s.binding = some b)
    (numbers : sent.map (·.sequence) = List.range' b.nextReceiveSequence sent.length)
    (sealed : ∀ f ∈ sent, f.Sealed sha b)
    (arrived : s.incoming = sent.flatMap WireFrame.wire ++ rest) :
    receiveAll sha sent.length s = (sent, none) := by
  induction sent generalizing s b with
  | nil => rfl
  | cons f sent ih =>
    rw [flatMap_cons, append_assoc] at arrived
    simp only [map_cons, length_cons, range'_succ, List.cons.injEq] at numbers
    rw [length_cons, receiveAll,
      recvFrame_next (sealed f mem_cons_self) bound arrived numbers.1]
    have behind := ih (s := { s with
        binding := some { b with nextReceiveSequence := b.nextReceiveSequence + 1 }
        incoming := sent.flatMap WireFrame.wire ++ rest }) rfl numbers.2
      (fun g mem => (sealed g (mem_cons_of_mem _ mem)).renumber b.nextSendSequence _) rfl
    simp only [behind]

theorem bind_paired {sender receiver sender' receiver' : Socket} (fresh : sender.binding = none)
    (fresh' : receiver.binding = none)
    (h : bindSocketDeploymentGeneration sha generation route strategy artifact 0 sender =
      .ok () sender') (h' : bindSocketDeploymentGeneration sha generation route strategy artifact 0
        receiver = .ok () receiver') : Paired sender' receiver' := by
  have bound : ∀ {s t : Socket}, s.binding = none →
      bindSocketDeploymentGeneration sha generation route strategy artifact 0 s = .ok () t →
      ∃ r u a, routeIdentityDigest sha route = .ok r ∧ waveIdentityDigest sha .strategy strategy =
      .ok u ∧
        waveIdentityDigest sha .artifact artifact = .ok a ∧
        t.binding = some ⟨generation, r, u, a, 0, 0⟩ := by
    intro s t fresh done
    have spec : wp (bindSocketDeploymentGeneration sha generation route strategy artifact 0)
        (fun _ t => ∃ r u a, routeIdentityDigest sha route = .ok r ∧
          waveIdentityDigest sha .strategy strategy = .ok u ∧
          waveIdentityDigest sha .artifact artifact = .ok a ∧
          t.binding = some ⟨generation, r, u, a, 0, 0⟩)
        (fun _ _ => True) s := by
      simp only [bindSocketDeploymentGeneration, wp_bind, wp_ask, wp_get, fresh, wp_modify,
        implies_true, and_true]
      exact fun _ _ _ _ r hr u hu a ha => ⟨r, u, a, hr, hu, ha, rfl⟩
    rw [wp, done] at spec
    exact spec
  obtain ⟨r, u, a, hr, hu, ha, found⟩ := bound fresh h
  obtain ⟨r', u', a', hr', hu', ha', found'⟩ := bound fresh' h'
  refine ⟨_, _, found, found', ⟨rfl, ?_, ?_, ?_⟩, rfl⟩
  · exact ok_unique hr hr'
  · exact ok_unique hu hu'
  · exact ok_unique ha ha'

/-- Frames arrive as they were sent, in order. If frames are deleted, repeated or moved, the longest
unchanged beginning is accepted and then `recv_frame` raises. No two sent frames have the same
number. -/
theorem gdlp_stream_is_faithful {sender receiver : Socket} (paired : Paired sender receiver)
    (calls : List SendCall) :
    let sent := (sendAll sha calls sender).1
    (sendAll sha calls sender).2.written = sender.written ++ sent.flatMap WireFrame.wire ∧
      (∀ rest, receiveAll sha sent.length
        { receiver with incoming := sent.flatMap WireFrame.wire ++ rest } = (sent, none)) ∧
      (∀ stream : List WireFrame, (∀ f ∈ stream, f ∈ sent) → ∀ n, stream.length < n →
        let received := receiveAll sha n { receiver with incoming := stream.flatMap WireFrame.wire }
        received.2.isSome = true ∧ received.1 <+: sent ∧ received.1 <+: stream ∧
          ∀ p, p <+: sent → p <+: stream → p <+: received.1) ∧
      (sent.map (·.sequence)).Nodup ∧ ∀ f ∈ sent, f.sequence < 2 ^ 64 - 1 := by
  obtain ⟨b, b', bound, bound', same, position⟩ := paired.bound
  obtain ⟨sealed, numbers, written⟩ := @sendAll_spec sha sender b bound calls
  have sealed' := fun f mem => (sealed f mem).congr same
  refine ⟨written, fun rest => ?_, fun stream ours n enough => ?_, ?_,
    fun f mem => (sealed f mem).unused⟩
  · exact receiveAll_same bound' (position.symm ▸ numbers) sealed' rfl
  · have spec :=
      receiveAll_spec (k := 0) (s := { receiver with incoming := stream.flatMap WireFrame.wire })
      numbers bound' position (fun f mem => sealed' f (ours f mem)) ours rfl enough
    rwa [drop_zero] at spec
  · rw [numbers]
    exact nodup_range'

end Stream

def boundSocket : Socket where
  binding := some ⟨1, List.replicate 16 1, List.replicate 16 2, List.replicate 16 3, 0, 0⟩

theorem boundSocket_paired : Paired boundSocket boundSocket :=
  ⟨_, _, rfl, rfl, ⟨rfl, rfl, rfl, rfl⟩, rfl⟩

theorem begin_and_end_arrive :
    let sha : Sha256 := fun _ => Vector.replicate 32 0
    let sent := (sendAll sha
      [{ frameType := .begin, requestId := 7 }, { frameType := .end, requestId := 7 }]
      boundSocket).1
    sent.map (·.frameType) = [.begin, .end] ∧
      receiveAll sha sent.length { boundSocket with
        incoming := sent.flatMap WireFrame.wire ++ [] } =
        (sent, none) :=
  ⟨by decide +kernel, (gdlp_stream_is_faithful boundSocket_paired _).2.1 []⟩

end Mycellios.Protocol
