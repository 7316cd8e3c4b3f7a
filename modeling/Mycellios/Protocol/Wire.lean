import Mycellios.Logic.Wp
import Mycellios.Protocol.Metadata

/-! `send_frame` and `recv_frame` of `protocol.py`. A link emulator hands on the same bytes and is
left out. -/

namespace Mycellios.Protocol

open Data Logic

inductive WireError
  | value (message : String)
  | eof (message : String)

def FrameType.code : FrameType → Nat
  | hello => 1
  | ready => 2
  | begin => 3
  | activation => 4
  | token => 5
  | «end» => 6
  | cancel => 7
  | error => 8
  | shutdown => 9
  | prefill => 10
  | prefillAck => 11
  | truncate => 12
  | verify => 13
  | verifyResult => 14
  | ping => 15
  | pong => 16
  | fork => 17
  | promote => 18
  | treePrepare => 19
  | treePrepareResult => 20
  | treeReservationCommit => 21
  | treeReservationCancel => 22
  | treeReservationCommitResult => 23
  | receiptEnvelope => 24
  | receiptAck => 25
  | samplingVerify => 26
  | samplingVerifyResult => 27
  | samplingRngCheckpoint => 28

def FrameType.ofCode : Nat → Except String FrameType
  | 1 => .ok hello
  | 2 => .ok ready
  | 3 => .ok begin
  | 4 => .ok activation
  | 5 => .ok token
  | 6 => .ok «end»
  | 7 => .ok cancel
  | 8 => .ok error
  | 9 => .ok shutdown
  | 10 => .ok prefill
  | 11 => .ok prefillAck
  | 12 => .ok truncate
  | 13 => .ok verify
  | 14 => .ok verifyResult
  | 15 => .ok ping
  | 16 => .ok pong
  | 17 => .ok fork
  | 18 => .ok promote
  | 19 => .ok treePrepare
  | 20 => .ok treePrepareResult
  | 21 => .ok treeReservationCommit
  | 22 => .ok treeReservationCancel
  | 23 => .ok treeReservationCommitResult
  | 24 => .ok receiptEnvelope
  | 25 => .ok receiptAck
  | 26 => .ok samplingVerify
  | 27 => .ok samplingVerifyResult
  | 28 => .ok samplingRngCheckpoint
  | n => .error s!"unknown frame type {n}"

/-- A received frame with everything its header says. -/
structure WireFrame extends Frame where
  deploymentGeneration : Nat
  (routeDigest waveStrategyDigest waveArtifactDigest waveDigest : List UInt8)

def magic : List UInt8 := ascii "GDLP"
def version : Nat := 11
def digestBytes : Nat := 16

/-- The fields of `HEADER`, `<4sBBHQQ16s16s16sQIIII16s`. -/
structure Header where
  magic : List UInt8
  (version typeValue flags requestId deploymentGeneration : Nat)
  (routeDigest waveStrategyDigest waveArtifactDigest : List UInt8)
  (sequence step tokenCount hiddenSize payloadSize : Nat)
  waveDigest : List UInt8

def headerBytes : Nat := 112

def Header.pack (h : Header) : List UInt8 :=
  h.magic ++ packWord 1 h.version ++ packWord 1 h.typeValue ++ packWord 2 h.flags ++
    packWord 8 h.requestId ++ packWord 8 h.deploymentGeneration ++ h.routeDigest ++
    h.waveStrategyDigest ++ h.waveArtifactDigest ++ packWord 8 h.sequence ++ packWord 4 h.step ++
    packWord 4 h.tokenCount ++ packWord 4 h.hiddenSize ++ packWord 4 h.payloadSize ++ h.waveDigest

def Header.unpack (raw : List UInt8) : Header :=
  let word (offset size : Nat) := unpackWord (slice raw offset size)
  { magic := slice raw 0 4
    version := word 4 1
    typeValue := word 5 1
    flags := word 6 2
    requestId := word 8 8
    deploymentGeneration := word 16 8
    routeDigest := slice raw 24 16
    waveStrategyDigest := slice raw 40 16
    waveArtifactDigest := slice raw 56 16
    sequence := word 72 8
    step := word 80 4
    tokenCount := word 84 4
    hiddenSize := word 88 4
    payloadSize := word 92 4
    waveDigest := slice raw 96 16 }

def Header.seal (sha : Sha256) (h : Header) (payload : List UInt8) : List UInt8 :=
  let unsigned := { h with waveDigest := List.replicate digestBytes 0 }
  (sha (ascii "GDLP/WAVE/v1" ++ [0] ++ unsigned.pack ++ payload)).toList.take digestBytes

structure SocketFrameBinding where
  deploymentGeneration : Nat
  (routeDigest waveStrategyDigest waveArtifactDigest : List UInt8)
  nextSendSequence : Nat := 0
  nextReceiveSequence : Nat := 0
  deriving DecidableEq

/-- One end of a connection: its binding, what has arrived, and what it has written. -/
structure Socket where
  binding : Option SocketFrameBinding := none
  incoming : List UInt8 := []
  written : List UInt8 := []

abbrev WireM := EStateM WireError Socket

/-- A check whose text is raised as `ValueError`. -/
def ask {α : Type} : Except String α → WireM α
  | .ok a => pure a
  | .error message => throw (.value message)

section Identity

variable (sha : Sha256)

def identityDigest (domain : List UInt8) (name : String) (maximum : Nat) (identity : String) :
    Except String (List UInt8) := do
  if identity.length = 0 ∨ maximum < identity.length then
    throw (name ++ s!" must contain between 1 and {maximum} characters")
  if identity.toList.any (128 ≤ ·.toNat) then throw (name ++ " must be ASCII")
  pure ((sha (domain ++ ascii identity)).toList.take digestBytes)

def routeIdentityDigest (routeId : String) : Except String (List UInt8) :=
  identityDigest sha (ascii "GDLP/ROUTE/v1" ++ [0]) "route_id" 256 routeId

inductive WaveIdentity
  | strategy | artifact

def waveIdentityDigest (kind : WaveIdentity) (identity : String) : Except String (List UInt8) :=
  match kind with
  | .strategy =>
    identityDigest sha (ascii "GDLP/WAVE-STRATEGY/v1" ++ [0]) "wave strategy identity" 512 identity
  | .artifact =>
    identityDigest sha (ascii "GDLP/WAVE-ARTIFACT/v1" ++ [0]) "wave artifact identity" 512 identity

def staticRouteDigest : List UInt8 :=
  (sha (ascii "GDLP/ROUTE/v1" ++ [0] ++ ascii "static")).toList.take digestBytes

def staticWaveStrategyDigest : List UInt8 :=
  (sha (ascii "GDLP/WAVE-STRATEGY/v1" ++ [0] ++ ascii "autoregressive")).toList.take digestBytes

def staticWaveArtifactDigest : List UInt8 :=
  (sha (ascii "GDLP/WAVE-ARTIFACT/v1" ++ [0] ++ ascii "static-model")).toList.take digestBytes

def bindSocketDeploymentGeneration (deploymentGeneration : Nat) (routeId waveStrategyId : String)
    (waveArtifactIdentity : String) (nextReceiveSequence : Nat) : WireM Unit := do
  ask (requireUnsigned "deployment_generation" deploymentGeneration (2 ^ 64 - 1))
  ask (requireUnsigned "next_receive_sequence" nextReceiveSequence (2 ^ 64 - 1))
  let routeDigest ← ask (routeIdentityDigest sha routeId)
  let strategyDigest ← ask (waveIdentityDigest sha .strategy waveStrategyId)
  let artifactDigest ← ask (waveIdentityDigest sha .artifact waveArtifactIdentity)
  match (← get).binding with
  | some existing =>
    raiseIf (existing.deploymentGeneration ≠ deploymentGeneration ∨
        existing.routeDigest ≠ routeDigest ∨ existing.waveStrategyDigest ≠ strategyDigest ∨
        existing.waveArtifactDigest ≠ artifactDigest ∨
        existing.nextReceiveSequence ≠ nextReceiveSequence)
      (.value "socket frame identity cannot be rebound")
  | none =>
    modify fun s => { s with binding := some {
      deploymentGeneration := deploymentGeneration
      routeDigest := routeDigest
      waveStrategyDigest := strategyDigest
      waveArtifactDigest := artifactDigest
      nextReceiveSequence := nextReceiveSequence } }

end Identity

/-- The arguments of `send_frame`; those that may be `None` are options. -/
structure SendCall where
  frameType : FrameType
  requestId : Nat
  step : Nat := 0
  tokenCount : Nat := 0
  hiddenSize : Nat := 0
  flags : Nat := 0
  payload : List UInt8 := []
  deploymentGeneration : Option Nat := none
  routeDigest : Option (List UInt8) := none
  waveStrategyDigest : Option (List UInt8) := none
  waveArtifactDigest : Option (List UInt8) := none
  sequence : Option Nat := none

section Frames

variable (sha : Sha256)

/-- What a call names itself, else what the socket is bound to, else the default. -/
def selected {α : Type} (given : Option α) (binding : Option SocketFrameBinding)
    (bound : SocketFrameBinding → α) (default : α) : α := (given <|> binding.map bound).getD default

def sendFrame (call : SendCall) : WireM Nat := do
  ask (requireUnsigned "flags" call.flags (2 ^ 16 - 1))
  ask (requireUnsigned "request_id" call.requestId (2 ^ 64 - 1))
  let binding := (← get).binding
  let generation := selected call.deploymentGeneration binding (·.deploymentGeneration) 0
  ask (requireUnsigned "deployment_generation" generation (2 ^ 64 - 1))
  raiseIf (binding.any (·.deploymentGeneration ≠ generation))
    (.value "frame deployment generation differs from socket binding")
  let route := selected call.routeDigest binding (·.routeDigest) (staticRouteDigest sha)
  raiseIf (route.length ≠ digestBytes)
    (.value s!"route_digest must contain exactly {digestBytes} bytes")
  raiseIf (binding.any (·.routeDigest ≠ route)) (.value "frame route differs from socket binding")
  let strategy :=
    selected call.waveStrategyDigest binding (·.waveStrategyDigest) (staticWaveStrategyDigest sha)
  let artifact :=
    selected call.waveArtifactDigest binding (·.waveArtifactDigest) (staticWaveArtifactDigest sha)
  raiseIf (strategy.length ≠ digestBytes)
    (.value s!"wave_strategy_digest must contain exactly {digestBytes} bytes")
  raiseIf (artifact.length ≠ digestBytes)
    (.value s!"wave_artifact_digest must contain exactly {digestBytes} bytes")
  raiseIf (binding.any (·.waveStrategyDigest ≠ strategy))
    (.value "frame wave strategy differs from socket binding")
  raiseIf (binding.any (·.waveArtifactDigest ≠ artifact))
    (.value "frame wave artifact differs from socket binding")
  let sequence := selected call.sequence binding (·.nextSendSequence) 0
  ask (requireUnsigned "sequence" sequence (2 ^ 64 - 1))
  raiseIf (binding.any (·.nextSendSequence ≠ sequence))
    (.value "frame sequence differs from socket binding")
  ask (requireUnsigned "step" call.step (2 ^ 32 - 1))
  ask (requireUnsigned "token_count" call.tokenCount (2 ^ 32 - 1))
  ask (requireUnsigned "hidden_size" call.hiddenSize (2 ^ 32 - 1))
  let payloadSize := call.payload.length
  raiseIf (maxPayloadBytes < payloadSize) (.value s!"payload exceeds {maxPayloadBytes} bytes")
  ask (validateFrameMetadata call.frameType call.flags call.step call.tokenCount call.hiddenSize
    payloadSize)
  match (← get).binding with
  | none => pure ()
  | some current =>
    raiseIf (some current ≠ binding ∨ current.nextSendSequence ≠ sequence)
      (.value "frame sequence was concurrently superseded")
    raiseIf (current.nextSendSequence = 2 ^ 64 - 1) (.value "frame sequence is exhausted")
    modify fun s => { s with
      binding := some { current with nextSendSequence := current.nextSendSequence + 1 } }
  let unsigned : Header :=
    { magic := magic
      version := version
      typeValue := call.frameType.code
      flags := call.flags
      requestId := call.requestId
      deploymentGeneration := generation
      routeDigest := route
      waveStrategyDigest := strategy
      waveArtifactDigest := artifact
      sequence := sequence
      step := call.step
      tokenCount := call.tokenCount
      hiddenSize := call.hiddenSize
      payloadSize := payloadSize
      waveDigest := List.replicate digestBytes 0 }
  let header := { unsigned with waveDigest := unsigned.seal sha call.payload }
  modify fun s => { s with written := s.written ++ (header.pack ++ call.payload) }
  pure (header.pack.length + payloadSize)

def recvExact (size : Nat) : WireM (List UInt8) := do
  let s ← get
  if s.incoming.length < size then
    set { s with incoming := [] }
    throw (.eof "socket closed while receiving a frame")
  else
    set { s with incoming := s.incoming.drop size }
    pure (s.incoming.take size)

/-- What a bound socket asks of a header, before its sequence number is used up. -/
def admitHeader (h : Header) : WireM Unit := do
  match (← get).binding with
  | none => pure ()
  | some current =>
    raiseIf (h.deploymentGeneration ≠ current.deploymentGeneration)
      (.value "frame belongs to another deployment generation")
    raiseIf (h.routeDigest ≠ current.routeDigest) (.value "frame belongs to another route")
    raiseIf (h.waveStrategyDigest ≠ current.waveStrategyDigest)
      (.value "frame belongs to another wave strategy")
    raiseIf (h.waveArtifactDigest ≠ current.waveArtifactDigest)
      (.value "frame belongs to another wave artifact")
    raiseIf (h.sequence ≠ current.nextReceiveSequence)
      (.value "frame sequence is replayed or out of order")
    raiseIf (current.nextReceiveSequence = 2 ^ 64 - 1)
      (.value "frame receive sequence is exhausted")
    modify fun s => { s with
      binding := some { current with nextReceiveSequence := current.nextReceiveSequence + 1 } }

def recvFrame : WireM WireFrame := do
  let h := Header.unpack (← recvExact headerBytes)
  raiseIf (h.magic ≠ magic) (.value "invalid frame magic")
  raiseIf (h.version ≠ version) (.value s!"unsupported protocol version {h.version}")
  raiseIf (maxPayloadBytes < h.payloadSize) (.value s!"payload exceeds {maxPayloadBytes} bytes")
  admitHeader h
  let frameType ← ask (FrameType.ofCode h.typeValue)
  ask (validateFrameMetadata frameType h.flags h.step h.tokenCount h.hiddenSize h.payloadSize)
  let payload ← recvExact h.payloadSize
  raiseIf (h.waveDigest ≠ h.seal sha payload) (.value "frame wave digest is invalid")
  pure {
    frameType := frameType
    flags := h.flags
    requestId := h.requestId
    step := h.step
    tokenCount := h.tokenCount
    hiddenSize := h.hiddenSize
    payload := payload
    sequence := h.sequence
    deploymentGeneration := h.deploymentGeneration
    routeDigest := h.routeDigest
    waveStrategyDigest := h.waveStrategyDigest
    waveArtifactDigest := h.waveArtifactDigest
    waveDigest := h.waveDigest }

end Frames

end Mycellios.Protocol
