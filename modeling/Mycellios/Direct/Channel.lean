import Mycellios.Crypto.Sealing
import Mycellios.Data.Bytes
import Mycellios.Direct.Handshake

/-! `DirectSecureChannel` of `direct-secure-channel.ts`. What arrives at an end is up to an attacker
who sees all that is sent. The cipher is ideal, and keys derived from different inputs differ. -/

universe u

namespace Mycellios.Direct

open Data Logic Mycellios.Crypto

def bigEndian (size value : Nat) : Bytes := (packWord size value).reverse

def ofBigEndian (bytes : Bytes) : Nat := unpackWord bytes.reverse

theorem ofBigEndian_lt (bytes : Bytes) : ofBigEndian bytes < 256 ^ bytes.length := by
  simpa [ofBigEndian] using unpackWord_lt bytes.reverse

theorem ofBigEndian_bigEndian (h : value < 256 ^ size) :
    ofBigEndian (bigEndian size value) = value := by
  rw [ofBigEndian, bigEndian, List.reverse_reverse, unpackWord_packWord_of_lt h]

inductive Party
  | client | server
  deriving DecidableEq

def Party.other : Party → Party
  | .client => .server
  | .server => .client

/-- The blocks of key material that are derived from a secret, a salt and a text. -/
structure Kdf (Key : Type u) where
  expand : String → Bytes → String → Nat → Key
  injective : ∀ secret salt info block secret' salt' info' block',
    expand secret salt info block = expand secret' salt' info' block' →
      secret = secret' ∧ salt = salt' ∧ info = info' ∧ block = block'

/-- What the two ends of a channel have agreed on, and what each of them accepts. -/
structure Setting (Key : Type u) where
  cipher : Cipher Key
  tag : cipher.overhead = 16
  kdf : Kdf Key
  grant : DirectSessionGrant
  clientNonce : Bytes
  serverNonce : Bytes
  maximumFrameBytes : Party → Nat
  bounds : ∀ p, 1024 ≤ maximumFrameBytes p ∧ maximumFrameBytes p ≤ 8 * 1024 * 1024

/-- Where `receiveLoop` is: before a header, before the body of one, or ended. -/
inductive Reading
  | header
  | body (header : Bytes)
  | stopped

structure Channel where
  writeSequence : Nat
  readSequence : Nat
  closed : Bool
  reading : Reading
  buffer : Bytes
  ended : Bool
  destroyed : Bool

def Channel.new : Channel := ⟨0, 0, false, .header, [], false, false⟩

/-- Both ends, all that was sealed, and what each end was asked to send, emitted and got. -/
structure Link (Key : Type u) where
  ends : Party → Channel
  log : List (Sealed Key)
  sent : Party → List Bytes
  emitted : Party → List Bytes
  arrived : Party → Bytes

def Link.new (Key : Type u) : Link Key := ⟨fun _ => .new, [], fun _ => [], fun _ => [], fun _ => []⟩

inductive ChannelError
  | channelIsClosed | frameSizeIsInvalid | sequenceIsOutOfRange

inductive ChannelEvent
  | send (party : Party) (data : Bytes)
  | arrives (party : Party) (bytes : Bytes)
  | reads (party : Party)
  | ends (party : Party)
  | close (party : Party)
  | destroy (party : Party)
  /-- The socket is destroyed, by `close` after a while or by the system. -/
  | gone (party : Party)

namespace Setting

variable {Key : Type u} (setting : Setting Key)

def deriveDirectionalKeys : Key × Key :=
  let grant := setting.grant
  let salt := setting.clientNonce ++ setting.serverNonce
  let info := "\x00".intercalate ["mycellios-direct/1", grant.connectionId, grant.sourceNodeId,
    grant.destinationNodeId, toString grant.targetPort]
  (setting.kdf.expand grant.secret salt info 1, setting.kdf.expand grant.secret salt info 2)

def writeKey : Party → Key
  | .client => setting.deriveDirectionalKeys.1
  | .server => setting.deriveDirectionalKeys.2

def readKey (p : Party) : Key := setting.writeKey p.other

def frameNonce (sequence : Nat) : Bytes := [0x4d, 0x59, 0x43, 0x31] ++ bigEndian 8 sequence

def frameHeader (sequence length : Nat) : Bytes := bigEndian 8 sequence ++ bigEndian 4 length

def frameAad (header : Bytes) : Bytes :=
  ("mycellios-direct/1\x00" ++ setting.grant.connectionId ++ "\x00").toUTF8.toList ++ header

def frame (p : Party) (sequence : Nat) (data : Bytes) : Bytes :=
  let header := frameHeader sequence data.length
  header ++ setting.cipher.encrypt (setting.writeKey p) (frameNonce sequence)
    (setting.frameAad header) data

end Setting

section Channels

variable {Key : Type u} [DecidableEq Key] (setting : Setting Key)

def Channel.fail (c : Channel) : Channel :=
  { c with closed := true, destroyed := c.destroyed || !c.closed, reading := .stopped }

/-- One turn of `receiveLoop`, between two `await`s. -/
def Channel.receive (p : Party) (log : List (Sealed Key)) (c : Channel) : Channel × Option Bytes :=
  match c.reading with
  | .stopped => (c, none)
  | .header =>
    if c.buffer.length < 12 then (if c.ended then c.fail else c, none)
    else
      let header := c.buffer.take 12
      let c := { c with buffer := c.buffer.drop 12 }
      let sequence := ofBigEndian (header.take 8)
      let length := ofBigEndian (header.drop 8)
      if sequence ≠ c.readSequence then (c.fail, none)
      else if length < 1 ∨ setting.maximumFrameBytes p < length then (c.fail, none)
      else ({ c with reading := .body header }, none)
  | .body header =>
    let length := ofBigEndian (header.drop 8)
    if c.buffer.length < length + 16 then (if c.ended then c.fail else c, none)
    else
      let body := c.buffer.take (length + 16)
      let c := { c with buffer := c.buffer.drop (length + 16) }
      match setting.cipher.decrypt log (setting.readKey p)
          (Setting.frameNonce (ofBigEndian (header.take 8))) (setting.frameAad header) body with
      | none => (c.fail, none)
      | some plaintext =>
        ({ c with
          readSequence := c.readSequence + 1
          reading := if c.closed then .stopped else .header }, some plaintext)

namespace Link

variable (n : Link Key) (p : Party)

def setEnd (c : Channel) : Link Key := { n with ends := Function.update n.ends p c }

def send (data : Bytes) : Link Key × Option ChannelError :=
  let c := n.ends p
  if c.closed ∨ c.destroyed then (n, some .channelIsClosed)
  else if data.length < 1 ∨ setting.maximumFrameBytes p < data.length then
    (n, some .frameSizeIsInvalid)
  else if 2 ^ 64 ≤ c.writeSequence then (n, some .sequenceIsOutOfRange)
  else
    let header := Setting.frameHeader c.writeSequence data.length
    ({ n with
      ends := Function.update n.ends p { c with writeSequence := c.writeSequence + 1 }
      log := n.log ++ [⟨setting.writeKey p, Setting.frameNonce c.writeSequence,
        setting.frameAad header, data⟩]
      sent := Function.update n.sent p (n.sent p ++ [data]) }, none)

def arrives (bytes : Bytes) : Link Key :=
  let c := n.ends p
  if c.ended ∨ c.destroyed then n
  else { n with
    ends := Function.update n.ends p { c with buffer := c.buffer ++ bytes }
    arrived := Function.update n.arrived p (n.arrived p ++ bytes) }

def reads : Link Key :=
  let received := (n.ends p).receive setting p n.log
  { n with
    ends := Function.update n.ends p received.1
    emitted := Function.update n.emitted p (n.emitted p ++ received.2.toList) }

def destroy : Link Key :=
  let c := n.ends p
  if c.closed then n else n.setEnd p { c with closed := true, destroyed := true }

end Link

def linkStep (n : Link Key) : ChannelEvent → Link Key × Option ChannelError
  | .send p data => n.send setting p data
  | .arrives p bytes => (n.arrives p bytes, none)
  | .reads p => (n.reads setting p, none)
  | .ends p => (n.setEnd p { n.ends p with ended := true }, none)
  | .close p => (n.setEnd p { n.ends p with closed := true }, none)
  | .destroy p => (n.destroy p, none)
  | .gone p => (n.setEnd p { n.ends p with ended := true, destroyed := true }, none)

end Channels

end Mycellios.Direct
