import Mycellios.Data.Dict
import Mycellios.Logic.Machine
import Mycellios.Logic.Wp

/-! `DirectSecureServer.accept` of `direct-secure-channel.ts`. A handshake runs up to the `await` of
its response before another one may run. The consumed connection ids are read before the response is
written and changed after it. -/

namespace Mycellios.Direct

open Data List Logic

structure DirectSessionGrant where
  (connectionId sourceNodeId destinationNodeId : String)
  targetPort : Nat
  expiresAt : Int
  secret : String

structure ClientHello where
  (connectionId sourceNodeId destinationNodeId : String)
  targetPort : Nat
  expiresAt : Int
  clientNonce : String
  mac : String

inductive HandshakeError
  | grantNotFound | grantIsExpired | grantIdentityMismatch | grantWasAlreadyConsumed
  | clientNonceIsInvalid | clientAuthenticationFailed

structure Crypto where
  mac : String → List String → String
  isNonce : String → Bool

/-- `resolveGrant`. A grant bears the connection id it is found under. -/
structure Grants where
  find : String → Option DirectSessionGrant
  own : ∀ {id grant}, find id = some grant → grant.connectionId = id

/-- A handshake waits for the hello of its client, or for its response to be written. -/
inductive Attempt
  | reading
  | writing (grant : DirectSessionGrant)

structure Server where
  consumedConnectionIds : Dict String Int
  attempts : Dict Nat Attempt
  channels : List (String × Int)

def Server.new : Server := ⟨.empty, .empty, []⟩

inductive Event
  | connects (socket : Nat)
  | sends (socket : Nat) (hello : ClientHello)
  | written (socket : Nat)
  | fails (socket : Nat)

section Accept

def clientHelloTranscript (hello : ClientHello) : List String :=
  ["client", "mycellios-direct/1", hello.connectionId, hello.sourceNodeId, hello.destinationNodeId,
    toString hello.targetPort, toString hello.expiresAt, hello.clientNonce]

variable (crypto : Crypto) (grants : Grants)

namespace Server

variable (s : Server)

def forgetExpired (now : Int) : Server := { s with
  consumedConnectionIds := s.consumedConnectionIds.filter fun _ expiresAt => ¬expiresAt ≤ now }

def verify (grant : DirectSessionGrant) (hello : ClientHello) : Except HandshakeError Unit :=
  if grant.sourceNodeId ≠ hello.sourceNodeId ∨ grant.destinationNodeId ≠ hello.destinationNodeId ∨
      grant.targetPort ≠ hello.targetPort ∨ grant.expiresAt ≠ hello.expiresAt then
    .error .grantIdentityMismatch
  else if s.consumedConnectionIds.contains grant.connectionId then .error .grantWasAlreadyConsumed
  else if ¬crypto.isNonce hello.clientNonce then .error .clientNonceIsInvalid
  else if crypto.mac grant.secret (clientHelloTranscript hello) ≠ hello.mac then
    .error .clientAuthenticationFailed
  else .ok ()

def reject (socket : Nat) (error : HandshakeError) : Server × Option HandshakeError :=
  ({ s with attempts := s.attempts.erase socket }, some error)

/-- `accept`, from the hello to the `await` of the response. -/
def accept (socket : Nat) (hello : ClientHello) (now : Int) : Server × Option HandshakeError :=
  match grants.find hello.connectionId with
  | none => s.reject socket .grantNotFound
  | some grant =>
    if grant.expiresAt ≤ now then s.reject socket .grantIsExpired
    else
      let s := s.forgetExpired now
      match s.verify crypto grant hello with
      | .error error => s.reject socket error
      | .ok _ => ({ s with attempts := s.attempts.insert socket (.writing grant) }, none)

/-- `accept`, after the response. -/
def establish (socket : Nat) (grant : DirectSessionGrant) (now : Int) : Server where
  consumedConnectionIds := s.consumedConnectionIds.insert grant.connectionId grant.expiresAt
  attempts := s.attempts.erase socket
  channels := s.channels ++ [(grant.connectionId, now)]

end Server

def step (s : Server) (event : Int × Event) : Server × Option HandshakeError :=
  match event.2 with
  | .connects socket =>
    if s.attempts.contains socket then (s, none)
    else ({ s with attempts := s.attempts.insert socket .reading }, none)
  | .sends socket hello =>
    match s.attempts.find? socket with
    | some .reading => s.accept crypto grants socket hello event.1
    | _ => (s, none)
  | .written socket =>
    match s.attempts.find? socket with
    | some (.writing grant) => (s.establish socket grant event.1, none)
    | _ => (s, none)
  | .fails socket => ({ s with attempts := s.attempts.erase socket }, none)

end Accept

section OneChannel

variable {crypto : Crypto} {grants : Grants} {s : Server} {now : Int}

def Attempt.grant? : Attempt → Option DirectSessionGrant
  | .reading => none
  | .writing grant => some grant

def Server.Apart (s : Server) : Prop :=
  ∀ a ∈ s.attempts.entries, ∀ b ∈ s.attempts.entries, ∀ grant ∈ a.2.grant?, ∀ grant' ∈ b.2.grant?,
    grant.connectionId = grant'.connectionId → a.1 = b.1

instance (s : Server) : Decidable s.Apart := by
  unfold Server.Apart
  infer_instance

def Event.finishes : Event → Option Nat
  | .written socket => some socket
  | _ => none

def Server.InTime (s : Server) (event : Int × Event) : Prop :=
  ∀ socket ∈ event.2.finishes, ∀ attempt ∈ s.attempts.find? socket, ∀ grant ∈ attempt.grant?,
    event.1 < grant.expiresAt

instance (s : Server) (event : Int × Event) : Decidable (s.InTime event) := by
  unfold Server.InTime
  infer_instance

/-- Used connection ids are on record until their grants expire. `now` is no later than what is to
come. -/
structure Server.Sound (grants : Grants) (now : Int) (s : Server) : Prop where
  writing : ∀ socket grant, s.attempts.find? socket = some (.writing grant) →
    grants.find grant.connectionId = some grant ∧ ∀ c ∈ s.channels, c.1 ≠ grant.connectionId
  channels : ∀ c ∈ s.channels, ∃ grant, grants.find c.1 = some grant ∧ c.2 < grant.expiresAt ∧
    (s.consumedConnectionIds.find? c.1 = some grant.expiresAt ∨ grant.expiresAt ≤ now)
  once : (s.channels.map Prod.fst).Nodup

namespace Server.Sound

section

variable (h : s.Sound grants now)
include h

theorem later (le : now ≤ now') : s.Sound grants now' where
  writing := h.writing
  channels c mem := by
    obtain ⟨grant, found, early, spent⟩ := h.channels c mem
    exact ⟨grant, found, early, spent.imp_right (le_trans · le)⟩
  once := h.once

theorem setAttempts {attempts : Dict Nat Attempt}
    (kept : ∀ socket grant, attempts.find? socket = some (.writing grant) →
      s.attempts.find? socket = some (.writing grant)) :
    Server.Sound grants now { s with attempts := attempts } where
  writing socket grant found := h.writing socket grant (kept socket grant found)
  channels := h.channels
  once := h.once

theorem drop (socket : Nat) :
    Server.Sound grants now { s with attempts := s.attempts.erase socket } :=
  h.setAttempts fun _ _ found => Dict.find?_of_erase found

theorem forgetExpired : (s.forgetExpired now).Sound grants now where
  writing := h.writing
  channels c mem := by
    obtain ⟨grant, found, early, spent⟩ := h.channels c mem
    refine ⟨grant, found, early, ?_⟩
    by_cases expired : grant.expiresAt ≤ now
    · exact .inr expired
    · exact .inl (Dict.find?_filter_eq_some.mpr
        ⟨spent.resolve_right expired, by simpa using expired⟩)
  once := h.once

theorem unused
    (found : grants.find grant.connectionId = some grant) (valid : now < grant.expiresAt)
    (verified : s.verify crypto grant hello = .ok ()) :
    ∀ c ∈ s.channels, c.1 ≠ grant.connectionId := by
  intro c mem same
  obtain ⟨grant', found', _, spent⟩ := h.channels c mem
  rw [same, found] at found'
  obtain rfl := Option.some.inj found'
  have there := spent.resolve_right (by omega)
  rw [same] at there
  unfold Server.verify at verified
  split_ifs at verified with _ used
  exact used (by rw [Dict.contains, there]; rfl)

theorem accept (socket : Nat) (hello : ClientHello) :
    (s.accept crypto grants socket hello now).1.Sound grants now := by
  unfold Server.accept
  split
  · exact h.drop socket
  rename_i grant found
  have own := grants.own found
  split
  · exact h.drop socket
  rename_i valid
  simp only
  split
  · exact h.forgetExpired.drop socket
  rename_i verified
  refine ⟨fun socket' grant' writing => ?_, h.forgetExpired.channels, h.once⟩
  rcases Dict.of_find?_insert writing with ⟨-, new⟩ | ⟨-, writing⟩
  · cases new
    rw [← own] at found
    exact ⟨found, h.forgetExpired.unused found (not_le.mp valid) verified⟩
  · exact h.writing socket' grant' writing

theorem establish (apart : s.Apart) (writing : s.attempts.find? socket = some (.writing grant))
    (early : now < grant.expiresAt) : (s.establish socket grant now).Sound grants now := by
  obtain ⟨found, none⟩ := h.writing socket grant writing
  refine ⟨fun socket' grant' writing' => ?_, fun c mem => ?_, ?_⟩
  · have there := Dict.find?_of_erase writing'
    obtain ⟨found', none'⟩ := h.writing socket' grant' there
    refine ⟨found', fun c mem => ?_⟩
    rcases mem_append.mp mem with mem | mem
    · exact none' c mem
    rw [mem_singleton.mp mem]
    intro same
    have one := apart (socket, .writing grant) ((Dict.find?_eq_some_iff _ _ _).mp writing) (socket',
      .writing grant') ((Dict.find?_eq_some_iff _ _ _).mp there) grant rfl grant' rfl same
    simp only [Server.establish, Dict.find?_erase] at writing'
    rw [if_pos one] at writing'
    cases writing'
  · simp only [Server.establish, Dict.find?_insert]
    rcases mem_append.mp mem with mem | mem
    · obtain ⟨grant', found', early', spent⟩ := h.channels c mem
      rw [if_neg (none c mem).symm]
      exact ⟨grant', found', early', spent⟩
    · rw [mem_singleton.mp mem]
      exact ⟨grant, found, early, .inl (if_pos rfl)⟩
  · simp only [Server.establish, map_append, map_cons, map_nil]
    refine nodup_append.mpr ⟨h.once, nodup_singleton _, fun id mem id' mem' => ?_⟩
    obtain ⟨c, listed, rfl⟩ := mem_map.mp mem
    rw [mem_singleton.mp mem']
    exact none c listed

theorem step (event : Event) (apart : s.Apart) (inTime : s.InTime (now, event)) :
    (step crypto grants s (now, event)).1.Sound grants now := by
  cases event with
  | connects socket =>
    simp only [Direct.step]
    split
    · exact h
    refine h.setAttempts fun socket' grant found => ?_
    obtain ⟨-, new⟩ | ⟨-, found⟩ := Dict.of_find?_insert found
    · cases new
    · exact found
  | sends socket hello =>
    simp only [Direct.step]
    split
    · exact h.accept socket hello
    · exact h
  | written socket =>
    simp only [Direct.step]
    split
    · rename_i grant writing
      exact h.establish apart writing (inTime socket rfl _ writing grant rfl)
    · exact h
  | fails socket => exact h.drop socket

end

end Server.Sound

theorem sound_final (h : s.Sound grants now) (clock : events.Pairwise (·.1 ≤ ·.1))
    (begun : ∀ e ∈ events, now ≤ e.1)
    (calm : ∀ t ∈ trace (step crypto grants) s events, t.pre.Apart ∧ t.pre.InTime t.input) :
    ∃ end', (final (step crypto grants) s events).Sound grants end' := by
  induction events generalizing s now with
  | nil => exact ⟨now, h⟩
  | cons e rest ih =>
    obtain ⟨⟨apart, inTime⟩, calm⟩ := forall_mem_cons.mp calm
    obtain ⟨first, clock⟩ := pairwise_cons.mp clock
    exact ih ((h.later (begun e mem_cons_self)).step e.2 apart inTime) clock first calm

/-- Every connection id gets at most one channel, before its grant expires, if its responses are
written one at a time and before that. -/
theorem one_channel_per_grant (crypto : Crypto) (grants : Grants) (events : List (Int × Event))
    (clock : events.Pairwise (·.1 ≤ ·.1))
    (calm : ∀ t ∈ trace (step crypto grants) .new events, t.pre.Apart ∧ t.pre.InTime t.input) :
    ((final (step crypto grants) .new events).channels.map Prod.fst).Nodup ∧
    ∀ c ∈ (final (step crypto grants) .new events).channels,
      ∃ grant, grants.find c.1 = some grant ∧ c.2 < grant.expiresAt := by
  have fresh : ∀ now, Server.Sound grants now .new := fun now =>
    ⟨fun _ _ found => (by cases found), fun _ mem => absurd mem not_mem_nil, nodup_nil⟩
  have sound : ∃ end', (final (step crypto grants) .new events).Sound grants end' := by
    cases events with
    | nil => exact ⟨0, fresh 0⟩
    | cons e rest =>
      refine sound_final (fresh e.1) clock (fun e' mem => ?_) calm
      rcases mem_cons.mp mem with rfl | mem
      · exact le_refl _
      · exact (pairwise_cons.mp clock).1 e' mem
  obtain ⟨end', h⟩ := sound
  refine ⟨h.once, fun c mem => ?_⟩
  obtain ⟨grant, found, early, _⟩ := h.channels c mem
  exact ⟨grant, found, early⟩

end OneChannel

def plain : Crypto :=
  ⟨fun secret transcript => secret ++ transcript.getLastD "", fun nonce => nonce.length = 43⟩

/-- Thirty-two bytes in base64url. -/
def bytes32 (c : Char) : String := String.ofList (c :: List.replicate 42 'A')

def theGrant : DirectSessionGrant := ⟨"connection", "source", "destination", 9000, 10, bytes32 's'⟩

def oneGrant : Grants where
  find id := if id = "connection" then some theGrant else none
  own := by
    intro id grant found
    split at found
    · rename_i same
      rw [← Option.some.inj found, same]
      rfl
    · cases found

def greeting (nonce : Char) : ClientHello :=
  ⟨"connection", "source", "destination", 9000, 10, bytes32 nonce, bytes32 's' ++ bytes32 nonce⟩

def overlapping : List (Int × Event) :=
  [(0, .connects 1), (0, .connects 2), (1, .sends 1 (greeting 'a')), (1, .sends 2 (greeting 'b')),
    (2, .written 1), (2, .written 2)]

def slow : List (Int × Event) := [(0, .connects 1), (9, .sends 1 (greeting 'a')), (11, .written 1)]

theorem grant_used_twice_and_late :
    (final (step plain oneGrant) .new overlapping).channels = [("connection", 2),
      ("connection", 2)] ∧
    (final (step plain oneGrant) .new slow).channels = [("connection", 11)] ∧
    theGrant.expiresAt = 10 := by
  decide +kernel

def inTurn : List (Int × Event) :=
  [(0, .connects 1), (0, .connects 2), (0, .connects 3), (1, .sends 1 (greeting 'a')),
    (2, .sends 3 { greeting 'c' with mac := "forged" }), (2, .written 1),
    (3, .sends 2 (greeting 'b')), (4, .connects 4), (12, .sends 4 (greeting 'd'))]

theorem inTurn_one_channel :
    (final (step plain oneGrant) .new inTurn).channels = [("connection", 2)] ∧
    ((final (step plain oneGrant) .new inTurn).channels.map Prod.fst).Nodup :=
  ⟨by decide +kernel, (one_channel_per_grant plain oneGrant inTurn (by decide +kernel)
    (by decide +kernel)).1⟩

end Mycellios.Direct
