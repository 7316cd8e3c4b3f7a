import Mycellios.Direct.Channel

universe u

namespace Mycellios.Direct

open Data Logic Mycellios.Crypto

@[simp] theorem Party.other_other (p : Party) : p.other.other = p := by cases p <;> rfl

theorem Party.eq_or_other (p q : Party) : q = p ∨ q = p.other := by cases p <;> cases q <;> decide

@[simp] theorem Party.other_ne (p : Party) : p.other ≠ p := by cases p <;> decide

variable {header : Bytes}

namespace Setting

variable {Key : Type u} (setting : Setting Key)

theorem writeKey_injective : Function.Injective setting.writeKey := by
  intro p q same
  cases p <;> cases q
  · rfl
  · exact absurd (setting.kdf.injective _ _ _ _ _ _ _ _ same).2.2.2 (by decide)
  · exact absurd (setting.kdf.injective _ _ _ _ _ _ _ _ same).2.2.2 (by decide)
  · rfl

theorem frameNonce_injective (m n : Nat) (hm : m < 2 ^ 64) (hn : n < 2 ^ 64)
    (same : frameNonce m = frameNonce n) : m = n := by
  have words := congrArg ofBigEndian (List.append_cancel_left same)
  rwa [ofBigEndian_bigEndian hm, ofBigEndian_bigEndian hn] at words

def numbering : Numbering := ⟨frameNonce, 2 ^ 64, frameNonce_injective⟩

/-- The authenticated data and the plaintext that are sealed for each plaintext. -/
def parts (ds : List Bytes) : List (Bytes × Bytes) :=
  ds.mapIdx fun n data => (setting.frameAad (frameHeader n data.length), data)

def stream (p : Party) (ds : List Bytes) : Bytes := (ds.mapIdx (setting.frame p)).flatten

@[simp] theorem stream_nil (p : Party) : setting.stream p [] = [] := rfl

theorem stream_concat (p : Party) (ds : List Bytes) (data : Bytes) :
    setting.stream p (ds ++ [data]) = setting.stream p ds ++ setting.frame p ds.length data := by
  simp [stream, List.mapIdx_concat]

theorem parts_concat (ds : List Bytes) (data : Bytes) :
    setting.parts (ds ++ [data]) = setting.parts ds ++
    [(setting.frameAad (frameHeader ds.length data.length), data)] := by
  simp [parts, List.mapIdx_concat]

theorem parts_getElem? (h : (setting.parts ds)[n]? = some (setting.frameAad header, data)) :
    ds[n]? = some data ∧ header = frameHeader n data.length := by
  rw [parts, List.getElem?_mapIdx] at h
  obtain ⟨data', found, same⟩ := Option.map_eq_some_iff.mp h
  obtain ⟨aad, rfl⟩ := Prod.mk.inj same
  exact ⟨found, (List.append_cancel_left aad).symm⟩

end Setting

section Follows

variable {Key : Type u} {setting : Setting Key} {p : Party} {c : Channel}
  {sent : Party → List Bytes} {emitted : List Bytes} {arrived : Bytes} {log : List (Sealed Key)}

def Reading.pending : Reading → Bytes
  | .body read => read
  | _ => []

/-- An end has emitted what was sent. Beyond that it has read at most the next header, unless it has
stopped. -/
structure Channel.Follows (setting : Setting Key) (p : Party) (sent : Party → List Bytes)
    (emitted : List Bytes) (arrived : Bytes) (c : Channel) : Prop where
  sequence : c.readSequence = emitted.length
  first : emitted <+: sent p.other
  unaltered : setting.stream p.other emitted <+: arrived
  pending : c.reading ≠ .stopped → arrived = setting.stream p.other emitted ++ c.reading.pending ++
    c.buffer
  header : ∀ header, c.reading = .body header → header.length = 12 ∧
    ofBigEndian (header.take 8) = c.readSequence
  stopped : c.reading = .stopped → c.closed = true

namespace Channel.Follows

theorem fail (h : c.Follows setting p sent emitted arrived) (buffer : Bytes) :
    (Channel.fail { c with buffer := buffer }).Follows setting p sent emitted arrived where
  sequence := h.sequence
  first := h.first
  unaltered := h.unaltered
  pending running := absurd rfl running
  header _ reading := by cases reading
  stopped _ := rfl

variable [DecidableEq Key]
  (numbered : Numbered setting.writeKey Setting.numbering log fun q => setting.parts (sent q))
include numbered

theorem accept (h : c.Follows setting p sent emitted arrived) (reading : c.reading = .body header)
    (opened : setting.cipher.decrypt log (setting.readKey p)
      (Setting.frameNonce (ofBigEndian (header.take 8))) (setting.frameAad header) body =
        some plaintext) :
    (sent p.other)[emitted.length]? = some plaintext ∧
    header ++ body = setting.frame p.other emitted.length plaintext := by
  obtain ⟨length, sequence⟩ := h.header header reading
  have small : ofBigEndian (header.take 8) < 2 ^ 64 := by
    have lt := ofBigEndian_lt (header.take 8)
    rw [List.length_take, length] at lt
    exact lt
  obtain ⟨there, sealed⟩ := numbered.decrypt setting.writeKey_injective small opened
  obtain ⟨found, same⟩ := setting.parts_getElem? there
  rw [sequence, h.sequence] at found same sealed
  refine ⟨found, ?_⟩
  rw [Setting.frame, ← same, ← sealed]
  rfl

theorem emit (h : c.Follows setting p sent emitted arrived) (reading : c.reading = .body header)
    (opened : setting.cipher.decrypt log (setting.readKey p)
      (Setting.frameNonce (ofBigEndian (header.take 8))) (setting.frameAad header)
      (c.buffer.take size) = some plaintext)
    (goes : next = .header ∨ next = .stopped ∧ c.closed = true) :
    Channel.Follows setting p sent (emitted ++ [plaintext]) arrived { c with
      buffer := c.buffer.drop size
      readSequence := c.readSequence + 1
      reading := next } := by
  obtain ⟨found, frame⟩ := h.accept numbered reading opened
  obtain ⟨rest, same⟩ := h.first
  have whole := h.pending (by rw [reading]; intro same; cases same)
  have grown : arrived = setting.stream p.other (emitted ++ [plaintext]) ++ c.buffer.drop size := by
    rw [setting.stream_concat, ← frame, whole, reading]
    simp [Reading.pending]
  refine ⟨by simp [h.sequence], ?_, ⟨_, grown.symm⟩, fun running => ?_, fun read same => ?_,
    fun stopped => ?_⟩
  · rw [← same, List.getElem?_append_right (le_refl _), Nat.sub_self] at found
    cases rest with
    | nil => cases found
    | cons data rest =>
      obtain rfl := Option.some.inj found
      exact ⟨rest, by simp [← same]⟩
  · obtain rfl := goes.resolve_right fun stops => running stops.1
    simpa [Reading.pending] using grown
  · rcases goes with rfl | ⟨rfl, -⟩ <;> cases same
  · rcases goes with rfl | ⟨rfl, closed⟩
    · cases stopped
    · exact closed

theorem receive (h : c.Follows setting p sent emitted arrived) :
    (c.receive setting p log).1.Follows setting p sent
    (emitted ++ (c.receive setting p log).2.toList) arrived := by
  unfold Channel.receive
  split
  · simpa using h
  · rename_i reading
    have whole := h.pending (by rw [reading]; intro same; cases same)
    rw [reading] at whole
    simp only
    split_ifs with short ended wrong size
    · simpa using h.fail c.buffer
    · simpa using h
    · simpa using h.fail (c.buffer.drop 12)
    · simpa using h.fail (c.buffer.drop 12)
    · simp only [Option.toList_none, List.append_nil]
      refine ⟨h.sequence, h.first, h.unaltered, fun _ => ?_, fun read same => ?_,
        fun stopped => by cases stopped⟩
      · rw [whole]
        simp [Reading.pending]
      · cases same
        exact ⟨by rw [List.length_take]; omega, not_not.mp wrong⟩
  · rename_i header reading
    simp only
    split
    · split
      · simpa using h.fail c.buffer
      · simpa using h
    split
    · simpa using h.fail (c.buffer.drop _)
    rename_i plaintext opened
    refine h.emit numbered reading opened ?_
    by_cases closed : c.closed = true <;> simp [closed]

omit numbered [DecidableEq Key] in
theorem congr (h : c.Follows setting p sent emitted arrived) {sent' : Party → List Bytes}
    {c' : Channel} (more : sent p.other <+: sent' p.other)
    (sequence : c'.readSequence = c.readSequence) (reading : c'.reading = c.reading)
    (buffer : c'.buffer = c.buffer) (closed : c.closed = true → c'.closed = true) :
    c'.Follows setting p sent' emitted arrived where
  sequence := sequence.trans h.sequence
  first := h.first.trans more
  unaltered := h.unaltered
  pending running := by rw [reading, buffer]; exact h.pending (reading ▸ running)
  header read same := by rw [sequence]; exact h.header read (reading ▸ same)
  stopped same := closed (h.stopped (reading ▸ same))

omit numbered [DecidableEq Key] in
theorem arrive (h : c.Follows setting p sent emitted arrived) (bytes : Bytes) :
    Channel.Follows setting p sent emitted (arrived ++ bytes) { c with
      buffer := c.buffer ++ bytes } where
  sequence := h.sequence
  first := h.first
  unaltered := h.unaltered.trans (List.prefix_append _ _)
  pending running := by rw [h.pending running, List.append_assoc]
  header := h.header
  stopped := h.stopped

end Channel.Follows

end Follows

section Sound

variable {Key : Type u} {n : Link Key}

structure Link.Sound (setting : Setting Key) (n : Link Key) : Prop where
  numbered : Numbered setting.writeKey Setting.numbering n.log fun p => setting.parts (n.sent p)
  writes : ∀ p, (n.ends p).writeSequence = (n.sent p).length
  follows : ∀ p, (n.ends p).Follows setting p n.sent (n.emitted p) (n.arrived p)

theorem Link.sound_new : Link.Sound setting (.new Key) where
  numbered := numbered_nil
  writes _ := rfl
  follows _ := ⟨rfl, List.nil_prefix, List.nil_prefix, fun _ => rfl, fun _ same => (by cases same),
    fun same => by cases same⟩

@[simp] theorem Channel.receive_writeSequence [DecidableEq Key] (c : Channel)
    (log : List (Sealed Key)) : (c.receive setting p log).1.writeSequence = c.writeSequence := by
  unfold Channel.receive
  split
  · rfl
  · simp only
    split_ifs <;> rfl
  · simp only
    split
    · split <;> rfl
    · split <;> rfl

namespace Link.Sound

theorem setEnd (h : n.Sound setting) (writes : c.writeSequence = (n.ends p).writeSequence)
    (sequence : c.readSequence = (n.ends p).readSequence) (reading : c.reading = (n.ends p).reading)
    (buffer : c.buffer = (n.ends p).buffer) (closed : (n.ends p).closed = true → c.closed = true) :
    (n.setEnd p c).Sound setting where
  numbered := h.numbered
  writes q := by
    rcases Party.eq_or_other p q with rfl | rfl
    · simpa [Link.setEnd, writes] using h.writes q
    · simpa [Link.setEnd] using h.writes p.other
  follows q := by
    rcases Party.eq_or_other p q with rfl | rfl
    · simpa [Link.setEnd] using (h.follows q).congr (List.prefix_refl _) sequence reading buffer
        closed
    · simpa [Link.setEnd] using h.follows p.other

theorem arrives (h : n.Sound setting) (bytes : Bytes) : (n.arrives p bytes).Sound setting := by
  unfold Link.arrives
  simp only
  split_ifs
  · exact h
  refine ⟨h.numbered, fun q => ?_, fun q => ?_⟩
  · rcases Party.eq_or_other p q with rfl | rfl
    · simpa using h.writes q
    · simpa using h.writes p.other
  rcases Party.eq_or_other p q with rfl | rfl
  · simpa using (h.follows q).arrive bytes
  · simpa using h.follows p.other

theorem send (h : n.Sound setting) (data : Bytes) : (n.send setting p data).1.Sound setting := by
  unfold Link.send
  simp only
  split_ifs with shut size room
  · exact h
  · exact h
  · exact h
  · have count := h.writes p
    have more : ∀ q, n.sent q <+: Function.update n.sent p (n.sent p ++ [data]) q := by
      intro q
      rcases Party.eq_or_other p q with rfl | rfl
      · simp
      · simp
    have number : (setting.parts (n.sent p)).length = (n.ends p).writeSequence := by
      simp [Setting.parts, count]
    refine ⟨?_, fun q => ?_, fun q => ?_⟩
    · have sealed := h.numbered.encrypt setting.writeKey_injective p
        (setting.frameAad (Setting.frameHeader (n.ends p).writeSequence data.length), data)
        (by rw [number]; exact not_le.mp room)
      have parts : Function.update (fun p => setting.parts (n.sent p)) p
          (setting.parts (n.sent p) ++
            [(setting.frameAad (Setting.frameHeader (n.ends p).writeSequence data.length), data)]) =
          fun q => setting.parts (Function.update n.sent p (n.sent p ++ [data]) q) := by
        funext q
        rcases Party.eq_or_other p q with rfl | rfl
        · simp [setting.parts_concat, count]
        · simp
      rw [parts, number] at sealed
      exact sealed
    · rcases Party.eq_or_other p q with rfl | rfl
      · simp [count]
      · simpa using h.writes p.other
    · rcases Party.eq_or_other p q with rfl | rfl
      · simp only [Function.update_self]
        exact (h.follows q).congr (more q.other) rfl rfl rfl id
      · simpa using (h.follows p.other).congr (more p.other.other) rfl rfl rfl id

variable [DecidableEq Key]

theorem reads (h : n.Sound setting) (p : Party) : (n.reads setting p).Sound setting := by
  refine ⟨h.numbered, fun q => ?_, fun q => ?_⟩
  · rcases Party.eq_or_other p q with rfl | rfl
    · simpa [Link.reads] using h.writes q
    · simpa [Link.reads] using h.writes p.other
  rcases Party.eq_or_other p q with rfl | rfl
  · simpa [Link.reads] using (h.follows q).receive h.numbered
  · simpa [Link.reads] using h.follows p.other

theorem step (h : n.Sound setting) (event : ChannelEvent) :
    (linkStep setting n event).1.Sound setting := by
  cases event with
  | send p data => exact h.send data
  | arrives p bytes => exact h.arrives bytes
  | reads p => exact h.reads p
  | ends p | gone p => exact h.setEnd rfl rfl rfl rfl id
  | close p => exact h.setEnd rfl rfl rfl rfl fun _ => rfl
  | destroy p =>
    simp only [linkStep, Link.destroy]
    split
    · exact h
    · exact h.setEnd rfl rfl rfl rfl fun _ => rfl

end Link.Sound

end Sound

section FailsClosed

variable {Key : Type u} [DecidableEq Key] {setting : Setting Key} {n : Link Key} {p : Party}
  {c : Channel}

/-- What an end is about to read is whole, or ends there, and is not the frame that was sent
next. -/
structure Link.Deviates (setting : Setting Key) (n : Link Key) (p : Party) : Prop where
  reading : (n.ends p).reading = .header
  there : 12 + ofBigEndian (((n.ends p).buffer.take 12).drop 8) + 16 ≤ (n.ends p).buffer.length ∨
    (n.ends p).ended = true
  other : ∀ data, (n.sent p.other)[(n.emitted p).length]? = some data →
    ¬setting.frame p.other (n.emitted p).length data <+: (n.ends p).buffer

def Link.Stopped (n : Link Key) (p : Party) : Prop :=
  (n.ends p).reading = .stopped ∧ (n.ends p).closed = true

theorem Channel.receive_of_stopped (stopped : c.reading = .stopped) (setting : Setting Key)
    (p : Party) (log : List (Sealed Key)) : c.receive setting p log = (c, none) := by
  unfold Channel.receive
  rw [stopped]

theorem Channel.Follows.deviating_body {sent : Party → List Bytes}
    (h : c.Follows setting p sent emitted arrived)
    (numbered : Numbered setting.writeKey Setting.numbering log fun q => setting.parts (sent q))
    (reading : c.reading = .body header)
    (there : ofBigEndian (header.drop 8) + 16 ≤ c.buffer.length ∨ c.ended = true)
    (other : ∀ data, (sent p.other)[emitted.length]? = some data →
      ¬setting.frame p.other emitted.length data <+: header ++ c.buffer) :
    (c.receive setting p log).2 = none ∧ (c.receive setting p log).1.reading = .stopped ∧
      (c.receive setting p log).1.closed = true := by
  unfold Channel.receive
  rw [reading]
  simp only
  split
  · rename_i short
    rw [if_pos (there.resolve_left (by omega))]
    exact ⟨rfl, rfl, rfl⟩
  split
  · exact ⟨rfl, rfl, rfl⟩
  rename_i plaintext opened
  obtain ⟨found, frame⟩ := h.accept numbered reading opened
  refine absurd ?_ (other plaintext found)
  rw [← frame]
  exact ⟨c.buffer.drop (ofBigEndian (header.drop 8) + 16), by simp⟩

theorem Link.Deviates.first (h : n.Deviates setting p) (log : List (Sealed Key)) :
    ((n.ends p).receive setting p log).2 = none ∧
      (((n.ends p).receive setting p log).1.reading = .stopped ∨
        12 ≤ (n.ends p).buffer.length ∧ ((n.ends p).receive setting p log).1 = { n.ends p with
          buffer := (n.ends p).buffer.drop 12
          reading := .body ((n.ends p).buffer.take 12) }) := by
  unfold Channel.receive
  rw [h.reading]
  simp only
  split_ifs with short ended wrong size
  · exact ⟨rfl, .inl rfl⟩
  · exact absurd (h.there.resolve_left (by omega)) ended
  · exact ⟨rfl, .inl rfl⟩
  · exact ⟨rfl, .inl rfl⟩
  · exact ⟨rfl, .inr ⟨not_lt.mp short, rfl⟩⟩

@[simp] theorem Link.reads_ends :
    (n.reads setting p).ends p = ((n.ends p).receive setting p n.log).1 := by
  simp [Link.reads]

@[simp] theorem Link.reads_emitted :
    (n.reads setting p).emitted p = n.emitted p ++
    ((n.ends p).receive setting p n.log).2.toList := by
  simp [Link.reads]

@[simp] theorem Link.reads_log : (n.reads setting p).log = n.log := rfl

theorem Link.Sound.deviating (h : n.Sound setting) (deviates : n.Deviates setting p) :
    ((n.reads setting p).reads setting p).Stopped p ∧
    ((n.reads setting p).reads setting p).emitted p = n.emitted p := by
  have follows := (h.follows p).receive h.numbered
  obtain ⟨silent, stopped | ⟨long, read⟩⟩ := deviates.first n.log
  · have again := Channel.receive_of_stopped stopped setting p n.log
    have closed := follows.stopped stopped
    simp [Link.Stopped, again, silent, stopped, closed]
  rw [silent, Option.toList_none, List.append_nil] at follows
  have size : ((n.ends p).buffer.drop 12).length = (n.ends p).buffer.length - 12 := List.length_drop
  have whole := List.take_append_drop 12 (n.ends p).buffer
  obtain ⟨quiet, stopped, closed⟩ := follows.deviating_body h.numbered (by rw [read])
    (by
      rw [read]
      refine deviates.there.imp_left fun there => ?_
      simp only
      omega)
    (by
      rw [read]
      simp only
      rw [whole]
      exact deviates.other)
  simp [Link.Stopped, silent, quiet, stopped, closed]

omit [DecidableEq Key] in
theorem Link.Stopped.setEnd (h : n.Stopped p) (reading : c.reading = (n.ends q).reading)
    (closed : (n.ends q).closed = true → c.closed = true) : (n.setEnd q c).Stopped p := by
  rcases Party.eq_or_other q p with rfl | rfl
  · simpa [Link.Stopped, Link.setEnd, reading] using ⟨h.1, closed h.2⟩
  · simpa [Link.Stopped, Link.setEnd] using h

theorem Link.Stopped.step (h : n.Stopped p) (event : ChannelEvent) :
    (linkStep setting n event).1.Stopped p ∧
    (linkStep setting n event).1.emitted p = n.emitted p := by
  cases event with
  | send q data =>
    simp only [linkStep, Link.send]
    split_ifs
    · exact ⟨h, rfl⟩
    · exact ⟨h, rfl⟩
    · exact ⟨h, rfl⟩
    · exact ⟨h.setEnd rfl id, rfl⟩
  | arrives q bytes =>
    simp only [linkStep, Link.arrives]
    split_ifs
    · exact ⟨h, rfl⟩
    · exact ⟨h.setEnd rfl id, rfl⟩
  | reads q =>
    rcases Party.eq_or_other q p with rfl | rfl
    · have again := Channel.receive_of_stopped h.1 setting p n.log
      simpa [linkStep, Link.Stopped, again] using h
    · simpa [linkStep, Link.Stopped, Link.reads] using h
  | ends q | gone q => exact ⟨h.setEnd rfl id, rfl⟩
  | close q => exact ⟨h.setEnd rfl fun _ => rfl, rfl⟩
  | destroy q =>
    simp only [linkStep, Link.destroy]
    split
    · exact ⟨h, rfl⟩
    · exact ⟨h.setEnd rfl fun _ => rfl, rfl⟩

/-- No nonce is used twice under a key; either end emits what the other has sent, in order; a frame
that deviates closes the channel, and a closed end emits nothing more. -/
structure Link.Secure (setting : Setting Key) (n : Link Key) : Prop where
  nonces : (n.log.map fun m => (m.key, m.nonce)).Nodup
  emitted : ∀ p, n.emitted p <+: n.sent p.other
  unaltered : ∀ p, setting.stream p.other (n.emitted p) <+: n.arrived p
  deviates : ∀ p, n.Deviates setting p → ((n.reads setting p).reads setting p).Stopped p ∧
    ((n.reads setting p).reads setting p).emitted p = n.emitted p
  stopped : ∀ p, (n.ends p).reading = .stopped → (n.ends p).closed = true ∧ ∀ event,
    (linkStep setting n event).1.Stopped p ∧ (linkStep setting n event).1.emitted p = n.emitted p

theorem direct_channel_is_secure (setting : Setting Key) (events : List ChannelEvent) :
    (final (linkStep setting) (.new Key) events).Secure setting := by
  have sound : (final (linkStep setting) (.new Key) events).Sound setting :=
    final_invariant (fun _ event h => h.step event) Link.sound_new events
  refine ⟨sound.numbered.unique, fun p => (sound.follows p).first,
    fun p => (sound.follows p).unaltered, fun p => sound.deviating, fun p stopped => ?_⟩
  have closed := (sound.follows p).stopped stopped
  exact ⟨closed, fun event => Link.Stopped.step ⟨stopped, closed⟩ event⟩

def plainSetting : Setting (String × Bytes × String × Nat) where
  cipher := ⟨fun _ _ _ plaintext => plaintext ++ List.replicate 16 0, 16, fun _ _ _ _ => by simp⟩
  tag := rfl
  kdf := ⟨fun secret salt info block => (secret, salt, info, block),
    fun _ _ _ _ _ _ _ _ same => by simpa using same⟩
  grant := theGrant
  clientNonce := [1]
  serverNonce := [2]
  maximumFrameBytes _ := 1024
  bounds _ := by decide

-- The second frame is repeated in place of the third, which closes the channel.
example :
    let frame := plainSetting.frame .client
    let n := final (linkStep plainSetting) (.new _)
      [.send .client [7], .send .client [8], .send .client [9], .arrives .server (frame 0 [7]),
        .reads .server, .reads .server, .arrives .server (frame 1 [8] ++ frame 1 [8]),
        .reads .server, .reads .server, .reads .server]
    n.emitted .server = [[7], [8]] ∧ (n.ends .server).closed = true := by
  decide +kernel

end FailsClosed

end Mycellios.Direct
