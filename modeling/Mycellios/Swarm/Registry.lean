import Mathlib.Algebra.Order.Floor.Ring
import Mathlib.Data.List.Sort
import Mathlib.Data.Rat.Floor
import Mycellios.Data.Dict
import Mycellios.Data.JavaScript
import Mycellios.Logic.Machine
import Mycellios.Logic.Wp

/-! `ArtifactSwarmRegistry` of `artifact-swarm.ts`. Manifests are taken as they were verified, and
the texts of an announcement as they were normalised. -/

namespace Mycellios.Swarm

open Data List Logic

structure ArtifactChunkDescriptor where
  (index offset sizeBytes : Nat)
  sha256 : String

structure ArtifactBlobDescriptor where
  sha256 : String
  sizeBytes : Nat
  chunks : List ArtifactChunkDescriptor

structure ArtifactPackageDescriptor where
  packageId : String
  manifest : ArtifactBlobDescriptor
  blobs : List ArtifactBlobDescriptor

structure ArtifactPeerAnnouncement where
  peerId : String
  chunkIds : List String
  expiresAt : Int
  rttMs : ℚ
  goodputMbps : ℚ
  activeTransfers : Nat
  reliability : ℚ

structure StoredPeer where
  announcement : ArtifactPeerAnnouncement
  chunkIds : List String
  corruptionStrikes : Nat
  quarantinedAt : Option Int

structure Source where
  peerId : String
  score : ℚ
  expiresAt : Int

structure ArtifactChunkRequest where
  packageId : String
  blobSha256 : String
  chunk : ArtifactChunkDescriptor
  chunkId : String
  sources : List Source

structure DownloadInput where
  manifestId : String
  requesterPeerId : String
  packageIds : List String
  requesterChunkIds : List String
  maximumSourcesPerChunk : Option Nat
  now : Int

inductive SwarmError
  | expiryIsInvalid | announcementIsExpired | rttIsInvalid | goodputIsInvalid
  | transferCountIsInvalid | reliabilityIsInvalid | manifestNotFound | packageIdIsInvalid
  | packageNotFound | sourceLimitIsInvalid

structure Registry where
  manifests : Dict String (List ArtifactPackageDescriptor)
  peers : Dict String StoredPeer

def Registry.new (manifests : Dict String (List ArtifactPackageDescriptor)) : Registry :=
  ⟨manifests, .empty⟩

def quarantineStrikes : Nat := 2

section Plans

def artifactChunkId (blobSha256 : String) (chunkIndex : Nat) : String :=
  blobSha256 ++ ":" ++ toString chunkIndex

def roundScore (value : ℚ) : ℚ := ⌊value * 1000 + 1 / 2⌋ / 1000

def peerScore (peer : StoredPeer) (sizeBytes : Nat) : ℚ :=
  let transferMs := (sizeBytes * 8 : ℚ) / (peer.announcement.goodputMbps * 1000)
  let loadPenalty := (peer.announcement.activeTransfers * 25 : ℚ)
  let reliabilityPenalty := (1 - peer.announcement.reliability) * 5000
  roundScore (peer.announcement.rttMs + transferMs + loadPenalty + reliabilityPenalty)

def packageChunks (entry : ArtifactPackageDescriptor) : List ArtifactChunkRequest :=
  (entry.manifest :: entry.blobs).flatMap fun blob =>
    blob.chunks.map fun chunk => ⟨entry.packageId, blob.sha256, chunk,
      artifactChunkId blob.sha256 chunk.index, []⟩

/-- `uniqueDigests`, of digests in their normal form. -/
def uniqueDigests (values : List String) : Except SwarmError (List String) :=
  if values.length < 1 ∨ 256 < values.length ∨ ¬values.Nodup then .error .packageIdIsInvalid
    else .ok values

-- `localeCompare`, of which only the order matters.
variable (locale : String → String → Bool)

def bySource (a b : Source) : Prop :=
  a.score < b.score ∨ a.score = b.score ∧ locale a.peerId b.peerId

instance : DecidableRel (bySource locale) := fun _ _ => inferInstanceAs (Decidable (_ ∨ _))

/-- By the priority of the package, then the rarity of the chunk. -/
def byRequest (a b : Nat × ArtifactChunkRequest) : Prop :=
  a.1 < b.1 ∨ a.1 = b.1 ∧ (a.2.sources.length < b.2.sources.length ∨
    a.2.sources.length = b.2.sources.length ∧
    (a.2.chunk.offset < b.2.chunk.offset ∨ a.2.chunk.offset = b.2.chunk.offset ∧
      locale a.2.chunkId b.2.chunkId))

instance : DecidableRel (byRequest locale) := fun _ _ => inferInstanceAs (Decidable (_ ∨ _))

def sources (available : List StoredPeer) (maximumSources : Nat) (request : ArtifactChunkRequest) :
    List Source :=
  (((available.filter fun peer => request.chunkId ∈ peer.chunkIds).map fun peer =>
    Source.mk peer.announcement.peerId (peerScore peer request.chunk.sizeBytes)
      peer.announcement.expiresAt).insertionSort (bySource locale)).take maximumSources

end Plans

def StoredPeer.strike (peer : StoredPeer) (now : Int) : StoredPeer := { peer with
  corruptionStrikes := peer.corruptionStrikes + 1
  announcement :=
    { peer.announcement with reliability := max 0 (peer.announcement.reliability / 2) }
  quarantinedAt := if quarantineStrikes ≤ peer.corruptionStrikes + 1 then some now
    else peer.quarantinedAt }

namespace Registry

variable (r : Registry)

/-- The numbers of an announcement are checked in the order in which it is rebuilt. -/
def validatePeerAnnouncement (value : ArtifactPeerAnnouncement) (now : Int) :
    Except SwarmError ArtifactPeerAnnouncement :=
  if value.expiresAt < 1 ∨ maxSafeInteger < value.expiresAt then .error .expiryIsInvalid
  else if value.expiresAt ≤ now then .error .announcementIsExpired
  else if value.rttMs < 0 ∨ 60000 < value.rttMs then .error .rttIsInvalid
  else if value.goodputMbps < 1 / 1000 ∨ 10000000 < value.goodputMbps then .error .goodputIsInvalid
  else if 100000 < value.activeTransfers then .error .transferCountIsInvalid
  else if value.reliability < 0 ∨ 1 < value.reliability then .error .reliabilityIsInvalid
  else .ok value

/-- The strikes and the quarantine of the record that is replaced are kept. -/
def announce (announcement : ArtifactPeerAnnouncement) : Registry :=
  let previous := r.peers.find? announcement.peerId
  { r with peers := r.peers.insert announcement.peerId ⟨announcement, announcement.chunkIds,
      (previous.map StoredPeer.corruptionStrikes).getD 0, previous.bind StoredPeer.quarantinedAt⟩ }

def expirePeers (now : Int) : Registry := { r with
  peers := r.peers.filter fun _ peer => ¬peer.announcement.expiresAt ≤ now }

def recordVerifiedChunk (peerId : String) : Registry :=
  match r.peers.find? peerId with
  | none => r
  | some peer =>
    if peer.quarantinedAt.isSome then r
    else { r with peers := r.peers.insert peerId { peer with
      announcement :=
        { peer.announcement with
          reliability := min 1 (peer.announcement.reliability + 2 / 1000) } } }

def recordCorruptChunk (peerId : String) (now : Int) : Registry × Bool :=
  match r.peers.find? peerId with
  | none => (r, false)
  | some peer =>
    ({ r with peers := r.peers.insert peerId (peer.strike now) },
      quarantineStrikes ≤ peer.corruptionStrikes + 1)

def availablePeers (requesterPeerId : String) (now : Int) : List StoredPeer :=
  r.peers.values.filter fun peer =>
    peer.announcement.peerId ≠ requesterPeerId ∧ peer.quarantinedAt = none ∧
      now < peer.announcement.expiresAt

def requests (locale : String → String → Bool) (packages : List ArtifactPackageDescriptor)
    (requested : List String) (maximumSources : Nat) (input : DownloadInput) :
    List ArtifactChunkRequest :=
  let selected := (packages.filter fun entry => entry.packageId ∈ requested).insertionSort
    fun a b => requested.idxOf a.packageId ≤ requested.idxOf b.packageId
  let available := r.availablePeers input.requesterPeerId input.now
  let found := selected.flatMap fun entry =>
    ((packageChunks entry).filter fun candidate => candidate.chunkId ∉ input.requesterChunkIds).map
        fun candidate =>
      (requested.idxOf entry.packageId,
        { candidate with sources := sources locale available maximumSources candidate })
  (found.insertionSort (byRequest locale)).map Prod.snd

def planRequests (locale : String → String → Bool) (input : DownloadInput) :
    Except SwarmError (List ArtifactChunkRequest) := do
  let some packages := r.manifests.find? input.manifestId | throw .manifestNotFound
  let requested ← uniqueDigests input.packageIds
  if (packages.filter fun entry => entry.packageId ∈ requested).length ≠ requested.length then
    throw .packageNotFound
  let maximumSources := input.maximumSourcesPerChunk.getD 3
  if maximumSources < 1 ∨ 16 < maximumSources then throw .sourceLimitIsInvalid
  return r.requests locale packages requested maximumSources input

end Registry

inductive Call
  | announcePeer (value : ArtifactPeerAnnouncement) (now : Int)
  | recordVerifiedChunk (peerId : String)
  | recordCorruptChunk (peerId : String) (now : Int)
  | expirePeers (now : Int)
  | planDownload (input : DownloadInput)

inductive Answer
  | done
  | refused (error : SwarmError)
  | quarantined (yes : Bool)
  | removed (count : Nat)
  | plan (requests : List ArtifactChunkRequest)

def step (locale : String → String → Bool) (r : Registry) : Call → Registry × Answer
  | .announcePeer value now =>
    match Registry.validatePeerAnnouncement value now with
    | .error error => (r, .refused error)
    | .ok announcement => (r.announce announcement, .done)
  | .recordVerifiedChunk peerId => (r.recordVerifiedChunk peerId, .done)
  | .recordCorruptChunk peerId now =>
    let (r, yes) := r.recordCorruptChunk peerId now
    (r, .quarantined yes)
  | .expirePeers now =>
    (r.expirePeers now, .removed (r.peers.size - (r.expirePeers now).peers.size))
  | .planDownload input =>
    let r := r.expirePeers input.now
    match r.planRequests locale input with
    | .error error => (r, .refused error)
    | .ok requests => (r, .plan requests)

def Call.expiry : Call → Option Int
  | .expirePeers now => some now
  | .planDownload input => some input.now
  | _ => none

def Registry.strikes (r : Registry) (peerId : String) : Nat :=
  ((r.peers.find? peerId).map StoredPeer.corruptionStrikes).getD 0

section Quarantine

variable {locale : String → String → Bool} {r : Registry} {peerId : String} {peer : StoredPeer}

/-- A record bears its id, and is in quarantine once it has the strikes for it. -/
def StoredPeer.Marked (peerId : String) (peer : StoredPeer) : Prop :=
  peer.announcement.peerId = peerId ∧
    (quarantineStrikes ≤ peer.corruptionStrikes → peer.quarantinedAt.isSome)

def Registry.Marked (r : Registry) : Prop :=
  ∀ peerId peer, r.peers.find? peerId = some peer → peer.Marked peerId

theorem Registry.Marked.insert (h : r.Marked) (marked : peer.Marked peerId) :
    Registry.Marked { r with peers := r.peers.insert peerId peer } :=
  Dict.forall_find?_insert marked h

theorem StoredPeer.Marked.strike (h : peer.Marked peerId) (now : Int) :
    (peer.strike now).Marked peerId := by
  refine ⟨h.1, fun enough => ?_⟩
  simp only [StoredPeer.strike] at enough ⊢
  rw [if_pos enough]
  rfl

theorem Registry.Marked.expirePeers (h : r.Marked) (now : Int) : (r.expirePeers now).Marked :=
  fun id peer found => h id peer (Dict.find?_filter_eq_some.mp found).1

theorem Registry.Marked.announce (h : r.Marked) (announcement : ArtifactPeerAnnouncement) :
    (r.announce announcement).Marked := by
  refine h.insert ⟨rfl, fun enough => ?_⟩
  cases found : r.peers.find? announcement.peerId with
  | none =>
    rw [found] at enough
    cases enough
  | some previous =>
    rw [found] at enough
    exact (h _ _ found).2 enough

theorem Registry.Marked.step (h : r.Marked) (call : Call) : (step locale r call).1.Marked := by
  cases call with
  | announcePeer value now =>
    simp only [Swarm.step]
    split
    · exact h
    · exact h.announce _
  | recordVerifiedChunk peerId =>
    simp only [Swarm.step, Registry.recordVerifiedChunk]
    split
    · exact h
    rename_i peer found
    split
    · exact h
    · exact h.insert ⟨(h _ _ found).1, (h _ _ found).2⟩
  | recordCorruptChunk peerId now =>
    simp only [Swarm.step, Registry.recordCorruptChunk]
    split
    · exact h
    · rename_i peer found
      exact h.insert ((h _ _ found).strike now)
  | expirePeers now => exact h.expirePeers now
  | planDownload input =>
    simp only [Swarm.step]
    split <;> exact h.expirePeers input.now

theorem Registry.strikes_insert (id : String) (peer : StoredPeer) :
    Registry.strikes { r with peers := r.peers.insert id peer } peerId =
      if id = peerId then peer.corruptionStrikes else r.strikes peerId := by
  unfold Registry.strikes
  rw [Dict.find?_insert]
  split <;> rfl

theorem Registry.strikes_of_find? (found : r.peers.find? peerId = some peer) :
    r.strikes peerId = peer.corruptionStrikes := by
  rw [Registry.strikes, found]
  rfl

theorem Registry.strikes_le_insert {id : String} (more : r.strikes id ≤ peer.corruptionStrikes) :
    r.strikes peerId ≤ Registry.strikes { r with peers := r.peers.insert id peer } peerId := by
  rw [Registry.strikes_insert]
  split
  · rename_i here
    rw [← here]
    exact more
  · exact le_refl _

def Registry.Spares (r : Registry) (peerId : String) (now : Int) : Prop :=
  ∀ peer ∈ r.peers.find? peerId, now < peer.announcement.expiresAt

instance (r : Registry) (peerId : String) (now : Int) : Decidable (r.Spares peerId now) :=
  inferInstanceAs (Decidable (∀ _ ∈ _, _ < _))

theorem Registry.strikes_expirePeers (spared : r.Spares peerId now) :
    (r.expirePeers now).strikes peerId = r.strikes peerId := by
  cases found : r.peers.find? peerId with
  | none =>
    have gone : (r.expirePeers now).peers.find? peerId = none := by
      by_contra some
      obtain ⟨peer, found'⟩ := Option.ne_none_iff_exists'.mp some
      rw [(Dict.find?_filter_eq_some.mp found').1] at found
      cases found
    rw [Registry.strikes, Registry.strikes, found, gone]
  | some peer =>
    have kept : (r.expirePeers now).peers.find? peerId = some peer :=
      Dict.find?_filter_eq_some.mpr ⟨found, by simpa using spared peer found⟩
    rw [Registry.strikes_of_find? found, Registry.strikes_of_find? kept]

theorem strikes_le_step (call : Call) (spared : ∀ now ∈ call.expiry, r.Spares peerId now) :
    r.strikes peerId ≤ (step locale r call).1.strikes peerId := by
  cases call with
  | announcePeer value now =>
    simp only [step]
    split
    · exact le_refl _
    · exact Registry.strikes_le_insert (le_refl _)
  | recordVerifiedChunk id =>
    simp only [step, Registry.recordVerifiedChunk]
    split
    · exact le_refl _
    rename_i peer found
    split
    · exact le_refl _
    · exact Registry.strikes_le_insert (Registry.strikes_of_find? found).le
  | recordCorruptChunk id now =>
    simp only [step, Registry.recordCorruptChunk]
    split
    · exact le_refl _
    rename_i peer found
    refine Registry.strikes_le_insert ?_
    rw [Registry.strikes_of_find? found]
    exact Nat.le_succ _
  | expirePeers now => exact (Registry.strikes_expirePeers (spared now rfl)).ge
  | planDownload input =>
    have kept := Registry.strikes_expirePeers (spared input.now rfl)
    simp only [step]
    split <;> exact kept.ge

theorem mem_sources (mem : source ∈ sources locale available limit request) :
    ∃ peer ∈ available, source.peerId = peer.announcement.peerId := by
  have mem := mem_of_mem_take mem
  rw [mem_insertionSort, mem_map] at mem
  obtain ⟨peer, listed, rfl⟩ := mem
  exact ⟨peer, (mem_filter.mp listed).1, rfl⟩

theorem Registry.Marked.not_available (h : r.Marked)
    (mem : peer ∈ r.availablePeers requester now) :
    r.strikes peer.announcement.peerId < quarantineStrikes := by
  obtain ⟨stored, free⟩ := mem_filter.mp mem
  obtain ⟨id, found⟩ := Dict.exists_find?_of_mem_values stored
  have marked := h id peer found
  simp only [ne_eq, decide_eq_true_eq] at free
  rw [marked.1, Registry.strikes_of_find? found]
  by_contra enough
  have some := marked.2 (by omega)
  rw [free.2.1] at some
  cases some

theorem Registry.Marked.planRequests (h : r.Marked) {requests : List ArtifactChunkRequest}
    (planned : r.planRequests locale input = .ok requests) :
    ∀ request ∈ requests, ∀ source ∈ request.sources, r.strikes source.peerId <
    quarantineStrikes := by
  have shape : ∃ packages requested limit, requests = r.requests locale packages requested limit
      input := by
    unfold Registry.planRequests at planned
    split at planned
    · simp only [bind_eq_ok, throw_bind, raise_eq_ok] at planned
      obtain ⟨requested, -, -, -, done⟩ := planned
      exact ⟨_, requested, _, (Except.ok.inj done).symm⟩
    · cases planned
  obtain ⟨packages, requested, limit, rfl⟩ := shape
  intro request mem source listed
  simp only [Registry.requests, mem_map, mem_insertionSort, mem_flatMap] at mem
  obtain ⟨_, ⟨entry, _, candidate, _, rfl⟩, rfl⟩ := mem
  obtain ⟨peer, available, same⟩ := mem_sources listed
  rw [same]
  exact h.not_available available

/-- If a peer is spared, its strikes never decrease, and once they are enough no plan names it. -/
theorem quarantine_is_permanent (locale : String → String → Bool)
    (manifests : Dict String (List ArtifactPackageDescriptor)) (calls : List Call) (peerId : String)
    (spared : ∀ t ∈ trace (step locale) (.new manifests) calls, ∀ now ∈ t.input.expiry,
      t.pre.Spares peerId now) :
    ∀ t ∈ trace (step locale) (.new manifests) calls,
      t.pre.strikes peerId ≤ t.post.strikes peerId ∧
      (quarantineStrikes ≤ t.pre.strikes peerId → ∀ requests, t.output = .plan requests →
        ∀ request ∈ requests, ∀ source ∈ request.sources, source.peerId ≠ peerId) := by
  intro t mem
  have fresh : (Registry.new manifests).Marked := fun id peer found => by cases found
  have kept : ∀ r call, (∀ now ∈ call.expiry, r.Spares peerId now) → r.Marked →
      (step locale r call).1.Marked := fun r call _ h => h.step call
  obtain ⟨marked, output, post⟩ := mem_trace_of kept fresh spared mem
  refine ⟨post ▸ strikes_le_step t.input (spared t mem),
    fun enough requests planned request asked source listed same => ?_⟩
  rw [output] at planned
  cases input : t.input with
  | planDownload download =>
    rw [input] at planned
    simp only [step] at planned
    split at planned
    · cases planned
    rename_i found
    cases planned
    have few := (marked.expirePeers download.now).planRequests found request asked source listed
    rw [same, Registry.strikes_expirePeers (spared t mem download.now (by rw [input]; rfl))] at few
    omega
  | announcePeer value now =>
    rw [input] at planned
    simp only [step] at planned
    split at planned <;> cases planned
  | recordVerifiedChunk id | recordCorruptChunk id now | expirePeers now =>
    rw [input] at planned
    cases planned

end Quarantine

section Plans

variable {r : Registry} {locale : String → String → Bool} {input : DownloadInput}
  {request : ArtifactChunkRequest} {requests : List ArtifactChunkRequest}
  {packages : List ArtifactPackageDescriptor} {requested : List String} {limit : Nat}
  {requester : String} {now : Int} {source : Source}

theorem planRequests_ok (planned : r.planRequests locale input = .ok requests) :
    ∃ packages, r.manifests.find? input.manifestId = some packages ∧
      requests = r.requests locale packages input.packageIds (input.maximumSourcesPerChunk.getD 3)
      input := by
  unfold Registry.planRequests at planned
  split at planned
  · rename_i packages found
    simp only [bind_eq_ok, throw_bind, raise_eq_ok, uniqueDigests] at planned
    obtain ⟨requested, unique, -, -, done⟩ := planned
    split at unique
    · cases unique
    obtain rfl := Except.ok.inj unique
    exact ⟨packages, found, (Except.ok.inj done).symm⟩
  · cases planned

theorem mem_requests : request ∈ r.requests locale packages requested limit input ↔
    ∃ entry ∈ packages, entry.packageId ∈ requested ∧ ∃ candidate ∈ packageChunks entry,
      candidate.chunkId ∉ input.requesterChunkIds ∧ request = { candidate with
        sources :=
          sources locale (r.availablePeers input.requesterPeerId input.now) limit candidate } := by
  simp only [Registry.requests, mem_map, mem_insertionSort, mem_flatMap, mem_filter]
  constructor
  · rintro ⟨_, ⟨entry, ⟨listed, asked⟩, candidate, ⟨chunk, missing⟩, rfl⟩, rfl⟩
    exact ⟨entry, listed, of_decide_eq_true asked, candidate, chunk, of_decide_eq_true missing, rfl⟩
  · rintro ⟨entry, listed, asked, candidate, chunk, missing, rfl⟩
    exact ⟨_, ⟨entry, ⟨listed, decide_eq_true asked⟩, candidate, ⟨chunk, decide_eq_true missing⟩,
      rfl⟩, rfl⟩

theorem Registry.Marked.mem_sources (h : r.Marked)
    (listed : source ∈ sources locale (r.availablePeers requester now) limit request) :
    ∃ peer, r.peers.find? source.peerId = some peer ∧ request.chunkId ∈ peer.chunkIds ∧
    source.peerId ≠ requester ∧
      now < peer.announcement.expiresAt ∧ peer.corruptionStrikes < quarantineStrikes := by
  have listed := mem_of_mem_take listed
  rw [mem_insertionSort, mem_map] at listed
  obtain ⟨peer, holds, rfl⟩ := listed
  obtain ⟨available, chunk⟩ := mem_filter.mp holds
  have few := h.not_available available
  obtain ⟨stored, free⟩ := mem_filter.mp available
  obtain ⟨id, found⟩ := Dict.exists_find?_of_mem_values stored
  obtain ⟨other, -, unexpired⟩ := of_decide_eq_true free
  obtain rfl := (h id peer found).1
  rw [Registry.strikes_of_find? found] at few
  exact ⟨peer, found, of_decide_eq_true chunk, other, unexpired, few⟩

/-- A download is planned for the chunks that the requester lacks, and for those only; each comes
from a few unexpired, trusted peers that hold it. -/
theorem plans_cover_missing_chunks (locale : String → String → Bool)
    (manifests : Dict String (List ArtifactPackageDescriptor)) (calls : List Call) :
    ∀ t ∈ trace (step locale) (.new manifests) calls, ∀ input requests, t.input =
    .planDownload input →
      t.output = .plan requests → ∃ packages, t.pre.manifests.find? input.manifestId =
      some packages ∧
        (∀ chunkId, (∃ request ∈ requests, request.chunkId = chunkId) ↔
          chunkId ∉ input.requesterChunkIds ∧
          ∃ entry ∈ packages, entry.packageId ∈ input.packageIds ∧
          ∃ c ∈ packageChunks entry, c.chunkId = chunkId) ∧
        ∀ request ∈ requests, request.sources.length ≤ input.maximumSourcesPerChunk.getD 3 ∧
          ∀ source ∈ request.sources, ∃ peer, t.post.peers.find? source.peerId = some peer ∧
            request.chunkId ∈ peer.chunkIds ∧ source.peerId ≠ input.requesterPeerId ∧
            input.now < peer.announcement.expiresAt ∧
            peer.corruptionStrikes < quarantineStrikes := by
  intro t mem input requests planning planned
  have fresh : (Registry.new manifests).Marked := fun id peer found => by cases found
  obtain ⟨js, -, -, pre, output, post⟩ := mem_trace mem
  have marked : t.pre.Marked := pre ▸ final_invariant (fun _ call h => h.step call) fresh js
  rw [planning] at output post
  rw [planned] at output
  simp only [step] at output post
  split at output
  · cases output
  rename_i found
  rw [found] at post
  cases output
  obtain ⟨packages, known, rfl⟩ := planRequests_ok found
  refine ⟨packages, known, fun chunkId => ?_, fun request asked => ?_⟩
  · simp only [mem_requests]
    constructor
    · rintro ⟨_, ⟨entry, listed, named, c, chunk, missing, rfl⟩, rfl⟩
      exact ⟨missing, entry, listed, named, c, chunk, rfl⟩
    · rintro ⟨missing, entry, listed, named, c, chunk, rfl⟩
      exact ⟨_, ⟨entry, listed, named, c, chunk, missing, rfl⟩, rfl⟩
  · obtain ⟨entry, -, -, c, -, -, rfl⟩ := mem_requests.mp asked
    refine ⟨length_take_le .., fun source listed => ?_⟩
    rw [post]
    exact (marked.expirePeers input.now).mem_sources listed

end Plans

def onePackage : Dict String (List ArtifactPackageDescriptor) :=
  Dict.empty.insert "manifest" [⟨"package", ⟨"blob", 4, [⟨0, 0, 4, "chunk"⟩]⟩, []⟩]

def hello (expiresAt : Int) : ArtifactPeerAnnouncement :=
  ⟨"peer", ["blob:0"], expiresAt, 10, 100, 0, 1⟩

def wanted (now : Int) : DownloadInput := ⟨"manifest", "requester", ["package"], [], none, now⟩

def asked (calls : List Call) : List (List String) :=
  (trace (step fun a b => a ≤ b) (.new onePackage) calls).filterMap fun t =>
    match t.output with
    | .plan requests => some (requests.flatMap fun request => request.sources.map Source.peerId)
    | _ => none

def returning : List Call :=
  [.announcePeer (hello 100) 0, .recordCorruptChunk "peer" 1, .recordCorruptChunk "peer" 2,
    .planDownload (wanted 3), .expirePeers 100, .announcePeer (hello 200) 101,
    .planDownload (wanted 102)]

theorem quarantine_is_forgotten :
    (final (step fun a b => a ≤ b) (.new onePackage) (returning.take 3)).strikes "peer" =
    quarantineStrikes ∧ (final (step fun a b => a ≤ b) (.new onePackage) returning).strikes "peer" =
    0 ∧ asked returning = [[], ["peer"]] := by
  decide +kernel

def renewing : List Call :=
  [.announcePeer (hello 100) 0, .planDownload (wanted 1), .recordCorruptChunk "peer" 2,
    .recordCorruptChunk "peer" 3, .announcePeer (hello 200) 50, .expirePeers 100,
    .planDownload (wanted 102)]

def renewed : Transition Registry Call Answer :=
  (trace (step fun a b => a ≤ b) (.new onePackage) renewing).get ⟨6, by decide +kernel⟩

theorem renewed_stays_out :
    renewed.pre.strikes "peer" = quarantineStrikes ∧
    renewed.pre.strikes "peer" ≤ renewed.post.strikes "peer" ∧ asked renewing = [["peer"], []] :=
  ⟨by decide +kernel,
    (quarantine_is_permanent _ onePackage renewing "peer" (by decide +kernel) renewed
      (get_mem _ _)).1,
    by decide +kernel⟩

def firstPlan : Transition Registry Call Answer :=
  (trace (step fun a b => a ≤ b) (.new onePackage) renewing).get ⟨1, by decide +kernel⟩

theorem firstPlan_covers : ∃ requests, firstPlan.output = .plan requests ∧
    (requests.flatMap fun request => request.sources.map Source.peerId) = ["peer"] ∧
    ∀ request ∈ requests, ∀ source ∈ request.sources, ∃ peer,
      firstPlan.post.peers.find? source.peerId = some peer ∧ request.chunkId ∈ peer.chunkIds := by
  have asked : (match firstPlan.output with
      | .plan requests => requests.flatMap fun request => request.sources.map Source.peerId
      | _ => []) = ["peer"] := by decide +kernel
  cases planned : firstPlan.output with
  | plan requests =>
    rw [planned] at asked
    obtain ⟨_, _, _, served⟩ := plans_cover_missing_chunks _ onePackage renewing firstPlan
      (get_mem _ _) (wanted 1) requests rfl planned
    refine ⟨requests, rfl, asked, fun request listed source named => ?_⟩
    obtain ⟨peer, found, holds, -⟩ := (served request listed).2 source named
    exact ⟨peer, found, holds⟩
  | _ =>
    rw [planned] at asked
    cases asked

end Mycellios.Swarm
