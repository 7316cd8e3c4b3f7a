import Mathlib.Data.List.Dedup
import Mycellios.Data.Dict
import Mycellios.Data.JavaScript
import Mycellios.Data.Pointwise
import Mycellios.Logic.Machine
import Mycellios.Logic.Wp

/-! `component-release-store.ts`. A call is a series of file-system steps, which a crash may cut off
anywhere. -/

namespace Mycellios.Release

open Data Logic

inductive Code
  | configurationInvalid
  | artifactIdentityInvalid | artifactSizeInvalid | artifactBodyInvalid | artifactPathUnsafe
  | artifactSizeMismatch | artifactHashMismatch | artifactIoFailed
  | manifestInvalid | manifestSignatureKeyMissing | manifestSignatureRejected
  | manifestChannelMismatch | manifestTargetEmpty | manifestArtifactMissing
  | manifestArtifactInvalid | manifestRollbackRejected | manifestSequenceConflict
  | manifestTooLarge | manifestIoFailed
  deriving DecidableEq

inductive Channel
  | dev | stable
  deriving DecidableEq

inductive Platform
  | any | win32 | linux | darwin
  deriving DecidableEq

inductive Architecture
  | any | x64 | arm64
  deriving DecidableEq

structure Target where
  channel : Channel
  platform : Platform
  arch : Architecture
  deriving DecidableEq

def targets : List Target :=
  [Channel.dev, .stable].flatMap fun channel => [Platform.any, .win32, .linux, .darwin].flatMap
      fun platform =>
    [Architecture.any, .x64, .arm64].map fun arch => ⟨channel, platform, arch⟩

theorem mem_targets (target : Target) : target ∈ targets := by
  obtain ⟨channel, platform, arch⟩ := target
  cases channel <;> cases platform <;> cases arch <;> decide

structure Component where
  platform : Platform
  arch : Architecture
  sha256 : String
  bytes : Nat
  deriving DecidableEq

/-- What the store reads of a manifest, and its canonical JSON. -/
structure Manifest where
  channel : Channel
  sequence : Nat
  manifestId : String
  components : List Component
  document : String
  deriving DecidableEq

/-- The digest, and what the configured keys or callback say of a manifest for a target. -/
structure Host where
  sha256 : List UInt8 → String
  verifyManifest : Manifest → Target → Option Nat → Except Code Unit

structure Blob where
  content : List UInt8
  mtimeMs : Int

/-- The files of the store; staging files lie in the folders of the artifacts. -/
structure Disk where
  blobs : Dict String Blob
  manifests : Dict Target Manifest
  staging : Dict String Blob
  manifestStaging : Dict String (Option Manifest)

def Disk.empty : Disk := ⟨.empty, .empty, .empty, .empty⟩

inductive FileStep
  | openStaging (name : String)
  | writeStaging (name : String) (chunk : List UInt8)
  | renameArtifact (name sha256 : String)
  | rmStaging (name : String)
  | openManifest (name : String)
  | writeManifest (name : String) (manifest : Manifest)
  | renameManifest (name : String) (target : Target)
  | rmManifest (name : String)
  | rmArtifact (sha256 : String)

def FileStep.run (now : Int) (d : Disk) : FileStep → Disk
  | .openStaging name => { d with staging := d.staging.insert name ⟨[], now⟩ }
  | .writeStaging name chunk => (d.staging.find? name).elim d fun b =>
    { d with staging := d.staging.insert name ⟨b.content ++ chunk, now⟩ }
  | .renameArtifact name sha256 => (d.staging.find? name).elim d fun b =>
    { d with blobs := d.blobs.insert sha256 b, staging := d.staging.erase name }
  | .rmStaging name => { d with staging := d.staging.erase name }
  | .openManifest name => { d with manifestStaging := d.manifestStaging.insert name none }
  | .writeManifest name manifest =>
    { d with manifestStaging := d.manifestStaging.insert name (some manifest) }
  | .renameManifest name target => ((d.manifestStaging.find? name).bind id).elim d fun manifest =>
    { d with
      manifests := d.manifests.insert target manifest, manifestStaging :=
        d.manifestStaging.erase name }
  | .rmManifest name => { d with manifestStaging := d.manifestStaging.erase name }
  | .rmArtifact sha256 => { d with blobs := d.blobs.erase sha256 }

abbrev runSteps (now : Int) (steps : List FileStep) (d : Disk) : Disk :=
  steps.foldl (FileStep.run now) d

def maxManifestBytes : Nat := 2 * 1024 * 1024

def stagingName (sha256 uuid : String) : String :=
  "." ++ String.ofList (sha256.toList.drop 7) ++ ".blob." ++ uuid ++ ".component-release-staging"

variable (host : Host)

section Calls

variable (d : Disk)

def inspectArtifact (sha256 : String) (expectedBytes : Nat) : Except Code Bool :=
  match d.blobs.find? sha256 with
  | none => .ok false
  | some blob =>
    if blob.content.length ≠ expectedBytes then .error .artifactSizeMismatch
    else if host.sha256 blob.content ≠ sha256 then .error .artifactHashMismatch
    else .ok true

def writeArtifactBody (name : String) (maximumBytes : Nat) :
    List (List UInt8) → Nat → List FileStep × Option Code
  | [], _ => ([], none)
  | chunk :: chunks, bytes =>
    if chunk = [] then ([], some .artifactBodyInvalid)
    else if maximumBytes < bytes + chunk.length then ([], some .artifactSizeMismatch)
    else
      let rest := writeArtifactBody name maximumBytes chunks (bytes + chunk.length)
      (.writeStaging name chunk :: rest.1, rest.2)

structure StoredArtifact where
  sha256 : String
  bytes : Nat
  alreadyStored : Bool

def putArtifact (uuid sha256 : String) (bytes : Nat) (body : List (List UInt8)) :
    List FileStep × Except Code StoredArtifact :=
  if ¬isSha256 sha256 then ([], .error .artifactIdentityInvalid)
  else if bytes = 0 ∨ maxSafeInteger < bytes then ([], .error .artifactSizeInvalid)
  else
    match inspectArtifact host d sha256 bytes with
    | .error code => ([], .error code)
    | .ok true => ([], .ok ⟨sha256, bytes, true⟩)
    | .ok false =>
      let name := stagingName sha256 uuid
      let written := writeArtifactBody name bytes body 0
      let failure := written.2.or
        (if body.flatten.length ≠ bytes then some .artifactSizeMismatch
        else if host.sha256 body.flatten ≠ sha256 then some .artifactHashMismatch
        else none)
      if d.staging.contains name then ([.rmStaging name], .error .artifactIoFailed)
      else
        match failure with
        | some code => (.openStaging name :: written.1 ++ [.rmStaging name], .error code)
        | none =>
          (.openStaging name :: written.1 ++ [.renameArtifact name sha256],
            .ok ⟨sha256, bytes, false⟩)

def componentMatchesTarget (component : Component) (target : Target) : Bool :=
  (component.platform = .any ∨ component.platform = target.platform) ∧
    (component.arch = .any ∨ component.arch = target.arch)

def assertManifestTarget (manifest : Manifest) (target : Target) : Except Code Unit := do
  if manifest.channel ≠ target.channel then throw .manifestChannelMismatch
  if ¬manifest.components.any (componentMatchesTarget · target) then throw .manifestTargetEmpty

def loadPublishedManifest (target : Target) : Except Code (Option Manifest) :=
  match d.manifests.find? target with
  | none => pure none
  | some manifest => do
    if maxManifestBytes < manifest.document.utf8ByteSize + 1 then throw .manifestTooLarge
    assertManifestTarget manifest target
    host.verifyManifest manifest target none
    pure (some manifest)

def verifyManifestArtifacts : List Component → Dict String Nat → Except Code Unit
  | [], _ => pure ()
  | component :: components, checked =>
    match checked.find? component.sha256 with
    | some previousBytes =>
      if previousBytes ≠ component.bytes then throw .manifestArtifactInvalid
      else verifyManifestArtifacts components checked
    | none =>
      match inspectArtifact host d component.sha256 component.bytes with
      | .error _ => throw .manifestArtifactInvalid
      | .ok false => throw .manifestArtifactMissing
      | .ok true =>
        verifyManifestArtifacts components (checked.insert component.sha256 component.bytes)

def assertMonotonicManifest (manifest : Manifest) (current : Option Manifest) : Except Code Unit :=
  match current with
  | none => pure ()
  | some current => do
    if manifest.sequence < current.sequence then throw .manifestRollbackRejected
    if manifest.sequence = current.sequence ∧ manifest.manifestId ≠ current.manifestId then
      throw .manifestSequenceConflict

/-- The checks of `publishManifest`; a manifest that does not parse is `none`. -/
def admitManifest (target : Target) (manifest : Option Manifest) :
    Except Code (Manifest × Option Manifest) := do
  let manifest ← manifest.elim (throw .manifestInvalid) pure
  assertManifestTarget manifest target
  let current ← loadPublishedManifest host d target
  host.verifyManifest manifest target (current.map (·.sequence))
  assertMonotonicManifest manifest current
  verifyManifestArtifacts host d manifest.components .empty
  pure (manifest, current)

structure PublishedManifest where
  manifest : Manifest
  target : Target
  alreadyPublished : Bool
  previousManifestId : Option String

def publishManifest (uuid : String) (target : Target) (manifest : Option Manifest) :
    List FileStep × Except Code PublishedManifest :=
  match admitManifest host d target manifest with
  | .error code => ([], .error code)
  | .ok (manifest, current) =>
    if current.map (·.manifestId) = some manifest.manifestId then
      ([], .ok ⟨manifest, target, true, some manifest.manifestId⟩)
    else if d.manifestStaging.contains uuid then ([.rmManifest uuid], .error .manifestIoFailed)
    else ([.openManifest uuid, .writeManifest uuid manifest, .renameManifest uuid target],
      .ok ⟨manifest, target, false, current.map (·.manifestId)⟩)

structure GarbageCollectionResult where
  (referencedArtifacts retainedUnreferencedArtifacts removedArtifacts : Nat)

def collectGarbage (now retainUnreferenced minimumAgeMs : Int) :
    List FileStep × Except Code GarbageCollectionResult :=
  if retainUnreferenced < 0 ∨ maxSafeInteger < retainUnreferenced ∨ minimumAgeMs < 0 ∨
      maxSafeInteger < minimumAgeMs then ([], .error .configurationInvalid)
  else
    match targets.mapM (loadPublishedManifest host d) with
    | .error code => ([], .error code)
    | .ok manifests =>
      let referenced := (manifests.flatMap fun m => (m.elim [] (·.components)).map (·.sha256)).dedup
      -- a name in the folders of the artifacts that is not that of an artifact
      if d.staging.size ≠ 0 then ([], .error .artifactPathUnsafe)
      else
        let candidates :=
          (d.blobs.entries.filter (·.1 ∉ referenced)).mergeSort fun l r => r.2.mtimeMs ≤ l.2.mtimeMs
        let removed :=
          (candidates.drop retainUnreferenced.toNat).filter (minimumAgeMs ≤ now - ·.2.mtimeMs)
        (removed.map fun e => .rmArtifact e.1,
          .ok ⟨referenced.length, candidates.length - removed.length, removed.length⟩)

end Calls

structure Moment where
  now : Int
  uuid : String

inductive Call
  | putArtifact (sha256 : String) (bytes : Nat) (body : List (List UInt8))
  | publishManifest (target : Target) (manifest : Option Manifest)
  | collectGarbage (retainUnreferenced minimumAgeMs : Int)

inductive Answer
  | stored (artifact : StoredArtifact)
  | published (manifest : PublishedManifest)
  | collected (result : GarbageCollectionResult)

def perform (d : Disk) (c : Call × Moment) : List FileStep × Except Code Answer :=
  match c.1 with
  | .putArtifact sha256 bytes body =>
    let r := putArtifact host d c.2.uuid sha256 bytes body
    (r.1, r.2.map .stored)
  | .publishManifest target manifest =>
    let r := publishManifest host d c.2.uuid target manifest
    (r.1, r.2.map .published)
  | .collectGarbage retainUnreferenced minimumAgeMs =>
    let r := collectGarbage host d c.2.now retainUnreferenced minimumAgeMs
    (r.1, r.2.map .collected)

/-- A call, cut off after so many file-system steps if there is a crash. -/
def step (d : Disk) (c : (Call × Moment) × Option Nat) : Disk × Option (Except Code Answer) :=
  let r := perform host d c.1
  let steps := c.2.elim r.1 r.1.take
  (runSteps c.1.2.now steps d, c.2.elim (some r.2) fun _ => none)

section Whole

variable {host} {d d' e : Disk}

def Present (host : Host) (d : Disk) (sha256 : String) (bytes : Nat) : Prop :=
  ∃ b, d.blobs.find? sha256 = some b ∧ b.content.length = bytes ∧ host.sha256 b.content = sha256

def Manifest.Complete (host : Host) (d : Disk) (m : Manifest) : Prop :=
  ∀ c ∈ m.components, Present host d c.sha256 c.bytes

def Whole (host : Host) (d : Disk) : Prop :=
  ∀ target m, d.manifests.find? target = some m → m.Complete host d

def Later (d d' : Disk) : Prop :=
  ∀ target m, d.manifests.find? target = some m →
    ∃ m', d'.manifests.find? target = some m' ∧ m.sequence ≤ m'.sequence ∧
    (m.sequence = m'.sequence → m = m')

theorem Later.trans (first : Later d e) (second : Later e d') : Later d d' := by
  intro target m found
  obtain ⟨m₁, found₁, le₁, same₁⟩ := first target m found
  obtain ⟨m₂, found₂, le₂, same₂⟩ := second target m₁ found₁
  refine ⟨m₂, found₂, le₁.trans le₂, fun same => ?_⟩
  rw [same₁ (by omega), same₂ (by omega)]

def Manifest.Admitted (host : Host) (target : Target) (m : Manifest) : Prop :=
  assertManifestTarget m target = .ok () ∧ ∃ minimum, host.verifyManifest m target minimum = .ok ()

/-- What the file-system steps of a call may do to the artifacts and to what is published. -/
structure Advances (host : Host) (d d' : Disk) : Prop where
  kept : ∀ target m, d.manifests.find? target = some m → m.Complete host d → m.Complete host d'
  digest : ∀ sha256 b, d'.blobs.find? sha256 = some b → d.blobs.find? sha256 = some b ∨
    host.sha256 b.content = sha256
  fresh : ∀ target, d'.manifests.find? target = d.manifests.find? target ∨
    ∃ m', d'.manifests.find? target = some m' ∧ m'.Complete host d' ∧ m'.Admitted host target ∧
      ∀ m, d.manifests.find? target = some m → m.sequence < m'.sequence

theorem Advances.of_beside (same : d'.blobs = d.blobs ∧ d'.manifests = d.manifests) :
    Advances host d d' where
  kept _ _ _ present := by simpa only [Manifest.Complete, Present, same.1] using present
  digest _ _ found := .inl (same.1 ▸ found)
  fresh _ := .inl (by rw [same.2])

theorem Advances.whole (h : Advances host d d') (whole : Whole host d) : Whole host d' := by
  intro target m found
  rcases h.fresh target with same | ⟨m', found', present, -, -⟩
  · rw [same] at found
    exact h.kept target m found (whole target m found)
  · obtain rfl := Option.mem_unique found' found
    exact present

theorem Advances.later (h : Advances host d d') : Later d d' := by
  intro target m found
  rcases h.fresh target with same | ⟨m', found', -, -, higher⟩
  · exact ⟨m, same.trans found, le_rfl, fun _ => rfl⟩
  · have lt := higher m found
    exact ⟨m', found', lt.le, fun same => by omega⟩

def FileStep.Beside : FileStep → Prop
  | .renameArtifact .. | .renameManifest .. | .rmArtifact _ => False
  | _ => True

theorem run_beside (now : Int) (steps : List FileStep) (beside : ∀ s ∈ steps, s.Beside) (d : Disk) :
    (runSteps now steps d).blobs = d.blobs ∧ (runSteps now steps d).manifests = d.manifests := by
  induction steps generalizing d with
  | nil => exact ⟨rfl, rfl⟩
  | cons s steps ih =>
    obtain ⟨here, later⟩ := List.forall_mem_cons.mp beside
    have one : (s.run now d).blobs = d.blobs ∧ (s.run now d).manifests = d.manifests := by
      cases s with
      | writeStaging name chunk => cases found : d.staging.find? name <;> simp [FileStep.run, found]
      | renameArtifact | renameManifest | rmArtifact => cases here
      | _ => exact ⟨rfl, rfl⟩
    obtain ⟨blobs, manifests⟩ := ih later (s.run now d)
    exact ⟨blobs.trans one.1, manifests.trans one.2⟩

theorem Advances.quiet {now : Int} (beside : ∀ s ∈ l, FileStep.Beside s) (done : steps <+: l) :
    Advances host d (runSteps now steps d) :=
  .of_beside (run_beside now steps (fun s mem => beside s (done.subset mem)) d)

theorem writeArtifactBody_spec (now : Int) (name : String) (maximum : Nat)
    (chunks : List (List UInt8)) (bytes : Nat) :
    (∀ s ∈ (writeArtifactBody name maximum chunks bytes).1, s.Beside) ∧
    ∀ d b, (writeArtifactBody name maximum chunks bytes).2 = none → d.staging.find? name = some b →
      ∃ b', ((writeArtifactBody name maximum chunks bytes).1.foldl (FileStep.run now)
        d).staging.find? name = some b' ∧ b'.content = b.content ++ chunks.flatten := by
  induction chunks generalizing bytes with
  | nil => exact ⟨by simp [writeArtifactBody], fun d b _ found => ⟨b, found, by simp⟩⟩
  | cons chunk chunks ih =>
    unfold writeArtifactBody
    split
    · simp
    split
    · simp
    obtain ⟨beside, content⟩ := ih (bytes + chunk.length)
    refine ⟨List.forall_mem_cons.mpr ⟨trivial, beside⟩, fun d b accepted found => ?_⟩
    obtain ⟨b', found', content'⟩ :=
      content (FileStep.run now d (.writeStaging name chunk)) ⟨b.content ++ chunk, now⟩ accepted
      (by simp [FileStep.run, found])
    exact ⟨b', found', by simp [content']⟩

theorem inspectArtifact_eq_true {sha256 : String} {bytes : Nat} :
    inspectArtifact host d sha256 bytes = .ok true ↔ Present host d sha256 bytes := by
  unfold inspectArtifact Present
  cases d.blobs.find? sha256 with
  | none => simp
  | some b => simp; grind

theorem present_of_verified {checked : Dict String Nat}
    (ok : verifyManifestArtifacts host d components checked = .ok ())
    (seen : ∀ sha256 bytes, checked.find? sha256 = some bytes → Present host d sha256 bytes) :
    ∀ c ∈ components, Present host d c.sha256 c.bytes := by
  induction components generalizing checked with
  | nil => simp
  | cons c components ih =>
    unfold verifyManifestArtifacts at ok
    split at ok
    · rename_i previous found
      split at ok
      · cases ok
      rename_i same
      rw [not_not.mp same] at found
      exact List.forall_mem_cons.mpr ⟨seen _ _ found, ih ok seen⟩
    · split at ok
      · cases ok
      · cases ok
      rename_i inspected
      have here := inspectArtifact_eq_true.mp inspected
      exact List.forall_mem_cons.mpr ⟨here, ih ok (Dict.forall_find?_insert here seen)⟩

theorem Present.insert (absent : d.blobs.find? sha256 = none)
    (blobs : d'.blobs = d.blobs.insert sha256 b) (h : Present host d other bytes) :
    Present host d' other bytes := by
  obtain ⟨b', found, rest⟩ := h
  refine ⟨b', ?_, rest⟩
  rw [blobs, Dict.find?_insert, if_neg fun same => ?_, found]
  rw [same, found] at absent
  cases absent

/-- Only the last step of a call that succeeds touches the artifacts. -/
theorem putArtifact_steps (now : Int) (uuid sha256 : String) (bytes : Nat)
    (body : List (List UInt8)) : (∀ s ∈ (putArtifact host d uuid sha256 bytes body).1, s.Beside) ∨
    ∃ staged name b, (putArtifact host d uuid sha256 bytes body).1 = staged ++
    [.renameArtifact name sha256] ∧
      (∀ s ∈ staged, s.Beside) ∧ d.blobs.find? sha256 = none ∧
      (runSteps now staged d).staging.find? name = some b ∧ host.sha256 b.content = sha256 := by
  unfold putArtifact
  split
  · simp
  split
  · simp
  split
  · simp
  · simp
  rename_i inspected
  obtain ⟨beside, content⟩ := writeArtifactBody_spec now (stagingName sha256 uuid) bytes body 0
  have staged : ∀ s ∈ FileStep.openStaging (stagingName sha256 uuid) ::
      (writeArtifactBody (stagingName sha256 uuid) bytes body 0).1, s.Beside :=
    List.forall_mem_cons.mpr ⟨trivial, beside⟩
  simp only
  split
  · exact .inl (by simp [FileStep.Beside])
  split
  · exact .inl (List.forall_mem_append.mpr ⟨staged, by simp [FileStep.Beside]⟩)
  rename_i accepted
  obtain ⟨written, checked⟩ := Option.or_eq_none_iff.mp accepted
  obtain ⟨b, found, same⟩ := content (FileStep.run now d (.openStaging (stagingName sha256 uuid)))
    ⟨[], now⟩ written (by simp [FileStep.run])
  refine .inr ⟨_, _, b, rfl, staged, ?_, found, ?_⟩
  · unfold inspectArtifact at inspected
    cases absent : d.blobs.find? sha256 with
    | none => rfl
    | some b => grind
  · rw [same, List.nil_append]
    grind

theorem putArtifact_advances (now : Int) (uuid sha256 : String) (bytes : Nat)
    (body : List (List UInt8)) (done : steps <+: (putArtifact host d uuid sha256 bytes body).1) :
    Advances host d (runSteps now steps d) := by
  obtain beside | ⟨staged, name, b, all, beside, absent, found, digest⟩ :=
    putArtifact_steps now uuid sha256 bytes body
  · exact .quiet beside done
  rw [all] at done
  rcases List.prefix_concat_iff.mp done with rfl | done
  · obtain ⟨blobs, manifests⟩ := run_beside now staged beside d
    have kept : (runSteps now (staged ++ [.renameArtifact name sha256]) d).blobs =
        d.blobs.insert sha256 b := by
      simp [FileStep.run, found, blobs]
    refine ⟨fun target m _ complete c mem => (complete c mem).insert absent kept,
      fun other b' found' => ?_, fun target => .inl (by simp [FileStep.run, found, manifests])⟩
    rw [kept] at found'
    rcases Dict.of_find?_insert found' with ⟨rfl, rfl⟩ | ⟨-, old⟩
    · exact .inr digest
    · exact .inl old
  · exact .quiet beside done

theorem loadPublishedManifest_ok (ok : loadPublishedManifest host d target = .ok current) :
    current = d.manifests.find? target := by
  unfold loadPublishedManifest at ok
  cases found : d.manifests.find? target with
  | none =>
    rw [found] at ok
    exact (Except.ok.inj ok).symm
  | some m =>
    simp only [found, throw_bind, raise_eq_ok, bind_eq_ok] at ok
    obtain ⟨_, _, _, _, _, done⟩ := ok
    exact (Except.ok.inj done).symm

theorem admitManifest_ok (ok : admitManifest host d target manifest = .ok (m, current)) :
    current = d.manifests.find? target ∧ m.Admitted host target ∧ m.Complete host d ∧
      assertMonotonicManifest m current = .ok () := by
  simp only [admitManifest, bind_eq_ok] at ok
  obtain ⟨m', _, _, matched, current', loaded, _, verified, _, monotone, _, complete, done⟩ := ok
  obtain ⟨rfl, rfl⟩ := Prod.mk.inj (Except.ok.inj done)
  exact ⟨loadPublishedManifest_ok loaded, ⟨matched, _, verified⟩,
    present_of_verified complete (by simp), monotone⟩

theorem sequence_lt (ok : assertMonotonicManifest m (some current) = .ok ())
    (other : m.manifestId ≠ current.manifestId) : current.sequence < m.sequence := by
  simp only [assertMonotonicManifest, throw_bind, raise_eq_ok] at ok
  have differ := ok.2.1
  simp only [other, ne_eq, not_false_eq_true, and_true] at differ
  omega

theorem publishManifest_advances (now : Int) (uuid : String) (target : Target)
    (manifest : Option Manifest)
    (done : steps <+: (publishManifest host d uuid target manifest).1) :
    Advances host d (runSteps now steps d) := by
  revert done
  unfold publishManifest
  split
  · exact .quiet (by simp)
  rename_i m current ok
  obtain ⟨rfl, admitted, complete, monotone⟩ := admitManifest_ok ok
  split
  · exact .quiet (by simp)
  rename_i other
  split
  · exact .quiet (by simp [FileStep.Beside])
  intro done
  have staged : steps <+: [.openManifest uuid, .writeManifest uuid m] ++
    [.renameManifest uuid target] := done
  rcases List.prefix_concat_iff.mp staged with rfl | done
  · have after : runSteps now [.openManifest uuid, .writeManifest uuid m,
        .renameManifest uuid target] d = { d with
          manifests := d.manifests.insert target m
          manifestStaging :=
            ((d.manifestStaging.insert uuid none).insert uuid (some m)).erase uuid } := by
      simp [FileStep.run]
    rw [List.cons_append, List.cons_append, List.nil_append, after]
    refine ⟨fun _ _ _ => id, fun _ _ => .inl, fun target' => ?_⟩
    rw [Dict.find?_insert]
    split
    · rename_i here
      subst here
      refine .inr ⟨m, rfl, complete, admitted, fun m' found => ?_⟩
      rw [found] at other monotone
      exact sequence_lt monotone fun same => other (by rw [same]; rfl)
    · exact .inl rfl
  · exact .quiet (by simp [FileStep.Beside]) done

theorem run_rmArtifact (now : Int) (steps : List FileStep) (d : Disk)
    (unreferenced : ∀ s ∈ steps, ∃ sha256, s =
      .rmArtifact sha256 ∧ ∀ target m, d.manifests.find? target = some m →
      ∀ c ∈ m.components, c.sha256 ≠ sha256) :
    Advances host d (runSteps now steps d) ∧
      (runSteps now steps d).manifests = d.manifests := by
  induction steps generalizing d with
  | nil => exact ⟨.of_beside ⟨rfl, rfl⟩, rfl⟩
  | cons s steps ih =>
    obtain ⟨⟨sha256, rfl, free⟩, later⟩ := List.forall_mem_cons.mp unreferenced
    obtain ⟨⟨kept, digest, -⟩, manifests⟩ := ih (FileStep.run now d (.rmArtifact sha256)) later
    refine ⟨⟨fun target m found complete => kept target m found fun c mem => ?_,
      fun other b found => ?_, fun target => .inl (congrArg (·.find? target) manifests)⟩, manifests⟩
    · obtain ⟨b, stored, rest⟩ := complete c mem
      refine ⟨b, ?_, rest⟩
      rw [FileStep.run, Dict.find?_erase, if_neg (free target m found c mem).symm, stored]
    · refine (digest other b found).imp_left fun old => ?_
      exact Dict.find?_of_erase old

theorem collectGarbage_advances (now retain age : Int)
    (done : steps <+: (collectGarbage host d now retain age).1) :
    Advances host d (runSteps now steps d) := by
  refine (run_rmArtifact now steps d fun s mem => ?_).1
  have mem := done.subset mem
  unfold collectGarbage at mem
  split at mem
  · cases mem
  split at mem
  · cases mem
  rename_i manifests loaded
  simp only at mem
  split at mem
  · cases mem
  obtain ⟨e, listed, rfl⟩ := List.mem_map.mp mem
  have candidate := List.mem_mergeSort.mp (List.mem_of_mem_drop (List.mem_of_mem_filter listed))
  have free : e.1 ∉ _ := of_decide_eq_true (List.mem_filter.mp candidate).2
  refine ⟨e.1, rfl, fun target m found c mem here => free ?_⟩
  rw [List.mem_dedup, List.mem_flatMap]
  refine ⟨some m, ?_, List.mem_map.mpr ⟨c, mem, here⟩⟩
  obtain ⟨m', listed, loaded⟩ := forall₂_of_mem (mapM_eq_ok.mp loaded) (mem_targets target)
  rw [← found, ← loadPublishedManifest_ok loaded]
  exact listed

theorem step_advances (d : Disk) (c : (Call × Moment) × Option Nat) :
    Advances host d (step host d c).1 := by
  obtain ⟨⟨call, moment⟩, cut⟩ := c
  have done : cut.elim (perform host d (call, moment)).1 (perform host d (call, moment)).1.take <+:
      (perform host d (call, moment)).1 := by
    cases cut with
    | none => exact List.prefix_rfl
    | some n => exact List.take_prefix n _
  cases call with
  | putArtifact sha256 bytes body =>
    exact putArtifact_advances moment.now moment.uuid sha256 bytes body done
  | publishManifest target manifest =>
    exact publishManifest_advances moment.now moment.uuid target manifest done
  | collectGarbage retain age => exact collectGarbage_advances moment.now retain age done

/-- Wherever calls are cut off, what is published is whole and moves forward. -/
theorem releases_whole_and_forward (host : Host)
    (before after : List ((Call × Moment) × Option Nat)) :
    Whole host (final (step host) .empty (before ++ after)) ∧
      Later (final (step host) .empty before) (final (step host) .empty (before ++ after)) := by
  constructor
  · exact final_invariant (fun d c whole => (step_advances d c).whole whole)
      (by simp [Whole, Disk.empty]) _
  · rw [final_append]
    refine final_invariant (P := Later _) (fun d c later => later.trans (step_advances d c).later)
      ?_ after
    exact fun target m found => ⟨m, found, le_rfl, fun _ => rfl⟩

/-- What lies on the disk passes the checks that let it be stored. -/
structure Sound (host : Host) (d : Disk) : Prop where
  digests : ∀ sha256 b, d.blobs.find? sha256 = some b → host.sha256 b.content = sha256
  admitted : ∀ target m, d.manifests.find? target = some m → m.Admitted host target

theorem Advances.sound (h : Advances host d d') (sound : Sound host d) : Sound host d' := by
  refine ⟨fun sha256 b found => ?_, fun target m found => ?_⟩
  · exact (h.digest sha256 b found).elim (sound.digests sha256 b) id
  rcases h.fresh target with same | ⟨m', found', -, admitted, -⟩
  · exact sound.admitted target m (same ▸ found)
  · obtain rfl := Option.mem_unique found' found
    exact admitted

theorem Sound.empty : Sound host .empty := ⟨by simp [Disk.empty], by simp [Disk.empty]⟩

theorem stored_content_checked (host : Host) (calls : List ((Call × Moment) × Option Nat)) :
    Sound host (final (step host) .empty calls) :=
  final_invariant (fun d c sound => (step_advances d c).sound sound) .empty _

structure Works (host : Host) (d : Disk) : Prop where
  put : ∀ uuid sha256 (bytes : Nat) body, isSha256 sha256 → bytes ≠ 0 → bytes ≤ maxSafeInteger →
    (∀ chunk ∈ body, chunk ≠ []) → body.flatten.length = bytes → host.sha256 body.flatten = sha256 →
    ¬d.staging.contains (stagingName sha256 uuid) →
    ∃ stored, (putArtifact host d uuid sha256 bytes body).2 = .ok stored
  publish : ∀ uuid target m, assertManifestTarget m target = .ok () →
    host.verifyManifest m target ((d.manifests.find? target).map (·.sequence)) = .ok () →
    assertMonotonicManifest m (d.manifests.find? target) = .ok () →
    verifyManifestArtifacts host d m.components .empty = .ok () → ¬d.manifestStaging.contains uuid →
    ∃ published, (publishManifest host d uuid target (some m)).2 = .ok published
  collect : ∀ now retain age, 0 ≤ retain → retain ≤ maxSafeInteger → 0 ≤ age →
    age ≤ maxSafeInteger → ∃ collected, (collectGarbage host d now retain age).2 = .ok collected

theorem writeArtifactBody_none (name : String) (bytes : Nat)
    (nonempty : ∀ chunk ∈ chunks, chunk ≠ []) (room : bytes + chunks.flatten.length ≤ maximum) :
    (writeArtifactBody name maximum chunks bytes).2 = none := by
  induction chunks generalizing bytes with
  | nil => rfl
  | cons chunk chunks ih =>
    obtain ⟨here, later⟩ := List.forall_mem_cons.mp nonempty
    rw [List.flatten_cons, List.length_append] at room
    rw [writeArtifactBody, if_neg here, if_neg (by omega)]
    exact ih _ later (by omega)

/-- No published manifest is too large to be read again. -/
def Readable (d : Disk) : Prop :=
  ∀ target m, d.manifests.find? target = some m → m.document.utf8ByteSize < maxManifestBytes

theorem Works.clean (h : Works host d) : d.staging.size = 0 ∧ Readable d := by
  obtain ⟨collected, ok⟩ := h.collect 0 0 0 le_rfl (by decide) le_rfl (by decide)
  unfold collectGarbage at ok
  rw [if_neg (by decide)] at ok
  split at ok
  · cases ok
  rename_i manifests loaded
  dsimp only at ok
  split at ok
  · cases ok
  rename_i clean
  refine ⟨not_not.mp clean, fun target m found => ?_⟩
  obtain ⟨m', -, loaded⟩ := forall₂_of_mem (mapM_eq_ok.mp loaded) (mem_targets target)
  simp only [loadPublishedManifest, found, throw_bind, raise_eq_ok] at loaded
  omega

section Again

variable (accepts : ∀ m target minimum, host.verifyManifest m target minimum = .ok () →
  host.verifyManifest m target none = .ok ())
include accepts

theorem Sound.load (h : Sound host d) (readable : Readable d) (target : Target) :
    loadPublishedManifest host d target = .ok (d.manifests.find? target) := by
  unfold loadPublishedManifest
  cases found : d.manifests.find? target with
  | none => rfl
  | some m =>
    obtain ⟨matched, minimum, verified⟩ := h.admitted target m found
    have again := accepts m target minimum verified
    have small := readable target m found
    simp [matched, again, show ¬maxManifestBytes < m.document.utf8ByteSize + 1 by omega]
    rfl

theorem Sound.works (sound : Sound host d)
    (collisionFree : ∀ a b, host.sha256 a = host.sha256 b → a.length = b.length)
    (clean : d.staging.size = 0) (readable : Readable d) : Works host d := by
  have load := sound.load accepts readable
  constructor
  · intro uuid sha256 bytes body identity nonzero safe nonempty length digest unused
    have inspected : inspectArtifact host d sha256 bytes = .ok (d.blobs.find? sha256).isSome := by
      unfold inspectArtifact
      cases found : d.blobs.find? sha256 with
      | none => rfl
      | some b =>
        have same := sound.digests sha256 b found
        have long := collisionFree b.content body.flatten (same.trans digest.symm)
        simp only [long, length, same, ne_eq, not_true, if_false, Option.isSome_some]
    have written :=
      writeArtifactBody_none (stagingName sha256 uuid) 0 nonempty (by omega : _ ≤ bytes)
    unfold putArtifact
    rw [if_neg (not_not.mpr identity), if_neg (by omega), inspected]
    cases (d.blobs.find? sha256).isSome with
    | true => exact ⟨_, rfl⟩
    | false => simp [unused, written, digest, List.length_flatten ▸ length]
  · intro uuid target m matched verified monotone complete unused
    have admitted : admitManifest host d target (some m) = .ok (m, d.manifests.find? target) := by
      simp only [admitManifest, Option.elim_some, pure_bind, matched, ok_bind, load, verified,
        monotone, complete]
      rfl
    unfold publishManifest
    rw [admitted]
    simp only [unused]
    split <;> simp
  · intro now retain age nonneg safe nonneg' safe'
    have loaded : ∀ target ∈ targets, ∃ m, loadPublishedManifest host d target = .ok m :=
      fun target _ => ⟨_, load target⟩
    obtain ⟨manifests, all, -⟩ := mapM_total loaded
    unfold collectGarbage
    rw [if_neg (by omega), all]
    simp [clean]

/-- The store works iff no staging file was left among the artifacts and no published manifest is
too large to be read again. -/
theorem store_works_after_crash
    (collisionFree : ∀ a b, host.sha256 a = host.sha256 b → a.length = b.length)
    (calls : List ((Call × Moment) × Option Nat)) :
    Works host (final (step host) .empty calls) ↔
      (final (step host) .empty calls).staging.size = 0 ∧
        Readable (final (step host) .empty calls) := by
  refine ⟨Works.clean, fun ⟨clean, readable⟩ => ?_⟩
  have sound : Sound host (final (step host) .empty calls) :=
    final_invariant (fun d c sound => (step_advances d c).sound sound) .empty _
  exact sound.works accepts collisionFree clean readable

end Again

/-- The digest of a content tells its length only. -/
def lengthHost : Host where
  sha256 content := "sha256:" ++
    String.ofList (content.map (fun _ => 'b') ++ List.replicate (64 - content.length) 'a')
  verifyManifest _ _ _ := .ok ()

/-- An artifact is stored; the publication of its manifest is cut off before the manifest is
renamed. -/
def cutOff : List ((Call × Moment) × Option Nat) :=
  let sha256 := lengthHost.sha256 [0]
  let manifest : Manifest := ⟨.dev, 1, "release", [⟨.any, .any, sha256, 1⟩], "document"⟩
  [((.putArtifact sha256 1 [[0]], ⟨0, "artifact"⟩), none),
    ((.publishManifest ⟨.dev, .linux, .x64⟩ (some manifest), ⟨1, "manifest"⟩), some 2)]

theorem cutOff_works :
    Works lengthHost (final (step lengthHost) .empty cutOff) ∧
      Present lengthHost (final (step lengthHost) .empty cutOff) (lengthHost.sha256 [0]) 1 ∧
      (final (step lengthHost) .empty cutOff).manifestStaging.contains "manifest" = true := by
  refine ⟨(store_works_after_crash (fun _ _ _ ok => ok) (fun a b same => ?_) cutOff).mpr ⟨rfl, ?_⟩,
    ⟨⟨[0], 0⟩, rfl, rfl, rfl⟩, rfl⟩
  · simpa [lengthHost, List.count_replicate] using congrArg (·.toList.count 'b') same
  · have unpublished : (final (step lengthHost) .empty cutOff).manifests = .empty := rfl
    intro target m found
    rw [unpublished, Dict.find?_empty] at found
    cases found

theorem staging_file_stops_collection :
    let sha256 := lengthHost.sha256 [0]
    let d := final (step lengthHost) .empty [((.putArtifact sha256 1 [[0]], ⟨0, "uuid"⟩), some 1)]
    (collectGarbage lengthHost d 0 32 21600000).2 = .error .artifactPathUnsafe := by
  rfl

end Whole

end Mycellios.Release
