import Mycellios.Logic.Machine
import Mycellios.Stage.Process

namespace Mycellios.Stage

open Data List Logic Protocol

/-- A frame read ahead passes no held frame of its request, a FORK no deferred one, and SHUTDOWN
finds none held. -/
def Areas.Keeps (a : Areas) : Move → Prop
  | .begin =>
    ∀ f ∈ a.upstream.take 1, ∀ y ∈ a.batch ++ a.deferred ++ a.pending, Apart runnerRequest f y
  | .join => ∀ f ∈ a.upstream.take 1, ∀ y ∈ a.deferred ++ a.pending, Apart runnerRequest f y
  | .aside => ∀ f ∈ a.upstream.take 1, ∀ y ∈ a.pending, Apart runnerRequest f y
  | .apply source =>
    ∀ f ∈ (a.source source).take 1, f.frameType = .fork →
      ∀ y ∈ a.held source, Apart runnerRequest f y
  | .stop => ∀ f ∈ a.deferred ++ a.pending, runnerRequest f = none
  | _ => True

instance Areas.decidableKeeps (a : Areas) (m : Move) : Decidable (a.Keeps m) := by
  cases m <;> dsimp only [Areas.Keeps] <;> infer_instance

variable {active : TreeCapacityReservation} {later : ℚ} {e : StageError} {tick : Tick}
  {moves : List Move} {a : Areas}

theorem Areas.Clean.keeps (h : a.Clean m) : a.Keeps m := by
  cases m with
  | begin =>
    intro f mem y hy
    exact h.1 f mem y (by simpa [passed, held, append_assoc] using hy)
  | join | aside => exact h.1
  | apply source =>
    intro f mem _ y hy
    exact h.1 f mem y (mem_append_right _ hy)
  | stop => exact h.2
  | _ => trivial

theorem Areas.Keeps.begin (h : a.Keeps .begin) : a.Clean .begin := by
  refine ⟨fun f mem y hy => h f mem y ?_, by simp [dropped]⟩
  simpa [passed, held, append_assoc] using hy

theorem Areas.Keeps.join (h : a.Keeps .join) : a.Clean .join := ⟨h, by simp [dropped]⟩

theorem Areas.Keeps.aside (h : a.Keeps .aside) : a.Clean .aside := ⟨h, by simp [dropped]⟩

theorem Areas.Keeps.stop (h : a.Keeps .stop) : a.Clean .stop := ⟨by simp [passed], h⟩

theorem Areas.clean_run (a : Areas) : a.Clean .run := ⟨by simp [passed], by simp [dropped]⟩

variable {ρ : Type} {s s' s'' : StageState ρ}

structure Does (s : StageState ρ) (moves : List Move) (s' : StageState ρ) : Prop where
  log : s'.moves = s.moves ++ moves
  areas : s'.areas = s.areas.replay moves

theorem Does.refl (s : StageState ρ) : Does s [] s := ⟨by simp, rfl⟩

theorem Does.trans (h : Does s first s') (h' : Does s' second s'') :
    Does s (first ++ second) s'' where
  log := by rw [h'.log, h.log, append_assoc]
  areas := by rw [h'.areas, h.areas, Areas.replay_append]

/-- A reservation is kept with its parent and children, or given up. -/
def SameTree (s s' : StageState ρ) : Prop :=
  ∀ active', s'.reservations.active = some active' → ∃ active, s.reservations.active = some active ∧
    active'.parentRequestId = active.parentRequestId ∧
    active'.quotedChildren = active.quotedChildren

theorem SameTree.of_eq (h : s'.reservations.active = s.reservations.active) : SameTree s s' :=
  fun active' found => ⟨active', h ▸ found, rfl, rfl⟩

theorem SameTree.of_none (h : s'.reservations.active = none) : SameTree s s' := by
  intro active' found
  simp [h] at found

theorem SameTree.trans (h : SameTree s s') (h' : SameTree s' s'') : SameTree s s'' := by
  intro active'' found
  obtain ⟨active', found, parent, children⟩ := h' active'' found
  obtain ⟨active, found, parent', children'⟩ := h active' found
  exact ⟨active, found, parent.trans parent', children.trans children'⟩

def Raised (s : StageState ρ) (m : Move) : StageError → StageState ρ → Prop :=
  fun _ s' => Does s [] s' ∨ Does s [m] s'

theorem Raised.refl (s : StageState ρ) (m : Move) (e : StageError) : Raised s m e s :=
  .inl (.refl s)

theorem throw_raised (s : StageState ρ) (m : Move) (Q : Unit → StageState ρ → Prop)
    (e : StageError) : wp (throw e : StageM ρ Unit) Q (Raised s m) s := .refl s m e

section Handlers

variable (config : StageConfig) (runner : Runner ρ) {m : Move} {frame : Frame}
  {Q : Unit → StageState ρ → Prop} {E : StageError → StageState ρ → Prop} {frames : List Frame}

omit config runner in
theorem call_wp {f : ρ → Except StageError ρ} (hQ : ∀ next, Q () { s with runner := next })
    (hE : ∀ e, E e s) : wp (call f) Q E s := by
  simp only [call, wp_bind, wp_get, wp_check, wp_modify]
  exact ⟨fun next _ => hQ next, fun e _ => hE e⟩

theorem beginStageRequest_spec : wp (beginStageRequest config runner frame m)
    (fun _ s' => Does s [m] s' ∧ SameTree s s') (Raised s m) s := by
  rw [beginStageRequest, wp_bind]
  apply call_wp
  · intro next
    simp only [shift, wp_bind, wp_modify, wp_ite, send]
    split <;> exact ⟨⟨rfl, rfl⟩, .of_eq rfl⟩
  · exact .refl s m

theorem truncate_spec : wp (truncate config runner frame source)
    (fun _ s' => Does s [.apply source] s' ∧ SameTree s s') (Raised s (.apply source)) s := by
  rw [truncate, wp_bind]
  apply call_wp
  · intro next
    simp only [shift, wp_bind, wp_modify, wp_ite, send]
    split <;> exact ⟨⟨rfl, rfl⟩, .of_eq rfl⟩
  · exact .refl s _

theorem endStageRequest_spec : wp (endStageRequest config runner frame m)
    (fun _ s' => Does s [m] s' ∧ SameTree s s') (Raised s m) s := by
  simp only [endStageRequest, wp_bind, wp_get, wp_raiseIf]
  refine ⟨fun _ => .refl s m _, fun _ => ?_⟩
  apply call_wp
  · intro next
    simp only [shift, wp_modify, abandonTreeReservationForRequest, wp_bind, wp_get]
    cases found : s.reservations.active with
    | none =>
      simp only [wp_pure, wp_ite, send, wp_modify]
      split <;> exact ⟨⟨rfl, rfl⟩, .of_eq rfl⟩
    | some active =>
      simp only [wp_ite, setActive, wp_modify, wp_pure, send]
      split
      · split <;> exact ⟨⟨rfl, rfl⟩, .of_none rfl⟩
      · split <;> exact ⟨⟨rfl, rfl⟩, .of_eq rfl⟩
  · exact .refl s m

theorem cancelTreeReservation_spec : wp (cancelTreeReservation config frame)
    (fun _ s' => Does s [] s' ∧ SameTree s s') (Raised s m) s := by
  simp only [cancelTreeReservation, wp_bind, wp_get, wp_check, wp_raiseIf]
  refine ⟨fun _ _ => ⟨fun _ => .refl s m _, fun _ => ?_⟩, fun e _ => .refl s m e⟩
  cases found : s.reservations.active with
  | none =>
    simp only [wp_bind, wp_raiseIf, wp_ite, send, wp_modify, wp_pure]
    refine ⟨fun _ => .refl s m _, fun _ => ?_⟩
    split <;> exact ⟨⟨by simp, rfl⟩, .of_eq rfl⟩
  | some active =>
    simp only [wp_bind, wp_raiseIf, setActive, wp_ite, send, wp_modify, wp_pure]
    refine ⟨fun _ => .refl s m _, fun _ => ⟨fun _ => .refl s m _, fun _ => ?_⟩⟩
    split <;> exact ⟨⟨by simp, rfl⟩, .of_none rfl⟩

theorem commitTreeReservation_spec : wp (commitTreeReservation config runner frame later)
    (fun _ s' => Does s [] s' ∧ SameTree s s') (Raised s m) s := by
  simp only [commitTreeReservation, wp_bind, wp_get, wp_check]
  refine ⟨fun _ _ => ?_, fun e _ => .refl s m e⟩
  cases found : s.reservations.active with
  | none => exact throw_raised ..
  | some active =>
    simp only [wp_bind, wp_raiseIf]
    refine ⟨fun _ => .refl s m _, fun _ => ⟨fun _ => .refl s m _, fun _ =>
      ⟨fun _ => .refl s m _, fun _ => ?_⟩⟩⟩
    cases s.frames.find? frame.requestId with
    | none => exact throw_raised ..
    | some step =>
      simp only [wp_bind, wp_raiseIf, wp_check, setActive, send, wp_modify]
      refine ⟨fun _ => .refl s m _, fun _ => ⟨fun _ _ => ⟨fun _ => .refl s m _, fun _ =>
        ⟨fun _ => .refl s m _, fun _ => ?_⟩⟩, fun e _ => .refl s m e⟩⟩
      refine ⟨⟨by simp, rfl⟩, fun active' same => ⟨active, found, ?_⟩⟩
      obtain rfl := Option.some.inj same
      exact ⟨rfl, rfl⟩

theorem prepareTreeCapacity_spec : wp (prepareTreeCapacity config runner frame later)
    (fun _ s' => Does s [] s' ∧ s.reservations.active = none ∧
      ∀ active', s'.reservations.active = some active' → active'.quotedChildren = .empty)
      (Raised s m) s := by
  have noted : ∀ book : TreeReservationBook, Does s [] { s with reservations := book } :=
    fun _ => ⟨by simp, rfl⟩
  simp only [prepareTreeCapacity, wp_bind, wp_get, wp_raiseIf, wp_check]
  refine ⟨fun _ => .refl s m _, fun idle => ⟨fun quote _ => ⟨fun _ => .refl s m _, fun _ => ?_⟩,
    fun e _ => .refl s m e⟩⟩
  have none : s.reservations.active = none := by simpa using idle
  cases s.frames.find? frame.requestId with
  | none => exact throw_raised ..
  | some expectedStep =>
    simp only [wp_bind, wp_raiseIf, wp_check, wp_modify]
    refine ⟨fun _ => .refl s m _, fun _ => ⟨fun _ => .refl s m _, fun _ => ⟨fun projection _ =>
      ⟨fun _ => .inl (noted _), fun _ => ⟨fun payload _ => ?_, fun e _ => .inl (noted _)⟩⟩,
      fun e _ => .inl (noted _)⟩⟩⟩
    simp only [wp_ite, setActive, wp_modify, send]
    split
    · refine ⟨⟨by simp, rfl⟩, none, fun active' same => ?_⟩
      obtain rfl := Option.some.inj same
      rfl
    · refine ⟨⟨by simp, rfl⟩, none, fun active' same => ?_⟩
      simp [none] at same

theorem promoteStageRequest_spec : wp (promoteStageRequest config runner frame m)
    (fun _ s' => Does s [m] s' ∧ SameTree s s') (Raised s m) s := by
  simp only [promoteStageRequest, wp_bind, wp_get, wp_raiseIf, wp_check]
  refine ⟨fun child _ => ⟨fun _ => .refl s m _, fun _ => ⟨fun _ => .refl s m _, fun _ =>
    ⟨fun _ => .refl s m _, fun _ => ⟨fun _ => .refl s m _, fun _ => ⟨fun _ => .refl s m _,
      fun _ => ?_⟩⟩⟩⟩⟩, fun e _ => .refl s m e⟩
  cases s.frames.find? child with
  | none => exact throw_raised ..
  | some frames =>
    simp only [wp_bind, wp_raiseIf]
    refine ⟨fun _ => .refl s m _, fun _ => ⟨fun _ => .refl s m _, fun _ => ?_⟩⟩
    apply call_wp
    · intro next
      simp only [shift, wp_modify, wp_ite, send, wp_pure]
      split <;> exact ⟨⟨rfl, rfl⟩, .of_eq rfl⟩
    · exact .refl s m

theorem forkPhysicalStageRequest_spec :
    wp (forkPhysicalStageRequest config runner child source owner m)
      (fun _ s' => Does s [m] s' ∧ s'.reservations = s.reservations) (Raised s m) s := by
  simp only [forkPhysicalStageRequest, wp_bind, wp_get, wp_check, wp_modify, shift]
  refine ⟨fun found _ => ⟨fun forked _ => ?_, fun e _ => .refl s m e⟩, fun e _ => .refl s m e⟩
  have moved : ∀ t : StageState ρ, t.moves = s.moves ++ [m] → t.areas = s.areas.move m →
      Does s [m] t :=
    fun t log areas => ⟨log, areas⟩
  cases s.lineage.register child owner source with
  | error e =>
    simp only [wp_bind]
    apply call_wp
    · intro next
      exact .inr (moved _ rfl rfl)
    · intro e
      exact .inr (moved _ rfl rfl)
  | ok lineage =>
    simp only [wp_bind, wp_modify, wp_get]
    split
    · simp only [discardFailedPhysicalFork, wp_bind, wp_modify]
      apply call_wp
      · intro next
        exact .inr (moved _ rfl rfl)
      · intro e
        exact .inr (moved _ rfl rfl)
    · exact ⟨moved _ rfl rfl, rfl⟩

theorem forkStageRequest_spec : wp (forkStageRequest config runner frame m later)
    (fun _ s' => Does s [m] s' ∧ ∃ active, s.reservations.active = some active ∧
      ∀ active', s'.reservations.active = some active' →
        active'.parentRequestId = active.parentRequestId ∧
        ∀ r ∈ active'.quotedChildren.keys, r = frame.requestId ∨ r ∈ active.quotedChildren.keys)
        (Raised s m) s := by
  simp only [forkStageRequest, wp_bind, wp_get, wp_check]
  refine ⟨fun parent _ => ?_, fun e _ => .refl s m e⟩
  cases found : s.reservations.active with
  | none => exact throw_raised ..
  | some active =>
    simp only [wp_bind, wp_raiseIf]
    refine ⟨fun _ => .refl s m _, fun _ => ⟨fun _ => .refl s m _, fun _ => ?_⟩⟩
    cases active.pathLengths[active.consumedForks]? with
    | none => exact throw_raised ..
    | some pathLength =>
      simp only [wp_bind]
      refine wp_post (forkPhysicalStageRequest_spec config runner) ?_
      rintro _ t ⟨does, -⟩
      have quoted : ∀ active' : TreeCapacityReservation,
          active'.quotedChildren = active.quotedChildren.insert frame.requestId (1 + pathLength) →
          ∀ r ∈ active'.quotedChildren.keys, r = frame.requestId ∨
          r ∈ active.quotedChildren.keys := by
        intro active' same r mem
        rw [same] at mem
        exact Dict.mem_keys_insert.mp mem
      simp only [wp_ite, send, setActive]
      split <;>
      · refine ⟨⟨does.log, does.areas⟩, active, rfl, fun active' same => ?_⟩
        obtain rfl := Option.some.inj same
        exact ⟨rfl, quoted _ rfl⟩

theorem consumeVerifies_tree (h : consumeVerifies active frames = .ok active') :
    active'.parentRequestId = active.parentRequestId ∧
      active'.quotedChildren = active.quotedChildren := by
  induction frames generalizing active with
  | nil =>
    obtain rfl := Except.ok.inj h
    exact ⟨rfl, rfl⟩
  | cons frame frames ih =>
    rw [consumeVerifies] at h
    split at h
    · cases h
    split at h
    · cases h
    split at h
    · cases h
    · obtain ⟨parent, children⟩ := ih h
      exact ⟨parent, children⟩

theorem consumeTreeReservationVerifies_spec :
    wp (consumeTreeReservationVerifies frames later)
      (fun _ s' => Does s [] s' ∧ SameTree s s') (Raised s m) s := by
  simp only [consumeTreeReservationVerifies, wp_bind, wp_get]
  cases found : s.reservations.active with
  | none => exact ⟨.refl s, .of_eq rfl⟩
  | some active =>
    simp only [wp_ite, wp_pure, wp_bind, wp_raiseIf, wp_check, setActive, wp_modify]
    split
    · exact ⟨.refl s, .of_eq rfl⟩
    refine ⟨fun _ => .refl s m _, fun _ =>
      ⟨fun consumed same => ⟨fun _ => .refl s m _, fun _ => ?_⟩, fun e _ => .refl s m e⟩⟩
    obtain ⟨parent, children⟩ := consumeVerifies_tree same
    split
    · exact ⟨⟨by simp, rfl⟩, .of_none rfl⟩
    refine ⟨⟨by simp, rfl⟩, fun active' same => ⟨active, found, ?_⟩⟩
    obtain rfl := Option.some.inj same
    exact ⟨parent, children⟩

theorem routeResults_spec (pairs : List (Frame × StageResult)) (s : StageState ρ) :
    wp (routeResults config runner pairs)
      (fun _ s' => Does s [] s' ∧ s'.reservations = s.reservations) (fun _ s' => Does s [] s')
      s := by
  induction pairs generalizing s with
  | nil => exact ⟨.refl s, rfl⟩
  | cons pair pairs ih =>
    have counted : ∀ {t u : StageState ρ}, Does t [] u → t.moves = s.moves → t.areas = s.areas →
        Does s [] u := fun does log areas => ⟨log ▸ does.log, areas ▸ does.areas⟩
    simp only [routeResults, wp_bind, wp_get]
    cases s.frames.find? pair.1.requestId with
    | none => exact Does.refl s
    | some n =>
      simp only [wp_bind, wp_modify, wp_check, send]
      refine ⟨fun out _ => ?_, fun _ _ => ⟨by simp, rfl⟩⟩
      refine wp_mono (ih _) ?_ fun _ t does => counted does rfl rfl
      rintro _ t ⟨does, same⟩
      exact ⟨counted does rfl rfl, same⟩

theorem processActivationFrames_spec :
    wp (processActivationFrames config runner frames)
      (fun _ s' => Does s [.run] s' ∧ SameTree s s') (Raised s .run) s := by
  simp only [processActivationFrames, wp_bind, wp_get, wp_raiseIf, wp_check, shift, wp_modify]
  have run : ∀ t : StageState ρ, t.moves = s.moves ++ [.run] → t.areas = s.areas.move .run →
      Does s [.run] t := fun t log areas => ⟨log, areas⟩
  refine ⟨fun _ => .refl s _ _, fun _ => ⟨fun _ => .refl s _ _, fun _ => ⟨fun _ _ =>
    ⟨fun results _ => ⟨fun _ => .inr (run _ rfl rfl), fun _ => ?_⟩, fun e _ => .refl s _ e⟩,
    fun e _ => .refl s _ e⟩⟩⟩
  refine wp_mono (routeResults_spec config runner _ _) ?_ fun _ t does =>
    .inr ((run _ rfl rfl).trans does)
  rintro _ t ⟨does, same⟩
  exact ⟨(run _ rfl rfl).trans does, .of_eq (by rw [same])⟩

def Move.Ahead : Move → Prop
  | .begin | .join | .aside | .run => True
  | _ => False

def Gathers (s s' : StageState ρ) : Prop :=
  ∃ moves, Does s moves s' ∧ ∀ m ∈ moves, m.Ahead

theorem Gathers.refl (s : StageState ρ) : Gathers s s := ⟨[], .refl s, by simp⟩

theorem Gathers.trans (h : Gathers s s') (h' : Gathers s' s'') : Gathers s s'' := by
  obtain ⟨first, does, ahead⟩ := h
  obtain ⟨second, does', ahead'⟩ := h'
  refine ⟨first ++ second, does.trans does', fun m mem => ?_⟩
  exact (mem_append.mp mem).elim (ahead m) (ahead' m)

theorem Gathers.of_does (ahead : m.Ahead) (does : Does s [m] s') : Gathers s s' :=
  ⟨[m], does, by simpa using ahead⟩

theorem Raised.gathers (ahead : m.Ahead) (h : Raised s m e s') : Gathers s s' :=
  h.elim (fun does => ⟨[], does, by simp⟩) (.of_does ahead)

theorem shift_gathers (ahead : m.Ahead) (s : StageState ρ) :
    wp (shift m) (fun _ s' => Gathers s s' ∧ SameTree s s') E s :=
  ⟨.of_does ahead ⟨rfl, rfl⟩, .of_eq rfl⟩

theorem collect_spec (readable : Nat) (s : StageState ρ) :
    wp (collect config runner first firstKey readable)
      (fun _ s' => Gathers s s' ∧ SameTree s s') (fun _ s' => Gathers s s') s := by
  induction readable generalizing s with
  | zero => exact ⟨.refl s, .of_eq rfl⟩
  | succ readable ih =>
    have again : ∀ {t : StageState ρ}, Gathers s t → SameTree s t →
        wp (collect config runner first firstKey readable)
          (fun _ s' => Gathers s s' ∧ SameTree s s') (fun _ s' => Gathers s s') t := by
      intro t gathers same
      refine wp_mono (ih t) ?_ fun _ _ h => gathers.trans h
      rintro _ t' ⟨gathers', same'⟩
      exact ⟨gathers.trans gathers', same.trans same'⟩
    rw [collect]
    simp only [wp_bind, wp_get]
    cases s.areas.upstream with
    | nil => exact ⟨.refl s, .of_eq rfl⟩
    | cons candidate rest =>
      simp only [wp_ite, wp_pure, wp_bind, wp_check]
      split
      · exact ⟨.refl s, .of_eq rfl⟩
      split
      · exact shift_gathers (m := .aside) trivial s
      refine ⟨fun _ _ => ?_, fun _ _ => .refl s⟩
      split
      · refine wp_mono (beginStageRequest_spec config runner) ?_ fun _ _ h =>
          h.gathers (m := .begin) trivial
        rintro _ t ⟨does, same⟩
        exact again (.of_does (m := .begin) trivial does) same
      split
      · exact shift_gathers (m := .aside) trivial s
      refine ⟨fun joined _ => ?_, fun _ _ => .refl s⟩
      split
      · refine wp_post (shift_gathers (m := .join) (E := fun _ s' => Gathers s s') trivial s) ?_
        rintro _ t ⟨gathers, same⟩
        exact again gathers same
      · exact shift_gathers (m := .aside) trivial s

theorem collectCompatibleActivationFrames_spec :
    wp (collectCompatibleActivationFrames config runner first readable)
      (fun _ s' => Gathers s s' ∧ SameTree s s') (fun _ s' => Gathers s s') s := by
  simp only [collectCompatibleActivationFrames, wp_bind, wp_get, wp_ite, wp_pure]
  split
  · exact ⟨.refl s, .of_eq rfl⟩
  cases batchKey runner s first with
  | none => exact ⟨.refl s, .of_eq rfl⟩
  | some firstKey => exact collect_spec config runner readable s

theorem activate_spec : wp (activate config runner frame source tick)
    (fun _ s' => (∃ t u, Does s [.enter source] t ∧ Gathers t u ∧ Does u [.run] s') ∧ SameTree s s')
    (fun _ s' => Does s [] s' ∨ ∃ t, Does s [.enter source] t ∧ Gathers t s') s := by
  simp only [activate, wp_bind, wp_get, wp_check]
  refine ⟨fun _ _ => ?_, fun _ _ => .inl (.refl s)⟩
  simp only [shift, wp_modify]
  have entered : ∀ t : StageState ρ, t.moves = s.moves ++ [.enter source] →
      t.areas = s.areas.move (.enter source) → Does s [.enter source] t :=
    fun _ log areas => ⟨log, areas⟩
  refine wp_mono (collectCompatibleActivationFrames_spec config runner) ?_ fun _ t h =>
    .inr ⟨_, entered _ rfl rfl, h⟩
  rintro _ t ⟨gathers, same⟩
  refine wp_mono (processActivationFrames_spec config runner) ?_
    fun _ u h => .inr ⟨_, entered _ rfl rfl, gathers.trans (h.gathers (m := .run) trivial)⟩
  rintro _ u ⟨run, same'⟩
  refine wp_mono (consumeTreeReservationVerifies_spec (m := .run)) ?_ fun _ v h =>
    .inr ⟨_, entered _ rfl rfl, gathers.trans ((Gathers.of_does (m := .run) trivial run).trans
      (h.gathers (m := .run) trivial))⟩
  rintro _ v ⟨consumed, same''⟩
  have ran : Does t [.run] v := by simpa using run.trans consumed
  exact ⟨⟨_, t, entered _ rfl rfl, gathers, ran⟩,
    (SameTree.of_eq rfl).trans (same.trans (same'.trans same''))⟩

end Handlers

/-- Between two iterations, a deferred frame is for the runner and for no request of the reserved
tree. -/
structure Inv (s : StageState ρ) : Prop where
  batch : s.areas.batch = []
  runner : ∀ f ∈ s.areas.deferred, runnerRequest f = some f.requestId
  apart : ∀ active, s.reservations.active = some active → ∀ f ∈ s.areas.deferred,
    f.requestId ≠ active.parentRequestId ∧ f.requestId ∉ active.quotedChildren.keys

theorem Inv.init (runner : ρ) (arrivals : List Frame) : Inv (.init runner arrivals) where
  batch := rfl
  runner := by simp [StageState.init, Areas.init]
  apart := by simp [StageState.init, Areas.init]

theorem Inv.frame (inv : Inv s) (same : SameTree s s') (batch : s'.areas.batch = [])
    (deferred : s'.areas.deferred ⊆ s.areas.deferred) : Inv s' where
  batch := batch
  runner := fun f mem => inv.runner f (deferred mem)
  apart := by
    intro active' found f mem
    obtain ⟨active, found, parent, children⟩ := same active' found
    rw [parent, children]
    exact inv.apart active found f (deferred mem)

theorem held_idle (idle : s.reservations.active = none) : s.areas.held s.nextSource = [] := by
  rw [StageState.nextSource, idle]
  split
  · rfl
  next none =>
    have empty : s.areas.deferred = [] := by simpa using none
    split
    · exact empty
    next none => simpa [Areas.held, empty] using none

theorem held_reserved (found : s.reservations.active = some active) :
    s.nextSource ≠ .deferred ∧ s.areas.held s.nextSource = s.areas.deferred := by
  rw [StageState.nextSource, found]
  simp only [Option.isNone_some, Bool.false_eq_true, false_and, if_false]
  split
  · exact ⟨by simp, rfl⟩
  next none =>
    have empty : s.areas.pending = [] := by simpa using none
    exact ⟨by simp, by simp [Areas.held, empty]⟩

theorem validate_reserved (found : s.reservations.active = some active)
    (valid : validateTreeReservationFrameOrder f s.reservations s.lineage.logicalOwners = .ok ()) :
    f.frameType = .fork ∨ runnerRequest f = none ∨ f.requestId ∈ active.quotedChildren.keys := by
  rw [validateTreeReservationFrameOrder, found] at valid
  rw [runnerRequest]
  cases type : f.frameType <;> simp only [type] at valid <;> try simp at valid ⊢
  rw [validateTreeVerify] at valid
  cases child : active.quotedChildren.find? f.requestId with
  | none =>
    simp only [child] at valid
    split at valid
    · split at valid <;> cases valid
    · cases valid
  | some expected => exact Dict.mem_keys_of_find? child

section Iteration

variable (config : StageConfig) (runner : Runner ρ) {f : Frame} (inv : Inv s)
  (front : (s.areas.source s.nextSource).head? = some f)
  (valid : validateTreeReservationFrameOrder f s.reservations s.lineage.logicalOwners = .ok ())

include inv valid in
theorem taken_apart (notFork : f.frameType ≠ .fork) :
    ∀ y ∈ s.areas.held s.nextSource, Apart runnerRequest f y := by
  intro y mem
  cases found : s.reservations.active with
  | none => simp [held_idle found] at mem
  | some active =>
    rw [(held_reserved found).2] at mem
    intro r hf hy
    rcases validate_reserved found valid with fork | none | child
    · exact notFork fork
    · simp [none] at hf
    · have own : f.requestId = r := by
        rw [runnerRequest] at hf
        split at hf <;> simp_all
      have other : y.requestId = r := by simpa [inv.runner y mem] using hy
      exact (inv.apart active found y mem).2 (other.trans own.symm ▸ child)

def Tame (a : Areas) (moves : List Move) : Prop := a.All (fun a m => a.Keeps m → a.Clean m) moves

theorem Tame.ahead (ahead : ∀ m ∈ moves, m.Ahead) : Tame a moves := by
  induction moves generalizing a with
  | nil => trivial
  | cons m moves ih =>
    refine ⟨?_, ih fun m mem => ahead m (mem_cons_of_mem _ mem)⟩
    cases m with
    | begin => exact Areas.Keeps.begin
    | join => exact Areas.Keeps.join
    | aside => exact Areas.Keeps.aside
    | run => exact fun _ => a.clean_run
    | _ => exact (ahead _ mem_cons_self).elim

/-- The end of an iteration, also by a raise: its moves are told, and tame under the invariant. -/
def Ends (s s' : StageState ρ) : Prop :=
  ∃ moves, Does s moves s' ∧ (Inv s → Tame s.areas moves ∧ (s.areas.All Areas.Keeps moves → Inv s'))

def Breaks (s s' : StageState ρ) : Prop := ∃ moves, Does s moves s' ∧ (Inv s → Tame s.areas moves)

theorem Breaks.refl (s : StageState ρ) : Breaks s s := ⟨[], .refl s, fun _ => trivial⟩

theorem Does.single (does : Does s [m] s') : s'.areas = s.areas.move m := does.areas

theorem Does.shift (does : Does s [] s') :
    Does s [m] { s' with areas := s'.areas.move m, moves := s'.moves ++ [m] } where
  log := by rw [does.log, append_nil]
  areas := by rw [does.areas]; rfl

theorem pop_deferred_subset (a : Areas) (source : Source) :
    (a.pop source).deferred ⊆ a.deferred := by
  cases source with
  | deferred => exact tail_subset _
  | pending | upstream => exact fun _ mem => mem

theorem pop_batch (a : Areas) (source : Source) : (a.pop source).batch = a.batch := by
  cases source <;> rfl

theorem replay_ahead_deferred (ahead : ∀ m ∈ moves, m.Ahead) :
    (a.replay moves).deferred = a.deferred := by
  induction moves generalizing a with
  | nil => rfl
  | cons m moves ih =>
    refine (ih fun m mem => ahead m (mem_cons_of_mem _ mem)).trans ?_
    cases m with
    | begin | join | aside | run => rfl
    | _ => exact (ahead _ mem_cons_self).elim

section Front

include front

theorem front_take : (s.areas.source s.nextSource).take 1 = [f] := by
  cases h : s.areas.source s.nextSource with
  | nil => simp [h] at front
  | cons x xs =>
    obtain rfl : x = f := by simpa [h] using front
    rfl

theorem clean_skip (control : runnerRequest f = none) : s.areas.Clean (.skip s.nextSource) := by
  refine ⟨by simp [Areas.passed], ?_⟩
  intro x mem
  rw [Areas.dropped, front_take front, mem_singleton] at mem
  exact mem ▸ control

theorem Ends.skip (control : runnerRequest f = none) (does : Does s [.skip s.nextSource] s')
    (same : SameTree s s') : Ends s s' := by
  refine ⟨_, does, fun inv => ⟨⟨fun _ => clean_skip front control, trivial⟩, fun _ =>
    inv.frame same ?_ ?_⟩⟩
  · rw [does.single]
    exact (pop_batch ..).trans inv.batch
  · rw [does.single]
    exact pop_deferred_subset s.areas s.nextSource

theorem Breaks.skip (control : runnerRequest f = none) (h : Raised s (.skip s.nextSource) e s') :
    Breaks s s' :=
  h.elim (fun does => ⟨[], does, fun _ => trivial⟩)
    fun does => ⟨_, does, fun _ => ⟨fun _ => clean_skip front control, trivial⟩⟩

theorem ping_ends (type : f.frameType = .ping) : wp (ping config f s.nextSource)
    (fun _ s' => Ends s s') (fun _ s' => Breaks s s') s := by
  have control : runnerRequest f = none := by simp [runnerRequest, type]
  simp only [ping, wp_bind, wp_raiseIf, shift, send, wp_modify]
  refine ⟨fun _ => .refl s, fun _ => ?_⟩
  exact Ends.skip front control ⟨rfl, rfl⟩ (.of_eq rfl)

theorem shutdown_ends (type : f.frameType = .shutdown) : wp (shutdown config f s.nextSource)
    (fun _ s' => Ends s s') (fun _ s' => Breaks s s') s := by
  have control : runnerRequest f = none := by simp [runnerRequest, type]
  have batch : ((s.areas.move (.skip s.nextSource)).move .stop).batch = s.areas.batch :=
    pop_batch ..
  have tame : Tame s.areas [.skip s.nextSource, .stop] :=
    ⟨fun _ => clean_skip front control, Areas.Keeps.stop, trivial⟩
  simp only [shutdown, wp_bind, shift, setActive, send, wp_modify, wp_ite]
  split <;>
  · refine ⟨[.skip s.nextSource, .stop], ⟨by simp, rfl⟩, fun inv => ⟨tame, fun _ =>
      ⟨batch.trans inv.batch, ?_, ?_⟩⟩⟩
    · exact fun f mem => absurd mem not_mem_nil
    · exact fun _ _ f mem => absurd mem not_mem_nil

theorem prepare_ends (type : f.frameType = .treePrepare) :
    wp (prepareTreeCapacity config runner f later >>= fun _ => shift (.skip s.nextSource))
      (fun _ s' => Ends s s') (fun _ s' => Breaks s s') s := by
  have control : runnerRequest f = none := by simp [runnerRequest, type]
  rw [wp_bind]
  refine wp_mono (prepareTreeCapacity_spec config runner) ?_ fun _ _ h =>
    Breaks.skip front control h
  rintro _ t ⟨does, idle, fresh⟩
  refine ⟨_, does.shift, fun inv => ⟨⟨fun _ => clean_skip front control, trivial⟩, fun _ => ?_⟩⟩
  have empty : s.areas.deferred = [] := by
    by_contra some
    have source : s.nextSource = .deferred := by simp [StageState.nextSource, idle, some]
    rw [source] at front
    have own := inv.runner f (mem_of_head? front)
    simp [control] at own
  have gone : (t.areas.move (.skip s.nextSource)).deferred = [] := by
    rw [does.areas]
    exact subset_nil.mp (empty ▸ pop_deferred_subset s.areas s.nextSource)
  refine ⟨?_, fun f mem => ?_, fun active _ f mem => ?_⟩
  · change (t.areas.move (.skip s.nextSource)).batch = []
    rw [does.areas]
    exact (pop_batch ..).trans inv.batch
  · change f ∈ (t.areas.move (.skip s.nextSource)).deferred at mem
    simp [gone] at mem
  · change f ∈ (t.areas.move (.skip s.nextSource)).deferred at mem
    simp [gone] at mem

theorem Ends.defer (deferred : treeReservationDefersFrame f s.reservations = true)
    (does : Does s [.defer s.nextSource] s') (same : s'.reservations = s.reservations) :
    Ends s s' := by
  rw [treeReservationDefersFrame] at deferred
  cases found : s.reservations.active with
  | none => simp [found] at deferred
  | some active =>
    obtain ⟨notDeferred, held⟩ := held_reserved found
    simp only [found] at deferred
    split at deferred
    · cases deferred
    next other =>
    have own : runnerRequest f = some f.requestId := by
      rw [runnerRequest]
      cases type : f.frameType <;> simp [type] at deferred ⊢
    have behind : s'.areas.batch = s.areas.batch ∧ s'.areas.deferred = s.areas.deferred ++ [f] := by
      have taken := front_take front
      rw [does.single, Areas.move, Areas.deferFrom, taken]
      cases source : s.nextSource with
      | deferred => exact absurd source notDeferred
      | pending | upstream => exact ⟨rfl, rfl⟩
    have passed : s.areas.passed (.defer s.nextSource) = [] := by
      cases source : s.nextSource with
      | deferred => exact absurd source notDeferred
      | pending => rfl
      | upstream =>
        have empty : s.areas.pending = [] := by simpa [source, Areas.held] using held
        exact empty
    refine ⟨_, does, fun inv => ⟨⟨fun _ => ⟨by simp [passed], by simp [Areas.dropped]⟩, trivial⟩,
        fun _ =>
      ⟨behind.1.trans inv.batch, fun y mem => ?_, fun active' found' y mem => ?_⟩⟩⟩
    · rw [behind.2, mem_append, mem_singleton] at mem
      rcases mem with mem | rfl
      · exact inv.runner y mem
      · exact own
    rw [same, found] at found'
    obtain rfl := Option.some.inj found'
    rw [behind.2, mem_append, mem_singleton] at mem
    rcases mem with mem | rfl
    · exact inv.apart active found y mem
    · exact not_or.mp other

include valid

theorem clean_apply (inv : Inv s) (keeps : s.areas.Keeps (.apply s.nextSource)) :
    s.areas.Clean (.apply s.nextSource) := by
  refine ⟨?_, by simp [Areas.dropped]⟩
  intro x mem y hy
  simp only [Areas.passed, inv.batch, nil_append] at hy
  have mem' := mem
  rw [Move.source, front_take front, mem_singleton] at mem'
  subst mem'
  by_cases fork : x.frameType = .fork
  · exact keeps x mem fork y hy
  · exact taken_apart inv valid fork y hy

theorem clean_enter (inv : Inv s) (notFork : f.frameType ≠ .fork) :
    s.areas.Clean (.enter s.nextSource) := by
  refine ⟨?_, by simp [Areas.dropped]⟩
  intro x mem y hy
  rw [Move.source, front_take front, mem_singleton] at mem
  subst mem
  exact taken_apart inv valid notFork y hy

theorem Ends.apply (does : Does s [.apply s.nextSource] s') (same : SameTree s s') : Ends s s' := by
  refine ⟨_, does, fun inv => ⟨⟨clean_apply front valid inv, trivial⟩,
    fun _ => inv.frame same ?_ ?_⟩⟩
  · rw [does.single]
    exact (pop_batch ..).trans inv.batch
  · rw [does.single]
    exact pop_deferred_subset s.areas s.nextSource

theorem Breaks.apply (h : Raised s (.apply s.nextSource) e s') : Breaks s s' :=
  h.elim (fun does => ⟨[], does, fun _ => trivial⟩)
    fun does => ⟨_, does, fun inv => ⟨clean_apply front valid inv, trivial⟩⟩

theorem fork_ends (type : f.frameType = .fork) :
    wp (forkStageRequest config runner f (.apply s.nextSource) later)
      (fun _ s' => Ends s s') (fun _ s' => Breaks s s') s := by
  refine wp_mono (forkStageRequest_spec config runner) ?_ fun _ _ h => Breaks.apply front valid h
  rintro _ t ⟨does, active, found, tree⟩
  obtain ⟨notDeferred, held⟩ := held_reserved found
  have kept : t.areas.deferred ⊆ s.areas.deferred := by
    rw [does.single]
    exact pop_deferred_subset s.areas s.nextSource
  refine ⟨_, does, fun inv => ⟨⟨clean_apply front valid inv, trivial⟩, fun keeps => ⟨?_, ?_, ?_⟩⟩⟩
  · rw [does.single]
    exact (pop_batch ..).trans inv.batch
  · exact fun y mem => inv.runner y (kept mem)
  · intro active' found' y mem
    obtain ⟨parent, children⟩ := tree active' found'
    have old := inv.apart active found y (kept mem)
    rw [parent]
    refine ⟨old.1, fun quoted => ?_⟩
    rcases children _ quoted with own | quoted
    · have apart :=
        keeps.1 f (by rw [front_take front]; exact mem_singleton_self f) type y
          (held.symm ▸ kept mem)
      exact apart f.requestId (by simp [runnerRequest, type]) (own ▸ inv.runner y (kept mem))
    · exact old.2 quoted

theorem activate_ends (notFork : f.frameType ≠ .fork) :
    wp (activate config runner f s.nextSource tick)
      (fun _ s' => Ends s s') (fun _ s' => Breaks s s') s := by
  have tame : ∀ {moves : List Move}, (∀ m ∈ moves, m.Ahead) → Inv s →
      Tame s.areas ([.enter s.nextSource] ++ moves) := fun ahead inv =>
    ⟨fun _ => clean_enter front valid inv notFork, Tame.ahead ahead⟩
  refine wp_mono (activate_spec config runner) ?_ ?_
  · rintro _ v ⟨⟨t, u, entered, ⟨moves, gathered, ahead⟩, run⟩, same⟩
    have all : ∀ m ∈ moves ++ [.run], m.Ahead := by
      intro m mem
      rcases mem_append.mp mem with mem | mem
      · exact ahead m mem
      · obtain rfl := mem_singleton.mp mem
        trivial
    refine ⟨_, entered.trans (gathered.trans run), fun inv => ⟨tame all inv, fun _ =>
      inv.frame same ?_ ?_⟩⟩
    · rw [run.single]
      rfl
    · rw [(gathered.trans run).areas, replay_ahead_deferred all, entered.single]
      exact pop_deferred_subset s.areas s.nextSource
  · rintro _ v (does | ⟨t, entered, moves, gathered, ahead⟩)
    · exact ⟨[], does, fun _ => trivial⟩
    · exact ⟨_, entered.trans gathered, tame ahead⟩

theorem handle_ends : wp (handle config runner f s.nextSource tick)
    (fun _ s' => Ends s s') (fun _ s' => Breaks s s') s := by
  have applied : ∀ {h : StageM ρ Unit}, wp h (fun _ s' => Does s [.apply s.nextSource] s' ∧
      SameTree s s') (Raised s (.apply s.nextSource)) s →
      wp h (fun _ s' => Ends s s') (fun _ s' => Breaks s s') s := fun spec =>
    wp_mono spec (fun _ _ h => Ends.apply front valid h.1 h.2) fun _ _ h =>
      Breaks.apply front valid h
  have skipped : ∀ {h : StageM ρ Unit}, runnerRequest f = none →
      wp h (fun _ s' => Does s [] s' ∧ SameTree s s') (Raised s (.skip s.nextSource)) s →
      wp (h >>= fun _ => shift (.skip s.nextSource)) (fun _ s' => Ends s s')
        (fun _ s' => Breaks s s') s := by
    intro h control spec
    rw [wp_bind]
    refine wp_mono spec ?_ fun _ _ h => Breaks.skip front control h
    rintro _ t ⟨does, same⟩
    exact Ends.skip front control does.shift (same.trans (.of_eq rfl))
  have thrown : ∀ e : StageError, wp (throw e : StageM ρ Unit) (fun _ s' => Ends s s')
      (fun _ s' => Breaks s s') s := fun e => .refl s
  rw [handle]
  cases type : f.frameType with
  | begin => exact applied (beginStageRequest_spec config runner)
  | treePrepare => exact prepare_ends config runner front type
  | treeReservationCommit =>
    exact skipped (by simp [runnerRequest, type]) (commitTreeReservation_spec config runner)
  | treeReservationCancel =>
    exact skipped (by simp [runnerRequest, type]) (cancelTreeReservation_spec config)
  | fork => exact fork_ends config runner front valid type
  | promote => exact applied (promoteStageRequest_spec config runner)
  | activation | prefill | verify | samplingVerify =>
    exact activate_ends config runner front valid (by simp [type])
  | truncate => exact applied (truncate_spec config runner)
  | «end» | cancel => exact applied (endStageRequest_spec config runner)
  | ping => exact ping_ends config front type
  | shutdown => exact shutdown_ends config front type
  | _ => exact thrown _

end Front

theorem expireTreeReservation_spec (now : ℚ) : wp (expireTreeReservation now)
    (fun _ t => t.areas = s.areas ∧ t.moves = s.moves ∧ SameTree s t) (fun _ s' => Breaks s s')
    s := by
  simp only [expireTreeReservation, wp_bind, wp_get]
  cases s.reservations.active with
  | none =>
    rw [wp_pure]
    exact ⟨rfl, rfl, .of_eq rfl⟩
  | some active =>
    rw [wp_ite]
    split
    · rw [wp_pure]
      exact ⟨rfl, rfl, .of_eq rfl⟩
    · rw [wp_bind, wp_raiseIf]
      exact ⟨fun _ => .refl s, fun _ => ⟨rfl, rfl, .of_none rfl⟩⟩

theorem iterate_ends (s : StageState ρ) (tick : Tick) : wp (iterate config runner tick)
    (fun _ s' => Ends s s') (fun _ s' => Breaks s s') s := by
  rw [iterate, wp_bind]
  refine wp_post (expireTreeReservation_spec tick.now) ?_
  rintro _ t ⟨areas, log, same⟩
  have inv' : Inv s → Inv t := fun inv =>
    inv.frame same (areas ▸ inv.batch) (areas ▸ List.Subset.refl _)
  have ends : ∀ {s'}, Ends t s' → Ends s s' := by
    rintro s' ⟨moves, does, outcome⟩
    exact ⟨moves, ⟨log ▸ does.log, areas ▸ does.areas⟩, fun inv => areas ▸ outcome (inv' inv)⟩
  have breaks : ∀ {s'}, Breaks t s' → Breaks s s' := by
    rintro s' ⟨moves, does, tame⟩
    exact ⟨moves, ⟨log ▸ does.log, areas ▸ does.areas⟩, fun inv => areas ▸ tame (inv' inv)⟩
  simp only [wp_bind, wp_get]
  cases front : (t.areas.source t.nextSource).head? with
  | none => exact ends ⟨[], .refl t, fun inv => ⟨trivial, fun _ => inv⟩⟩
  | some f =>
    simp only [wp_ite, wp_bind, wp_check]
    split
    next deferred => exact ends (Ends.defer front deferred ⟨rfl, rfl⟩ rfl)
    · refine ⟨fun _ valid => ?_, fun _ _ => breaks (.refl t)⟩
      exact wp_mono (handle_ends config runner front valid) (fun _ _ => ends) fun _ _ => breaks

end Iteration

section Run

variable (config : StageConfig) (runner : Runner ρ) {arrivals : List Frame}

theorem All.tame (tame : Tame a moves) (keeps : a.All Areas.Keeps moves) :
    a.All Areas.Clean moves := by
  induction moves generalizing a with
  | nil => trivial
  | cons m moves ih => exact ⟨tame.1 keeps.1, ih tame.2 keeps.2⟩

/-- The state of a run: its areas are what its moves have made of the arrivals. -/
structure Good (arrivals : List Frame) (s : StageState ρ) : Prop where
  replayed : s.areas = (Areas.init arrivals).replay s.moves
  clean : (Areas.init arrivals).All Areas.Keeps s.moves →
    (Areas.init arrivals).All Areas.Clean s.moves
  inv : (Areas.init arrivals).All Areas.Keeps s.moves → s.halted = false → Inv s

theorem Good.does (good : Good arrivals s) (running : s.halted = false)
    (does : Does s moves s') (tame : Inv s → Tame s.areas moves)
    (inv : Inv s → s.areas.All Areas.Keeps moves → s'.halted = false → Inv s') :
    Good arrivals s' := by
  have split : ∀ P, (Areas.init arrivals).All P s'.moves ↔
      (Areas.init arrivals).All P s.moves ∧ s.areas.All P moves := by
    intro P
    rw [does.log, Areas.all_append, ← good.replayed]
  refine ⟨?_, fun keeps => ?_, fun keeps => ?_⟩
  · rw [does.areas, does.log, Areas.replay_append, ← good.replayed]
  · obtain ⟨old, new⟩ := (split _).mp keeps
    exact (split _).mpr ⟨good.clean old, All.tame (tame (good.inv old running)) new⟩
  · obtain ⟨old, new⟩ := (split _).mp keeps
    exact inv (good.inv old running) new

theorem step_good (good : Good arrivals s) (tick : Tick) :
    Good arrivals (step config runner s tick).1 := by
  rw [step]
  cases running : s.halted with
  | true => exact good
  | false =>
    have spec := iterate_ends config runner s tick
    unfold wp at spec
    cases result : iterate config runner tick s with
    | ok a t =>
      rw [result] at spec
      obtain ⟨moves, does, outcome⟩ := spec
      exact good.does running does (fun inv => (outcome inv).1) fun inv keeps _ =>
        (outcome inv).2 keeps
    | error e t =>
      rw [result] at spec
      obtain ⟨moves, does, tame⟩ := spec
      refine good.does running ⟨does.log, does.areas⟩ tame fun _ _ halted => ?_
      cases halted

theorem final_good (start : ρ) (arrivals : List Frame) (ticks : List Tick) :
    Good arrivals (final (step config runner) (.init start arrivals) ticks) := by
  apply final_invariant (P := Good arrivals) fun s tick good => step_good config runner good tick
  exact ⟨rfl, fun _ => trivial, fun _ _ => Inv.init start arrivals⟩

theorem Areas.InOrder.applied (h : a.InOrder arrivals) (r : Nat) :
    lane runnerRequest r a.applied <+: lane runnerRequest r arrivals := by
  rw [← h r]
  simp only [Areas.order, lane_append, append_assoc]
  exact prefix_append _ _

/-- The frames of each request stay in order, none twice and none lost, exactly when the moves
respect what is held; then what was applied for a request is a beginning of what arrived for it. -/
theorem frames_apply_in_arrival_order_iff (start : ρ) (distinct : arrivals.Nodup)
    (ticks : List Tick) :
    let s := final (step config runner) (.init start arrivals) ticks
    s.areas = (Areas.init arrivals).replay s.moves ∧
      ((∀ before, before <+: s.moves → ((Areas.init arrivals).replay before).InOrder arrivals) ↔
        (Areas.init arrivals).All Areas.Keeps s.moves) ∧
      ((Areas.init arrivals).All Areas.Keeps s.moves → ∀ r,
        lane runnerRequest r s.areas.applied <+: lane runnerRequest r arrivals) := by
  intro s
  have good := final_good config runner start arrivals ticks
  have order : (Areas.init arrivals).order = arrivals := by simp [Areas.order, Areas.init]
  have inOrder : (Areas.init arrivals).InOrder arrivals := by
    rw [Areas.InOrder, order]
    exact .refl arrivals
  have clean := Areas.inOrder_iff_clean (order.symm ▸ distinct) inOrder s.moves
  refine ⟨good.replayed, ?_, fun keeps r => ?_⟩
  · rw [clean]
    exact ⟨.mono fun _ _ => Areas.Clean.keeps, good.clean⟩
  have now := clean.mpr (good.clean keeps) s.moves (prefix_refl _)
  rw [← good.replayed] at now
  exact now.applied r

/-- A frame is never in two places, nor applied more often than it arrives. -/
theorem frames_applied_once (start : ρ) (arrivals : List Frame) (ticks : List Tick) (f : Frame) :
    (final (step config runner) (.init start arrivals) ticks).areas.order.count f ≤
    arrivals.count f := by
  rw [(final_good config runner start arrivals ticks).replayed]
  refine (Areas.replay_count_le _ _ f).trans_eq ?_
  simp [Areas.order, Areas.init]

end Run

def idleRunner : Runner Unit where
  hiddenSize := 4
  batches := true
  certified := true
  begin _ s := .ok s
  forward frames s := .ok (frames.map fun _ => ⟨1, 4, [], .one 0⟩, s)
  samplingLogits := none
  truncate _ _ s := .ok s
  finish _ s := .ok s
  forkRequest _ _ _ s := .ok (0, s)
  promoteRequest _ _ s := .ok s
  sequenceLength _ _ := .ok 1
  physicalBatchKey _ _ _ _ := some 0
  requestCacheBytes _ _ := .ok 1
  projectRequestCacheBytes _ _ _ := .ok 1
  uniquePhysicalCacheBytes := none
  availablePhysicalCacheBytes := none
  projectTreeIncremental := none
  projectRequestIncremental := none
  lastForkReport := none

def twoFrameConfig : StageConfig where
  pipelineId := 9
  layerStart := 0
  hasNext := false
  codec := 0
  sealedWaveTokens := none
  maxPrefillChunkTokens := none
  maxPhysicalBatchSize := 2
  maxSpeculativeBranches := 4
  maxSpeculativeBranchTokens := 8
  maxSpeculativeKvBytes := 64

/-- While a tree of request 1 is quoted and cancelled, an activation of 3 and a TRUNCATE of 2 are
deferred, and an activation of 2 comes after. -/
def cancelledTree : List Frame :=
  let quote := (encodeTreePrepareQuote { nonce := 5, pathLengths := [1] }).toOption.getD []
  [⟨.begin, 0, 1, 0, 0, 0, [], 1⟩,
    ⟨.begin, 0, 2, 0, 0, 0, [], 2⟩,
    ⟨.begin, 0, 3, 0, 0, 0, [], 3⟩,
    ⟨.treePrepare, 0, 1, 0, 1, 0, quote, 4⟩,
    ⟨.activation, 0, 3, 0, 1, 4, [], 5⟩,
    ⟨.truncate, 0, 2, 0, 0, 0, [], 6⟩,
    ⟨.treeReservationCancel, 0, 1, 0, 0, 0, packWord 8 5, 7⟩,
    ⟨.activation, 0, 2, 0, 1, 4, [], 8⟩]

theorem cancelled_tree_in_order :
    lane runnerRequest 2 (final (step twoFrameConfig idleRunner) (.init () cancelledTree)
      (List.replicate 9 ⟨0, 0, 0⟩)).areas.applied <+: lane runnerRequest 2 cancelledTree :=
  (frames_apply_in_arrival_order_iff twoFrameConfig idleRunner () (by decide +kernel) _).2.2
    (by decide +kernel) 2

/-- The activation of 2 joins the batch of 3 and is applied before the earlier TRUNCATE. -/
theorem activation_overtakes_deferred_truncate :
    ((lane runnerRequest 2 (final (step twoFrameConfig idleRunner) (.init () cancelledTree)
      (List.replicate 9 ⟨0, 0, 1⟩)).areas.applied).map fun f => (f.frameType, f.sequence)) =
        [(.begin, 2), (.activation, 8), (.truncate, 6)] ∧
      ((lane runnerRequest 2 cancelledTree).map fun f => (f.frameType, f.sequence)) =
        [(.begin, 2), (.truncate, 6), (.activation, 8)] := by
  decide +kernel

end Mycellios.Stage
