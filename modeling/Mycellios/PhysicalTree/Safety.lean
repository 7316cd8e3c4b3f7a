import Mycellios.Logic.Machine
import Mycellios.PhysicalTree.Operations

namespace Mycellios.PhysicalTree

open Data Logic MacroWave

def events (c : Coordinator) : Call → Except TreeError Answer → List Event
  | .prepareWave args, .ok (.wave ref) => [.prepared ref (args.virtualRequestIds.map Int.toNat)]
  | .nextForkCommand _, .ok (.fork command) =>
    (command.map fun command => Event.fork command.childRequestId).toList
  | .nextVerifyCommand .., .ok (.verify command) =>
    (command.map fun command => Event.verify command.requestId).toList
  | .acceptVerifyResult id .., .ok (.result result) => result.events (c.routedWave id.toNat)
  | .confirmCleanupCommand parent command, .ok (.confirmed cancel) =>
    command.events (c.registeredWave parent.toNat) ++
      (cancel.map fun _ => Event.cancelled (c.registeredWave parent.toNat)).toList
  | .requestCancel parent, .ok (.cancellation plan) => plan.events (c.registeredWave parent.toNat)
  | .abortBeforeWire parent _, .ok (.abort plan) => plan.events (c.registeredWave parent.toNat)
  | .checkTimeouts _, .ok (.timeouts plans) =>
    plans.flatMap fun plan => plan.events (c.registeredWave plan.parentRequestId)
  | _, _ => []

def history (c : Coordinator) (calls : List Call) : List Event :=
  (trace step c calls).flatMap fun t => events t.pre t.input t.output

variable {c c' : Coordinator} {ref : WaveRef} {w : Wave} {h : List Event}

theorem run_of_spec {α : Type} {m : CoordinatorM α} {f : α → List Event} {g : α → Answer}
    (ev : Except TreeError Answer → List Event)
    (spec : wp m (fun a c' => Run Move c (f a) c') (Silent c) c) (hok : ∀ a, ev (.ok (g a)) = f a)
    (herror : ∀ e, ev (.error e) = []) :
    Run Move c (ev (answer (g <$> m) c)) (after (g <$> m) c) := by
  have spec' : wp (g <$> m) (fun a c' => Run Move c (ev (.ok a)) c')
      (fun e c' => Run Move c (ev (.error e)) c') c := by
    rw [wp_map]
    refine wp_mono spec (fun a c' run => ?_) fun e c' run => ?_
    · rwa [hok]
    · rwa [herror]
  obtain ⟨ok, error⟩ := (wp_iff _ _ _ _).mp spec'
  cases ha : answer (g <$> m) c with
  | ok a => exact ok a ha
  | error e => exact error e ha

theorem step_run (inv : Inv c) (call : Call) :
    Run Move c (events c call (step c call).2) (step c call).1 := by
  cases call with
  | prepareWave args =>
    exact run_of_spec (events c _) (prepareWave_spec args) (fun _ => rfl) fun _ => rfl
  | nextForkCommand p =>
    exact run_of_spec (events c _) (nextForkCommand_spec inv p) (fun _ => rfl) fun _ => rfl
  | nextVerifyCommand p now =>
    exact run_of_spec (events c _) (nextVerifyCommand_spec inv p now) (fun _ => rfl) fun _ => rfl
  | acceptVerifyResult id s targets now =>
    have spec := acceptVerifyResult_spec inv id s targets now
    exact run_of_spec (events c _) (wp_post spec fun _ _ => And.left) (fun _ => rfl) fun _ => rfl
  | confirmCleanupCommand p command =>
    exact run_of_spec (events c _) (confirmCleanupCommand_spec inv p command) (fun _ => rfl)
      fun _ => rfl
  | requestCancel p =>
    exact run_of_spec (events c _) (requestCancel_spec inv p) (fun _ => rfl) fun _ => rfl
  | abortBeforeWire p reason =>
    exact run_of_spec (events c _) (abortBeforeWire_spec inv p reason) (fun _ => rfl) fun _ => rfl
  | checkTimeouts now =>
    exact run_of_spec (events c _) (checkTimeouts_spec inv now) (fun _ => rfl) fun _ => rfl
  | retireWave p =>
    exact run_of_spec (events c (.retireWave p)) (retireWave_spec inv p) (fun _ => rfl) fun _ => rfl
  | changeTree tree t => exact .single (.tree c _)

theorem step_inv (inv : Inv c) (call : Call) : Inv (step c call).1 :=
  (step_run inv call).invariant (fun _ _ _ => Move.inv) inv

theorem final_inv (trees : TreeRef → Tree) (calls : List Call) :
    Inv (final step (Coordinator.init trees) calls) :=
  final_invariant (P := Inv) (fun _ call inv => step_inv inv call) (Inv.init trees) calls

section History

variable {trees : TreeRef → Tree} (run : Run Move (Coordinator.init trees) h c)

include run

end History

/-- Waves, leaves and routes refer to each other, and each wave is as its phase says. -/
theorem waves_stay_consistent (trees : TreeRef → Tree) (calls : List Call) :
    let c := final step (Coordinator.init trees) calls
    Linked c ∧ ∀ ref w, c.waves.find? ref = some w → Consistent c w :=
  ⟨(final_inv trees calls).toLinked, (final_inv trees calls).wave⟩

end Mycellios.PhysicalTree
