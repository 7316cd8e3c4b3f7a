import Mycellios.Data.Lanes
import Mycellios.Protocol.Frame

namespace Mycellios.Stage

open Data List Protocol

/-- The request whose state in the runner a frame changes. -/
def runnerRequest (frame : Frame) : Option Nat :=
  match frame.frameType with
  | .begin | .activation | .prefill | .verify | .samplingVerify | .truncate | .end | .cancel
  | .fork | .promote => some frame.requestId
  | _ => none

inductive Source
  | deferred | pending | upstream

structure Areas where
  (applied batch deferred pending upstream : List Frame)

/-- The loop takes a frame from a source and defers it, applies it, opens a batch with it, or skips
it. With a batch open it reads ahead: a BEGIN is applied, another frame joins or is set aside. The
batch is run, and SHUTDOWN drops what is held. -/
inductive Move
  | defer (source : Source)
  | apply (source : Source)
  | enter (source : Source)
  | skip (source : Source)
  | begin | join | aside | run | stop

def Areas.init (arrivals : List Frame) : Areas := ⟨[], [], [], [], arrivals⟩

def Areas.source (a : Areas) : Source → List Frame
  | .deferred => a.deferred
  | .pending => a.pending
  | .upstream => a.upstream

def Areas.pop (a : Areas) : Source → Areas
  | .deferred => { a with deferred := a.deferred.tail }
  | .pending => { a with pending := a.pending.tail }
  | .upstream => { a with upstream := a.upstream.tail }

def Areas.deferFrom (a : Areas) (source : Source) : Areas :=
  { a.pop source with deferred := (a.pop source).deferred ++ (a.source source).take 1 }

def Areas.applyFrom (a : Areas) (source : Source) : Areas :=
  { a.pop source with applied := a.applied ++ (a.source source).take 1 }

def Areas.enterFrom (a : Areas) (source : Source) : Areas :=
  { a.pop source with batch := a.batch ++ (a.source source).take 1 }

def Areas.move (a : Areas) : Move → Areas
  | .defer source => a.deferFrom source
  | .apply source => a.applyFrom source
  | .enter source => a.enterFrom source
  | .skip source => a.pop source
  | .begin => a.applyFrom .upstream
  | .join => a.enterFrom .upstream
  | .aside => { a.pop .upstream with pending := a.upstream.take 1 ++ a.pending }
  | .run => { a with applied := a.applied ++ a.batch, batch := [] }
  | .stop => { a with deferred := [], pending := [] }

def Areas.replay (a : Areas) (moves : List Move) : Areas := moves.foldl Areas.move a

theorem Areas.replay_append (a : Areas) (first second : List Move) :
    a.replay (first ++ second) = (a.replay first).replay second := foldl_append ..

def Areas.All (P : Areas → Move → Prop) (a : Areas) : List Move → Prop
  | [] => True
  | m :: moves => P a m ∧ (a.move m).All P moves

instance Areas.decidableAll (P : Areas → Move → Prop) [∀ a m, Decidable (P a m)] (a : Areas) :
    (moves : List Move) → Decidable (a.All P moves)
  | [] => .isTrue trivial
  | m :: moves => @instDecidableAnd _ _ _ (Areas.decidableAll P (a.move m) moves)

theorem Areas.all_append (P : Areas → Move → Prop) (a : Areas) (first second : List Move) :
    a.All P (first ++ second) ↔ a.All P first ∧ (a.replay first).All P second := by
  induction first generalizing a with
  | nil => simp [All, replay]
  | cons m first ih => simp [All, ih, replay, and_assoc]

theorem Areas.All.mono {P Q : Areas → Move → Prop} {a : Areas}
    (h : ∀ a m, P a m → Q a m) (all : a.All P moves) : a.All Q moves := by
  induction moves generalizing a with
  | nil => trivial
  | cons m moves ih => exact ⟨h _ _ all.1, ih all.2⟩

/-- The frames in the order in which the loop will apply them if nothing is read ahead. -/
def Areas.order (a : Areas) : List Frame :=
  a.applied ++ a.batch ++ a.deferred ++ a.pending ++ a.upstream

def Areas.InOrder (a : Areas) (arrivals : List Frame) : Prop :=
  SameLanes runnerRequest a.order arrivals

def Areas.held (a : Areas) : Source → List Frame
  | .deferred => []
  | .pending => a.deferred
  | .upstream => a.deferred ++ a.pending

def Areas.passed (a : Areas) : Move → List Frame
  | .defer .deferred => a.deferred.tail
  | .defer .pending => []
  | .defer .upstream => a.pending
  | .apply source => a.batch ++ a.held source
  | .enter source => a.held source
  | .begin => a.batch ++ a.held .upstream
  | .join => a.held .upstream
  | .aside => a.pending
  | _ => []

def Areas.dropped (a : Areas) : Move → List Frame
  | .skip source => (a.source source).take 1
  | .stop => a.deferred ++ a.pending
  | _ => []

def Move.source : Move → Source
  | .defer source | .apply source | .enter source | .skip source => source
  | _ => .upstream

/-- Nothing passes a frame of its own request, and nothing for the runner is dropped. -/
def Areas.Clean (a : Areas) (m : Move) : Prop :=
  (∀ f ∈ (a.source m.source).take 1, ∀ y ∈ a.passed m, Apart runnerRequest f y) ∧
    ∀ f ∈ a.dropped m, runnerRequest f = none

theorem Areas.move_count_le (a : Areas) (m : Move) (f : Frame) :
    (a.move m).order.count f ≤ a.order.count f := by
  have split : ∀ xs : List Frame, xs.count f = (xs.take 1).count f + xs.tail.count f := by
    intro xs
    cases xs with
    | nil => rfl
    | cons x xs => simp [count_cons, Nat.add_comm]
  have hd := split a.deferred
  have hp := split a.pending
  have hu := split a.upstream
  cases m with
  | defer source =>
    cases source <;> simp only [order, move, deferFrom, pop, Areas.source, count_append] <;> omega
  | apply source =>
    cases source <;> simp only [order, move, applyFrom, pop, Areas.source, count_append] <;> omega
  | enter source =>
    cases source <;> simp only [order, move, enterFrom, pop, Areas.source, count_append] <;> omega
  | skip source => cases source <;> simp only [order, move, pop, count_append] <;> omega
  | begin => simp only [order, move, applyFrom, pop, Areas.source, count_append]; omega
  | join => simp only [order, move, enterFrom, pop, Areas.source, count_append]; omega
  | aside => simp only [order, move, pop, count_append]; omega
  | run | stop => simp only [order, move, count_append, count_nil]; omega

theorem Areas.replay_count_le (a : Areas) (moves : List Move) (f : Frame) :
    (a.replay moves).order.count f ≤ a.order.count f := by
  induction moves generalizing a with
  | nil => exact le_rfl
  | cons m moves ih => exact (ih (a.move m)).trans (a.move_count_le m f)

theorem Areas.move_nodup {a : Areas} (distinct : a.order.Nodup) (m : Move) :
    (a.move m).order.Nodup := by
  rw [nodup_iff_count_le_one] at distinct ⊢
  exact fun f => (a.move_count_le m f).trans (distinct f)

theorem take_one_append_tail (xs ys : List Frame) : xs.take 1 ++ (xs.tail ++ ys) = xs ++ ys := by
  cases xs <;> rfl

def Areas.behind (a : Areas) : Source → List Frame
  | .deferred => a.deferred.tail ++ (a.pending ++ a.upstream)
  | .pending => a.pending.tail ++ a.upstream
  | .upstream => a.upstream.tail ++ []

theorem Areas.order_source (a : Areas) (source : Source) : a.order =
    a.applied ++ (a.batch ++ (a.held source ++ ((a.source source).take 1 ++ a.behind source))) := by
  cases source <;> simp only [behind, Areas.source, take_one_append_tail] <;> simp [order, held]

theorem Areas.pop_order (a : Areas) (source : Source) : (a.pop source).order =
    a.applied ++ (a.batch ++ (a.held source ++ a.behind source)) := by
  cases source <;> simp [order, behind, pop, held]

theorem Areas.applyFrom_order (a : Areas) (source : Source) : (a.applyFrom source).order =
    a.applied ++ ((a.source source).take 1 ++ (a.batch ++ (a.held source ++ a.behind source))) := by
  cases source <;> simp [order, behind, applyFrom, pop, held]

theorem Areas.enterFrom_order (a : Areas) (source : Source) : (a.enterFrom source).order =
    a.applied ++ (a.batch ++ ((a.source source).take 1 ++ (a.held source ++ a.behind source))) := by
  cases source <;> simp [order, behind, enterFrom, pop, held]

theorem sameLanes_pass_iff {order order' xs mid : List Frame} (before behind : List Frame)
    (distinct : order.Nodup) (ho : order = before ++ (mid ++ (xs.take 1 ++ behind)))
    (ho' : order' = before ++ (xs.take 1 ++ (mid ++ behind))) :
    SameLanes runnerRequest order' order ↔
      ∀ f ∈ xs.take 1, ∀ y ∈ mid, Apart runnerRequest f y := by
  rw [← append_assoc mid] at ho
  rw [← append_assoc (xs.take 1)] at ho'
  subst ho ho'
  have part : (mid ++ xs.take 1).Nodup := by
    rw [nodup_append] at distinct
    exact (nodup_append.mp distinct.2.1).1
  exact sameLanes_front_iff before behind part

theorem sameLanes_lose_iff (before behind : List Frame) (ho : order = before ++ (xs ++ behind))
    (ho' : order' = before ++ behind) : SameLanes runnerRequest order' order ↔
    ∀ f ∈ xs, runnerRequest f = none := by
  subst ho ho'
  have context : SameLanes runnerRequest (before ++ ([] ++ behind)) (before ++ (xs ++ behind)) ↔
      SameLanes runnerRequest [] xs := sameLanes_context before behind
  exact context.trans sameLanes_drop_iff

section Clean

variable {a : Areas} (distinct : a.order.Nodup)

include distinct

theorem Areas.applyFrom_sameLanes_iff (source : Source) :
    SameLanes runnerRequest (a.applyFrom source).order a.order ↔
      ∀ f ∈ (a.source source).take 1, ∀ y ∈ a.batch ++ a.held source, Apart runnerRequest f y := by
  apply sameLanes_pass_iff a.applied (a.behind source) distinct
  · simp [a.order_source source]
  · simp [a.applyFrom_order source]

theorem Areas.enterFrom_sameLanes_iff (source : Source) :
    SameLanes runnerRequest (a.enterFrom source).order a.order ↔
      ∀ f ∈ (a.source source).take 1, ∀ y ∈ a.held source, Apart runnerRequest f y := by
  apply sameLanes_pass_iff (a.applied ++ a.batch) (a.behind source) distinct
  · simp [a.order_source source]
  · simp [a.enterFrom_order source]

theorem Areas.move_sameLanes_iff (m : Move) : SameLanes runnerRequest (a.move m).order a.order ↔
    a.Clean m := by
  cases m with
  | defer source =>
    simp only [Clean, dropped, not_mem_nil, false_implies, implies_true, and_true]
    cases source with
    | deferred =>
      -- Here the first frame goes back, so the two orders change places.
      rw [show SameLanes runnerRequest (a.move (.defer .deferred)).order a.order ↔
        SameLanes runnerRequest a.order (a.move (.defer .deferred)).order from ⟨.symm, .symm⟩]
      apply sameLanes_pass_iff (a.applied ++ a.batch) (a.pending ++ a.upstream)
        (move_nodup distinct _)
      · simp [order, move, deferFrom, pop, passed, Areas.source, Move.source]
      · simp [a.order_source .deferred, held, behind, passed, Areas.source, Move.source]
    | pending =>
      have same : (a.move (.defer .pending)).order = a.order := by
        simp [order, move, deferFrom, pop, Areas.source, take_one_append_tail]
      simpa [same, passed] using SameLanes.refl a.order
    | upstream =>
      apply sameLanes_pass_iff (a.applied ++ a.batch ++ a.deferred) a.upstream.tail distinct
      · simp [a.order_source .upstream, held, behind, passed, Areas.source, Move.source]
      · simp [order, move, deferFrom, pop, passed, Areas.source, Move.source]
  | apply source =>
    simp only [Clean, dropped, not_mem_nil, false_implies, implies_true, and_true]
    exact a.applyFrom_sameLanes_iff distinct source
  | enter source =>
    simp only [Clean, dropped, not_mem_nil, false_implies, implies_true, and_true]
    exact a.enterFrom_sameLanes_iff distinct source
  | skip source =>
    simp only [Clean, passed, dropped, not_mem_nil, false_implies, implies_true, true_and]
    apply sameLanes_lose_iff (a.applied ++ a.batch ++ a.held source) (a.behind source)
    · simp [a.order_source source]
    · simp [move, a.pop_order source]
  | begin =>
    simp only [Clean, dropped, not_mem_nil, false_implies, implies_true, and_true]
    exact a.applyFrom_sameLanes_iff distinct .upstream
  | join =>
    simp only [Clean, dropped, not_mem_nil, false_implies, implies_true, and_true]
    exact a.enterFrom_sameLanes_iff distinct .upstream
  | aside =>
    simp only [Clean, dropped, not_mem_nil, false_implies, implies_true, and_true]
    apply sameLanes_pass_iff (a.applied ++ a.batch ++ a.deferred) a.upstream.tail distinct
    · simp [a.order_source .upstream, held, behind, passed, Areas.source, Move.source]
    · simp [order, move, pop, passed, Areas.source, Move.source]
  | run => simpa [Clean, dropped, passed, order, move] using SameLanes.refl _
  | stop =>
    simp only [Clean, passed, not_mem_nil, false_implies, implies_true, true_and]
    apply sameLanes_lose_iff (a.applied ++ a.batch) a.upstream
    · simp [order, dropped]
    · simp [order, move]

theorem Areas.inOrder_iff_clean (inOrder : a.InOrder arrivals) (moves : List Move) :
    (∀ before, before <+: moves → (a.replay before).InOrder arrivals) ↔ a.All Clean moves := by
  induction moves generalizing a with
  | nil =>
    simp only [prefix_nil, forall_eq, All, iff_true]
    exact inOrder
  | cons m moves ih =>
    have step : (a.move m).InOrder arrivals ↔ a.Clean m := by
      rw [← move_sameLanes_iff distinct]
      exact ⟨fun h => h.trans inOrder.symm, fun h => h.trans inOrder⟩
    constructor
    · intro all
      have next := all [m] (by simp)
      refine ⟨step.mp next, (ih (move_nodup distinct m) next).mp ?_⟩
      exact fun before h => all (m :: before) (cons_prefix_cons.mpr ⟨rfl, h⟩)
    rintro ⟨clean, rest⟩ before h
    cases before with
    | nil => exact inOrder
    | cons b before =>
      obtain ⟨rfl, h'⟩ := cons_prefix_cons.mp h
      have next : (a.move b).InOrder arrivals := step.mpr clean
      exact (ih (move_nodup distinct b) next).mpr rest before h'

end Clean

end Mycellios.Stage
