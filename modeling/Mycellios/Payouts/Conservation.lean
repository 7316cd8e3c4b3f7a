import Mycellios.Payouts.Manager

namespace Mycellios.Payouts

open Data Dict Logic

namespace Tables

variable {moment : Moment} {t t' : Tables} {id b : String} {r : EarningReversal}

def Holder (t : Tables) (earningId batchId : String) (status : PayoutStatus) : Prop :=
  t.holds batchId earningId ∧ ∃ batch, t.batches.find? batchId = some batch ∧ batch.status = status

def Free (holder : String → PayoutStatus → Prop) : Prop := ∀ b s, holder b s → s = .cancelled

def Only (holder : String → PayoutStatus → Prop) (allowed : PayoutStatus → Prop) : Prop :=
  ∃ b s, holder b s ∧ s ≠ .cancelled ∧ allowed s ∧ ∀ b' s', holder b' s' → s' ≠ .cancelled → b' = b

def Fits (holder : String → PayoutStatus → Prop) : EarningStatus → Prop
  | .available => Free holder
  | .batched => Only holder fun s => s = .prepared ∨ s = .submitted
  | .paid => Only holder (· = .paid)
  | .reversed => Free holder ∨ Only holder (· = .paid)

def Stands (t : Tables) (r : EarningReversal) (e : SellerEarning) : Prop :=
  match r.state with
  | .pendingPayout => e.status = .batched ∧ ∃ b, t.Holder r.earningId b .submitted
  | _ => e.status = .reversed

def debt (t : Tables) (seller : String) : Nat := (t.debts.find? seller).getD 0

def offsetOf (seller : String) (b : PayoutBatch) : Int :=
  if b.sellerId = seller ∧ b.status ≠ .cancelled then b.debtOffsetUsdMicros else 0

def debtOf (seller : String) (r : EarningReversal) : Int :=
  if r.sellerId = seller ∧ r.state = .sellerDebt then r.amountUsdMicros else 0

def Conserved (t : Tables) : Prop :=
  ∀ seller, (t.debt seller : Int) + t.batches.sumBy (offsetOf seller) =
    t.reversals.sumBy (debtOf seller)

structure Inv (t : Tables) : Prop where
  receipts : ∀ id e id' e', t.earnings.find? id = some e → t.earnings.find? id' = some e' →
    e.receiptId = e'.receiptId → id = id'
  itemKeys : (t.items.map fun i => (i.batchId, i.earningId)).Nodup
  itemBatch : ∀ i ∈ t.items, i.batchId ∈ t.batches.keys
  itemEarning : ∀ i ∈ t.items, ∃ e, t.earnings.find? i.earningId = some e ∧
    e.amountUsdMicros = i.amountUsdMicros
  amounts : ∀ id b, t.batches.find? id = some b →
    b.grossUsdMicros = ((t.items.filter (·.batchId = id)).map (·.amountUsdMicros)).sum ∧
      b.debtOffsetUsdMicros ≤ b.grossUsdMicros ∧
      b.amountUsdMicros = b.grossUsdMicros - b.debtOffsetUsdMicros
  statuses : ∀ id e, t.earnings.find? id = some e → Fits (t.Holder id) e.status
  reversed : ∀ id r, t.reversals.find? id = some r → ∃ e, t.earnings.find? r.earningId = some e ∧
    t.Stands r e
  once : ∀ id r id' r', t.reversals.find? id = some r → t.reversals.find? id' = some r' →
    r.earningId = r'.earningId → id = id'
  conserved : t.Conserved

theorem Inv.init : Tables.empty.Inv := by
  constructor <;> simp [Tables.empty, Conserved, debt]

theorem find?_moveStatus (earnings : Dict String SellerEarning) (which : String → Bool)
    (source target : EarningStatus) (id : String) :
    (moveStatus earnings which source target).find? id =
      (earnings.find? id).map fun e => if which id ∧ e.status = source then
      { e with status := target } else e :=
  find?_mapValues ..

theorem holds_iff : t.holds b id ↔ ∃ i ∈ t.items, i.batchId = b ∧ i.earningId = id := by
  simp [holds]

theorem Holder.unique (h : t.Holder id b s) (h' : t.Holder id b s') : s = s' := by
  obtain ⟨-, batch, found, rfl⟩ := h
  obtain ⟨-, batch', found', rfl⟩ := h'
  rw [Option.mem_unique found found']

theorem insertEarning_inv {receipt : SignedWorkReceipt} {earning : String × SellerEarning}
    (inv : t.Inv) (first : t.earnings.entries.find? (·.2.receiptId = receipt.receiptId) = none)
    (h : t.insertEarning moment receipt = .ok (earning, t')) : t'.Inv := by
  simp only [insertEarning, throw_bind, raise_eq_ok, not_or] at h
  obtain ⟨⟨-, -, fresh, -⟩, done⟩ := h
  obtain ⟨-, rfl⟩ := ok_inj done
  have missing : t.earnings.find? moment.newId = none := by simpa [Dict.contains] using fresh
  have other : ∀ {id e}, t.earnings.find? id = some e → moment.newId ≠ id := by
    rintro id e found rfl
    rw [missing] at found
    cases found
  refine { inv with receipts := ?_, itemEarning := ?_, statuses := ?_, reversed := ?_ }
  · refine unique_insert inv.receipts fun id e found same => ?_
    have listed := (t.earnings.find?_eq_some_iff id e).mp found
    exact List.find?_eq_none.mp first _ listed (decide_eq_true same)
  · intro i mem
    obtain ⟨e, found, amount⟩ := inv.itemEarning i mem
    exact ⟨e, by rw [find?_insert, if_neg (other found), found], amount⟩
  · intro id e found
    rcases of_find?_insert found with ⟨here, rfl⟩ | ⟨-, found⟩
    · -- no item can name an earning that did not exist
      rintro b s ⟨held, -⟩
      obtain ⟨i, mem, -, same⟩ := holds_iff.mp held
      obtain ⟨e, found, -⟩ := inv.itemEarning i mem
      rw [same, ← here, missing] at found
      cases found
    · exact inv.statuses id e found
  · intro id r found
    obtain ⟨e, known, stands⟩ := inv.reversed id r found
    exact ⟨e, by rw [find?_insert, if_neg (other known), known], stands⟩

theorem debt_addDebt {debts : Dict String Nat} :
    ((addDebt debts seller amount).find? other).getD 0 =
      (debts.find? other).getD 0 + if seller = other then amount else 0 := by
  rw [addDebt, find?_insert]
  by_cases here : seller = other
  · rw [if_pos here, if_pos here, ← here]
    rfl
  · rw [if_neg here, if_neg here, Nat.add_zero]

theorem sumBy_new_reversal (missing : t.reversals.find? id = none) (seller : String) :
    (t.reversals.insert id r).sumBy (debtOf seller) = t.reversals.sumBy (debtOf seller) +
    debtOf seller r := by
  rw [sumBy_insert, missing]
  simp

theorem mem_openBatches (mem : batch ∈ t.openBatches id) :
    (batch.status = .prepared ∨ batch.status = .submitted) ∧ ∃ b, t.holds b id ∧
    t.batches.find? b = some batch := by
  rw [openBatches, List.mem_insertionSort, List.mem_filter, List.mem_filterMap] at mem
  obtain ⟨⟨i, listed, found⟩, status⟩ := mem
  obtain ⟨listed, same⟩ := List.mem_filter.mp listed
  exact ⟨of_decide_eq_true status, i.batchId,
    holds_iff.mpr ⟨i, listed, rfl, of_decide_eq_true same⟩, found⟩

theorem Inv.reverse (inv : t.Inv) {rid eid : String} {earning : SellerEarning}
    {earnings : Dict String SellerEarning} {debts : Dict String Nat} {status : EarningStatus}
    (known : t.earnings.find? eid = some earning) (named : r.earningId = eid)
    (missing : t.reversals.find? rid = none) (first : ∀ id r', t.reversals.find? id = some r' →
      r'.earningId ≠ eid)
    (here : earnings.find? eid = some { earning with status := status })
    (others : ∀ id, id ≠ eid → earnings.find? id = t.earnings.find? id)
    (fits : Fits (t.Holder eid) status) (stands : t.Stands r { earning with status := status })
    (debt : ∀ seller, (((debts.find? seller).getD 0 : Nat) : Int) = t.debt seller +
      debtOf seller r) :
    Inv { t with reversals := t.reversals.insert rid r, earnings := earnings, debts := debts } := by
  have found : ∀ {id e}, earnings.find? id = some e →
      ∃ e', t.earnings.find? id = some e' ∧ e.receiptId = e'.receiptId ∧
      e.amountUsdMicros = e'.amountUsdMicros := by
    intro id e new
    by_cases same : id = eid
    · rw [same, here] at new
      obtain rfl := Option.some.inj new
      exact ⟨earning, same ▸ known, rfl, rfl⟩
    · exact ⟨e, (others id same).symm.trans new, rfl, rfl⟩
  refine { inv with
    receipts := ?_, itemEarning := ?_, statuses := ?_, reversed := ?_, once := ?_, conserved := ?_ }
  · intro id e id' e' new new' same
    obtain ⟨old, listed, receipt, -⟩ := found new
    obtain ⟨old', listed', receipt', -⟩ := found new'
    exact inv.receipts id old id' old' listed listed' (receipt ▸ receipt' ▸ same)
  · intro i mem
    obtain ⟨e, listed, amount⟩ := inv.itemEarning i mem
    by_cases same : i.earningId = eid
    · rw [same, known] at listed
      obtain rfl := Option.some.inj listed
      refine ⟨{ earning with status := status }, ?_, amount⟩
      rw [same]
      exact here
    · exact ⟨e, (others _ same).trans listed, amount⟩
  · intro id e new
    by_cases same : id = eid
    · rw [same, here] at new
      obtain rfl := Option.some.inj new
      rw [same]
      exact fits
    · exact inv.statuses id e ((others id same).symm.trans new)
  · intro id r' new
    rcases of_find?_insert new with ⟨-, rfl⟩ | ⟨-, new⟩
    · exact ⟨_, named.symm ▸ here, stands⟩
    obtain ⟨e, listed, stood⟩ := inv.reversed id r' new
    exact ⟨e, (others _ (first id r' new)).trans listed, stood⟩
  · exact unique_insert inv.once fun id r' old same => first id r' old (same.trans named)
  · intro seller
    have before := inv.conserved seller
    have added := debt seller
    rw [sumBy_new_reversal missing]
    simp only [Tables.debt] at before added ⊢
    omega

theorem insertReversal_inv {reversal : SignedEarningReversal} {earning : SellerEarning}
    {state : ReversalState} {result : EarningReversalResult} (inv : t.Inv)
    (missing : t.reversals.find? reversal.reversalId = none)
    (known : t.earnings.find? reversal.earningId = some earning)
    (first : ¬∃ r ∈ t.reversals.values, r.earningId = reversal.earningId)
    (stated : t.reversalState reversal.earningId earning.status = .ok state)
    (h : t.insertReversal moment reversal earning state = .ok (result, t')) : t'.Inv := by
  simp only [insertReversal, throw_bind, raise_eq_ok] at h
  obtain ⟨-, done⟩ := h
  obtain ⟨-, rfl⟩ := ok_inj done
  have fits := inv.statuses _ _ known
  have alone : ∀ id r', t.reversals.find? id = some r' → r'.earningId ≠ reversal.earningId :=
      fun id r' found same =>
    first ⟨r', mem_values_of_find? found, same⟩
  have moved : ∀ source : EarningStatus, earning.status = source →
      (moveStatus t.earnings (· = reversal.earningId) source .reversed).find? reversal.earningId =
        some { earning with status := .reversed } := by
    intro source same
    rw [find?_moveStatus, known, Option.map_some, if_pos ⟨decide_eq_true rfl, same⟩]
  have kept : ∀ (source : EarningStatus) (id : String), id ≠ reversal.earningId →
      (moveStatus t.earnings (· = reversal.earningId) source .reversed).find? id =
      t.earnings.find? id := by
    intro source id other
    rw [find?_moveStatus]
    cases t.earnings.find? id with
    | none => rfl
    | some e => rw [Option.map_some, if_neg fun both => other (of_decide_eq_true both.1)]
  cases status : earning.status with
  | available =>
    rw [status] at stated fits
    obtain rfl := Except.ok.inj stated
    refine inv.reverse known rfl missing alone (moved _ status) (kept _) (.inl fits) rfl
      fun seller => ?_
    simp [debtOf, debt]
  | paid =>
    rw [status] at stated fits
    obtain rfl := Except.ok.inj stated
    refine inv.reverse known rfl missing alone (moved _ status) (kept _) (.inr fits) rfl
      fun seller => ?_
    rw [debt_addDebt, debtOf, debt]
    by_cases mine : reversal.sellerId = seller <;> simp [mine]
  | batched =>
    rw [status] at stated
    rw [reversalState] at stated
    split at stated
    · cases stated
    rename_i b rest open'
    split at stated
    · cases stated
    rename_i prepared
    obtain rfl := Except.ok.inj stated
    obtain ⟨either, id, held, found⟩ := mem_openBatches (open' ▸ List.mem_cons_self)
    have submitted := either.resolve_left prepared
    have same : ({ earning with status := .batched } : SellerEarning) = earning := by rw [← status]
    refine inv.reverse known rfl missing alone (same ▸ known) (fun _ _ => rfl) (status ▸ fits) ?_
      fun seller => ?_
    · exact ⟨rfl, id, held, b, found, submitted⟩
    · simp [debtOf, debt]
  | reversed =>
    rw [status] at stated
    cases stated

theorem recordAcceptedReceipt_inv (inv : t.Inv)
    (h : t.recordAcceptedReceipt host moment receipt = .ok (earning, t')) : t'.Inv := by
  obtain ⟨_, -, h⟩ := bind_eq_ok.mp h
  split at h
  · cases h
  simp only [throw_bind, raise_eq_ok] at h
  obtain ⟨-, -, h⟩ := h
  split at h
  · simp only [raise_eq_ok] at h
    obtain ⟨-, rfl⟩ := ok_inj h.2
    exact inv
  · rename_i first
    exact insertEarning_inv inv first h

theorem recordEarningReversal_inv (inv : t.Inv)
    (h : t.recordEarningReversal host moment reversal = .ok (result, t')) : t'.Inv := by
  obtain ⟨_, -, h⟩ := bind_eq_ok.mp h
  split at h
  · cases h
  simp only [throw_bind, raise_eq_ok] at h
  obtain ⟨-, h⟩ := h
  split at h
  · simp only [raise_eq_ok] at h
    obtain ⟨-, rfl⟩ := ok_inj h.2
    exact inv
  rename_i missing
  split at h
  · cases h
  rename_i known
  simp only [raise_eq_ok, bind_eq_ok] at h
  obtain ⟨-, first, state, stated, inserted⟩ := h
  exact insertReversal_inv inv missing known first stated inserted

section Payouts

theorem mutation_ok
    (h : (do let result ← u.mutation batchId duplicate; pure (result, u)) =
      (.ok (result, t') : Except Failure _)) :
    t' = u := by
  obtain ⟨_, -, done⟩ := bind_eq_ok.mp h
  exact (ok_inj done).2.symm

structure Moved (t t' : Tables) (batchId : String) (batch batch' : PayoutBatch) : Prop where
  found : t.batches.find? batchId = some batch
  items : t'.items = t.items
  batches : t'.batches = t.batches.insert batchId batch'
  seller : batch'.sellerId = batch.sellerId
  gross : batch'.grossUsdMicros = batch.grossUsdMicros
  offset : batch'.debtOffsetUsdMicros = batch.debtOffsetUsdMicros
  amount : batch'.amountUsdMicros = batch.amountUsdMicros

section Moved

variable (moved : Moved t t' batchId batch batch')

include moved

theorem Moved.holder (id b : String) (s : PayoutStatus) : t'.Holder id b s ↔
    if batchId = b then t.holds b id ∧ batch'.status = s else t.Holder id b s := by
  rw [Holder, holds, moved.items, moved.batches, find?_insert]
  by_cases here : batchId = b
  · simp [here, holds]
  · simp [here, Holder, holds]

theorem Moved.holder_of_not_held (free : ¬t.holds batchId id) : t'.Holder id = t.Holder id := by
  funext b s
  refine propext ?_
  rw [moved.holder]
  split
  · rename_i here
    subst here
    exact ⟨fun both => absurd both.1 free, fun old => absurd old.1 free⟩
  · exact Iff.rfl

theorem Moved.only {allowed : PayoutStatus → Prop} (held : t.holds batchId id)
    (alone : ∀ b s, t.Holder id b s → s ≠ .cancelled → b = batchId)
    (active : batch'.status ≠ .cancelled) (fits : allowed batch'.status) :
    Only (t'.Holder id) allowed := by
  refine ⟨batchId, batch'.status, ?_, active, fits, fun b s other live => ?_⟩
  · rw [moved.holder, if_pos rfl]
    exact ⟨held, rfl⟩
  rw [moved.holder] at other
  split at other
  · rename_i here
    exact here.symm
  · exact alone b s other live

theorem Moved.submitted (other : batch.status ≠ .submitted) (holder : t.Holder id b .submitted) :
    t'.Holder id b .submitted := by
  rw [moved.holder, if_neg]
  · exact holder
  rintro rfl
  obtain ⟨-, known, listed, submitted⟩ := holder
  rw [Option.mem_unique listed moved.found] at submitted
  exact other submitted

theorem Moved.sumBy_offset (seller : String) : t'.batches.sumBy (offsetOf seller) =
    t.batches.sumBy (offsetOf seller) + offsetOf seller batch' - offsetOf seller batch := by
  rw [moved.batches, sumBy_insert, moved.found]
  rfl

theorem Inv.advance (inv : t.Inv) (status : String → SellerEarning → EarningStatus)
    (state : String → EarningReversal → ReversalState)
    (resolved : String → EarningReversal → Option Nat)
    (earnings : ∀ id, t'.earnings.find? id = (t.earnings.find? id).map fun e =>
      { e with status := status id e })
    (reversals : ∀ id, t'.reversals.find? id = (t.reversals.find? id).map fun r =>
      { r with state := state id r, resolvedAt := resolved id r })
    (fits : ∀ id e, t.earnings.find? id = some e → Fits (t'.Holder id) (status id e))
    (stands : ∀ id r e, t.reversals.find? id = some r → t.earnings.find? r.earningId = some e →
      t.Stands r e → t'.Stands { r with state := state id r, resolvedAt := resolved id r }
        { e with status := status r.earningId e })
    (conserved : t'.Conserved) : t'.Inv := by
  exact {
    receipts := by
      intro id e id' e' new new' same
      obtain ⟨old, listed, rfl⟩ := of_find?_map earnings new
      obtain ⟨old', listed', rfl⟩ := of_find?_map earnings new'
      exact inv.receipts id old id' old' listed listed' same
    itemKeys := moved.items ▸ inv.itemKeys
    itemBatch := by
      intro i mem
      rw [moved.batches, mem_keys_insert]
      exact .inr (inv.itemBatch i (moved.items ▸ mem))
    itemEarning := by
      intro i mem
      obtain ⟨e, listed, amount⟩ := inv.itemEarning i (moved.items ▸ mem)
      refine ⟨{ e with status := status i.earningId e }, ?_, amount⟩
      rw [earnings, listed, Option.map_some]
    amounts := by
      intro id b new
      rw [moved.items]
      rcases of_find?_insert (moved.batches ▸ new) with ⟨rfl, rfl⟩ | ⟨-, new⟩
      · rw [moved.gross, moved.offset, moved.amount]
        exact inv.amounts _ batch moved.found
      · exact inv.amounts id b new
    statuses := by
      intro id e new
      obtain ⟨old, listed, rfl⟩ := of_find?_map earnings new
      exact fits id old listed
    reversed := by
      intro id r new
      obtain ⟨old, listed, rfl⟩ := of_find?_map reversals new
      obtain ⟨e, known, stood⟩ := inv.reversed id old listed
      exact ⟨_, by rw [earnings, known, Option.map_some], stands id old e listed known stood⟩
    once := by
      intro id r id' r' new new' same
      obtain ⟨old, listed, rfl⟩ := of_find?_map reversals new
      obtain ⟨old', listed', rfl⟩ := of_find?_map reversals new'
      exact inv.once id old id' old' listed listed' same
    conserved := conserved }

end Moved

theorem getBatchRequired_ok (h : t.getBatchRequired batchId = .ok batch) :
    t.batches.find? batchId = some batch := by
  rw [getBatchRequired] at h
  split at h
  · rename_i found
    rw [found, Except.ok.inj h]
  · cases h

theorem Inv.batched_of_open (inv : t.Inv)
    (found : t.batches.find? batchId = some batch)
    (live : batch.status = .prepared ∨ batch.status = .submitted) (held : t.holds batchId id)
    (known : t.earnings.find? id = some e) : e.status = .batched ∧ ∀ b s, t.Holder id b s →
    s ≠ .cancelled → b = batchId := by
  have holder : t.Holder id batchId batch.status := ⟨held, batch, found, rfl⟩
  have active : batch.status ≠ .cancelled := by
    rcases live with live | live <;> rw [live] <;> decide
  have unpaid : batch.status ≠ .paid := by rcases live with live | live <;> rw [live] <;> decide
  have fits := inv.statuses id e known
  have noPaid : ¬Only (t.Holder id) (· = .paid) := by
    rintro ⟨b, s, other, -, rfl, unique⟩
    have same := unique batchId batch.status holder active
    exact unpaid (holder.unique (same ▸ other))
  cases status : e.status with
  | available =>
    exact absurd (by rw [status] at fits; exact fits batchId batch.status holder) active
  | batched =>
    rw [status] at fits
    obtain ⟨b, s, -, -, -, unique⟩ := fits
    refine ⟨rfl, fun b' s' other alive => ?_⟩
    rw [unique b' s' other alive, unique batchId batch.status holder active]
  | paid => rw [status] at fits; exact absurd fits noPaid
  | reversed =>
    rw [status] at fits
    rcases fits with free | paid
    · exact absurd (free batchId batch.status holder) active
    · exact absurd paid noPaid

theorem Stands.transport (stands : t.Stands r e)
    (pending : ∀ b, t.Holder r.earningId b .submitted → t'.Holder r.earningId b .submitted) :
    t'.Stands r e := by
  rw [Stands] at stands ⊢
  split
  · rename_i state
    rw [state] at stands
    exact ⟨stands.1, stands.2.imp pending⟩
  rename_i state
  cases kind : r.state with
  | pendingPayout => exact absurd kind state
  | applied | sellerDebt => rw [kind] at stands; exact stands

theorem markSubmitted_writes
    (h : t.markSubmitted moment batchId dispatchKey externalReference = .ok (result, t')) :
    t' = t ∨ ∃ batch, t.batches.find? batchId = some batch ∧ batch.status = .prepared ∧
      t' = { t with batches := t.batches.insert batchId { batch with
        status := .submitted
        dispatchKey := some dispatchKey
        externalReference := some externalReference
        submittedAt := some moment.now
        updatedAt := moment.now } } := by
  simp only [markSubmitted, bind_eq_ok] at h
  obtain ⟨_, -, _, -, _, -, batch, required, h⟩ := h
  split at h
  · simp only [throw_bind, raise_eq_ok] at h
    exact .inl (mutation_ok h.2)
  split at h
  · cases h
  rename_i prepared
  split at h
  · cases h
  · exact .inr ⟨batch, getBatchRequired_ok required, not_not.mp prepared, mutation_ok h⟩

theorem markSubmitted_ok
    (h : t.markSubmitted moment batchId dispatchKey externalReference = .ok (result, t')) :
    t' = t ∨ ∃ batch batch', Moved t t' batchId batch batch' ∧ batch.status = .prepared ∧
      batch'.status = .submitted ∧ t'.earnings = t.earnings ∧ t'.reversals = t.reversals ∧
      t'.debts = t.debts := by
  obtain same | ⟨batch, found, prepared, rfl⟩ := markSubmitted_writes h
  · exact .inl same
  · exact .inr ⟨batch, _, ⟨found, rfl, rfl, rfl, rfl, rfl, rfl⟩, prepared, rfl, rfl, rfl, rfl⟩

theorem markSubmitted_inv
    (inv : t.Inv)
    (h : t.markSubmitted moment batchId dispatchKey externalReference = .ok (result, t')) :
    t'.Inv := by
  obtain rfl | ⟨batch, batch', moved, prepared, submitted, earnings, reversals, debts⟩ :=
    markSubmitted_ok h
  · exact inv
  refine inv.advance moved (fun _ e => e.status) (fun _ r => r.state) (fun _ r => r.resolvedAt)
    (fun id => by rw [earnings, Option.map_id']) (fun id => by rw [reversals, Option.map_id'])
    ?_ ?_ ?_
  · intro id e known
    by_cases held : t.holds batchId id
    · obtain ⟨status, alone⟩ := inv.batched_of_open moved.found (.inl prepared) held known
      rw [status]
      exact moved.only held alone (by rw [submitted]; decide) (.inr submitted)
    · rw [moved.holder_of_not_held held]
      exact inv.statuses id e known
  · intro id r e listed known stands
    exact Stands.transport stands fun b => moved.submitted (by rw [prepared]; decide)
  · intro seller
    have before := inv.conserved seller
    have same : offsetOf seller batch' = offsetOf seller batch := by
      simp [offsetOf, prepared, submitted, moved.seller, moved.offset]
    rw [debt, debts, reversals, moved.sumBy_offset, same]
    rw [debt] at before
    omega

theorem cancelPrepared_writes (h : t.cancelPrepared moment batchId dispatch = .ok (result, t')) :
    (t' = t ∧ ∃ batch, t.batches.find? batchId = some batch ∧ batch.status = .cancelled) ∨
    ∃ batch, t.batches.find? batchId = some batch ∧ batch.status = .prepared ∧
      (∀ d, dispatch = some d → d.rejected = true ∧ d.externalReference = none) ∧
      t' = { t with
        batches := t.batches.insert batchId { batch with
          status := .cancelled
          cancelledAt := some moment.now
          updatedAt := moment.now }
        earnings := moveStatus t.earnings (t.holds batchId) .batched .available
        debts := if 0 < batch.debtOffsetUsdMicros then
          addDebt t.debts batch.sellerId batch.debtOffsetUsdMicros
          else t.debts } := by
  simp only [cancelPrepared, bind_eq_ok] at h
  obtain ⟨_, -, batch, required, h⟩ := h
  split at h
  · rename_i cancelled
    exact .inl ⟨mutation_ok h, batch, getBatchRequired_ok required, cancelled⟩
  split at h
  · cases h
  rename_i prepared
  split at h
  · cases h
  rename_i allowed
  split at h
  · cases h
  refine .inr ⟨batch, getBatchRequired_ok required, not_not.mp prepared, ?_, mutation_ok h⟩
  rintro d rfl
  have safe : d.rejected = true ∧ d.externalReference = none ∧ d.settlementReference = none := by
    simpa using allowed
  exact ⟨safe.1, safe.2.1⟩

theorem cancelPrepared_ok (h : t.cancelPrepared moment batchId dispatch = .ok (result, t')) :
    t' = t ∨ ∃ batch batch', Moved t t' batchId batch batch' ∧ batch.status = .prepared ∧
      batch'.status = .cancelled ∧ t'.earnings = moveStatus t.earnings (t.holds batchId) .batched
      .available ∧ t'.reversals = t.reversals ∧ t'.debts = (if 0 < batch.debtOffsetUsdMicros then
        addDebt t.debts batch.sellerId batch.debtOffsetUsdMicros else t.debts) := by
  obtain ⟨same, -⟩ | ⟨batch, found, prepared, -, rfl⟩ := cancelPrepared_writes h
  · exact .inl same
  · exact .inr ⟨batch, _, ⟨found, rfl, rfl, rfl, rfl, rfl, rfl⟩, prepared, rfl, rfl, rfl, rfl⟩

theorem Stands.not_prepared (inv : t.Inv) (stands : t.Stands r e)
    (found : t.batches.find? batchId = some batch) (prepared : batch.status = .prepared)
    (known : t.earnings.find? r.earningId = some e) :
    ¬(t.holds batchId r.earningId ∧ e.status = .batched) := by
  rintro ⟨held, batched⟩
  rw [Stands] at stands
  split at stands
  · obtain ⟨-, b, submitted⟩ := stands
    obtain ⟨-, alone⟩ := inv.batched_of_open found (.inl prepared) held known
    have same := alone b _ submitted (by decide)
    have mine : t.Holder r.earningId b batch.status := ⟨submitted.1, batch, same ▸ found, rfl⟩
    exact absurd (mine.unique submitted) (by rw [prepared]; decide)
  · rw [batched] at stands
    cases stands

theorem cancelPrepared_inv
    (inv : t.Inv) (h : t.cancelPrepared moment batchId dispatch = .ok (result, t')) : t'.Inv := by
  obtain rfl | ⟨batch, batch', moved, prepared, cancelled, earnings, reversals, debts⟩ :=
    cancelPrepared_ok h
  · exact inv
  refine inv.advance moved (fun id e => if t.holds batchId id ∧ e.status = .batched then .available
    else e.status) (fun _ r => r.state) (fun _ r => r.resolvedAt) ?_
    (fun id => by rw [reversals, Option.map_id']) ?_ ?_ ?_
  · intro id
    rw [earnings, find?_moveStatus]
    congr 1
    funext e
    split <;> rfl
  · intro id e known
    by_cases held : t.holds batchId id
    · obtain ⟨status, alone⟩ := inv.batched_of_open moved.found (.inl prepared) held known
      rw [if_pos ⟨held, status⟩]
      intro b s holder
      rw [moved.holder] at holder
      split at holder
      · exact holder.2.symm.trans cancelled
      rename_i other
      by_contra live
      exact other (alone b s holder live).symm
    · rw [if_neg fun both => held both.1, moved.holder_of_not_held held]
      exact inv.statuses id e known
  · intro id r e listed known stands
    rw [if_neg (stands.not_prepared inv moved.found prepared known)]
    exact Stands.transport stands fun b => moved.submitted (by rw [prepared]; decide)
  · intro seller
    have before := inv.conserved seller
    have gone : offsetOf seller batch' = 0 := by simp [offsetOf, cancelled]
    have given : ((t'.debt seller : Nat) : Int) = t.debt seller + offsetOf seller batch := by
      rw [debt, debts, debt, offsetOf, prepared]
      split
      · rw [debt_addDebt]
        by_cases mine : batch.sellerId = seller <;> simp [mine]
      · have zero : batch.debtOffsetUsdMicros = 0 := by omega
        simp [zero]
    rw [given, reversals, moved.sumBy_offset, gone]
    omega

end Payouts

end Tables

end Mycellios.Payouts
