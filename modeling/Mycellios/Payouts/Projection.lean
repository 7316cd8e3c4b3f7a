import Mycellios.Payouts.Dispatch
import Mycellios.Payouts.Settlement

namespace Mycellios.Payouts

open Data Dict Logic

variable {batch : PayoutBatch}

namespace Tables

variable {host : Host} {moment : Moment} {t t' : Tables} {batchId : String}
  {touched spent : String → Prop}

def Unsettled (t : Tables) : Prop := ∀ k batch, t.batches.find? k = some batch →
  batch.status = .prepared ∨ batch.status = .submitted → batch.settlementReference = none

/-- The batches that a call does not touch, and the available earnings it does not spend. -/
structure Grows (t t' : Tables) (touched spent : String → Prop) : Prop where
  inv : t'.Inv
  batches : ∀ k batch, t.batches.find? k = some batch → ∃ batch', t'.batches.find? k = some batch' ∧
    batch'.payoutMethod = batch.payoutMethod ∧ (¬touched k → batch' = batch)
  held : ∀ k batch id, t.batches.find? k = some batch → (t'.holds k id ↔ t.holds k id)
  unsettled : t.Unsettled → t'.Unsettled
  available : ∀ id e, t.earnings.find? id = some e → e.status = .available → ¬spent id →
    ∃ e', t'.earnings.find? id = some e' ∧ e'.status = .available

theorem Grows.refl (inv : t.Inv) : Grows t t touched spent where
  inv := inv
  batches _ batch found := ⟨batch, found, rfl, fun _ => rfl⟩
  held _ _ _ _ := Iff.rfl
  unsettled := id
  available _ e found status _ := ⟨e, found, status⟩

theorem Grows.trans (first : Grows t t' touched spent) (second : Grows t' t'' touched spent) :
    Grows t t'' touched spent where
  inv := second.inv
  batches k batch found := by
    obtain ⟨batch', found', method, same⟩ := first.batches k batch found
    obtain ⟨batch'', found'', method', same'⟩ := second.batches k batch' found'
    exact ⟨batch'', found'', method'.trans method, fun apart => (same' apart).trans (same apart)⟩
  held k batch id found := by
    obtain ⟨batch', found', -⟩ := first.batches k batch found
    exact (second.held k batch' id found').trans (first.held k batch id found)
  unsettled before := second.unsettled (first.unsettled before)
  available id e found status kept := by
    obtain ⟨e', found', status'⟩ := first.available id e found status kept
    exact second.available id e' found' status' kept

theorem Grows.of_earnings (inv : t'.Inv) (batches : t'.batches = t.batches)
    (items : t'.items = t.items) (available : ∀ id e, t.earnings.find? id = some e →
      e.status = .available → ¬spent id → ∃ e', t'.earnings.find? id = some e' ∧
      e'.status = .available) : Grows t t' touched spent where
  inv := inv
  batches k batch found := ⟨batch, by rw [batches, found], rfl, fun _ => rfl⟩
  held k batch id found := by rw [holds, holds, items]
  unsettled before := by rw [Unsettled, batches]; exact before
  available := available

theorem Grows.of_batch (inv : t'.Inv) (found : t.batches.find? batchId = some batch)
    (batches : t'.batches = t.batches.insert batchId batch') (items : t'.items = t.items)
    (method : batch'.payoutMethod = batch.payoutMethod)
    (unsettled : batch'.status = .prepared ∨ batch'.status = .submitted →
      (batch.status = .prepared ∨ batch.status = .submitted) ∧
      batch'.settlementReference = batch.settlementReference)
    (available : ∀ id e, t.earnings.find? id = some e → e.status = .available → ¬spent id →
      ∃ e', t'.earnings.find? id = some e' ∧ e'.status = .available) :
      Grows t t' (· = batchId) spent where
  inv := inv
  batches k old foundOld := by
    rw [batches, find?_insert]
    split
    · rename_i here
      subst here
      rw [found] at foundOld
      rw [← Option.some.inj foundOld]
      exact ⟨batch', rfl, method, fun apart => absurd rfl apart⟩
    · exact ⟨old, foundOld, rfl, fun _ => rfl⟩
  held k batch id found := by rw [holds, holds, items]
  unsettled before k new foundNew live := by
    rcases of_find?_insert (batches ▸ foundNew) with ⟨-, rfl⟩ | ⟨-, foundNew⟩
    · obtain ⟨alive, same⟩ := unsettled live
      rw [same]
      exact before batchId batch found alive
    · exact before k new foundNew live
  available := available

section Calls

theorem Inv.not_held_of_available (inv : t.Inv) {id : String}
    (found : t.batches.find? batchId = some batch)
    (live : batch.status = .prepared ∨ batch.status = .submitted)
    (known : t.earnings.find? id = some e) (available : e.status = .available) :
    ¬t.holds batchId id := by
  intro held
  obtain ⟨batched, -⟩ := inv.batched_of_open found live held known
  rw [available] at batched
  cases batched

variable {result : PayoutMutationResult} {externalReference settlementReference : String}
  {paidAt : Nat}

theorem markSubmitted_grows (inv : t.Inv)
    (h : t.markSubmitted moment batchId dispatchKey externalReference = .ok (result, t')) :
    Grows t t' (· = batchId) spent := by
  have inv' := markSubmitted_inv inv h
  obtain rfl | ⟨batch, found, prepared, rfl⟩ := markSubmitted_writes h
  · exact .refl inv
  · exact .of_batch inv' found rfl rfl rfl (fun _ => ⟨.inl prepared, rfl⟩)
      fun id e known status _ => ⟨e, known, status⟩

theorem markPaid_grows (inv : t.Inv)
    (h : t.markPaid moment batchId settlementReference paidAt = .ok (result, t')) :
    Grows t t' (· = batchId) spent := by
  have inv' := markPaid_inv inv h
  obtain rfl | ⟨batch, u, found, submitted, rfl, resolved⟩ := markPaid_writes h
  · exact .refl inv
  refine .of_batch inv' found resolved.batches resolved.items rfl (by simp)
    fun id e known available _ => ?_
  have free := inv.not_held_of_available found (.inr submitted) known available
  refine ⟨e, ?_, available⟩
  rw [resolved.earnings, find?_mapValues, known, Option.map_some, Option.map_some, if_neg free,
    if_neg fun both => absurd both.2 (by rw [available]; decide)]

theorem cancelPrepared_grows {dispatch : Option Dispatch} (inv : t.Inv)
    (h : t.cancelPrepared moment batchId dispatch = .ok (result, t')) :
    Grows t t' (· = batchId) spent := by
  have inv' := cancelPrepared_inv inv h
  obtain ⟨rfl, -⟩ | ⟨batch, found, -, -, rfl⟩ := cancelPrepared_writes h
  · exact .refl inv
  refine .of_batch inv' found rfl rfl rfl (by simp) fun id e known available _ => ⟨e, ?_, available⟩
  rw [find?_moveStatus, known, Option.map_some,
    if_neg fun both => absurd both.2 (by rw [available]; decide)]

theorem prepare_grows (inv : t.Inv)
    (h : t.prepare host moment input destination = .ok (result, t')) :
    Grows t t' touched (· ∈ input.earningIds) := by
  have inv' := prepare_inv inv h
  obtain rfl | ⟨batch, prep, unsettled⟩ := prepare_ok h
  · exact .refl inv
  refine ⟨inv', ?_, ?_, ?_, ?_⟩
  · intro k old found
    have other : moment.newId ≠ k := by
      rintro rfl
      rw [prep.missing] at found
      cases found
    refine ⟨old, ?_, rfl, fun _ => rfl⟩
    rw [prep.batches, find?_insert, if_neg other]
    exact found
  · intro k old id found
    rw [prep.holds_iff inv, if_neg]
    rintro rfl
    rw [prep.missing] at found
    cases found
  · intro before k new found live
    rcases of_find?_insert (prep.batches ▸ found) with ⟨-, rfl⟩ | ⟨-, found⟩
    · exact unsettled
    · exact before k new found live
  · intro id e known available unspent
    refine ⟨e, ?_, available⟩
    rw [prep.earnings, find?_moveStatus, known, Option.map_some, if_neg]
    rintro ⟨mem, -⟩
    rw [decide_eq_true_iff, List.mem_insertionSort, List.mem_dedup] at mem
    exact unspent mem

theorem recordAcceptedReceipt_grows (inv : t.Inv)
    (h : t.recordAcceptedReceipt host moment receipt = .ok (earning, t')) :
    Grows t t' touched spent := by
  have inv' := recordAcceptedReceipt_inv inv h
  simp only [recordAcceptedReceipt, bind_eq_ok] at h
  obtain ⟨_, -, h⟩ := h
  split at h
  · cases h
  simp only [throw_bind, raise_eq_ok] at h
  obtain ⟨-, -, h⟩ := h
  split at h
  · simp only [raise_eq_ok] at h
    obtain ⟨-, rfl⟩ := ok_inj h.2
    exact .refl inv
  simp only [insertEarning, throw_bind, raise_eq_ok, not_or] at h
  obtain ⟨⟨-, -, fresh, -⟩, h⟩ := h
  obtain ⟨-, rfl⟩ := ok_inj h
  refine .of_earnings inv' rfl rfl fun id e known available _ => ⟨e, ?_, available⟩
  have other : moment.newId ≠ id := by
    rintro rfl
    simp [Dict.contains, known] at fresh
  rw [find?_insert, if_neg other]
  exact known

theorem recordEarningReversal_grows {answer : EarningReversalResult} (inv : t.Inv)
    (h : t.recordEarningReversal host moment reversal = .ok (answer, t')) :
    Grows t t' touched (· = reversal.earningId) := by
  have inv' := recordEarningReversal_inv inv h
  simp only [recordEarningReversal, bind_eq_ok] at h
  obtain ⟨_, -, h⟩ := h
  split at h
  · cases h
  simp only [throw_bind, raise_eq_ok] at h
  obtain ⟨-, h⟩ := h
  split at h
  · simp only [raise_eq_ok] at h
    obtain ⟨-, rfl⟩ := ok_inj h.2
    exact .refl inv
  split at h
  · cases h
  simp only [raise_eq_ok, bind_eq_ok, insertReversal, throw_bind] at h
  obtain ⟨-, -, state, -, -, h⟩ := h
  obtain ⟨-, rfl⟩ := ok_inj h
  have moved : ∀ source target id e, t.earnings.find? id = some e → ¬id = reversal.earningId →
      (moveStatus t.earnings (· = reversal.earningId) source target).find? id = some e := by
    intro source target id e known other
    rw [find?_moveStatus, known, Option.map_some,
      if_neg fun both => other (of_decide_eq_true both.1)]
  cases state with
  | applied | sellerDebt =>
    exact .of_earnings inv' rfl rfl fun id e known available unspent =>
      ⟨e, moved _ _ id e known unspent, available⟩
  | pendingPayout =>
    exact .of_earnings inv' rfl rfl fun id e known available _ => ⟨e, known, available⟩

end Calls

end Tables

namespace Books

variable {around : Surroundings} {b b' : Books} {batchId k : String}
  {apart touched spent : String → Prop}

@[simp] theorem lift_eq_ok {α : Type} {result : Except Failure α} {a : α} :
    lift result = .ok a ↔ result = .ok a := by
  cases result <;> simp [lift, Except.mapError]

theorem raise_eq_throw {α : Type} (code message : String) :
    (raise code message : Except Fault α) = throw (.raised (.payout code message)) := rfl

theorem mem_itemRows (mem : row ∈ b.itemRows batchId) :
    b.tables.holds batchId row.1.earningId ∧ b.tables.earnings.find? row.1.earningId =
    some row.2 := by
  obtain ⟨i, listed, found⟩ := List.mem_filterMap.mp mem
  obtain ⟨e, known, rfl⟩ := Option.map_eq_some_iff.mp found
  obtain ⟨item, here⟩ := List.mem_filter.mp listed
  exact ⟨Tables.holds_iff.mpr ⟨i, item, of_decide_eq_true here, rfl⟩, known⟩

theorem itemRows_ne_nil (inv : b.tables.Inv) {id : String} (held : b.tables.holds batchId id) :
    b.itemRows batchId ≠ [] := by
  obtain ⟨i, item, rfl, -⟩ := Tables.holds_iff.mp held
  obtain ⟨e, known, -⟩ := inv.itemEarning i item
  have row : (i, e) ∈ b.itemRows i.batchId := by
    refine List.mem_filterMap.mpr ⟨i, List.mem_filter.mpr ⟨item, decide_eq_true rfl⟩, ?_⟩
    rw [known, Option.map_some]
  exact List.ne_nil_of_mem row

theorem exists_held (rows : b.itemRows batchId ≠ []) : ∃ id, b.tables.holds batchId id := by
  obtain ⟨row, mem⟩ := List.exists_mem_of_ne_nil _ rows
  exact ⟨row.1.earningId, (mem_itemRows mem).1⟩

def Spared (b : Books) : Prop :=
  ∀ k o batch, b.operations.find? k = some o → b.tables.batches.find? k = some batch →
    batch.status = .cancelled → ∀ id, b.tables.holds k id →
    ∃ e, b.tables.earnings.find? id = some e ∧ e.status = .available

theorem earningsMatch_of_spared (inv : b.tables.Inv) (spared : b.Spared)
    (known : b.operations.find? batchId = some o)
    (found : b.tables.batches.find? batchId = some batch)
    (items : ∃ id, b.tables.holds batchId id) : b.earningsMatch batchId batch = true := by
  obtain ⟨id, held⟩ := items
  refine decide_eq_true ⟨itemRows_ne_nil inv held, fun row mem => ?_⟩
  obtain ⟨heldRow, earning⟩ := mem_itemRows mem
  cases status : batch.status with
  | prepared =>
    rw [(inv.batched_of_open found (.inl status) heldRow earning).1]
    decide
  | submitted =>
    rw [(inv.batched_of_open found (.inr status) heldRow earning).1]
    decide
  | cancelled =>
    obtain ⟨e, earning', available⟩ :=
      spared batchId o batch known found status row.1.earningId heldRow
    rw [earning] at earning'
    rw [Option.some.inj earning', available]
    decide
  | paid =>
    -- an earning of a paid batch is in no other batch that is under way
    have holder : b.tables.Holder row.1.earningId batchId .paid := ⟨heldRow, batch, found, status⟩
    have fits := inv.statuses row.1.earningId row.2 earning
    cases kind : row.2.status with
    | available =>
      rw [kind] at fits
      cases fits batchId .paid holder
    | batched =>
      rw [kind] at fits
      obtain ⟨k, s, other, -, live, unique⟩ := fits
      rw [← unique batchId .paid holder (by decide)] at other
      rw [← holder.unique other] at live
      simp at live
    | paid | reversed => decide

structure Sound (b : Books) (apart : String → Prop) : Prop where
  inv : b.tables.Inv
  unsettled : b.tables.Unsettled
  ids : ∀ k o k' o', b.operations.find? k = some o → b.operations.find? k' = some o' →
    o.id = o'.id → k = k'
  projected : ∀ k o, b.operations.find? k = some o →
    ∃ batch, b.tables.batches.find? k = some batch ∧ batch.payoutMethod = o.payoutMethod ∧
    (∃ id, b.tables.holds k id) ∧ (¬apart k → statesMatch o batch = true)

theorem sound_empty : Sound .empty apart where
  inv := Tables.Inv.init
  unsettled k batch found := by cases found
  ids k o k' o' found := by cases found
  projected k o found := by cases found

theorem Sound.weaken (h : Sound b fun _ => False) : Sound b apart where
  inv := h.inv
  unsettled := h.unsettled
  ids := h.ids
  projected k o known := by
    obtain ⟨batch, found, method, items, agrees⟩ := h.projected k o known
    exact ⟨batch, found, method, items, fun _ => agrees id⟩

theorem Sound.grow (h : Sound b apart) {t : Tables} (grows : Tables.Grows b.tables t touched spent)
    (only : ∀ k o, b.operations.find? k = some o → touched k → apart k) :
    Sound { b with tables := t } apart where
  inv := grows.inv
  unsettled := grows.unsettled h.unsettled
  ids := h.ids
  projected k o known := by
    obtain ⟨batch, found, method, ⟨id, held⟩, agrees⟩ := h.projected k o known
    obtain ⟨batch', found', method', same⟩ := grows.batches k batch found
    refine ⟨batch', found', method'.trans method, ⟨id, (grows.held k batch id found).mpr held⟩,
      fun here => ?_⟩
    rw [same fun touches => here (only k o known touches)]
    exact agrees here

theorem Spared.grow (spared : b.Spared) (h : Sound b apart) {t : Tables}
    (grows : Tables.Grows b.tables t touched spent)
    (unspent : ∀ k o batch id, b.operations.find? k = some o →
      b.tables.batches.find? k = some batch → batch.status = .cancelled → b.tables.holds k id →
      ¬spent id) (released : ∀ k o batch, b.operations.find? k = some o → touched k →
        t.batches.find? k = some batch → batch.status = .cancelled → ∀ id, t.holds k id →
        ∃ e, t.earnings.find? id = some
      e ∧ e.status = .available) : Spared { b with tables := t } := by
  intro k o batch' known found' cancelled id held
  by_cases here : touched k
  · exact released k o batch' known here found' cancelled id held
  obtain ⟨batch, found, -⟩ := h.projected k o known
  obtain ⟨new, foundNew, -, same⟩ := grows.batches k batch found
  rw [foundNew, same here] at found'
  obtain rfl := Option.some.inj found'
  have before := (grows.held k batch id found).mp held
  obtain ⟨e, earning, available⟩ := spared k o batch known found cancelled id before
  exact grows.available id e earning available (unspent k o batch id known found cancelled before)

section Update

/-- Operations stay, and those that are paid or rejected stay so. -/
def Advances (b b' : Books) : Prop := ∀ k o, b.operations.find? k = some o →
  ∃ o', b'.operations.find? k = some o' ∧ o'.id = o.id ∧ (o.state.final = true → o'.state = o.state)

theorem Advances.refl (b : Books) : Advances b b := fun _ o known => ⟨o, known, rfl, fun _ => rfl⟩

theorem Advances.trans (first : Advances b b') (second : Advances b' b'') : Advances b b'' := by
  intro k o known
  obtain ⟨o', known', id', final'⟩ := first k o known
  obtain ⟨o'', known'', id'', final''⟩ := second k o' known'
  refine ⟨o'', known'', id''.trans id', fun final => ?_⟩
  rw [final'' (by rw [final' final]; exact final), final' final]

theorem Advances.insert {new : Operation}
    (kept : ∀ old, b.operations.find? k = some old → new.id = old.id ∧
      (old.state.final = true → new.state = old.state))
    {t : Tables} {settlements : Dict String Settlement} :
    Advances b ⟨t, b.operations.insert k new, settlements⟩ := by
  intro k' o known
  by_cases here : k = k'
  · subst here
    exact ⟨new, find?_insert_self .., kept o known⟩
  · exact ⟨o, by rw [find?_insert, if_neg here]; exact known, rfl, fun _ => rfl⟩

variable {id : String} {input : Update} {new old : Operation}

theorem updateOperation_ok (h : b.updateOperation around id input = .ok (new, b')) :
    ∃ k old, b.operations.find? k = some old ∧ old.id = id ∧ new = input.apply around.now old ∧
      b' = { b with operations := b.operations.insert k new } ∧ transitionGuard new old = false ∧
      b.projectionGuard k new = false := by
  unfold updateOperation at h
  split at h
  · cases h
  rename_i k old found
  simp only [updateGuards, bind_eq_ok, throw_bind, raise_eq_ok, Bool.not_eq_true] at h
  obtain ⟨_, ⟨-, -, -, transition, projection, -⟩, done⟩ := h
  obtain ⟨rfl, rfl⟩ := ok_inj done
  exact ⟨k, old, (find?_eq_some_iff _ _ _).mpr (List.mem_of_find?_eq_some found),
    by simpa using List.find?_some found, rfl, rfl, transition, projection⟩

theorem state_of_transition (h : transitionGuard new old = false) (final : old.state.final = true) :
    new.state = old.state := by
  simp only [transitionGuard, decide_eq_false_iff_not, not_not, final, not_true_eq_false, false_and,
    or_false] at h
  exact h.symm

theorem updateOperation_advances (h : b.updateOperation around id input = .ok (new, b')) :
    Advances b b' := by
  obtain ⟨k, old, known, -, rfl, rfl, transition, -⟩ := updateOperation_ok h
  refine Advances.insert fun old' known' => ?_
  rw [known] at known'
  obtain rfl := Option.some.inj known'
  exact ⟨rfl, state_of_transition transition⟩

theorem statesMatch_of_guard (unsettled : b.tables.Unsettled)
    (h : b.projectionGuard k new = false) : ∃ batch, b.tables.batches.find? k = some batch ∧
      (statesMatch new batch = true ∨
        new.state = .rejected ∧ new.externalReference = none ∧ batch.status = .prepared) := by
  simp only [projectionGuard, decide_eq_false_iff_not, not_not, Option.any_eq_true] at h
  obtain ⟨batch, found, projects⟩ := h
  refine ⟨batch, found, ?_⟩
  have submitted : batch.status = .submitted ∧ batch.dispatchKey = some new.dispatchKey ∧
      same batch.externalReference new.externalReference = true →
      submittedIdentityMatches new batch = true := by
    rintro ⟨status, key, external⟩
    exact decide_eq_true ⟨status, key, (of_decide_eq_true external).2,
      unsettled k batch found (.inr status)⟩
  unfold statesMatch
  cases state : new.state with
  | dispatching =>
    simp only [state, decide_eq_true_iff] at projects
    exact .inl (decide_eq_true projects.2)
  | uncertain =>
    simp only [state, decide_eq_true_iff] at projects
    exact .inl (decide_eq_true (projects.imp_right (And.imp_right submitted)))
  | submitted =>
    simp only [state, decide_eq_true_iff] at projects
    exact .inl (submitted projects)
  | paid =>
    simp only [state, decide_eq_true_iff] at projects
    obtain ⟨status, key, external, settlement⟩ := projects
    exact .inl (decide_eq_true ⟨status, key, (of_decide_eq_true external).2,
      (of_decide_eq_true settlement).2⟩)
  | rejected =>
    simp only [state, decide_eq_true_iff] at projects
    rcases projects with ⟨none, prepared | cancelled⟩ | ⟨some, matched⟩
    · exact .inr ⟨rfl, none, prepared⟩
    · exact .inl (decide_eq_true (.inl ⟨none, cancelled⟩))
    · exact .inl (decide_eq_true (.inr ⟨some, submitted matched⟩))

theorem Sound.close (h : Sound b (· = k)) (agrees : ∀ o batch, b.operations.find? k = some o →
    b.tables.batches.find? k = some batch → statesMatch o batch = true) :
    Sound b fun _ => False where
  inv := h.inv
  unsettled := h.unsettled
  ids := h.ids
  projected k' o known := by
    obtain ⟨batch, found, method, items, matched⟩ := h.projected k' o known
    refine ⟨batch, found, method, items, fun _ => ?_⟩
    by_cases here : k' = k
    · subst here
      exact agrees o batch known found
    · exact matched here

theorem Sound.write (h : Sound b (· = k)) (new : Operation)
    (known : b.operations.find? k = some old) (id : new.id = old.id)
    (method : new.payoutMethod = old.payoutMethod) :
    Sound { b with operations := b.operations.insert k new } (· = k) where
  inv := h.inv
  unsettled := h.unsettled
  ids := by
    have ids : ∀ k' o, (b.operations.insert k new).find? k' = some o →
        ∃ o', b.operations.find? k' = some o' ∧ o.id = o'.id :=
      forall_find?_insert ⟨old, known, id⟩ fun k' o found => ⟨o, found, rfl⟩
    intro k₁ o₁ k₂ o₂ found₁ found₂ same
    obtain ⟨p₁, known₁, id₁⟩ := ids k₁ o₁ found₁
    obtain ⟨p₂, known₂, id₂⟩ := ids k₂ o₂ found₂
    exact h.ids k₁ p₁ k₂ p₂ known₁ known₂ (id₁.symm.trans (same.trans id₂))
  projected := by
    obtain ⟨batch, foundBatch, methods, items, -⟩ := h.projected k old known
    exact forall_find?_insert
      ⟨batch, foundBatch, methods.trans method.symm, items, fun apart => absurd rfl apart⟩
      h.projected

theorem Sound.updateOperation (h : Sound b (· = k))
    (known : b.operations.find? k = some old)
    (ok : b.updateOperation around old.id input = .ok (new, b')) :
    b' = { b with operations := b.operations.insert k new } ∧ new.state = input.state ∧
    Sound b' (· = k) ∧
      (new.state ≠ .rejected ∨ new.externalReference ≠ none → Sound b' fun _ => False) := by
  obtain ⟨k', old', known', sameId, rfl, rfl, -, projection⟩ := updateOperation_ok ok
  obtain rfl := h.ids k' old' k old known' known sameId
  rw [known] at known'
  obtain rfl := Option.some.inj known'
  have written := h.write (input.apply around.now old) known rfl rfl
  refine ⟨rfl, rfl, written, fun other => written.close fun o batch found foundBatch => ?_⟩
  obtain ⟨batch', foundBatch', agrees⟩ := statesMatch_of_guard h.unsettled projection
  rw [find?_insert_self] at found
  rw [← Option.some.inj found, Option.mem_unique foundBatch foundBatch']
  rcases agrees with agrees | ⟨rejected, unsubmitted, -⟩
  · exact agrees
  rcases other with other | other
  · exact absurd rejected other
  · exact absurd unsubmitted other

end Update

section Keeps

structure Keeps (b b' : Books) : Prop where
  sound : Sound b' fun _ => False
  advances : Advances b b'
  spared : b.Spared → b'.Spared

variable {operation : Operation} {result : DispatchResult} {transfer : Transfer} {reconciled : Bool}
  {o : Operation} {t : Tables}

theorem not_cancelled_of_statesMatch (h : statesMatch o batch = true)
    (state : o.state ≠ .rejected) : batch.status ≠ .cancelled := by
  intro cancelled
  unfold statesMatch at h
  cases kind : o.state with
  | rejected => exact state kind
  | dispatching => simp [kind, cancelled] at h
  | uncertain | submitted => simp [kind, cancelled, submittedIdentityMatches] at h
  | paid => simp [kind, cancelled, paidIdentityMatches] at h

theorem Spared.write {new : Operation} (spared : b.Spared) (known : b.operations.find? k = some o) :
    Spared { b with operations := b.operations.insert k new } := by
  intro k' o' batch known' found
  by_cases here : k = k'
  · subst here
    exact spared k o batch known found
  · rw [find?_insert, if_neg here] at known'
    exact spared k' o' batch known' found

theorem Keeps.of_update {input : Update} (h : Sound b fun _ => False)
    (known : b.operations.find? batchId = some o)
    (grows : Tables.Grows b.tables t (· = batchId) fun _ => False)
    (ok : updateOperation around { b with tables := t } o.id input = .ok (new, b'))
    (state : input.state ≠ .rejected) : Keeps b b' := by
  have grown : Sound { b with tables := t } (· = batchId) := h.weaken.grow grows fun _ _ _ => id
  have advances : Advances { b with tables := t } b' := updateOperation_advances ok
  obtain ⟨rfl, written, -, sound⟩ := grown.updateOperation known ok
  replace sound := sound (.inl (written ▸ state))
  refine ⟨sound, advances, fun spared => ?_⟩
  have before : Spared { b with tables := t } := by
    refine spared.grow h grows (fun _ _ _ _ _ _ _ _ => id) fun k _ batch _ here found cancelled =>
      ?_
    subst here
    obtain ⟨batch', found', -, -, agrees⟩ := sound.projected k new (find?_insert_self ..)
    rw [found] at found'
    obtain rfl := Option.some.inj found'
    exact absurd cancelled (not_cancelled_of_statesMatch (agrees id) (written ▸ state))
  exact before.write known

section Cancelled

variable {moment : Moment} {dispatch : Option Dispatch} {answer : Tables.PayoutMutationResult}
  {t t' : Tables}

theorem cancelPrepared_cancels (ok : t.cancelPrepared moment batchId dispatch = .ok (answer, t'))
    (found : t'.batches.find? batchId = some batch) : batch.status = .cancelled := by
  obtain ⟨rfl, old, foundOld, cancelled⟩ | ⟨old, -, -, -, rfl⟩ := Tables.cancelPrepared_writes ok
  · rw [Option.mem_unique found foundOld]
    exact cancelled
  · rw [find?_insert_self] at found
    rw [← Option.some.inj found]

theorem cancelPrepared_releases (inv : t.Inv)
    (ok : t.cancelPrepared moment batchId dispatch = .ok (answer, t'))
    (released : ∀ batch, t.batches.find? batchId = some batch → batch.status = .cancelled →
      ∀ id, t.holds batchId id → ∃ e, t.earnings.find? id = some e ∧ e.status = .available)
    (id : String) (held : t'.holds batchId id) :
    ∃ e, t'.earnings.find? id = some e ∧ e.status = .available := by
  obtain ⟨rfl, batch, found, cancelled⟩ | ⟨batch, found, prepared, -, rfl⟩ :=
    Tables.cancelPrepared_writes ok
  · exact released batch found cancelled id held
  obtain ⟨i, item, -, rfl⟩ := Tables.holds_iff.mp held
  obtain ⟨e, known, -⟩ := inv.itemEarning i item
  obtain ⟨batched, -⟩ := inv.batched_of_open found (.inl prepared) held known
  refine ⟨{ e with status := .available }, ?_, rfl⟩
  rw [Tables.find?_moveStatus, known, Option.map_some, if_pos ⟨held, batched⟩]

end Cancelled

theorem applyObservation_keeps (h : Sound b fun _ => False)
    (known : b.operations.find? batchId = some o) (same : o.id = operation.id)
    (ok : b.applyObservation around batchId operation transfer reconciled = .ok (result, b')) :
    Keeps b b' := by
  unfold applyObservation at ok
  rw [← same] at ok
  cases transfer with
  | rejected reason =>
    simp only [bind_eq_ok] at ok
    obtain ⟨⟨new, b₁⟩, updated, ok⟩ := ok
    have advances := updateOperation_advances updated
    obtain ⟨rfl, state, written, sound⟩ := Sound.updateOperation h.weaken known updated
    have now : (b.operations.insert batchId new).find? batchId = some new := find?_insert_self ..
    split at ok
    · rename_i unsubmitted
      simp only [bind_eq_ok, lift_eq_ok] at ok
      obtain ⟨⟨answer, t⟩, cancelled, done⟩ := ok
      obtain ⟨-, rfl⟩ := ok_inj done
      have grows : Tables.Grows b.tables t (· = batchId) fun _ => False :=
        Tables.cancelPrepared_grows h.inv cancelled
      have grown : Sound { b with tables := t, operations := b.operations.insert batchId new }
          (· = batchId) :=
        written.grow grows fun _ _ _ => id
      refine ⟨grown.close fun o' batch known' found => ?_, advances, fun spared => ?_⟩
      · obtain rfl := Option.mem_unique now known'
        unfold statesMatch
        rw [state]
        exact decide_eq_true (.inl ⟨unsubmitted, cancelPrepared_cancels cancelled found⟩)
      refine (spared.write known).grow written grows (fun _ _ _ _ _ _ _ _ => id)
        fun k _ batch _ here _ _ => ?_
      subst here
      exact cancelPrepared_releases h.inv cancelled fun batch found => spared k o batch known found
    · rename_i submitted
      simp only [bind_eq_ok] at ok
      obtain ⟨batch, -, done⟩ := ok
      obtain ⟨-, rfl⟩ := ok_inj done
      exact ⟨sound (.inr submitted), advances, fun spared => spared.write known⟩
  | submitted externalReference =>
    simp only [bind_eq_ok, lift_eq_ok] at ok
    obtain ⟨⟨answer, t⟩, marked, ⟨new, b₁⟩, updated, batch, -, done⟩ := ok
    obtain ⟨-, rfl⟩ := ok_inj done
    exact .of_update h known (Tables.markSubmitted_grows h.inv marked) updated (by simp)
  | paid externalReference settlementReference paidAt =>
    simp only [bind_eq_ok, lift_eq_ok] at ok
    obtain ⟨⟨answer, t⟩, marked, ⟨answer', t'⟩, settled, ⟨new, b₁⟩, updated, batch, -, done⟩ := ok
    obtain ⟨-, rfl⟩ := ok_inj done
    have first : Tables.Grows b.tables t (· = batchId) fun _ => False :=
      Tables.markSubmitted_grows h.inv marked
    exact .of_update h known (first.trans (Tables.markPaid_grows first.inv settled)) updated
      (by simp)

theorem recordEvidence_ok (ok : b.recordEvidence around batchId evidence = .ok b') :
    ∃ settlements, b' = { b with settlements := settlements } := by
  unfold recordEvidence at ok
  split at ok
  · split at ok
    · exact ⟨_, (Except.ok.inj ok).symm⟩
    · cases ok
  split at ok
  · cases ok
  · exact ⟨_, (Except.ok.inj ok).symm⟩

theorem recordSettlement_keeps (h : Sound b fun _ => False)
    (ok : b.recordSettlement service around batchId evidence = .ok (result, b')) : Keeps b b' := by
  unfold recordSettlement at ok
  split at ok
  · cases ok
  rename_i operation known
  simp only [raise_eq_throw, bind_eq_ok, throw_bind, raise_eq_ok] at ok
  obtain ⟨batch, -, _, -, -, _, -, -, recorded, evidenced, ⟨settled, after⟩, applied, done⟩ := ok
  obtain ⟨-, rfl⟩ := ok_inj done
  obtain ⟨settlements, rfl⟩ := recordEvidence_ok evidenced
  have sound : Sound { b with settlements := settlements } fun _ => False :=
    ⟨h.inv, h.unsettled, h.ids, h.projected⟩
  have keeps := applyObservation_keeps sound known rfl applied
  exact ⟨keeps.sound, keeps.advances, keeps.spared⟩

theorem createOperation_ok {quote : Option SporeQuote} (none : b.operations.find? batchId = none)
    (ok : b.createOperation around batchId batch quote = .ok ((operation, created), b')) :
    created = true ∧ operation.state = .dispatching ∧ operation.payoutMethod = batch.payoutMethod ∧
      (∀ k o, b.operations.find? k = some o → o.id ≠ operation.id) ∧
      b' = { b with operations := b.operations.insert batchId operation } := by
  unfold createOperation at ok
  rw [none] at ok
  simp only [throw_bind, raise_eq_ok, not_or] at ok
  obtain ⟨⟨fresh, -⟩, done⟩ := ok
  obtain ⟨answer, rfl⟩ := ok_inj done
  obtain ⟨rfl, rfl⟩ := Prod.mk.inj answer
  exact ⟨rfl, rfl, rfl, fun k o known same => fresh ⟨o, mem_values_of_find? known, .inl same⟩, rfl⟩

theorem Keeps.of_create (h : Sound b fun _ => False) (none : b.operations.find? batchId = none)
    (found : b.tables.batches.find? batchId = some batch) (prepared : batch.status = .prepared)
    (items : ∃ id, b.tables.holds batchId id) (state : operation.state = .dispatching)
    (method : operation.payoutMethod = batch.payoutMethod)
    (fresh : ∀ k o, b.operations.find? k = some o → o.id ≠ operation.id) :
    Keeps b { b with operations := b.operations.insert batchId operation } where
  sound := {
    inv := h.inv
    unsettled := h.unsettled
    ids := unique_insert h.ids fresh
    projected := by
      refine forall_find?_insert ⟨batch, found, method.symm, items, fun _ => ?_⟩ h.projected
      unfold statesMatch
      rw [state]
      exact decide_eq_true prepared }
  advances := Advances.insert fun old known => by
    rw [none] at known
    cases known
  spared := fun spared k o batch' known foundK cancelled => by
    rcases of_find?_insert known with ⟨rfl, -⟩ | ⟨-, known⟩
    · rw [Option.mem_unique foundK found, prepared] at cancelled
      cases cancelled
    · exact spared k o batch' known foundK cancelled

theorem dispatch_ok {started : DispatchResult ⊕ Operation × TransferRequest}
    (h : Sound b fun _ => False) (ok : b.dispatch service around batchId = .ok (started, b')) :
    ((∃ result, started = .inl result) ∧ b' = b) ∨
    ∃ operation request, started = .inr (operation, request) ∧ request.batchId = batchId ∧
      b.operations.find? batchId = none ∧ b'.operations.find? batchId = some operation ∧
      Keeps b b' := by
  simp only [dispatch, bind_eq_ok] at ok
  obtain ⟨current, -, ok⟩ := ok
  split at ok
  · simp only [bind_eq_ok] at ok
    obtain ⟨_, -, done⟩ := ok
    obtain ⟨rfl, rfl⟩ := ok_inj done
    exact .inl ⟨⟨_, rfl⟩, rfl⟩
  rename_i none
  simp only [bind_eq_ok] at ok
  obtain ⟨batch, required, _, integrity, _, -, _, -, quote, -, ⟨⟨operation, created⟩, b₁⟩, create,
    ok⟩ := ok
  obtain ⟨rfl, state, method, fresh, rfl⟩ := createOperation_ok none create
  rw [if_neg (by simp)] at ok
  obtain ⟨rfl, rfl⟩ := ok_inj ok
  simp only [requirePreparedBatch, raise_eq_throw, bind_eq_ok, throw_bind, raise_eq_ok,
    not_not, requireBatch, lift_eq_ok] at required
  obtain ⟨batch', gotten, prepared, done⟩ := required
  obtain rfl := Except.ok.inj done
  have items : b.itemRows batchId ≠ [] := by
    intro empty
    simp [assertBatchEconomicIntegrity, empty, raise] at integrity
  exact .inr ⟨operation, _, rfl, rfl, none, find?_insert_self .., .of_create h none
    (Tables.getBatchRequired_ok gotten) prepared (exists_held items) state method fresh⟩

theorem reconcile_known (ok : b.reconcile service around batchId = .ok (.inr operation)) :
    b.operations.find? batchId = some operation := by
  unfold reconcile at ok
  split at ok
  · cases ok
  rename_i found
  simp only [bind_eq_ok] at ok
  obtain ⟨batch, -, _, -, ok⟩ := ok
  split at ok
  · cases Except.ok.inj ok
  simp only [bind_eq_ok] at ok
  obtain ⟨_, -, _, -, done⟩ := ok
  rw [found, Sum.inr.inj (Except.ok.inj done)]

end Keeps

end Books

section Steps

variable {s : State}

structure State.Kept (s : State) : Prop where
  sound : s.books.Sound fun _ => False
  calls : ∀ n w, s.calls.find? n = some w → ∃ o, s.books.operations.find? w.batchId = some o ∧
    o.id = w.operation.id

def Books.released (b : Books) (earningId : String) : Bool :=
  b.operations.keys.any fun k =>
    (b.tables.batches.find? k).any (·.status = .cancelled) && b.tables.holds k earningId

/-- Earnings that a rejected dispatch released are neither allocated nor reversed. -/
def Spares (s : State) : Event → Prop
  | .prepare input _ => ∀ id ∈ input.earningIds, s.books.released id = false
  | .recordEarningReversal reversal => s.books.released reversal.earningId = false
  | _ => True

structure Follows (s s' : State) (spares : Prop) : Prop where
  kept : s'.Kept
  advances : Books.Advances s.books s'.books
  spared : spares → s.books.Spared → s'.books.Spared

theorem Follows.refl (kept : s.Kept) : Follows s s spares := ⟨kept, .refl _, fun _ => id⟩

theorem Books.Advances.calls (advances : Books.Advances s.books books) (kept : s.Kept) :
    ∀ n w, s.calls.find? n = some w → ∃ o, books.operations.find? w.batchId = some o ∧
    o.id = w.operation.id := by
  intro n w waiting
  obtain ⟨o, known, id⟩ := kept.calls n w waiting
  obtain ⟨o', known', id', -⟩ := advances w.batchId o known
  exact ⟨o', known', id'.trans id⟩

theorem Follows.of_keeps (kept : s.Kept) (keeps : Books.Keeps s.books books) :
    Follows s { s with books := books } spares :=
  ⟨⟨keeps.sound, keeps.advances.calls kept⟩, keeps.advances, fun _ => keeps.spared⟩

theorem transact_follows (kept : s.Kept)
    (keeps : ∀ r books, result = .ok (r, books) → Books.Keeps s.books books) :
    Follows s (s.transact result).1 spares := by
  unfold State.transact
  split
  · exact .refl kept
  · exact .of_keeps kept (keeps _ _ rfl)

theorem leaveUncertain_follows (kept : s.Kept)
    (known : s.books.operations.find? waiting.batchId = some o) (same : o.id = waiting.operation.id)
    (lastError : String) (reconciledAt : Option Nat) (duplicate : Bool) :
    Follows s (s.leaveUncertain around waiting lastError reconciledAt duplicate).1 spares := by
  unfold State.leaveUncertain
  split
  · exact .refl kept
  rename_i updated
  rw [← same] at updated
  exact .of_keeps kept (.of_update kept.sound known (.refl kept.sound.inv) updated (by simp))

theorem State.Kept.erase (kept : s.Kept) (call : Nat) :
    State.Kept { s with calls := s.calls.erase call } :=
  ⟨kept.sound, fun n w waiting => kept.calls n w (find?_of_erase waiting)⟩

theorem Follows.of_erase (follows : Follows { s with calls := s.calls.erase call } s' spares) :
    Follows s s' spares := ⟨follows.kept, follows.advances, follows.spared⟩

theorem created_follows (kept : s.Kept)
    (known : s.books.operations.find? waiting.batchId = some o) (same : o.id = waiting.operation.id)
    (answer : Except String Transfer) : Follows s (s.created around waiting answer).1 spares := by
  unfold State.created
  split
  · exact leaveUncertain_follows kept known same _ _ _
  rename_i ok
  obtain ⟨transfer, -, applied⟩ := bind_eq_ok.mp ok
  exact .of_keeps kept (Books.applyObservation_keeps kept.sound known same applied)

theorem inspected_follows (kept : s.Kept)
    (known : s.books.operations.find? waiting.batchId = some o) (same : o.id = waiting.operation.id)
    (answer : Except String (Option Transfer)) :
    Follows s (s.inspected around waiting answer).1 spares := by
  unfold State.inspected
  split
  · exact .refl kept
  · exact leaveUncertain_follows kept known same _ _ _
  · exact transact_follows kept fun _ _ => Books.applyObservation_keeps kept.sound known same

theorem manage_follows (touched spent : String → Prop) (kept : s.Kept)
    (grows : ∀ t, s.books.tables.call service.host (call, around.toMoment) = .ok ((), t) →
      Tables.Grows s.books.tables t touched spent)
    (untouched : ∀ k o, s.books.operations.find? k = some o → ¬touched k)
    (unspent : spares → ∀ id, spent id → s.books.released id = false) :
    Follows s (s.manage service around call).1 spares := by
  unfold State.manage
  split
  · exact .refl kept
  rename_i t ok
  have grown := grows t ok
  have sound := kept.sound.grow grown untouched
  refine ⟨⟨sound, kept.calls⟩, .refl s.books, fun spares spared => ?_⟩
  refine spared.grow kept.sound grown (fun k o batch id known found cancelled held spends => ?_)
    fun k o _ known touches => absurd touches (untouched k o known)
  have released : s.books.released id = true := by
    refine List.any_eq_true.mpr ⟨k, mem_keys_of_find? known, ?_⟩
    rw [found, held]
    simp [cancelled]
  rw [unspent spares id spends] at released
  cases released

theorem cancelPrepared_follows (kept : s.Kept) :
    Follows s (s.manage service around (.cancelPrepared batchId (s.books.dispatchOf batchId))).1
    spares := by
  cases known : s.books.operations.find? batchId with
  | none =>
    refine manage_follows (· = batchId) (fun _ => False) kept (fun t ok => ?_) ?_ fun _ _ =>
      False.elim
    · obtain ⟨answer, done, -, rfl⟩ := map_ok_inj ok
      exact Tables.cancelPrepared_grows kept.sound.inv done
    rintro k o here rfl
    rw [known] at here
    cases here
  | some o =>
    refine manage_follows (fun _ => False) (fun _ => False) kept (fun t ok => ?_) (fun _ _ _ => id)
      fun _ _ => False.elim
    obtain ⟨answer, done, -, rfl⟩ := map_ok_inj ok
    obtain ⟨same, -⟩ | ⟨batch, found, prepared, safe, -⟩ := Tables.cancelPrepared_writes done
    · rw [same]
      exact .refl kept.sound.inv
    obtain ⟨decided, unsubmitted⟩ : decide (o.state = .rejected) = true ∧
        o.externalReference = none :=
      safe ⟨_, _, o.settlementReference⟩ (by rw [Books.dispatchOf, known]; rfl)
    obtain ⟨batch', found', -, -, agrees⟩ := kept.sound.projected batchId o known
    rw [Option.mem_unique found' found] at agrees
    simp [Books.statesMatch, of_decide_eq_true decided, unsubmitted, prepared] at agrees

theorem handle_follows (kept : s.Kept) (event : Event) :
    Follows s (s.handle service around event).1 (Spares s event) := by
  cases event with
  | setPayoutPreference sellerId method =>
    refine manage_follows (fun _ => False) (fun _ => False) kept (fun t ok => ?_) (fun _ _ _ => id)
      fun _ _ => False.elim
    have inv := Tables.call_inv kept.sound.inv ok
    simp only [Tables.call, Tables.setPayoutPreference, bind_eq_ok] at ok
    obtain ⟨_, -, done⟩ := ok
    obtain ⟨-, rfl⟩ := ok_inj done
    exact .of_earnings inv rfl rfl fun id e known available _ => ⟨e, known, available⟩
  | recordAcceptedReceipt receipt =>
    refine manage_follows (fun _ => False) (fun _ => False) kept (fun t ok => ?_) (fun _ _ _ => id)
      fun _ _ => False.elim
    obtain ⟨answer, done, -, rfl⟩ := map_ok_inj ok
    exact Tables.recordAcceptedReceipt_grows kept.sound.inv done
  | recordEarningReversal reversal =>
    refine manage_follows (fun _ => False) (· = reversal.earningId) kept (fun t ok => ?_)
      (fun _ _ _ => id) ?_
    · obtain ⟨answer, done, -, rfl⟩ := map_ok_inj ok
      exact Tables.recordEarningReversal_grows kept.sound.inv done
    · rintro unreleased id rfl
      exact unreleased
  | prepare input destination =>
    refine manage_follows (fun _ => False) (· ∈ input.earningIds) kept (fun t ok => ?_)
      (fun _ _ _ => id) ?_
    · obtain ⟨answer, done, -, rfl⟩ := map_ok_inj ok
      exact Tables.prepare_grows kept.sound.inv done
    · exact fun unreleased => unreleased
  | cancelPrepared batchId => exact cancelPrepared_follows kept
  | recordSettlement batchId evidence =>
    exact transact_follows kept fun _ _ => Books.recordSettlement_keeps kept.sound
  | dispatch call batchId =>
    simp only [State.handle]
    split
    · exact .refl kept
    split
    · exact .refl kept
    · rename_i ok
      obtain ⟨-, rfl⟩ | ⟨_, _, started, -⟩ := Books.dispatch_ok kept.sound ok
      · exact .refl kept
      · cases started
    · rename_i operation request books ok
      obtain ⟨⟨_, started⟩, -⟩ | ⟨_, _, started, -, -, known, keeps⟩ :=
        Books.dispatch_ok kept.sound ok
      · cases started
      obtain ⟨rfl, -⟩ := Prod.mk.inj (Sum.inr.inj started)
      refine ⟨⟨keeps.sound, ?_⟩, keeps.advances, fun _ => keeps.spared⟩
      exact forall_find?_insert ⟨operation, known, rfl⟩ (keeps.advances.calls kept)
  | reconcile call batchId =>
    simp only [State.handle]
    split
    · exact .refl kept
    split
    · exact .refl kept
    · exact .refl kept
    · rename_i operation ok
      refine ⟨⟨kept.sound, ?_⟩, .refl _, fun _ => id⟩
      exact forall_find?_insert ⟨operation, Books.reconcile_known ok, rfl⟩ kept.calls
  | created call answer =>
    simp only [State.handle]
    split
    · rename_i waiting found
      obtain ⟨o, known, same⟩ := kept.calls call waiting found
      split
      · exact (created_follows (kept.erase call) known same answer).of_erase
      · exact .refl kept
    · exact .refl kept
  | inspected call answer =>
    simp only [State.handle]
    split
    · rename_i waiting found
      obtain ⟨o, known, same⟩ := kept.calls call waiting found
      split
      · exact (inspected_follows (kept.erase call) known same answer).of_erase
      · exact .refl kept
    · exact .refl kept

end Steps

section Runs

variable {s : State}

theorem kept_empty : State.Kept .empty := ⟨Books.sound_empty, fun n w waiting => by cases waiting⟩

theorem final_kept (events : List (Surroundings × Event)) :
    (final (dispatchStep service) .empty events).Kept :=
  final_invariant (P := State.Kept) (fun _ i kept => (handle_follows kept i.2).kept) kept_empty
    events

theorem final_advances (kept : s.Kept) (events : List (Surroundings × Event)) :
    Books.Advances s.books (final (dispatchStep service) s events).books := by
  induction events generalizing s with
  | nil => exact .refl _
  | cons i events ih =>
    have follows : Follows s (dispatchStep service s i).1 (Spares s i.2) := handle_follows kept i.2
    exact follows.advances.trans (ih follows.kept)

theorem final_spared
    (spares : ∀ x ∈ trace (dispatchStep service) .empty events, Spares x.pre x.input.2) :
    (final (dispatchStep service) .empty events).Kept ∧
    (final (dispatchStep service) .empty events).books.Spared := by
  refine final_invariant_of (P := fun s : State => s.Kept ∧ s.books.Spared)
    (C := fun s i => Spares s i.2) (fun s i spares before => ?_) ⟨kept_empty,
      fun k o batch known => by cases known⟩ spares
  have follows : Follows s (dispatchStep service s i).1 (Spares s i.2) :=
    handle_follows before.1 i.2
  exact ⟨follows.kept, follows.spared spares before.2⟩

def Reply.creates (batchId : String) : Reply → Bool
  | .createTransfer request => request.batchId = batchId
  | _ => false

section Replies

variable (batchId : String)

@[simp] theorem manage_creates (call : Tables.Call) :
    (s.manage service around call).2.creates batchId = false := by
  unfold State.manage
  split <;> rfl

@[simp] theorem transact_creates (result : Except Fault (Books.DispatchResult × Books)) :
    (s.transact result).2.creates batchId = false := by
  unfold State.transact
  split <;> rfl

@[simp] theorem leaveUncertain_creates (waiting : Waiting) (lastError : String)
    (reconciledAt : Option Nat) (duplicate : Bool) :
    (s.leaveUncertain around waiting lastError reconciledAt duplicate).2.creates batchId =
    false := by
  unfold State.leaveUncertain
  split
  · rfl
  · simp only
    split <;> rfl

@[simp] theorem created_creates (waiting : Waiting) (answer : Except String Transfer) :
    (s.created around waiting answer).2.creates batchId = false := by
  unfold State.created
  split
  · exact leaveUncertain_creates ..
  · rfl

@[simp] theorem inspected_creates (waiting : Waiting) (answer : Except String (Option Transfer)) :
    (s.inspected around waiting answer).2.creates batchId = false := by
  unfold State.inspected
  split
  · rfl
  · exact leaveUncertain_creates ..
  · exact transact_creates ..

end Replies

theorem creates_fresh (kept : s.Kept)
    (created : (dispatchStep service s i).2.creates batchId = true) :
    s.books.operations.find? batchId = none ∧
      (dispatchStep service s i).1.books.operations.find? batchId ≠ none := by
  obtain ⟨around, event⟩ := i
  cases event with
  | dispatch call k =>
    simp only [dispatchStep, State.handle] at created ⊢
    split at created
    · cases created
    rename_i unused
    rw [if_neg unused]
    split at created
    · cases created
    · cases created
    · rename_i operation request books ok
      obtain ⟨⟨_, started⟩, -⟩ | ⟨_, _, started, here, none, known, -⟩ :=
        Books.dispatch_ok kept.sound ok
      · cases started
      obtain ⟨rfl, rfl⟩ := Prod.mk.inj (Sum.inr.inj started)
      obtain rfl := here.symm.trans (of_decide_eq_true created)
      exact ⟨none, by simp [known]⟩
  | reconcile call k =>
    simp only [dispatchStep, State.handle] at created
    split at created
    · cases created
    · split at created <;> cases created
  | created call answer | inspected call answer =>
    simp only [dispatchStep, State.handle] at created
    split at created
    · split at created
      · simp at created
      · cases created
    · cases created
  | _ => simp [dispatchStep, State.handle] at created

theorem created_at_most_once (batchId : String) (events : List (Surroundings × Event)) :
    (trace (dispatchStep service) .empty events).countP (·.output.creates batchId) ≤ 1 := by
  refine trace_countP_le_one (P := State.Kept)
    (S := fun s => s.books.operations.find? batchId ≠ none)
    (fun _ i kept => (handle_follows kept i.2).kept) (fun s i kept present => ?_)
    (fun s i kept created => ?_) kept_empty events
  · obtain ⟨o, known⟩ := Option.ne_none_iff_exists'.mp present
    have follows : Follows s (dispatchStep service s i).1 (Spares s i.2) := handle_follows kept i.2
    obtain ⟨o', known', -⟩ := follows.advances batchId o known
    simp [known']
  · obtain ⟨none, present⟩ := creates_fresh kept created
    exact ⟨fun some => some none, present⟩

/-- For every interleaving, a batch is handed to the provider at most once and a paid or rejected
operation stays so. If no released earning is allocated again or reversed, every operation agrees
with its batch. -/
theorem dispatch_keeps_projection (service : Service) (events : List (Surroundings × Event)) :
    (∀ batchId, (trace (dispatchStep service) .empty events).countP (·.output.creates batchId) ≤
      1) ∧
    (∀ earlier later, events = earlier ++ later → ∀ batchId o,
      (final (dispatchStep service) .empty earlier).books.operations.find? batchId = some o →
      o.state.final = true →
      ∃ o', (final (dispatchStep service) .empty events).books.operations.find? batchId = some o' ∧
        o'.state = o.state) ∧
    ((∀ x ∈ trace (dispatchStep service) .empty events, Spares x.pre x.input.2) → ∀ batchId o,
      (final (dispatchStep service) .empty events).books.operations.find? batchId = some o →
      ∃ batch, (final (dispatchStep service) .empty events).books.tables.batches.find? batchId =
      some batch ∧
        (final (dispatchStep service) .empty events).books.projectionIntegrity batchId o batch =
        true) := by
  refine ⟨fun batchId => created_at_most_once batchId events, ?_, ?_⟩
  · rintro earlier later rfl batchId o known terminal
    obtain ⟨o', known', -, same⟩ := final_advances (final_kept earlier) later batchId o known
    rw [final_append]
    exact ⟨o', known', same terminal⟩
  intro spares batchId o known
  obtain ⟨kept, spared⟩ := final_spared spares
  obtain ⟨batch, found, method, items, agrees⟩ := kept.sound.projected batchId o known
  refine ⟨batch, found, decide_eq_true ⟨?_, method, agrees id⟩⟩
  exact Books.earningsMatch_of_spared kept.sound.inv spared known found items

instance (s : State) (event : Event) : Decidable (Spares s event) := by
  cases event <;> dsimp only [Spares] <;> infer_instance

def digest : String := String.ofList (List.replicate 64 'a')

def signed : String := String.ofList (List.replicate 80 'a')

def openHost : Host :=
  ⟨⟨1, ⟨true, true, true, true⟩, false, by decide⟩, ⟨[("key", "public")], by decide⟩,
    fun _ _ => true, fun _ _ => true, fun sellerId _ ids => "|".intercalate (sellerId :: ids)⟩

def work (receiptId jobId : String) (amount : Nat) : SignedWorkReceipt :=
  ⟨"mycellios.work-receipt.v1", receiptId, "seller", "worker", jobId, "stage", "v1", amount, digest,
    true, 1, "key", signed⟩

def openService : Service := ⟨openHost, fun _ => true, false⟩

def Surroundings.of (now : Nat) (newId : String) : Surroundings :=
  ⟨⟨now, newId, true⟩, .ok none, fun _ => none⟩

def reused : List (Surroundings × Event) := [
  (.of 1 "e1", .recordAcceptedReceipt (work "r1" "j1" 50)),
  (.of 2 "b1", .prepare ⟨"seller", .stable, ["e1"], "k1"⟩ none),
  (.of 3 "d1", .dispatch 0 "b1"),
  (.of 4 "", .created 0 (.ok (.rejected "account closed"))),
  (.of 5 "b2", .prepare ⟨"seller", .stable, ["e1"], "k2"⟩ none)]

theorem reused_earning_breaks_projection :
    ((final (dispatchStep openService) .empty reused).books.operations.find? "b1").map (·.state) =
    some .rejected ∧
    Option.map₂ ((final (dispatchStep openService) .empty reused).books.projectionIntegrity "b1")
      ((final (dispatchStep openService) .empty reused).books.operations.find? "b1")
      ((final (dispatchStep openService) .empty reused).books.tables.batches.find? "b1") =
      some false := by
  decide +kernel

def answeredLate : List (Surroundings × Event) := [
  (.of 1 "e1", .recordAcceptedReceipt (work "r1" "j1" 50)),
  (.of 2 "e2", .recordAcceptedReceipt (work "r2" "j2" 70)),
  (.of 3 "b1", .prepare ⟨"seller", .stable, ["e1"], "k1"⟩ none),
  (.of 4 "b2", .prepare ⟨"seller", .stable, ["e2"], "k2"⟩ none),
  (.of 5 "d1", .dispatch 0 "b1"),
  (.of 6 "", .reconcile 1 "b1"),
  (.of 7 "", .reconcile 2 "b1"),
  (.of 8 "", .created 0 (.error "timeout")),
  (.of 9 "", .inspected 2 (.ok (some (.paid "x1" "s1" 9)))),
  (.of 10 "", .inspected 1 (.ok (some (.submitted "x1")))),
  (.of 11 "d2", .dispatch 3 "b2"),
  (.of 12 "", .created 3 (.ok (.rejected "account closed")))]

def rejectedOperation : Operation :=
  ⟨"d2", .stable, "payout:b2", .rejected, none, none, none, none, some "account closed", 11,
    12, none⟩

theorem answeredLate_agrees :
    (final (dispatchStep openService) .empty answeredLate).books.operations.find? "b2" =
    some rejectedOperation ∧
    ∃ batch, (final (dispatchStep openService) .empty answeredLate).books.tables.batches.find?
    "b2" = some batch ∧
      (final (dispatchStep openService) .empty answeredLate).books.projectionIntegrity "b2"
      rejectedOperation batch = true := by
  have known : (final (dispatchStep openService) .empty answeredLate).books.operations.find? "b2" =
      some rejectedOperation := by decide +kernel
  exact ⟨known, (dispatch_keeps_projection openService answeredLate).2.2 (by decide +kernel) "b2"
    rejectedOperation known⟩

end Runs

end Mycellios.Payouts
