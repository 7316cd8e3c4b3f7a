import Mycellios.Payouts.Conservation

namespace Mycellios.Payouts.Tables

open Data List Logic

variable {moment : Moment} {t t' : Tables} {batchId b : String} {s : PayoutStatus}

section Paid

structure Resolved (now : Nat) (ps : List (String × EarningReversal)) (t u : Tables) : Prop where
  items : u.items = t.items
  batches : u.batches = t.batches
  earnings : ∀ id, u.earnings.find? id = (t.earnings.find? id).map fun e =>
    if (∃ p ∈ ps, p.2.earningId = id) ∧ e.status = .paid then { e with status := .reversed } else e
  reversals : ∀ id, u.reversals.find? id = (t.reversals.find? id).map fun r =>
    if id ∈ ps.map Prod.fst ∧ r.state = .pendingPayout then
      { r with state := .sellerDebt, resolvedAt := some now } else r
  conserved : ∀ seller, (u.debt seller : Int) + t.reversals.sumBy (debtOf seller) =
    t.debt seller + u.reversals.sumBy (debtOf seller)

variable {p : String × EarningReversal} {result : PayoutMutationResult}
  {settlementReference : String} {paidAt : Nat}

theorem resolveReversal_conserved (now : Nat) (found : t.reversals.find? p.1 = some p.2)
    (pending : p.2.state = .pendingPayout) (seller : String) :
    ((resolveReversal now t p).debt seller : Int) + t.reversals.sumBy (debtOf seller) =
      t.debt seller + (resolveReversal now t p).reversals.sumBy (debtOf seller) := by
  have written : (resolveReversal now t p).reversals =
      t.reversals.insert p.1 { p.2 with state := .sellerDebt, resolvedAt := some now } := by
    rw [resolveReversal, Dict.mapValues_eq_insert found fun id row other => if_neg fun both =>
      other both.1, if_pos ⟨rfl, pending⟩]
  have before : debtOf seller p.2 = 0 := by simp [debtOf, pending]
  have owed : ((resolveReversal now t p).debt seller : Int) = t.debt seller +
      debtOf seller { p.2 with state := .sellerDebt, resolvedAt := some now } := by
    rw [debt, resolveReversal, debt_addDebt, debt, debtOf]
    by_cases mine : p.2.sellerId = seller <;> simp [mine]
  rw [written, Dict.sumBy_insert, found, owed]
  simp only [Option.map_some, Option.getD_some, before]
  omega

theorem foldl_resolveReversal (now : Nat) (nodup : (ps.map Prod.fst).Nodup)
    (found : ∀ p ∈ ps, t.reversals.find? p.1 = some p.2 ∧ p.2.state = .pendingPayout) :
    Resolved now ps t (ps.foldl (resolveReversal now) t) := by
  induction ps generalizing t with
  | nil => exact ⟨rfl, rfl, fun id => by simp, fun id => by simp, fun seller => rfl⟩
  | cons p ps ih =>
    obtain ⟨later, nodup⟩ := nodup_cons.mp nodup
    obtain ⟨here, pending⟩ := found p mem_cons_self
    have rest : ∀ q ∈ ps, (resolveReversal now t p).reversals.find? q.1 = some q.2 ∧
        q.2.state = .pendingPayout := by
      intro q mem
      obtain ⟨listed, waits⟩ := found q (mem_cons_of_mem p mem)
      have other : q.1 ≠ p.1 := fun same => later (same ▸ mem_map_of_mem mem)
      exact ⟨by simp [resolveReversal, listed, other], waits⟩
    have done := ih nodup rest
    refine ⟨done.items, done.batches, fun id => ?_, fun id => ?_, fun seller => ?_⟩
    · rw [foldl_cons, done.earnings, resolveReversal, find?_moveStatus, Option.map_map]
      congr 1
      funext e
      by_cases mine : id = p.2.earningId
      · by_cases paid : e.status = .paid <;> simp [mine, paid]
      · simp only [Function.comp_apply, exists_mem_cons_iff, mine, Ne.symm mine, decide_false,
          Bool.false_eq_true, false_and, if_false, false_or]
    · rw [foldl_cons, done.reversals, resolveReversal, Dict.find?_mapValues, Option.map_map]
      congr 1
      funext r
      by_cases mine : id = p.1
      · by_cases waits : r.state = .pendingPayout <;> simp [mine, waits]
      · simp only [Function.comp_apply, map_cons, mem_cons, mine, false_and, if_false, false_or]
    · have one := resolveReversal_conserved now here pending seller
      have more := done.conserved seller
      rw [foldl_cons]
      omega

theorem mem_pendingReversals : p ∈ t.pendingReversals batchId ↔
    t.reversals.find? p.1 = some p.2 ∧ p.2.state = .pendingPayout ∧
    t.holds batchId p.2.earningId := by
  rw [pendingReversals, mem_filter, Dict.find?_eq_some_iff, decide_eq_true_iff]

theorem pendingReversals_nodup : ((t.pendingReversals batchId).map Prod.fst).Nodup :=
  t.reversals.nodup.sublist (filter_sublist.map Prod.fst)

theorem markPaid_writes
    (h : t.markPaid moment batchId settlementReference paidAt = .ok (result, t')) :
    t' = t ∨ ∃ batch u, t.batches.find? batchId = some batch ∧ batch.status = .submitted ∧
      u = { t with
        batches := t.batches.insert batchId { batch with
          status := .paid
          settlementReference := some settlementReference
          paidAt := some paidAt
          updatedAt := moment.now }
        earnings := t.earnings.mapValues fun id e => if t.holds batchId id then
          { e with status := .paid } else e } ∧
      Resolved moment.now (t.pendingReversals batchId) u t' := by
  simp only [markPaid, bind_eq_ok, throw_bind, raise_eq_ok] at h
  obtain ⟨_, -, _, -, -, batch, required, h⟩ := h
  split at h
  · simp only [raise_eq_ok] at h
    exact .inl (mutation_ok h.2)
  split at h
  · cases h
  rename_i submitted
  split at h
  · cases h
  have ended := mutation_ok h
  have resolved := ended ▸ foldl_resolveReversal moment.now pendingReversals_nodup fun p mem =>
    (mem_pendingReversals.mp mem).imp_right And.left
  exact .inr ⟨batch, _, getBatchRequired_ok required, not_not.mp submitted, rfl, resolved⟩

theorem markPaid_ok (h : t.markPaid moment batchId settlementReference paidAt = .ok (result, t')) :
    t' = t ∨ ∃ batch batch' u, Moved t t' batchId batch batch' ∧ batch.status = .submitted ∧
    batch'.status = .paid ∧
      Resolved moment.now (t.pendingReversals batchId) u t' ∧ u.reversals = t.reversals ∧
      u.debts = t.debts ∧ u.earnings = t.earnings.mapValues fun id e => if t.holds batchId id then
      { e with status := .paid } else e := by
  obtain same | ⟨batch, u, found, submitted, rfl, resolved⟩ := markPaid_writes h
  · exact .inl same
  · exact .inr ⟨batch, _, _, ⟨found, resolved.items, resolved.batches, rfl, rfl, rfl, rfl⟩,
      submitted, rfl, resolved, rfl, rfl, rfl⟩

theorem markPaid_inv (inv : t.Inv)
    (h : t.markPaid moment batchId settlementReference paidAt = .ok (result, t')) : t'.Inv := by
  obtain rfl | ⟨batch, batch', u, moved, submitted, paid, resolved, sameReversals, sameDebts,
      sameEarnings⟩ :=
    markPaid_ok h
  · exact inv
  have waits : ∀ {id r}, t.reversals.find? id = some r →
      (id ∈ (t.pendingReversals batchId).map Prod.fst ↔ r.state = .pendingPayout ∧
        t.holds batchId r.earningId) := by
    intro id r listed
    simp only [mem_map, mem_pendingReversals]
    refine ⟨?_, fun both => ⟨(id, r), ⟨listed, both⟩, rfl⟩⟩
    rintro ⟨p, ⟨found, both⟩, rfl⟩
    exact Option.mem_unique found listed ▸ both
  have heldBy : ∀ {id}, (∃ p ∈ t.pendingReversals batchId, p.2.earningId = id) →
      t.holds batchId id := by
    rintro id ⟨p, mem, rfl⟩
    exact (mem_pendingReversals.mp mem).2.2
  refine inv.advance moved
    (fun id e => if t.holds batchId id then
      (if ∃ p ∈ t.pendingReversals batchId, p.2.earningId = id then .reversed else .paid)
        else e.status)
    (fun id r => if id ∈ (t.pendingReversals batchId).map Prod.fst ∧ r.state = .pendingPayout then
      .sellerDebt
      else r.state)
    (fun id r => if id ∈ (t.pendingReversals batchId).map Prod.fst ∧ r.state = .pendingPayout then
      some moment.now
      else r.resolvedAt) ?_ ?_ ?_ ?_ ?_
  · intro id
    rw [resolved.earnings, sameEarnings, Dict.find?_mapValues, Option.map_map]
    congr 1
    funext e
    by_cases held : t.holds batchId id
    · by_cases back : ∃ p ∈ t.pendingReversals batchId, p.2.earningId = id <;>
        simp only [Function.comp_apply, held, back, true_and, false_and, if_true, if_false]
    · have kept : ¬∃ p ∈ t.pendingReversals batchId, p.2.earningId = id :=
        fun back => held (heldBy back)
      simp only [Function.comp_apply, held, kept, false_and, if_false, Bool.false_eq_true]
  · intro id
    rw [resolved.reversals, sameReversals]
    congr 1
    funext r
    split <;> rfl
  · intro id e known
    by_cases held : t.holds batchId id
    · obtain ⟨-, alone⟩ := inv.batched_of_open moved.found (.inr submitted) held known
      have only : Only (t'.Holder id) (· = .paid) :=
        moved.only held alone (by rw [paid]; decide) paid
      rw [if_pos held]
      split
      · exact .inr only
      · exact only
    · rw [if_neg held, moved.holder_of_not_held held]
      exact inv.statuses id e known
  · intro id r e listed known stands
    by_cases held : t.holds batchId r.earningId
    · -- an earning of a submitted batch is batched, so its reversal waits
      obtain ⟨batched, -⟩ := inv.batched_of_open moved.found (.inr submitted) held known
      have pending : r.state = .pendingPayout := by
        rw [Stands, batched] at stands
        split at stands
        · assumption
        · cases stands
      have mem := (waits listed).mpr ⟨pending, held⟩
      have back : ∃ p ∈ t.pendingReversals batchId, p.2.earningId = r.earningId :=
        ⟨(id, r), mem_pendingReversals.mpr ⟨listed, pending, held⟩, rfl⟩
      simp only [if_pos held, if_pos back, if_pos (And.intro mem pending)]
      rfl
    · have kept : ¬(id ∈ (t.pendingReversals batchId).map Prod.fst ∧ r.state = .pendingPayout) :=
          fun both =>
        held ((waits listed).mp both.1).2
      simp only [if_neg held, if_neg kept]
      refine Stands.transport stands fun b holder => ?_
      rw [moved.holder_of_not_held held]
      exact holder
  · intro seller
    have before := inv.conserved seller
    have same : offsetOf seller batch' = offsetOf seller batch := by
      simp [offsetOf, submitted, paid, moved.seller, moved.offset]
    have after := resolved.conserved seller
    have owed : u.debt seller = t.debt seller := by rw [debt, debt, sameDebts]
    rw [sameReversals, owed] at after
    rw [moved.sumBy_offset, same]
    omega

end Paid

section Prepared

variable {earningIds : List String}

theorem mem_requestedRows :
    row ∈ t.requestedRows earningIds ↔ t.earnings.find? row.1 = some row.2 ∧
    row.1 ∈ earningIds := by
  rw [requestedRows, mem_insertionSort, mem_filter, Dict.find?_eq_some_iff, decide_eq_true_iff]

theorem requestedRows_nodup : ((t.requestedRows earningIds).map Prod.fst).Nodup := by
  rw [requestedRows, ((perm_insertionSort _ _).map Prod.fst).nodup_iff]
  exact t.earnings.nodup.sublist (filter_sublist.map Prod.fst)

theorem checkRows_ok (h : t.checkRows sellerId method rows = .ok ()) :
    ∀ row ∈ rows, row.2.status = .available := by
  induction rows with
  | nil => exact fun row mem => absurd mem not_mem_nil
  | cons row rows ih =>
    simp only [checkRows, throw_bind, raise_eq_ok, not_not] at h
    obtain ⟨-, -, available, -, h⟩ := h
    exact forall_mem_cons.mpr ⟨available, ih h⟩

structure Prepared (t t' : Tables) (batchId : String) (batch : PayoutBatch)
    (earningIds : List String) : Prop where
  missing : t.batches.find? batchId = none
  available : ∀ id ∈ earningIds, ∀ e, t.earnings.find? id = some e → e.status = .available
  prepared : batch.status = .prepared
  gross : batch.grossUsdMicros = ((t.requestedRows earningIds).map (·.2.amountUsdMicros)).sum
  offset : batch.debtOffsetUsdMicros = min (t.debt batch.sellerId) batch.grossUsdMicros
  amount : batch.amountUsdMicros = batch.grossUsdMicros - batch.debtOffsetUsdMicros
  batches : t'.batches = t.batches.insert batchId batch
  items : t'.items = t.items ++ (t.requestedRows earningIds).map fun row =>
    ⟨batchId, row.1, row.2.amountUsdMicros⟩
  earnings : t'.earnings = moveStatus t.earnings (· ∈ earningIds) .available .batched
  reversals : t'.reversals = t.reversals
  debts : ∀ seller, t'.debt seller = t.debt seller - if batch.sellerId = seller then
    batch.debtOffsetUsdMicros else 0

theorem debt_take (offset : Nat) (bound : offset ≤ t.debt seller)
    (debts : t'.debts = match t.debts.find? seller with
      | some debt => if 0 < offset then t.debts.insert seller (debt - offset) else t.debts
      | none => t.debts) :
    t'.debt other = t.debt other - if seller = other then offset else 0 := by
  rw [debt] at bound
  rw [debt, debt, debts]
  cases owed : t.debts.find? seller with
  | none =>
    rw [owed] at bound
    simp only [Option.getD_none, Nat.le_zero] at bound
    simp [bound]
  | some amount =>
    by_cases some_taken : 0 < offset
    · by_cases here : seller = other
      · subst here
        simp [some_taken, owed]
      · simp [some_taken, here]
    · have zero : offset = 0 := by omega
      simp [zero]

theorem prepare_ok (h : t.prepare host moment input destination = .ok (result, t')) :
    t' = t ∨ ∃ batch, Prepared t t' moment.newId batch
    (input.earningIds.dedup.insertionSort (· ≤ ·)) ∧
      batch.settlementReference = none := by
  simp only [prepare, bind_eq_ok, throw_bind, raise_eq_ok] at h
  obtain ⟨_, -, _, -, _, -, -, _, -, h⟩ := h
  split at h
  · simp only [raise_eq_ok] at h
    exact .inl (mutation_ok h.2)
  simp only [raise_eq_ok, bind_eq_ok] at h
  obtain ⟨-, _, checked, -, -, h⟩ := h
  simp only [insertBatch, throw_bind, raise_eq_ok, not_or] at h
  obtain ⟨⟨fresh, -⟩, h⟩ := h
  rw [mutation_ok h]
  exact .inr ⟨_, {
    missing := by simpa [Dict.contains] using fresh
    available := fun id mem e found => checkRows_ok checked (id, e)
      (mem_requestedRows.mpr ⟨found, mem⟩)
    prepared := rfl
    gross := rfl
    offset := rfl
    amount := rfl
    batches := rfl
    items := rfl
    earnings := rfl
    reversals := rfl
    debts := fun seller => debt_take _ (min_le_left _ _) rfl }, rfl⟩

section

variable (prep : Prepared t t' batchId batch earningIds) (inv : t.Inv) {id : String}

include prep inv

theorem Prepared.not_held (id : String) : ¬t.holds batchId id := by
  intro held
  obtain ⟨i, mem, same, -⟩ := holds_iff.mp held
  exact (t.batches.find?_eq_none_iff batchId).mp prep.missing (same ▸ inv.itemBatch i mem)

theorem Prepared.holds_iff (b id : String) : t'.holds b id ↔
    if batchId = b then id ∈ earningIds ∧ (∃ e, t.earnings.find? id = some e)
        else t.holds b id := by
  have new : t'.holds b id ↔ t.holds b id ∨ batchId = b ∧ id ∈ earningIds ∧
      ∃ e, t.earnings.find? id = some e := by
    rw [Tables.holds_iff, Tables.holds_iff, prep.items]
    simp only [mem_append, mem_map, mem_requestedRows, or_and_right, exists_or]
    refine or_congr Iff.rfl ⟨?_, ?_⟩
    · rintro ⟨i, ⟨row, ⟨found, mem⟩, rfl⟩, rfl, rfl⟩
      exact ⟨rfl, mem, row.2, found⟩
    · rintro ⟨rfl, mem, e, found⟩
      exact ⟨_, ⟨(id, e), ⟨found, mem⟩, rfl⟩, rfl, rfl⟩
  rw [new]
  split
  · rename_i here
    subst here
    simp [prep.not_held inv]
  · rename_i other
    simp [other]

theorem Prepared.holder (id b : String) (s : PayoutStatus) : t'.Holder id b s ↔ if batchId = b then
    (id ∈ earningIds ∧ ∃ e, t.earnings.find? id = some e) ∧ s = .prepared else t.Holder id b s := by
  rw [Holder, prep.holds_iff inv, prep.batches, Dict.find?_insert]
  split
  · simp [prep.prepared, eq_comm]
  · rfl

theorem Prepared.keep (holder : t.Holder id b s) : t'.Holder id b s := by
  rw [prep.holder inv, if_neg]
  · exact holder
  · rintro rfl
    exact prep.not_held inv id holder.1

theorem Prepared.fits (known : t.earnings.find? id = some e) :
    Fits (t'.Holder id) (if id ∈ earningIds ∧ e.status = .available then .batched
      else e.status) := by
  have fits := inv.statuses id e known
  by_cases mem : id ∈ earningIds
  · have available := prep.available id mem e known
    rw [available] at fits
    rw [if_pos ⟨mem, available⟩]
    refine ⟨batchId, .prepared, ?_, by decide, .inl rfl, fun b s other live => ?_⟩
    · rw [prep.holder inv, if_pos rfl]
      exact ⟨⟨mem, e, known⟩, rfl⟩
    rw [prep.holder inv] at other
    split at other
    · rename_i here
      exact here.symm
    · exact absurd (fits b s other) live
  · have same : t'.Holder id = t.Holder id := by
      funext b s
      refine propext ⟨fun holder => ?_, prep.keep inv⟩
      rw [prep.holder inv] at holder
      split at holder
      · exact absurd holder.1.1 mem
      · exact holder
    rw [if_neg fun both => mem both.1, same]
    exact fits

theorem Prepared.amounts {b : PayoutBatch} (found : t'.batches.find? id = some b) :
    b.grossUsdMicros = ((t'.items.filter (·.batchId = id)).map (·.amountUsdMicros)).sum ∧
      b.debtOffsetUsdMicros ≤ b.grossUsdMicros ∧
      b.amountUsdMicros = b.grossUsdMicros - b.debtOffsetUsdMicros := by
  rw [prep.items, filter_append, filter_map]
  rcases Dict.of_find?_insert (prep.batches ▸ found) with ⟨rfl, rfl⟩ | ⟨other, found⟩
  · have old : t.items.filter (·.batchId = batchId) = [] := by
      refine filter_eq_nil_iff.mpr fun i mem same => prep.not_held inv i.earningId ?_
      exact Tables.holds_iff.mpr ⟨i, mem, of_decide_eq_true same, rfl⟩
    refine ⟨?_, by rw [prep.offset]; exact min_le_right _ _, prep.amount⟩
    rw [old, prep.gross]
    simp [Function.comp_def]
  have new : (t.requestedRows earningIds).filter ((fun i : PayoutItem => decide (i.batchId = id)) ∘
      fun row => ⟨batchId, row.1, row.2.amountUsdMicros⟩) = [] :=
    filter_eq_nil_iff.mpr fun row mem same => other (of_decide_eq_true same)
  rw [new, map_nil, append_nil]
  exact inv.amounts id b found

theorem Prepared.itemKeys : (t'.items.map fun i => (i.batchId, i.earningId)).Nodup := by
  rw [prep.items, map_append, map_map, nodup_append']
  refine ⟨inv.itemKeys, ?_, ?_⟩
  · have rows : ((t.requestedRows earningIds).map Prod.fst).Nodup := requestedRows_nodup
    have pairs := rows.map (f := fun id => (batchId, id)) fun a b same => (Prod.mk.inj same).2
    rwa [map_map] at pairs
  intro k old new
  obtain ⟨i, mem, rfl⟩ := mem_map.mp old
  obtain ⟨row, -, same⟩ := mem_map.mp new
  exact prep.not_held inv i.earningId
    (Tables.holds_iff.mpr ⟨i, mem, (Prod.mk.inj same).1.symm, rfl⟩)

theorem Prepared.conserved : t'.Conserved := by
  intro seller
  have before := inv.conserved seller
  have owed := prep.debts seller
  have bound : batch.debtOffsetUsdMicros ≤ t.debt batch.sellerId := by
    rw [prep.offset]; exact min_le_left _ _
  have added : t'.batches.sumBy (offsetOf seller) = t.batches.sumBy (offsetOf seller) +
      offsetOf seller batch := by
    rw [prep.batches, Dict.sumBy_insert, prep.missing]
    simp
  rw [prep.reversals, added, owed, offsetOf, prep.prepared]
  by_cases mine : batch.sellerId = seller
  · subst mine
    simp only [if_true, true_and, ne_eq, reduceCtorEq, not_false_eq_true]
    omega
  · simp only [mine, if_false, false_and]
    omega

theorem Prepared.keeps : t'.Inv := by
  have find : ∀ id, t'.earnings.find? id = (t.earnings.find? id).map fun e =>
      { e with status :=
        if id ∈ earningIds ∧ e.status = .available then .batched else e.status } := by
    intro id
    rw [prep.earnings, find?_moveStatus]
    congr 1
    funext e
    simp only [decide_eq_true_iff]
    split <;> rfl
  exact {
    receipts := by
      intro id e id' e' new new' same
      obtain ⟨old, listed, rfl⟩ := Dict.of_find?_map find new
      obtain ⟨old', listed', rfl⟩ := Dict.of_find?_map find new'
      exact inv.receipts id old id' old' listed listed' same
    itemKeys := prep.itemKeys inv
    itemBatch := by
      intro i mem
      rw [prep.items] at mem
      rw [prep.batches, Dict.mem_keys_insert]
      rcases mem_append.mp mem with old | new
      · exact .inr (inv.itemBatch i old)
      · obtain ⟨row, -, rfl⟩ := mem_map.mp new
        exact .inl rfl
    itemEarning := by
      intro i mem
      rw [prep.items] at mem
      have known : ∃ e, t.earnings.find? i.earningId = some e ∧
          e.amountUsdMicros = i.amountUsdMicros := by
        rcases mem_append.mp mem with old | new
        · exact inv.itemEarning i old
        · obtain ⟨row, listed, rfl⟩ := mem_map.mp new
          exact ⟨row.2, (mem_requestedRows.mp listed).1, rfl⟩
      obtain ⟨e, listed, amount⟩ := known
      have new := find i.earningId
      rw [listed, Option.map_some] at new
      exact ⟨_, new, amount⟩
    amounts := fun id b found => prep.amounts inv found
    statuses := by
      intro id e new
      obtain ⟨old, listed, rfl⟩ := Dict.of_find?_map find new
      exact prep.fits inv listed
    reversed := by
      intro id r listed
      rw [prep.reversals] at listed
      obtain ⟨e, known, stands⟩ := inv.reversed id r listed
      -- a reversed earning, or one that waits, is not available
      have unavailable : e.status ≠ .available := by
        rw [Stands] at stands
        split at stands
        · rw [stands.1]; decide
        · rw [stands]; decide
      refine ⟨e, ?_, Stands.transport stands fun b => prep.keep inv⟩
      rw [find, known, Option.map_some, if_neg fun both => unavailable both.2]
    once := by
      rw [prep.reversals]
      exact inv.once
    conserved := prep.conserved inv }

end

theorem prepare_inv (inv : t.Inv) (h : t.prepare host moment input destination = .ok (result, t')) :
    t'.Inv := by
  obtain rfl | ⟨batch, prep, -⟩ := prepare_ok h
  · exact inv
  · exact prep.keeps inv

end Prepared

theorem call_inv (inv : t.Inv) (h : t.call host c = .ok (r, t')) : t'.Inv := by
  obtain ⟨c, moment⟩ := c
  cases c with
  | setPayoutPreference sellerId method =>
    simp only [call, setPayoutPreference, bind_eq_ok] at h
    obtain ⟨_, -, done⟩ := h
    obtain ⟨-, rfl⟩ := ok_inj done
    exact { inv with }
  | recordAcceptedReceipt receipt =>
    obtain ⟨_, done, -, rfl⟩ := map_ok_inj h
    exact recordAcceptedReceipt_inv inv done
  | recordEarningReversal reversal =>
    obtain ⟨_, done, -, rfl⟩ := map_ok_inj h
    exact recordEarningReversal_inv inv done
  | prepare input destination =>
    obtain ⟨_, done, -, rfl⟩ := map_ok_inj h
    exact prepare_inv inv done
  | markSubmitted batchId dispatchKey externalReference =>
    obtain ⟨_, done, -, rfl⟩ := map_ok_inj h
    exact markSubmitted_inv inv done
  | markPaid batchId settlementReference paidAt =>
    obtain ⟨_, done, -, rfl⟩ := map_ok_inj h
    exact markPaid_inv inv done
  | cancelPrepared batchId dispatch =>
    obtain ⟨_, done, -, rfl⟩ := map_ok_inj h
    exact cancelPrepared_inv inv done

theorem run_inv (inv : t.Inv) (calls : List (Call × Moment)) : (t.run host calls).Inv :=
  final_invariant (fun _ _ before => commit_invariant (P := Inv) before fun _ _ => call_inv before)
    inv calls

/-- No earning is paid twice, and no debt is lost or made up. -/
structure Sound (t : Tables) : Prop where
  receipts : ∀ id e id' e', t.earnings.find? id = some e → t.earnings.find? id' = some e' →
    e.receiptId = e'.receiptId → id = id'
  items : (t.items.map fun i => (i.batchId, i.earningId)).Nodup
  active : ∀ id e b b' s s', t.earnings.find? id = some e → t.Holder id b s → t.Holder id b' s' →
    s ≠ .cancelled → s' ≠ .cancelled → b = b'
  available : ∀ id e, t.earnings.find? id = some e → e.status = .available →
    ∀ b s, t.Holder id b s → s = .cancelled
  batched : ∀ id e, t.earnings.find? id = some e → e.status = .batched →
    ∃! b, t.Holder id b .prepared ∨ t.Holder id b .submitted
  paid : ∀ id e, t.earnings.find? id = some e → e.status = .paid → ∃! b, t.Holder id b .paid
  gross : ∀ id b, t.batches.find? id = some b →
    b.grossUsdMicros = ((t.items.filter (·.batchId = id)).map (·.amountUsdMicros)).sum
  amount : ∀ id b, t.batches.find? id = some b →
    b.debtOffsetUsdMicros ≤ b.grossUsdMicros ∧ b.amountUsdMicros + b.debtOffsetUsdMicros =
    b.grossUsdMicros
  reversals : ∀ id r id' r', t.reversals.find? id = some r → t.reversals.find? id' = some r' →
    r.earningId = r'.earningId → id = id'
  debts : ∀ seller, (t.debt seller : Int) = t.reversals.sumBy (debtOf seller) - t.batches.sumBy
    (offsetOf seller)

theorem Only.unique {holder : String → PayoutStatus → Prop} {allowed : PayoutStatus → Prop}
    (only : Only holder allowed) (h : holder b s) (h' : holder b' s') (live : s ≠ .cancelled)
    (live' : s' ≠ .cancelled) : b = b' := by
  obtain ⟨_, _, -, -, -, unique⟩ := only
  exact (unique b s h live).trans (unique b' s' h' live').symm

theorem Fits.unique {holder : String → PayoutStatus → Prop} (fits : Fits holder status)
    (h : holder b s) (h' : holder b' s') (live : s ≠ .cancelled) (live' : s' ≠ .cancelled) :
    b = b' := by
  cases status with
  | available => exact absurd (fits b s h) live
  | batched | paid => exact Only.unique fits h h' live live'
  | reversed =>
    rcases fits with free | paid
    · exact absurd (free b s h) live
    · exact paid.unique h h' live live'

theorem Inv.sound (inv : t.Inv) : t.Sound where
  receipts := inv.receipts
  items := inv.itemKeys
  active := fun id e b b' s s' known h h' live live' => (inv.statuses id e known).unique h h'
    live live'
  available := by
    intro id e known available
    have fits := inv.statuses id e known
    rw [available] at fits
    exact fits
  batched := by
    intro id e known batched
    have fits := inv.statuses id e known
    rw [batched] at fits
    obtain ⟨b, s, holder, -, either, unique⟩ := fits
    refine ⟨b, ?_, ?_⟩
    · rcases either with rfl | rfl
      · exact .inl holder
      · exact .inr holder
    rintro b' (prepared | submitted)
    · exact unique b' _ prepared (by decide)
    · exact unique b' _ submitted (by decide)
  paid := by
    intro id e known paid
    have fits := inv.statuses id e known
    rw [paid] at fits
    obtain ⟨b, s, holder, -, rfl, unique⟩ := fits
    exact ⟨b, holder, fun b' other => unique b' _ other (by decide)⟩
  gross := fun id b found => (inv.amounts id b found).1
  amount := by
    intro id b found
    obtain ⟨-, bound, amount⟩ := inv.amounts id b found
    exact ⟨bound, by rw [amount]; exact Nat.sub_add_cancel bound⟩
  reversals := inv.once
  debts := by
    intro seller
    have conserved := inv.conserved seller
    omega

theorem earnings_paid_once (host : Host) (calls : List (Call × Moment)) :
    (Tables.empty.run host calls).Sound :=
  (run_inv Inv.init calls).sound

theorem payouts_refer (host : Host) (calls : List (Call × Moment)) :
    let t := Tables.empty.run host calls
    (∀ i ∈ t.items, i.batchId ∈ t.batches.keys ∧
      ∃ e, t.earnings.find? i.earningId = some e ∧ e.amountUsdMicros = i.amountUsdMicros) ∧
    ∀ id r, t.reversals.find? id = some r → ∃ e, t.earnings.find? r.earningId = some e ∧
        t.Stands r e := by
  have inv : (Tables.empty.run host calls).Inv := run_inv .init calls
  exact ⟨fun i mem => ⟨inv.itemBatch i mem, inv.itemEarning i mem⟩, inv.reversed⟩

end Mycellios.Payouts.Tables
