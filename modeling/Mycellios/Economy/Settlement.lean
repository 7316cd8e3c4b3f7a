import Mycellios.Data.Pointwise
import Mycellios.Economy.Ledger

namespace Mycellios.Economy

open Data List Logic

section Distribution

instance (collation : Collation) : Std.Total (byNode collation) :=
  ⟨fun a b => collation.total a.nodeId b.nodeId⟩

instance (collation : Collation) : IsTrans Contributor (byNode collation) :=
  ⟨fun a b c => collation.trans a.nodeId b.nodeId c.nodeId⟩

theorem safeBigIntToNumber_ok :
    safeBigIntToNumber value error = .ok number ↔ value ≤ maxSafeInteger ∧ value = number := by
  rw [safeBigIntToNumber]
  split
  · simp only [reduceCtorEq, false_iff, not_and]
    omega
  · rw [Except.ok.injEq]
    omega

structure Credit.Share (total whole : Nat) (c : Contributor) (credit : Credit) : Prop where
  nodeId : credit.nodeId = c.nodeId
  amount : credit.amountMicrounits = total * c.weight / whole ∨
    credit.amountMicrounits = total * c.weight / whole + 1

structure Distributed (collation : Collation) (total : Nat) (contributors : List Contributor)
    (credits : List Credit) : Prop where
  shares : List.Forall₂ (Credit.Share total (contributors.map (·.weight)).sum)
    (contributors.insertionSort (byNode collation)) credits
  sum : (credits.map (·.amountMicrounits)).sum = total

theorem distribute_ok (weighted : 0 < (contributors.map (·.weight)).sum)
    (h : distribute collation total contributors = .ok credits) :
    Distributed collation total contributors credits := by
  simp only [distribute, bind_eq_ok, mapM_eq_ok, safeBigIntToNumber_ok] at h
  obtain ⟨floors, made, done⟩ := h
  have perm := perm_insertionSort (byNode collation) contributors
  generalize orderedEq : contributors.insertionSort (byNode collation) = ordered at *
  have whole : (ordered.map (·.weight)).sum = (contributors.map (·.weight)).sum :=
    (perm.map _).sum_eq
  rw [whole] at made
  have floorsEq : ordered.map (fun c =>
      (⟨c.nodeId, total * c.weight / (contributors.map (·.weight)).sum⟩ : Credit)) = floors := by
    refine forall₂_eq_eq_eq ▸ forall₂_map_left_iff.mpr (made.imp fun c credit made => ?_)
    obtain ⟨amount, ⟨-, rfl⟩, done⟩ := made
    exact Except.ok.inj done
  have amounts : floors.map (·.amountMicrounits) =
      (ordered.map (·.weight)).map fun w => total * w / (ordered.map (·.weight)).sum := by
    rw [← floorsEq, whole, map_map, map_map]
    rfl
  have below := sum_floor_le total (whole ▸ weighted)
  have few := rest_lt_length total (whole ▸ weighted)
  rw [← amounts] at below few
  have length : (ordered.map (·.weight)).length = floors.length := by
    rw [← floorsEq, length_map, length_map]
  rw [length] at few
  have left : (total : Int) - ((floors.map (·.amountMicrounits)).sum : Nat) =
      ((total - (floors.map (·.amountMicrounits)).sum : Nat) : Int) := by omega
  rw [left] at done
  obtain rfl := Except.ok.inj done
  constructor
  · have handed :=
      forall₂_handOut Credit.addOne ↑(total - (floors.map (·.amountMicrounits)).sum) floors
    nth_rewrite 1 [← floorsEq] at handed
    rw [orderedEq]
    refine (forall₂_map_left_iff.mp handed).imp fun c credit => ?_
    rintro (rfl | rfl)
    · exact ⟨rfl, .inl rfl⟩
    · exact ⟨rfl, .inr rfl⟩
  · have adds : ∀ c : Credit, c.addOne.amountMicrounits = c.amountMicrounits + 1 := fun _ => rfl
    exact (sum_handOut adds few.le).trans (Nat.add_sub_cancel' below)

theorem Distributed.nodes (h : Distributed collation total contributors credits) :
    (credits.map (·.nodeId)).Perm (contributors.map (·.nodeId)) := by
  have ids : credits.map (·.nodeId) = (contributors.insertionSort (byNode collation)).map
      (·.nodeId) := by
    have shares := h.shares
    clear h
    generalize contributors.insertionSort (byNode collation) = ordered at shares
    induction shares with
    | nil => rfl
    | cons here _ ih => rw [map_cons, map_cons, here.nodeId, ih]
  rw [ids]
  exact (perm_insertionSort _ _).map _

def ToldApart (collation : Collation) (contributors : List Contributor) : Prop :=
  ∀ a ∈ contributors, ∀ b ∈ contributors, collation.le a.nodeId b.nodeId →
    collation.le b.nodeId a.nodeId → a = b

theorem distribute_perm (perm : contributors'.Perm contributors)
    (apart : ToldApart collation contributors) :
    distribute collation total contributors' = distribute collation total contributors := by
  have sorted : contributors'.insertionSort (byNode collation) = contributors.insertionSort
      (byNode collation) := by
    refine List.Perm.eq_of_pairwise ?_ (pairwise_insertionSort _ _) (pairwise_insertionSort _ _)
      ((perm_insertionSort _ _).trans (perm.trans (perm_insertionSort _ _).symm))
    intro a b ha hb
    exact apart a (perm.mem_iff.mp ((mem_insertionSort _).mp ha)) b ((mem_insertionSort _).mp hb)
  rw [distribute, sorted]
  rfl

end Distribution

namespace EconomicLedger

section Writes

variable {l : EconomicLedger} {new : List EntryRow}

structure Named (host : Host) (l : EconomicLedger) : Prop where
  id : ∀ a ∈ l.accounts, a.id = host.digests.account a.ownerKind a.ownerId
  nodup : (l.accounts.map (·.id)).Nodup

structure Wrote (host : Host) (l l' : EconomicLedger) (new : List EntryRow) : Prop where
  rest : l' = { l with accounts := l'.accounts, entries := l.entries ++ new }
  accounts : l.accounts <+: l'.accounts
  named : l'.Named host
  known : ∀ e ∈ new, e.accountId ∈ l'.accounts.map (·.id)

theorem Wrote.refl (named : l.Named host) : Wrote host l l [] :=
  ⟨by rw [append_nil], prefix_rfl, named, by simp⟩

theorem Wrote.trans (h : Wrote host l l' new) (h' : Wrote host l' l'' new') :
    Wrote host l l'' (new ++ new') where
  rest := by
    rw [h'.rest, h.rest]
    simp only [append_assoc]
  accounts := h.accounts.trans h'.accounts
  named := h'.named
  known := by
    intro e mem
    rcases mem_append.mp mem with old | mem
    · exact (h'.accounts.map (·.id)).subset (h.known e old)
    · exact h'.known e mem

theorem ensureAccount_wrote (named : l.Named host) (kind : OwnerKind) (owner : String)
    (createdAt : Nat) : Wrote host l (l.ensureAccount host kind owner createdAt) [] ∧
      host.digests.account kind owner ∈ (l.ensureAccount host kind owner createdAt).accounts.map
      (·.id) := by
  rw [ensureAccount]
  split
  · rename_i found
    refine ⟨.refl named, ?_⟩
    obtain ⟨a, mem, same⟩ := any_eq_true.mp found
    rcases of_decide_eq_true same with same | ⟨rfl, rfl⟩
    · exact mem_map.mpr ⟨a, mem, same⟩
    · exact mem_map.mpr ⟨a, mem, named.id a mem⟩
  rename_i missing
  have fresh : host.digests.account kind owner ∉ l.accounts.map (·.id) := by
    intro mem
    obtain ⟨a, listed, same⟩ := mem_map.mp mem
    exact missing (any_eq_true.mpr ⟨a, listed, decide_eq_true (.inl same)⟩)
  refine ⟨⟨by simp, prefix_append .., ⟨?_, ?_⟩, by simp⟩, by simp⟩
  · intro a mem
    rcases mem_append.mp mem with old | new
    · exact named.id a old
    · rw [mem_singleton.mp new]
  · rw [map_append]
    exact named.nodup.append (nodup_singleton _) (by simpa using fresh)

theorem insertEntry_wrote (named : l.Named host) (known : accountId ∈ l.accounts.map (·.id))
    (h : l.insertEntry host settlementId accountId category amount createdAt = .ok l') :
    Wrote host l l' [entryRow host settlementId accountId category amount createdAt] := by
  rw [insertEntry] at h
  split at h
  · cases h
  · obtain rfl := Except.ok.inj h
    exact ⟨rfl, prefix_rfl, ⟨named.id, named.nodup⟩, by simpa [entryRow] using known⟩

def workEntries (host : Host) (settlementId : String) (createdAt : Nat) (credits : List Credit) :
    List EntryRow :=
  (credits.filter (·.amountMicrounits ≠ 0)).map fun c =>
    entryRow host settlementId (host.digests.account .node c.nodeId) .work c.amountMicrounits
      createdAt

theorem insertWork_wrote (named : l.Named host)
    (h : insertWork host settlementId createdAt credits l = .ok l') :
    Wrote host l l' (workEntries host settlementId createdAt credits) := by
  induction credits generalizing l with
  | nil =>
    obtain rfl := Except.ok.inj h
    exact .refl named
  | cons credit credits ih =>
    rw [insertWork] at h
    split at h
    · rename_i zero
      rw [workEntries, filter_cons_of_neg (by simpa using zero)]
      exact ih named h
    rename_i some
    rw [workEntries, filter_cons_of_pos (by simpa using some), map_cons]
    obtain ⟨opened, known⟩ := ensureAccount_wrote named .node credit.nodeId createdAt
    obtain ⟨middle, inserted, rest⟩ := bind_eq_ok.mp h
    have entered := insertEntry_wrote opened.named known inserted
    exact (opened.trans entered).trans (ih entered.named rest)

end Writes

section Record

variable {host : Host} {l l' : EconomicLedger} {input : EconomicSettlementInput} {p : Priced}
  {s : EconomicSettlement}

def Priced.entries (host : Host) (input : EconomicSettlementInput) (p : Priced) : List EntryRow :=
  entryRow host (p.settlementId host input) (host.digests.account .account input.payerAccountId)
      .usage (-(p.gross : Int)) input.createdAt ::
    (workEntries host (p.settlementId host input) input.createdAt p.credits ++
      if 0 < p.platform then
        [entryRow host (p.settlementId host input) (host.digests.account .platform "mycellios")
          .platformFee p.platform input.createdAt]
      else [])

structure Recorded (host : Host) (input : EconomicSettlementInput) (p : Priced)
    (l l' : EconomicLedger) : Prop where
  policies : l'.pricingPolicies = l.pricingPolicies
  settlements : l'.settlements = l.settlements ++ [p.row host input]
  fresh : ∀ r ∈ l.settlements, r.id ≠ p.settlementId host input ∧ r.jobId ≠ input.jobId ∧
    r.executionReceiptId ≠ input.executionReceiptId
  accounts : l.accounts <+: l'.accounts
  named : l'.Named host
  entries : l'.entries = l.entries ++ p.entries host input
  known : ∀ e ∈ p.entries host input, e.accountId ∈ l'.accounts.map (·.id)
  balanced : sumAt (·.settlementId) (·.amountMicrounits) (p.settlementId host input) l'.entries = 0
  reputation : l'.reputation =
    p.evidence.participants.foldl (addReputation p.evidence p.credits input.createdAt) l.reputation
  receipts : l'.receipts = l.receipts ++ [p.receipt host input]

theorem insertSettlement_ok (h : l.insertSettlement row = .ok l') :
    l' = { l with settlements := l.settlements ++ [row] } ∧
      ∀ r ∈ l.settlements, r.id ≠ row.id ∧ r.jobId ≠ row.jobId ∧
      r.executionReceiptId ≠ row.executionReceiptId := by
  rw [insertSettlement] at h
  split at h
  · cases h
  rename_i fresh
  refine ⟨(Except.ok.inj h).symm, fun r mem => ?_⟩
  have other := fun same => fresh (any_eq_true.mpr ⟨r, mem, decide_eq_true same⟩)
  exact ⟨fun same => other (.inl same), fun same => other (.inr (.inl same)),
    fun same => other (.inr (.inr (.inl same)))⟩

theorem signReceipt_ok (h : signReceipt host receipt = .ok signed) : signed = receipt := by
  simp only [signReceipt] at h
  split at h
  · cases h
  split at h
  · cases h
  · exact (Except.ok.inj h).symm

theorem insertReceipt_ok (h : l.insertReceipt host receipt = .ok l') :
    l' = { l with receipts := l.receipts ++ [receipt] } := by
  rw [insertReceipt] at h
  split at h
  · cases h
  · exact (Except.ok.inj h).symm

theorem record_ok (named : l.Named host) (h : l.record host input p = .ok (s, l')) :
    Recorded host input p l l' ∧ l'.readSettlement (p.settlementId host input) = .ok s := by
  simp only [record, bind_eq_ok, throw_bind, raise_eq_ok] at h
  obtain ⟨l₁, inserted, l₂, usage, l₃, work, l₄, fee, balanced, receipt, signed, l₅, stored, found,
    read, done⟩ := h
  obtain ⟨rfl, rfl⟩ := ok_inj done
  obtain ⟨rfl, fresh⟩ := insertSettlement_ok inserted
  have named₁ : Named host { l with settlements := l.settlements ++ [p.row host input] } :=
    ⟨named.id, named.nodup⟩
  obtain ⟨payer, payerKnown⟩ := ensureAccount_wrote named₁ .account input.payerAccountId
    input.createdAt
  obtain ⟨platform, platformKnown⟩ :=
    ensureAccount_wrote payer.named .platform "mycellios" input.createdAt
  have used := insertEntry_wrote platform.named ((platform.accounts.map _).subset payerKnown) usage
  have worked := insertWork_wrote used.named work
  have feeKnown := ((used.trans worked).accounts.map (·.id)).subset platformKnown
  have paid : Wrote host l₃ l₄ (if 0 < p.platform then
      [entryRow host (p.settlementId host input) (host.digests.account .platform "mycellios")
        .platformFee p.platform input.createdAt] else []) := by
    rw [insertFee] at fee
    split at fee
    · rename_i some
      rw [if_pos some]
      exact insertEntry_wrote worked.named feeKnown fee
    rename_i none
    rw [if_neg none, ← Except.ok.inj fee]
    exact .refl worked.named
  have wrote := (payer.trans platform).trans (used.trans (worked.trans paid))
  obtain rfl := signReceipt_ok signed
  obtain rfl := insertReceipt_ok stored
  have rest := wrote.rest
  refine ⟨⟨?_, ?_, fresh, ?_, ⟨wrote.named.id, wrote.named.nodup⟩, ?_, ?_, ?_, ?_, ?_⟩, read⟩
  · rw [rest]
  · rw [rest]
  · exact wrote.accounts
  · rw [rest]
    rfl
  · exact wrote.known
  · exact not_not.mp balanced
  · rw [rest]
  · rw [rest]

end Record

section Credits

variable {credits : List Credit}

theorem creditOf_cons (c : Credit) (credits : List Credit) (node : String) :
    creditOf (c :: credits) node = if c.nodeId = node then c.amountMicrounits
    else creditOf credits node := by
  by_cases here : c.nodeId = node
  · simp [creditOf, find?_cons_of_pos, here]
  · simp [creditOf, find?_cons_of_neg, here]

theorem creditOf_eq_zero (missing : node ∉ credits.map (·.nodeId)) : creditOf credits node = 0 := by
  have none : credits.find? (·.nodeId = node) = none := by
    refine find?_eq_none.mpr fun c mem => ?_
    simpa using fun same => missing (mem_map.mpr ⟨c, mem, same⟩)
  rw [creditOf, none]
  rfl

theorem sumAt_workEntries (nodup : (credits.map (·.nodeId)).Nodup) :
    sumAt (·.accountId) (·.amountMicrounits) (host.digests.account .node node)
      (workEntries host settlementId createdAt credits) = creditOf credits node := by
  induction credits with
  | nil => rfl
  | cons c credits ih =>
    obtain ⟨fresh, nodup⟩ := nodup_cons.mp nodup
    have rest := ih nodup
    have same : host.digests.account .node c.nodeId = host.digests.account .node node ↔
        c.nodeId = node :=
      ⟨fun same => (host.digests.account_injective same).2, fun same => by rw [same]⟩
    rw [creditOf_cons]
    by_cases zero : c.amountMicrounits = 0
    · rw [workEntries, filter_cons_of_neg (by simpa using zero)]
      by_cases here : c.nodeId = node
      · rw [creditOf_eq_zero (here ▸ fresh)] at rest
        rw [if_pos here, zero]
        exact rest
      · rw [if_neg here]
        exact rest
    · rw [workEntries, filter_cons_of_pos (by simpa using zero), map_cons, sumAt_cons]
      rw [workEntries] at rest
      simp only [entryRow, same] at rest ⊢
      rw [rest]
      by_cases here : c.nodeId = node
      · rw [if_pos here, if_pos here, creditOf_eq_zero (here ▸ fresh)]
        simp
      · rw [if_neg here, if_neg here, zero_add]

theorem earned_foldl {evidence : Evidence} {participants : List Participant}
    (nodup : (participants.map (·.nodeId)).Nodup) (reputation : Dict String ReputationRow) :
    (((participants.foldl (addReputation evidence credits createdAt) reputation).find? node).map
        (·.earnedMicrounits)).getD 0 =
      ((reputation.find? node).map (·.earnedMicrounits)).getD 0 +
        if node ∈ participants.map (·.nodeId) then creditOf credits node else 0 := by
  induction participants generalizing reputation with
  | nil => simp
  | cons p participants ih =>
    obtain ⟨fresh, nodup⟩ := nodup_cons.mp nodup
    rw [foldl_cons, ih nodup, addReputation, Dict.find?_insert]
    by_cases here : p.nodeId = node
    · subst here
      rw [if_pos rfl, if_neg fresh, map_cons, if_pos mem_cons_self]
      cases reputation.find? p.nodeId with
      | none | some row => simp
    have apart : node ≠ p.nodeId := fun same => here same.symm
    rw [if_neg here, map_cons]
    simp only [mem_cons, apart, false_or]

end Credits

variable {id : String}

section Invariant

variable {host : Host} {l l' : EconomicLedger}

structure Inv (host : Host) (l : EconomicLedger) : Prop where
  named : l.Named host
  entryAccounts : ∀ e ∈ l.entries, e.accountId ∈ l.accounts.map (·.id)
  entrySettlements : ∀ e ∈ l.entries, e.settlementId ∈ l.settlements.map (·.id)
  ids : (l.settlements.map (·.id)).Nodup
  jobs : (l.settlements.map (·.jobId)).Nodup
  executionReceipts : (l.settlements.map (·.executionReceiptId)).Nodup
  balanced : ∀ r ∈ l.settlements, sumAt (·.settlementId) (·.amountMicrounits) r.id l.entries = 0
  priced : ∀ r ∈ l.settlements, r.providerMicrounits + r.platformMicrounits = r.grossMicrounits ∧
    ∃ policy, l.readPricingPolicy r.pricingPolicyId = .ok policy ∧ r.grossMicrounits =
      r.inputTokens * policy.inputMicrounitsPerToken + r.outputTokens *
      policy.outputMicrounitsPerToken
  credits : ∀ r ∈ l.settlements, ((l.workCredits r.id).map (·.amountMicrounits)).sum =
    r.providerMicrounits
  receipts : ∀ r ∈ l.settlements, ∃ receipt, l.receipts.find? (·.settlementId = r.id) = some receipt
  earned : ∀ node, (l.earnedMicrounits node : Int) =
    sumAt (·.accountId) (·.amountMicrounits) (host.digests.account .node node) l.entries

theorem Inv.init (host : Host) : EconomicLedger.empty.Inv host where
  named := ⟨by simp [EconomicLedger.empty], nodup_nil⟩
  entryAccounts := by simp [EconomicLedger.empty]
  entrySettlements := by simp [EconomicLedger.empty]
  ids := nodup_nil
  jobs := nodup_nil
  executionReceipts := nodup_nil
  balanced := by simp [EconomicLedger.empty]
  priced := by simp [EconomicLedger.empty]
  credits := by simp [EconomicLedger.empty]
  receipts := by simp [EconomicLedger.empty]
  earned := fun _ => rfl

structure Extends (l l' : EconomicLedger) : Prop where
  policies : l.pricingPolicies <+: l'.pricingPolicies
  settlements : l.settlements <+: l'.settlements
  accounts : ∃ new, l'.accounts = l.accounts ++ new ∧ ∀ a ∈ new, a.id ∉ l.accounts.map (·.id)
  entries : ∃ new, l'.entries = l.entries ++ new ∧
    ∀ e ∈ new, e.settlementId ∉ l.settlements.map (·.id)
  receipts : l.receipts <+: l'.receipts

theorem Extends.refl (l : EconomicLedger) : l.Extends l :=
  ⟨prefix_rfl, prefix_rfl, ⟨[], by simp⟩, ⟨[], by simp⟩, prefix_rfl⟩

theorem Extends.trans (h : l.Extends l') (h' : l'.Extends l'') : l.Extends l'' where
  policies := h.policies.trans h'.policies
  settlements := h.settlements.trans h'.settlements
  accounts := by
    obtain ⟨new, accounts, fresh⟩ := h.accounts
    obtain ⟨new', accounts', fresh'⟩ := h'.accounts
    refine ⟨new ++ new', by rw [accounts', accounts, append_assoc], fun a mem => ?_⟩
    rcases mem_append.mp mem with mem | mem
    · exact fresh a mem
    · exact fun old => fresh' a mem (by rw [accounts, map_append]; exact mem_append_left _ old)
  entries := by
    obtain ⟨new, entries, fresh⟩ := h.entries
    obtain ⟨new', entries', fresh'⟩ := h'.entries
    refine ⟨new ++ new', by rw [entries', entries, append_assoc], fun e mem => ?_⟩
    rcases mem_append.mp mem with mem | mem
    · exact fresh e mem
    · exact fun old => fresh' e mem ((h.settlements.map _).subset old)
  receipts := h.receipts.trans h'.receipts

theorem find?_of_initial {α : Type} {xs ys : List α} {found : α → Bool} {x : α} (pre : xs <+: ys)
    (here : xs.find? found = some x) : ys.find? found = some x := by
  obtain ⟨rest, rfl⟩ := pre
  rw [find?_append, here]
  rfl

theorem Extends.workCredits (h : l.Extends l') (inv : l.Inv host)
    (known : id ∈ l.settlements.map (·.id)) : l'.workCredits id = l.workCredits id := by
  obtain ⟨newAccounts, accounts, freshAccounts⟩ := h.accounts
  obtain ⟨newEntries, entries, freshEntries⟩ := h.entries
  have none : newEntries.filter (fun e => e.settlementId = id ∧ e.category = .work) = [] := by
    refine filter_eq_nil_iff.mpr fun e mem work => ?_
    exact freshEntries e mem ((of_decide_eq_true work).1 ▸ known)
  have same : ∀ e ∈ l.entries, l'.accounts.filter (·.id = e.accountId) =
      l.accounts.filter (·.id = e.accountId) := by
    intro e mem
    have other : newAccounts.filter (·.id = e.accountId) = [] := by
      refine filter_eq_nil_iff.mpr fun a listed same => ?_
      exact freshAccounts a listed (of_decide_eq_true same ▸ inv.entryAccounts e mem)
    rw [accounts, filter_append, other, append_nil]
  rw [EconomicLedger.workCredits, EconomicLedger.workCredits, entries, filter_append, none,
    append_nil]
  congr 1
  exact flatMap_congr fun e mem => by rw [same e (mem_filter.mp mem).1]

theorem Extends.readSettlement (h : l.Extends l') (inv : l.Inv host)
    (read : l.readSettlement id = .ok s) : l'.readSettlement id = .ok s := by
  rw [EconomicLedger.readSettlement] at read ⊢
  cases settlement : l.settlements.find? (·.id = id) with
  | none => rw [settlement] at read; cases read
  | some row =>
    rw [settlement] at read
    cases receipt : l.receipts.find? (·.settlementId = id) with
    | none => simp only [receipt] at read; cases read
    | some r =>
      simp only [receipt] at read
      have known : id ∈ l.settlements.map (·.id) :=
        mem_map.mpr ⟨row, mem_of_find?_eq_some settlement, by simpa using find?_some settlement⟩
      rw [find?_of_initial h.settlements settlement, find?_of_initial h.receipts receipt]
      simp only [h.workCredits inv known]
      exact read

theorem Inv.balance (inv : l.Inv host) (kind : OwnerKind) (owner : String) : l.balance kind owner =
    sumAt (·.accountId) (·.amountMicrounits) (host.digests.account kind owner) l.entries := by
  have same : l.accounts.filter (fun a => a.ownerKind = kind ∧ a.ownerId = owner) =
      l.accounts.filter (·.id = host.digests.account kind owner) := by
    refine filter_congr fun a mem => decide_eq_decide.mpr ?_
    rw [inv.named.id a mem]
    constructor
    · rintro ⟨rfl, rfl⟩
      rfl
    · exact host.digests.account_injective
  rw [EconomicLedger.balance, same]
  by_cases known : host.digests.account kind owner ∈ l.accounts.map (·.id)
  · obtain ⟨a, mem, id⟩ := mem_map.mp known
    rw [← id, filter_key_eq_singleton inv.named.nodup mem]
    simp
  have none : l.accounts.filter (·.id = host.digests.account kind owner) = [] := by
    refine filter_eq_nil_iff.mpr fun a mem id => ?_
    exact known (mem_map.mpr ⟨a, mem, of_decide_eq_true id⟩)
  have zero : ∀ e ∈ l.entries, e.accountId ≠ host.digests.account kind owner := fun e mem id =>
    known (id ▸ inv.entryAccounts e mem)
  rw [none, sumAt_eq_zero zero]
  rfl

theorem Inv.sum_balance (inv : l.Inv host) :
    (l.accounts.map fun a => l.balance a.ownerKind a.ownerId).sum = 0 := by
  calc (l.accounts.map fun a => l.balance a.ownerKind a.ownerId).sum
      = ((l.accounts.map (·.id)).map fun id => sumAt (·.accountId) (·.amountMicrounits) id
        l.entries).sum := by
        rw [map_map]
        refine congrArg List.sum (map_congr_left fun a mem => ?_)
        rw [inv.balance, ← inv.named.id a mem]
        rfl
    _ = (l.entries.map (·.amountMicrounits)).sum := sum_sumAt inv.named.nodup inv.entryAccounts
    _ = ((l.settlements.map (·.id)).map fun id => sumAt (·.settlementId) (·.amountMicrounits) id
      l.entries).sum :=
        (sum_sumAt inv.ids inv.entrySettlements).symm
    _ = 0 := by
        refine sum_eq_zero fun total mem => ?_
        rw [map_map] at mem
        obtain ⟨r, listed, rfl⟩ := mem_map.mp mem
        exact inv.balanced r listed

end Invariant

section Steps

variable {host : Host} {l l' : EconomicLedger} {input : EconomicSettlementInput} {p : Priced}

structure PricedFrom (host : Host) (l : EconomicLedger) (input : EconomicSettlementInput)
    (p : Priced) : Prop where
  policy : l.readPricingPolicy input.pricingPolicyId = .ok p.policy
  nodes : (p.evidence.participants.map (·.nodeId)).Perm (input.contributors.map (·.nodeId))
  gross : p.gross = input.inputTokens * p.policy.inputMicrounitsPerToken +
    input.outputTokens * p.policy.outputMicrounitsPerToken
  provider : p.provider = p.gross * (10000 - p.policy.platformFeeBps) / 10000
  credits : distribute host.collation p.provider input.contributors = .ok p.credits

theorem price_ok (h : l.price host input = .ok p) : PricedFrom host l input p := by
  simp only [price, bind_eq_ok, throw_bind, raise_eq_ok, safeBigIntToNumber_ok] at h
  obtain ⟨policy, found, evidence, -, -, nodes, -, gross, ⟨-, price⟩, -, provider, ⟨-, part⟩,
    credits, shared, done⟩ := h
  obtain rfl := Except.ok.inj done
  refine ⟨found, ?_, price.symm, part.symm, shared⟩
  have sorted := not_not.mp nodes
  have left := perm_insertionSort (· ≤ ·) (evidence.participants.map (·.nodeId))
  have right := perm_insertionSort (· ≤ ·) (input.contributors.map (·.nodeId))
  exact left.symm.trans (sorted ▸ right)

theorem readPricingPolicy_ok :
    l.readPricingPolicy id = .ok policy ↔ l.pricingPolicies.find? (·.id = id) = some policy := by
  rw [readPricingPolicy]
  cases l.pricingPolicies.find? (·.id = id) <;> simp

theorem Extends.readPricingPolicy (h : l.Extends l')
    (found : l.readPricingPolicy id = .ok policy) : l'.readPricingPolicy id = .ok policy :=
  readPricingPolicy_ok.mpr (find?_of_initial h.policies (readPricingPolicy_ok.mp found))

theorem PricedFrom.provider_le (h : PricedFrom host l input p) : p.provider ≤ p.gross := by
  rw [h.provider]
  refine Nat.div_le_of_le_mul ?_
  rw [Nat.mul_comm 10000]
  exact Nat.mul_le_mul_left _ (Nat.sub_le ..)

theorem PricedFrom.distributed (h : PricedFrom host l input p) (valid : input.Valid) :
    Distributed host.collation p.provider input.contributors p.credits := by
  obtain ⟨-, -, -, -, -, -, -, -, -, -, some, -, each, -, -⟩ := valid
  refine distribute_ok ?_ h.credits
  obtain ⟨c, rest, eq⟩ := exists_cons_of_ne_nil some
  have positive := (each c (eq ▸ mem_cons_self)).2.1
  rw [eq, map_cons, sum_cons]
  omega

theorem settle_ok (named : l.Named host) (h : l.settle host input = .ok (s, l')) : input.Valid ∧
    ((∃ replay, l.settlements.find? (·.jobId = input.jobId) = some replay ∧
        replay.requestDigest = host.digests.settlementRequest input ∧
        l.readSettlement replay.id = .ok s ∧ l' = l) ∨
      l.settlements.find? (·.jobId = input.jobId) = none ∧ ∃ p, PricedFrom host l input p ∧
        Recorded host input p l l' ∧ l'.readSettlement (p.settlementId host input) = .ok s) := by
  simp only [settle, throw_bind, raise_eq_ok, not_not] at h
  refine ⟨h.1, ?_⟩
  cases found : l.settlements.find? (·.jobId = input.jobId) with
  | some replay =>
    simp only [found, raise_eq_ok, bind_eq_ok, not_not] at h
    obtain ⟨-, digest, settlement, read, done⟩ := h
    obtain ⟨rfl, rfl⟩ := ok_inj done
    exact .inl ⟨replay, rfl, digest, read, rfl⟩
  | none =>
    simp only [found, raise_eq_ok, bind_eq_ok] at h
    obtain ⟨-, -, p, priced, recorded⟩ := h
    exact .inr ⟨rfl, p, price_ok priced, record_ok named recorded⟩

theorem settlementId_of_mem_entries (mem : e ∈ p.entries host input) :
    e.settlementId = p.settlementId host input := by
  rw [Priced.entries, mem_cons, mem_append] at mem
  rcases mem with rfl | work | fee
  · rfl
  · obtain ⟨c, -, rfl⟩ := mem_map.mp work
    rfl
  · split at fee
    · rw [mem_singleton.mp fee]
      rfl
    · cases fee

theorem Recorded.fresh_id (h : Recorded host input p l l') :
    p.settlementId host input ∉ l.settlements.map (·.id) := by
  intro mem
  obtain ⟨r, listed, same⟩ := mem_map.mp mem
  exact (h.fresh r listed).1 same

theorem Recorded.extends (h : Recorded host input p l l') : l.Extends l' where
  policies := h.policies ▸ prefix_rfl
  settlements := h.settlements ▸ prefix_append ..
  accounts := by
    obtain ⟨new, accounts⟩ := h.accounts
    refine ⟨new, accounts.symm, fun a mem old => ?_⟩
    have nodup := h.named.nodup
    rw [← accounts, map_append] at nodup
    exact disjoint_of_nodup_append nodup old (mem_map_of_mem mem)
  entries := by
    refine ⟨_, h.entries, fun e mem => ?_⟩
    rw [settlementId_of_mem_entries mem]
    exact h.fresh_id
  receipts := h.receipts ▸ prefix_append ..

theorem Recorded.workCredits (h : Recorded host input p l l') (inv : l.Inv host) :
    l'.workCredits (p.settlementId host input) =
      (p.credits.filter (·.amountMicrounits ≠ 0)).insertionSort fun a b => a.nodeId ≤ b.nodeId := by
  set id := p.settlementId host input with idEq
  have old : l.entries.filter (fun e => e.settlementId = id ∧ e.category = .work) = [] := by
    refine filter_eq_nil_iff.mpr fun e mem work => h.fresh_id ?_
    rw [← idEq, ← (of_decide_eq_true work).1]
    exact inv.entrySettlements e mem
  have work : (workEntries host id input.createdAt p.credits).filter
      (fun e => e.settlementId = id ∧ e.category = .work) = workEntries host id input.createdAt
      p.credits := by
    refine filter_eq_self.mpr fun e mem => ?_
    obtain ⟨c, -, rfl⟩ := mem_map.mp mem
    exact decide_eq_true ⟨rfl, rfl⟩
  have fee : (if 0 < p.platform then
      [entryRow host id (host.digests.account .platform "mycellios") .platformFee p.platform
        input.createdAt] else []).filter (fun e => e.settlementId = id ∧ e.category = .work) =
        [] := by
    split <;> simp [entryRow]
  have new : l'.entries.filter (fun e => e.settlementId = id ∧ e.category = .work) =
      workEntries host id input.createdAt p.credits := by
    rw [h.entries, filter_append, old, nil_append, Priced.entries,
      filter_cons_of_neg (by simp [entryRow]), filter_append, work, fee, append_nil]
  rw [EconomicLedger.workCredits, new, workEntries, flatMap_map]
  congr 1
  have each : ∀ c ∈ p.credits.filter (·.amountMicrounits ≠ 0),
      (l'.accounts.filter (·.id = host.digests.account .node c.nodeId)).map (fun a =>
        (⟨a.ownerId, (c.amountMicrounits : Int).toNat⟩ : Credit)) = [c] := by
    intro c mem
    have listed : entryRow host id (host.digests.account .node c.nodeId) .work c.amountMicrounits
        input.createdAt ∈ p.entries host input :=
      mem_cons_of_mem _ (mem_append_left _ (mem_map.mpr ⟨c, mem, rfl⟩))
    obtain ⟨a, known, same⟩ := mem_map.mp (h.known _ listed)
    have owner := host.digests.account_injective ((h.named.id a known).symm.trans same)
    have picked := filter_key_eq_singleton h.named.nodup known
    rw [show a.id = host.digests.account .node c.nodeId from same] at picked
    rw [picked, map_singleton, owner.2, Int.toNat_natCast]
  exact (flatMap_congr each).trans (by simp)

theorem sum_filter_ne_zero (credits : List Credit) :
    ((credits.filter (·.amountMicrounits ≠ 0)).map (·.amountMicrounits)).sum =
      (credits.map (·.amountMicrounits)).sum := by
  induction credits with
  | nil => rfl
  | cons c credits ih =>
    by_cases zero : c.amountMicrounits = 0
    · rw [filter_cons_of_neg (by simpa using zero), ih, map_cons, sum_cons, zero, zero_add]
    · rw [filter_cons_of_pos (by simpa using zero), map_cons, sum_cons, ih, map_cons, sum_cons]

theorem Recorded.sum_workCredits (h : Recorded host input p l l') (inv : l.Inv host)
    (shared : Distributed host.collation p.provider input.contributors p.credits) :
    ((l'.workCredits (p.settlementId host input)).map (·.amountMicrounits)).sum = p.provider := by
  rw [h.workCredits inv, ((perm_insertionSort _ _).map _).sum_eq, sum_filter_ne_zero, shared.sum]

theorem sumAt_entries (nodup : (p.credits.map (·.nodeId)).Nodup) (node : String) :
    sumAt (·.accountId) (·.amountMicrounits) (host.digests.account .node node)
    (p.entries host input) =
      creditOf p.credits node := by
  have usage :
      (entryRow host (p.settlementId host input)
        (host.digests.account .account input.payerAccountId) .usage (-(p.gross : Int))
        input.createdAt).accountId ≠ host.digests.account .node node := fun same =>
    nomatch (host.digests.account_injective same).1
  have fee : ∀ e ∈ (if 0 < p.platform then [entryRow host (p.settlementId host input)
      (host.digests.account .platform "mycellios") .platformFee p.platform input.createdAt]
      else []), e.accountId ≠ host.digests.account .node node := by
    intro e mem same
    split at mem
    · rw [mem_singleton.mp mem] at same
      exact nomatch (host.digests.account_injective same).1
    · cases mem
  rw [Priced.entries, sumAt_cons, sumAt_append, if_neg usage, sumAt_eq_zero fee, zero_add, add_zero]
  exact sumAt_workEntries nodup

theorem nodup_contributors (valid : input.Valid) : (input.contributors.map (·.nodeId)).Nodup := by
  obtain ⟨-, -, -, -, -, -, -, -, -, -, -, -, -, -, nodup⟩ := valid
  exact nodup

theorem Recorded.earned (h : Recorded host input p l l') (inv : l.Inv host)
    (priced : PricedFrom host l input p) (valid : input.Valid) (node : String) :
    (l'.earnedMicrounits node : Int) =
      sumAt (·.accountId) (·.amountMicrounits) (host.digests.account .node node) l'.entries := by
  have nodup := nodup_contributors valid
  have shared := priced.distributed valid
  have before := inv.earned node
  rw [EconomicLedger.earnedMicrounits] at before ⊢
  rw [h.reputation, earned_foldl (priced.nodes.nodup_iff.mpr nodup), h.entries, sumAt_append,
    sumAt_entries (shared.nodes.nodup_iff.mpr nodup), ← before, Nat.cast_add]
  congr 2
  by_cases listed : node ∈ p.evidence.participants.map (·.nodeId)
  · exact if_pos listed
  have missing : node ∉ p.credits.map (·.nodeId) := fun mem =>
    listed (priced.nodes.mem_iff.mpr (shared.nodes.mem_iff.mp mem))
  rw [if_neg listed, creditOf_eq_zero missing]

theorem Recorded.inv (h : Recorded host input p l l') (inv : l.Inv host)
    (priced : PricedFrom host l input p) (valid : input.Valid) : l'.Inv host := by
  have grown := h.extends
  have known : ∀ r ∈ l.settlements, r.id ∈ l.settlements.map (·.id) :=
    fun r mem => mem_map_of_mem mem
  have old : ∀ {P : SettlementRow → Prop}, (∀ r ∈ l.settlements, P r) → P (p.row host input) →
      ∀ r ∈ l'.settlements, P r := by
    intro P past new r mem
    rw [h.settlements, mem_append, mem_singleton] at mem
    exact mem.elim (past r) fun same => same ▸ new
  have nodup : ∀ {β : Type} (f : SettlementRow → β), (l.settlements.map f).Nodup →
      (∀ r ∈ l.settlements, f r ≠ f (p.row host input)) → (l'.settlements.map f).Nodup := by
    intro β f past fresh
    rw [h.settlements, map_append]
    refine past.append (nodup_singleton _) ?_
    intro b mem new
    obtain ⟨r, listed, rfl⟩ := mem_map.mp mem
    exact fresh r listed (mem_singleton.mp new)
  exact {
    named := h.named
    entryAccounts := by
      intro e mem
      rw [h.entries] at mem
      rcases mem_append.mp mem with past | new
      · exact (h.accounts.map _).subset (inv.entryAccounts e past)
      · exact h.known e new
    entrySettlements := by
      intro e mem
      rw [h.entries] at mem
      rw [h.settlements, map_append]
      rcases mem_append.mp mem with past | new
      · exact mem_append_left _ (inv.entrySettlements e past)
      · rw [settlementId_of_mem_entries new]
        exact mem_append_right _ (mem_singleton_self _)
    ids := nodup (·.id) inv.ids fun r mem => (h.fresh r mem).1
    jobs := nodup (·.jobId) inv.jobs fun r mem => (h.fresh r mem).2.1
    executionReceipts := nodup (·.executionReceiptId) inv.executionReceipts fun r mem =>
      (h.fresh r mem).2.2
    balanced := by
      refine old (fun r mem => ?_) h.balanced
      rw [h.entries, sumAt_append, inv.balanced r mem, zero_add]
      refine sumAt_eq_zero fun e new same => (h.fresh r mem).1 ?_
      exact same.symm.trans (settlementId_of_mem_entries new)
    priced := by
      refine old (fun r mem => ?_) ?_
      · obtain ⟨sum, policy, found, gross⟩ := inv.priced r mem
        exact ⟨sum, policy, grown.readPricingPolicy found, gross⟩
      have id : p.policy.id = input.pricingPolicyId := by
        simpa using find?_some (readPricingPolicy_ok.mp priced.policy)
      refine ⟨Nat.add_sub_cancel' priced.provider_le, p.policy, ?_, priced.gross⟩
      refine grown.readPricingPolicy ?_
      rw [Priced.row, id]
      exact priced.policy
    credits := by
      refine old (fun r mem => ?_) (h.sum_workCredits inv (priced.distributed valid))
      rw [grown.workCredits inv (known r mem)]
      exact inv.credits r mem
    receipts := by
      refine old (fun r mem => ?_) ?_
      · obtain ⟨receipt, found⟩ := inv.receipts r mem
        exact ⟨receipt, find?_of_initial grown.receipts found⟩
      refine Option.isSome_iff_exists.mp
        (find?_isSome.mpr ⟨p.receipt host input, ?_, decide_eq_true rfl⟩)
      rw [h.receipts]
      exact mem_append_right _ (mem_singleton_self _)
    earned := h.earned inv priced valid }

theorem settle_inv (inv : l.Inv host) (h : l.settle host input = .ok (s, l')) :
    l'.Inv host ∧ l.Extends l' := by
  obtain ⟨valid, ⟨replay, -, -, -, rfl⟩ | ⟨-, p, priced, recorded, -⟩⟩ := settle_ok inv.named h
  · exact ⟨inv, .refl _⟩
  · exact ⟨recorded.inv inv priced valid, recorded.extends⟩

theorem registerPricingPolicy_ok (h : l.registerPricingPolicy host terms = .ok (policy, l')) :
    l' = l ∨ l' = { l with pricingPolicies := l.pricingPolicies ++ [policy] } := by
  simp only [registerPricingPolicy] at h
  split at h
  · split at h
    · exact .inl (ok_inj h).2.symm
    split at h
    · cases h
    · obtain ⟨rfl, rfl⟩ := ok_inj h
      exact .inr rfl
  · cases h

theorem certify_ok {evidence stored : Evidence} (h : l.certify evidence = .ok (stored, l')) :
    l' = l ∨ l' = { l with evidence := l.evidence ++ [evidence] } := by
  rw [certify] at h
  split at h
  · split at h
    · cases h
    · exact .inl (ok_inj h).2.symm
  split at h
  · cases h
  · exact .inr (ok_inj h).2.symm

theorem Inv.addPolicy (inv : l.Inv host) (policy : PricingPolicy) :
    Inv host { l with pricingPolicies := l.pricingPolicies ++ [policy] } :=
  { inv with
    named := ⟨inv.named.id, inv.named.nodup⟩
    priced := by
      intro r mem
      obtain ⟨sum, found, read, gross⟩ := inv.priced r mem
      exact ⟨sum, found, readPricingPolicy_ok.mpr
        (find?_of_initial (prefix_append ..) (readPricingPolicy_ok.mp read)), gross⟩ }

theorem call_inv {answer : Answer} (inv : l.Inv host) (h : call host c l = .ok (answer, l')) :
    l'.Inv host ∧ l.Extends l' := by
  cases c with
  | settle input =>
    obtain ⟨⟨s, after⟩, settled, -, rfl⟩ := map_ok_inj h
    exact settle_inv inv settled
  | registerPricingPolicy terms =>
    obtain ⟨⟨policy, after⟩, registered, -, rfl⟩ := map_ok_inj h
    rcases registerPricingPolicy_ok registered with rfl | rfl
    · exact ⟨inv, .refl _⟩
    · exact ⟨inv.addPolicy policy,
        ⟨prefix_append .., prefix_rfl, ⟨[], by simp⟩, ⟨[], by simp⟩, prefix_rfl⟩⟩
  | certify evidence =>
    obtain ⟨⟨stored, after⟩, certified, -, rfl⟩ := map_ok_inj h
    rcases certify_ok certified with rfl | rfl
    · exact ⟨inv, .refl _⟩
    · exact ⟨{ inv with named := ⟨inv.named.id, inv.named.nodup⟩ },
        ⟨prefix_rfl, prefix_rfl, ⟨[], by simp⟩, ⟨[], by simp⟩, prefix_rfl⟩⟩

theorem run_inv (inv : l.Inv host) (calls : List Call) :
    (l.run host calls).Inv host ∧ l.Extends (l.run host calls) := by
  have each : ∀ t c, t.Inv host ∧ l.Extends t →
      Inv host (commit (call host c) t).1 ∧ l.Extends (commit (call host c) t).1 := by
    intro t c holds
    refine commit_invariant (P := fun t => t.Inv host ∧ l.Extends t) holds fun answer t' done => ?_
    obtain ⟨inv', grown⟩ := call_inv holds.1 done
    exact ⟨inv', holds.2.trans grown⟩
  exact final_invariant each ⟨inv, .refl l⟩ calls

end Steps

section DoubleEntry

variable {l : EconomicLedger}

structure DoubleEntry (l : EconomicLedger) : Prop where
  settlements : ∀ r ∈ l.settlements, sumAt (·.settlementId) (·.amountMicrounits) r.id l.entries = 0
  balances : (l.accounts.map fun a => l.balance a.ownerKind a.ownerId).sum = 0
  price : ∀ r ∈ l.settlements, r.providerMicrounits + r.platformMicrounits = r.grossMicrounits ∧
    ∃ policy, l.readPricingPolicy r.pricingPolicyId = .ok policy ∧ r.grossMicrounits =
      r.inputTokens * policy.inputMicrounitsPerToken + r.outputTokens *
      policy.outputMicrounitsPerToken
  jobs : (l.settlements.map (·.jobId)).Nodup
  executionReceipts : (l.settlements.map (·.executionReceiptId)).Nodup
  credits : ∀ r ∈ l.settlements, ((l.workCredits r.id).map (·.amountMicrounits)).sum =
    r.providerMicrounits
  reputation : ∀ node, (l.earnedMicrounits node : Int) = l.balance .node node

/-- A settled request is in the tables, gets the same answer again, and spends its job and
receipt. -/
structure Settles (host : Host) (l : EconomicLedger) (input : EconomicSettlementInput)
    (s : EconomicSettlement) (l' : EconomicLedger) : Prop where
  stored : ∃ row, l'.settlements.find? (·.jobId = input.jobId) = some row ∧
    row.requestDigest = host.digests.settlementRequest input ∧ l'.readSettlement row.id = .ok s
  recorded : (∀ r ∈ l.settlements, r.jobId ≠ input.jobId) →
    ∃ p, PricedFrom host l input p ∧ Recorded host input p l l' ∧
      l'.readSettlement (p.settlementId host input) = .ok s
  balanced : l'.DoubleEntry
  jobSpent : ∀ later other, other.jobId = input.jobId →
    host.digests.settlementRequest other ≠ host.digests.settlementRequest input →
    ∃ e, (l'.run host later).settle host other = .error e
  receiptSpent : ∀ later other, other.executionReceiptId = s.executionReceiptId →
    (∀ r ∈ (l'.run host later).settlements, r.jobId ≠ other.jobId) →
    ∃ e, (l'.run host later).settle host other = .error e
  replay : ∀ later, (l'.run host later).settle host input = .ok (s, l'.run host later)
  sum : (s.contributorCredits.map (·.amountMicrounits)).sum = s.providerMicrounits
  share : (∀ r ∈ l.settlements, r.jobId ≠ input.jobId) → ∀ c ∈ input.contributors,
    creditOf s.contributorCredits c.nodeId = s.providerMicrounits * c.weight /
    (input.contributors.map (·.weight)).sum ∨
      creditOf s.contributorCredits c.nodeId =
        s.providerMicrounits * c.weight / (input.contributors.map (·.weight)).sum + 1
  order : ∀ contributors, contributors.Perm input.contributors →
    ToldApart host.collation input.contributors →
    ∀ s' l'', l.settle host { input with contributors := contributors } = .ok (s', l'') →
      s'.contributorCredits = s.contributorCredits

theorem Inv.doubleEntry (inv : l.Inv host) : l.DoubleEntry where
  settlements := inv.balanced
  balances := inv.sum_balance
  price := inv.priced
  jobs := inv.jobs
  executionReceipts := inv.executionReceipts
  credits := inv.credits
  reputation := fun node => (inv.earned node).trans (inv.balance .node node).symm

theorem readSettlement_ok (h : l.readSettlement id = .ok s) :
    ∃ row ∈ l.settlements, row.id = id ∧ s.executionReceiptId = row.executionReceiptId ∧
      s.providerMicrounits = row.providerMicrounits ∧ s.contributorCredits = l.workCredits id := by
  rw [readSettlement] at h
  cases found : l.settlements.find? (·.id = id) with
  | none => rw [found] at h; cases h
  | some row =>
    rw [found] at h
    cases receipt : l.receipts.find? (·.settlementId = id) with
    | none => simp only [receipt] at h; cases h
    | some r =>
      simp only [receipt] at h
      obtain rfl := Except.ok.inj h
      exact ⟨row, mem_of_find?_eq_some found, by simpa using find?_some found, rfl, rfl, rfl⟩

theorem settle_stored (inv : l.Inv host) (h : l.settle host input = .ok (s, l')) : input.Valid ∧
    ∃ row, l'.settlements.find? (·.jobId = input.jobId) = some row ∧
      row.requestDigest = host.digests.settlementRequest input ∧
      l'.readSettlement row.id = .ok s := by
  obtain ⟨valid, ⟨replay, found, digest, read, rfl⟩ | ⟨missing, p, -, recorded, read⟩⟩ :=
    settle_ok inv.named h
  · exact ⟨valid, replay, found, digest, read⟩
  refine ⟨valid, p.row host input, ?_, rfl, read⟩
  rw [recorded.settlements, find?_append, missing]
  simp [Priced.row]

theorem settle_again (valid : input.Valid)
    (found : l.settlements.find? (·.jobId = input.jobId) = some row)
    (digest : row.requestDigest = host.digests.settlementRequest input)
    (read : l.readSettlement row.id = .ok s) : l.settle host input = .ok (s, l) := by
  simp only [settle, throw_bind, raise_eq_ok, found, bind_eq_ok, not_not]
  exact ⟨valid, digest, s, read, rfl⟩

theorem creditOf_of_mem (nodup : (credits.map (·.nodeId)).Nodup)
    (mem : c ∈ credits) : creditOf credits c.nodeId = c.amountMicrounits := by
  induction credits with
  | nil => cases mem
  | cons d credits ih =>
    obtain ⟨fresh, nodup⟩ := nodup_cons.mp nodup
    rw [creditOf_cons]
    rcases mem_cons.mp mem with rfl | mem
    · exact if_pos rfl
    have apart : d.nodeId ≠ c.nodeId := fun same => fresh (mem_map.mpr ⟨c, mem, same.symm⟩)
    rw [if_neg apart]
    exact ih nodup mem

theorem creditOf_exposed {credits exposed : List Credit} (nodup : (credits.map (·.nodeId)).Nodup)
    (perm : exposed.Perm (credits.filter (·.amountMicrounits ≠ 0))) (mem : c ∈ credits) :
    creditOf exposed c.nodeId = c.amountMicrounits := by
  have inside : (credits.filter (·.amountMicrounits ≠ 0)).Sublist credits := filter_sublist
  by_cases zero : c.amountMicrounits = 0
  · rw [zero]
    refine creditOf_eq_zero fun listed => ?_
    obtain ⟨d, here, same⟩ := mem_map.mp listed
    obtain ⟨known, some⟩ := mem_filter.mp (perm.mem_iff.mp here)
    obtain rfl := inj_on_of_nodup_map nodup known mem same
    exact of_decide_eq_true some zero
  · refine creditOf_of_mem ?_ (perm.mem_iff.mpr (mem_filter.mpr ⟨mem, by simpa using zero⟩))
    exact ((perm.map _).nodup_iff).mpr (nodup.sublist (inside.map _))

theorem settle_recorded (inv : l.Inv host) (h : l.settle host input = .ok (s, l'))
    (first : ∀ r ∈ l.settlements, r.jobId ≠ input.jobId) :
    ∃ p, PricedFrom host l input p ∧ Recorded host input p l l' ∧
      l'.readSettlement (p.settlementId host input) = .ok s := by
  obtain ⟨-, ⟨replay, found, -⟩ | ⟨-, settled⟩⟩ := settle_ok inv.named h
  · exact absurd (by simpa using find?_some found) (first replay (mem_of_find?_eq_some found))
  · exact settled

theorem settle_share (inv : l.Inv host) (h : l.settle host input = .ok (s, l'))
    (first : ∀ r ∈ l.settlements, r.jobId ≠ input.jobId) {c : Contributor}
    (mem : c ∈ input.contributors) :
    creditOf s.contributorCredits c.nodeId = s.providerMicrounits * c.weight /
    (input.contributors.map (·.weight)).sum ∨
      creditOf s.contributorCredits c.nodeId =
        s.providerMicrounits * c.weight / (input.contributors.map (·.weight)).sum + 1 := by
  obtain ⟨p, priced, recorded, read⟩ := settle_recorded inv h first
  obtain ⟨valid, -⟩ := settle_ok inv.named h
  have nodup := nodup_contributors valid
  have shared := priced.distributed valid
  obtain ⟨row, listed, id, -, provider, credits⟩ := readSettlement_ok read
  have rowEq : row = p.row host input := by
    have mine : p.row host input ∈ l'.settlements := by
      rw [recorded.settlements]
      exact mem_append_right _ (mem_singleton_self _)
    exact inj_on_of_nodup_map (recorded.inv inv priced valid).ids listed mine id
  have amount : s.providerMicrounits = p.provider := by rw [provider, rowEq]; rfl
  have ordered := (mem_insertionSort (byNode host.collation)).mpr mem
  obtain ⟨credit, known, share⟩ := forall₂_of_mem shared.shares ordered
  have exposed := creditOf_exposed (shared.nodes.nodup_iff.mpr nodup)
    (credits ▸ recorded.workCredits inv ▸ perm_insertionSort _ _) known
  rw [share.nodeId] at exposed
  rw [exposed, amount]
  exact share.amount

theorem settle_order (inv : l.Inv host) (h : l.settle host input = .ok (s, l'))
    (perm : contributors.Perm input.contributors)
    (apart : ToldApart host.collation input.contributors)
    (h' : l.settle host { input with contributors := contributors } = .ok (s', l'')) :
    s'.contributorCredits = s.contributorCredits := by
  obtain ⟨-, ⟨replay, found, -, read, -⟩ | ⟨missing, p, priced, recorded, read⟩⟩ :=
    settle_ok inv.named h
  · obtain ⟨-, ⟨replay', found', -, read', -⟩ | ⟨missing', -⟩⟩ := settle_ok inv.named h'
    · obtain rfl := Option.mem_unique found found'
      rw [ok_unique read read']
    · exact nomatch found.symm.trans missing'
  obtain ⟨-, ⟨replay', found', -⟩ | ⟨-, p', priced', recorded', read'⟩⟩ := settle_ok inv.named h'
  · exact nomatch missing.symm.trans found'
  have policy : p'.policy = p.policy := ok_unique priced'.policy priced.policy
  have gross : p'.gross = p.gross := by rw [priced'.gross, priced.gross, policy]
  have provider : p'.provider = p.provider := by
    rw [priced'.provider, priced.provider, gross, policy]
  have credits : p'.credits = p.credits := by
    have same : distribute host.collation p.provider contributors = _ := distribute_perm perm apart
    exact Except.ok.inj ((provider ▸ priced'.credits).symm.trans (same.trans priced.credits))
  obtain ⟨-, -, -, -, -, exposed⟩ := readSettlement_ok read
  obtain ⟨-, -, -, -, -, exposed'⟩ := readSettlement_ok read'
  rw [exposed, exposed', recorded.workCredits inv, recorded'.workCredits inv, credits]

theorem Inv.settles (inv : l.Inv host) (h : l.settle host input = .ok (s, l')) :
    Settles host l input s l' := by
  obtain ⟨inv', -⟩ := settle_inv inv h
  obtain ⟨valid, row, found, digest, read⟩ := settle_stored inv h
  obtain ⟨row', listed, id, receipt, provider, credits⟩ := readSettlement_ok read
  refine {
    stored := ⟨row, found, digest, read⟩
    recorded := settle_recorded inv h
    balanced := inv'.doubleEntry
    jobSpent := fun later other job differs => ?_
    receiptSpent := fun later other spent unsettled => ?_
    replay := fun later => ?_
    sum := by rw [credits, provider, ← id]; exact inv'.credits row' listed
    share := fun first _ mem => settle_share inv h first mem
    order := fun _ perm apart _ _ h' => settle_order inv h perm apart h' } <;>
  obtain ⟨inv'', grown⟩ := run_inv inv' later <;>
  have kept := find?_of_initial grown.settlements found
  · cases result : (l'.run host later).settle host other with
    | error e => exact ⟨e, rfl⟩
    | ok done =>
      rw [← job] at kept
      obtain ⟨-, ⟨replay, found', same, -⟩ | ⟨missing, -⟩⟩ := settle_ok inv''.named result
      · obtain rfl := Option.mem_unique kept found'
        exact absurd (same.symm.trans digest) differs
      · exact nomatch kept.symm.trans missing
  · cases result : (l'.run host later).settle host other with
    | error e => exact ⟨e, rfl⟩
    | ok done =>
      obtain ⟨p, -, recorded, -⟩ := settle_recorded inv'' result unsettled
      have fresh := (recorded.fresh row' (grown.settlements.subset listed)).2.2
      exact absurd (receipt.symm.trans spent.symm) fresh
  · exact settle_again valid kept digest (grown.readSettlement inv' read)

/-- What holds after any run of calls, and what a settled request gets. -/
theorem double_entry_settlement (host : Host) (calls : List Call) :
    (EconomicLedger.empty.run host calls).DoubleEntry ∧
      ∀ input s l', (EconomicLedger.empty.run host calls).settle host input = .ok (s, l') →
        Settles host (EconomicLedger.empty.run host calls) input s l' := by
  obtain ⟨inv, -⟩ := run_inv (.init host) calls
  exact ⟨inv.doubleEntry, fun input s l' settled => inv.settles settled⟩

/-- What is recorded never changes, and refers to what is recorded. -/
theorem ledger_append_only (host : Host) (before after : List Call) :
    let l := EconomicLedger.empty.run host (before ++ after)
    (EconomicLedger.empty.run host before).Extends l ∧
      (∀ e ∈ l.entries, e.accountId ∈ l.accounts.map (·.id) ∧
        e.settlementId ∈ l.settlements.map (·.id)) ∧
      ∀ r ∈ l.settlements, ∃ receipt, l.receipts.find? (·.settlementId = r.id) = some receipt := by
  obtain ⟨inv, -⟩ := run_inv (.init host) before
  obtain ⟨inv', extended⟩ := run_inv inv after
  have whole : EconomicLedger.empty.run host (before ++ after) =
      (EconomicLedger.empty.run host before).run host after :=
    final_append ..
  rw [whole]
  exact ⟨extended, fun e mem => ⟨inv'.entryAccounts e mem, inv'.entrySettlements e mem⟩,
    inv'.receipts⟩

def plainHost : Host where
  collation := {
    le := fun a b => a ≤ b
    total := by simpa using fun a b => le_total a b
    trans := by simpa using fun a b c => @le_trans String _ a b c }
  digests := {
    pricingPolicy :=
  fun _ => "sha256:000000000000000000000000000000000000000000000000000000000000000a"
    settlementRequest := fun i => "request " ++ i.jobId
    settlement := fun request _ _ _ _ => "settlement of " ++ request
    account := fun kind id => String.ofList ((match kind with
      | .account => 'a'
      | .node => 'n'
      | .platform => 'p') :: id.toList)
    account_injective := by
      intro kind kind' id id' same
      obtain ⟨head, tail⟩ := List.cons.inj (String.ofList_inj.mp same)
      refine ⟨?_, String.toList_inj.mp tail⟩
      cases kind <;> cases kind' <;> first | rfl | exact absurd head (by decide)
    entry := fun settlement account _ _ => settlement ++ account
    owner := fun _ id => "owner " ++ id
    receipt := fun r => r.settlementId }
  keyId := "key"
  keyIsEd25519 := true

def defaultPricing : PricingPolicyInput where
  modelId := "*"
  routeClass := .remoteReplica
  version := 1
  inputMicrounitsPerToken := 1
  outputMicrounitsPerToken := 4
  platformFeeBps := 1500
  effectiveAt := 0
  retiredAt := none

def twoNodeEvidence : Evidence where
  id := "sha256:000000000000000000000000000000000000000000000000000000000000000b"
  jobId := "job"
  executionReceiptId := "sha256:000000000000000000000000000000000000000000000000000000000000000c"
  participants := [⟨"n1", 1⟩, ⟨"n2", 2⟩]
  physicalBoundaryCount := 1

def twoNodeRequest : EconomicSettlementInput where
  jobId := "job"
  executionReceiptId := "sha256:000000000000000000000000000000000000000000000000000000000000000c"
  contributionEvidenceId :=
    "sha256:000000000000000000000000000000000000000000000000000000000000000b"
  pricingPolicyId := "sha256:000000000000000000000000000000000000000000000000000000000000000a"
  executionRecovery := ⟨.none, 1, 0⟩
  payerAccountId := "payer"
  inputTokens := 2
  outputTokens := 2
  contributors := [⟨"n2", 2⟩, ⟨"n1", 1⟩]
  createdAt := 5

theorem two_nodes_settle : ∃ s l', (EconomicLedger.empty.run plainHost
      [.registerPricingPolicy defaultPricing, .certify twoNodeEvidence]).settle plainHost
      twoNodeRequest = .ok (s, l') ∧
    s.contributorCredits = [⟨"n1", 3⟩, ⟨"n2", 5⟩] ∧
    Settles plainHost (EconomicLedger.empty.run plainHost
      [.registerPricingPolicy defaultPricing, .certify twoNodeEvidence]) twoNodeRequest s l' := by
  have evaluated : ((EconomicLedger.empty.run plainHost
      [.registerPricingPolicy defaultPricing, .certify twoNodeEvidence]).settle plainHost
      twoNodeRequest).toOption.map
        (·.1.contributorCredits) = some [⟨"n1", 3⟩, ⟨"n2", 5⟩] := by decide +kernel
  cases settled : (EconomicLedger.empty.run plainHost
      [.registerPricingPolicy defaultPricing, .certify twoNodeEvidence]).settle plainHost
      twoNodeRequest with
  | error e => rw [settled] at evaluated; cases evaluated
  | ok result =>
    rw [settled] at evaluated
    exact ⟨result.1, result.2, rfl, Option.some.inj evaluated,
      (double_entry_settlement plainHost _).2 _ _ _ settled⟩

end DoubleEntry

end EconomicLedger

end Mycellios.Economy
