import Mycellios.Billing.Conservation

namespace Mycellios.Billing.Tables

open Data Dict Logic

variable {δ : Type} {host : Host δ} {moment : Moment} {t t' u v : Tables δ} {user : String}
  {k : Provider × String} {r : BillingApplicationResult} {a : ApiAccount} {c : Content}
  {finalized : Bool}

structure Beside (t t' : Tables δ) : Prop where
  same : t' = { t with
    subscriptions := t'.subscriptions, quotes := t'.quotes, intents := t'.intents }
  quotes : ∀ id, t.QuoteSpent id → t'.QuoteSpent id
  intents : ∀ id, t.IntentSpent id → t'.IntentSpent id

theorem Beside.trans (first : Beside t u) (second : Beside u t') : Beside t t' := by
  refine ⟨?_, fun id => second.quotes id ∘ first.quotes id,
    fun id => second.intents id ∘ first.intents id⟩
  rw [second.same, first.same]

theorem renewSubscription_beside (h : t.renewSubscription moment input = .ok t') :
    Beside t t' ∧ t'.intents = t.intents := by
  have only : ∀ subscriptions, t' = { t with subscriptions := subscriptions } → Beside t t' ∧
      t'.intents = t.intents := by
    rintro subscriptions rfl
    exact ⟨⟨rfl, fun _ => id, fun _ => id⟩, rfl⟩
  rw [renewSubscription] at h
  split at h
  · split at h
    · cases h
    split at h
    · exact only _ (Except.ok.inj h).symm
    · exact only t.subscriptions (Except.ok.inj h).symm
  split at h
  · cases h
  · exact only _ (Except.ok.inj h).symm

theorem consumeQuote_beside (h : t.consumeQuote moment input = .ok t') :
    Beside t t' ∧ ¬t.QuoteSpent input.quoteId ∧ t'.QuoteSpent input.quoteId ∧
    t'.intents = t.intents := by
  rw [consumeQuote] at h
  split at h
  · cases h
  rename_i quote listed
  split at h
  · cases h
  rename_i isOpen
  split at h
  · cases h
  obtain rfl := Except.ok.inj h
  refine ⟨⟨rfl, ?_, fun _ => id⟩, ?_, ⟨_, find?_insert_self .., rfl⟩, rfl⟩
  · rintro id ⟨q, found, consumed⟩
    by_cases here : input.quoteId = id
    · exact ⟨_, by rw [find?_insert, if_pos here], rfl⟩
    · exact ⟨q, by rw [find?_insert, if_neg here, found], consumed⟩
  rintro ⟨q, found, consumed⟩
  rw [listed] at found
  obtain rfl := Option.some.inj found
  exact isOpen (by rw [consumed]; decide)

def intentOf (input : PaidEvent) : Option String :=
  match input.provider with
  | .stripe => none
  | .stablecoin => some (input.stablecoinPaymentIntentId.getD "")

theorem consumeStablecoinIntent_beside (h : t.consumeStablecoinIntent moment input = .ok t') :
    Beside t t' ∧ (t'.quotes = t.quotes ∧ t'.subscriptions = t.subscriptions) ∧
      ∀ id, intentOf input = some id → ¬t.IntentSpent id ∧ t'.IntentSpent id := by
  rw [consumeStablecoinIntent] at h
  rw [intentOf]
  cases provider : input.provider with
  | stripe =>
    rw [provider] at h
    obtain rfl := Except.ok.inj h
    exact ⟨⟨rfl, fun _ => id, fun _ => id⟩, ⟨rfl, rfl⟩, fun id none => by cases none⟩
  | stablecoin =>
    rw [provider] at h
    simp only at h
    split at h
    · cases h
    rename_i intent listed
    split at h
    · cases h
    rename_i waiting
    split at h
    · cases h
    obtain rfl := Except.ok.inj h
    refine ⟨⟨rfl, fun _ => id, ?_⟩, ⟨rfl, rfl⟩, fun id same => ⟨?_, ?_⟩⟩
    · rintro id ⟨i, found, consumed⟩
      by_cases here : input.stablecoinPaymentIntentId.getD "" = id
      · exact ⟨_, by rw [find?_insert, if_pos here], rfl⟩
      · exact ⟨i, by rw [find?_insert, if_neg here, found], consumed⟩
    · rintro ⟨i, found, consumed⟩
      rw [← Option.some.inj same, listed] at found
      obtain rfl := Option.some.inj found
      exact waiting (by rw [consumed]; decide)
    · exact ⟨_, by rw [find?_insert, if_pos (Option.some.inj same)], rfl⟩

theorem Beside.keeps (h : Beside t t') (purse : t.Purse) (books : t.Books host) :
    Keeps host t t' fun _ => 0 := by
  have same := h.same
  refine ⟨same ▸ { purse with }, same ▸ { books with }, fun user => ?_,
    ⟨fun k => ?_, h.quotes, h.intents⟩⟩
  · rw [same]
    exact (add_zero _).symm
  · rw [same]
    exact id

theorem contains_insert {ν : Type} {d : Dict (Provider × String) ν} {v : ν}
    (j : Provider × String) : (d.insert k v).contains j ↔ k = j ∨ d.contains j := by
  rw [Dict.contains, Dict.contains, find?_insert]
  split
  · rename_i here
    simp [here]
  · rename_i other
    simp [other]

theorem contains_of_find? {ν : Type} {d : Dict (Provider × String) ν} {v : ν}
    (found : d.find? k = some v) : d.contains k := by
  rw [Dict.contains, found]
  rfl

theorem Keeps.event {event : BillingEvent δ} (purse : t.Purse) (books : t.Books host)
    (unseen : ¬t.Seen k) (digest : event.eventDigest = host.eventDigest c)
    (content : c.userId = event.userId) (known : ∃ a, t.accounts.find? event.userId = some a) :
    Keeps host t { t with events := t.events.insert k event } fun _ => 0 := by
  have keep : ∀ {id}, (∃ j e, t.events.find? j = some e ∧ e.id = id) →
      ∃ j e, (t.events.insert k event).find? j = some e ∧ e.id = id := by
    rintro id ⟨j, e, listed, named⟩
    have other : k ≠ j := fun here => unseen (.inl (here ▸ contains_of_find? listed))
    exact ⟨j, e, by rw [find?_insert, if_neg other, listed], named⟩
  refine ⟨{ purse with payers := forall_find?_insert known purse.payers }, { books with
    paid := forall_find?_insert ⟨c, digest, content⟩ books.paid
    paidOnly := fun j listed => ?_
    source := fun id g listed => keep (books.source id g listed)
    original := fun j r listed => keep (books.original j r listed) }, fun _ => (add_zero _).symm,
    ⟨fun j => .imp_left fun paid => (contains_insert j).mpr (.inr paid), fun _ => id, fun _ => id⟩⟩
  · rcases (contains_insert j).mp listed with rfl | old
    · exact ⟨fun r => unseen (.inr (.inl r)), fun s => unseen (.inr (.inr s))⟩
    · exact books.paidOnly j old

theorem tokenDebt_repay (bound : repaid ≤ t.tokenDebt user) (nonneg : 0 ≤ repaid)
    (debts : t'.debts = match t.debts.find? user with
      | some debt => if 0 < repaid then t.debts.insert user (debt - repaid) else t.debts
      | none => t.debts) (other : String) :
    t'.tokenDebt other = t.tokenDebt other - if user = other then repaid else 0 := by
  rw [tokenDebt] at bound
  rw [tokenDebt, tokenDebt, debts]
  cases owed : t.debts.find? user with
  | none =>
    rw [owed, Option.getD_none] at bound
    have zero : repaid = 0 := le_antisymm bound nonneg
    simp [zero]
  | some debt =>
    by_cases pays : 0 < repaid
    · by_cases here : user = other
      · subst here
        simp [pays, owed]
      · simp [pays, here]
    · have zero : repaid = 0 := le_antisymm (not_lt.mp pays) nonneg
      simp [zero]

theorem reversedTotal_of_none
    (none : ∀ k r, t.reversals.find? k = some r → r.originalEventId ≠ eventId) :
    t.reversedTotal eventId = 0 := by
  refine List.sum_eq_zero fun amount mem => ?_
  obtain ⟨r, listed, rfl⟩ := List.mem_map.mp mem
  obtain ⟨k, found⟩ := exists_find?_of_mem_values listed
  exact if_neg (none k r found)

theorem insertGrant_keeps (purse : t.Purse) (books : t.Books host)
    (h : t.insertGrant host moment input = .ok (r, t'))
    (found : t.accounts.find? input.userId = some a) (event : ∃ k e, t.events.find? k = some e ∧
      e.id = moment.newId "bill")
    (noGrant : ∀ id g, t.grants.find? id = some g → g.sourceEventId ≠ moment.newId "bill")
    (noReversal : ∀ k r, t.reversals.find? k = some r → r.originalEventId ≠ moment.newId "bill") :
    Keeps host t t' (fun _ => 0) ∧ r.duplicate = false ∧ t'.events = t.events ∧
    t'.quotes = t.quotes ∧
      t'.intents = t.intents := by
  simp only [insertGrant, throw_bind, raise_eq_ok, not_or] at h
  obtain ⟨⟨freshId, -⟩, done⟩ := h
  have missing : t.grants.find? (moment.newId "grant") = none := by
    simpa [Dict.contains] using freshId
  simp only [updateAccount, found, getOrCreateAccount, find?_insert_self] at done
  obtain ⟨rfl, same⟩ := ok_inj done
  have repaid : min (t.tokenDebt input.userId) input.tokenAmount ≤ t.tokenDebt input.userId :=
    min_le_left _ _
  have repaid' : min (t.tokenDebt input.userId) input.tokenAmount ≤ input.tokenAmount :=
    min_le_right _ _
  have nonneg : 0 ≤ min (t.tokenDebt input.userId) input.tokenAmount :=
    le_min (purse.tokenDebt_nonneg _) (Int.natCast_nonneg _)
  generalize min (t.tokenDebt input.userId) input.tokenAmount = repay at *
  have gap : ∀ user, t'.gap host user = t.gap host user + 0 := fun user => by
    rw [gap_write found (congrArg Tables.accounts same).symm,
      tokenDebt_repay repaid nonneg (congrArg Tables.debts same).symm, ← same]
    simp only [sumBy_insert, missing, Option.map_none, Option.getD_none, grantOf]
    by_cases mine : input.userId = user
    · simp only [if_pos mine]
      omega
    · simp only [if_neg mine]
      omega
  subst same
  have richer : 0 ≤ a.tokenBalance + (input.tokenAmount - repay) :=
    add_nonneg (purse.balances _ a found) (Int.sub_nonneg_of_le repaid')
  have written := purse.account input.userId
    (a := { a with
      tokenBalance := a.tokenBalance + (input.tokenAmount - repay), updatedAt := moment.now })
        richer
  refine ⟨⟨{ written with debts := fun other d listed => ?_ }, { books with
    source := forall_find?_insert event books.source
    once := unique_insert books.once noGrant
    bound := forall_find?_insert ?_ books.bound }, gap, .of_same rfl rfl rfl rfl rfl⟩, rfl, rfl,
      rfl, rfl⟩
  · cases owing : t.debts.find? input.userId with
    | none =>
      simp only [owing] at listed
      exact purse.debts other d listed
    | some debt =>
      simp only [owing] at listed
      split at listed
      · rcases of_find?_insert listed with ⟨-, rfl⟩ | ⟨-, listed⟩
        · rw [tokenDebt, owing, Option.getD_some] at repaid
          exact Int.sub_nonneg_of_le repaid
        · exact purse.debts other d listed
      · exact purse.debts other d listed
  · exact (reversedTotal_of_none noReversal).trans_le (Int.natCast_nonneg _)

structure Applied (host : Host δ) (t t' : Tables δ) (k : Provider × String) (duplicate : Bool) :
    Prop where
  keeps : Keeps host t t' fun _ => 0
  again : duplicate = true → t' = t
  first : duplicate = false → ¬t.Seen k ∧ t'.Seen k

theorem applyGrant_spec [DecidableEq δ] {onFirst : Tables δ → Except Failure (Tables δ)}
    (purse : t.Purse) (books : t.Books host)
    (h : t.applyGrant host moment input onFirst = .ok (r, t'))
    (digest : input.digest = host.eventDigest c) (content : c.userId = input.userId)
    (beside : ∀ u v, onFirst u = .ok v → Beside u v) : Applied host t t' input.key r.duplicate ∧
    (r.duplicate = false → ∃ u v, u.quotes = t.quotes ∧
      u.intents = t.intents ∧ onFirst u = .ok v ∧ t'.quotes = v.quotes ∧
        t'.intents = v.intents) := by
  have opened := getOrCreateAccount_opens host moment t input.userId
  simp only [applyGrant, throw_bind, raise_eq_ok] at h
  obtain ⟨unreversed, unstatused, h⟩ := h
  split at h
  · rename_i existing listed
    simp only [raise_eq_ok] at h
    obtain ⟨sameDigest, h⟩ := h
    split at h
    · cases h
    obtain ⟨rfl, rfl⟩ := ok_inj h
    -- the digest is of the same content, so its user has an account already
    obtain ⟨c', digest', content'⟩ := books.paid _ existing listed
    have same : c' = c :=
      host.digest_injective (digest'.symm.trans ((not_not.mp sameDigest).trans digest))
    have owner : existing.userId = input.userId := by rw [← content', same, content]
    obtain ⟨a, known⟩ := purse.payers _ existing listed
    have unchanged := opened.known a (owner ▸ known)
    exact ⟨⟨opened.keeps purse books, fun _ => unchanged, by simp⟩, by simp⟩
  · rename_i missing
    simp only [raise_eq_ok, bind_eq_ok] at h
    obtain ⟨fresh, v, first, granted⟩ := h
    have unseen : ¬t.Seen input.key := by
      rintro (paid | reversed | status)
      · rw [Dict.contains, missing] at paid
        cases paid
      · exact unreversed reversed
      · exact unstatused status
    generalize (t.getOrCreateAccount host moment input.userId).2 = u at *
    generalize (t.getOrCreateAccount host moment input.userId).1 = a at *
    have sameEvents : u.events = t.events := by rw [opened.same]
    have sameReversals : u.reversals = t.reversals := by rw [opened.same]
    have sameGrants : u.grants = t.grants := by rw [opened.same]
    have unseen' : ¬u.Seen input.key := by
      rw [opened.same]
      exact unseen
    have keeps := opened.keeps purse books
    have newId : ∀ j e, u.events.find? j = some e → e.id ≠ moment.newId "bill" :=
        fun j e found same =>
      fresh ⟨e, mem_values_of_find? found, same⟩
    have recorded :
        Keeps host u { u with
          events := u.events.insert input.key ⟨moment.newId "bill", input.kind, input.userId,
            input.digest, input.externalReference, input.amountMicros,
            host.toUpperCase input.currency,
        input.occurredAt, moment.now⟩ } fun _ => 0 :=
      Keeps.event keeps.purse keeps.books unseen' digest content ⟨a, opened.found⟩
    have besides := (beside _ _ first).keeps recorded.purse recorded.books
    have same := (beside _ _ first).same
    have vEvents := congrArg Tables.events same
    have vAccounts := congrArg Tables.accounts same
    have vGrants := congrArg Tables.grants same
    have vReversals := congrArg Tables.reversals same
    have noGrant : ∀ id g, v.grants.find? id = some g → g.sourceEventId ≠ moment.newId "bill" := by
      intro id g found
      rw [vGrants] at found
      obtain ⟨j, e, listed, source⟩ := keeps.books.source id g found
      rw [← source]
      exact newId j e listed
    have noReversal : ∀ j r, v.reversals.find? j = some r →
        r.originalEventId ≠ moment.newId "bill" := by
      intro j r found
      rw [vReversals] at found
      obtain ⟨j', e, listed, original⟩ := keeps.books.original j r found
      rw [← original]
      exact newId j' e listed
    obtain ⟨last, duplicate, events, quotes, intents⟩ :=
      insertGrant_keeps besides.purse besides.books granted (vAccounts ▸ opened.found) ⟨input.key,
        _, by rw [vEvents]; exact find?_insert_self .., rfl⟩ noGrant noReversal
    refine ⟨⟨keeps.then (recorded.then (besides.then last)), fun yes => ?_,
      fun _ => ⟨unseen, .inl ?_⟩⟩, fun _ => ?_⟩
    · rw [duplicate] at yes
      cases yes
    · rw [events, vEvents]
      exact (contains_insert _).mpr (.inl rfl)
    · exact ⟨_, v, by rw [opened.same], by rw [opened.same], first, quotes, intents⟩

section Paid

variable [DecidableEq δ]

theorem applyGrant_cases {onFirst : Tables δ → Except Failure (Tables δ)}
    (ok : t.applyGrant host moment input onFirst = .ok (r, t'))
    (beside : ∀ u v, onFirst u = .ok v → Beside u v) :
    (r.duplicate = true ∧ t' = (t.getOrCreateAccount host moment input.userId).2) ∨
      ∃ u v, onFirst u = .ok v ∧ u.subscriptions = t.subscriptions ∧
      v.insertGrant host moment input = .ok (r, t') ∧
        v = { t with
          accounts := (t.getOrCreateAccount host moment input.userId).2.accounts
          subscriptions := v.subscriptions
          quotes := v.quotes
          intents := v.intents
          events := v.events } := by
  have opened := (getOrCreateAccount_opens host moment t input.userId).same
  simp only [applyGrant, throw_bind, raise_eq_ok] at ok
  obtain ⟨-, -, ok⟩ := ok
  split at ok
  · simp only [raise_eq_ok] at ok
    obtain ⟨-, ok⟩ := ok
    split at ok
    · cases ok
    obtain ⟨rfl, rfl⟩ := ok_inj ok
    exact .inl ⟨rfl, rfl⟩
  simp only [raise_eq_ok, bind_eq_ok] at ok
  obtain ⟨-, v, first, granted⟩ := ok
  refine .inr ⟨_, v, first, ?_, granted, ?_⟩
  · rw [opened]
  · rw [(beside _ _ first).same, opened]

theorem applyPaidSubscription_grant
    (h : t.applyPaidSubscription host moment input finalized = .ok (r, t')) : ∃ plan : BillingPlan,
      t.applyGrant host moment ⟨(input.provider, input.providerEventId), .subscription,
        input.userId, host.eventDigest (.subscriptionPaid input), input.providerSubscriptionId,
        input.amountMicros, input.currency, input.occurredAt, plan.includedTokens⟩
        (fun t => t.renewSubscription moment input >>=
          fun t => t.consumeStablecoinIntent moment input.toPaidEvent) = .ok (r, t') := by
  simp only [applyPaidSubscription, bind_eq_ok, throw_bind, raise_eq_ok] at h
  obtain ⟨_, -, _, -, _, -, _, -, _, -, -, h⟩ := h
  split at h
  · cases h
  rename_i plan _
  simp only [raise_eq_ok] at h
  exact ⟨plan, h.2.2⟩

omit [DecidableEq δ] in
theorem renewal_beside
    (h : t.renewSubscription moment input >>= (fun t => t.consumeStablecoinIntent moment paid) =
      .ok t') : Beside t t' := by
  obtain ⟨w, renewed, consumed⟩ := bind_eq_ok.mp h
  exact (renewSubscription_beside renewed).1.trans (consumeStablecoinIntent_beside consumed).1

theorem applyPaidSubscription_spec (purse : t.Purse) (books : t.Books host)
    (h : t.applyPaidSubscription host moment input finalized = .ok (r, t')) :
    Applied host t t' (input.provider, input.providerEventId) r.duplicate ∧
      (r.duplicate = false → ∀ id, intentOf input.toPaidEvent = some id → ¬t.IntentSpent id ∧
        t'.IntentSpent id) := by
  obtain ⟨plan, h⟩ := applyPaidSubscription_grant h
  obtain ⟨applied, first⟩ := applyGrant_spec (c := .subscriptionPaid input) purse books h rfl rfl
    fun _ _ => renewal_beside
  refine ⟨applied, fun fresh id mine => ?_⟩
  obtain ⟨u, v, -, intents, done, -, intents'⟩ := first fresh
  obtain ⟨w, renewed, consumed⟩ := bind_eq_ok.mp done
  obtain ⟨-, intents''⟩ := renewSubscription_beside renewed
  obtain ⟨before, after⟩ := (consumeStablecoinIntent_beside consumed).2.2 id mine
  rw [IntentSpent, intents'', intents] at before
  rw [IntentSpent, ← intents'] at after
  exact ⟨before, after⟩

theorem applyPaidTopUp_spec
    (purse : t.Purse) (books : t.Books host)
    (h : t.applyPaidTopUp host moment input finalized = .ok (r, t')) :
    Applied host t t' (input.provider, input.providerEventId) r.duplicate ∧
      (r.duplicate = false → (¬t.QuoteSpent input.quoteId ∧ t'.QuoteSpent input.quoteId) ∧
        ∀ id, intentOf input.toPaidEvent = some id → ¬t.IntentSpent id ∧ t'.IntentSpent id) := by
  simp only [applyPaidTopUp, bind_eq_ok, throw_bind] at h
  obtain ⟨_, -, _, -, _, -, _, -, _, -, h⟩ := h
  split at h
  · cases h
  simp only [raise_eq_ok] at h
  obtain ⟨-, -, -, -, h⟩ := h
  obtain ⟨applied, first⟩ := applyGrant_spec (c := .topupPaid input) purse books h rfl rfl
      fun u v done => by
    obtain ⟨w, spent, consumed⟩ := bind_eq_ok.mp done
    exact (consumeQuote_beside spent).1.trans (consumeStablecoinIntent_beside consumed).1
  refine ⟨applied, fun fresh => ?_⟩
  obtain ⟨u, v, quotes, intents, done, quotes', intents'⟩ := first fresh
  obtain ⟨w, spent, consumed⟩ := bind_eq_ok.mp done
  obtain ⟨-, before, after, intents''⟩ := consumeQuote_beside spent
  obtain ⟨-, ⟨quotes'', -⟩, each⟩ := consumeStablecoinIntent_beside consumed
  rw [QuoteSpent, quotes] at before
  rw [QuoteSpent, ← quotes'', ← quotes'] at after
  refine ⟨⟨before, after⟩, fun id mine => ?_⟩
  obtain ⟨before, after⟩ := each id mine
  rw [IntentSpent, intents'', intents] at before
  rw [IntentSpent, ← intents'] at after
  exact ⟨before, after⟩

end Paid

theorem Keeps.reversal {debts : Dict String Int} (owing : Int) (purse : t.Purse)
    (books : t.Books host) (found : t.accounts.find? user = some a) (unseen : ¬t.Seen k)
    (owner : row.userId = user) (digest : row.eventDigest = host.eventDigest c)
    (content : c.userId = row.userId) (original : ∃ j e, t.events.find? j = some e ∧
      e.id = row.originalEventId) (room : ∀ id g, t.grants.find? id = some g →
        g.sourceEventId = row.originalEventId →
        t.reversedTotal row.originalEventId + row.tokenAmount ≤ g.tokenAmount)
    (taken : a'.tokenBalance = a.tokenBalance - (row.tokenAmount - owing))
    (nonneg : 0 ≤ a'.tokenBalance)
    (debt : ∀ other, (debts.find? other).getD 0 = t.tokenDebt other + if user = other then owing
      else 0) (positive : ∀ other d, debts.find? other = some d → 0 ≤ d) :
    Keeps host t { t with
      accounts := t.accounts.insert user a'
      reversals := t.reversals.insert k row
      debts := debts } fun _ => 0 := by
  subst owner
  have absent : t.reversals.find? k = none := by
    cases listed : t.reversals.find? k with
    | none => rfl
    | some r => exact absurd (.inr (.inl (contains_of_find? listed))) unseen
  have written := purse.account row.userId nonneg
  refine ⟨{ written with
    debts := positive
    reversed := forall_find?_insert ⟨a', find?_insert_self ..⟩ written.reversed }, { books with
    returned := forall_find?_insert ⟨c, digest, content⟩ books.returned
    paidOnly := fun j listed => ⟨?_, (books.paidOnly j listed).2⟩
    reversedOnly := fun j listed => ?_
    original := forall_find?_insert original books.original
    bound := fun id g listed => ?_ }, fun user => (gap_write found (by rfl) user).trans ?_,
    ⟨fun j => ?_, fun _ => id, fun _ => id⟩⟩
  · rw [contains_insert]
    rintro (rfl | old)
    · exact unseen (.inl listed)
    · exact (books.paidOnly j listed).1 old
  · rcases (contains_insert j).mp listed with rfl | old
    · exact fun status => unseen (.inr (.inr status))
    · exact books.reversedOnly j old
  · rw [reversedTotal, sumBy_insert, absent, Option.map_none, Option.getD_none, sub_zero]
    split
    · rename_i here
      rw [← here]
      exact room id g listed here.symm
    · rw [add_zero]
      exact books.bound id g listed
  · have owes : tokenDebt { t with debts := debts } user = _ := debt user
    simp only [tokenDebt] at owes
    simp only [tokenDebt, owes, sumBy_insert, absent, Option.map_none, Option.getD_none, reversalOf]
    by_cases mine : row.userId = user
    · simp only [if_pos mine]
      omega
    · simp only [if_neg mine]
      omega
  · rintro (paid | reversed | status)
    · exact .inl paid
    · exact .inr (.inl ((contains_insert j).mpr (.inr reversed)))
    · exact .inr (.inr status)

theorem insertReversal_keeps {r : BillingReversalResult} (purse : t.Purse) (books : t.Books host)
    (found : t.accounts.find? input.userId = some a)
    (h : t.insertReversal host moment input originalId = .ok (r, t'))
    (unseen : ¬t.Seen (input.provider, input.providerEventId))
    (original : ∃ k e, t.events.find? k = some e ∧ e.id = originalId)
    (room : ∀ id g, t.grants.find? id = some g →
      g.sourceEventId = originalId →
        t.reversedTotal originalId + input.tokenAmount ≤ g.tokenAmount) :
    Keeps host t t' (fun _ => 0) ∧ r.duplicate = false ∧
    t'.Seen (input.provider, input.providerEventId) := by
  simp only [insertReversal, getOrCreateAccount, found, throw_bind, raise_eq_ok] at h
  obtain ⟨-, done⟩ := h
  simp only [updateAccount, found] at done
  obtain ⟨rfl, rfl⟩ := ok_inj done
  have owed := purse.tokenDebt_nonneg input.userId
  have taken : min a.tokenBalance (input.tokenAmount : Int) ≤ a.tokenBalance := min_le_left _ _
  have taken' : min a.tokenBalance (input.tokenAmount : Int) ≤ input.tokenAmount := min_le_right _ _
  generalize min a.tokenBalance (input.tokenAmount : Int) = recovered at *
  refine ⟨?_, rfl, .inr (.inl ?_)⟩
  · split
    · rename_i owing
      refine Keeps.reversal (input.tokenAmount - recovered) purse books found unseen rfl rfl rfl
        original room ?_ ?_ (fun other => ?_)
        (forall_find?_insert (add_nonneg owed owing.le) purse.debts)
      · simp
      · exact Int.sub_nonneg_of_le taken
      · by_cases here : input.userId = other
        · simp [here, tokenDebt]
        · simp [here, tokenDebt]
    · refine Keeps.reversal 0 purse books found unseen rfl rfl rfl original room ?_ ?_
        (fun other => ?_) purse.debts
      · simp only
        omega
      · exact Int.sub_nonneg_of_le taken
      · simp [tokenDebt]
  · split <;> exact (contains_insert _).mpr (.inl rfl)

section

variable [DecidableEq δ]

theorem applyPaymentReversal_spec {r : BillingReversalResult}
    (purse : t.Purse) (books : t.Books host)
    (h : t.applyPaymentReversal host moment input finalized = .ok (r, t')) :
    Applied host t t' (input.provider, input.providerEventId) r.duplicate := by
  have opened := getOrCreateAccount_opens host moment t input.userId
  simp only [applyPaymentReversal, bind_eq_ok, throw_bind, raise_eq_ok] at h
  obtain ⟨_, -, _, -, _, -, _, -, _, -, -, -, unpaid, unstatused, h⟩ := h
  split at h
  · rename_i existing listed
    simp only [raise_eq_ok] at h
    obtain ⟨sameDigest, done⟩ := h
    obtain ⟨rfl, rfl⟩ := ok_inj done
    obtain ⟨c, digest, content⟩ := books.returned _ existing listed
    have same : c = .paymentReversed input :=
      host.digest_injective (digest.symm.trans (not_not.mp sameDigest))
    have owner : existing.userId = input.userId := by rw [← content, same]; rfl
    obtain ⟨a, known⟩ := purse.reversed _ existing listed
    exact ⟨opened.keeps purse books, fun _ => opened.known a (owner ▸ known), by simp⟩
  · rename_i missing
    split at h
    · cases h
    rename_i original paid
    simp only [raise_eq_ok] at h
    obtain ⟨owner, h⟩ := h
    split at h
    · cases h
    rename_i grant listed
    simp only [raise_eq_ok] at h
    obtain ⟨room, inserted⟩ := h
    have unseen : ¬t.Seen (input.provider, input.providerEventId) := by
      rintro (event | reversed | status)
      · exact unpaid event
      · rw [Dict.contains, missing] at reversed
        cases reversed
      · exact unstatused status
    have source : t.grants.find? grant.1 = some grant.2 :=
      (t.grants.find?_eq_some_iff _ _).mpr (List.mem_of_find?_eq_some listed)
    have mine : grant.2.sourceEventId = original.id := by simpa using List.find?_some listed
    obtain ⟨a, known⟩ := purse.payers _ original paid
    obtain ⟨keeps, new, seen⟩ := insertReversal_keeps purse books (not_not.mp owner ▸ known)
      inserted unseen ⟨_, original, paid, rfl⟩ fun id g held mine' => by
        have only := books.once id g _ _ held source (mine'.trans mine.symm)
        rw [only, source] at held
        rw [← Option.some.inj held]
        omega
    rw [new]
    exact ⟨keeps, by simp, fun _ => ⟨unseen, seen⟩⟩

theorem applySubscriptionStatus_spec {input : SubscriptionStatusEvent}
    {r : SubscriptionStatusResult} (purse : t.Purse) (books : t.Books host)
    (h : t.applySubscriptionStatus host moment input finalized = .ok (r, t')) :
    Applied host t t' (input.provider, input.providerEventId) r.duplicate := by
  simp only [applySubscriptionStatus, bind_eq_ok, throw_bind, raise_eq_ok, not_or] at h
  obtain ⟨_, -, _, -, _, -, _, -, -, ⟨unpaid, unreversed⟩, h⟩ := h
  split at h
  · simp only [raise_eq_ok] at h
    obtain ⟨-, done⟩ := h
    obtain ⟨rfl, rfl⟩ := ok_inj done
    exact ⟨.refl purse books, fun _ => rfl, by simp⟩
  rename_i missing
  split at h
  · cases h
  simp only [raise_eq_ok] at h
  obtain ⟨-, -, done⟩ := h
  obtain ⟨rfl, same⟩ := ok_inj done
  have unseen : ¬t.Seen (input.provider, input.providerEventId) := by
    rintro (event | reversed | status)
    · exact unpaid event
    · exact unreversed reversed
    · rw [Dict.contains, missing] at status
      cases status
  rw [← same]
  refine ⟨⟨{ purse with }, { books with paidOnly := ?_, reversedOnly := ?_ },
    fun _ => (add_zero _).symm, ?_⟩, by simp,
    fun _ => ⟨unseen, .inr (.inr ((contains_insert _).mpr (.inl rfl)))⟩⟩
  · intro k paid
    obtain ⟨noReversal, noStatus⟩ := books.paidOnly k paid
    refine ⟨noReversal, fun status => ?_⟩
    rcases (contains_insert _).mp status with rfl | old
    · exact unpaid paid
    · exact noStatus old
  · intro k reversed status
    rcases (contains_insert _).mp status with rfl | old
    · exact unreversed reversed
    · exact books.reversedOnly k reversed old
  · refine ⟨fun k => ?_, fun _ => id, fun _ => id⟩
    rintro (paid | reversed | status)
    · exact .inl paid
    · exact .inr (.inl reversed)
    · exact .inr (.inr ((contains_insert _).mpr (.inr status)))

end

end Mycellios.Billing.Tables
