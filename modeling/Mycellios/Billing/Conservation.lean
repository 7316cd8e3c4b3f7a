import Mycellios.Billing.Manager

namespace Mycellios.Billing

open Data Logic

def Content.userId : Content → String
  | .subscriptionPaid event => event.userId
  | .topupPaid event => event.userId
  | .paymentReversed event => event.userId
  | .subscriptionStatus event => event.userId

namespace Tables

variable {δ : Type} {host : Host δ} {moment : Moment} {t t' u : Tables δ} {user : String}
  {a : ApiAccount}

def balance (t : Tables δ) (user : String) : Int :=
  ((t.accounts.find? user).map (·.tokenBalance)).getD 0

def starter (host : Host δ) (t : Tables δ) (user : String) : Int :=
  ((t.accounts.find? user).map fun _ => (host.limits.starterTokens : Int)).getD 0

def reservedOf (user : String) (u : ApiUsage) : Int :=
  if u.userId = user ∧ u.status = .pending then u.reservedTokens else 0

def grantOf (user : String) (g : CreditGrant) : Int := if g.userId = user then g.tokenAmount else 0

def reversalOf (user : String) (r : BillingReversal δ) : Int :=
  if r.userId = user then r.tokenAmount else 0

/-- What an account has, and what it was given by the records. -/
def worth (t : Tables δ) (user : String) : Int :=
  t.balance user + t.usages.sumBy (reservedOf user) - t.tokenDebt user

def booked (host : Host δ) (t : Tables δ) (user : String) : Int :=
  t.starter host user + t.grants.sumBy (grantOf user) - t.reversals.sumBy (reversalOf user)

structure Purse (t : Tables δ) : Prop where
  balances : ∀ user a, t.accounts.find? user = some a → 0 ≤ a.tokenBalance
  debts : ∀ user d, t.debts.find? user = some d → 0 ≤ d
  reserves : ∀ id u, t.usages.find? id = some u → 0 ≤ u.reservedTokens
  users : ∀ id u, t.usages.find? id = some u → ∃ a, t.accounts.find? u.userId = some a
  payers : ∀ k e, t.events.find? k = some e → ∃ a, t.accounts.find? e.userId = some a
  reversed : ∀ k r, t.reversals.find? k = some r → ∃ a, t.accounts.find? r.userId = some a

/-- Each event is recorded once, with one grant if paid, and reversals stay within grants. -/
structure Books (host : Host δ) (t : Tables δ) : Prop where
  paid : ∀ k e, t.events.find? k = some e → ∃ c : Content, e.eventDigest = host.eventDigest c ∧
    c.userId = e.userId
  returned : ∀ k r, t.reversals.find? k = some r →
    ∃ c : Content, r.eventDigest = host.eventDigest c ∧ c.userId = r.userId
  paidOnly : ∀ k, t.events.contains k → ¬t.reversals.contains k ∧ ¬t.statusEvents.contains k
  reversedOnly : ∀ k, t.reversals.contains k → ¬t.statusEvents.contains k
  source : ∀ id g, t.grants.find? id = some g → ∃ k e, t.events.find? k = some e ∧
    e.id = g.sourceEventId
  once : ∀ id g id' g', t.grants.find? id = some g → t.grants.find? id' = some g' →
    g.sourceEventId = g'.sourceEventId → id = id'
  original : ∀ k r, t.reversals.find? k = some r → ∃ k' e, t.events.find? k' = some e ∧
    e.id = r.originalEventId
  bound : ∀ id g, t.grants.find? id = some g → t.reversedTotal g.sourceEventId ≤ g.tokenAmount

theorem Purse.start (plans : Dict (String × Nat) BillingPlan) (quotes : Dict String TopUpQuote)
    (intents : Dict String StablecoinIntent) : (start plans quotes intents : Tables δ).Purse := by
  constructor <;> simp [Tables.start]

theorem Books.start (plans : Dict (String × Nat) BillingPlan) (quotes : Dict String TopUpQuote)
    (intents : Dict String StablecoinIntent) :
    (start plans quotes intents : Tables δ).Books host := by
  constructor <;> simp [Tables.start, Dict.contains]

theorem Purse.tokenDebt_nonneg (purse : t.Purse) (user : String) : 0 ≤ t.tokenDebt user := by
  rw [tokenDebt]
  cases found : t.debts.find? user with
  | none => exact le_rfl
  | some d => exact purse.debts user d found

theorem Purse.account (purse : t.Purse) (user : String) (nonneg : 0 ≤ a.tokenBalance) :
    Purse { t with accounts := t.accounts.insert user a } := by
  have known : ∀ other, (∃ b, t.accounts.find? other = some b) →
      ∃ b, (t.accounts.insert user a).find? other = some b := by
    rintro other ⟨b, found⟩
    rw [Dict.find?_insert]
    split
    · exact ⟨a, rfl⟩
    · exact ⟨b, found⟩
  refine { purse with balances := ?_, users := ?_, payers := ?_, reversed := ?_ }
  · exact Dict.forall_find?_insert nonneg purse.balances
  · exact fun id u found => known _ (purse.users id u found)
  · exact fun k e found => known _ (purse.payers k e found)
  · exact fun k r found => known _ (purse.reversed k r found)

theorem balance_of_find? (found : t.accounts.find? user = some a) :
    t.balance user = a.tokenBalance := by
  rw [balance, found]
  rfl

theorem balance_insert (h : t'.accounts = t.accounts.insert user a) (other : String) :
    t'.balance other = if user = other then a.tokenBalance else t.balance other := by
  rw [balance, h, Dict.find?_insert]
  split
  · rfl
  · rfl

theorem starter_insert (h : t'.accounts = t.accounts.insert user a)
    (found : t.accounts.find? user = some b) (other : String) :
    t'.starter host other = t.starter host other := by
  rw [starter, starter, h, Dict.find?_insert]
  split
  · rename_i here
    rw [← here, found]
    rfl
  · rfl

section Access

def gap (host : Host δ) (t : Tables δ) (user : String) : Int := t.worth user - t.booked host user

theorem gap_write (found : t.accounts.find? user = some a)
    (written : t'.accounts = t.accounts.insert user a') (other : String) :
    t'.gap host other = t.gap host other +
      (if user = other then a'.tokenBalance - a.tokenBalance else 0) +
      (t'.usages.sumBy (reservedOf other) - t.usages.sumBy (reservedOf other)) -
      (t'.tokenDebt other - t.tokenDebt other) - (t'.grants.sumBy (grantOf other) - t.grants.sumBy
        (grantOf other)) +
      (t'.reversals.sumBy (reversalOf other) - t.reversals.sumBy (reversalOf other)) := by
  simp only [gap, worth, booked, balance_insert written, starter_insert written found]
  by_cases mine : user = other
  · subst mine
    rw [if_pos rfl, if_pos rfl, balance_of_find? found]
    omega
  · rw [if_neg mine, if_neg mine]
    omega

structure Opens (host : Host δ) (t u : Tables δ) (user : String) (a : ApiAccount) : Prop where
  same : u = { t with accounts := u.accounts }
  found : u.accounts.find? user = some a
  purse : t.Purse → u.Purse
  gap : ∀ other, u.gap host other = t.gap host other
  known : ∀ b, t.accounts.find? user = some b → u = t

theorem getOrCreateAccount_opens (host : Host δ) (moment : Moment) (t : Tables δ) (user : String) :
    Opens host t (t.getOrCreateAccount host moment user).2 user
    (t.getOrCreateAccount host moment user).1 := by
  rw [getOrCreateAccount]
  cases found : t.accounts.find? user with
  | some a => exact ⟨rfl, found, id, fun _ => rfl, fun _ _ => rfl⟩
  | none =>
    refine ⟨rfl, Dict.find?_insert_self .., fun purse => ?_, fun other => ?_, fun b listed => ?_⟩
    · exact purse.account user (Int.natCast_nonneg _)
    · simp only [Tables.gap, worth, booked, balance, starter, tokenDebt, Dict.find?_insert]
      by_cases here : user = other
      · subst here
        simp only [found, if_true, Option.map_some, Option.map_none, Option.getD_some,
          Option.getD_none]
        omega
      · simp only [here, if_false]
    · rw [found] at listed
      cases listed

theorem updateAccount_eq {f : ApiAccount → ApiAccount} (found : t.accounts.find? user = some a) :
    t.updateAccount user f = { t with accounts := t.accounts.insert user (f a) } := by
  rw [updateAccount, found]

def Seen (t : Tables δ) (k : Provider × String) : Prop :=
  t.events.contains k ∨ t.reversals.contains k ∨ t.statusEvents.contains k

def QuoteSpent (t : Tables δ) (id : String) : Prop :=
  ∃ q, t.quotes.find? id = some q ∧ q.status = .consumed

def IntentSpent (t : Tables δ) (id : String) : Prop :=
  ∃ i, t.intents.find? id = some i ∧ i.status = .consumed

structure Grows (t t' : Tables δ) : Prop where
  seen : ∀ k, t.Seen k → t'.Seen k
  quotes : ∀ id, t.QuoteSpent id → t'.QuoteSpent id
  intents : ∀ id, t.IntentSpent id → t'.IntentSpent id

theorem Grows.of_same (events : t'.events = t.events) (reversals : t'.reversals = t.reversals)
    (statusEvents : t'.statusEvents = t.statusEvents) (quotes : t'.quotes = t.quotes)
    (intents : t'.intents = t.intents) : Grows t t' where
  seen := fun k => by rw [Seen, Seen, events, reversals, statusEvents]; exact id
  quotes := fun q => by rw [QuoteSpent, QuoteSpent, quotes]; exact id
  intents := fun i => by rw [IntentSpent, IntentSpent, intents]; exact id

theorem Grows.refl (t : Tables δ) : Grows t t := .of_same rfl rfl rfl rfl rfl

theorem Grows.trans (first : Grows t u) (second : Grows u t') : Grows t t' :=
  ⟨fun k => second.seen k ∘ first.seen k, fun id => second.quotes id ∘ first.quotes id,
    fun id => second.intents id ∘ first.intents id⟩

/-- A call lets the worth of an account grow by the tokens that no record explains. -/
structure Keeps (host : Host δ) (t t' : Tables δ) (change : String → Int) : Prop where
  purse : t'.Purse
  books : t'.Books host
  gap : ∀ user, t'.gap host user = t.gap host user + change user
  grows : Grows t t'

theorem Keeps.refl (purse : t.Purse) (books : t.Books host) : Keeps host t t fun _ => 0 :=
  ⟨purse, books, fun _ => (add_zero _).symm, .refl t⟩

variable {change : String → Int} {r : Option ApiAccount} {a' : ApiAccount} {id : String}

theorem Keeps.congr {change' : String → Int} (h : Keeps host t t' change)
    (same : ∀ user, change' user = change user) : Keeps host t t' change' :=
  ⟨h.purse, h.books, fun user => by rw [h.gap, same], h.grows⟩

theorem Keeps.trans {change' : String → Int} (first : Keeps host t u change)
    (second : Keeps host u t' change') : Keeps host t t' fun user => change user + change' user :=
  ⟨second.purse, second.books, fun user => by rw [second.gap, first.gap, add_assoc],
    first.grows.trans second.grows⟩

theorem Keeps.then (first : Keeps host t u fun _ => 0) (second : Keeps host u t' fun _ => 0) :
    Keeps host t t' fun _ => 0 :=
  (first.trans second).congr fun _ => rfl

theorem Opens.books (h : Opens host t u user a) (books : t.Books host) : u.Books host := by
  rw [h.same]
  exact { books with }

theorem Opens.grows (h : Opens host t u user a) : Grows t u := by
  rw [h.same]
  exact .of_same rfl rfl rfl rfl rfl

theorem Opens.keeps (h : Opens host t u user a) (purse : t.Purse) (books : t.Books host) :
    Keeps host t u fun _ => 0 :=
  ⟨h.purse purse, h.books books, fun other => (h.gap other).trans (add_zero _).symm, h.grows⟩

section

variable (purse : t.Purse)
include purse

theorem Keeps.usage {usage : ApiUsage} (books : t.Books host)
    (same : t' = { t with
      usages := t.usages.insert id usage
      operatorFunded := funded
      accounts := t.accounts.insert user a' })
    (owner : usage.userId = user) (found : t.accounts.find? user = some a)
    (nonneg : 0 ≤ a'.tokenBalance) (reserve : 0 ≤ usage.reservedTokens)
    (moved : ∀ other, change other = (if user = other then a'.tokenBalance - a.tokenBalance
      else 0) + (reservedOf other usage - ((t.usages.find? id).map (reservedOf other)).getD 0)) :
      Keeps host t t' change := by
  subst same
  have written := purse.account user nonneg
  refine ⟨{ written with
    reserves := Dict.forall_find?_insert reserve purse.reserves
    users := Dict.forall_find?_insert ⟨a', owner ▸ Dict.find?_insert_self ..⟩ written.users },
      { books with },
    fun other => (gap_write found (by rfl) other).trans ?_, .of_same rfl rfl rfl rfl rfl⟩
  have given := moved other
  simp only [tokenDebt, Dict.sumBy_insert]
  omega

theorem insertUsage_keeps {operatorFunded : Bool} (books : t.Books host)
    (found : t.accounts.find? user = some a) (enough : reservedTokens ≤ a.tokenBalance)
    (nonneg : 0 ≤ reservedTokens)
    (h : t.insertUsage moment user apiKeyId request operatorFunded reservedTokens = .ok t') :
    Keeps host t t' fun _ => 0 := by
  simp only [insertUsage, throw_bind, raise_eq_ok, not_or] at h
  obtain ⟨⟨fresh, -⟩, done⟩ := h
  have missing : t.usages.find? (moment.newId "use") = none := by simpa [Dict.contains] using fresh
  simp only [updateAccount, found] at done
  refine Keeps.usage purse books (Except.ok.inj done).symm rfl found ?_ nonneg fun other => ?_
  · exact Int.sub_nonneg_of_le enough
  rw [missing, reservedOf]
  by_cases mine : user = other
  · simp [mine]
  · simp [mine]

theorem beginUsage_keeps {r : ApiUsageReservation} (books : t.Books host)
    (h : t.beginUsage host moment user apiKeyId request = .ok (r, t')) :
    Keeps host t t' fun _ => 0 := by
  have opened := getOrCreateAccount_opens host moment t user
  simp only [beginUsage, throw_bind, raise_eq_ok, bind_eq_ok] at h
  obtain ⟨-, -, enough, v, inserted, done⟩ := h
  obtain ⟨-, rfl⟩ := ok_inj done
  have keeps :=
    insertUsage_keeps (opened.purse purse) (opened.books books) opened.found (not_lt.mp enough) ?_
      inserted
  · exact (opened.keeps purse books).trans keeps
  split
  · exact le_rfl
  · positivity

theorem settle_keeps (books : t.Books host) (same : t' = { t with
      usages := t.usages.insert id usage'
      accounts := t.accounts.insert usage.userId a' })
    (listed : t.usages.find? id = some usage) (pending : usage.status = .pending)
    (owner : usage'.userId = usage.userId) (ended : usage'.status ≠ .pending)
    (kept : usage'.reservedTokens = usage.reservedTokens)
    (found : t.accounts.find? usage.userId = some a) (nonneg : 0 ≤ a'.tokenBalance) :
    Keeps host t t' fun user =>
      if usage.userId = user then a'.tokenBalance - a.tokenBalance - usage.reservedTokens
          else 0 := by
  refine Keeps.usage purse books same owner found nonneg (kept ▸ purse.reserves id usage listed)
    fun user => ?_
  rw [listed, Option.map_some, Option.getD_some, reservedOf, reservedOf, owner]
  by_cases mine : usage.userId = user
  · simp [mine, ended, pending]
    omega
  · simp [mine]

end

def charge (t : Tables δ) (usageId : String) (inputTokens outputTokens : Int) (user : String) :
    Int :=
  match t.usages.find? usageId with
  | none => 0
  | some usage =>
    if usage.userId = user ∧ usage.status = .pending then
      min (t.actualTokens usageId inputTokens outputTokens) (usage.reservedTokens + t.balance user)
    else 0

theorem completeUsage_keeps (purse : t.Purse)
    (books : t.Books host) (h : t.completeUsage moment id inputTokens outputTokens = .ok (r, t')) :
    Keeps host t t' fun user => -t.charge id inputTokens outputTokens user := by
  rw [completeUsage] at h
  simp only [charge]
  cases listed : t.usages.find? id with
  | none =>
    rw [listed] at h
    obtain ⟨-, rfl⟩ := ok_inj h
    exact .refl purse books
  | some usage =>
    rw [listed] at h
    simp only at h
    split at h
    · rename_i ended
      obtain ⟨-, rfl⟩ := ok_inj h
      simp only [ended, and_false, if_false, neg_zero]
      exact .refl purse books
    rename_i pending
    obtain ⟨a, found⟩ := purse.users id usage listed
    obtain ⟨-, rfl⟩ := ok_inj h
    have balance := purse.balances _ a found
    have reserve := purse.reserves id usage listed
    have pending := not_not.mp pending
    simp only [updateAccount, found]
    refine Keeps.congr (settle_keeps purse books rfl listed pending rfl (by simp) rfl found
      (le_max_left _ _)) fun user => ?_
    by_cases mine : usage.userId = user
    · rw [mine] at found
      rw [if_pos mine, if_pos ⟨mine, pending⟩, balance_of_find? found]
      simp only
      omega
    · rw [if_neg mine, if_neg fun both => mine both.1, neg_zero]

theorem failUsage_keeps (purse : t.Purse)
    (books : t.Books host) (h : t.failUsage moment id errorCode = .ok (r, t')) :
    Keeps host t t' fun _ => 0 := by
  rw [failUsage] at h
  cases listed : t.usages.find? id with
  | none =>
    rw [listed] at h
    obtain ⟨-, rfl⟩ := ok_inj h
    exact .refl purse books
  | some usage =>
    rw [listed] at h
    simp only at h
    split at h
    · obtain ⟨-, rfl⟩ := ok_inj h
      exact .refl purse books
    rename_i pending
    obtain ⟨a, found⟩ := purse.users id usage listed
    obtain ⟨-, rfl⟩ := ok_inj h
    have back := add_nonneg (purse.balances _ a found) (purse.reserves id usage listed)
    simp only [updateAccount, found]
    refine Keeps.congr (settle_keeps purse books rfl listed (not_not.mp pending) rfl (by simp) rfl
      found back) fun user => ?_
    split
    · simp only
      omega
    · rfl

theorem Keeps.account (purse : t.Purse) (books : t.Books host)
    (same : t' = { t with accounts := t.accounts.insert user a' })
    (found : t.accounts.find? user = some a) (nonneg : 0 ≤ a'.tokenBalance) :
    Keeps host t t' fun other => if user = other then a'.tokenBalance - a.tokenBalance else 0 := by
  have accounts : t'.accounts = t.accounts.insert user a' := by rw [same]
  have debts : t'.debts = t.debts := by rw [same]
  have usages : t'.usages = t.usages := by rw [same]
  have grants : t'.grants = t.grants := by rw [same]
  have reversals : t'.reversals = t.reversals := by rw [same]
  refine ⟨same ▸ purse.account user nonneg, same ▸ { books with }, fun other => ?_,
    same ▸ .of_same rfl rfl rfl rfl rfl⟩
  simp only [Tables.gap, worth, booked, tokenDebt, balance_insert accounts,
    starter_insert accounts found, usages, debts, grants, reversals]
  by_cases mine : user = other
  · rw [mine] at found
    rw [if_pos mine, if_pos mine, balance_of_find? found]
    omega
  · rw [if_neg mine, if_neg mine, add_zero]

theorem grantTokens_keeps (purse : t.Purse) (books : t.Books host)
    (h : t.grantTokens host moment user amount = .ok (r, t')) :
    Keeps host t t' fun other => if user = other then amount else 0 := by
  have opened := getOrCreateAccount_opens host moment t user
  have purse' := opened.purse purse
  obtain ⟨-, rfl⟩ := ok_inj h
  rw [updateAccount_eq opened.found]
  have added : 0 ≤ (t.getOrCreateAccount host moment user).1.tokenBalance + (amount : Int) :=
    add_nonneg (purse'.balances _ _ opened.found) (Int.natCast_nonneg _)
  refine Keeps.congr ((opened.keeps purse books).trans
    (Keeps.account purse' (opened.books books) rfl opened.found added)) fun other => ?_
  split
  · simp only
    omega
  · rfl

end Access

end Tables

end Mycellios.Billing
