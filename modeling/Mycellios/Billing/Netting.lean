import Mycellios.Billing.Runs

namespace Mycellios.Billing.Tables

open Data Logic

variable {δ : Type} {host : Host δ} {moment : Moment} {t t' : Tables δ} {user : String}

def Netted (t : Tables δ) : Prop :=
  ∀ user, t.tokenDebt user = 0 ∨ ∃ a, t.accounts.find? user = some a ∧ a.tokenBalance = 0

theorem Netted.insert (h : t.Netted) (accounts : t'.accounts = t.accounts.insert user a)
    (debts : ∀ other, user ≠ other → t'.tokenDebt other = t.tokenDebt other)
    (zero : t'.tokenDebt user = 0 ∨ a.tokenBalance = 0) : t'.Netted := by
  intro other
  rw [accounts, Dict.find?_insert]
  by_cases here : user = other
  · subst here
    exact zero.imp_right fun none => ⟨a, if_pos rfl, none⟩
  · rw [if_neg here, debts other here]
    exact h other

theorem Netted.open (h : t.Netted) (host : Host δ) (moment : Moment) (user : String) :
    (t.getOrCreateAccount host moment user).2.Netted := by
  rw [getOrCreateAccount]
  cases found : t.accounts.find? user with
  | some a => exact h
  | none =>
    refine h.insert rfl (fun _ _ => rfl) (.inl ((h user).resolve_right ?_))
    rintro ⟨a, listed, -⟩
    rw [found] at listed
    cases listed

theorem Netted.update (h : t.Netted) {f : ApiAccount → ApiAccount} (zero : t.tokenDebt user = 0 ∨
    ∀ a, t.accounts.find? user = some a → a.tokenBalance = 0 → (f a).tokenBalance = 0) :
    (t.updateAccount user f).Netted := by
  rw [updateAccount]
  cases found : t.accounts.find? user with
  | none => exact h
  | some a =>
    refine h.insert rfl (fun _ _ => rfl) ?_
    rcases h user with clear | ⟨b, listed, none⟩
    · exact .inl clear
    · obtain rfl := Option.mem_unique found listed
      exact zero.imp_right fun kept => kept a found none

/-- What a call puts on the balance of an account without a payment. -/
def Call.returned (t : Tables δ) (user : String) : Call → Int
  | .completeUsage usageId inputTokens outputTokens =>
    ((t.usages.find? usageId).map (reservedOf user)).getD 0 - t.actualTokens usageId inputTokens
      outputTokens
  | .failUsage usageId _ => ((t.usages.find? usageId).map (reservedOf user)).getD 0
  | c => c.manual user

def Clear (t : Tables δ) (c : Call) : Prop := ∀ user, t.tokenDebt user = 0 ∨ c.returned t user ≤ 0

theorem beginUsage_netted (h : t.Netted)
    (ok : t.beginUsage host moment user apiKeyId request = .ok (r, t')) : t'.Netted := by
  have opened := getOrCreateAccount_opens host moment t user
  simp only [beginUsage, insertUsage, throw_bind, raise_eq_ok, bind_eq_ok] at ok
  obtain ⟨-, -, enough, v, ⟨-, inserted⟩, done⟩ := ok
  obtain ⟨-, rfl⟩ := ok_inj done
  obtain rfl := Except.ok.inj inserted
  refine Netted.update ?_ (.inr fun a found none => ?_)
  · exact h.open host moment user
  obtain rfl := Option.mem_unique opened.found found
  rw [none] at enough
  simp only [none]
  split
  · rfl
  · rename_i paid
    rw [if_neg paid] at enough
    omega

theorem completeUsage_netted (h : t.Netted)
    (clear : t.Clear (.completeUsage usageId inputTokens outputTokens))
    (ok : t.completeUsage moment usageId inputTokens outputTokens = .ok (r, t')) : t'.Netted := by
  rw [completeUsage] at ok
  split at ok
  · obtain ⟨-, rfl⟩ := ok_inj ok
    exact h
  rename_i usage listed
  split at ok
  · obtain ⟨-, rfl⟩ := ok_inj ok
    exact h
  rename_i pending
  obtain ⟨-, rfl⟩ := ok_inj ok
  refine h.update ((clear usage.userId).imp_right fun back a _ none => ?_)
  simp only [Call.returned, listed, Option.map_some, Option.getD_some, reservedOf,
    not_not.mp pending, and_self, if_true] at back
  simp only [none]
  omega

theorem failUsage_netted (h : t.Netted) (purse : t.Purse)
    (clear : t.Clear (.failUsage usageId errorCode))
    (ok : t.failUsage moment usageId errorCode = .ok (r, t')) : t'.Netted := by
  rw [failUsage] at ok
  split at ok
  · obtain ⟨-, rfl⟩ := ok_inj ok
    exact h
  rename_i usage listed
  split at ok
  · obtain ⟨-, rfl⟩ := ok_inj ok
    exact h
  rename_i pending
  obtain ⟨-, rfl⟩ := ok_inj ok
  have reserve := purse.reserves usageId usage listed
  refine h.update ((clear usage.userId).imp_right fun back a _ none => ?_)
  simp only [Call.returned, listed, Option.map_some, Option.getD_some, reservedOf,
    not_not.mp pending, and_self, if_true] at back
  simp only [none]
  omega

theorem insertGrant_netted (ok : t.insertGrant host moment input = .ok (r, t')) (h : t.Netted)
    (owed : 0 ≤ t.tokenDebt input.userId) (found : t.accounts.find? input.userId = some a) :
    t'.Netted := by
  simp only [insertGrant, throw_bind, raise_eq_ok, updateAccount, found, getOrCreateAccount,
    Dict.find?_insert_self] at ok
  obtain ⟨-, done⟩ := ok
  obtain ⟨-, same⟩ := ok_inj done
  have debt := tokenDebt_repay (min_le_left _ (input.tokenAmount : Int))
    (le_min owed (Int.natCast_nonneg _)) (congrArg Tables.debts same).symm
  refine h.insert (congrArg Tables.accounts same).symm
    (fun other here => by rw [debt, if_neg here, sub_zero]) ?_
  rw [debt, if_pos rfl]
  simp only
  rcases h input.userId with clear | ⟨b, listed, none⟩
  · left
    rw [clear]
    omega
  · obtain rfl := Option.mem_unique found listed
    omega

theorem applyGrant_netted [DecidableEq δ] {onFirst : Tables δ → Except Failure (Tables δ)}
    (h : t.Netted) (purse : t.Purse) (ok : t.applyGrant host moment input onFirst = .ok (r, t'))
    (beside : ∀ u v, onFirst u = .ok v → Beside u v) : t'.Netted := by
  have opened := getOrCreateAccount_opens host moment t input.userId
  have netted := h.open host moment input.userId
  rcases applyGrant_cases ok beside with ⟨-, rfl⟩ | ⟨u, v, -, -, granted, same⟩
  · exact netted
  rw [same] at granted
  refine insertGrant_netted granted (fun user => ?_) (purse.tokenDebt_nonneg _) opened.found
  have before := netted user
  rwa [tokenDebt, opened.same] at before

theorem insertReversal_netted (h : t.Netted)
    (ok : t.insertReversal host moment input originalId = .ok (r, t')) : t'.Netted := by
  have opened := getOrCreateAccount_opens host moment t input.userId
  have netted := h.open host moment input.userId
  simp only [insertReversal, throw_bind, raise_eq_ok] at ok
  obtain ⟨-, done⟩ := ok
  generalize (t.getOrCreateAccount host moment input.userId).2 = u at *
  generalize (t.getOrCreateAccount host moment input.userId).1 = a at *
  simp only [updateAccount, opened.found] at done
  obtain ⟨-, rfl⟩ := ok_inj done
  split
  · rename_i owing
    refine netted.insert rfl (fun other here => ?_) (.inr ?_)
    · simp [tokenDebt, Dict.find?_insert, here]
    · simp only
      omega
  · rename_i covered
    refine netted.insert rfl (fun _ _ => rfl) ?_
    rcases netted input.userId with clear | ⟨b, listed, empty⟩
    · exact .inl clear
    obtain rfl := Option.mem_unique opened.found listed
    simp only
    omega

theorem applyPaymentReversal_netted [DecidableEq δ] (h : t.Netted)
    (ok : t.applyPaymentReversal host moment input finalized = .ok (r, t')) : t'.Netted := by
  simp only [applyPaymentReversal, bind_eq_ok, throw_bind, raise_eq_ok] at ok
  obtain ⟨-, -, -, -, -, -, -, -, -, -, -, -, -, -, ok⟩ := ok
  split at ok
  · simp only [raise_eq_ok] at ok
    obtain ⟨-, rfl⟩ := ok_inj ok.2
    exact h.open host moment input.userId
  split at ok
  · cases ok
  simp only [raise_eq_ok] at ok
  obtain ⟨-, ok⟩ := ok
  split at ok
  · cases ok
  simp only [raise_eq_ok] at ok
  exact insertReversal_netted h ok.2

theorem applySubscriptionStatus_netted [DecidableEq δ] (h : t.Netted)
    (ok : t.applySubscriptionStatus host moment input finalized = .ok (r, t')) : t'.Netted := by
  simp only [applySubscriptionStatus, bind_eq_ok, throw_bind, raise_eq_ok] at ok
  obtain ⟨-, -, -, -, -, -, -, -, -, -, ok⟩ := ok
  split at ok
  · simp only [raise_eq_ok] at ok
    obtain ⟨-, rfl⟩ := ok_inj ok.2
    exact h
  split at ok
  · cases ok
  simp only [raise_eq_ok] at ok
  obtain ⟨-, rfl⟩ := ok_inj ok.2.2
  exact h

theorem perform_netted [DecidableEq δ] (h : t.Netted) (purse : t.Purse) (clear : t.Clear c.1)
    (ok : perform host c t = .ok (a, t')) : t'.Netted := by
  obtain ⟨c, moment⟩ := c
  cases c with
  | getOrCreateAccount userId =>
    obtain ⟨-, rfl⟩ := ok_inj ok
    exact h.open host moment userId
  | beginUsage userId apiKeyId request =>
    obtain ⟨r, done, -, rfl⟩ := map_ok_inj ok
    exact beginUsage_netted h done
  | completeUsage usageId inputTokens outputTokens =>
    obtain ⟨r, done, -, rfl⟩ := map_ok_inj ok
    exact completeUsage_netted h clear done
  | failUsage usageId errorCode =>
    obtain ⟨r, done, -, rfl⟩ := map_ok_inj ok
    exact failUsage_netted h purse clear done
  | grantTokens userId amount =>
    obtain ⟨-, rfl⟩ := ok_inj ok
    refine (h.open host moment userId).update
      ((clear userId).imp (fun none => ?_) fun back a _ none => ?_)
    · rwa [tokenDebt, (getOrCreateAccount_opens host moment t userId).same]
    · simp only [Call.returned, Call.manual, if_true] at back
      simp only [none]
      omega
  | applyPaidSubscription event finalized =>
    obtain ⟨r, done, -, rfl⟩ := map_ok_inj ok
    obtain ⟨plan, granted⟩ := applyPaidSubscription_grant done
    exact applyGrant_netted h purse granted fun _ _ => renewal_beside
  | applyPaidTopUp event finalized =>
    obtain ⟨r, done, -, rfl⟩ := map_ok_inj ok
    simp only [applyPaidTopUp, bind_eq_ok, throw_bind] at done
    obtain ⟨_, -, _, -, _, -, _, -, _, -, done⟩ := done
    split at done
    · cases done
    simp only [raise_eq_ok] at done
    refine applyGrant_netted h purse done.2.2.2.2 fun u v first => ?_
    obtain ⟨w, spent, consumed⟩ := bind_eq_ok.mp first
    exact (consumeQuote_beside spent).1.trans (consumeStablecoinIntent_beside consumed).1
  | applyPaymentReversal event finalized =>
    obtain ⟨r, done, -, rfl⟩ := map_ok_inj ok
    exact applyPaymentReversal_netted h done
  | applySubscriptionStatus event finalized =>
    obtain ⟨r, done, -, rfl⟩ := map_ok_inj ok
    exact applySubscriptionStatus_netted h done

/-- No account has both tokens and a debt, unless a completion, failure or manual grant gives to one
that owes. -/
theorem debt_netted [DecidableEq δ] (host : Host δ) (plans : Dict (String × Nat) BillingPlan)
    (quotes : Dict String TopUpQuote) (intents : Dict String StablecoinIntent)
    (calls : List (Call × Moment))
    (clear : ∀ m ∈ trace (step host) (start plans quotes intents) calls, m.pre.Clear m.input.1)
    (user : String) : ¬(0 < (final (step host) (start plans quotes intents) calls).balance user ∧
      0 < (final (step host) (start plans quotes intents) calls).tokenDebt user) := by
  have after := final_invariant_of (P := fun t : Tables δ => t.Netted ∧ t.Purse ∧ t.Books host)
    (C := fun t (c : Call × Moment) => t.Clear c.1) (fun t c clear before => ?_)
    ⟨fun _ => .inl rfl, .start plans quotes intents, .start plans quotes intents⟩ clear
  · rintro ⟨held, owed⟩
    rcases after.1 user with none | ⟨a, found, none⟩
    · omega
    · rw [balance, found] at held
      simp only [Option.map_some, Option.getD_some] at held
      omega
  · obtain ⟨netted, purse, books⟩ := before
    unfold step commit
    cases done : perform host c t with
    | error e => exact ⟨netted, purse, books⟩
    | ok result =>
      have effect := perform_effect purse books done
      exact ⟨perform_netted netted purse clear done, effect.keeps.purse, effect.keeps.books⟩

/-- Contents are their own digests, and a new account is given five tokens. -/
def plainHost : Host Content := ⟨⟨5, 60, 4⟩, fun _ => none, id, id, Function.injective_id⟩

def topUp : PaidTopUpEvent :=
  ⟨⟨.stripe, "paid", "user", 1, "USD", 1, none, none, none, none, none⟩, "payment", "quote", 100⟩

def topUpQuotes : Dict String TopUpQuote :=
  Dict.empty.insert "quote" ⟨"user", 1, "USD", 100, .open, none, 9, none⟩

def reversal : PaymentReversalEvent := ⟨.stripe, "refund", "paid", "user", .refund, 100, 2⟩

/-- A request is completed and what it did not use is returned before the top-up that paid for it is
reversed. -/
def topUpReversed : List (Call × Moment) :=
  [(.applyPaidTopUp topUp true, ⟨1, id, []⟩),
    (.beginUsage "user" none ⟨"model", [], some 100, none⟩, ⟨1, id, []⟩),
    (.completeUsage "use" 10 20, ⟨2, id, []⟩), (.applyPaymentReversal reversal true, ⟨3, id, []⟩)]

theorem topUpReversed_netted :
    let t := final (step plainHost) (start Dict.empty topUpQuotes Dict.empty) topUpReversed
    t.balance "user" = 0 ∧ t.tokenDebt "user" = 25 ∧
        ¬(0 < t.balance "user" ∧ 0 < t.tokenDebt "user") := by
  refine ⟨by decide +kernel, by decide +kernel, debt_netted _ _ _ _ _ ?_ _⟩
  simp only [topUpReversed, trace, List.forall_mem_cons]
  refine ⟨fun _ => .inr le_rfl, fun _ => .inr le_rfl, fun _ => .inl rfl, fun _ => .inr le_rfl, ?_⟩
  exact List.forall_mem_nil _

theorem failed_usage_beside_debt :
    let calls :=
      [(.applyPaidTopUp topUp true, ⟨1, id, []⟩),
        (.beginUsage "user" none ⟨"model", [], some 100, none⟩, ⟨1, id, []⟩),
        (.applyPaymentReversal reversal true, ⟨2, id, []⟩), (.failUsage "use" "lost", ⟨3, id, []⟩)]
    let t := final (step plainHost) (start Dict.empty topUpQuotes Dict.empty) calls
    t.balance "user" = 101 ∧ t.tokenDebt "user" = 96 := by
  decide +kernel

end Mycellios.Billing.Tables
