import Blurt.Ledger.TransferRuns
import Blurt.Ledger.VestingBooks

/-! # Vesting shares as runs of entries

What an account may power down or lend is what the lending of the books allows, since the
shares of all accounts together fit an `int64_t`.
-/

namespace Blurt

namespace Ledger

namespace Books

variable {b : Books} {may : AccountName → Prop}

/-- A claim moves liquid rewards to the balance, and rewards in shares to the shares. -/
theorem claim_run {name : AccountName} {h : Holder} {blurt moved shares : Int} (hb : b.Rewards)
    (hh : b.holders.find? name = some h) (hblurt : 0 ≤ blurt)
    (hfunds : 0 ≤ h.funds .rewardBlurtBalance + -blurt)
    (hmoved : moved ≤ h.funds .rewardVestingBlurt) (hshares : 0 ≤ shares)
    (hrewards : shares ≤ h.funds .rewardVestingBalance)
    (hrange : ((b.totals.addVesting moved shares).addPending (-moved) (-shares)).InRange) :
    Run (Step may) b 0 (((((((b.credit name .rewardBlurtBalance (-blurt)).credit name .balance
      blurt).credit name .vestingShares shares).credit name .rewardVestingBalance (-shares)).credit
        name .rewardVestingBlurt (-moved)).setTotals fun t =>
          (t.addVesting moved shares).addPending (-moved) (-shares)).shiftVotes name
            (.single shares) blurtMaxProxyRecursionDepth) := by
  obtain ⟨-, -, hint⟩ := hb name h hh
  -- the shares come last, so that the entry of the rewards finds both of its funds
  let spent := b.credit name .rewardBlurtBalance (-blurt)
  let paid := spent.credit name .balance blurt
  let claimed := (paid.credit name .rewardVestingBlurt (-moved)).credit name .rewardVestingBalance
    (-shares)
  have hspent := find?_credit_some hh .rewardBlurtBalance (-blurt)
  have hpaid := find?_credit_some hspent .balance blurt
  have hclaimed := find?_credit_some (find?_credit_some hpaid .rewardVestingBlurt (-moved))
    .rewardVestingBalance (-shares)
  have hspend : Step may b _ spent := .credit hh rfl (.inr hfunds)
  have hpay : Step may spent _ paid := .credit hspent rfl (.inl hblurt)
  have hpending : Step may paid (.of 0 (-shares) 0 0 (-moved)) claimed := by
    refine .rewardShares hpaid ?_ ?_ ?_ <;> simp [Holder.credit_funds]
    · exact hmoved
    · exact hrewards
    · exact ⟨by omega, by have := hint.2; omega⟩
  have htotals := Step.setTotals may (b := claimed)
    (f := fun t => (t.addVesting moved shares).addPending (-moved) (-shares)) rfl fun _ => hrange
  rw [credit_comm _ _ _ .vestingShares .rewardVestingBalance, credit_comm _ _ _ .vestingShares
    .rewardVestingBlurt, credit_comm _ _ _ .rewardVestingBalance .rewardVestingBlurt]
  refine ((((Run.single hspend).tail hpay).tail hpending).tail htotals).tail
    (.vest hclaimed hshares) |>.relabel ?_
  funext column
  cases column <;> simp [claimed, paid, spent, Totals.columns, Totals.addVesting,
    Totals.addPending, Drift.of]
  all_goals omega

end Books

/-- What the shares of an account allow it to lend leaves its power-down covered. -/
theorem availableShares_within {delegator updated : Account} {amount : Int}
    (hsame : updated.holder = delegator.holder)
    (hwithin : delegator.holder.powerDown.Within delegator.holder.unlent)
    (hreceived : 0 ≤ delegator.receivedVestingShares)
    (hdelegated : 0 ≤ delegator.delegatedVestingShares)
    (hrange : delegator.vestingShares + delegator.receivedVestingShares < 2 ^ 63)
    (h : amount ≤ Database.availableShares (getEffectiveVestingShares delegator) updated) :
    delegator.holder.powerDown.Within (delegator.holder.unlent - amount) := by
  have hpower : updated.powerDown = delegator.powerDown := congrArg Holder.powerDown hsame
  have hfund : updated.receivedVestingShares = delegator.receivedVestingShares :=
    congrFun (congrArg Holder.funds hsame) .receivedVestingShares
  simp only [Account.powerDown, PowerDown.mk.injEq] at hpower
  obtain ⟨hrate, hnext, hto, hdone⟩ := hpower
  obtain ⟨hunlent, hdue, hcovered⟩ := hwithin
  change 0 ≤ delegator.vestingShares - delegator.delegatedVestingShares at hunlent
  change delegator.nextVestingWithdrawal ≤ maximumTime at hdue
  simp only [Database.availableShares, getEffectiveVestingShares, hrate, hnext, hto, hdone,
    hfund] at h
  by_cases hactive : delegator.nextVestingWithdrawal = maximumTime
  · apply PowerDown.Within.of_inactive _ hactive
    change 0 ≤ delegator.vestingShares - delegator.delegatedVestingShares - amount
    rw [if_neg (by omega), if_neg (not_not.mpr hactive), wrapInt64_of_lt (by omega) (by omega)] at h
    omega
  · obtain ⟨hpositive, hstarted, hleft, hdvd, hrest⟩ := hcovered hactive
    change delegator.toWithdraw - delegator.withdrawn ≤
      delegator.vestingShares - delegator.delegatedVestingShares at hrest
    change 0 < delegator.vestingWithdrawRate at hpositive
    change delegator.withdrawn ≤ delegator.toWithdraw at hleft
    rw [if_pos hactive, wrapInt64_of_lt (by omega) (by omega)] at h
    -- the next week is taken from the effective shares, and the weeks after it here
    have hfree : delegator.toWithdraw - delegator.withdrawn ≤
        delegator.vestingShares - delegator.delegatedVestingShares - amount := by
      split at h <;> omega
    refine ⟨?_, hdue, fun _ => ⟨hpositive, hstarted, hleft, hdvd, hfree⟩⟩
    change 0 ≤ delegator.vestingShares - delegator.delegatedVestingShares - amount
    omega

namespace Database

variable {may : AccountName → Prop} {db db' : Database} {name : AccountName}

/-! ## Prices -/

/-- A conversion at a price of at most one, or of no more than is behind the price. -/
theorem convert_nonneg {amount same other converted : Int} (hamount : 0 ≤ amount)
    (hrange : amount < 2 ^ 63) (hsame : same < 2 ^ 63) (hother : 0 ≤ other ∧ other < 2 ^ 63)
    (hle : amount ≤ same ∨ other ≤ same) (h : Price.convert amount same other = .ok converted) :
    0 ≤ converted := by
  simp only [Price.convert, Outcome.bind_eq_ok, Outcome.ensure_eq_ok, UInt128.div_eq_ok,
    UInt128.toUInt64_eq_ok, Outcome.pure_eq_ok] at h
  obtain ⟨_, hpositive, _, ⟨-, rfl⟩, _, ⟨-, rfl⟩, rfl⟩ := h
  rw [UInt128.ofInt_of_nonneg hamount hrange, UInt128.ofInt_of_nonneg hother.1 hother.2,
    UInt128.ofInt_of_nonneg hpositive.le hsame]
  have hquotient : UInt128.wrap (amount.toNat * other.toNat) / same.toNat < 2 ^ 63 := by
    have hwrap : UInt128.wrap (amount.toNat * other.toNat) ≤ amount.toNat * other.toNat :=
      Nat.mod_le _ _
    rcases hle with hle | hle
    · have hbound := Nat.mul_le_mul_right other.toNat (Int.toNat_le_toNat hle)
      have hdiv := Nat.div_le_of_le_mul (hwrap.trans hbound)
      omega
    · have hbound := Nat.mul_le_mul_left amount.toNat (Int.toNat_le_toNat hle)
      have hdiv := Nat.div_le_of_le_mul ((hwrap.trans hbound).trans (Nat.mul_comm _ _).le)
      omega
  rw [wrapInt64_of_lt (Int.natCast_nonneg _) (by exact_mod_cast hquotient)]
  exact Int.natCast_nonneg _

/-- Shares of the total are worth something that fits an `int64_t`. -/
theorem toBlurt_nonneg {dgp : GlobalProperties} {price : Price} {shares converted : Int}
    (hrange : dgp.totals.InRange) (hprice : dgp.getVestingSharePrice = .ok price)
    (hshares : 0 ≤ shares) (hle : shares ≤ dgp.totalVestingShares)
    (h : price.toBlurt shares = .ok converted) : 0 ≤ converted := by
  have hfit : shares < 2 ^ 63 := hle.trans_lt hrange.shares.2
  simp only [GlobalProperties.getVestingSharePrice, Price.make] at hprice
  split at hprice
  · cases hprice
    exact convert_nonneg hshares hfit (by decide) (by decide) (.inr (by decide)) h
  · simp only [Outcome.bind_eq_ok, Outcome.ensure_eq_ok, Outcome.pure_eq_ok] at hprice
    obtain ⟨_, -, _, hfund, rfl⟩ := hprice
    exact convert_nonneg hshares hfit hrange.shares.2 ⟨hfund.le, hrange.fund.2⟩ (.inl hle) h

/-! ## Creating shares -/

theorem createVesting_inRange {liquid : Asset} {newVesting : Int}
    (h : db.createVesting name liquid = .ok (db', newVesting)) : db'.books.totals.InRange := by
  simp only [createVesting, Outcome.bind_eq_ok, Outcome.pure_eq_ok, shareType_eq_ok,
    Prod.mk.injEq] at h
  obtain ⟨_, -, _, -, _, -, _, -, _, -, _, ⟨hfund, rfl⟩, _, ⟨hshares, rfl⟩, voted, hvoted, rfl,
    -⟩ := h
  obtain ⟨-, hframe⟩ := adjustProxiedShare_books hvoted
  rw [hframe]
  exact ⟨hfund, hshares⟩

theorem createVesting_enters {liquid : Asset} {newVesting : Int}
    (h : db.createVesting name liquid = .ok (db', newVesting)) :
    Enters may db (.of liquid.amount 0 0 0 0) db' := by
  obtain ⟨⟨hnonneg, -⟩, hbooks, -⟩ := createVesting_books h
  have hrange := createVesting_inRange h
  rw [hbooks, Books.totals_shiftVotes] at hrange
  simp only [createVesting, Outcome.bind_eq_ok] at h
  obtain ⟨_, -, _, -, _, -, charged, hcharged, -⟩ := h
  obtain ⟨a, _, ha, -⟩ := modifyAccount_eq_ok.mp hcharged
  have hfund : Books.Step may db.books _
      (db.books.setTotals fun _ => db.books.totals.addVesting liquid.amount newVesting) :=
    .totals rfl fun _ => hrange
  rw [Enters, hbooks]
  refine ((Run.single hfund).tail (.vest (find?_holders_some ha) hnonneg)).relabel ?_
  funext column
  cases column <;> simp [Totals.columns, Totals.addVesting, Drift.of]

theorem transferToVesting_enters {o : TransferToVestingOperation}
    (h : db.transferToVesting o = .ok db') : Enters may db 0 db' := by
  simp only [transferToVesting, Outcome.bind_eq_ok, Outcome.ensure_eq_ok, Outcome.pure_eq_ok,
    Prod.exists] at h
  obtain ⟨_, -, _, -, _, hblurt, debited, hdebited, vested, newVesting, hvested, rfl⟩ := h
  refine ((Run.single (adjustBalance_entry may hdebited hblurt)).trans
    (createVesting_enters hvested)).relabel ?_
  rw [Drift.of_add]
  simp

/-! ## Powering down -/

theorem withdrawRate_pos {amount intervals : Int} (hamount : 0 < amount)
    (hintervals : 0 < intervals) : 0 < withdrawRate amount intervals := by
  have hrate : 0 ≤ amount.tdiv intervals := Int.tdiv_nonneg hamount.le hintervals.le
  simp only [withdrawRate]
  split <;> split <;> omega

theorem addSeconds_le_maximumTime (time seconds : Nat) : addSeconds time seconds ≤ maximumTime := by
  have hlt : addSeconds time seconds < 2 ^ 32 := Nat.mod_lt _ (by decide)
  rw [maximumTime]
  omega

theorem withdrawVesting_enters {o : WithdrawVestingOperation} (hb : db.books.Sound)
    (hnull : o.account ≠ blurtNullAccount) (h : db.withdrawVesting o = .ok db') :
    Enters may db 0 db' := by
  obtain ⟨account, haccount, hnonneg, havailable, hbooks⟩ := withdrawVesting_books h
  have hholder := find?_holders_some haccount
  have hwithin := hb.lending.within _ _ hholder
  rw [Enters, hbooks]
  refine Run.single (.setPowerDown hholder ?_ fun hname => absurd hname hnull)
  split
  · exact .of_inactive hwithin.nonneg rfl
  · refine ⟨hwithin.nonneg, addSeconds_le_maximumTime _ _, fun _ => ?_⟩
    have hintervals : 0 < (if db.hasHardfork 5 then blurtVestingWithdrawIntervalsHf5
        else blurtVestingWithdrawIntervals) := by
      split <;> decide
    refine ⟨withdrawRate_pos ?_ hintervals, le_rfl, hnonneg, dvd_zero _, ?_⟩
    · omega
    · rw [sub_zero]
      exact havailable

/-! ## Claims of rewards -/

/-- A claim of some of the shares moves at most all of the liquid that is behind them. -/
theorem rewardVestingToMove_le {a : Account} {rewardVests moved : Int} (hnonneg : 0 ≤ rewardVests)
    (hle : rewardVests ≤ a.rewardVestingBalance) (hblurt : 0 ≤ a.rewardVestingBlurt)
    (hrange : a.rewardVestingBalance < 2 ^ 63)
    (h : rewardVestingToMove a rewardVests = .ok moved) : moved ≤ a.rewardVestingBlurt := by
  simp only [rewardVestingToMove] at h
  split at h
  · cases h
    exact le_rfl
  · simp only [Outcome.bind_eq_ok, UInt128.div_eq_ok, UInt128.toUInt64_eq_ok, Outcome.pure_eq_ok] at h
    obtain ⟨_, ⟨-, rfl⟩, _, ⟨-, rfl⟩, rfl⟩ := h
    rw [UInt128.ofInt_of_nonneg hnonneg (by omega), UInt128.ofInt_of_nonneg (by omega) hrange]
    have hproduct : UInt128.wrap (rewardVests.toNat * UInt128.ofInt a.rewardVestingBlurt) ≤
        a.rewardVestingBalance.toNat * a.rewardVestingBlurt.toNat := by
      refine (Nat.mod_le _ _).trans (Nat.mul_le_mul (by omega) ?_)
      rw [UInt128.ofInt]
      omega
    have hquotient := Nat.div_le_of_le_mul hproduct
    have hwrap : ∀ value : Nat, wrapInt64 value ≤ value := by
      intro value
      rw [wrapInt64, Int.bmod_def]
      split <;> omega
    have hmoved := hwrap (UInt128.wrap (rewardVests.toNat * UInt128.ofInt a.rewardVestingBlurt) /
      a.rewardVestingBalance.toNat)
    omega

/-- What a claim has checked. -/
theorem claimRewardBalance_checks {op : ClaimRewardBalanceOperation}
    (h : db.claimRewardBalance op = .ok db') :
    ∃ acnt moved, db.accounts.find? op.account = some acnt ∧
      op.rewardBlurt.amount ≤ acnt.rewardBlurtBalance ∧
      op.rewardVests.amount ≤ acnt.rewardVestingBalance ∧
      rewardVestingToMove acnt op.rewardVests.amount = .ok moved ∧ db'.books.totals.InRange ∧
      db'.dgp.pendingRewardedVestingBlurt = db.dgp.pendingRewardedVestingBlurt - moved := by
  simp only [claimRewardBalance, Outcome.bind_eq_ok, Outcome.ensure_eq_ok, shareType_eq_ok,
    getAccount_eq_ok] at h
  obtain ⟨acnt, hacnt, _, hblurt, _, hliquid, _, -, _, hshares, moved, hmoved, debited, hdebited,
    credited, hcredited, claimed, hclaimed, _, ⟨htotal, rfl⟩, _, ⟨hfund, rfl⟩, _, ⟨-, rfl⟩, _,
    ⟨-, rfl⟩, h⟩ := h
  simp only [adjustRewardBalance, Outcome.bind_eq_ok, Outcome.ensure_eq_ok] at hdebited
  obtain ⟨_, -, _, -, hdebited⟩ := hdebited
  obtain ⟨-, hdebitFrame⟩ := modifyRewardBalance_liquid hdebited
  obtain ⟨-, hcreditFrame⟩ := adjustBalance_blurt hcredited hblurt
  obtain ⟨_, _, -, -, hclaimFrame⟩ := modifyAccount_eq_ok.mp hclaimed
  obtain ⟨-, hshiftFrame⟩ := adjustProxiedShare_books h
  refine ⟨acnt, moved, hacnt, hliquid, hshares, hmoved, ?_, ?_⟩
  · rw [hshiftFrame]
    exact ⟨hfund, htotal⟩
  · rw [hshiftFrame, ← hclaimFrame, hcreditFrame, hdebitFrame]

theorem claimRewardBalance_enters {op : ClaimRewardBalanceOperation} (hb : db.books.Rewards)
    (hliquid : 0 ≤ op.rewardBlurt.amount) (hnonneg : 0 ≤ op.rewardVests.amount)
    (h : db.claimRewardBalance op = .ok db') : Enters may db 0 db' := by
  obtain ⟨moved, -, hbooks⟩ := claimRewardBalance_books h
  obtain ⟨acnt, taken, hacnt, hblurt, hshares, htaken, hrange, hpending⟩ :=
    claimRewardBalance_checks h
  have htotals : db'.books.totals = (db.books.totals.addVesting moved op.rewardVests.amount).addPending
      (-moved) (-op.rewardVests.amount) := by
    rw [hbooks, Books.totals_shiftVotes]
    rfl
  have hsame : taken = moved := by
    have hbehind := congrArg Totals.pendingRewardedVestingBlurt htotals
    change db'.dgp.pendingRewardedVestingBlurt = db.dgp.pendingRewardedVestingBlurt + -moved at hbehind
    omega
  subst hsame
  have hh := find?_holders_some hacnt
  obtain ⟨hrewards, -, hint⟩ := hb _ _ hh
  rw [htotals] at hrange
  rw [Enters, hbooks]
  refine Books.claim_run hb hh hliquid (by simpa [Account.funds] using hblurt) ?_ hnonneg hshares hrange
  exact rewardVestingToMove_le hnonneg hshares hrewards hint.2 htaken

/-! ## Delegations -/

theorem delegateVestingShares_enters {op : DelegateVestingSharesOperation} (hb : db.books.Sound)
    (hnull : op.delegator ≠ blurtNullAccount) (hother : op.delegator ≠ op.delegatee)
    (hnonneg : 0 ≤ op.vestingShares.amount) (h : db.delegateVestingShares op = .ok db') :
    Enters may db 0 db' := by
  obtain ⟨delegator, updated, hdelegator, hsame, hcases⟩ := delegateVestingShares_books h
  simp only [delegateVestingShares, Outcome.bind_eq_ok, getAccount_eq_ok] at h
  obtain ⟨_, -, delegatee, hdelegatee, -⟩ := h
  have hh := find?_holders_some hdelegator
  have hk := find?_holders_some hdelegatee
  obtain ⟨hreceived, hrange⟩ := hb.shares_add_received hh
  have hdelegated : 0 ≤ delegator.delegatedVestingShares := Books.delegated_nonneg hb.lending hh
  have hwithin : ∀ {amount : Int}, amount ≤ availableShares (getEffectiveVestingShares delegator)
      updated → delegator.holder.powerDown.Within (delegator.holder.unlent - amount) :=
    availableShares_within hsame (hb.lending.within _ _ hh) hreceived hdelegated hrange
  rw [Enters]
  rcases hcases with ⟨hnone, havailable, hbooks⟩ | ⟨old, hold, ⟨hgrows, havailable, hbooks⟩ |
    ⟨hshrinks, hbooks⟩⟩
  · have hlend : Books.Step may _ _ _ := .lend hh hk hother hnull hnonneg (hwithin havailable)
    rw [hnone, Option.getD_none, zero_add] at hlend
    rw [hbooks]
    exact Run.single hlend
  · have hlend : Books.Step may _ _ _ := .lend hh hk hother hnull (sub_nonneg.mpr hgrows)
      (hwithin havailable)
    rw [hold, Option.getD_some, add_sub_cancel] at hlend
    rw [hbooks]
    exact Run.single hlend
  · rw [hbooks]
    split
    · have hback : Books.Step may _ _ _ :=
        .giveBack hold hk (sub_nonneg.mpr hshrinks.le) (sub_le_self old hnonneg) (.inl rfl)
      rw [sub_sub_cancel] at hback
      exact Run.single hback
    · have hzero : op.vestingShares.amount = 0 := by omega
      rw [hzero] at hshrinks ⊢
      rw [sub_zero]
      exact Run.single (.giveBack hold hk hshrinks.le le_rfl (.inr ⟨rfl, rfl⟩))

end Database

end Ledger

end Blurt
