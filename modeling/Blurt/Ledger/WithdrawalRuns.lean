import Blurt.Ledger.FundRuns
import Blurt.Ledger.OverviewMaintenance

/-! # Power-downs as runs of entries

A week of a power-down leaves the account, to its routes and to its balance. What the routes
are paid in shares is in the shares twice until the week is taken from the account.
-/

namespace Blurt

namespace Ledger

open Outcome

/-- The routes take no more than all of a withdrawal. -/
def Database.RoutesWithin (db : Database) : Prop :=
  ∀ key r, db.withdrawRoutes.find? key = some r → r.percent ≤ blurt100Percent

namespace Books

variable {b : Books} {may : AccountName → Prop}

/-- The vesting fund pays for shares. -/
theorem Step.redeem {blurt shares : Int}
    (hrange : (b.totals.addVesting (-blurt) (-shares)).InRange) :
    Step may b (.of (-blurt) shares shares shares 0)
      (b.setTotals (Totals.addVesting (-blurt) (-shares))) := by
  have htotals := Step.setTotals may (b := b) (f := Totals.addVesting (-blurt) (-shares)) rfl
    fun _ => hrange
  have hlabel : b.totals.columns - (b.totals.addVesting (-blurt) (-shares)).columns =
      .of (-blurt) shares shares shares 0 := by
    funext column
    cases column <;> simp [Totals.columns, Totals.addVesting, Drift.of]
  rwa [hlabel] at htotals

theorem credit_zero (b : Books) (name : AccountName) (fund : Fund) : b.credit name fund 0 = b := by
  simp only [credit, adjust]
  congr 1
  apply Table.ext_find?
  intro other
  have hid : Holder.credit fund 0 = id := by
    funext h
    ext f
    all_goals simp [Holder.credit]
  rw [Table.find?_adjust, hid]
  split
  · rw [Option.map_id, id]
  · rfl

end Books

namespace Database

variable {may : AccountName → Prop} {db db' db'' : Database} {name : AccountName}
  {week shares redeemed : Int}

/-! ## Deposits -/

theorem RoutesWithin.route (hdb : db.RoutesWithin) {route : AccountName × WithdrawVestingRoute}
    (hroute : route ∈ db.routesOf name) : route.2.percent ≤ blurt100Percent := by
  obtain ⟨row, hrow, rfl⟩ := List.mem_map.mp hroute
  exact hdb _ _ (Store.mem_ordered_iff.mp hrow).1

theorem routedShares_nonneg {percent : Nat} {share : Int} (hweek : 0 ≤ week) (hrange : week < 2 ^ 63)
    (hpercent : percent ≤ blurt100Percent) (h : routedShares week percent = .ok share) :
    0 ≤ share := by
  simp only [routedShares, bind_eq_ok, UInt128.div_eq_ok, UInt128.toUInt64_eq_ok, pure_eq_ok] at h
  obtain ⟨_, ⟨-, rfl⟩, _, ⟨-, rfl⟩, rfl⟩ := h
  rw [UInt128.ofInt_of_nonneg hweek hrange]
  have hproduct : UInt128.wrap (week.toNat * percent) ≤ blurt100Percent * week.toNat := by
    refine (Nat.mod_le _ _).trans ?_
    rw [Nat.mul_comm]
    exact Nat.mul_le_mul_right _ hpercent
  have hshare := Nat.div_le_of_le_mul hproduct
  rw [wrapInt64_of_lt (Int.natCast_nonneg _) (by omega)]
  exact Int.natCast_nonneg _

/-- The routes of a withdrawal were paid `shares`, of which `redeemed` left the vesting fund. -/
structure Deposits (may : AccountName → Prop) (db : Database) (shares redeemed : Int)
    (db' : Database) : Prop where
  run : Enters may db (.of 0 shares shares shares 0) db'
  loans : db.books.SameLoans db'.books
  total : db'.dgp.totalVestingShares = db.dgp.totalVestingShares - redeemed
  routes : db'.withdrawRoutes = db.withdrawRoutes

namespace Deposits

theorem refl (db : Database) : Deposits may db 0 0 db where
  run := by
    rw [Drift.of_zero]
    exact .refl db
  loans := .of_holders rfl rfl rfl rfl
  total := (sub_zero _).symm
  routes := rfl

theorem trans {shares' redeemed' : Int} (h : Deposits may db shares redeemed db')
    (h' : Deposits may db' shares' redeemed' db'') :
    Deposits may db (shares + shares') (redeemed + redeemed') db'' where
  run := (h.run.trans h'.run).relabel (by rw [Drift.of_add, add_zero])
  loans := h.loans.trans h'.loans
  total := by
    rw [h'.total, h.total]
    omega
  routes := h'.routes.trans h.routes

end Deposits

theorem depositVests_deposits {state next : Database × Int}
    {route : AccountName × WithdrawVestingRoute} (hweek : 0 ≤ week) (hrange : week < 2 ^ 63)
    (hpercent : route.2.percent ≤ blurt100Percent) (h : depositVests week state route = .ok next) :
    state.2 ≤ next.2 ∧ Deposits may state.1 (next.2 - state.2) 0 next.1 := by
  have hnothing : Deposits may state.1 (state.2 - state.2) 0 state.1 := by
    rw [sub_self]
    exact .refl state.1
  unfold depositVests at h
  split at h
  · simp only [bind_eq_ok, shareType_eq_ok] at h
    obtain ⟨toDeposit, hdeposit, _, ⟨-, rfl⟩, h⟩ := h
    have hnonneg := routedShares_nonneg hweek hrange hpercent hdeposit
    split at h
    · simp only [bind_eq_ok, pure_eq_ok] at h
      obtain ⟨credited, hcredited, voted, hvoted, rfl⟩ := h
      obtain ⟨a, _, ha, -⟩ := modifyAccount_eq_ok.mp hcredited
      obtain ⟨hcredit, hcreditFrame⟩ := modifyAccount_books
        (f := Holder.credit .vestingShares toDeposit) hcredited fun a b hb => by
          simp only [bind_eq_ok, shareType_eq_ok, pure_eq_ok] at hb
          obtain ⟨_, ⟨-, rfl⟩, rfl⟩ := hb
          exact a.holder_vestingShares toDeposit
      obtain ⟨hshift, hshiftFrame⟩ := adjustProxiedShare_books hvoted
      have hvest : Books.Step may state.1.books (.of 0 toDeposit toDeposit toDeposit 0)
          voted.books := by
        rw [hshift, hcredit]
        exact .vest (find?_holders_some ha) hnonneg
      refine ⟨by dsimp only; omega, ?_, ?_, ?_, ?_⟩
      · rw [add_sub_cancel_left]
        exact Run.single hvest
      · rw [hshift, hcredit]
        exact (Books.sameLoans_credit (by decide) (by decide) fun _ => hnonneg).trans
          (Books.sameLoans_shiftVotes _ _)
      · rw [sub_zero, hshiftFrame, hcreditFrame]
      · rw [hshiftFrame, hcreditFrame]
    · rename_i hempty
      cases h
      have hzero : toDeposit = 0 := by omega
      subst hzero
      rw [add_zero]
      exact ⟨le_rfl, hnothing⟩
  · cases h
    exact ⟨le_rfl, hnothing⟩

theorem depositsVests_deposits {routes : List (AccountName × WithdrawVestingRoute)}
    {state : Database × Int} (hweek : 0 ≤ week) (hrange : week < 2 ^ 63)
    (hwithin : ∀ route ∈ routes, route.2.percent ≤ blurt100Percent) :
    Always (Outcome.forEach (depositVests week) state routes) fun final =>
      state.2 ≤ final.2 ∧ Deposits may state.1 (final.2 - state.2) 0 final.1 := by
  have hstart : Deposits may state.1 (state.2 - state.2) 0 state.1 := by
    rw [sub_self]
    exact .refl state.1
  refine .forEach ⟨le_rfl, hstart⟩ fun middle route hroute hmiddle next hnext => ?_
  obtain ⟨hle, hdeposits⟩ := hmiddle
  obtain ⟨hle', hdeposits'⟩ := depositVests_deposits hweek hrange (hwithin route hroute) hnext
  refine ⟨hle.trans hle', ?_⟩
  have hboth := hdeposits.trans hdeposits'
  rwa [zero_add, sub_add_sub_cancel'] at hboth

theorem creditBalance_entry (may : AccountName → Prop) {amount : Int} (hamount : 0 ≤ amount)
    (h : db.creditBalance name amount = .ok db') :
    Books.Step may db.books (.of amount 0 0 0 0) db'.books ∧ db.books.SameLoans db'.books ∧
      db' = { db with accounts := db'.accounts } := by
  obtain ⟨a, _, ha, -⟩ := modifyAccount_eq_ok.mp h
  obtain ⟨hbooks, hframe⟩ := modifyAccount_books (f := Holder.credit .balance amount) h
    fun a b hb => by
      simp only [bind_eq_ok, shareType_eq_ok, pure_eq_ok] at hb
      obtain ⟨_, ⟨-, rfl⟩, rfl⟩ := hb
      exact a.holder_balance amount
  rw [hbooks]
  refine ⟨.credit (find?_holders_some ha) rfl (.inl hamount), ?_, hframe⟩
  exact Books.sameLoans_credit (by decide) (by decide) (by simp)

theorem redeemShares_books {blurt : Int} (h : db.redeemShares blurt shares = .ok db') :
    db'.books = db.books.setTotals (Totals.addVesting (-blurt) (-shares)) ∧
      (db.books.totals.addVesting (-blurt) (-shares)).InRange ∧
      db'.dgp.totalVestingShares = db.dgp.totalVestingShares - shares ∧
      db' = { db with dgp := db'.dgp } := by
  simp only [redeemShares, bind_eq_ok, shareType_eq_ok, pure_eq_ok] at h
  obtain ⟨_, ⟨hfund, rfl⟩, _, ⟨hshares, rfl⟩, rfl⟩ := h
  exact ⟨rfl, ⟨hfund, hshares⟩, rfl, rfl⟩

theorem depositLiquid_le {state next : Database × Int × Int}
    {route : AccountName × WithdrawVestingRoute} (hweek : 0 ≤ week) (hrange : week < 2 ^ 63)
    (hpercent : route.2.percent ≤ blurt100Percent) (h : depositLiquid week state route = .ok next) :
    state.2.1 ≤ next.2.1 := by
  unfold depositLiquid at h
  split at h
  · cases h
    exact le_rfl
  · simp only [bind_eq_ok, shareType_eq_ok] at h
    obtain ⟨_, -, toDeposit, hdeposit, _, ⟨-, rfl⟩, _, -, _, -, _, -, h⟩ := h
    have hnonneg := routedShares_nonneg hweek hrange hpercent hdeposit
    split at h
    · simp only [bind_eq_ok, pure_eq_ok] at h
      obtain ⟨_, -, _, -, rfl⟩ := h
      exact le_add_of_nonneg_right hnonneg
    · cases h
      exact le_add_of_nonneg_right hnonneg

theorem depositsLiquid_le {routes : List (AccountName × WithdrawVestingRoute)}
    {state : Database × Int × Int} (hweek : 0 ≤ week) (hrange : week < 2 ^ 63)
    (hwithin : ∀ route ∈ routes, route.2.percent ≤ blurt100Percent) :
    Always (Outcome.forEach (depositLiquid week) state routes) fun final =>
      state.2.1 ≤ final.2.1 :=
  .forEach le_rfl fun _ route hroute hle _ hnext =>
    hle.trans (depositLiquid_le hweek hrange (hwithin route hroute) hnext)

theorem depositLiquid_deposits {state next : Database × Int × Int}
    {route : AccountName × WithdrawVestingRoute} (hb : state.1.books.Upheld) (hweek : 0 ≤ week)
    (hrange : week < 2 ^ 63) (hpercent : route.2.percent ≤ blurt100Percent)
    (hlimit : next.2.1 - state.2.1 ≤ state.1.dgp.totalVestingShares)
    (h : depositLiquid week state route = .ok next) :
    Deposits may state.1 (next.2.1 - state.2.1) (next.2.1 - state.2.1) next.1 := by
  have hnothing : Deposits may state.1 (state.2.1 - state.2.1) (state.2.1 - state.2.1) state.1 := by
    rw [sub_self]
    exact .refl state.1
  unfold depositLiquid at h
  split at h
  · cases h
    exact hnothing
  · simp only [bind_eq_ok, shareType_eq_ok] at h
    obtain ⟨_, -, toDeposit, hdeposit, _, ⟨-, rfl⟩, price, hprice, converted, hconverted, _, -, h⟩ := h
    have hnonneg := routedShares_nonneg hweek hrange hpercent hdeposit
    split at h
    · simp only [bind_eq_ok, pure_eq_ok] at h
      obtain ⟨credited, hcredited, redeemed, hredeemed, rfl⟩ := h
      rw [add_sub_cancel_left] at hlimit ⊢
      have hvalue := toBlurt_nonneg hb.range hprice hnonneg hlimit hconverted
      obtain ⟨hcredit, hcreditLoans, hcreditFrame⟩ := creditBalance_entry may hvalue hcredited
      obtain ⟨hredeem, hfits, htotal, hredeemFrame⟩ := redeemShares_books hredeemed
      refine ⟨?_, hcreditLoans.trans ?_, ?_, ?_⟩
      · rw [Enters, hredeem]
        refine ((Run.single hcredit).tail (.redeem hfits)).relabel ?_
        rw [Drift.of_add]
        simp
      · rw [hredeem]
        exact .of_holders rfl rfl rfl rfl
      · rw [htotal, hcreditFrame]
      · rw [hredeemFrame, hcreditFrame]
    · rename_i hempty
      cases h
      have hzero : toDeposit = 0 := by omega
      subst hzero
      rw [add_zero]
      exact hnothing

/-- The routes that are paid in liquid redeem what they are paid. No more may be redeemed than
there is, which the end of the loop tells of all its turns. -/
theorem depositsLiquid_deposits {routes : List (AccountName × WithdrawVestingRoute)}
    {state final : Database × Int × Int} (hb : state.1.books.Upheld) (hweek : 0 ≤ week)
    (hrange : week < 2 ^ 63) (hwithin : ∀ route ∈ routes, route.2.percent ≤ blurt100Percent)
    (hlimit : final.2.1 - state.2.1 ≤ state.1.dgp.totalVestingShares)
    (h : Outcome.forEach (depositLiquid week) state routes = .ok final) :
    Deposits may state.1 (final.2.1 - state.2.1) (final.2.1 - state.2.1) final.1 := by
  induction routes generalizing state with
  | nil =>
      cases h
      rw [sub_self]
      exact .refl _
  | cons route rest ih =>
      obtain ⟨next, hnext, hrest⟩ := forEach_cons_eq_ok.mp h
      have hroute := hwithin route List.mem_cons_self
      have hothers := fun other hother => hwithin other (List.mem_cons_of_mem route hother)
      have hle := depositLiquid_le hweek hrange hroute hnext
      have hle' := depositsLiquid_le hweek hrange hothers final hrest
      have hfirst : Deposits may state.1 _ _ next.1 :=
        depositLiquid_deposits hb hweek hrange hroute (by omega) hnext
      have htotal := hfirst.total
      have hlater := ih (hb.run hfirst.run) hothers (by omega) hrest
      have hboth := hfirst.trans hlater
      rwa [sub_add_sub_cancel'] at hboth

/-! ## A week of a power-down -/

/-- The week is covered by shares that are not lent, and so is what is left after it. -/
theorem weeklyWithdrawal_within {a : Account} {available : Int}
    (hwithin : a.powerDown.Within available) (hactive : a.nextVestingWithdrawal ≠ maximumTime)
    (havailable : available ≤ a.vestingShares) (h : weeklyWithdrawal a = .ok week) :
    0 ≤ week ∧ week ≤ available ∧ a.withdrawn + week ≤ a.toWithdraw ∧
      (a.withdrawn + week < a.toWithdraw → week = a.vestingWithdrawRate) := by
  obtain ⟨-, -, hcovered⟩ := hwithin
  obtain ⟨hrate, hstarted, hleft, ⟨weeks, hweeks⟩, hrest⟩ := hcovered hactive
  change 0 < a.vestingWithdrawRate at hrate
  change 0 ≤ a.withdrawn at hstarted
  change a.withdrawn ≤ a.toWithdraw at hleft
  change a.withdrawn = a.vestingWithdrawRate * weeks at hweeks
  change a.toWithdraw - a.withdrawn ≤ available at hrest
  simp only [weeklyWithdrawal, bind_eq_ok, shareType_eq_ok] at h
  obtain ⟨_, ⟨-, rfl⟩, h⟩ := h
  split at h
  · rename_i hlast
    simp only [bind_eq_ok, safeMod_eq_ok, pure_eq_ok] at h
    obtain ⟨_, ⟨-, rfl⟩, rfl⟩ := h
    have hmod : a.toWithdraw.tmod a.vestingWithdrawRate = a.toWithdraw - a.withdrawn := by
      rw [Int.tmod_eq_emod_of_nonneg (by omega)]
      have hsum : a.toWithdraw = (a.toWithdraw - a.withdrawn) + a.vestingWithdrawRate * weeks := by
        omega
      rw [hsum, Int.add_mul_emod_self_left]
      rw [Int.emod_eq_of_lt] <;> omega
    rw [hmod, min_eq_right (by omega)]
    refine ⟨by omega, hrest, by omega, fun hmore => by omega⟩
  · rename_i hmore
    cases h
    rw [min_eq_right (by omega)]
    exact ⟨hrate.le, by omega, by omega, fun _ => rfl⟩

/-- The account after a week, as it is seen in the books. -/
theorem withdrawWeek_holder {a c : Account} {converted : Int}
    (h : Account.withdrawWeek a week converted = .ok c) :
    c.holder = ({ a.holder.credit .balance converted with powerDown := c.powerDown } :
        Holder).credit .vestingShares (-week) ∧
      (c.powerDown.nextVestingWithdrawal = maximumTime ∨
        a.withdrawn + week < a.toWithdraw ∧ c.powerDown =
          { vestingWithdrawRate := a.vestingWithdrawRate
            nextVestingWithdrawal :=
              addSeconds a.nextVestingWithdrawal blurtVestingWithdrawIntervalSeconds
            toWithdraw := a.toWithdraw
            withdrawn := a.withdrawn + week }) := by
  simp only [Account.withdrawWeek, bind_eq_ok, shareType_eq_ok] at h
  obtain ⟨_, ⟨-, rfl⟩, _, ⟨-, rfl⟩, _, ⟨-, rfl⟩, h⟩ := h
  split at h
  · cases h
    refine ⟨Holder.ext' (fun f => ?_) rfl rfl rfl rfl, .inl rfl⟩
    cases f <;> rfl
  · rename_i hmore
    cases h
    refine ⟨Holder.ext' (fun f => ?_) rfl rfl rfl rfl, .inr ⟨?_, rfl⟩⟩
    · cases f <;> rfl
    · exact not_le.mp fun hdone => hmore (.inl hdone)

/-- What is left of a power-down after a week is still covered. -/
theorem withdrawWeek_within {a c : Account} {available converted : Int}
    (hwithin : a.powerDown.Within available) (hactive : a.nextVestingWithdrawal ≠ maximumTime)
    (hweek : 0 ≤ week) (hle : week ≤ available)
    (hrate : a.withdrawn + week < a.toWithdraw → week = a.vestingWithdrawRate)
    (h : Account.withdrawWeek a week converted = .ok c) : c.powerDown.Within (available - week) := by
  obtain ⟨-, hstopped | ⟨hmore, hnext⟩⟩ := withdrawWeek_holder h
  · exact .of_inactive (sub_nonneg.mpr hle) hstopped
  · obtain ⟨-, -, hcovered⟩ := hwithin
    obtain ⟨hpositive, hstarted, -, hdvd, hrest⟩ := hcovered hactive
    rw [hnext]
    refine ⟨sub_nonneg.mpr hle, addSeconds_le_maximumTime _ _,
      fun _ => ⟨hpositive, ?_, hmore.le, ?_, ?_⟩⟩
    · exact add_nonneg hstarted hweek
    · rw [hrate hmore]
      exact dvd_add hdvd (dvd_refl _)
    · change a.toWithdraw - (a.withdrawn + week) ≤ available - week
      change a.toWithdraw - a.withdrawn ≤ available at hrest
      omega

/-- A week of a power-down pays what it takes. -/
theorem processVestingWithdrawal_enters (hb : db.books.Sound) (hroutes : db.RoutesWithin)
    (hactive : ∀ a, db.accounts.find? name = some a → a.nextVestingWithdrawal ≠ maximumTime) :
    Always (db.processVestingWithdrawal name) fun db' =>
      Enters may db 0 db' ∧ db'.withdrawRoutes = db.withdrawRoutes := by
  intro db' h
  simp only [processVestingWithdrawal, bind_eq_ok, getAccount_eq_ok, shareType_eq_ok, ensure_eq_ok,
    Prod.exists] at h
  obtain ⟨a, ha, week, hweekly, vested, asVests, hvested, paid, asBlurt, total, hpaid, _, ⟨-, rfl⟩, _,
    ⟨-, rfl⟩, _, hrest, price, hprice, converted, hconverted, withdrawn, hwithdrawn, redeemed,
    hredeemed, h⟩ := h
  have hh := find?_holders_some ha
  have hwithin := hb.lending.within _ _ hh
  have hlent : 0 ≤ a.delegatedVestingShares := Books.delegated_nonneg hb.lending hh
  have hall : a.vestingShares ≤ db.dgp.totalVestingShares := hb.shares_le hh
  have hfits : db.dgp.totalVestingShares < 2 ^ 63 := hb.range.shares.2
  obtain ⟨hweek, hle, -, hrate⟩ := weeklyWithdrawal_within hwithin (hactive a ha)
    (sub_le_self _ hlent) hweekly
  change week ≤ a.vestingShares - a.delegatedVestingShares at hle
  -- the routes
  have hvests : 0 ≤ asVests ∧ Deposits may db (asVests - 0) 0 vested :=
    depositsVests_deposits hweek (by omega) (fun route hroute => hroutes.route hroute) _ hvested
  rw [sub_zero] at hvests
  obtain ⟨hasVests, hdeposits⟩ := hvests
  have hroutes' : vested.RoutesWithin := by
    intro key r hr
    rw [hdeposits.routes] at hr
    exact hroutes key r hr
  have htotal := hdeposits.total
  have hasBlurt : 0 ≤ asBlurt :=
    depositsLiquid_le hweek (by omega) (fun route hroute => hroutes'.route hroute) _ hpaid
  have hredeems : Deposits may vested (asBlurt - 0) (asBlurt - 0) paid := by
    refine depositsLiquid_deposits (hb.toUpheld.run hdeposits.run) hweek (by omega)
      (fun route hroute => hroutes'.route hroute) ?_ hpaid
    dsimp only
    omega
  rw [sub_zero] at hredeems
  have hboth := hdeposits.trans hredeems
  have hpaidTotal := hboth.total
  have hpaidUpheld := hb.toUpheld.run hboth.run
  -- the rest of the week
  have hvalue := toBlurt_nonneg hpaidUpheld.range hprice hrest (by omega) hconverted
  obtain ⟨b, c, hfound, hc, rfl⟩ := modifyAccount_eq_ok.mp hwithdrawn
  have hk := find?_holders_some hfound
  obtain ⟨h₀, hh₀, hloans⟩ := hboth.loans.rows name b.holder hk
  rw [hh] at hh₀
  cases hh₀
  obtain ⟨hsame, -⟩ := withdrawWeek_holder hc
  have hpower : c.powerDown.Within (b.holder.unlent - week) := by
    have hpowerDown : b.powerDown = a.powerDown := hloans.powerDown
    have hdelegated : b.delegatedVestingShares = a.delegatedVestingShares := hloans.delegated
    have hgrown : a.vestingShares ≤ b.vestingShares := hloans.shares
    simp only [Account.powerDown, PowerDown.mk.injEq] at hpowerDown
    obtain ⟨hsameRate, hsameNext, hsameTo, hsameDone⟩ := hpowerDown
    refine withdrawWeek_within (hpaidUpheld.lending.within _ _ hk) ?_ hweek ?_ ?_ hc
    · rw [hsameNext]
      exact hactive a ha
    · change week ≤ b.vestingShares - b.delegatedVestingShares
      omega
    · rw [hsameRate, hsameTo, hsameDone]
      exact hrate
  have hnull : name = blurtNullAccount → c.powerDown.nextVestingWithdrawal = maximumTime := by
    rintro rfl
    exact absurd (hb.null.powerDown _ hh) (hactive a ha)
  -- the balance and the vesting fund are settled before the shares are taken
  obtain ⟨hredeem, hsettled, -, hredeemFrame⟩ := redeemShares_books hredeemed
  have hcredit : Books.Step may paid.books (.of converted 0 0 0 0)
      (paid.books.credit name .balance converted) := .credit hk rfl (.inl hvalue)
  have hsettle : Books.Step may (paid.books.credit name .balance converted) _
      ((paid.books.credit name .balance converted).setTotals
        (Totals.addVesting (-converted) (-(week - asBlurt - asVests)))) := .redeem hsettled
  have hsettledRun := (Run.tail hboth.run hcredit).tail hsettle
  have hk' := Books.find?_credit_some hk .balance converted
  have hunlent : (b.holder.credit .balance converted).unlent = b.holder.unlent := by
    simp [Holder.unlent, Holder.credit_funds]
  rw [← hunlent] at hpower
  have hbooks : redeemed.books = (((paid.books.credit name .balance converted).setTotals
      (Totals.addVesting (-converted) (-(week - asBlurt - asVests)))).setPowerDown name
        c.powerDown).credit name .vestingShares (-week) := by
    rw [hredeem, books_setAccount (f := fun h => Holder.credit .vestingShares (-week)
      { h.credit .balance converted with powerDown := c.powerDown }) hfound hsame]
    have hchange : paid.books.adjust name (fun h => Holder.credit .vestingShares (-week)
        { h.credit .balance converted with powerDown := c.powerDown }) =
          ((paid.books.credit name .balance converted).setPowerDown name c.powerDown).credit name
            .vestingShares (-week) := by
      simp only [Books.credit, Books.setPowerDown, Books.adjust_adjust]
    rw [hchange]
    rfl
  split at h
  · obtain ⟨hshift, hshiftFrame⟩ := adjustProxiedShare_books h
    refine ⟨?_, ?_⟩
    · rw [Enters, hshift, hbooks]
      refine (hsettledRun.tail (.withdraw hk' hweek hpower hnull)).relabel ?_
      simp only [Drift.of_add, ← Drift.of_zero]
      congr 1 <;> omega
    · rw [hshiftFrame, hredeemFrame]
      exact hboth.routes
  · cases h
    have hzero : week = 0 := by omega
    refine ⟨?_, ?_⟩
    · subst hzero
      rw [neg_zero, Books.credit_zero] at hbooks
      rw [sub_zero] at hpower
      rw [Enters, hbooks]
      refine (hsettledRun.tail (.setPowerDown hk' hpower hnull)).relabel ?_
      simp only [Drift.of_add, add_zero, ← Drift.of_zero]
      congr 1 <;> omega
    · rw [hredeemFrame]
      exact hboth.routes

theorem processVestingWithdrawals_enters (hb : db.books.Sound) (hroutes : db.RoutesWithin)
    (htime : db.dgp.time < maximumTime) : Always db.processVestingWithdrawals fun db' =>
      Enters may db 0 db' ∧ db'.withdrawRoutes = db.withdrawRoutes := by
  have hloop : Always (Outcome.drain dueWithdrawal withdrawalTurn
      (db.accounts.rows.length * (db.dgp.time + 1) + 1) (db, db.firstWithdrawal fun _ _ => true))
      fun state => Enters may db 0 state.1 ∧ state.1.withdrawRoutes = db.withdrawRoutes ∧
        state.1.dgp.time = db.dgp.time := by
    refine .drain ⟨.refl db, rfl, rfl⟩ fun state name hstate hdue => .skip fun _ => ?_
    obtain ⟨hrun, hsame, hclock⟩ := hstate
    have hroutes' : state.1.RoutesWithin := by
      intro key r hr
      rw [hsame] at hr
      exact hroutes key r hr
    have hactive : ∀ a, state.1.accounts.find? name = some a →
        a.nextVestingWithdrawal ≠ maximumTime := by
      intro a ha
      have hcheck := (Option.filter_eq_some_iff.mp hdue).2
      rw [ha, Option.any_some, decide_eq_true_eq] at hcheck
      omega
    intro next hnext
    obtain ⟨processed, hprocessed, hnext⟩ := bind_eq_ok.mp hnext
    cases hnext
    obtain ⟨hweek, hkept⟩ := processVestingWithdrawal_enters (hb.run hrun rfl) hroutes' hactive
      processed hprocessed
    have hquiet := processVestingWithdrawal_framed quiet_frame name processed hprocessed
    exact ⟨hrun.append hweek, hkept.trans hsame, (congrArg Overview.time hquiet.1).trans hclock⟩
  exact hloop.bind fun state hstate => .pure ⟨hstate.1, hstate.2.1⟩

end Database

end Ledger

end Blurt
