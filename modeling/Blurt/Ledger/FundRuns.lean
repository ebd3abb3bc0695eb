import Blurt.Ledger.MaintenanceRuns

/-! # Inflation, burning and the treasury as runs of entries

What inflation adds to the supply it pays out, and what the null account loses leaves the
supply.
-/

namespace Blurt

namespace Ledger

open Outcome

/-- Two changes of a row that agree on it. -/
theorem Books.adjust_congr {b : Books} {name : AccountName} {h : Holder} {f g : Holder → Holder}
    (hh : b.holders.find? name = some h) (hfg : f h = g h) : b.adjust name f = b.adjust name g := by
  simp only [adjust]
  congr 1
  apply Table.ext_find?
  intro other
  rw [Table.find?_adjust, Table.find?_adjust]
  split
  · rename_i heq
    rw [heq, hh, Option.map_some, Option.map_some, hfg]
  · rfl

namespace Database

variable {may : AccountName → Prop} {db db' : Database} {name : AccountName} {host : Host}

/-! ## The treasury -/

theorem removeEnded_unbooked (ids : List Nat) (state : Database × Reducer) :
    Unbooked state.1 (removeEnded ids state).1 := by
  induction ids generalizing state with
  | nil => exact .refl state.1
  | cons id rest ih =>
      have hremoved : Unbooked state.1 (removeProposalObject id state).1 :=
        removeProposalObject_books id state
      rw [removeEnded]
      split
      · exact hremoved
      · exact hremoved.trans (ih _)

theorem payProposal_enters (receiver : AccountName) (payment : Int) :
    Always (db.payProposal receiver payment) (Enters may db 0) := by
  intro db' h
  simp only [payProposal, bind_eq_ok] at h
  obtain ⟨_, -, debited, hdebited, h⟩ := h
  exact .move (adjustBalance_entry may hdebited rfl) (adjustBalance_entry may h rfl) rfl

theorem payProposals_enters (ratio : Nat) (proposals : List (Nat × Proposal)) (budget : Int) :
    Always (payProposals ratio budget db proposals) (Enters may db 0) := by
  induction proposals generalizing budget db with
  | nil => exact .ok (.refl db)
  | cons row rest ih =>
      rw [payProposals]
      split
      · exact .pure (.refl db)
      · refine .skip fun pay => .ensure fun _ => ?_
        split
        · exact payProposal_enters _ _
        · have hpay : Always (db.payProposal row.2.receiver pay) (Enters may db 0) :=
            payProposal_enters _ _
          refine hpay.bind fun paid hpaid => .skip fun left => ?_
          exact (ih left).mono fun _ => hpaid.append

theorem makePayments_enters (headTime : Nat) :
    Always (db.makePayments headTime) (Enters may db 0) := by
  have hsettings : ∀ d : Database, Enters may d 0 (d.updateSettings headTime) := by
    intro d
    apply Enters.of_eq
    simp only [books, updateSettings, GlobalProperties.totals]
  unfold makePayments
  split
  · exact .pure (.refl db)
  · dsimp only
    split
    · exact .pure (hsettings db)
    · have hcount : Always (db.calculateAllVotes (db.findActiveProposals headTime))
          fun result => Unbooked db result.1 :=
        .forEach rfl fun state row _ h => .skip fun total => .pure (Unbooked.trans h rfl)
      refine hcount.bind fun counted hcounted => .skip fun budget => ?_
      have hpay : Always (counted.1.transferPayments headTime budget (sortByVotes counted.2))
          (Enters may counted.1 0) := by
        unfold transferPayments
        split
        · exact .pure (.refl _)
        · exact .skip fun _ => payProposals_enters _ _ _
      refine hpay.bind fun paid hpaid => .pure ?_
      have hstart : Enters may db 0 counted.1 := .of_eq hcounted
      exact hstart.append (hpaid.append (hsettings paid))

theorem processProposals_enters (headTime : Nat) :
    Always (processProposals host db headTime) (Enters may db 0) := by
  have hremoved : Unbooked db (db.removeOldProposals host headTime) :=
    removeEnded_unbooked (db.endedProposals headTime) (db, Reducer.make host.spsRemoveThreshold)
  have hrecorded : Unbooked db ((db.removeOldProposals host headTime).recordFunding headTime) := by
    unfold recordFunding
    split
    · exact hremoved.trans rfl
    · exact hremoved
  have hstart : Enters may db 0 _ := .of_eq hrecorded
  exact (makePayments_enters headTime).mono fun _ => hstart.append

/-! ## The regent -/

/-- The weight of the regent decays. It is out of the count of the votes where the regent
has set a proxy. -/
theorem processRegentAccount_enters : Always db.processRegentAccount fun db' =>
    ∃ votes, Enters may db (.of 0 0 0 votes 0) db' ∧
      (db.books.link blurtRegentAccount = none → votes = 0) := by
  have hnothing : ∃ votes, Enters may db (.of 0 0 0 votes 0) db ∧
      (db.books.link blurtRegentAccount = none → votes = 0) := by
    refine ⟨0, ?_, fun _ => rfl⟩
    rw [Drift.of_zero]
    exact .refl db
  intro db' h
  unfold processRegentAccount at h
  split at h
  · simp only [bind_eq_ok, safeDiv_eq_ok, shareType_eq_ok] at h
    obtain ⟨step, -, _, ⟨-, rfl⟩, h⟩ := h
    split at h
    · rename_i hleft
      simp only [bind_eq_ok, getAccount_eq_ok, shareType_eq_ok] at h
      obtain ⟨_, ⟨-, rfl⟩, regent, hregent, h⟩ := h
      rw [sub_sub_cancel] at h
      obtain ⟨hshift, -⟩ := adjustProxiedShare_books h
      have hh := find?_holders_some hregent
      have hshrink : Books.Step may db.books (.of 0 0 0 (if regent.holder.proxy =
          blurtProxyToSelfAccount then 0 else -step) 0) db'.books := by
        rw [hshift]
        exact .shrinkRegent hh (sub_nonneg.mp hleft)
      exact ⟨_, Run.single hshrink, fun hlink => if_pos ((Books.link_eq_none hh).mp hlink)⟩
    · cases h
      exact hnothing
  · cases h
    exact hnothing

/-! ## Inflation -/

/-- A reward fund after a payment, as it is seen in the books. -/
theorem rewardFund_entry (may : AccountName → Prop) {id : Nat} {f g : RewardFund} {amount : Int}
    (hf : db.rewardFunds.find? id = some f) (hg : g.rewardBalance = f.rewardBalance + amount) :
    Books.Step may db.books (.of amount 0 0 0 0)
      ({ db with rewardFunds := db.rewardFunds.set id g } : Database).books := by
  have hbooks : ({ db with rewardFunds := db.rewardFunds.set id g } : Database).books =
      db.books.creditRewardFund id amount := by
    simp only [books, Books.creditRewardFund]
    rw [Table.view_adjust (g := fun balance => balance + amount) hf hg]
  have hseen : db.books.rewardFunds.find? id = some f.rewardBalance := by
    simp [books, hf]
  rw [hbooks]
  exact .rewardFund hseen

/-- What the reward funds are paid. -/
theorem payRewardFunds_enters (reward : Int) : Always (db.payRewardFunds reward) fun result =>
    Enters may db (.of result.2 0 0 0 0) result.1 := by
  have hloop : ∀ {rows : List (Nat × RewardFund)} {state : Database × Int},
      (rows.map Prod.fst).Nodup →
      (∀ row ∈ rows, state.1.rewardFunds.find? row.1 = some row.2) →
      Always (Outcome.forEach (payRewardFund reward) state rows) fun result =>
        Enters may state.1 (.of (result.2 - state.2) 0 0 0 0) result.1 := by
    intro rows
    induction rows with
    | nil =>
        intro state _ _
        refine .ok ?_
        rw [sub_self, Drift.of_zero]
        exact .refl state.1
    | cons row rest ih =>
        intro state hnodup hfound result h
        obtain ⟨hrow, hrest⟩ := List.nodup_cons.mp hnodup
        have hfund := hfound row List.mem_cons_self
        obtain ⟨next, hnext, h⟩ := forEach_cons_eq_ok.mp h
        simp only [payRewardFund, bind_eq_ok, shareType_eq_ok, pure_eq_ok] at hnext
        obtain ⟨_, -, r, -, _, ⟨-, rfl⟩, _, ⟨-, rfl⟩, _, -, rfl⟩ := hnext
        have hstep : Books.Step may state.1.books (.of r 0 0 0 0) _ :=
          rewardFund_entry may hfund (g := { row.2 with rewardBalance := row.2.rewardBalance + r }) rfl
        -- the rows that are left have other ids
        have hpaid := ih hrest (fun other hother => ?_) result h
        swap
        · rw [Store.find?_set, if_neg]
          · exact hfound other (List.mem_cons_of_mem _ hother)
          · exact fun heq => hrow (List.mem_map.mpr ⟨other, hother, heq⟩)
        refine ((Run.single hstep).trans hpaid).relabel ?_
        rw [Drift.of_add]
        congr 1
        dsimp only
        omega
  refine (hloop (db.rewardFunds.ordered_nodup _ _) fun row hrow => ?_).mono fun result h => ?_
  · exact (Store.mem_ordered_iff.mp hrow).1
  · rwa [sub_zero] at h

/-- The end of `process_funds`: what was paid, the reward of the shareholders and the shares
of the witness are issued. -/
theorem issue_enters {treasured vested : Database} {dgp : GlobalProperties} {witness : AccountName}
    {paid vestingReward witnessReward newVesting : Int} (hb : db.books.Sound)
    (hpaid : Enters may db (.of paid 0 0 0 0) treasured)
    (htotals : dgp.totals = { treasured.books.totals with
      totalVestingFundBlurt := treasured.books.totals.totalVestingFundBlurt + vestingReward
      currentSupply := treasured.books.totals.currentSupply + (paid + vestingReward + witnessReward) })
    (hfund : InInt64 (treasured.books.totals.totalVestingFundBlurt + vestingReward))
    (hvested : { treasured with dgp }.createVesting witness (.blurt witnessReward) =
      .ok (vested, newVesting)) : Enters may db 0 vested := by
  have hrange := (hb.toUpheld.run hpaid).range
  have hissue : Books.Step may treasured.books (treasured.books.totals.columns - dgp.totals.columns)
      ({ treasured with dgp } : Database).books := by
    rw [books_setDgp (f := fun _ => dgp.totals) treasured rfl]
    refine .totals ?_ fun _ => ?_
    · rw [htotals]
    · rw [htotals]
      exact ⟨hfund, hrange.shares⟩
  refine ((Run.trans hpaid (.single hissue)).trans (createVesting_enters hvested)).relabel ?_
  rw [htotals]
  funext column
  cases column <;> simp [Totals.columns, Drift.of]
  omega

/-- `process_funds` pays what it adds to the supply. -/
theorem processFunds_enters (hb : db.books.Sound) : Always db.processFunds (Enters may db 0) := by
  intro db' h
  simp only [processFunds, bind_eq_ok, shareType_eq_ok, Prod.exists] at h
  obtain ⟨_, -, newBlurt, -, share, -, funded, contentReward, hfunded, vestingReward, -, spsFund, -, _,
    ⟨-, rfl⟩, _, ⟨-, rfl⟩, _, ⟨-, rfl⟩, cwit, -, witnessReward, -, h⟩ := h
  have hpaid : Enters may db (.of contentReward 0 0 0 0) funded := payRewardFunds_enters _ _ hfunded
  split at h
  all_goals
    simp only [bind_eq_ok, shareType_eq_ok, Prod.exists, pure_eq_ok] at h
    obtain ⟨treasured, htreasured, _, ⟨-, rfl⟩, _, ⟨-, rfl⟩, _, ⟨hfund, rfl⟩, _, ⟨-, rfl⟩, _,
      ⟨-, rfl⟩, _, ⟨-, rfl⟩, _, _, hvested, rfl⟩ := h
  · have htreasure := adjustBalance_entry may htreasured rfl
    refine issue_enters hb (Run.tail hpaid htreasure |>.relabel (Drift.of_add ..)) ?_ hfund hvested
    simp only [GlobalProperties.totals, books, Asset.blurt_amount]
    congr 1
    omega
  · cases htreasured
    refine issue_enters hb hpaid ?_ hfund hvested
    simp only [GlobalProperties.totals, books]
    congr 1
    omega

/-! ## The null account -/

/-- What is left of the null account after the funds in `taken` were burned, for `paid`. -/
structure Burned (may : AccountName → Prop) (null : Account) (db : Database) (paid : Int)
    (taken : List Fund) (db' : Database) : Prop where
  run : Enters may db (.of (-paid) 0 0 0 0) db'
  left : ∃ h, db'.books.holders.find? blurtNullAccount = some h ∧
    ∀ fund, fund ∉ taken → h.funds fund = null.funds fund

theorem ifPositive_of_pos {amount : Int} (value : Int) (h : 0 < amount) :
    ifPositive amount value = value := if_pos h

theorem ifPositive_of_nonpos {amount : Int} (value : Int) (h : ¬ 0 < amount) :
    ifPositive amount value = 0 := if_neg h

namespace Burned

variable {null : Account} {paid : Int} {taken : List Fund} {state : Database}

theorem start (hnull : db.accounts.find? blurtNullAccount = some null) :
    Burned may null db 0 [] db :=
  ⟨by rw [neg_zero, Drift.of_zero]; exact .refl db, null.holder, find?_holders_some hnull,
    fun _ _ => rfl⟩

/-- Nothing is burned of a fund that is empty. -/
theorem keep {amount : Int} (h : Burned may null db paid taken state) (fund : Fund) (value : Int)
    (hempty : ¬ 0 < amount) :
    Burned may null db (paid + ifPositive amount value) (fund :: taken) state := by
  obtain ⟨hrun, k, hk, hleft⟩ := h
  rw [ifPositive_of_nonpos value hempty, add_zero]
  exact ⟨hrun, k, hk, fun other hother => hleft other fun hmem => hother (.tail _ hmem)⟩

/-- A fund of liquid is burned. -/
theorem take {fund : Fund} {amount : Int} (h : Burned may null db paid taken state)
    (hpositive : 0 < amount)
    (hentry : Books.Step may state.books (.of (-amount) 0 0 0 0) db'.books)
    (hbooks : db'.books = state.books.credit blurtNullAccount fund (-amount)) :
    Burned may null db (paid + ifPositive amount amount) (fund :: taken) db' := by
  obtain ⟨hrun, k, hk, hleft⟩ := h
  rw [ifPositive_of_pos amount hpositive]
  refine ⟨(hrun.tail hentry).relabel ?_, k.credit fund (-amount), ?_, fun other hother => ?_⟩
  · rw [Drift.of_add]
    congr 1
    omega
  · rw [hbooks]
    exact Books.find?_credit_some hk _ _
  · have hne : other ≠ fund := fun heq => hother (heq ▸ List.mem_cons_self)
    rw [Holder.credit_funds, if_neg hne]
    exact hleft other fun hmem => hother (.tail _ hmem)

/-- The shares of the null account are burned, with their part of the vesting fund. -/
theorem unvest {vestingValue : Int} {unvested : Database} {dgp : GlobalProperties}
    (hb : db.books.Sound) (h : Burned may null db paid taken state)
    (hfresh : .vestingShares ∉ taken) (hpositive : 0 < null.vestingShares)
    (htotals : dgp.totals = { state.books.totals with
      totalVestingFundBlurt := state.books.totals.totalVestingFundBlurt - vestingValue
      totalVestingShares := state.books.totals.totalVestingShares - null.vestingShares })
    (hrange : dgp.totals.InRange)
    (hmodify : ({ state with dgp } : Database).modifyAccount blurtNullAccount
      (fun a => .ok { a with vestingShares := 0 }) = .ok unvested) :
    Burned may null db (paid + ifPositive null.vestingShares vestingValue) (.vestingShares :: taken)
      unvested := by
  obtain ⟨hrun, k, hk, hleft⟩ := h
  have hshares := hleft .vestingShares hfresh
  have hproxy := (Books.link_eq_none hk).mp (hb.toUpheld.run hrun).null.proxy
  obtain ⟨hbooks, -⟩ := modifyAccount_books (f := fun h => h.credit .vestingShares
    (-h.funds .vestingShares)) hmodify fun a b hb => by
      cases hb
      rw [Account.holder_funds, Account.funds, ← Account.holder_vestingShares, add_neg_cancel]
  have hburn : Books.Step may (state.books.setTotals fun _ => dgp.totals) _ _ := .burnShares hk
  have htotal : Books.Step may state.books _ (state.books.setTotals fun _ => dgp.totals) :=
    .totals (by rw [htotals]) fun _ => hrange
  have hburned : unvested.books = (state.books.setTotals fun _ => dgp.totals).credit
      blurtNullAccount .vestingShares (-k.funds .vestingShares) := by
    rw [hbooks, books_setDgp (f := fun _ => dgp.totals) state rfl]
    exact Books.adjust_congr hk rfl
  rw [ifPositive_of_pos _ hpositive]
  refine ⟨?_, k.credit .vestingShares (-k.funds .vestingShares), ?_, fun other hother => ?_⟩
  · rw [Enters, hburned]
    refine ((hrun.tail htotal).tail hburn).relabel ?_
    rw [htotals, hshares, if_pos hproxy]
    funext column
    cases column <;> simp [Totals.columns, Drift.of, Account.funds]
    omega
  · rw [hburned]
    exact Books.find?_credit_some hk _ _
  · have hne : other ≠ .vestingShares := fun heq => hother (heq ▸ List.mem_cons_self)
    rw [Holder.credit_funds, if_neg hne]
    exact hleft other fun hmem => hother (.tail _ hmem)

/-- The rewards of the null account in shares are burned, with what is behind them. -/
theorem unreward {unrewarded : Database} {dgp : GlobalProperties}
    (h : Burned may null db paid taken state) (hfresh : .rewardVestingBlurt ∉ taken)
    (hfresh' : .rewardVestingBalance ∉ taken) (hpositive : 0 < null.rewardVestingBalance)
    (htotals : dgp.totals = state.books.totals.addPending (-null.rewardVestingBlurt)
      (-null.rewardVestingBalance))
    (hmodify : ({ state with dgp } : Database).modifyAccount blurtNullAccount
      (fun a => .ok { a with rewardVestingBlurt := 0, rewardVestingBalance := 0 }) =
        .ok unrewarded) :
    Enters may db (.of (-(paid + ifPositive null.rewardVestingBalance null.rewardVestingBlurt))
      0 0 0 0) unrewarded := by
  obtain ⟨hrun, k, hk, hleft⟩ := h
  have hblurt := hleft .rewardVestingBlurt hfresh
  have hshares := hleft .rewardVestingBalance hfresh'
  obtain ⟨hbooks, -⟩ := modifyAccount_books (f := fun h => (h.credit .rewardVestingBlurt
    (-h.funds .rewardVestingBlurt)).credit .rewardVestingBalance
      (-h.funds .rewardVestingBalance)) hmodify fun a b hb => by
      cases hb
      rw [Account.holder_funds, Account.funds, Account.funds, ← Account.holder_rewardVestingBlurt,
        ← Account.holder_rewardVestingBalance, add_neg_cancel, add_neg_cancel]
  have hreward : Books.Step may (state.books.setTotals fun _ => dgp.totals)
      (.of 0 (-k.funds .rewardVestingBalance) 0 0 (-k.funds .rewardVestingBlurt)) _ :=
    .rewardShares hk (by omega) (by omega) (by simp [InInt64])
  have htotal : Books.Step may state.books _ (state.books.setTotals fun _ => dgp.totals) :=
    .totals (by rw [htotals]; rfl) fun hstate => by
      rw [htotals]
      exact ⟨hstate.fund, hstate.shares⟩
  have hburned : unrewarded.books = ((state.books.setTotals fun _ => dgp.totals).credit
      blurtNullAccount .rewardVestingBlurt (-k.funds .rewardVestingBlurt)).credit blurtNullAccount
        .rewardVestingBalance (-k.funds .rewardVestingBalance) := by
    rw [hbooks, books_setDgp (f := fun _ => dgp.totals) state rfl, Books.credit, Books.credit,
      Books.adjust_adjust]
    exact Books.adjust_congr hk rfl
  rw [ifPositive_of_pos _ hpositive, Enters, hburned]
  refine ((hrun.tail htotal).tail hreward).relabel ?_
  rw [htotals, hshares, hblurt]
  funext column
  cases column <;> simp [Totals.columns, Totals.addPending, Drift.of, Account.funds]
  omega

end Burned

/-- What the null account loses, in liquid. -/
def burnedBlurt (null : Account) (vestingValue : Int) : Int :=
  0 + ifPositive null.balance null.balance + ifPositive null.savingsBalance null.savingsBalance +
    ifPositive null.vestingShares vestingValue +
    ifPositive null.rewardBlurtBalance null.rewardBlurtBalance +
    ifPositive null.rewardVestingBalance null.rewardVestingBlurt

/-- The last funds of the null account are its rewards. -/
theorem burnRewards_enters {null : Account} {paid : Int} {unvested : Database}
    (h : Burned may null db paid [.vestingShares, .savingsBalance, .balance] unvested) :
    Always (do
      let unrewarded ← if 0 < null.rewardBlurtBalance then
          unvested.adjustRewardBalance blurtNullAccount (-.blurt null.rewardBlurtBalance) 0
        else .ok unvested
      if 0 < null.rewardVestingBalance then do
        let pendingRewardedVestingShares ←
          shareType (unrewarded.dgp.pendingRewardedVestingShares - null.rewardVestingBalance)
        let pendingRewardedVestingBlurt ←
          shareType (unrewarded.dgp.pendingRewardedVestingBlurt - null.rewardVestingBlurt)
        let dgp := { unrewarded.dgp with pendingRewardedVestingShares, pendingRewardedVestingBlurt }
        { unrewarded with dgp }.modifyAccount blurtNullAccount fun a =>
          .ok { a with rewardVestingBlurt := 0, rewardVestingBalance := 0 }
      else .ok unrewarded)
      (Enters may db (.of (-(paid + ifPositive null.rewardBlurtBalance null.rewardBlurtBalance +
        ifPositive null.rewardVestingBalance null.rewardVestingBlurt)) 0 0 0 0)) := by
  have hclaim : 0 < null.rewardBlurtBalance → Always (unvested.adjustRewardBalance blurtNullAccount
      (-.blurt null.rewardBlurtBalance) 0) (Burned may null db
        (paid + ifPositive null.rewardBlurtBalance null.rewardBlurtBalance)
        [.rewardBlurtBalance, .vestingShares, .savingsBalance, .balance]) := by
    intro hpositive claimed hclaimed
    simp only [adjustRewardBalance, bind_eq_ok] at hclaimed
    obtain ⟨_, -, _, -, hclaimed⟩ := hclaimed
    obtain ⟨hbooks, -⟩ := modifyRewardBalance_liquid hclaimed
    obtain ⟨k, hk, hleft⟩ := h.left
    have hfund : k.funds .rewardBlurtBalance = null.rewardBlurtBalance :=
      hleft .rewardBlurtBalance (by decide)
    refine h.take hpositive ?_ hbooks
    rw [hbooks]
    refine .credit hk rfl (.inr ?_)
    rw [hfund]
    exact (add_neg_cancel _).ge
  dsimp only
  refine .choice hclaim (fun hempty => .ok (h.keep .rewardBlurtBalance _ hempty))
    fun unrewarded hunrewarded => ?_
  split
  · rename_i hpositive
    intro db' h'
    simp only [bind_eq_ok, shareType_eq_ok] at h'
    obtain ⟨_, ⟨-, rfl⟩, _, ⟨-, rfl⟩, h'⟩ := h'
    exact hunrewarded.unreward (by decide) (by decide) hpositive rfl h'
  · rename_i hempty
    refine .ok ?_
    rw [ifPositive_of_nonpos _ hempty, add_zero]
    exact hunrewarded.run

theorem burnNullAccount_enters {null : Account} (hb : db.books.Sound) (vestingValue : Int)
    (hnull : db.accounts.find? blurtNullAccount = some null) :
    Always (db.burnNullAccount vestingValue)
      (Enters may db (.of (-burnedBlurt null vestingValue) 0 0 0 0)) := by
  intro db' h
  simp only [burnNullAccount, bind_eq_ok, getAccount_eq_ok, hnull, Option.some.injEq] at h
  obtain ⟨_, rfl, h⟩ := h
  revert db'
  have hstart : Burned may null db 0 [] db := .start hnull
  have hspend : 0 < null.balance → Always (db.adjustBalance blurtNullAccount (-.blurt null.balance))
      (Burned may null db (0 + ifPositive null.balance null.balance) [.balance]) :=
    fun hpositive _ hspent => hstart.take hpositive (adjustBalance_entry may hspent rfl)
      (adjustBalance_blurt hspent rfl).1
  refine Always.choice hspend (fun hempty => .ok (hstart.keep .balance _ hempty))
    fun spent hspent => ?_
  have hsave : 0 < null.savingsBalance → Always (spent.adjustSavingsBalance blurtNullAccount
      (-.blurt null.savingsBalance)) (Burned may null db (0 + ifPositive null.balance null.balance +
        ifPositive null.savingsBalance null.savingsBalance) [.savingsBalance, .balance]) :=
    fun hpositive _ hsaved => hspent.take hpositive (adjustSavingsBalance_entry may hsaved)
      (adjustSavingsBalance_books hsaved).2.1
  refine Always.choice hsave (fun hempty => .ok (hspent.keep .savingsBalance _ hempty))
    fun saved hsaved => ?_
  split
  · rename_i hpositive
    intro db' h
    simp only [bind_eq_ok, shareType_eq_ok] at h
    obtain ⟨_, ⟨hshares, rfl⟩, _, ⟨hfund, rfl⟩, unvested, hunvested, h⟩ := h
    refine burnRewards_enters (hsaved.unvest hb ?_ hpositive ?_ ?_ hunvested) db' ?_
    · decide
    · rfl
    · exact ⟨hfund, hshares⟩
    · simpa only [bind_eq_ok, shareType_eq_ok] using h
  · rename_i hempty
    exact burnRewards_enters (hsaved.keep .vestingShares _ hempty)

theorem adjustSupply_entry (may : AccountName → Prop) {amount : Int} {adjustVesting : Bool}
    (hnonpos : amount ≤ 0) (h : db.adjustSupply amount adjustVesting = .ok db') :
    Books.Step may db.books (.of (-amount) 0 0 0 0) db'.books := by
  simp only [adjustSupply, bind_eq_ok, shareType_eq_ok, ensure_eq_ok, pure_eq_ok] at h
  obtain ⟨_, ⟨-, rfl⟩, _, ⟨-, rfl⟩, _, ⟨-, rfl⟩, _, -, rfl⟩ := h
  rw [if_neg fun hadjusts => by omega, add_zero, add_zero]
  have htotals : Books.Step may db.books _
      (db.books.setTotals fun _ => db.books.totals.addSupply amount) :=
    .totals rfl fun hrange => ⟨hrange.fund, hrange.shares⟩
  have hlabel : db.books.totals.columns - (db.books.totals.addSupply amount).columns =
      .of (-amount) 0 0 0 0 := by
    funext column
    cases column <;> simp [Totals.columns, Totals.addSupply, Drift.of]
  rw [← hlabel]
  exact htotals

/-- What the null account loses is worth at least nothing. -/
theorem burnedBlurt_nonneg {null : Account} {vestingValue : Int} (hb : db.books.Sound)
    (hnull : db.accounts.find? blurtNullAccount = some null)
    (hvalue : 0 < null.vestingShares → 0 ≤ vestingValue) : 0 ≤ burnedBlurt null vestingValue := by
  have hblurt := (hb.rewards _ _ (find?_holders_some hnull)).1
  have hnonneg : ∀ amount : Int, 0 ≤ ifPositive amount amount := by
    intro amount
    unfold ifPositive
    split <;> omega
  have hshares : 0 ≤ ifPositive null.vestingShares vestingValue := by
    unfold ifPositive
    split
    · exact hvalue ‹_›
    · exact le_rfl
  have hrewards : 0 ≤ ifPositive null.rewardVestingBalance null.rewardVestingBlurt := by
    unfold ifPositive
    split
    · exact hblurt
    · exact le_rfl
  have hbalance := hnonneg null.balance
  have hsavings := hnonneg null.savingsBalance
  have hliquid := hnonneg null.rewardBlurtBalance
  unfold burnedBlurt
  omega

/-- `clear_null_account_balance` takes from the supply what it takes from the account. -/
theorem clearNullAccountBalance_enters (hb : db.books.Sound) :
    Always db.clearNullAccountBalance (Enters may db 0) := by
  intro db' h
  simp only [clearNullAccountBalance, bind_eq_ok, getAccount_eq_ok] at h
  obtain ⟨null, hnull, h⟩ := h
  have hh := find?_holders_some hnull
  -- the value of the shares, where there are any
  have hrest : ∀ {vestingValue : Int}, (0 < null.vestingShares → 0 ≤ vestingValue) →
      ifPositive null.vestingShares vestingValue = vestingValue → Always (do
        let liquid ← shareType
          (ifPositive null.balance null.balance + ifPositive null.savingsBalance null.savingsBalance)
        let staked ← shareType (liquid + vestingValue)
        let rewarded ←
          shareType (staked + ifPositive null.rewardBlurtBalance null.rewardBlurtBalance)
        let totalBlurt ←
          shareType (rewarded + ifPositive null.rewardVestingBalance null.rewardVestingBlurt)
        let totalVests ← shareType (ifPositive null.vestingShares null.vestingShares +
          ifPositive null.rewardVestingBalance null.rewardVestingBalance)
        if totalBlurt = 0 ∧ totalVests = 0 then
          return db
        else
          let burned ← db.burnNullAccount vestingValue
          if 0 < totalBlurt then burned.adjustSupply (-totalBlurt) false else return burned)
        (Enters may db 0) := by
    intro vestingValue hvalue hworth db' h
    have hnonneg := burnedBlurt_nonneg hb hnull hvalue
    simp only [bind_eq_ok, shareType_eq_ok] at h
    obtain ⟨_, ⟨-, rfl⟩, _, ⟨-, rfl⟩, _, ⟨-, rfl⟩, totalBlurt, ⟨-, htotal⟩, _, -, h⟩ := h
    have hburned : burnedBlurt null vestingValue = totalBlurt := by
      rw [burnedBlurt, hworth, zero_add]
      exact htotal
    split at h
    · cases h
      exact .refl db
    · simp only [bind_eq_ok] at h
      obtain ⟨burned, hburn, h⟩ := h
      have hrun : Enters may db _ burned := burnNullAccount_enters hb vestingValue hnull _ hburn
      rw [hburned] at hrun hnonneg
      split at h
      · refine (hrun.tail (adjustSupply_entry may (neg_nonpos.mpr hnonneg) h)).relabel ?_
        rw [Drift.of_add]
        simp
      · cases h
        have hzero : totalBlurt = 0 := by omega
        rwa [hzero, neg_zero, Drift.of_zero] at hrun
  split at h
  · rename_i hpositive
    simp only [bind_eq_ok] at h
    obtain ⟨price, hprice, vestingValue, hvalue, h⟩ := h
    refine hrest (fun _ => ?_) (ifPositive_of_pos _ hpositive) db' (by simpa only [bind_eq_ok] using h)
    exact toBlurt_nonneg hb.range hprice hpositive.le (hb.shares_le hh) hvalue
  · rename_i hempty
    exact hrest (fun hpositive => absurd hpositive hempty) (ifPositive_of_nonpos _ hempty) db' h

end Database

end Ledger

end Blurt
