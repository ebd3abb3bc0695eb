import Blurt.Ledger.BooksLaws
import Blurt.Ledger.VestingEvaluators

/-! # The books of vesting shares -/

namespace Blurt

namespace Ledger

namespace Database

variable {db db' : Database}

/-- The account that a `transfer_to_vesting_operation` powers up. -/
def vestingReceiver (o : TransferToVestingOperation) : AccountName :=
  if o.toAccount ≠ "" then o.toAccount else o.fromAccount

theorem transferToVesting_books {o : TransferToVestingOperation}
    (h : db.transferToVesting o = .ok db') :
    ∃ newVesting, 0 ≤ newVesting ∧ InInt64 db'.books.totals.totalVestingShares ∧
      db'.books = (((db.books.credit o.fromAccount .balance (-o.amount.amount)).credit
        (vestingReceiver o) .vestingShares newVesting).setTotals
          (Totals.addVesting o.amount.amount newVesting)).shiftVotes (vestingReceiver o)
            (.single newVesting) blurtMaxProxyRecursionDepth := by
  simp only [transferToVesting, Outcome.bind_eq_ok, Outcome.ensure_eq_ok, Outcome.pure_eq_ok,
    Prod.exists] at h
  obtain ⟨_, -, _, -, _, hblurt, debited, hdebited, vested, newVesting, hvested, rfl⟩ := h
  obtain ⟨hdebit, -⟩ := adjustBalance_blurt hdebited hblurt
  obtain ⟨⟨hnonneg, hrange⟩, hvest, -⟩ := createVesting_books hvested
  refine ⟨newVesting, hnonneg, hrange, ?_⟩
  rw [hvest, hdebit]
  rfl

/-- A power-down is started over the shares that are not delegated, or is cancelled. -/
theorem withdrawVesting_books {o : WithdrawVestingOperation} (h : db.withdrawVesting o = .ok db') :
    ∃ account, db.accounts.find? o.account = some account ∧
      0 ≤ o.vestingShares.amount ∧
      o.vestingShares.amount ≤ account.vestingShares - account.delegatedVestingShares ∧
      db'.books = db.books.setPowerDown o.account
        (if o.vestingShares.amount = 0 then
          { vestingWithdrawRate := 0
            nextVestingWithdrawal := maximumTime
            toWithdraw := 0
            withdrawn := 0 }
        else
          { vestingWithdrawRate := withdrawRate o.vestingShares.amount
              (if db.hasHardfork 5 then blurtVestingWithdrawIntervalsHf5
                else blurtVestingWithdrawIntervals)
            nextVestingWithdrawal := addSeconds db.dgp.time blurtVestingWithdrawIntervalSeconds
            toWithdraw := o.vestingShares.amount
            withdrawn := 0 }) := by
  simp only [withdrawVesting, Outcome.bind_eq_ok, Outcome.ensure_eq_ok, getAccount_eq_ok] at h
  obtain ⟨account, haccount, _, hnonneg, _, -, _, -, _, havailable, h⟩ := h
  refine ⟨account, haccount, hnonneg, havailable, ?_⟩
  split at h <;> rename_i hamount
  · simp only [Outcome.bind_eq_ok, Outcome.ensure_eq_ok] at h
    obtain ⟨_, -, h⟩ := h
    rw [if_pos hamount]
    exact (modifyAccount_books h fun a b hb => by cases hb; rfl).1
  · simp only [Outcome.bind_eq_ok, Outcome.ensure_eq_ok] at h
    obtain ⟨_, -, h⟩ := h
    rw [if_neg hamount]
    exact (modifyAccount_books h fun a b hb => by cases hb; rfl).1

theorem setWithdrawVestingRoute_books {o : SetWithdrawVestingRouteOperation}
    (h : db.setWithdrawVestingRoute o = .ok db') : db'.books = db.books := by
  simp only [setWithdrawVestingRoute, Outcome.bind_eq_ok, Outcome.ensure_eq_ok] at h
  obtain ⟨_, -, _, -, _, -, h⟩ := h
  split at h
  · simp only [Outcome.bind_eq_ok, Outcome.ensure_eq_ok, Outcome.pure_eq_ok] at h
    obtain ⟨_, -, _, -, routed, hrouted, _, -, rfl⟩ := h
    exact (modifyAccount_quiet hrouted fun a b hb => by cases hb; rfl).1
  · split at h
    · simp only [Outcome.bind_eq_ok, Outcome.ensure_eq_ok, Outcome.pure_eq_ok] at h
      obtain ⟨routed, hrouted, _, -, rfl⟩ := h
      exact (modifyAccount_quiet hrouted fun a b hb => by
        cases hb
        exact a.holder_withdrawRoutes _).1
    · simp only [Outcome.bind_eq_ok, Outcome.ensure_eq_ok, Outcome.pure_eq_ok] at h
      obtain ⟨routed, hrouted, _, -, rfl⟩ := h
      cases hrouted
      rfl

/-- Rewards move to the account that earned them, and then its votes are shifted. -/
theorem claimRewardBalance_steps {op : ClaimRewardBalanceOperation}
    (h : db.claimRewardBalance op = .ok db') :
    ∃ (moved : Int) (claimed : Database), InInt64 claimed.books.totals.totalVestingShares ∧
      claimed.books = (((((db.books.credit op.account .rewardBlurtBalance (-op.rewardBlurt.amount)).credit
        op.account .balance op.rewardBlurt.amount).credit
        op.account .vestingShares op.rewardVests.amount).credit
        op.account .rewardVestingBalance (-op.rewardVests.amount)).credit
        op.account .rewardVestingBlurt (-moved)).setTotals (fun t =>
          (t.addVesting moved op.rewardVests.amount).addPending (-moved)
            (-op.rewardVests.amount)) ∧
      claimed.adjustProxiedWitnessVotes op.account op.rewardVests.amount = .ok db' := by
  simp only [claimRewardBalance, Outcome.bind_eq_ok, Outcome.ensure_eq_ok, shareType_eq_ok] at h
  obtain ⟨acnt, -, _, hblurt, _, -, _, -, _, -, moved, -, debited, hdebited, credited, hcredited,
    claimed, hclaimed, _, ⟨hrange, rfl⟩, _, ⟨-, rfl⟩, _, ⟨-, rfl⟩, _, ⟨-, rfl⟩, h⟩ := h
  simp only [adjustRewardBalance, Outcome.bind_eq_ok, Outcome.ensure_eq_ok] at hdebited
  obtain ⟨_, -, _, -, hdebited⟩ := hdebited
  obtain ⟨hdebit, -⟩ := modifyRewardBalance_liquid hdebited
  obtain ⟨hcredit, -⟩ := adjustBalance_blurt hcredited hblurt
  obtain ⟨hclaim, -⟩ := modifyAccount_books (f := fun holder =>
    ((holder.credit .vestingShares op.rewardVests.amount).credit .rewardVestingBalance
      (-op.rewardVests.amount)).credit .rewardVestingBlurt (-moved)) hclaimed fun a b hb => by
    simp only [Outcome.bind_eq_ok, shareType_eq_ok, Outcome.pure_eq_ok] at hb
    obtain ⟨charged, hcharged, _, ⟨-, rfl⟩, _, ⟨-, rfl⟩, _, ⟨-, rfl⟩, rfl⟩ := hb
    rw [← Account.holder_updateManabar hcharged, ← Account.holder_vestingShares,
      ← Account.holder_rewardVestingBalance, ← Account.holder_rewardVestingBlurt]
    rfl
  refine ⟨moved, _, ?_, ?_, h⟩
  · exact hrange
  · rw [books_setDgp (f := fun t => (t.addVesting moved op.rewardVests.amount).addPending
      (-moved) (-op.rewardVests.amount)) claimed rfl, hclaim, hcredit, hdebit]
    simp only [Books.credit, Books.adjust_adjust]
    rfl

theorem claimRewardBalance_books {op : ClaimRewardBalanceOperation}
    (h : db.claimRewardBalance op = .ok db') :
    ∃ moved, InInt64 db'.books.totals.totalVestingShares ∧
      db'.books = ((((((db.books.credit op.account .rewardBlurtBalance (-op.rewardBlurt.amount)).credit
        op.account .balance op.rewardBlurt.amount).credit
        op.account .vestingShares op.rewardVests.amount).credit
        op.account .rewardVestingBalance (-op.rewardVests.amount)).credit
        op.account .rewardVestingBlurt (-moved)).setTotals fun t =>
          (t.addVesting moved op.rewardVests.amount).addPending (-moved)
            (-op.rewardVests.amount)).shiftVotes
        op.account (.single op.rewardVests.amount) blurtMaxProxyRecursionDepth := by
  obtain ⟨moved, claimed, hrange, hclaimed, hvoted⟩ := claimRewardBalance_steps h
  obtain ⟨hshift, hframe⟩ := adjustProxiedShare_books hvoted
  refine ⟨moved, ?_, by rw [hshift, hclaimed]⟩
  rw [hframe]
  exact hrange

/-! ## Delegations -/

theorem find?_delegations (key : AccountName × AccountName) :
    db.books.delegations.find? key =
      (db.delegations.find? key).map VestingDelegation.vestingShares := by
  simp [books]

theorem books_openReturn (db : Database) (e : VestingDelegationExpiration) :
    ({ db with
        delegationExpirations := db.delegationExpirations.set db.nextIds.delegationExpiration e
        nextIds := { db.nextIds with
          delegationExpiration := db.nextIds.delegationExpiration + 1 } } : Database).books =
      db.books.openReturn e.delegator e.vestingShares := by
  simp only [books, Books.openReturn, Table.view_set]
  rfl

/-- The delegator lends `amount` more of its shares. -/
theorem lend_books {name : AccountName} {amount : Int}
    (h : (db.modifyAccount name fun a => do
      let delegatedVestingShares ← shareType (a.delegatedVestingShares + amount)
      return { a with
        delegatedVestingShares, votingManabar := a.votingManabar.useMana amount }) = .ok db') :
    db'.books = db.books.credit name .delegatedVestingShares amount ∧
      db' = { db with accounts := db'.accounts } := by
  refine modifyAccount_books h fun a b hb => ?_
  simp only [Outcome.bind_eq_ok, shareType_eq_ok, Outcome.pure_eq_ok] at hb
  obtain ⟨_, ⟨-, rfl⟩, rfl⟩ := hb
  exact a.holder_delegatedVestingShares amount

/-- The delegatee receives `amount` more shares. -/
theorem receive_books {dgp : GlobalProperties} {name : AccountName} {amount : Int}
    (h : (db.modifyAccount name fun a => do
      let filled ← updateManabar dgp a amount
      let receivedVestingShares ← shareType (filled.receivedVestingShares + amount)
      return { filled with receivedVestingShares }) = .ok db') :
    db'.books = db.books.credit name .receivedVestingShares amount ∧
      db' = { db with accounts := db'.accounts } := by
  refine modifyAccount_books h fun a b hb => ?_
  simp only [Outcome.bind_eq_ok, shareType_eq_ok, Outcome.pure_eq_ok] at hb
  obtain ⟨filled, hfilled, _, ⟨-, rfl⟩, rfl⟩ := hb
  rw [← Account.holder_updateManabar hfilled]
  exact filled.holder_receivedVestingShares amount

/-- The delegatee gives back `amount` of its shares. -/
theorem giveBack_books {dgp : GlobalProperties} {name : AccountName} {amount : Int}
    (h : (db.modifyAccount name fun a => do
      let charged ← updateManabar dgp a 0
      let receivedVestingShares ← shareType (charged.receivedVestingShares - amount)
      return Account.losesMana { charged with receivedVestingShares } amount) = .ok db') :
    db'.books = db.books.credit name .receivedVestingShares (-amount) ∧
      db' = { db with accounts := db'.accounts } := by
  refine modifyAccount_books h fun a b hb => ?_
  simp only [Outcome.bind_eq_ok, shareType_eq_ok, Outcome.pure_eq_ok] at hb
  obtain ⟨charged, hcharged, _, ⟨-, rfl⟩, rfl⟩ := hb
  rw [← Account.holder_updateManabar hcharged]
  exact charged.holder_receivedVestingShares (-amount)

/-- A delegation is opened, grows, shrinks or is closed. What it loses returns to the
delegator later. -/
theorem delegateVestingShares_books {op : DelegateVestingSharesOperation}
    (h : db.delegateVestingShares op = .ok db') :
    ∃ delegator updated, db.accounts.find? op.delegator = some delegator ∧
      updated.holder = delegator.holder ∧
      (db.books.delegations.find? (op.delegator, op.delegatee) = none ∧
          op.vestingShares.amount ≤ availableShares (getEffectiveVestingShares delegator) updated ∧
          db'.books = ((db.books.setDelegation (op.delegator, op.delegatee)
            op.vestingShares.amount).credit op.delegator .delegatedVestingShares
              op.vestingShares.amount).credit op.delegatee .receivedVestingShares
                op.vestingShares.amount ∨
        ∃ old, db.books.delegations.find? (op.delegator, op.delegatee) = some old ∧
          (old ≤ op.vestingShares.amount ∧
              op.vestingShares.amount - old ≤
                availableShares (getEffectiveVestingShares delegator) updated ∧
              db'.books = ((db.books.credit op.delegator .delegatedVestingShares
                (op.vestingShares.amount - old)).credit op.delegatee .receivedVestingShares
                  (op.vestingShares.amount - old)).setDelegation (op.delegator, op.delegatee)
                    op.vestingShares.amount ∨
            op.vestingShares.amount < old ∧
              db'.books =
                if 0 < op.vestingShares.amount then
                  ((db.books.openReturn op.delegator (old - op.vestingShares.amount)).credit
                    op.delegatee .receivedVestingShares (-(old - op.vestingShares.amount))).setDelegation
                      (op.delegator, op.delegatee) op.vestingShares.amount
                else
                  ((db.books.openReturn op.delegator (old - op.vestingShares.amount)).credit
                    op.delegatee .receivedVestingShares (-(old - op.vestingShares.amount))).closeDelegation
                      (op.delegator, op.delegatee))) := by
  simp only [delegateVestingShares, Outcome.bind_eq_ok, Outcome.ensure_eq_ok, getAccount_eq_ok] at h
  obtain ⟨delegator, hdelegator, _, -, charged, hcharged, updated, hupdated, _, -, price, -, _, -, _, -,
    h⟩ := h
  obtain ⟨hcharge, -⟩ :=
    modifyAccount_quiet hcharged fun _ _ => Account.holder_updateManabar
  have hsame : updated.holder = delegator.holder := by
    have hholder : (charged.accounts.find? op.delegator).map Account.holder =
        (db.accounts.find? op.delegator).map Account.holder := by
      rw [← find?_holders, ← find?_holders, hcharge]
    rw [hupdated, hdelegator] at hholder
    exact Option.some.inj hholder
  refine ⟨delegator, updated, hdelegator, hsame, ?_⟩
  rw [find?_delegations]
  split at h
  · rename_i hnone
    simp only [Outcome.bind_eq_ok, Outcome.ensure_eq_ok] at h
    obtain ⟨_, havailable, _, -, lent, hlent, h⟩ := h
    obtain ⟨hlend, -⟩ := lend_books hlent
    obtain ⟨hreceive, -⟩ := receive_books h
    refine .inl ⟨by rw [hnone]; rfl, havailable, ?_⟩
    rw [hreceive, hlend, books_setDelegation, hcharge]
  · rename_i delegation hfound
    refine .inr ⟨delegation.vestingShares, by rw [hfound]; rfl, ?_⟩
    split at h
    · rename_i hgrows
      simp only [Outcome.bind_eq_ok, Outcome.ensure_eq_ok, Outcome.pure_eq_ok] at h
      obtain ⟨_, -, _, havailable, lent, hlent, received, hreceived, rfl⟩ := h
      obtain ⟨hlend, -⟩ := lend_books hlent
      obtain ⟨hreceive, -⟩ := receive_books hreceived
      refine .inl ⟨hgrows, havailable, ?_⟩
      rw [books_setDelegation, hreceive, hlend, hcharge]
    · rename_i hshrinks
      refine .inr ⟨by omega, ?_⟩
      have hreturned : ∀ {returned : Database}, (({ charged with
          delegationExpirations := charged.delegationExpirations.set
            charged.nextIds.delegationExpiration
            { delegator := op.delegator
              vestingShares := delegation.vestingShares - op.vestingShares.amount
              expiration := max (addSeconds db.dgp.time db.dgp.delegationReturnPeriod)
                delegation.minDelegationTime }
          nextIds := { charged.nextIds with
            delegationExpiration := charged.nextIds.delegationExpiration + 1 } } :
              Database).modifyAccount op.delegatee fun a => do
          let charged ← updateManabar db.dgp a 0
          let receivedVestingShares ← shareType (charged.receivedVestingShares -
            (delegation.vestingShares - op.vestingShares.amount))
          return Account.losesMana { charged with receivedVestingShares }
            (delegation.vestingShares - op.vestingShares.amount)) = .ok returned →
          returned.books = (db.books.openReturn op.delegator
            (delegation.vestingShares - op.vestingShares.amount)).credit op.delegatee
              .receivedVestingShares (-(delegation.vestingShares - op.vestingShares.amount)) := by
        intro returned hreturned
        obtain ⟨hgive, -⟩ := giveBack_books hreturned
        rw [hgive, books_openReturn, hcharge]
      split at h
      · rename_i hleaves
        simp only [Outcome.bind_eq_ok, Outcome.ensure_eq_ok, Outcome.pure_eq_ok] at h
        obtain ⟨_, -, _, -, returned, hgiven, rfl⟩ := h
        rw [if_pos hleaves, books_setDelegation, hreturned hgiven]
      · rename_i hcloses
        simp only [Outcome.bind_eq_ok, Outcome.ensure_eq_ok, Outcome.pure_eq_ok] at h
        obtain ⟨_, -, returned, hgiven, rfl⟩ := h
        rw [if_neg hcloses, books_closeDelegation, hreturned hgiven]

end Database

end Ledger

end Blurt
