import Blurt.Ledger.HeaderBooks
import Blurt.Ledger.TransactionRuns

/-! # Maintenance as runs of entries

What the maintenance of a block takes from one place it puts in another.
-/

namespace Blurt

namespace Ledger

open Outcome

namespace Database

variable {may : AccountName → Prop} {db db' : Database} {name : AccountName} {host : Host}

/-! ## Expired delegations -/

theorem clearExpiredDelegation_enters {row : Nat × VestingDelegationExpiration}
    (hfound : db.delegationExpirations.find? row.1 = some row.2) :
    Always (db.clearExpiredDelegation row) (Enters may db 0) := by
  intro db' h
  simp only [clearExpiredDelegation, bind_eq_ok, pure_eq_ok] at h
  obtain ⟨returned, hreturned, rfl⟩ := h
  obtain ⟨a, _, ha, -⟩ := modifyAccount_eq_ok.mp hreturned
  obtain ⟨hbooks, -⟩ := modifyAccount_books
    (f := Holder.credit .delegatedVestingShares (-row.2.vestingShares)) hreturned fun a b hb => by
      simp only [bind_eq_ok, shareType_eq_ok, pure_eq_ok] at hb
      obtain ⟨filled, hfilled, _, ⟨-, rfl⟩, rfl⟩ := hb
      rw [← Account.holder_updateManabar hfilled]
      exact filled.holder_delegatedVestingShares (-row.2.vestingShares)
  have hold : db.books.returns.find? row.1 = some (row.2.delegator, row.2.vestingShares) := by
    simp [books, hfound, VestingDelegationExpiration.entry]
  rw [Enters, books_closeReturn, hbooks]
  exact Run.single (.closeReturn hold (find?_holders_some ha))

theorem clearExpiredDelegations_enters : Always db.clearExpiredDelegations (Enters may db 0) := by
  refine .drain (.refl db) fun state row h hnext => ?_
  exact (clearExpiredDelegation_enters (Store.find?_of_head?_due hnext).1).mono fun _ => h.append

/-! ## Savings and escrows -/

theorem processSavingsWithdraw_enters {row : (AccountName × Nat) × SavingsWithdraw}
    (hpapers : db.books.Papers) (hfound : db.savingsWithdraws.find? row.1 = some row.2) :
    Always (db.processSavingsWithdraw row) (Enters may db 0) := by
  intro db' h
  simp only [processSavingsWithdraw, bind_eq_ok, pure_eq_ok] at h
  obtain ⟨paid, hpaid, counted, hcounted, rfl⟩ := h
  have hold : db.books.savingsWithdraws.find? row.1 = some row.2 := by
    rw [find?_savingsWithdraws, hfound]
  have hblurt := (hpapers.savings _ _ hold).1
  have hpay := adjustBalance_entry may hpaid hblurt
  obtain ⟨hbooks, -⟩ := adjustBalance_blurt hpaid hblurt
  obtain ⟨hcount, -⟩ := modifyAccount_quiet hcounted fun a b hb => by cases hb; rfl
  have hold' : paid.books.savingsWithdraws.find? row.1 = some row.2 := by
    rw [hbooks]
    exact hold
  rw [Enters, books_closeSavingsWithdraw, hcount]
  refine ((Run.single hpay).tail (.closeSavingsWithdraw hold')).relabel ?_
  rw [Drift.of_add]
  simp

theorem processSavingsWithdraws_enters (hb : db.books.Sound) :
    Always db.processSavingsWithdraws (Enters may db 0) := by
  refine .drain (.refl db) fun state row h hnext => ?_
  have hpapers := (hb.run h rfl).papers
  exact (processSavingsWithdraw_enters hpapers (Store.find?_of_head?_due hnext).1).mono
    fun _ => h.append

theorem expireEscrow_enters {row : (AccountName × Nat) × Escrow} (hpapers : db.books.Papers)
    (hfound : db.escrows.find? row.1 = some row.2) :
    Always (db.expireEscrow row) (Enters may db 0) := by
  intro db' h
  simp only [expireEscrow, bind_eq_ok, pure_eq_ok] at h
  obtain ⟨refunded, hrefunded, returned, hreturned, rfl⟩ := h
  have hold : db.books.escrows.find? row.1 = some row.2 := by
    rw [find?_escrows, hfound]
  obtain ⟨hbalance, hfee, -⟩ := hpapers.escrows _ _ hold
  have hrefund := adjustBalance_entry may hrefunded hbalance.1
  have hreturn := adjustBalance_entry may hreturned hfee.1
  have hold' : returned.books.escrows.find? row.1 = some row.2 := by
    rw [(adjustBalance_blurt hreturned hfee.1).1, (adjustBalance_blurt hrefunded hbalance.1).1]
    exact hold
  rw [Enters, books_closeEscrow]
  refine (((Run.single hrefund).tail hreturn).tail (.closeEscrow hold')).relabel ?_
  rw [Drift.of_add, Drift.of_add]
  simp [Escrow.content]

theorem expireEscrowRatification_enters (hb : db.books.Sound) :
    Always db.expireEscrowRatification (Enters may db 0) := by
  refine .drain (.refl db) fun state row h hnext => ?_
  have hpapers := (hb.run h rfl).papers
  exact (expireEscrow_enters hpapers (Store.find?_of_head?_due hnext).1).mono fun _ => h.append

/-! ## Voting rights and recovery -/

theorem processDecline_enters (row : AccountName × Nat) :
    Always (db.processDecline row) (Enters may db 0) := by
  intro db' h
  simp only [processDecline, bind_eq_ok, getAccount_eq_ok, pure_eq_ok] at h
  obtain ⟨account, haccount, withdrawn, hwithdrawn, cleared, hcleared, declined, hdeclined, rfl⟩ := h
  obtain ⟨hwithdraw, -⟩ := adjustProxiedArray_books hwithdrawn
  obtain ⟨hclear, -⟩ := clearWitnessVotes_books hcleared
  obtain ⟨hdecline, -⟩ := modifyAccount_books (f := fun holder =>
    { holder with canVote := false, proxy := blurtProxyToSelfAccount }) hdeclined fun a b hb => by
      cases hb
      rfl
  have hbooks : ({ declined with
      declineRequests := declined.declineRequests.remove row.1 } : Database).books =
        (((db.books.shiftVotes row.1 (fun i => -account.holder.voteDelta i)
          blurtMaxProxyRecursionDepth).clearVotes row.1).decline row.1) := by
    rw [account.holder_voteDelta, ← hwithdraw, ← hclear]
    exact hdecline
  rw [Enters, hbooks]
  exact Run.single (.decline (find?_holders_some haccount))

theorem processDeclineVotingRights_enters :
    Always db.processDeclineVotingRights (Enters may db 0) :=
  .drain (.refl db) fun _ row h _ => (processDecline_enters row).mono fun _ => h.append

theorem accountRecoveryProcessing_enters :
    Always db.accountRecoveryProcessing (Enters may db 0) := by
  have hstart : Enters may db 0 db := .refl db
  refine Always.bind (Always.drain hstart fun state row h _ => .ok ?_)
    fun requested hrequested => ?_
  · exact h.append (.of_eq rfl)
  refine Always.bind (Always.drain hrequested fun state row h _ => .ok ?_)
    fun historic hhistoric => ?_
  · apply h.append
    have hbooks : ({ state with ownerHistory := state.ownerHistory.remove row.1 } : Database).books =
        { state.books with ownerHistory := state.books.ownerHistory.remove row.1 } := by
      simp only [books, Table.view_remove]
    rw [Enters, hbooks]
    refine Run.single (.forgetOwners fun id hist hfound => ?_)
    rw [Table.find?_remove] at hfound
    split at hfound
    · cases hfound
    · exact hfound
  · refine .drain hhistoric fun state row h _ next hnext => ?_
    simp only [applyRecoveryChange, bind_eq_ok, pure_eq_ok] at hnext
    obtain ⟨changed, hchanged, rfl⟩ := hnext
    obtain ⟨hquiet, -⟩ := modifyAccount_quiet hchanged fun a b hb => by cases hb; rfl
    exact h.append (.of_eq hquiet)

end Database

end Ledger

end Blurt
