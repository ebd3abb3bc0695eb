import Blurt.Ledger.EntryRuns
import Blurt.Ledger.TransferBooks

/-! # Transfers, savings and escrows as runs of entries

An evaluator that is accepted has found its accounts and checked its amounts, so each of its
changes is an entry of the books, and together they leave the columns as they were.
-/

namespace Blurt

namespace Ledger

namespace Database

variable {may : AccountName → Prop} {db db' : Database} {name : AccountName}

/-! ## Balances -/

theorem find?_holders_some {a : Account} (ha : db.accounts.find? name = some a) :
    db.books.holders.find? name = some a.holder := by
  rw [find?_holders, ha, Option.map_some]

theorem adjustBalance_entry (may : AccountName → Prop) {delta : Asset}
    (h : db.adjustBalance name delta = .ok db')
    (hblurt : delta.symbol = .blurt) :
    Books.Step may db.books (.of delta.amount 0 0 0 0) db'.books := by
  obtain ⟨hbooks, -⟩ := adjustBalance_blurt h hblurt
  simp only [adjustBalance, Outcome.bind_eq_ok, getAccount_eq_ok, getBalance, hblurt, if_true] at h
  obtain ⟨a, ha, h⟩ := h
  have hsafe : 0 ≤ delta.amount ∨ 0 ≤ a.balance + delta.amount := by
    split at h
    · simp only [Outcome.bind_eq_ok, Outcome.ensure_eq_ok, Except.ok.injEq] at h
      obtain ⟨_, rfl, _, havailable, -⟩ := h
      right
      omega
    · left
      omega
  rw [hbooks]
  exact .credit (find?_holders_some ha) rfl hsafe

theorem adjustSavingsBalance_entry (may : AccountName → Prop) {delta : Asset}
    (h : db.adjustSavingsBalance name delta = .ok db') :
    Books.Step may db.books (.of delta.amount 0 0 0 0) db'.books := by
  obtain ⟨-, hbooks, -⟩ := adjustSavingsBalance_books h
  obtain ⟨a, b, ha, hb, -⟩ := modifyAccount_eq_ok.mp h
  simp only [Outcome.bind_eq_ok, shareType_eq_ok, Outcome.ensure_eq_ok] at hb
  obtain ⟨_, -, _, ⟨-, rfl⟩, _, hnonneg, -⟩ := hb
  rw [hbooks]
  exact .credit (find?_holders_some ha) rfl (.inr hnonneg)

theorem transfer_enters {o : TransferOperation} (h : db.transfer o = .ok db') :
    Enters may db 0 db' := by
  simp only [transfer, Outcome.bind_eq_ok, Outcome.ensure_eq_ok] at h
  obtain ⟨_, hblurt, debited, hdebited, h⟩ := h
  exact .move (adjustBalance_entry may hdebited hblurt) (adjustBalance_entry may h hblurt) rfl

/-! ## Savings -/

theorem find?_savingsWithdraws (key : AccountName × Nat) :
    db.books.savingsWithdraws.find? key = db.savingsWithdraws.find? key := by
  simp [books]

theorem transferToSavings_enters {op : TransferToSavingsOperation}
    (hblurt : op.amount.symbol = .blurt) (h : db.transferToSavings op = .ok db') :
    Enters may db 0 db' := by
  simp only [transferToSavings, Outcome.bind_eq_ok, Outcome.ensure_eq_ok] at h
  obtain ⟨_, -, _, -, _, -, debited, hdebited, h⟩ := h
  exact .move (adjustBalance_entry may hdebited hblurt) (adjustSavingsBalance_entry may h) rfl

theorem transferFromSavings_enters {op : TransferFromSavingsOperation}
    (hpositive : 0 ≤ op.amount.amount) (h : db.transferFromSavings op = .ok db') :
    Enters may db 0 db' := by
  obtain ⟨hblurt, hnew, hbooks⟩ := transferFromSavings_books h
  simp only [transferFromSavings, Outcome.bind_eq_ok, Outcome.ensure_eq_ok] at h
  obtain ⟨_, -, _, -, _, -, _, -, _, -, _, -, debited, hdebited, -⟩ := h
  have hdebit := adjustSavingsBalance_entry may hdebited
  obtain ⟨-, hdebitBooks, -⟩ := adjustSavingsBalance_books hdebited
  rw [hdebitBooks] at hdebit
  rw [Enters, hbooks]
  refine ((Run.single hdebit).tail (.openSavingsWithdraw hnew hblurt hpositive)).relabel ?_
  rw [Drift.of_add]
  simp

theorem cancelTransferFromSavings_enters {op : CancelTransferFromSavingsOperation}
    (h : db.cancelTransferFromSavings op = .ok db') : Enters may db 0 db' := by
  obtain ⟨swo, hswo, -, hbooks⟩ := cancelTransferFromSavings_books h
  simp only [cancelTransferFromSavings, getSavingsWithdraw, Outcome.bind_eq_ok,
    Outcome.require_eq_ok] at h
  obtain ⟨found, hfound, credited, hcredited, -⟩ := h
  have hsame : found = swo := by
    rw [find?_savingsWithdraws, hfound] at hswo
    exact Option.some.inj hswo
  subst hsame
  have hcredit := adjustSavingsBalance_entry may hcredited
  obtain ⟨-, hcreditBooks, -⟩ := adjustSavingsBalance_books hcredited
  rw [hcreditBooks] at hcredit
  rw [Enters, hbooks]
  refine ((Run.single hcredit).tail (.closeSavingsWithdraw hswo)).relabel ?_
  rw [Drift.of_add]
  simp

/-! ## Escrows -/

theorem escrowTransfer_enters {o : EscrowTransferOperation} (hfee : o.fee.symbol = .blurt)
    (hfeeNonneg : 0 ≤ o.fee.amount) (hpositive : 0 ≤ o.blurtAmount.amount)
    (h : db.escrowTransfer o = .ok db') : Enters may db 0 db' := by
  obtain ⟨hblurt, hnew, hbooks⟩ := escrowTransfer_books hfee h
  simp only [escrowTransfer, Outcome.bind_eq_ok, Outcome.ensure_eq_ok, shareType_eq_ok,
    if_pos hfee] at h
  obtain ⟨_, -, _, -, _, -, _, -, _, -, _, -, _, ⟨-, rfl⟩, debited, hdebited, -⟩ := h
  have hdebit := adjustBalance_entry may hdebited hblurt
  obtain ⟨hdebitBooks, -⟩ := adjustBalance_blurt hdebited hblurt
  rw [hdebitBooks] at hdebit
  rw [Enters, hbooks]
  refine ((Run.single hdebit).tail (.openEscrow hnew ?_)).relabel ?_
  · exact ⟨⟨hblurt, hpositive⟩, ⟨hfee, hfeeNonneg⟩, by simp [Escrow.isApproved]⟩
  · rw [Drift.of_add]
    simp [Escrow.content, Asset.neg_amount]

/-- A sound escrow is paid out in BLURT. -/
theorem escrowApprove_enters {o : EscrowApproveOperation} (hpapers : db.books.Papers)
    (h : db.escrowApprove o = .ok db') : Enters may db 0 db' := by
  simp only [escrowApprove, getEscrow, Outcome.bind_eq_ok, Outcome.ensure_eq_ok,
    Outcome.require_eq_ok] at h
  obtain ⟨escrow, hfound, _, -, _, hagent, _, -, approved, happroved, h⟩ := h
  have hescrow : db.books.escrows.find? (o.fromAccount, o.escrowId) = some escrow := by
    rw [find?_escrows, hfound]
  obtain ⟨hbalance, hfee, hsettled⟩ := hpapers.escrows _ _ hescrow
  have happroved := approveEscrow_eq_ok happroved
  split at h
  · simp only [Outcome.bind_eq_ok, Outcome.pure_eq_ok] at h
    obtain ⟨refunded, hrefunded, returned, hreturned, rfl⟩ := h
    have hrefund := adjustBalance_entry may hrefunded hbalance.1
    have hreturn := adjustBalance_entry may hreturned hfee.1
    have hold : returned.books.escrows.find? (o.fromAccount, o.escrowId) = some escrow := by
      rw [(adjustBalance_blurt hreturned hfee.1).1, (adjustBalance_blurt hrefunded hbalance.1).1]
      exact hescrow
    rw [Enters, books_closeEscrow]
    refine (((Run.single hrefund).tail hreturn).tail (.closeEscrow hold)).relabel ?_
    rw [Drift.of_add, Drift.of_add]
    simp [Escrow.content]
  · split at h
    · simp only [Outcome.bind_eq_ok, Outcome.pure_eq_ok] at h
      obtain ⟨paid, hpaid, rfl⟩ := h
      have hpay := adjustBalance_entry may hpaid (by rw [happroved]; exact hfee.1)
      have hold : paid.books.escrows.find? (o.fromAccount, o.escrowId) = some escrow := by
        rw [(adjustBalance_blurt hpaid (by rw [happroved]; exact hfee.1)).1]
        exact hescrow
      rw [Enters, books_setEscrow, happroved]
      have hsound : Escrow.Sound { escrow with
          toApproved := escrow.toApproved || (o.approve && o.who = o.toAccount)
          agentApproved := escrow.agentApproved || (o.approve && o.who = o.agent)
          pendingFee := { escrow.pendingFee with amount := 0 } } :=
        ⟨hbalance, ⟨hfee.1, le_rfl⟩, fun _ => rfl⟩
      refine ((Run.single hpay).tail (.setEscrow hold hsound)).relabel ?_
      rw [Drift.of_add, happroved]
      simp [Escrow.content]
    · rename_i hopen
      cases h
      rw [Enters, books_setEscrow]
      have hsound : approved.Sound := by
        refine ⟨?_, ?_, fun hall => absurd hall hopen⟩
        · rw [happroved]
          exact hbalance
        · rw [happroved]
          exact hfee
      refine (Run.single (.setEscrow hescrow hsound)).relabel ?_
      rw [happroved]
      simp [Escrow.content]

theorem escrowDispute_enters {o : EscrowDisputeOperation} (hpapers : db.books.Papers)
    (h : db.escrowDispute o = .ok db') : Enters may db 0 db' := by
  obtain ⟨e, he, hbooks⟩ := escrowDispute_books h
  obtain ⟨hbalance, hfee, hsettled⟩ := hpapers.escrows _ _ he
  rw [Enters, hbooks]
  refine (Run.single (.setEscrow he ⟨hbalance, hfee, hsettled⟩)).relabel ?_
  simp [Escrow.content]

theorem escrowRelease_enters {o : EscrowReleaseOperation} (hpapers : db.books.Papers)
    (h : db.escrowRelease o = .ok db') : Enters may db 0 db' := by
  simp only [escrowRelease, getEscrow, Outcome.bind_eq_ok, Outcome.ensure_eq_ok,
    Outcome.require_eq_ok, shareType_eq_ok] at h
  obtain ⟨_, -, e, hfound, _, hsymbol, _, hamount, _, -, _, -, _, -, _, happroved, _, -, paid, hpaid,
    _, ⟨-, rfl⟩, h⟩ := h
  have he : db.books.escrows.find? (o.fromAccount, o.escrowId) = some e := by
    rw [find?_escrows, hfound]
  obtain ⟨hbalance, hfee, hsettled⟩ := hpapers.escrows _ _ he
  have hblurt : o.blurtAmount.symbol = .blurt := hsymbol.symm.trans hbalance.1
  have hpay := adjustBalance_entry may hpaid hblurt
  have hold : paid.books.escrows.find? (o.fromAccount, o.escrowId) = some e := by
    rw [(adjustBalance_blurt hpaid hblurt).1]
    exact he
  have hfree := hsettled happroved
  split at h
  · rename_i hzero
    cases h
    rw [Enters, books_closeEscrow]
    refine ((Run.single hpay).tail (.closeEscrow hold)).relabel ?_
    have hcontent : e.content = o.blurtAmount.amount := by
      rw [Escrow.content]
      omega
    rw [Drift.of_add, hcontent]
    simp
  · cases h
    rw [Enters, books_setEscrow]
    refine ((Run.single hpay).tail (.setEscrow hold ?_)).relabel ?_
    · exact ⟨⟨hbalance.1, sub_nonneg.mpr hamount⟩, hfee, hsettled⟩
    · rw [Drift.of_add]
      simp [Escrow.content]

end Database

end Ledger

end Blurt
