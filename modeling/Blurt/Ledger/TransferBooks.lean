import Blurt.Ledger.BooksLaws
import Blurt.Ledger.TransferEvaluators

/-! # The books of transfers, savings and escrows -/

namespace Blurt

namespace Ledger

/-- The fund that an amount is taken from or added to. -/
def Asset.fund (amount : Asset) : Fund :=
  if amount.symbol = .blurt then .balance else .vestingShares

namespace Database

variable {db db' : Database}

theorem adjustBalance_fund {name : AccountName} {delta : Asset}
    (h : db.adjustBalance name delta = .ok db') :
    (Asset.fund delta = .vestingShares → 0 ≤ delta.amount) ∧
      db'.books = db.books.credit name (Asset.fund delta) delta.amount ∧
      db' = { db with accounts := db'.accounts } := by
  obtain ⟨⟨hblurt, hbooks⟩ | ⟨hvests, hnonneg, hbooks⟩, hframe⟩ := adjustBalance_books h
  · rw [Asset.fund, if_pos hblurt]
    exact ⟨by simp, hbooks, hframe⟩
  · rw [Asset.fund, hvests, if_neg (by decide)]
    exact ⟨fun _ => hnonneg, hbooks, hframe⟩

theorem transfer_books {o : TransferOperation} (h : db.transfer o = .ok db') :
    db'.books = (db.books.credit o.fromAccount .balance (-o.amount.amount)).credit o.toAccount
      .balance o.amount.amount := by
  simp only [transfer, Outcome.bind_eq_ok, Outcome.ensure_eq_ok] at h
  obtain ⟨_, hblurt, debited, hdebited, h⟩ := h
  obtain ⟨hdebit, -⟩ := adjustBalance_blurt hdebited hblurt
  obtain ⟨hcredit, -⟩ := adjustBalance_blurt h hblurt
  rw [hcredit, hdebit]
  rfl

theorem transferToSavings_books {op : TransferToSavingsOperation} (hblurt : op.amount.symbol = .blurt)
    (h : db.transferToSavings op = .ok db') :
    db'.books = (db.books.credit op.fromAccount .balance (-op.amount.amount)).credit op.toAccount
      .savingsBalance op.amount.amount := by
  simp only [transferToSavings, Outcome.bind_eq_ok, Outcome.ensure_eq_ok] at h
  obtain ⟨_, -, _, -, _, -, debited, hdebited, h⟩ := h
  obtain ⟨hdebit, -⟩ := adjustBalance_blurt hdebited hblurt
  obtain ⟨-, hcredit, -⟩ := adjustSavingsBalance_books h
  rw [hcredit, hdebit]
  rfl

theorem transferFromSavings_books {op : TransferFromSavingsOperation}
    (h : db.transferFromSavings op = .ok db') :
    op.amount.symbol = .blurt ∧
      db.books.savingsWithdraws.find? (op.fromAccount, op.requestId) = none ∧
      db'.books = (db.books.credit op.fromAccount .savingsBalance (-op.amount.amount)).setSavingsWithdraw
        (op.fromAccount, op.requestId)
        { toAccount := op.toAccount
          memo := op.memo
          amount := op.amount
          complete := addSeconds db.dgp.time blurtSavingsWithdrawTime } := by
  simp only [transferFromSavings, Outcome.bind_eq_ok, Outcome.ensure_eq_ok] at h
  obtain ⟨_, -, _, -, _, -, _, hblurt, _, -, _, -, debited, hdebited, _, hnew, h⟩ := h
  obtain ⟨-, hdebit, hframe⟩ := adjustSavingsBalance_books hdebited
  obtain ⟨hcount, -⟩ := modifyAccount_quiet h fun a b hb => by cases hb; rfl
  refine ⟨hblurt, ?_, ?_⟩
  · rw [hframe] at hnew
    simpa [books] using hnew
  · rw [hcount, books_setSavingsWithdraw, hdebit]
    rfl

theorem cancelTransferFromSavings_books {op : CancelTransferFromSavingsOperation}
    (h : db.cancelTransferFromSavings op = .ok db') :
    ∃ swo, db.books.savingsWithdraws.find? (op.fromAccount, op.requestId) = some swo ∧
      swo.amount.symbol = .blurt ∧
      db'.books = (db.books.credit op.fromAccount .savingsBalance swo.amount.amount).closeSavingsWithdraw
        (op.fromAccount, op.requestId) := by
  simp only [cancelTransferFromSavings, getSavingsWithdraw, Outcome.bind_eq_ok,
    Outcome.require_eq_ok] at h
  obtain ⟨swo, hswo, credited, hcredited, h⟩ := h
  obtain ⟨hblurt, hcredit, -⟩ := adjustSavingsBalance_books hcredited
  obtain ⟨hcount, -⟩ := modifyAccount_quiet h fun a b hb => by cases hb; rfl
  refine ⟨swo, by simpa [books] using hswo, hblurt, ?_⟩
  rw [hcount, books_closeSavingsWithdraw, hcredit]

/-! ## Escrows -/

theorem find?_escrows (key : AccountName × Nat) :
    db.books.escrows.find? key = db.escrows.find? key := by
  simp [books]

theorem escrowTransfer_books {o : EscrowTransferOperation} (hfee : o.fee.symbol = .blurt)
    (h : db.escrowTransfer o = .ok db') :
    o.blurtAmount.symbol = .blurt ∧ db.books.escrows.find? (o.fromAccount, o.escrowId) = none ∧
      db'.books = (db.books.credit o.fromAccount .balance
          (-(o.blurtAmount.amount + o.fee.amount))).setEscrow (o.fromAccount, o.escrowId)
        { id := db.nextIds.escrow
          toAccount := o.toAccount
          agent := o.agent
          ratificationDeadline := o.ratificationDeadline
          escrowExpiration := o.escrowExpiration
          blurtBalance := o.blurtAmount
          pendingFee := o.fee } := by
  simp only [escrowTransfer, Outcome.bind_eq_ok, Outcome.ensure_eq_ok, shareType_eq_ok,
    Outcome.pure_eq_ok, if_pos hfee] at h
  obtain ⟨_, -, _, -, _, -, _, -, _, -, _, hsymbol, _, ⟨-, rfl⟩, debited, hdebited, _, hnew, rfl⟩ := h
  have hblurt := hsymbol hfee
  obtain ⟨hdebit, hframe⟩ := adjustBalance_blurt hdebited hblurt
  refine ⟨hblurt, ?_, ?_⟩
  · rw [find?_escrows]
    rw [hframe] at hnew
    simpa using hnew
  · have hid : debited.nextIds = db.nextIds := by rw [hframe]
    have hset := books_setEscrow debited (o.fromAccount, o.escrowId)
      { id := debited.nextIds.escrow
        toAccount := o.toAccount
        agent := o.agent
        ratificationDeadline := o.ratificationDeadline
        escrowExpiration := o.escrowExpiration
        blurtBalance := o.blurtAmount
        pendingFee := o.fee }
    rw [hdebit] at hset
    rw [← hid]
    exact hset

/-- What the approval of one party leaves of an escrow. -/
theorem approveEscrow_eq_ok {escrow approved : Escrow} {o : EscrowApproveOperation}
    (h : approveEscrow escrow o = .ok approved) :
    approved = { escrow with
      toApproved := escrow.toApproved || (o.approve && o.who = o.toAccount)
      agentApproved := escrow.agentApproved || (o.approve && o.who = o.agent) } := by
  simp only [approveEscrow, Outcome.bind_eq_ok, Outcome.ensure_eq_ok, Outcome.pure_eq_ok] at h
  obtain ⟨_, -, _, -, rfl⟩ := h
  rfl

/-- An escrow is refunded when a party rejects it, is settled when the second party
approves it, and else only records the approval. -/
theorem escrowApprove_books {o : EscrowApproveOperation} (h : db.escrowApprove o = .ok db') :
    ∃ escrow approved, db.books.escrows.find? (o.fromAccount, o.escrowId) = some escrow ∧
      approveEscrow escrow o = .ok approved ∧
      (!o.approve ∧
          (Asset.fund escrow.blurtBalance = .vestingShares → 0 ≤ escrow.blurtBalance.amount) ∧
          (Asset.fund escrow.pendingFee = .vestingShares → 0 ≤ escrow.pendingFee.amount) ∧
          db'.books = ((db.books.credit o.fromAccount (Asset.fund escrow.blurtBalance)
            escrow.blurtBalance.amount).credit o.fromAccount (Asset.fund escrow.pendingFee)
              escrow.pendingFee.amount).closeEscrow (o.fromAccount, o.escrowId) ∨
        o.approve ∧ approved.isApproved ∧ o.agent = escrow.agent ∧
          (Asset.fund escrow.pendingFee = .vestingShares → 0 ≤ escrow.pendingFee.amount) ∧
          db'.books = (db.books.credit o.agent (Asset.fund escrow.pendingFee)
            escrow.pendingFee.amount).setEscrow (o.fromAccount, o.escrowId)
              { approved with pendingFee := { approved.pendingFee with amount := 0 } } ∨
        o.approve ∧ !approved.isApproved ∧
          db'.books = db.books.setEscrow (o.fromAccount, o.escrowId) approved) := by
  simp only [escrowApprove, getEscrow, Outcome.bind_eq_ok, Outcome.ensure_eq_ok,
    Outcome.require_eq_ok] at h
  obtain ⟨escrow, hescrow, _, -, _, hagent, _, -, approved, happroved, h⟩ := h
  have hfee : approved.pendingFee = escrow.pendingFee := by rw [approveEscrow_eq_ok happroved]
  refine ⟨escrow, approved, by rw [find?_escrows, hescrow], happroved, ?_⟩
  split at h
  · rename_i hrejects
    simp only [Outcome.bind_eq_ok, Outcome.pure_eq_ok] at h
    obtain ⟨refunded, hrefunded, returned, hreturned, rfl⟩ := h
    obtain ⟨hsign, hrefund, -⟩ := adjustBalance_fund hrefunded
    obtain ⟨hsign', hreturn, -⟩ := adjustBalance_fund hreturned
    refine .inl ⟨hrejects, hsign, hsign', ?_⟩
    rw [books_closeEscrow, hreturn, hrefund]
  · rename_i happroves
    have happroves : o.approve = true := by simpa using happroves
    split at h
    · rename_i hall
      simp only [Outcome.bind_eq_ok, Outcome.pure_eq_ok] at h
      obtain ⟨paid, hpaid, rfl⟩ := h
      obtain ⟨hsign, hpay, -⟩ := adjustBalance_fund hpaid
      rw [hfee] at hsign hpay
      refine .inr (.inl ⟨happroves, hall, hagent.symm, hsign, ?_⟩)
      rw [books_setEscrow, hpay]
    · rename_i hopen
      cases h
      exact .inr (.inr ⟨happroves, by simpa using hopen, books_setEscrow _ _ _⟩)

theorem escrowDispute_books {o : EscrowDisputeOperation} (h : db.escrowDispute o = .ok db') :
    ∃ e, db.books.escrows.find? (o.fromAccount, o.escrowId) = some e ∧
      db'.books = db.books.setEscrow (o.fromAccount, o.escrowId) { e with disputed := true } := by
  simp only [escrowDispute, getEscrow, Outcome.bind_eq_ok, Outcome.ensure_eq_ok,
    Outcome.require_eq_ok, Outcome.pure_eq_ok] at h
  obtain ⟨_, -, e, he, _, -, _, -, _, -, _, -, _, -, rfl⟩ := h
  exact ⟨e, by rw [find?_escrows, he], books_setEscrow _ _ _⟩

theorem escrowRelease_books {o : EscrowReleaseOperation} (h : db.escrowRelease o = .ok db') :
    ∃ e, db.books.escrows.find? (o.fromAccount, o.escrowId) = some e ∧ e.isApproved ∧
      e.blurtBalance.symbol = o.blurtAmount.symbol ∧
      o.blurtAmount.amount ≤ e.blurtBalance.amount ∧
      (Asset.fund o.blurtAmount = .vestingShares → 0 ≤ o.blurtAmount.amount) ∧
      db'.books =
        if e.blurtBalance.amount - o.blurtAmount.amount = 0 then
          (db.books.credit o.receiver (Asset.fund o.blurtAmount) o.blurtAmount.amount).closeEscrow
            (o.fromAccount, o.escrowId)
        else
          (db.books.credit o.receiver (Asset.fund o.blurtAmount) o.blurtAmount.amount).setEscrow
            (o.fromAccount, o.escrowId) { e with blurtBalance := { e.blurtBalance with
              amount := e.blurtBalance.amount - o.blurtAmount.amount } } := by
  simp only [escrowRelease, getEscrow, Outcome.bind_eq_ok, Outcome.ensure_eq_ok,
    Outcome.require_eq_ok, shareType_eq_ok] at h
  obtain ⟨_, -, e, he, _, hsymbol, _, hamount, _, -, _, -, _, -, _, happroved, _, -, paid, hpaid, _,
    ⟨-, rfl⟩, h⟩ := h
  obtain ⟨hsign, hpay, -⟩ := adjustBalance_fund hpaid
  refine ⟨e, by rw [find?_escrows, he], happroved, hsymbol, hamount, hsign, ?_⟩
  split at h
  · rename_i hzero
    cases h
    rw [if_pos hzero, books_closeEscrow, hpay]
  · rename_i hrest
    cases h
    rw [if_neg hrest, books_setEscrow, hpay]

end Database

end Ledger

end Blurt
