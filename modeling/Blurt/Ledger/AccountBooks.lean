import Blurt.Ledger.AccountEvaluators
import Blurt.Ledger.BooksLaws

/-! # The books of accounts and their recovery -/

namespace Blurt

namespace Ledger

namespace Database

variable {db db' : Database}

theorem find?_authorities (name : AccountName) :
    db.books.authorities.find? name = db.authorities.find? name := by
  simp [books]

theorem createAccount_books {creator name : AccountName} {memoKey : PublicKey}
    {owner active posting : Authority}
    (h : db.createAccount creator name memoKey owner active posting = .ok db') :
    db.books.holders.find? name = none ∧
      db'.books = db.books.openAccount name { owner, active, posting } := by
  simp only [createAccount, Outcome.bind_eq_ok, Outcome.ensure_eq_ok, Outcome.pure_eq_ok] at h
  obtain ⟨_, hnew, rfl⟩ := h
  constructor
  · rw [find?_holders, Option.map_eq_none_iff]
    simpa using hnew
  · simp only [books, Books.openAccount, Books.setAuthority, Table.view_set, id]
    rfl

theorem accountCreate_books {o : AccountCreateOperation} (hblurt : o.fee.symbol = .blurt)
    (h : db.accountCreate o = .ok db') :
    ((db.books.credit o.creator .balance (-o.fee.amount)).credit blurtNullAccount .balance
        o.fee.amount).holders.find? o.newAccountName = none ∧
      db'.books = ((db.books.credit o.creator .balance (-o.fee.amount)).credit blurtNullAccount
        .balance o.fee.amount).openAccount o.newAccountName
          { owner := o.owner, active := o.active, posting := o.posting } := by
  simp only [accountCreate, Outcome.bind_eq_ok, Outcome.ensure_eq_ok] at h
  obtain ⟨_, -, _, -, _, -, _, -, _, -, debited, hdebited, burned, hburned, h⟩ := h
  obtain ⟨hdebit, -⟩ := adjustBalance_blurt hdebited hblurt
  obtain ⟨hburn, -⟩ := adjustBalance_blurt hburned hblurt
  have hcreate := createAccount_books h
  rw [hburn, hdebit] at hcreate
  exact hcreate

theorem updateOwnerAuthority_books {account : AccountName} {owner : Authority}
    (h : db.updateOwnerAuthority account owner = .ok db') :
    ∃ auth, db.authorities.find? account = some auth ∧
      db'.books = (db.books.recordOwner
        { account, previousOwnerAuthority := auth.owner, lastValidTime := db.dgp.time }).setAuthority
          account { auth with owner, lastOwnerUpdate := db.dgp.time } := by
  simp only [updateOwnerAuthority, Outcome.bind_eq_ok, Outcome.require_eq_ok,
    Outcome.pure_eq_ok] at h
  obtain ⟨auth, hauth, rfl⟩ := h
  refine ⟨auth, hauth, ?_⟩
  simp only [books, Books.recordOwner, Books.setAuthority, Table.view_set, id]

/-- The owner authority changes first, if it changes, and the others after it. -/
theorem accountUpdate_books {o : AccountUpdateOperation} (h : db.accountUpdate o = .ok db') :
    ∃ owned auth, (owned = db.books ∨
        ∃ previous updated, owned = (db.books.recordOwner
          { account := o.account
            previousOwnerAuthority := previous
            lastValidTime := db.dgp.time }).setAuthority o.account updated) ∧
      db'.books = owned.setAuthority o.account auth := by
  simp only [accountUpdate, Outcome.bind_eq_ok, Outcome.ensure_eq_ok, Outcome.require_eq_ok] at h
  obtain ⟨_, -, _, -, _, -, _, -, _, -, _, -, _, -, h⟩ := h
  split at h
  · simp only [Outcome.bind_eq_ok, Outcome.ensure_eq_ok, Outcome.require_eq_ok,
      Outcome.pure_eq_ok] at h
    obtain ⟨_, -, _, -, owned, howned, _, -, _, -, updated, hupdated, auth, -, rfl⟩ := h
    obtain ⟨previous, -, hbooks⟩ := updateOwnerAuthority_books howned
    obtain ⟨hquiet, -⟩ := modifyAccount_quiet hupdated fun a b hb => by cases hb; rfl
    exact ⟨owned.books, _, .inr ⟨_, _, hbooks⟩, by rw [books_setAuthority, hquiet]⟩
  · simp only [Outcome.bind_eq_ok, Outcome.require_eq_ok, Outcome.pure_eq_ok] at h
    obtain ⟨owned, howned, _, -, _, -, updated, hupdated, auth, -, rfl⟩ := h
    cases howned
    obtain ⟨hquiet, -⟩ := modifyAccount_quiet hupdated fun a b hb => by cases hb; rfl
    exact ⟨db.books, _, .inl rfl, by rw [books_setAuthority, hquiet]⟩

theorem spendWitnessSubsidy_books (h : db.spendWitnessSubsidy = .ok db') :
    db'.books = db.books := by
  simp only [spendWitnessSubsidy, getWitness, Outcome.bind_eq_ok, Outcome.require_eq_ok,
    Outcome.ensure_eq_ok, Outcome.pure_eq_ok] at h
  obtain ⟨witness, hwitness, _, -, _, -, rfl⟩ := h
  exact books_setWitness_quiet db _ hwitness rfl

/-- The creator pays the fee to the null account, which destroys it. -/
theorem claimAccount_books {host : Host} {o : ClaimAccountOperation}
    (h : claimAccount host db o = .ok db') :
    (db.books.holders.find? blurtNullAccount).isSome ∧
      db'.books = (db.books.credit blurtNullAccount .balance o.fee.amount).credit o.creator .balance
        (-o.fee.amount) := by
  simp only [claimAccount, Outcome.bind_eq_ok, Outcome.ensure_eq_ok] at h
  obtain ⟨_, -, _, -, _, hblurt, _, -, h⟩ := h
  have hpaid : ∃ paid : Database, paid.books = db.books ∧
      ∃ burned, paid.adjustBalance blurtNullAccount o.fee = .ok burned ∧
        (burned.modifyAccount o.creator fun a => do
          let balance ← shareType (a.balance - o.fee.amount)
          let pendingClaimedAccounts ← shareType (a.pendingClaimedAccounts + 1)
          return { a with balance, pendingClaimedAccounts }) = .ok db' := by
    split at h
    · have hsubsidized : ∀ {subsidized : Database}, subsidized.books = db.books →
          ∀ available, ({ subsidized with dgp := { subsidized.dgp with
            availableAccountSubsidies := available } } : Database).books = db.books := by
        intro subsidized hbooks available
        rw [← hbooks]
        rfl
      split at h <;> simp only [Outcome.bind_eq_ok, Outcome.ensure_eq_ok] at h
      · obtain ⟨subsidized, hsub, _, -, paid, hpaid, burned, hburned, h⟩ := h
        cases hsub
        cases hpaid
        exact ⟨_, hsubsidized rfl _, burned, hburned, h⟩
      · obtain ⟨subsidized, hsub, _, -, paid, hpaid, burned, hburned, h⟩ := h
        cases hpaid
        exact ⟨_, hsubsidized (spendWitnessSubsidy_books hsub) _, burned, hburned, h⟩
    · simp only [Outcome.bind_eq_ok, Outcome.ensure_eq_ok] at h
      obtain ⟨_, -, paid, hpaid, burned, hburned, h⟩ := h
      cases hpaid
      exact ⟨db, rfl, burned, hburned, h⟩
  obtain ⟨paid, hbooks, burned, hburned, h⟩ := hpaid
  obtain ⟨null, hnull⟩ := adjustBalance_found hburned
  obtain ⟨hburn, -⟩ := adjustBalance_blurt hburned hblurt
  obtain ⟨hdebit, -⟩ := modifyAccount_books (f := Holder.credit .balance (-o.fee.amount)) h
    fun a b hb => by
      simp only [Outcome.bind_eq_ok, shareType_eq_ok, Outcome.pure_eq_ok] at hb
      obtain ⟨_, ⟨-, rfl⟩, _, ⟨-, rfl⟩, rfl⟩ := hb
      exact a.holder_balance (-o.fee.amount)
  constructor
  · rw [← hbooks, find?_holders, hnull]
    rfl
  · rw [hdebit, hburn, hbooks]
    rfl

theorem createClaimedAccount_books {o : CreateClaimedAccountOperation}
    (h : db.createClaimedAccount o = .ok db') :
    db.books.holders.find? o.newAccountName = none ∧
      db'.books = db.books.openAccount o.newAccountName
        { owner := o.owner, active := o.active, posting := o.posting } := by
  simp only [createClaimedAccount, Outcome.bind_eq_ok, Outcome.ensure_eq_ok] at h
  obtain ⟨_, -, _, -, _, -, _, -, _, -, _, -, claimed, hclaimed, h⟩ := h
  obtain ⟨hquiet, -⟩ := modifyAccount_quiet hclaimed fun a b hb => by cases hb; rfl
  have hcreate := createAccount_books h
  rw [hquiet] at hcreate
  exact hcreate

theorem requestAccountRecovery_books {o : RequestAccountRecoveryOperation}
    (h : db.requestAccountRecovery o = .ok db') : db'.books = db.books := by
  have hrequested : ∀ requests, ({ db with recoveryRequests := requests } : Database).books =
      db.books := fun _ => rfl
  simp only [requestAccountRecovery, Outcome.bind_eq_ok] at h
  obtain ⟨_, -, h⟩ := h
  split at h <;>
    · simp only [Outcome.bind_eq_ok, Outcome.ensure_eq_ok] at h
      obtain ⟨_, -, h⟩ := h
      split at h
      · simp only [Outcome.bind_eq_ok, Outcome.ensure_eq_ok, Outcome.pure_eq_ok] at h
        obtain ⟨_, -, _, -, _, -, _, -, rfl⟩ := h
        exact hrequested _
      · split at h
        · cases h
          exact hrequested _
        · simp only [Outcome.bind_eq_ok, Outcome.ensure_eq_ok, Outcome.pure_eq_ok] at h
          obtain ⟨_, -, _, -, rfl⟩ := h
          exact hrequested _

/-- The recovered account had an owner authority that is in its history. -/
theorem recoverAccount_books {o : RecoverAccountOperation} (h : db.recoverAccount o = .ok db') :
    (∃ id hist, db.books.ownerHistory.find? id = some hist ∧
        hist.account = o.accountToRecover ∧
        hist.previousOwnerAuthority = o.recentOwnerAuthority) ∧
      ∃ auth, db.authorities.find? o.accountToRecover = some auth ∧
        db'.books = (db.books.recordOwner
          { account := o.accountToRecover
            previousOwnerAuthority := auth.owner
            lastValidTime := db.dgp.time }).setAuthority o.accountToRecover
              { auth with owner := o.newOwnerAuthority, lastOwnerUpdate := db.dgp.time } := by
  simp only [recoverAccount, Outcome.bind_eq_ok, Outcome.ensure_eq_ok, Outcome.require_eq_ok] at h
  obtain ⟨_, -, _, -, _, -, _, -, _, hhistory, owned, howned, h⟩ := h
  obtain ⟨hquiet, -⟩ := modifyAccount_quiet h fun a b hb => by cases hb; rfl
  obtain ⟨auth, hauth, hbooks⟩ := updateOwnerAuthority_books howned
  constructor
  · obtain ⟨⟨id, hist⟩, hrow, hmatch⟩ := List.any_eq_true.mp hhistory
    simp only [Bool.and_eq_true, decide_eq_true_eq] at hmatch
    refine ⟨id, hist, ?_, hmatch⟩
    simpa [books] using Store.mem_rows_iff.mp hrow
  · refine ⟨auth, hauth, ?_⟩
    rw [hquiet, hbooks]
    rfl

theorem changeRecoveryAccount_books {o : ChangeRecoveryAccountOperation}
    (h : db.changeRecoveryAccount o = .ok db') : db'.books = db.books := by
  simp only [changeRecoveryAccount, Outcome.bind_eq_ok] at h
  obtain ⟨_, -, _, -, h⟩ := h
  split at h <;>
    · cases h
      rfl

end Database

end Ledger

end Blurt
