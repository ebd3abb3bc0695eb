import Blurt.Ledger.BooksFrames
import Blurt.Ledger.Vesting

/-! # The books of the basic procedures

Each procedure of the database that changes an account is one entry of the books, or a
few. A procedure that changes accounts only says so, since its callers read the rest of
the database afterwards.
-/

namespace Blurt

namespace Ledger

namespace Account

theorem holder_balance (a : Account) (amount : Int) :
    ({ a with balance := a.balance + amount } : Account).holder =
      a.holder.credit .balance amount := by
  refine Holder.ext' (fun f => ?_) rfl rfl rfl rfl
  cases f <;> rfl

theorem holder_savingsBalance (a : Account) (amount : Int) :
    ({ a with savingsBalance := a.savingsBalance + amount } : Account).holder =
      a.holder.credit .savingsBalance amount := by
  refine Holder.ext' (fun f => ?_) rfl rfl rfl rfl
  cases f <;> rfl

theorem holder_rewardBlurtBalance (a : Account) (amount : Int) :
    ({ a with rewardBlurtBalance := a.rewardBlurtBalance + amount } : Account).holder =
      a.holder.credit .rewardBlurtBalance amount := by
  refine Holder.ext' (fun f => ?_) rfl rfl rfl rfl
  cases f <;> rfl

theorem holder_rewardVestingBlurt (a : Account) (amount : Int) :
    ({ a with rewardVestingBlurt := a.rewardVestingBlurt + amount } : Account).holder =
      a.holder.credit .rewardVestingBlurt amount := by
  refine Holder.ext' (fun f => ?_) rfl rfl rfl rfl
  cases f <;> rfl

theorem holder_rewardVestingBalance (a : Account) (amount : Int) :
    ({ a with rewardVestingBalance := a.rewardVestingBalance + amount } : Account).holder =
      a.holder.credit .rewardVestingBalance amount := by
  refine Holder.ext' (fun f => ?_) rfl rfl rfl rfl
  cases f <;> rfl

theorem holder_vestingShares (a : Account) (amount : Int) :
    ({ a with vestingShares := a.vestingShares + amount } : Account).holder =
      a.holder.credit .vestingShares amount := by
  refine Holder.ext' (fun f => ?_) rfl rfl rfl rfl
  cases f <;> rfl

theorem holder_delegatedVestingShares (a : Account) (amount : Int) :
    ({ a with delegatedVestingShares := a.delegatedVestingShares + amount } : Account).holder =
      a.holder.credit .delegatedVestingShares amount := by
  refine Holder.ext' (fun f => ?_) rfl rfl rfl rfl
  cases f <;> rfl

theorem holder_receivedVestingShares (a : Account) (amount : Int) :
    ({ a with receivedVestingShares := a.receivedVestingShares + amount } : Account).holder =
      a.holder.credit .receivedVestingShares amount := by
  refine Holder.ext' (fun f => ?_) rfl rfl rfl rfl
  cases f <;> rfl

@[simp] theorem holder_funds (a : Account) : a.holder.funds = a.funds := rfl

@[simp] theorem holder_proxy (a : Account) : a.holder.proxy = a.proxy := rfl

@[simp] theorem holder_proxiedVsfVotes (a : Account) :
    a.holder.proxiedVsfVotes = a.proxiedVsfVotes := rfl

@[simp] theorem holder_voteDelta (a : Account) : a.holder.voteDelta = a.voteDelta := by
  funext i
  cases i <;> rfl

/-- Mana is invisible in the books. -/
theorem holder_updateManabar {dgp : GlobalProperties} {a b : Account} {newMana : Int}
    (h : updateManabar dgp a newMana = .ok b) : b.holder = a.holder := by
  simp only [updateManabar, Outcome.bind_eq_ok, Outcome.pure_eq_ok] at h
  obtain ⟨bar, -, rfl⟩ := h
  rfl

@[simp] theorem holder_withdrawRoutes (a : Account) (routes : Nat) :
    ({ a with withdrawRoutes := routes } : Account).holder = a.holder := rfl

@[simp] theorem holder_witnessesVotedFor (a : Account) (votes : Nat) :
    ({ a with witnessesVotedFor := votes } : Account).holder = a.holder := rfl

@[simp] theorem holder_votingManabar (a : Account) (bar : Manabar) :
    ({ a with votingManabar := bar } : Account).holder = a.holder := rfl

end Account

namespace Database

variable {db db' : Database} {name : AccountName}

/-! ## Accounts -/

theorem getAccount_eq_ok {a : Account} :
    db.getAccount name = .ok a ↔ db.accounts.find? name = some a :=
  Outcome.require_eq_ok

theorem modifyAccount_eq_ok {update : Account → Except String Account} :
    db.modifyAccount name update = .ok db' ↔ ∃ a b, db.accounts.find? name = some a ∧
      update a = .ok b ∧ { db with accounts := db.accounts.set name b } = db' := by
  simp only [modifyAccount, Outcome.bind_eq_ok, getAccount_eq_ok, Outcome.pure_eq_ok]
  constructor
  · rintro ⟨a, ha, b, hb, hdb⟩
    exact ⟨a, b, ha, hb, hdb⟩
  · rintro ⟨a, b, ha, hb, hdb⟩
    exact ⟨a, ha, b, hb, hdb⟩

/-- A change of an account, as it is seen in the books. -/
theorem books_setAccount {a b : Account} {f : Holder → Holder}
    (ha : db.accounts.find? name = some a) (hb : b.holder = f a.holder) :
    ({ db with accounts := db.accounts.set name b } : Database).books = db.books.adjust name f := by
  simp only [books, Books.adjust]
  rw [Table.view_adjust ha hb]

/-- A change of an account that is not seen in the books. -/
theorem books_setAccount_quiet {a b : Account} (ha : db.accounts.find? name = some a)
    (hb : b.holder = a.holder) :
    ({ db with accounts := db.accounts.set name b } : Database).books = db.books := by
  simp only [books]
  rw [Table.view_quiet ha hb]

/-- What a procedure that only changes one account may do. -/
theorem modifyAccount_books {update : Account → Except String Account} {f : Holder → Holder}
    (h : db.modifyAccount name update = .ok db')
    (hf : ∀ a b, update a = .ok b → b.holder = f a.holder) :
    db'.books = db.books.adjust name f ∧ db' = { db with accounts := db'.accounts } := by
  obtain ⟨a, b, ha, hb, rfl⟩ := modifyAccount_eq_ok.mp h
  exact ⟨books_setAccount ha (hf a b hb), rfl⟩

theorem modifyAccount_quiet {update : Account → Except String Account}
    (h : db.modifyAccount name update = .ok db')
    (hquiet : ∀ a b, update a = .ok b → b.holder = a.holder) :
    db'.books = db.books ∧ db' = { db with accounts := db'.accounts } := by
  obtain ⟨a, b, ha, hb, rfl⟩ := modifyAccount_eq_ok.mp h
  exact ⟨books_setAccount_quiet ha (hquiet a b hb), rfl⟩

theorem find?_holders (db : Database) (name : AccountName) :
    db.books.holders.find? name = (db.accounts.find? name).map Account.holder :=
  Table.find?_view name Account.holder db.accounts

/-! ## The other objects -/

theorem books_setEscrow (db : Database) (key : AccountName × Nat) (e : Escrow) :
    ({ db with escrows := db.escrows.set key e } : Database).books = db.books.setEscrow key e := by
  simp only [books, Books.setEscrow, Table.view_set, id]

theorem books_closeEscrow (db : Database) (key : AccountName × Nat) :
    ({ db with escrows := db.escrows.remove key } : Database).books = db.books.closeEscrow key := by
  simp only [books, Books.closeEscrow, Table.view_remove]

theorem books_setSavingsWithdraw (db : Database) (key : AccountName × Nat) (w : SavingsWithdraw) :
    ({ db with savingsWithdraws := db.savingsWithdraws.set key w } : Database).books =
      db.books.setSavingsWithdraw key w := by
  simp only [books, Books.setSavingsWithdraw, Table.view_set, id]

theorem books_closeSavingsWithdraw (db : Database) (key : AccountName × Nat) :
    ({ db with savingsWithdraws := db.savingsWithdraws.remove key } : Database).books =
      db.books.closeSavingsWithdraw key := by
  simp only [books, Books.closeSavingsWithdraw, Table.view_remove]

theorem books_setDelegation (db : Database) (key : AccountName × AccountName)
    (d : VestingDelegation) :
    ({ db with delegations := db.delegations.set key d } : Database).books =
      db.books.setDelegation key d.vestingShares := by
  simp only [books, Books.setDelegation, Table.view_set]

theorem books_closeDelegation (db : Database) (key : AccountName × AccountName) :
    ({ db with delegations := db.delegations.remove key } : Database).books =
      db.books.closeDelegation key := by
  simp only [books, Books.closeDelegation, Table.view_remove]

theorem books_closeReturn (db : Database) (id : Nat) :
    ({ db with delegationExpirations := db.delegationExpirations.remove id } : Database).books =
      db.books.closeReturn id := by
  simp only [books, Books.closeReturn, Table.view_remove]

theorem books_setWitness_quiet (db : Database) {name : AccountName} {w : Witness} (w' : Witness)
    (hw : db.witnesses.find? name = some w) (hvotes : w'.votes = w.votes) :
    ({ db with witnesses := db.witnesses.set name w' } : Database).books = db.books := by
  simp only [books]
  rw [Table.view_quiet hw hvotes]

theorem books_setAuthority (db : Database) (name : AccountName) (auth : AccountAuthority) :
    ({ db with authorities := db.authorities.set name auth } : Database).books =
      db.books.setAuthority name auth := by
  simp only [books, Books.setAuthority, Table.view_set, id]

/-! ## Balances -/

theorem modifyBalance_books {delta : Asset} (h : db.modifyBalance name delta = .ok db') :
    (delta.symbol = .blurt ∧ db'.books = db.books.credit name .balance delta.amount ∨
      delta.symbol = .vests ∧ db'.books = db.books.credit name .vestingShares delta.amount) ∧
      db' = { db with accounts := db'.accounts } := by
  by_cases hblurt : delta.symbol = .blurt
  · simp only [modifyBalance, hblurt, if_true] at h
    refine (modifyAccount_books h fun a b hb => ?_).imp (fun hbooks => .inl ⟨hblurt, hbooks⟩) id
    simp only [Outcome.bind_eq_ok, shareType_eq_ok, Outcome.ensure_eq_ok, Outcome.pure_eq_ok] at hb
    obtain ⟨_, ⟨-, rfl⟩, _, -, rfl⟩ := hb
    exact a.holder_balance delta.amount
  · by_cases hvests : delta.symbol = .vests
    · simp only [modifyBalance, hvests, if_true] at h
      refine (modifyAccount_books h fun a b hb => ?_).imp (fun hbooks => .inr ⟨hvests, hbooks⟩) id
      rw [if_neg (by decide)] at hb
      simp only [Outcome.bind_eq_ok, shareType_eq_ok, Outcome.ensure_eq_ok,
        Outcome.pure_eq_ok] at hb
      obtain ⟨_, ⟨-, rfl⟩, _, -, rfl⟩ := hb
      exact a.holder_vestingShares delta.amount
    · obtain ⟨a, b, -, hb, -⟩ := modifyAccount_eq_ok.mp h
      simp [hblurt, hvests] at hb

/-- An amount of shares is only ever added. -/
theorem adjustBalance_books {delta : Asset} (h : db.adjustBalance name delta = .ok db') :
    (delta.symbol = .blurt ∧ db'.books = db.books.credit name .balance delta.amount ∨
      delta.symbol = .vests ∧ 0 ≤ delta.amount ∧
        db'.books = db.books.credit name .vestingShares delta.amount) ∧
      db' = { db with accounts := db'.accounts } := by
  simp only [adjustBalance, Outcome.bind_eq_ok, getAccount_eq_ok] at h
  obtain ⟨account, -, h⟩ := h
  split at h
  · rename_i hnegative
    simp only [Outcome.bind_eq_ok, getBalance] at h
    obtain ⟨available, havailable, _, -, h⟩ := h
    split at havailable
    · rename_i hblurt
      obtain ⟨hbooks, hrest⟩ := modifyBalance_books h
      refine ⟨.inl ⟨hblurt, ?_⟩, hrest⟩
      rcases hbooks with ⟨-, hbooks⟩ | ⟨hvests, -⟩
      · exact hbooks
      · rw [hblurt] at hvests
        exact absurd hvests (by decide)
    · cases havailable
  · rename_i hnonneg
    obtain ⟨hbooks, hrest⟩ := modifyBalance_books h
    refine ⟨hbooks.imp id fun hvests => ⟨hvests.1, ?_, hvests.2⟩, hrest⟩
    omega

theorem adjustBalance_found {delta : Asset} (h : db.adjustBalance name delta = .ok db') :
    ∃ a, db.accounts.find? name = some a := by
  simp only [adjustBalance, Outcome.bind_eq_ok, getAccount_eq_ok] at h
  obtain ⟨account, haccount, -⟩ := h
  exact ⟨account, haccount⟩

theorem adjustBalance_blurt {delta : Asset} (h : db.adjustBalance name delta = .ok db')
    (hblurt : delta.symbol = .blurt) :
    db'.books = db.books.credit name .balance delta.amount ∧
      db' = { db with accounts := db'.accounts } := by
  obtain ⟨⟨-, hbooks⟩ | ⟨hvests, -⟩, hrest⟩ := adjustBalance_books h
  · exact ⟨hbooks, hrest⟩
  · rw [hblurt] at hvests
    exact absurd hvests (by decide)

theorem adjustBalance_vests {delta : Asset} (h : db.adjustBalance name delta = .ok db')
    (hvests : delta.symbol = .vests) :
    0 ≤ delta.amount ∧ db'.books = db.books.credit name .vestingShares delta.amount ∧
      db' = { db with accounts := db'.accounts } := by
  obtain ⟨⟨hblurt, -⟩ | ⟨-, hnonneg, hbooks⟩, hrest⟩ := adjustBalance_books h
  · rw [hvests] at hblurt
    exact absurd hblurt (by decide)
  · exact ⟨hnonneg, hbooks, hrest⟩

theorem adjustSavingsBalance_books {delta : Asset}
    (h : db.adjustSavingsBalance name delta = .ok db') :
    delta.symbol = .blurt ∧ db'.books = db.books.credit name .savingsBalance delta.amount ∧
      db' = { db with accounts := db'.accounts } := by
  have hblurt : delta.symbol = .blurt := by
    obtain ⟨a, b, -, hb, -⟩ := modifyAccount_eq_ok.mp h
    simp only [Outcome.bind_eq_ok, Outcome.ensure_eq_ok] at hb
    obtain ⟨_, hblurt, -⟩ := hb
    exact hblurt
  refine ⟨hblurt, modifyAccount_books h fun a b hb => ?_⟩
  simp only [Outcome.bind_eq_ok, shareType_eq_ok, Outcome.ensure_eq_ok, Outcome.pure_eq_ok] at hb
  obtain ⟨_, -, _, ⟨-, rfl⟩, _, -, rfl⟩ := hb
  exact a.holder_savingsBalance delta.amount

/-- A reward in liquid. -/
theorem modifyRewardBalance_liquid {value : Int}
    (h : db.modifyRewardBalance name value 0 = .ok db') :
    db'.books = db.books.credit name .rewardBlurtBalance value ∧
      db' = { db with accounts := db'.accounts } := by
  refine modifyAccount_books h fun a b hb => ?_
  simp only [if_true, Outcome.bind_eq_ok, shareType_eq_ok, Outcome.ensure_eq_ok,
    Outcome.pure_eq_ok] at hb
  obtain ⟨_, ⟨-, rfl⟩, _, -, rfl⟩ := hb
  exact a.holder_rewardBlurtBalance value

/-- A reward in shares, with its value in liquid. -/
theorem modifyRewardBalance_shares {value shares : Int} (hshares : shares ≠ 0)
    (h : db.modifyRewardBalance name value shares = .ok db') :
    db'.books = (db.books.credit name .rewardVestingBlurt value).credit name
        .rewardVestingBalance shares ∧
      db' = { db with accounts := db'.accounts } := by
  have hchange := modifyAccount_books (f := fun holder => (holder.credit .rewardVestingBlurt value).credit
    .rewardVestingBalance shares) h fun a b hb => by
      simp only [if_neg hshares, Outcome.bind_eq_ok, shareType_eq_ok, Outcome.ensure_eq_ok,
        Outcome.pure_eq_ok] at hb
      obtain ⟨_, ⟨-, rfl⟩, _, ⟨-, rfl⟩, _, -, rfl⟩ := hb
      rw [← Account.holder_rewardVestingBlurt, ← Account.holder_rewardVestingBalance]
  rw [Books.credit, Books.credit, Books.adjust_adjust]
  exact hchange

/-! ## Votes -/

theorem adjustWitnessVote_books {witness : AccountName} {delta : Int}
    (h : db.adjustWitnessVote witness delta = .ok db') :
    db'.books = db.books.creditWitness witness delta ∧
      db' = { db with witnesses := db'.witnesses } := by
  have hupdate : ∃ w w', db.witnesses.find? witness = some w ∧ w'.votes = w.votes + delta ∧
      { db with witnesses := db.witnesses.set witness w' } = db' := by
    simp only [adjustWitnessVote, getWitness, Outcome.bind_eq_ok, Outcome.require_eq_ok,
      shareType_eq_ok] at h
    obtain ⟨w, hw, _, ⟨-, rfl⟩, h⟩ := h
    split at h <;>
      · simp only [Outcome.bind_eq_ok, Outcome.pure_eq_ok] at h
        obtain ⟨_, -, h⟩ := h
        aesop
  obtain ⟨w, w', hw, hvotes, rfl⟩ := hupdate
  refine ⟨?_, rfl⟩
  simp only [books, Books.creditWitness]
  rw [Table.view_adjust (g := (· + delta)) hw hvotes]

theorem mem_votedWitnesses {account witness : AccountName} :
    witness ∈ db.votedWitnesses account ↔
      (db.witnessVotes.find? (account, witness)).isSome := by
  simp only [votedWitnesses, List.mem_map, Prod.exists, Option.isSome_iff_exists]
  constructor
  · rintro ⟨a, w, u, hmem, rfl⟩
    obtain ⟨hvote, hkey⟩ := Store.mem_ordered_iff.mp hmem
    simp only [decide_eq_true_eq] at hkey
    exact ⟨u, hkey ▸ hvote⟩
  · rintro ⟨u, hvote⟩
    exact ⟨account, witness, u, Store.mem_ordered_iff.mpr ⟨hvote, by simp⟩, rfl⟩

theorem votedWitnesses_nodup (account : AccountName) : (db.votedWitnesses account).Nodup := by
  have hkeys := db.witnessVotes.ordered_nodup (fun x y => x.1.2 ≤ y.1.2) fun key _ => key.1 = account
  have hmap : db.votedWitnesses account =
      ((db.witnessVotes.ordered (fun x y => x.1.2 ≤ y.1.2) fun key _ => key.1 = account).map
        Prod.fst).map Prod.snd := by
    simp [votedWitnesses]
  rw [hmap]
  apply hkeys.map_on
  intro x hx y hy hxy
  obtain ⟨⟨⟨a, w⟩, u⟩, hrow, rfl⟩ := List.mem_map.mp hx
  obtain ⟨⟨⟨b, v⟩, _⟩, hrow', rfl⟩ := List.mem_map.mp hy
  have ha := (Store.mem_ordered_iff.mp hrow).2
  have hb := (Store.mem_ordered_iff.mp hrow').2
  simp only [decide_eq_true_eq] at ha hb hxy
  rw [ha, hb, hxy]

/-- The loop of `adjust_witness_votes` over any list of witnesses. -/
theorem forEach_adjustWitnessVote {witnesses : List AccountName} {delta : Int}
    (h : Outcome.forEach (fun db witness => adjustWitnessVote db witness delta) db witnesses =
      .ok db') (hnodup : witnesses.Nodup) :
    db'.books = db.books.creditWitnesses (· ∈ witnesses) delta ∧
      db' = { db with witnesses := db'.witnesses } := by
  induction witnesses generalizing db with
  | nil =>
      cases h
      refine ⟨?_, rfl⟩
      simp [Books.creditWitnesses]
  | cons witness rest ih =>
      obtain ⟨next, hnext, hrest⟩ := Outcome.forEach_cons_eq_ok.mp h
      obtain ⟨hwitness, hnodup⟩ := List.nodup_cons.mp hnodup
      obtain ⟨hbooks, hframe⟩ := adjustWitnessVote_books hnext
      obtain ⟨ih, ihframe⟩ := ih hrest hnodup
      refine ⟨?_, by rw [ihframe, hframe]⟩
      rw [ih, hbooks]
      simp only [Books.creditWitness, Books.creditWitnesses]
      congr 1
      apply Table.ext_find?
      intro k
      simp only [Table.find?_mapRows, Table.find?_adjust]
      by_cases hk : k = witness
      · subst hk
        simp [hwitness, Function.comp_def]
      · simp [hk]

theorem adjustWitnessVotes_books {account : AccountName} {delta : Int}
    (h : db.adjustWitnessVotes account delta = .ok db') :
    db'.books = db.books.creditVoted account delta ∧
      db' = { db with witnesses := db'.witnesses } := by
  obtain ⟨hbooks, hframe⟩ := forEach_adjustWitnessVote h (votedWitnesses_nodup account)
  refine ⟨?_, hframe⟩
  rw [hbooks, Books.creditVoted]
  congr 1
  funext witness
  simp [mem_votedWitnesses, books]

theorem clearWitnessVotes_books {account : AccountName}
    (h : db.clearWitnessVotes account = .ok db') :
    db'.books = db.books.clearVotes account ∧
      db' = { db with accounts := db'.accounts, witnessVotes := db'.witnessVotes } := by
  obtain ⟨hbooks, hframe⟩ := modifyAccount_quiet h fun a b hb => by cases hb; rfl
  refine ⟨?_, by rw [hframe]⟩
  rw [hbooks]
  simp only [books, Books.clearVotes]
  congr 1
  apply Table.ext_find?
  intro key
  rw [Table.find?_view, Table.find?_filterKeys, Table.find?_view]
  have hloop : (db.votedWitnesses account).foldl
        (fun votes witness => votes.remove (account, witness)) db.witnessVotes =
      ((db.votedWitnesses account).map fun witness => ((account, witness), ())).foldl
        (fun votes row => votes.remove row.1) db.witnessVotes := by
    rw [List.foldl_map]
  rw [hloop, Store.find?_foldl_remove]
  obtain ⟨a, w⟩ := key
  by_cases ha : a = account
  · subst ha
    by_cases hvoted : w ∈ db.votedWitnesses a
    · simp [hvoted]
    · have hnone : db.witnessVotes.find? (a, w) = none := by
        rw [mem_votedWitnesses] at hvoted
        simpa using hvoted
      simp [hnone]
  · simp [ha, Ne.symm ha]

theorem holder_addProxied {a b : Account} {depth : Nat} {delta : VoteDelta}
    (h : a.addProxied depth delta = .ok b) : b.holder = a.holder.addProxied depth delta := by
  simp only [Account.addProxied, Outcome.bind_eq_ok, Outcome.pure_eq_ok] at h
  obtain ⟨_, -, rfl⟩ := h
  rfl

theorem proxyOf_books {a : Account} (ha : db.accounts.find? name = some a) :
    db.books.proxyOf name = a.proxy := by
  simp [Books.proxyOf, find?_holders, ha]

theorem adjustProxiedArray_books {delta : VoteDelta} {levels : Nat}
    (h : db.adjustProxiedArray name delta levels = .ok db') :
    db'.books = db.books.shiftVotes name delta levels ∧
      db' = { db with accounts := db'.accounts, witnesses := db'.witnesses } := by
  induction levels generalizing db name with
  | zero =>
      simp only [adjustProxiedArray, Outcome.bind_eq_ok, getAccount_eq_ok] at h
      obtain ⟨a, ha, h⟩ := h
      rw [Books.shiftVotes, proxyOf_books ha]
      split at h
      · rename_i hproxy
        cases h
        exact ⟨by rw [if_pos hproxy], rfl⟩
      · rename_i hself
        obtain ⟨hbooks, hframe⟩ := adjustWitnessVotes_books h
        exact ⟨by rw [if_neg hself, hbooks], by rw [hframe]⟩
  | succ levels ih =>
      simp only [adjustProxiedArray, Outcome.bind_eq_ok, getAccount_eq_ok] at h
      obtain ⟨a, ha, h⟩ := h
      rw [Books.shiftVotes, proxyOf_books ha]
      split at h
      · rename_i hproxy
        simp only [Outcome.bind_eq_ok] at h
        obtain ⟨updated, hupdated, h⟩ := h
        obtain ⟨hbooks, hframe⟩ := modifyAccount_books hupdated fun _ _ => holder_addProxied
        obtain ⟨ih, ihframe⟩ := ih h
        refine ⟨?_, by rw [ihframe, hframe]⟩
        rw [if_pos hproxy, ih, hbooks]
      · rename_i hself
        simp only [Outcome.bind_eq_ok, shareType_eq_ok] at h
        obtain ⟨_, ⟨-, rfl⟩, h⟩ := h
        obtain ⟨hbooks, hframe⟩ := adjustWitnessVotes_books h
        exact ⟨by rw [if_neg hself, hbooks], by rw [hframe]⟩

/-- The overload for one amount is the other one for an array of one amount. -/
theorem adjustProxiedShare_books {delta : Int} {levels : Nat}
    (h : db.adjustProxiedShare name delta levels = .ok db') :
    db'.books = db.books.shiftVotes name (.single delta) levels ∧
      db' = { db with accounts := db'.accounts, witnesses := db'.witnesses } := by
  induction levels generalizing db name with
  | zero =>
      simp only [adjustProxiedShare, Outcome.bind_eq_ok, getAccount_eq_ok] at h
      obtain ⟨a, ha, h⟩ := h
      rw [Books.shiftVotes, proxyOf_books ha]
      split at h
      · rename_i hproxy
        cases h
        exact ⟨by rw [if_pos hproxy], rfl⟩
      · rename_i hself
        obtain ⟨hbooks, hframe⟩ := adjustWitnessVotes_books h
        exact ⟨by rw [if_neg hself, hbooks]; rfl, by rw [hframe]⟩
  | succ levels ih =>
      simp only [adjustProxiedShare, Outcome.bind_eq_ok, getAccount_eq_ok] at h
      obtain ⟨a, ha, h⟩ := h
      rw [Books.shiftVotes, proxyOf_books ha]
      split at h
      · rename_i hproxy
        simp only [Outcome.bind_eq_ok] at h
        obtain ⟨updated, hupdated, h⟩ := h
        obtain ⟨hbooks, hframe⟩ := modifyAccount_books hupdated fun _ _ => holder_addProxied
        obtain ⟨ih, ihframe⟩ := ih h
        refine ⟨?_, by rw [ihframe, hframe]⟩
        rw [if_pos hproxy, ih, hbooks]
        rfl
      · rename_i hself
        obtain ⟨hbooks, hframe⟩ := adjustWitnessVotes_books h
        refine ⟨?_, by rw [hframe]⟩
        have htotal : ∑ i ∈ Finset.range (levels + 2), VoteDelta.single delta i = delta := by
          simp [VoteDelta.single]
        rw [if_neg hself, hbooks, htotal]

/-! ## Supply and vesting -/

theorem books_setDgp (db : Database) {dgp : GlobalProperties} {f : Totals → Totals}
    (h : dgp.totals = f db.dgp.totals) :
    ({ db with dgp } : Database).books = db.books.setTotals f := by
  simp only [books, Books.setTotals, h]

theorem createVesting_books {liquid : Asset} {newVesting : Int}
    (h : db.createVesting name liquid = .ok (db', newVesting)) :
    (0 ≤ newVesting ∧ InInt64 db'.dgp.totalVestingShares) ∧
      db'.books = ((db.books.credit name .vestingShares newVesting).setTotals
        (Totals.addVesting liquid.amount newVesting)).shiftVotes name (.single newVesting)
          blurtMaxProxyRecursionDepth ∧
      db' = { db with
        accounts := db'.accounts
        witnesses := db'.witnesses
        dgp := { db.dgp with
          totalVestingFundBlurt := db'.dgp.totalVestingFundBlurt
          totalVestingShares := db'.dgp.totalVestingShares } } := by
  simp only [createVesting, Outcome.bind_eq_ok, Outcome.ensure_eq_ok, Outcome.pure_eq_ok,
    shareType_eq_ok, Prod.mk.injEq] at h
  obtain ⟨_, -, price, -, v, -, charged, hcharged, credited, hcredited, _, ⟨-, rfl⟩, _, ⟨hrange, rfl⟩,
    voted, hvoted, rfl, rfl⟩ := h
  obtain ⟨hmana, hmanaFrame⟩ := modifyAccount_quiet hcharged fun _ _ => Account.holder_updateManabar
  obtain ⟨hnonneg, hcredit, hcreditFrame⟩ := adjustBalance_vests hcredited rfl
  obtain ⟨hshift, hshiftFrame⟩ := adjustProxiedShare_books hvoted
  have hdgp : credited.dgp = db.dgp := by rw [hcreditFrame, hmanaFrame]
  refine ⟨⟨hnonneg, ?_⟩, ?_, ?_⟩
  · rw [hshiftFrame]
    exact hrange
  · rw [hshift, books_setDgp (f := Totals.addVesting liquid.amount v) credited rfl, hcredit, hmana]
    rfl
  · rw [hshiftFrame, hcreditFrame, hmanaFrame]

end Database

end Ledger

end Blurt
