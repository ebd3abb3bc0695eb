import Blurt.Ledger.BlockRuns
import Blurt.Ledger.GenesisLaws
import Mathlib.Algebra.Order.BigOperators.Group.List
import Mathlib.Algebra.Order.Group.Int

/-! # The books at genesis

Nothing is lent, promised or voted for before the first block, and what the accounts hold is
the supply.
-/

namespace Blurt

namespace Ledger

open Outcome

/-- A snapshot that the balance of the first initial witness covers. -/
structure GenesisArgs.Fair (args : GenesisArgs) : Prop where
  nonneg : ∀ line ∈ args.snapshot, 0 ≤ line.balance ∧ 0 ≤ line.power
  covered : (args.snapshot.map fun line => line.balance + line.power).sum ≤
    blurtInitSupply - blurtInitPostRewardBalance

/-- The holder of an account that genesis creates. -/
def Holder.initial (balance shares : Int) : Holder :=
  Account.holder { id := 0, balance, vestingShares := shares }

theorem Holder.columns_initial (balance shares : Int) :
    (Holder.initial balance shares).columns = .of balance shares shares shares 0 := by
  funext column
  cases column <;>
    simp [Holder.initial, Holder.columns, Holder.countedVotes, Account.holder, Account.funds, Drift.of,
      blurtProxyToSelfAccount]

namespace Books

variable {b : Books} {name : AccountName} {balance shares : Int}

/-- Books in which nothing has happened but the creation of accounts. -/
structure Young (b : Books) : Prop where
  holders : ∀ name h, b.holders.find? name = some h →
    ∃ balance shares, h = .initial balance shares ∧ 0 ≤ balance ∧ 0 ≤ shares
  escrows : b.escrows = ∅
  savingsWithdraws : b.savingsWithdraws = ∅
  delegations : b.delegations = ∅
  returns : b.returns = ∅
  witnessVotes : b.witnessVotes = ∅
  ownerHistory : b.ownerHistory = ∅
  null : ∀ auth, b.authorities.find? blurtNullAccount = some auth →
    auth.owner.isImpossible ∧ auth.active.isImpossible ∧ auth.posting.isImpossible

theorem Young.link (hb : b.Young) (name : AccountName) : b.link name = none := by
  cases h : b.holders.find? name with
  | none => exact link_of_absent h
  | some holder =>
      obtain ⟨balance, shares, rfl, -⟩ := hb.holders name holder h
      exact (link_eq_none h).mpr rfl

theorem Young.proxies (hb : b.Young) : b.Proxies := by
  constructor
  · intro name n h
    rw [Links.climb_of_root (hb.link name)] at h
    cases h
  · intro name proxy h
    rw [hb.link] at h
    cases h

theorem Young.lending (hb : b.Young) : b.Lending := by
  have hlent : ∀ name, b.lent name = 0 := fun name => by rw [lent, hb.delegations]; rfl
  have hborrowed : ∀ name, b.borrowed name = 0 := fun name => by rw [borrowed, hb.delegations]; rfl
  have hreturning : ∀ name, b.returning name = 0 := fun name => by rw [returning, hb.returns]; rfl
  constructor
  · intro name h hh
    obtain ⟨balance, shares, rfl, -⟩ := hb.holders name h hh
    rw [hlent, hreturning]
    rfl
  · intro name h hh
    obtain ⟨balance, shares, rfl, -⟩ := hb.holders name h hh
    rw [hborrowed]
    rfl
  · intro name h hh
    obtain ⟨balance, shares, rfl, -, hshares⟩ := hb.holders name h hh
    refine .of_inactive ?_ rfl
    simpa [Holder.unlent, Holder.initial, Account.holder, Account.funds] using hshares
  · intro delegator delegatee lent hlent
    rw [hb.delegations] at hlent
    cases hlent
  · intro id delegator amount hamount
    rw [hb.returns] at hamount
    cases hamount
  · intro id _
    rw [hb.returns]
    rfl

theorem Young.nullIdle (hb : b.Young) (hnull : (b.holders.find? blurtNullAccount).isSome) :
    b.NullIdle where
  exist := hnull
  proxy := hb.link _
  powerDown h hh := by
    obtain ⟨balance, shares, rfl, -⟩ := hb.holders _ h hh
    rfl
  papers :=
    { loans := fun delegatee => by rw [hb.delegations]; rfl
      returns := fun id row hrow => by
        rw [hb.returns] at hrow
        cases hrow
      votes := fun witness => by rw [hb.witnessVotes]; rfl
      authority := hb.null
      history := fun id hist hhist => by
        rw [hb.ownerHistory] at hhist
        cases hhist }

theorem Young.upheld (hb : b.Young) (hnull : (b.holders.find? blurtNullAccount).isSome)
    (hrange : b.totals.InRange) : b.Upheld where
  proxies := hb.proxies
  lending := hb.lending
  null := hb.nullIdle hnull
  papers := by
    constructor
    · intro key e he
      rw [hb.escrows] at he
      cases he
    · intro key w hw
      rw [hb.savingsWithdraws] at hw
      cases hw
  solvent := by
    intro name h hh fund hfund
    obtain ⟨balance, shares, rfl, hbalance, -⟩ := hb.holders name h hh
    cases fund <;> first | exact hbalance | exact le_rfl | cases hfund
  rewards := by
    intro name h hh
    obtain ⟨balance, shares, rfl, -⟩ := hb.holders name h hh
    exact ⟨le_rfl, le_rfl, show InInt64 0 from by decide⟩
  range := hrange

/-- Young books, with what they have too much in their columns. -/
structure Founding (b : Books) (money shares : Int) : Prop extends Young b where
  drift : b.drift = .of money shares shares shares 0

/-- A new account adds what it holds. -/
theorem Founding.openAccount {money total : Int} (hb : b.Founding money total)
    (hnew : b.holders.find? name = none) (hbalance : 0 ≤ balance) (hshares : 0 ≤ shares)
    {auth : AccountAuthority} (hnull : name = blurtNullAccount →
      auth.owner.isImpossible ∧ auth.active.isImpossible ∧ auth.posting.isImpossible) :
    Founding { b.setAuthority name auth with
      holders := b.holders.set name (.initial balance shares) } (money + balance) (total + shares) where
  holders other h hh := by
    rw [Table.find?_set] at hh
    split at hh
    · cases hh
      exact ⟨balance, shares, rfl, hbalance, hshares⟩
    · exact hb.holders other h hh
  escrows := hb.escrows
  savingsWithdraws := hb.savingsWithdraws
  delegations := hb.delegations
  returns := hb.returns
  witnessVotes := hb.witnessVotes
  ownerHistory := hb.ownerHistory
  null found hfound := by
    rw [setAuthority, Table.find?_set] at hfound
    split at hfound
    · rename_i heq
      cases hfound
      exact hnull heq.symm
    · exact hb.null found hfound
  drift := by
    have hsum : ∀ column, ((b.holders.set name (Holder.initial balance shares)).sum fun _ h =>
        h.columns column) = (b.holders.sum fun _ h => h.columns column) +
          Drift.of balance shares shares shares 0 column := by
      intro column
      rw [Table.sum_set, Table.share_of_absent hnew, sub_zero, Holder.columns_initial]
    have hlabel : Drift.of (money + balance) (total + shares) (total + shares) (total + shares) 0 =
        b.drift + .of balance shares shares shares 0 := by
      rw [hb.drift, Drift.of_add, add_zero]
    rw [hlabel]
    funext column
    change (b.holders.set name (Holder.initial balance shares)).sum (fun _ h => h.columns column) +
      Drift.of b.held 0 0 0 0 column - b.totals.columns column = b.drift column + _
    rw [hsum, Books.drift]
    omega

/-- Witnesses without votes are not in the columns. -/
theorem Founding.setWitnesses {money total : Int} (hb : b.Founding money total)
    (witnesses : Table AccountName Int) : Founding { b with witnesses } money total :=
  { hb with drift := hb.drift }

end Books

namespace Database

variable {db db' : Database} {money total : Int}

/-- What a step of genesis keeps: every account with its holder, and the totals. -/
structure Grows (db db' : Database) : Prop where
  stays : ∀ name a, db.accounts.find? name = some a → db'.accounts.find? name = some a
  totals : db'.dgp.totals = db.dgp.totals
  price : db'.dgp.getVestingSharePrice = db.dgp.getVestingSharePrice

theorem Grows.refl (db : Database) : Grows db db := ⟨fun _ _ => id, rfl, rfl⟩

theorem Grows.trans {db'' : Database} (h : Grows db db') (h' : Grows db' db'') : Grows db db'' :=
  ⟨fun name a ha => h'.stays name a (h.stays name a ha), h'.totals.trans h.totals,
    h'.price.trans h.price⟩

theorem createObject_founding {name : AccountName} {account : Nat → Account} {auth : AccountAuthority}
    {balance shares : Int} (hb : db.books.Founding money total)
    (h : db.createObject name account auth = .ok db')
    (haccount : ∀ id, (account id).holder = .initial balance shares) (hbalance : 0 ≤ balance)
    (hshares : 0 ≤ shares) (hnull : name = blurtNullAccount →
      auth.owner.isImpossible ∧ auth.active.isImpossible ∧ auth.posting.isImpossible) :
    db'.books.Founding (money + balance) (total + shares) ∧ Grows db db' ∧
      ∃ id, db'.accounts.find? name = some (account id) := by
  simp only [createObject, bind_eq_ok, ensure_eq_ok, pure_eq_ok] at h
  obtain ⟨_, hnew, rfl⟩ := h
  rw [Option.isNone_iff_eq_none] at hnew
  have hbooks : ({ db with
      accounts := db.accounts.set name (account db.nextIds.account)
      authorities := db.authorities.set name auth
      nextIds := { db.nextIds with account := db.nextIds.account + 1 } } : Database).books =
      { db.books.setAuthority name auth with
        holders := db.books.holders.set name (.initial balance shares) } := by
    simp only [books, Table.view_set, haccount, Books.setAuthority, id]
  refine ⟨?_, ⟨fun other a ha => ?_, rfl, rfl⟩, db.nextIds.account, ?_⟩
  · rw [hbooks]
    refine hb.openAccount ?_ hbalance hshares hnull
    rw [find?_holders, hnew, Option.map_none]
  · rw [Store.find?_set, if_neg]
    · exact ha
    · rintro rfl
      rw [hnew] at ha
      cases ha
  · rw [Store.find?_set, if_pos rfl]

/-! ## The parts of genesis -/

theorem genesisObjects_founding : Always genesisObjects fun db =>
    db.books.Founding (blurtInitPostRewardBalance - blurtInitSupply) 0 ∧ db.Percents ∧
      db.dgp.totalVestingFundBlurt = 0 ∧ db.dgp.totalVestingShares = 0 := by
  refine .skip fun price => .skip fun regentShares => .skip fun rd => .skip fun witnessRd => .pure ?_
  refine ⟨⟨⟨?_, rfl, rfl, rfl, rfl, rfl, rfl, ?_⟩, ?_⟩, ⟨?_, ?_⟩, rfl, rfl⟩
  · intro name h hh
    cases hh
  · intro auth hauth
    cases hauth
  · funext column
    cases column <;> rfl
  · intro key r hr
    cases hr
  · intro id c hc
    cases hc

theorem createProtocolAccounts_founding (hb : db.books.Founding money total)
    (h : db.createProtocolAccounts = .ok db') :
    db'.books.Founding money total ∧ Grows db db' ∧
      (db'.accounts.find? blurtNullAccount).isSome := by
  simp only [createProtocolAccounts, bind_eq_ok] at h
  obtain ⟨miner, hminer, null, hnull, treasury, htreasury, htemp⟩ := h
  have hclosed : nobody.isImpossible ∧ nobody.isImpossible ∧ nobody.isImpossible := by decide
  obtain ⟨hminer, hminerGrows, -⟩ := createObject_founding hb hminer (fun _ => rfl) le_rfl le_rfl
    fun _ => hclosed
  obtain ⟨hnull, hnullGrows, id, hfound⟩ := createObject_founding hminer hnull (fun _ => rfl) le_rfl
    le_rfl fun _ => hclosed
  obtain ⟨htreasury, htreasuryGrows, -⟩ := createObject_founding hnull htreasury (fun _ => rfl)
    le_rfl le_rfl fun _ => hclosed
  obtain ⟨htemp, htempGrows, -⟩ := createObject_founding htreasury htemp (fun _ => rfl)
    le_rfl le_rfl fun hname => absurd hname (by decide)
  refine ⟨?_, ((hminerGrows.trans hnullGrows).trans htreasuryGrows).trans htempGrows, ?_⟩
  · simpa only [add_zero] using htemp
  · rw [htempGrows.stays _ _ (htreasuryGrows.stays _ _ hfound)]
    rfl

theorem initMinerName_ne_null (i : Nat) : initMinerName i ≠ blurtNullAccount := by
  unfold initMinerName
  split
  · decide
  · intro h
    have hlength := congrArg String.length h
    rw [String.length_append] at hlength
    have hprefix : blurtInitMinerName.length = 9 := by decide
    have hnull : blurtNullAccount.length = 4 := by decide
    omega

/-- What the initial witness `i` holds. -/
def minerBalance (i : Nat) : Int :=
  if i = 0 then blurtInitSupply - blurtInitPostRewardBalance else 0

theorem createInitMiner_founding {key : PublicKey} {i : Nat} (hb : db.books.Founding money total)
    (h : createInitMiner key db i = .ok db') :
    db'.books.Founding (money + minerBalance i) total ∧ Grows db db' ∧
      ∃ a, db'.accounts.find? (initMinerName i) = some a ∧ a.balance = minerBalance i := by
  simp only [createInitMiner, bind_eq_ok, pure_eq_ok] at h
  obtain ⟨created, hcreated, rfl⟩ := h
  have hnonneg : 0 ≤ minerBalance i := by
    unfold minerBalance
    split <;> decide
  have hholder : ∀ id, Account.holder { id, memoKey := key, balance := minerBalance i } =
      .initial (minerBalance i) 0 := fun _ => rfl
  obtain ⟨hfounding, hgrows, id, hfound⟩ := createObject_founding hb hcreated hholder hnonneg le_rfl
    fun hname => absurd hname (initMinerName_ne_null i)
  rw [add_zero] at hfounding
  exact ⟨hfounding.setWitnesses _, ⟨hgrows.stays, hgrows.totals, hgrows.price⟩, _, hfound, rfl⟩

/-- The first of the initial witnesses holds the supply. -/
theorem createInitMiners_founding {key : PublicKey} (hb : db.books.Founding money total)
    (h : Outcome.forEach (createInitMiner key) db (List.range blurtMaxWitnesses) = .ok db') :
    db'.books.Founding (money + (blurtInitSupply - blurtInitPostRewardBalance)) total ∧
      Grows db db' ∧ ∃ a, db'.accounts.find? blurtInitMinerName = some a ∧
        a.balance = blurtInitSupply - blurtInitPostRewardBalance := by
  have hloop : ∀ {is : List Nat} {state final : Database} {held : Int}, 0 ∉ is →
      state.books.Founding held total →
      Outcome.forEach (createInitMiner key) state is = .ok final →
      final.books.Founding held total ∧ Grows state final := by
    intro is
    induction is with
    | nil =>
        intro state final held _ hstate h
        cases h
        exact ⟨hstate, .refl _⟩
    | cons i rest ih =>
        intro state final held hzero hstate h
        obtain ⟨next, hnext, h⟩ := forEach_cons_eq_ok.mp h
        have hi : i ≠ 0 := fun heq => hzero (heq ▸ List.mem_cons_self)
        obtain ⟨hnext, hgrows, -⟩ := createInitMiner_founding hstate hnext
        rw [minerBalance, if_neg hi, add_zero] at hnext
        obtain ⟨hfinal, hmore⟩ := ih (fun hmem => hzero (.tail _ hmem)) hnext h
        exact ⟨hfinal, hgrows.trans hmore⟩
  have hrange : List.range blurtMaxWitnesses = 0 :: (List.range (blurtMaxWitnesses - 1)).map Nat.succ :=
    List.range_succ_eq_map
  rw [hrange] at h
  obtain ⟨first, hfirst, h⟩ := forEach_cons_eq_ok.mp h
  obtain ⟨hfirst, hgrows, a, ha, hbalance⟩ := createInitMiner_founding hb hfirst
  obtain ⟨hfinal, hmore⟩ := hloop (by simp) hfirst h
  exact ⟨hfinal, hgrows.trans hmore, a, hmore.stays _ _ ha, hbalance⟩

/-! ## The snapshot -/

/-- The shares that a line of a fair snapshot is worth at genesis. -/
theorem importShares_nonneg {power shares : Int} (hpower : 0 ≤ power) (hle : power ≤ blurtInitSupply)
    (h : Price.toVests { vests := 1000000, blurt := 1000 } power = .ok shares) : 0 ≤ shares := by
  simp only [Price.toVests, Price.convert, bind_eq_ok, ensure_eq_ok, UInt128.div_eq_ok,
    UInt128.toUInt64_eq_ok, pure_eq_ok] at h
  obtain ⟨_, -, _, ⟨-, rfl⟩, _, ⟨-, rfl⟩, rfl⟩ := h
  rw [blurtInitSupply] at hle
  rw [UInt128.ofInt_of_nonneg hpower (by omega)]
  have hproduct : UInt128.wrap (power.toNat * UInt128.ofInt 1000000) ≤ power.toNat * 1000000 :=
    Nat.mod_le _ _
  have hquotient : UInt128.wrap (power.toNat * UInt128.ofInt 1000000) / UInt128.ofInt 1000 ≤
      power.toNat * 1000 := by
    apply Nat.div_le_of_le_mul
    have hblurt : UInt128.ofInt 1000 = 1000 := by decide
    have hvests : UInt128.ofInt 1000000 = 1000000 := by decide
    rw [hvests] at hproduct
    rw [hblurt, hvests]
    omega
  rw [wrapInt64_of_lt (Int.natCast_nonneg _) (by omega)]
  exact Int.natCast_nonneg _

/-- The lines of a snapshot add what they hold, and the totals count it. -/
theorem importAccounts_founding {lines : List AccountSnapshot}
    {state final : Database × Int × Int × Int} (hb : state.1.books.Founding money total)
    (hlines : ∀ line ∈ lines, (0 ≤ line.balance ∧ 0 ≤ line.power) ∧ line.power ≤ blurtInitSupply)
    (hrange : InInt64 state.2.2.1 ∧ InInt64 state.2.2.2)
    (hexists : (state.1.accounts.find? blurtNullAccount).isSome)
    (h : Outcome.forEach (importAccount { vests := 1000000, blurt := 1000 }) state lines = .ok final) :
    final.1.books.Founding (money + (final.2.1 - state.2.1))
        (total + (final.2.2.2 - state.2.2.2)) ∧
      Grows state.1 final.1 ∧ (InInt64 final.2.2.1 ∧ InInt64 final.2.2.2) ∧
      final.2.1 + final.2.2.1 = state.2.1 + state.2.2.1 +
        (lines.map fun line => line.balance + line.power).sum := by
  induction lines generalizing state money total with
  | nil =>
      cases h
      refine ⟨?_, .refl _, hrange, by simp⟩
      simpa using hb
  | cons line rest ih =>
      obtain ⟨next, hnext, h⟩ := forEach_cons_eq_ok.mp h
      obtain ⟨⟨hbalance, hpower⟩, hle⟩ := hlines line List.mem_cons_self
      simp only [importAccount, bind_eq_ok, shareType_eq_ok, pure_eq_ok] at hnext
      obtain ⟨shares, hshares, created, hcreated, _, ⟨-, rfl⟩, _, ⟨hfund, rfl⟩, _, ⟨htotal, rfl⟩,
        rfl⟩ := hnext
      have hholder : ∀ id : Nat, Account.holder
          { id, memoKey := line.memo, balance := line.balance, vestingShares := shares } =
            .initial line.balance shares := fun _ => rfl
      have hname : line.name ≠ blurtNullAccount := by
        intro hname
        simp only [createObject, bind_eq_ok, ensure_eq_ok, hname] at hcreated
        obtain ⟨_, hnew, -⟩ := hcreated
        rw [Option.isNone_iff_eq_none] at hnew
        rw [hnew] at hexists
        cases hexists
      obtain ⟨hcreated, hgrows, -⟩ := createObject_founding hb hcreated hholder hbalance
        (importShares_nonneg hpower hle hshares) fun heq => absurd heq hname
      obtain ⟨null, hnull⟩ := Option.isSome_iff_exists.mp hexists
      obtain ⟨hfinal, hmore, hends, hsum⟩ := ih hcreated
        (fun other hother => hlines other (.tail _ hother)) ⟨hfund, htotal⟩
        (by rw [hgrows.stays _ _ hnull]; rfl) h
      dsimp only at hfinal hsum
      refine ⟨?_, hgrows.trans hmore, hends, ?_⟩
      · convert hfinal using 1 <;> omega
      · rw [List.map_cons, List.sum_cons]
        omega

/-- The snapshot is paid for by the first initial witness. -/
theorem importSnapshot_sound {args : GenesisArgs} (hfair : args.Fair)
    (hb : db.books.Founding 0 0)
    (hfresh : db.dgp.totalVestingFundBlurt = 0 ∧ db.dgp.totalVestingShares = 0)
    (hnull : (db.accounts.find? blurtNullAccount).isSome)
    (hminer : ∃ a, db.accounts.find? blurtInitMinerName = some a ∧
      a.balance = blurtInitSupply - blurtInitPostRewardBalance)
    (h : db.importSnapshot args.snapshot = .ok db') :
    (db'.books.Upheld ∧ db'.books.drift = 0) ∧ ∀ name, db'.books.link name = none := by
  simp only [importSnapshot, bind_eq_ok, shareType_eq_ok, Prod.exists] at h
  obtain ⟨price, hprice, imported, tb, fund, shares, himported, _, ⟨-, rfl⟩, h⟩ := h
  have hunit : price = { vests := 1000000, blurt := 1000 } := by
    rw [GlobalProperties.getVestingSharePrice, if_pos (.inl hfresh.1)] at hprice
    cases hprice
    rfl
  subst hunit
  have hnonneg : ∀ x ∈ args.snapshot.map fun line => line.balance + line.power, (0 : Int) ≤ x := by
    intro x hx
    obtain ⟨line, hline, rfl⟩ := List.mem_map.mp hx
    have hline := hfair.nonneg line hline
    omega
  have hlines : ∀ line ∈ args.snapshot,
      (0 ≤ line.balance ∧ 0 ≤ line.power) ∧ line.power ≤ blurtInitSupply := by
    intro line hline
    have hsmall := List.single_le_sum hnonneg _ (List.mem_map_of_mem hline)
    have hcovered := hfair.covered
    have hpaid := hfair.nonneg line hline
    have hreward : 0 ≤ blurtInitPostRewardBalance := by decide
    exact ⟨hpaid, by omega⟩
  obtain ⟨hfounding, hgrows, ⟨hfund, hshares⟩, hsum⟩ := importAccounts_founding hb hlines
    ⟨show InInt64 0 from by decide, show InInt64 0 from by decide⟩ hnull himported
  simp only [zero_add, sub_zero] at hfounding hsum
  have htotals : imported.dgp.totals.totalVestingFundBlurt = 0 ∧
      imported.dgp.totals.totalVestingShares = 0 := by
    rw [hgrows.totals]
    exact hfresh
  have hupheld : imported.books.Upheld := by
    refine hfounding.toYoung.upheld ?_ ⟨?_, ?_⟩
    · obtain ⟨null, hnull⟩ := Option.isSome_iff_exists.mp hnull
      rw [find?_holders, hgrows.stays _ _ hnull]
      rfl
    · change InInt64 imported.dgp.totals.totalVestingFundBlurt
      rw [htotals.1]
      decide
    · change InInt64 imported.dgp.totals.totalVestingShares
      rw [htotals.2]
      decide
  -- the totals are set, and the first initial witness pays
  have htotal : Books.Step (fun _ => False) imported.books _ (imported.books.setTotals fun t =>
      { t with totalVestingFundBlurt := fund, totalVestingShares := shares }) :=
    Books.Step.setTotals _ rfl fun _ => ⟨hfund, hshares⟩
  have hfunded : ({ imported with dgp := { imported.dgp with
      totalVestingFundBlurt := fund, totalVestingShares := shares } } : Database).books =
        imported.books.setTotals fun t =>
          { t with totalVestingFundBlurt := fund, totalVestingShares := shares } :=
    books_setDgp imported rfl
  obtain ⟨a, ha, hbalance⟩ := hminer
  have hh := find?_holders_some (hgrows.stays _ _ ha)
  obtain ⟨hpaid, -⟩ := modifyAccount_books (f := Holder.credit .balance (-(tb + fund))) h
    fun a b hb => by
      simp only [bind_eq_ok, shareType_eq_ok, pure_eq_ok] at hb
      obtain ⟨_, ⟨-, rfl⟩, rfl⟩ := hb
      exact a.holder_balance _
  have hpay : Books.Step (fun _ => False) (imported.books.setTotals fun t =>
      { t with totalVestingFundBlurt := fund, totalVestingShares := shares })
      (.of (-(tb + fund)) 0 0 0 0) db'.books := by
    rw [hpaid, hfunded]
    refine .credit hh rfl (.inr ?_)
    change 0 ≤ a.balance + -(tb + fund)
    have hcovered := hfair.covered
    omega
  have hrun := (Run.single htotal).tail hpay
  refine ⟨⟨hupheld.run hrun, ?_⟩, fun name => Books.link_run id hrun (hfounding.link name)⟩
  rw [hupheld.drift_run hrun, hfounding.drift]
  have hsame : imported.books.totals = imported.dgp.totals := rfl
  rw [hsame]
  funext column
  cases column <;> simp [Totals.columns, Drift.of, htotals]

/-! ## The percentages -/

theorem createObject_percents {name : AccountName} (account : Nat → Account)
    (auth : AccountAuthority) : Always (db.createObject name account auth) (KeepsPercents db) :=
  .ensure fun _ => .pure (.beside rfl rfl)

theorem createProtocolAccounts_percents :
    Always db.createProtocolAccounts (KeepsPercents db) :=
  .chain (createObject_percents _ _) fun _ => .chain (createObject_percents _ _) fun _ =>
    .chain (createObject_percents _ _) fun _ => createObject_percents _ _

theorem createInitMiners_percents {key : PublicKey} {is : List Nat} :
    Always (Outcome.forEach (createInitMiner key) db is) (KeepsPercents db) :=
  .forEach (.refl db) fun _ _ _ h => (createObject_percents _ _).bind fun _ hcreated =>
    .pure ((h.trans hcreated).trans (.beside rfl rfl))

theorem importSnapshot_percents (snapshot : List AccountSnapshot) :
    Always (db.importSnapshot snapshot) (KeepsPercents db) := by
  refine .skip fun price => ?_
  have hloop : Always (Outcome.forEach (importAccount price) (db, 0, 0, 0) snapshot) fun result =>
      KeepsPercents db result.1 := by
    refine .forEach (.refl db) fun state line _ h => .skip fun shares => ?_
    refine (createObject_percents _ _).bind fun created hcreated => ?_
    exact .skip fun _ => .skip fun _ => .skip fun _ => .pure (h.trans hcreated)
  refine hloop.bind fun imported himported => .skip fun total => ?_
  exact (modifyAccount_percents _ _).mono fun _ h => himported.trans (h.after rfl rfl)

/-- The ledger balances at genesis. -/
theorem initGenesis_sound {args : GenesisArgs} (hfair : args.Fair) :
    Always (initGenesis args) fun db => (db.books.Upheld ∧ db.books.drift = 0) ∧
      (∀ name, db.books.link name = none) ∧ db.Percents := by
  intro db h
  simp only [initGenesis, bind_eq_ok] at h
  obtain ⟨objects, hobjects, protocol, hprotocol, miners, hminers, regent, hregent, imported,
    himported, hreset⟩ := h
  obtain ⟨hobjects, hpercents, hfund, hshares⟩ := genesisObjects_founding _ hobjects
  have hpercents := createProtocolAccounts_percents _ hprotocol hpercents
  have hpercents := createInitMiners_percents _ hminers hpercents
  have hpercents := createObject_percents _ _ _ hregent hpercents
  have hpercents := importSnapshot_percents _ _ himported hpercents
  obtain ⟨hprotocol, hprotocolGrows, hnull⟩ := createProtocolAccounts_founding hobjects hprotocol
  obtain ⟨hminers, hminersGrows, a, ha, hbalance⟩ := createInitMiners_founding hprotocol hminers
  obtain ⟨hregent, hregentGrows, -⟩ := createObject_founding hminers hregent (fun _ => rfl) le_rfl
    le_rfl fun hname => absurd hname (by decide)
  rw [add_zero] at hregent
  rw [add_zero, sub_add_sub_cancel', sub_self] at hregent
  have hgrows := (hprotocolGrows.trans hminersGrows).trans hregentGrows
  obtain ⟨null, hnull⟩ := Option.isSome_iff_exists.mp hnull
  have hpresent : (regent.accounts.find? blurtNullAccount).isSome := by
    rw [hregentGrows.stays _ _ (hminersGrows.stays _ _ hnull)]
    rfl
  have hfresh : regent.dgp.totals = objects.dgp.totals := hgrows.totals
  obtain ⟨⟨hupheld, hdrift⟩, hlinks⟩ := importSnapshot_sound hfair hregent
    ⟨(congrArg Totals.totalVestingFundBlurt hfresh).trans hfund,
      (congrArg Totals.totalVestingShares hfresh).trans hshares⟩ hpresent
    ⟨a, hregentGrows.stays _ _ ha, hbalance⟩ himported
  have hsame : db.books = imported.books := resetVirtualScheduleTime_unbooked db hreset
  rw [hsame]
  exact ⟨⟨hupheld, hdrift⟩, hlinks, resetVirtualScheduleTime_percents db hreset hpercents⟩

end Database

end Ledger

end Blurt
