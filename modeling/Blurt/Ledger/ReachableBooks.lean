import Blurt.Ledger.GenesisBooks

/-! # The books of a chain

What the ledger keeps in every state that a chain reaches, block after block.
-/

namespace Blurt

namespace Ledger

open Outcome

/-- What is left of a power-down. -/
def PowerDown.left (p : PowerDown) : Int :=
  if p.nextVestingWithdrawal = maximumTime then 0 else p.toWithdraw - p.withdrawn

theorem PowerDown.Within.left_le {p : PowerDown} {available : Int} (h : p.Within available) :
    p.left ≤ available := by
  unfold left
  split
  · exact h.nonneg
  · rename_i hdue
    exact (h.covered hdue).2.2.2.2

namespace Books

/-- The BLURT that accounts hold in liquid funds. -/
def liquid (b : Books) : Int :=
  b.holders.sum fun _ h => h.funds .balance + h.funds .savingsBalance + h.funds .rewardBlurtBalance

/-- The BLURT behind the rewards in shares that accounts have not claimed. -/
def unclaimed (b : Books) : Int := b.holders.sum fun _ h => h.funds .rewardVestingBlurt

end Books

namespace Database

variable {host : Host} {may : AccountName → Prop} {db db' : Database}

/-- The states of the ledger after orderly blocks on a fair genesis. -/
inductive OrderlyReachable (host : Host) (may : AccountName → Prop) :
    Database → Prop
  | genesis {args : GenesisArgs} {db : Database} (hfair : args.Fair)
      (hgenesis : initGenesis args = .ok db) : OrderlyReachable host may db
  | block {db db' : Database} {b : LedgerBlock}
      (hreachable : OrderlyReachable host may db) (horderly : b.Orderly may db)
      (happly : applyBlock host db b = .ok db') : OrderlyReachable host may db'

/-- What every block keeps of the ledger. -/
structure Settled (may : AccountName → Prop) (db : Database) : Prop where
  sound : db.books.Sound
  percents : db.Percents
  shares : db.books.drift .shares = 0
  money : db.books.drift .money + db.books.drift .rewards ≤ 0
  regent : ¬ may blurtRegentAccount → db.books.link blurtRegentAccount = none
  votes : ¬ may blurtRegentAccount → db.books.drift .votes = 0

theorem initGenesis_settled {args : GenesisArgs} (hfair : args.Fair) :
    Always (initGenesis args) (Settled may) := by
  intro db h
  obtain ⟨⟨hupheld, hdrift⟩, hlinks, hpercents⟩ := initGenesis_sound hfair db h
  exact
    { sound := ⟨hupheld, congrFun hdrift _⟩
      percents := hpercents
      shares := congrFun hdrift _
      money := by
        rw [hdrift]
        decide
      regent := fun _ => hlinks _
      votes := fun _ => congrFun hdrift _ }

theorem Settled.applyBlock {b : LedgerBlock} (h : Settled may db) (horderly : b.Orderly may db) :
    Always (applyBlock host db b) (Settled may) := by
  intro db' happly
  obtain ⟨hpercents, paid, votes, hsettles⟩ :=
    applyBlock_settles h.sound h.percents horderly db' happly
  obtain ⟨rewards, hrun⟩ := hsettles.run
  have hdrift := h.sound.drift_run hrun
  exact
    { sound := h.sound.run hrun rfl
      percents := hpercents
      shares := by
        rw [hdrift, Pi.add_apply, h.shares]
        rfl
      money := by
        have hmoney := h.money
        have hnothing := hsettles.nothing
        rw [hdrift, Pi.add_apply, Pi.add_apply]
        change db.books.drift .money + (paid - rewards) + (db.books.drift .rewards + rewards) ≤ 0
        omega
      regent := fun hmay => Books.link_run hmay hrun (h.regent hmay)
      votes := fun hmay => by
        rw [hdrift, Pi.add_apply, h.votes hmay, zero_add]
        exact hsettles.counted hmay (h.regent hmay) }

theorem orderly_settled (h : OrderlyReachable host may db) : Settled may db := by
  induction h with
  | genesis hfair hgenesis => exact initGenesis_settled hfair _ hgenesis
  | block _ horderly happly ih => exact ih.applyBlock horderly _ happly

/-! ## What the totals say -/

/-- All BLURT that is held, paid or promised anywhere is in the supply. -/
theorem orderly_supply (h : OrderlyReachable host may db) :
    db.books.liquid + db.books.unclaimed + db.books.held + db.dgp.totalVestingFundBlurt +
      db.dgp.totalRewardFundBlurt ≤ db.dgp.currentSupply := by
  have hmoney := (orderly_settled h).money
  change (db.books.liquid + db.books.held - (db.dgp.currentSupply - db.dgp.totalVestingFundBlurt -
    db.dgp.totalRewardFundBlurt - db.dgp.pendingRewardedVestingBlurt)) +
      (db.books.unclaimed + 0 - db.dgp.pendingRewardedVestingBlurt) ≤ 0 at hmoney
  omega

/-- The vesting shares of all accounts, and the shares that they may still claim, are what
the totals say. -/
theorem orderly_shares (h : OrderlyReachable host may db) :
    (db.books.holders.sum fun _ h => h.funds .vestingShares) = db.dgp.totalVestingShares ∧
      (db.books.holders.sum fun _ h => h.funds .rewardVestingBalance) =
        db.dgp.pendingRewardedVestingShares := by
  have hsettled := orderly_settled h
  have hvesting := hsettled.sound.sum_shares
  have hshares := hsettled.shares
  change (db.books.holders.sum fun _ h => h.funds .vestingShares + h.funds .rewardVestingBalance) + 0 -
    (db.dgp.totalVestingShares + db.dgp.pendingRewardedVestingShares) = 0 at hshares
  rw [Table.sum_add, hvesting] at hshares
  change _ + (db.books.holders.sum fun _ h => h.funds .rewardVestingBalance) + 0 - _ = 0 at hshares
  refine ⟨hvesting, ?_⟩
  change db.dgp.totalVestingShares + _ + 0 - _ = 0 at hshares
  omega

/-- Where the regent may not set a proxy, the votes that `validate_invariants` counts are the
vesting shares of all accounts. -/
theorem orderly_votes (hregent : ¬ may blurtRegentAccount)
    (h : OrderlyReachable host may db) :
    (db.books.holders.sum fun _ h => h.countedVotes) = db.dgp.totalVestingShares := by
  have hvotes := (orderly_settled h).votes hregent
  change (db.books.holders.sum fun _ h => h.countedVotes) + 0 - db.dgp.totalVestingShares = 0 at hvotes
  omega

/-! ## What an account can rely on -/

/-- No account, escrow or withdrawal from savings is in debt. -/
theorem orderly_solvent (h : OrderlyReachable host may db) :
    (∀ name a, db.accounts.find? name = some a → 0 ≤ a.balance ∧ 0 ≤ a.savingsBalance ∧
        0 ≤ a.rewardBlurtBalance ∧ 0 ≤ a.rewardVestingBlurt ∧ 0 ≤ a.rewardVestingBalance) ∧
      (∀ key e, db.escrows.find? key = some e →
        0 ≤ e.blurtBalance.amount ∧ 0 ≤ e.pendingFee.amount) ∧
      ∀ key w, db.savingsWithdraws.find? key = some w → 0 ≤ w.amount.amount := by
  have hsound := (orderly_settled h).sound
  refine ⟨fun name a ha => ?_, fun key e he => ?_, fun key w hw => ?_⟩
  · have hh := find?_holders_some ha
    have hliquid := hsound.solvent name _ hh
    obtain ⟨hblurt, hshares, -⟩ := hsound.rewards name _ hh
    exact ⟨hliquid .balance rfl, hliquid .savingsBalance rfl, hliquid .rewardBlurtBalance rfl, hblurt,
      hshares⟩
  · have hpaper := hsound.papers.escrows key e (by rwa [find?_escrows])
    exact ⟨hpaper.balance.2, hpaper.fee.2⟩
  · exact (hsound.papers.savings key w (by rwa [find?_savingsWithdraws])).2

/-- An account has lent and is lent what the delegations say, and its shares cover what it
has lent together with what is left of its power-down. -/
theorem orderly_loans (h : OrderlyReachable host may db) :
    (∀ name a, db.accounts.find? name = some a →
      a.delegatedVestingShares = db.books.lent name + db.books.returning name ∧
        a.receivedVestingShares = db.books.borrowed name ∧
        a.delegatedVestingShares + a.holder.powerDown.left ≤ a.vestingShares) ∧
      ∀ delegator delegatee shares,
        db.books.delegations.find? (delegator, delegatee) = some shares →
          0 ≤ shares ∧ delegator ≠ delegatee ∧ (db.accounts.find? delegator).isSome ∧
            (db.accounts.find? delegatee).isSome := by
  have hlending := (orderly_settled h).sound.lending
  refine ⟨fun name a ha => ?_, fun delegator delegatee shares hshares => ?_⟩
  · have hh := find?_holders_some ha
    refine ⟨hlending.delegated name _ hh, hlending.received name _ hh, ?_⟩
    have hleft := (hlending.within name _ hh).left_le
    change _ ≤ a.vestingShares - a.delegatedVestingShares at hleft
    omega
  · obtain ⟨hnonneg, hother, hfrom, hto⟩ := hlending.loans delegator delegatee shares hshares
    rw [find?_holders, Option.isSome_map] at hfrom hto
    exact ⟨hnonneg, hother, hfrom, hto⟩

/-- A chain of proxies leads through accounts, without a loop, to one that has no proxy. -/
theorem orderly_proxies (h : OrderlyReachable host may db) :
    (∀ name proxy, db.books.link name = some proxy → (db.accounts.find? proxy).isSome) ∧
      (∀ name n, Links.climb db.books.link (n + 1) name ≠ some name) ∧
      ∀ name, ∃ n last, Links.climb db.books.link n name = some last ∧
        db.books.link last = none := by
  have hproxies := (orderly_settled h).sound.proxies
  refine ⟨fun name proxy hlink => ?_, hproxies.acyclic, fun name => ?_⟩
  · have hexists := hproxies.exist name proxy hlink
    rwa [find?_holders, Option.isSome_map] at hexists
  · refine hproxies.acyclic.exists_root db.books.holders.keys (fun name proxy hlink => ?_) name
    exact Finmap.mem_keys.mpr (Finmap.lookup_isSome.mp (hproxies.exist name proxy hlink))

/-! ## Transactions -/

/-- No transaction adds to what is held, or takes from it without a trace. -/
theorem orderly_transactions (h : OrderlyReachable host may db)
    (hnumber : db.dgp.headBlockNumber + 1 ∉ sharedDbMerkle) (ts : List BlockTransaction) :
    Always (Outcome.forEach (acceptTransaction host) db ts) fun db' =>
      db'.books.drift = db.books.drift := by
  intro db' hrun
  have hsound := (orderly_settled h).sound
  have henters : Enters (fun _ => True) db 0 db' :=
    acceptTransactions_enters hsound (fun _ _ _ _ => trivial)
      (fun hexcused => absurd hexcused hnumber) _ hrun
  rw [hsound.drift_run henters, add_zero]

/-- What the null account has is burned: no transaction acts for it. -/
theorem orderly_null (h : OrderlyReachable host may db)
    (hnumber : db.dgp.headBlockNumber + 1 ∉ sharedDbMerkle) (ts : List BlockTransaction) :
    Always (Outcome.forEach (acceptTransaction host) db ts) fun _ =>
      ∀ t ∈ ts, ¬ t.ActsFor blurtNullAccount := by
  have hstart := (orderly_settled h).sound
  clear h
  induction ts generalizing db with
  | nil => exact fun _ _ t ht => absurd ht List.not_mem_nil
  | cons first rest ih =>
      intro db' hrun t ht
      obtain ⟨next, hnext, hrest⟩ := forEach_cons_eq_ok.mp hrun
      have hexcused : db.dgp.headBlockNumber + 1 ∈ sharedDbMerkle →
          ¬ first.ActsFor blurtNullAccount := fun hexcused => absurd hexcused hnumber
      have henters : Enters (fun _ => True) db 0 next :=
        acceptTransaction_enters hstart hexcused (fun _ _ => trivial) hnext
      rcases List.mem_cons.mp ht with rfl | ht
      · simp only [acceptTransaction, bind_eq_ok] at hnext
        obtain ⟨⟨⟩, -, ⟨⟩, hsigned, -⟩ := hnext
        exact checkSignatures_spares_null hstart.null.papers hexcused hsigned
      · have hkept := transactions_clock [first] next (forEach_cons_eq_ok.mpr ⟨next, hnext, rfl⟩)
        have hhead : next.dgp.headBlockNumber = db.dgp.headBlockNumber := congrArg Prod.snd hkept
        exact ih (hhead ▸ hnumber) (hstart.run henters rfl) db' hrest t ht

end Database

namespace Sample

open Database

/-- A chain on which alice has BLURT and vesting shares. -/
def loanChain : GenesisArgs :=
  let key : Authority := singleKey 2
  { freshChain with
    snapshot := [{ name := "alice", owner := key, active := key, posting := key, memo := 2,
                   balance := 1000000, power := 1000000 }] }

/-- alice powers up, lets the first initial witness vote for her and lends it shares. -/
def loanTransaction : BlockTransaction where
  trx :=
    { operations := [
        .transferToVesting
          { fromAccount := "alice", toAccount := "alice"
            amount := { amount := 400000, symbol := .blurt } },
        .accountWitnessProxy { account := "alice", proxy := blurtInitMinerName },
        .delegateVestingShares
          { delegator := "alice", delegatee := blurtInitMinerName
            vestingShares := { amount := 300000000, symbol := .vests } }]
      packSize := 200 }
  sigs := [2]

/-- A block of the first initial witness. -/
def loanBlock (timestamp : Nat) (transactions : List BlockTransaction) : LedgerBlock where
  timestamp := timestamp
  witness := blurtInitMinerName
  transactions := transactions
  packSize := 400

/-- Every account but the regent may set a proxy. -/
def notRegent (name : AccountName) : Prop := name ≠ blurtRegentAccount

theorem loanChain_fair : loanChain.Fair where
  nonneg := by decide
  covered := by decide

theorem loanBlock_orderly (db : Database) :
    (loanBlock (blurtGenesisTime + 3) [loanTransaction]).Orderly notRegent db where
  time := by decide
  proxies t ht o ho := by
    obtain rfl := List.mem_singleton.mp ht
    simp only [loanTransaction, List.mem_cons, reduceCtorEq, Operation.accountWitnessProxy.injEq,
      List.not_mem_nil, or_false, false_or] at ho
    subst ho
    exact show ("alice" : AccountName) ≠ blurtRegentAccount by decide
  excused _ t ht hacts := by
    obtain rfl := List.mem_singleton.mp ht
    obtain ⟨op, hop, hnull⟩ := hacts
    have hothers : ∀ op ∈ loanTransaction.trx.operations, blurtNullAccount ∉ op.required := by decide
    exact hothers op hop hnull

/-- The database after the first block. -/
def loanOutcome : Except String Database := do
  let db ← initGenesis loanChain
  applyBlock plainHost db (loanBlock (blurtGenesisTime + 3) [loanTransaction])

/-- alice takes her shares back. -/
def returnTransaction : BlockTransaction where
  trx :=
    { operations := [
        .delegateVestingShares
          { delegator := "alice", delegatee := blurtInitMinerName
            vestingShares := { amount := 0, symbol := .vests } }]
      packSize := 100 }
  sigs := [2]

/-- The state of the chain after its first block, in which another transaction is accepted. -/
theorem loanChain_reaches : ∃ db next a, OrderlyReachable plainHost notRegent db ∧
    (db.accounts.find? "alice" = some a ∧ a.delegatedVestingShares = 300000000 ∧
      a.proxy = blurtInitMinerName) ∧ db.dgp.headBlockNumber + 1 ∉ sharedDbMerkle ∧
      Outcome.forEach (acceptTransaction plainHost) db [returnTransaction] = .ok next := by
  have hruns : loanOutcome.toOption.any fun db => db.dgp.headBlockNumber + 1 ∉ sharedDbMerkle ∧
      (Outcome.forEach (acceptTransaction plainHost) db [returnTransaction]).toOption.isSome ∧
        (db.accounts.find? "alice").any fun a => a.delegatedVestingShares = 300000000 ∧
          a.proxy = blurtInitMinerName := by
    decide +kernel
  rw [Option.any_eq_true] at hruns
  obtain ⟨db', hrun, hfacts⟩ := hruns
  obtain ⟨hnumber, haccepted, hfacts⟩ := of_decide_eq_true hfacts
  obtain ⟨a, ha, hfacts⟩ := (Option.any_eq_true _ _).mp hfacts
  obtain ⟨next, hnext⟩ := Option.isSome_iff_exists.mp haccepted
  obtain ⟨db, hdb, happly⟩ := bind_eq_ok.mp (eq_ok_of_toOption hrun)
  exact ⟨db', next, a, .block (.genesis loanChain_fair hdb) (loanBlock_orderly db) happly,
    ⟨ha, of_decide_eq_true hfacts⟩, hnumber, eq_ok_of_toOption hnext⟩

theorem loanChain_supply : ∃ db : Database, OrderlyReachable plainHost notRegent db ∧
    db.books.liquid + db.books.unclaimed + db.books.held + db.dgp.totalVestingFundBlurt +
      db.dgp.totalRewardFundBlurt ≤ db.dgp.currentSupply := by
  obtain ⟨db, next, a, hdb, -⟩ := loanChain_reaches
  exact ⟨db, hdb, orderly_supply hdb⟩

theorem loanChain_shares : ∃ db : Database, OrderlyReachable plainHost notRegent db ∧
    (db.books.holders.sum fun _ h => h.funds .vestingShares) = db.dgp.totalVestingShares := by
  obtain ⟨db, next, a, hdb, -⟩ := loanChain_reaches
  exact ⟨db, hdb, (orderly_shares hdb).1⟩

theorem loanChain_votes : ∃ db : Database, OrderlyReachable plainHost notRegent db ∧
    (db.books.holders.sum fun _ h => h.countedVotes) = db.dgp.totalVestingShares := by
  obtain ⟨db, next, a, hdb, -⟩ := loanChain_reaches
  exact ⟨db, hdb, orderly_votes (fun hregent => hregent rfl) hdb⟩

theorem loanChain_solvent : ∃ (db : Database) (a : Account), db.accounts.find? "alice" = some a ∧
    0 ≤ a.balance ∧ 0 ≤ a.savingsBalance := by
  obtain ⟨db, next, a, hdb, ⟨ha, -⟩, -⟩ := loanChain_reaches
  obtain ⟨hbalance, hsavings, -⟩ := (orderly_solvent hdb).1 _ _ ha
  exact ⟨db, a, ha, hbalance, hsavings⟩

/-- The loan of alice is in the delegations. -/
theorem loanChain_loans : ∃ (db : Database) (a : Account), db.accounts.find? "alice" = some a ∧
    a.delegatedVestingShares = 300000000 ∧
      db.books.lent "alice" + db.books.returning "alice" = 300000000 ∧
      300000000 + a.holder.powerDown.left ≤ a.vestingShares := by
  obtain ⟨db, next, a, hdb, ⟨ha, hlent, -⟩, -⟩ := loanChain_reaches
  obtain ⟨hdelegated, -, hcovered⟩ := (orderly_loans hdb).1 _ _ ha
  exact ⟨db, a, ha, hlent, hdelegated.symm.trans hlent, hlent ▸ hcovered⟩

/-- The proxy of alice is an account. -/
theorem loanChain_proxies : ∃ db : Database, db.books.link "alice" = some blurtInitMinerName ∧
    (db.accounts.find? blurtInitMinerName).isSome := by
  obtain ⟨db, next, a, hdb, ⟨ha, -, hproxy⟩, -⟩ := loanChain_reaches
  have hlink : db.books.link "alice" = some blurtInitMinerName := by
    rw [Books.link_of_found (find?_holders_some ha)]
    simp [Account.holder, hproxy, blurtProxyToSelfAccount, blurtInitMinerName]
  exact ⟨db, hlink, (orderly_proxies hdb).1 _ _ hlink⟩

theorem loanChain_transactions : ∃ db next : Database,
    Outcome.forEach (acceptTransaction plainHost) db [returnTransaction] = .ok next ∧
      next.books.drift = db.books.drift := by
  obtain ⟨db, next, a, hdb, -, hnumber, hnext⟩ := loanChain_reaches
  exact ⟨db, next, hnext, orderly_transactions hdb hnumber _ _ hnext⟩

theorem loanChain_null : ∃ db next : Database,
    Outcome.forEach (acceptTransaction plainHost) db [returnTransaction] = .ok next ∧
      ∀ t ∈ [returnTransaction], ¬ t.ActsFor blurtNullAccount := by
  obtain ⟨db, next, a, hdb, -, hnumber, hnext⟩ := loanChain_reaches
  exact ⟨db, next, hnext, orderly_null hdb hnumber _ _ hnext⟩

end Sample

end Ledger

end Blurt
