import Blurt.Ledger.Conservation
import Blurt.Ledger.ReachableBooks

/-! # The supply invariants over a transaction

What `validate_invariants` adds up over the database, and that no transaction changes
whether the sums agree with the totals. The check of the votes of each witness, which comes
first there, is not one of the sums.
-/

namespace Blurt

namespace Ledger

open Outcome

/-- What an account adds to `total_vsf_votes`. -/
def Account.vsfVotes (a : Account) : Int :=
  if a.proxy = blurtProxyToSelfAccount then a.witnessVoteWeight
  else a.proxiedVsfVotes (Fin.last (blurtMaxProxyRecursionDepth - 1))

namespace Database

variable {db db' : Database} {host : Host} {trx : SignedTransaction}

/-! ## The sums -/

/-- `total_supply` -/
def totalSupply (db : Database) : Int :=
  (db.accounts.sum fun _ a => a.balance + a.savingsBalance + a.rewardBlurtBalance) +
    (db.escrows.sum fun _ e => e.blurtBalance.amount + e.pendingFee.amount) +
    (db.savingsWithdraws.sum fun _ w => w.amount.amount) +
    (db.rewardFunds.sum fun _ fund => fund.rewardBalance) +
    (db.dgp.totalVestingFundBlurt + db.dgp.totalRewardFundBlurt + db.dgp.pendingRewardedVestingBlurt)

/-- `total_vesting` -/
def totalVesting (db : Database) : Int :=
  db.accounts.sum fun _ a => a.vestingShares + a.rewardVestingBalance

/-- `total_vsf_votes` -/
def totalVsfVotes (db : Database) : Int := db.accounts.sum fun _ a => a.vsfVotes

/-- `pending_vesting_steem` -/
def pendingVestingSteem (db : Database) : Int := db.accounts.sum fun _ a => a.rewardVestingBlurt

/-- The sums of `validate_invariants` can be taken, since what they add is in BLURT, and its
four equalities hold. -/
structure ValidateInvariants (db : Database) : Prop where
  escrows : ∀ row ∈ db.escrows.rows,
    row.2.blurtBalance.symbol = .blurt ∧ row.2.pendingFee.symbol = .blurt
  savingsWithdraws : ∀ row ∈ db.savingsWithdraws.rows, row.2.amount.symbol = .blurt
  supply : db.dgp.currentSupply = db.totalSupply
  vesting : db.dgp.totalVestingShares + db.dgp.pendingRewardedVestingShares = db.totalVesting
  votes : db.dgp.totalVestingShares = db.totalVsfVotes
  pending : db.dgp.pendingRewardedVestingBlurt = db.pendingVestingSteem

theorem validateInvariants_iff : db.ValidateInvariants ↔
    (∀ row ∈ db.escrows.rows,
        row.2.blurtBalance.symbol = .blurt ∧ row.2.pendingFee.symbol = .blurt) ∧
      (∀ row ∈ db.savingsWithdraws.rows, row.2.amount.symbol = .blurt) ∧
      db.dgp.currentSupply = db.totalSupply ∧
      db.dgp.totalVestingShares + db.dgp.pendingRewardedVestingShares = db.totalVesting ∧
      db.dgp.totalVestingShares = db.totalVsfVotes ∧
      db.dgp.pendingRewardedVestingBlurt = db.pendingVestingSteem :=
  ⟨fun h => ⟨h.escrows, h.savingsWithdraws, h.supply, h.vesting, h.votes, h.pending⟩,
    fun ⟨escrows, savings, supply, vesting, votes, pending⟩ =>
      ⟨escrows, savings, supply, vesting, votes, pending⟩⟩

instance (db : Database) : Decidable db.ValidateInvariants :=
  decidable_of_iff _ validateInvariants_iff.symm

/-! ## The sums in the books -/

theorem drift_money : db.books.drift .money = db.totalSupply - db.dgp.currentSupply := by
  have hheld : db.books.held = db.escrows.sum (fun _ e => e.blurtBalance.amount + e.pendingFee.amount) +
      db.savingsWithdraws.sum (fun _ w => w.amount.amount) +
        db.rewardFunds.sum fun _ fund => fund.rewardBalance := by
    simp only [Books.held, books, Table.sum_view]
    rfl
  have hholders : db.books.holders.sum (fun _ h => h.columns .money) =
      db.accounts.sum fun _ a => a.balance + a.savingsBalance + a.rewardBlurtBalance := by
    simp only [books, Table.sum_view]
    rfl
  rw [Books.drift, hholders, hheld]
  simp only [Drift.of, Totals.columns, totalSupply, books, GlobalProperties.totals]
  omega

theorem drift_shares : db.books.drift .shares =
    db.totalVesting - (db.dgp.totalVestingShares + db.dgp.pendingRewardedVestingShares) := by
  have hholders : db.books.holders.sum (fun _ h => h.columns .shares) = db.totalVesting := by
    simp only [books, Table.sum_view]
    rfl
  rw [Books.drift, hholders]
  exact congrArg (· - _) (add_zero _)

theorem drift_votes : db.books.drift .votes = db.totalVsfVotes - db.dgp.totalVestingShares := by
  have hholders : db.books.holders.sum (fun _ h => h.columns .votes) = db.totalVsfVotes := by
    simp only [books, Table.sum_view]
    rfl
  rw [Books.drift, hholders]
  exact congrArg (· - _) (add_zero _)

theorem drift_rewards : db.books.drift .rewards =
    db.pendingVestingSteem - db.dgp.pendingRewardedVestingBlurt := by
  have hholders : db.books.holders.sum (fun _ h => h.columns .rewards) = db.pendingVestingSteem := by
    simp only [books, Table.sum_view]
    rfl
  rw [Books.drift, hholders]
  exact congrArg (· - _) (add_zero _)

/-- Coherent books whose columns stay satisfy the invariants as they did. -/
theorem ValidateInvariants.of_drift (h : db.ValidateInvariants)
    (hcoherent : db'.books.Coherent) (hdrift : db'.books.drift = db.books.drift) :
    db'.ValidateInvariants := by
  have hmoney := congrFun hdrift .money
  have hshares := congrFun hdrift .shares
  have hvotes := congrFun hdrift .votes
  have hrewards := congrFun hdrift .rewards
  rw [drift_money, drift_money] at hmoney
  rw [drift_shares, drift_shares] at hshares
  rw [drift_votes, drift_votes] at hvotes
  rw [drift_rewards, drift_rewards] at hrewards
  obtain ⟨-, -, hsupply, hvesting, hvsf, hpending⟩ := h
  refine ⟨fun row hrow => ?_, fun row hrow => ?_, ?_, ?_, ?_, ?_⟩
  · obtain ⟨hbalance, hfee, -⟩ := hcoherent.escrows row.1 row.2
      (by rw [find?_escrows]; exact Store.mem_rows_iff.mp hrow)
    exact ⟨hbalance, hfee⟩
  · exact hcoherent.savings row.1 row.2
      (by rw [find?_savingsWithdraws]; exact Store.mem_rows_iff.mp hrow)
  all_goals omega

/-! ## Transactions -/

/-- No chain of proxies returns to where it starts while votes follow it, and no escrow that
both parties have approved still owes its fee. -/
structure Settleable (db : Database) : Prop where
  proxies : Links.AcyclicWithin blurtMaxProxyRecursionDepth db.books.link
  escrows : ∀ key e, db.escrows.find? key = some e → e.isApproved → e.pendingFee.amount = 0

/-- The states of a chain are such. -/
theorem orderly_settleable {may : AccountName → Prop} (h : OrderlyReachable host may db) :
    db.Settleable := by
  have hsound := (orderly_settled h).sound
  refine ⟨hsound.proxies.acyclic.within _, fun key e he => ?_⟩
  exact (hsound.papers.escrows key e (by rwa [find?_escrows])).settled

theorem ValidateInvariants.coherent (h : db.ValidateInvariants) (hsettleable : db.Settleable) :
    db.books.Coherent := by
  refine ⟨hsettleable.proxies, fun key e he => ?_, fun key w hw => ?_⟩
  · rw [find?_escrows] at he
    obtain ⟨hbalance, hfee⟩ := h.escrows (key, e) (Store.mem_rows_iff.mpr he)
    exact ⟨hbalance, hfee, hsettleable.escrows key e he⟩
  · rw [find?_savingsWithdraws] at hw
    exact h.savingsWithdraws (key, w) (Store.mem_rows_iff.mpr hw)

/-- The invariants hold after a transaction if they hold before it, and the state is settleable
as before. -/
theorem applyTransaction_validateInvariants (hinvariants : db.ValidateInvariants)
    (hsettleable : db.Settleable) (hvalid : ∀ op ∈ trx.operations, op.validate host.rules = .ok ())
    (h : applyTransaction host db trx = .ok db') : db'.ValidateInvariants ∧ db'.Settleable := by
  obtain ⟨hdrift, hcoherent⟩ :=
    applyTransaction_moves hvalid h (hinvariants.coherent hsettleable)
  rw [add_zero] at hdrift
  refine ⟨hinvariants.of_drift hcoherent hdrift, hcoherent.acyclic, fun key e he => ?_⟩
  exact (hcoherent.escrows key e (by rwa [find?_escrows])).2.2

end Database

namespace Sample

open Database

/-- alice opens an escrow, saves, takes her votes back and powers up. -/
def busyTransaction : SignedTransaction where
  operations := [
    .escrowTransfer
      { fromAccount := "alice", toAccount := "initblurt1", agent := blurtInitMinerName, escrowId := 0
        blurtAmount := { amount := 100, symbol := .blurt }, fee := { amount := 5, symbol := .blurt }
        ratificationDeadline := blurtGenesisTime + 1000
        escrowExpiration := blurtGenesisTime + 2000, jsonMeta := "" },
    .transferToSavings
      { fromAccount := "alice", toAccount := "alice"
        amount := { amount := 1000, symbol := .blurt }, memo := "" },
    .accountWitnessProxy { account := "alice", proxy := "" },
    .transferToVesting
      { fromAccount := "alice", toAccount := "alice", amount := { amount := 2000, symbol := .blurt } }]
  packSize := 300

/-- The invariants hold after the first block and after the transaction of alice. -/
theorem busyTransaction_validateInvariants : ∃ db next : Database,
    applyTransaction plainHost db busyTransaction = .ok next ∧
      db.dgp.totalVestingShares < next.dgp.totalVestingShares ∧ next.ValidateInvariants := by
  have hruns : loanOutcome.toOption.any fun db => db.ValidateInvariants ∧
      (applyTransaction plainHost db busyTransaction).toOption.any fun next =>
        db.dgp.totalVestingShares < next.dgp.totalVestingShares := by
    decide +kernel
  obtain ⟨db, hdb, hfacts⟩ := (Option.any_eq_true _ _).mp hruns
  obtain ⟨hinvariants, hfacts⟩ := of_decide_eq_true hfacts
  obtain ⟨next, hnext, hgrows⟩ := (Option.any_eq_true _ _).mp hfacts
  obtain ⟨start, hstart, happly⟩ := bind_eq_ok.mp (eq_ok_of_toOption hdb)
  have hreachable : OrderlyReachable plainHost notRegent db :=
    .block (.genesis loanChain_fair hstart) (loanBlock_orderly start) happly
  have hvalid : ∀ op ∈ busyTransaction.operations, op.validate plainHost.rules = .ok () := by
    decide +kernel
  have hnext := eq_ok_of_toOption hnext
  exact ⟨db, next, hnext, of_decide_eq_true hgrows,
    (applyTransaction_validateInvariants hinvariants (orderly_settleable hreachable) hvalid
      hnext).1⟩

/-- alice and a witness are proxies of each other. -/
def loopedProxies (db : Database) : Database :=
  { db with
    accounts := (db.accounts.set "alice"
      { id := 26, balance := 1000000, vestingShares := 1000000000, proxy := "initblurt1"
        proxiedVsfVotes := fun depth => if depth = 3 then 1000000000 else 0 }).set "initblurt1"
          { id := 6, proxy := "alice" } }

/-- An escrow of alice that is approved and still owes its fee. -/
def owingEscrow (db : Database) : Database :=
  { db with
    escrows := db.escrows.set ("alice", 0)
      { id := 0
        toAccount := "initblurt1"
        agent := blurtInitMinerName
        ratificationDeadline := blurtGenesisTime
        escrowExpiration := blurtGenesisTime + 1000
        blurtBalance := { amount := 10, symbol := .blurt }
        pendingFee := { amount := 5, symbol := .blurt }
        toApproved := true
        agentApproved := true }
    dgp := { db.dgp with currentSupply := db.dgp.currentSupply + 15 } }

def clearProxy : SignedTransaction where
  operations := [.accountWitnessProxy { account := "alice", proxy := "" }]
  packSize := 100

def releaseEscrow : SignedTransaction where
  operations := [
    .escrowRelease
      { fromAccount := "alice", toAccount := "initblurt1", agent := blurtInitMinerName
        who := "alice", receiver := "initblurt1", escrowId := 0
        blurtAmount := { amount := 10, symbol := .blurt } }]
  packSize := 100

/-- In a loop of proxies the votes of alice come back to her while she takes them, and the fee
of an approved escrow goes with the escrow. -/
theorem loopedProxies_validateInvariants : ∃ start proxied owed : Database,
    initGenesis loanChain = .ok start ∧
      (∀ op ∈ clearProxy.operations ++ releaseEscrow.operations,
        op.validate plainHost.rules = .ok ()) ∧
      ((loopedProxies start).ValidateInvariants ∧
        applyTransaction plainHost (loopedProxies start) clearProxy = .ok proxied ∧
        ¬ proxied.ValidateInvariants) ∧
      (owingEscrow start).ValidateInvariants ∧
        applyTransaction plainHost (owingEscrow start) releaseEscrow = .ok owed ∧
        ¬ owed.ValidateInvariants := by
  have hruns : (initGenesis loanChain).toOption.any fun start =>
      (loopedProxies start).ValidateInvariants ∧ (owingEscrow start).ValidateInvariants ∧
        ((applyTransaction plainHost (loopedProxies start) clearProxy).toOption.any fun proxied =>
          ¬ proxied.ValidateInvariants) ∧
        (applyTransaction plainHost (owingEscrow start) releaseEscrow).toOption.any fun owed =>
          ¬ owed.ValidateInvariants := by
    decide +kernel
  obtain ⟨start, hstart, hfacts⟩ := (Option.any_eq_true _ _).mp hruns
  obtain ⟨hlooped, howing, hproxied, howed⟩ := of_decide_eq_true hfacts
  obtain ⟨proxied, hclear, hbroken⟩ := (Option.any_eq_true _ _).mp hproxied
  obtain ⟨owed, hrelease, hlost⟩ := (Option.any_eq_true _ _).mp howed
  exact ⟨start, proxied, owed, eq_ok_of_toOption hstart, by decide +kernel,
    ⟨hlooped, eq_ok_of_toOption hclear, of_decide_eq_true hbroken⟩, howing,
    eq_ok_of_toOption hrelease, of_decide_eq_true hlost⟩

end Sample

end Ledger

end Blurt
