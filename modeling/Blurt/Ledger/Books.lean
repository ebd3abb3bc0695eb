import Blurt.Foundation.Table
import Blurt.Ledger.Votes

/-! # The books of the ledger

The books are what the conservation laws of the ledger speak about: what every account
holds, what is held for it elsewhere, and the totals. Everything else in the database
(mana, names, texts, schedules) is invisible in them, and every change of the database is
one of a few entries.
-/

namespace Blurt

namespace Ledger

/-- The amounts that an account holds. -/
inductive Fund
  | balance
  | savingsBalance
  | rewardBlurtBalance
  | rewardVestingBalance
  | rewardVestingBlurt
  | vestingShares
  | delegatedVestingShares
  | receivedVestingShares
  deriving DecidableEq, Repr

/-- The state of a power-down. -/
structure PowerDown where
  vestingWithdrawRate : Int
  nextVestingWithdrawal : Nat
  toWithdraw : Int
  withdrawn : Int
  deriving DecidableEq, Repr

/-- What the books say of an account. -/
structure Holder where
  funds : Fund → Int
  powerDown : PowerDown
  proxy : AccountName
  proxiedVsfVotes : ProxiedVotes
  canVote : Bool

/-- The totals of `dynamic_global_property_object`. -/
structure Totals where
  currentSupply : Int
  totalVestingFundBlurt : Int
  totalVestingShares : Int
  totalRewardFundBlurt : Int
  pendingRewardedVestingShares : Int
  pendingRewardedVestingBlurt : Int
  regentInitVestingShares : Int
  regentVestingShares : Int
  deriving DecidableEq, Repr

structure Books where
  holders : Table AccountName Holder
  escrows : Table (AccountName × Nat) Escrow
  savingsWithdraws : Table (AccountName × Nat) SavingsWithdraw
  /-- The shares lent, under the delegator and the delegatee. -/
  delegations : Table (AccountName × AccountName) Int
  /-- The delegator and the shares of each delegation that is being returned. -/
  returns : Table Nat (AccountName × Int)
  nextReturn : Nat
  /-- The balances of the reward funds. -/
  rewardFunds : Table Nat Int
  /-- The votes of the witnesses. -/
  witnesses : Table AccountName Int
  witnessVotes : Table (AccountName × AccountName) Unit
  /-- Who may act for an account. -/
  authorities : Table AccountName AccountAuthority
  ownerHistory : Table Nat OwnerAuthorityHistory
  nextOwnerHistory : Nat
  totals : Totals

/-! ## What is seen of the database -/

def Account.funds (a : Account) : Fund → Int
  | .balance => a.balance
  | .savingsBalance => a.savingsBalance
  | .rewardBlurtBalance => a.rewardBlurtBalance
  | .rewardVestingBalance => a.rewardVestingBalance
  | .rewardVestingBlurt => a.rewardVestingBlurt
  | .vestingShares => a.vestingShares
  | .delegatedVestingShares => a.delegatedVestingShares
  | .receivedVestingShares => a.receivedVestingShares

def Account.powerDown (a : Account) : PowerDown :=
  { vestingWithdrawRate := a.vestingWithdrawRate
    nextVestingWithdrawal := a.nextVestingWithdrawal
    toWithdraw := a.toWithdraw
    withdrawn := a.withdrawn }

def Account.holder (a : Account) : Holder :=
  { funds := a.funds
    powerDown := a.powerDown
    proxy := a.proxy
    proxiedVsfVotes := a.proxiedVsfVotes
    canVote := a.canVote }

def GlobalProperties.totals (dgp : GlobalProperties) : Totals :=
  { currentSupply := dgp.currentSupply
    totalVestingFundBlurt := dgp.totalVestingFundBlurt
    totalVestingShares := dgp.totalVestingShares
    totalRewardFundBlurt := dgp.totalRewardFundBlurt
    pendingRewardedVestingShares := dgp.pendingRewardedVestingShares
    pendingRewardedVestingBlurt := dgp.pendingRewardedVestingBlurt
    regentInitVestingShares := dgp.regentInitVestingShares
    regentVestingShares := dgp.regentVestingShares }

def VestingDelegationExpiration.entry (e : VestingDelegationExpiration) : AccountName × Int :=
  (e.delegator, e.vestingShares)

def Database.books (db : Database) : Books :=
  { holders := db.accounts.view Account.holder
    escrows := db.escrows.view id
    savingsWithdraws := db.savingsWithdraws.view id
    delegations := db.delegations.view VestingDelegation.vestingShares
    returns := db.delegationExpirations.view VestingDelegationExpiration.entry
    nextReturn := db.nextIds.delegationExpiration
    rewardFunds := db.rewardFunds.view RewardFund.rewardBalance
    witnesses := db.witnesses.view Witness.votes
    witnessVotes := db.witnessVotes.view id
    authorities := db.authorities.view id
    ownerHistory := db.ownerHistory.view id
    nextOwnerHistory := db.nextIds.ownerHistory
    totals := db.dgp.totals }

/-! ## Entries -/

namespace Holder

/-- `amount` more of one fund. -/
def credit (fund : Fund) (amount : Int) (h : Holder) : Holder :=
  { h with funds := fun f => if f = fund then h.funds f + amount else h.funds f }

/-- The holder of an account that has just been created. -/
def opened : Holder := (Account.holder { id := 0 })

/-- `Account.addProxied`, without its check. -/
def addProxied (depth : Nat) (delta : VoteDelta) (h : Holder) : Holder :=
  { h with proxiedVsfVotes := fun i =>
      if depth ≤ i then h.proxiedVsfVotes i + delta (i - depth) else h.proxiedVsfVotes i }

/-- The shares of the holder, followed by the shares that are proxied to it. -/
def voteDelta (h : Holder) : VoteDelta
  | 0 => h.funds .vestingShares
  | depth + 1 =>
      if hdepth : depth < blurtMaxProxyRecursionDepth then h.proxiedVsfVotes ⟨depth, hdepth⟩ else 0

end Holder

namespace Totals

def addSupply (amount : Int) (t : Totals) : Totals :=
  { t with currentSupply := t.currentSupply + amount }

/-- The vesting fund and the vesting shares grow. -/
def addVesting (blurt shares : Int) (t : Totals) : Totals :=
  { t with
    totalVestingFundBlurt := t.totalVestingFundBlurt + blurt
    totalVestingShares := t.totalVestingShares + shares }

/-- The rewards in shares that are not claimed yet grow. -/
def addPending (blurt shares : Int) (t : Totals) : Totals :=
  { t with
    pendingRewardedVestingBlurt := t.pendingRewardedVestingBlurt + blurt
    pendingRewardedVestingShares := t.pendingRewardedVestingShares + shares }

end Totals

/-- The array of `adjust_proxied_witness_votes` for one amount. -/
def VoteDelta.single (amount : Int) : VoteDelta := fun i => if i = 0 then amount else 0

namespace Books

/-- A change of the row of one holder. -/
def adjust (b : Books) (name : AccountName) (f : Holder → Holder) : Books :=
  { b with holders := b.holders.adjust name f }

/-- `amount` more of one fund of an account. -/
def credit (b : Books) (name : AccountName) (fund : Fund) (amount : Int) : Books :=
  b.adjust name (Holder.credit fund amount)

def setPowerDown (b : Books) (name : AccountName) (powerDown : PowerDown) : Books :=
  b.adjust name fun h => { h with powerDown }

def setProxy (b : Books) (name proxy : AccountName) : Books :=
  b.adjust name fun h => { h with proxy }

/-- The end of the voting rights of an account. -/
def decline (b : Books) (name : AccountName) : Books :=
  b.adjust name fun h => { h with canVote := false, proxy := blurtProxyToSelfAccount }

def setAuthority (b : Books) (name : AccountName) (auth : AccountAuthority) : Books :=
  { b with authorities := b.authorities.set name auth }

/-- A past owner authority is kept. -/
def recordOwner (b : Books) (hist : OwnerAuthorityHistory) : Books :=
  { b with
    ownerHistory := b.ownerHistory.set b.nextOwnerHistory hist
    nextOwnerHistory := b.nextOwnerHistory + 1 }

def openAccount (b : Books) (name : AccountName) (auth : AccountAuthority) : Books :=
  { b.setAuthority name auth with holders := b.holders.set name .opened }

def setEscrow (b : Books) (key : AccountName × Nat) (e : Escrow) : Books :=
  { b with escrows := b.escrows.set key e }

def closeEscrow (b : Books) (key : AccountName × Nat) : Books :=
  { b with escrows := b.escrows.remove key }

def setSavingsWithdraw (b : Books) (key : AccountName × Nat) (w : SavingsWithdraw) : Books :=
  { b with savingsWithdraws := b.savingsWithdraws.set key w }

def closeSavingsWithdraw (b : Books) (key : AccountName × Nat) : Books :=
  { b with savingsWithdraws := b.savingsWithdraws.remove key }

def setDelegation (b : Books) (key : AccountName × AccountName) (shares : Int) : Books :=
  { b with delegations := b.delegations.set key shares }

def closeDelegation (b : Books) (key : AccountName × AccountName) : Books :=
  { b with delegations := b.delegations.remove key }

/-- The start of the return of `shares` to `delegator`. -/
def openReturn (b : Books) (delegator : AccountName) (shares : Int) : Books :=
  { b with returns := b.returns.set b.nextReturn (delegator, shares), nextReturn := b.nextReturn + 1 }

def closeReturn (b : Books) (id : Nat) : Books :=
  { b with returns := b.returns.remove id }

def creditRewardFund (b : Books) (id : Nat) (amount : Int) : Books :=
  { b with rewardFunds := b.rewardFunds.adjust id (· + amount) }

def setTotals (b : Books) (f : Totals → Totals) : Books :=
  { b with totals := f b.totals }

/-- The registration of a witness, if it is new. -/
def register (b : Books) (witness : AccountName) : Books :=
  { b with witnesses := b.witnesses.set witness ((b.witnesses.find? witness).getD 0) }

def castVote (b : Books) (account witness : AccountName) : Books :=
  { b with witnessVotes := b.witnessVotes.set (account, witness) () }

def retractVote (b : Books) (account witness : AccountName) : Books :=
  { b with witnessVotes := b.witnessVotes.remove (account, witness) }

/-- `amount` more votes for one witness. -/
def creditWitness (b : Books) (witness : AccountName) (amount : Int) : Books :=
  { b with witnesses := b.witnesses.adjust witness (· + amount) }

/-- `amount` more votes for each of the chosen witnesses. -/
def creditWitnesses (b : Books) (chosen : AccountName → Bool) (amount : Int) : Books :=
  { b with witnesses := b.witnesses.mapRows fun witness votes =>
      if chosen witness then votes + amount else votes }

/-- `amount` more votes for every witness that an account votes for. -/
def creditVoted (b : Books) (account : AccountName) (amount : Int) : Books :=
  b.creditWitnesses (fun witness => (b.witnessVotes.find? (account, witness)).isSome) amount

/-- The end of all votes of an account. -/
def clearVotes (b : Books) (account : AccountName) : Books :=
  { b with witnessVotes := b.witnessVotes.filterKeys fun key => key.1 ≠ account }

/-- The proxy of an account, or the empty name. -/
def proxyOf (b : Books) (name : AccountName) : AccountName :=
  ((b.holders.find? name).map Holder.proxy).getD blurtProxyToSelfAccount

/-- `adjust_proxied_witness_votes`, from the account that has `levels` links left. -/
def shiftVotes (b : Books) (name : AccountName) (delta : VoteDelta) : (levels : Nat) → Books
  | 0 =>
      if b.proxyOf name ≠ blurtProxyToSelfAccount then b
      else b.creditVoted name (delta 0)
  | levels + 1 =>
      if b.proxyOf name ≠ blurtProxyToSelfAccount then
        (b.adjust (b.proxyOf name)
          (Holder.addProxied (blurtMaxProxyRecursionDepth - (levels + 1)) delta)).shiftVotes
            (b.proxyOf name) delta levels
      else b.creditVoted name (∑ i ∈ Finset.range (levels + 2), delta i)

end Books

end Ledger

end Blurt
