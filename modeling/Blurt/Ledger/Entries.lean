import Blurt.Foundation.Run
import Blurt.Ledger.BooksFrames

/-! # Entries of the books

A procedure of the ledger is a run of entries. An entry keeps every invariant of the
books by itself, and its label says by how much it unbalances them: what leaves one fund
before it reaches another is in no fund meanwhile.
-/

namespace Blurt

namespace Ledger

/-! ## Balance -/

/-- The sums over the books that have to agree with a total. -/
inductive Column
  | money
  | shares
  | vesting
  | votes
  | rewards
  deriving DecidableEq, Repr

/-- How much more there is in each column than the totals say. -/
abbrev Drift := Column → Int

def Drift.of (money shares vesting votes rewards : Int) : Drift
  | .money => money
  | .shares => shares
  | .vesting => vesting
  | .votes => votes
  | .rewards => rewards

namespace Holder

/-- What `validate_invariants` counts of the votes of an account. -/
def countedVotes (h : Holder) : Int :=
  if h.proxy = blurtProxyToSelfAccount then h.funds .vestingShares + ∑ depth, h.proxiedVsfVotes depth
  else h.proxiedVsfVotes (Fin.last (blurtMaxProxyRecursionDepth - 1))

def columns (h : Holder) : Drift :=
  .of (h.funds .balance + h.funds .savingsBalance + h.funds .rewardBlurtBalance)
    (h.funds .vestingShares + h.funds .rewardVestingBalance) (h.funds .vestingShares)
    h.countedVotes (h.funds .rewardVestingBlurt)

/-- The shares that an account has not lent. -/
def unlent (h : Holder) : Int := h.funds .vestingShares - h.funds .delegatedVestingShares

end Holder

/-- What an escrow holds. -/
def Escrow.content (e : Escrow) : Int := e.blurtBalance.amount + e.pendingFee.amount

def Totals.columns (t : Totals) : Drift :=
  .of (t.currentSupply - t.totalVestingFundBlurt - t.totalRewardFundBlurt -
      t.pendingRewardedVestingBlurt)
    (t.totalVestingShares + t.pendingRewardedVestingShares) t.totalVestingShares
    t.totalVestingShares t.pendingRewardedVestingBlurt

namespace Books

/-- What is held outside of the accounts and of the totals. -/
def held (b : Books) : Int :=
  b.escrows.sum (fun _ e => e.content) + b.savingsWithdraws.sum (fun _ w => w.amount.amount) +
    b.rewardFunds.sum fun _ balance => balance

def drift (b : Books) : Drift := fun column =>
  b.holders.sum (fun _ h => h.columns column) + Drift.of b.held 0 0 0 0 column -
    b.totals.columns column

/-- The books balance: `validate_invariants` holds of them. -/
def Balanced (b : Books) : Prop := b.drift = 0

/-- What the vote of an account for a witness weighs. -/
def voteWeight (b : Books) (name : AccountName) (h : Holder) : Int :=
  if name = blurtRegentAccount then b.totals.regentVestingShares
  else h.funds .vestingShares + ∑ depth, h.proxiedVsfVotes depth

end Books

/-! ## Conditions of entries -/

/-- The funds of an account that are in BLURT. -/
def Fund.isLiquid : Fund → Bool
  | .balance | .savingsBalance | .rewardBlurtBalance => true
  | _ => false

/-- An escrow that `escrow_transfer` and `escrow_approve` can leave. -/
structure Escrow.Sound (e : Escrow) : Prop where
  balance : e.blurtBalance.symbol = .blurt ∧ 0 ≤ e.blurtBalance.amount
  fee : e.pendingFee.symbol = .blurt ∧ 0 ≤ e.pendingFee.amount
  settled : e.isApproved → e.pendingFee.amount = 0

/-- The vesting fund and its shares fit an `int64_t`. -/
structure Totals.InRange (t : Totals) : Prop where
  fund : InInt64 t.totalVestingFundBlurt
  shares : InInt64 t.totalVestingShares

/-- A power-down that `available` shares cover. -/
structure PowerDown.Within (p : PowerDown) (available : Int) : Prop where
  nonneg : 0 ≤ available
  due : p.nextVestingWithdrawal ≤ maximumTime
  covered : p.nextVestingWithdrawal ≠ maximumTime → 0 < p.vestingWithdrawRate ∧ 0 ≤ p.withdrawn ∧
    p.withdrawn ≤ p.toWithdraw ∧ p.vestingWithdrawRate ∣ p.withdrawn ∧
    p.toWithdraw - p.withdrawn ≤ available

namespace Books

/-! ## The entries -/

/-- One entry, with what it adds to each column. `may` says who may set a proxy. -/
inductive Step (may : AccountName → Prop) (b : Books) : Drift → Books → Prop
  | credit {name : AccountName} {fund : Fund} {amount : Int} {h : Holder}
      (hh : b.holders.find? name = some h) (hfund : fund.isLiquid)
      (hsafe : 0 ≤ amount ∨ 0 ≤ h.funds fund + amount) :
      Step may b (.of amount 0 0 0 0) (b.credit name fund amount)
  | rewardShares {name : AccountName} {blurt shares : Int} {h : Holder}
      (hh : b.holders.find? name = some h)
      (hblurt : 0 ≤ h.funds .rewardVestingBlurt + blurt)
      (hshares : 0 ≤ h.funds .rewardVestingBalance + shares)
      (hrange : InInt64 (h.funds .rewardVestingBalance + shares)) :
      Step may b (.of 0 shares 0 0 blurt)
        ((b.credit name .rewardVestingBlurt blurt).credit name .rewardVestingBalance shares)
  | rewardFund {id : Nat} {amount balance : Int} (hfund : b.rewardFunds.find? id = some balance) :
      Step may b (.of amount 0 0 0 0) (b.creditRewardFund id amount)
  | totals {totals : Totals} (hregent : totals.regentVestingShares = b.totals.regentVestingShares)
      (hrange : b.totals.InRange → totals.InRange) :
      Step may b (b.totals.columns - totals.columns) (b.setTotals fun _ => totals)
  | openEscrow {key : AccountName × Nat} {e : Escrow} (hnew : b.escrows.find? key = none)
      (hsound : e.Sound) : Step may b (.of e.content 0 0 0 0) (b.setEscrow key e)
  | setEscrow {key : AccountName × Nat} {old e : Escrow} (hold : b.escrows.find? key = some old)
      (hsound : e.Sound) :
      Step may b (.of (e.content - old.content) 0 0 0 0) (b.setEscrow key e)
  | closeEscrow {key : AccountName × Nat} {old : Escrow} (hold : b.escrows.find? key = some old) :
      Step may b (.of (-old.content) 0 0 0 0) (b.closeEscrow key)
  | openSavingsWithdraw {key : AccountName × Nat} {w : SavingsWithdraw}
      (hnew : b.savingsWithdraws.find? key = none) (hblurt : w.amount.symbol = .blurt)
      (hamount : 0 ≤ w.amount.amount) :
      Step may b (.of w.amount.amount 0 0 0 0) (b.setSavingsWithdraw key w)
  | closeSavingsWithdraw {key : AccountName × Nat} {w : SavingsWithdraw}
      (hold : b.savingsWithdraws.find? key = some w) :
      Step may b (.of (-w.amount.amount) 0 0 0 0) (b.closeSavingsWithdraw key)
  | openAccount {name : AccountName} {auth : AccountAuthority}
      (hnew : b.holders.find? name = none) : Step may b 0 (b.openAccount name auth)
  | setAuthority {name : AccountName} {auth : AccountAuthority} (hnull : name ≠ blurtNullAccount) :
      Step may b 0 (b.setAuthority name auth)
  | recordOwner {hist : OwnerAuthorityHistory} (hnull : hist.account ≠ blurtNullAccount) :
      Step may b 0 (b.recordOwner hist)
  | forgetOwners {ownerHistory : Table Nat OwnerAuthorityHistory}
      (hless : ∀ id hist, ownerHistory.find? id = some hist → b.ownerHistory.find? id = some hist) :
      Step may b 0 { b with ownerHistory }
  | vest {name : AccountName} {amount : Int} {h : Holder} (hh : b.holders.find? name = some h)
      (hamount : 0 ≤ amount) :
      Step may b (.of 0 amount amount amount 0)
        ((b.credit name .vestingShares amount).shiftVotes name (.single amount)
          blurtMaxProxyRecursionDepth)
  | setPowerDown {name : AccountName} {powerDown : PowerDown} {h : Holder}
      (hh : b.holders.find? name = some h) (hwithin : powerDown.Within h.unlent)
      (hnull : name = blurtNullAccount → powerDown.nextVestingWithdrawal = maximumTime) :
      Step may b 0 (b.setPowerDown name powerDown)
  | withdraw {name : AccountName} {week : Int} {powerDown : PowerDown} {h : Holder}
      (hh : b.holders.find? name = some h) (hweek : 0 ≤ week)
      (hwithin : powerDown.Within (h.unlent - week))
      (hnull : name = blurtNullAccount → powerDown.nextVestingWithdrawal = maximumTime) :
      Step may b (.of 0 (-week) (-week) (-week) 0)
        (((b.setPowerDown name powerDown).credit name .vestingShares (-week)).shiftVotes name
          (.single (-week)) blurtMaxProxyRecursionDepth)
  | lend {delegator delegatee : AccountName} {amount : Int} {h k : Holder}
      (hh : b.holders.find? delegator = some h) (hk : b.holders.find? delegatee = some k)
      (hother : delegator ≠ delegatee) (hnull : delegator ≠ blurtNullAccount) (hamount : 0 ≤ amount)
      (hwithin : h.powerDown.Within (h.unlent - amount)) :
      Step may b 0 (((b.setDelegation (delegator, delegatee)
        ((b.delegations.find? (delegator, delegatee)).getD 0 + amount)).credit delegator
          .delegatedVestingShares amount).credit delegatee .receivedVestingShares amount)
  | giveBack {delegator delegatee : AccountName} {old amount : Int} {k : Holder}
      {delegations : Table (AccountName × AccountName) Int}
      (hold : b.delegations.find? (delegator, delegatee) = some old)
      (hk : b.holders.find? delegatee = some k) (hamount : 0 ≤ amount) (hrest : amount ≤ old)
      (hleft : delegations = b.delegations.set (delegator, delegatee) (old - amount) ∨
        old = amount ∧ delegations = b.delegations.remove (delegator, delegatee)) :
      Step may b 0 { (b.openReturn delegator amount).credit delegatee .receivedVestingShares
        (-amount) with delegations }
  | closeReturn {id : Nat} {delegator : AccountName} {amount : Int} {h : Holder}
      (hold : b.returns.find? id = some (delegator, amount))
      (hh : b.holders.find? delegator = some h) :
      Step may b 0 ((b.credit delegator .delegatedVestingShares (-amount)).closeReturn id)
  | register {witness : AccountName} : Step may b 0 (b.register witness)
  | castVote {account witness : AccountName} {votes : Int} {h : Holder}
      (hh : b.holders.find? account = some h) (hproxy : h.proxy = blurtProxyToSelfAccount)
      (hcanVote : h.canVote) (hwitness : b.witnesses.find? witness = some votes)
      (hnew : b.witnessVotes.find? (account, witness) = none) (hnull : account ≠ blurtNullAccount) :
      Step may b 0 ((b.castVote account witness).creditWitness witness (b.voteWeight account h))
  | retractVote {account witness : AccountName} {h : Holder}
      (hh : b.holders.find? account = some h) (hproxy : h.proxy = blurtProxyToSelfAccount)
      (hold : b.witnessVotes.find? (account, witness) = some ()) :
      Step may b 0
        ((b.creditWitness witness (-b.voteWeight account h)).retractVote account witness)
  | setProxy {name proxy : AccountName} {h k : Holder} (hmay : may name)
      (hh : b.holders.find? name = some h) (hk : b.holders.find? proxy = some k)
      (hproxy : proxy ≠ blurtProxyToSelfAccount) (hcanVote : h.canVote)
      (havoids : ∀ n, Links.climb b.link n proxy ≠ some name) (hnull : name ≠ blurtNullAccount) :
      Step may b 0 ((((b.shiftVotes name (fun i => -h.voteDelta i)
        blurtMaxProxyRecursionDepth).clearVotes name).setProxy name proxy).shiftVotes name
          h.voteDelta blurtMaxProxyRecursionDepth)
  | clearProxy {name : AccountName} {h : Holder} (hh : b.holders.find? name = some h)
      (hproxy : h.proxy ≠ blurtProxyToSelfAccount) :
      Step may b 0 ((b.shiftVotes name (fun i => -h.voteDelta i)
        blurtMaxProxyRecursionDepth).setProxy name blurtProxyToSelfAccount)
  | decline {name : AccountName} {h : Holder} (hh : b.holders.find? name = some h) :
      Step may b 0 (((b.shiftVotes name (fun i => -h.voteDelta i)
        blurtMaxProxyRecursionDepth).clearVotes name).decline name)
  | burnShares {h : Holder} (hh : b.holders.find? blurtNullAccount = some h) :
      Step may b (.of 0 (-h.funds .vestingShares) (-h.funds .vestingShares)
          (if h.proxy = blurtProxyToSelfAccount then -h.funds .vestingShares else 0) 0)
        (b.credit blurtNullAccount .vestingShares (-h.funds .vestingShares))
  | shrinkRegent {amount : Int} {h : Holder} (hh : b.holders.find? blurtRegentAccount = some h)
      (hamount : amount ≤ b.totals.regentVestingShares) :
      Step may b (.of 0 0 0 (if h.proxy = blurtProxyToSelfAccount then 0 else -amount) 0)
        ((b.setTotals fun t => { t with regentVestingShares := t.regentVestingShares - amount
          }).shiftVotes blurtRegentAccount (.single (-amount)) blurtMaxProxyRecursionDepth)

end Books

end Ledger

end Blurt
