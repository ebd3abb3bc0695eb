import Blurt.Ledger.Database

/-! # Witness votes and proxies

The vote weight of an account follows its chain of proxies to the account that votes
for witnesses. The recursion over the chain stops after
`BLURT_MAX_PROXY_RECURSION_DEPTH` links; `levels` counts the links that are left.
-/

namespace Blurt

namespace Ledger

namespace Database

/-- `adjust_witness_vote` -/
def adjustWitnessVote (db : Database) (witness : AccountName) (delta : Int) :
    Except String Database := do
  let w ← db.getWitness witness
  let currentVirtualTime := db.wso.currentVirtualTime
  let deltaPos := UInt128.wrap
    (UInt128.ofInt w.votes * UInt128.sub currentVirtualTime w.virtualLastUpdate)
  let virtualPosition := UInt128.wrap (w.virtualPosition + deltaPos)
  let votes ← shareType (w.votes + delta)
  if db.hasHardfork 4 then
    let bound ← shareType (db.dgp.totalVestingShares + db.dgp.regentVestingShares)
    Outcome.ensure (votes ≤ bound) "w.votes <= total_vesting_shares + regent_vesting_shares"
  else
    Outcome.ensure (votes ≤ db.dgp.totalVestingShares) "w.votes <= total_vesting_shares"
  let lap ← UInt128.div (UInt128.sub UInt128.maxValue virtualPosition)
    (UInt128.ofInt (wrapInt64 (votes + 1)))
  let scheduledTime := UInt128.wrap (currentVirtualTime + lap)
  -- a witness with few votes could overflow the time and be scheduled in the past
  let virtualScheduledTime :=
    if scheduledTime < currentVirtualTime then UInt128.maxValue else scheduledTime
  let updated := { w with
    votes, virtualPosition, virtualScheduledTime, virtualLastUpdate := currentVirtualTime }
  return { db with witnesses := db.witnesses.set witness updated }

/-- The witnesses that `a` votes for, in the order of `by_account_witness`. -/
def votedWitnesses (db : Database) (a : AccountName) : List AccountName :=
  (db.witnessVotes.ordered (fun x y => x.1.2 ≤ y.1.2) fun key _ => key.1 = a).map (·.1.2)

/-- `adjust_witness_votes` -/
def adjustWitnessVotes (db : Database) (a : AccountName) (delta : Int) :
    Except String Database :=
  Outcome.forEach (fun db witness => adjustWitnessVote db witness delta) db (db.votedWitnesses a)

/-- `clear_witness_votes` -/
def clearWitnessVotes (db : Database) (a : AccountName) : Except String Database :=
  let witnessVotes := (db.votedWitnesses a).foldl
    (fun votes witness => votes.remove (a, witness)) db.witnessVotes
  { db with witnessVotes }.modifyAccount a fun account =>
    .ok { account with witnessesVotedFor := 0 }

end Database

/-- The array of a call of `adjust_proxied_witness_votes`, by depth. -/
abbrev VoteDelta := Nat → Int

/-- The shares of an account, followed by the shares that are proxied to it. -/
def Account.voteDelta (a : Account) : VoteDelta
  | 0 => a.vestingShares
  | depth + 1 =>
      if h : depth < blurtMaxProxyRecursionDepth then a.proxiedVsfVotes ⟨depth, h⟩ else 0

/-- What one proxy of a chain receives: entry `i` of the array at depth `i + depth`. -/
def Account.addProxied (a : Account) (depth : Nat) (delta : VoteDelta) :
    Except String Account := do
  let votes : ProxiedVotes := fun i =>
    if depth ≤ i then a.proxiedVsfVotes i + delta (i - depth) else a.proxiedVsfVotes i
  Outcome.ensure (∀ i, InInt64 (votes i)) "overflow_exception"
  return { a with proxiedVsfVotes := votes }

namespace Database

/-- The overload of `adjust_proxied_witness_votes` with an array of deltas. -/
def adjustProxiedArray (db : Database) (name : AccountName) (delta : VoteDelta) :
    (levels : Nat) → Except String Database
  | 0 => do
      let a ← db.getAccount name
      if a.proxy ≠ blurtProxyToSelfAccount then
        return db
      else
        db.adjustWitnessVotes name (delta 0)
  | levels + 1 => do
      let a ← db.getAccount name
      if a.proxy ≠ blurtProxyToSelfAccount then
        let depth := blurtMaxProxyRecursionDepth - (levels + 1)
        let updated ← db.modifyAccount a.proxy fun p => p.addProxied depth delta
        updated.adjustProxiedArray a.proxy delta levels
      else
        let totalDelta ← shareType (∑ i ∈ Finset.range (levels + 2), delta i)
        db.adjustWitnessVotes name totalDelta

/-- The overload of `adjust_proxied_witness_votes` with one delta. -/
def adjustProxiedShare (db : Database) (name : AccountName) (delta : Int) :
    (levels : Nat) → Except String Database
  | 0 => do
      let a ← db.getAccount name
      if a.proxy ≠ blurtProxyToSelfAccount then
        return db
      else
        db.adjustWitnessVotes name delta
  | levels + 1 => do
      let a ← db.getAccount name
      if a.proxy ≠ blurtProxyToSelfAccount then
        let depth := blurtMaxProxyRecursionDepth - (levels + 1)
        let updated ← db.modifyAccount a.proxy fun p =>
          p.addProxied depth fun i => if i = 0 then delta else 0
        updated.adjustProxiedShare a.proxy delta levels
      else
        db.adjustWitnessVotes name delta

/-- `adjust_proxied_witness_votes( a, delta )` with an array. -/
def adjustProxiedWitnessVotesArray (db : Database) (name : AccountName) (delta : VoteDelta) :
    Except String Database :=
  db.adjustProxiedArray name delta blurtMaxProxyRecursionDepth

/-- `adjust_proxied_witness_votes( a, delta )` with one delta. -/
def adjustProxiedWitnessVotes (db : Database) (name : AccountName) (delta : Int) :
    Except String Database :=
  db.adjustProxiedShare name delta blurtMaxProxyRecursionDepth

end Database

end Ledger

end Blurt
