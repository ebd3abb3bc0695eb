import Blurt.Ledger.GovernanceEvaluators

/-! # Payments of proposals

Once an hour the treasury pays the proposals in the order of their votes, from a budget that
grows with the time since the last payment.
-/

namespace Blurt

namespace Ledger

namespace Database

/-- `sps_processor::remove_proposals`: the loop over the proposals that ended long enough
ago, which stops when the reducer is done. -/
def removeEnded : List Nat → Database × Reducer → Database × Reducer
  | [], state => state
  | id :: rest, state =>
      let removed := removeProposalObject id state
      if removed.2.done then removed else removeEnded rest removed

/-- The proposals in the order of `by_end_date`, up to `headTime`. -/
def endedProposals (db : Database) (headTime : Nat) : List Nat :=
  (db.proposals.due
    (fun x y => x.2.endDateWithDelay < y.2.endDateWithDelay ∨
      x.2.endDateWithDelay = y.2.endDateWithDelay ∧ x.1 ≤ y.1)
    fun row => row.2.endDateWithDelay ≤ headTime).map (·.1)

/-- `sps_processor::remove_old_proposals` -/
def removeOldProposals (host : Host) (db : Database) (headTime : Nat) : Database :=
  (removeEnded (db.endedProposals headTime) (db, Reducer.make host.spsRemoveThreshold)).1

/-- `sps_processor::is_maintenance_period` -/
def isMaintenancePeriod (db : Database) (headTime : Nat) : Bool :=
  db.dgp.nextMaintenanceTime ≤ headTime

/-- `sps_processor::record_funding` -/
def recordFunding (db : Database) (headTime : Nat) : Database :=
  if db.isMaintenancePeriod headTime ∧ 0 < db.dgp.spsIntervalLedger then
    { db with dgp := { db.dgp with spsIntervalLedger := 0 } }
  else db

/-- `sps_processor::find_active_proposals` -/
def findActiveProposals (db : Database) (headTime : Nat) : List (Nat × Proposal) :=
  db.proposals.ordered
    (fun x y => x.2.startDate < y.2.startDate ∨ x.2.startDate = y.2.startDate ∧ x.1 ≤ y.1)
    fun _ p => p.startDate ≤ headTime && headTime ≤ p.endDate

/-- What the vote of one account adds to a proposal. -/
def proposalVoteWeight (db : Database) (voter : AccountName) : Except String Nat := do
  let account ← db.getAccount voter
  if account.proxy = blurtProxyToSelfAccount then
    let voteWeight ← shareType account.witnessVoteWeight
    let sum := if voter = blurtRegentAccount then db.dgp.regentVestingShares else voteWeight
    return (sum % 2 ^ 64).toNat
  else
    return 0

/-- `sps_processor::calculate_votes` of one proposal. -/
def calculateVotes (db : Database) (id : Nat) : Except String Nat :=
  Outcome.forEach (fun total voter => do
      let weight ← db.proposalVoteWeight voter
      return (total + weight) % 2 ^ 64) 0 (db.proposalVoters id)

/-- `sps_processor::calculate_votes` of the active proposals. -/
def calculateAllVotes (db : Database) (proposals : List (Nat × Proposal)) :
    Except String (Database × List (Nat × Proposal)) :=
  Outcome.forEach (fun (state : Database × List (Nat × Proposal)) row => do
      let totalVotes ← state.1.calculateVotes row.1
      let counted := { row.2 with totalVotes }
      return ({ state.1 with proposals := state.1.proposals.set row.1 counted },
        state.2 ++ [(row.1, counted)]))
    (db, []) proposals

/-- `sps_processor::sort_by_votes` -/
def sortByVotes (proposals : List (Nat × Proposal)) : List (Nat × Proposal) :=
  proposals.insertionSort fun x y =>
    y.2.totalVotes < x.2.totalVotes ∨ x.2.totalVotes = y.2.totalVotes ∧ x.1 ≤ y.1

/-- The seconds since the last payment, as a `uint32_t`. -/
def passedTimeSeconds (db : Database) (headTime : Nat) : Nat :=
  subSeconds headTime db.dgp.lastBudgetTime

/-- `sps_processor::calculate_maintenance_budget` -/
def calculateMaintenanceBudget (db : Database) (headTime : Nat) : Except String Int := do
  let treasury ← db.getAccount blurtTreasuryAccount
  let dailyBudgetLimit :=
    if db.hasHardfork 4 ∧ 0 < db.dgp.regentVestingShares then treasury.balance
    else treasury.balance.tdiv totalAmountDivider
  let limit ← UInt128.toUInt64
    (UInt128.wrap (db.passedTimeSeconds headTime * UInt128.ofInt dailyBudgetLimit) / dailySeconds)
  return wrapInt64 limit

/-- The payment of one proposal in `transfer_payments`. -/
def payProposal (db : Database) (receiver : AccountName) (payment : Int) :
    Except String Database := do
  let _ ← db.getAccount receiver
  let debited ← db.adjustBalance blurtTreasuryAccount (.blurt (-payment))
  debited.adjustBalance receiver (.blurt payment)

/-- `ratio` in `transfer_payments`, of which the product is computed in 32 bits. -/
def paymentRatio (db : Database) (headTime : Nat) : Nat :=
  db.passedTimeSeconds headTime * blurt100Percent % 2 ^ 32 / dailySeconds

/-- `period_pay` in `transfer_payments`. -/
def periodPay (ratio : Nat) (dailyPay : Int) : Except String Int := do
  let product ← UInt128.toUInt64 (UInt128.wrap (ratio * UInt128.ofInt dailyPay))
  return wrapInt64 (product / blurt100Percent)

/-- The loop of `transfer_payments`. -/
def payProposals (ratio : Nat) :
    Int → Database → List (Nat × Proposal) → Except String Database
  | _, db, [] => .ok db
  | budget, db, row :: rest => do
      if row.2.totalVotes = 0 then
        return db
      else
        let pay ← periodPay ratio row.2.dailyPay.amount
        Outcome.ensure (row.2.dailyPay.symbol = .blurt) "a.symbol == b.symbol"
        if budget ≤ pay then
          db.payProposal row.2.receiver budget
        else
          let paid ← db.payProposal row.2.receiver pay
          let left ← shareType (budget - pay)
          payProposals ratio left paid rest

/-- `sps_processor::transfer_payments` -/
def transferPayments (db : Database) (headTime : Nat) (budget : Int)
    (proposals : List (Nat × Proposal)) : Except String Database := do
  if budget = 0 then
    return db
  else
    let _ ← db.getAccount blurtTreasuryAccount
    payProposals (db.paymentRatio headTime) budget db proposals

/-- `sps_processor::update_settings` -/
def updateSettings (db : Database) (headTime : Nat) : Database :=
  { db with dgp := { db.dgp with
      nextMaintenanceTime := addSeconds headTime blurtProposalMaintenancePeriod
      lastBudgetTime := headTime } }

/-- `sps_processor::make_payments` -/
def makePayments (db : Database) (headTime : Nat) : Except String Database := do
  if !db.isMaintenancePeriod headTime then
    return db
  else
    let active := db.findActiveProposals headTime
    if active = [] then
      return db.updateSettings headTime
    else
      let (counted, voted) ← db.calculateAllVotes active
      let budget ← counted.calculateMaintenanceBudget headTime
      let paid ← counted.transferPayments headTime budget (sortByVotes voted)
      return paid.updateSettings headTime

/-- `sps_processor::run` -/
def processProposals (host : Host) (db : Database) (headTime : Nat) : Except String Database :=
  ((db.removeOldProposals host headTime).recordFunding headTime).makePayments headTime

end Database

end Ledger

end Blurt
