import Blurt.Ledger.WitnessSchedule

/-! # Hardforks

A hardfork is applied when the witnesses voted for its version and the time they voted for
has come. Witnesses vote in the headers of their blocks.
-/

namespace Blurt

/-- `BLURT_NUM_HARDFORKS` -/
def blurtNumHardforks : Nat := 6

namespace Ledger

/-- `_hardfork_versions.versions`: hardfork `i` is `hardfork_version( 0, i )`. -/
def hardforkVersions (hardfork : Nat) : Nat := hardfork * 2 ^ 16

/-- `_hardfork_versions.times` -/
def hardforkTimes (hardfork : Nat) : Nat :=
  [blurtGenesisTime, 1594339200, 1596844800, 1613174400, 1615568895, 1616374206,
    1617192000].getD hardfork 0

namespace Database

/-- `modify` of the reward fund of posts. -/
def modifyRewardFund (db : Database) (update : RewardFund → RewardFund) : Except String Database := do
  let (id, fund) ← db.getRewardFund
  return { db with rewardFunds := db.rewardFunds.set id (update fund) }

/-- The changes that a hardfork makes at once. -/
def hardforkChanges (db : Database) (hardfork : Nat) : Except String Database :=
  match hardfork with
  | 1 => db.modifyRewardFund fun rfo => { rfo with recentClaims := blurtHardfork01RecentClaims }
  | 4 => db.modifyRewardFund fun rfo => { rfo with contentConstant := blurtRewardConstantHf4 }
  | 6 => db.modifyRewardFund fun rfo => { rfo with contentConstant := blurtRewardConstantHf6 }
  | _ => .ok db

/-- `apply_hardfork` -/
def applyHardfork (db : Database) (hardfork : Nat) : Except String Database := do
  let changed ← db.hardforkChanges hardfork
  Outcome.ensure (hardfork = changed.hardforks.lastHardfork + 1)
    "Hardfork being applied out of order"
  Outcome.ensure (changed.processedHardforks.length = hardfork)
    "Hardfork being applied out of order"
  let processedHardforks := changed.processedHardforks ++ [hardforkTimes hardfork]
  let hardforks := { changed.hardforks with
    lastHardfork := hardfork
    currentHardforkVersion := hardforkVersions hardfork }
  Outcome.ensure (processedHardforks[hardforks.lastHardfork]? = some (hardforkTimes hardfork))
    "Hardfork processing failed sanity check..."
  return { changed with processedHardforks, hardforks }

/-- `set_hardfork`, with `apply_now` -/
def setHardfork (db : Database) (hardfork : Nat) : Except String Database :=
  Outcome.forEach (fun db i =>
      let hardforks := { db.hardforks with
        nextHardfork := hardforkVersions i
        nextHardforkTime := db.dgp.time }
      { db with hardforks }.applyHardfork i) db
    (List.range' (db.hardforks.lastHardfork + 1)
      (min hardfork blurtNumHardforks - db.hardforks.lastHardfork))

/-- The condition of the loop of `process_hardforks`. -/
def dueHardfork (db : Database) : Option Nat :=
  if hardforkVersions db.hardforks.lastHardfork < db.hardforks.nextHardfork ∧
      db.hardforks.nextHardforkTime ≤ db.dgp.time then
    some (db.hardforks.lastHardfork + 1)
  else none

/-- The body of the loop of `process_hardforks`. -/
def processHardfork (db : Database) (hardfork : Nat) : Except String Database :=
  if hardfork ≤ blurtNumHardforks then db.applyHardfork hardfork
  else .error "unknown_hardfork_exception"

/-- `process_hardforks` -/
def processHardforks (db : Database) : Except String Database :=
  Outcome.drain dueHardfork processHardfork (blurtNumHardforks + 2) db

/-! ## Headers of blocks -/

/-- The number of hardforks whose time has come when the chain starts. -/
def genesisHardforks (timestamp : Nat) : Nat :=
  ((List.range blurtNumHardforks).takeWhile fun n => hardforkTimes (n + 1) ≤ timestamp).length

/-- What `_apply_block` does before block 1: hardforks from before the start of the chain
are applied without votes. -/
def startHardforks (db : Database) (timestamp : Nat) : Except String Database := do
  let n := genesisHardforks timestamp
  if 0 < n then
    let started ← db.setHardfork n
    Outcome.ensure (started.hardforks.currentHardforkVersion = hardforkVersions n)
      "Unexpected genesis hardfork state"
    return started.witnesses.rows.foldl (fun db row => db.modifyWitness row.1 fun wit => { wit with
      runningVersion := hardforkVersions n
      hardforkVersionVote := hardforkVersions n
      hardforkTimeVote := hardforkTimes n }) started
  else
    return db

/-- `process_header_visitor` -/
def visitExtension (witness : AccountName) (db : Database) :
    BlockHeaderExtension → Except String Database
  | .version reportedVersion => do
      let signingWitness ← db.getWitness witness
      let updated := { signingWitness with runningVersion := reportedVersion }
      return { db with witnesses := db.witnesses.set witness updated }
  | .hardforkVersionVote hfVersion hfTime => do
      let signingWitness ← db.getWitness witness
      if hfVersion ≠ signingWitness.hardforkVersionVote ∨
          hfTime ≠ signingWitness.hardforkTimeVote then
        let updated := { signingWitness with
          hardforkVersionVote := hardforkVersion hfVersion
          hardforkTimeVote := hfTime }
        return { db with witnesses := db.witnesses.set witness updated }
      else
        return db
  | .feeInfo operationFlatFee bandwidthKbytesFee => do
      Outcome.ensure (operationFlatFee = db.wso.medianProps.operationFlatFee.amount)
        "fi.operation_flat_fee == operation_flat_fee.amount.value"
      Outcome.ensure (bandwidthKbytesFee = db.wso.medianProps.bandwidthKbytesFee.amount)
        "fi.bandwidth_kbytes_fee == bandwidth_kbytes_fee.amount.value"
      return db

/-- `process_header_extensions` -/
def processHeaderExtensions (db : Database) (witness : AccountName)
    (extensions : List BlockHeaderExtension) : Except String Database :=
  Outcome.forEach (visitExtension witness) db extensions

end Database

end Ledger

end Blurt
