import Blurt.Ledger.ResourceDynamics

/-! # The witness schedule

Every `BLURT_MAX_WITNESSES` blocks the schedule is rebuilt: the witnesses with the most
votes, and the runners-up in the order of their virtual time. The properties and the votes
of the witnesses that were scheduled are counted at the same moment.
-/

namespace Blurt

namespace Ledger

/-- The value that a `hardfork_version` holds after an assignment. -/
def hardforkVersion (version : Nat) : Nat := version / 2 ^ 16 * 2 ^ 16

namespace Witness

/-- Whether a witness can sign blocks: a null key resigns. -/
def canSign (w : Witness) : Bool := w.signingKey ≠ 0

/-- `BLURT_VIRTUAL_SCHEDULE_LAP_LENGTH2 / (votes.value+1)` -/
def lapTime (w : Witness) : Except String Nat :=
  UInt128.div UInt128.maxValue (UInt128.ofInt (wrapInt64 (w.votes + 1)))

end Witness

/-! ## The rows of a new schedule -/

/-- The first `limit` rows that can sign. -/
def electedRows (limit : Nat) (rows : List (AccountName × Witness)) : List (AccountName × Witness) :=
  (rows.filter fun row => row.2.canSign).take limit

/-- The loop over the runners-up, with `free` seats left: the rows that it processes, and
those of them that get a seat. -/
def runnersUp (elected : List AccountName) :
    (free : Nat) → List (AccountName × Witness) →
      List (AccountName × Witness) × List (AccountName × Witness)
  | 0, _ => ([], [])
  | _ + 1, [] => ([], [])
  | free + 1, row :: rest =>
      if row.2.canSign ∧ row.1 ∉ elected then
        let (processed, seated) := runnersUp elected free rest
        (row :: processed, row :: seated)
      else
        let (processed, seated) := runnersUp elected (free + 1) rest
        (row :: processed, seated)

/-- The generator that shuffles the schedule. -/
def shuffleWord (time i : Nat) : Nat :=
  let k := (time * 2 ^ 32 + i * 2685821657736338717) % 2 ^ 64
  let k := k ^^^ (k / 2 ^ 12)
  let k := k ^^^ (k * 2 ^ 25 % 2 ^ 64)
  let k := k ^^^ (k / 2 ^ 27)
  k * 2685821657736338717 % 2 ^ 64

/-- `std::swap` of two entries of an array. -/
def swapEntries (names : List AccountName) (i j : Nat) : List AccountName :=
  (names.set i (names.getD j "")).set j (names.getD i "")

/-- The shuffle of the first `count` entries of `current_shuffled_witnesses`. -/
def shuffle (time count : Nat) (names : List AccountName) : List AccountName :=
  (List.range count).foldl
    (fun names i => swapEntries names i (i + shuffleWord time i % (count - i))) names

/-! ## The votes of the scheduled witnesses -/

/-- The highest version that enough of the scheduled witnesses run, or the one before. -/
def countVersions (wso : WitnessSchedule) (scheduled : List Witness) : Nat :=
  let versions := (scheduled.map (·.runningVersion)).insertionSort (· ≥ ·)
  (versions.find? fun v =>
    wso.hardforkRequiredWitnesses ≤ versions.countP fun running => v ≤ running).getD
      wso.majorityVersion

/-- What a witness votes for. -/
def Witness.hardforkVote (w : Witness) : Nat × Nat := (w.hardforkVersionVote, w.hardforkTimeVote)

/-- The first hardfork version and time that enough of the scheduled witnesses vote for. -/
def countHardforkVotes (wso : WitnessSchedule) (scheduled : List Witness) : Option (Nat × Nat) :=
  let votes := (scheduled.map Witness.hardforkVote).insertionSort fun x y =>
    x.1 < y.1 ∨ x.1 = y.1 ∧ x.2 ≤ y.2
  votes.find? fun v => wso.hardforkRequiredWitnesses ≤ votes.count v

/-- The next hardfork after a count of the votes. -/
def HardforkProperty.schedule (hardforks : HardforkProperty) (majority : Option (Nat × Nat)) :
    HardforkProperty :=
  match majority with
  | some (version, time) =>
      { hardforks with nextHardfork := hardforkVersion version, nextHardforkTime := time }
  | none => { hardforks with nextHardfork := hardforkVersion hardforks.currentHardforkVersion }

namespace Database

/-- A change of the row of a witness that is there. -/
def modifyWitness (db : Database) (name : AccountName) (f : Witness → Witness) : Database :=
  match db.witnesses.find? name with
  | some w => { db with witnesses := db.witnesses.set name (f w) }
  | none => db

/-- The witnesses in the order of `by_vote_name`. -/
def witnessesByVote (db : Database) : List (AccountName × Witness) :=
  db.witnesses.ordered
    (fun x y => y.2.votes < x.2.votes ∨ (x.2.votes = y.2.votes ∧ x.1 ≤ y.1)) fun _ _ => true

/-- The witnesses in the order of `by_schedule_time`. -/
def witnessesByScheduleTime (db : Database) : List (AccountName × Witness) :=
  db.witnesses.ordered
    (fun x y => x.2.virtualScheduledTime < y.2.virtualScheduledTime ∨
      (x.2.virtualScheduledTime = y.2.virtualScheduledTime ∧ x.2.id ≤ y.2.id)) fun _ _ => true

/-- The witnesses of the first `num_scheduled_witnesses` entries of the schedule. -/
def scheduledWitnesses (db : Database) : Except String (List Witness) :=
  Outcome.forEach (fun witnesses i => do
      let w ← db.getWitness (db.wso.currentShuffledWitnesses.getD i "")
      return witnesses ++ [w]) []
    (List.range db.wso.numScheduledWitnesses)

/-! ## The median properties -/

/-- The witness in the middle of the order of `key`. -/
def medianBy (key : Witness → Int) (active : List Witness) : Except String Witness :=
  Outcome.require ((active.insertionSort fun x y => key x ≤ key y)[active.length / 2]?)
    "out of range"

/-- `update_median_witness_props` -/
def updateMedianWitnessProps (db : Database) : Except String Database := do
  let active ← db.scheduledWitnesses
  let byCreationFee ← medianBy (fun w => w.props.accountCreationFee.amount) active
  let byBlockSize ← medianBy (fun w => w.props.maximumBlockSize) active
  let byBudget ← medianBy (fun w => w.props.accountSubsidyBudget) active
  let byDecay ← medianBy (fun w => w.props.accountSubsidyDecay) active
  let byFlatFee ← medianBy (fun w => w.props.operationFlatFee.amount) active
  let byBandwidthFee ← medianBy (fun w => w.props.bandwidthKbytesFee.amount) active
  let bySubsidies ← medianBy (·.availableWitnessAccountSubsidies) active
  let medianProps : ChainProperties :=
    { accountCreationFee := byCreationFee.props.accountCreationFee
      maximumBlockSize := byBlockSize.props.maximumBlockSize
      accountSubsidyBudget := byBudget.props.accountSubsidyBudget
      accountSubsidyDecay := byDecay.props.accountSubsidyDecay
      operationFlatFee := byFlatFee.props.operationFlatFee
      bandwidthKbytesFee := byBandwidthFee.props.bandwidthKbytesFee }
  rdValidateUserParams medianProps.accountSubsidyBudget medianProps.accountSubsidyDecay
  let accountSubsidyRd ← db.wso.accountSubsidyRd.setup medianProps.accountSubsidyBudget
    medianProps.accountSubsidyDecay
  let witnessRd ← db.wso.accountSubsidyWitnessRd.setup
    (witnessSubsidyBudget medianProps.accountSubsidyBudget)
    (witnessSubsidyDecay medianProps.accountSubsidyDecay)
  let medianDecay ← witnessRd.computePoolDecay bySubsidies.availableWitnessAccountSubsidies
  let minDecay ← UInt128.toInt64
    (UInt128.wrap (UInt128.ofInt (max medianDecay 0) * blurtDecayBackstopPercent) / blurt100Percent)
  let accountSubsidyWitnessRd := { witnessRd with minDecay }
  return { db with
    wso := { db.wso with medianProps, accountSubsidyRd, accountSubsidyWitnessRd }
    dgp := { db.dgp with maximumBlockSize := medianProps.maximumBlockSize } }

/-! ## Virtual time -/

/-- `reset_virtual_schedule_time` -/
def resetVirtualScheduleTime (db : Database) : Except String Database :=
  Outcome.forEach (fun db row => do
      let lap ← row.2.lapTime
      return db.modifyWitness row.1 fun w => { w with
        virtualPosition := 0
        virtualLastUpdate := 0
        virtualScheduledTime := lap })
    { db with wso := { db.wso with currentVirtualTime := 0 } } db.witnesses.rows

/-- The loop that starts a new lap for the processed witnesses. It stops where the time
overflows, which its second result tells. -/
def startLaps (newVirtualTime : Nat) :
    Database → List (AccountName × Witness) → Except String (Database × Bool)
  | db, [] => .ok (db, false)
  | db, row :: rest => do
      let lap ← row.2.lapTime
      let newVirtualScheduledTime := UInt128.wrap (newVirtualTime + lap)
      if newVirtualScheduledTime < newVirtualTime then
        return (db, true)
      else
        startLaps newVirtualTime (db.modifyWitness row.1 fun w => { w with
          virtualPosition := 0
          virtualLastUpdate := newVirtualTime
          virtualScheduledTime := newVirtualScheduledTime }) rest

/-! ## The schedule -/

/-- How the witnesses of a new schedule were chosen. -/
def markSchedule (db : Database) (schedule : WitnessScheduleType)
    (rows : List (AccountName × Witness)) : Database :=
  rows.foldl (fun db row => db.modifyWitness row.1 fun w => { w with schedule }) db

/-- The entries of `current_shuffled_witnesses` for the witnesses of a new schedule. -/
def scheduleEntries (active : List AccountName) : List AccountName :=
  active ++ List.replicate (blurtMaxWitnesses - active.length) ""

/-- `update_witness_schedule` -/
def updateWitnessSchedule (db : Database) : Except String Database := do
  if db.dgp.headBlockNumber % blurtMaxWitnesses ≠ 0 then
    return db
  else
    let elected := electedRows db.wso.maxVotedWitnesses db.witnessesByVote
    let (processed, seated) := runnersUp (elected.map (·.1)) (blurtMaxWitnesses - elected.length)
      db.witnessesByScheduleTime
    let active := elected.map (·.1) ++ seated.map (·.1)
    let chosen := (db.markSchedule .elected elected).markSchedule .timeshare seated
    let newVirtualTime := (processed.getLast?.map (·.2.virtualScheduledTime)).getD
      db.wso.currentVirtualTime
    let (advanced, overflows) ← startLaps newVirtualTime chosen processed
    let timed ← if overflows then advanced.resetVirtualScheduleTime else .ok advanced
    let expectedActiveWitnesses := min blurtMaxWitnesses db.witnesses.rows.length
    Outcome.ensure (active.length = expectedActiveWitnesses)
      "number of active witnesses does not equal expected_active_witnesses=${expected_active_witnesses}"
    let scheduled ← timed.scheduledWitnesses
    let hardforks := timed.hardforks.schedule (countHardforkVotes db.wso scheduled)
    let numScheduledWitnesses := max active.length 1
    let wso := { timed.wso with
      currentShuffledWitnesses :=
        shuffle db.dgp.time numScheduledWitnesses (scheduleEntries active)
      numScheduledWitnesses
      witnessPayNormalizationFactor :=
        db.wso.electedWeight * elected.length + db.wso.timeshareWeight * seated.length
      currentVirtualTime := if overflows then 0 else newVirtualTime
      nextShuffleBlockNum := (db.dgp.headBlockNumber + numScheduledWitnesses) % 2 ^ 32
      majorityVersion := countVersions db.wso scheduled }
    { timed with hardforks, wso }.updateMedianWitnessProps

end Database

end Ledger

end Blurt
