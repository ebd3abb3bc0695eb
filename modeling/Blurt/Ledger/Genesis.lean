import Blurt.Ledger.Block

/-! # Genesis

The object database before the first block: the accounts of the protocol, the initial
witnesses and the accounts of a snapshot of another chain.
-/

namespace Blurt

/-- `BLURT_MINER_ACCOUNT` -/
def blurtMinerAccount : AccountName := "miners"

/-- `BLURT_INIT_MINER_NAME` -/
def blurtInitMinerName : AccountName := "initblurt"

/-- `BLURT_INIT_SUPPLY` -/
def blurtInitSupply : Int := 388031775139

/-- `BLURT_INIT_POST_REWARD_BALANCE` -/
def blurtInitPostRewardBalance : Int := 923210316

/-- `BLURT_MAX_BLOCK_SIZE` -/
def blurtMaxBlockSize : Nat := blurtMinBlockSizeLimit * blurtBlockInterval * 2000

/-- `BLURT_HF21_CONVERGENT_LINEAR_RECENT_CLAIMS` -/
def blurtHf21ConvergentLinearRecentClaims : Nat := 305178654659033363

namespace Ledger

/-- One line of `snapshot.json`. -/
structure AccountSnapshot where
  name : AccountName
  owner : Authority
  active : Authority
  posting : Authority
  memo : PublicKey
  balance : Int
  power : Int
  deriving DecidableEq, Repr

/-- What `init_genesis` is given: the key of the initial witnesses and the snapshot. -/
structure GenesisArgs where
  initPublicKey : PublicKey
  initPublicKey_ne_zero : initPublicKey ≠ 0
  snapshot : List AccountSnapshot

namespace Database

/-- `create< account_object >` and `create< account_authority_object >` of one account. -/
def createObject (db : Database) (name : AccountName) (account : Nat → Account)
    (auth : AccountAuthority) : Except String Database := do
  Outcome.ensure ((db.accounts.find? name).isNone) "could not insert object"
  return { db with
    accounts := db.accounts.set name (account db.nextIds.account)
    authorities := db.authorities.set name auth
    nextIds := { db.nextIds with account := db.nextIds.account + 1 } }

end Database

/-- An authority without a key, which nobody can act with. -/
def nobody : Authority := { weightThreshold := 1 }

/-- The authority of one key. -/
def singleKey (key : PublicKey) : Authority := { weightThreshold := 1, keyAuths := [(key, 1)] }

/-- The name of an initial witness. -/
def initMinerName (i : Nat) : AccountName :=
  if i = 0 then blurtInitMinerName else blurtInitMinerName ++ toString i

namespace Database

/-- The global properties, the reward fund and the witness scheduler before block 1, without
an account. -/
def genesisObjects : Except String Database := do
  let price ← Price.make 1000000 1000
  let regentShares ← price.toVests (blurtInitSupply / 2)
  let medianProps : ChainProperties := {}
  let accountSubsidyRd ← RdDynamicsParams.setup {} medianProps.accountSubsidyBudget
    medianProps.accountSubsidyDecay
  let accountSubsidyWitnessRd ← RdDynamicsParams.setup {}
    (witnessSubsidyBudget medianProps.accountSubsidyBudget)
    (witnessSubsidyDecay medianProps.accountSubsidyDecay)
  let postFund : RewardFund :=
    { name := blurtPostRewardFundName
      rewardBalance := blurtInitPostRewardBalance
      recentClaims := blurtHf21ConvergentLinearRecentClaims
      lastUpdate := blurtGenesisTime
      contentConstant := blurtRewardConstant
      percentCurationRewards := 50 * blurt1Percent
      percentContentRewards := blurt100Percent
      authorRewardCurve := .convergentLinear
      curationRewardCurve := .convergentSquareRoot }
  return {
    dgp :=
      { time := blurtGenesisTime
        currentWitness := blurtInitMinerName
        maximumBlockSize := blurtMaxBlockSize
        currentSupply := blurtInitSupply
        nextMaintenanceTime := blurtGenesisTime
        lastBudgetTime := blurtGenesisTime
        regentInitVestingShares := regentShares
        regentVestingShares := regentShares }
    wso :=
      { currentShuffledWitnesses := scheduleEntries [blurtInitMinerName]
        medianProps, accountSubsidyRd, accountSubsidyWitnessRd }
    processedHardforks := [blurtGenesisTime]
    rewardFunds := (∅ : Store Nat RewardFund).set 0 postFund }

/-- An initial witness with its account. -/
def createInitMiner (key : PublicKey) (db : Database) (i : Nat) : Except String Database := do
  let created ← db.createObject (initMinerName i)
    (fun id =>
      { id, memoKey := key
        balance := if i = 0 then blurtInitSupply - blurtInitPostRewardBalance else 0 })
    { owner := singleKey key, active := singleKey key, posting := singleKey key }
  let witness : Witness :=
    { id := created.nextIds.witness
      signingKey := key
      schedule := if i < blurtMaxVotedWitnessesHf17 then .elected else .timeshare }
  return { created with
    witnesses := created.witnesses.set (initMinerName i) witness
    nextIds := { created.nextIds with witness := created.nextIds.witness + 1 } }

/-- The import of one line of the snapshot, with the totals of the lines before it. -/
def importAccount (price : Price) (state : Database × Int × Int × Int) (line : AccountSnapshot) :
    Except String (Database × Int × Int × Int) := do
  let vestingShares ← price.toVests line.power
  let created ← state.1.createObject line.name
    (fun id => { id, memoKey := line.memo, balance := line.balance, vestingShares })
    { owner := line.owner, active := line.active, posting := line.posting }
  let totalBalance ← shareType (state.2.1 + line.balance)
  let totalVestingFund ← shareType (state.2.2.1 + line.power)
  let totalVestingShares ← shareType (state.2.2.2 + vestingShares)
  return (created, totalBalance, totalVestingFund, totalVestingShares)

/-- The import of `snapshot.json`, which the first initial witness pays for. -/
def importSnapshot (db : Database) (snapshot : List AccountSnapshot) : Except String Database := do
  let price ← db.dgp.getVestingSharePrice
  let (imported, totalBalance, totalVestingFundBlurt, totalVestingShares) ←
    Outcome.forEach (importAccount price) (db, 0, 0, 0) snapshot
  let total ← shareType (totalBalance + totalVestingFundBlurt)
  let dgp := { imported.dgp with totalVestingFundBlurt, totalVestingShares }
  let funded := { imported with dgp }
  funded.modifyAccount blurtInitMinerName fun a => do
    let balance ← shareType (a.balance - total)
    return { a with balance }

/-- The accounts of the protocol. -/
def createProtocolAccounts (db : Database) : Except String Database := do
  let closed : AccountAuthority := { owner := nobody, active := nobody, posting := nobody }
  let miner ← db.createObject blurtMinerAccount (fun id => { id }) closed
  let null ← miner.createObject blurtNullAccount (fun id => { id }) closed
  let treasury ← null.createObject blurtTreasuryAccount
    (fun id => { id, recoveryAccount := blurtTreasuryAccount }) closed
  treasury.createObject blurtTempAccount (fun id => { id })
    { owner := {}, active := {}, posting := nobody }

/-- `init_genesis` -/
def initGenesis (args : GenesisArgs) : Except String Database := do
  let objects ← genesisObjects
  let protocol ← objects.createProtocolAccounts
  let miners ← Outcome.forEach (createInitMiner args.initPublicKey) protocol
    (List.range blurtMaxWitnesses)
  let key := singleKey args.initPublicKey
  let regent ← miners.createObject blurtRegentAccount
    (fun id => { id, memoKey := args.initPublicKey }) { owner := key, active := key, posting := key }
  let imported ← regent.importSnapshot args.snapshot
  imported.resetVirtualScheduleTime

/-- The states of the ledger after a chain of blocks from genesis. -/
inductive Reachable (host : Host) : Database → Prop
  | genesis {args : GenesisArgs} {db : Database} (hgenesis : initGenesis args = .ok db) :
      Reachable host db
  | block {db db' : Database} {b : LedgerBlock} (hreachable : Reachable host db)
      (happly : applyBlock host db b = .ok db') : Reachable host db'

end Database

end Ledger

end Blurt
