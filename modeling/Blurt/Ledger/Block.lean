import Blurt.Ledger.Cashout
import Blurt.Ledger.Hardforks
import Blurt.Ledger.Maintenance
import Blurt.Ledger.SpsProcessor
import Blurt.Ledger.Transaction
import Blurt.Protocol.SignState

/-! # Blocks of the ledger

What `_apply_block` does to the object database, in its order: the header, the transactions
and the maintenance that follows them. Block ids, slots, irreversibility and the index of
transaction ids are not part of the ledger.
-/

namespace Blurt

namespace Ledger

/-- A transaction of a block, with the keys that signed it. -/
structure BlockTransaction where
  trx : SignedTransaction
  sigs : List PublicKey
  deriving DecidableEq, Repr

/-- The part of `signed_block` that the ledger reads. -/
structure LedgerBlock where
  timestamp : Nat
  witness : AccountName
  extensions : List BlockHeaderExtension := []
  transactions : List BlockTransaction := []
  /-- `fc::raw::pack_size( next_block )` -/
  packSize : Nat
  deriving DecidableEq, Repr

/-- The numbers of the blocks in `get_shared_db_merkle`. -/
def sharedDbMerkle : List Nat :=
  [3705111, 3705120, 3713940, 3714132, 3714567, 3714588, 4138790, 5435426]

namespace Database

/-- `get< account_authority_object, by_account >` -/
def getAuthority (db : Database) (role : AccountAuthority → Authority) : AuthorityGetter := fun name =>
  match db.authorities.find? name with
  | some auth => .ok (role auth)
  | none => .error "unknown key"

/-- The lookups that `_apply_transaction` passes to `verify_authority`. -/
def authorityGetters (db : Database) : AuthorityGetters :=
  ⟨db.getAuthority (·.active), db.getAuthority (·.owner), db.getAuthority (·.posting)⟩

/-- The check of the signatures in `_apply_transaction`. In a block of `sharedDbMerkle` a
missing active authority is no error. -/
def checkSignatures (db : Database) (t : BlockTransaction) : Except String Unit :=
  match verifyAuthority db.authorityGetters {} {} t.trx.operations t.sigs with
  | .ok _ => .ok ()
  | .error message =>
      if message = "Missing Active Authority ${id}" ∧
          db.dgp.headBlockNumber + 1 ∈ sharedDbMerkle then
        .ok ()
      else .error message

/-- The part of `_apply_transaction` that concerns the ledger. -/
def acceptTransaction (host : Host) (db : Database) (t : BlockTransaction) :
    Except String Database := do
  t.trx.validate host.rules
  db.checkSignatures t
  applyTransaction host db t.trx

/-- The part of `_apply_block` up to the transactions. -/
def openBlock (db : Database) (b : LedgerBlock) : Except String Database := do
  let started ← if db.dgp.headBlockNumber = 0 then db.startHardforks b.timestamp else .ok db
  Outcome.ensure (started.dgp.time < b.timestamp) "head_block_time() < next_block.timestamp"
  let _ ← started.getWitness b.witness
  Outcome.ensure (b.packSize ≤ started.dgp.maximumBlockSize) "Block Size is too Big"
  let signed := { started with dgp := { started.dgp with currentWitness := b.witness } }
  let extended ← signed.processHeaderExtensions b.witness b.extensions
  let witness ← extended.getWitness b.witness
  Outcome.ensure (extended.hardforks.currentHardforkVersion ≤ witness.runningVersion)
    "Block produced by witness that is not running current hardfork"
  return extended

/-- The part of `update_global_dynamic_data` that the ledger reads. -/
def setClock (db : Database) (b : LedgerBlock) : Database :=
  { db with dgp := { db.dgp with
      headBlockNumber := db.dgp.headBlockNumber + 1
      time := b.timestamp } }

/-- The maintenance of `_apply_block`, from the expired delegations on. -/
def maintain (host : Host) (db : Database) (headTime : Nat) :
    Except String Database := do
  let returned ← db.clearExpiredDelegations
  let scheduled ← returned.updateWitnessSchedule
  let burned ← scheduled.clearNullAccountBalance
  let funded ← burned.processFunds
  let cashed ← processCommentCashout host.clearVotes funded
  let withdrawn ← cashed.processVestingWithdrawals
  let saved ← withdrawn.processSavingsWithdraws
  let subsidized ← saved.processSubsidizedAccounts
  let recovered ← subsidized.accountRecoveryProcessing
  let expired ← recovered.expireEscrowRatification
  let declined ← expired.processDeclineVotingRights
  let proposed ← processProposals host declined headTime
  let decayed ← proposed.processRegentAccount
  decayed.processHardforks

/-- `_apply_block` -/
def applyBlock (host : Host) (db : Database) (b : LedgerBlock) :
    Except String Database := do
  let opened ← db.openBlock b
  let applied ← Outcome.forEach (acceptTransaction host) opened b.transactions
  maintain host (applied.setClock b) b.timestamp

end Database

end Ledger

end Blurt
