import Blurt.Foundation.Outcome
import Blurt.ForkChain.Block
import Mathlib.Data.List.Sort
import Mathlib.Logic.Function.Basic

/-! # The chain state and the application of one block

The part of the object database that block production itself reads and writes:
the head of the chain, the slot accounting, and what every witness has last
confirmed. The remaining objects form a ledger, whose evaluators are parameters
of this layer.
-/

namespace Blurt

variable {σ T : Type}

/-- The block production fields of `dynamic_global_property_object`. -/
structure DynamicGlobalProperties where
  headBlockNumber : Nat := 0
  headBlockId : BlockId := .zero
  time : Nat
  currentAslot : Nat := 0
  recentSlotsFilled : Nat := 2 ^ 128 - 1
  participationCount : Nat := 128
  lastIrreversibleBlockNum : Nat := 0
  deriving DecidableEq, Repr

/-- The fields of `witness_object` that block production writes. -/
structure WitnessProduction where
  totalMissed : Nat := 0
  lastAslot : Nat := 0
  lastConfirmedBlockNum : Nat := 0
  deriving DecidableEq, Repr

structure ChainState (σ : Type) where
  dgp : DynamicGlobalProperties
  production : AccountName → WitnessProduction := fun _ => {}
  ledger : σ

/-- What `_apply_block` does outside block production. `applyTransactions` covers
the statements from the block size check to the last transaction,
`applyMaintenance` those from `create_block_summary` to `process_hardforks`. -/
structure LedgerLogic (σ T : Type) where
  /-- `get_witness( owner ).signing_key` -/
  signingKey : σ → AccountName → Option PublicKey
  /-- The first `num_scheduled_witnesses` entries of `current_shuffled_witnesses`. -/
  shuffledWitnesses : σ → List AccountName
  /-- `signed_block::calculate_merkle_root` -/
  calculateMerkleRoot : T → Checksum
  /-- `get_shared_db_merkle` -/
  sharedDbMerkle : Nat → Option Checksum
  applyTransactions : ChainState σ → SignedBlock T → Except String σ
  applyMaintenance : ChainState σ → SignedBlock T → Except String σ

namespace ChainState

/-- `database::get_slot_time`, in the 32 bits of a `time_point_sec`. -/
def getSlotTime (s : ChainState σ) (slotNum : Nat) : Nat :=
  if slotNum = 0 then 0
  else if s.dgp.headBlockNumber = 0 then
    (s.dgp.time + slotNum * blurtBlockInterval) % 2 ^ 32
  else
    (s.dgp.time / blurtBlockInterval * blurtBlockInterval + slotNum * blurtBlockInterval) % 2 ^ 32

/-- `database::get_slot_at_time` -/
def getSlotAtTime (s : ChainState σ) (when_ : Nat) : Nat :=
  if when_ < s.getSlotTime 1 then 0
  else (when_ - s.getSlotTime 1) / blurtBlockInterval + 1

/-- `database::get_scheduled_witness` -/
def getScheduledWitness (L : LedgerLogic σ T) (s : ChainState σ) (slotNum : Nat) : AccountName :=
  let witnesses := L.shuffledWitnesses s.ledger
  witnesses.getD ((s.dgp.currentAslot + slotNum) % witnesses.length) ""

/-- `database::validate_block_header` -/
def validateBlockHeader (L : LedgerLogic σ T) (s : ChainState σ) (b : SignedBlock T) :
    Except String Unit := do
  Outcome.ensure (s.dgp.headBlockId = b.previous) "head_block_id() == next_block.previous"
  Outcome.ensure (s.dgp.time < b.header.timestamp) "head_block_time() < next_block.timestamp"
  let signingKey ← Outcome.require (L.signingKey s.ledger b.header.witness) "unknown witness"
  Outcome.ensure (b.header.signee = signingKey) "next_block.validate_signee"
  Outcome.ensure (0 < s.getSlotAtTime b.header.timestamp) "slot_num > 0"
  Outcome.ensure
    (b.header.witness = s.getScheduledWitness L (s.getSlotAtTime b.header.timestamp))
    "Witness produced block at wrong time"

/-- The missed block loop of `update_global_dynamic_data`. -/
def countMissed (L : LedgerLogic σ T) (s : ChainState σ) (producer : AccountName)
    (production : AccountName → WitnessProduction) (slot : Nat) :
    Except String (AccountName → WitnessProduction) := do
  let missed := s.getScheduledWitness L (slot + 1)
  let _ ← Outcome.require (L.signingKey s.ledger missed) "unknown witness"
  if missed = producer then return production
  return Function.update production missed
    { production missed with totalMissed := (production missed).totalMissed + 1 }

/-- One turn of the participation loop of `update_global_dynamic_data`. -/
def shiftSlots (dgp : DynamicGlobalProperties) (i : Nat) : DynamicGlobalProperties :=
  { dgp with
    participationCount := dgp.participationCount - dgp.recentSlotsFilled / 2 ^ 127 +
      (if i = 0 then 1 else 0)
    recentSlotsFilled := dgp.recentSlotsFilled * 2 % 2 ^ 128 + (if i = 0 then 1 else 0) }

/-- `database::update_global_dynamic_data` -/
def updateGlobalDynamicData (L : LedgerLogic σ T) (s : ChainState σ) (b : SignedBlock T) :
    Except String (ChainState σ) := do
  let missedBlocks :=
    if s.dgp.time = 0 then 0 else s.getSlotAtTime b.header.timestamp - 1
  let production ← Outcome.forEach (s.countMissed L b.header.witness) s.production
    (List.range missedBlocks)
  let slots := (List.range (missedBlocks + 1)).foldl shiftSlots s.dgp
  let dgp : DynamicGlobalProperties :=
    { slots with
      headBlockNumber := b.blockNum
      headBlockId := b.id
      time := b.header.timestamp
      currentAslot := s.dgp.currentAslot + missedBlocks + 1
      lastIrreversibleBlockNum := s.dgp.lastIrreversibleBlockNum }
  Outcome.ensure ((dgp.headBlockNumber : Int) - dgp.lastIrreversibleBlockNum < blurtMaxUndoHistory)
    "The database does not have enough undo history"
  return { s with dgp, production }

/-- `database::update_signing_witness` -/
def updateSigningWitness (s : ChainState σ) (b : SignedBlock T) : ChainState σ :=
  let signed : WitnessProduction :=
    { s.production b.header.witness with
      lastAslot := s.dgp.currentAslot + s.getSlotAtTime b.header.timestamp
      lastConfirmedBlockNum := b.blockNum }
  { s with production := Function.update s.production b.header.witness signed }

/-- The number that `nth_element` selects in `update_last_irreversible_block`. -/
def confirmedNum (L : LedgerLogic σ T) (s : ChainState σ) : Option Nat :=
  let confirmed := (L.shuffledWitnesses s.ledger).map
    fun witness => (s.production witness).lastConfirmedBlockNum
  let offset := (blurt100Percent - blurtIrreversibleThreshold) * confirmed.length / blurt100Percent
  (confirmed.insertionSort (· ≤ ·))[offset]?

/-- `database::update_last_irreversible_block` -/
def updateLastIrreversibleBlock (L : LedgerLogic σ T) (s : ChainState σ) :
    Except String (ChainState σ) := do
  Outcome.ensure (∀ witness ∈ L.shuffledWitnesses s.ledger,
    (L.signingKey s.ledger witness).isSome) "unknown witness"
  let confirmed ← Outcome.require (s.confirmedNum L) "no scheduled witness"
  if s.dgp.lastIrreversibleBlockNum < confirmed then
    return { s with dgp := { s.dgp with lastIrreversibleBlockNum := confirmed } }
  return s

/-- The merkle check of `_apply_block`. -/
def checkMerkle (L : LedgerLogic σ T) (b : SignedBlock T) : Except String Unit :=
  Outcome.ensure
    (b.header.transactionMerkleRoot = L.calculateMerkleRoot b.transactions ∨
      L.sharedDbMerkle b.blockNum = some (L.calculateMerkleRoot b.transactions))
    "Merkle check failed"

/-- `database::_apply_block` up to `migrate_irreversible_state`. -/
def applyBlock (L : LedgerLogic σ T) (s : ChainState σ) (b : SignedBlock T) :
    Except String (ChainState σ) := do
  checkMerkle L b
  s.validateBlockHeader L b
  let ledger ← L.applyTransactions s b
  let updated ← ({ s with ledger } : ChainState σ).updateGlobalDynamicData L b
  let confirmed ← (updated.updateSigningWitness b).updateLastIrreversibleBlock L
  let ledger ← L.applyMaintenance confirmed b
  return { confirmed with ledger }

/-- The blocks of a branch, applied one after the other. -/
def applyAll (L : LedgerLogic σ T) (s : ChainState σ) (blocks : List (SignedBlock T)) :
    Except String (ChainState σ) :=
  Outcome.forEach (applyBlock L) s blocks

end ChainState

end Blurt
