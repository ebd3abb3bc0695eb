import Blurt.ForkChain.Node
import Mathlib.Logic.Function.Basic

/-! # Block synopses for syncing peers

A node that wants blocks describes its chain by a few block ids, spaced by
halving the remaining distance; its peer answers with the ids that follow the
last one it shares. Both sides look block ids up by number in the block
summaries, the block log and the fork database, in that order.
-/

namespace Blurt

open Outcome

variable {σ T : Type}

/-- The `block_summary_object`s beside the other objects. -/
structure Summarized (σ : Type) where
  blockSummary : Nat → BlockId := fun _ => .zero
  rest : σ

/-- `database::create_block_summary` -/
def Summarized.createBlockSummary (s : Summarized σ) (b : SignedBlock T) : Summarized σ :=
  { s with blockSummary := Function.update s.blockSummary (b.blockNum % 2 ^ 16) b.id }

/-- The evaluators read the block summaries but do not write them;
`create_block_summary` is the first statement of the maintenance. -/
def LedgerLogic.withSummaries (L : LedgerLogic (Summarized σ) T) :
    LedgerLogic (Summarized σ) T :=
  { L with
    applyTransactions := fun s b => do
      let after ← L.applyTransactions s b
      return { s.ledger with rest := after.rest }
    applyMaintenance := fun s b => do
      let ledger := s.ledger.createBlockSummary b
      let after ← L.applyMaintenance { s with ledger } b
      return { ledger with rest := after.rest } }

/-- Where the loop of `get_blockchain_synopsis` starts and ends. -/
structure SynopsisMarks where
  lowBlockNum : Nat
  highBlockNum : Nat
  nonForkHighBlockNum : Nat
  forkHistory : List BlockId := []
  deriving DecidableEq, Repr

namespace Node

/-- `block_log::read_block_by_num` -/
def readBlockByNum (n : Node σ T) (blockNum : Nat) : Except String (Option (SignedBlock T)) :=
  if 0 < blockNum ∧ blockNum ≤ n.logHeadNum then do
    let b ← require n.blockLog[blockNum - 1]? "read past the end of the block log"
    ensure (b.blockNum = blockNum) "Wrong block was read from block log."
    return some b
  else return none

/-- `database::is_known_block` -/
def isKnownBlock (n : Node σ T) (id : BlockId) : Bool := (n.fetchBlockById id).isSome

/-- `database::last_non_undoable_block_num` -/
def lastNonUndoableBlockNum (n : Node σ T) : Nat := n.state.dgp.lastIrreversibleBlockNum

/-- `database::get_block_ids_on_fork`: from the head of the fork down to the block that
both branches stand on. -/
def getBlockIdsOnFork (n : Node σ T) (headOfFork : BlockId) : Except String (List BlockId) := do
  let (first, second) ← n.forkDb.fetchBranchFrom n.headBlockId headOfFork
  let last ← require first.getLast? "branches.first.back()"
  return second.map ForkItem.id ++ [last.data.previous]

section Lookup

variable (n : Node (Summarized σ) T)

/-- `database::find_block_id_for_num` -/
def findBlockIdForNum (blockNum : Nat) : Except String BlockId :=
  let summary := n.state.ledger.blockSummary (blockNum % 2 ^ 16)
  if blockNum = 0 then .ok .zero
  else if summary.num = blockNum then .ok summary
  else do
    match ← n.readBlockByNum blockNum with
    | some b => return b.id
    | none =>
        match n.forkDb.fetchBlockOnMainBranchByNumber blockNum with
        | some item => return item.id
        | none => return .zero

/-- `database::get_block_id_for_num` -/
def getBlockIdForNum (blockNum : Nat) : Except String BlockId := do
  let bid ← n.findBlockIdForNum blockNum
  ensure (bid ≠ .zero) "bid != block_id_type()"
  return bid

/-- `p2p_plugin_impl::is_included_block` -/
def isIncludedBlock (id : BlockId) : Except String Bool := do
  let preferred ← n.getBlockIdForNum id.num
  return decide (id = preferred)

end Lookup

section Synopsis

variable (n : Node (Summarized σ) T)

/-- `get_blockchain_synopsis` up to its loop; nothing when there are no blocks. -/
def synopsisMarks (referencePoint : BlockId) : Except String (Option SynopsisMarks) := do
  let lowBlockNum := n.lastNonUndoableBlockNum
  if referencePoint ≠ .zero then
    if ← n.isIncludedBlock referencePoint then
      return some {
        lowBlockNum := if referencePoint.num < lowBlockNum then referencePoint.num else lowBlockNum
        highBlockNum := referencePoint.num
        nonForkHighBlockNum := referencePoint.num }
    else
      let history ← n.getBlockIdsOnFork referencePoint
      let lastNonForkBlock ← require history.getLast? "fork_history.back()"
      let forkHistory := history.dropLast.reverse
      ensure (lowBlockNum ≤ lastNonForkBlock.num) "Peer is are on a fork I'm unable to switch to"
      return some {
        lowBlockNum
        highBlockNum := (lastNonForkBlock.num + forkHistory.length) % 2 ^ 32
        nonForkHighBlockNum := lastNonForkBlock.num
        forkHistory }
  else if n.headBlockNum = 0 then
    return none
  else
    return some { lowBlockNum, highBlockNum := n.headBlockNum, nonForkHighBlockNum := n.headBlockNum }

/-- The id that the loop adds for a number: of the main chain, or of the fork above it. -/
def synopsisBlockId (marks : SynopsisMarks) (lowBlockNum : Nat) : Except String BlockId :=
  if lowBlockNum ≤ marks.nonForkHighBlockNum then n.getBlockIdForNum lowBlockNum
  else require marks.forkHistory[lowBlockNum - marks.nonForkHighBlockNum - 1]? "fork_history[]"

/-- `low_block_num + ( true_high_block_num - low_block_num + 2 ) / 2` in `uint32_t`. -/
def nextLowBlockNum (trueHighBlockNum lowBlockNum : Nat) : Nat :=
  (lowBlockNum + (trueHighBlockNum + 2 ^ 32 - lowBlockNum + 2) % 2 ^ 32 / 2) % 2 ^ 32

/-- The `do … while` loop of `get_blockchain_synopsis`. -/
def synopsisLoop (marks : SynopsisMarks) (trueHighBlockNum : Nat) :
    (turns lowBlockNum : Nat) → List BlockId → Except String (List BlockId)
  | 0, _, _ => .error "the loop does not end"
  | turns + 1, lowBlockNum, synopsis => do
      let id ← n.synopsisBlockId marks lowBlockNum
      let next := nextLowBlockNum trueHighBlockNum lowBlockNum
      if next ≤ marks.highBlockNum then
        synopsisLoop marks trueHighBlockNum turns next (synopsis ++ [id])
      else return synopsis ++ [id]

/-- `p2p_plugin_impl::get_blockchain_synopsis`, with a bound on the turns of its loop. -/
def getBlockchainSynopsis (turns : Nat) (referencePoint : BlockId)
    (numberOfBlocksAfterReferencePoint : Nat) : Except String (List BlockId) := do
  match ← n.synopsisMarks referencePoint with
  | none => return []
  | some marks =>
      let lowBlockNum := if marks.lowBlockNum = 0 then 1 else marks.lowBlockNum
      let trueHighBlockNum := (marks.highBlockNum + numberOfBlocksAfterReferencePoint) % 2 ^ 32
      n.synopsisLoop marks trueHighBlockNum turns lowBlockNum []

end Synopsis

section BlockIds

variable (n : Node (Summarized σ) T)

/-- The search of `get_block_ids` through the synopsis, from its end. -/
def lastKnownBlockId : List BlockId → Except String BlockId
  | [] => .error "Unable to provide a list of blocks starting at any of the blocks in peer's synopsis"
  | id :: rest =>
      if id = .zero then .ok id
      else if n.isKnownBlock id then do
        if ← n.isIncludedBlock id then return id
        lastKnownBlockId rest
      else lastKnownBlockId rest

/-- One turn of the listing loop of `get_block_ids`; `++num` in `uint32_t`. -/
def listBlockId (progress : Nat × List BlockId) (num : Nat) : Except String (Nat × List BlockId) :=
  if 0 < num then do
    let id ← n.getBlockIdForNum num
    return ((num + 1) % 2 ^ 32, progress.2 ++ [id])
  else return ((num + 1) % 2 ^ 32, progress.2)

/-- `p2p_plugin_impl::get_block_ids`, which also returns `remaining_item_count`. Every turn
of its loop adds an id, or passes the number 0. -/
def getBlockIds (blockchainSynopsis : List BlockId) (limit : Nat) :
    Except String (List BlockId × Nat) := do
  if n.headBlockNum = 0 then return ([], 0)
  let lastKnown ←
    if blockchainSynopsis = [] ∨ blockchainSynopsis = [.zero] then pure .zero
    else n.lastKnownBlockId blockchainSynopsis.reverse
  let (_, result) ← drain
    (fun progress : Nat × List BlockId =>
      if progress.1 ≤ n.headBlockNum ∧ progress.2.length < limit then some progress.1 else none)
    n.listBlockId (limit + 3) (lastKnown.num, [])
  match result.getLast? with
  | some last =>
      if last.num < n.headBlockNum then return (result, n.headBlockNum - last.num)
      return (result, 0)
  | none => return (result, 0)

end BlockIds

end Node

end Blurt
