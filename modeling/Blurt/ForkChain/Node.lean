import Blurt.ForkChain.ForkDatabase
import Blurt.ForkChain.ChainState

/-! # The node: undo history, block log and `push_block`

The object database is kept with its undo states, each a snapshot of the state
before a session together with the revision of the session. Pending transactions
and their undo session are left out: `push_block` drops them before it starts
and restores them after it ends.
-/

namespace Blurt

variable {σ T : Type}

/-- One element of the undo stack. -/
structure UndoState (σ : Type) where
  revision : Nat
  old : ChainState σ

structure Node (σ T : Type) where
  state : ChainState σ
  revision : Nat
  undoStack : List (UndoState σ) := []
  forkDb : ForkDatabase T := {}
  blockLog : List (SignedBlock T) := []

namespace Node

def headBlockId (n : Node σ T) : BlockId := n.state.dgp.headBlockId
def headBlockNum (n : Node σ T) : Nat := n.state.dgp.headBlockNumber

/-- `database::open` on a fresh or restarted node: nothing to undo, and the fork
database holds the head block alone. -/
def opened (state : ChainState σ) (blockLog : List (SignedBlock T)) : Node σ T where
  state := state
  revision := state.dgp.headBlockNumber
  blockLog := blockLog
  forkDb := match blockLog.getLast? with
    | none => {}
    | some head => ForkDatabase.startBlock {} head

/-- `start_undo_session`, newest session first. -/
def startUndoSession (n : Node σ T) : Node σ T :=
  { n with
    revision := n.revision + 1
    undoStack := ⟨n.revision + 1, n.state⟩ :: n.undoStack }

/-- `generic_index::undo` of every index; without a session it does nothing. -/
def undo (n : Node σ T) : Node σ T :=
  match n.undoStack with
  | [] => n
  | top :: rest => { n with state := top.old, revision := n.revision - 1, undoStack := rest }

/-- `commit`: discard the undo states up to a revision. -/
def commit (n : Node σ T) (revision : Nat) : Node σ T :=
  { n with undoStack := n.undoStack.takeWhile (fun u => decide (revision < u.revision)) }

/-- `block_log::append` -/
def appendLog (log : List (SignedBlock T)) (b : SignedBlock T) :
    Except String (List (SignedBlock T)) := do
  Outcome.ensure (log.length = b.blockNum - 1) "Append to index file occuring at wrong position."
  return log ++ [b]

/-- The number of the last logged block. -/
def logHeadNum (n : Node σ T) : Nat :=
  match n.blockLog.getLast? with
  | none => 0
  | some head => head.blockNum

/-- The blocks that `migrate_irreversible_state` writes out. -/
def blocksToWrite (n : Node σ T) : Except String (List (SignedBlock T)) :=
  Outcome.forEach
    (fun blocks i => do
      let item ← Outcome.require (n.forkDb.fetchBlockOnMainBranchByNumber (n.logHeadNum + i + 1))
        "Current fork in the fork database does not contain the last_irreversible_block"
      return blocks ++ [item.data])
    [] (List.range (n.state.dgp.lastIrreversibleBlockNum - n.logHeadNum))

/-- `database::migrate_irreversible_state` -/
def migrateIrreversibleState (n : Node σ T) : Except String (Node σ T) := do
  let dgp := n.state.dgp
  Outcome.ensure (∀ head ∈ n.forkDb.head, head.num = dgp.headBlockNumber) "Fork Head: Chain Head:"
  let blocks ← n.blocksToWrite
  let blockLog ← Outcome.forEach appendLog n.blockLog blocks
  let forkDb := n.forkDb.setMaxSize (dgp.headBlockNumber - dgp.lastIrreversibleBlockNum + 1)
  return ({ n with blockLog, forkDb } : Node σ T).commit dgp.lastIrreversibleBlockNum

/-- `database::apply_block` in an undo session that is kept if it completes. A
throwing call leaves the node as it was: the session is undone, and nothing
outside the session is written before the last statement that can throw. -/
def applyInSession (L : LedgerLogic σ T) (n : Node σ T) (b : SignedBlock T) :
    Except String (Node σ T) := do
  let session := n.startUndoSession
  let state ← session.state.applyBlock L b
  ({ session with state } : Node σ T).migrateIrreversibleState

/-- `database::fetch_block_by_id` -/
def fetchBlockById (n : Node σ T) (id : BlockId) : Option (SignedBlock T) :=
  match n.forkDb.find id with
  | some item => some item.data
  | none => n.blockLog.find? (fun b => b.id == id)

/-- `database::pop_block` -/
def popBlock (held : List (ForkItem T)) (n : Node σ T) : Except String (Node σ T) := do
  let _ ← Outcome.require (n.fetchBlockById n.headBlockId) "there are no blocks to pop"
  let forkDb ← n.forkDb.popBlock held
  return ({ n with forkDb } : Node σ T).undo

/-- A call that may throw after it has changed the node. -/
abbrev Partial (σ T α : Type) := Node σ T × Except String α

/-- `while( head_block_id() != target ) pop_block()`. Each turn lowers the head of
the fork database, so its number is fuel enough. -/
def popUntil (held : List (ForkItem T)) (target : BlockId) : Nat → Node σ T → Partial σ T Unit
  | fuel, n =>
      if n.headBlockId = target then (n, .ok ())
      else
        match fuel, n.popBlock held with
        | fuel + 1, .ok popped => popUntil held target fuel popped
        | _, .error message => (n, .error message)
        | 0, .ok popped => (popped, .error "out of fuel")

/-- The fuel of `popUntil`. -/
def popFuel (n : Node σ T) : Nat :=
  match n.forkDb.head with
  | none => 0
  | some head => head.num

/-- Set the fork database head to an item and apply its block. The item stays
head of the fork database when its block throws. -/
def applyItem (L : LedgerLogic σ T) (n : Node σ T) (item : ForkItem T) : Partial σ T Unit :=
  let moved : Node σ T := { n with forkDb := n.forkDb.setHead item }
  match moved.applyInSession L item.data with
  | .ok applied => (applied, .ok ())
  | .error message => (moved, .error message)

/-- Apply the items of a branch, oldest first, up to the first that throws; the
result holds the exception and the items from the throwing one on. -/
def applyItems (L : LedgerLogic σ T) :
    List (ForkItem T) → Node σ T → Node σ T × Option (String × List (ForkItem T))
  | [], n => (n, none)
  | item :: rest, n =>
      match n.applyItem L item with
      | (applied, .ok ()) => applyItems L rest applied
      | (failed, .error message) => (failed, some (message, item :: rest))

/-- The `if( except )` block of `_push_block`. -/
def restoreBranch (L : LedgerLogic σ T) (held second failed : List (ForkItem T))
    (ancestor : BlockId) (except : String) (n : Node σ T) : Partial σ T Bool :=
  let cleaned : Node σ T :=
    { n with forkDb := failed.foldl (fun fdb item => fdb.remove item.id) n.forkDb }
  match popUntil held ancestor cleaned.popFuel cleaned with
  | (popped, .error message) => (popped, .error message)
  | (popped, .ok ()) =>
      match applyItems L second.reverse popped with
      | (restored, none) => (restored, .error except)
      | (broken, some (message, _)) => (broken, .error message)

/-- The fork switch of `_push_block`, from `fetch_branch_from` on. -/
def switchFork (L : LedgerLogic σ T) (newHead : ForkItem T) (n : Node σ T) : Partial σ T Bool :=
  match n.forkDb.fetchBranchFrom newHead.id n.headBlockId with
  | .error message => (n, .error message)
  | .ok (first, second) =>
      let ancestor := match second.getLast? with
        | none => n.headBlockId
        | some last => last.data.previous
      let held := newHead :: first ++ second
      match popUntil held ancestor n.popFuel n with
      | (popped, .error message) => (popped, .error message)
      | (popped, .ok ()) =>
          match applyItems L first.reverse popped with
          | (switched, none) => (switched, .ok true)
          | (broken, some (message, failed)) =>
              restoreBranch L held second failed ancestor message broken

/-- `database::_push_block` -/
def _pushBlock (L : LedgerLogic σ T) (n : Node σ T) (b : SignedBlock T) : Partial σ T Bool :=
  match n.forkDb.pushBlock b with
  | .error message => (n, .error message)
  | .ok forkDb =>
      let linked : Node σ T := { n with forkDb }
      let direct : Partial σ T Bool :=
        match linked.applyInSession L b with
        | .ok applied => (applied, .ok false)
        | .error message =>
            ({ linked with forkDb := linked.forkDb.remove b.id }, .error message)
      match forkDb.head with
      | none => direct
      | some newHead =>
          if newHead.data.previous = n.headBlockId then direct
          else if n.headBlockNum < newHead.num then switchFork L newHead linked
          else (linked, .ok false)

/-- `database::push_block` on a node without checkpoints, with `skip_nothing`. -/
def pushBlock (L : LedgerLogic σ T) (n : Node σ T) (b : SignedBlock T) : Partial σ T Bool :=
  n._pushBlock L b

/-- The node after a run of `push_block` calls, whether they returned or threw. -/
def run (L : LedgerLogic σ T) (n : Node σ T) (blocks : List (SignedBlock T)) : Node σ T :=
  blocks.foldl (fun node b => (node.pushBlock L b).1) n

end Node

end Blurt
