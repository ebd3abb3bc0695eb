import Blurt.ForkChain.TransactionIndex

/-! # Pending transactions

`push_transaction` applies a transaction on top of the head block, in an undo session that
stays open until the next block. `push_block` closes that session first, and when it has
returned or thrown it applies the transactions of popped blocks and the pending ones again.
The execution time limit of that destructor is left out: it never hits.
-/

namespace Blurt

/-- What `_apply_transaction` does for `push_transaction`, where `is_producing` and
`is_pending_tx` are set, besides what it does for a block. -/
structure PoolLogic (σ O : Type) extends BlockLogic σ O where
  /-- `fc::raw::pack_size( trx ) <= maximum_block_size - 256` -/
  checkSize : σ → BlockTransaction O → Except String Unit
  /-- `process_tx_fee` and the operations, with both flags set. -/
  evaluatePending : DynamicGlobalProperties → σ → BlockTransaction O → Except String σ

/-- `_apply_transaction` under the flags that `push_transaction` sets. -/
def PoolLogic.pending {σ O : Type} (P : PoolLogic σ O) : BlockLogic σ O :=
  { P.toBlockLogic with evaluate := P.evaluatePending }

/-- `generic_index::squash` of every index. -/
def Node.squash {σ T : Type} (n : Node σ T) : Node σ T :=
  match n.undoStack with
  | [] => n
  | _ :: rest => { n with revision := n.revision - 1, undoStack := rest }

variable {σ O : Type}

/-- A node whose object database carries a transaction index. -/
abbrev GuardedNode (σ O : Type) := Node (Guarded σ O) (List (BlockTransaction O))

/-- The members of `database` that handle transactions between blocks. -/
structure Pool (σ O : Type) where
  node : GuardedNode σ O
  pendingTx : List (BlockTransaction O) := []
  poppedTx : List (BlockTransaction O) := []
  /-- `_pending_tx_session.valid()` -/
  pendingSession : Bool := false

namespace Pool

/-! ## Blocks -/

/-- A call that may throw after it has changed the node or `_popped_tx`. -/
abbrev Partial (σ O α : Type) := Pool σ O × Except String α

/-- `_pending_tx_session.reset()` -/
def resetSession (p : Pool σ O) : Pool σ O :=
  if p.pendingSession then { p with node := p.node.undo, pendingSession := false } else p

/-- `database::pop_block` -/
def popBlock (held : List (ForkItem (List (BlockTransaction O)))) (p : Pool σ O) :
    Except String (Pool σ O) := do
  let p := p.resetSession
  let headBlock ← Outcome.require (p.node.fetchBlockById p.node.headBlockId)
    "there are no blocks to pop"
  let node ← p.node.popBlock held
  return { p with node, poppedTx := headBlock.transactions ++ p.poppedTx }

/-- `while( head_block_id() != target ) pop_block()` -/
def popUntil (held : List (ForkItem (List (BlockTransaction O)))) (target : BlockId) :
    Nat → Pool σ O → Partial σ O Unit
  | fuel, p =>
      if p.node.headBlockId = target then (p, .ok ())
      else
        match fuel, p.popBlock held with
        | fuel + 1, .ok popped => popUntil held target fuel popped
        | _, .error message => (p, .error message)
        | 0, .ok popped => (popped, .error "out of fuel")

variable [DecidableEq O] (P : PoolLogic σ O)

/-- The blocks of a branch are applied to the node alone. -/
def applyItems (items : List (ForkItem (List (BlockTransaction O)))) (p : Pool σ O) :
    Pool σ O × Option (String × List (ForkItem (List (BlockTransaction O)))) :=
  match Node.applyItems (Guarded.logic P.toBlockLogic) items p.node with
  | (node, stopped) => ({ p with node }, stopped)

/-- The `if( except )` block of `_push_block`. -/
def restoreBranch (held second failed : List (ForkItem (List (BlockTransaction O))))
    (ancestor : BlockId) (except : String) (p : Pool σ O) : Partial σ O Bool :=
  let forkDb := failed.foldl (fun fdb item => fdb.remove item.id) p.node.forkDb
  let cleaned : Pool σ O := { p with node := { p.node with forkDb } }
  match popUntil held ancestor cleaned.node.popFuel cleaned with
  | (popped, .error message) => (popped, .error message)
  | (popped, .ok ()) =>
      match popped.applyItems P second.reverse with
      | (restored, none) => (restored, .error except)
      | (broken, some (message, _)) => (broken, .error message)

/-- The fork switch of `_push_block`, from `fetch_branch_from` on. -/
def switchFork (newHead : ForkItem (List (BlockTransaction O))) (p : Pool σ O) :
    Partial σ O Bool :=
  match p.node.forkDb.fetchBranchFrom newHead.id p.node.headBlockId with
  | .error message => (p, .error message)
  | .ok (first, second) =>
      let ancestor := p.node.branchPoint second
      let held := newHead :: first ++ second
      match popUntil held ancestor p.node.popFuel p with
      | (popped, .error message) => (popped, .error message)
      | (popped, .ok ()) =>
          match popped.applyItems P first.reverse with
          | (switched, none) => (switched, .ok true)
          | (broken, some (message, failed)) =>
              restoreBranch P held second failed ancestor message broken

/-- `database::_push_block` -/
def _pushBlock (p : Pool σ O) (b : SignedBlock (List (BlockTransaction O))) :
    Partial σ O Bool :=
  match p.node.forkDb.pushBlock b with
  | .error message => (p, .error message)
  | .ok forkDb =>
      let linked : Pool σ O := { p with node := { p.node with forkDb } }
      let direct : Partial σ O Bool :=
        match linked.node.applyInSession (Guarded.logic P.toBlockLogic) b with
        | .ok applied => ({ linked with node := applied }, .ok false)
        | .error message =>
            ({ linked with node := { linked.node with forkDb := linked.node.forkDb.remove b.id } },
              .error message)
      match forkDb.head with
      | none => direct
      | some newHead =>
          if newHead.data.previous = p.node.headBlockId then direct
          else if p.node.headBlockNum < newHead.num then switchFork P newHead linked
          else (linked, .ok false)

/-! ## Transactions -/

/-- `database::_push_transaction`, under the flags that `B` stands for. A throwing call
leaves the pending session open and closes the temporary one. -/
def _pushTransaction (B : BlockLogic σ O) (p : Pool σ O) (trx : BlockTransaction O) :
    Partial σ O Unit :=
  let p := if p.pendingSession then p
    else { p with node := p.node.startUndoSession, pendingSession := true }
  let temp := p.node.startUndoSession
  match Guarded.applyTransaction B temp.state.dgp temp.state.ledger trx with
  | .ok ledger =>
      let applied : GuardedNode σ O := { temp with state := { temp.state with ledger } }
      ({ p with node := applied.squash, pendingTx := p.pendingTx ++ [trx] }, .ok ())
  | .error message => ({ p with node := temp.undo }, .error message)

/-- `database::push_transaction` -/
def pushTransaction (p : Pool σ O) (trx : BlockTransaction O) : Partial σ O Unit :=
  match P.checkSize p.node.state.ledger.rest trx with
  | .ok () => p._pushTransaction P.pending trx
  | .error message => (p, .error message)

/-- `database::is_known_transaction` -/
def isKnownTransaction (p : Pool σ O) (id : TransactionId O) : Bool :=
  (p.node.state.ledger.transactions.find? id).isSome

/-- `database::clear_pending` -/
def clearPending (p : Pool σ O) : Pool σ O := { p.resetSession with pendingTx := [] }

/-- A turn of either loop of `~pending_transactions_restorer`. -/
def retry (p : Pool σ O) (trx : BlockTransaction O) : Pool σ O :=
  if p.isKnownTransaction trx.id then p else (p._pushTransaction P.toBlockLogic trx).1

/-- `~pending_transactions_restorer` -/
def restorePending (pendingTransactions : List (BlockTransaction O)) (p : Pool σ O) : Pool σ O :=
  let retried := p.poppedTx.foldl (retry P) p
  pendingTransactions.foldl (retry P) { retried with poppedTx := [] }

/-- `database::push_block`: the restorer runs when the callback has returned or thrown. -/
def pushBlock (p : Pool σ O) (b : SignedBlock (List (BlockTransaction O))) : Partial σ O Bool :=
  let (pushed, result) := p.clearPending._pushBlock P b
  (pushed.restorePending P p.pendingTx, result)

/-- A call from outside. -/
inductive Call (O : Type)
  | transaction (trx : BlockTransaction O)
  | block (b : SignedBlock (List (BlockTransaction O)))

/-- The members after a call, whether it returned or threw. -/
def call (p : Pool σ O) : Call O → Pool σ O
  | .transaction trx => (p.pushTransaction P trx).1
  | .block b => (p.pushBlock P b).1

def run (p : Pool σ O) (calls : List (Call O)) : Pool σ O := calls.foldl (call P) p

/-- The blocks among the calls. -/
def blocksOf (calls : List (Call O)) : List (SignedBlock (List (BlockTransaction O))) :=
  calls.filterMap fun
    | .transaction _ => none
    | .block b => some b

end Pool

end Blurt
