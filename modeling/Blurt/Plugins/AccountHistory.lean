import Blurt.Foundation.Paging
import Blurt.Foundation.Store

/-! # The store of the account history

`account_history_rocksdb_plugin` writes operations into a key-value store under their ids and under
their blocks. In the second column the ids of virtual operations have a flag. An iterator of the
store goes through a column in the order of its keys.
-/

namespace Blurt

namespace AccountHistory

open Outcome

/-- `rocksdb_operation_object` -/
structure OperationObject where
  id : Nat
  trxId : List UInt8
  block : Nat
  trxInBlock : Nat
  opInTrx : Nat
  virtualOp : Nat
  timestamp : Nat
  serializedOp : List UInt8
  deriving DecidableEq, Repr

/-- `VIRTUAL_OP_FLAG` -/
def virtualOpFlag : Nat := 0x8000000000000000

/-- The second part of the key of an operation in the column of blocks. -/
def OperationObject.encodedId (obj : OperationObject) : Nat :=
  if 0 < obj.virtualOp then obj.id ||| virtualOpFlag else obj.id

/-- `block_op_id_pair` -/
abbrev BlockOpId := Nat × Nat

/-- The order of `op_by_block_num_Comparator`. -/
def BlockOpId.le (x y : BlockOpId) : Prop := x.1 < y.1 ∨ x.1 = y.1 ∧ x.2 ≤ y.2

instance (x y : BlockOpId) : Decidable (x.le y) := inferInstanceAs (Decidable (_ ∨ _))

/-- The columns of the store that operations are written to, and the stored `OPERATION_SEQ_ID`. -/
structure Storage where
  operationById : Store Nat OperationObject := ∅
  operationByBlock : Store BlockOpId Nat := ∅
  operationSeqId : Nat := 0

namespace Storage

/-- The puts of one operation. -/
def put (s : Storage) (obj : OperationObject) : Storage :=
  { s with
    operationById := s.operationById.set obj.id obj
    operationByBlock := s.operationByBlock.set (obj.block, obj.encodedId) obj.id }

/-- The entries that an iterator visits from a key on, before its upper bound. -/
def iterate (s : Storage) (seek : BlockOpId) (upperBound : Option BlockOpId) :
    List (BlockOpId × Nat) :=
  (s.operationByBlock.ordered (fun x y => x.1.le y.1) fun _ _ => true).filter fun entry =>
    seek.le entry.1 ∧ ∀ bound ∈ upperBound, ¬ bound.le entry.1

/-- `find_operation_object` -/
def findOperationObject (s : Storage) (opId : Nat) : Option OperationObject :=
  s.operationById.find? opId

/-- Whether the key of an entry has the flag. -/
def isVirtual (key : BlockOpId) : Bool := key.2 &&& virtualOpFlag ≠ 0

/-- The loop over a range: the operations that are given to the processor, and the block of the
last one. -/
def processVirtual (s : Storage) : List (BlockOpId × Nat) → Nat →
    Except String (List OperationObject × Nat)
  | [], lastFoundBlock => .ok ([], lastFoundBlock)
  | (key, opId) :: rest, lastFoundBlock =>
      if isVirtual key then do
        let op ← Outcome.require (s.findOperationObject opId) "found"
        let (ops, lastFoundBlock) ← s.processVirtual rest op.block
        return (op :: ops, lastFoundBlock)
      else
        s.processVirtual rest lastFoundBlock

/-- `enumVirtualOperationsFromBlockRange`: the operations that are given to the processor, and the
block that is returned. -/
def enumVirtualOperationsFromBlockRange (s : Storage) (blockRangeBegin blockRangeEnd : Nat) :
    Except String (List OperationObject × Nat) := do
  Outcome.ensure (blockRangeBegin < blockRangeEnd) "Block range must be upward"
  let (ops, lastFoundBlock) ←
    s.processVirtual (s.iterate (blockRangeBegin, 0) (some (blockRangeEnd, 0))) 0
  let next := (s.iterate (lastFoundBlock + 1, 0) none).find? fun entry => isVirtual entry.1
  return (ops, (next.map fun entry => entry.1.1).getD 0)

end Storage

/-- The part of the plugin that writes. -/
structure Plugin where
  storage : Storage := {}
  /-- The operations whose puts are in the write buffer. -/
  writeBuffer : List OperationObject := []
  operationSeqId : Nat := 0
  collectedOps : Nat := 0
  collectedOpsWriteLimit : Nat := 1

namespace Plugin

/-- `flushWriteBuffer` -/
def flushWriteBuffer (p : Plugin) : Plugin :=
  { p with
    storage := { p.writeBuffer.foldl Storage.put p.storage with operationSeqId := p.operationSeqId }
    writeBuffer := []
    collectedOps := 0 }

/-- `importOperation` without the history of the impacted accounts. -/
def importOperation (p : Plugin) (obj : OperationObject) : Plugin :=
  let collected : Plugin :=
    { p with
      writeBuffer := p.writeBuffer ++ [{ obj with id := p.operationSeqId }]
      operationSeqId := p.operationSeqId + 1
      collectedOps := p.collectedOps + 1 }
  if collected.collectedOpsWriteLimit ≤ collected.collectedOps then collected.flushWriteBuffer
  else collected

/-- The plugin after a start with what was stored. -/
def reopen (p : Plugin) : Plugin :=
  { storage := p.storage, operationSeqId := p.storage.operationSeqId }

/-- The states of the plugin: operations are imported, buffered writes are flushed, the write limit
changes, and the plugin starts again, with its buffer lost, or with an empty store. -/
inductive Reachable : Plugin → Prop
  | start : Reachable {}
  | importOperation {p : Plugin} (h : Reachable p) (obj : OperationObject) :
      Reachable (p.importOperation obj)
  | flush {p : Plugin} (h : Reachable p) : Reachable p.flushWriteBuffer
  | limit {p : Plugin} (h : Reachable p) (limit : Nat) :
      Reachable { p with collectedOpsWriteLimit := limit }
  | reopen {p : Plugin} (h : Reachable p) : Reachable p.reopen

end Plugin

end AccountHistory

end Blurt
