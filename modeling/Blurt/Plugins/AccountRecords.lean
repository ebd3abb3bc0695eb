import Blurt.Plugins.AccountHistory
import Blurt.Protocol.Types

/-! # The histories of accounts

Both history plugins number the operations of an account and drop old ones. The account_history
plugin keeps objects of the chain's database. The account_history_rocksdb plugin keeps an info for
each account that says which numbers are stored, writes to a buffer and reads what is flushed.
-/

namespace Blurt

namespace AccountHistory

open Outcome

/-- `fc::days( 30 )`, in seconds. -/
def thirtyDays : Nat := 30 * 24 * 60 * 60

/-- `now - timestamp > fc::days( 30 )` -/
def tooOld (now timestamp : Nat) : Bool := (thirtyDays : Int) < (now : Int) - timestamp

/-- The checks of `get_account_history`. -/
def checkLimit (start limit : Nat) : Except String Unit := do
  Outcome.ensure (limit ≤ 10000) "limit of ${l} is greater than maxmimum allowed"
  Outcome.ensure (limit ≤ start) "start must be greater than limit"

/-! ## Objects of the database -/

/-- The indexes that the account_history plugin writes: the operations, and the
`account_history_object`s under account and sequence. -/
structure HistoryIndexes where
  operations : Store Nat OperationObject := ∅
  nextOperationId : Nat := 0
  history : Store (AccountName × Nat) Nat := ∅

namespace HistoryIndexes

/-- The objects of an account by their sequences, the lowest first. -/
def rowsOf (h : HistoryIndexes) (item : AccountName) : List (Nat × Nat) :=
  (h.history.ordered (fun x y => x.1.2 ≤ y.1.2) fun key _ => key.1 = item).map
    fun row => (row.1.2, row.2)

/-- The objects that `operation_visitor` removes: from the lowest sequence on, those that are more
than 30 behind and older than 30 days. Sequences are `uint32_t`. -/
def toRemove (h : HistoryIndexes) (item : AccountName) (sequence now : Nat) : List (Nat × Nat) :=
  ((h.rowsOf item).filter fun row => 0 < row.1).takeWhile fun row =>
    30 < (sequence + 2 ^ 32 - row.1) % 2 ^ 32 &&
      ((h.operations.find? row.2).map fun op => tooOld now op.timestamp).getD false

/-- The sequence of a new object, after the highest one. -/
def newSequence (h : HistoryIndexes) (item : AccountName) : Nat :=
  match (h.rowsOf item).getLast? with
  | some row => (row.1 + 1) % 2 ^ 32
  | none => 1

/-- `operation_visitor` for an account that the operation impacts. -/
def visit (prune : Bool) (obj : OperationObject) (h : HistoryIndexes) (item : AccountName) :
    Except String HistoryIndexes := do
  let sequence := h.newSequence item
  Outcome.ensure (h.history.find? (item, sequence)).isNone "could not insert object"
  let created := { h with history := h.history.set (item, sequence) obj.id }
  if prune then
    let removed := created.toRemove item sequence obj.timestamp
    return { created with
      history := removed.foldl (fun history row => history.remove (item, row.1)) created.history }
  else
    return created

/-- `on_pre_apply_operation` for the tracked accounts that the operation impacts. The first of them
has the operation stored. -/
def onOperation (prune : Bool) (h : HistoryIndexes) (obj : OperationObject)
    (impacted : List AccountName) : Except String HistoryIndexes :=
  if impacted = [] then .ok h
  else
    let stored := { obj with id := h.nextOperationId }
    Outcome.forEach (visit prune stored)
      { h with
        operations := h.operations.set h.nextOperationId stored
        nextOperationId := h.nextOperationId + 1 } impacted

/-- `get_account_history`: the entries of an account from a sequence down. A comparison with a
sequence has `start` as a `uint32_t`. -/
def getAccountHistory (h : HistoryIndexes) (account : AccountName) (start limit : Nat) :
    Except String (List (Nat × OperationObject)) := do
  checkLimit start limit
  let rows := (h.rowsOf account).reverse.filter fun row => row.1 ≤ start % 2 ^ 32
  (rows.take limit).mapM fun row => do
    let op ← Outcome.require (h.operations.find? row.2) "unknown key"
    return (row.1, op)

end HistoryIndexes

/-! ## The store -/

/-- `account_history_info` -/
structure AccountHistoryInfo where
  id : Nat
  oldestEntryId : Nat
  newestEntryId : Nat
  oldestEntryTimestamp : Nat
  deriving DecidableEq

/-- `getAssociatedOpCount`, a `uint32_t` -/
def AccountHistoryInfo.getAssociatedOpCount (info : AccountHistoryInfo) : Nat :=
  (info.newestEntryId + 2 ^ 32 - info.oldestEntryId + 1) % 2 ^ 32

/-- The columns of the store: those of the operations, `AH_INFO_BY_NAME`, and `AH_OPERATION_BY_ID`
under the id of an info and the number of an entry. -/
structure Columns extends Storage where
  infoByName : Store AccountName AccountHistoryInfo := ∅
  entryById : Store (Nat × Nat) Nat := ∅
  accountHistorySeqId : Nat := 0

/-- A write that is buffered. -/
inductive Write
  | operation (obj : OperationObject)
  | info (name : AccountName) (info : AccountHistoryInfo)
  | entry (key : Nat × Nat) (opId : Nat)
  | deleteEntry (key : Nat × Nat)
  -- the key of an entry, in the column of the infos
  | deleteInfo (key : Nat × Nat)

section Plugin

-- the name whose 16 bytes are those of the key of an entry, if there is one
variable (nameOfKey : Nat × Nat → Option AccountName)

def Columns.write (c : Columns) : Write → Columns
  | .operation obj => { c with toStorage := c.toStorage.put obj }
  | .info name info => { c with infoByName := c.infoByName.set name info }
  | .entry key opId => { c with entryById := c.entryById.set key opId }
  | .deleteEntry key => { c with entryById := c.entryById.remove key }
  | .deleteInfo key =>
    match nameOfKey key with
    | some name => { c with infoByName := c.infoByName.remove name }
    | none => c

/-- `account_history_rocksdb_plugin::impl` -/
structure RecordPlugin where
  storage : Columns := {}
  writeBuffer : List Write := []
  /-- `_ahInfoCache` of the write buffer -/
  infoCache : Store AccountName AccountHistoryInfo := ∅
  operationSeqId : Nat := 0
  accountHistorySeqId : Nat := 0
  collectedOps : Nat := 0
  collectedOpsWriteLimit : Nat := 1

namespace RecordPlugin

def write (p : RecordPlugin) (w : Write) : RecordPlugin :=
  { p with writeBuffer := p.writeBuffer ++ [w] }

/-- What is stored, the buffered writes counted. -/
def view (p : RecordPlugin) : Columns := p.writeBuffer.foldl (Columns.write nameOfKey) p.storage

/-- `getAHInfo` -/
def getAHInfo (p : RecordPlugin) (name : AccountName) : Option AccountHistoryInfo :=
  match p.infoCache.find? name with
  | some info => some info
  | none => p.storage.infoByName.find? name

/-- `putAHInfo` -/
def putAHInfo (p : RecordPlugin) (name : AccountName) (info : AccountHistoryInfo) : RecordPlugin :=
  { p.write (.info name info) with infoCache := p.infoCache.set name info }

/-- The order of `ah_op_by_id_Comparator`. -/
def entryLe (x y : Nat × Nat) : Prop := x.1 < y.1 ∨ x.1 = y.1 ∧ x.2 ≤ y.2

instance (x y : Nat × Nat) : Decidable (entryLe x y) := inferInstanceAs (Decidable (_ ∨ _))

/-- The flushed entries between two bounds that an iterator goes through. -/
def iterate (p : RecordPlugin) (lower upper : Nat × Nat) : List ((Nat × Nat) × Nat) :=
  (p.storage.entryById.ordered (fun x y => entryLe x.1 y.1) fun _ _ => true).filter fun row =>
    entryLe lower row.1 ∧ ¬ entryLe upper row.1

/-- The loop of `prunePotentiallyTooOldItems`. That the oldest entry is not newer than the newest
one is asserted there and follows from the bound. -/
def pruneEntries (now bound : Nat) (p : RecordPlugin) (info : AccountHistoryInfo) :
    List ((Nat × Nat) × Nat) → RecordPlugin × AccountHistoryInfo
  | [] => (p, info)
  | (key, opId) :: rest =>
    if key.1 ≠ info.id ∨ bound ≤ key.2 then (p, info)
    else
      -- an operation that is not found has the time zero
      let timestamp := ((p.storage.findOperationObject opId).map (·.timestamp)).getD 0
      if tooOld now timestamp then
        -- `_columnHandles[ 4 ]` is the column of the infos
        pruneEntries now bound (p.write (.deleteInfo key)) info rest
      else (p, { info with oldestEntryId := key.2, oldestEntryTimestamp := timestamp })

/-- `prunePotentiallyTooOldItems` -/
def prunePotentiallyTooOldItems (p : RecordPlugin) (info : AccountHistoryInfo) (now : Nat) :
    RecordPlugin × AccountHistoryInfo :=
  let bound := (info.newestEntryId + 2 ^ 32 - 30 + 1) % 2 ^ 32
  pruneEntries now bound (p.write (.deleteEntry (info.id, info.oldestEntryId))) info
    (p.iterate (info.id, info.oldestEntryId) (info.id + 1, bound))

/-- The pruning of `buildAccountHistoryRecord`. -/
def pruneIfDue (prune : Bool) (p : RecordPlugin) (info : AccountHistoryInfo) (now : Nat) :
    RecordPlugin × AccountHistoryInfo :=
  if prune && 30 < info.getAssociatedOpCount && tooOld now info.oldestEntryTimestamp then
    p.prunePotentiallyTooOldItems info now
  else (p, info)

/-- `buildAccountHistoryRecord` -/
def buildAccountHistoryRecord (prune : Bool) (obj : OperationObject) (p : RecordPlugin)
    (name : AccountName) : RecordPlugin :=
  match p.getAHInfo name with
  | some info =>
    let pruned := p.pruneIfDue prune info obj.timestamp
    let next := (pruned.2.newestEntryId + 1) % 2 ^ 32
    (pruned.1.putAHInfo name { pruned.2 with newestEntryId := next }).write
      (.entry (pruned.2.id, next) obj.id)
  | none =>
    let info : AccountHistoryInfo :=
      { id := p.accountHistorySeqId
        oldestEntryId := 0
        newestEntryId := 0
        oldestEntryTimestamp := obj.timestamp }
    ({ p with accountHistorySeqId := p.accountHistorySeqId + 1 }.putAHInfo name info).write
      (.entry (info.id, 0) obj.id)

/-- `flushWriteBuffer` -/
def flushBuffer (p : RecordPlugin) : RecordPlugin :=
  { p with
    storage := { p.view nameOfKey with
      operationSeqId := p.operationSeqId
      accountHistorySeqId := p.accountHistorySeqId }
    writeBuffer := []
    infoCache := ∅
    collectedOps := 0 }

/-- `importOperation` -/
def importRecord (prune : Bool) (p : RecordPlugin) (obj : OperationObject)
    (impacted : List AccountName) : RecordPlugin :=
  let stored := { obj with id := p.operationSeqId }
  let recorded := impacted.foldl (buildAccountHistoryRecord prune stored)
    { p.write (.operation stored) with operationSeqId := p.operationSeqId + 1 }
  let collected := { recorded with collectedOps := recorded.collectedOps + 1 }
  if collected.collectedOpsWriteLimit ≤ collected.collectedOps then collected.flushBuffer nameOfKey
  else collected

/-- The loop of `find_account_history_data`, from the first entry found down to the bound. -/
def walkDown {α : Type*} (lowerBound : Nat) : List (Nat × α) → List (Nat × α)
  | [] => []
  | row :: rest => if row.1 ≤ lowerBound then [row] else row :: walkDown lowerBound rest

/-- The flushed entries of an account that the iterator of `find_account_history_data` can see, the
newest first. -/
def visible (p : RecordPlugin) (info : AccountHistoryInfo) : List (Nat × Nat) :=
  ((p.iterate (info.id, info.oldestEntryId)
    (info.id, (info.newestEntryId + 1) % 2 ^ 32)).map fun row => (row.1.2, row.2)).reverse

/-- `find_account_history_data`. The key that is looked for has `start` as a `uint32_t`. -/
def findAccountHistoryData (p : RecordPlugin) (name : AccountName) (start limit : Nat) :
    Except String (List (Nat × OperationObject)) :=
  match p.storage.infoByName.find? name with
  | none => .ok []
  | some info =>
    let rows := (p.visible info).filter fun row => row.1 ≤ start % 2 ^ 32
    match rows with
    | [] => .ok []
    | first :: _ =>
      (walkDown (first.1 - limit) rows).mapM fun row => do
        let op ← Outcome.require (p.storage.findOperationObject row.2) "Missing operation?"
        return (row.1, op)

/-- `get_account_history` -/
def getAccountHistory (p : RecordPlugin) (account : AccountName) (start limit : Nat) :
    Except String (List (Nat × OperationObject)) := do
  checkLimit start limit
  p.findAccountHistoryData account start limit

end RecordPlugin

end Plugin

end AccountHistory

end Blurt
