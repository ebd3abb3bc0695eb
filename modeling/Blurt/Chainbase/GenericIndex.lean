import Blurt.Foundation.Outcome
import Blurt.Foundation.Store
import Mathlib.Data.List.DropRight

/-! # Indexes with undo

`generic_index` keeps the objects of one type by id, and for every open session only
the differences to the state before it. The secondary keys of the objects are unique
through the id, so an insertion fails only where the id is taken.
-/

namespace Blurt

namespace Chainbase

variable {V : Type}

/-- `undo_state` -/
structure UndoState (V : Type) where
  oldValues : Store Nat V := ∅
  removedValues : Store Nat V := ∅
  newIds : Store Nat Unit := ∅
  oldNextId : Nat := 0
  revision : Int := 0

/-- `generic_index`; the newest element of `_stack` comes first. -/
structure GenericIndex (V : Type) where
  indices : Store Nat V := ∅
  nextId : Nat := 0
  revision : Int := 0
  stack : List (UndoState V) := []

/-- `emplace` of a map, which keeps what is there. -/
def emplaceValue (k : Nat) (v : V) (s : Store Nat V) : Store Nat V :=
  if (s.find? k).isSome then s else s.set k v

namespace UndoState

/-- `on_create` -/
def onCreate (head : UndoState V) (id : Nat) : UndoState V :=
  { head with newIds := head.newIds.set id () }

/-- `on_modify` of an object with the value `v`. -/
def onModify (head : UndoState V) (id : Nat) (v : V) : UndoState V :=
  if (head.newIds.find? id).isSome then head
  else if (head.oldValues.find? id).isSome then head
  else { head with oldValues := emplaceValue id v head.oldValues }

/-- `on_remove` of an object with the value `v`. -/
def onRemove (head : UndoState V) (id : Nat) (v : V) : UndoState V :=
  if (head.newIds.find? id).isSome then { head with newIds := head.newIds.remove id }
  else
    match head.oldValues.find? id with
    | some old =>
        { head with
          removedValues := emplaceValue id old head.removedValues
          oldValues := head.oldValues.remove id }
    | none =>
        if (head.removedValues.find? id).isSome then head
        else { head with removedValues := emplaceValue id v head.removedValues }

/-- The loop of `squash` over `state.old_values`. -/
def mergeOld (prev : UndoState V) (item : Nat × V) : UndoState V :=
  if (prev.newIds.find? item.1).isSome then prev
  else if (prev.oldValues.find? item.1).isSome then prev
  else { prev with oldValues := emplaceValue item.1 item.2 prev.oldValues }

/-- The loop of `squash` over `state.new_ids`. -/
def mergeNew (prev : UndoState V) (item : Nat × Unit) : UndoState V :=
  { prev with newIds := prev.newIds.set item.1 () }

/-- The loop of `squash` over `state.removed_values`. -/
def mergeRemoved (prev : UndoState V) (obj : Nat × V) : UndoState V :=
  if (prev.newIds.find? obj.1).isSome then { prev with newIds := prev.newIds.remove obj.1 }
  else
    match prev.oldValues.find? obj.1 with
    | some old =>
        { prev with
          removedValues := emplaceValue obj.1 old prev.removedValues
          oldValues := prev.oldValues.remove obj.1 }
    | none => { prev with removedValues := emplaceValue obj.1 obj.2 prev.removedValues }

/-- The composition of two undo states that `squash` leaves. -/
def merge (prev state : UndoState V) : UndoState V :=
  state.removedValues.rows.foldl mergeRemoved
    (state.newIds.rows.foldl mergeNew (state.oldValues.rows.foldl mergeOld prev))

end UndoState

namespace GenericIndex

/-- A change of the undo state at the top, if a session is open. -/
def withHead (g : GenericIndex V) (change : UndoState V → UndoState V) : GenericIndex V :=
  match g.stack with
  | [] => g
  | head :: rest => { g with stack := change head :: rest }

/-- `emplace` of an object with the value `v`. -/
def emplace (g : GenericIndex V) (v : V) : Except String (GenericIndex V) := do
  Outcome.ensure (g.indices.find? g.nextId).isNone
    "could not insert object, most likely a uniqueness constraint was violated"
  let inserted : GenericIndex V :=
    { g with indices := g.indices.set g.nextId v, nextId := g.nextId + 1 }
  return inserted.withHead fun head => head.onCreate g.nextId

/-- `modify` of the object under `id`. Without such an object there is no reference to
call it with. The modifier `m` returns; one that throws is left to the container, but the old
value is noted before, and `undo` puts it back whether or not its object is still there. -/
def modify (g : GenericIndex V) (id : Nat) (m : V → V) : GenericIndex V :=
  match g.indices.find? id with
  | none => g
  | some v =>
      let noted := g.withHead fun head => head.onModify id v
      { noted with indices := noted.indices.set id (m v) }

/-- `remove`, and `erase` with an iterator, of the object under `id`. -/
def remove (g : GenericIndex V) (id : Nat) : GenericIndex V :=
  match g.indices.find? id with
  | none => g
  | some v =>
      let noted := g.withHead fun head => head.onRemove id v
      { noted with indices := noted.indices.remove id }

/-- `start_undo_session` -/
def startUndoSession (g : GenericIndex V) : GenericIndex V :=
  { g with
    revision := g.revision + 1
    stack := { oldNextId := g.nextId, revision := g.revision + 1 } :: g.stack }

/-- The loop of `undo` over `removed_values`. -/
def restoreRemoved (indices : Store Nat V) (item : Nat × V) : Except String (Store Nat V) := do
  Outcome.ensure (indices.find? item.1).isNone
    "Could not restore object, most likely a uniqueness constraint was violated"
  return indices.set item.1 item.2

/-- `undo` -/
def undo (g : GenericIndex V) : Except String (GenericIndex V) :=
  match g.stack with
  | [] => .ok g
  | head :: rest => do
      -- an object that is gone is inserted again, so the old value is under its id either way
      let modified := head.oldValues.rows.foldl
        (fun indices item => indices.set item.1 item.2) g.indices
      let erased := head.newIds.rows.foldl (fun indices item => indices.remove item.1) modified
      let indices ← Outcome.forEach restoreRemoved erased head.removedValues.rows
      return { indices, nextId := head.oldNextId, revision := g.revision - 1, stack := rest }

/-- `squash` -/
def squash (g : GenericIndex V) : GenericIndex V :=
  match g.stack with
  | [] => g
  | [_] => { g with stack := [] }
  | state :: prev :: rest =>
      { g with revision := g.revision - 1, stack := prev.merge state :: rest }

/-- `commit` -/
def commit (g : GenericIndex V) (revision : Int) : GenericIndex V :=
  { g with stack := g.stack.rdropWhile fun state => decide (state.revision ≤ revision) }

end GenericIndex

/-- The calls on an index. -/
inductive IndexOp (V : Type)
  | startUndoSession
  | emplace (v : V)
  | modify (id : Nat) (m : V → V)
  | remove (id : Nat)
  | erase (id : Nat)
  | undo
  | push
  | commit (revision : Int)
  | squash

namespace GenericIndex

/-- One call. `push` only tells the session object not to undo. -/
def step (g : GenericIndex V) : IndexOp V → Except String (GenericIndex V)
  | .startUndoSession => .ok g.startUndoSession
  | .emplace v => g.emplace v
  | .modify id m => .ok (g.modify id m)
  | .remove id => .ok (g.remove id)
  | .erase id => .ok (g.remove id)
  | .undo => g.undo
  | .push => .ok g
  | .commit revision => .ok (g.commit revision)
  | .squash => .ok g.squash

/-- A sequence of calls. -/
def run (g : GenericIndex V) (ops : List (IndexOp V)) : Except String (GenericIndex V) :=
  Outcome.forEach step g ops

end GenericIndex

end Chainbase

end Blurt
