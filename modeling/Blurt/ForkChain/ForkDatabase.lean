import Blurt.Foundation.Outcome
import Blurt.ForkChain.Block

/-! # The fork database

`fork_database` keeps shared items that point to their parents weakly. An item
lives as long as the index, the head or a branch held by a running call refers
to it; locking the pointer to a dead item gives nothing. The unlinked cache is
left out: `push_block` rethrows before it would insert an item there.
-/

namespace Blurt

variable {T : Type}

/-- `fork_item`. Items are compared as objects, by `ref`; a block pushed twice
makes two of them. -/
structure ForkItem (T : Type) where
  ref : Nat
  prev : Option Nat := none
  invalid : Bool := false
  data : SignedBlock T
  deriving DecidableEq, Repr

namespace ForkItem

def num (item : ForkItem T) : Nat := item.data.blockNum
def id (item : ForkItem T) : BlockId := item.data.id

@[simp] theorem num_id (item : ForkItem T) : item.id.num = item.num := rfl

theorem num_eq_of_id_eq {first second : ForkItem T} (h : first.id = second.id) :
    first.num = second.num := by
  rw [← num_id, h, num_id]

end ForkItem

structure ForkDatabase (T : Type) where
  maxSize : Nat := 1024
  index : List (ForkItem T) := []
  head : Option (ForkItem T) := none
  nextRef : Nat := 0
  deriving Repr

namespace ForkDatabase

/-- The `block_id` index. -/
def find (fdb : ForkDatabase T) (id : BlockId) : Option (ForkItem T) :=
  fdb.index.find? (fun item => item.id == id)

/-- Insertion into the index, which is unique by id. -/
def insert (fdb : ForkDatabase T) (item : ForkItem T) : ForkDatabase T :=
  match fdb.find item.id with
  | some _ => fdb
  | none => { fdb with index := fdb.index ++ [item] }

/-- The items that the fork database itself keeps alive. -/
def live (fdb : ForkDatabase T) : List (ForkItem T) :=
  fdb.index ++ fdb.head.toList

/-- `weak_ptr::lock`, while `held` items are kept alive by the caller. -/
def lock (fdb : ForkDatabase T) (held : List (ForkItem T)) (prev : Option Nat) :
    Option (ForkItem T) :=
  prev.bind fun ref => (fdb.live ++ held).find? (fun item => item.ref == ref)

/-- `fork_database::start_block` -/
def startBlock (fdb : ForkDatabase T) (b : SignedBlock T) : ForkDatabase T :=
  let item : ForkItem T := { ref := fdb.nextRef, data := b }
  { fdb.insert item with head := some item, nextRef := fdb.nextRef + 1 }

/-- The end of `_push_block`: the item enters the index, and becomes the head
if it is higher than the head, or if there is none. -/
def store (fdb : ForkDatabase T) (item : ForkItem T) : ForkDatabase T :=
  let higher := match fdb.head with
    | none => true
    | some head => decide (head.num < item.num)
  { fdb.insert item with head := if higher then some item else fdb.head }

/-- `fork_database::_push_block` -/
def _pushBlock (fdb : ForkDatabase T) (item : ForkItem T) : Except String (ForkDatabase T) :=
  match fdb.head with
  | none => .ok (fdb.store item)
  | some head =>
      if (item.num : Int) ≤ max 0 ((head.num : Int) - fdb.maxSize) then
        .error "attempting to push a block that is too old"
      else if item.data.previous = .zero then
        .ok (fdb.store item)
      else
        match fdb.find item.data.previous with
        | none => .error "block does not link to known chain"
        | some parent =>
            if parent.invalid then .error "!(*itr)->invalid"
            else .ok (fdb.store { item with prev := some parent.ref })

/-- `fork_database::push_block`; its result is the new `head`. -/
def pushBlock (fdb : ForkDatabase T) (b : SignedBlock T) : Except String (ForkDatabase T) :=
  _pushBlock { fdb with nextRef := fdb.nextRef + 1 } { ref := fdb.nextRef, data := b }

/-- `fork_database::pop_block` -/
def popBlock (fdb : ForkDatabase T) (held : List (ForkItem T)) :
    Except String (ForkDatabase T) :=
  match fdb.head with
  | none => .error "cannot pop an empty fork database"
  | some head =>
      match fdb.lock held head.prev with
      | none => .error "popping head block would leave fork DB empty"
      | some prev => .ok { fdb with head := some prev }

/-- `fork_database::set_max_size` -/
def setMaxSize (fdb : ForkDatabase T) (size : Nat) : ForkDatabase T :=
  match fdb.head with
  | none => { fdb with maxSize := size }
  | some head =>
      { fdb with
        maxSize := size
        index := fdb.index.filter fun item =>
          !decide ((item.num : Int) < max 0 ((head.num : Int) - size)) }

/-- `fork_database::set_head` -/
def setHead (fdb : ForkDatabase T) (item : ForkItem T) : ForkDatabase T :=
  { fdb with head := some item }

/-- `fork_database::remove`: the head stays what it is. -/
def remove (fdb : ForkDatabase T) (id : BlockId) : ForkDatabase T :=
  { fdb with index := fdb.index.filter (fun item => item.id != id) }

/-- `fork_database::fetch_block_by_number` -/
def fetchBlockByNumber (fdb : ForkDatabase T) (num : Nat) : List (ForkItem T) :=
  fdb.index.filter (fun item => item.num == num)

/-- One of the first two loops of `fetch_branch_from`: walk a branch down to a
height. The fuel is the number of the item, which every step lowers. -/
def walkDown (fdb : ForkDatabase T) (height : Nat) :
    Nat → ForkItem T → Except String (List (ForkItem T) × ForkItem T)
  | fuel, item =>
      if item.num ≤ height then .ok ([], item)
      else
        match fuel, fdb.lock [] item.prev with
        | fuel + 1, some prev =>
            match walkDown fdb height fuel prev with
            | .ok (branch, last) => .ok (item :: branch, last)
            | .error message => .error message
        | _, _ => .error "first_branch"

/-- The last loop of `fetch_branch_from`: walk both branches down until they
have the same previous block. -/
def walkTogether (fdb : ForkDatabase T) :
    Nat → ForkItem T → ForkItem T → Except String (List (ForkItem T) × List (ForkItem T))
  | fuel, first, second =>
      if first.data.previous = second.data.previous then .ok ([first], [second])
      else
        match fuel, fdb.lock [] first.prev, fdb.lock [] second.prev with
        | fuel + 1, some firstPrev, some secondPrev =>
            match walkTogether fdb fuel firstPrev secondPrev with
            | .ok (firstBranch, secondBranch) =>
                .ok (first :: firstBranch, second :: secondBranch)
            | .error message => .error message
        | _, _, _ => .error "first_branch"

/-- `fork_database::fetch_branch_from` -/
def fetchBranchFrom (fdb : ForkDatabase T) (first second : BlockId) :
    Except String (List (ForkItem T) × List (ForkItem T)) := do
  let firstItem ← Outcome.require (fdb.find first) "first_branch_itr != end"
  let secondItem ← Outcome.require (fdb.find second) "second_branch_itr != end"
  let (firstUpper, firstLast) ← fdb.walkDown secondItem.num firstItem.num firstItem
  let (secondUpper, secondLast) ← fdb.walkDown firstLast.num secondItem.num secondItem
  let (firstLower, secondLower) ← fdb.walkTogether firstLast.num firstLast secondLast
  return (firstUpper ++ firstLower, secondUpper ++ secondLower)

/-- The loop of `walk_main_branch_to_num`. -/
def walkMainBranch (fdb : ForkDatabase T) (num : Nat) : Nat → ForkItem T → Option (ForkItem T)
  | fuel, item =>
      if item.num ≤ num then some item
      else
        match fuel, fdb.lock [] item.prev with
        | fuel + 1, some prev => walkMainBranch fdb num fuel prev
        | _, _ => none

/-- `fork_database::walk_main_branch_to_num` -/
def walkMainBranchToNum (fdb : ForkDatabase T) (num : Nat) : Option (ForkItem T) :=
  match fdb.head with
  | none => none
  | some head => if head.num < num then none else fdb.walkMainBranch num head.num head

/-- `fork_database::fetch_block_on_main_branch_by_number`: a block that is the
only one of its number is returned whatever branch it is on. -/
def fetchBlockOnMainBranchByNumber (fdb : ForkDatabase T) (num : Nat) : Option (ForkItem T) :=
  match fdb.fetchBlockByNumber num with
  | [] => none
  | [item] => some item
  | _ => fdb.walkMainBranchToNum num

end ForkDatabase

end Blurt
