import Blurt.Foundation.FlatSet
import Blurt.Foundation.SnapshotStack
import Blurt.Ledger.Genesis

/-! # Accounts by their keys

The account_by_key plugin keeps a `key_lookup_object` for each key of an account. Before an operation
that changes authorities it notes the keys that the account has, and after it compares them with the
new ones. The noted keys are not part of what a session undoes.
-/

namespace Blurt

namespace AccountByKey

open Ledger

/-- The `key_lookup_object`s: the index by key and account is unique. -/
abbrev KeyLookup := Store (PublicKey × AccountName) Unit

/-- The database with the index of the plugin, and the keys that the plugin has noted. -/
structure Lookup where
  db : Database
  keyLookup : KeyLookup
  cachedKeys : FlatSet PublicKey

/-- The keys of all authorities of an account. -/
def authKeys (a : AccountAuthority) : List PublicKey :=
  (a.owner.keyAuths ++ a.active.keyAuths ++ a.posting.keyAuths).map Prod.fst

namespace Lookup

def clearCache (l : Lookup) : Lookup := { l with cachedKeys := ∅ }

def cacheAuths (l : Lookup) (a : AccountAuthority) : Lookup :=
  { l with cachedKeys := l.cachedKeys.insertAll (authKeys a) }

/-- The body of the first loop of `update_key_lookup`. -/
def addKey (account : AccountName) (l : Lookup) (key : PublicKey) : Lookup :=
  if key ∉ l.cachedKeys then
    if (l.keyLookup.find? (key, account)).isNone then
      { l with keyLookup := l.keyLookup.set (key, account) () }
    else l
  else { l with cachedKeys := l.cachedKeys.erase key }

/-- The body of the second loop of `update_key_lookup`. -/
def removeKey (account : AccountName) (keyLookup : KeyLookup) (key : PublicKey) : KeyLookup :=
  if (keyLookup.find? (key, account)).isSome then keyLookup.remove (key, account) else keyLookup

/-- `update_key_lookup` -/
def updateKeyLookup (l : Lookup) (account : AccountName) (a : AccountAuthority) : Lookup :=
  let newKeys := (∅ : FlatSet PublicKey).insertAll (authKeys a)
  let added := newKeys.elements.foldl (addKey account) l
  { added with
    keyLookup := added.cachedKeys.elements.foldl (removeKey account) added.keyLookup
    cachedKeys := ∅ }

/-- `update_key_lookup` for an account that may not be there. -/
def updateAccount (l : Lookup) (account : AccountName) : Lookup :=
  match l.db.authorities.find? account with
  | some a => l.updateKeyLookup account a
  | none => l

/-- `cache_auths` for an account that may not be there, in place of what was noted. -/
def cacheAccount (l : Lookup) (account : AccountName) : Lookup :=
  match l.db.authorities.find? account with
  | some a => l.clearCache.cacheAuths a
  | none => l.clearCache

/-- `pre_operation_visitor` -/
def preOperation (l : Lookup) : Operation → Lookup
  | .accountCreate _ => l.clearCache
  | .accountUpdate o => l.cacheAccount o.account
  | .recoverAccount o => l.cacheAccount o.accountToRecover
  | _ => l

/-- `post_operation_visitor` -/
def postOperation (l : Lookup) : Operation → Lookup
  | .accountCreate o => l.updateAccount o.newAccountName
  | .accountUpdate o => l.updateAccount o.account
  | .recoverAccount o => l.updateAccount o.accountToRecover
  | _ => l

variable (host : Host)

/-- `apply_operation`. An operation that fails leaves what the plugin noted before it. -/
def applyOperation (l : Lookup) (op : Operation) : Except (FlatSet PublicKey) Lookup :=
  match Database.applyOperation host l.db op with
  | .ok db => .ok ({ l.preOperation op with db }.postOperation op)
  | .error _ => .error (l.preOperation op).cachedKeys

def applyOperations (l : Lookup) : List Operation → Except (FlatSet PublicKey) Lookup
  | [] => .ok l
  | op :: ops =>
    match l.applyOperation host op with
    | .ok next => next.applyOperations ops
    | .error cachedKeys => .error cachedKeys

/-- A step of the chain in which the plugin is told of nothing. -/
def unseen (l : Lookup) (change : Database → Except String Database) :
    Except (FlatSet PublicKey) Lookup :=
  match change l.db with
  | .ok db => .ok { l with db }
  | .error _ => .error l.cachedKeys

/-- What `_apply_transaction` does before the operations. -/
def charge (t : Ledger.BlockTransaction) (db : Database) : Except String Database := do
  t.trx.validate host.rules
  db.checkSignatures t
  db.processTxFee t.trx

/-- `_apply_transaction` -/
def applyTransaction (l : Lookup) (t : Ledger.BlockTransaction) :
    Except (FlatSet PublicKey) Lookup := do
  let charged ← l.unseen (charge host t)
  charged.applyOperations host t.trx.operations

def applyTransactions (l : Lookup) :
    List Ledger.BlockTransaction → Except (FlatSet PublicKey) Lookup
  | [] => .ok l
  | t :: ts =>
    match l.applyTransaction host t with
    | .ok next => next.applyTransactions ts
    | .error cachedKeys => .error cachedKeys

/-- `_apply_block` -/
def applyBlock (l : Lookup) (b : LedgerBlock) :
    Except (FlatSet PublicKey) Lookup := do
  let opened ← l.unseen fun db => db.openBlock b
  let applied ← opened.applyTransactions host b.transactions
  applied.unseen fun db => Database.maintain host (db.setClock b) b.timestamp

end Lookup

/-- A node: what sessions undo, and what they do not. -/
structure Node where
  objects : SnapshotStack (Database × KeyLookup)
  cachedKeys : FlatSet PublicKey := ∅

/-- What happens to a node. Transactions and blocks that fail leave their session, which is
undone. A fork switch undoes the sessions of blocks and applies others. -/
inductive Event
  | startUndoSession
  | undo
  | squash
  | commit (revision : Int)
  | transaction (t : Ledger.BlockTransaction)
  | block (b : LedgerBlock)

namespace Node

/-- The objects as the sessions have them, with the noted keys. -/
def lookup (n : Node) : Lookup := ⟨n.objects.current.1, n.objects.current.2, n.cachedKeys⟩

/-- The node after a transaction or a block. -/
def finish (n : Node) : Except (FlatSet PublicKey) Lookup → Node
  | .ok l => ⟨n.objects.update fun _ => (l.db, l.keyLookup), l.cachedKeys⟩
  | .error cachedKeys => { n with cachedKeys }

def step (host : Host) (n : Node) : Event → Node
  | .startUndoSession => { n with objects := n.objects.save }
  | .undo => { n with objects := n.objects.undo }
  | .squash => { n with objects := n.objects.squash }
  | .commit revision => { n with objects := n.objects.commit revision }
  | .transaction t => n.finish (n.lookup.applyTransaction host t)
  | .block b => n.finish (n.lookup.applyBlock host b)

/-- A node at genesis, where the plugin is active from the start. -/
def genesis (db : Database) : Node where
  objects := { current := (db, ∅), revision := 0 }

end Node

end AccountByKey

end Blurt
