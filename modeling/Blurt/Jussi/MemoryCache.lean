import Blurt.Foundation.Dictionary
import Mathlib.Algebra.Order.Ring.Rat

/-! # The memory cache

`SimplerMaxTTLMemoryCache` keeps values with the time at which they expire. What has expired goes
when it is looked up or when something is set, and the first key goes when there is no room. The
constructor takes views of its dictionary; `clears` puts another dictionary in its place, and the
views stay with the one that was there. Times are exact.
-/

namespace Blurt.Jussi

/-- What Python raises. -/
inductive Raised where
  | keyError
  | stopIteration
  deriving DecidableEq

def memoryCacheMaxTtl : ℚ := 180
def memoryCacheMaxSize : Nat := 2000

structure MemoryCache (κ β : Type) where
  maxTtl : ℚ
  maxSize : Nat
  cache : List (κ × ℚ × β) := []
  /-- The dictionary that the views are of, once it is no longer the cache. -/
  kept : Option (List (κ × ℚ × β)) := none
  /-- How often `perf_counter` was read. -/
  reads : Nat := 0

/-- The methods, the ones of one name that are coroutines included. -/
inductive MemoryCache.Call (κ β : Type) where
  | gets (key : κ)
  | mgets (keys : List κ)
  | sets (key : κ) (value : β) (expireTime : Option ℚ)
  | setManys (data : List (κ × β)) (expireTime : Option ℚ)
  | deletes (key : κ)
  | clears
  deriving DecidableEq

namespace MemoryCache

variable {κ β : Type}

def init (maxTtl : Option ℚ) (maxSize : Option Nat) : MemoryCache κ β where
  maxTtl := match maxTtl with
    | some ttl => if ttl = 0 then memoryCacheMaxTtl else ttl
    | none => memoryCacheMaxTtl
  maxSize := match maxSize with
    | some size => if size = 0 then memoryCacheMaxSize else size
    | none => memoryCacheMaxSize

/-- `self._items` -/
def items (c : MemoryCache κ β) : List (κ × ℚ × β) := c.kept.getD c.cache

/-- An expire time of no more than `max_ttl`. -/
def capped (maxTtl : ℚ) : Option ℚ → ℚ
  | none => maxTtl
  | some expireTime => if maxTtl < expireTime then maxTtl else expireTime

variable [DecidableEq κ]

-- the readings of `perf_counter`
variable (clock : Nat → ℚ)

def gets (key : κ) (c : MemoryCache κ β) : MemoryCache κ β × Option β :=
  match c.cache.find? fun entry => entry.1 = key with
  | some (_, timestamp, result) =>
    if 0 < timestamp - clock c.reads then ({ c with reads := c.reads + 1 }, some result)
    else ({ c with cache := c.cache.dropKey key, reads := c.reads + 1 }, none)
  | none => (c, none)

def mgets : List κ → MemoryCache κ β → MemoryCache κ β × List (Option β)
  | [], c => (c, [])
  | key :: keys, c =>
    let (c, result) := c.gets clock key
    let (c, results) := mgets keys c
    (c, result :: results)

/-- `del self._cache[k]` for one key after the other. -/
def delEach : List κ → MemoryCache κ β → MemoryCache κ β × Except Raised Unit
  | [], c => (c, .ok ())
  | key :: keys, c =>
    if key ∈ c.cache.map Prod.fst then delEach keys { c with cache := c.cache.dropKey key }
    else (c, .error .keyError)

def prune (c : MemoryCache κ β) : MemoryCache κ β × Except Raised Unit :=
  let now := clock c.reads
  let pruned := (c.items.filter fun entry => entry.2.1 - now < 0).map Prod.fst
  match delEach pruned { c with reads := c.reads + 1 } with
  | (c, .error raised) => (c, .error raised)
  | (c, .ok ()) =>
    if c.maxSize ≤ c.items.length then
      match c.cache with
      | [] => (c, .error .stopIteration)
      | first :: _ => ({ c with cache := c.cache.dropKey first.1 }, .ok ())
    else (c, .ok ())

def sets (key : κ) (value : β) (expireTime : Option ℚ) (c : MemoryCache κ β) :
    MemoryCache κ β × Except Raised Unit :=
  match c.prune clock with
  | (c, .error raised) => (c, .error raised)
  | (c, .ok ()) =>
    let expiry := clock c.reads + capped c.maxTtl expireTime
    ({ c with cache := c.cache.setKey (key, expiry, value), reads := c.reads + 1 }, .ok ())

def setManys (expireTime : Option ℚ) :
    List (κ × β) → MemoryCache κ β → MemoryCache κ β × Except Raised Unit
  | [], c => (c, .ok ())
  | (key, value) :: data, c =>
    match c.sets clock key value expireTime with
    | (c, .error raised) => (c, .error raised)
    | (c, .ok ()) => setManys expireTime data c

def deletes (key : κ) (c : MemoryCache κ β) : MemoryCache κ β :=
  { c with cache := c.cache.dropKey key }

def clears (c : MemoryCache κ β) : MemoryCache κ β :=
  { c with cache := [], kept := some c.items }

/-- A call, and what it returns of looked up values. -/
def call (c : MemoryCache κ β) : Call κ β → MemoryCache κ β × Except Raised (List (Option β))
  | .gets key =>
    let (c, result) := c.gets clock key
    (c, .ok [result])
  | .mgets keys =>
    let (c, results) := c.mgets clock keys
    (c, .ok results)
  | .sets key value expireTime =>
    let (c, done) := c.sets clock key value expireTime
    (c, done.map fun _ => [])
  | .setManys data expireTime =>
    let (c, done) := c.setManys clock expireTime data
    (c, done.map fun _ => [])
  | .deletes key => (c.deletes key, .ok [])
  | .clears => (c.clears, .ok [])

/-- Calls one after the other, up to the first that raises. -/
def run : List (Call κ β) → MemoryCache κ β → MemoryCache κ β × Except Raised (List (Option β))
  | [], c => (c, .ok [])
  | next :: calls, c =>
    match c.call clock next with
    | (c, .error raised) => (c, .error raised)
    | (c, .ok results) =>
      let (c, later) := run calls c
      (c, later.map (results ++ ·))

end MemoryCache

end Blurt.Jussi
