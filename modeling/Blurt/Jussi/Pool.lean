import Mathlib.Logic.Function.Basic

/-! # The websocket pool

Requests to an upstream share a pool of connections, each with a holder. A request takes a holder from
the queue, sends and receives on its connection and releases it. The coroutines interleave at their
await points, and each step here goes from one await point to the next.
-/

namespace Blurt.Jussi

variable {n : Nat}

/-- The state of a websocket. -/
inductive ConState where
  | opened
  | closing
  | closed
  deriving DecidableEq

/-- `PoolConnectionHolder`. Of the future `_in_use` only whether it is there matters here. -/
structure Holder where
  con : Option ConState
  inUse : Bool
  queries : Nat
  deriving DecidableEq

/-- The shielded call of `PoolConnectionHolder.release`. -/
inductive Release where
  | pending
  -- it returned; whether it has put the holder back
  | returned (freed : Bool)
  | raised
  deriving DecidableEq

/-- Where a call of `fetch_ws` awaits. -/
inductive Phase (n : Nat) where
  | absent
  -- `self._queue.get()`
  | waiting
  -- `ch.acquire()`, with a new connection
  | connecting (ch : Fin n)
  | sending (ch : Fin n)
  | receiving (ch : Fin n)
  -- `pool.release(conn)`, with whether the id of the response is the one asked for
  | releasing (ch : Fin n) (idMatches : Bool) (release : Release)
  -- with the holder of a release that outlives the request
  | finished (left : Option (Fin n))
  deriving DecidableEq

structure Pool (n : Nat) where
  maxQueries : Nat
  holders : Fin n → Holder
  -- a stack, with its top at the end
  queue : List (Fin n)
  requests : Nat → Phase n

namespace Pool

/-- `Pool.__init__`: all holders are in the queue. Some connections may be there already. -/
def initial (maxQueries : Nat) (con : Fin n → Option ConState) : Pool n where
  maxQueries := maxQueries
  holders ch := ⟨con ch, false, 0⟩
  queue := List.finRange n
  requests _ := .absent

variable (p : Pool n)

def setHolder (ch : Fin n) (holder : Holder) : Pool n :=
  { p with holders := Function.update p.holders ch holder }

def setPhase (r : Nat) (phase : Phase n) : Pool n :=
  { p with requests := Function.update p.requests r phase }

/-- `self._queue.put_nowait(ch)`. -/
def put (ch : Fin n) : Pool n := { p with queue := p.queue ++ [ch] }

/-- `PoolConnectionHolder._release`. -/
def free (ch : Fin n) : Pool n :=
  if (p.holders ch).inUse then (p.setHolder ch { p.holders ch with inUse := false }).put ch else p

/-- `PoolConnectionHolder.terminate`, which works on the connection that the holder has now. -/
def terminate (ch : Fin n) : Pool n :=
  if (p.holders ch).con = none then p
  else (p.free ch).setHolder ch { (p.free ch).holders ch with con := none }

/-- `PoolConnectionHolder.release`. -/
def release (ch : Fin n) : Pool n × Release :=
  if (p.holders ch).inUse = false then (p, .raised)
  else
    match (p.holders ch).con with
    | none => (p, .raised)
    | some .closed => (p, .returned false)
    | some _ =>
      if p.maxQueries ≠ 0 ∧ p.maxQueries ≤ (p.holders ch).queries then
        -- nothing frees the holder when its connection is closed
        (p.setHolder ch { p.holders ch with con := some .closed }, .returned false)
      else (p.free ch, .returned true)

inductive Event (n : Nat) where
  | begin (r : Nat)
  | take (r : Nat)
  | connected (r : Nat)
  | connectFailed (r : Nat)
  | sent (r : Nat)
  | received (r : Nat) (idMatches : Bool)
  -- `send`, `recv` or `loads` raises
  | fail (r : Nat)
  | runRelease (r : Nat)
  | resume (r : Nat)
  -- by a timeout or by the client
  | cancel (r : Nat)
  -- the upstream closes the connection of a holder
  | upstream (ch : Fin n) (state : ConState)

/-- The request that makes a step. -/
def Event.request : Event n → Option Nat
  | .begin r | .take r | .connected r | .connectFailed r | .sent r | .received r _ | .fail r
  | .runRelease r | .resume r | .cancel r => some r
  | .upstream _ _ => none

/-- `PoolConnectionHolder.acquire`, up to its await when there is no open connection. -/
def acquire (r : Nat) (ch : Fin n) : Pool n :=
  if (p.holders ch).con = some .opened then
    (p.setHolder ch { p.holders ch with inUse := true }).setPhase r (.sending ch)
  else (p.setHolder ch { p.holders ch with con := none }).setPhase r (.connecting ch)

/-- The `except` clause of `fetch_ws`, which cancellations reach too. -/
def fail (r : Nat) (ch : Fin n) (left : Option (Fin n)) : Pool n :=
  (p.terminate ch).setPhase r (.finished left)

/-- A step, where it is enabled. -/
def step : Event n → Option (Pool n)
  | .begin r => if p.requests r = .absent then some (p.setPhase r .waiting) else none
  | .take r =>
    match p.requests r, p.queue.getLast? with
    | .waiting, some ch => some ({ p with queue := p.queue.dropLast }.acquire r ch)
    | _, _ => none
  | .connected r =>
    match p.requests r with
    | .connecting ch =>
      some ((p.setHolder ch { p.holders ch with con := some .opened, inUse := true }).setPhase r
        (.sending ch))
    | _ => none
  | .connectFailed r =>
    match p.requests r with
    | .connecting ch => some ((p.put ch).setPhase r (.finished none))
    | _ => none
  | .sent r =>
    match p.requests r with
    | .sending ch => some (p.setPhase r (.receiving ch))
    | _ => none
  | .received r idMatches =>
    match p.requests r with
    | .receiving ch => some (p.setPhase r (.releasing ch idMatches .pending))
    | _ => none
  | .fail r =>
    match p.requests r with
    | .sending ch | .receiving ch => some (p.fail r ch none)
    | _ => none
  | .runRelease r =>
    match p.requests r with
    | .releasing ch idMatches .pending =>
      some ((p.release ch).1.setPhase r (.releasing ch idMatches (p.release ch).2))
    | .finished (some ch) => some ((p.release ch).1.setPhase r (.finished none))
    | _ => none
  | .resume r =>
    match p.requests r with
    | .releasing _ true (.returned _) => some (p.setPhase r (.finished none))
    | .releasing ch false (.returned _) => some (p.fail r ch none)
    | .releasing ch _ .raised => some (p.fail r ch none)
    | _ => none
  | .cancel r =>
    match p.requests r with
    | .waiting => some (p.setPhase r (.finished none))
    | .connecting ch => some ((p.put ch).setPhase r (.finished none))
    | .sending ch | .receiving ch => some (p.fail r ch none)
    | .releasing ch _ .pending => some (p.fail r ch (some ch))
    | .releasing ch _ _ => some (p.fail r ch none)
    | _ => none
  | .upstream ch state =>
    if (p.holders ch).con = none ∨ (p.holders ch).con = some .closed ∨ state = .opened then none
    else some (p.setHolder ch { p.holders ch with con := some state })

end Pool

end Blurt.Jussi
