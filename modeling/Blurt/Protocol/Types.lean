import Mathlib.Data.List.Basic
import Mathlib.Algebra.GroupWithZero.Nat
import Mathlib.Algebra.Group.Int.Defs

/-! # Protocol names and constants of block production -/

namespace Blurt

abbrev AccountName := String
abbrev PublicKey := Nat
abbrev Checksum := Nat

/-- `BLURT_100_PERCENT` -/
def blurt100Percent : Nat := 10000

/-- `BLURT_1_PERCENT` -/
def blurt1Percent : Nat := 100

/-- `BLURT_BLOCK_INTERVAL`, in seconds. -/
def blurtBlockInterval : Nat := 3

/-- `BLURT_GENESIS_TIME` -/
def blurtGenesisTime : Nat := 1593820800

/-- `BLURT_IRREVERSIBLE_THRESHOLD` -/
def blurtIrreversibleThreshold : Nat := 75 * blurt1Percent

/-- `BLURT_MAX_UNDO_HISTORY` -/
def blurtMaxUndoHistory : Nat := 10000

/-- `BLURT_MAX_TIME_UNTIL_EXPIRATION`, in seconds. -/
def blurtMaxTimeUntilExpiration : Nat := 60 * 60

/-- `block_header_extensions`: what a witness reports in the header of a block. -/
inductive BlockHeaderExtension
  | version (reportedVersion : Nat)
  | hardforkVersionVote (hfVersion hfTime : Nat)
  | feeInfo (operationFlatFee bandwidthKbytesFee : Int)
  deriving DecidableEq, Repr

/-- `fc::time_point_sec::maximum()` -/
def maximumTime : Nat := 2 ^ 32 - 1

/-- `time_point_sec` after a number of seconds. -/
def addSeconds (time seconds : Nat) : Nat := (time + seconds) % 2 ^ 32

/-- `time_point_sec` before a number of seconds. -/
def subSeconds (time seconds : Nat) : Nat := (((time : Int) - seconds) % 2 ^ 32).toNat

end Blurt
