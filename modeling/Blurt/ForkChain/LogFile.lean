import Blurt.Foundation.LittleEndian
import Blurt.Foundation.Outcome

/-! # The files of the block log

The log file holds every block followed by its position, and the index file holds the
positions alone. Both are written at their ends. `open` compares the last positions of the
two files and reconstructs the index from the log where they differ.
-/

namespace Blurt

open Outcome

/-- `fc::raw::pack` and `fc::raw::unpack` of a block, and `block_num`. -/
structure BlockCodec (B : Type) where
  pack : B → List UInt8
  unpack : List UInt8 → Option (B × List UInt8)
  unpack_pack : ∀ b rest, unpack (pack b ++ rest) = some (b, rest)
  blockNum : B → Nat
  blockNum_lt : ∀ b, blockNum b < 2 ^ 32

/-- `block_log_impl`: its two files and the head. -/
structure LogFile (B : Type) where
  blockFile : List UInt8 := []
  indexFile : List UInt8 := []
  head : Option B := none
  deriving DecidableEq

namespace LogFile

/-- `read` of a position at `offset`, which throws at the end of the file. -/
def readPos (file : List UInt8) (offset : Nat) : Except String Nat := do
  Outcome.ensure (offset + 8 ≤ file.length) "basic_ios::clear: iostream error"
  return LittleEndian.decode ((file.drop offset).take 8)

/-- `read` of the last position, which throws in front of the file. -/
def readLastPos (file : List UInt8) : Except String Nat := do
  Outcome.ensure (8 ≤ file.length) "basic_ios::clear: iostream error"
  readPos file (file.length - 8)

section

variable {B : Type} (codec : BlockCodec B)

/-- `append`. Offsets in a file are numbers of 63 bits, so a longer file is refused. -/
def append (log : LogFile B) (b : B) : Except String (LogFile B) := do
  Outcome.ensure
    (log.indexFile.length = 8 * ((codec.blockNum b + (2 ^ 32 - 1)) % 2 ^ 32))
    "Append to index file occuring at wrong position."
  let pos := log.blockFile.length
  let record := codec.pack b ++ LittleEndian.encode 8 pos
  Outcome.ensure (pos + record.length < 2 ^ 63) "basic_ios::clear: iostream error"
  return {
    blockFile := log.blockFile ++ record
    indexFile := log.indexFile ++ LittleEndian.encode 8 pos
    head := some b }

/-- `read_block_helper`: the block at `pos`, and where the next one is. -/
def readBlock (log : LogFile B) (pos : Nat) : Except String (B × Nat) := do
  let (b, rest) ← Outcome.require (codec.unpack (log.blockFile.drop pos)) "stream error"
  return (b, log.blockFile.length - rest.length + 8)

/-- `get_block_pos_helper`, with `npos` as `none`. -/
def getBlockPos (log : LogFile B) (blockNum : Nat) : Except String (Option Nat) :=
  match log.head with
  | some head =>
      if blockNum ≤ codec.blockNum head ∧ 0 < blockNum then do
        let pos ← readPos log.indexFile (8 * (blockNum - 1))
        return some pos
      else .ok none
  | none => .ok none

/-- `read_block_by_num` -/
def readBlockByNum (log : LogFile B) (blockNum : Nat) : Except String (Option B) := do
  match ← log.getBlockPos codec blockNum with
  | some pos =>
      let (b, _) ← log.readBlock codec pos
      Outcome.ensure (codec.blockNum b = blockNum) "Wrong block was read from block log."
      return some b
  | none => return none

/-- The loop of `construct_index`, with what is left of the log file. -/
def constructLoop (endPos : Nat) : (turns : Nat) → (rest : List UInt8) → (pos : Nat) →
    (index : List UInt8) → Except String (List UInt8)
  | 0, _, _, _ => .error "the loop does not end"
  | turns + 1, rest, pos, index =>
      if pos < endPos then do
        let (_, after) ← Outcome.require (codec.unpack rest) "stream error"
        let next ← readPos after 0
        constructLoop endPos turns (after.drop 8) next (index ++ LittleEndian.encode 8 next)
      else .ok index

/-- `construct_index` -/
def constructIndex (log : LogFile B) : Except String (LogFile B) := do
  let endPos ← readLastPos log.blockFile
  let indexFile ← constructLoop codec endPos (log.blockFile.length + 1) log.blockFile 0 []
  return { log with indexFile }

/-- `read_head` -/
def readHead (log : LogFile B) : Except String B := do
  let pos ← readLastPos log.blockFile
  let (b, _) ← log.readBlock codec pos
  return b

/-- `open`, where a file that is missing is empty. -/
def openFiles (blockFile indexFile : List UInt8) : Except String (LogFile B) :=
  if blockFile = [] then .ok {}
  else do
    let log : LogFile B := { blockFile, indexFile }
    let head ← log.readHead codec
    let headed := { log with head := some head }
    if indexFile = [] then
      headed.constructIndex codec
    else do
      let blockPos ← readLastPos blockFile
      let indexPos ← readLastPos indexFile
      if blockPos ≠ indexPos then headed.constructIndex codec
      else return headed

/-- The blocks that `read_block` visits from `pos` on, and where it ends. -/
def readBlocks (log : LogFile B) : (count pos : Nat) → Except String (List B × Nat)
  | 0, pos => .ok ([], pos)
  | count + 1, pos => do
      let (b, next) ← log.readBlock codec pos
      let (rest, last) ← log.readBlocks count next
      return (b :: rest, last)

/-- `append` of one block after the other. -/
def appendAll (log : LogFile B) (blocks : List B) : Except String (LogFile B) :=
  Outcome.forEach (append codec) log blocks

end

end LogFile

end Blurt
