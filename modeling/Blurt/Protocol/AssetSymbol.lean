import Blurt.Foundation.Decimal
import Blurt.Foundation.LittleEndian
import Blurt.Protocol.Asset

/-! # The numbers and names of asset symbols

A symbol is packed by its number, or by its text if it is built in, and printed as a numeric asset
identifier with a check digit.
-/

namespace Blurt

open Outcome

namespace AssetSymbol

/-- `decimals` -/
def decimals (symbol : AssetSymbol) : Nat := symbol.assetNum % 2 ^ 4

/-- The table of `damm_checksum_8digit`. -/
def dammTable : List Nat :=
  [0, 30, 10, 70, 50, 90, 80, 60, 40, 20,
   70, 0, 90, 20, 10, 50, 40, 80, 60, 30,
   40, 20, 0, 60, 80, 70, 10, 30, 50, 90,
   10, 70, 50, 0, 90, 80, 30, 40, 20, 60,
   60, 10, 20, 30, 0, 40, 50, 90, 70, 80,
   30, 60, 70, 40, 20, 0, 90, 50, 80, 10,
   50, 80, 60, 90, 70, 20, 0, 10, 30, 40,
   80, 90, 40, 50, 30, 60, 20, 0, 10, 70,
   90, 40, 30, 80, 60, 10, 70, 20, 0, 50,
   20, 50, 80, 10, 40, 30, 60, 70, 90, 0]

/-- `damm_checksum_8digit` -/
def dammChecksum8digit (value : Nat) : Nat :=
  let step (x place : Nat) : Nat := dammTable.getD (x + value / 10 ^ place % 10) 0
  step (step (step (step (step (step (step (step 0 7) 6) 5) 4) 3) 2) 1) 0 / 10

/-- `to_nai` of a symbol in the space of the SMTs. -/
def toNai (symbol : AssetSymbol) : Nat :=
  symbol.assetNum / 2 ^ 5 * 10 + dammChecksum8digit (symbol.assetNum / 2 ^ 5)

/-- `asset_symbol_type::validate`, which every symbol passes when it is unpacked. -/
def IsValid (symbol : AssetSymbol) : Prop :=
  symbol = blurt ∨ symbol = vests ∨
    (1 ≤ symbol.assetNum / 2 ^ 5 ∧ symbol.assetNum / 2 ^ 5 ≤ 99999999 ∧
      symbol.assetNum / 2 ^ 4 % 2 = 1 ∧ symbol.decimals ≤ 12)

/-- `BLURT_SYMBOL_SER` -/
def blurtSer : List UInt8 := [3, 66, 76, 85, 82, 84, 0, 0]

/-- `VESTS_SYMBOL_SER` -/
def vestsSer : List UInt8 := [6, 86, 69, 83, 84, 83, 0, 0]

/-! ## Numeric asset identifiers -/

/-- `damm_checksum_8digit`, with its check. -/
def checkDigit (value : Nat) : Except String Nat := do
  Outcome.ensure (value < 100000000) "value < 100000000"
  return dammChecksum8digit value

/-- The data digits of the identifier of a symbol. -/
def naiDataDigits (symbol : AssetSymbol) : Nat :=
  if symbol = blurt then 2
  else if symbol = vests then 3
  else symbol.assetNum / 2 ^ 5

/-- `to_nai` -/
def nai (symbol : AssetSymbol) : Except String Nat := do
  let naiCheckDigit ← checkDigit symbol.naiDataDigits
  return symbol.naiDataDigits * 10 + naiCheckDigit

/-- `to_nai_string` -/
def toNaiString (symbol : AssetSymbol) : Except String (List Char) := do
  let x ← symbol.nai
  return '@' :: '@' :: Decimal.padded 9 x

/-- `asset_num_from_nai` -/
def assetNumFromNai (nai decimalPlaces : Nat) : Except String Nat := do
  let naiCheckDigit := nai % 10
  let naiDataDigits := nai / 10
  Outcome.ensure (1 ≤ naiDataDigits ∧ naiDataDigits ≤ 99999999) "NAI out of range"
  let expected ← checkDigit naiDataDigits
  Outcome.ensure (naiCheckDigit = expected) "Invalid check digit"
  if naiDataDigits = 2 then
    Outcome.ensure (decimalPlaces = 3) "decimal_places == BLURT_PRECISION_BLURT"
    return blurt.assetNum
  else if naiDataDigits = 3 then
    Outcome.ensure (decimalPlaces = 6) "decimal_places == BLURT_PRECISION_VESTS"
    return vests.assetNum
  else
    Outcome.ensure (decimalPlaces ≤ 12) "Invalid decimal_places"
    return (naiDataDigits * 2 ^ 5 ||| 2 ^ 4) ||| decimalPlaces

/-- `from_nai` -/
def fromNai (nai decimalPlaces : Nat) : Except String AssetSymbol := do
  let assetNum ← assetNumFromNai nai decimalPlaces
  return ⟨assetNum⟩

/-- `from_nai_string`, with `boost::lexical_cast< uint32_t >`. -/
def fromNaiString (lexicalCast : List Char → Option Nat) (p : List Char) (decimalPlaces : Nat) :
    Except String AssetSymbol := do
  Outcome.ensure (p.length = 11) "Incorrect NAI string length"
  Outcome.ensure (p.take 2 = ['@', '@']) "Invalid NAI string prefix"
  let nai ← Outcome.require (lexicalCast (p.drop 2)) "bad lexical cast"
  fromNai nai decimalPlaces

/-! ## Packing -/

/-- `validate` -/
def validate (symbol : AssetSymbol) : Except String Unit :=
  if symbol = blurt ∨ symbol = vests then
    .ok ()
  else
    let naiDataDigits := symbol.assetNum / 2 ^ 5
    let nai1bit := symbol.assetNum / 2 ^ 4 % 2
    Outcome.ensure (1 ≤ naiDataDigits ∧ naiDataDigits ≤ 99999999 ∧ nai1bit = 1 ∧ symbol.decimals ≤ 12)
      "Cannot determine space for asset ${n}"

/-- `fc::raw::pack` -/
def pack (symbol : AssetSymbol) : List UInt8 :=
  if symbol = blurt then blurtSer
  else if symbol = vests then vestsSer
  else LittleEndian.encode 4 symbol.assetNum

/-- `read` of the next bytes of a stream. -/
def readBytes (count : Nat) (stream : List UInt8) : Except String (List UInt8 × List UInt8) := do
  Outcome.ensure (count ≤ stream.length) "Attempt to read beyond the end of the stream"
  return (stream.take count, stream.drop count)

/-- `fc::raw::unpack`, with what is left of the stream. -/
def unpack (stream : List UInt8) : Except String (AssetSymbol × List UInt8) := do
  let (ser, rest) ← readBytes 4 stream
  if ser = blurtSer.take 4 then
    let (more, rest) ← readBytes 4 rest
    Outcome.ensure (ser ++ more = blurtSer) "invalid asset bits"
    return (blurt, rest)
  else if ser = vestsSer.take 4 then
    let (more, rest) ← readBytes 4 rest
    Outcome.ensure (ser ++ more = vestsSer) "invalid asset bits"
    return (vests, rest)
  else
    let symbol : AssetSymbol := ⟨LittleEndian.decode ser⟩
    validate symbol
    return (symbol, rest)

/-! ## Check digits -/

theorem dammTable_getD_le (i : Nat) : dammTable.getD i 0 ≤ 90 := by
  have hall : ∀ x ∈ dammTable, x ≤ 90 := by decide
  rw [List.getD_eq_getElem?_getD]
  cases hget : dammTable[i]? with
  | none => exact Nat.zero_le _
  | some x => exact hall x (List.mem_of_getElem? hget)

theorem dammChecksum8digit_le (value : Nat) : dammChecksum8digit value ≤ 9 := by
  unfold dammChecksum8digit
  apply Nat.le_of_lt_succ
  rw [Nat.div_lt_iff_lt_mul (by decide)]
  exact Nat.lt_of_le_of_lt (dammTable_getD_le _) (by decide)

end AssetSymbol

end Blurt
