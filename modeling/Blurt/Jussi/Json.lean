import Mathlib.Data.Char
import Mathlib.Data.List.Lex
import Mathlib.Data.List.DropRight
import Mathlib.Data.List.Sort

/-! # JSON values

The values of a decoded JSON text, and what Python does with them. The fields of an object come in the
order of the text; two objects are the same up to key order when sorting their keys makes them equal.
-/

namespace Blurt.Jussi

/-- A text, by its characters. -/
abbrev Text := List Char

inductive Json where
  | null
  | bool (b : Bool)
  | int (n : Int)
  -- the decimal number `mantissa * 10 ^ exponent`
  | float (mantissa exponent : Int)
  | string (text : Text)
  | array (items : List Json)
  | object (fields : List (Text × Json))

namespace Json

/-- The fields of an object, by their keys. -/
def sortFields (fields : List (Text × Json)) : List (Text × Json) :=
  fields.insertionSort fun a b => a.1 ≤ b.1

mutual

/-- A value with the keys of all its objects sorted. -/
def canon : Json → Json
  | null => null
  | bool b => bool b
  | int n => int n
  | float mantissa exponent => float mantissa exponent
  | string text => string text
  | array items => array (canonItems items)
  | object fields => object (sortFields (canonFields fields))

def canonItems : List Json → List Json
  | [] => []
  | item :: items => item.canon :: canonItems items

def canonFields : List (Text × Json) → List (Text × Json)
  | [] => []
  | field :: fields => (field.1, field.2.canon) :: canonFields fields

end

/-- Two values are the same up to the order of keys. -/
def SameUpToOrder (x y : Json) : Prop := x.canon = y.canon

/-! ## Python's operations -/

/-- `bool(value)`. -/
def truthy : Json → Bool
  | null => false
  | bool b => b
  | int n => n != 0
  | float mantissa _ => mantissa != 0
  | string text => !text.isEmpty
  | array items => !items.isEmpty
  | object fields => !fields.isEmpty

def isNull : Json → Bool
  | null => true
  | _ => false

/-- The value as an integer, which the booleans are too. -/
def asInt : Json → Option Int
  | int n => some n
  | bool b => some (if b then 1 else 0)
  | _ => none

/-- The value of an object under a key. -/
def field (key : Text) : Json → Option Json
  | object fields => (fields.find? fun field => field.1 == key).map Prod.snd
  | _ => none

/-- `get_in`: the value along a path of keys, or `None`. -/
def getIn : List Text → Json → Json
  | [], value => value
  | key :: keys, value => ((value.field key).map (getIn keys)).getD null

end Json

/-- A digit of `int(text, base)`. -/
def digitOf (base : Nat) (c : Char) : Option Nat :=
  let digit :=
    if '0' ≤ c ∧ c ≤ '9' then some (c.toNat - '0'.toNat)
    else if 'a' ≤ c ∧ c ≤ 'f' then some (c.toNat - 'a'.toNat + 10)
    else if 'A' ≤ c ∧ c ≤ 'F' then some (c.toNat - 'A'.toNat + 10)
    else none
  digit.filter (· < base)

/-- Digits, each of which may follow an underscore. -/
def digitsFrom (base acc : Nat) : Text → Option Nat
  | [] => some acc
  | '_' :: c :: rest => (digitOf base c).bind fun digit => digitsFrom base (acc * base + digit) rest
  | c :: rest => (digitOf base c).bind fun digit => digitsFrom base (acc * base + digit) rest

/-- An unsigned number, which starts with a digit or, in base 16, with the prefix `0x`. -/
def unsignedOf (base : Nat) : Text → Option Nat
  | [] => none
  | '_' :: _ => none
  | '0' :: x :: rest =>
    if base = 16 ∧ (x = 'x' ∨ x = 'X') then
      if rest.isEmpty then none else digitsFrom base 0 rest
    else digitsFrom base 0 (x :: rest)
  | text => digitsFrom base 0 text

def isSpace (c : Char) : Bool := c == ' ' || (9 ≤ c.toNat && c.toNat ≤ 13)

/-- `int(text, base)` on ASCII texts, in base 10 or 16. -/
def intOf (base : Nat) (text : Text) : Option Int :=
  match (text.dropWhile isSpace).rdropWhile isSpace with
  | '-' :: rest => (unsignedOf base rest).map fun n => -(n : Int)
  | '+' :: rest => (unsignedOf base rest).map Int.ofNat
  | rest => (unsignedOf base rest).map Int.ofNat

end Blurt.Jussi
