import Blurt.Foundation.Decimal
import Blurt.Foundation.Wire
import Blurt.Protocol.Asset
import Blurt.Protocol.Authority

/-! # JavaScript values and the packages of the clients

A string is given by its UTF-8 bytes, one character for each, and a number is an integer:
the objects that the clients serialize hold no other number.
-/

namespace Blurt

namespace Client

open Wire

/-- The bytes of a text. -/
def textBytes (s : Text) : Bytes := s.toList.map fun c => UInt8.ofNat c.toNat

@[simp] theorem length_textBytes (s : Text) : (textBytes s).length = s.length := by
  rw [textBytes, List.length_map, String.length_toList]

inductive Js
  | undefined
  | null
  | boolean (b : Bool)
  | number (n : Int)
  | string (s : Text)
  /-- The string `YYYY-MM-DDTHH:MM:SS` of a time in UTC. -/
  | time (seconds : Nat)
  | array (items : List Js)
  | object (fields : List (String × Js))

namespace Js

/-- `value[name]` -/
def get : Js → String → Except String Js
  | undefined, _ => .error "Cannot read properties of undefined"
  | null, _ => .error "Cannot read properties of null"
  | object fields, name => .ok ((fields.lookup name).getD undefined)
  | _, _ => .ok undefined

/-- `value[index]` of an array. -/
def item (value : Js) (index : Nat) : Js :=
  match value with
  | array items => items.getD index undefined
  | _ => undefined

def isArray : Js → Bool
  | array _ => true
  | _ => false

/-- `value.length` of an array. -/
def items : Js → List Js
  | array items => items
  | _ => []

/-- `texts.join()`: the texts with commas between them. -/
def join : List Text → Text
  | [] => ""
  | [last] => last
  | first :: rest => first ++ "," ++ join rest

mutual

/-- `value.toString()`, where an array joins what its elements give. -/
def toText : Js → Text
  | undefined => "undefined"
  | null => "null"
  | boolean b => if b then "true" else "false"
  | number n => String.ofList ((if n < 0 then ['-'] else []) ++ Decimal.text n.natAbs)
  | string s => s
  | time _ => "time"
  | array items => join (itemTexts items)
  | object _ => "[object Object]"

/-- What the elements of an array give to its text. -/
def itemTexts : List Js → List Text
  | [] => []
  | undefined :: rest => "" :: itemTexts rest
  | null :: rest => "" :: itemTexts rest
  | item :: rest => toText item :: itemTexts rest

end

end Js

/-- The members that every JavaScript object inherits from `Object.prototype`. -/
def objectPrototype : List Text :=
  ["constructor", "__defineGetter__", "__defineSetter__", "hasOwnProperty", "__lookupGetter__",
    "__lookupSetter__", "isPrototypeOf", "propertyIsEnumerable", "toString", "valueOf", "__proto__",
    "toLocaleString"]

/-- The rank of a byte among the first bytes of characters when strings are compared by their
UTF-16 code units: the characters of four bytes are below those that start with EE or EF. -/
def utf16Rank (c : Char) : Nat :=
  if c.toNat = 0xEE ∨ c.toNat = 0xEF then c.toNat + 0x100 else c.toNat

/-- What the comparison of JavaScript strings compares. -/
def utf16Key (s : Text) : List Nat := s.toList.map utf16Rank

/-- The value of a hexadecimal digit. -/
def hexValue (c : Char) : Nat :=
  if '0' ≤ c ∧ c ≤ '9' then c.toNat - 48 else c.toNat - 87

/-- `Buffer.from( text, "hex" )` of lower-case digits. -/
def hexDecode : List Char → Bytes
  | high :: low :: rest => UInt8.ofNat (16 * hexValue high + hexValue low) :: hexDecode rest
  | _ => []

/-- The packages `bytebuffer`, `long`, `bs58`, `create-hash`, `ecurve` and `secp256k1`. -/
structure Libraries where
  writeInt8 : Int → Except String Bytes
  writeUint8 : Int → Except String Bytes
  writeUint16 : Int → Except String Bytes
  writeInt16 : Int → Except String Bytes
  writeUint32 : Int → Except String Bytes
  writeInt64 : Int → Except String Bytes
  writeUint64 : Int → Except String Bytes
  writeVarint32 : Int → Except String Bytes
  writeVString : Text → Except String Bytes
  /-- `Long.fromString` -/
  longFromString : Text → Except String Int
  longToString : Int → Text
  /-- `Long.fromNumber` -/
  longFromNumber : Int → Int
  base58Encode : Bytes → Text
  base58Decode : Text → Except String Bytes
  ripemd160 : Bytes → Bytes
  /-- `Point.decodeFrom( secp256k1, buffer ).getEncoded( compressed )` -/
  reencodePoint : Bytes → Except String Bytes
  /-- `secp256k1.publicKeyVerify` -/
  publicKeyVerify : Bytes → Bool

/-- What the packages document. -/
structure Libraries.Documented (lib : Libraries) : Prop where
  writeInt8 : ∀ n : Nat, n < 2 ^ 7 → lib.writeInt8 n = .ok (LittleEndian.encode 1 n)
  writeUint8 : ∀ n : Nat, n < 2 ^ 8 → lib.writeUint8 n = .ok (LittleEndian.encode 1 n)
  writeUint16 : ∀ n : Nat, n < 2 ^ 16 → lib.writeUint16 n = .ok (LittleEndian.encode 2 n)
  writeInt16 : ∀ n : Int, -2 ^ 15 ≤ n → n < 2 ^ 15 →
    lib.writeInt16 n = .ok (LittleEndian.encode 2 (n % 2 ^ 16).toNat)
  writeUint32 : ∀ n : Int, -2 ^ 31 ≤ n → n < 2 ^ 32 →
    lib.writeUint32 n = .ok (LittleEndian.encode 4 (n % 2 ^ 32).toNat)
  writeInt64 : ∀ n : Int, InInt64 n →
    lib.writeInt64 n = .ok (LittleEndian.encode 8 (n % 2 ^ 64).toNat)
  writeUint64 : ∀ n : Int, InInt64 n →
    lib.writeUint64 n = .ok (LittleEndian.encode 8 (n % 2 ^ 64).toNat)
  writeVarint32 : ∀ n : Nat, lib.writeVarint32 n = .ok (varint 5 (n % 2 ^ 32))
  writeVString : ∀ s, lib.writeVString s = .ok (varint 5 (s.length % 2 ^ 32) ++ textBytes s)
  longFromString : ∀ cs : List Char, cs ≠ [] → (∀ c ∈ cs, Decimal.isDigit c = true) →
    Decimal.parse cs < 2 ^ 63 → lib.longFromString (String.ofList cs) = .ok (Decimal.parse cs)
  longToString : ∀ n : Nat, n < 2 ^ 63 → lib.longToString n = String.ofList (Decimal.text n)
  longFromNumber : ∀ n : Int, lib.longFromNumber n = max (-2 ^ 63) (min n (2 ^ 63 - 1))
  base58Decode : ∀ bytes, lib.base58Decode (lib.base58Encode bytes) = .ok bytes
  length_ripemd160 : ∀ bytes, (lib.ripemd160 bytes).length = 20
  length_reencodePoint : ∀ bytes point, bytes.length = 33 → lib.reencodePoint bytes = .ok point →
    point.length = 33
  /-- A decoded point is encoded in one way. -/
  reencodePoint_again : ∀ bytes point, lib.reencodePoint bytes = .ok point →
    lib.reencodePoint point = .ok point

end Client

end Blurt
