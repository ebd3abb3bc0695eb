import Blurt.Foundation.Outcome
import Mathlib.Data.Int.Init
import Mathlib.Algebra.Group.Int.Defs
import Mathlib.Algebra.Group.Nat.Defs

/-! # Amounts, prices and the machine integers they are computed with

A `share_type` is a `safe< int64_t >`: it throws when a result leaves 64 bits, so
an amount is an unbounded integer here and `shareType` is the check. Intermediate
products are `fc::uint128`, which wraps.
-/

namespace Blurt

/-- The values of an `int64_t`. -/
def InInt64 (value : Int) : Prop := -2 ^ 63 ≤ value ∧ value < 2 ^ 63

instance (value : Int) : Decidable (InInt64 value) := inferInstanceAs (Decidable (_ ∧ _))

/-- The result of an operation on `safe< int64_t >`. -/
def shareType (value : Int) : Except String Int :=
  if InInt64 value then .ok value else .error "overflow_exception"

@[simp] theorem shareType_eq_ok {value result : Int} :
    shareType value = .ok result ↔ InInt64 value ∧ value = result := by
  unfold shareType
  split <;> simp_all

/-- Division of `safe` integers. -/
def safeDiv (a b : Int) : Except String Int :=
  if b = 0 then .error "divide_by_zero_exception" else .ok (a.tdiv b)

/-- Remainder of `safe` integers. -/
def safeMod (a b : Int) : Except String Int :=
  if b = 0 then .error "divide_by_zero_exception" else .ok (a.tmod b)

@[simp] theorem safeDiv_eq_ok {a b result : Int} :
    safeDiv a b = .ok result ↔ b ≠ 0 ∧ a.tdiv b = result := by
  unfold safeDiv
  split <;> simp_all

@[simp] theorem safeMod_eq_ok {a b result : Int} :
    safeMod a b = .ok result ↔ b ≠ 0 ∧ a.tmod b = result := by
  unfold safeMod
  split <;> simp_all

/-- The value that an `int64_t` variable holds after an assignment. -/
def wrapInt64 (value : Int) : Int := value.bmod (2 ^ 64)

theorem wrapInt64_lt (value : Int) : wrapInt64 value < 2 ^ 63 :=
  Int.bmod_lt (by decide)

theorem wrapInt64_ge (value : Int) : -2 ^ 63 ≤ wrapInt64 value :=
  Int.le_bmod (by decide)

theorem wrapInt64_of_lt {value : Int} (hlow : 0 ≤ value) (hhigh : value < 2 ^ 63) :
    wrapInt64 value = value := by
  unfold wrapInt64
  rw [Int.bmod_eq_of_le] <;> omega

namespace UInt128

/-- `uint128( int64_t )` -/
def ofInt (value : Int) : Nat := (value % 2 ^ 128).toNat

/-- The low 128 bits. -/
def wrap (value : Nat) : Nat := value % 2 ^ 128

def maxValue : Nat := 2 ^ 128 - 1

def sub (a b : Nat) : Nat := wrap (a + (2 ^ 128 - wrap b))

def div (a b : Nat) : Except String Nat :=
  if b = 0 then .error "divide by zero" else .ok (a / b)

/-- `uint128::to_uint64` -/
def toUInt64 (value : Nat) : Except String Nat :=
  if value < 2 ^ 64 then .ok value else .error "hi == 0"

/-- `uint128::to_int64` -/
def toInt64 (value : Nat) : Except String Int :=
  if value < 2 ^ 63 then .ok value else .error "lo <= max"

@[simp] theorem ofInt_natCast {value : Nat} (hvalue : value < 2 ^ 128) :
    ofInt (value : Int) = value := by
  unfold ofInt
  omega

theorem ofInt_of_nonneg {value : Int} (hlow : 0 ≤ value) (hhigh : value < 2 ^ 63) :
    ofInt value = value.toNat := by
  unfold ofInt
  omega

@[simp] theorem div_eq_ok {a b result : Nat} :
    div a b = .ok result ↔ b ≠ 0 ∧ a / b = result := by
  unfold div
  split <;> simp_all

@[simp] theorem toUInt64_eq_ok {value result : Nat} :
    toUInt64 value = .ok result ↔ value < 2 ^ 64 ∧ value = result := by
  unfold toUInt64
  split
  · rename_i hrange
    rw [Except.ok.injEq, and_iff_right hrange]
  · rename_i hrange
    exact ⟨fun h => (by cases h), fun h => absurd h.1 hrange⟩

@[simp] theorem toInt64_eq_ok {value : Nat} {result : Int} :
    toInt64 value = .ok result ↔ value < 2 ^ 63 ∧ (value : Int) = result := by
  unfold toInt64
  split
  · rename_i hrange
    rw [Except.ok.injEq, and_iff_right hrange]
  · rename_i hrange
    exact ⟨fun h => (by cases h), fun h => absurd h.1 hrange⟩

end UInt128

/-- `asset_symbol_type` -/
structure AssetSymbol where
  assetNum : Nat
  deriving DecidableEq, Repr

namespace AssetSymbol

/-- `BLURT_SYMBOL` -/
def blurt : AssetSymbol := ⟨(99999999 + 2) * 2 ^ 5 + 3⟩

/-- `VESTS_SYMBOL` -/
def vests : AssetSymbol := ⟨(99999999 + 3) * 2 ^ 5 + 6⟩

/-- `space() == smt_nai_space` -/
def isSmt (symbol : AssetSymbol) : Bool := symbol ≠ blurt && symbol ≠ vests

/-- `asset_symbol_type::is_vesting` -/
def isVesting (symbol : AssetSymbol) : Bool :=
  if symbol.isSmt then symbol.assetNum / 2 ^ 5 % 2 = 1 else symbol = vests

end AssetSymbol

/-- `asset` -/
structure Asset where
  amount : Int
  symbol : AssetSymbol
  deriving DecidableEq, Repr

namespace Asset

def blurt (amount : Int) : Asset := ⟨amount, .blurt⟩

def vests (amount : Int) : Asset := ⟨amount, .vests⟩

@[simp] theorem blurt_amount (amount : Int) : (blurt amount).amount = amount := rfl

@[simp] theorem blurt_symbol (amount : Int) : (blurt amount).symbol = .blurt := rfl

@[simp] theorem vests_amount (amount : Int) : (vests amount).amount = amount := rfl

@[simp] theorem vests_symbol (amount : Int) : (vests amount).symbol = .vests := rfl

instance : Neg Asset := ⟨fun a => ⟨-a.amount, a.symbol⟩⟩

@[simp] theorem neg_amount (a : Asset) : (-a).amount = -a.amount := rfl

@[simp] theorem neg_symbol (a : Asset) : (-a).symbol = a.symbol := rfl

@[simp] theorem neg_blurt (amount : Int) : -blurt amount = blurt (-amount) := rfl

end Asset

/-- A `price` between vesting shares and liquid, in either order of base and quote. -/
structure Price where
  vests : Int
  blurt : Int
  deriving DecidableEq, Repr

namespace Price

/-- The constructor of `price` with its call of `validate`. -/
def make (vests blurt : Int) : Except String Price := do
  Outcome.ensure (0 < vests) "base.amount > share_type(0)"
  Outcome.ensure (0 < blurt) "quote.amount > share_type(0)"
  return { vests, blurt }

/-- The product of `operator*( asset, price )`: `amount` of the symbol that is worth
`same`, in units of the symbol that is worth `other`. -/
def convert (amount same other : Int) : Except String Int := do
  Outcome.ensure (0 < same) "b.base.amount.value > 0"
  let result ← UInt128.div (UInt128.wrap (UInt128.ofInt amount * UInt128.ofInt other))
    (UInt128.ofInt same)
  let converted ← UInt128.toUInt64 result
  return wrapInt64 converted

/-- `asset( amount, BLURT_SYMBOL ) * price` -/
def toVests (price : Price) (amount : Int) : Except String Int :=
  convert amount price.blurt price.vests

/-- `asset( amount, VESTS_SYMBOL ) * price` -/
def toBlurt (price : Price) (amount : Int) : Except String Int :=
  convert amount price.vests price.blurt

end Price

end Blurt
