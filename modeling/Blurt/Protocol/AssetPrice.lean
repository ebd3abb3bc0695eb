import Blurt.Protocol.Asset
import Mathlib.Data.Nat.Init

/-! # Assets times prices

The product of an asset and a price rounds down, and fits into the amount of an asset unless it is
between the limits of the signed and the unsigned amounts.
-/

namespace Blurt

open Outcome

/-- `price` -/
structure AssetPrice where
  base : Asset
  quote : Asset
  deriving DecidableEq, Repr

namespace AssetPrice

/-- `price::validate` -/
def validate (p : AssetPrice) : Except String Unit := do
  Outcome.ensure (0 < p.base.amount) "base.amount > share_type(0)"
  Outcome.ensure (0 < p.quote.amount) "quote.amount > share_type(0)"
  Outcome.ensure (p.base.symbol ≠ p.quote.symbol) "base.symbol != quote.symbol"

/-- What a price exchanges a symbol for: the asset of that symbol and the other one. -/
def sides (p : AssetPrice) (symbol : AssetSymbol) : Option (Asset × Asset) :=
  if symbol = p.base.symbol then some (p.base, p.quote)
  else if symbol = p.quote.symbol then some (p.quote, p.base)
  else none

end AssetPrice

/-- `operator*( asset, price )` -/
def Asset.mulPrice (a : Asset) (b : AssetPrice) : Except String Asset := do
  if a.symbol = b.base.symbol then
    Outcome.ensure (0 < b.base.amount) "b.base.amount.value > 0"
    let product := UInt128.wrap (UInt128.ofInt a.amount * UInt128.ofInt b.quote.amount)
    let result ← UInt128.div product (UInt128.ofInt b.base.amount)
    let amount ← UInt128.toUInt64 result
    return ⟨wrapInt64 amount, b.quote.symbol⟩
  else if a.symbol = b.quote.symbol then
    Outcome.ensure (0 < b.quote.amount) "b.quote.amount.value > 0"
    let product := UInt128.wrap (UInt128.ofInt a.amount * UInt128.ofInt b.base.amount)
    let result ← UInt128.div product (UInt128.ofInt b.quote.amount)
    let amount ← UInt128.toUInt64 result
    return ⟨wrapInt64 amount, b.base.symbol⟩
  else
    .error "invalid asset * price"

/-- The amounts of an asset that are not negative. -/
def InAmount (value : Int) : Prop := 0 ≤ value ∧ InInt64 value

namespace Asset

variable {a same other : Asset} {p : AssetPrice}

/-- What is stored of `amount` times `other`, divided by `same`. -/
def scaled (amount other same : Int) : Except String Int :=
  if amount * other / same < 2 ^ 64 then .ok (wrapInt64 (amount * other / same))
  else .error "hi == 0"

/-- Only the amount that is stored can be cut off. -/
theorem scaled_eq {amount other same : Int} (hamount : InAmount amount) (hother : InAmount other)
    (hsame : InAmount same) (hpos : 0 < same) :
    (do let result ← UInt128.div (UInt128.wrap (UInt128.ofInt amount * UInt128.ofInt other))
          (UInt128.ofInt same)
        let stored ← UInt128.toUInt64 result
        return wrapInt64 stored) = scaled amount other same := by
  obtain ⟨⟨hamount, -, hamountLt⟩, ⟨hother, -, hotherLt⟩, ⟨hsame, -, hsameLt⟩⟩ :=
    And.intro hamount (And.intro hother hsame)
  rw [UInt128.ofInt_of_nonneg hamount hamountLt, UInt128.ofInt_of_nonneg hother hotherLt,
    UInt128.ofInt_of_nonneg hsame hsameLt]
  obtain ⟨amount, rfl⟩ := Int.eq_ofNat_of_zero_le hamount
  obtain ⟨other, rfl⟩ := Int.eq_ofNat_of_zero_le hother
  obtain ⟨same, rfl⟩ := Int.eq_ofNat_of_zero_le hsame
  simp only [Int.toNat_natCast, scaled]
  have hproduct : amount * other < 2 ^ 63 * 2 ^ 63 :=
    Nat.mul_lt_mul'' (by exact_mod_cast hamountLt) (by exact_mod_cast hotherLt)
  have hquotient : (amount * other : Int) / same = (amount * other / same : Nat) := by
    push_cast
    rfl
  rw [UInt128.wrap, Nat.mod_eq_of_lt (by omega), UInt128.div, if_neg (by omega), ok_bind,
    UInt128.toUInt64, hquotient]
  by_cases hfits : amount * other / same < 2 ^ 64
  · rw [if_pos hfits, if_pos (by exact_mod_cast hfits)]
    rfl
  · rw [if_neg hfits, if_neg (by exact_mod_cast hfits)]
    rfl

/-- The product of an asset and a price is what is stored of the exchange. -/
theorem mulPrice_eq (hvalid : p.validate = .ok ()) (ha : InAmount a.amount)
    (hbase : InInt64 p.base.amount) (hquote : InInt64 p.quote.amount)
    (hsides : p.sides a.symbol = some (same, other)) :
    a.mulPrice p = do
      let amount ← scaled a.amount other.amount same.amount
      return ⟨amount, other.symbol⟩ := by
  simp only [AssetPrice.validate, bind_eq_ok, ensure_eq_ok] at hvalid
  obtain ⟨_, hbasePos, _, hquotePos, hne⟩ := hvalid
  unfold AssetPrice.sides at hsides
  unfold mulPrice
  split at hsides
  · rename_i hsymbol
    cases hsides
    rw [if_pos hsymbol, ← scaled_eq ha ⟨Int.le_of_lt hquotePos, hquote⟩
      ⟨Int.le_of_lt hbasePos, hbase⟩ hbasePos]
    simp only [Outcome.ensure, if_pos hbasePos, bind_assoc, pure_bind]
    rfl
  · rename_i hbaseSymbol
    split at hsides
    · rename_i hsymbol
      cases hsides
      rw [if_neg hbaseSymbol, if_pos hsymbol, ← scaled_eq ha ⟨Int.le_of_lt hbasePos, hbase⟩
        ⟨Int.le_of_lt hquotePos, hquote⟩ hquotePos]
      simp only [Outcome.ensure, if_pos hquotePos, bind_assoc, pure_bind]
      rfl
    · cases hsides

/-- The claim on a product: it is the exact exchange, rounded down. -/
def Exact (a : Asset) (p : AssetPrice) : Prop :=
  ∀ product, a.mulPrice p = .ok product → ∃ same other, p.sides a.symbol = some (same, other) ∧
    product.symbol = other.symbol ∧ 0 ≤ product.amount ∧
      product.amount = a.amount * other.amount / same.amount

/-- What is stored is exact if the quotient fits into the amount, and nothing is stored if it does
not even fit into 64 bits. -/
theorem scaled_exact_iff {amount other same : Int} (hamount : 0 ≤ amount * other) (hpos : 0 < same) :
    (∀ stored, scaled amount other same = .ok stored →
      0 ≤ stored ∧ stored = amount * other / same) ↔
      amount * other < 2 ^ 63 * same ∨ 2 ^ 64 * same ≤ amount * other := by
  have hquotient : 0 ≤ amount * other / same := Int.ediv_nonneg hamount (Int.le_of_lt hpos)
  have hsmall : amount * other / same < 2 ^ 63 ↔ amount * other < 2 ^ 63 * same :=
    Int.ediv_lt_iff_lt_mul hpos
  have hlarge : 2 ^ 64 ≤ amount * other / same ↔ 2 ^ 64 * same ≤ amount * other :=
    Int.le_ediv_iff_mul_le hpos
  rw [← hsmall, ← hlarge, scaled]
  constructor
  · intro h
    by_cases hfits : amount * other / same < 2 ^ 64
    · obtain ⟨-, hexact⟩ := h _ (if_pos hfits)
      have hlt := wrapInt64_lt (amount * other / same)
      omega
    · exact .inr (Int.not_lt.mp hfits)
  · rintro (hlt | hlarge) stored hstored
    · rw [if_pos (by omega), Except.ok.injEq, wrapInt64_of_lt hquotient hlt] at hstored
      exact ⟨hstored ▸ hquotient, hstored.symm⟩
    · rw [if_neg (by omega)] at hstored
      cases hstored

/-- A product with a valid price is exact, or fails, unless the quotient lies between the limits of
signed and of unsigned amounts. -/
theorem mulPrice_exact_iff (hvalid : p.validate = .ok ()) (ha : InAmount a.amount)
    (hbase : InInt64 p.base.amount) (hquote : InInt64 p.quote.amount)
    (hsides : p.sides a.symbol = some (same, other)) :
    Exact a p ↔ a.amount * other.amount < 2 ^ 63 * same.amount ∨
      2 ^ 64 * same.amount ≤ a.amount * other.amount := by
  have hpos : 0 < same.amount ∧ 0 < other.amount := by
    simp only [AssetPrice.validate, bind_eq_ok, ensure_eq_ok] at hvalid
    obtain ⟨_, hbasePos, _, hquotePos, -⟩ := hvalid
    unfold AssetPrice.sides at hsides
    split at hsides
    · cases hsides
      exact ⟨hbasePos, hquotePos⟩
    · split at hsides
      · cases hsides
        exact ⟨hquotePos, hbasePos⟩
      · cases hsides
  rw [← scaled_exact_iff (Int.mul_nonneg ha.1 (Int.le_of_lt hpos.2)) hpos.1, Exact,
    mulPrice_eq hvalid ha hbase hquote hsides]
  constructor
  · intro h stored hstored
    rw [hstored] at h
    obtain ⟨same', other', hsides', -, hnonneg, hexact⟩ := h _ rfl
    cases hsides.symm.trans hsides'
    exact ⟨hnonneg, hexact⟩
  · intro h product hproduct
    obtain ⟨stored, hstored, hproduct⟩ := bind_eq_ok.mp hproduct
    cases hproduct
    obtain ⟨hnonneg, hexact⟩ := h stored hstored
    exact ⟨same, other, hsides, rfl, hnonneg, hexact⟩

end Asset

namespace Sample

open Asset

/-- Two units of liquid for every vesting share. -/
def doublePrice : AssetPrice := ⟨.vests 1, .blurt 2⟩

theorem hundred_exact : Exact (.vests 100) doublePrice :=
  (mulPrice_exact_iff (by decide) ⟨by decide, by decide⟩ (by decide) (by decide)
    (show doublePrice.sides _ = some (.vests 1, .blurt 2) from by decide)).mpr (by decide)

/-- Half of the unsigned amounts are negative when they are stored. -/
theorem double_not_exact : ¬ Exact (.vests (2 ^ 62)) doublePrice := by
  have hproduct : (Asset.vests (2 ^ 62)).mulPrice doublePrice = .ok (.blurt (-2 ^ 63)) := by
    decide +kernel
  intro h
  obtain ⟨same, other, -, -, hnonneg, -⟩ := h _ hproduct
  exact absurd hnonneg (by decide)

end Sample

end Blurt
