import Blurt.Ledger.ResourceLaws
import Blurt.Protocol.AssetSymbol
import Mathlib

/-! # Legacy amounts

The text of an amount in the old API, such as `7.005 BLURT`, and what is read from it. A
string is the list of its bytes, each as the character of its code.
-/

namespace Blurt

namespace LegacyAsset

open Outcome

/-! ## Texts of numbers -/

/-- `std::isspace` in the classic locale. -/
def isSpace (c : Char) : Bool :=
  c = ' ' || c = '\t' || c = '\n' || c = Char.ofNat 11 || c = Char.ofNat 12 || c = '\r'

/-- `fc::trim` -/
def trim (s : List Char) : List Char := (s.dropWhile isSpace).rdropWhile isSpace

/-- What a reader of `c_str()` sees of a string. -/
def cStr (s : List Char) : List Char := s.takeWhile (· ≠ Char.ofNat 0)

/-- `fc::to_string( int64_t )` -/
def int64Text (value : Int) : List Char :=
  if value < 0 then '-' :: Decimal.text value.natAbs else Decimal.text value.natAbs

/-- The digits of a numeral, and whether they are of a negative number. -/
def splitSign : List Char → Bool × List Char
  | '-' :: digits => (true, digits)
  | '+' :: digits => (false, digits)
  | digits => (false, digits)

/-- `fc::to_int64`, with `boost::lexical_cast< int64_t >` in the classic locale. -/
def toInt64 (s : List Char) : Except String Int :=
  let numeral := splitSign (cStr s)
  let value : Int :=
    if numeral.1 then -(Decimal.parse numeral.2 : Int) else Decimal.parse numeral.2
  if numeral.2 ≠ [] ∧ numeral.2.all Decimal.isDigit ∧ InInt64 value then .ok value
  else .error "Couldn't parse int64_t"

/-! ## Symbols -/

/-- The blanks that `string_to_asset_num` skips. -/
def isBlank (c : Char) : Bool := c = ' ' || c = '\t' || c = '\n' || c = '\r'

/-- The letters of a symbol as one number. -/
def nameU64 : List Char → Nat
  | [] => 0
  | c :: rest => c.toNat + 2 ^ 8 * nameU64 rest

/-- `BLURT_SYMBOL_U64` -/
def blurtSymbolU64 : Nat := nameU64 "BLURT".toList

/-- `VESTS_SYMBOL_U64` -/
def vestsSymbolU64 : Nat := nameU64 "VESTS".toList

/-- `string_to_asset_num` -/
def stringToAssetNum (p : List Char) (decimals : Nat) : Except String AssetSymbol := do
  let start := (cStr p).dropWhile isBlank
  let name := start.takeWhile Char.isUpper
  let rest := (start.dropWhile Char.isUpper).dropWhile isBlank
  ensure (name ≠ [] ∧ name.length ≤ 8) "Cannot parse asset symbol"
  let symbol ←
    if nameU64 name = blurtSymbolU64 then do
      ensure (decimals = 3) "Incorrect decimal places"
      pure AssetSymbol.blurt
    else if nameU64 name = vestsSymbolU64 then do
      ensure (decimals = 6) "Incorrect decimal places"
      pure AssetSymbol.vests
    else .error "Cannot parse asset symbol"
  ensure (rest = []) "Cannot parse asset symbol"
  return symbol

/-- `asset_num_to_string` -/
def assetNumToString (symbol : AssetSymbol) : List Char :=
  if symbol = .blurt then "BLURT".toList
  else if symbol = .vests then "VESTS".toList
  else "UNKN".toList

/-- `precision`, whose table ends at 14 decimals. -/
def precision (symbol : AssetSymbol) : Int := 10 ^ symbol.decimals

/-! ## Amounts -/

/-- `legacy_asset::to_string` -/
def toString (a : Asset) : List Char :=
  let prec := precision a.symbol
  let fraction :=
    if 1 < prec then '.' :: (int64Text (prec + a.amount.tmod prec)).drop 1 else []
  int64Text (a.amount.tdiv prec) ++ fraction ++ ' ' :: assetNumToString a.symbol

/-- `s.find( c )` -/
def find (c : Char) (s : List Char) : Option Nat := s.findIdx? (· = c)

/-- The amount of a text with a point. -/
def decimalAmount (symbol : AssetSymbol) (intpart fractpart : List Char) : Except String Asset := do
  let prec := precision symbol
  -- the multiplication is emulated with additional zeros
  let amount ← toInt64 (intpart ++ (int64Text prec).drop 1)
  let fraction ← toInt64 fractpart
  let newValue := wrapInt64 (fraction - prec)
  let sum := wrapInt64 (amount + newValue)
  ensure (¬ (0 < amount ∧ 0 < newValue ∧ sum < 0) ∧ ¬ (amount < 0 ∧ newValue < 0 ∧ 0 < sum))
    "Couldn't parse int64_t"
  return ⟨sum, symbol⟩

/-- `legacy_asset::from_string` -/
def fromString (text : List Char) : Except String Asset := do
  let s := trim text
  let spacePos ← require (find ' ' s) "space_pos != std::string::npos"
  let strSymbol := s.drop (spacePos + 1)
  match find '.' s with
  | some dotPos =>
      ensure (dotPos < spacePos) "space_pos > dot_pos"
      let fractpart := '1' :: (s.drop (dotPos + 1)).take (spacePos - dotPos - 1)
      let symbol ← stringToAssetNum strSymbol ((fractpart.length - 1) % 2 ^ 8)
      decimalAmount symbol (s.take dotPos) fractpart
  | none =>
      let amount ← toInt64 (s.take spacePos)
      let symbol ← stringToAssetNum strSymbol 0
      return ⟨amount, symbol⟩

/-! ## Numerals -/

/-- A one in front keeps the zeros of a fraction. -/
theorem text_pow_add {d r : Nat} (h : r < 10 ^ d) :
    Decimal.text (10 ^ d + r) = '1' :: Decimal.padded d r := by
  induction d generalizing r with
  | zero =>
      obtain rfl : r = 0 := by simpa using h
      rw [Decimal.text, if_pos (by decide)]
      rfl
  | succ d ih =>
      have hpow : 10 ^ (d + 1) = 10 * 10 ^ d := by rw [Nat.pow_succ, Nat.mul_comm]
      have hpos : 0 < 10 ^ d := Nat.pow_pos (by decide)
      have hlast : Decimal.digit (10 ^ (d + 1) + r) = Decimal.digit r := by
        rw [Decimal.digit, Decimal.digit, hpow, Nat.mul_add_mod]
      have hrest : (10 ^ (d + 1) + r) / 10 = 10 ^ d + r / 10 := by
        rw [hpow, Nat.mul_add_div (by decide)]
      rw [Decimal.text, if_neg (by omega), hlast, hrest, ih (by omega), Decimal.padded]
      rfl

theorem length_text_le {d n : Nat} (hpos : 0 < n) (h : n < 10 ^ d) :
    (Decimal.text n).length ≤ d := by
  induction d generalizing n with
  | zero =>
      rw [Nat.pow_zero] at h
      omega
  | succ d ih =>
      rw [Decimal.text]
      split
      · simp
      · rw [List.length_append, List.length_singleton]
        have hpow : 10 ^ (d + 1) = 10 * 10 ^ d := by rw [Nat.pow_succ, Nat.mul_comm]
        have hrest := @ih (n / 10) (by omega) (by omega)
        omega

theorem cStr_eq_self {s : List Char} (h : ∀ c ∈ s, c ≠ Char.ofNat 0) : cStr s = s :=
  List.takeWhile_eq_self_iff.mpr fun c hc => decide_eq_true (h c hc)

theorem ne_nul_of_isDigit {c : Char} (h : Decimal.isDigit c = true) : c ≠ Char.ofNat 0 := by
  rintro rfl
  exact absurd h (by decide)

theorem splitSign_digits {digits : List Char} (hdigits : ∀ c ∈ digits, Decimal.isDigit c = true) :
    splitSign digits = (false, digits) := by
  unfold splitSign
  split
  · exact absurd (hdigits '-' List.mem_cons_self) (by decide)
  · exact absurd (hdigits '+' List.mem_cons_self) (by decide)
  · rfl

/-- A numeral with a sign is read as its number, if that fits. -/
theorem toInt64_of_digits {digits : List Char} (hdigits : ∀ c ∈ digits, Decimal.isDigit c = true)
    (hne : digits ≠ []) (hfits : InInt64 (Decimal.parse digits)) :
    toInt64 digits = .ok (Decimal.parse digits) := by
  have hsign : splitSign (cStr digits) = (false, digits) := by
    rw [cStr_eq_self fun c hc => ne_nul_of_isDigit (hdigits c hc), splitSign_digits hdigits]
  have hall : digits.all Decimal.isDigit = true := List.all_eq_true.mpr hdigits
  simp only [toInt64, hsign, Bool.false_eq_true, if_false]
  rw [if_pos ⟨hne, hall, hfits⟩]

theorem toInt64_of_minus {digits : List Char} (hdigits : ∀ c ∈ digits, Decimal.isDigit c = true)
    (hne : digits ≠ []) (hfits : InInt64 (-(Decimal.parse digits : Int))) :
    toInt64 ('-' :: digits) = .ok (-(Decimal.parse digits : Int)) := by
  have hplain : cStr ('-' :: digits) = '-' :: digits := by
    refine cStr_eq_self fun c hc => ?_
    rcases List.mem_cons.mp hc with rfl | hc
    · decide
    · exact ne_nul_of_isDigit (hdigits c hc)
  have hsign : splitSign (cStr ('-' :: digits)) = (true, digits) := by
    rw [hplain]
    rfl
  have hall : digits.all Decimal.isDigit = true := List.all_eq_true.mpr hdigits
  simp only [toInt64, hsign, if_true]
  rw [if_pos ⟨hne, hall, hfits⟩]

/-- The zeros of the precision after a number multiply it. -/
theorem toInt64_zeros {q : Int} {d : Nat} (hfits : InInt64 (q * 10 ^ d)) :
    toInt64 (int64Text q ++ Decimal.padded d 0) = .ok (q * 10 ^ d) := by
  have hdigits : ∀ c ∈ Decimal.text q.natAbs ++ Decimal.padded d 0, Decimal.isDigit c = true := by
    intro c hc
    rcases List.mem_append.mp hc with hc | hc
    · exact Decimal.isDigit_of_mem_text hc
    · exact Decimal.isDigit_of_mem_padded hc
  have hne : Decimal.text q.natAbs ++ Decimal.padded d 0 ≠ [] :=
    List.append_ne_nil_of_left_ne_nil (Decimal.text_ne_nil _) _
  have hparse : Decimal.parse (Decimal.text q.natAbs ++ Decimal.padded d 0) = q.natAbs * 10 ^ d := by
    rw [Decimal.parse_append, Decimal.parse_text, Decimal.parse_padded, Decimal.length_padded,
      Nat.zero_mod, Nat.add_zero]
  unfold int64Text
  split
  · rename_i hnegative
    have hvalue : -((q.natAbs * 10 ^ d : Nat) : Int) = q * 10 ^ d := by
      rw [Nat.cast_mul, Int.ofNat_natAbs_of_nonpos hnegative.le, neg_mul, neg_neg]
      norm_cast
    rw [List.cons_append, toInt64_of_minus hdigits hne (by rwa [hparse, hvalue]), hparse, hvalue]
  · rename_i hnonneg
    have hvalue : ((q.natAbs * 10 ^ d : Nat) : Int) = q * 10 ^ d := by
      rw [Nat.cast_mul, Int.natAbs_of_nonneg (not_lt.mp hnonneg)]
      norm_cast
    rw [toInt64_of_digits hdigits hne (by rwa [hparse, hvalue]), hparse, hvalue]

/-! ## Reading -/

theorem find_append {c : Char} {l : List Char} (h : ∀ x ∈ l, x ≠ c) (r : List Char) :
    find c (l ++ c :: r) = some l.length := by
  unfold find
  induction l with
  | nil =>
      rw [List.nil_append, List.findIdx?_cons, if_pos (by simp)]
      rfl
  | cons x l ih =>
      have hx : x ≠ c := h x List.mem_cons_self
      rw [List.cons_append, List.findIdx?_cons, if_neg (by simpa using hx),
        ih fun y hy => h y (List.mem_cons_of_mem _ hy)]
      rfl

/-- The text of a symbol is read back, with the decimals of the symbol only. -/
theorem stringToAssetNum_symbol {symbol : AssetSymbol} (hsymbol : symbol = .blurt ∨ symbol = .vests)
    (decimals : Nat) : stringToAssetNum (assetNumToString symbol) decimals =
      if decimals = symbol.decimals then .ok symbol else .error "Incorrect decimal places" := by
  rcases hsymbol with rfl | rfl
  · have hstart : (cStr (assetNumToString .blurt)).dropWhile isBlank = "BLURT".toList := by decide
    have hname : ("BLURT".toList).takeWhile Char.isUpper = "BLURT".toList := by decide
    have hrest : (("BLURT".toList).dropWhile Char.isUpper).dropWhile isBlank = [] := by decide
    have hdecimals : AssetSymbol.decimals .blurt = 3 := by decide
    rw [stringToAssetNum, hstart, hname, hrest, hdecimals]
    by_cases h : decimals = 3
    · subst h
      rfl
    · simp [ensure, h, blurtSymbolU64]
  · have hstart : (cStr (assetNumToString .vests)).dropWhile isBlank = "VESTS".toList := by decide
    have hname : ("VESTS".toList).takeWhile Char.isUpper = "VESTS".toList := by decide
    have hrest : (("VESTS".toList).dropWhile Char.isUpper).dropWhile isBlank = [] := by decide
    have hdecimals : AssetSymbol.decimals .vests = 6 := by decide
    rw [stringToAssetNum, hstart, hname, hrest, hdecimals]
    by_cases h : decimals = 6
    · subst h
      rfl
    · simp only [ensure, h, blurtSymbolU64, vestsSymbolU64]
      rfl

/-- A text with a point is read in its parts. -/
theorem fromString_parts {int fraction name : List Char} (hint : ∀ c ∈ int, c ≠ ' ' ∧ c ≠ '.')
    (hfraction : ∀ c ∈ fraction, Decimal.isDigit c = true)
    (htrim : trim (int ++ '.' :: (fraction ++ ' ' :: name)) = int ++ '.' :: (fraction ++ ' ' :: name)) :
    fromString (int ++ '.' :: (fraction ++ ' ' :: name)) = (do
      let symbol ← stringToAssetNum name (fraction.length % 2 ^ 8)
      decimalAmount symbol int ('1' :: fraction)) := by
  have hdot := find_append (fun c hc => (hint c hc).2) (fraction ++ ' ' :: name)
  have hspace : find ' ' (int ++ '.' :: (fraction ++ ' ' :: name)) =
      some (int.length + 1 + fraction.length) := by
    have hbefore : ∀ c ∈ int ++ '.' :: fraction, c ≠ ' ' := by
      intro c hc
      rcases List.mem_append.mp hc with hc | hc
      · exact (hint c hc).1
      · rcases List.mem_cons.mp hc with rfl | hc
        · decide
        · rintro rfl
          exact absurd (hfraction _ hc) (by decide)
    have hfound := find_append hbefore name
    rw [List.append_assoc, List.cons_append, List.length_append, List.length_cons] at hfound
    rw [hfound]
    congr 1
    omega
  have hname : (int ++ '.' :: (fraction ++ ' ' :: name)).drop (int.length + 1 + fraction.length + 1) =
      name := by
    have hsplit : int ++ '.' :: (fraction ++ ' ' :: name) =
        (int ++ '.' :: (fraction ++ [' '])) ++ name := by simp
    rw [hsplit, List.drop_left' (by simp; omega)]
  have hafter : (int ++ '.' :: (fraction ++ ' ' :: name)).drop (int.length + 1) =
      fraction ++ ' ' :: name := by
    have hsplit : int ++ '.' :: (fraction ++ ' ' :: name) =
        (int ++ ['.']) ++ (fraction ++ ' ' :: name) := by simp
    rw [hsplit, List.drop_left' (by simp)]
  have hwidth : int.length + 1 + fraction.length - int.length - 1 = fraction.length := by omega
  simp only [fromString, htrim, hspace, hdot, require, ok_bind, hname, hafter, hwidth]
  rw [ensure, if_pos (by omega), ok_bind, List.take_left, List.take_left, List.length_cons,
    Nat.add_sub_cancel]

theorem int64Text_of_nat (n : Nat) : int64Text n = Decimal.text n := by
  rw [int64Text, if_neg (by omega), Int.natAbs_natCast]

theorem precision_text (symbol : AssetSymbol) :
    (int64Text (precision symbol)).drop 1 = Decimal.padded symbol.decimals 0 := by
  have hprecision : precision symbol = ((10 ^ symbol.decimals + 0 : Nat) : Int) := by
    rw [precision, Nat.add_zero]
    norm_cast
  rw [hprecision, int64Text_of_nat, text_pow_add (Nat.pow_pos (by decide))]
  rfl

/-- A whole number with a fraction of all decimals is read as their sum. -/
theorem decimalAmount_padded {symbol : AssetSymbol} {whole : Int} {r : Nat}
    (hsmall : symbol.decimals ≤ 6) (hr : r < 10 ^ symbol.decimals)
    (hwhole : InInt64 (whole * 10 ^ symbol.decimals))
    (hsum : InInt64 (whole * 10 ^ symbol.decimals + r)) :
    decimalAmount symbol (int64Text whole) ('1' :: Decimal.padded symbol.decimals r) =
      .ok ⟨whole * 10 ^ symbol.decimals + r, symbol⟩ := by
  have hbound : 10 ^ symbol.decimals ≤ 10 ^ 6 := Nat.pow_le_pow_right (by decide) hsmall
  have htext := text_pow_add hr
  have hfits : InInt64 ((Decimal.parse (Decimal.text (10 ^ symbol.decimals + r)) : Nat) : Int) := by
    rw [Decimal.parse_text]
    constructor <;> omega
  have hfraction : toInt64 ('1' :: Decimal.padded symbol.decimals r) =
      .ok ((10 ^ symbol.decimals + r : Nat) : Int) := by
    rw [← htext, toInt64_of_digits (fun c hc => Decimal.isDigit_of_mem_text hc)
      (Decimal.text_ne_nil _) hfits, Decimal.parse_text]
  have hnew : wrapInt64 (((10 ^ symbol.decimals + r : Nat) : Int) - precision symbol) = r := by
    have hdifference : ((10 ^ symbol.decimals + r : Nat) : Int) - precision symbol = r := by
      rw [precision, Nat.cast_add]
      push_cast
      omega
    rw [hdifference, wrapInt64_of_lt (by omega) (by omega)]
  have hkept := Ledger.RdDynamicsParams.wrapInt64_of_inInt64 hsum
  simp only [decimalAmount, precision_text, toInt64_zeros hwhole, ok_bind, hfraction, hnew, hkept]
  rw [ensure, if_pos (by omega), ok_bind]
  rfl

theorem mem_int64Text {value : Int} {c : Char} (h : c ∈ int64Text value) :
    c = '-' ∨ Decimal.isDigit c = true := by
  unfold int64Text at h
  split at h
  · rcases List.mem_cons.mp h with rfl | h
    · exact .inl rfl
    · exact .inr (Decimal.isDigit_of_mem_text h)
  · exact .inr (Decimal.isDigit_of_mem_text h)

theorem int64Text_eq_cons (value : Int) : ∃ c rest, int64Text value = c :: rest := by
  unfold int64Text
  split
  · exact ⟨_, _, rfl⟩
  · exact List.exists_cons_of_ne_nil (Decimal.text_ne_nil _)

theorem isSpace_of_isDigit {c : Char} (h : Decimal.isDigit c = true) : isSpace c = false := by
  cases hspace : isSpace c with
  | false => rfl
  | true =>
      simp only [isSpace, Bool.or_eq_true, decide_eq_true_eq] at hspace
      rcases hspace with ((((rfl | rfl) | rfl) | rfl) | rfl) | rfl <;>
        exact absurd h (by decide)

theorem assetNumToString_eq_append {symbol : AssetSymbol}
    (hsymbol : symbol = .blurt ∨ symbol = .vests) :
    ∃ front last, assetNumToString symbol = front ++ [last] ∧ isSpace last = false := by
  rcases hsymbol with rfl | rfl
  · exact ⟨"BLUR".toList, 'T', by decide, by decide⟩
  · exact ⟨"VEST".toList, 'S', by decide, by decide⟩

/-- No space stands at either end of an amount. -/
theorem trim_amount {symbol : AssetSymbol} (hsymbol : symbol = .blurt ∨ symbol = .vests)
    (whole : Int) (fraction : List Char) :
    trim (int64Text whole ++ '.' :: (fraction ++ ' ' :: assetNumToString symbol)) =
      int64Text whole ++ '.' :: (fraction ++ ' ' :: assetNumToString symbol) := by
  obtain ⟨c, rest, hrest⟩ := int64Text_eq_cons whole
  obtain ⟨front, last, hname, hend⟩ := assetNumToString_eq_append hsymbol
  have hstart : isSpace c = false := by
    rcases mem_int64Text (hrest ▸ List.mem_cons_self) with rfl | hdigit
    · decide
    · exact isSpace_of_isDigit hdigit
  rw [trim, hrest, List.cons_append, List.dropWhile_cons_of_neg (by simp [hstart]), hname]
  have hsplit : c :: (rest ++ '.' :: (fraction ++ ' ' :: (front ++ [last]))) =
      (c :: (rest ++ '.' :: (fraction ++ ' ' :: front))) ++ [last] := by simp
  rw [hsplit, List.rdropWhile_concat_neg _ _ _ (by simp [hend])]

theorem tmod_neg {amount prec : Int} (hdebt : amount < 0) (hpart : ¬ prec ∣ amount) :
    amount.tmod prec < 0 := by
  have hnonneg := Int.tmod_nonneg prec (neg_nonneg.mpr hdebt.le)
  rw [Int.neg_tmod] at hnonneg
  have hnonzero : amount.tmod prec ≠ 0 := fun h => hpart (Int.dvd_of_tmod_eq_zero h)
  omega

theorem decimals_bounds {symbol : AssetSymbol} (hsymbol : symbol = .blurt ∨ symbol = .vests) :
    0 < symbol.decimals ∧ symbol.decimals ≤ 6 := by
  rcases hsymbol with h | h <;> rw [h] <;> decide

theorem precision_eq (symbol : AssetSymbol) :
    precision symbol = ((10 ^ symbol.decimals : Nat) : Int) := by
  rw [precision]
  norm_cast

/-- The fraction of an amount, as `to_string` writes it. -/
def fractionDigits (a : Asset) : List Char :=
  (Decimal.text (precision a.symbol + a.amount.tmod (precision a.symbol)).toNat).drop 1

/-- What `to_string` writes is read in its parts. -/
theorem fromString_toString_parts {a : Asset} (hsymbol : a.symbol = .blurt ∨ a.symbol = .vests) :
    fromString (toString a) =
      ((if (fractionDigits a).length % 2 ^ 8 = a.symbol.decimals then .ok a.symbol
        else .error "Incorrect decimal places") >>= fun symbol =>
          decimalAmount symbol (int64Text (a.amount.tdiv (precision a.symbol)))
            ('1' :: fractionDigits a)) := by
  have hlarge : 10 ≤ 10 ^ a.symbol.decimals := Nat.le_self_pow (decimals_bounds hsymbol).1.ne' 10
  have hprecision := precision_eq a.symbol
  have hlow : -precision a.symbol < a.amount.tmod (precision a.symbol) :=
    Int.lt_tmod_of_pos _ (by omega)
  have hn : precision a.symbol + a.amount.tmod (precision a.symbol) =
      ((precision a.symbol + a.amount.tmod (precision a.symbol)).toNat : Int) := by omega
  have htext : toString a = int64Text (a.amount.tdiv (precision a.symbol)) ++
      '.' :: (fractionDigits a ++ ' ' :: assetNumToString a.symbol) := by
    simp only [toString]
    rw [if_pos (by omega), hn, int64Text_of_nat, List.append_assoc]
    rfl
  have hdigits : ∀ c ∈ fractionDigits a, Decimal.isDigit c = true := fun c hc =>
    Decimal.isDigit_of_mem_text (List.mem_of_mem_drop hc)
  have hplain : ∀ c ∈ int64Text (a.amount.tdiv (precision a.symbol)), c ≠ ' ' ∧ c ≠ '.' := by
    intro c hc
    rcases mem_int64Text hc with rfl | hdigit
    · decide
    · constructor <;> rintro rfl <;> exact absurd hdigit (by decide)
  rw [htext, fromString_parts hplain hdigits (trim_amount hsymbol _ _),
    stringToAssetNum_symbol hsymbol]

theorem fromString_toString_of_nonneg {a : Asset} (hsymbol : a.symbol = .blurt ∨ a.symbol = .vests)
    (hamount : InInt64 a.amount) (hback : 0 ≤ a.amount ∨ precision a.symbol ∣ a.amount) :
    fromString (toString a) = .ok a := by
  obtain ⟨hpos, hsmall⟩ := decimals_bounds hsymbol
  have hlarge : 10 ≤ 10 ^ a.symbol.decimals := Nat.le_self_pow hpos.ne' 10
  have hprecision := precision_eq a.symbol
  rw [fromString_toString_parts hsymbol]
  unfold fractionDigits
  set whole := a.amount.tdiv (precision a.symbol)
  set r := a.amount.tmod (precision a.symbol)
  have hsum : whole * precision a.symbol + r = a.amount := Int.tdiv_mul_add_tmod _ _
  have hhigh : r < precision a.symbol := Int.tmod_lt_of_pos _ (by omega)
  have hnonneg : 0 ≤ r := by
    rcases hback with h | h
    · exact Int.tmod_nonneg _ h
    · exact (Int.tmod_eq_zero_of_dvd h).ge
  obtain ⟨f, hf⟩ : ∃ f : Nat, r = f := ⟨r.toNat, by omega⟩
  have hfits : f < 10 ^ a.symbol.decimals := by omega
  have hpadded : (Decimal.text (precision a.symbol + r).toNat).drop 1 =
      Decimal.padded a.symbol.decimals f := by
    have hcount : (precision a.symbol + r).toNat = 10 ^ a.symbol.decimals + f := by omega
    rw [hcount, text_pow_add hfits]
    rfl
  have hproduct : whole * 10 ^ a.symbol.decimals + f = a.amount := by
    rw [← hf, ← hsum]
    rfl
  have hwholeFits : InInt64 (whole * 10 ^ a.symbol.decimals) := by
    rcases hback with h | h
    · have hquotient : 0 ≤ whole * 10 ^ a.symbol.decimals :=
        mul_nonneg (Int.tdiv_nonneg h (by omega)) (by positivity)
      exact ⟨by omega, by have := hamount.2; omega⟩
    · have hnone : r = 0 := Int.tmod_eq_zero_of_dvd h
      have hall : whole * 10 ^ a.symbol.decimals = a.amount := by omega
      rwa [hall]
  rw [hpadded, Decimal.length_padded, Nat.mod_eq_of_lt (by omega), if_pos rfl, ok_bind,
    decimalAmount_padded hsmall hfits hwholeFits (by rwa [hproduct]), hproduct]

/-- The fraction of a debt loses its leading digit. -/
theorem fromString_toString_of_debt {a : Asset} (hsymbol : a.symbol = .blurt ∨ a.symbol = .vests)
    (hdebt : a.amount < 0) (hpart : ¬ precision a.symbol ∣ a.amount) :
    fromString (toString a) = .error "Incorrect decimal places" := by
  obtain ⟨hpos, hsmall⟩ := decimals_bounds hsymbol
  have hlarge : 10 ≤ 10 ^ a.symbol.decimals := Nat.le_self_pow hpos.ne' 10
  have hprecision := precision_eq a.symbol
  rw [fromString_toString_parts hsymbol]
  unfold fractionDigits
  have hnegative := tmod_neg hdebt hpart
  set r := a.amount.tmod (precision a.symbol)
  have hlow : -precision a.symbol < r := Int.lt_tmod_of_pos _ (by omega)
  have hlength := @length_text_le a.symbol.decimals (precision a.symbol + r).toNat
    (by omega) (by omega)
  have hshort : ((Decimal.text (precision a.symbol + r).toNat).drop 1).length % 2 ^ 8 ≠
      a.symbol.decimals := by
    rw [List.length_drop]
    omega
  rw [if_neg hshort]
  rfl

/-- What `to_string` writes is read back, unless a debt has a fraction: its digits are then too
few, and it is rejected. -/
theorem fromString_toString {a : Asset} (hsymbol : a.symbol = .blurt ∨ a.symbol = .vests)
    (hamount : InInt64 a.amount) : fromString (toString a) =
      if 0 ≤ a.amount ∨ precision a.symbol ∣ a.amount then .ok a
      else .error "Incorrect decimal places" := by
  split
  · rename_i hback
    exact fromString_toString_of_nonneg hsymbol hamount hback
  · rename_i hlost
    rw [not_or, not_le] at hlost
    exact fromString_toString_of_debt hsymbol hlost.1 hlost.2

end LegacyAsset

namespace Sample

open LegacyAsset

/-- A balance is read back, and a debt with a fraction is not. -/
theorem blurtTexts_read :
    fromString (LegacyAsset.toString (Asset.blurt 7005)) = .ok (Asset.blurt 7005) ∧
      fromString (LegacyAsset.toString (Asset.blurt (-1500))) = .error "Incorrect decimal places" := by
  constructor
  · rw [fromString_toString (.inl rfl) (by decide), if_pos (by decide)]
  · rw [fromString_toString (.inl rfl) (by decide), if_neg (by decide)]

end Sample

end Blurt
