import Mathlib.Data.List.DropRight
import Mathlib.Tactic.Positivity
import Mathlib.Tactic.Ring

/-! # Decimal numerals

Natural numbers as lists of digit characters, with and without leading zeros.
-/

namespace Decimal

def isDigit (c : Char) : Bool := '0' ≤ c && c ≤ '9'

/-- The character of a digit. -/
def digit (n : Nat) : Char := Char.ofNat (48 + n % 10)

/-- The digit of a character. -/
def value (c : Char) : Nat := c.toNat - 48

theorem digit_cases (n : Nat) : digit n ∈ ['0', '1', '2', '3', '4', '5', '6', '7', '8', '9'] := by
  have h : ∀ d < 10, digit d ∈ ['0', '1', '2', '3', '4', '5', '6', '7', '8', '9'] := by decide
  have hmod : digit n = digit (n % 10) := by
    unfold digit
    rw [Nat.mod_mod]
  rw [hmod]
  exact h _ (Nat.mod_lt n (by decide))

@[simp] theorem isDigit_digit (n : Nat) : isDigit (digit n) = true := by
  have h : ['0', '1', '2', '3', '4', '5', '6', '7', '8', '9'].all isDigit := by decide
  exact List.all_eq_true.mp h _ (digit_cases n)

@[simp] theorem value_digit (n : Nat) : value (digit n) = n % 10 := by
  have h : ∀ d < 10, value (digit d) = d := by decide
  have hmod : digit n = digit (n % 10) := by
    unfold digit
    rw [Nat.mod_mod]
  rw [hmod, h _ (Nat.mod_lt n (by decide))]

theorem digit_value {c : Char} (h : isDigit c = true) : digit (value c) = c := by
  simp only [isDigit, Bool.and_eq_true, decide_eq_true_eq] at h
  obtain ⟨hlow, hhigh⟩ := h
  have hlow : 48 ≤ c.toNat := hlow
  have hhigh : c.toNat ≤ 57 := hhigh
  unfold digit value
  rw [Nat.mod_eq_of_lt (by omega), show 48 + (c.toNat - 48) = c.toNat by omega]
  exact Char.ofNat_toNat c

theorem value_lt {c : Char} (h : isDigit c = true) : value c < 10 := by
  rw [← digit_value h, value_digit]
  exact Nat.mod_lt _ (by decide)

/-- The number of a numeral. -/
def parse (cs : List Char) : Nat := cs.foldl (fun n c => 10 * n + value c) 0

@[simp] theorem parse_nil : parse [] = 0 := rfl

theorem parse_concat (cs : List Char) (c : Char) : parse (cs ++ [c]) = 10 * parse cs + value c := by
  rw [parse, List.foldl_append]
  rfl

theorem parse_append (as bs : List Char) :
    parse (as ++ bs) = parse as * 10 ^ bs.length + parse bs := by
  induction bs using List.reverseRecOn with
  | nil => simp
  | append_singleton bs c ih =>
      rw [← List.append_assoc, parse_concat, parse_concat, ih, List.length_append,
        List.length_singleton, Nat.pow_succ]
      ring

theorem parse_zeros {zeros : List Char} (h : ∀ c ∈ zeros, c = '0') (cs : List Char) :
    parse (zeros ++ cs) = parse cs := by
  have hzeros : parse zeros = 0 := by
    induction zeros using List.reverseRecOn with
    | nil => rfl
    | append_singleton zeros c ih =>
        rw [parse_concat, ih fun c hc => h c (List.mem_append_left _ hc),
          h c (List.mem_append_right _ List.mem_cons_self)]
        rfl
  rw [parse_append, hzeros, Nat.zero_mul, Nat.zero_add]

/-! ## Numerals without leading zeros -/

/-- The numeral of a number. -/
def text (n : Nat) : List Char :=
  if n < 10 then [digit n] else text (n / 10) ++ [digit n]

theorem text_ne_nil (n : Nat) : text n ≠ [] := by
  rw [text]
  split <;> simp

theorem isDigit_of_mem_text {n : Nat} {c : Char} (h : c ∈ text n) : isDigit c = true := by
  induction n using Nat.strongRecOn with
  | ind n ih =>
      rw [text] at h
      split at h
      · rw [List.mem_singleton.mp h, isDigit_digit]
      · rcases List.mem_append.mp h with h | h
        · exact ih (n / 10) (by omega) h
        · rw [List.mem_singleton.mp h, isDigit_digit]

@[simp] theorem parse_text (n : Nat) : parse (text n) = n := by
  induction n using Nat.strongRecOn with
  | ind n ih =>
      rw [text]
      split
      · rw [← List.nil_append [digit n], parse_concat, value_digit, parse_nil]
        omega
      · rw [parse_concat, ih (n / 10) (by omega), value_digit]
        omega

/-- A numeral without a leading zero is the one of its number. -/
theorem text_parse {cs : List Char} (hdigits : ∀ c ∈ cs, isDigit c = true) (hnil : cs ≠ [])
    (hlead : cs.head? = some '0' → cs = ['0']) : text (parse cs) = cs := by
  induction cs using List.reverseRecOn with
  | nil => exact absurd rfl hnil
  | append_singleton cs c ih =>
      have hc := hdigits c (List.mem_append_right _ List.mem_cons_self)
      have hlt := value_lt hc
      have hlast : digit (10 * parse cs + value c) = c := by
        have hmod : digit (10 * parse cs + value c) = digit (value c) := by
          unfold digit
          rw [Nat.mul_add_mod]
        rw [hmod, digit_value hc]
      rw [parse_concat, text, hlast]
      by_cases hcs : cs = []
      · subst hcs
        rw [parse_nil, if_pos (by omega), List.nil_append]
      · have hhead : (cs ++ [c]).head? = cs.head? := by
          cases cs with
          | nil => exact absurd rfl hcs
          | cons _ _ => rfl
        have hpos : 0 < parse cs := by
          rcases Nat.eq_zero_or_pos (parse cs) with hzero | hpos
          · have hlead' : cs.head? = some '0' → cs = ['0'] := by
              intro h
              have := congrArg List.length (hlead (hhead ▸ h))
              simp only [List.length_append, List.length_singleton] at this
              exact absurd (List.length_eq_zero_iff.mp (by omega)) hcs
            have htext := ih (fun c hc => hdigits c (List.mem_append_left _ hc)) hcs hlead'
            rw [hzero] at htext
            have hzeroText : (text 0).head? = some '0' := by
              rw [text]
              rfl
            have := congrArg List.length (hlead (by rw [hhead, ← htext, hzeroText]))
            simp only [List.length_append, List.length_singleton] at this
            exact absurd (List.length_eq_zero_iff.mp (by omega)) hcs
          · exact hpos
        rw [if_neg (by omega), show (10 * parse cs + value c) / 10 = parse cs by omega,
          ih (fun c hc => hdigits c (List.mem_append_left _ hc)) hcs]
        intro h
        have := congrArg List.length (hlead (hhead ▸ h))
        simp only [List.length_append, List.length_singleton] at this
        exact absurd (List.length_eq_zero_iff.mp (by omega)) hcs

/-! ## Numerals of a fixed width -/

/-- The last `width` digits of a number. -/
def padded : (width : Nat) → Nat → List Char
  | 0, _ => []
  | width + 1, n => padded width (n / 10) ++ [digit n]

@[simp] theorem length_padded (width n : Nat) : (padded width n).length = width := by
  induction width generalizing n with
  | zero => rfl
  | succ width ih => rw [padded, List.length_append, ih, List.length_singleton]

theorem isDigit_of_mem_padded {width n : Nat} {c : Char} (h : c ∈ padded width n) :
    isDigit c = true := by
  induction width generalizing n with
  | zero => cases h
  | succ width ih =>
      rw [padded] at h
      rcases List.mem_append.mp h with h | h
      · exact ih h
      · rw [List.mem_singleton.mp h, isDigit_digit]

@[simp] theorem parse_padded (width n : Nat) : parse (padded width n) = n % 10 ^ width := by
  induction width generalizing n with
  | zero => rw [padded, parse_nil, Nat.pow_zero, Nat.mod_one]
  | succ width ih =>
      have hpow : 10 ^ (width + 1) = 10 * 10 ^ width := by
        rw [Nat.pow_succ, Nat.mul_comm]
      rw [padded, parse_concat, ih, value_digit, hpow, Nat.mod_mul, Nat.add_comm]

/-- Digits are the numeral of their number, of the width that they have. -/
theorem padded_parse {cs : List Char} (hdigits : ∀ c ∈ cs, isDigit c = true) :
    padded cs.length (parse cs) = cs := by
  induction cs using List.reverseRecOn with
  | nil => rfl
  | append_singleton cs c ih =>
      have hc := hdigits c (List.mem_append_right _ List.mem_cons_self)
      have hlt := value_lt hc
      have hlast : digit (10 * parse cs + value c) = c := by
        have hmod : digit (10 * parse cs + value c) = digit (value c) := by
          unfold digit
          rw [Nat.mul_add_mod]
        rw [hmod, digit_value hc]
      rw [parse_concat, List.length_append, List.length_singleton, padded, hlast,
        show (10 * parse cs + value c) / 10 = parse cs by omega,
        ih fun c hc => hdigits c (List.mem_append_left _ hc)]

theorem parse_lt {cs : List Char} (hdigits : ∀ c ∈ cs, isDigit c = true) :
    parse cs < 10 ^ cs.length := by
  rw [← padded_parse hdigits, parse_padded, length_padded]
  exact Nat.mod_lt _ (by positivity)

end Decimal
