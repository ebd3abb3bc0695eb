import Mathlib.Data.UInt

/-! # Little-endian numbers

An unsigned number as the bytes of a word in memory, lowest byte first.
-/

namespace LittleEndian

/-- The lowest `width` bytes of a number. -/
def encode : (width : Nat) → Nat → List UInt8
  | 0, _ => []
  | width + 1, n => UInt8.ofNat n :: encode width (n / 256)

/-- The number that bytes stand for. -/
def decode : List UInt8 → Nat
  | [] => 0
  | byte :: rest => byte.toNat + 256 * decode rest

@[simp] theorem length_encode (width n : Nat) : (encode width n).length = width := by
  induction width generalizing n with
  | zero => rfl
  | succ width ih => rw [encode, List.length_cons, ih]

theorem decode_encode_mod (width n : Nat) : decode (encode width n) = n % 256 ^ width := by
  induction width generalizing n with
  | zero => rw [encode, decode, Nat.pow_zero, Nat.mod_one]
  | succ width ih =>
      have hpow : 256 ^ (width + 1) = 256 * 256 ^ width := by
        rw [Nat.pow_succ, Nat.mul_comm]
      have hbyte : (UInt8.ofNat n).toNat = n % 256 := UInt8.toNat_ofNat'
      rw [encode, decode, ih, hbyte, hpow, Nat.mod_mul]

/-- A number with room in the word is read back. -/
theorem decode_encode {width n : Nat} (h : n < 256 ^ width) : decode (encode width n) = n := by
  rw [decode_encode_mod, Nat.mod_eq_of_lt h]

/-- Bytes are what is written of the number that they stand for. -/
theorem encode_decode (bytes : List UInt8) : encode bytes.length (decode bytes) = bytes := by
  induction bytes with
  | nil => rfl
  | cons byte rest ih =>
      have hlt := byte.toNat_lt
      have hlow : UInt8.ofNat (byte.toNat + 256 * decode rest) = byte := by
        apply UInt8.toNat_inj.mp
        rw [UInt8.toNat_ofNat']
        omega
      have hrest : (byte.toNat + 256 * decode rest) / 256 = decode rest := by omega
      rw [List.length_cons, decode, encode, hlow, hrest, ih]

theorem decode_lt (bytes : List UInt8) : decode bytes < 256 ^ bytes.length := by
  induction bytes with
  | nil => exact Nat.one_pos
  | cons byte rest ih =>
      have hlt := byte.toNat_lt
      rw [decode, List.length_cons, Nat.pow_succ]
      omega

/-! ## The order of numbers -/

/-- Lists that go on after equally long ones are compared there when those are equal. -/
theorem append_lt_append_iff {a b c d : List UInt8} (h : a.length = b.length) :
    a ++ c < b ++ d ↔ a < b ∨ a = b ∧ c < d := by
  induction a generalizing b with
  | nil =>
      rw [List.length_nil, eq_comm, List.length_eq_zero_iff] at h
      subst h
      simp
  | cons x a ih =>
      cases b with
      | nil => cases h
      | cons y b =>
          rw [List.cons_append, List.cons_append, List.cons_lt_cons_iff, List.cons_lt_cons_iff,
            ih (Nat.succ.inj h), List.cons.injEq]
          tauto

/-- Highest byte first, the bytes of numbers are ordered like the numbers. -/
theorem reverse_encode_lt_iff {width m n : Nat} (hm : m < 256 ^ width) (hn : n < 256 ^ width) :
    (encode width m).reverse < (encode width n).reverse ↔ m < n := by
  induction width generalizing m n with
  | zero =>
      rw [Nat.pow_zero] at hm hn
      rw [encode, encode]
      simp only [List.reverse_nil, List.not_lt_nil, false_iff]
      omega
  | succ width ih =>
      rw [Nat.pow_succ] at hm hn
      have hhigh : (encode width (m / 256)).reverse = (encode width (n / 256)).reverse ↔
          m / 256 = n / 256 := by
        rw [List.reverse_inj]
        constructor
        · intro h
          rw [← decode_encode (Nat.div_lt_of_lt_mul (by rwa [Nat.mul_comm] at hm)), h,
            decode_encode (Nat.div_lt_of_lt_mul (by rwa [Nat.mul_comm] at hn))]
        · exact congrArg (encode width)
      have hlow : [UInt8.ofNat m] < [UInt8.ofNat n] ↔ m % 256 < n % 256 := by
        rw [List.cons_lt_cons_iff, UInt8.lt_iff_toNat_lt, UInt8.toNat_ofNat', UInt8.toNat_ofNat']
        simp
      rw [encode, encode, List.reverse_cons, List.reverse_cons,
        append_lt_append_iff (by rw [List.length_reverse, List.length_reverse, length_encode,
          length_encode]), hhigh, hlow,
        ih (Nat.div_lt_of_lt_mul (by rwa [Nat.mul_comm] at hm))
          (Nat.div_lt_of_lt_mul (by rwa [Nat.mul_comm] at hn))]
      omega

end LittleEndian
