import Blurt.Client.BlurtJsOperations

/-! # What blurtjs reads as 64-bit integers

`no_overflow64` looks at a text without the zeros at its ends, and `to_long` converts the text with
them: an integer that only its zeros make too large is read modulo 2^64.
-/

namespace Blurt

namespace Client

/-- The text of an integer in decimal digits. -/
def IsInteger (text : List Char) : Prop :=
  ∃ digits, digits ≠ [] ∧ (∀ c ∈ digits, Decimal.isDigit c = true) ∧
    (text = digits ∨ text = '-' :: digits)

/-- The integer of a text. -/
def integerOf : List Char → Int
  | '-' :: digits => -(Decimal.parse digits : Int)
  | digits => Decimal.parse digits

/-- `Long` reads integers modulo 2^64, and writes them as they are. -/
structure Libraries.Longs (lib : Libraries) : Prop where
  fromString : ∀ text, IsInteger text →
    lib.longFromString (String.ofList text) = .ok (wrapInt64 (integerOf text))
  toString : ∀ n, InInt64 n → lib.longToString n = (Js.number n).toText
  writeInt64 : ∀ n, InInt64 n →
    lib.writeInt64 n = .ok (LittleEndian.encode 8 (n % 2 ^ 64).toNat)

namespace BlurtJs

open Wire

variable {lib : Libraries}

/-- The digits of the amount that a text of an asset starts with. -/
def amountDigits (s : Text) : List Char := removeDot ((trim s.toList).takeWhile (· ≠ ' '))

/-- The signed number that is written in the first eight bytes. -/
def writtenInt64 (bytes : Bytes) : Int := wrapInt64 (LittleEndian.decode (bytes.take 8))

/-! ## Integers -/

theorem integerOf_digits {digits : List Char} (hdigits : ∀ c ∈ digits, Decimal.isDigit c = true) :
    integerOf digits = Decimal.parse digits := by
  unfold integerOf
  split
  · exact absurd (hdigits '-' List.mem_cons_self) (by decide)
  · rfl

theorem isInteger_number (n : Int) : IsInteger (Js.number n).toText.toList := by
  refine ⟨Decimal.text n.natAbs, Decimal.text_ne_nil _, fun c hc => Decimal.isDigit_of_mem_text hc, ?_⟩
  rw [Js.toText, String.toList_ofList]
  split
  · exact .inr rfl
  · exact .inl rfl

theorem integerOf_number (n : Int) : integerOf (Js.number n).toText.toList = n := by
  rw [Js.toText, String.toList_ofList]
  split
  · rename_i hneg
    change -((Decimal.parse (Decimal.text n.natAbs) : Nat) : Int) = n
    rw [Decimal.parse_text]
    omega
  · rename_i hnonneg
    rw [List.nil_append, integerOf_digits fun c hc => Decimal.isDigit_of_mem_text hc,
      Decimal.parse_text]
    omega

theorem wrapInt64_eq_self {n : Int} : wrapInt64 n = n ↔ InInt64 n := by
  constructor
  · intro h
    rw [← h]
    exact ⟨wrapInt64_ge n, wrapInt64_lt n⟩
  · rintro ⟨hlow, hhigh⟩
    unfold wrapInt64
    rw [Int.bmod_eq_of_le] <;> omega

/-! ## Amounts -/

theorem skipDot_eq (text : List Char) :
    ∃ dot, (dot = [] ∨ dot = ['.']) ∧ text = dot ++ skipDot text := by
  unfold skipDot
  split
  · exact ⟨['.'], .inr rfl, rfl⟩
  · exact ⟨[], .inl rfl, rfl⟩

/-- Digits, a dot or none, digits, and a space. -/
theorem isAmount_split {object : List Char} (h : isAmount object = true) :
    ∃ whole dot fraction rest, object = (whole ++ (dot ++ fraction)) ++ ' ' :: rest ∧ whole ≠ [] ∧
      (dot = [] ∨ dot = ['.']) ∧ (∀ c ∈ whole, Decimal.isDigit c = true) ∧
        ∀ c ∈ fraction, Decimal.isDigit c = true := by
  unfold isAmount at h
  rw [Bool.and_eq_true, decide_eq_true_eq] at h
  obtain ⟨hwhole, hrest⟩ := h
  obtain ⟨dot, hdot, hafter⟩ := skipDot_eq (object.dropWhile Decimal.isDigit)
  split at hrest
  · rename_i symbol hsymbol
    refine ⟨object.takeWhile Decimal.isDigit, dot,
      (skipDot (object.dropWhile Decimal.isDigit)).takeWhile Decimal.isDigit, symbol, ?_, hwhole,
      hdot, fun c hc => List.mem_takeWhile_imp hc, fun c hc => List.mem_takeWhile_imp hc⟩
    rw [← hsymbol, List.append_assoc, List.append_assoc, List.takeWhile_append_dropWhile, ← hafter,
      List.takeWhile_append_dropWhile]
  · cases hrest

/-- The digits of an amount are those around its dot. -/
theorem amountDigits_spec {s : Text} (h : isAmount (trim s.toList) = true) :
    amountDigits s ≠ [] ∧ ∀ c ∈ amountDigits s, Decimal.isDigit c = true := by
  obtain ⟨whole, dot, fraction, rest, hobject, hnil, hdot, hwhole, hfraction⟩ := isAmount_split h
  have hplain {digits : List Char} (hdigits : ∀ c ∈ digits, Decimal.isDigit c = true) :
      ∀ c ∈ digits, c ≠ ' ' ∧ c ≠ '.' := fun c hc =>
    ⟨ne_of_isDigit (hdigits c hc) (by decide), ne_of_isDigit (hdigits c hc) (by decide)⟩
  have hamount : amountDigits s = whole ++ fraction := by
    have hbefore : ∀ c ∈ whole ++ (dot ++ fraction), decide (c ≠ ' ') = true := by
      intro c hc
      rw [decide_eq_true_eq]
      rcases List.mem_append.mp hc with hc | hc
      · exact (hplain hwhole c hc).1
      · rcases List.mem_append.mp hc with hc | hc
        · rcases hdot with rfl | rfl
          · exact absurd hc List.not_mem_nil
          · rw [List.mem_singleton.mp hc]
            decide
        · exact (hplain hfraction c hc).1
    rw [amountDigits, hobject, takeWhile_append_stop hbefore (by decide), removeDot,
      List.erase_append_right _ fun hc => (hplain hwhole _ hc).2 rfl]
    rcases hdot with rfl | rfl
    · rw [List.nil_append, List.erase_of_not_mem fun hc => (hplain hfraction _ hc).2 rfl]
    · rw [List.singleton_append, List.erase_cons_head]
  rw [hamount]
  refine ⟨List.append_ne_nil_of_left_ne_nil hnil _, fun c hc => ?_⟩
  rcases List.mem_append.mp hc with hc | hc
  · exact hwhole c hc
  · exact hfraction c hc

/-- The number is written first, whatever follows it. -/
theorem first_appended {read : Except String Int} {write : Int → Except String Bytes}
    {last : Except String Bytes} {after : Bytes → Bytes} {bytes : Bytes}
    (h : (read >>= fun long => write long >>= fun first =>
      last >>= fun second => pure (first ++ after second)) = .ok bytes) :
    ∃ long first rest, read = .ok long ∧ write long = .ok first ∧ bytes = first ++ rest := by
  obtain ⟨long, hlong, h⟩ := Outcome.bind_eq_ok.mp h
  obtain ⟨first, hfirst, h⟩ := Outcome.bind_eq_ok.mp h
  obtain ⟨second, -, h⟩ := Outcome.bind_eq_ok.mp h
  exact ⟨long, first, after second, hlong, hfirst, (Outcome.pure_eq_ok.mp h).symm⟩

section Longs

variable (hlib : lib.Longs)

include hlib

theorem toLong_integer {s : Text} {v : Int} (hinteger : IsInteger s.toList)
    (h : toLong lib (.string s) = .ok v) : v = wrapInt64 (integerOf s.toList) := by
  unfold toLong at h
  obtain ⟨⟨⟩, -, hread⟩ := Outcome.bind_eq_ok.mp h
  have hsame := hlib.fromString s.toList hinteger
  rw [String.ofList_toList, hread] at hsame
  exact Except.ok.inj hsame

/-- A safe number is converted as it is. -/
theorem toLong_number {n v : Int} (h : toLong lib (.number n) = .ok v) : v = n := by
  unfold toLong at h
  obtain ⟨⟨⟩, hsafe, hread⟩ := Outcome.bind_eq_ok.mp h
  obtain ⟨hhigh, hlow⟩ := Outcome.ensure_eq_ok.mp hsafe
  have hsame := hlib.fromString _ (isInteger_number n)
  rw [String.ofList_toList, hread, integerOf_number] at hsame
  unfold MAX_SAFE_INT at hhigh
  unfold MIN_SAFE_INT at hlow
  rw [Except.ok.inj hsame, wrapInt64_eq_self]
  exact ⟨by omega, by omega⟩

/-- Digits are accepted if the number without the zeros at their ends fits. -/
theorem toLong_accepts {digits : List Char} (hnil : digits ≠ [])
    (hdigits : ∀ c ∈ digits, Decimal.isDigit c = true) :
    (∃ v, toLong lib (.string (String.ofList digits)) = .ok v) ↔
      Decimal.parse (stripped digits) < 2 ^ 63 := by
  obtain ⟨final, hfinal, hdigit, hnumeral, hvalue, hcheck⟩ := noOverflow64_digits lib hdigits
  have hread := hlib.fromString final ⟨final, hfinal, hdigit, .inl rfl⟩
  have hall := hlib.fromString digits ⟨digits, hnil, hdigits, .inl rfl⟩
  have hfits : InInt64 (wrapInt64 (integerOf final)) := ⟨wrapInt64_ge _, wrapInt64_lt _⟩
  rw [hread, Outcome.ok_bind, hlib.toString _ hfits, integerOf_digits hdigit, hvalue] at hcheck
  unfold toLong
  simp only [String.toList_ofList]
  rw [hcheck, hall]
  constructor
  · rintro ⟨v, haccepted⟩
    obtain ⟨⟨⟩, hsame, -⟩ := Outcome.bind_eq_ok.mp haccepted
    have htext := congrArg (fun text => integerOf text.toList) (Outcome.ensure_eq_ok.mp hsame)
    simp only [integerOf_number, String.toList_ofList] at htext
    rw [integerOf_digits hdigit, hvalue, wrapInt64_eq_self] at htext
    have hlt := htext.2
    omega
  · intro hlt
    have htext : (Js.number (Decimal.parse (stripped digits) : Nat)).toText = String.ofList final := by
      rw [toText_number (Int.natCast_nonneg _), Int.natAbs_natCast, ← hvalue, hnumeral]
    have hkept : wrapInt64 (Decimal.parse (stripped digits) : Nat) = Decimal.parse (stripped digits) :=
      wrapInt64_eq_self.mpr ⟨by omega, by omega⟩
    rw [hkept, htext, Outcome.ensure, if_pos rfl, Outcome.ok_bind]
    exact ⟨_, rfl⟩

/-- The eight bytes of an amount encode its digits. -/
theorem asset_writes {s : Text} {bytes : Bytes}
    (h : (asset lib).appendByteBuffer (.string s) = .ok bytes) :
    (∀ c ∈ amountDigits s, Decimal.isDigit c = true) ∧
      writtenInt64 bytes = wrapInt64 (Decimal.parse (amountDigits s)) := by
  unfold asset at h
  dsimp only at h
  obtain ⟨⟨⟩, hamount, h⟩ := Outcome.bind_eq_ok.mp h
  obtain ⟨hnil, hdigits⟩ := amountDigits_spec (Outcome.ensure_eq_ok.mp hamount)
  refine ⟨hdigits, ?_⟩
  obtain ⟨long, first, rest, hlong, hfirst, rfl⟩ : ∃ long first rest,
      toLong lib (.string (String.ofList (amountDigits s))) = .ok long ∧
        lib.writeInt64 long = .ok first ∧ bytes = first ++ rest := by
    split at h
    · obtain ⟨⟨⟩, -, h⟩ := Outcome.bind_eq_ok.mp h
      exact first_appended h
    · obtain ⟨⟨⟩, -, h⟩ := Outcome.bind_eq_ok.mp h
      exact first_appended h
  have hinteger : IsInteger (String.ofList (amountDigits s)).toList := by
    rw [String.toList_ofList]
    exact ⟨_, hnil, hdigits, .inl rfl⟩
  have hvalue := toLong_integer hlib hinteger hlong
  rw [String.toList_ofList, integerOf_digits hdigits] at hvalue
  have hfits : InInt64 long := by
    rw [hvalue]
    exact ⟨wrapInt64_ge _, wrapInt64_lt _⟩
  rw [hlib.writeInt64 long hfits] at hfirst
  have hbytes := Except.ok.inj hfirst
  rw [← hvalue, writtenInt64, ← hbytes,
    List.take_left' (LittleEndian.length_encode 8 _), LittleEndian.decode_encode (by omega),
    Int.toNat_of_nonneg (by omega)]
  have hsame : wrapInt64 (long % 2 ^ 64) = wrapInt64 long :=
    Int.emod_bmod long (2 ^ 64)
  rw [hsame, wrapInt64_eq_self]
  exact hfits

end Longs

end BlurtJs

end Client

namespace Sample

open Client Client.BlurtJs Wire

/-- Packages whose `Long` reads integers modulo 2^64. -/
def longLibraries : Libraries :=
  { libraries with
    longFromString := fun s => .ok (wrapInt64 (integerOf s.toList))
    longToString := fun n => (Js.number n).toText }

theorem longLibraries_longs : longLibraries.Longs where
  fromString text _ := by
    simp only [longLibraries, String.toList_ofList]
  toString _ _ := rfl
  writeInt64 _ _ := rfl

end Sample

end Blurt
