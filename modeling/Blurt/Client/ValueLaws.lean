import Blurt.Client.WireOperation

/-! # Values and the objects that carry them

What every client's proofs need of packed values, of the texts of amounts and keys, and of
objects whose fields are written one after the other.
-/

namespace Blurt

namespace Client

open Wire

@[simp] theorem Value.length_int64Bytes (n : Int) : (Value.int64Bytes n).length = 8 :=
  LittleEndian.length_encode _ _

theorem Value.int64Bytes_inj {m n : Int} (hm : InInt64 m) (hn : InInt64 n) :
    int64Bytes m = int64Bytes n ↔ m = n := by
  constructor
  · intro h
    have h := congrArg LittleEndian.decode h
    rw [int64Bytes, int64Bytes, LittleEndian.decode_encode_mod, LittleEndian.decode_encode_mod] at h
    unfold InInt64 at hm hn
    omega
  · rintro rfl
    rfl

@[simp] theorem Value.length_keyBytes (key : PublicKey) : (Value.keyBytes key).length = 33 := by
  rw [keyBytes, List.length_reverse, LittleEndian.length_encode]

theorem toList_keyText (lib : Libraries) (key : PublicKey) :
    (Value.keyText lib key).toList = ['B', 'L', 'T'] ++ (lib.base58Encode (Value.keyBytes key ++
      (lib.ripemd160 (Value.keyBytes key)).take 4)).toList := by
  rw [Value.keyText, String.toList_append]
  rfl

theorem hexDecode_hexText (data : Bytes) : hexDecode (Value.hexText data).toList = data := by
  have hvalue : ∀ n < 16, hexValue (Nat.digitChar n) = n := by decide
  rw [Value.hexText, String.toList_ofList]
  induction data with
  | nil => rfl
  | cons b data ih =>
      have hb : b.toNat < 256 := b.toNat_lt
      have hbyte : UInt8.ofNat (16 * (b.toNat / 16) + b.toNat % 16) = b := by
        rw [Nat.div_add_mod, UInt8.ofNat_toNat]
      rw [List.flatMap_cons, List.cons_append, List.cons_append, List.nil_append, hexDecode,
        hvalue _ (by omega), hvalue _ (by omega), ih, hbyte]

/-! ## Texts of amounts -/

theorem takeWhile_append_stop {cs : List Char} {p : Char → Bool} {stop : Char} {rest : List Char}
    (h : ∀ c ∈ cs, p c = true) (hstop : p stop = false) :
    (cs ++ stop :: rest).takeWhile p = cs := by
  rw [List.takeWhile_append_of_pos h, List.takeWhile_cons, if_neg (by simp [hstop]),
    List.append_nil]

theorem dropWhile_append_stop {cs : List Char} {p : Char → Bool} {stop : Char} {rest : List Char}
    (h : ∀ c ∈ cs, p c = true) (hstop : p stop = false) :
    (cs ++ stop :: rest).dropWhile p = stop :: rest := by
  rw [List.dropWhile_append_of_pos h, List.dropWhile_cons, if_neg (by simp [hstop])]

theorem not_isWhitespace_of_isDigit {c : Char} (h : Decimal.isDigit c = true) :
    c.isWhitespace = false := by
  have hdigit := Decimal.digit_cases (Decimal.value c)
  rw [Decimal.digit_value h] at hdigit
  have hall : ['0', '1', '2', '3', '4', '5', '6', '7', '8', '9'].all fun c => !c.isWhitespace := by
    decide
  simpa using List.all_eq_true.mp hall c hdigit

theorem ne_of_isDigit {c d : Char} (h : Decimal.isDigit c = true) (hd : Decimal.isDigit d = false) :
    c ≠ d := by
  rintro rfl
  rw [h] at hd
  cases hd

/-- The fraction of an amount with its dot. -/
def fraction (amount decimals : Nat) : List Char :=
  if decimals = 0 then [] else '.' :: Decimal.padded decimals amount

/-- All digits of an amount. -/
def digits (amount decimals : Nat) : List Char :=
  Decimal.text (amount / 10 ^ decimals) ++ Decimal.padded decimals amount

theorem isDigit_of_mem_digits {amount decimals : Nat} {c : Char} (h : c ∈ digits amount decimals) :
    Decimal.isDigit c = true := by
  rcases List.mem_append.mp h with h | h
  · exact Decimal.isDigit_of_mem_text h
  · exact Decimal.isDigit_of_mem_padded h

theorem digits_ne_nil (amount decimals : Nat) : digits amount decimals ≠ [] := by
  simp [digits, Decimal.text_ne_nil]

theorem parse_digits (amount decimals : Nat) : Decimal.parse (digits amount decimals) = amount := by
  rw [digits, Decimal.parse_append, Decimal.parse_text, Decimal.parse_padded,
    Decimal.length_padded, Nat.mul_comm]
  exact Nat.div_add_mod amount (10 ^ decimals)

theorem dot_notMem_text (n : Nat) : '.' ∉ Decimal.text n := fun h =>
  ne_of_isDigit (Decimal.isDigit_of_mem_text h) (by decide) rfl

/-! ## Fields -/

theorem lookup_js {values : List (String × Value)} (hnodup : (values.map Prod.fst).Nodup)
    {name : String} {v : Value} (hmem : (name, v) ∈ values) :
    (values.map fun field => (field.1, field.2.js)).lookup name = some v.js := by
  induction values with
  | nil => cases hmem
  | cons field values ih =>
      rw [List.map_cons, List.nodup_cons] at hnodup
      rw [List.map_cons, List.lookup_cons]
      rcases List.mem_cons.mp hmem with rfl | hmem
      · simp
      · have hne : (name == field.1) = false := by
          rw [beq_eq_false_iff_ne]
          rintro rfl
          exact hnodup.1 (List.mem_map.mpr ⟨_, hmem, rfl⟩)
        simp only [hne]
        exact ih hnodup.2 hmem

section Fields

variable {τ : Type}

/-- Types and values of fields that go by the same names in the same order, each type writing
its value under a condition. -/
inductive FieldsAgree (write : String × τ → Js → Except String Bytes) :
    List (String × τ) → List (String × Value) → Prop → Prop
  | nil : FieldsAgree write [] [] True
  | skip {name : String} {type : τ} {v : Value} {types values} {c : Prop} :
      Writes (write (name, type) v.js) v.bytes True → FieldsAgree write types values c →
        FieldsAgree write ((name, type) :: types) ((name, v) :: values) c
  | cons {name : String} {type : τ} {v : Value} {types values} {c d : Prop} :
      Writes (write (name, type) v.js) v.bytes c → FieldsAgree write types values d →
        FieldsAgree write ((name, type) :: types) ((name, v) :: values) (c ∧ d)

variable {write : String × τ → Js → Except String Bytes} {types : List (String × τ)}
  {values : List (String × Value)} {c d : Prop}

theorem FieldsAgree.writes (h : FieldsAgree write types values c) {object : Js}
    {writeField : String × τ → Except String Bytes}
    (hfield : ∀ field value, object.get field.1 = .ok value → writeField field = write field value)
    (hget : ∀ field ∈ values, object.get field.1 = .ok field.2.js) :
    Writes (writeAll writeField types) (values.flatMap fun field => field.2.bytes) c := by
  induction h with
  | nil => exact Writes.ok []
  | @skip name type v types values c hfirst _ ih =>
      have hrest := ih fun field hmem => hget field (List.mem_cons_of_mem _ hmem)
      have hname := hfield (name, type) v.js (hget _ List.mem_cons_self)
      rw [← hname] at hfirst
      exact (hfirst.seq hrest).congr (by simp)
  | @cons name type v types values c d hfirst _ ih =>
      have hrest := ih fun field hmem => hget field (List.mem_cons_of_mem _ hmem)
      have hname := hfield (name, type) v.js (hget _ List.mem_cons_self)
      rw [← hname] at hfirst
      exact hfirst.seq hrest

/-- The object of the values is written as the node packs it. -/
theorem FieldsAgree.writes_struct (h : FieldsAgree write types values c)
    (hnodup : (values.map Prod.fst).Nodup) {writeField : String × τ → Except String Bytes}
    (hfield : ∀ field value, (Value.struct values).js.get field.1 = .ok value →
      writeField field = write field value) :
    Writes (writeAll writeField types) (Value.struct values).bytes c := by
  apply h.writes hfield
  intro field hmem
  rw [Value.struct, Js.get, lookup_js hnodup hmem]
  rfl

end Fields

end Client

end Blurt
