import Blurt.Client.BlurtJs
import Blurt.Client.ValueLaws

/-! # What the scalar types of blurtjs write

A type agrees with a value under a condition when it writes the bytes of the node exactly
under that condition.
-/

namespace Blurt

namespace Client

open Wire

namespace BlurtJs

/-- A type writes the bytes of a value exactly under a condition. -/
def Agrees (type : SerializerType) (v : Value) (condition : Prop) : Prop :=
  Writes (type.appendByteBuffer v.js) v.bytes condition

variable {lib : Libraries}

section Scalars

variable (hlib : lib.Documented)

include hlib

theorem agrees_string (s : Text) : Agrees (string lib) (Value.string s) True :=
  Writes.of_eq (hlib.writeVString s)

omit hlib in
theorem requireRange_natCast {n max : Nat} (h : n ≤ max) (hmax : (max : Int) ≤ MAX_SAFE_INT) :
    requireRange 0 max (.number n) = .ok (n : Int) := by
  simp only [requireRange, Outcome.bind_eq_ok, Outcome.ensure_eq_ok, Outcome.pure_eq_ok]
  have hmin : MIN_SAFE_INT ≤ 0 := by decide
  exact ⟨(), ⟨by omega, by omega⟩, (), ⟨by omega, by omega⟩, trivial⟩

theorem agrees_uint16 {n : Nat} (h : n < 2 ^ 16) : Agrees (uint16 lib) (Value.uint16 n) True := by
  apply Writes.of_eq
  have hrange := @requireRange_natCast n 0xffff (by omega) (by decide)
  simp only [uint16, Value.uint16]
  exact (congrArg (· >>= lib.writeUint16) hrange).trans (hlib.writeUint16 n h)

theorem writeUint32_natCast {n : Nat} (h : n < 2 ^ 32) :
    lib.writeUint32 n = .ok (LittleEndian.encode 4 n) := by
  rw [hlib.writeUint32 n (by omega) (by omega)]
  congr 2
  omega

theorem agrees_uint32 {n : Nat} (h : n < 2 ^ 32) : Agrees (uint32 lib) (Value.uint32 n) True := by
  apply Writes.of_eq
  have hrange := @requireRange_natCast n 0xffffffff (by omega) (by decide)
  simp only [uint32, Value.uint32]
  exact (congrArg (· >>= lib.writeUint32) hrange).trans (writeUint32_natCast hlib h)

theorem agrees_int16 {n : Int} (hlow : -2 ^ 15 ≤ n) (hhigh : n < 2 ^ 15) :
    Agrees (int16 lib) (Value.int16 n) True :=
  Writes.of_eq (hlib.writeInt16 n hlow hhigh)

theorem writeUint8_bool (b : Bool) :
    lib.writeUint8 (if b then 1 else 0) = .ok [if b then 1 else 0] := by
  cases b with
  | true => exact hlib.writeUint8 1 (by decide)
  | false => exact hlib.writeUint8 0 (by decide)

theorem agrees_bool (b : Bool) : Agrees (bool lib) (Value.bool b) True :=
  Writes.of_eq (writeUint8_bool hlib b)

theorem agrees_timePointSec {seconds : Nat} (h : seconds < 2 ^ 32) :
    Agrees (timePointSec lib) (Value.time seconds) True :=
  Writes.of_eq (writeUint32_natCast hlib h)

/-! ## Hexadecimal data -/

theorem agrees_bytes (data : Text) : Agrees (bytes lib) (Value.binary data) True := by
  apply Writes.of_eq
  simp only [bytes, Value.binary, hexDecode_hexText, hlib.writeVarint32, Outcome.ok_bind,
    length_textBytes]
  rfl

/-! ## Optional values -/

theorem agrees_optional {α : Type} {type : SerializerType} {value : α → Value}
    {condition : α → Prop} (hjs : ∀ a, (value a).js ≠ .null ∧ (value a).js ≠ .undefined)
    (o : Option α) (h : ∀ a ∈ o, Agrees type (value a) (condition a)) :
    Agrees (optional lib type) (Value.optional (o.map value)) (∀ a ∈ o, condition a) := by
  cases o with
  | none =>
      apply (Writes.of_eq (hlib.writeUint8 0 (by decide))).congr
      simp
  | some a =>
      have hout : (optional lib type).appendByteBuffer (value a).js = (do
          let flag ← lib.writeUint8 1
          let rest ← type.appendByteBuffer (value a).js
          return flag ++ rest) := by
        have hjs := hjs a
        unfold optional
        cases hvalue : (value a).js <;> simp_all
      have hflag := Writes.of_eq (hlib.writeUint8 1 (by decide))
      have hboth := hflag.seq (h a rfl)
      unfold Agrees
      rw [Option.map_some, Value.optional, hout]
      apply hboth.congr
      simp

end Scalars

/-! ## Assets -/

section Text

variable {cs : List Char}

/-- A text without white space at its ends is not trimmed. -/
theorem trim_eq_self (hfirst : ∀ c ∈ cs.head?, c.isWhitespace = false)
    (hlast : ∀ c ∈ cs.getLast?, c.isWhitespace = false) : trim cs = cs := by
  unfold trim
  have hdrop : cs.dropWhile Char.isWhitespace = cs := by
    cases cs with
    | nil => rfl
    | cons c rest => rw [List.dropWhile_cons, if_neg (by simp [hfirst c rfl])]
  rw [hdrop, List.rdropWhile_eq_self_iff]
  intro hnil
  simp [hlast _ (List.getLast?_eq_some_getLast hnil)]

end Text

theorem removeDot_amount (amount decimals : Nat) :
    removeDot (Decimal.text (amount / 10 ^ decimals) ++ fraction amount decimals) =
      digits amount decimals := by
  unfold removeDot fraction digits
  rw [List.erase_append_right _ (dot_notMem_text _)]
  split
  next hzero =>
    subst hzero
    rfl
  next =>
    rw [List.erase_cons_head]

theorem precisionOf_amount (amount decimals : Nat) :
    precisionOf (Decimal.text (amount / 10 ^ decimals) ++ fraction amount decimals) = decimals := by
  unfold precisionOf fraction
  by_cases hdecimals : decimals = 0
  · rw [if_pos hdecimals, List.append_nil, if_neg (dot_notMem_text _), hdecimals]
  · rw [if_neg hdecimals, if_pos (List.mem_append_right _ List.mem_cons_self),
      List.idxOf_append_of_notMem (dot_notMem_text _), List.idxOf_cons_self, List.length_append,
      List.length_cons, Decimal.length_padded]
    omega

/-- The digits without the zeros at their ends. -/
def stripped (ds : List Char) : List Char := (ds.dropWhile (· = '0')).rdropWhile (· = '0')

theorem isDigit_of_mem_stripped {ds : List Char} (hdigits : ∀ c ∈ ds, Decimal.isDigit c = true)
    {c : Char} (hc : c ∈ stripped ds) : Decimal.isDigit c = true :=
  hdigits c ((List.dropWhile_suffix _).subset ((List.rdropWhile_prefix _ _).subset hc))

theorem parse_stripped_le (ds : List Char) : Decimal.parse (stripped ds) ≤ Decimal.parse ds := by
  have hlead : Decimal.parse (ds.dropWhile (· = '0')) = Decimal.parse ds := by
    conv_rhs => rw [← List.takeWhile_append_dropWhile (p := (· = '0')) (l := ds)]
    rw [Decimal.parse_zeros]
    intro c hc
    simpa using List.mem_takeWhile_imp hc
  obtain ⟨zeros, hzeros⟩ : stripped ds <+: ds.dropWhile (· = '0') :=
    List.rdropWhile_prefix _ _
  rw [← hlead, ← hzeros, Decimal.parse_append]
  have hpow : 0 < 10 ^ zeros.length := by positivity
  nlinarith [Nat.le_mul_of_pos_right (Decimal.parse (stripped ds)) hpow]

/-- What is left of digits is the numeral of a number, or nothing, which stands for zero. -/
theorem noOverflow64_digits (lib : Libraries) {ds : List Char}
    (hdigits : ∀ c ∈ ds, Decimal.isDigit c = true) :
    ∃ final, final ≠ [] ∧ (∀ c ∈ final, Decimal.isDigit c = true) ∧
      Decimal.text (Decimal.parse final) = final ∧
        Decimal.parse final = Decimal.parse (stripped ds) ∧
          noOverflow64 lib ds = (lib.longFromString (String.ofList final) >>= fun long =>
            Outcome.ensure (lib.longToString long = String.ofList final) "overflow") := by
  have hmem {c : Char} (hc : c ∈ stripped ds) := isDigit_of_mem_stripped hdigits hc
  have hdot : ¬ (stripped ds).getLast? = some '.' := fun h =>
    ne_of_isDigit (hmem (List.mem_of_getLast? h)) (by decide) rfl
  have hhead : (stripped ds).head? ≠ some '0' := by
    intro h
    obtain ⟨zeros, hzeros⟩ : stripped ds <+: ds.dropWhile (· = '0') :=
      List.rdropWhile_prefix _ _
    have hfirst : (ds.dropWhile (· = '0')).head? = some '0' := by
      rw [← hzeros, List.head?_append, h]
      rfl
    have := List.head?_dropWhile_not (· = '0') ds
    rw [hfirst] at this
    simp at this
  have hcheck : noOverflow64 lib ds =
      (lib.longFromString (String.ofList (if stripped ds = [] then ['0'] else stripped ds)) >>=
        fun long => Outcome.ensure (lib.longToString long =
          String.ofList (if stripped ds = [] then ['0'] else stripped ds)) "overflow") := by
    unfold noOverflow64
    unfold stripped at hdot ⊢
    simp only [if_neg hdot]
  by_cases hempty : stripped ds = []
  · refine ⟨['0'], by simp, fun c hc => ?_, ?_, by rw [hempty]; rfl, ?_⟩
    · rw [List.mem_singleton.mp hc]
      decide
    · rw [Decimal.text]
      rfl
    · rw [hcheck, if_pos hempty]
  · refine ⟨stripped ds, hempty, fun c hc => hmem hc, ?_, rfl, ?_⟩
    · exact Decimal.text_parse (fun c hc => hmem hc) hempty fun h => absurd h hhead
    · rw [hcheck, if_neg hempty]

/-- A number of 63 bits passes the check for an overflow, whatever zeros it has. -/
theorem noOverflow64_ok (hlib : lib.Documented) {ds : List Char}
    (hdigits : ∀ c ∈ ds, Decimal.isDigit c = true) (hparse : Decimal.parse ds < 2 ^ 63) :
    noOverflow64 lib ds = .ok () := by
  obtain ⟨final, hnil, hdigit, hnumeral, hvalue, hcheck⟩ := noOverflow64_digits lib hdigits
  have hlt : Decimal.parse final < 2 ^ 63 := by
    have hle := parse_stripped_le ds
    omega
  rw [hcheck, hlib.longFromString final hnil hdigit hlt, Outcome.ok_bind, Outcome.ensure_eq_ok,
    hlib.longToString _ hlt, hnumeral]

theorem toLong_digits (hlib : lib.Documented) {ds : List Char} (hnil : ds ≠ [])
    (hdigits : ∀ c ∈ ds, Decimal.isDigit c = true) (hparse : Decimal.parse ds < 2 ^ 63) :
    toLong lib (.string (String.ofList ds)) = .ok (Decimal.parse ds : Int) := by
  unfold toLong
  simp only [String.toList_ofList]
  rw [noOverflow64_ok hlib hdigits hparse, Outcome.ok_bind,
    hlib.longFromString ds hnil hdigits hparse]

/-- The text of an amount that is not negative, in its two parts. -/
theorem assetText_of_nonneg {a : Asset} (h : 0 ≤ a.amount) :
    (Value.assetText a).toList =
      (Decimal.text (a.amount.natAbs / 10 ^ a.symbol.decimals) ++
        fraction a.amount.natAbs a.symbol.decimals) ++ ' ' :: a.symbol.name := by
  rw [Value.assetText, String.toList_ofList, Value.amountText, if_neg (Int.not_lt.mpr h),
    List.nil_append]
  rfl

theorem isSymbolChar_of_mem_name {symbol : AssetSymbol} {c : Char} (h : c ∈ symbol.name) :
    isSymbolChar c = true := by
  unfold AssetSymbol.name at h
  split at h
  · have hall : "BLURT".toList.all isSymbolChar := by decide
    exact List.all_eq_true.mp hall c h
  · split at h
    · have hall : "VESTS".toList.all isSymbolChar := by decide
      exact List.all_eq_true.mp hall c h
    · rcases List.mem_cons.mp h with rfl | h
      · decide
      · rcases List.mem_cons.mp h with rfl | h
        · decide
        · simp [isSymbolChar, Decimal.isDigit_of_mem_padded h]

theorem name_ne_nil (symbol : AssetSymbol) : symbol.name ≠ [] := by
  unfold AssetSymbol.name
  split
  · decide
  · split
    · decide
    · exact List.cons_ne_nil _ _

theorem ne_of_isSymbolChar {c d : Char} (h : isSymbolChar c = true) (hd : isSymbolChar d = false) :
    c ≠ d := by
  rintro rfl
  rw [h] at hd
  cases hd

/-- White space is between a tab and a space. -/
theorem not_isWhitespace_of_isSymbolChar {c : Char} (h : isSymbolChar c = true) :
    c.isWhitespace = false := by
  by_contra hspace
  simp only [Char.isWhitespace, Bool.not_eq_false, Bool.or_eq_true, decide_eq_true_eq] at hspace
  rcases hspace with ((rfl | rfl) | rfl) | rfl <;> exact absurd h (by decide)

section Amount

variable {n decimals : Nat} {symbol : List Char}

theorem mem_amount {c : Char}
    (h : c ∈ Decimal.text (n / 10 ^ decimals) ++ fraction n decimals) :
    Decimal.isDigit c = true ∨ c = '.' := by
  rcases List.mem_append.mp h with h | h
  · exact .inl (Decimal.isDigit_of_mem_text h)
  · unfold fraction at h
    split at h
    · cases h
    · rcases List.mem_cons.mp h with rfl | h
      · exact .inr rfl
      · exact .inl (Decimal.isDigit_of_mem_padded h)

theorem isAmount_text (hnil : symbol ≠ []) (hsymbol : ∀ c ∈ symbol, isSymbolChar c = true) :
    isAmount ((Decimal.text (n / 10 ^ decimals) ++ fraction n decimals) ++ ' ' :: symbol) =
      true := by
  have htext := fun (c : Char) (hc : c ∈ Decimal.text (n / 10 ^ decimals)) =>
    Decimal.isDigit_of_mem_text hc
  have hsymbol : (symbol ≠ [] && symbol.all isSymbolChar) = true := by
    simpa [hnil] using hsymbol
  have hrest : (skipDot ((fraction n decimals ++ ' ' :: symbol).dropWhile
      Decimal.isDigit)).dropWhile Decimal.isDigit = ' ' :: symbol := by
    unfold fraction
    split
    · rw [List.nil_append, List.dropWhile_cons_of_neg (by decide)]
      exact List.dropWhile_cons_of_neg (by decide)
    · rw [List.cons_append, List.dropWhile_cons_of_neg (by decide)]
      exact dropWhile_append_stop (fun c hc => Decimal.isDigit_of_mem_padded hc) (by decide)
  unfold isAmount
  rw [List.append_assoc, List.takeWhile_append_of_pos htext, List.dropWhile_append_of_pos htext,
    Bool.and_eq_true, hrest]
  exact ⟨by simp [Decimal.text_ne_nil], hsymbol⟩

theorem trim_text (hnil : symbol ≠ []) (hsymbol : ∀ c ∈ symbol, isSymbolChar c = true) :
    trim ((Decimal.text (n / 10 ^ decimals) ++ fraction n decimals) ++ ' ' :: symbol) =
      (Decimal.text (n / 10 ^ decimals) ++ fraction n decimals) ++ ' ' :: symbol := by
  apply trim_eq_self
  · intro c hc
    obtain ⟨first, rest, htext⟩ := List.exists_cons_of_ne_nil
      (Decimal.text_ne_nil (n / 10 ^ decimals))
    rw [htext, List.cons_append, List.cons_append, List.head?_cons, Option.mem_some_iff] at hc
    subst hc
    apply not_isWhitespace_of_isDigit
    exact Decimal.isDigit_of_mem_text (by rw [htext]; exact List.mem_cons_self)
  · intro c hc
    rw [List.getLast?_append_of_ne_nil _ (List.cons_ne_nil _ _)] at hc
    obtain ⟨last, hlast⟩ : ∃ last, symbol.getLast? = some last :=
      ⟨_, List.getLast?_eq_some_getLast hnil⟩
    rw [List.getLast?_cons, hlast, Option.getD_some, Option.mem_some_iff] at hc
    subst hc
    exact not_isWhitespace_of_isSymbolChar (hsymbol _ (List.mem_of_getLast? hlast))

theorem takeWhile_text :
    ((Decimal.text (n / 10 ^ decimals) ++ fraction n decimals) ++ ' ' :: symbol).takeWhile
        (· ≠ ' ') = Decimal.text (n / 10 ^ decimals) ++ fraction n decimals := by
  apply takeWhile_append_stop
  · intro c hc
    rcases mem_amount hc with hc | rfl
    · simpa using ne_of_isDigit hc (by decide)
    · decide
  · decide

theorem dropWhile_text :
    ((Decimal.text (n / 10 ^ decimals) ++ fraction n decimals) ++ ' ' :: symbol).dropWhile
        (· ≠ ' ') = ' ' :: symbol := by
  apply dropWhile_append_stop
  · intro c hc
    rcases mem_amount hc with hc | rfl
    · simpa using ne_of_isDigit hc (by decide)
    · decide
  · decide

theorem takeWhile_symbol (hsymbol : ∀ c ∈ symbol, isSymbolChar c = true) :
    symbol.takeWhile (· ≠ ' ') = symbol := by
  rw [List.takeWhile_eq_self_iff]
  intro c hc
  simpa using ne_of_isSymbolChar (hsymbol c hc) (by decide)

end Amount

/-- What `Types.asset` does with the text of an amount once it is split. -/
def assetParts (lib : Libraries) (amount decimals : Nat) (symbol : List Char) :
    Except String Bytes := do
  let isNai := symbol.take 2 = ['@', '@']
  let nai := Decimal.parse (symbol.drop 2) / 10
  if isNai then
    dammChecksum8digit nai
  else
    Outcome.ensure (symbol.length ≤ 6) "Symbols are not longer than 6 characters"
  let first ← lib.writeInt64 amount
  if isNai then
    let second ← lib.writeUint32 (Int.bmod (nai * 2 ^ 5) (2 ^ 32) + 16 + decimals)
    return first ++ second
  else
    let second ← lib.writeUint8 decimals
    return first ++ (second ++ (symbol.map fun c => UInt8.ofNat c.toUpper.toNat) ++
      List.replicate (7 - symbol.length) 0)

theorem asset_append (hlib : lib.Documented) {a : Asset} (hamount : InInt64 a.amount)
    (h : 0 ≤ a.amount) : (asset lib).appendByteBuffer (Value.asset a).js =
      assetParts lib a.amount.natAbs a.symbol.decimals a.symbol.name := by
  have hsymbol := fun (c : Char) (hc : c ∈ a.symbol.name) => isSymbolChar_of_mem_name hc
  have hlt : a.amount.natAbs < 2 ^ 63 := by
    have := hamount.2
    omega
  have hlong := @toLong_digits lib hlib (digits a.amount.natAbs a.symbol.decimals)
    (digits_ne_nil _ _) (fun c hc => isDigit_of_mem_digits hc) (by rwa [parse_digits])
  rw [parse_digits] at hlong
  unfold asset assetParts Value.asset
  simp only [assetText_of_nonneg h, trim_text (name_ne_nil _) hsymbol, takeWhile_text,
    dropWhile_text, List.tail_cons, takeWhile_symbol hsymbol, removeDot_amount,
    precisionOf_amount, hlong, isAmount_text (name_ne_nil _) hsymbol, Outcome.ensure, if_true,
    Outcome.ok_bind]

/-- A text that starts with a minus is no amount. -/
theorem asset_negative {a : Asset} (h : a.amount < 0) :
    ∃ message, (asset lib).appendByteBuffer (Value.asset a).js = .error message := by
  obtain ⟨rest, hrest⟩ : ∃ rest, (Value.assetText a).toList = '-' :: rest := by
    rw [Value.assetText, String.toList_ofList, Value.amountText, if_pos h, List.append_assoc,
      List.append_assoc, List.singleton_append]
    exact ⟨_, rfl⟩
  have htrim : (trim ('-' :: rest)).takeWhile Decimal.isDigit = [] := by
    unfold trim
    rw [List.dropWhile_cons_of_neg (by decide)]
    obtain ⟨dropped, hdropped⟩ :=
      List.rdropWhile_prefix (p := Char.isWhitespace) (l := '-' :: rest)
    cases hkept : ('-' :: rest).rdropWhile Char.isWhitespace with
    | nil => rfl
    | cons c kept =>
        rw [hkept, List.cons_append, List.cons.injEq] at hdropped
        rw [hdropped.1, List.takeWhile_cons_of_neg (by decide)]
  have hamount : isAmount (trim ('-' :: rest)) = false := by
    unfold isAmount
    rw [htrim]
    rfl
  refine ⟨"Expecting amount like '99.000 SYMBOL'", ?_⟩
  unfold asset Value.asset
  simp only [hrest, hamount, Outcome.ensure]
  rfl

theorem take_name (symbol : AssetSymbol) :
    symbol.name.take 2 = ['@', '@'] ↔ symbol ≠ .blurt ∧ symbol ≠ .vests := by
  unfold AssetSymbol.name
  split
  · rename_i hblurt
    simp only [hblurt, ne_eq, not_true_eq_false, false_and, iff_false]
    decide
  · split
    · rename_i hvests
      simp only [hvests, ne_eq, not_true_eq_false, and_false, iff_false]
      decide
    · rename_i hblurt hvests
      simp [hblurt, hvests]

theorem agrees_asset (hlib : lib.Documented) {a : Asset} (hamount : InInt64 a.amount)
    (hsymbol : a.symbol.IsValid) : Agrees (asset lib) (Value.asset a) (0 ≤ a.amount) := by
  rcases lt_or_ge a.amount 0 with hneg | hnonneg
  · obtain ⟨message, hout⟩ := @asset_negative lib a hneg
    unfold Agrees
    rw [hout]
    exact Writes.error (by omega)
  have hint := hlib.writeInt64 _ hamount
  have hcast : (a.amount.natAbs : Int) = a.amount := Int.natAbs_of_nonneg hnonneg
  suffices hout : (asset lib).appendByteBuffer (Value.asset a).js = .ok (Value.asset a).bytes from
    (Writes.of_eq hout).congr (by simp [hnonneg])
  rw [asset_append hlib hamount hnonneg]
  unfold assetParts Value.asset Value.symbolBytes
  rw [hcast, hint]
  by_cases hblurt : a.symbol = .blurt
  · have hwrite : lib.writeUint8 ((AssetSymbol.blurt.decimals : Nat) : Int) = .ok [3] :=
      hlib.writeUint8 3 (by decide)
    simp only [hblurt, hwrite]
    rfl
  · by_cases hvests : a.symbol = .vests
    · have hwrite : lib.writeUint8 ((AssetSymbol.vests.decimals : Nat) : Int) = .ok [6] :=
        hlib.writeUint8 6 (by decide)
      simp only [hvests, hwrite]
      rfl
    · obtain ⟨hlow, hhigh, hcontrol, hdecimals⟩ :=
        (hsymbol.resolve_left hblurt).resolve_left hvests
      have hnai : Decimal.parse (a.symbol.name.drop 2) / 10 = a.symbol.assetNum / 2 ^ 5 := by
        have hcheck := AssetSymbol.dammChecksum8digit_le (a.symbol.assetNum / 2 ^ 5)
        have hname : a.symbol.name.drop 2 = Decimal.padded 9 a.symbol.toNai := by
          rw [AssetSymbol.name, if_neg hblurt, if_neg hvests]
          rfl
        rw [hname, Decimal.parse_padded, AssetSymbol.toNai]
        omega
      have hnum : a.symbol.assetNum =
          a.symbol.assetNum / 2 ^ 5 * 2 ^ 5 + 16 + a.symbol.decimals := by
        unfold AssetSymbol.decimals
        omega
      have hbmod : (Int.bmod ((a.symbol.assetNum / 2 ^ 5 : Nat) * 2 ^ 5) (2 ^ 32) : Int) + 16 +
          a.symbol.decimals ∈ Set.Ico (-2 ^ 31 : Int) (2 ^ 32) ∧
          ((Int.bmod ((a.symbol.assetNum / 2 ^ 5 : Nat) * 2 ^ 5) (2 ^ 32) : Int) + 16 +
          a.symbol.decimals) % 2 ^ 32 = a.symbol.assetNum := by
        rw [Int.bmod_def]
        constructor
        · rw [Set.mem_Ico]
          split <;> omega
        · split <;> omega
      have hwrite := hlib.writeUint32 _ hbmod.1.1 hbmod.1.2
      rw [hbmod.2, Int.toNat_natCast] at hwrite
      have htake : a.symbol.name.take 2 = ['@', '@'] := (take_name _).mpr ⟨hblurt, hvests⟩
      simp only [htake, hnai, dammChecksum8digit, hwrite, Outcome.ensure, if_true, if_neg hblurt,
        if_neg hvests, if_pos (show a.symbol.assetNum / 2 ^ 5 < 100000000 by omega),
        Outcome.ok_bind]
      rfl

end BlurtJs

end Client

end Blurt
