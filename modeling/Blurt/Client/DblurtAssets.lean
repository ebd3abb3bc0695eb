import Blurt.Client.DblurtLaws

/-! # What dblurt writes of an asset

An amount becomes a double number of whole units and is multiplied back. The symbols of SMTs are
unknown to dblurt.
-/

namespace Blurt

namespace Client

namespace Dblurt

open Wire WireOperation

namespace Asset

/-! ## The text of an amount -/

section Amount

variable {n decimals : Nat}

/-- An amount without its sign. -/
def unsignedText (n decimals : Nat) : List Char :=
  Decimal.text (n / 10 ^ decimals) ++ fraction n decimals

theorem amountText_eq (amount : Int) (decimals : Nat) : Value.amountText amount decimals =
    (if amount < 0 then ['-'] else []) ++ unsignedText amount.natAbs decimals := by
  rw [Value.amountText, List.append_assoc]
  rfl

theorem unsignedText_cons (n decimals : Nat) :
    ∃ c rest, unsignedText n decimals = c :: rest ∧ Decimal.isDigit c = true := by
  unfold unsignedText
  cases htext : Decimal.text (n / 10 ^ decimals) with
  | nil => exact absurd htext (Decimal.text_ne_nil _)
  | cons c rest =>
      refine ⟨c, rest ++ fraction n decimals, rfl, ?_⟩
      apply Decimal.isDigit_of_mem_text
      rw [htext]
      exact List.mem_cons_self

theorem sign_amountText (amount : Int) (decimals : Nat) :
    sign ((Value.amountText amount decimals).dropWhile Char.isWhitespace) =
      (decide (amount < 0), unsignedText amount.natAbs decimals) := by
  obtain ⟨c, rest, hunsigned, hdigit⟩ := unsignedText_cons amount.natAbs decimals
  rw [amountText_eq]
  by_cases hneg : amount < 0
  · rw [if_pos hneg, List.singleton_append, List.dropWhile_cons_of_neg (by decide)]
    simp [sign, hneg]
  · have hspace : ¬ c.isWhitespace = true := by
      rw [not_isWhitespace_of_isDigit hdigit]
      decide
    rw [if_neg hneg, List.nil_append, hunsigned, List.dropWhile_cons_of_neg hspace]
    unfold sign
    split
    next heq =>
      rw [List.cons.injEq] at heq
      exact absurd heq.1 (ne_of_isDigit hdigit (by decide))
    next heq =>
      rw [List.cons.injEq] at heq
      exact absurd heq.1 (ne_of_isDigit hdigit (by decide))
    next => simp [hneg]

theorem takeWhile_unsignedText (n decimals : Nat) :
    (unsignedText n decimals).takeWhile Decimal.isDigit = Decimal.text (n / 10 ^ decimals) := by
  have htext := fun (c : Char) (hc : c ∈ Decimal.text (n / 10 ^ decimals)) =>
    Decimal.isDigit_of_mem_text hc
  unfold unsignedText fraction
  split
  · rw [List.append_nil, List.takeWhile_eq_self_iff]
    exact htext
  · exact takeWhile_append_stop htext (by decide)

theorem dropWhile_unsignedText (n decimals : Nat) :
    (unsignedText n decimals).dropWhile Decimal.isDigit = fraction n decimals := by
  have htext := fun (c : Char) (hc : c ∈ Decimal.text (n / 10 ^ decimals)) =>
    Decimal.isDigit_of_mem_text hc
  unfold unsignedText
  rw [List.dropWhile_append_of_pos htext]
  unfold fraction
  split
  · rfl
  · exact List.dropWhile_cons_of_neg (by decide)

theorem splitFraction_fraction (n decimals : Nat) :
    splitFraction (fraction n decimals) = (Decimal.padded decimals n, []) := by
  have hdigits := fun (c : Char) (hc : c ∈ Decimal.padded decimals n) =>
    Decimal.isDigit_of_mem_padded hc
  unfold fraction
  by_cases hdecimals : decimals = 0
  · subst hdecimals
    rfl
  · rw [if_neg hdecimals, splitFraction, List.takeWhile_eq_self_iff.mpr hdigits,
      List.dropWhile_eq_nil_iff.mpr hdigits]

end Amount

/-- The number of whole units that a text gives. -/
theorem parseFloat_amountText {amount : Int} (h : InInt64 amount) (decimals : Nat) :
    parseFloat (Value.amountText amount decimals) =
      some (Double.nearest (amount / 10 ^ decimals)) := by
  have hvalue : (if decide (amount < 0) = true then
      -((Decimal.parse (digits amount.natAbs decimals) : ℚ) *
        10 ^ (exponent [] - (Decimal.padded decimals amount.natAbs).length))
      else (Decimal.parse (digits amount.natAbs decimals) : ℚ) *
        10 ^ (exponent [] - (Decimal.padded decimals amount.natAbs).length)) =
      (amount : ℚ) / 10 ^ decimals := by
    have hscale : (10 : ℚ) ^ (exponent [] - ((Decimal.padded decimals amount.natAbs).length : Int)) =
        (10 ^ decimals)⁻¹ := by
      rw [Decimal.length_padded, exponent, zero_sub, zpow_neg, zpow_natCast]
    rw [hscale, parse_digits, div_eq_mul_inv]
    by_cases hneg : amount < 0
    · have habs : (amount.natAbs : ℚ) = -amount := by
        rw [Nat.cast_natAbs, abs_of_neg hneg, Int.cast_neg]
      rw [if_pos (decide_eq_true hneg), habs]
      ring
    · have habs : (amount.natAbs : ℚ) = amount := by
        rw [Nat.cast_natAbs, abs_of_nonneg (not_lt.mp hneg)]
      rw [if_neg (by simpa using hneg), habs]
  have hfinite : |Double.nearest (amount / 10 ^ decimals)| < 2 ^ 1024 := by
    have hsize : |(amount : ℚ) / 10 ^ decimals| ≤ 2 ^ 63 := by
      rw [abs_div, abs_of_pos (by positivity : (0 : ℚ) < 10 ^ decimals)]
      apply (div_le_self (abs_nonneg _) (one_le_pow₀ (by norm_num))).trans
      have : |amount| ≤ 2 ^ 63 := by
        rw [abs_le]
        exact ⟨h.1, h.2.le⟩
      exact_mod_cast this
    calc |Double.nearest (amount / 10 ^ decimals)|
        ≤ 2 * |(amount : ℚ) / 10 ^ decimals| := Double.abs_nearest_le _
      _ ≤ 2 * 2 ^ 63 := by gcongr
      _ = 2 ^ 64 := by norm_num
      _ < 2 ^ 1024 := pow_lt_pow_right₀ (by norm_num) (by norm_num)
  have hnil : Decimal.text (amount.natAbs / 10 ^ decimals) ++
      Decimal.padded decimals amount.natAbs ≠ [] := digits_ne_nil _ _
  unfold digits at hvalue
  unfold parseFloat
  simp only [sign_amountText, takeWhile_unsignedText, dropWhile_unsignedText, splitFraction_fraction,
    if_neg hnil, hvalue, if_pos hfinite]

theorem not_space_of_mem_amountText {amount : Int} {decimals : Nat} {c : Char}
    (h : c ∈ Value.amountText amount decimals) : (c ≠ ' ' : Bool) = true := by
  have hdigit (h : Decimal.isDigit c = true) : (c ≠ ' ' : Bool) = true := by
    simpa using ne_of_isDigit h (by decide)
  rw [amountText_eq] at h
  rcases List.mem_append.mp h with h | h
  · split at h
    · rw [List.mem_singleton.mp h]
      decide
    · cases h
  · rcases List.mem_append.mp h with h | h
    · exact hdigit (Decimal.isDigit_of_mem_text h)
    · unfold fraction at h
      split at h
      · cases h
      · rcases List.mem_cons.mp h with rfl | h
        · decide
        · exact hdigit (Decimal.isDigit_of_mem_padded h)

end Asset

/-! ## Symbols -/

theorem takeWhile_name (symbol : AssetSymbol) : symbol.name.takeWhile (· ≠ ' ') = symbol.name := by
  rw [List.takeWhile_eq_self_iff]
  intro c hc
  unfold AssetSymbol.name at hc
  split at hc
  · have hall : "BLURT".toList.all (· ≠ ' ') := by decide
    exact List.all_eq_true.mp hall c hc
  · split at hc
    · have hall : "VESTS".toList.all (· ≠ ' ') := by decide
      exact List.all_eq_true.mp hall c hc
    · rcases List.mem_cons.mp hc with rfl | hc
      · decide
      · rcases List.mem_cons.mp hc with rfl | hc
        · decide
        · simpa using ne_of_isDigit (Decimal.isDigit_of_mem_padded hc) (by decide)

/-- The symbols of the chain that dblurt knows. -/
def Known (symbol : AssetSymbol) : Prop := symbol = .blurt ∨ symbol = .vests

theorem name_mem_symbols (symbol : AssetSymbol) :
    symbol.name ∈ Asset.symbols ↔ Known symbol := by
  unfold AssetSymbol.name Known
  by_cases hblurt : symbol = .blurt
  · rw [if_pos hblurt]
    exact iff_of_true (by decide) (.inl hblurt)
  · by_cases hvests : symbol = .vests
    · rw [if_neg hblurt, if_pos hvests]
      exact iff_of_true (by decide) (.inr hvests)
    · have hhead : ∀ text ∈ Asset.symbols, text.head? ≠ some '@' := by decide
      rw [if_neg hblurt, if_neg hvests]
      apply iff_of_false
      · exact fun hmem => hhead _ hmem rfl
      · rintro (h | h)
        · exact hblurt h
        · exact hvests h

section Text

variable (a : Blurt.Asset)

theorem toList_assetText : (Value.assetText a).toList =
    Value.amountText a.amount a.symbol.decimals ++ ' ' :: a.symbol.name := by
  rw [Value.assetText, String.toList_ofList]

theorem takeWhile_assetText : (Value.assetText a).toList.takeWhile (· ≠ ' ') =
    Value.amountText a.amount a.symbol.decimals := by
  rw [toList_assetText]
  apply takeWhile_append_stop
  · exact fun c hc => Asset.not_space_of_mem_amountText hc
  · decide

theorem dropWhile_assetText : (Value.assetText a).toList.dropWhile (· ≠ ' ') =
    ' ' :: a.symbol.name := by
  rw [toList_assetText]
  apply dropWhile_append_stop
  · exact fun c hc => Asset.not_space_of_mem_amountText hc
  · decide

end Text

theorem fromString_assetText {a : Blurt.Asset} (h : InInt64 a.amount) (hknown : Known a.symbol) :
    Asset.fromString (Value.assetText a).toList =
      .ok ⟨Double.nearest (a.amount / 10 ^ a.symbol.decimals), a.symbol.name⟩ := by
  have hmem := (name_mem_symbols _).mpr hknown
  unfold Asset.fromString
  simp only [takeWhile_assetText, dropWhile_assetText, takeWhile_name,
    Asset.parseFloat_amountText h, Outcome.ensure, if_pos hmem, Outcome.ok_bind]

theorem fromString_unknown {a : Blurt.Asset} (hunknown : ¬ Known a.symbol) (asset : Asset) :
    Asset.fromString (Value.assetText a).toList ≠ .ok asset := by
  intro hout
  unfold Asset.fromString at hout
  simp only [dropWhile_assetText, takeWhile_name, Outcome.bind_eq_ok, Outcome.ensure_eq_ok] at hout
  obtain ⟨_, hmem, -⟩ := hout
  exact hunknown ((name_mem_symbols _).mp hmem)

section Symbols

variable {lib : Libraries} (hlib : lib.Documented)

include hlib

theorem writeUint8_chars {symbol : List Char} (h : ∀ c ∈ symbol, c.toNat < 256) (l : List Nat) :
    writeAll (fun i => lib.writeUint8 (charCodeAt symbol i)) l =
      .ok (l.map fun i => UInt8.ofNat ((symbol[i]?.map Char.toNat).getD 0)) := by
  have hbyte (i : Nat) : lib.writeUint8 (charCodeAt symbol i) =
      .ok [UInt8.ofNat ((symbol[i]?.map Char.toNat).getD 0)] := by
    apply hlib.writeUint8
    cases hget : symbol[i]? with
    | none => decide
    | some c => exact h c (List.mem_of_getElem? hget)
  induction l with
  | nil => rfl
  | cons i l ih =>
      rw [writeAll, hbyte, ih]
      rfl

/-- The precision and the symbol of a known asset are the eight bytes of the node. -/
theorem symbol_written {symbol : AssetSymbol} (hknown : Known symbol) {amount : ℚ} {first : Bytes} :
    (⟨amount, symbol.name⟩ : Asset).steemSymbols = ⟨amount, symbol.name⟩ ∧
      (⟨amount, symbol.name⟩ : Asset).getPrecision = symbol.decimals ∧
      (do
        let decimals ← lib.writeUint8 symbol.decimals
        let text ← writeAll (fun i => lib.writeUint8 (charCodeAt symbol.name i)) (List.range 7)
        return first ++ (decimals ++ text)) = .ok (first ++ Value.symbolBytes symbol) := by
  have hname : symbol.name ≠ "HIVE".toList ∧ symbol.name ≠ "HBD".toList ∧
      (if symbol.name = "VESTS".toList then 6 else 3) = symbol.decimals := by
    rcases hknown with rfl | rfl
    · decide +kernel
    · decide +kernel
  have hbytes : symbol.name.all (fun c => c.toNat < 256) ∧ symbol.decimals < 2 ^ 8 ∧
      LittleEndian.encode 1 symbol.decimals ++ (List.range 7).map (fun i =>
        UInt8.ofNat ((symbol.name[i]?.map Char.toNat).getD 0)) = Value.symbolBytes symbol := by
    rcases hknown with rfl | rfl
    · decide +kernel
    · decide +kernel
  obtain ⟨hhive, hhbd, hprecision⟩ := hname
  obtain ⟨hall, hdecimals, hsymbol⟩ := hbytes
  have hchars : ∀ c ∈ symbol.name, c.toNat < 256 := fun c hc => by
    simpa using List.all_eq_true.mp hall c hc
  refine ⟨?_, hprecision, ?_⟩
  · rw [Asset.steemSymbols, if_neg hhive, if_neg hhbd]
  · rw [hlib.writeUint8 _ hdecimals, writeUint8_chars hlib hchars, ← hsymbol]
    rfl

/-! ## Amounts -/

omit hlib in
/-- The amount that dblurt makes of an amount. -/
def amountOf (amount : Int) (decimals : Nat) : Int :=
  round (Double.nearest (Double.nearest (amount / 10 ^ decimals) * 10 ^ decimals))

omit hlib in
/-- dblurt writes an asset: its symbol is known, and its amount survives as a double number of
whole units, or is the largest one, at which the conversion stops. -/
def AssetReadable (a : Blurt.Asset) : Prop :=
  Known a.symbol ∧ (amountOf a.amount a.symbol.decimals = a.amount ∨ a.amount = 2 ^ 63 - 1)

omit hlib in
/-- Every amount that occurs survives. -/
theorem assetReadable_of_lt {a : Blurt.Asset} (hknown : Known a.symbol) (h : |a.amount| < 2 ^ 51) :
    AssetReadable a :=
  ⟨hknown, .inl (Double.round_nearest_mul_nearest h (by positivity))⟩

omit hlib in
theorem clamp_amountOf {symbol : AssetSymbol} (hknown : Known symbol) {amount : Int}
    (h : InInt64 amount) :
    max (-2 ^ 63) (min (amountOf amount symbol.decimals) (2 ^ 63 - 1)) = amount ↔
      amountOf amount symbol.decimals = amount ∨ amount = 2 ^ 63 - 1 := by
  have hends : amountOf (-2 ^ 63) symbol.decimals = -2 ^ 63 ∧
      amountOf (2 ^ 63 - 1) symbol.decimals = 2 ^ 63 := by
    rcases hknown with rfl | rfl
    · decide +kernel
    · decide +kernel
  obtain ⟨hlow, hhigh⟩ := h
  constructor
  · intro hclamp
    by_cases hbelow : amountOf amount symbol.decimals < -2 ^ 63
    · have hamount : amount = -2 ^ 63 := by omega
      rw [hamount, hends.1] at hbelow
      omega
    · omega
  · rintro (hsame | rfl)
    · omega
    · rw [hends.2]
      rfl

theorem agrees_asset {a : Blurt.Asset} (h : FitsAsset a) :
    Agrees (assetSerializer lib) (Value.asset a) (AssetReadable a) := by
  by_cases hknown : Known a.symbol
  · set m := max (-2 ^ 63) (min (amountOf a.amount a.symbol.decimals) (2 ^ 63 - 1)) with hm
    have hrange : InInt64 m := by
      unfold InInt64
      omega
    have hout : assetSerializer lib (Value.asset a).js =
        .ok (Value.int64Bytes m ++ Value.symbolBytes a.symbol) := by
      obtain ⟨hsteem, hprecision, hwritten⟩ := @symbol_written lib hlib a.symbol hknown
        (Double.nearest (a.amount / 10 ^ a.symbol.decimals)) (Value.int64Bytes m)
      simp only [assetSerializer, Value.asset, Asset.fromValue, fromString_assetText h.1 hknown,
        Outcome.ok_bind, hsteem, hprecision, hlib.longFromNumber]
      have hamount := hlib.writeInt64 m hrange
      rw [hm] at hamount
      unfold amountOf at hamount
      rw [hamount, Outcome.ok_bind]
      exact hwritten
    unfold Agrees
    rw [hout]
    constructor
    · rw [Except.ok.injEq, Value.asset, List.append_left_inj, Value.int64Bytes_inj hrange h.1, hm,
        clamp_amountOf hknown h.1]
      exact (and_iff_right hknown).symm
    · rintro b ⟨⟩
      rw [Value.asset, List.length_append, List.length_append, Value.length_int64Bytes,
        Value.length_int64Bytes]
  · have hnone (b : Bytes) : assetSerializer lib (Value.asset a).js ≠ .ok b := by
      intro hout
      simp only [assetSerializer, Value.asset, Asset.fromValue, Outcome.bind_eq_ok] at hout
      obtain ⟨asset, hasset, -⟩ := hout
      exact fromString_unknown hknown asset hasset
    constructor
    · exact iff_of_false (hnone _) fun hreadable => hknown hreadable.1
    · intro b hb
      exact absurd hb (hnone b)

end Symbols

end Dblurt

end Client

end Blurt
