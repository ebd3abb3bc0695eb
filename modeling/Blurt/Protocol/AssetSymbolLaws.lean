import Blurt.Protocol.AssetSymbol

/-! # How unambiguous asset symbols are

Packing is unambiguous for every symbol that is accepted. The identifiers are not: two symbols are
built in, under data digits that a generated symbol may have as well.
-/

namespace Blurt

open Outcome

namespace AssetSymbol

variable {s t : AssetSymbol}

theorem validate_eq_ok : s.validate = .ok () ↔ s.IsValid := by
  unfold validate IsValid
  split
  · rename_i hbuiltIn
    exact iff_of_true rfl (by tauto)
  · rename_i hbuiltIn
    rw [ensure_eq_ok]
    tauto

/-- A symbol in the space of the SMTs. -/
structure Generated (s : AssetSymbol) : Prop where
  ne_blurt : s ≠ blurt
  ne_vests : s ≠ vests
  digits : 1 ≤ s.assetNum / 2 ^ 5 ∧ s.assetNum / 2 ^ 5 ≤ 99999999
  control : s.assetNum / 2 ^ 4 % 2 = 1
  precision : s.decimals ≤ 12

theorem IsValid.cases (h : s.IsValid) : s = blurt ∨ s = vests ∨ s.Generated := by
  by_cases hblurt : s = blurt
  · exact .inl hblurt
  · by_cases hvests : s = vests
    · exact .inr (.inl hvests)
    · obtain ⟨hlow, hhigh, hcontrol, hdecimals⟩ := (h.resolve_left hblurt).resolve_left hvests
      exact .inr (.inr ⟨hblurt, hvests, ⟨hlow, hhigh⟩, hcontrol, hdecimals⟩)

/-- The number of a generated symbol is made of its digits, its control bit and its precision. -/
theorem Generated.assetNum_eq (h : s.Generated) :
    s.assetNum = s.assetNum / 2 ^ 5 * 2 ^ 5 + 2 ^ 4 + s.decimals := by
  have hcontrol := h.control
  unfold decimals
  omega

/-! ## Packing -/

theorem readBytes_append (count : Nat) {first : List UInt8} (hfirst : first.length = count)
    (rest : List UInt8) : readBytes count (first ++ rest) = .ok (first, rest) := by
  unfold readBytes
  rw [Outcome.ensure, if_pos (by simp [hfirst]), ok_bind, List.take_left' hfirst,
    List.drop_left' hfirst]
  rfl

/-- What is packed is unpacked, and nothing of what follows is read. -/
theorem unpack_pack (h : s.IsValid) (rest : List UInt8) :
    unpack (s.pack ++ rest) = .ok (s, rest) := by
  rcases h.cases with rfl | rfl | hgenerated
  · have hsplit : blurt.pack ++ rest = blurtSer.take 4 ++ (blurtSer.drop 4 ++ rest) := rfl
    rw [hsplit, unpack, readBytes_append 4 rfl, ok_bind]
    dsimp only
    rw [if_pos rfl, readBytes_append 4 rfl, ok_bind]
    rfl
  · have hsplit : vests.pack ++ rest = vestsSer.take 4 ++ (vestsSer.drop 4 ++ rest) := rfl
    rw [hsplit, unpack, readBytes_append 4 rfl, ok_bind]
    dsimp only
    rw [if_neg (by decide), if_pos rfl, readBytes_append 4 rfl, ok_bind]
    rfl
  · have hnum := hgenerated.assetNum_eq
    have hdigits := hgenerated.digits
    have hprecision := hgenerated.precision
    have hfirst : ∀ byte : UInt8, byte.toNat / 2 ^ 4 % 2 = 0 → ∀ more,
        LittleEndian.encode 4 s.assetNum ≠ byte :: more := by
      intro byte hbyte more hencode
      have hhead : UInt8.ofNat s.assetNum = byte := (List.cons.inj hencode).1
      rw [← hhead, UInt8.toNat_ofNat'] at hbyte
      have hcontrol := hgenerated.control
      omega
    have hdecode : LittleEndian.decode (LittleEndian.encode 4 s.assetNum) = s.assetNum :=
      LittleEndian.decode_encode (by omega)
    rw [pack, if_neg hgenerated.ne_blurt, if_neg hgenerated.ne_vests, unpack,
      readBytes_append 4 (LittleEndian.length_encode 4 _), ok_bind]
    dsimp only
    have hblurt : LittleEndian.encode 4 s.assetNum ≠ blurtSer.take 4 := hfirst 3 (by decide) _
    have hvests : LittleEndian.encode 4 s.assetNum ≠ vestsSer.take 4 := hfirst 6 (by decide) _
    rw [if_neg hblurt, if_neg hvests, hdecode, validate_eq_ok.mpr h]
    rfl

/-! ## Identifiers -/

theorem naiDataDigits_range (h : s.IsValid) : 1 ≤ s.naiDataDigits ∧ s.naiDataDigits ≤ 99999999 := by
  unfold naiDataDigits
  rcases h.cases with rfl | rfl | hgenerated
  · decide
  · decide
  · rw [if_neg hgenerated.ne_blurt, if_neg hgenerated.ne_vests]
    exact hgenerated.digits

/-- The identifier of a symbol shows its data digits. -/
theorem nai_eq (h : s.IsValid) :
    s.nai = .ok (s.naiDataDigits * 10 + dammChecksum8digit s.naiDataDigits) := by
  have hrange := naiDataDigits_range h
  rw [nai, checkDigit, Outcome.ensure, if_pos (by omega)]
  rfl

/-- The number with given digits, the control bit and a precision. -/
theorem lor_control {digits decimalPlaces : Nat} (hdecimals : decimalPlaces ≤ 12) :
    (digits * 2 ^ 5 ||| 2 ^ 4) ||| decimalPlaces = digits * 2 ^ 5 + 2 ^ 4 + decimalPlaces := by
  have hcontrol : digits * 2 ^ 5 ||| 2 ^ 4 = 2 ^ 4 * (2 * digits + 1) := by
    rw [Nat.mul_comm digits, ← Nat.two_pow_add_eq_or_of_lt (by decide)]
    ring
  rw [hcontrol, ← Nat.two_pow_add_eq_or_of_lt (by omega)]
  ring

/-- The symbol that data digits stand for, with a precision. -/
inductive Names : (digits decimalPlaces : Nat) → AssetSymbol → Prop
  | blurt : Names 2 3 blurt
  | vests : Names 3 6 vests
  | generated {digits decimalPlaces : Nat} : digits ≠ 2 → digits ≠ 3 → decimalPlaces ≤ 12 →
      Names digits decimalPlaces ⟨digits * 2 ^ 5 + 2 ^ 4 + decimalPlaces⟩

theorem Names.iff {digits decimalPlaces : Nat} :
    Names digits decimalPlaces s ↔
      digits = 2 ∧ decimalPlaces = 3 ∧ s = AssetSymbol.blurt ∨
        digits = 3 ∧ decimalPlaces = 6 ∧ s = AssetSymbol.vests ∨
        digits ≠ 2 ∧ digits ≠ 3 ∧ decimalPlaces ≤ 12 ∧
          s = ⟨digits * 2 ^ 5 + 2 ^ 4 + decimalPlaces⟩ := by
  constructor
  · intro h
    cases h with
    | blurt => exact .inl ⟨rfl, rfl, rfl⟩
    | vests => exact .inr (.inl ⟨rfl, rfl, rfl⟩)
    | generated hblurt hvests hdecimals => exact .inr (.inr ⟨hblurt, hvests, hdecimals, rfl⟩)
  · rintro (⟨rfl, rfl, rfl⟩ | ⟨rfl, rfl, rfl⟩ | ⟨hblurt, hvests, hdecimals, rfl⟩)
    · exact .blurt
    · exact .vests
    · exact .generated hblurt hvests hdecimals

theorem Names.unique {digits decimalPlaces : Nat} (hs : Names digits decimalPlaces s)
    (ht : Names digits decimalPlaces t) : s = t := by
  cases hs with
  | blurt =>
      cases ht with
      | blurt => rfl
      | generated hblurt => exact absurd rfl hblurt
  | vests =>
      cases ht with
      | vests => rfl
      | generated _ hvests => exact absurd rfl hvests
  | generated hblurt hvests =>
      cases ht with
      | blurt => exact absurd rfl hblurt
      | vests => exact absurd rfl hvests
      | generated => rfl

/-- An identifier is read if its data digits are in range and its last one is their check digit. -/
theorem fromNai_eq_ok {x decimalPlaces : Nat} :
    fromNai x decimalPlaces = .ok s ↔
      (1 ≤ x / 10 ∧ x / 10 ≤ 99999999) ∧ x % 10 = dammChecksum8digit (x / 10) ∧
        Names (x / 10) decimalPlaces s := by
  have hsymbol : ∀ num, (pure (⟨num⟩ : AssetSymbol) : Except String AssetSymbol) = .ok s ↔
      s = ⟨num⟩ := fun num => by rw [pure_eq_ok, eq_comm]
  unfold fromNai assetNumFromNai checkDigit
  simp only [bind_eq_ok, ensure_eq_ok, exists_const, hsymbol, pure_eq_ok, Names.iff]
  constructor
  · rintro ⟨num, ⟨hrange, digit, ⟨-, rfl⟩, hdigit, hread⟩, rfl⟩
    refine ⟨hrange, hdigit, ?_⟩
    split at hread
    · rename_i hdata
      simp only [bind_eq_ok, ensure_eq_ok, exists_const, pure_eq_ok] at hread
      exact .inl ⟨hdata, hread.1, by rw [← hread.2]⟩
    · split at hread
      · rename_i hdata
        simp only [bind_eq_ok, ensure_eq_ok, exists_const, pure_eq_ok] at hread
        exact .inr (.inl ⟨hdata, hread.1, by rw [← hread.2]⟩)
      · rename_i hblurt hvests
        simp only [bind_eq_ok, ensure_eq_ok, exists_const, pure_eq_ok] at hread
        exact .inr (.inr ⟨hblurt, hvests, hread.1, by rw [← hread.2, lor_control hread.1]⟩)
  · rintro ⟨hrange, hdigit, hnames⟩
    refine ⟨s.assetNum, ⟨hrange, _, ⟨by omega, rfl⟩, hdigit, ?_⟩, rfl⟩
    rcases hnames with ⟨hdata, rfl, rfl⟩ | ⟨hdata, rfl, rfl⟩ | ⟨hblurt, hvests, hdecimals, rfl⟩
    · rw [if_pos hdata]
      rfl
    · rw [if_neg (by omega), if_pos hdata]
      rfl
    · rw [if_neg hblurt, if_neg hvests, Outcome.ensure, if_pos hdecimals, lor_control hdecimals]
      rfl

theorem Generated.naiDataDigits_eq (h : s.Generated) : s.naiDataDigits = s.assetNum / 2 ^ 5 := by
  rw [naiDataDigits, if_neg h.ne_blurt, if_neg h.ne_vests]

theorem Generated.isValid (h : s.Generated) : s.IsValid :=
  .inr (.inr ⟨h.digits.1, h.digits.2, h.control, h.precision⟩)

/-- Symbols with data digits in range are not the built-in ones, whose numbers lie above them. -/
theorem generated_mk {digits decimalPlaces : Nat} (hdigits : 1 ≤ digits ∧ digits ≤ 99999999)
    (hdecimals : decimalPlaces ≤ 12) :
    (⟨digits * 2 ^ 5 + 2 ^ 4 + decimalPlaces⟩ : AssetSymbol).Generated := by
  have hlarge : ∀ num, digits * 2 ^ 5 + 2 ^ 4 + decimalPlaces = num → num < 3200000032 := by
    rintro num rfl
    omega
  refine ⟨fun h => ?_, fun h => ?_, ?_, ?_, ?_⟩
  · exact absurd (hlarge _ (congrArg assetNum h)) (by decide)
  · exact absurd (hlarge _ (congrArg assetNum h)) (by decide)
  · dsimp only
    omega
  · dsimp only
    omega
  · unfold decimals
    dsimp only
    omega

/-- The symbol that is named has the digits and the precision of its name. -/
theorem Names.naiDataDigits_eq {digits decimalPlaces : Nat} (h : Names digits decimalPlaces s)
    (hdigits : 1 ≤ digits ∧ digits ≤ 99999999) :
    s.IsValid ∧ s.naiDataDigits = digits ∧ s.decimals = decimalPlaces := by
  cases h with
  | blurt => exact ⟨.inl rfl, rfl, rfl⟩
  | vests => exact ⟨.inr (.inl rfl), rfl, rfl⟩
  | generated hblurt hvests hdecimals =>
      have hgenerated := generated_mk hdigits hdecimals
      refine ⟨hgenerated.isValid, ?_, ?_⟩
      · rw [hgenerated.naiDataDigits_eq]
        dsimp only
        omega
      · unfold decimals
        dsimp only
        omega

/-- A generated symbol whose data digits are those of a built-in one. -/
def Shadowed (s : AssetSymbol) : Prop :=
  s ≠ blurt ∧ s ≠ vests ∧ s.assetNum / 2 ^ 5 ∈ [2, 3]

/-- The bytes and the identifier of a symbol are read back as that symbol. -/
def RoundTrips (s : AssetSymbol) : Prop :=
  (∀ rest, unpack (s.pack ++ rest) = .ok (s, rest)) ∧
    ∃ x, s.nai = .ok x ∧ fromNai x s.decimals = .ok s

theorem names_iff (h : s.IsValid) : Names s.naiDataDigits s.decimals s ↔ ¬ s.Shadowed := by
  rw [Names.iff]
  rcases h.cases with rfl | rfl | hgenerated
  · exact iff_of_true (.inl ⟨rfl, rfl, rfl⟩) fun hshadowed => hshadowed.1 rfl
  · exact iff_of_true (.inr (.inl ⟨rfl, rfl, rfl⟩)) fun hshadowed => hshadowed.2.1 rfl
  · have hnum := hgenerated.assetNum_eq
    have heq : s = ⟨s.assetNum / 2 ^ 5 * 2 ^ 5 + 2 ^ 4 + s.decimals⟩ :=
      congrArg AssetSymbol.mk hnum
    have hdata := hgenerated.naiDataDigits_eq
    have hprecision := hgenerated.precision
    simp only [hdata, Shadowed, hgenerated.ne_blurt, hgenerated.ne_vests, hprecision, ← heq,
      and_false, false_or, and_true, ne_eq, not_false_eq_true, true_and, List.mem_cons,
      List.not_mem_nil, or_false, not_or]

theorem roundTrips_iff (h : s.IsValid) : s.RoundTrips ↔ ¬ s.Shadowed := by
  have hcheck := dammChecksum8digit_le s.naiDataDigits
  have hdata : (s.naiDataDigits * 10 + dammChecksum8digit s.naiDataDigits) / 10 =
      s.naiDataDigits := by omega
  have hdigit : (s.naiDataDigits * 10 + dammChecksum8digit s.naiDataDigits) % 10 =
      dammChecksum8digit s.naiDataDigits := by omega
  rw [← names_iff h, RoundTrips, nai_eq h]
  constructor
  · rintro ⟨-, x, hx, hfrom⟩
    rw [Except.ok.injEq] at hx
    subst hx
    rw [fromNai_eq_ok, hdata] at hfrom
    exact hfrom.2.2
  · intro hnames
    refine ⟨unpack_pack h, _, rfl, ?_⟩
    rw [fromNai_eq_ok, hdata, hdigit]
    exact ⟨naiDataDigits_range h, rfl, hnames⟩

/-! ## Symbols of one name -/

/-- The generated symbol with the digits and the precision of a built-in one. -/
inductive Twins : AssetSymbol → AssetSymbol → Prop
  | blurt : Twins blurt ⟨83⟩
  | vests : Twins vests ⟨118⟩

theorem padded_inj {x y : Nat} (hx : x < 10 ^ 9) (hy : y < 10 ^ 9)
    (h : Decimal.padded 9 x = Decimal.padded 9 y) : x = y := by
  have hparse := congrArg Decimal.parse h
  rwa [Decimal.parse_padded, Decimal.parse_padded, Nat.mod_eq_of_lt hx, Nat.mod_eq_of_lt hy]
    at hparse

theorem toNaiString_eq (h : s.IsValid) :
    s.toNaiString = .ok ('@' :: '@' ::
      Decimal.padded 9 (s.naiDataDigits * 10 + dammChecksum8digit s.naiDataDigits)) := by
  rw [toNaiString, nai_eq h]
  rfl

/-- Two symbols print the same if they have the same data digits. -/
theorem toNaiString_eq_iff (hs : s.IsValid) (ht : t.IsValid) :
    s.toNaiString = t.toNaiString ↔ s.naiDataDigits = t.naiDataDigits := by
  have hsCheck := dammChecksum8digit_le s.naiDataDigits
  have htCheck := dammChecksum8digit_le t.naiDataDigits
  have hsRange := naiDataDigits_range hs
  have htRange := naiDataDigits_range ht
  rw [toNaiString_eq hs, toNaiString_eq ht]
  constructor
  · intro h
    have hpadded := (List.cons.inj (List.cons.inj (Except.ok.inj h)).2).2
    have hnum := padded_inj (by omega) (by omega) hpadded
    omega
  · intro h
    rw [h]

theorem twins_of_generated {digits decimalPlaces : Nat} (hs : Names digits decimalPlaces s)
    (hshadowed : t.Shadowed) (ht : t.IsValid)
    (hdigits : t.naiDataDigits = digits) (hdecimals : t.decimals = decimalPlaces) : Twins s t := by
  have hgenerated := (ht.cases.resolve_left hshadowed.1).resolve_left hshadowed.2.1
  have hnum := hgenerated.assetNum_eq
  have hmem := hshadowed.2.2
  rw [hgenerated.naiDataDigits_eq] at hdigits
  rw [hdigits] at hmem hnum
  rw [hdecimals] at hnum
  cases hs with
  | blurt =>
      have heq : t = ⟨83⟩ := congrArg AssetSymbol.mk hnum
      exact heq ▸ .blurt
  | vests =>
      have heq : t = ⟨118⟩ := congrArg AssetSymbol.mk hnum
      exact heq ▸ .vests
  | generated hblurt hvests =>
      simp only [List.mem_cons, List.not_mem_nil, or_false] at hmem
      exact absurd hmem (by tauto)

/-- Two symbols are printed alike if one has the name of a built-in symbol, which the other is. -/
theorem same_name_iff (hs : s.IsValid) (ht : t.IsValid) (hne : s ≠ t) :
    s.toNaiString = t.toNaiString ∧ s.decimals = t.decimals ↔ Twins s t ∨ Twins t s := by
  rw [toNaiString_eq_iff hs ht]
  constructor
  · rintro ⟨hdigits, hdecimals⟩
    by_cases hsShadowed : s.Shadowed
    · by_cases htShadowed : t.Shadowed
      · have hsGenerated := (hs.cases.resolve_left hsShadowed.1).resolve_left hsShadowed.2.1
        have htGenerated := (ht.cases.resolve_left htShadowed.1).resolve_left htShadowed.2.1
        rw [hsGenerated.naiDataDigits_eq, htGenerated.naiDataDigits_eq] at hdigits
        have hsNum := hsGenerated.assetNum_eq
        rw [hdigits, hdecimals, ← htGenerated.assetNum_eq] at hsNum
        exact absurd (congrArg AssetSymbol.mk hsNum) hne
      · exact .inr (twins_of_generated ((names_iff ht).mpr htShadowed) hsShadowed hs hdigits hdecimals)
    · have hsNames := (names_iff hs).mpr hsShadowed
      by_cases htShadowed : t.Shadowed
      · exact .inl (twins_of_generated hsNames htShadowed ht hdigits.symm hdecimals.symm)
      · have htNames := (names_iff ht).mpr htShadowed
        rw [← hdigits, ← hdecimals] at htNames
        exact absurd (hsNames.unique htNames) hne
  · rintro (h | h) <;> cases h <;> exact ⟨rfl, rfl⟩

/-! ## Identifiers as texts -/

/-- What `boost::lexical_cast` reads as a `uint32_t`: digits, and a sign may stand before them. -/
def ReadsUInt32 (lexicalCast : List Char → Option Nat) : Prop :=
  ∀ text n, lexicalCast text = some n → ∃ digits, (∀ c ∈ digits, Decimal.isDigit c = true) ∧
    Decimal.parse digits < 2 ^ 32 ∧
      (text = digits ∧ n = Decimal.parse digits ∨
        text = '+' :: digits ∧ n = Decimal.parse digits ∨
        text = '-' :: digits ∧ n = (2 ^ 32 - Decimal.parse digits) % 2 ^ 32)

/-- A text is accepted for the symbol that it names, and printed as the digits without a sign. -/
theorem toNaiString_of_fromNaiString {lexicalCast : List Char → Option Nat}
    (hcast : ReadsUInt32 lexicalCast) {p : List Char} {decimalPlaces : Nat}
    (h : fromNaiString lexicalCast p decimalPlaces = .ok s) :
    s.toNaiString = .ok p ↔ p[2]? ≠ some '+' := by
  unfold fromNaiString at h
  simp only [bind_eq_ok, ensure_eq_ok, require_eq_ok, exists_const] at h
  obtain ⟨hlength, hprefix, x, hx, hfrom⟩ := h
  obtain ⟨hrange, hdigit, hnames⟩ := fromNai_eq_ok.mp hfrom
  obtain ⟨hvalid, hdata, -⟩ := hnames.naiDataDigits_eq hrange
  have hp : p = '@' :: '@' :: p.drop 2 := by
    rw [← List.take_append_drop 2 p, hprefix]
    rfl
  have hshown : s.toNaiString = .ok ('@' :: '@' :: Decimal.padded 9 x) := by
    rw [toNaiString_eq hvalid, hdata, ← hdigit, Nat.div_add_mod' x 10]
  have hsecond : p[2]? = (p.drop 2)[0]? := by rw [List.getElem?_drop]
  have hwidth : (p.drop 2).length = 9 := by rw [List.length_drop, hlength]
  obtain ⟨digits, hdigits, hsmall, ⟨htext, rfl⟩ | ⟨htext, rfl⟩ | ⟨htext, rfl⟩⟩ := hcast _ _ hx
  · refine iff_of_true ?_ ?_
    · have hsame : Decimal.padded 9 (Decimal.parse digits) = digits := by
        rw [← hwidth, htext]
        exact Decimal.padded_parse hdigits
      rw [hshown, hsame, hp, htext]
    · rw [hsecond, htext]
      intro hplus
      exact absurd (hdigits _ (List.mem_of_getElem? hplus)) (by decide)
  · refine iff_of_false ?_ (not_not.mpr (by rw [hsecond, htext]; rfl))
    rw [hshown, hp, htext]
    intro hsame
    have hpadded := (List.cons.inj (List.cons.inj (Except.ok.inj hsame)).2).2
    have hplus : '+' ∈ Decimal.padded 9 (Decimal.parse digits) := hpadded ▸ List.mem_cons_self
    exact absurd (Decimal.isDigit_of_mem_padded hplus) (by decide)
  · -- A number with a minus sign is too large, or zero.
    exfalso
    have hlt := Decimal.parse_lt hdigits
    have hshort : digits.length = 8 := by
      rw [htext, List.length_cons] at hwidth
      omega
    rw [hshort] at hlt
    rcases Nat.eq_zero_or_pos (Decimal.parse digits) with hzero | hpos
    · rw [hzero] at hrange
      exact absurd hrange (by decide)
    · rw [Nat.mod_eq_of_lt (by omega)] at hrange
      omega

/-- Symbols are read back from their bytes and identifiers except the generated ones with the digits
of a built-in symbol, which share its name, and texts are printed back unless they have a sign. -/
theorem unambiguous_iff (lexicalCast : List Char → Option Nat) (hcast : ReadsUInt32 lexicalCast) :
    (∀ s : AssetSymbol, s.validate = .ok () → (s.RoundTrips ↔ ¬ s.Shadowed)) ∧
      (∀ s t : AssetSymbol, s.validate = .ok () → t.validate = .ok () → s ≠ t →
        (s.toNaiString = t.toNaiString ∧ s.decimals = t.decimals ↔ Twins s t ∨ Twins t s)) ∧
      ∀ (p : List Char) (decimalPlaces : Nat) (s : AssetSymbol),
        fromNaiString lexicalCast p decimalPlaces = .ok s →
          (s.toNaiString = .ok p ↔ p[2]? ≠ some '+') :=
  ⟨fun _ h => roundTrips_iff (validate_eq_ok.mp h),
    fun _ _ hs ht hne => same_name_iff (validate_eq_ok.mp hs) (validate_eq_ok.mp ht) hne,
    fun _ _ _ h => toNaiString_of_fromNaiString hcast h⟩

end AssetSymbol

namespace Sample

/-- A cast of digits, after a plus sign or without one. -/
def unsignedCast (text : List Char) : Option Nat :=
  let digits := if text.head? = some '+' then text.tail else text
  if digits ≠ [] ∧ digits.all Decimal.isDigit = true ∧ Decimal.parse digits < 2 ^ 32 then
    some (Decimal.parse digits)
  else
    none

theorem unsignedCast_reads : AssetSymbol.ReadsUInt32 unsignedCast := by
  intro text n h
  unfold unsignedCast at h
  extract_lets digits at h
  split at h
  · rename_i hdigits
    refine ⟨digits, List.all_eq_true.mp hdigits.2.1, hdigits.2.2, ?_⟩
    have hn : n = Decimal.parse digits := (Option.some.inj h).symm
    by_cases hplus : text.head? = some '+'
    · refine .inr (.inl ⟨?_, hn⟩)
      have hdigits : digits = text.tail := if_pos hplus
      rw [hdigits]
      exact (List.cons_head?_tail hplus).symm
    · exact .inl ⟨(if_neg hplus).symm, hn⟩
  · cases h

/-- The identifier of the built-in symbol is also read with a sign, without which it is printed. -/
theorem blurt_identifier : AssetSymbol.RoundTrips AssetSymbol.blurt ∧
    AssetSymbol.blurt.toNaiString ≠ .ok "@@+00000021".toList :=
  have h := AssetSymbol.unambiguous_iff unsignedCast unsignedCast_reads
  ⟨(h.1 AssetSymbol.blurt rfl).mpr fun hshadowed => hshadowed.1 rfl,
    fun heq => (h.2.2 "@@+00000021".toList 3 AssetSymbol.blurt
      (eq_ok_of_toOption (by decide +kernel))).mp heq (by decide +kernel)⟩

/-- A symbol that is accepted and has the name of the built-in one, which is read in its place. -/
theorem shadow_not_roundTrips : AssetSymbol.validate ⟨83⟩ = .ok () ∧
    ¬ AssetSymbol.RoundTrips ⟨83⟩ ∧ (⟨83⟩ : AssetSymbol) ≠ AssetSymbol.blurt ∧
      AssetSymbol.toNaiString ⟨83⟩ = AssetSymbol.blurt.toNaiString ∧
        AssetSymbol.decimals ⟨83⟩ = AssetSymbol.blurt.decimals := by
  refine ⟨rfl, ?_, by decide, rfl, rfl⟩
  rintro ⟨-, x, hx, hfrom⟩
  have hx : 21 = x := Except.ok.inj hx
  subst hx
  have hread : AssetSymbol.fromNai 21 (AssetSymbol.decimals ⟨83⟩) = .ok AssetSymbol.blurt := rfl
  rw [hread] at hfrom
  exact absurd (Except.ok.inj hfrom) (by decide)

end Sample

end Blurt
