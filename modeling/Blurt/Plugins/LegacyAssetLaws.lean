import Blurt.Plugins.LegacyAsset

/-! # What legacy amounts are read as

The parser joins digits, signs and zeros before it reads them. What it reads is the number that the
text writes, unless that is a debt with a fraction or a zero byte cuts it short.
-/

namespace Blurt

namespace LegacyAsset

open Outcome

/-! ## The parts of a text -/

/-- The number of an amount, which ends at the first space. -/
def numberText (s : List Char) : List Char := (trim s).takeWhile (· ≠ ' ')

/-- What stands after the point of the number. -/
def fractionText (s : List Char) : List Char := ((numberText s).dropWhile (· ≠ '.')).drop 1

/-- The letters of the symbol. -/
def symbolText (s : List Char) : List Char :=
  ((cStr ((trim s).dropWhile (· ≠ ' '))).dropWhile isBlank).takeWhile Char.isUpper

/-- The text writes the amount, in units of the last decimal of its symbol. -/
def Writes (s : List Char) (a : Asset) : Prop :=
  symbolText s = assetNumToString a.symbol ∧ ∃ sign whole fraction,
    numberText s = sign ++ (whole ++ '.' :: fraction) ∧ sign ∈ [[], ['+'], ['-']] ∧
      (∀ c ∈ whole ++ fraction, Decimal.isDigit c = true) ∧ fraction.length = a.symbol.decimals ∧
        a.amount = (if sign = ['-'] then -1 else 1) * (Decimal.parse (whole ++ fraction) : Int)

/-- The number has no zero byte, and no fraction if it starts with a minus sign. -/
structure Legible (s : List Char) : Prop where
  unbroken : ∀ c ∈ numberText s, c ≠ Char.ofNat 0
  debt : (numberText s).head? = some '-' → ∀ c ∈ fractionText s, c = '0'

/-! ## Symbols -/

/-- Bytes that are not zero can be told from their number. -/
theorem nameU64_inj {first second : List Char} (hfirst : ∀ c ∈ first, 0 < c.toNat ∧ c.toNat < 2 ^ 8)
    (hsecond : ∀ c ∈ second, 0 < c.toNat ∧ c.toNat < 2 ^ 8) (h : nameU64 first = nameU64 second) :
    first = second := by
  induction first generalizing second with
  | nil =>
      cases second with
      | nil => rfl
      | cons d second =>
          have hd := hsecond d List.mem_cons_self
          simp only [nameU64] at h
          omega
  | cons c first ih =>
      have hc := hfirst c List.mem_cons_self
      cases second with
      | nil =>
          simp only [nameU64] at h
          omega
      | cons d second =>
          have hd := hsecond d List.mem_cons_self
          simp only [nameU64] at h
          have hcode : c.toNat = d.toNat := by omega
          have hrest := ih (fun x hx => hfirst x (List.mem_cons_of_mem c hx))
            (fun x hx => hsecond x (List.mem_cons_of_mem d hx)) (by omega)
          rw [Char.toNat_inj.mp hcode, hrest]

theorem isUpper_code {c : Char} (h : c.isUpper = true) : 0 < c.toNat ∧ c.toNat < 2 ^ 8 := by
  simp only [Char.isUpper, decide_eq_true_eq] at h
  obtain ⟨hlow, hhigh⟩ := h
  have hlow : 65 ≤ c.toNat := hlow
  have hhigh : c.toNat ≤ 90 := hhigh
  omega

/-- What is read as a symbol is its name, with its decimals. -/
theorem stringToAssetNum_ok {p : List Char} {decimals : Nat} {symbol : AssetSymbol}
    (h : stringToAssetNum p decimals = .ok symbol) :
    (symbol = .blurt ∨ symbol = .vests) ∧ decimals = symbol.decimals ∧
      ((cStr p).dropWhile isBlank).takeWhile Char.isUpper = assetNumToString symbol := by
  have hupper : ∀ c ∈ ((cStr p).dropWhile isBlank).takeWhile Char.isUpper,
      0 < c.toNat ∧ c.toNat < 2 ^ 8 := fun c hc => isUpper_code (List.mem_takeWhile_imp hc)
  have hblurt : ∀ c ∈ "BLURT".toList, c.isUpper = true :=
    List.takeWhile_eq_self_iff.mp (by decide)
  have hvests : ∀ c ∈ "VESTS".toList, c.isUpper = true :=
    List.takeWhile_eq_self_iff.mp (by decide)
  unfold stringToAssetNum at h
  dsimp only at h
  obtain ⟨-, -, h⟩ := bind_eq_ok.mp h
  split at h
  · rename_i hname
    obtain ⟨⟨⟩, hdecimals, h⟩ := bind_eq_ok.mp h
    obtain ⟨read, hread, h⟩ := bind_eq_ok.mp h
    obtain rfl := pure_eq_ok.mp hread
    obtain ⟨⟨⟩, -, h⟩ := bind_eq_ok.mp h
    obtain rfl := pure_eq_ok.mp h
    exact ⟨.inl rfl, ensure_eq_ok.mp hdecimals,
      nameU64_inj hupper (fun c hc => isUpper_code (hblurt c hc)) hname⟩
  · split at h
    · rename_i hname
      obtain ⟨⟨⟩, hdecimals, h⟩ := bind_eq_ok.mp h
      obtain ⟨read, hread, h⟩ := bind_eq_ok.mp h
      obtain rfl := pure_eq_ok.mp hread
      obtain ⟨⟨⟩, -, h⟩ := bind_eq_ok.mp h
      obtain rfl := pure_eq_ok.mp h
      exact ⟨.inr rfl, ensure_eq_ok.mp hdecimals,
        nameU64_inj hupper (fun c hc => isUpper_code (hvests c hc)) hname⟩
    · cases h

/-! ## Accepted texts -/

theorem find_some {c : Char} {s : List Char} {i : Nat} (h : find c s = some i) :
    ∃ before after, s = before ++ c :: after ∧ before.length = i ∧ ∀ x ∈ before, x ≠ c := by
  unfold find at h
  induction s generalizing i with
  | nil => cases h
  | cons x s ih =>
      rw [List.findIdx?_cons] at h
      split at h
      · rename_i hx
        cases h
        exact ⟨[], s, by rw [← of_decide_eq_true hx, List.nil_append], rfl, by simp⟩
      · rename_i hx
        obtain ⟨j, hj, rfl⟩ := Option.map_eq_some_iff.mp h
        obtain ⟨before, after, rfl, rfl, hbefore⟩ := ih hj
        refine ⟨x :: before, after, rfl, rfl, fun y hy => ?_⟩
        rcases List.mem_cons.mp hy with rfl | hy
        · simpa using hx
        · exact hbefore y hy

theorem toInt64_ok {s : List Char} {value : Int} (h : toInt64 s = .ok value) :
    ((∀ c ∈ (splitSign (cStr s)).2, Decimal.isDigit c = true) ∧ InInt64 value) ∧
      value = (if (splitSign (cStr s)).1 then -1 else 1) *
        (Decimal.parse (splitSign (cStr s)).2 : Int) := by
  have hvalue : (if (splitSign (cStr s)).1 then -(Decimal.parse (splitSign (cStr s)).2 : Int)
      else Decimal.parse (splitSign (cStr s)).2) =
        (if (splitSign (cStr s)).1 then -1 else 1) * (Decimal.parse (splitSign (cStr s)).2 : Int) := by
    rw [ite_mul, neg_one_mul, one_mul]
  unfold toInt64 at h
  dsimp only at h
  rw [hvalue] at h
  obtain ⟨⟨-, hdigits, hfits⟩, hread⟩ | ⟨-, hthrown⟩ := ite_eq_iff.mp h
  · injection hread with hread
    rw [hread] at hfits
    exact ⟨⟨List.all_eq_true.mp hdigits, hfits⟩, hread.symm⟩
  · cases hthrown

theorem decimalAmount_ok {symbol : AssetSymbol} {whole fraction : List Char} {a : Asset}
    (h : decimalAmount symbol whole fraction = .ok a) :
    ∃ amount value, toInt64 (whole ++ Decimal.padded symbol.decimals 0) = .ok amount ∧
      toInt64 fraction = .ok value ∧
        ¬ (0 < amount ∧ 0 < wrapInt64 (value - precision symbol) ∧
          wrapInt64 (amount + wrapInt64 (value - precision symbol)) < 0) ∧
          a = ⟨wrapInt64 (amount + wrapInt64 (value - precision symbol)), symbol⟩ := by
  unfold decimalAmount at h
  dsimp only at h
  rw [precision_text] at h
  obtain ⟨amount, hamount, h⟩ := bind_eq_ok.mp h
  obtain ⟨value, hvalue, h⟩ := bind_eq_ok.mp h
  obtain ⟨⟨⟩, hchecked, h⟩ := bind_eq_ok.mp h
  exact ⟨amount, value, hamount, hvalue, (ensure_eq_ok.mp hchecked).1, (pure_eq_ok.mp h).symm⟩

/-- An accepted text has a point, a space after it and a symbol with as many decimals. -/
theorem fromString_ok {s : List Char} {a : Asset} (h : fromString s = .ok a) :
    ∃ whole fraction name, trim s = whole ++ '.' :: (fraction ++ ' ' :: name) ∧
      (∀ c ∈ whole, c ≠ ' ' ∧ c ≠ '.') ∧ (∀ c ∈ fraction, c ≠ ' ') ∧
        stringToAssetNum name (fraction.length % 2 ^ 8) = .ok a.symbol ∧
          decimalAmount a.symbol whole ('1' :: fraction) = .ok a := by
  unfold fromString at h
  dsimp only at h
  obtain ⟨spacePos, hspace, h⟩ := bind_eq_ok.mp h
  obtain ⟨before, name, htext, rfl, hbefore⟩ := find_some (require_eq_ok.mp hspace)
  have hname : (trim s).drop (before.length + 1) = name := by
    rw [htext, ← List.drop_drop, List.drop_left]
    rfl
  split at h
  · rename_i dotPos hdot
    obtain ⟨whole, after, hsplit, rfl, hwhole⟩ := find_some hdot
    obtain ⟨⟨⟩, hlt, h⟩ := bind_eq_ok.mp h
    have hlt := ensure_eq_ok.mp hlt
    obtain ⟨symbol, hsymbol, h⟩ := bind_eq_ok.mp h
    -- the point is in what stands before the space
    obtain ⟨fraction, rfl⟩ : ∃ fraction, before = whole ++ '.' :: fraction := by
      have hlonger : whole ++ ['.'] <+: trim s := ⟨after, by rw [hsplit, List.append_assoc]; rfl⟩
      have hprefix : whole ++ ['.'] <+: before := by
        refine List.prefix_of_prefix_length_le hlonger ⟨' ' :: name, htext.symm⟩ ?_
        rw [List.length_append, List.length_singleton]
        omega
      obtain ⟨fraction, rfl⟩ := hprefix
      exact ⟨fraction, by rw [List.append_assoc]; rfl⟩
    have hall : trim s = whole ++ '.' :: (fraction ++ ' ' :: name) := by
      rw [htext, List.append_assoc]
      rfl
    have htake : (trim s).take whole.length = whole := by
      rw [hall, List.take_left]
    have hfraction : ((trim s).drop (whole.length + 1)).take
        ((whole ++ '.' :: fraction).length - whole.length - 1) = fraction := by
      have hwidth : (whole ++ '.' :: fraction).length - whole.length - 1 = fraction.length := by
        rw [List.length_append, List.length_cons]
        omega
      rw [hall, ← List.drop_drop, List.drop_left, hwidth]
      exact List.take_left
    rw [hname, hfraction, List.length_cons, Nat.add_sub_cancel] at hsymbol
    rw [htake, hfraction] at h
    obtain ⟨_, _, -, -, -, hamount⟩ := decimalAmount_ok h
    have hkind : a.symbol = symbol := by
      rw [hamount]
    rw [hkind]
    exact ⟨whole, fraction, name, hall, fun c hc => ⟨hbefore c (List.mem_append_left _ hc),
      hwhole c hc⟩, fun c hc => hbefore c (List.mem_append_right _ (List.mem_cons_of_mem _ hc)),
      hsymbol, h⟩
  · -- no symbol is without decimals
    obtain ⟨amount, -, h⟩ := bind_eq_ok.mp h
    obtain ⟨symbol, hsymbol, -⟩ := bind_eq_ok.mp h
    obtain ⟨rfl | rfl, hdecimals, -⟩ := stringToAssetNum_ok hsymbol
    · exact absurd hdecimals (by decide)
    · exact absurd hdecimals (by decide)

/-! ## Numerals -/

theorem splitSign_append (whole : List Char) {zeros : List Char}
    (hzeros : ∀ c ∈ zeros, Decimal.isDigit c = true) :
    splitSign (whole ++ zeros) = ((splitSign whole).1, (splitSign whole).2 ++ zeros) := by
  cases whole with
  | nil => exact splitSign_digits hzeros
  | cons c whole =>
      by_cases hminus : c = '-'
      · subst hminus
        rfl
      · by_cases hplus : c = '+'
        · subst hplus
          rfl
        · simp [splitSign, hminus, hplus]

/-- A text is a sign or nothing, and then what is read as its digits. -/
theorem splitSign_eq (whole : List Char) : ∃ sign, whole = sign ++ (splitSign whole).2 ∧
    sign ∈ [[], ['+'], ['-']] ∧ ((splitSign whole).1 = true ↔ sign = ['-']) := by
  unfold splitSign
  split
  · exact ⟨['-'], by simp⟩
  · exact ⟨['+'], by simp⟩
  · exact ⟨[], by simp⟩

theorem parse_eq_zero {digits : List Char} (hdigits : ∀ c ∈ digits, Decimal.isDigit c = true) :
    Decimal.parse digits = 0 ↔ ∀ c ∈ digits, c = '0' := by
  constructor
  · intro hzero
    have hpadded : ∀ width, ∀ c ∈ Decimal.padded width 0, c = '0' := by
      intro width
      induction width with
      | zero => exact fun c hc => absurd hc List.not_mem_nil
      | succ width ih =>
          intro c hc
          rcases List.mem_append.mp hc with hc | hc
          · exact ih c hc
          · exact List.mem_singleton.mp hc
    rw [← Decimal.padded_parse hdigits, hzero]
    exact hpadded _
  · intro hzeros
    rw [← List.append_nil digits, Decimal.parse_zeros hzeros, Decimal.parse_nil]

/-- What a text without zero bytes is read as: its digits with its sign, and the digits of its
fraction without. -/
theorem decimalAmount_value {symbol : AssetSymbol} {whole fraction : List Char} {a : Asset}
    (hsmall : symbol.decimals ≤ 6) (hlength : fraction.length % 2 ^ 8 = symbol.decimals)
    (hwhole : ∀ c ∈ whole, c ≠ Char.ofNat 0) (hfraction : ∀ c ∈ fraction, c ≠ Char.ofNat 0)
    (h : decimalAmount symbol whole ('1' :: fraction) = .ok a) :
    (∀ c ∈ (splitSign whole).2 ++ fraction, Decimal.isDigit c = true) ∧
      fraction.length = symbol.decimals ∧
        a.amount = (if (splitSign whole).1 then -1 else 1) *
          ((Decimal.parse (splitSign whole).2 * 10 ^ symbol.decimals : Nat) : Int) +
            Decimal.parse fraction := by
  obtain ⟨amount, value, hamount, hvalue, hchecked, rfl⟩ := decimalAmount_ok h
  have hzeros : ∀ c ∈ Decimal.padded symbol.decimals 0, Decimal.isDigit c = true := fun c hc =>
    Decimal.isDigit_of_mem_padded hc
  have hplain : cStr (whole ++ Decimal.padded symbol.decimals 0) =
      whole ++ Decimal.padded symbol.decimals 0 := by
    refine cStr_eq_self fun c hc => ?_
    rcases List.mem_append.mp hc with hc | hc
    · exact hwhole c hc
    · exact ne_nul_of_isDigit (hzeros c hc)
  have hplain' : cStr ('1' :: fraction) = '1' :: fraction := by
    refine cStr_eq_self fun c hc => ?_
    rcases List.mem_cons.mp hc with rfl | hc
    · decide
    · exact hfraction c hc
  have hsign : splitSign ('1' :: fraction) = (false, '1' :: fraction) := rfl
  obtain ⟨⟨hdigits, hlow, hhigh⟩, hread⟩ := toInt64_ok hamount
  rw [hplain, splitSign_append whole hzeros] at hdigits hread
  obtain ⟨⟨hdigits', -, hhigh'⟩, hread'⟩ := toInt64_ok hvalue
  rw [hplain', hsign] at hdigits' hread'
  have hfractionDigits : ∀ c ∈ fraction, Decimal.isDigit c = true := fun c hc =>
    hdigits' c (List.mem_cons_of_mem _ hc)
  have hone : Decimal.parse ('1' :: fraction) = 10 ^ fraction.length + Decimal.parse fraction := by
    rw [← List.singleton_append, Decimal.parse_append]
    exact congrArg (· + _) (Nat.one_mul _)
  rw [if_neg Bool.false_ne_true, one_mul, hone] at hread'
  -- the number of decimals is read modulo 256, but so many digits do not fit
  have hshort : fraction.length < 19 := by
    by_contra hlong
    have hpow : 10 ^ 19 ≤ 10 ^ fraction.length := Nat.pow_le_pow_right (by decide) (not_lt.mp hlong)
    omega
  have hwidth : fraction.length = symbol.decimals := by omega
  have hbound := Decimal.parse_lt hfractionDigits
  have hsix : 10 ^ fraction.length ≤ 10 ^ 6 := Nat.pow_le_pow_right (by decide) (by omega)
  have hnew : wrapInt64 (value - precision symbol) = Decimal.parse fraction := by
    have hdifference : value - precision symbol = Decimal.parse fraction := by
      rw [hread', precision_eq, hwidth]
      omega
    rw [hdifference, wrapInt64_of_lt (by omega) (by omega)]
  rw [hnew] at hchecked ⊢
  have hsum : amount + Decimal.parse fraction < 2 ^ 63 := by
    by_contra hover
    refine hchecked ⟨by omega, by omega, ?_⟩
    unfold wrapInt64
    rw [Int.bmod_def]
    split <;> omega
  refine ⟨fun c hc => ?_, hwidth, ?_⟩
  · rcases List.mem_append.mp hc with hc | hc
    · exact hdigits c (List.mem_append_left _ hc)
    · exact hfractionDigits c hc
  · have hscaled : Decimal.parse ((splitSign whole).2 ++ Decimal.padded symbol.decimals 0) =
        Decimal.parse (splitSign whole).2 * 10 ^ symbol.decimals := by
      rw [Decimal.parse_append, Decimal.parse_padded, Decimal.length_padded, Nat.zero_mod,
        Nat.add_zero]
    rw [Ledger.RdDynamicsParams.wrapInt64_of_inInt64 ⟨by omega, hsum⟩, hread, hscaled]

/-- Two texts are equal if they are equal before and after their first points. -/
theorem parts_inj {before before' after after' : List Char} (hbefore : ∀ c ∈ before, c ≠ '.')
    (hbefore' : ∀ c ∈ before', c ≠ '.') (h : before ++ '.' :: after = before' ++ '.' :: after') :
    before = before' ∧ after = after' := by
  have hlength : before.length = before'.length := by
    have hfind := find_append hbefore after
    rw [h, find_append hbefore' after'] at hfind
    exact (Option.some.inj hfind).symm
  obtain ⟨rfl, hrest⟩ := List.append_inj h hlength
  exact ⟨rfl, (List.cons.inj hrest).2⟩

/-- The parts of an accepted text. -/
structure Parts (s : List Char) (a : Asset) (whole fraction : List Char) : Prop where
  number : numberText s = whole ++ '.' :: fraction
  after : fractionText s = fraction
  letters : symbolText s = assetNumToString a.symbol
  plain : ∀ c ∈ whole, c ≠ '.'
  small : a.symbol.decimals ≤ 6
  decimals : fraction.length % 2 ^ 8 = a.symbol.decimals
  amount : decimalAmount a.symbol whole ('1' :: fraction) = .ok a

theorem exists_parts {s : List Char} {a : Asset} (h : fromString s = .ok a) :
    ∃ whole fraction, Parts s a whole fraction := by
  obtain ⟨whole, fraction, name, htext, hwhole, hfraction, hsymbol, hamount⟩ := fromString_ok h
  obtain ⟨hkind, hdecimals, hname⟩ := stringToAssetNum_ok hsymbol
  have hbefore : ∀ c ∈ whole ++ '.' :: fraction, c ≠ ' ' := by
    intro c hc
    rcases List.mem_append.mp hc with hc | hc
    · exact (hwhole c hc).1
    · rcases List.mem_cons.mp hc with rfl | hc
      · decide
      · exact hfraction c hc
  have hsplit : trim s = (whole ++ '.' :: fraction) ++ ' ' :: name := by
    rw [htext, List.append_assoc]
    rfl
  have hnumber : numberText s = whole ++ '.' :: fraction := by
    rw [numberText, hsplit, List.takeWhile_append_of_pos (fun c hc => decide_eq_true (hbefore c hc)),
      List.takeWhile_cons_of_neg (by decide), List.append_nil]
  have hafter : fractionText s = fraction := by
    rw [fractionText, hnumber, List.dropWhile_append_of_pos
      (fun c hc => decide_eq_true (hwhole c hc).2), List.dropWhile_cons_of_neg (by decide)]
    rfl
  have hletters : symbolText s = assetNumToString a.symbol := by
    have hspace : cStr (' ' :: name) = ' ' :: cStr name := List.takeWhile_cons_of_pos (by decide)
    rw [symbolText, hsplit, List.dropWhile_append_of_pos
      (fun c hc => decide_eq_true (hbefore c hc)), List.dropWhile_cons_of_neg (by decide), hspace,
      List.dropWhile_cons_of_pos (by decide), hname]
  exact ⟨whole, fraction, hnumber, hafter, hletters, fun c hc => (hwhole c hc).2,
    (decimals_bounds hkind).2, hdecimals, hamount⟩

namespace Parts

variable {s whole fraction : List Char} {a : Asset}

theorem value (h : Parts s a whole fraction) (hunbroken : ∀ c ∈ numberText s, c ≠ Char.ofNat 0) :
    (∀ c ∈ (splitSign whole).2 ++ fraction, Decimal.isDigit c = true) ∧
      fraction.length = a.symbol.decimals ∧
        a.amount = (if (splitSign whole).1 then -1 else 1) *
          ((Decimal.parse (splitSign whole).2 * 10 ^ a.symbol.decimals : Nat) : Int) +
            Decimal.parse fraction := by
  rw [h.number] at hunbroken
  exact decimalAmount_value h.small h.decimals
    (fun c hc => hunbroken c (List.mem_append_left _ hc))
    (fun c hc => hunbroken c (List.mem_append_right _ (List.mem_cons_of_mem _ hc))) h.amount

theorem writes (h : Parts s a whole fraction) (hlegible : Legible s) : Writes s a := by
  obtain ⟨hunbroken, hdebt⟩ := hlegible
  obtain ⟨hdigits, hlength, hvalue⟩ := h.value hunbroken
  obtain ⟨sign, hwhole, hsign, hminus⟩ := splitSign_eq whole
  refine ⟨h.letters, sign, (splitSign whole).2, fraction, ?_, hsign, hdigits, hlength, ?_⟩
  · rw [h.number, ← List.append_assoc, ← hwhole]
  · rw [hvalue, Decimal.parse_append, hlength]
    by_cases hneg : sign = ['-']
    · have hzeros : Decimal.parse fraction = 0 := by
        rw [parse_eq_zero fun c hc => hdigits c (List.mem_append_right _ hc), ← h.after]
        refine hdebt ?_
        rw [h.number, hwhole, hneg]
        rfl
      rw [if_pos (hminus.mpr hneg), if_pos hneg, hzeros, Nat.add_zero, Nat.cast_zero, add_zero]
    · rw [if_neg (mt hminus.mp hneg), if_neg hneg, one_mul, one_mul]
      rfl

/-- A text that writes the amount has the parts that are read. -/
theorem legible (h : Parts s a whole fraction) (hwrites : Writes s a) : Legible s := by
  obtain ⟨-, sign, digits, fraction', hwritten, hsign, hdigits, hlength, hvalue⟩ := hwrites
  have hsignChars : ∀ c ∈ sign, (c = '-' → sign = ['-']) ∧ c ≠ '.' ∧ c ≠ Char.ofNat 0 := by
    intro c hc
    rcases (by simpa using hsign : sign = [] ∨ sign = ['+'] ∨ sign = ['-']) with rfl | rfl | rfl
    · exact absurd hc List.not_mem_nil
    · rw [List.mem_singleton.mp hc]
      decide
    · rw [List.mem_singleton.mp hc]
      decide
  have hpoint : ∀ c ∈ sign ++ digits, c ≠ '.' := by
    intro c hc
    rcases List.mem_append.mp hc with hc | hc
    · exact (hsignChars c hc).2.1
    · rintro rfl
      exact absurd (hdigits '.' (List.mem_append_left _ hc)) (by decide)
  rw [h.number, ← List.append_assoc] at hwritten
  obtain ⟨hsigned, rfl⟩ := parts_inj h.plain hpoint hwritten
  have hunbroken : ∀ c ∈ numberText s, c ≠ Char.ofNat 0 := by
    intro c hc
    rw [h.number, hsigned, List.append_assoc] at hc
    rcases List.mem_append.mp hc with hc | hc
    · exact (hsignChars c hc).2.2
    · rcases List.mem_append.mp hc with hc | hc
      · exact ne_nul_of_isDigit (hdigits c (List.mem_append_left _ hc))
      · rcases List.mem_cons.mp hc with rfl | hc
        · decide
        · exact ne_nul_of_isDigit (hdigits c (List.mem_append_right _ hc))
  refine ⟨hunbroken, fun hhead => ?_⟩
  have hminus : sign = ['-'] := by
    rw [h.number, hsigned, List.append_assoc] at hhead
    cases sign with
    | cons c rest => exact (hsignChars c List.mem_cons_self).1 (Option.some.inj hhead)
    | nil =>
        cases digits with
        | nil => exact absurd (Option.some.inj hhead) (by decide)
        | cons c digits =>
            have hdigit := hdigits c (List.mem_append_left _ List.mem_cons_self)
            rw [Option.some.inj hhead] at hdigit
            exact absurd hdigit (by decide)
  have hsplitSign : splitSign whole = (true, digits) := by
    rw [hsigned, hminus]
    rfl
  -- the fraction is read with the other sign
  obtain ⟨-, -, hread⟩ := h.value hunbroken
  rw [hvalue, if_pos hminus, hsplitSign, if_pos rfl, Decimal.parse_append, hlength] at hread
  rw [h.after, ← parse_eq_zero fun c hc => hdigits c (List.mem_append_right _ hc)]
  push_cast at hread
  omega

end Parts

/-! ## Exact amounts -/

/-- What is accepted is the amount that the text writes, if its number has no zero byte and no
fraction after a minus sign; and what is written is read back, unless it is a debt with a
fraction. -/
theorem legacyAmounts_exact (s : List Char) (a : Asset) :
    (∀ read, fromString s = .ok read → (Writes s read ↔ Legible s)) ∧
      ((a.symbol = .blurt ∨ a.symbol = .vests) → InInt64 a.amount →
        (fromString (toString a) = .ok a ↔ 0 ≤ a.amount ∨ precision a.symbol ∣ a.amount)) := by
  constructor
  · intro read h
    obtain ⟨whole, fraction, hparts⟩ := exists_parts h
    exact ⟨hparts.legible, hparts.writes⟩
  · intro hsymbol hamount
    refine ⟨fun hback => ?_, fromString_toString_of_nonneg hsymbol hamount⟩
    by_contra hlost
    rw [not_or, not_le] at hlost
    rw [fromString_toString_of_debt hsymbol hlost.1 hlost.2] at hback
    cases hback

end LegacyAsset

namespace Sample

open LegacyAsset

theorem fromString_blurt {whole fraction : List Char} (hwhole : ∀ c ∈ whole, c ≠ ' ' ∧ c ≠ '.')
    (hfraction : ∀ c ∈ fraction, Decimal.isDigit c = true) (hlength : fraction.length = 3)
    (htrim : trim (whole ++ '.' :: (fraction ++ ' ' :: "BLURT".toList)) =
      whole ++ '.' :: (fraction ++ ' ' :: "BLURT".toList)) :
    fromString (whole ++ '.' :: (fraction ++ ' ' :: "BLURT".toList)) =
      decimalAmount .blurt whole ('1' :: fraction) := by
  have hsymbol : stringToAssetNum "BLURT".toList (3 % 2 ^ 8) = .ok .blurt :=
    stringToAssetNum_symbol (.inl rfl) 3
  rw [fromString_parts hwhole hfraction htrim, hlength, hsymbol, Outcome.ok_bind]

/-- Seven BLURT and a half, with a sign. -/
def signedAmount : List Char := ['+', '7'] ++ '.' :: (['5', '0', '0'] ++ ' ' :: "BLURT".toList)

theorem signedAmount_exact : fromString signedAmount = .ok (Asset.blurt 7500) ∧
    Writes signedAmount (Asset.blurt 7500) ∧
      fromString (toString (Asset.blurt 7500)) = .ok (Asset.blurt 7500) := by
  have hread : fromString signedAmount = .ok (Asset.blurt 7500) := by
    rw [signedAmount, fromString_blurt (by simp) (by simp [Decimal.isDigit]) rfl (by decide),
      decimalAmount, precision_text]
    decide
  have hnumber : numberText signedAmount = ['+', '7', '.', '5', '0', '0'] := by decide
  have hunbroken : ∀ c ∈ numberText signedAmount, c ≠ Char.ofNat 0 := by
    rw [hnumber]
    simp
  obtain ⟨hwrites, hback⟩ := legacyAmounts_exact signedAmount (Asset.blurt 7500)
  refine ⟨hread, (hwrites _ hread).mpr ⟨hunbroken, fun hhead => ?_⟩, ?_⟩
  · exact absurd (hnumber ▸ hhead) (by decide)
  · exact (hback (.inl rfl) ⟨by decide, by decide⟩).mpr (.inl (by decide))

/-- A debt of half a BLURT. -/
def halfDebt : List Char := ['-', '0'] ++ '.' :: (['5', '0', '0'] ++ ' ' :: "BLURT".toList)

/-- It is read as half a BLURT. -/
theorem halfDebt_wrong : fromString halfDebt = .ok (Asset.blurt 500) ∧
    ¬ Writes halfDebt (Asset.blurt 500) := by
  have hread : fromString halfDebt = .ok (Asset.blurt 500) := by
    rw [halfDebt, fromString_blurt (by simp) (by simp [Decimal.isDigit]) rfl (by decide),
      decimalAmount, precision_text]
    decide
  refine ⟨hread, fun hwrites => ?_⟩
  obtain ⟨whole, fraction, hparts⟩ := exists_parts hread
  have hzeros := (hparts.legible hwrites).debt (by decide)
  exact absurd (hzeros '5' (by decide)) (by decide)

end Sample

end Blurt
