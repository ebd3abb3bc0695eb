import Blurt.Foundation.LittleEndian
import Mathlib.Data.List.TakeWhile

/-! # Fixed strings

A `fixed_string` holds the bytes of a text in integers, highest byte first, so that comparing the
integers compares the texts. Memory is that of a little-endian machine.
-/

namespace Blurt

namespace FixedString

open LittleEndian

/-- What `fixed_string_impl` needs of its storage type. -/
class Storage (S : Type) where
  /-- `sizeof` -/
  size : Nat
  /-- The value at some bytes of memory. -/
  ofMemory : List UInt8 → S
  memory : S → List UInt8
  /-- `endian_reverse`, which `big_to_native` and `native_to_big` are. -/
  endianReverse : S → S
  /-- `operator <` -/
  lt : S → S → Bool

/-- A storage whose order is that of its bytes, the highest first. -/
class LawfulStorage (S : Type) extends Storage S where
  length_memory : ∀ s : S, (memory s).length = size
  memory_ofMemory : ∀ bytes, bytes.length = size → memory (ofMemory bytes) = bytes
  reverse_reverse : ∀ s : S, endianReverse (endianReverse s) = s
  lt_iff : ∀ s t : S, lt s t = true ↔ memory (endianReverse s) < memory (endianReverse t)
  eq_iff : ∀ s t : S, s = t ↔ memory (endianReverse s) = memory (endianReverse t)

/-! ## The storage types -/

instance : Storage UInt64 where
  size := 8
  ofMemory bytes := UInt64.ofNat (decode bytes)
  memory w := encode 8 w.toNat
  endianReverse w := UInt64.ofNat (decode (encode 8 w.toNat).reverse)
  lt v w := v < w

/-- `fc::uint128` -/
structure UInt128 where
  hi : UInt64
  lo : UInt64
  deriving DecidableEq

instance : Storage UInt128 where
  size := 16
  ofMemory bytes := ⟨Storage.ofMemory (bytes.take 8), Storage.ofMemory (bytes.drop 8)⟩
  memory u := Storage.memory u.hi ++ Storage.memory u.lo
  endianReverse u := ⟨Storage.endianReverse u.hi, Storage.endianReverse u.lo⟩
  lt u v := if u.hi = v.hi then u.lo < v.lo else u.hi < v.hi

/-- `erpair` -/
structure ErPair (A B : Type) where
  first : A
  second : B
  deriving DecidableEq

instance {A B : Type} [Storage A] [Storage B] : Storage (ErPair A B) where
  size := Storage.size A + Storage.size B
  ofMemory bytes :=
    ⟨Storage.ofMemory (bytes.take (Storage.size A)), Storage.ofMemory (bytes.drop (Storage.size A))⟩
  memory p := Storage.memory p.first ++ Storage.memory p.second
  endianReverse p := ⟨Storage.endianReverse p.first, Storage.endianReverse p.second⟩
  -- a comparison of tuples
  lt p q := Storage.lt p.first q.first ||
    !Storage.lt q.first p.first && Storage.lt p.second q.second

/-! ## Fixed strings -/

end FixedString

open FixedString

/-- `fixed_string_impl` -/
structure FixedString (S : Type) where
  data : S

namespace FixedString

section Conversions

variable {S : Type} [Storage S]

/-- The constructor from a `std::string`. The memory of the storage is zero at first. -/
def ofString (str : List UInt8) : FixedString S :=
  let d : S := Storage.ofMemory
    (if str.length ≤ Storage.size S then str ++ List.replicate (Storage.size S - str.length) 0
    else str.take (Storage.size S))
  ⟨Storage.endianReverse d⟩

/-- `operator std::string` -/
def toString (s : FixedString S) : List UInt8 :=
  (Storage.memory (Storage.endianReverse s.data)).takeWhile (· ≠ 0)

/-- `size` -/
def size (s : FixedString S) : Nat :=
  ((Storage.memory (Storage.endianReverse s.data)).takeWhile (· ≠ 0)).length

/-- `operator <` -/
def lt (s t : FixedString S) : Bool := Storage.lt s.data t.data

end Conversions

/-- The storage of 16, 24 and 32 bytes. -/
abbrev Storage16 := UInt128
abbrev Storage24 := ErPair UInt128 UInt64
abbrev Storage32 := ErPair UInt128 UInt128

/-! ## The laws of the storage types -/

open LittleEndian

theorem toNat_lt (w : UInt64) : w.toNat < 256 ^ 8 := w.toNat_lt

theorem endianReverse_memory (w : UInt64) :
    Storage.memory (Storage.endianReverse w) = (encode 8 w.toNat).reverse := by
  have hlength : ((encode 8 w.toNat).reverse).length = 8 := by
    rw [List.length_reverse, length_encode]
  have hlt : decode (encode 8 w.toNat).reverse < 2 ^ 64 := by
    have hlt := decode_lt (encode 8 w.toNat).reverse
    rwa [hlength] at hlt
  change encode 8 (UInt64.ofNat (decode (encode 8 w.toNat).reverse)).toNat = _
  rw [UInt64.toNat_ofNat', Nat.mod_eq_of_lt hlt]
  conv_lhs => rw [← hlength]
  exact encode_decode _

instance : LawfulStorage UInt64 where
  length_memory w := length_encode 8 _
  memory_ofMemory bytes hsize := by
    have hlt : decode bytes < 2 ^ 64 := by
      have hlt := decode_lt bytes
      rwa [hsize] at hlt
    change encode 8 (UInt64.ofNat (decode bytes)).toNat = bytes
    rw [UInt64.toNat_ofNat', Nat.mod_eq_of_lt hlt]
    conv_lhs => rw [← show bytes.length = 8 from hsize]
    exact encode_decode bytes
  reverse_reverse w := by
    have hmemory : encode 8 (Storage.endianReverse w).toNat = (encode 8 w.toNat).reverse :=
      endianReverse_memory w
    change UInt64.ofNat (decode (encode 8 (Storage.endianReverse w).toNat).reverse) = w
    rw [hmemory, List.reverse_reverse, decode_encode (toNat_lt w), UInt64.ofNat_toNat]
  lt_iff v w := by
    rw [endianReverse_memory, endianReverse_memory,
      reverse_encode_lt_iff (toNat_lt v) (toNat_lt w), ← UInt64.lt_iff_toNat_lt]
    exact decide_eq_true_iff
  eq_iff v w := by
    rw [endianReverse_memory, endianReverse_memory, List.reverse_inj]
    constructor
    · exact fun h => congrArg (fun w : UInt64 => encode 8 w.toNat) h
    · intro h
      rw [← UInt64.toNat_inj, ← decode_encode (toNat_lt v), h, decode_encode (toNat_lt w)]

/-- Two parts one after the other. -/
theorem pair_lt_iff {A B : Type} [LawfulStorage A] [LawfulStorage B] (a a' : A) (b b' : B) :
    Storage.memory (Storage.endianReverse a) ++ Storage.memory (Storage.endianReverse b) <
        Storage.memory (Storage.endianReverse a') ++ Storage.memory (Storage.endianReverse b') ↔
      Storage.lt a a' = true ∨ a = a' ∧ Storage.lt b b' = true := by
  rw [append_lt_append_iff (by rw [LawfulStorage.length_memory, LawfulStorage.length_memory]),
    LawfulStorage.lt_iff, LawfulStorage.lt_iff, LawfulStorage.eq_iff a a']

theorem pair_eq_iff {A B : Type} [LawfulStorage A] [LawfulStorage B] (a a' : A) (b b' : B) :
    Storage.memory (Storage.endianReverse a) ++ Storage.memory (Storage.endianReverse b) =
        Storage.memory (Storage.endianReverse a') ++ Storage.memory (Storage.endianReverse b') ↔
      a = a' ∧ b = b' := by
  constructor
  · intro h
    obtain ⟨hfirst, hsecond⟩ := List.append_inj h
      (by rw [LawfulStorage.length_memory, LawfulStorage.length_memory])
    exact ⟨(LawfulStorage.eq_iff _ _).mpr hfirst, (LawfulStorage.eq_iff _ _).mpr hsecond⟩
  · rintro ⟨rfl, rfl⟩
    rfl

/-- Memory of two parts. -/
theorem pair_memory {A B : Type} [LawfulStorage A] [LawfulStorage B] {bytes : List UInt8}
    (h : bytes.length = Storage.size A + Storage.size B) :
    Storage.memory (Storage.ofMemory (bytes.take (Storage.size A)) : A) ++
      Storage.memory (Storage.ofMemory (bytes.drop (Storage.size A)) : B) = bytes := by
  rw [LawfulStorage.memory_ofMemory _ (by rw [List.length_take]; omega),
    LawfulStorage.memory_ofMemory _ (by rw [List.length_drop]; omega), List.take_append_drop]

instance : LawfulStorage UInt128 where
  length_memory u := by
    change (Storage.memory u.hi ++ Storage.memory u.lo).length = 16
    rw [List.length_append, LawfulStorage.length_memory, LawfulStorage.length_memory]
    rfl
  memory_ofMemory bytes hsize := pair_memory hsize
  reverse_reverse u := by
    change UInt128.mk (Storage.endianReverse (Storage.endianReverse u.hi))
      (Storage.endianReverse (Storage.endianReverse u.lo)) = u
    rw [LawfulStorage.reverse_reverse, LawfulStorage.reverse_reverse]
  lt_iff u v := by
    refine Iff.trans ?_ (pair_lt_iff u.hi v.hi u.lo v.lo).symm
    change (if u.hi = v.hi then decide (u.lo < v.lo) else decide (u.hi < v.hi)) = true ↔
      decide (u.hi < v.hi) = true ∨ u.hi = v.hi ∧ decide (u.lo < v.lo) = true
    by_cases hhi : u.hi = v.hi
    · simp [hhi]
    · simp [hhi]
  eq_iff u v := by
    refine Iff.trans ?_ (pair_eq_iff u.hi v.hi u.lo v.lo).symm
    cases u
    cases v
    exact UInt128.mk.injEq .. ▸ Iff.rfl

/-- Only one of two different values is below the other. -/
theorem lt_asymm {A : Type} [LawfulStorage A] {a a' : A} (h : Storage.lt a a' = true) :
    Storage.lt a' a = false := by
  rw [Bool.eq_false_iff]
  intro hback
  exact List.lt_asymm ((LawfulStorage.lt_iff _ _).mp h) ((LawfulStorage.lt_iff _ _).mp hback)

theorem eq_of_not_lt {A : Type} [LawfulStorage A] {a a' : A} (h : Storage.lt a a' = false)
    (hback : Storage.lt a' a = false) : a = a' := by
  rw [Bool.eq_false_iff, Ne, LawfulStorage.lt_iff, List.not_lt] at h hback
  exact (LawfulStorage.eq_iff _ _).mpr (List.le_antisymm hback h)

instance {A B : Type} [LawfulStorage A] [LawfulStorage B] : LawfulStorage (ErPair A B) where
  length_memory p := by
    change (Storage.memory p.first ++ Storage.memory p.second).length =
      Storage.size A + Storage.size B
    rw [List.length_append, LawfulStorage.length_memory, LawfulStorage.length_memory]
  memory_ofMemory bytes hsize := pair_memory hsize
  reverse_reverse p := by
    change ErPair.mk (Storage.endianReverse (Storage.endianReverse p.first))
      (Storage.endianReverse (Storage.endianReverse p.second)) = p
    rw [LawfulStorage.reverse_reverse, LawfulStorage.reverse_reverse]
  lt_iff p q := by
    refine Iff.trans ?_ (pair_lt_iff p.first q.first p.second q.second).symm
    change (Storage.lt p.first q.first ||
      !Storage.lt q.first p.first && Storage.lt p.second q.second) = true ↔ _
    cases hlt : Storage.lt p.first q.first with
    | true => simp
    | false =>
      simp only [Bool.false_or, Bool.and_eq_true, Bool.not_eq_true', Bool.false_eq_true, false_or]
      refine and_congr_left fun _ => ⟨fun hback => eq_of_not_lt hlt hback, ?_⟩
      rintro hsame
      rwa [← hsame] at hlt ⊢
  eq_iff p q := by
    refine Iff.trans ?_ (pair_eq_iff p.first q.first p.second q.second).symm
    cases p
    cases q
    exact ErPair.mk.injEq .. ▸ Iff.rfl

/-! ## Strings in storage -/

/-- The memory of a storage that a string was copied to. -/
def padded (size : Nat) (str : List UInt8) : List UInt8 :=
  if str.length ≤ size then str ++ List.replicate (size - str.length) 0 else str.take size

theorem length_padded (size : Nat) (str : List UInt8) : (padded size str).length = size := by
  unfold padded
  split
  · rw [List.length_append, List.length_replicate]
    omega
  · rw [List.length_take]
    omega

theorem memory_ofString {S : Type} [LawfulStorage S] (str : List UInt8) :
    Storage.memory (Storage.endianReverse (ofString str : FixedString S).data) =
      padded (Storage.size S) str := by
  change Storage.memory (Storage.endianReverse (Storage.endianReverse
    (Storage.ofMemory (padded (Storage.size S) str) : S))) = _
  rw [LawfulStorage.reverse_reverse, LawfulStorage.memory_ofMemory _ (length_padded _ _)]

/-- What is read stops at the first zero. -/
theorem takeWhile_padded (size : Nat) (str : List UInt8) :
    (padded size str).takeWhile (· ≠ 0) = (str.take size).takeWhile (· ≠ 0) := by
  unfold padded
  split
  · rename_i hle
    rw [List.take_of_length_le hle, List.takeWhile_append]
    split
    · rename_i hall
      rw [(List.takeWhile_prefix _).eq_of_length hall]
      cases size - str.length with
      | zero => simp
      | succ count => simp [List.replicate_succ]
    · rfl
  · rfl

/-- A string that fits and has no zero. -/
structure Fits (size : Nat) (str : List UInt8) : Prop where
  length : str.length ≤ size
  nonzero : 0 ∉ str

/-- Padding with zeros keeps the order of strings without zeros. -/
theorem padded_lt_padded_iff {size : Nat} {s t : List UInt8} (hs : Fits size s) (ht : Fits size t) :
    padded size s < padded size t ↔ s < t := by
  unfold padded
  rw [if_pos hs.length, if_pos ht.length]
  obtain ⟨hslength, hszero⟩ := hs
  obtain ⟨htlength, htzero⟩ := ht
  induction s generalizing t size with
  | nil =>
    cases t with
    | nil => simp
    | cons y t =>
      obtain ⟨size, rfl⟩ : ∃ n, size = n + 1 := ⟨size - 1, by simp at htlength; omega⟩
      have hy : 0 < y := UInt8.pos_iff_ne_zero.mpr fun h => htzero (h ▸ List.mem_cons_self)
      simp only [List.nil_append, List.length_nil, Nat.sub_zero, List.replicate_succ,
        List.cons_append, List.cons_lt_cons_iff, hy, true_or, List.nil_lt_cons]
  | cons x s ih =>
    obtain ⟨size, rfl⟩ : ∃ n, size = n + 1 := ⟨size - 1, by simp at hslength; omega⟩
    cases t with
    | nil =>
      have hx : x ≠ 0 := fun h => hszero (h ▸ List.mem_cons_self)
      simp [List.replicate_succ, List.cons_lt_cons_iff, hx]
    | cons y t =>
      have hrest := @ih size t (Nat.le_of_succ_le_succ hslength)
        (fun h => hszero (List.mem_cons_of_mem _ h)) (Nat.le_of_succ_le_succ htlength)
        (fun h => htzero (List.mem_cons_of_mem _ h))
      simp only [List.cons_append, List.length_cons, Nat.add_sub_add_right,
        List.cons_lt_cons_iff, hrest]

theorem toString_ofString {S : Type} [LawfulStorage S] (str : List UInt8) :
    (ofString str : FixedString S).toString = (str.take (Storage.size S)).takeWhile (· ≠ 0) := by
  unfold toString
  rw [memory_ofString, takeWhile_padded]

theorem toString_ofString_of_fits {S : Type} [LawfulStorage S] {str : List UInt8}
    (h : Fits (Storage.size S) str) : (ofString str : FixedString S).toString = str := by
  rw [toString_ofString, List.take_of_length_le h.length, List.takeWhile_eq_self_iff]
  intro byte hbyte
  exact decide_eq_true fun hzero => h.nonzero (hzero ▸ hbyte)

theorem lt_ofString_iff {S : Type} [LawfulStorage S] {s t : List UInt8}
    (hs : Fits (Storage.size S) s) (ht : Fits (Storage.size S) t) :
    (ofString s : FixedString S).lt (ofString t) = true ↔ s < t := by
  unfold lt
  rw [LawfulStorage.lt_iff, memory_ofString, memory_ofString, padded_lt_padded_iff hs ht]

/-- Strings are kept in storage, in their order; what does not fit is cut. -/
structure Embeds (S : Type) [Storage S] : Prop where
  cut : ∀ str, (ofString str : FixedString S).toString =
    (str.take (Storage.size S)).takeWhile (· ≠ 0)
  kept : ∀ str, Fits (Storage.size S) str →
    (ofString str : FixedString S).toString = str ∧ (ofString str : FixedString S).size = str.length
  ordered : ∀ s t, Fits (Storage.size S) s → Fits (Storage.size S) t →
    ((ofString s : FixedString S).lt (ofString t) = true ↔ s < t)
  distinct : ∀ s t, Fits (Storage.size S) s → Fits (Storage.size S) t →
    ((ofString s : FixedString S).data = (ofString t : FixedString S).data ↔ s = t)

theorem LawfulStorage.embeds (S : Type) [LawfulStorage S] : Embeds S where
  cut := toString_ofString
  kept str h := by
    have hstring := toString_ofString_of_fits h
    exact ⟨hstring, congrArg List.length hstring⟩
  ordered _ _ hs ht := lt_ofString_iff hs ht
  distinct s t hs ht := by
    constructor
    · intro h
      rw [← toString_ofString_of_fits hs, ← toString_ofString_of_fits ht]
      exact congrArg (fun d => toString ⟨d⟩) h
    · rintro rfl
      rfl

/-- Fixed strings of 16, 24 and 32 bytes are ordered like the strings that they hold. -/
theorem fixedStrings_embed : (Storage.size Storage16 = 16 ∧ Embeds Storage16) ∧
    (Storage.size Storage24 = 24 ∧ Embeds Storage24) ∧
    Storage.size Storage32 = 32 ∧ Embeds Storage32 :=
  ⟨⟨rfl, LawfulStorage.embeds _⟩, ⟨rfl, LawfulStorage.embeds _⟩, rfl, LawfulStorage.embeds _⟩

example : (ofString "blurt".toUTF8.toList : FixedString Storage16).lt
    (ofString "blurt-null".toUTF8.toList) = true := by decide +kernel

/-! ## Keys of an index -/

theorem not_lt_zeros (bytes : List UInt8) : ¬ bytes < List.replicate bytes.length 0 := by
  induction bytes with
  | nil => exact List.not_lt_nil _
  | cons byte bytes ih =>
    rw [List.length_cons, List.replicate_succ, List.cons_lt_cons_iff]
    rintro (hlt | ⟨-, hlt⟩)
    · exact absurd hlt (UInt8.not_lt.mpr UInt8.zero_le)
    · exact ih hlt

/-- No fixed string is below the empty one. -/
theorem not_lt_empty {S : Type} [LawfulStorage S] (x : FixedString S) :
    x.lt (ofString []) = false := by
  have hzeros : padded (Storage.size S) [] = List.replicate (Storage.size S) 0 := by
    simp [padded]
  rw [Bool.eq_false_iff]
  unfold lt
  rw [Ne, LawfulStorage.lt_iff, memory_ofString, hzeros,
    ← LawfulStorage.length_memory (Storage.endianReverse x.data)]
  exact not_lt_zeros _

/-- An index of fixed strings is one of strings: their keys go up where the strings do, and the key
of the empty string is the least. -/
structure Indexes (S : Type) [Storage S] : Prop extends Embeds S where
  sorted : ∀ names : List (List UInt8), (∀ name ∈ names, Fits (Storage.size S) name) →
    ((names.map (ofString : List UInt8 → FixedString S)).Pairwise (fun x y => x.lt y = true) ↔
      names.Pairwise (· < ·))
  least : ∀ x : FixedString S, x.lt (ofString []) = false

theorem LawfulStorage.indexes (S : Type) [LawfulStorage S] : Indexes S where
  toEmbeds := LawfulStorage.embeds S
  sorted names hnames := by
    rw [List.pairwise_map]
    exact List.Pairwise.iff_of_mem fun hs ht => lt_ofString_iff (hnames _ hs) (hnames _ ht)
  least := not_lt_empty

/-- Account names are keys of 16 bytes. -/
theorem fixedStrings_index : (Storage.size Storage16 = 16 ∧ Indexes Storage16) ∧
    (Storage.size Storage24 = 24 ∧ Indexes Storage24) ∧
    Storage.size Storage32 = 32 ∧ Indexes Storage32 :=
  ⟨⟨rfl, LawfulStorage.indexes _⟩, ⟨rfl, LawfulStorage.indexes _⟩, rfl, LawfulStorage.indexes _⟩

end FixedString

end Blurt
