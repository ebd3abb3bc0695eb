import Blurt.Client.BlurtJsScalars

/-! # What the collections of blurtjs write

Sets and maps are sorted and searched for duplicates first. Names that every object inherits
count as duplicates.
-/

namespace Blurt

namespace Client

open Wire WireOperation

/-! ## Texts -/

theorem textBytes_inj {s t : Text} (hs : FitsText s) (ht : FitsText t)
    (h : textBytes s = textBytes t) : s = t := by
  have chars {as bs : List Char} (has : ∀ c ∈ as, c.toNat < 256) (hbs : ∀ c ∈ bs, c.toNat < 256)
      (hmap : as.map (fun c => UInt8.ofNat c.toNat) = bs.map fun c => UInt8.ofNat c.toNat) :
      as = bs := by
    induction as generalizing bs with
    | nil => exact (List.map_eq_nil_iff.mp hmap.symm).symm
    | cons a as ih =>
        cases bs with
        | nil => simp at hmap
        | cons b bs =>
            rw [List.map_cons, List.map_cons, List.cons.injEq] at hmap
            have hab : a = b := by
              apply Char.toNat_inj.mp
              have := congrArg UInt8.toNat hmap.1
              rw [UInt8.toNat_ofNat', UInt8.toNat_ofNat'] at this
              have := has a List.mem_cons_self
              have := hbs b List.mem_cons_self
              omega
            rw [hab, ih (fun c hc => has c (List.mem_cons_of_mem _ hc))
              (fun c hc => hbs c (List.mem_cons_of_mem _ hc)) hmap.2]
  apply String.toList_inj.mp
  exact chars hs.2 ht.2 h

/-- A packed text ends where its length says. -/
theorem string_append_inj {s t : Text} (hs : FitsText s) (ht : FitsText t) {rest rest' : Bytes}
    (h : (Value.string s).bytes ++ rest = (Value.string t).bytes ++ rest') : s = t := by
  simp only [Value.string, Value.unsignedInt, List.append_assoc] at h
  rw [Nat.mod_eq_of_lt hs.1, Nat.mod_eq_of_lt ht.1] at h
  have bound {n : Nat} (hn : n < 2 ^ 32) : n < 128 ^ 5 := by omega
  obtain ⟨hlength, hrest⟩ := varint_append_inj (bound hs.1) (bound ht.1) (by decide) h
  have hbytes := List.append_inj_left hrest (by rw [length_textBytes, length_textBytes, hlength])
  exact textBytes_inj hs ht hbytes

namespace BlurtJs

/-- The order of texts is the one in which JavaScript sorts them. -/
def KeepsOrder (texts : List Text) : Prop := texts.Pairwise fun s t => utf16Key s ≤ utf16Key t

theorem strCmp_le {s t : Text} : strCmp s t ≤ 0 ↔ utf16Key s ≤ utf16Key t := by
  unfold strCmp
  split
  next hlt => simpa using hlt
  next hle =>
    have hle := not_lt.mp hle
    split <;> simp [hle]

theorem checkDuplicates_ok {seen texts : List Text} (hnodup : texts.Nodup) :
    (∃ u, checkDuplicates seen (texts.map Js.string) = .ok u) ↔
      ∀ s ∈ texts, s ∉ objectPrototype ∧ s ∉ seen := by
  induction texts generalizing seen with
  | nil => simp [checkDuplicates]
  | cons s texts ih =>
      obtain ⟨hs, htexts⟩ := List.nodup_cons.mp hnodup
      rw [List.map_cons, checkDuplicates]
      simp only [Outcome.bind_eq_ok, Outcome.ensure_eq_ok, List.forall_mem_cons]
      constructor
      · rintro ⟨u, ⟨⟩, hfirst, hrest⟩
        refine ⟨hfirst, ?_⟩
        intro t ht
        have := (ih htexts).mp ⟨u, hrest⟩ t ht
        exact ⟨this.1, fun h => this.2 (List.mem_cons_of_mem _ h)⟩
      · rintro ⟨hfirst, hrest⟩
        obtain ⟨u, hu⟩ := (@ih (s :: seen) htexts).mpr fun t ht => by
          refine ⟨(hrest t ht).1, ?_⟩
          rintro (_ | ⟨_, hseen⟩)
          · exact hs ht
          · exact (hrest t ht).2 hseen
        exact ⟨u, (), hfirst, hu⟩

variable {lib : Libraries} (hlib : lib.Documented)

include hlib

theorem writes_length (n : Nat) : Writes (lib.writeVarint32 n) (Value.unsignedInt n) True :=
  Writes.of_eq (hlib.writeVarint32 n)

/-! ## Sets of names -/

/-- blurtjs writes a set of names. -/
def NamesReadable (names : List AccountName) : Prop :=
  (∀ n ∈ names, n ∉ objectPrototype) ∧ KeepsOrder names

theorem agrees_names {names : List AccountName} (hfits : FitsNames names) :
    Agrees (set lib (string lib)) (Value.accountNames names) (NamesReadable names) := by
  have hnodup : names.Nodup := hfits.1.imp fun h => ne_of_lt h
  have hitems : (Value.accountNames names).js.items = names.map Js.string := by
    simp [Value.accountNames, Value.array, Value.string, Js.items]
  have hsorted : Writes (writeAll (string lib).appendByteBuffer
      (sortOperation (names.map Js.string) (string lib)))
      (names.flatMap fun n => (Value.string n).bytes)
      (names.Pairwise (fun s t => utf16Key s ≤ utf16Key t) ∧ ∀ n ∈ names, True) := by
    apply Writes.sorted
    · intro s _ t _
      exact strCmp_le
    · intro s _
      exact agrees_string hlib s
    · intro s hs t ht b rest rest' hb h
      have hout : (string lib).appendByteBuffer (.string s) = .ok (Value.string s).bytes :=
        (agrees_string hlib s).iff.mpr trivial
      cases hb.symm.trans hout
      rw [string_append_inj (hfits.2 s hs) (hfits.2 t ht) h]
  have hall := (writes_length hlib names.length).seq
    (hsorted.check (@checkDuplicates_ok [] names hnodup))
  unfold Agrees
  have hbytes : (Value.accountNames names).bytes =
      Value.unsignedInt names.length ++ names.flatMap fun n => (Value.string n).bytes := by
    simp [Value.accountNames, Value.array, List.flatMap_map]
  rw [hbytes]
  unfold set
  simp only [hitems, List.length_map]
  apply hall.congr
  simp [NamesReadable, KeepsOrder]

/-! ## Maps -/

section Map

variable {α : Type} {entries : List α} {k v : α → Value} {text : α → Text}
  {keyOperation valueOperation : SerializerType}

/-- The writer of one entry of a map. -/
def writeEntry (keyOperation valueOperation : SerializerType) (o : Js) : Except String Bytes := do
  let key ← keyOperation.appendByteBuffer (o.item 0)
  let value ← valueOperation.appendByteBuffer (o.item 1)
  return key ++ value

omit hlib in
theorem writes_entry {c d : Prop} {key value : Value} (hkey : Agrees keyOperation key c)
    (hvalue : Agrees valueOperation value d) :
    Writes (writeEntry keyOperation valueOperation (.array [key.js, value.js]))
      (key.bytes ++ value.bytes) (c ∧ d) :=
  hkey.seq hvalue

theorem agrees_map {condition : Prop} (hjs : ∀ e ∈ entries, (k e).js = .string (text e))
    (hnodup : (entries.map text).Nodup) (hsort : keyOperation.nosort = false)
    (hitems : Writes (writeAll (writeEntry keyOperation valueOperation)
      ((entries.map fun e => Js.array [(k e).js, (v e).js]).insertionSort
        fun a b => order keyOperation a b ≤ 0))
      (entries.flatMap fun e => (k e).bytes ++ (v e).bytes) condition) :
    Agrees (map lib keyOperation valueOperation) (Value.map (entries.map fun e => (k e, v e)))
      ((∀ e ∈ entries, text e ∉ objectPrototype) ∧ condition) := by
  have hlist : (Value.map (entries.map fun e => (k e, v e))).js =
      .array (entries.map fun e => Js.array [(k e).js, (v e).js]) := by
    simp [Value.map]
  have hkeys : (entries.map fun e => Js.array [(k e).js, (v e).js]).map (Js.item · 0) =
      (entries.map text).map Js.string := by
    rw [List.map_map, List.map_map]
    exact List.map_congr_left hjs
  have hpairs : ∀ o ∈ entries.map (fun e => Js.array [(k e).js, (v e).js]), o.items.length = 2 := by
    intro o ho
    obtain ⟨e, -, rfl⟩ := List.mem_map.mp ho
    rfl
  have hdup : (∃ u, checkDuplicates []
      ((entries.map fun e => Js.array [(k e).js, (v e).js]).map (Js.item · 0)) = .ok u) ↔
      ∀ e ∈ entries, text e ∉ objectPrototype := by
    rw [hkeys, checkDuplicates_ok hnodup]
    simp
  have hbytes : (Value.map (entries.map fun e => (k e, v e))).bytes =
      Value.unsignedInt entries.length ++ entries.flatMap fun e => (k e).bytes ++ (v e).bytes := by
    simp [Value.map, List.flatMap_map]
  have hrest := (writes_length hlib entries.length).seq hitems
  have hlength : ((entries.map fun e => Js.array [(k e).js, (v e).js]).insertionSort
      fun a b => order keyOperation a b ≤ 0).length = entries.length := by
    rw [List.length_insertionSort, List.length_map]
  unfold Agrees
  rw [hbytes, hlist]
  unfold map
  simp only [Js.isArray, Js.items, sortOperation, hsort, Bool.false_eq_true, if_false, hlength]
  have htwo : (∃ u, Outcome.ensure (∀ o ∈ entries.map (fun e => Js.array [(k e).js, (v e).js]),
      o.items.length = 2) "expecting two elements" = .ok u) ↔ True := by
    simpa using hpairs
  have harray : (∃ u, Outcome.ensure True "expecting array" = .ok u) ↔ True := by simp
  apply (((hrest.check hdup).check htwo).check harray).congr
  simp

end Map

end BlurtJs

end Client

end Blurt
