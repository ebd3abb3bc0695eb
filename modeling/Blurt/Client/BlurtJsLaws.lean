import Blurt.Client.BlurtJsCollections

/-! # What blurtjs signs

Each operation type of blurtjs writes the bytes of the node exactly for the operations that
it supports.
-/

namespace Blurt

namespace Client

namespace BlurtJs

open Wire WireOperation

/-! ## Fields -/

/-- The fields of a `Serializer`. -/
abbrev FieldsAgree :=
  Client.FieldsAgree fun field : String × SerializerType => field.2.appendByteBuffer

section Fields

variable {types : List (String × SerializerType)} {values : List (String × Value)} {c d : Prop}

theorem FieldsAgree.appendFields (h : FieldsAgree types values c) {object : Js}
    (hget : ∀ field ∈ values, object.get field.1 = .ok field.2.js) :
    Writes (appendFields types object) (values.flatMap fun field => field.2.bytes) c := by
  refine h.writes ?_ hget
  intro field value hvalue
  rw [hvalue]
  rfl

theorem FieldsAgree.agrees (h : FieldsAgree types values c) (hnodup : (values.map Prod.fst).Nodup)
    (hiff : c ↔ d) : Agrees (serializer types) (Value.struct values) d := by
  refine (h.writes_struct hnodup ?_).congr hiff
  intro field value hvalue
  rw [hvalue]
  rfl

end Fields

variable {lib : Libraries}

/-! ## Keys -/

/-- The curve library gives the bytes of a key back; the null key is no point. -/
def KeyReadable (lib : Libraries) (key : PublicKey) : Prop :=
  publicKeyBytes lib (Value.keyBytes key) = .ok (Value.keyBytes key)

theorem keyText_notMem (lib : Libraries) (key : PublicKey) :
    Value.keyText lib key ∉ objectPrototype := by
  intro hmem
  have hall : ∀ s ∈ objectPrototype, s.toList.take 3 ≠ ['B', 'L', 'T'] := by decide
  apply hall _ hmem
  rw [toList_keyText]
  rfl

section Keys

variable (hlib : lib.Documented)

include hlib

theorem fromStringOrThrow_keyText (key : PublicKey) :
    fromStringOrThrow lib (Value.keyText lib key) = publicKeyBytes lib (Value.keyBytes key) := by
  have hchecksum : ((lib.ripemd160 (Value.keyBytes key)).take 4).length = 4 := by
    rw [List.length_take, hlib.length_ripemd160]
    rfl
  have hlength : (Value.keyBytes key ++ (lib.ripemd160 (Value.keyBytes key)).take 4).length - 4 =
      (Value.keyBytes key).length := by
    rw [List.length_append, hchecksum, Nat.add_sub_cancel]
  have htake : (Value.keyText lib key).toList.take 3 = ['B', 'L', 'T'] := by
    rw [toList_keyText]
    rfl
  have hdrop : String.ofList ((Value.keyText lib key).toList.drop 3) =
      lib.base58Encode (Value.keyBytes key ++ (lib.ripemd160 (Value.keyBytes key)).take 4) := by
    rw [toList_keyText]
    exact String.ofList_toList
  unfold fromStringOrThrow
  simp only [htake, hdrop, hlib.base58Decode, hlength, List.take_left, List.drop_left,
    Outcome.ensure, if_true, Outcome.ok_bind]

theorem length_publicKeyBytes {buffer out : Bytes} (hbuffer : buffer.length = 33)
    (h : publicKeyBytes lib buffer = .ok out) : out.length = 33 := by
  unfold publicKeyBytes at h
  split at h
  · cases h
    exact List.length_replicate
  · exact hlib.length_reencodePoint buffer out hbuffer h

/-- What was read as a key once is read as the same key again. -/
theorem publicKeyBytes_again {buffer out : Bytes} (h : publicKeyBytes lib buffer = .ok out) :
    publicKeyBytes lib out = .ok out := by
  unfold publicKeyBytes at h ⊢
  split
  next hnull => rw [hnull]
  next hpoint =>
    split at h
    · cases h
      exact absurd rfl hpoint
    · exact hlib.reencodePoint_again buffer out h

theorem agrees_publicKey (key : PublicKey) :
    Agrees (publicKey lib) (Value.publicKey lib key) (KeyReadable lib key) := by
  have hout : (publicKey lib).appendByteBuffer (Value.publicKey lib key).js =
      publicKeyBytes lib (Value.keyBytes key) := fromStringOrThrow_keyText hlib key
  unfold Agrees
  rw [hout]
  refine ⟨Iff.rfl, ?_⟩
  intro b hb
  rw [Value.publicKey, Value.length_keyBytes]
  exact length_publicKeyBytes hlib (Value.length_keyBytes key) hb

omit hlib in
theorem keyBytes_inj {k l : PublicKey} (hk : k < 256 ^ 33) (hl : l < 256 ^ 33)
    (h : Value.keyBytes k = Value.keyBytes l) : k = l := by
  have h := congrArg LittleEndian.decode (List.reverse_inj.mp h)
  rwa [LittleEndian.decode_encode hk, LittleEndian.decode_encode hl] at h

theorem keyText_inj {k l : PublicKey} (hk : k < 256 ^ 33) (hl : l < 256 ^ 33)
    (h : Value.keyText lib k = Value.keyText lib l) : k = l := by
  have h := congrArg String.toList h
  rw [toList_keyText, toList_keyText, List.append_cancel_left_eq, String.toList_inj] at h
  have h := congrArg lib.base58Decode h
  rw [hlib.base58Decode, hlib.base58Decode, Except.ok.injEq] at h
  apply keyBytes_inj hk hl
  exact List.append_inj_left h (by rw [Value.length_keyBytes, Value.length_keyBytes])

/-! ## Authorities -/

omit hlib in
/-- Every item of an output in pieces of one length was written by some item. -/
theorem exists_write_of_flatMap {ι α : Type} {write : ι → Except String Bytes} {items : List ι}
    {bytes : α → Bytes} {l : List α} {n : Nat}
    (hwrite : ∀ i ∈ items, ∀ b, write i = .ok b → b.length = n) (hbytes : ∀ x, (bytes x).length = n)
    (hlength : items.length = l.length) (h : writeAll write items = .ok (l.flatMap bytes)) :
    ∀ x ∈ l, ∃ i ∈ items, write i = .ok (bytes x) := by
  induction items generalizing l with
  | nil =>
      rw [List.length_nil, eq_comm, List.length_eq_zero_iff] at hlength
      simp [hlength]
  | cons i items ih =>
      cases l with
      | nil => cases hlength
      | cons x l =>
          simp only [writeAll, Outcome.bind_eq_ok, Outcome.pure_eq_ok, List.flatMap_cons] at h
          obtain ⟨a, ha, b, hb, hab⟩ := h
          have hsame : a.length = (bytes x).length := by
            rw [hwrite i List.mem_cons_self a ha, hbytes]
          obtain ⟨rfl, rfl⟩ := List.append_inj hab hsame
          have hrest := ih (fun i hi => hwrite i (List.mem_cons_of_mem _ hi))
            (Nat.succ.inj hlength) hb
          intro y hy
          rcases List.mem_cons.mp hy with rfl | hy
          · exact ⟨i, List.mem_cons_self, ha⟩
          · obtain ⟨j, hj, hout⟩ := hrest y hy
            exact ⟨j, List.mem_cons_of_mem _ hj, hout⟩

omit hlib in
/-- blurtjs writes a map of keys. -/
def KeysReadable (lib : Libraries) (keys : List PublicKey) : Prop :=
  KeepsOrder (keys.map (Value.keyText lib)) ∧ ∀ k ∈ keys, KeyReadable lib k

/-- The entry of a key and its weight. -/
def keyEntry (lib : Libraries) (entry : PublicKey × Nat) : Js :=
  .array [(Value.publicKey lib entry.1).js, (Value.uint16 entry.2).js]

theorem writes_keyEntry {entry : PublicKey × Nat} (hweight : entry.2 < 2 ^ 16) :
    Writes (writeEntry (publicKey lib) (uint16 lib) (keyEntry lib entry))
      ((Value.publicKey lib entry.1).bytes ++ (Value.uint16 entry.2).bytes)
      (KeyReadable lib entry.1) :=
  (writes_entry (agrees_publicKey hlib entry.1) (agrees_uint16 hlib hweight)).congr (by simp)

/-- The entries are sorted by the texts of the keys. Where a key is not the one that its bytes
are read as, no output has these bytes. -/
theorem writes_keyEntries {entries : List (PublicKey × Nat)}
    (hbound : ∀ entry ∈ entries, entry.1 < 256 ^ 33) (hweight : ∀ entry ∈ entries, entry.2 < 2 ^ 16) :
    Writes (writeAll (writeEntry (publicKey lib) (uint16 lib))
        ((entries.map (keyEntry lib)).insertionSort fun a b => order (publicKey lib) a b ≤ 0))
      (entries.flatMap fun entry =>
        (Value.publicKey lib entry.1).bytes ++ (Value.uint16 entry.2).bytes)
      (entries.Pairwise (fun x y => utf16Key (Value.keyText lib x.1) ≤
        utf16Key (Value.keyText lib y.1)) ∧ ∀ entry ∈ entries, KeyReadable lib entry.1) := by
  have horder : ∀ x ∈ entries, ∀ y ∈ entries,
      order (publicKey lib) (keyEntry lib x) (keyEntry lib y) ≤ 0 ↔
        utf16Key (Value.keyText lib x.1) ≤ utf16Key (Value.keyText lib y.1) :=
    fun _ _ _ _ => strCmp_le
  have hitems := fun entry hentry => writes_keyEntry hlib (hweight entry hentry)
  have hlength (entry : PublicKey × Nat) :
      ((Value.publicKey lib entry.1).bytes ++ (Value.uint16 entry.2).bytes).length = 35 := by
    simp [Value.publicKey, Value.uint16]
  by_cases hread : ∀ entry ∈ entries, ∀ out,
      publicKeyBytes lib (Value.keyBytes entry.1) = .ok out → out = Value.keyBytes entry.1
  · apply Writes.sorted horder hitems
    intro x hx y hy b rest rest' hb h
    simp only [writeEntry, Outcome.bind_eq_ok, Outcome.pure_eq_ok] at hb
    obtain ⟨key, hkey, value, -, rfl⟩ := hb
    have hkey : publicKeyBytes lib (Value.keyBytes x.1) = .ok key :=
      (fromStringOrThrow_keyText hlib x.1).symm.trans hkey
    rw [hread x hx key hkey, List.append_assoc, List.append_assoc] at h
    have hsame := List.append_inj_left h (by simp [Value.publicKey])
    rw [keyBytes_inj (hbound x hx) (hbound y hy) hsame]
  · push Not at hread
    obtain ⟨entry, hentry, out, hout, hne⟩ := hread
    have hunreadable : ¬ KeyReadable lib entry.1 := by
      intro hreadable
      rw [KeyReadable, hout, Except.ok.injEq] at hreadable
      exact hne hreadable
    rw [map_insertionSort horder]
    have hperm := List.perm_insertionSort (fun x y : PublicKey × Nat =>
      utf16Key (Value.keyText lib x.1) ≤ utf16Key (Value.keyText lib y.1)) entries
    have hall := Writes.all fun entry hentry => hitems entry (hperm.mem_iff.mp hentry)
    constructor
    · constructor
      · intro hwritten
        exfalso
        obtain ⟨o, ho, hone⟩ := exists_write_of_flatMap
          (fun i hi b hb => by
            obtain ⟨e, he, rfl⟩ := List.mem_map.mp hi
            rw [(hitems e (hperm.mem_iff.mp he)).length hb, hlength])
          hlength (by rw [List.length_map, hperm.length_eq]) hwritten entry hentry
        obtain ⟨e, -, rfl⟩ := List.mem_map.mp ho
        simp only [writeEntry, Outcome.bind_eq_ok, Outcome.pure_eq_ok] at hone
        obtain ⟨key, hkey, value, -, hsum⟩ := hone
        have hkey : publicKeyBytes lib (Value.keyBytes e.1) = .ok key :=
          (fromStringOrThrow_keyText hlib e.1).symm.trans hkey
        have hkeyLength : key.length = (Value.publicKey lib entry.1).bytes.length := by
          rw [length_publicKeyBytes hlib (Value.length_keyBytes e.1) hkey, Value.publicKey,
            Value.length_keyBytes]
        have hsame := List.append_inj_left hsum hkeyLength
        apply hunreadable
        have hagain := publicKeyBytes_again hlib hkey
        rwa [hsame] at hagain
      · rintro ⟨-, hreadable⟩
        exact absurd (hreadable entry hentry) hunreadable
    · intro b hb
      rw [hall.length hb]
      exact (hperm.flatMap_right _).length_eq

omit hlib in
/-- blurtjs writes an authority. -/
def AuthorityReadable (lib : Libraries) (a : Authority) : Prop :=
  NamesReadable (a.accountAuths.map Prod.fst) ∧ KeysReadable lib (a.keyAuths.map Prod.fst)

theorem agrees_accountAuths {entries : List (AccountName × Nat)}
    (hnames : FitsNames (entries.map Prod.fst)) (hweight : ∀ entry ∈ entries, entry.2 < 2 ^ 16) :
    Agrees (map lib (string lib) (uint16 lib))
      (Value.map (entries.map fun entry => (Value.string entry.1, Value.uint16 entry.2)))
      (NamesReadable (entries.map Prod.fst)) := by
  have hnodup : (entries.map Prod.fst).Nodup := hnames.1.imp fun h => ne_of_lt h
  have hsorted : Writes (writeAll (writeEntry (string lib) (uint16 lib))
      ((entries.map fun entry => Js.array [(Value.string entry.1).js,
        (Value.uint16 entry.2).js]).insertionSort fun a b => order (string lib) a b ≤ 0))
      (entries.flatMap fun entry => (Value.string entry.1).bytes ++ (Value.uint16 entry.2).bytes)
      (entries.Pairwise (fun x y => utf16Key x.1 ≤ utf16Key y.1) ∧ ∀ entry ∈ entries, True) := by
    apply Writes.sorted
    · intro x _ y _
      exact strCmp_le
    · intro entry hentry
      exact (writes_entry (agrees_string hlib entry.1)
        (agrees_uint16 hlib (hweight entry hentry))).congr (by simp)
    · intro x hx y hy b rest rest' hb h
      simp only [writeEntry, Outcome.bind_eq_ok, Outcome.pure_eq_ok] at hb
      obtain ⟨key, hkey, value, -, rfl⟩ := hb
      have hout : (string lib).appendByteBuffer (.string x.1) = .ok (Value.string x.1).bytes :=
        (agrees_string hlib x.1).iff.mpr trivial
      cases hkey.symm.trans hout
      rw [List.append_assoc, List.append_assoc] at h
      rw [string_append_inj (hnames.2 x.1 (List.mem_map_of_mem hx))
        (hnames.2 y.1 (List.mem_map_of_mem hy)) h]
  have hmap := @agrees_map lib hlib _ entries (fun entry => Value.string entry.1)
    (fun entry => Value.uint16 entry.2) Prod.fst _ _ _ (fun _ _ => rfl) hnodup rfl hsorted
  apply hmap.congr
  simp [NamesReadable, KeepsOrder, List.pairwise_map]

theorem agrees_keyAuths {entries : List (PublicKey × Nat)}
    (hkeys : (entries.map Prod.fst).Pairwise (· < ·)) (hbound : ∀ entry ∈ entries, entry.1 < 256 ^ 33)
    (hweight : ∀ entry ∈ entries, entry.2 < 2 ^ 16) :
    Agrees (map lib (publicKey lib) (uint16 lib))
      (Value.map (entries.map fun entry => (Value.publicKey lib entry.1, Value.uint16 entry.2)))
      (KeysReadable lib (entries.map Prod.fst)) := by
  have hnodup : (entries.map fun entry => Value.keyText lib entry.1).Nodup := by
    rw [List.pairwise_map] at hkeys
    rw [List.Nodup, List.pairwise_map]
    refine hkeys.imp_of_mem ?_
    intro x y hx hy hlt hsame
    exact hlt.ne (keyText_inj hlib (hbound x hx) (hbound y hy) hsame)
  have hsorted := writes_keyEntries hlib hbound hweight
  have hmap := @agrees_map lib hlib _ entries (fun entry => Value.publicKey lib entry.1)
    (fun entry => Value.uint16 entry.2) (fun entry => Value.keyText lib entry.1) _ _ _
    (fun _ _ => rfl) hnodup rfl hsorted
  apply hmap.congr
  rw [KeysReadable, KeepsOrder, List.map_map, List.pairwise_map, List.forall_mem_map]
  constructor
  · rintro ⟨-, hread⟩
    exact hread
  · intro hread
    exact ⟨fun entry _ => keyText_notMem lib entry.1, hread⟩

theorem agrees_authority {a : Authority} (h : FitsAuthority a) :
    Agrees (authority lib) (Value.authority lib a) (AuthorityReadable lib a) := by
  refine FieldsAgree.agrees (.skip (agrees_uint32 hlib h.weightThreshold)
    (.cons (agrees_accountAuths hlib h.names h.nameWeights)
      (.cons (agrees_keyAuths hlib h.keys h.keyBound h.keyWeights) .nil)))
    (by simp [Value.authorityFields]) ?_
  simp [AuthorityReadable]

theorem weight_of_authority {a : Authority} (ha : a.weightThreshold < 2 ^ 32) {b : Bytes}
    (h : (authority lib).appendByteBuffer (Value.authority lib a).js = .ok b) :
    ∃ rest, b = LittleEndian.encode 4 a.weightThreshold ++ rest := by
  have hfirst : (uint32 lib).appendByteBuffer (Value.uint32 a.weightThreshold).js =
      .ok (LittleEndian.encode 4 a.weightThreshold) := (agrees_uint32 hlib ha).iff.mpr trivial
  have hget : (Value.authority lib a).js.get "weight_threshold" =
      .ok (Value.uint32 a.weightThreshold).js := rfl
  simp only [authority, serializer, appendFields, writeAll, hget, Outcome.ok_bind, hfirst] at h
  obtain ⟨rest, -, hrest⟩ := Outcome.bind_eq_ok.mp h
  cases hrest
  exact ⟨rest, rfl⟩

/-- blurtjs sorts a list of authorities by their thresholds. -/
theorem agrees_authorities {as : List Authority} (h : ∀ a ∈ as, FitsAuthority a) :
    Agrees (array lib (authority lib)) (Value.array (as.map (Value.authority lib)))
      (as.Pairwise (fun a b => a.weightThreshold ≤ b.weightThreshold) ∧
        ∀ a ∈ as, AuthorityReadable lib a) := by
  have hsorted : Writes (writeAll (authority lib).appendByteBuffer
      ((as.map fun a => (Value.authority lib a).js).insertionSort
        fun x y => order (authority lib) x y ≤ 0))
      (as.flatMap fun a => (Value.authority lib a).bytes)
      (as.Pairwise (fun a b => a.weightThreshold ≤ b.weightThreshold) ∧
        ∀ a ∈ as, AuthorityReadable lib a) := by
    apply Writes.sorted
    · intro a _ b _
      have horder : order (authority lib) (Value.authority lib a).js (Value.authority lib b).js =
          (a.weightThreshold : Int) - b.weightThreshold := rfl
      rw [horder]
      omega
    · intro a ha
      exact agrees_authority hlib (h a ha)
    · intro a ha b hb out rest rest' hout hsame
      obtain ⟨tail, rfl⟩ := weight_of_authority hlib (h a ha).weightThreshold hout
      have hbytes : (Value.authority lib b).bytes ++ rest' =
          LittleEndian.encode 4 b.weightThreshold ++
            ((Value.struct (Value.authorityFields lib b).tail).bytes ++ rest') := by
        rw [← List.append_assoc]
        rfl
      rw [hbytes, List.append_assoc] at hsame
      have hweight := congrArg LittleEndian.decode (List.append_inj_left hsame
        (by rw [LittleEndian.length_encode, LittleEndian.length_encode]))
      rwa [LittleEndian.decode_encode (h a ha).weightThreshold,
        LittleEndian.decode_encode (h b hb).weightThreshold] at hweight
  have hall := (writes_length hlib as.length).seq hsorted
  unfold Agrees
  have hbytes : (Value.array (as.map (Value.authority lib))).bytes =
      Value.unsignedInt as.length ++ as.flatMap fun a => (Value.authority lib a).bytes := by
    simp [Value.array, List.flatMap_map]
  have hjs : (Value.array (as.map (Value.authority lib))).js.items =
      as.map fun a => (Value.authority lib a).js := by
    simp [Value.array, Js.items]
  rw [hbytes]
  unfold array
  have hrequired : required (Value.array (as.map (Value.authority lib))).js = .ok () := rfl
  simp only [hrequired, Outcome.ok_bind, hjs, sortOperation, authority, serializer,
    Bool.false_eq_true, if_false, List.length_insertionSort, List.length_map]
  exact hall.congr (by simp)

/-! ## Identifiers of proposals -/

/-- A number that JavaScript counts on and that is not negative. -/
def IdReadable (id : Int) : Prop := 0 ≤ id ∧ id ≤ MAX_SAFE_INT

omit hlib in
theorem floor_nearest_of_safe {id : Int} (h : IdReadable id) : ⌊Double.nearest id⌋ = id := by
  have habs : |id| ≤ 2 ^ 53 := by
    rw [abs_of_nonneg h.1]
    exact h.2.trans (by decide)
  rw [Double.nearest_intCast habs, Int.floor_intCast]

omit hlib in
/-- Rounding a number to a double keeps it readable or unreadable. -/
theorem readable_floor_nearest {id : Int} :
    IdReadable ⌊Double.nearest id⌋ ↔ IdReadable id := by
  constructor
  · rintro ⟨hnonneg, hle⟩
    constructor
    · by_contra hneg
      have hneg : Double.nearest id < 0 := Double.nearest_neg (by exact_mod_cast not_le.mp hneg)
      have : ⌊Double.nearest id⌋ < 0 := by
        rw [Int.floor_lt]
        exact_mod_cast hneg
      omega
    · by_contra hlt
      have hlarge : (2 : ℚ) ^ 53 ≤ Double.nearest id := by
        apply Double.le_nearest
        have : (2 : ℤ) ^ 53 ≤ id := not_le.mp hlt
        exact_mod_cast this
      have hfloor : (2 : ℤ) ^ 53 ≤ ⌊Double.nearest id⌋ := by
        rw [Int.le_floor]
        exact_mod_cast hlarge
      have : MAX_SAFE_INT < 2 ^ 53 := by decide
      omega
  · intro h
    rwa [floor_nearest_of_safe h]

omit hlib in
theorem toText_number {n : Int} (h : 0 ≤ n) :
    (Js.number n).toText = String.ofList (Decimal.text n.natAbs) := by
  rw [Js.toText, if_neg (Int.not_lt.mpr h), List.nil_append]

omit hlib in
theorem unsigned_number {n : Int} (h : 0 ≤ n) : unsigned (.number n) = .ok (.number n) := by
  have hminus : '-' ∉ (Js.number n).toText.toList := by
    rw [toText_number h, String.toList_ofList]
    exact fun h => ne_of_isDigit (Decimal.isDigit_of_mem_text h) (by decide) rfl
  unfold unsigned
  simp only [Outcome.bind_eq_ok, Outcome.ensure_eq_ok]
  exact ⟨(), hminus, rfl⟩

theorem longFromString_number {n : Int} (h : 0 ≤ n) (hn : InInt64 n) :
    lib.longFromString (Js.number n).toText = .ok n := by
  have hlt : Decimal.parse (Decimal.text n.natAbs) < 2 ^ 63 := by
    rw [Decimal.parse_text]
    have := hn.2
    omega
  rw [toText_number h, hlib.longFromString _ (Decimal.text_ne_nil _)
    (fun c hc => Decimal.isDigit_of_mem_text hc) hlt, Decimal.parse_text, Int.natAbs_of_nonneg h]

theorem uint64_readable {n : Int} (h : IdReadable n) (hn : InInt64 n) :
    (uint64 lib).appendByteBuffer (.number n) = .ok (Value.int64Bytes n) := by
  have hlong : toLong lib (.number n) = .ok n := by
    unfold toLong
    simp only [Outcome.bind_eq_ok, Outcome.ensure_eq_ok]
    exact ⟨(), ⟨h.2, le_trans (by decide) h.1⟩, longFromString_number hlib h.1 hn⟩
  simp only [uint64, unsigned_number h.1, Outcome.ok_bind, hlong]
  exact hlib.writeUint64 n hn

omit hlib in
/-- A negative number is refused for its sign, a large one for its size. -/
theorem uint64_unreadable {n : Int} (h : ¬ IdReadable n) (b : Bytes) :
    (uint64 lib).appendByteBuffer (.number n) ≠ .ok b := by
  intro hout
  simp only [uint64, unsigned, Outcome.bind_eq_ok, Outcome.ensure_eq_ok, Outcome.pure_eq_ok] at hout
  obtain ⟨_, ⟨_, hminus, rfl⟩, long, hlong, -⟩ := hout
  have hnonneg : 0 ≤ n := by
    by_contra hneg
    apply hminus
    rw [Js.toText, if_pos (not_le.mp hneg), String.toList_ofList]
    exact List.mem_append_left _ List.mem_cons_self
  unfold toLong at hlong
  simp only [Outcome.bind_eq_ok, Outcome.ensure_eq_ok] at hlong
  obtain ⟨_, hsafe, -⟩ := hlong
  exact h ⟨hnonneg, hsafe.1⟩

theorem agrees_uint64 {id : Int} (hid : InInt64 id) :
    Agrees (uint64 lib) (Value.int64 id) (IdReadable id) := by
  by_cases hread : IdReadable id
  · have hout : (uint64 lib).appendByteBuffer (Value.int64 id).js = .ok (Value.int64 id).bytes := by
      rw [Value.int64, floor_nearest_of_safe hread]
      exact uint64_readable hlib hread hid
    exact (Writes.of_eq hout).congr (iff_of_true trivial hread)
  · have hnone := @uint64_unreadable lib _ (mt readable_floor_nearest.mp hread)
    constructor
    · exact iff_of_false (hnone _) hread
    · intro b hb
      exact absurd hb (hnone b)

theorem agrees_ids {ids : List Int} (hsorted : ids.Pairwise (· < ·))
    (hids : ∀ id ∈ ids, InInt64 id) :
    Agrees (array lib (uint64 lib)) (Value.array (ids.map Value.int64))
      (∀ id ∈ ids, IdReadable id) := by
  have hitems : Writes (writeAll (uint64 lib).appendByteBuffer
      ((ids.map fun id => (Value.int64 id).js).insertionSort fun x y => order (uint64 lib) x y ≤ 0))
      (ids.flatMap fun id => (Value.int64 id).bytes)
      (ids.Pairwise (fun x y : ℤ => ⌊Double.nearest (x : ℚ)⌋ ≤ ⌊Double.nearest (y : ℚ)⌋) ∧
        ∀ id ∈ ids, IdReadable id) := by
    apply Writes.sorted
    · intro x _ y _
      have horder : order (uint64 lib) (Value.int64 x).js (Value.int64 y).js =
          ⌊Double.nearest (x : ℚ)⌋ - ⌊Double.nearest (y : ℚ)⌋ := rfl
      rw [horder]
      omega
    · intro id hid
      exact agrees_uint64 hlib (hids id hid)
    · intro x hx y hy b rest rest' hb h
      have hread : IdReadable x := by
        by_contra hunread
        exact uint64_unreadable (mt readable_floor_nearest.mp hunread) b hb
      have hb' := (agrees_uint64 hlib (hids x hx)).iff.mpr hread
      cases hb.symm.trans hb'
      have hbytes := congrArg LittleEndian.decode (List.append_inj_left h (by simp [Value.int64]))
      simp only [Value.int64, Value.int64Bytes] at hbytes
      rw [LittleEndian.decode_encode_mod, LittleEndian.decode_encode_mod] at hbytes
      have hx := hids x hx
      have hy := hids y hy
      unfold InInt64 at hx hy
      have hxy : x = y := by omega
      rw [hxy]
  have hall := (writes_length hlib ids.length).seq hitems
  have hbytes : (Value.array (ids.map Value.int64)).bytes =
      Value.unsignedInt ids.length ++ ids.flatMap fun id => (Value.int64 id).bytes := by
    simp [Value.array, List.flatMap_map]
  have hjs : (Value.array (ids.map Value.int64)).js.items =
      ids.map fun id => (Value.int64 id).js := by
    simp [Value.array, Js.items]
  have hrequired : required (Value.array (ids.map Value.int64)).js = .ok () := rfl
  unfold Agrees
  rw [hbytes]
  unfold array
  simp only [hrequired, Outcome.ok_bind, hjs, sortOperation, uint64, Bool.false_eq_true, if_false,
    List.length_insertionSort, List.length_map]
  apply hall.congr
  constructor
  · rintro ⟨-, -, hread⟩
    exact hread
  · intro hread
    refine ⟨trivial, hsorted.imp_of_mem ?_, hread⟩
    intro x y hx hy hlt
    rw [floor_nearest_of_safe (hread x hx), floor_nearest_of_safe (hread y hy)]
    exact hlt.le

end Keys

end BlurtJs

end Client

end Blurt
