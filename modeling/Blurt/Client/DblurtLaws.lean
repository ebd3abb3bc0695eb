import Blurt.Client.Dblurt
import Blurt.Client.ValueLaws

/-! # What the serializers of dblurt write

A serializer agrees with a value under a condition when it writes the bytes of the node exactly
under that condition. Nothing is sorted: sets and maps are written in the order of the node.
-/

namespace Blurt

namespace Client

namespace Dblurt

open Wire WireOperation

/-- A serializer writes the bytes of a value exactly under a condition. -/
def Agrees (serializer : Serializer) (v : Value) (condition : Prop) : Prop :=
  Writes (serializer v.js) v.bytes condition

@[simp] theorem within_eq_ok {name : String} {out : Except String Bytes} {b : Bytes} :
    within name out = .ok b ↔ out = .ok b := by
  cases out with
  | ok bytes => exact Iff.rfl
  | error message =>
      apply iff_of_false
      · rintro ⟨⟩
      · rintro ⟨⟩

theorem writes_within {name : String} {out : Except String Bytes} {bytes : Bytes}
    {condition : Prop} (h : Writes out bytes condition) :
    Writes (within name out) bytes condition where
  iff := by
    rw [within_eq_ok]
    exact h.iff
  length := by
    intro b hb
    exact h.length (within_eq_ok.mp hb)

variable {lib : Libraries}

section Scalars

variable (hlib : lib.Documented)

include hlib

theorem agrees_string (s : Text) : Agrees (stringSerializer lib) (Value.string s) True :=
  Writes.of_eq (hlib.writeVString s)

theorem agrees_int16 {n : Int} (hlow : -2 ^ 15 ≤ n) (hhigh : n < 2 ^ 15) :
    Agrees (int16Serializer lib) (Value.int16 n) True :=
  Writes.of_eq (hlib.writeInt16 n hlow hhigh)

theorem agrees_uint16 {n : Nat} (h : n < 2 ^ 16) :
    Agrees (uint16Serializer lib) (Value.uint16 n) True :=
  Writes.of_eq (hlib.writeUint16 n h)

theorem writeUint32_natCast {n : Nat} (h : n < 2 ^ 32) :
    lib.writeUint32 n = .ok (LittleEndian.encode 4 n) := by
  rw [hlib.writeUint32 n (by omega) (by omega)]
  congr 2
  omega

theorem agrees_uint32 {n : Nat} (h : n < 2 ^ 32) :
    Agrees (uint32Serializer lib) (Value.uint32 n) True :=
  Writes.of_eq (writeUint32_natCast hlib h)

theorem agrees_date {seconds : Nat} (h : seconds < 2 ^ 32) :
    Agrees (dateSerializer lib) (Value.time seconds) True :=
  Writes.of_eq (writeUint32_natCast hlib h)

theorem writeInt8_bool (b : Bool) :
    lib.writeInt8 (if b then 1 else 0) = .ok [if b then 1 else 0] := by
  cases b with
  | true => exact hlib.writeInt8 1 (by decide)
  | false => exact hlib.writeInt8 0 (by decide)

theorem agrees_boolean (b : Bool) : Agrees (booleanSerializer lib) (Value.bool b) True :=
  Writes.of_eq (writeInt8_bool hlib b)

theorem agrees_binary (data : Text) :
    Agrees (variableBinarySerializer lib) (Value.binary data) True := by
  apply Writes.of_eq
  have hlength := hlib.writeVarint32 (textBytes data).length
  simp only [variableBinarySerializer, binarySerializer, hexBuffer, Value.binary,
    hexDecode_hexText, Outcome.ok_bind, hlength]
  rw [length_textBytes]
  rfl

/-! ## Collections -/

theorem writes_length (n : Nat) : Writes (lib.writeVarint32 n) (Value.unsignedInt n) True :=
  Writes.of_eq (hlib.writeVarint32 n)

section Array

variable {α : Type} {value : α → Value} {l : List α} {itemSerializer : Serializer}

theorem agrees_array {condition : α → Prop}
    (h : ∀ x ∈ l, Agrees itemSerializer (value x) (condition x)) :
    Agrees (arraySerializer lib itemSerializer) (Value.array (l.map value))
      (∀ x ∈ l, condition x) := by
  have hall := (writes_length hlib l.length).seq (Writes.all h)
  have hjs : (Value.array (l.map value)).js = .array (l.map fun x => (value x).js) := by
    simp [Value.array]
  have hbytes : (Value.array (l.map value)).bytes =
      Value.unsignedInt l.length ++ l.flatMap fun x => (value x).bytes := by
    simp [Value.array, List.flatMap_map]
  unfold Agrees
  rw [hjs, hbytes]
  simp only [arraySerializer, List.length_map]
  apply hall.congr
  simp

end Array

theorem agrees_names (names : List AccountName) :
    Agrees (arraySerializer lib (stringSerializer lib)) (Value.accountNames names) True := by
  apply Writes.congr (agrees_array hlib fun name _ => agrees_string hlib name)
  simp

/-- Nothing can be written for a future extension. -/
theorem agrees_futureExtensions (tags : List Nat) :
    Agrees (arraySerializer lib voidSerializer) (Value.futureExtensions tags) (tags = []) := by
  have hvoid : ∀ tag ∈ tags,
      Agrees voidSerializer (Value.variant tag (Value.struct [])) False :=
    fun _ _ => Writes.error not_false
  apply Writes.congr (agrees_array hlib hvoid)
  exact List.eq_nil_iff_forall_not_mem.symm

section FlatMap

variable {α : Type} {entries : List α} {k v : α → Value}
  {keySerializer valueSerializer : Serializer}

theorem agrees_flatMap {condition : α → Prop}
    (hkey : ∀ e ∈ entries, Agrees keySerializer (k e) (condition e))
    (hvalue : ∀ e ∈ entries, Agrees valueSerializer (v e) True) :
    Agrees (flatMapSerializer lib keySerializer valueSerializer)
      (Value.map (entries.map fun e => (k e, v e))) (∀ e ∈ entries, condition e) := by
  have hitems : Writes (writeAll (fun entry => do
        let key ← keySerializer (entry.item 0)
        let value ← valueSerializer (entry.item 1)
        return key ++ value) (entries.map fun e => Js.array [(k e).js, (v e).js]))
      (entries.flatMap fun e => (k e).bytes ++ (v e).bytes) (∀ e ∈ entries, condition e) := by
    apply Writes.all
    intro e he
    exact ((hkey e he).seq (hvalue e he)).congr (and_iff_left trivial)
  have hall := (writes_length hlib entries.length).seq hitems
  have hjs : (Value.map (entries.map fun e => (k e, v e))).js =
      .array (entries.map fun e => Js.array [(k e).js, (v e).js]) := by
    simp [Value.map]
  have hbytes : (Value.map (entries.map fun e => (k e, v e))).bytes =
      Value.unsignedInt entries.length ++ entries.flatMap fun e => (k e).bytes ++ (v e).bytes := by
    simp [Value.map, List.flatMap_map]
  unfold Agrees
  rw [hjs, hbytes]
  simp only [flatMapSerializer, List.length_map]
  apply hall.congr
  simp

end FlatMap

theorem agrees_optional {α : Type} {serializer : Serializer} {value : α → Value}
    {condition : α → Prop} (o : Option α) (htruthy : ∀ a ∈ o, truthy (value a).js = true)
    (h : ∀ a ∈ o, Agrees serializer (value a) (condition a)) :
    Agrees (optionalSerializer lib serializer) (Value.optional (o.map value))
      (∀ a ∈ o, condition a) := by
  cases o with
  | none =>
      apply (Writes.of_eq (hlib.writeInt8 0 (by decide))).congr
      simp
  | some a =>
      have hboth := (Writes.of_eq (hlib.writeInt8 1 (by decide))).seq (h a rfl)
      unfold Agrees
      simp only [Option.map_some, Value.optional, optionalSerializer, htruthy a rfl, if_true]
      apply hboth.congr
      simp

end Scalars

/-! ## Fields -/

/-- The fields of an `ObjectSerializer`. -/
abbrev FieldsAgree :=
  Client.FieldsAgree fun field : String × Serializer => fun value =>
    within field.1 (field.2 value)

section Fields

variable {keySerializers : List (String × Serializer)} {values : List (String × Value)}
  {c d : Prop}

/-- A field that is written whenever its value fits. -/
theorem FieldsAgree.skip {name : String} {serializer : Serializer} {v : Value}
    (hfirst : Agrees serializer v True) (hrest : FieldsAgree keySerializers values c) :
    FieldsAgree ((name, serializer) :: keySerializers) ((name, v) :: values) c :=
  Client.FieldsAgree.skip (writes_within hfirst) hrest

/-- A field that is written under a condition. -/
theorem FieldsAgree.cons {name : String} {serializer : Serializer} {v : Value}
    (hfirst : Agrees serializer v c) (hrest : FieldsAgree keySerializers values d) :
    FieldsAgree ((name, serializer) :: keySerializers) ((name, v) :: values) (c ∧ d) :=
  Client.FieldsAgree.cons (writes_within hfirst) hrest

theorem FieldsAgree.agrees (h : FieldsAgree keySerializers values c)
    (hnodup : (values.map Prod.fst).Nodup) (hiff : c ↔ d) :
    Agrees (objectSerializer keySerializers) (Value.struct values) d := by
  refine (h.writes_struct hnodup ?_).congr hiff
  intro field value hvalue
  rw [hvalue]
  rfl

/-- An object is not written where one of its fields is not. -/
theorem objectSerializer_ne {data : Js} {name : String} {serializer : Serializer} {v : Js}
    (hmem : (name, serializer) ∈ keySerializers) (hget : data.get name = .ok v)
    (hfield : ∀ b, serializer v ≠ .ok b) (b : Bytes) : objectSerializer keySerializers data ≠ .ok b := by
  intro hout
  unfold objectSerializer at hout
  induction keySerializers generalizing b with
  | nil => cases hmem
  | cons field rest ih =>
      simp only [writeAll, Outcome.bind_eq_ok, within_eq_ok] at hout
      obtain ⟨first, ⟨value, hvalue, hfirst⟩, others, hothers, -⟩ := hout
      rcases List.mem_cons.mp hmem with rfl | hmem
      · cases hget.symm.trans hvalue
        exact hfield first hfirst
      · exact ih hmem others hothers

end Fields

/-! ## Keys -/

/-- dblurt writes a key: one whose text ends like the null key's is written as the null key, and
any other must be a point of the curve. -/
def KeyReadable (lib : Libraries) (key : PublicKey) : Prop :=
  if nullKeyEnding.toList <:+ (Value.keyText lib key).toList then
    Value.keyBytes key = List.replicate 33 0
  else lib.publicKeyVerify (Value.keyBytes key) = true

/-- dblurt writes an authority. -/
def AuthorityReadable (lib : Libraries) (a : Authority) : Prop :=
  ∀ entry ∈ a.keyAuths, KeyReadable lib entry.1

section Keys

variable (hlib : lib.Documented)

include hlib

theorem decodePublic_keyText (key : PublicKey) :
    decodePublic lib (Value.keyText lib key).toList = .ok (Value.keyBytes key) := by
  have hchecksum : ((lib.ripemd160 (Value.keyBytes key)).take 4).length = 4 := by
    rw [List.length_take, hlib.length_ripemd160]
    rfl
  have hlength : (Value.keyBytes key ++ (lib.ripemd160 (Value.keyBytes key)).take 4).length - 4 =
      (Value.keyBytes key).length := by
    rw [List.length_append, hchecksum, Nat.add_sub_cancel]
  have htake : (Value.keyText lib key).toList.take 3 = ['B', 'L', 'T'] := by
    rw [toList_keyText]
    rfl
  have hdrop : String.ofList ((Value.keyText lib key).toList.drop 3) =
      lib.base58Encode (Value.keyBytes key ++ (lib.ripemd160 (Value.keyBytes key)).take 4) := by
    rw [toList_keyText]
    exact String.ofList_toList
  unfold decodePublic
  simp only [htake, hdrop, hlib.base58Decode, hlength, List.take_left, List.drop_left,
    Outcome.ok_bind, Outcome.bind_eq_ok, Outcome.ensure_eq_ok, Outcome.pure_eq_ok]
  exact ⟨(), rfl, (), trivial, trivial⟩

theorem agrees_publicKey (key : PublicKey) :
    Agrees (publicKeySerializer lib) (Value.publicKey lib key) (KeyReadable lib key) := by
  unfold Agrees KeyReadable
  simp only [Value.publicKey, publicKeySerializer, List.isSuffixOf_iff_suffix]
  split
  next =>
    constructor
    · rw [Except.ok.injEq, eq_comm]
    · rintro b ⟨⟩
      rw [List.length_replicate, Value.length_keyBytes]
  next =>
    have hguarded : Writes (Outcome.ensure (lib.publicKeyVerify (Value.keyBytes key) = true)
        "invalid public key" >>= fun _ => .ok (Value.keyBytes key)) (Value.keyBytes key)
        (lib.publicKeyVerify (Value.keyBytes key) = true ∧ True) :=
      (Writes.ok (Value.keyBytes key)).ensure
    unfold publicKeyFrom
    rw [decodePublic_keyText hlib, Outcome.ok_bind]
    exact hguarded.congr (and_iff_left trivial)

theorem agrees_authority {a : Authority} (h : FitsAuthority a) :
    Agrees (authoritySerializer lib) (Value.authority lib a) (AuthorityReadable lib a) := by
  have hnames := @agrees_flatMap lib hlib _ a.accountAuths _ _ _ _ _
    (fun entry _ => agrees_string hlib entry.1)
    fun entry hentry => agrees_uint16 hlib (h.nameWeights entry hentry)
  have hkeys := @agrees_flatMap lib hlib _ a.keyAuths _ _ _ _ _
    (fun entry _ => agrees_publicKey hlib entry.1)
    fun entry hentry => agrees_uint16 hlib (h.keyWeights entry hentry)
  apply FieldsAgree.agrees (.skip (agrees_uint32 hlib h.weightThreshold) <|
    .skip (hnames.congr (by simp)) <| .cons hkeys .nil)
  · simp
  · simp [AuthorityReadable]

theorem agrees_authorities {as : List Authority} (h : ∀ a ∈ as, FitsAuthority a) :
    Agrees (arraySerializer lib (authoritySerializer lib))
      (Value.array (as.map (Value.authority lib))) (∀ a ∈ as, AuthorityReadable lib a) :=
  agrees_array hlib fun a ha => agrees_authority hlib (h a ha)

theorem agrees_authority_option {o : Option Authority} (h : ∀ a ∈ o, FitsAuthority a) :
    Agrees (optionalSerializer lib (authoritySerializer lib))
      (Value.optional (o.map (Value.authority lib))) (∀ a ∈ o, AuthorityReadable lib a) :=
  agrees_optional hlib o (fun _ _ => rfl) fun a ha => agrees_authority hlib (h a ha)

end Keys

/-! ## Identifiers of proposals -/

/-- An identifier that is a double, or the largest one, at which the conversion stops. -/
def IdReadable (id : Int) : Prop := Double.nearest id = id ∨ id = 2 ^ 63 - 1

theorem idReadable_iff {id : Int} (hid : InInt64 id) :
    max (-2 ^ 63) (min ⌊Double.nearest id⌋ (2 ^ 63 - 1)) = id ↔ IdReadable id := by
  have hlowest : Double.nearest ((-2 ^ 63 : Int) : ℚ) = ((-2 ^ 63 : Int) : ℚ) := by decide +kernel
  have hlargest : Double.nearest ((2 ^ 63 - 1 : Int) : ℚ) = ((2 ^ 63 : Int) : ℚ) := by
    decide +kernel
  obtain ⟨m, hm⟩ := Double.exists_nearest_intCast id
  unfold IdReadable
  rw [hm, Int.floor_intCast, Int.cast_inj]
  obtain ⟨hlow, hhigh⟩ := hid
  constructor
  · intro hclamp
    by_cases hbelow : m < -2 ^ 63
    · have hid : id = -2 ^ 63 := by omega
      rw [hid, hlowest, Int.cast_inj] at hm
      omega
    · omega
  · rintro (rfl | rfl)
    · omega
    · rw [hlargest, Int.cast_inj] at hm
      omega

theorem agrees_int64 (hlib : lib.Documented) {id : Int} (hid : InInt64 id) :
    Agrees (int64Serializer lib) (Value.int64 id) (IdReadable id) := by
  set m := max (-2 ^ 63) (min ⌊Double.nearest id⌋ (2 ^ 63 - 1)) with hm
  have hrange : InInt64 m := by
    unfold InInt64
    omega
  have hout : int64Serializer lib (Value.int64 id).js = .ok (Value.int64Bytes m) := by
    simp only [int64Serializer, numberSerializer, Value.int64, hlib.longFromNumber]
    rw [← hm]
    exact hlib.writeInt64 m hrange
  unfold Agrees
  rw [hout]
  constructor
  · rw [Except.ok.injEq, Value.int64, Value.int64Bytes_inj hrange hid, hm]
    exact idReadable_iff hid
  · rintro b ⟨⟩
    rw [Value.int64, Value.length_int64Bytes, Value.length_int64Bytes]

end Dblurt

end Client

end Blurt
