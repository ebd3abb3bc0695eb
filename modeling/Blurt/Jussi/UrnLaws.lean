import Blurt.Foundation.Separated
import Blurt.Jussi.Urn

/-! # What a cache key tells of the request

The key joins the parts of a name with dots. The name space has none, but the API and the method of a
`call` are the client's own texts. A key gives back the parts of a request exactly among the requests
of one shape: which parts are there, and how many dots they have.
-/

namespace Blurt.Jussi

/-- What a key does not tell of the API. -/
inductive ApiShape where
  | absent
  | text (dots : Nat)
  | value (canonical : Json)

structure Shape where
  api : ApiShape
  methodDots : Nat
  hasParams : Bool

/-- The dots of a text. -/
def Json.dots : Json → Nat
  | .string text => text.count '.'
  | _ => 0

def Json.apiShape : Json → ApiShape
  | .string text => .text (text.count '.')
  | value => .value value.canon

/-- The shape of an API that a call names: numbers name APIs without a dot. -/
def Json.calledApiShape (api : Json) : ApiShape :=
  match api.asInt with
  | some _ => .text 0
  | none => api.apiShape

/-- A method text without a `call` names an API, unless it is a name space and a method. -/
def namesApi (method : Text) : Bool :=
  match method.splitOn '.' with
  | [first, _] => isAppbaseApi first || first == "jsonrpc".toList
  | _ => true

/-- The shape of a request. -/
def Request.shape (request : Request) : Shape :=
  if request.method = "call".toList then
    match request.params.bind Json.unpack with
    | some [api, method] => ⟨api.calledApiShape, method.dots, false⟩
    | some [api, method, _] => ⟨api.calledApiShape, method.dots, true⟩
    | _ => ⟨.absent, 0, false⟩
  else ⟨if namesApi request.method then .text 0 else .absent, 0, request.params.isSome⟩

namespace URN

variable {u v : URN}

/-- Two names say the same, objects compared up to key order. -/
structure Same (u v : URN) : Prop where
  nameSpace : u.nameSpace = v.nameSpace
  api : u.api.map Json.canon = v.api.map Json.canon
  method : u.method.canon = v.method.canon
  params : u.params.map Json.canon = v.params.map Json.canon

/-- The shape of a name. -/
def shape (u : URN) : Shape :=
  ⟨u.api.elim .absent Json.apiShape, u.method.dots, u.params.isSome⟩

end URN

/-! ## Names of requests -/

/-- What the pattern matches, by the parts of the method. -/
theorem parseJrpcMethod_cases {method : Text} {matched : MatchedMethod}
    (h : parseJrpcMethod method = some matched) :
    (matched = .bare method ∧ method.splitOn '.' = [method]) ∨
      (∃ api name, matched = .appbase api name ∧ method.splitOn '.' = [api, name] ∧
        isAppbaseApi api = true) ∨
      (∃ nameSpace name, matched = .nameSpaced nameSpace none name ∧
        method.splitOn '.' = [nameSpace, name] ∧ isAppbaseApi nameSpace = false) ∨
      ∃ nameSpace api name, matched = .nameSpaced nameSpace (some api) name ∧
        method.splitOn '.' = [nameSpace, api, name] := by
  have hjoin : ['.'].intercalate (method.splitOn '.') = method := List.intercalate_splitOn '.'
  unfold parseJrpcMethod at h
  split at h
  · rename_i bare hsplit
    split at h <;> cases h
    obtain rfl : bare = method := by simpa [hsplit] using hjoin
    exact .inl ⟨rfl, hsplit⟩
  · rename_i first name hsplit
    split at h
    · cases h
    · split at h <;> cases h
      · exact .inr (.inl ⟨first, name, rfl, hsplit, by assumption⟩)
      · exact .inr (.inr (.inl ⟨first, name, rfl, hsplit, by simp_all⟩))
  · rename_i nameSpace api name hsplit
    split at h <;> cases h
    exact .inr (.inr (.inr ⟨nameSpace, api, name, rfl, hsplit⟩))
  · cases h

/-- A number is resolved to the name of an API, and other APIs stay. -/
theorem resolveApi_apiShape {api resolved : Json} (h : resolveApi api = .ok resolved) :
    resolved.apiShape = api.calledApiShape := by
  unfold resolveApi at h
  unfold Json.calledApiShape
  split at h
  · cases h
    simp only [*]
  · split at h <;> cases h
    rename_i index hindex _ name hname
    rw [hindex]
    unfold steemdNumericApiMapping at hname
    split at hname
    · cases hname
      rfl
    · split at hname <;> cases hname
      rfl

theorem callNamespace_noDots (api params : Json) : '.' ∉ callNamespace api params := by
  unfold callNamespace
  split <;> decide

theorem parseCall_spec {request : Request} {urn : URN} (hcall : request.method = "call".toList)
    (h : parseCall request = .ok urn) : '.' ∉ urn.nameSpace ∧ urn.shape = request.shape := by
  unfold parseCall at h
  split at h
  · rename_i api method hparams
    have hshape : request.shape =
        { api := api.calledApiShape, methodDots := method.dots, hasParams := false } := by
      unfold Request.shape
      rw [if_pos hcall, hparams]
    cases hapi : resolveApi api with
    | error e => rw [hapi] at h; cases h
    | ok resolved =>
      rw [hapi] at h
      cases h
      rw [hshape]
      exact ⟨(by decide : '.' ∉ "appbase".toList),
        by simp [URN.shape, resolveApi_apiShape hapi]⟩
  · rename_i api method params hparams
    have hshape : request.shape =
        { api := api.calledApiShape, methodDots := method.dots, hasParams := true } := by
      unfold Request.shape
      rw [if_pos hcall, hparams]
    cases hapi : resolveApi api with
    | error e => rw [hapi] at h; cases h
    | ok resolved =>
      rw [hapi] at h
      cases h
      rw [hshape]
      exact ⟨callNamespace_noDots _ _, by simp [URN.shape, resolveApi_apiShape hapi]⟩
  · cases h

/-- The shape of a name whose API and method have no dots. -/
theorem URN.shape_of_noDots {nameSpace name : Text} {params : Option Json} (api : Option Text)
    (hapi : '.' ∉ api.getD []) (hname : '.' ∉ name) :
    URN.shape ⟨nameSpace, api.map .string, .string name, params⟩ =
      ⟨if api.isSome then .text 0 else .absent, 0, params.isSome⟩ := by
  have hmethod : (Json.string name).dots = 0 := List.count_eq_zero.mpr hname
  cases api with
  | none => rw [shape, hmethod]; rfl
  | some text =>
    have htext : (Json.string text).apiShape = .text 0 :=
      congrArg ApiShape.text (List.count_eq_zero.mpr hapi)
    rw [shape, hmethod, Option.map_some, Option.elim_some, htext]
    rfl

theorem Request.shape_of_ne_call {request : Request} (hcall : request.method ≠ "call".toList)
    {named : Bool} (hnamed : namesApi request.method = named) :
    request.shape = ⟨if named then .text 0 else .absent, 0, request.params.isSome⟩ := by
  rw [shape, if_neg hcall, hnamed]

theorem splitOn_call : "call".toList.splitOn '.' = ["call".toList] := by decide

/-- The name space of a request has no dots, and its name has its shape. -/
theorem parseJrpc_spec {request : Request} {urn : URN} (h : parseJrpc request = .ok urn) :
    '.' ∉ urn.nameSpace ∧ urn.shape = request.shape := by
  have hparts : ∀ part ∈ request.method.splitOn '.', '.' ∉ part :=
    fun _ => List.not_mem_of_mem_splitOn
  have hne : ∀ part rest, request.method.splitOn '.' = part :: rest → rest ≠ [] →
      request.method ≠ "call".toList := by
    intro part rest hsplit hrest hcall
    rw [hcall, splitOn_call] at hsplit
    exact hrest (List.cons.inj hsplit).2.symm
  unfold parseJrpc at h
  cases hmatched : parseJrpcMethod request.method with
  | none => rw [hmatched] at h; cases h
  | some matched =>
    rw [hmatched] at h
    rcases parseJrpcMethod_cases hmatched with ⟨rfl, hsplit⟩ | ⟨api, name, rfl, hsplit, hapi⟩ |
      ⟨nameSpace, name, rfl, hsplit, hapi⟩ | ⟨nameSpace, api, name, rfl, hsplit⟩ <;>
      rw [hsplit] at hparts <;> dsimp only at h
    · split at h
      · rename_i hcall
        exact parseCall_spec hcall h
      · rename_i hcall
        cases h
        have hnamed : namesApi request.method = true := by rw [namesApi, hsplit]
        rw [Request.shape_of_ne_call hcall hnamed]
        exact ⟨(by decide : '.' ∉ "steemd".toList),
          URN.shape_of_noDots (some "database_api".toList)
            (by decide) (hparts _ (by simp))⟩
    · cases h
      have hnamed : namesApi request.method = true := by rw [namesApi, hsplit]; simp [hapi]
      rw [Request.shape_of_ne_call (hne _ _ hsplit (by simp)) hnamed]
      exact ⟨(by decide : '.' ∉ "appbase".toList),
        URN.shape_of_noDots (some api) (hparts _ (by simp))
          (hparts _ (by simp))⟩
    · have hnamed : namesApi request.method = (nameSpace == "jsonrpc".toList) := by
        rw [namesApi, hsplit]
        simp only [hapi, Bool.false_or]
      rw [Request.shape_of_ne_call (hne _ _ hsplit (by simp)) hnamed]
      split at h <;> cases h
      · rename_i hjsonrpc
        rw [beq_iff_eq.mpr hjsonrpc]
        exact ⟨(by decide : '.' ∉ "appbase".toList),
          URN.shape_of_noDots (some "jsonrpc".toList) (by decide)
            (hparts _ (by simp))⟩
      · rename_i hjsonrpc
        rw [beq_eq_false_iff_ne.mpr hjsonrpc]
        exact ⟨hparts _ (by simp), URN.shape_of_noDots none List.not_mem_nil (hparts _ (by simp))⟩
    · have hnamed : namesApi request.method = true := by rw [namesApi, hsplit]
      rw [Request.shape_of_ne_call (hne _ _ hsplit (by simp)) hnamed]
      split at h <;> cases h
      · exact ⟨(by decide : '.' ∉ "appbase".toList),
          URN.shape_of_noDots (some "jsonrpc".toList) (by decide)
            (hparts _ (by simp))⟩
      · exact ⟨hparts _ (by simp),
          URN.shape_of_noDots (some api) (hparts _ (by simp))
            (hparts _ (by simp))⟩

/-- The name of a request holds no dot in its name space, and has the shape of the request. -/
theorem fromRequest_spec {request : Request} {urn : URN} (h : fromRequest request = .ok urn) :
    '.' ∉ urn.nameSpace ∧ urn.shape = request.shape := by
  unfold fromRequest at h
  cases hparsed : parseJrpc request with
  | error e => rw [hparsed] at h; cases h
  | ok parsed =>
    rw [hparsed] at h
    cases h
    have hspec := parseJrpc_spec hparsed
    exact ⟨hspec.1, by rw [← hspec.2]; simp [URN.shape]⟩

/-! ## Keys -/

section

variable {dumps pyStr : Json → Text} {u v : URN}

namespace Json

variable {x y : Json}

theorem apiShape_ne_absent (x : Json) : x.apiShape ≠ .absent := by
  cases x <;> simp [apiShape]

theorem SameUpToOrder.apiShape (h : x.SameUpToOrder y) : x.apiShape = y.apiShape := by
  unfold SameUpToOrder at h
  cases x <;> cases y <;> simp_all [canon, Json.apiShape]

theorem SameUpToOrder.dots (h : x.SameUpToOrder y) : x.dots = y.dots := by
  unfold SameUpToOrder at h
  cases x <;> cases y <;> simp_all [canon, Json.dots]

theorem elim_apiShape_congr {a b : Option Json} (h : a.map canon = b.map canon) :
    a.elim ApiShape.absent Json.apiShape = b.elim .absent Json.apiShape := by
  cases a with
  | none =>
    obtain rfl : b = none := by simpa using h.symm
    rfl
  | some x =>
    obtain ⟨y, rfl, hcanon⟩ := Option.map_eq_some_iff.mp h.symm
    exact SameUpToOrder.apiShape hcanon.symm

/-- Values of one shape are two texts with equally many dots, or two values that are no texts. -/
theorem apiShape_eq_cases (pyStr : Json → Text) (h : x.apiShape = y.apiShape) :
    (∃ s t, x = string s ∧ y = string t ∧ s.count '.' = t.count '.') ∨
      (strOf pyStr x = pyStr x ∧ strOf pyStr y = pyStr y ∧ x.SameUpToOrder y) := by
  cases x <;> cases y <;> simp_all [Json.apiShape, strOf, SameUpToOrder]

end Json

/-- The key in two halves: the name space, and what stands after its dot. -/
theorem URN.str_eq {key : Text} (h : u.str dumps pyStr = some key) :
    ∃ method, u.method = .string method ∧
      key = u.nameSpace ++ '.' :: ((u.api.elim [] fun api => strOf pyStr api ++ ['.']) ++
        (method ++ u.params.elim [] fun params => '.' :: ("params=".toList ++ dumps params))) := by
  unfold str at h
  split at h
  · rename_i method hmethod
    refine ⟨method, hmethod, (Option.some.inj h).symm.trans ?_⟩
    cases u.api <;> cases u.params <;> simp [List.intercalate]
  · cases h

/-- An API can be cut off the text that follows the name space, given its shape. -/
theorem api_cut {a b : Option Json} {s t : Text}
    (hstr : ∀ x ∈ a, ∀ y ∈ b, x.SameUpToOrder y → (pyStr x).count '.' = (pyStr y).count '.')
    (hshape : a.elim ApiShape.absent Json.apiShape = b.elim .absent Json.apiShape)
    (h : (a.elim [] fun api => strOf pyStr api ++ ['.']) ++ s =
      (b.elim [] fun api => strOf pyStr api ++ ['.']) ++ t) :
    a.map Json.canon = b.map Json.canon ∧ s = t := by
  cases a with
  | none =>
    cases b with
    | none => exact ⟨rfl, h⟩
    | some y => exact absurd hshape.symm y.apiShape_ne_absent
  | some x =>
    cases b with
    | none => exact absurd hshape x.apiShape_ne_absent
    | some y =>
      simp only [Option.elim_some, List.append_assoc, List.singleton_append] at h hshape
      rcases Json.apiShape_eq_cases pyStr hshape with
        ⟨xs, ys, rfl, rfl, hcount⟩ | ⟨hx, hy, hsame⟩
      · obtain ⟨rfl, rfl⟩ : xs = ys ∧ s = t := List.append_cons_inj_of_count_eq hcount h
        exact ⟨rfl, rfl⟩
      · rw [hx, hy] at h
        obtain ⟨-, rfl⟩ := List.append_cons_inj_of_count_eq (hstr x rfl y rfl hsame) h
        exact ⟨congrArg some hsame, rfl⟩

/-- Method and params can be told apart, given the dots of the method and whether there are params. -/
theorem method_cut {a b : Option Json} {s t : Text}
    (hdumps : ∀ x ∈ a, ∀ y ∈ b, dumps x = dumps y → x.SameUpToOrder y)
    (hdots : s.count '.' = t.count '.') (hparams : a.isSome = b.isSome)
    (h : s ++ (a.elim [] fun params => '.' :: ("params=".toList ++ dumps params)) =
      t ++ b.elim [] fun params => '.' :: ("params=".toList ++ dumps params)) :
    s = t ∧ a.map Json.canon = b.map Json.canon := by
  cases a with
  | none =>
    cases b with
    | none => exact ⟨by simpa using h, rfl⟩
    | some y => cases hparams
  | some x =>
    cases b with
    | none => cases hparams
    | some y =>
      obtain ⟨rfl, htail⟩ := List.append_cons_inj_of_count_eq hdots h
      exact ⟨rfl, congrArg some (hdumps x rfl y rfl (List.append_cancel_left htail))⟩

/-- Among requests with one key, those of one shape say the same, and no others do. -/
theorem URN.same_iff {r₁ r₂ : Request} {key : Text}
    (hu : fromRequest r₁ = .ok u) (hv : fromRequest r₂ = .ok v)
    (hdumps : ∀ x ∈ u.params, ∀ y ∈ v.params, dumps x = dumps y → x.SameUpToOrder y)
    (hstr : ∀ x ∈ u.api, ∀ y ∈ v.api, x.SameUpToOrder y →
      (pyStr x).count '.' = (pyStr y).count '.')
    (hkeyu : u.str dumps pyStr = some key) (hkeyv : v.str dumps pyStr = some key) :
    u.Same v ↔ r₁.shape = r₂.shape := by
  obtain ⟨hnsu, hshapeu⟩ := fromRequest_spec hu
  obtain ⟨hnsv, hshapev⟩ := fromRequest_spec hv
  rw [← hshapeu, ← hshapev]
  constructor
  · intro hsame
    have hapi : u.api.elim .absent Json.apiShape = v.api.elim .absent Json.apiShape :=
      Json.elim_apiShape_congr hsame.api
    have hparams : u.params.isSome = v.params.isSome := by
      simpa using congrArg Option.isSome hsame.params
    rw [shape, shape, hapi, Json.SameUpToOrder.dots hsame.method, hparams]
  · intro hshape
    obtain ⟨hapi, hdots, hparams⟩ := Shape.mk.inj hshape
    obtain ⟨method, hmethodu, hu⟩ := str_eq hkeyu
    obtain ⟨method', hmethodv, hv⟩ := str_eq hkeyv
    rw [hmethodu, hmethodv] at hdots
    have hcount : u.nameSpace.count '.' = v.nameSpace.count '.' := by
      rw [List.count_eq_zero.mpr hnsu, List.count_eq_zero.mpr hnsv]
    obtain ⟨hns, htail⟩ := List.append_cons_inj_of_count_eq hcount (hu.symm.trans hv)
    obtain ⟨hapis, hrest⟩ := api_cut hstr hapi htail
    obtain ⟨rfl, hparamsEq⟩ := method_cut hdumps hdots hparams hrest
    exact ⟨hns, hapis, by rw [hmethodu, hmethodv], hparamsEq⟩

end

end Blurt.Jussi

namespace Blurt.Sample

open Jussi

mutual

/-- JSON texts, for texts without characters to escape. -/
def dumps : Json → Text
  | .null => "null".toList
  | .bool b => (toString b).toList
  | .int n => (toString n).toList
  | .float mantissa exponent => (toString mantissa ++ "e" ++ toString exponent).toList
  | .string text => '"' :: text ++ ['"']
  | .array items => '[' :: dumpsItems items ++ [']']
  | .object fields => '\x7b' :: dumpsFields fields ++ ['\x7d']

def dumpsItems : List Json → Text
  | [] => []
  | [item] => dumps item
  | item :: items => dumps item ++ ',' :: dumpsItems items

def dumpsFields : List (Text × Json) → Text
  | [] => []
  | [field] => '"' :: field.1 ++ '"' :: ':' :: dumps field.2
  | field :: fields => '"' :: field.1 ++ '"' :: ':' :: dumps field.2 ++ ',' :: dumpsFields fields

end

/-- A call of an API with params. -/
def callOf (api : Json) (method : String) (params : List Json) : Request :=
  ⟨"call".toList, some (.array [api, .string method.toList, .array params])⟩

def getBlock : URN :=
  ⟨"steemd".toList, some (.string "database_api".toList), .string "get_block".toList,
    some (.array [.int 5])⟩

/-- A block asked for by the number of the API and by its name. -/
theorem getBlock_same : getBlock.Same getBlock ↔
    (callOf (.int 0) "get_block" [.int 5]).shape =
      (callOf (.string "database_api".toList) "get_block" [.int 5]).shape := by
  have hkey : getBlock.str dumps dumps =
      some "steemd.database_api.get_block.params=[5]".toList := by decide
  exact URN.same_iff rfl rfl (by rintro _ ⟨⟩ _ ⟨⟩ -; rfl) (by rintro _ ⟨⟩ _ ⟨⟩ -; rfl) hkey hkey

/-- Two calls whose dots stand in the API of the one and in the method of the other. -/
theorem dottedCalls_collide : ∃ u v key,
    fromRequest (callOf (.string "follow.api".toList) "get" []) = .ok u ∧
      fromRequest (callOf (.string "follow".toList) "api.get" []) = .ok v ∧
      u.str dumps dumps = some key ∧ v.str dumps dumps = some key ∧ ¬ u.Same v := by
  refine ⟨_, _, _, rfl, rfl, rfl, ?_, ?_⟩
  · simp [URN.str, strOf, List.intercalate, callNamespace, Json.isText, Json.isObject]
  · intro hsame
    simpa [Json.canon] using hsame.api

end Blurt.Sample
