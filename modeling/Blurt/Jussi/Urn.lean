import Blurt.Jussi.Json
import Mathlib.Data.List.Count

/-! # Resource names of requests

A request is named by a name space, an API, a method and its params. The text of this name is the key
under which the answer to the request is cached.
-/

namespace Blurt.Jussi

/-- What a request says, once `validate_jsonrpc_request` let it pass. -/
structure Request where
  method : Text
  params : Option Json

/-- The name of a request. A missing API and missing params are Python's `_empty`. -/
structure URN where
  nameSpace : Text
  api : Option Json
  method : Json
  params : Option Json

inductive URNError where
  | invalidNamespace (nameSpace : Text)
  | invalidNamespaceAPI (nameSpace : Text) (api : Int)

/-- The groups of `JRPC_METHOD_REGEX`. -/
inductive MatchedMethod where
  | appbase (api method : Text)
  | bare (method : Text)
  | nameSpaced (nameSpace : Text) (api : Option Text) (method : Text)

/-- The texts that `[^\.]+_api` matches among the texts without a dot. -/
def isAppbaseApi (part : Text) : Bool :=
  "_api".toList.isSuffixOf part && decide ("_api".toList.length < part.length)

/-- The match of `JRPC_METHOD_REGEX`: up to three parts between dots, none of them empty. -/
def parseJrpcMethod (method : Text) : Option MatchedMethod :=
  match method.splitOn '.' with
  | [bare] => if bare = [] then none else some (.bare bare)
  | [first, method] =>
    if first = [] ∨ method = [] then none
    else if isAppbaseApi first then some (.appbase first method)
    else some (.nameSpaced first none method)
  | [nameSpace, api, method] =>
    if nameSpace = [] ∨ api = [] ∨ method = [] then none
    else some (.nameSpaced nameSpace (some api) method)
  | _ => none

namespace Json

/-- The items that unpacking a value yields: an object is unpacked into its keys, and a text into its
characters. -/
def unpack : Json → Option (List Json)
  | array items => some items
  | object fields => some (fields.map fun field => string field.1)
  | string text => some (text.map fun c => string [c])
  | _ => none

def isText (text : Text) : Json → Bool
  | string t => t == text
  | _ => false

def isObject : Json → Bool
  | object _ => true
  | _ => false

/-- An object with its items sorted; other values stay. -/
def sorted : Json → Json
  | object fields => object (sortFields fields)
  | value => value

end Json

/-- `STEEMD_NUMERIC_API_MAPPING`, indexed from both ends. -/
def steemdNumericApiMapping (index : Int) : Option Text :=
  if index = 0 ∨ index = -2 then some "database_api".toList
  else if index = 1 ∨ index = -1 then some "login_api".toList
  else none

def resolveApi (api : Json) : Except URNError Json :=
  match api.asInt with
  | none => .ok api
  | some index =>
    match steemdNumericApiMapping index with
    | some name => .ok (.string name)
    | none => .error (.invalidNamespaceAPI "steemd".toList index)

/-- The name space of a call with three params. -/
def callNamespace (api params : Json) : Text :=
  if api.isText "condenser_api".toList || params.isObject || api.isText "jsonrpc".toList then
    "appbase".toList
  else "steemd".toList

/-- The branch of the method `call`. -/
def parseCall (request : Request) : Except URNError URN :=
  match request.params.bind Json.unpack with
  | some [api, method] => do
    let api ← resolveApi api
    return ⟨"appbase".toList, some api, method, none⟩
  | some [api, method, params] => do
    let nameSpace := callNamespace api params
    let api ← resolveApi api
    return ⟨nameSpace, some api, method, some params⟩
  | _ => .error (.invalidNamespace request.method)

def parseJrpc (request : Request) : Except URNError URN :=
  match parseJrpcMethod request.method with
  | some (.appbase api method) =>
    .ok ⟨"appbase".toList, some (.string api), .string method, request.params⟩
  | some (.nameSpaced nameSpace api method) =>
    if nameSpace = "jsonrpc".toList then
      .ok ⟨"appbase".toList, some (.string "jsonrpc".toList), .string method, request.params⟩
    else .ok ⟨nameSpace, api.map .string, .string method, request.params⟩
  | some (.bare method) =>
    if method = "call".toList then parseCall request
    else
      .ok ⟨"steemd".toList, some (.string "database_api".toList), .string method, request.params⟩
  | none => .error (.invalidNamespace request.method)

def fromRequest (request : Request) : Except URNError URN := do
  let parsed ← parseJrpc request
  return { parsed with params := parsed.params.map Json.sorted }

/-! ## The key -/

section

-- `ujson.dumps`, and `str` of a value that is no text
variable (dumps pyStr : Json → Text)

/-- `str` of a value. -/
def strOf : Json → Text
  | .string text => text
  | value => pyStr value

/-- `URN.__str__`, which fails when the method is no text. -/
def URN.str (urn : URN) : Option Text :=
  match urn.method with
  | .string method =>
    some (['.'].intercalate (urn.nameSpace :: (urn.api.map (strOf pyStr)).toList ++
      method :: (urn.params.map fun params => "params=".toList ++ dumps params).toList))
  | _ => none

/-- The key of a request, when it has one. -/
def jsonrpcCacheKey (request : Request) : Option Text :=
  match fromRequest request with
  | .ok urn => urn.str dumps pyStr
  | .error _ => none

end

end Blurt.Jussi
