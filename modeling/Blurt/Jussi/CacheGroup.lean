import Blurt.Foundation.Dictionary
import Blurt.Jussi.Urn
import Mathlib.Algebra.Group.Int.Defs

/-! # The cache of responses

Responses are cached under the keys of their requests, in the memory and in the caches that are
written to. How long depends on the setting of the upstream, and for some methods on whether the block
in the response is irreversible.
-/

namespace Blurt.Jussi

/-- A time to live in seconds. The members of `TTL` equal their values. -/
abbrev TTL := Option Int

namespace TTL

def defaultTtl : TTL := some 3
def noExpire : TTL := none
def noCache : TTL := some (-1)
def defaultExpireIfIrreversible : TTL := some (-2)

end TTL

section

-- `ujson.dumps`, and `str` of a value that is no text
variable (dumps pyStr : Json → Text)

/-- A request with its name, whose text was needed to find the upstream. -/
structure JSONRPCRequest where
  id : Option Json
  urn : URN
  key : Text
  str_urn : urn.str dumps pyStr = some key

end

/-! ## Blocks in responses -/

inductive BlockNum where
  | missing
  | number (n : Int)
  -- `int` raised
  | malformed
  deriving DecidableEq

section

variable (pyStr : Json → Text)

/-- `int(str(block_id)[:8], base=16)`. -/
def blockNumFromId (blockId : Json) : Option Int := intOf 16 ((strOf pyStr blockId).take 8)

def blockNumFromJsonrpcResponse (response : Json) : BlockNum :=
  let path := fun keys : List String => Json.getIn (keys.map String.toList) response
  let after := fun (id : Json) (blocks : Int) =>
    match blockNumFromId pyStr id with
    | some n => .number (n + blocks)
    | none => .malformed
  -- appbase get_block and get_block_header, steemd get_block and get_block_header
  if (path ["result", "block", "block_id"]).truthy then
    after (path ["result", "block", "block_id"]) 0
  else if (path ["result", "header", "previous"]).truthy then
    after (path ["result", "header", "previous"]) 1
  else if (path ["result", "block_id"]).truthy then after (path ["result", "block_id"]) 0
  else if (path ["result", "previous"]).truthy then after (path ["result", "previous"]) 1
  else .missing

/-- The block number is read, and not compared. -/
def irreversibleTtl (response lastIrreversibleBlockNum : Json) : TTL :=
  if !response.truthy then .noCache
  else
    match lastIrreversibleBlockNum.asInt with
    | none => .noCache
    | some _ =>
      match blockNumFromJsonrpcResponse pyStr response with
      | .malformed => .noCache
      | _ => .defaultTtl

/-! ## Responses to cache -/

def isValidNonErrorSingleJsonrpcResponse : Json → Bool
  | .object fields =>
    ((Json.object fields).field "result".toList).isSome &&
      fields.all fun field =>
        ["id".toList, "jsonrpc".toList, "result".toList].contains field.1
  | _ => false

def isGetBlockRequest (urn : URN) : Bool :=
  (urn.nameSpace == "steemd".toList || urn.nameSpace == "appbase".toList) &&
    urn.method.isText "get_block".toList

/-- `int(value)`. -/
def Json.toInt : Json → Option Int
  | .int n => some n
  | .bool b => some (if b then 1 else 0)
  | .float mantissa exponent =>
    some (if 0 ≤ exponent then mantissa * 10 ^ exponent.toNat
      else mantissa.tdiv (10 ^ (-exponent).toNat))
  | .string text => intOf 10 text
  | _ => none

/-- The number in the params of a request for a block. -/
def requestBlockNum (urn : URN) : Option Json :=
  match urn.params with
  | some (.array items) => items.head?
  | some (.object fields) => (Json.object fields).field "block_num".toList
  | _ => none

/-- The block id in the result of a response. -/
def responseBlockId (response : Json) : Option Json := do
  let result ← response.field "result".toList
  match result.field "block_id".toList with
  | some blockId => some blockId
  | none => (result.field "block".toList).bind (Json.field "block_id".toList)

/-- A request for a block and its response name one block. Whatever raises makes it `False`. -/
def isValidGetBlockResponse (urn : URN) (response : Json) : Bool :=
  if !isGetBlockRequest urn && isValidNonErrorSingleJsonrpcResponse response then false
  else match (requestBlockNum urn).bind Json.toInt,
      (responseBlockId response).bind (blockNumFromId pyStr) with
  | some requested, some found => requested == found
  | _, _ => false

structure UncacheableResponse where
  reason : String

def prepareResponseForCache (urn : URN) (response : Json) : Except UncacheableResponse Json :=
  if !isValidNonErrorSingleJsonrpcResponse response then
    .error ⟨"is_valid_non_error_single_jsonrpc_response"⟩
  else if isGetBlockRequest urn && !isValidGetBlockResponse pyStr urn response then
    .error ⟨"invalid get_block response"⟩
  else .ok response

end

/-! ## Looking up -/

/-- What the memory and the caches that are read answer at a moment; `None` is null. -/
structure CacheGroup where
  memory : Text → Json
  readCaches : List (Text → Json)

/-- A response to a client, put together from a cached one. -/
structure MergedResponse where
  id : Option Json
  jsonrpc : Text
  result : Json

inductive LookupError where
  -- the cached response has no result
  | noResult

namespace CacheGroup

variable (group : CacheGroup)

/-- The first answer of the caches that is not `None`. -/
def get (key : Text) : Json :=
  ((group.readCaches.map fun cache => cache key).find? fun answer => !answer.isNull).getD .null

/-- `[existing or next(cache_iter) for existing in results]`. -/
def fill : List Json → List Json → List Json
  | [], _ => []
  | existing :: results, answers =>
    if existing.truthy then existing :: fill results answers
    else
      match answers with
      | answer :: answers => answer :: fill results answers
      | [] => []

/-- The keys whose results are missing are asked of one cache after the other. -/
def mgetFrom (keys : List Text) : List (Text → Json) → List Json → List Json
  | [], results => results
  | cache :: caches, results =>
    let missing := ((keys.zip results).filter fun entry => !entry.2.truthy).map Prod.fst
    let results := fill results (missing.map cache)
    if results.all Json.truthy then results else mgetFrom keys caches results

def mget (keys : List Text) : List Json :=
  let results := fill (keys.map fun _ => .null) (keys.map group.memory)
  if results.all Json.truthy then results else mgetFrom keys group.readCaches results

/-- The last irreversible block number that was passed, or else the cached one. -/
def lastIrreversible (passed : Json) : Json :=
  let key := "last_irreversible_block_num".toList
  if passed.truthy then passed
  else if (group.memory key).truthy then group.memory key
  else group.get key

section

variable {dumps pyStr : Json → Text} (upstreamTtl : Text → TTL)

/-- The response to a request, from what is cached under its key. -/
def mergeCachedResponse (request : JSONRPCRequest dumps pyStr) (cached : Json) :
    Except LookupError (Option MergedResponse) :=
  if !cached.truthy then .ok none
  else
    match cached.field "result".toList with
    | some result => .ok (some ⟨request.id, "2.0".toList, result⟩)
    | none => .error .noResult

def getSingleJsonrpcResponse (request : JSONRPCRequest dumps pyStr) :
    Except LookupError (Option MergedResponse) :=
  if upstreamTtl request.key = .noCache then .ok none
  else if !(group.memory request.key).isNull then
    mergeCachedResponse request (group.memory request.key)
  else if !(group.get request.key).isNull then
    mergeCachedResponse request (group.get request.key)
  else .ok none

def getBatchJsonrpcResponses (requests : List (JSONRPCRequest dumps pyStr)) :
    Except LookupError (List (Option MergedResponse)) :=
  (requests.zip (group.mget (requests.map JSONRPCRequest.key))).mapM fun pair =>
    mergeCachedResponse pair.1 pair.2

/-! ## Writing -/

/-- A value that is set under a key, in the memory and in all caches that are written to. -/
structure Write where
  key : Text
  value : Json
  expireTime : TTL

def cacheSingleJsonrpcResponse (request : JSONRPCRequest dumps pyStr) (response : Json) (ttl : TTL)
    (lastIrreversibleBlockNum : Json) : Except UncacheableResponse (List Write) :=
  let ttl := if ttl = none ∨ ttl = some 0 then upstreamTtl request.key else ttl
  if ttl = .defaultExpireIfIrreversible then do
    let ttl := irreversibleTtl pyStr response (group.lastIrreversible lastIrreversibleBlockNum)
    let value ← prepareResponseForCache pyStr request.urn response
    return [⟨request.key, value, ttl⟩]
  else if ttl = .noCache then .ok []
  else do
    let value ← prepareResponseForCache pyStr request.urn response
    return [⟨request.key, value, ttl⟩]

/-- The responses that a batch caches, each with its time to live. -/
def batchTriplets (requests : List (JSONRPCRequest dumps pyStr)) (responses : List Json)
    (lastIrreversibleBlockNum : Json) : List (TTL × JSONRPCRequest dumps pyStr × Json) :=
  let last := group.lastIrreversible lastIrreversibleBlockNum
  let ttls := requests.map fun request => upstreamTtl request.key
  if !ttls.isEmpty && ttls.all (· == .defaultExpireIfIrreversible) then
    let ttls := responses.map fun response => irreversibleTtl pyStr response last
    (ttls.zip (requests.zip responses)).filter fun triplet => triplet.1 != .noCache
  else
    -- `new_ttls` holds the times to live for irreversible blocks, but `ttls` is what is zipped
    (ttls.zip (requests.zip responses)).filter fun triplet => triplet.1 != .noCache

/-- The triplets of a time to live. -/
def pairsOf (triplets : List (TTL × JSONRPCRequest dumps pyStr × Json)) (ttl : TTL) :
    List (Text × Json) :=
  (triplets.filter fun triplet => triplet.1 == ttl).map fun triplet =>
    (triplet.2.1.key, triplet.2.2)

/-- The writes for a batch, whose requests and responses are two lists of one length. -/
def cacheBatchJsonrpcResponse (requests : List (JSONRPCRequest dumps pyStr))
    (responses : List Json) (lastIrreversibleBlockNum : Json) : List Write :=
  let triplets := group.batchTriplets upstreamTtl requests responses lastIrreversibleBlockNum
  (triplets.map Prod.fst).eraseDups.flatMap fun ttl =>
    (pairsOf triplets ttl).toDict.map fun entry => ⟨entry.1, entry.2, ttl⟩

end

end CacheGroup

end Blurt.Jussi
