import Blurt.Client.WireOperation

/-! # The operation serializer of blurtjs

The types of `types.js` with their checks, and the table of `operations.js`. A type is the
method `appendByteBuffer`, which yields the bytes it appends, with what the sorting of sets,
maps and arrays reads of it.
-/

namespace Blurt

namespace Client

namespace BlurtJs

open Wire

/-- A member of `Types`, or a `Serializer`. -/
structure SerializerType where
  appendByteBuffer : Js → Except String Bytes
  compare : Option (Js → Js → Int) := none
  nosort : Bool := false

/-! ## validation.js -/

def MAX_SAFE_INT : Int := 9007199254740991

def MIN_SAFE_INT : Int := -9007199254740991

def required (value : Js) : Except String Unit :=
  match value with
  | .undefined => .error "value required"
  | .null => .error "value required"
  | _ => .ok ()

/-- `require_range` of a number. -/
def requireRange (min max : Int) (value : Js) : Except String Int :=
  match value with
  | .number n => do
      Outcome.ensure (n ≤ MAX_SAFE_INT ∧ MIN_SAFE_INT ≤ n) "overflow"
      Outcome.ensure (min ≤ n ∧ n ≤ max) "out of range"
      return n
  | _ => .error "unsupported type"

def unsigned (value : Js) : Except String Js := do
  Outcome.ensure ('-' ∉ value.toText.toList) "unsigned required"
  return value

variable (lib : Libraries)

/-- `no_overflow64` of a string: the number without its zeros survives `Long`. -/
def noOverflow64 (value : List Char) : Except String Unit := do
  -- remove leading zeros, trailing zeros and a trailing dot
  let value := value.dropWhile (· = '0')
  let value := value.rdropWhile (· = '0')
  let value := if value.getLast? = some '.' then value.dropLast else value
  let value := if value = [] then ['0'] else value
  let long ← lib.longFromString (String.ofList value)
  Outcome.ensure (lib.longToString long = String.ofList value) "overflow"

/-- `to_long` of a string or a number. -/
def toLong (value : Js) : Except String Int :=
  match value with
  | .string s => do
      noOverflow64 lib s.toList
      lib.longFromString s
  | .number n => do
      Outcome.ensure (n ≤ MAX_SAFE_INT ∧ MIN_SAFE_INT ≤ n) "overflow"
      lib.longFromString (Js.number n).toText
  | _ => .error "unsupported type"

/-! ## Scalars -/

def uint16 : SerializerType where
  appendByteBuffer object := do
    let n ← requireRange 0 0xffff object
    lib.writeUint16 n

def uint32 : SerializerType where
  appendByteBuffer object := do
    let n ← requireRange 0 0xffffffff object
    lib.writeUint32 n

def int16 : SerializerType where
  appendByteBuffer object :=
    match object with
    | .number n => lib.writeInt16 n
    | _ => .error "Illegal value: (not an integer)"

def uint64 : SerializerType where
  appendByteBuffer object := do
    let value ← unsigned object
    let long ← toLong lib value
    lib.writeUint64 long

def string : SerializerType where
  appendByteBuffer object := do
    required object
    lib.writeVString object.toText

def bool : SerializerType where
  appendByteBuffer object :=
    match object with
    | .boolean b => lib.writeUint8 (if b then 1 else 0)
    | .number n => lib.writeUint8 (if n ≠ 0 then 1 else 0)
    | _ => .error "Unexpected token in JSON"

def timePointSec : SerializerType where
  appendByteBuffer object :=
    match object with
    | .number n => lib.writeUint32 n
    | .time seconds => lib.writeUint32 seconds
    | _ => .error "Unknown date type"

/-- `Types.void` -/
def futureExtensions : SerializerType where
  appendByteBuffer _ := .error "(void) undefined type"

/-- `Types.bytes()`, without a fixed size. -/
def bytes : SerializerType where
  appendByteBuffer object :=
    match object with
    | .string s => do
        let length ← lib.writeVarint32 (hexDecode s.toList).length
        return length ++ hexDecode s.toList
    | _ => .error "value required"

/-! ## Assets -/

/-- `damm_checksum_8digit`, whose result no caller reads. -/
def dammChecksum8digit (value : Nat) : Except String Unit :=
  Outcome.ensure (value < 100000000) "Expected value less than 100000000"

/-- The characters of the class `[A-Za-z0-9@]`. -/
def isSymbolChar (c : Char) : Bool :=
  ('A' ≤ c && c ≤ 'Z') || ('a' ≤ c && c ≤ 'z') || Decimal.isDigit c || c = '@'

/-- The rest of a text behind an optional dot. -/
def skipDot : List Char → List Char
  | '.' :: rest => rest
  | rest => rest

/-- `/^[0-9]+\.?[0-9]* [A-Za-z0-9@]+$/` -/
def isAmount (object : List Char) : Bool :=
  (object.takeWhile Decimal.isDigit ≠ []) &&
    match (skipDot (object.dropWhile Decimal.isDigit)).dropWhile Decimal.isDigit with
    | ' ' :: symbol => symbol ≠ [] && symbol.all isSymbolChar
    | _ => false

/-- `text.trim()` -/
def trim (text : List Char) : List Char :=
  (text.dropWhile Char.isWhitespace).rdropWhile Char.isWhitespace

/-- `amount.replace( ".", "" )` -/
def removeDot (amount : List Char) : List Char := amount.erase '.'

/-- The number of characters behind the first dot. -/
def precisionOf (amount : List Char) : Nat :=
  if '.' ∈ amount then amount.length - amount.idxOf '.' - 1 else 0

/-- `Types.asset` of a string. -/
def asset : SerializerType where
  appendByteBuffer object :=
    match object with
    | .string s => do
        let object := trim s.toList
        Outcome.ensure (isAmount object) "Expecting amount like '99.000 SYMBOL'"
        let amount := object.takeWhile (· ≠ ' ')
        let symbol := (object.dropWhile (· ≠ ' ')).tail.takeWhile (· ≠ ' ')
        let isNai := symbol.take 2 = ['@', '@']
        let nai := Decimal.parse (symbol.drop 2) / 10
        if isNai then
          dammChecksum8digit nai
        else
          Outcome.ensure (symbol.length ≤ 6) "Symbols are not longer than 6 characters"
        let long ← toLong lib (.string (String.ofList (removeDot amount)))
        let first ← lib.writeInt64 long
        let precision := precisionOf amount
        if isNai then
          -- a shift of 32 bits with a sign
          let second ← lib.writeUint32 (Int.bmod (nai * 2 ^ 5) (2 ^ 32) + 16 + precision)
          return first ++ second
        else
          let second ← lib.writeUint8 precision
          return first ++ (second ++ (symbol.map fun c => UInt8.ofNat c.toUpper.toNat) ++
            List.replicate (7 - symbol.length) 0)
    | _ => .error "object.trim is not a function"

/-! ## Collections -/

/-- `strCmp` of two strings. -/
def strCmp (a b : Text) : Int :=
  if utf16Key b < utf16Key a then 1 else if utf16Key a < utf16Key b then -1 else 0

/-- The difference of two numbers, or the comparison of two texts. -/
def compareValues (a b : Js) : Int :=
  match a, b with
  | .number m, .number n => m - n
  | a, b => strCmp a.toText b.toText

def firstEl (el : Js) : Js := if el.isArray then el.item 0 else el

/-- The order in which `sortOperation` puts two elements. -/
def order (stOperation : SerializerType) (a b : Js) : Int :=
  match stOperation.compare with
  | some compare => compare (firstEl a) (firstEl b)
  | none => compareValues (firstEl a) (firstEl b)

def sortOperation (array : List Js) (stOperation : SerializerType) : List Js :=
  if stOperation.nosort then array
  else array.insertionSort fun a b => order stOperation a b ≤ 0

/-- The search for duplicates by an object `dup_map`, which inherits members. -/
def checkDuplicates (seen : List Text) : List Js → Except String Unit
  | [] => .ok ()
  | .string s :: rest => do
      Outcome.ensure (s ∉ objectPrototype ∧ s ∉ seen) "duplicate"
      checkDuplicates (s :: seen) rest
  | _ :: rest => checkDuplicates seen rest

def array (stOperation : SerializerType) : SerializerType where
  appendByteBuffer object := do
    required object
    let items := sortOperation object.items stOperation
    let length ← lib.writeVarint32 items.length
    let rest ← writeAll stOperation.appendByteBuffer items
    return length ++ rest

def set (stOperation : SerializerType) : SerializerType where
  appendByteBuffer object := do
    let items := object.items
    let length ← lib.writeVarint32 items.length
    let rest ← checkDuplicates [] items >>= fun _ =>
      writeAll stOperation.appendByteBuffer (sortOperation items stOperation)
    return length ++ rest

def map (keyOperation valueOperation : SerializerType) : SerializerType where
  appendByteBuffer object := do
    Outcome.ensure object.isArray "expecting array"
    Outcome.ensure (∀ o ∈ object.items, o.items.length = 2) "expecting two elements"
    checkDuplicates [] (object.items.map (Js.item · 0))
    let items := sortOperation object.items keyOperation
    let length ← lib.writeVarint32 items.length
    let rest ← writeAll (fun o => do
      let key ← keyOperation.appendByteBuffer (o.item 0)
      let value ← valueOperation.appendByteBuffer (o.item 1)
      return key ++ value) items
    return length ++ rest

def optional (stOperation : SerializerType) : SerializerType where
  appendByteBuffer object :=
    match object with
    | .null => lib.writeUint8 0
    | .undefined => lib.writeUint8 0
    | _ => do
        let flag ← lib.writeUint8 1
        let rest ← stOperation.appendByteBuffer object
        return flag ++ rest

/-- The fields of a `Serializer`, one after the other. -/
def appendFields (types : List (String × SerializerType)) (object : Js) : Except String Bytes :=
  writeAll (fun field => do
    let value ← object.get field.1
    field.2.appendByteBuffer value) types

/-- `Serializer.compare`: by the first field. -/
def compareFirst (types : List (String × SerializerType)) (a b : Js) : Int :=
  match types with
  | [] => 0
  | (firstKey, firstType) :: _ =>
      match a.get firstKey, b.get firstKey with
      | .ok valA, .ok valB =>
          match firstType.compare with
          | some compare => compare valA valB
          | none => compareValues valA valB
      | _, _ => 0

def serializer (types : List (String × SerializerType)) : SerializerType where
  appendByteBuffer := appendFields types
  compare := some (compareFirst types)

/-- `opTypeId` -/
def opTypeId (names : List String) (value : Js) : Option Nat :=
  match value with
  | .number n => if 0 ≤ n ∧ n.toNat < names.length then some n.toNat else none
  | .string s => names.findIdx? (· = s)
  | _ => none

/-- `static_variant` -/
def staticVariant (operations : List (String × SerializerType)) : SerializerType where
  appendByteBuffer object := do
    required object
    match opTypeId (operations.map Prod.fst) (object.item 0) with
    | none => .error "value required operation"
    | some typeId =>
        match operations[typeId]? with
        | none => .error "value required operation"
        | some (_, stOperation) => do
            let first ← lib.writeVarint32 typeId
            let second ← stOperation.appendByteBuffer (object.item 1)
            return first ++ second
  nosort := true

/-! ## Keys -/

/-- `PublicKey.fromBuffer( buffer ).toBuffer()` -/
def publicKeyBytes (buffer : Bytes) : Except String Bytes :=
  if buffer = List.replicate 33 0 then .ok (List.replicate 33 0) else lib.reencodePoint buffer

/-- `PublicKey.fromStringOrThrow( public_key ).toBuffer()` -/
def fromStringOrThrow (publicKey : Text) : Except String Bytes := do
  Outcome.ensure (publicKey.toList.take 3 = ['B', 'L', 'T']) "Expecting key to begin with BLT"
  let decoded ← lib.base58Decode (String.ofList (publicKey.toList.drop 3))
  let checksum := decoded.drop (decoded.length - 4)
  let key := decoded.take (decoded.length - 4)
  Outcome.ensure (checksum = (lib.ripemd160 key).take 4) "Checksum did not match"
  publicKeyBytes lib key

def publicKey : SerializerType where
  appendByteBuffer object := do
    required object
    fromStringOrThrow lib object.toText
  compare := some fun a b => strCmp a.toText b.toText

/-! ## operations.js -/

def beneficiaries : SerializerType :=
  serializer [("account", string lib), ("weight", uint16 lib)]

def commentPayoutBeneficiaries : SerializerType :=
  serializer [("beneficiaries", set lib (beneficiaries lib))]

def commentPayoutBlurt : SerializerType := serializer [("percent_blurt", uint16 lib)]

def authority : SerializerType :=
  serializer [("weight_threshold", uint32 lib), ("account_auths", map lib (string lib) (uint16 lib)),
    ("key_auths", map lib (publicKey lib) (uint16 lib))]

def chainProperties : SerializerType :=
  serializer [("account_creation_fee", asset lib), ("maximum_block_size", uint32 lib)]

def vote : SerializerType :=
  serializer [("voter", string lib), ("author", string lib), ("permlink", string lib),
    ("weight", int16 lib)]

def comment : SerializerType :=
  serializer [("parent_author", string lib), ("parent_permlink", string lib),
    ("author", string lib), ("permlink", string lib), ("title", string lib), ("body", string lib),
    ("json_metadata", string lib)]

def transfer : SerializerType :=
  serializer [("from", string lib), ("to", string lib), ("amount", asset lib), ("memo", string lib)]

def transferToVesting : SerializerType :=
  serializer [("from", string lib), ("to", string lib), ("amount", asset lib)]

def withdrawVesting : SerializerType :=
  serializer [("account", string lib), ("vesting_shares", asset lib)]

def accountCreate : SerializerType :=
  serializer [("fee", asset lib), ("creator", string lib), ("new_account_name", string lib),
    ("owner", authority lib), ("active", authority lib), ("posting", authority lib),
    ("memo_key", publicKey lib), ("json_metadata", string lib)]

def accountUpdate : SerializerType :=
  serializer [("account", string lib), ("owner", optional lib (authority lib)),
    ("active", optional lib (authority lib)), ("posting", optional lib (authority lib)),
    ("memo_key", optional lib (publicKey lib)), ("json_metadata", string lib),
    ("posting_json_metadata", string lib), ("extensions", set lib futureExtensions)]

def witnessUpdate : SerializerType :=
  serializer [("owner", string lib), ("url", string lib), ("block_signing_key", publicKey lib),
    ("props", chainProperties lib), ("fee", asset lib)]

def accountWitnessVote : SerializerType :=
  serializer [("account", string lib), ("witness", string lib), ("approve", bool lib)]

def accountWitnessProxy : SerializerType :=
  serializer [("account", string lib), ("proxy", string lib)]

def custom : SerializerType :=
  serializer [("required_auths", set lib (string lib)), ("id", uint16 lib), ("data", bytes lib)]

def deleteComment : SerializerType :=
  serializer [("author", string lib), ("permlink", string lib)]

def customJson : SerializerType :=
  serializer [("required_auths", set lib (string lib)),
    ("required_posting_auths", set lib (string lib)), ("id", string lib), ("json", string lib)]

def commentOptions : SerializerType :=
  serializer [("author", string lib), ("permlink", string lib), ("max_accepted_payout", asset lib),
    ("allow_votes", bool lib), ("allow_curation_rewards", bool lib),
    ("extensions", set lib (staticVariant lib
      [("0", commentPayoutBeneficiaries lib), ("1", commentPayoutBlurt lib)]))]

def setWithdrawVestingRoute : SerializerType :=
  serializer [("from_account", string lib), ("to_account", string lib), ("percent", uint16 lib),
    ("auto_vest", bool lib)]

def claimAccount : SerializerType :=
  serializer [("creator", string lib), ("fee", asset lib), ("extensions", set lib futureExtensions)]

def createClaimedAccount : SerializerType :=
  serializer [("creator", string lib), ("new_account_name", string lib), ("owner", authority lib),
    ("active", authority lib), ("posting", authority lib), ("memo_key", publicKey lib),
    ("json_metadata", string lib), ("extensions", set lib futureExtensions)]

def requestAccountRecovery : SerializerType :=
  serializer [("recovery_account", string lib), ("account_to_recover", string lib),
    ("new_owner_authority", authority lib), ("extensions", set lib futureExtensions)]

def recoverAccount : SerializerType :=
  serializer [("account_to_recover", string lib), ("new_owner_authority", authority lib),
    ("recent_owner_authority", authority lib), ("extensions", set lib futureExtensions)]

def changeRecoveryAccount : SerializerType :=
  serializer [("account_to_recover", string lib), ("new_recovery_account", string lib),
    ("extensions", set lib futureExtensions)]

def escrowTransfer : SerializerType :=
  serializer [("from", string lib), ("to", string lib), ("agent", string lib),
    ("escrow_id", uint32 lib), ("blurt_amount", asset lib), ("fee", asset lib),
    ("ratification_deadline", timePointSec lib), ("escrow_expiration", timePointSec lib),
    ("json_meta", string lib)]

def escrowDispute : SerializerType :=
  serializer [("from", string lib), ("to", string lib), ("agent", string lib), ("who", string lib),
    ("escrow_id", uint32 lib)]

def escrowRelease : SerializerType :=
  serializer [("from", string lib), ("to", string lib), ("agent", string lib), ("who", string lib),
    ("receiver", string lib), ("escrow_id", uint32 lib), ("blurt_amount", asset lib)]

def escrowApprove : SerializerType :=
  serializer [("from", string lib), ("to", string lib), ("agent", string lib), ("who", string lib),
    ("escrow_id", uint32 lib), ("approve", bool lib)]

def transferToSavings : SerializerType :=
  serializer [("from", string lib), ("to", string lib), ("amount", asset lib), ("memo", string lib)]

def transferFromSavings : SerializerType :=
  serializer [("from", string lib), ("request_id", uint32 lib), ("to", string lib),
    ("amount", asset lib), ("memo", string lib)]

def cancelTransferFromSavings : SerializerType :=
  serializer [("from", string lib), ("request_id", uint32 lib)]

def customBinary : SerializerType :=
  serializer [("required_owner_auths", set lib (string lib)),
    ("required_active_auths", set lib (string lib)),
    ("required_posting_auths", set lib (string lib)),
    ("required_auths", array lib (authority lib)), ("id", string lib), ("data", bytes lib)]

def declineVotingRights : SerializerType :=
  serializer [("account", string lib), ("decline", bool lib)]

def resetAccount : SerializerType :=
  serializer [("reset_account", string lib), ("account_to_reset", string lib),
    ("new_owner_authority", authority lib)]

def setResetAccount : SerializerType :=
  serializer [("account", string lib), ("current_reset_account", string lib),
    ("reset_account", string lib)]

def claimRewardBalance : SerializerType :=
  serializer [("account", string lib), ("reward_blurt", asset lib), ("reward_vests", asset lib)]

def delegateVestingShares : SerializerType :=
  serializer [("delegator", string lib), ("delegatee", string lib), ("vesting_shares", asset lib)]

def witnessSetProperties : SerializerType :=
  serializer [("owner", string lib), ("props", string lib), ("extensions", set lib futureExtensions)]

def createProposal : SerializerType :=
  serializer [("creator", string lib), ("receiver", string lib), ("start_date", timePointSec lib),
    ("end_date", timePointSec lib), ("daily_pay", asset lib), ("subject", string lib),
    ("permlink", string lib), ("extensions", set lib futureExtensions)]

def removeProposal : SerializerType :=
  serializer [("proposal_owner", string lib), ("proposal_ids", array lib (uint64 lib)),
    ("extensions", set lib futureExtensions)]

def updateProposalVotes : SerializerType :=
  serializer [("voter", string lib), ("proposal_ids", array lib (uint64 lib)),
    ("approve", bool lib), ("extensions", set lib futureExtensions)]

/-- `operation.st_operations` without the virtual operations, which come last. -/
def stOperations : List (String × SerializerType) :=
  [("vote", vote lib),
    ("comment", comment lib),
    ("transfer", transfer lib),
    ("transfer_to_vesting", transferToVesting lib),
    ("withdraw_vesting", withdrawVesting lib),
    ("account_create", accountCreate lib),
    ("account_update", accountUpdate lib),
    ("witness_update", witnessUpdate lib),
    ("account_witness_vote", accountWitnessVote lib),
    ("account_witness_proxy", accountWitnessProxy lib),
    ("custom", custom lib),
    ("delete_comment", deleteComment lib),
    ("custom_json", customJson lib),
    ("comment_options", commentOptions lib),
    ("set_withdraw_vesting_route", setWithdrawVestingRoute lib),
    ("claim_account", claimAccount lib),
    ("create_claimed_account", createClaimedAccount lib),
    ("request_account_recovery", requestAccountRecovery lib),
    ("recover_account", recoverAccount lib),
    ("change_recovery_account", changeRecoveryAccount lib),
    ("escrow_transfer", escrowTransfer lib),
    ("escrow_dispute", escrowDispute lib),
    ("escrow_release", escrowRelease lib),
    ("escrow_approve", escrowApprove lib),
    ("transfer_to_savings", transferToSavings lib),
    ("transfer_from_savings", transferFromSavings lib),
    ("cancel_transfer_from_savings", cancelTransferFromSavings lib),
    ("custom_binary", customBinary lib),
    ("decline_voting_rights", declineVotingRights lib),
    ("reset_account", resetAccount lib),
    ("set_reset_account", setResetAccount lib),
    ("claim_reward_balance", claimRewardBalance lib),
    ("delegate_vesting_shares", delegateVestingShares lib),
    ("witness_set_properties", witnessSetProperties lib),
    ("create_proposal", createProposal lib),
    ("update_proposal_votes", updateProposalVotes lib),
    ("remove_proposal", removeProposal lib)]

/-- `operation` -/
def operation : SerializerType := staticVariant lib (stOperations lib)

end BlurtJs

end Client

end Blurt
