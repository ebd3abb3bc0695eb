import Blurt.Client.WireOperation

/-! # The operation serializers of dblurt

The serializers of `serializer.ts`, with what they use of `asset.ts`, `crypto.ts` and
`misc.ts`. A serializer yields the bytes that it appends to the buffer.
-/

namespace Blurt

namespace Client

namespace Dblurt

open Wire

abbrev Serializer := Js → Except String Bytes

/-- An error that gets a prefix on its way. -/
def within (name : String) (out : Except String Bytes) : Except String Bytes :=
  out.mapError fun message => name ++ ": " ++ message

/-- What counts as true in a condition. -/
def truthy : Js → Bool
  | .undefined => false
  | .null => false
  | .boolean b => b
  | .number n => n ≠ 0
  | .string s => s ≠ ""
  | _ => true

variable (lib : Libraries)

/-! ## Scalars -/

def voidSerializer : Serializer := fun _ => .error "Void can not be serialized"

def stringSerializer : Serializer
  | .string s => lib.writeVString s
  | _ => .error "Illegal str: Not a string"

/-- A method of the buffer that takes an integer. -/
def numberSerializer (write : Int → Except String Bytes) : Serializer
  | .number n => write n
  | _ => .error "Illegal value: not an integer"

def int16Serializer : Serializer := numberSerializer lib.writeInt16

def int64Serializer : Serializer := numberSerializer fun n => lib.writeInt64 (lib.longFromNumber n)

def uint16Serializer : Serializer := numberSerializer lib.writeUint16

def uint32Serializer : Serializer := numberSerializer lib.writeUint32

def booleanSerializer : Serializer := fun data => lib.writeInt8 (if truthy data then 1 else 0)

/-- A date is given as a text in UTC. -/
def dateSerializer : Serializer
  | .time seconds => lib.writeUint32 seconds
  | _ => .error "Illegal value: NaN (not an integer)"

/-! ## Assets -/

/-- An amount, which is a double, and its symbol. -/
structure Asset where
  amount : ℚ
  symbol : List Char

namespace Asset

/-- The sign of a number and what follows it. -/
def sign : List Char → Bool × List Char
  | '-' :: rest => (true, rest)
  | '+' :: rest => (false, rest)
  | rest => (false, rest)

/-- The exponent that a numeral ends with. -/
def exponent : List Char → Int
  | [] => 0
  | e :: rest =>
      if e = 'e' ∨ e = 'E' then
        let (negative, digits) := sign rest
        let magnitude : Int := Decimal.parse (digits.takeWhile Decimal.isDigit)
        if negative then -magnitude else magnitude
      else 0

/-- The digits behind a dot and what follows them. -/
def splitFraction : List Char → List Char × List Char
  | '.' :: rest => (rest.takeWhile Decimal.isDigit, rest.dropWhile Decimal.isDigit)
  | rest => ([], rest)

/-- `Number.parseFloat`, none where the result is not finite. -/
def parseFloat (text : List Char) : Option ℚ :=
  let (negative, text) := sign (text.dropWhile Char.isWhitespace)
  let whole := text.takeWhile Decimal.isDigit
  let (fraction, rest) := splitFraction (text.dropWhile Decimal.isDigit)
  if whole ++ fraction = [] then none
  else
    let magnitude : ℚ := Decimal.parse (whole ++ fraction) * 10 ^ (exponent rest - fraction.length)
    let value := Double.nearest (if negative then -magnitude else magnitude)
    if |value| < 2 ^ 1024 then some value else none

/-- The symbols that `fromString` accepts. -/
def symbols : List (List Char) :=
  ["BLURT".toList, "HIVE".toList, "VESTS".toList, "HBD".toList, "TESTS".toList, "TBD".toList,
    "SBD".toList, "STEEM".toList]

def fromString (string : List Char) : Except String Asset := do
  let amountString := string.takeWhile (· ≠ ' ')
  let symbol :=
    match string.dropWhile (· ≠ ' ') with
    | [] => "undefined".toList
    | _ :: rest => rest.takeWhile (· ≠ ' ')
  Outcome.ensure (symbol ∈ symbols) ("Invalid asset symbol: " ++ String.ofList symbol)
  match parseFloat amountString with
  | some amount => .ok ⟨amount, symbol⟩
  | none => .error ("Invalid asset amount: " ++ String.ofList amountString)

/-- `Asset.from` -/
def fromValue (value : Js) : Except String Asset :=
  match value with
  | .number n => .ok ⟨n, "STEEM".toList⟩
  | .string s => fromString s.toList
  | _ => .error ("Invalid asset '" ++ value.toText ++ "'")

def getPrecision (asset : Asset) : Nat := if asset.symbol = "VESTS".toList then 6 else 3

def steemSymbols (asset : Asset) : Asset :=
  if asset.symbol = "HIVE".toList then ⟨asset.amount, "STEEM".toList⟩
  else if asset.symbol = "HBD".toList then ⟨asset.amount, "SBD".toList⟩
  else asset

end Asset

/-- `asset.symbol.charCodeAt( i ) || 0` -/
def charCodeAt (symbol : List Char) (i : Nat) : Int := ((symbol[i]?.map Char.toNat).getD 0 : Nat)

def assetSerializer : Serializer := fun data => do
  let value ← Asset.fromValue data
  let asset := value.steemSymbols
  let precision := asset.getPrecision
  let amount ← lib.writeInt64
    (lib.longFromNumber (round (Double.nearest (asset.amount * 10 ^ precision))))
  let decimals ← lib.writeUint8 precision
  let symbol ← writeAll (fun i => lib.writeUint8 (charCodeAt asset.symbol i)) (List.range 7)
  return amount ++ (decimals ++ symbol)

/-! ## Keys -/

/-- How the text of the null key ends. -/
def nullKeyEnding : Text := "1111111111111111111111111111111114T1Anm"

def decodePublic (encodedKey : List Char) : Except String Bytes := do
  Outcome.ensure ((encodedKey.take 3).length = 3) "public key invalid prefix"
  let buffer ← lib.base58Decode (String.ofList (encodedKey.drop 3))
  let checksum := buffer.drop (buffer.length - 4)
  let key := buffer.take (buffer.length - 4)
  Outcome.ensure ((lib.ripemd160 key).take 4 = checksum) "public key checksum mismatch"
  return key

/-- `PublicKey.from( wif ).key` -/
def publicKeyFrom (wif : List Char) : Except String Bytes := do
  let key ← decodePublic lib wif
  Outcome.ensure (lib.publicKeyVerify key = true) "invalid public key"
  return key

def publicKeySerializer : Serializer
  | .null => .ok (List.replicate 33 0)
  | .string s =>
      if nullKeyEnding.toList.isSuffixOf s.toList then .ok (List.replicate 33 0)
      else publicKeyFrom lib s.toList
  | _ => .error "encodedKey.slice is not a function"

/-! ## Binary data -/

/-- An element of an array as a byte of a buffer. -/
def bufferByte : Js → UInt8
  | .number n => UInt8.ofNat (n % 256).toNat
  | _ => 0

/-- `HexBuffer.from( value ).buffer` -/
def hexBuffer : Js → Except String Bytes
  | .string s => .ok (hexDecode s.toList)
  | .array items => .ok (items.map bufferByte)
  | _ => .error "The first argument must be of type string, Buffer or Array"

def binarySerializer (size : Option Nat) : Serializer := fun data => do
  let buffer ← hexBuffer data
  match size with
  | some size => do
      Outcome.ensure (buffer.length = size) ("Unable to serialize binary. Expected " ++
        String.ofList (Decimal.text size) ++ " bytes, got " ++
        String.ofList (Decimal.text buffer.length))
      return buffer
  | none => do
      let length ← lib.writeVarint32 buffer.length
      return length ++ buffer

def variableBinarySerializer : Serializer := binarySerializer lib none

/-! ## Collections -/

def staticVariantSerializer (itemSerializers : List Serializer) : Serializer := fun data =>
  match data.item 0 with
  | .number id => do
      let first ← lib.writeVarint32 id
      match if 0 ≤ id then itemSerializers[id.toNat]? else none with
      | some itemSerializer => do
          let second ← itemSerializer (data.item 1)
          return first ++ second
      | none => .error "itemSerializers[id] is not a function"
  | _ => .error "Illegal value: not an integer"

def flatMapSerializer (keySerializer valueSerializer : Serializer) : Serializer
  | .array items => do
      let length ← lib.writeVarint32 items.length
      let rest ← writeAll (fun entry => do
        let key ← keySerializer (entry.item 0)
        let value ← valueSerializer (entry.item 1)
        return key ++ value) items
      return length ++ rest
  | _ => .error "data is not iterable"

def arraySerializer (itemSerializer : Serializer) : Serializer
  | .array items => do
      let length ← lib.writeVarint32 items.length
      let rest ← writeAll itemSerializer items
      return length ++ rest
  | _ => .error "data is not iterable"

def objectSerializer (keySerializers : List (String × Serializer)) : Serializer := fun data =>
  writeAll (fun field => within field.1 (do
    let value ← data.get field.1
    field.2 value)) keySerializers

def optionalSerializer (valueSerializer : Serializer) : Serializer := fun data =>
  if truthy data then do
    let flag ← lib.writeInt8 1
    let rest ← valueSerializer data
    return flag ++ rest
  else lib.writeInt8 0

def authoritySerializer : Serializer :=
  objectSerializer [("weight_threshold", uint32Serializer lib),
    ("account_auths", flatMapSerializer lib (stringSerializer lib) (uint16Serializer lib)),
    ("key_auths", flatMapSerializer lib (publicKeySerializer lib) (uint16Serializer lib))]

def beneficiarySerializer : Serializer :=
  objectSerializer [("account", stringSerializer lib), ("weight", uint16Serializer lib)]

def priceSerializer : Serializer :=
  objectSerializer [("base", assetSerializer lib), ("quote", assetSerializer lib)]

def signedBlockHeaderSerializer : Serializer :=
  objectSerializer [("previous", binarySerializer lib (some 20)),
    ("timestamp", dateSerializer lib), ("witness", stringSerializer lib),
    ("transaction_merkle_root", binarySerializer lib (some 20)),
    ("extensions", arraySerializer lib voidSerializer),
    ("witness_signature", binarySerializer lib (some 65))]

def chainPropertiesSerializer : Serializer :=
  objectSerializer [("account_creation_fee", assetSerializer lib),
    ("maximum_block_size", uint32Serializer lib), ("hbd_interest_rate", uint16Serializer lib)]

/-! ## Operations -/

def operationDataSerializer (operationId : Nat) (definitions : List (String × Serializer)) :
    Serializer := fun data => do
  let first ← lib.writeVarint32 operationId
  let rest ← objectSerializer definitions data
  return first ++ rest

def accountCreate : Serializer :=
  operationDataSerializer lib 5 [("fee", assetSerializer lib), ("creator", stringSerializer lib),
    ("new_account_name", stringSerializer lib), ("owner", authoritySerializer lib),
    ("active", authoritySerializer lib), ("posting", authoritySerializer lib),
    ("memo_key", publicKeySerializer lib), ("json_metadata", stringSerializer lib)]

def accountCreateWithDelegation : Serializer :=
  operationDataSerializer lib 41 [("fee", assetSerializer lib),
    ("delegation", assetSerializer lib), ("creator", stringSerializer lib),
    ("new_account_name", stringSerializer lib), ("owner", authoritySerializer lib),
    ("active", authoritySerializer lib), ("posting", authoritySerializer lib),
    ("memo_key", publicKeySerializer lib), ("json_metadata", stringSerializer lib),
    ("extensions", arraySerializer lib voidSerializer)]

def accountUpdate : Serializer :=
  operationDataSerializer lib 6 [("account", stringSerializer lib),
    ("owner", optionalSerializer lib (authoritySerializer lib)),
    ("active", optionalSerializer lib (authoritySerializer lib)),
    ("posting", optionalSerializer lib (authoritySerializer lib)),
    ("memo_key", optionalSerializer lib (authoritySerializer lib)),
    ("json_metadata", stringSerializer lib), ("posting_json_metadata", stringSerializer lib),
    ("extensions", arraySerializer lib voidSerializer)]

def accountWitnessProxy : Serializer :=
  operationDataSerializer lib 9 [("account", stringSerializer lib),
    ("proxy", stringSerializer lib)]

def accountWitnessVote : Serializer :=
  operationDataSerializer lib 8 [("account", stringSerializer lib),
    ("witness", stringSerializer lib), ("approve", booleanSerializer lib)]

def cancelTransferFromSavings : Serializer :=
  operationDataSerializer lib 26 [("from", stringSerializer lib),
    ("request_id", uint32Serializer lib)]

def changeRecoveryAccount : Serializer :=
  operationDataSerializer lib 19 [("account_to_recover", stringSerializer lib),
    ("new_recovery_account", stringSerializer lib),
    ("extensions", arraySerializer lib voidSerializer)]

def claimAccount : Serializer :=
  operationDataSerializer lib 15 [("creator", stringSerializer lib), ("fee", assetSerializer lib),
    ("extensions", arraySerializer lib voidSerializer)]

def claimRewardBalance : Serializer :=
  operationDataSerializer lib 31 [("account", stringSerializer lib),
    ("reward_blurt", assetSerializer lib), ("reward_vests", assetSerializer lib)]

def comment : Serializer :=
  operationDataSerializer lib 1 [("parent_author", stringSerializer lib),
    ("parent_permlink", stringSerializer lib), ("author", stringSerializer lib),
    ("permlink", stringSerializer lib), ("title", stringSerializer lib),
    ("body", stringSerializer lib), ("json_metadata", stringSerializer lib)]

def commentOptions : Serializer :=
  operationDataSerializer lib 13 [("author", stringSerializer lib),
    ("permlink", stringSerializer lib), ("max_accepted_payout", assetSerializer lib),
    ("allow_votes", booleanSerializer lib), ("allow_curation_rewards", booleanSerializer lib),
    ("extensions", arraySerializer lib (staticVariantSerializer lib [objectSerializer [
      ("beneficiaries", arraySerializer lib (beneficiarySerializer lib)),
      ("percent_blurt", uint16Serializer lib)]]))]

def convert : Serializer :=
  operationDataSerializer lib 8 [("owner", stringSerializer lib),
    ("requestid", uint32Serializer lib), ("amount", assetSerializer lib)]

def createClaimedAccount : Serializer :=
  operationDataSerializer lib 16 [("creator", stringSerializer lib),
    ("new_account_name", stringSerializer lib), ("owner", authoritySerializer lib),
    ("active", authoritySerializer lib), ("posting", authoritySerializer lib),
    ("memo_key", publicKeySerializer lib), ("json_metadata", stringSerializer lib),
    ("extensions", arraySerializer lib voidSerializer)]

def custom : Serializer :=
  operationDataSerializer lib 10 [("required_auths", arraySerializer lib (stringSerializer lib)),
    ("id", uint16Serializer lib), ("data", variableBinarySerializer lib)]

def customBinary : Serializer :=
  operationDataSerializer lib 27 [
    ("required_owner_auths", arraySerializer lib (stringSerializer lib)),
    ("required_active_auths", arraySerializer lib (stringSerializer lib)),
    ("required_posting_auths", arraySerializer lib (stringSerializer lib)),
    ("required_auths", arraySerializer lib (authoritySerializer lib)),
    ("id", stringSerializer lib), ("data", variableBinarySerializer lib)]

def customJson : Serializer :=
  operationDataSerializer lib 12 [("required_auths", arraySerializer lib (stringSerializer lib)),
    ("required_posting_auths", arraySerializer lib (stringSerializer lib)),
    ("id", stringSerializer lib), ("json", stringSerializer lib)]

def declineVotingRights : Serializer :=
  operationDataSerializer lib 28 [("account", stringSerializer lib),
    ("decline", booleanSerializer lib)]

def delegateVestingShares : Serializer :=
  operationDataSerializer lib 32 [("delegator", stringSerializer lib),
    ("delegatee", stringSerializer lib), ("vesting_shares", assetSerializer lib)]

def deleteComment : Serializer :=
  operationDataSerializer lib 17 [("author", stringSerializer lib),
    ("permlink", stringSerializer lib)]

def escrowApprove : Serializer :=
  operationDataSerializer lib 23 [("from", stringSerializer lib), ("to", stringSerializer lib),
    ("agent", stringSerializer lib), ("who", stringSerializer lib),
    ("escrow_id", uint32Serializer lib), ("approve", booleanSerializer lib)]

def escrowDispute : Serializer :=
  operationDataSerializer lib 21 [("from", stringSerializer lib), ("to", stringSerializer lib),
    ("agent", stringSerializer lib), ("who", stringSerializer lib),
    ("escrow_id", uint32Serializer lib)]

def escrowRelease : Serializer :=
  operationDataSerializer lib 22 [("from", stringSerializer lib), ("to", stringSerializer lib),
    ("agent", stringSerializer lib), ("who", stringSerializer lib),
    ("receiver", stringSerializer lib), ("escrow_id", uint32Serializer lib),
    ("hbd_amount", assetSerializer lib), ("hive_amount", assetSerializer lib)]

def escrowTransfer : Serializer :=
  operationDataSerializer lib 20 [("from", stringSerializer lib), ("to", stringSerializer lib),
    ("hbd_amount", assetSerializer lib), ("hive_amount", assetSerializer lib),
    ("escrow_id", uint32Serializer lib), ("agent", stringSerializer lib),
    ("fee", assetSerializer lib), ("json_meta", stringSerializer lib),
    ("ratification_deadline", dateSerializer lib), ("escrow_expiration", dateSerializer lib)]

def feedPublish : Serializer :=
  operationDataSerializer lib 7 [("publisher", stringSerializer lib),
    ("exchange_rate", priceSerializer lib)]

def limitOrderCancel : Serializer :=
  operationDataSerializer lib 6 [("owner", stringSerializer lib),
    ("orderid", uint32Serializer lib)]

def limitOrderCreate : Serializer :=
  operationDataSerializer lib 5 [("owner", stringSerializer lib),
    ("orderid", uint32Serializer lib), ("amount_to_sell", assetSerializer lib),
    ("min_to_receive", assetSerializer lib), ("fill_or_kill", booleanSerializer lib),
    ("expiration", dateSerializer lib)]

def limitOrderCreate2 : Serializer :=
  operationDataSerializer lib 21 [("owner", stringSerializer lib),
    ("orderid", uint32Serializer lib), ("amount_to_sell", assetSerializer lib),
    ("fill_or_kill", booleanSerializer lib), ("exchange_rate", priceSerializer lib),
    ("expiration", dateSerializer lib)]

def recoverAccount : Serializer :=
  operationDataSerializer lib 18 [("account_to_recover", stringSerializer lib),
    ("new_owner_authority", authoritySerializer lib),
    ("recent_owner_authority", authoritySerializer lib),
    ("extensions", arraySerializer lib voidSerializer)]

def reportOverProduction : Serializer :=
  operationDataSerializer lib 16 [("reporter", stringSerializer lib),
    ("first_block", signedBlockHeaderSerializer lib),
    ("second_block", signedBlockHeaderSerializer lib)]

def requestAccountRecovery : Serializer :=
  operationDataSerializer lib 17 [("recovery_account", stringSerializer lib),
    ("account_to_recover", stringSerializer lib),
    ("new_owner_authority", authoritySerializer lib),
    ("extensions", arraySerializer lib voidSerializer)]

def resetAccount : Serializer :=
  operationDataSerializer lib 29 [("reset_account", stringSerializer lib),
    ("account_to_reset", stringSerializer lib), ("new_owner_authority", authoritySerializer lib)]

def setResetAccount : Serializer :=
  operationDataSerializer lib 30 [("account", stringSerializer lib),
    ("current_reset_account", stringSerializer lib), ("reset_account", stringSerializer lib)]

def setWithdrawVestingRoute : Serializer :=
  operationDataSerializer lib 20 [("from_account", stringSerializer lib),
    ("to_account", stringSerializer lib), ("percent", uint16Serializer lib),
    ("auto_vest", booleanSerializer lib)]

def transfer : Serializer :=
  operationDataSerializer lib 2 [("from", stringSerializer lib), ("to", stringSerializer lib),
    ("amount", assetSerializer lib), ("memo", stringSerializer lib)]

def transferFromSavings : Serializer :=
  operationDataSerializer lib 25 [("from", stringSerializer lib),
    ("request_id", uint32Serializer lib), ("to", stringSerializer lib),
    ("amount", assetSerializer lib), ("memo", stringSerializer lib)]

def transferToSavings : Serializer :=
  operationDataSerializer lib 24 [("from", stringSerializer lib), ("to", stringSerializer lib),
    ("amount", assetSerializer lib), ("memo", stringSerializer lib)]

def transferToVesting : Serializer :=
  operationDataSerializer lib 3 [("from", stringSerializer lib), ("to", stringSerializer lib),
    ("amount", assetSerializer lib)]

def vote : Serializer :=
  operationDataSerializer lib 0 [("voter", stringSerializer lib),
    ("author", stringSerializer lib), ("permlink", stringSerializer lib),
    ("weight", int16Serializer lib)]

def withdrawVesting : Serializer :=
  operationDataSerializer lib 4 [("account", stringSerializer lib),
    ("vesting_shares", assetSerializer lib)]

def witnessUpdate : Serializer :=
  operationDataSerializer lib 11 [("owner", stringSerializer lib), ("url", stringSerializer lib),
    ("block_signing_key", publicKeySerializer lib), ("props", chainPropertiesSerializer lib),
    ("fee", assetSerializer lib)]

def witnessSetProperties : Serializer :=
  operationDataSerializer lib 33 [("owner", stringSerializer lib),
    ("props", flatMapSerializer lib (stringSerializer lib) (variableBinarySerializer lib)),
    ("extensions", arraySerializer lib voidSerializer)]

def accountUpdate2 : Serializer :=
  operationDataSerializer lib 47 [("account", stringSerializer lib),
    ("owner", optionalSerializer lib (authoritySerializer lib)),
    ("active", optionalSerializer lib (authoritySerializer lib)),
    ("posting", optionalSerializer lib (authoritySerializer lib)),
    ("memo_key", optionalSerializer lib (publicKeySerializer lib)),
    ("json_metadata", stringSerializer lib), ("posting_json_metadata", stringSerializer lib),
    ("extensions", arraySerializer lib voidSerializer)]

def createProposal : Serializer :=
  operationDataSerializer lib 34 [("creator", stringSerializer lib),
    ("receiver", stringSerializer lib), ("start_date", dateSerializer lib),
    ("end_date", dateSerializer lib), ("daily_pay", assetSerializer lib),
    ("subject", stringSerializer lib), ("permlink", stringSerializer lib),
    ("extensions", arraySerializer lib voidSerializer)]

def updateProposalVotes : Serializer :=
  operationDataSerializer lib 35 [("voter", stringSerializer lib),
    ("proposal_ids", arraySerializer lib (int64Serializer lib)),
    ("approve", booleanSerializer lib), ("extensions", arraySerializer lib voidSerializer)]

def removeProposal : Serializer :=
  operationDataSerializer lib 36 [("proposal_owner", stringSerializer lib),
    ("proposal_ids", arraySerializer lib (int64Serializer lib)),
    ("extensions", arraySerializer lib voidSerializer)]

/-- `OperationSerializers` -/
def operationSerializers : List (String × Serializer) :=
  [("account_create", accountCreate lib),
    ("account_create_with_delegation", accountCreateWithDelegation lib),
    ("account_update", accountUpdate lib),
    ("account_witness_proxy", accountWitnessProxy lib),
    ("account_witness_vote", accountWitnessVote lib),
    ("cancel_transfer_from_savings", cancelTransferFromSavings lib),
    ("change_recovery_account", changeRecoveryAccount lib),
    ("claim_account", claimAccount lib),
    ("claim_reward_balance", claimRewardBalance lib),
    ("comment", comment lib),
    ("comment_options", commentOptions lib),
    ("convert", convert lib),
    ("create_claimed_account", createClaimedAccount lib),
    ("custom", custom lib),
    ("custom_binary", customBinary lib),
    ("custom_json", customJson lib),
    ("decline_voting_rights", declineVotingRights lib),
    ("delegate_vesting_shares", delegateVestingShares lib),
    ("delete_comment", deleteComment lib),
    ("escrow_approve", escrowApprove lib),
    ("escrow_dispute", escrowDispute lib),
    ("escrow_release", escrowRelease lib),
    ("escrow_transfer", escrowTransfer lib),
    ("feed_publish", feedPublish lib),
    ("limit_order_cancel", limitOrderCancel lib),
    ("limit_order_create", limitOrderCreate lib),
    ("limit_order_create2", limitOrderCreate2 lib),
    ("recover_account", recoverAccount lib),
    ("report_over_production", reportOverProduction lib),
    ("request_account_recovery", requestAccountRecovery lib),
    ("reset_account", resetAccount lib),
    ("set_reset_account", setResetAccount lib),
    ("set_withdraw_vesting_route", setWithdrawVestingRoute lib),
    ("transfer", transfer lib),
    ("transfer_from_savings", transferFromSavings lib),
    ("transfer_to_savings", transferToSavings lib),
    ("transfer_to_vesting", transferToVesting lib),
    ("vote", vote lib),
    ("withdraw_vesting", withdrawVesting lib),
    ("witness_update", witnessUpdate lib),
    ("witness_set_properties", witnessSetProperties lib),
    ("account_update2", accountUpdate2 lib),
    ("create_proposal", createProposal lib),
    ("update_proposal_votes", updateProposalVotes lib),
    ("remove_proposal", removeProposal lib)]

def operationSerializer : Serializer := fun operation =>
  match operation.item 0 with
  | .string name =>
      match (operationSerializers lib).lookup name with
      | some serializer => within name (serializer (operation.item 1))
      | none => .error ("No serializer for operation: " ++ name)
  | name => .error ("No serializer for operation: " ++ name.toText)

end Dblurt

end Client

end Blurt
