import Blurt.Client.JsValue
import Blurt.Foundation.Double
import Blurt.Protocol.AssetSymbol
import Blurt.Protocol.Operations

/-! # Operations on the wire

Every field of an operation is a value that the node packs with `fc::raw::pack` and that a
client is given as JSON. An operation is the list of its fields in the order of `FC_REFLECT`.
-/

namespace Blurt

/-! ## Asset symbols -/

namespace AssetSymbol

/-- `BLURT_SYMBOL_LEGACY_SER_1` to `BLURT_SYMBOL_LEGACY_SER_5` -/
def legacySers : List (List UInt8) :=
  [[1, 66, 76, 85, 82, 84, 0, 0], [2, 66, 76, 85, 82, 84, 0, 0], [5, 66, 76, 85, 82, 84, 0, 0],
    [3, 48, 46, 48, 48, 49, 0, 0], [3, 54, 46, 48, 48, 48, 0, 0]]

/-- The name of a symbol in the text of an amount. -/
def name (symbol : AssetSymbol) : List Char :=
  if symbol = blurt then "BLURT".toList
  else if symbol = vests then "VESTS".toList
  else '@' :: '@' :: Decimal.padded 9 symbol.toNai

end AssetSymbol

namespace Client

open Wire

/-! ## Values -/

/-- A value of a field: what `fc::raw::pack` writes of it and what a client is given. -/
structure Value where
  bytes : Bytes
  js : Js

namespace Value

/-- `unsigned_int` -/
def unsignedInt (n : Nat) : Bytes := varint 5 (n % 2 ^ 32)

def string (s : Text) : Value := ⟨unsignedInt s.length ++ textBytes s, .string s⟩

def uint16 (n : Nat) : Value := ⟨LittleEndian.encode 2 n, .number n⟩

def uint32 (n : Nat) : Value := ⟨LittleEndian.encode 4 n, .number n⟩

def int16 (n : Int) : Value := ⟨LittleEndian.encode 2 (n % 2 ^ 16).toNat, .number n⟩

/-- The bytes of an `int64_t`. -/
def int64Bytes (n : Int) : Bytes := LittleEndian.encode 8 (n % 2 ^ 64).toNat

/-- An `int64_t`, which is a double in JavaScript. -/
def int64 (n : Int) : Value := ⟨int64Bytes n, .number ⌊Double.nearest n⌋⟩

def bool (b : Bool) : Value := ⟨[if b then 1 else 0], .boolean b⟩

/-- `time_point_sec` -/
def time (seconds : Nat) : Value := ⟨LittleEndian.encode 4 seconds, .time seconds⟩

/-- The hexadecimal digits of bytes. -/
def hexText (bytes : Bytes) : Text :=
  String.ofList (bytes.flatMap fun b => [Nat.digitChar (b.toNat / 16), Nat.digitChar (b.toNat % 16)])

/-- `vector< char >` -/
def binary (data : Text) : Value :=
  ⟨unsignedInt data.length ++ textBytes data, .string (hexText (textBytes data))⟩

/-- The text of an amount of whole and fractional digits, such as `-0.500` for 500 negative
units of three decimals. -/
def amountText (amount : Int) (decimals : Nat) : List Char :=
  (if amount < 0 then ['-'] else []) ++ Decimal.text (amount.natAbs / 10 ^ decimals) ++
    (if decimals = 0 then [] else '.' :: Decimal.padded decimals amount.natAbs)

/-- The text of an asset, such as `1.000 BLURT`. -/
def assetText (a : Asset) : Text :=
  String.ofList (amountText a.amount a.symbol.decimals ++ ' ' :: a.symbol.name)

/-- `pack( asset_symbol_type )` -/
def symbolBytes (symbol : AssetSymbol) : Bytes :=
  if symbol = .blurt then AssetSymbol.blurtSer
  else if symbol = .vests then AssetSymbol.vestsSer
  else LittleEndian.encode 4 symbol.assetNum

def asset (a : Asset) : Value :=
  ⟨int64Bytes a.amount ++ symbolBytes a.symbol, .string (assetText a)⟩

/-- The 33 bytes of `public_key_data`. -/
def keyBytes (key : PublicKey) : Bytes := (LittleEndian.encode 33 key).reverse

/-- `public_key_type` as a string. -/
def keyText (lib : Libraries) (key : PublicKey) : Text :=
  "BLT" ++ lib.base58Encode (keyBytes key ++ (lib.ripemd160 (keyBytes key)).take 4)

def publicKey (lib : Libraries) (key : PublicKey) : Value :=
  ⟨keyBytes key, .string (keyText lib key)⟩

def optional : Option Value → Value
  | some v => ⟨1 :: v.bytes, v.js⟩
  | none => ⟨[0], .null⟩

/-- The fields of a reflected class in the order of `FC_REFLECT`. -/
def struct (fields : List (String × Value)) : Value :=
  ⟨fields.flatMap fun field => field.2.bytes, .object (fields.map fun field => (field.1, field.2.js))⟩

/-- `vector< T >` and `flat_set< T >` -/
def array (items : List Value) : Value :=
  ⟨unsignedInt items.length ++ items.flatMap bytes, .array (items.map js)⟩

/-- `flat_map< K, V >` -/
def map (entries : List (Value × Value)) : Value :=
  ⟨unsignedInt entries.length ++ entries.flatMap fun entry => entry.1.bytes ++ entry.2.bytes,
    .array (entries.map fun entry => .array [entry.1.js, entry.2.js])⟩

/-- `static_variant` -/
def variant (which : Nat) (v : Value) : Value :=
  ⟨unsignedInt which ++ v.bytes, .array [.number which, v.js]⟩

variable (lib : Libraries)

/-- The fields of `authority`. -/
def authorityFields (a : Authority) : List (String × Value) :=
  [("weight_threshold", uint32 a.weightThreshold),
    ("account_auths", map (a.accountAuths.map fun (name, weight) => (string name, uint16 weight))),
    ("key_auths", map (a.keyAuths.map fun (key, weight) => (publicKey lib key, uint16 weight)))]

def authority (a : Authority) : Value := struct (authorityFields lib a)

/-- `extensions_type`: a `flat_set` of `future_extensions`, whose only type is `void_t`. -/
def futureExtensions (which : List Nat) : Value :=
  array (which.map fun tag => variant tag (struct []))

def accountNames (names : List AccountName) : Value := array (names.map string)

/-- `comment_options_extension` -/
def commentOptionsExtension : CommentOptionsExtension → Value
  | .payoutBeneficiaries routes =>
      variant 0 (struct [("beneficiaries", array (routes.map fun route =>
        struct [("account", string route.account), ("weight", uint16 route.weight)]))])
  | .payoutBlurt percentBlurt =>
      variant 1 (struct [("percent_blurt", uint16 percentBlurt)])

end Value

/-! ## Operations -/

/-- An operation with what no evaluator reads of it: the extensions of the operations that
ignore them, the entries of `props` before they are decoded, and the symbol of the account
creation fee that a witness proposes. -/
structure WireOperation where
  operation : Operation
  extensions : List Nat := []
  props : List (Text × Text) := []
  feeSymbol : Bytes := AssetSymbol.blurtSer

namespace WireOperation

open Value

/-- The position of an operation in the `static_variant` of the node. -/
def which : Operation → Nat
  | .vote _ => 0
  | .comment _ => 1
  | .transfer _ => 2
  | .transferToVesting _ => 3
  | .withdrawVesting _ => 4
  | .accountCreate _ => 5
  | .accountUpdate _ => 6
  | .witnessUpdate _ => 7
  | .accountWitnessVote _ => 8
  | .accountWitnessProxy _ => 9
  | .custom _ => 10
  | .deleteComment _ => 11
  | .customJson _ => 12
  | .commentOptions _ => 13
  | .setWithdrawVestingRoute _ => 14
  | .claimAccount _ => 15
  | .createClaimedAccount _ => 16
  | .requestAccountRecovery _ => 17
  | .recoverAccount _ => 18
  | .changeRecoveryAccount _ => 19
  | .escrowTransfer _ => 20
  | .escrowDispute _ => 21
  | .escrowRelease _ => 22
  | .escrowApprove _ => 23
  | .transferToSavings _ => 24
  | .transferFromSavings _ => 25
  | .cancelTransferFromSavings _ => 26
  | .customBinary _ => 27
  | .declineVotingRights _ => 28
  | .resetAccount _ => 29
  | .setResetAccount _ => 30
  | .claimRewardBalance _ => 31
  | .delegateVestingShares _ => 32
  | .witnessSetProperties _ => 33
  | .createProposal _ => 34
  | .updateProposalVotes _ => 35
  | .removeProposal _ => 36

/-- The name of an operation in JSON. -/
def name : Operation → String
  | .vote _ => "vote"
  | .comment _ => "comment"
  | .transfer _ => "transfer"
  | .transferToVesting _ => "transfer_to_vesting"
  | .withdrawVesting _ => "withdraw_vesting"
  | .accountCreate _ => "account_create"
  | .accountUpdate _ => "account_update"
  | .witnessUpdate _ => "witness_update"
  | .accountWitnessVote _ => "account_witness_vote"
  | .accountWitnessProxy _ => "account_witness_proxy"
  | .custom _ => "custom"
  | .deleteComment _ => "delete_comment"
  | .customJson _ => "custom_json"
  | .commentOptions _ => "comment_options"
  | .setWithdrawVestingRoute _ => "set_withdraw_vesting_route"
  | .claimAccount _ => "claim_account"
  | .createClaimedAccount _ => "create_claimed_account"
  | .requestAccountRecovery _ => "request_account_recovery"
  | .recoverAccount _ => "recover_account"
  | .changeRecoveryAccount _ => "change_recovery_account"
  | .escrowTransfer _ => "escrow_transfer"
  | .escrowDispute _ => "escrow_dispute"
  | .escrowRelease _ => "escrow_release"
  | .escrowApprove _ => "escrow_approve"
  | .transferToSavings _ => "transfer_to_savings"
  | .transferFromSavings _ => "transfer_from_savings"
  | .cancelTransferFromSavings _ => "cancel_transfer_from_savings"
  | .customBinary _ => "custom_binary"
  | .declineVotingRights _ => "decline_voting_rights"
  | .resetAccount _ => "reset_account"
  | .setResetAccount _ => "set_reset_account"
  | .claimRewardBalance _ => "claim_reward_balance"
  | .delegateVestingShares _ => "delegate_vesting_shares"
  | .witnessSetProperties _ => "witness_set_properties"
  | .createProposal _ => "create_proposal"
  | .updateProposalVotes _ => "update_proposal_votes"
  | .removeProposal _ => "remove_proposal"

variable (lib : Libraries)

/-- The fields of an operation, as `FC_REFLECT` lists them. -/
def reflect (op : WireOperation) : List (String × Value) :=
  match op.operation with
  | .vote o =>
      [("voter", string o.voter), ("author", string o.author), ("permlink", string o.permlink),
        ("weight", int16 o.weight)]
  | .comment o =>
      [("parent_author", string o.parentAuthor), ("parent_permlink", string o.parentPermlink),
        ("author", string o.author), ("permlink", string o.permlink), ("title", string o.title),
        ("body", string o.body), ("json_metadata", string o.jsonMetadata)]
  | .transfer o =>
      [("from", string o.fromAccount), ("to", string o.toAccount), ("amount", asset o.amount),
        ("memo", string o.memo)]
  | .transferToVesting o =>
      [("from", string o.fromAccount), ("to", string o.toAccount), ("amount", asset o.amount)]
  | .withdrawVesting o =>
      [("account", string o.account), ("vesting_shares", asset o.vestingShares)]
  | .accountCreate o =>
      [("fee", asset o.fee), ("creator", string o.creator),
        ("new_account_name", string o.newAccountName), ("owner", authority lib o.owner),
        ("active", authority lib o.active), ("posting", authority lib o.posting),
        ("memo_key", publicKey lib o.memoKey), ("json_metadata", string o.jsonMetadata)]
  | .accountUpdate o =>
      [("account", string o.account), ("owner", optional (o.owner.map (authority lib))),
        ("active", optional (o.active.map (authority lib))),
        ("posting", optional (o.posting.map (authority lib))),
        ("memo_key", optional (o.memoKey.map (publicKey lib))),
        ("json_metadata", string o.jsonMetadata),
        ("posting_json_metadata", string o.postingJsonMetadata),
        ("extensions", futureExtensions op.extensions)]
  | .witnessUpdate o =>
      [("owner", string o.owner), ("url", string o.url),
        ("block_signing_key", publicKey lib o.blockSigningKey),
        ("props", struct [
          ("account_creation_fee", ⟨int64Bytes o.props.accountCreationFee ++ op.feeSymbol,
            .string (assetText (.blurt o.props.accountCreationFee))⟩),
          ("maximum_block_size", uint32 o.props.maximumBlockSize)]),
        ("fee", asset o.fee)]
  | .accountWitnessVote o =>
      [("account", string o.account), ("witness", string o.witness), ("approve", bool o.approve)]
  | .accountWitnessProxy o =>
      [("account", string o.account), ("proxy", string o.proxy)]
  | .custom o =>
      [("required_auths", accountNames o.requiredAuths), ("id", uint16 o.id),
        ("data", binary o.data)]
  | .deleteComment o => [("author", string o.author), ("permlink", string o.permlink)]
  | .customJson o =>
      [("required_auths", accountNames o.requiredAuths),
        ("required_posting_auths", accountNames o.requiredPostingAuths), ("id", string o.id),
        ("json", string o.json)]
  | .commentOptions o =>
      [("author", string o.author), ("permlink", string o.permlink),
        ("max_accepted_payout", asset o.maxAcceptedPayout), ("allow_votes", bool o.allowVotes),
        ("allow_curation_rewards", bool o.allowCurationRewards),
        ("extensions", array (o.extensions.map commentOptionsExtension))]
  | .setWithdrawVestingRoute o =>
      [("from_account", string o.fromAccount), ("to_account", string o.toAccount),
        ("percent", uint16 o.percent), ("auto_vest", bool o.autoVest)]
  | .claimAccount o =>
      [("creator", string o.creator), ("fee", asset o.fee),
        ("extensions", futureExtensions o.extensions)]
  | .createClaimedAccount o =>
      [("creator", string o.creator), ("new_account_name", string o.newAccountName),
        ("owner", authority lib o.owner), ("active", authority lib o.active),
        ("posting", authority lib o.posting), ("memo_key", publicKey lib o.memoKey),
        ("json_metadata", string o.jsonMetadata), ("extensions", futureExtensions o.extensions)]
  | .requestAccountRecovery o =>
      [("recovery_account", string o.recoveryAccount),
        ("account_to_recover", string o.accountToRecover),
        ("new_owner_authority", authority lib o.newOwnerAuthority),
        ("extensions", futureExtensions op.extensions)]
  | .recoverAccount o =>
      [("account_to_recover", string o.accountToRecover),
        ("new_owner_authority", authority lib o.newOwnerAuthority),
        ("recent_owner_authority", authority lib o.recentOwnerAuthority),
        ("extensions", futureExtensions op.extensions)]
  | .changeRecoveryAccount o =>
      [("account_to_recover", string o.accountToRecover),
        ("new_recovery_account", string o.newRecoveryAccount),
        ("extensions", futureExtensions op.extensions)]
  | .escrowTransfer o =>
      [("from", string o.fromAccount), ("to", string o.toAccount),
        ("blurt_amount", asset o.blurtAmount), ("escrow_id", uint32 o.escrowId),
        ("agent", string o.agent), ("fee", asset o.fee), ("json_meta", string o.jsonMeta),
        ("ratification_deadline", time o.ratificationDeadline),
        ("escrow_expiration", time o.escrowExpiration)]
  | .escrowDispute o =>
      [("from", string o.fromAccount), ("to", string o.toAccount), ("agent", string o.agent),
        ("who", string o.who), ("escrow_id", uint32 o.escrowId)]
  | .escrowRelease o =>
      [("from", string o.fromAccount), ("to", string o.toAccount), ("agent", string o.agent),
        ("who", string o.who), ("receiver", string o.receiver), ("escrow_id", uint32 o.escrowId),
        ("blurt_amount", asset o.blurtAmount)]
  | .escrowApprove o =>
      [("from", string o.fromAccount), ("to", string o.toAccount), ("agent", string o.agent),
        ("who", string o.who), ("escrow_id", uint32 o.escrowId), ("approve", bool o.approve)]
  | .transferToSavings o =>
      [("from", string o.fromAccount), ("to", string o.toAccount), ("amount", asset o.amount),
        ("memo", string o.memo)]
  | .transferFromSavings o =>
      [("from", string o.fromAccount), ("request_id", uint32 o.requestId),
        ("to", string o.toAccount), ("amount", asset o.amount), ("memo", string o.memo)]
  | .cancelTransferFromSavings o =>
      [("from", string o.fromAccount), ("request_id", uint32 o.requestId)]
  | .customBinary o =>
      [("required_owner_auths", accountNames o.requiredOwnerAuths),
        ("required_active_auths", accountNames o.requiredActiveAuths),
        ("required_posting_auths", accountNames o.requiredPostingAuths),
        ("required_auths", array (o.requiredAuths.map (authority lib))), ("id", string o.id),
        ("data", binary o.data)]
  | .declineVotingRights o => [("account", string o.account), ("decline", bool o.decline)]
  | .resetAccount o =>
      [("reset_account", string o.resetAccount), ("account_to_reset", string o.accountToReset),
        ("new_owner_authority", authority lib o.newOwnerAuthority)]
  | .setResetAccount o =>
      [("account", string o.account), ("current_reset_account", string o.currentResetAccount),
        ("reset_account", string o.resetAccount)]
  | .claimRewardBalance o =>
      [("account", string o.account), ("reward_blurt", asset o.rewardBlurt),
        ("reward_vests", asset o.rewardVests)]
  | .delegateVestingShares o =>
      [("delegator", string o.delegator), ("delegatee", string o.delegatee),
        ("vesting_shares", asset o.vestingShares)]
  | .witnessSetProperties o =>
      [("owner", string o.owner),
        ("props", map (op.props.map fun (key, data) => (string key, binary data))),
        ("extensions", futureExtensions op.extensions)]
  | .createProposal o =>
      [("creator", string o.creator), ("receiver", string o.receiver),
        ("start_date", time o.startDate), ("end_date", time o.endDate),
        ("daily_pay", asset o.dailyPay), ("subject", string o.subject),
        ("permlink", string o.permlink), ("extensions", futureExtensions op.extensions)]
  | .updateProposalVotes o =>
      [("voter", string o.voter), ("proposal_ids", array (o.proposalIds.map int64)),
        ("approve", bool o.approve), ("extensions", futureExtensions op.extensions)]
  | .removeProposal o =>
      [("proposal_owner", string o.proposalOwner),
        ("proposal_ids", array (o.proposalIds.map int64)),
        ("extensions", futureExtensions op.extensions)]

/-- `fc::raw::pack` of the `static_variant`. -/
def pack (op : WireOperation) : Bytes :=
  unsignedInt (which op.operation) ++ (struct (op.reflect lib)).bytes

/-- The operation as a client is given it. -/
def toJs (op : WireOperation) : Js :=
  .array [.string (name op.operation), (struct (op.reflect lib)).js]

/-- `operation_validate` -/
def validate (rules : TextRules) (op : WireOperation) : Except String Unit :=
  op.operation.validate rules

/-! ## What the types of the node can hold -/

def FitsAsset (a : Asset) : Prop := InInt64 a.amount ∧ a.symbol.IsValid

/-- A string of bytes. -/
def FitsText (s : Text) : Prop := s.length < 2 ^ 32 ∧ ∀ c ∈ s.toList, c.toNat < 256

/-- A `flat_set` of names. -/
def FitsNames (names : List AccountName) : Prop :=
  names.Pairwise (· < ·) ∧ ∀ n ∈ names, FitsText n

/-- The order of keys is the one of their bytes. -/
structure FitsAuthority (a : Authority) : Prop where
  weightThreshold : a.weightThreshold < 2 ^ 32
  names : FitsNames (a.accountAuths.map Prod.fst)
  nameWeights : ∀ entry ∈ a.accountAuths, entry.2 < 2 ^ 16
  keys : (a.keyAuths.map Prod.fst).Pairwise (· < ·)
  keyBound : ∀ entry ∈ a.keyAuths, entry.1 < 256 ^ 33
  keyWeights : ∀ entry ∈ a.keyAuths, entry.2 < 2 ^ 16

/-- `comment_options_extension` -/
def FitsExtension : CommentOptionsExtension → Prop
  | .payoutBeneficiaries routes =>
      ∀ route ∈ routes, FitsText route.account ∧ route.weight < 2 ^ 16
  | .payoutBlurt percentBlurt => percentBlurt < 2 ^ 16

/-- The fields of an operation are values of their types. -/
def Fits (op : WireOperation) : Prop :=
  match op.operation with
  | .vote o => -2 ^ 15 ≤ o.weight ∧ o.weight < 2 ^ 15
  | .comment _ => True
  | .transfer o => FitsAsset o.amount
  | .transferToVesting o => FitsAsset o.amount
  | .withdrawVesting o => FitsAsset o.vestingShares
  | .accountCreate o =>
      FitsAsset o.fee ∧ FitsAuthority o.owner ∧ FitsAuthority o.active ∧ FitsAuthority o.posting
  | .accountUpdate o =>
      (∀ a ∈ o.owner, FitsAuthority a) ∧ (∀ a ∈ o.active, FitsAuthority a) ∧
        ∀ a ∈ o.posting, FitsAuthority a
  | .witnessUpdate o =>
      InInt64 o.props.accountCreationFee ∧ o.props.maximumBlockSize < 2 ^ 32 ∧ FitsAsset o.fee ∧
        op.feeSymbol ∈ AssetSymbol.blurtSer :: AssetSymbol.legacySers
  | .accountWitnessVote _ => True
  | .accountWitnessProxy _ => True
  | .custom o => FitsNames o.requiredAuths ∧ o.id < 2 ^ 16
  | .deleteComment _ => True
  | .customJson o => FitsNames o.requiredAuths ∧ FitsNames o.requiredPostingAuths
  | .commentOptions o =>
      FitsAsset o.maxAcceptedPayout ∧ ∀ extension ∈ o.extensions, FitsExtension extension
  | .setWithdrawVestingRoute o => o.percent < 2 ^ 16
  | .claimAccount o => FitsAsset o.fee
  | .createClaimedAccount o =>
      FitsAuthority o.owner ∧ FitsAuthority o.active ∧ FitsAuthority o.posting
  | .requestAccountRecovery o => FitsAuthority o.newOwnerAuthority
  | .recoverAccount o => FitsAuthority o.newOwnerAuthority ∧ FitsAuthority o.recentOwnerAuthority
  | .changeRecoveryAccount _ => True
  | .escrowTransfer o =>
      FitsAsset o.blurtAmount ∧ FitsAsset o.fee ∧ o.escrowId < 2 ^ 32 ∧
        o.ratificationDeadline < 2 ^ 32 ∧ o.escrowExpiration < 2 ^ 32
  | .escrowDispute o => o.escrowId < 2 ^ 32
  | .escrowRelease o => FitsAsset o.blurtAmount ∧ o.escrowId < 2 ^ 32
  | .escrowApprove o => o.escrowId < 2 ^ 32
  | .transferToSavings o => FitsAsset o.amount
  | .transferFromSavings o => FitsAsset o.amount ∧ o.requestId < 2 ^ 32
  | .cancelTransferFromSavings o => o.requestId < 2 ^ 32
  | .customBinary o =>
      FitsNames o.requiredOwnerAuths ∧ FitsNames o.requiredActiveAuths ∧
        FitsNames o.requiredPostingAuths ∧ ∀ a ∈ o.requiredAuths, FitsAuthority a
  | .declineVotingRights _ => True
  | .resetAccount o => FitsAuthority o.newOwnerAuthority
  | .setResetAccount _ => True
  | .claimRewardBalance o => FitsAsset o.rewardBlurt ∧ FitsAsset o.rewardVests
  | .delegateVestingShares o => FitsAsset o.vestingShares
  | .witnessSetProperties o =>
      -- `props` holds what `validate` decodes from it
      (o.props.key.isSome → "key" ∈ op.props.map Prod.fst) ∧ op.props.length < 2 ^ 32 ∧
        (op.props.map fun entry => entry.1.length + 2 * entry.2.length + 2).sum < 2 ^ 32
  | .createProposal o => FitsAsset o.dailyPay ∧ o.startDate < 2 ^ 32 ∧ o.endDate < 2 ^ 32
  | .updateProposalVotes o => o.proposalIds.Pairwise (· < ·) ∧ ∀ id ∈ o.proposalIds, InInt64 id
  | .removeProposal o => o.proposalIds.Pairwise (· < ·) ∧ ∀ id ∈ o.proposalIds, InInt64 id

end WireOperation

end Client

end Blurt
