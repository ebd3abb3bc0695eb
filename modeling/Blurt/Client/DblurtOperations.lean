import Blurt.Client.BlurtJsOperations
import Blurt.Client.DblurtAssets

/-! # The operations that dblurt signs

For every operation, the bytes of dblurt are those of the node exactly when the operation is
supported.
-/

namespace Blurt

namespace Client

namespace Dblurt

open Wire WireOperation

/-- The operations that dblurt writes as the node does. The table gives `delete_comment`,
`set_withdraw_vesting_route` and `witness_update` the positions of another chain, and reads
fields of `escrow_transfer` and `escrow_release` that this chain does not have. -/
def Supported (lib : Libraries) (op : WireOperation) : Prop :=
  match op.operation with
  | .transfer o => AssetReadable o.amount
  | .transferToVesting o => AssetReadable o.amount
  | .withdrawVesting o => AssetReadable o.vestingShares
  | .accountCreate o =>
      AssetReadable o.fee ∧ AuthorityReadable lib o.owner ∧ AuthorityReadable lib o.active ∧
        AuthorityReadable lib o.posting ∧ KeyReadable lib o.memoKey
  | .accountUpdate o =>
      -- the memo key is written as an authority
      (∀ a ∈ o.owner, AuthorityReadable lib a) ∧ (∀ a ∈ o.active, AuthorityReadable lib a) ∧
        (∀ a ∈ o.posting, AuthorityReadable lib a) ∧ o.memoKey = none ∧ op.extensions = []
  | .witnessUpdate _ => False
  | .deleteComment _ => False
  | .commentOptions o =>
      -- both extensions of the node are one in the table
      AssetReadable o.maxAcceptedPayout ∧ o.extensions = []
  | .setWithdrawVestingRoute _ => False
  | .claimAccount o => AssetReadable o.fee ∧ o.extensions = []
  | .createClaimedAccount o =>
      AuthorityReadable lib o.owner ∧ AuthorityReadable lib o.active ∧
        AuthorityReadable lib o.posting ∧ KeyReadable lib o.memoKey ∧ o.extensions = []
  | .requestAccountRecovery o =>
      AuthorityReadable lib o.newOwnerAuthority ∧ op.extensions = []
  | .recoverAccount o =>
      AuthorityReadable lib o.newOwnerAuthority ∧ AuthorityReadable lib o.recentOwnerAuthority ∧
        op.extensions = []
  | .changeRecoveryAccount _ => op.extensions = []
  | .escrowTransfer _ => False
  | .escrowRelease _ => False
  | .transferToSavings o => AssetReadable o.amount
  | .transferFromSavings o => AssetReadable o.amount
  | .customBinary o => ∀ a ∈ o.requiredAuths, AuthorityReadable lib a
  | .resetAccount o => AuthorityReadable lib o.newOwnerAuthority
  | .claimRewardBalance o => AssetReadable o.rewardBlurt ∧ AssetReadable o.rewardVests
  | .delegateVestingShares o => AssetReadable o.vestingShares
  | .witnessSetProperties _ => op.extensions = []
  | .createProposal o => AssetReadable o.dailyPay ∧ op.extensions = []
  | .updateProposalVotes o => (∀ id ∈ o.proposalIds, IdReadable id) ∧ op.extensions = []
  | .removeProposal o => (∀ id ∈ o.proposalIds, IdReadable id) ∧ op.extensions = []
  | _ => True

/-- A serializer of the table writes an operation as the node does, its position first, exactly
when the operation is supported. -/
def Signs (lib : Libraries) (serializer : Serializer) (op : WireOperation) : Prop :=
  serializer (Value.struct (op.reflect lib)).js = .ok (op.pack lib) ↔ Supported lib op

variable {lib : Libraries}

theorem operationSerializer_iff {serializer : Serializer} {op : WireOperation}
    (hentry : (operationSerializers lib).lookup (name op.operation) = some serializer)
    (h : Signs lib serializer op) :
    operationSerializer lib (op.toJs lib) = .ok (op.pack lib) ↔ Supported lib op := by
  have hout : operationSerializer lib (op.toJs lib) =
      within (name op.operation) (serializer (Value.struct (op.reflect lib)).js) := by
    simp only [operationSerializer, toJs, Js.item, List.getD_cons_zero, hentry]
    rfl
  rw [hout, within_eq_ok]
  exact h

section Operations

variable (hlib : lib.Documented)

include hlib

theorem signs_of_fields {op : WireOperation} {definitions : List (String × Serializer)}
    {operationId : Nat} {c : Prop} (h : FieldsAgree definitions (op.reflect lib) c)
    (hid : operationId = which op.operation) (hnodup : ((op.reflect lib).map Prod.fst).Nodup)
    (hiff : c ↔ Supported lib op) :
    Signs lib (operationDataSerializer lib operationId definitions) op := by
  subst hid
  have hboth := (writes_length hlib (which op.operation)).seq (h.agrees hnodup hiff)
  exact hboth.iff.trans (and_iff_right trivial)

omit hlib in
theorem which_le (operation : Operation) : which operation ≤ 36 := by
  cases operation <;> simp [which]

/-- An operation whose position differs from the node's is no operation of the node. -/
theorem not_signs_of_which {op : WireOperation} {definitions : List (String × Serializer)}
    {operationId : Nat} (hne : operationId ≠ which op.operation) (hid : operationId < 128)
    (hunsupported : ¬ Supported lib op) :
    Signs lib (operationDataSerializer lib operationId definitions) op := by
  apply iff_of_false _ hunsupported
  intro hout
  simp only [operationDataSerializer, hlib.writeVarint32, Outcome.ok_bind, Outcome.bind_eq_ok,
    Outcome.pure_eq_ok] at hout
  obtain ⟨rest, -, hbytes⟩ := hout
  have hwhich := which_le op.operation
  rw [pack, Value.unsignedInt, Nat.mod_eq_of_lt (by omega), Nat.mod_eq_of_lt (by omega)] at hbytes
  exact hne (varint_append_inj (by omega) (by omega) (by decide) hbytes).1

omit hlib in
/-- An operation of which a field cannot be read is not written. -/
theorem not_signs_of_field {op : WireOperation} {definitions : List (String × Serializer)}
    {operationId : Nat} {name : String} {serializer : Serializer} {v : Js}
    (hmem : (name, serializer) ∈ definitions)
    (hget : (Value.struct (op.reflect lib)).js.get name = .ok v) (hfield : ∀ b, serializer v ≠ .ok b)
    (hunsupported : ¬ Supported lib op) :
    Signs lib (operationDataSerializer lib operationId definitions) op := by
  apply iff_of_false _ hunsupported
  intro hout
  simp only [operationDataSerializer, Outcome.bind_eq_ok] at hout
  obtain ⟨_, -, rest, hrest, -⟩ := hout
  exact objectSerializer_ne hmem hget hfield rest hrest

theorem agrees_props (entries : List (Text × Text)) :
    Agrees (flatMapSerializer lib (stringSerializer lib) (variableBinarySerializer lib))
      (Value.map (entries.map fun (key, data) => (Value.string key, Value.binary data))) True := by
  have hall := @agrees_flatMap lib hlib _ entries (fun entry => Value.string entry.1)
    (fun entry => Value.binary entry.2) _ _ _ (fun entry _ => agrees_string hlib entry.1)
    fun entry _ => agrees_binary hlib entry.2
  apply Writes.congr hall
  simp

theorem agrees_ids {ids : List Int} (hids : ∀ id ∈ ids, InInt64 id) :
    Agrees (arraySerializer lib (int64Serializer lib)) (Value.array (ids.map Value.int64))
      (∀ id ∈ ids, IdReadable id) :=
  agrees_array hlib fun id hid => agrees_int64 hlib (hids id hid)

omit hlib in
theorem assetSerializer_undefined (b : Bytes) : assetSerializer lib .undefined ≠ .ok b := by
  rintro ⟨⟩

variable {extensions : List Nat} {props : List (Text × Text)} {feeSymbol : Bytes}

theorem signs_vote {o : VoteOperation}
    (hfits : Fits ⟨.vote o, extensions, props, feeSymbol⟩) :
    Signs lib (vote lib) ⟨.vote o, extensions, props, feeSymbol⟩ := by
  obtain ⟨hlow, hhigh⟩ := hfits
  apply signs_of_fields hlib (.skip (agrees_string hlib _) <| .skip (agrees_string hlib _) <|
    .skip (agrees_string hlib _) <| .skip (agrees_int16 hlib hlow hhigh) .nil)
  · rfl
  · simp [reflect]
  · simp [Supported]

theorem signs_comment {o : CommentOperation} :
    Signs lib (comment lib) ⟨.comment o, extensions, props, feeSymbol⟩ := by
  apply signs_of_fields hlib (.skip (agrees_string hlib _) <| .skip (agrees_string hlib _) <|
    .skip (agrees_string hlib _) <| .skip (agrees_string hlib _) <| .skip (agrees_string hlib _) <|
    .skip (agrees_string hlib _) <| .skip (agrees_string hlib _) .nil)
  · rfl
  · simp [reflect]
  · simp [Supported]

theorem signs_transfer {o : TransferOperation}
    (hfits : Fits ⟨.transfer o, extensions, props, feeSymbol⟩) :
    Signs lib (transfer lib) ⟨.transfer o, extensions, props, feeSymbol⟩ := by
  apply signs_of_fields hlib (.skip (agrees_string hlib _) <| .skip (agrees_string hlib _) <|
    .cons (agrees_asset hlib hfits) <| .skip (agrees_string hlib _) .nil)
  · rfl
  · simp [reflect]
  · simp [Supported]

theorem signs_transferToVesting {o : TransferToVestingOperation}
    (hfits : Fits ⟨.transferToVesting o, extensions, props, feeSymbol⟩) :
    Signs lib (transferToVesting lib) ⟨.transferToVesting o, extensions, props, feeSymbol⟩ := by
  apply signs_of_fields hlib (.skip (agrees_string hlib _) <| .skip (agrees_string hlib _) <|
    .cons (agrees_asset hlib hfits) .nil)
  · rfl
  · simp [reflect]
  · simp [Supported]

theorem signs_withdrawVesting {o : WithdrawVestingOperation}
    (hfits : Fits ⟨.withdrawVesting o, extensions, props, feeSymbol⟩) :
    Signs lib (withdrawVesting lib) ⟨.withdrawVesting o, extensions, props, feeSymbol⟩ := by
  apply signs_of_fields hlib (.skip (agrees_string hlib _) <| .cons (agrees_asset hlib hfits) .nil)
  · rfl
  · simp [reflect]
  · simp [Supported]

theorem signs_accountCreate {o : AccountCreateOperation}
    (hfits : Fits ⟨.accountCreate o, extensions, props, feeSymbol⟩) :
    Signs lib (accountCreate lib) ⟨.accountCreate o, extensions, props, feeSymbol⟩ := by
  obtain ⟨hfee, howner, hactive, hposting⟩ := hfits
  apply signs_of_fields hlib (.cons (agrees_asset hlib hfee) <| .skip (agrees_string hlib _) <|
    .skip (agrees_string hlib _) <| .cons (agrees_authority hlib howner) <|
    .cons (agrees_authority hlib hactive) <| .cons (agrees_authority hlib hposting) <|
    .cons (agrees_publicKey hlib _) <| .skip (agrees_string hlib _) .nil)
  · rfl
  · simp [reflect]
  · simp [Supported]

theorem signs_accountWitnessVote {o : AccountWitnessVoteOperation} :
    Signs lib (accountWitnessVote lib) ⟨.accountWitnessVote o, extensions, props, feeSymbol⟩ := by
  apply signs_of_fields hlib (.skip (agrees_string hlib _) <| .skip (agrees_string hlib _) <|
    .skip (agrees_boolean hlib _) .nil)
  · rfl
  · simp [reflect]
  · simp [Supported]

theorem signs_accountWitnessProxy {o : AccountWitnessProxyOperation} :
    Signs lib (accountWitnessProxy lib) ⟨.accountWitnessProxy o, extensions, props, feeSymbol⟩ := by
  apply signs_of_fields hlib (.skip (agrees_string hlib _) <| .skip (agrees_string hlib _) .nil)
  · rfl
  · simp [reflect]
  · simp [Supported]

theorem signs_custom {o : CustomOperation}
    (hfits : Fits ⟨.custom o, extensions, props, feeSymbol⟩) :
    Signs lib (custom lib) ⟨.custom o, extensions, props, feeSymbol⟩ := by
  obtain ⟨-, hid⟩ := hfits
  apply signs_of_fields hlib (.skip (agrees_names hlib _) <| .skip (agrees_uint16 hlib hid) <|
    .skip (agrees_binary hlib _) .nil)
  · rfl
  · simp [reflect]
  · simp [Supported]

theorem signs_customJson {o : CustomJsonOperation} :
    Signs lib (customJson lib) ⟨.customJson o, extensions, props, feeSymbol⟩ := by
  apply signs_of_fields hlib (.skip (agrees_names hlib _) <| .skip (agrees_names hlib _) <|
    .skip (agrees_string hlib _) <| .skip (agrees_string hlib _) .nil)
  · rfl
  · simp [reflect]
  · simp [Supported]

theorem signs_claimAccount {o : ClaimAccountOperation}
    (hfits : Fits ⟨.claimAccount o, extensions, props, feeSymbol⟩) :
    Signs lib (claimAccount lib) ⟨.claimAccount o, extensions, props, feeSymbol⟩ := by
  apply signs_of_fields hlib (.skip (agrees_string hlib _) <| .cons (agrees_asset hlib hfits) <|
    .cons (agrees_futureExtensions hlib _) .nil)
  · rfl
  · simp [reflect]
  · simp [Supported]

theorem signs_createClaimedAccount {o : CreateClaimedAccountOperation}
    (hfits : Fits ⟨.createClaimedAccount o, extensions, props, feeSymbol⟩) :
    Signs lib (createClaimedAccount lib) ⟨.createClaimedAccount o, extensions, props, feeSymbol⟩ := by
  obtain ⟨howner, hactive, hposting⟩ := hfits
  apply signs_of_fields hlib (.skip (agrees_string hlib _) <| .skip (agrees_string hlib _) <|
    .cons (agrees_authority hlib howner) <| .cons (agrees_authority hlib hactive) <|
    .cons (agrees_authority hlib hposting) <| .cons (agrees_publicKey hlib _) <|
    .skip (agrees_string hlib _) <| .cons (agrees_futureExtensions hlib _) .nil)
  · rfl
  · simp [reflect]
  · simp [Supported]

theorem signs_requestAccountRecovery {o : RequestAccountRecoveryOperation}
    (hfits : Fits ⟨.requestAccountRecovery o, extensions, props, feeSymbol⟩) :
    Signs lib (requestAccountRecovery lib) ⟨.requestAccountRecovery o, extensions, props, feeSymbol⟩ := by
  apply signs_of_fields hlib (.skip (agrees_string hlib _) <| .skip (agrees_string hlib _) <|
    .cons (agrees_authority hlib hfits) <| .cons (agrees_futureExtensions hlib _) .nil)
  · rfl
  · simp [reflect]
  · simp [Supported]

theorem signs_recoverAccount {o : RecoverAccountOperation}
    (hfits : Fits ⟨.recoverAccount o, extensions, props, feeSymbol⟩) :
    Signs lib (recoverAccount lib) ⟨.recoverAccount o, extensions, props, feeSymbol⟩ := by
  obtain ⟨hnew, hrecent⟩ := hfits
  apply signs_of_fields hlib (.skip (agrees_string hlib _) <| .cons (agrees_authority hlib hnew) <|
    .cons (agrees_authority hlib hrecent) <| .cons (agrees_futureExtensions hlib _) .nil)
  · rfl
  · simp [reflect]
  · simp [Supported]

theorem signs_changeRecoveryAccount {o : ChangeRecoveryAccountOperation} :
    Signs lib (changeRecoveryAccount lib) ⟨.changeRecoveryAccount o, extensions, props, feeSymbol⟩ := by
  apply signs_of_fields hlib (.skip (agrees_string hlib _) <| .skip (agrees_string hlib _) <|
    .cons (agrees_futureExtensions hlib _) .nil)
  · rfl
  · simp [reflect]
  · simp [Supported]

theorem signs_escrowDispute {o : EscrowDisputeOperation}
    (hfits : Fits ⟨.escrowDispute o, extensions, props, feeSymbol⟩) :
    Signs lib (escrowDispute lib) ⟨.escrowDispute o, extensions, props, feeSymbol⟩ := by
  apply signs_of_fields hlib (.skip (agrees_string hlib _) <| .skip (agrees_string hlib _) <|
    .skip (agrees_string hlib _) <| .skip (agrees_string hlib _) <|
    .skip (agrees_uint32 hlib hfits) .nil)
  · rfl
  · simp [reflect]
  · simp [Supported]

theorem signs_escrowApprove {o : EscrowApproveOperation}
    (hfits : Fits ⟨.escrowApprove o, extensions, props, feeSymbol⟩) :
    Signs lib (escrowApprove lib) ⟨.escrowApprove o, extensions, props, feeSymbol⟩ := by
  apply signs_of_fields hlib (.skip (agrees_string hlib _) <| .skip (agrees_string hlib _) <|
    .skip (agrees_string hlib _) <| .skip (agrees_string hlib _) <| .skip (agrees_uint32 hlib hfits) <|
    .skip (agrees_boolean hlib _) .nil)
  · rfl
  · simp [reflect]
  · simp [Supported]

theorem signs_transferToSavings {o : TransferToSavingsOperation}
    (hfits : Fits ⟨.transferToSavings o, extensions, props, feeSymbol⟩) :
    Signs lib (transferToSavings lib) ⟨.transferToSavings o, extensions, props, feeSymbol⟩ := by
  apply signs_of_fields hlib (.skip (agrees_string hlib _) <| .skip (agrees_string hlib _) <|
    .cons (agrees_asset hlib hfits) <| .skip (agrees_string hlib _) .nil)
  · rfl
  · simp [reflect]
  · simp [Supported]

theorem signs_transferFromSavings {o : TransferFromSavingsOperation}
    (hfits : Fits ⟨.transferFromSavings o, extensions, props, feeSymbol⟩) :
    Signs lib (transferFromSavings lib) ⟨.transferFromSavings o, extensions, props, feeSymbol⟩ := by
  obtain ⟨hamount, hid⟩ := hfits
  apply signs_of_fields hlib (.skip (agrees_string hlib _) <| .skip (agrees_uint32 hlib hid) <|
    .skip (agrees_string hlib _) <| .cons (agrees_asset hlib hamount) <|
    .skip (agrees_string hlib _) .nil)
  · rfl
  · simp [reflect]
  · simp [Supported]

theorem signs_cancelTransferFromSavings {o : CancelTransferFromSavingsOperation}
    (hfits : Fits ⟨.cancelTransferFromSavings o, extensions, props, feeSymbol⟩) :
    Signs lib (cancelTransferFromSavings lib)
      ⟨.cancelTransferFromSavings o, extensions, props, feeSymbol⟩ := by
  apply signs_of_fields hlib (.skip (agrees_string hlib _) <| .skip (agrees_uint32 hlib hfits) .nil)
  · rfl
  · simp [reflect]
  · simp [Supported]

theorem signs_customBinary {o : CustomBinaryOperation}
    (hfits : Fits ⟨.customBinary o, extensions, props, feeSymbol⟩) :
    Signs lib (customBinary lib) ⟨.customBinary o, extensions, props, feeSymbol⟩ := by
  obtain ⟨-, -, -, hauths⟩ := hfits
  apply signs_of_fields hlib (.skip (agrees_names hlib _) <| .skip (agrees_names hlib _) <|
    .skip (agrees_names hlib _) <| .cons (agrees_authorities hlib hauths) <|
    .skip (agrees_string hlib _) <| .skip (agrees_binary hlib _) .nil)
  · rfl
  · simp [reflect]
  · simp [Supported]

theorem signs_declineVotingRights {o : DeclineVotingRightsOperation} :
    Signs lib (declineVotingRights lib) ⟨.declineVotingRights o, extensions, props, feeSymbol⟩ := by
  apply signs_of_fields hlib (.skip (agrees_string hlib _) <| .skip (agrees_boolean hlib _) .nil)
  · rfl
  · simp [reflect]
  · simp [Supported]

theorem signs_resetAccount {o : ResetAccountOperation}
    (hfits : Fits ⟨.resetAccount o, extensions, props, feeSymbol⟩) :
    Signs lib (resetAccount lib) ⟨.resetAccount o, extensions, props, feeSymbol⟩ := by
  apply signs_of_fields hlib (.skip (agrees_string hlib _) <| .skip (agrees_string hlib _) <|
    .cons (agrees_authority hlib hfits) .nil)
  · rfl
  · simp [reflect]
  · simp [Supported]

theorem signs_setResetAccount {o : SetResetAccountOperation} :
    Signs lib (setResetAccount lib) ⟨.setResetAccount o, extensions, props, feeSymbol⟩ := by
  apply signs_of_fields hlib (.skip (agrees_string hlib _) <| .skip (agrees_string hlib _) <|
    .skip (agrees_string hlib _) .nil)
  · rfl
  · simp [reflect]
  · simp [Supported]

theorem signs_claimRewardBalance {o : ClaimRewardBalanceOperation}
    (hfits : Fits ⟨.claimRewardBalance o, extensions, props, feeSymbol⟩) :
    Signs lib (claimRewardBalance lib) ⟨.claimRewardBalance o, extensions, props, feeSymbol⟩ := by
  obtain ⟨hblurt, hvests⟩ := hfits
  apply signs_of_fields hlib (.skip (agrees_string hlib _) <| .cons (agrees_asset hlib hblurt) <|
    .cons (agrees_asset hlib hvests) .nil)
  · rfl
  · simp [reflect]
  · simp [Supported]

theorem signs_delegateVestingShares {o : DelegateVestingSharesOperation}
    (hfits : Fits ⟨.delegateVestingShares o, extensions, props, feeSymbol⟩) :
    Signs lib (delegateVestingShares lib) ⟨.delegateVestingShares o, extensions, props, feeSymbol⟩ := by
  apply signs_of_fields hlib (.skip (agrees_string hlib _) <| .skip (agrees_string hlib _) <|
    .cons (agrees_asset hlib hfits) .nil)
  · rfl
  · simp [reflect]
  · simp [Supported]

theorem signs_witnessSetProperties {o : WitnessSetPropertiesOperation} :
    Signs lib (witnessSetProperties lib) ⟨.witnessSetProperties o, extensions, props, feeSymbol⟩ := by
  apply signs_of_fields hlib (.skip (agrees_string hlib _) <| .skip (agrees_props hlib _) <|
    .cons (agrees_futureExtensions hlib _) .nil)
  · rfl
  · simp [reflect]
  · simp [Supported]

theorem signs_createProposal {o : CreateProposalOperation}
    (hfits : Fits ⟨.createProposal o, extensions, props, feeSymbol⟩) :
    Signs lib (createProposal lib) ⟨.createProposal o, extensions, props, feeSymbol⟩ := by
  obtain ⟨hpay, hstart, hend⟩ := hfits
  apply signs_of_fields hlib (.skip (agrees_string hlib _) <| .skip (agrees_string hlib _) <|
    .skip (agrees_date hlib hstart) <| .skip (agrees_date hlib hend) <|
    .cons (agrees_asset hlib hpay) <| .skip (agrees_string hlib _) <|
    .skip (agrees_string hlib _) <| .cons (agrees_futureExtensions hlib _) .nil)
  · rfl
  · simp [reflect]
  · simp [Supported]

theorem signs_updateProposalVotes {o : UpdateProposalVotesOperation}
    (hfits : Fits ⟨.updateProposalVotes o, extensions, props, feeSymbol⟩) :
    Signs lib (updateProposalVotes lib) ⟨.updateProposalVotes o, extensions, props, feeSymbol⟩ := by
  obtain ⟨-, hids⟩ := hfits
  apply signs_of_fields hlib (.skip (agrees_string hlib _) <| .cons (agrees_ids hlib hids) <|
    .skip (agrees_boolean hlib _) <| .cons (agrees_futureExtensions hlib _) .nil)
  · rfl
  · simp [reflect]
  · simp [Supported]

theorem signs_removeProposal {o : RemoveProposalOperation}
    (hfits : Fits ⟨.removeProposal o, extensions, props, feeSymbol⟩) :
    Signs lib (removeProposal lib) ⟨.removeProposal o, extensions, props, feeSymbol⟩ := by
  obtain ⟨-, hids⟩ := hfits
  apply signs_of_fields hlib (.skip (agrees_string hlib _) <| .cons (agrees_ids hlib hids) <|
    .cons (agrees_futureExtensions hlib _) .nil)
  · rfl
  · simp [reflect]
  · simp [Supported]

/-- A memo key is a text, which has no fields. -/
theorem agrees_memoKey (o : Option PublicKey) :
    Agrees (optionalSerializer lib (authoritySerializer lib))
      (Value.optional (o.map (Value.publicKey lib))) (o = none) := by
  have htext (key : PublicKey) : truthy (Value.publicKey lib key).js = true := by
    have hne : Value.keyText lib key ≠ "" := by
      intro hempty
      have hlist := congrArg String.toList hempty
      rw [toList_keyText] at hlist
      cases hlist
    simpa [truthy, Value.publicKey] using hne
  have hkey : ∀ key ∈ o, Agrees (authoritySerializer lib) (Value.publicKey lib key) False := by
    intro key _
    have hnone (b : Bytes) : authoritySerializer lib (Value.publicKey lib key).js ≠ .ok b :=
      objectSerializer_ne List.mem_cons_self rfl (by rintro b ⟨⟩) b
    exact ⟨iff_of_false (hnone _) not_false, fun hb => absurd hb (hnone _)⟩
  apply Writes.congr (agrees_optional hlib o (fun key _ => htext key) hkey)
  cases o with
  | none => simp
  | some key => simp

theorem signs_accountUpdate {o : AccountUpdateOperation}
    (hfits : Fits ⟨.accountUpdate o, extensions, props, feeSymbol⟩) :
    Signs lib (accountUpdate lib) ⟨.accountUpdate o, extensions, props, feeSymbol⟩ := by
  obtain ⟨howner, hactive, hposting⟩ := hfits
  apply signs_of_fields hlib (.skip (agrees_string hlib _) <|
    .cons (agrees_authority_option hlib howner) <| .cons (agrees_authority_option hlib hactive) <|
    .cons (agrees_authority_option hlib hposting) <| .cons (agrees_memoKey hlib _) <|
    .skip (agrees_string hlib _) <| .skip (agrees_string hlib _) <|
    .cons (agrees_futureExtensions hlib _) .nil)
  · rfl
  · simp [reflect]
  · simp [Supported]

omit hlib in
/-- The one item of the table has both fields, and no extension of the node has both. -/
theorem agrees_commentOptionsExtension (extension : CommentOptionsExtension) :
    Agrees (staticVariantSerializer lib [objectSerializer [
        ("beneficiaries", arraySerializer lib (beneficiarySerializer lib)),
        ("percent_blurt", uint16Serializer lib)]])
      (Value.commentOptionsExtension extension) False := by
  have hnone (b : Bytes) : staticVariantSerializer lib [objectSerializer [
        ("beneficiaries", arraySerializer lib (beneficiarySerializer lib)),
        ("percent_blurt", uint16Serializer lib)]] (Value.commentOptionsExtension extension).js ≠
      .ok b := by
    intro hout
    cases extension with
    | payoutBeneficiaries routes =>
        obtain ⟨_, -, hout⟩ := Outcome.bind_eq_ok.mp hout
        obtain ⟨second, hsecond, -⟩ := Outcome.bind_eq_ok.mp hout
        exact objectSerializer_ne (List.mem_cons_of_mem _ List.mem_cons_self) rfl
          (by rintro b ⟨⟩) second hsecond
    | payoutBlurt percentBlurt =>
        obtain ⟨_, -, hout⟩ := Outcome.bind_eq_ok.mp hout
        cases hout
  exact ⟨iff_of_false (hnone _) not_false, fun hb => absurd hb (hnone _)⟩

theorem signs_commentOptions {o : CommentOptionsOperation}
    (hfits : Fits ⟨.commentOptions o, extensions, props, feeSymbol⟩) :
    Signs lib (commentOptions lib) ⟨.commentOptions o, extensions, props, feeSymbol⟩ := by
  obtain ⟨hpayout, -⟩ := hfits
  have hextensions := agrees_array hlib fun extension (_ : extension ∈ o.extensions) =>
    @agrees_commentOptionsExtension lib extension
  apply signs_of_fields hlib (.skip (agrees_string hlib _) <| .skip (agrees_string hlib _) <|
    .cons (agrees_asset hlib hpayout) <| .skip (agrees_boolean hlib _) <|
    .skip (agrees_boolean hlib _) <| .cons hextensions .nil)
  · rfl
  · simp [reflect]
  · simp [Supported, List.eq_nil_iff_forall_not_mem]

theorem signs_witnessUpdate {o : WitnessUpdateOperation} :
    Signs lib (witnessUpdate lib) ⟨.witnessUpdate o, extensions, props, feeSymbol⟩ :=
  not_signs_of_which hlib (by simp [which]) (by decide) (by simp [Supported])

theorem signs_deleteComment {o : DeleteCommentOperation} :
    Signs lib (deleteComment lib) ⟨.deleteComment o, extensions, props, feeSymbol⟩ :=
  not_signs_of_which hlib (by simp [which]) (by decide) (by simp [Supported])

theorem signs_setWithdrawVestingRoute {o : SetWithdrawVestingRouteOperation} :
    Signs lib (setWithdrawVestingRoute lib)
      ⟨.setWithdrawVestingRoute o, extensions, props, feeSymbol⟩ :=
  not_signs_of_which hlib (by simp [which]) (by decide) (by simp [Supported])

omit hlib in
theorem signs_escrowTransfer {o : EscrowTransferOperation} :
    Signs lib (escrowTransfer lib) ⟨.escrowTransfer o, extensions, props, feeSymbol⟩ :=
  @not_signs_of_field lib _ _ _ "hbd_amount" (assetSerializer lib) .undefined (by simp) rfl
    assetSerializer_undefined (by simp [Supported])

omit hlib in
theorem signs_escrowRelease {o : EscrowReleaseOperation} :
    Signs lib (escrowRelease lib) ⟨.escrowRelease o, extensions, props, feeSymbol⟩ :=
  @not_signs_of_field lib _ _ _ "hbd_amount" (assetSerializer lib) .undefined (by simp) rfl
    assetSerializer_undefined (by simp [Supported])

/-- The serializer of dblurt writes the bytes that the node packs, and with them hashes,
exactly for the supported operations. -/
theorem operationSerializer_eq_pack_iff {op : WireOperation} (hfits : op.Fits) :
    operationSerializer lib (op.toJs lib) = .ok (op.pack lib) ↔ Supported lib op := by
  obtain ⟨operation, extensions, props, feeSymbol⟩ := op
  cases operation with
  | vote o => exact operationSerializer_iff rfl (signs_vote hlib hfits)
  | comment o => exact operationSerializer_iff rfl (signs_comment hlib)
  | transfer o => exact operationSerializer_iff rfl (signs_transfer hlib hfits)
  | transferToVesting o => exact operationSerializer_iff rfl (signs_transferToVesting hlib hfits)
  | withdrawVesting o => exact operationSerializer_iff rfl (signs_withdrawVesting hlib hfits)
  | accountCreate o => exact operationSerializer_iff rfl (signs_accountCreate hlib hfits)
  | accountUpdate o => exact operationSerializer_iff rfl (signs_accountUpdate hlib hfits)
  | witnessUpdate o => exact operationSerializer_iff rfl (signs_witnessUpdate hlib)
  | accountWitnessVote o => exact operationSerializer_iff rfl (signs_accountWitnessVote hlib)
  | accountWitnessProxy o => exact operationSerializer_iff rfl (signs_accountWitnessProxy hlib)
  | custom o => exact operationSerializer_iff rfl (signs_custom hlib hfits)
  | deleteComment o => exact operationSerializer_iff rfl (signs_deleteComment hlib)
  | customJson o => exact operationSerializer_iff rfl (signs_customJson hlib)
  | commentOptions o => exact operationSerializer_iff rfl (signs_commentOptions hlib hfits)
  | setWithdrawVestingRoute o => exact operationSerializer_iff rfl (signs_setWithdrawVestingRoute hlib)
  | claimAccount o => exact operationSerializer_iff rfl (signs_claimAccount hlib hfits)
  | createClaimedAccount o => exact operationSerializer_iff rfl (signs_createClaimedAccount hlib hfits)
  | requestAccountRecovery o => exact operationSerializer_iff rfl (signs_requestAccountRecovery hlib hfits)
  | recoverAccount o => exact operationSerializer_iff rfl (signs_recoverAccount hlib hfits)
  | changeRecoveryAccount o => exact operationSerializer_iff rfl (signs_changeRecoveryAccount hlib)
  | escrowTransfer o => exact operationSerializer_iff rfl (signs_escrowTransfer)
  | escrowDispute o => exact operationSerializer_iff rfl (signs_escrowDispute hlib hfits)
  | escrowRelease o => exact operationSerializer_iff rfl (signs_escrowRelease)
  | escrowApprove o => exact operationSerializer_iff rfl (signs_escrowApprove hlib hfits)
  | transferToSavings o => exact operationSerializer_iff rfl (signs_transferToSavings hlib hfits)
  | transferFromSavings o => exact operationSerializer_iff rfl (signs_transferFromSavings hlib hfits)
  | cancelTransferFromSavings o =>
      exact operationSerializer_iff rfl (signs_cancelTransferFromSavings hlib hfits)
  | customBinary o => exact operationSerializer_iff rfl (signs_customBinary hlib hfits)
  | declineVotingRights o => exact operationSerializer_iff rfl (signs_declineVotingRights hlib)
  | resetAccount o => exact operationSerializer_iff rfl (signs_resetAccount hlib hfits)
  | setResetAccount o => exact operationSerializer_iff rfl (signs_setResetAccount hlib)
  | claimRewardBalance o => exact operationSerializer_iff rfl (signs_claimRewardBalance hlib hfits)
  | delegateVestingShares o => exact operationSerializer_iff rfl (signs_delegateVestingShares hlib hfits)
  | witnessSetProperties o => exact operationSerializer_iff rfl (signs_witnessSetProperties hlib)
  | createProposal o => exact operationSerializer_iff rfl (signs_createProposal hlib hfits)
  | updateProposalVotes o => exact operationSerializer_iff rfl (signs_updateProposalVotes hlib hfits)
  | removeProposal o => exact operationSerializer_iff rfl (signs_removeProposal hlib hfits)

end Operations

end Dblurt

end Client

namespace Sample

open Client Client.Dblurt

theorem transferOfOne_written :
    operationSerializer libraries (transferOfOne.toJs libraries) =
      .ok (transferOfOne.pack libraries) :=
  (@operationSerializer_eq_pack_iff libraries libraries_documented transferOfOne
    (by simp only [WireOperation.Fits, transferOfOne]; exact ⟨by decide, .inl rfl⟩)).mpr
      (assetReadable_of_lt (.inl rfl) (by decide))

/-- Alice deletes a comment. -/
def deletion : WireOperation where
  operation := .deleteComment { author := "alice", permlink := "first" }

theorem deletion_not_written :
    deletion.validate textRules = .ok () ∧
      operationSerializer libraries (deletion.toJs libraries) ≠ .ok (deletion.pack libraries) := by
  have hvalid : deletion.validate textRules = .ok () := by decide +kernel
  refine ⟨hvalid, ?_⟩
  have hiff := @operationSerializer_iff libraries _ deletion rfl (signs_deleteComment libraries_documented)
  rw [Ne, hiff]
  exact not_false

end Sample

end Blurt
