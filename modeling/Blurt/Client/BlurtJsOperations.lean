import Blurt.Client.BlurtJsLaws
import Blurt.Protocol.AccountName

/-! # The operations that blurtjs signs

For every operation that passes its checks, the bytes of blurtjs are those of the node exactly
when the operation is supported.
-/

namespace Blurt

/-! ## Routes of beneficiaries -/

theorem validateRoutes_ok {sum : Nat} {previous : Option AccountName} {routes : List BeneficiaryRoute}
    (h : validateRoutes sum previous routes = .ok ()) :
    (∀ route ∈ routes, isValidAccountName route.account = true) ∧
      (∀ name ∈ previous, ∀ route ∈ routes, name < route.account) ∧
      routes.Pairwise fun x y => x.account < y.account := by
  induction routes generalizing sum previous with
  | nil => simp
  | cons route rest ih =>
      simp only [validateRoutes, validateAccountName, Outcome.bind_eq_ok,
        Outcome.ensure_eq_ok] at h
      obtain ⟨_, hvalid, _, -, _, -, _, hprevious, hrest⟩ := h
      obtain ⟨hvalids, hafter, hpairwise⟩ := ih hrest
      have hafter := hafter route.account rfl
      refine ⟨List.forall_mem_cons.mpr ⟨hvalid, hvalids⟩, ?_, List.pairwise_cons.mpr ⟨hafter, hpairwise⟩⟩
      intro name hname
      have hlt : name < route.account := by
        rw [Option.mem_def] at hname
        simpa [hname] using hprevious
      exact List.forall_mem_cons.mpr ⟨hlt, fun next hnext => hlt.trans (hafter next hnext)⟩

namespace Client

namespace BlurtJs

open Wire WireOperation

/-- Names are sorted by their bytes and by their code units alike. -/
theorem utf16Key_le_of_lt {s t : AccountName} (hs : isValidAccountName s = true)
    (ht : isValidAccountName t = true) (h : s < t) : utf16Key s ≤ utf16Key t := by
  have rank {name : AccountName} (hname : isValidAccountName name = true) :
      utf16Key name = name.toList.map Char.toNat := by
    apply List.map_congr_left
    intro c hc
    have := (toNat_of_isNameChar (isNameChar_of_isValidAccountName hname c hc)).2
    rw [utf16Rank, if_neg (by omega)]
  rw [rank hs, rank ht]
  apply le_of_lt
  exact List.map_lt (fun _ _ h => h) (String.lt_iff_toList_lt.mp h)

variable {lib : Libraries}

/-! ## Extensions -/

theorem checkDuplicates_of_noStrings {seen : List Text} {items : List Js}
    (h : ∀ o ∈ items, ∀ s, o ≠ .string s) : checkDuplicates seen items = .ok () := by
  induction items with
  | nil => rfl
  | cons o items ih =>
      have hrest := ih fun o ho => h o (List.mem_cons_of_mem _ ho)
      have ho := h o List.mem_cons_self
      cases o <;> simp_all [checkDuplicates]

@[simp] theorem length_sortOperation (array : List Js) (type : SerializerType) :
    (sortOperation array type).length = array.length := by
  unfold sortOperation
  split
  · rfl
  · exact List.length_insertionSort _ _

section Extensions

variable (hlib : lib.Documented)

include hlib

/-- A set that blurtjs neither searches nor reorders. -/
theorem agrees_set {α : Type} {type : SerializerType} {value : α → Value} {l : List α}
    (hstrings : ∀ x ∈ l, ∀ s, (value x).js ≠ .string s)
    (hsorted : sortOperation (l.map fun x => (value x).js) type = l.map fun x => (value x).js)
    {condition : α → Prop} (h : ∀ x ∈ l, Agrees type (value x) (condition x)) :
    Agrees (set lib type) (Value.array (l.map value)) (∀ x ∈ l, condition x) := by
  have hdup : checkDuplicates [] (l.map fun x => (value x).js) = .ok () := by
    apply checkDuplicates_of_noStrings
    intro o ho
    obtain ⟨x, hx, rfl⟩ := List.mem_map.mp ho
    exact hstrings x hx
  have hitems : (Value.array (l.map value)).js.items = l.map fun x => (value x).js := by
    simp [Value.array, Js.items]
  have hbytes : (Value.array (l.map value)).bytes =
      Value.unsignedInt l.length ++ l.flatMap fun x => (value x).bytes := by
    simp [Value.array, List.flatMap_map]
  have hall := (writes_length hlib l.length).seq (Writes.all h)
  unfold Agrees
  rw [hbytes]
  unfold set
  simp only [hitems, List.length_map, hdup, hsorted, Outcome.ok_bind]
  exact hall.congr (by simp)

/-- The only future extension is void, and nothing is written for it. -/
theorem agrees_futureExtensions (tags : List Nat) :
    Agrees (set lib futureExtensions) (Value.futureExtensions tags) (tags = []) := by
  cases tags with
  | nil =>
      apply (Writes.of_eq _).congr (iff_of_true trivial rfl)
      have hlength := hlib.writeVarint32 0
      simp only [set, Value.futureExtensions, Value.array, List.map_nil, Js.items, List.length_nil]
      rw [show ((0 : Nat) : Int) = 0 from rfl] at hlength
      simp only [checkDuplicates, sortOperation, List.insertionSort, List.foldr_nil, Outcome.ok_bind]
      exact congrArg (· >>= fun length => pure (length ++ [])) hlength
  | cons tag tags =>
      have hnone (b : Bytes) : (set lib futureExtensions).appendByteBuffer
          (Value.futureExtensions (tag :: tags)).js ≠ .ok b := by
        intro hout
        simp only [set, Outcome.bind_eq_ok] at hout
        obtain ⟨_, -, _, ⟨_, -, hall⟩, -⟩ := hout
        have hlength : (sortOperation (Value.futureExtensions (tag :: tags)).js.items
            futureExtensions).length = tags.length + 1 := by
          rw [length_sortOperation]
          simp [Value.futureExtensions, Value.array, Js.items]
        cases hitems : sortOperation (Value.futureExtensions (tag :: tags)).js.items
            futureExtensions with
        | nil =>
            rw [hitems] at hlength
            cases hlength
        | cons o rest =>
            rw [hitems, writeAll] at hall
            cases hall
      constructor
      · exact iff_of_false (hnone _) (List.cons_ne_nil _ _)
      · intro b hb
        exact absurd hb (hnone b)

/-- A member of a variant whose types agree. -/
theorem agrees_staticVariant {operations : List (String × SerializerType)} {which : Nat}
    {name : String} {type : SerializerType} {v : Value} {condition : Prop} {key : Js}
    (hkey : opTypeId (operations.map Prod.fst) key = some which)
    (htype : operations[which]? = some (name, type)) (h : Agrees type v condition) :
    Agrees (staticVariant lib operations)
      ⟨Value.unsignedInt which ++ v.bytes, .array [key, v.js]⟩ condition := by
  have hboth := (writes_length hlib which).seq h
  have hrequired : required (.array [key, v.js]) = .ok () := rfl
  have hitem : (Js.array [key, v.js]).item 0 = key := rfl
  have hitem' : (Js.array [key, v.js]).item 1 = v.js := rfl
  unfold Agrees staticVariant
  simp only [hrequired, Outcome.ok_bind, hitem, hitem', hkey, htype]
  exact hboth.congr (by simp)

theorem agrees_beneficiaries {routes : List BeneficiaryRoute}
    (hfits : ∀ route ∈ routes, FitsText route.account ∧ route.weight < 2 ^ 16)
    (hvalid : ∀ route ∈ routes, isValidAccountName route.account = true)
    (hsorted : routes.Pairwise fun x y => x.account < y.account) :
    Agrees (set lib (beneficiaries lib)) (Value.array (routes.map fun route =>
      Value.struct [("account", Value.string route.account),
        ("weight", Value.uint16 route.weight)])) True := by
  apply Writes.congr (agrees_set hlib _ _ _) _
  · exact fun _ => True
  · intro route _ s
    exact Js.noConfusion
  · have hpairwise : (routes.map fun route => (Value.struct [("account",
        Value.string route.account), ("weight", Value.uint16 route.weight)]).js).Pairwise
        fun a b => order (beneficiaries lib) a b ≤ 0 := by
      rw [List.pairwise_map]
      refine hsorted.imp_of_mem ?_
      intro x y hx hy hlt
      exact strCmp_le.mpr (utf16Key_le_of_lt (hvalid x hx) (hvalid y hy) hlt)
    exact hpairwise.insertionSort_eq
  · intro route hroute
    refine FieldsAgree.agrees (.skip (agrees_string hlib _)
      (.skip (agrees_uint16 hlib (hfits route hroute).2) .nil)) (by simp) (by simp)
  · simp

theorem agrees_commentOptionsExtension {extension : CommentOptionsExtension}
    (hfits : FitsExtension extension) (hvalid : extension.validate = .ok ()) :
    Agrees (staticVariant lib
        [("0", commentPayoutBeneficiaries lib), ("1", commentPayoutBlurt lib)])
      (Value.commentOptionsExtension extension) True := by
  cases extension with
  | payoutBeneficiaries routes =>
      simp only [CommentOptionsExtension.validate, Outcome.bind_eq_ok] at hvalid
      obtain ⟨_, -, _, -, hroutes⟩ := hvalid
      obtain ⟨hnames, -, hsorted⟩ := validateRoutes_ok hroutes
      refine agrees_staticVariant hlib rfl rfl ?_
      exact FieldsAgree.agrees (.skip (agrees_beneficiaries hlib hfits hnames hsorted) .nil)
        (by simp) (by simp)
  | payoutBlurt percentBlurt =>
      refine agrees_staticVariant hlib rfl rfl ?_
      exact FieldsAgree.agrees (.skip (agrees_uint16 hlib hfits) .nil) (by simp) (by simp)

theorem agrees_commentOptionsExtensions {extensions : List CommentOptionsExtension}
    (hfits : ∀ extension ∈ extensions, FitsExtension extension)
    (hvalid : ∀ extension ∈ extensions, extension.validate = .ok ()) :
    Agrees (set lib (staticVariant lib
        [("0", commentPayoutBeneficiaries lib), ("1", commentPayoutBlurt lib)]))
      (Value.array (extensions.map Value.commentOptionsExtension)) True := by
  apply Writes.congr (agrees_set hlib _ rfl _) _
  · exact fun _ => True
  · intro extension _ s
    cases extension <;> exact Js.noConfusion
  · intro extension hextension
    exact agrees_commentOptionsExtension hlib (hfits _ hextension) (hvalid _ hextension)
  · simp

end Extensions

/-! ## Operations -/

/-- The operations that blurtjs writes as the node does. -/
def Supported (lib : Libraries) (op : WireOperation) : Prop :=
  match op.operation with
  | .withdrawVesting o => 0 ≤ o.vestingShares.amount
  | .accountCreate o =>
      AuthorityReadable lib o.owner ∧ AuthorityReadable lib o.active ∧
        AuthorityReadable lib o.posting ∧ KeyReadable lib o.memoKey
  | .accountUpdate o =>
      (∀ a ∈ o.owner, AuthorityReadable lib a) ∧ (∀ a ∈ o.active, AuthorityReadable lib a) ∧
        (∀ a ∈ o.posting, AuthorityReadable lib a) ∧ (∀ k ∈ o.memoKey, KeyReadable lib k) ∧
        op.extensions = []
  | .witnessUpdate o =>
      KeyReadable lib o.blockSigningKey ∧ op.feeSymbol = AssetSymbol.blurtSer
  | .custom o => NamesReadable o.requiredAuths
  | .customJson o => NamesReadable o.requiredAuths ∧ NamesReadable o.requiredPostingAuths
  | .createClaimedAccount o =>
      AuthorityReadable lib o.owner ∧ AuthorityReadable lib o.active ∧
        AuthorityReadable lib o.posting ∧ KeyReadable lib o.memoKey
  | .requestAccountRecovery o =>
      AuthorityReadable lib o.newOwnerAuthority ∧ op.extensions = []
  | .recoverAccount o =>
      AuthorityReadable lib o.newOwnerAuthority ∧ AuthorityReadable lib o.recentOwnerAuthority ∧
        op.extensions = []
  | .changeRecoveryAccount _ => op.extensions = []
  | .escrowTransfer _ => False
  | .customBinary o =>
      NamesReadable o.requiredOwnerAuths ∧ NamesReadable o.requiredActiveAuths ∧
        NamesReadable o.requiredPostingAuths ∧
        o.requiredAuths.Pairwise (fun a b => a.weightThreshold ≤ b.weightThreshold) ∧
        ∀ a ∈ o.requiredAuths, AuthorityReadable lib a
  | .resetAccount o => AuthorityReadable lib o.newOwnerAuthority
  | .witnessSetProperties _ => False
  | .createProposal _ => op.extensions = []
  | .updateProposalVotes o => (∀ id ∈ o.proposalIds, IdReadable id) ∧ op.extensions = []
  | .removeProposal o => (∀ id ∈ o.proposalIds, IdReadable id) ∧ op.extensions = []
  | _ => True

section Operations

variable (hlib : lib.Documented)

include hlib

theorem agrees_asset_of_nonneg {a : Asset} (hfits : FitsAsset a) (h : 0 ≤ a.amount) :
    Agrees (asset lib) (Value.asset a) True :=
  (agrees_asset hlib hfits.1 hfits.2).congr (iff_of_true h trivial)

/-- The fee that a witness proposes is written with the canonical symbol. -/
theorem agrees_fee {fee : Int} {symbol : Bytes} (hfee : InInt64 fee) (hnonneg : 0 ≤ fee)
    (hsymbol : symbol ∈ AssetSymbol.blurtSer :: AssetSymbol.legacySers) :
    Agrees (asset lib) ⟨Value.int64Bytes fee ++ symbol, .string (Value.assetText (.blurt fee))⟩
      (symbol = AssetSymbol.blurtSer) := by
  have hout := (agrees_asset_of_nonneg (a := .blurt fee) hlib ⟨hfee, .inl rfl⟩ hnonneg).iff.mpr
    trivial
  have hlength : ∀ symbol ∈ AssetSymbol.blurtSer :: AssetSymbol.legacySers, symbol.length = 8 := by
    decide
  have hout : (asset lib).appendByteBuffer (.string (Value.assetText (.blurt fee))) =
      .ok (Value.int64Bytes fee ++ AssetSymbol.blurtSer) := hout
  unfold Agrees
  rw [hout]
  constructor
  · rw [Except.ok.injEq, List.append_cancel_left_eq, eq_comm]
  · rintro b ⟨⟩
    rw [List.length_append, List.length_append, hlength symbol hsymbol]
    rfl

theorem agrees_authority_option {o : Option Authority} (h : ∀ a ∈ o, FitsAuthority a) :
    Agrees (optional lib (authority lib)) (Value.optional (o.map (Value.authority lib)))
      (∀ a ∈ o, AuthorityReadable lib a) :=
  agrees_optional hlib (fun _ => ⟨Js.noConfusion, Js.noConfusion⟩) o fun a ha =>
    agrees_authority hlib (h a ha)

theorem agrees_publicKey_option (o : Option PublicKey) :
    Agrees (optional lib (publicKey lib)) (Value.optional (o.map (Value.publicKey lib)))
      (∀ k ∈ o, KeyReadable lib k) :=
  agrees_optional hlib (fun _ => ⟨Js.noConfusion, Js.noConfusion⟩) o fun k _ =>
    agrees_publicKey hlib k

variable {op : WireOperation} {rules : TextRules}

/-- An operation whose fields agree under the condition of its support. -/
def FieldsSupported (lib : Libraries) (type : SerializerType) (op : WireOperation) : Prop :=
  Agrees type (Value.struct (op.reflect lib)) (Supported lib op)

/-- The properties that a witness proposes. -/
theorem agrees_chainProperties {o : WitnessUpdateOperation} {symbol : Bytes}
    (hfits : InInt64 o.props.accountCreationFee ∧ o.props.maximumBlockSize < 2 ^ 32 ∧
      FitsAsset o.fee ∧ symbol ∈ AssetSymbol.blurtSer :: AssetSymbol.legacySers)
    (hmin : blurtMinAccountCreationFee ≤ o.props.accountCreationFee) :
    Agrees (chainProperties lib) (Value.struct [
      ("account_creation_fee", ⟨Value.int64Bytes o.props.accountCreationFee ++ symbol,
        .string (Value.assetText (.blurt o.props.accountCreationFee))⟩),
      ("maximum_block_size", Value.uint32 o.props.maximumBlockSize)])
      (symbol = AssetSymbol.blurtSer) := by
  have hnonneg : 0 ≤ o.props.accountCreationFee := le_trans (by decide) hmin
  exact FieldsAgree.agrees (.cons (agrees_fee hlib hfits.1 hnonneg hfits.2.2.2) <|
    .skip (agrees_uint32 hlib hfits.2.1) .nil) (by simp) (by simp)

omit hlib in
theorem creationFee_nonneg {fee : Asset} (h : validateCreationFee fee = .ok ()) : 0 ≤ fee.amount := by
  simp only [validateCreationFee, Outcome.bind_eq_ok, Outcome.ensure_eq_ok] at h
  obtain ⟨_, -, _, hnonneg, -⟩ := h
  exact hnonneg

omit hlib in
/-- A loop of checks has checked every item. -/
theorem forEach_checks {α : Type} {check : α → Except String Unit} {items : List α}
    (h : Outcome.forEach (fun _ item => check item) () items = .ok ()) :
    ∀ item ∈ items, check item = .ok () := by
  induction items with
  | nil => simp
  | cons item rest ih =>
      obtain ⟨_, hitem, hrest⟩ := Outcome.forEach_cons_eq_ok.mp h
      exact List.forall_mem_cons.mpr ⟨hitem, ih hrest⟩

omit hlib in
theorem transferToVesting_amount {o : TransferToVestingOperation} (h : o.validate = .ok ()) :
    0 < o.amount.amount := by
  simp only [TransferToVestingOperation.validate, Outcome.bind_eq_ok, Outcome.ensure_eq_ok] at h
  obtain ⟨_, -, _, -, h⟩ := h
  split at h
  · simp only [Outcome.bind_eq_ok, Outcome.ensure_eq_ok] at h
    obtain ⟨_, -, hpos⟩ := h
    exact hpos
  · simpa using h

theorem supported_vote {o : VoteOperation} (hop : op.operation = .vote o)
    (hfits : op.Fits) : FieldsSupported lib (vote lib) op := by
  simp only [Fits, hop] at hfits
  simp only [FieldsSupported, reflect, Supported, hop]
  refine FieldsAgree.agrees (.skip (agrees_string hlib _) <| .skip (agrees_string hlib _) <|
    .skip (agrees_string hlib _) <| .skip (agrees_int16 hlib hfits.1 hfits.2) .nil)
    (by simp) Iff.rfl

theorem supported_comment {o : CommentOperation} (hop : op.operation = .comment o) :
    FieldsSupported lib (comment lib) op := by
  simp only [FieldsSupported, reflect, Supported, hop]
  refine FieldsAgree.agrees (.skip (agrees_string hlib _) <| .skip (agrees_string hlib _) <|
    .skip (agrees_string hlib _) <| .skip (agrees_string hlib _) <|
    .skip (agrees_string hlib _) <| .skip (agrees_string hlib _) <|
    .skip (agrees_string hlib _) .nil) (by simp) Iff.rfl

theorem supported_transfer {o : TransferOperation} (hop : op.operation = .transfer o)
    (hfits : op.Fits) (hvalid : op.validate rules = .ok ()) :
    FieldsSupported lib (transfer lib) op := by
  simp only [Fits, hop] at hfits
  simp only [WireOperation.validate, Operation.validate, hop, TransferOperation.validate,
    Outcome.bind_eq_ok, Outcome.ensure_eq_ok] at hvalid
  obtain ⟨_, -, _, -, _, -, _, hpos, -⟩ := hvalid
  simp only [FieldsSupported, reflect, Supported, hop]
  refine FieldsAgree.agrees (.skip (agrees_string hlib _) <| .skip (agrees_string hlib _) <|
    .skip (agrees_asset_of_nonneg hlib hfits hpos.le) <| .skip (agrees_string hlib _) .nil)
    (by simp) Iff.rfl

theorem supported_transferToVesting {o : TransferToVestingOperation}
    (hop : op.operation = .transferToVesting o)
    (hfits : op.Fits) (hvalid : op.validate rules = .ok ()) :
    FieldsSupported lib (transferToVesting lib) op := by
  simp only [Fits, hop] at hfits
  simp only [WireOperation.validate, Operation.validate, hop] at hvalid
  simp only [FieldsSupported, reflect, Supported, hop]
  refine FieldsAgree.agrees (.skip (agrees_string hlib _) <| .skip (agrees_string hlib _) <|
    .skip (agrees_asset_of_nonneg hlib hfits (transferToVesting_amount hvalid).le) .nil)
    (by simp) Iff.rfl

theorem supported_withdrawVesting {o : WithdrawVestingOperation}
    (hop : op.operation = .withdrawVesting o)
    (hfits : op.Fits) : FieldsSupported lib (withdrawVesting lib) op := by
  simp only [Fits, hop] at hfits
  simp only [FieldsSupported, reflect, Supported, hop]
  refine FieldsAgree.agrees (.skip (agrees_string hlib _) <|
    .cons (agrees_asset hlib hfits.1 hfits.2) .nil) (by simp) (by simp)

theorem supported_accountCreate {o : AccountCreateOperation} (hop : op.operation = .accountCreate o)
    (hfits : op.Fits) (hvalid : op.validate rules = .ok ()) :
    FieldsSupported lib (accountCreate lib) op := by
  simp only [Fits, hop] at hfits
  simp only [WireOperation.validate, Operation.validate, hop, AccountCreateOperation.validate,
    Outcome.bind_eq_ok, Outcome.ensure_eq_ok] at hvalid
  obtain ⟨_, -, _, -, _, -, _, -, _, -, _, -, _, -, _, -, hfee⟩ := hvalid
  have hnonneg := creationFee_nonneg hfee
  simp only [FieldsSupported, reflect, Supported, hop]
  refine FieldsAgree.agrees (.skip (agrees_asset_of_nonneg hlib hfits.1 hnonneg) <|
    .skip (agrees_string hlib _) <| .skip (agrees_string hlib _) <|
    .cons (agrees_authority hlib hfits.2.1) <| .cons (agrees_authority hlib hfits.2.2.1) <|
    .cons (agrees_authority hlib hfits.2.2.2) <| .cons (agrees_publicKey hlib _) <|
    .skip (agrees_string hlib _) .nil) (by simp) ?_
  simp

theorem supported_accountUpdate {o : AccountUpdateOperation} (hop : op.operation = .accountUpdate o)
    (hfits : op.Fits) : FieldsSupported lib (accountUpdate lib) op := by
  simp only [Fits, hop] at hfits
  simp only [FieldsSupported, reflect, Supported, hop]
  refine FieldsAgree.agrees (.skip (agrees_string hlib _) <|
    .cons (agrees_authority_option hlib hfits.1) <|
    .cons (agrees_authority_option hlib hfits.2.1) <|
    .cons (agrees_authority_option hlib hfits.2.2) <| .cons (agrees_publicKey_option hlib _) <|
    .skip (agrees_string hlib _) <| .skip (agrees_string hlib _) <|
    .cons (agrees_futureExtensions hlib _) .nil) (by simp) ?_
  simp

theorem supported_witnessUpdate {o : WitnessUpdateOperation} (hop : op.operation = .witnessUpdate o)
    (hfits : op.Fits) (hvalid : op.validate rules = .ok ()) :
    FieldsSupported lib (witnessUpdate lib) op := by
  simp only [Fits, hop] at hfits
  simp only [WireOperation.validate, Operation.validate, hop, WitnessUpdateOperation.validate,
    Outcome.bind_eq_ok, Outcome.ensure_eq_ok] at hvalid
  obtain ⟨_, -, _, -, _, -, _, -, _, hfee, _, hmin, -⟩ := hvalid
  simp only [FieldsSupported, reflect, Supported, hop]
  refine FieldsAgree.agrees (.skip (agrees_string hlib _) <| .skip (agrees_string hlib _) <|
    .cons (agrees_publicKey hlib _) <| .cons (agrees_chainProperties hlib hfits hmin) <|
    .skip (agrees_asset_of_nonneg hlib hfits.2.2.1 hfee.2) .nil) (by simp) ?_
  simp

theorem supported_accountWitnessVote {o : AccountWitnessVoteOperation}
    (hop : op.operation = .accountWitnessVote o) :
    FieldsSupported lib (accountWitnessVote lib) op := by
  simp only [FieldsSupported, reflect, Supported, hop]
  refine FieldsAgree.agrees (.skip (agrees_string hlib _) <| .skip (agrees_string hlib _) <|
    .skip (agrees_bool hlib _) .nil) (by simp) Iff.rfl

theorem supported_accountWitnessProxy {o : AccountWitnessProxyOperation}
    (hop : op.operation = .accountWitnessProxy o) :
    FieldsSupported lib (accountWitnessProxy lib) op := by
  simp only [FieldsSupported, reflect, Supported, hop]
  refine FieldsAgree.agrees (.skip (agrees_string hlib _) <| .skip (agrees_string hlib _) .nil)
    (by simp) Iff.rfl

theorem supported_custom {o : CustomOperation} (hop : op.operation = .custom o)
    (hfits : op.Fits) : FieldsSupported lib (custom lib) op := by
  simp only [Fits, hop] at hfits
  simp only [FieldsSupported, reflect, Supported, hop]
  refine FieldsAgree.agrees (.cons (agrees_names hlib hfits.1) <|
    .skip (agrees_uint16 hlib hfits.2) <| .skip (agrees_bytes hlib _) .nil) (by simp) ?_
  simp

theorem supported_deleteComment {o : DeleteCommentOperation}
    (hop : op.operation = .deleteComment o) :
    FieldsSupported lib (deleteComment lib) op := by
  simp only [FieldsSupported, reflect, Supported, hop]
  refine FieldsAgree.agrees (.skip (agrees_string hlib _) <| .skip (agrees_string hlib _) .nil)
    (by simp) Iff.rfl

theorem supported_customJson {o : CustomJsonOperation} (hop : op.operation = .customJson o)
    (hfits : op.Fits) : FieldsSupported lib (customJson lib) op := by
  simp only [Fits, hop] at hfits
  simp only [FieldsSupported, reflect, Supported, hop]
  refine FieldsAgree.agrees (.cons (agrees_names hlib hfits.1) <|
    .cons (agrees_names hlib hfits.2) <| .skip (agrees_string hlib _) <|
    .skip (agrees_string hlib _) .nil) (by simp) ?_
  simp

theorem supported_commentOptions {o : CommentOptionsOperation}
    (hop : op.operation = .commentOptions o)
    (hfits : op.Fits) (hvalid : op.validate rules = .ok ()) :
    FieldsSupported lib (commentOptions lib) op := by
  simp only [Fits, hop] at hfits
  simp only [WireOperation.validate, Operation.validate, hop, CommentOptionsOperation.validate,
    Outcome.bind_eq_ok, Outcome.ensure_eq_ok] at hvalid
  obtain ⟨_, -, _, -, _, hnonneg, _, -, hall⟩ := hvalid
  have hextensions := forEach_checks hall
  simp only [FieldsSupported, reflect, Supported, hop]
  refine FieldsAgree.agrees (.skip (agrees_string hlib _) <| .skip (agrees_string hlib _) <|
    .skip (agrees_asset_of_nonneg hlib hfits.1 hnonneg) <| .skip (agrees_bool hlib _) <|
    .skip (agrees_bool hlib _) <|
    .skip (agrees_commentOptionsExtensions hlib hfits.2 hextensions) .nil) (by simp) Iff.rfl

theorem supported_setWithdrawVestingRoute {o : SetWithdrawVestingRouteOperation}
    (hop : op.operation = .setWithdrawVestingRoute o)
    (hfits : op.Fits) : FieldsSupported lib (setWithdrawVestingRoute lib) op := by
  simp only [Fits, hop] at hfits
  simp only [FieldsSupported, reflect, Supported, hop]
  refine FieldsAgree.agrees (.skip (agrees_string hlib _) <| .skip (agrees_string hlib _) <|
    .skip (agrees_uint16 hlib hfits) <| .skip (agrees_bool hlib _) .nil) (by simp) Iff.rfl

theorem supported_claimAccount {o : ClaimAccountOperation} (hop : op.operation = .claimAccount o)
    (hfits : op.Fits) (hvalid : op.validate rules = .ok ()) :
    FieldsSupported lib (claimAccount lib) op := by
  simp only [Fits, hop] at hfits
  simp only [WireOperation.validate, Operation.validate, hop, ClaimAccountOperation.validate,
    Outcome.bind_eq_ok, Outcome.ensure_eq_ok] at hvalid
  obtain ⟨_, -, _, hfee, hnone⟩ := hvalid
  have hnonneg := creationFee_nonneg hfee
  simp only [FieldsSupported, reflect, Supported, hop]
  refine FieldsAgree.agrees (.skip (agrees_string hlib _) <|
    .skip (agrees_asset_of_nonneg hlib hfits hnonneg) <|
    .cons (agrees_futureExtensions hlib _) .nil) (by simp) ?_
  simp [hnone]

theorem supported_createClaimedAccount {o : CreateClaimedAccountOperation}
    (hop : op.operation = .createClaimedAccount o)
    (hfits : op.Fits) (hvalid : op.validate rules = .ok ()) :
    FieldsSupported lib (createClaimedAccount lib) op := by
  simp only [Fits, hop] at hfits
  simp only [WireOperation.validate, Operation.validate, hop, CreateClaimedAccountOperation.validate,
    Outcome.bind_eq_ok, Outcome.ensure_eq_ok] at hvalid
  obtain ⟨_, -, _, -, _, -, _, -, _, -, _, -, _, -, _, -, _, -, hnone⟩ := hvalid
  simp only [FieldsSupported, reflect, Supported, hop]
  refine FieldsAgree.agrees (.skip (agrees_string hlib _) <| .skip (agrees_string hlib _) <|
    .cons (agrees_authority hlib hfits.1) <| .cons (agrees_authority hlib hfits.2.1) <|
    .cons (agrees_authority hlib hfits.2.2) <| .cons (agrees_publicKey hlib _) <|
    .skip (agrees_string hlib _) <| .cons (agrees_futureExtensions hlib _) .nil) (by simp) ?_
  simp [hnone]

theorem supported_requestAccountRecovery {o : RequestAccountRecoveryOperation}
    (hop : op.operation = .requestAccountRecovery o)
    (hfits : op.Fits) : FieldsSupported lib (requestAccountRecovery lib) op := by
  simp only [Fits, hop] at hfits
  simp only [FieldsSupported, reflect, Supported, hop]
  refine FieldsAgree.agrees (.skip (agrees_string hlib _) <| .skip (agrees_string hlib _) <|
    .cons (agrees_authority hlib hfits) <| .cons (agrees_futureExtensions hlib _) .nil) (by simp) ?_
  simp

theorem supported_recoverAccount {o : RecoverAccountOperation}
    (hop : op.operation = .recoverAccount o)
    (hfits : op.Fits) : FieldsSupported lib (recoverAccount lib) op := by
  simp only [Fits, hop] at hfits
  simp only [FieldsSupported, reflect, Supported, hop]
  refine FieldsAgree.agrees (.skip (agrees_string hlib _) <|
    .cons (agrees_authority hlib hfits.1) <| .cons (agrees_authority hlib hfits.2) <|
    .cons (agrees_futureExtensions hlib _) .nil) (by simp) ?_
  simp

theorem supported_changeRecoveryAccount {o : ChangeRecoveryAccountOperation}
    (hop : op.operation = .changeRecoveryAccount o) :
    FieldsSupported lib (changeRecoveryAccount lib) op := by
  simp only [FieldsSupported, reflect, Supported, hop]
  refine FieldsAgree.agrees (.skip (agrees_string hlib _) <| .skip (agrees_string hlib _) <|
    .cons (agrees_futureExtensions hlib _) .nil) (by simp) ?_
  simp

theorem supported_escrowDispute {o : EscrowDisputeOperation} (hop : op.operation = .escrowDispute o)
    (hfits : op.Fits) : FieldsSupported lib (escrowDispute lib) op := by
  simp only [Fits, hop] at hfits
  simp only [FieldsSupported, reflect, Supported, hop]
  refine FieldsAgree.agrees (.skip (agrees_string hlib _) <| .skip (agrees_string hlib _) <|
    .skip (agrees_string hlib _) <| .skip (agrees_string hlib _) <|
    .skip (agrees_uint32 hlib hfits) .nil) (by simp) Iff.rfl

theorem supported_escrowRelease {o : EscrowReleaseOperation} (hop : op.operation = .escrowRelease o)
    (hfits : op.Fits) (hvalid : op.validate rules = .ok ()) :
    FieldsSupported lib (escrowRelease lib) op := by
  simp only [Fits, hop] at hfits
  simp only [WireOperation.validate, Operation.validate, hop, EscrowReleaseOperation.validate,
    Outcome.bind_eq_ok, Outcome.ensure_eq_ok] at hvalid
  obtain ⟨_, -, _, -, _, -, _, -, _, -, _, -, _, -, _, hpos, -⟩ := hvalid
  simp only [FieldsSupported, reflect, Supported, hop]
  refine FieldsAgree.agrees (.skip (agrees_string hlib _) <| .skip (agrees_string hlib _) <|
    .skip (agrees_string hlib _) <| .skip (agrees_string hlib _) <|
    .skip (agrees_string hlib _) <| .skip (agrees_uint32 hlib hfits.2) <|
    .skip (agrees_asset_of_nonneg hlib hfits.1 hpos.le) .nil) (by simp) Iff.rfl

theorem supported_escrowApprove {o : EscrowApproveOperation} (hop : op.operation = .escrowApprove o)
    (hfits : op.Fits) : FieldsSupported lib (escrowApprove lib) op := by
  simp only [Fits, hop] at hfits
  simp only [FieldsSupported, reflect, Supported, hop]
  refine FieldsAgree.agrees (.skip (agrees_string hlib _) <| .skip (agrees_string hlib _) <|
    .skip (agrees_string hlib _) <| .skip (agrees_string hlib _) <|
    .skip (agrees_uint32 hlib hfits) <| .skip (agrees_bool hlib _) .nil) (by simp) Iff.rfl

theorem supported_transferToSavings {o : TransferToSavingsOperation}
    (hop : op.operation = .transferToSavings o)
    (hfits : op.Fits) (hvalid : op.validate rules = .ok ()) :
    FieldsSupported lib (transferToSavings lib) op := by
  simp only [Fits, hop] at hfits
  simp only [WireOperation.validate, Operation.validate, hop, TransferToSavingsOperation.validate,
    Outcome.bind_eq_ok, Outcome.ensure_eq_ok] at hvalid
  obtain ⟨_, -, _, -, _, hpos, -⟩ := hvalid
  simp only [FieldsSupported, reflect, Supported, hop]
  refine FieldsAgree.agrees (.skip (agrees_string hlib _) <| .skip (agrees_string hlib _) <|
    .skip (agrees_asset_of_nonneg hlib hfits hpos.le) <| .skip (agrees_string hlib _) .nil)
    (by simp) Iff.rfl

theorem supported_transferFromSavings {o : TransferFromSavingsOperation}
    (hop : op.operation = .transferFromSavings o)
    (hfits : op.Fits) (hvalid : op.validate rules = .ok ()) :
    FieldsSupported lib (transferFromSavings lib) op := by
  simp only [Fits, hop] at hfits
  simp only [WireOperation.validate, Operation.validate, hop, TransferFromSavingsOperation.validate,
    Outcome.bind_eq_ok, Outcome.ensure_eq_ok] at hvalid
  obtain ⟨_, -, _, -, _, hpos, -⟩ := hvalid
  simp only [FieldsSupported, reflect, Supported, hop]
  refine FieldsAgree.agrees (.skip (agrees_string hlib _) <|
    .skip (agrees_uint32 hlib hfits.2) <| .skip (agrees_string hlib _) <|
    .skip (agrees_asset_of_nonneg hlib hfits.1 hpos.le) <| .skip (agrees_string hlib _) .nil)
    (by simp) Iff.rfl

theorem supported_cancelTransferFromSavings {o : CancelTransferFromSavingsOperation}
    (hop : op.operation = .cancelTransferFromSavings o)
    (hfits : op.Fits) : FieldsSupported lib (cancelTransferFromSavings lib) op := by
  simp only [Fits, hop] at hfits
  simp only [FieldsSupported, reflect, Supported, hop]
  refine FieldsAgree.agrees (.skip (agrees_string hlib _) <|
    .skip (agrees_uint32 hlib hfits) .nil) (by simp) Iff.rfl

theorem supported_customBinary {o : CustomBinaryOperation} (hop : op.operation = .customBinary o)
    (hfits : op.Fits) : FieldsSupported lib (customBinary lib) op := by
  simp only [Fits, hop] at hfits
  simp only [FieldsSupported, reflect, Supported, hop]
  refine FieldsAgree.agrees (.cons (agrees_names hlib hfits.1) <|
    .cons (agrees_names hlib hfits.2.1) <| .cons (agrees_names hlib hfits.2.2.1) <|
    .cons (agrees_authorities hlib hfits.2.2.2) <| .skip (agrees_string hlib _) <|
    .skip (agrees_bytes hlib _) .nil) (by simp) ?_
  simp

theorem supported_declineVotingRights {o : DeclineVotingRightsOperation}
    (hop : op.operation = .declineVotingRights o) :
    FieldsSupported lib (declineVotingRights lib) op := by
  simp only [FieldsSupported, reflect, Supported, hop]
  refine FieldsAgree.agrees (.skip (agrees_string hlib _) <| .skip (agrees_bool hlib _) .nil)
    (by simp) Iff.rfl

theorem supported_resetAccount {o : ResetAccountOperation} (hop : op.operation = .resetAccount o)
    (hfits : op.Fits) : FieldsSupported lib (resetAccount lib) op := by
  simp only [Fits, hop] at hfits
  simp only [FieldsSupported, reflect, Supported, hop]
  refine FieldsAgree.agrees (.skip (agrees_string hlib _) <| .skip (agrees_string hlib _) <|
    .cons (agrees_authority hlib hfits) .nil) (by simp) ?_
  simp

theorem supported_setResetAccount {o : SetResetAccountOperation}
    (hop : op.operation = .setResetAccount o) :
    FieldsSupported lib (setResetAccount lib) op := by
  simp only [FieldsSupported, reflect, Supported, hop]
  refine FieldsAgree.agrees (.skip (agrees_string hlib _) <| .skip (agrees_string hlib _) <|
    .skip (agrees_string hlib _) .nil) (by simp) Iff.rfl

theorem supported_claimRewardBalance {o : ClaimRewardBalanceOperation}
    (hop : op.operation = .claimRewardBalance o)
    (hfits : op.Fits) (hvalid : op.validate rules = .ok ()) :
    FieldsSupported lib (claimRewardBalance lib) op := by
  simp only [Fits, hop] at hfits
  simp only [WireOperation.validate, Operation.validate, hop, ClaimRewardBalanceOperation.validate,
    Outcome.bind_eq_ok, Outcome.ensure_eq_ok] at hvalid
  obtain ⟨_, -, _, -, _, -, _, hblurt, _, hvests, -⟩ := hvalid
  simp only [FieldsSupported, reflect, Supported, hop]
  refine FieldsAgree.agrees (.skip (agrees_string hlib _) <|
    .skip (agrees_asset_of_nonneg hlib hfits.1 hblurt) <|
    .skip (agrees_asset_of_nonneg hlib hfits.2 hvests) .nil) (by simp) Iff.rfl

theorem supported_delegateVestingShares {o : DelegateVestingSharesOperation}
    (hop : op.operation = .delegateVestingShares o)
    (hfits : op.Fits) (hvalid : op.validate rules = .ok ()) :
    FieldsSupported lib (delegateVestingShares lib) op := by
  simp only [Fits, hop] at hfits
  simp only [WireOperation.validate, Operation.validate, hop, DelegateVestingSharesOperation.validate,
    Outcome.bind_eq_ok, Outcome.ensure_eq_ok] at hvalid
  obtain ⟨_, -, _, -, _, -, _, -, hnonneg⟩ := hvalid
  simp only [FieldsSupported, reflect, Supported, hop]
  refine FieldsAgree.agrees (.skip (agrees_string hlib _) <| .skip (agrees_string hlib _) <|
    .skip (agrees_asset_of_nonneg hlib hfits hnonneg) .nil) (by simp) Iff.rfl

theorem supported_createProposal {o : CreateProposalOperation}
    (hop : op.operation = .createProposal o)
    (hfits : op.Fits) (hvalid : op.validate rules = .ok ()) :
    FieldsSupported lib (createProposal lib) op := by
  simp only [Fits, hop] at hfits
  simp only [WireOperation.validate, Operation.validate, hop, CreateProposalOperation.validate,
    Outcome.bind_eq_ok, Outcome.ensure_eq_ok] at hvalid
  obtain ⟨_, -, _, -, _, -, _, hnonneg, -⟩ := hvalid
  simp only [FieldsSupported, reflect, Supported, hop]
  refine FieldsAgree.agrees (.skip (agrees_string hlib _) <| .skip (agrees_string hlib _) <|
    .skip (agrees_timePointSec hlib hfits.2.1) <| .skip (agrees_timePointSec hlib hfits.2.2) <|
    .skip (agrees_asset_of_nonneg hlib hfits.1 hnonneg) <| .skip (agrees_string hlib _) <|
    .skip (agrees_string hlib _) <| .cons (agrees_futureExtensions hlib _) .nil) (by simp) ?_
  simp

theorem supported_updateProposalVotes {o : UpdateProposalVotesOperation}
    (hop : op.operation = .updateProposalVotes o)
    (hfits : op.Fits) : FieldsSupported lib (updateProposalVotes lib) op := by
  simp only [Fits, hop] at hfits
  simp only [FieldsSupported, reflect, Supported, hop]
  refine FieldsAgree.agrees (.skip (agrees_string hlib _) <|
    .cons (agrees_ids hlib hfits.1 hfits.2) <| .skip (agrees_bool hlib _) <|
    .cons (agrees_futureExtensions hlib _) .nil) (by simp) ?_
  simp

theorem supported_removeProposal {o : RemoveProposalOperation}
    (hop : op.operation = .removeProposal o)
    (hfits : op.Fits) : FieldsSupported lib (removeProposal lib) op := by
  simp only [Fits, hop] at hfits
  simp only [FieldsSupported, reflect, Supported, hop]
  refine FieldsAgree.agrees (.skip (agrees_string hlib _) <|
    .cons (agrees_ids hlib hfits.1 hfits.2) <| .cons (agrees_futureExtensions hlib _) .nil)
    (by simp) ?_
  simp

/-! ## Escrows

The fields of `escrow_transfer` are written in another order.
-/

omit hlib in
/-- An account name where the node has an amount: the bytes of the name and of the symbol of
the amount would have to be the same. -/
theorem name_amount_ne {first : UInt8} {name amount id rest rest' : Bytes}
    (hfirst : first = UInt8.ofNat name.length) (hlow : 3 ≤ name.length) (hhigh : name.length ≤ 16)
    (hname : ∀ b ∈ name, 45 ≤ b.toNat ∧ b ≠ 66) (hid : id.length = 4) (hamount : amount.length = 8) :
    first :: (name ++ (id ++ ((amount ++ AssetSymbol.blurtSer) ++ rest))) ≠
      (amount ++ AssetSymbol.blurtSer) ++ (id ++ rest') := by
  intro h
  match amount, hamount with
  | [m0, m1, m2, m3, m4, m5, m6, m7], _ =>
    match id, hid with
    | [i0, i1, i2, i3], _ =>
      simp only [AssetSymbol.blurtSer, List.cons_append, List.nil_append, List.cons.injEq] at h
      obtain ⟨hm0, h⟩ := h
      match name, hlow with
      | a0 :: a1 :: a2 :: name, _ =>
        have ha0 := hname a0 (by simp)
        simp only [List.cons_append, List.cons.injEq] at h
        obtain ⟨h0, h1, h2, h⟩ := h
        rcases name with _ | ⟨a3, _ | ⟨a4, _ | ⟨a5, _ | ⟨a6, _ | ⟨a7, name⟩⟩⟩⟩⟩ <;>
          simp only [List.cons_append, List.nil_append, List.cons.injEq, List.length_cons,
            List.length_nil, Nat.reduceAdd] at h hfirst
        -- the length of the name is the first byte of the amount, which comes again later
        · exact ha0.2 (by grind)
        · grind
        · grind
        · grind
        · grind
        · obtain ⟨-, -, -, -, h7, -⟩ := h
          have ha7 := (hname a7 (by simp)).1
          rw [h7] at ha7
          exact absurd ha7 (by decide)

omit hlib in
theorem bytes_of_name {name : AccountName} (h : isValidAccountName name = true) :
    (Value.string name).bytes = UInt8.ofNat (textBytes name).length :: textBytes name ∧
      3 ≤ (textBytes name).length ∧ (textBytes name).length ≤ 16 ∧
      ∀ b ∈ textBytes name, 45 ≤ b.toNat ∧ b ≠ 66 := by
  obtain ⟨hlow, hhigh⟩ := length_of_isValidAccountName h
  rw [length_textBytes]
  refine ⟨?_, hlow, hhigh, ?_⟩
  · rw [Value.string, Value.unsignedInt, Nat.mod_eq_of_lt (by omega), varint, if_pos (by omega)]
    rfl
  · intro b hb
    obtain ⟨c, hc, rfl⟩ := List.mem_map.mp hb
    have hchar := isNameChar_of_isValidAccountName h c hc
    have hbounds := toNat_of_isNameChar hchar
    have hbyte : (UInt8.ofNat c.toNat).toNat = c.toNat := by
      rw [UInt8.toNat_ofNat', Nat.mod_eq_of_lt (by omega)]
    refine ⟨by omega, ?_⟩
    intro hupper
    rw [hupper] at hbyte
    have hbyte : 66 = c.toNat := hbyte
    exact not_isNameChar_upper (by omega) (by omega) hchar

theorem escrowTransfer_ne {o : EscrowTransferOperation} (hop : op.operation = .escrowTransfer o)
    (hfits : op.Fits) (hvalid : op.validate rules = .ok ()) :
    (escrowTransfer lib).appendByteBuffer (Value.struct (op.reflect lib)).js ≠
      .ok (Value.struct (op.reflect lib)).bytes := by
  simp only [Fits, hop] at hfits
  simp only [WireOperation.validate, Operation.validate, hop, EscrowTransferOperation.validate,
    validateAccountName, Outcome.bind_eq_ok, Outcome.ensure_eq_ok] at hvalid
  obtain ⟨_, -, _, -, _, hagent, _, hfee, _, hamount, _, -, _, -, _, hsymbol, -⟩ := hvalid
  obtain ⟨hfitsAmount, hfitsFee, hid, hratification, hexpiration⟩ := hfits
  have hblurt : (Value.asset o.blurtAmount).bytes =
      Value.int64Bytes o.blurtAmount.amount ++ AssetSymbol.blurtSer := by
    rw [Value.asset, Value.symbolBytes, if_pos hsymbol]
  -- what blurtjs writes, in its own order of the fields
  have hfields : FieldsAgree
      [("from", string lib), ("to", string lib), ("agent", string lib), ("escrow_id", uint32 lib),
        ("blurt_amount", asset lib), ("fee", asset lib),
        ("ratification_deadline", timePointSec lib), ("escrow_expiration", timePointSec lib),
        ("json_meta", string lib)]
      [("from", Value.string o.fromAccount), ("to", Value.string o.toAccount),
        ("agent", Value.string o.agent), ("escrow_id", Value.uint32 o.escrowId),
        ("blurt_amount", Value.asset o.blurtAmount), ("fee", Value.asset o.fee),
        ("ratification_deadline", Value.time o.ratificationDeadline),
        ("escrow_expiration", Value.time o.escrowExpiration),
        ("json_meta", Value.string o.jsonMeta)] True :=
    .skip (agrees_string hlib _) <| .skip (agrees_string hlib _) <|
      .skip (agrees_string hlib _) <| .skip (agrees_uint32 hlib hid) <|
      .skip (agrees_asset_of_nonneg hlib hfitsAmount hamount.le) <|
      .skip (agrees_asset_of_nonneg hlib hfitsFee hfee) <|
      .skip (agrees_timePointSec hlib hratification) <|
      .skip (agrees_timePointSec hlib hexpiration) <| .skip (agrees_string hlib _) .nil
  have hget : ∀ field ∈ [("from", Value.string o.fromAccount), ("to", Value.string o.toAccount),
        ("agent", Value.string o.agent), ("escrow_id", Value.uint32 o.escrowId),
        ("blurt_amount", Value.asset o.blurtAmount), ("fee", Value.asset o.fee),
        ("ratification_deadline", Value.time o.ratificationDeadline),
        ("escrow_expiration", Value.time o.escrowExpiration),
        ("json_meta", Value.string o.jsonMeta)],
      (Value.struct (op.reflect lib)).js.get field.1 = .ok field.2.js := by
    intro field hfield
    have hmem : (field.1, field.2) ∈ op.reflect lib := by
      simp only [reflect, hop]
      simp only [List.mem_cons, List.not_mem_nil, or_false] at hfield ⊢
      tauto
    rw [Value.struct, Js.get, lookup_js (by simp only [reflect, hop]; simp) hmem]
    rfl
  have hout := (hfields.appendFields hget).iff.mpr trivial
  intro hsame
  have hbytes := Except.ok.inj (hout.symm.trans hsame)
  obtain ⟨hname, hlow, hhigh, hchars⟩ := bytes_of_name hagent
  simp only [reflect, hop, Value.struct, List.flatMap_cons, List.flatMap_nil,
    List.append_cancel_left_eq] at hbytes
  rw [hname, hblurt] at hbytes
  exact name_amount_ne rfl hlow hhigh hchars (LittleEndian.length_encode 4 o.escrowId)
    (Value.length_int64Bytes _) hbytes

/-! ## Properties of witnesses

The entries of `props` are joined to one text.
-/

omit hlib in
theorem length_hexText (data : Bytes) : (Value.hexText data).length = 2 * data.length := by
  rw [Value.hexText, String.length_ofList, List.length_flatMap]
  simp [Nat.mul_comm]

omit hlib in
theorem length_join {texts : List Text} (h : texts ≠ []) :
    (Js.join texts).length + 1 = (texts.map fun s => s.length + 1).sum := by
  induction texts with
  | nil => exact absurd rfl h
  | cons first rest ih =>
      cases rest with
      | nil => simp [Js.join]
      | cons second rest =>
          have hrest := ih (List.cons_ne_nil _ _)
          rw [Js.join, String.length_append, String.length_append, List.map_cons, List.sum_cons,
            ← hrest]
          · simp only [show ",".length = 1 from rfl]
            omega
          · exact List.cons_ne_nil _ _

omit hlib in
/-- The text of the entries of `props`. -/
theorem toText_props (props : List (Text × Text)) :
    (Value.map (props.map fun (key, data) => (Value.string key, Value.binary data))).js.toText =
      Js.join (props.map fun entry => entry.1 ++ "," ++ Value.hexText (textBytes entry.2)) := by
  have hitems (entries : List (Text × Text)) :
      Js.itemTexts (entries.map fun entry =>
        Js.array [.string entry.1, .string (Value.hexText (textBytes entry.2))]) =
        entries.map fun entry => entry.1 ++ "," ++ Value.hexText (textBytes entry.2) := by
    induction entries with
    | nil => rfl
    | cons entry entries ih =>
        rw [List.map_cons, Js.itemTexts, ih]
        · rfl
        · rintro ⟨⟩
        · rintro ⟨⟩
  simp only [Value.map, List.map_map, Js.toText]
  exact congrArg Js.join (hitems props)

omit hlib in
theorem two_mul_length_le (props : List (Text × Text)) :
    2 * props.length ≤ (props.map fun entry => entry.1.length + 2 * entry.2.length + 2).sum := by
  induction props with
  | nil => exact Nat.le_refl _
  | cons entry props ih =>
      rw [List.length_cons, List.map_cons, List.sum_cons]
      omega

omit hlib in
theorem length_lt_of_key {props : List (Text × Text)} (h : "key" ∈ props.map Prod.fst) :
    2 * props.length + 3 ≤
      (props.map fun entry => entry.1.length + 2 * entry.2.length + 2).sum := by
  induction props with
  | nil => cases h
  | cons entry props ih =>
      rw [List.length_cons, List.map_cons, List.sum_cons]
      have hrest := two_mul_length_le props
      rcases List.mem_cons.mp h with hkey | h
      · have : entry.1.length = 3 := by
          rw [← hkey]
          rfl
        omega
      · have := ih h
        omega

omit hlib in
theorem length_props {props : List (Text × Text)} (h : "key" ∈ props.map Prod.fst) :
    (Js.join (props.map fun entry =>
        entry.1 ++ "," ++ Value.hexText (textBytes entry.2))).length + 1 =
      (props.map fun entry => entry.1.length + 2 * entry.2.length + 2).sum := by
  have hnil : props.map (fun entry => entry.1 ++ "," ++ Value.hexText (textBytes entry.2)) ≠ [] := by
    rintro hnil
    rw [List.map_eq_nil_iff.mp hnil] at h
    cases h
  rw [length_join hnil, List.map_map]
  congr 1
  apply List.map_congr_left
  intro entry _
  simp only [Function.comp, String.length_append, length_hexText, length_textBytes,
    show ",".length = 1 from rfl]
  omega

theorem witnessSetProperties_ne {o : WitnessSetPropertiesOperation}
    (hop : op.operation = .witnessSetProperties o) (hfits : op.Fits)
    (hvalid : op.validate rules = .ok ()) :
    (witnessSetProperties lib).appendByteBuffer (Value.struct (op.reflect lib)).js ≠
      .ok (Value.struct (op.reflect lib)).bytes := by
  simp only [Fits, hop] at hfits
  simp only [WireOperation.validate, Operation.validate, hop,
    WitnessSetPropertiesOperation.validate, Outcome.bind_eq_ok, Outcome.ensure_eq_ok] at hvalid
  obtain ⟨_, -, _, hkey, -⟩ := hvalid
  obtain ⟨hprops, hcount, hsize⟩ := hfits
  have hkey := hprops hkey
  have hlength := length_props hkey
  have hlow := length_lt_of_key hkey
  rw [← toText_props] at hlength
  set props := Value.map (op.props.map fun (key, data) => (Value.string key, Value.binary data))
    with hset
  intro hsame
  simp only [reflect, hop, ← hset] at hsame
  have howner : (string lib).appendByteBuffer (Value.string o.owner).js =
      .ok (Value.string o.owner).bytes := (agrees_string hlib _).iff.mpr trivial
  have htext : (string lib).appendByteBuffer props.js = .ok
      (varint 5 (props.js.toText.length % 2 ^ 32) ++ textBytes props.js.toText) :=
    hlib.writeVString _
  have hget (name : String) (v : Value) (h : (name, v) ∈ [("owner", Value.string o.owner),
      ("props", props), ("extensions", Value.futureExtensions op.extensions)]) :
      (Value.struct [("owner", Value.string o.owner), ("props", props),
        ("extensions", Value.futureExtensions op.extensions)]).js.get name = .ok v.js := by
    rw [Value.struct, Js.get, lookup_js (by simp) h]
    rfl
  simp only [witnessSetProperties, serializer, appendFields, writeAll,
    hget "owner" _ List.mem_cons_self, hget "props" _ (List.mem_cons_of_mem _ List.mem_cons_self),
    howner, htext, Outcome.ok_bind, Outcome.bind_eq_ok, Outcome.pure_eq_ok] at hsame
  obtain ⟨_, ⟨extensions, -, rfl⟩, hsum⟩ := hsame
  simp only [Value.struct, List.flatMap_cons, List.append_cancel_left_eq, List.append_assoc] at hsum
  have hmap : props.bytes = varint 5 (op.props.length % 2 ^ 32) ++ (op.props.map
      fun (key, data) => (Value.string key, Value.binary data)).flatMap
        fun entry => entry.1.bytes ++ entry.2.bytes := by
    rw [hset, Value.map, Value.unsignedInt, List.length_map]
  rw [hmap, List.append_assoc] at hsum
  have hroom (n : Nat) : n % 2 ^ 32 < 128 ^ 5 :=
    lt_trans (Nat.mod_lt n (by decide)) (by decide)
  have hsame := (varint_append_inj (hroom _) (hroom _) (by decide) hsum).1
  omega

end Operations

/-! ## The table of operations -/

variable {op : WireOperation} {rules : TextRules}

/-- The serializer of an operation is found under its name at its position. -/
def Entry (lib : Libraries) (op : Operation) (type : SerializerType) : Prop :=
  opTypeId ((stOperations lib).map Prod.fst) (.string (name op)) = some (which op) ∧
    (stOperations lib)[which op]? = some (name op, type)

/-- What an operation type writes, `operation` writes behind its position. -/
theorem operation_append (hlib : lib.Documented) {type : SerializerType}
    (h : Entry lib op.operation type) :
    (operation lib).appendByteBuffer (op.toJs lib) = .ok (op.pack lib) ↔
      type.appendByteBuffer (Value.struct (op.reflect lib)).js =
        .ok (Value.struct (op.reflect lib)).bytes := by
  have hwhich : lib.writeVarint32 (which op.operation) =
      .ok (Value.unsignedInt (which op.operation)) := hlib.writeVarint32 _
  have hrequired : required (op.toJs lib) = .ok () := rfl
  have hitem : (op.toJs lib).item 0 = .string (name op.operation) := rfl
  have hitem' : (op.toJs lib).item 1 = (Value.struct (op.reflect lib)).js := rfl
  unfold operation staticVariant
  simp only [hrequired, Outcome.ok_bind, hitem, hitem', h.1, h.2, hwhich, pack,
    Outcome.bind_eq_ok, Outcome.pure_eq_ok, List.append_cancel_left_eq, exists_eq_right]

theorem supported_iff (hlib : lib.Documented) {type : SerializerType}
    (h : Entry lib op.operation type) (hsupported : FieldsSupported lib type op) :
    (operation lib).appendByteBuffer (op.toJs lib) = .ok (op.pack lib) ↔ Supported lib op :=
  (operation_append hlib h).trans hsupported.iff

theorem unsupported_iff (hlib : lib.Documented) {type : SerializerType}
    (h : Entry lib op.operation type) (hsupported : ¬ Supported lib op)
    (hne : type.appendByteBuffer (Value.struct (op.reflect lib)).js ≠
      .ok (Value.struct (op.reflect lib)).bytes) :
    (operation lib).appendByteBuffer (op.toJs lib) = .ok (op.pack lib) ↔ Supported lib op :=
  (operation_append hlib h).trans (iff_of_false hne hsupported)

/-- The serializer of blurtjs writes the bytes that the node packs, and with them hashes,
exactly for the supported operations. -/
theorem appendByteBuffer_eq_pack_iff (hlib : lib.Documented) (hfits : op.Fits)
    (hvalid : op.validate rules = .ok ()) :
    (operation lib).appendByteBuffer (op.toJs lib) = .ok (op.pack lib) ↔ Supported lib op := by
  cases hop : op.operation with
  | vote o => exact supported_iff hlib (hop ▸ ⟨rfl, rfl⟩) (supported_vote hlib hop hfits)
  | comment o => exact supported_iff hlib (hop ▸ ⟨rfl, rfl⟩) (supported_comment hlib hop)
  | transfer o =>
      exact supported_iff hlib (hop ▸ ⟨rfl, rfl⟩) (supported_transfer hlib hop hfits hvalid)
  | transferToVesting o =>
      exact supported_iff hlib (hop ▸ ⟨rfl, rfl⟩) (supported_transferToVesting hlib hop hfits hvalid)
  | withdrawVesting o =>
      exact supported_iff hlib (hop ▸ ⟨rfl, rfl⟩) (supported_withdrawVesting hlib hop hfits)
  | accountCreate o =>
      exact supported_iff hlib (hop ▸ ⟨rfl, rfl⟩) (supported_accountCreate hlib hop hfits hvalid)
  | accountUpdate o =>
      exact supported_iff hlib (hop ▸ ⟨rfl, rfl⟩) (supported_accountUpdate hlib hop hfits)
  | witnessUpdate o =>
      exact supported_iff hlib (hop ▸ ⟨rfl, rfl⟩) (supported_witnessUpdate hlib hop hfits hvalid)
  | accountWitnessVote o =>
      exact supported_iff hlib (hop ▸ ⟨rfl, rfl⟩) (supported_accountWitnessVote hlib hop)
  | accountWitnessProxy o =>
      exact supported_iff hlib (hop ▸ ⟨rfl, rfl⟩) (supported_accountWitnessProxy hlib hop)
  | custom o => exact supported_iff hlib (hop ▸ ⟨rfl, rfl⟩) (supported_custom hlib hop hfits)
  | deleteComment o =>
      exact supported_iff hlib (hop ▸ ⟨rfl, rfl⟩) (supported_deleteComment hlib hop)
  | customJson o =>
      exact supported_iff hlib (hop ▸ ⟨rfl, rfl⟩) (supported_customJson hlib hop hfits)
  | commentOptions o =>
      exact supported_iff hlib (hop ▸ ⟨rfl, rfl⟩) (supported_commentOptions hlib hop hfits hvalid)
  | setWithdrawVestingRoute o =>
      exact supported_iff hlib (hop ▸ ⟨rfl, rfl⟩) (supported_setWithdrawVestingRoute hlib hop hfits)
  | claimAccount o =>
      exact supported_iff hlib (hop ▸ ⟨rfl, rfl⟩) (supported_claimAccount hlib hop hfits hvalid)
  | createClaimedAccount o =>
      exact supported_iff hlib (hop ▸ ⟨rfl, rfl⟩) (supported_createClaimedAccount hlib hop hfits hvalid)
  | requestAccountRecovery o =>
      exact supported_iff hlib (hop ▸ ⟨rfl, rfl⟩) (supported_requestAccountRecovery hlib hop hfits)
  | recoverAccount o =>
      exact supported_iff hlib (hop ▸ ⟨rfl, rfl⟩) (supported_recoverAccount hlib hop hfits)
  | changeRecoveryAccount o =>
      exact supported_iff hlib (hop ▸ ⟨rfl, rfl⟩) (supported_changeRecoveryAccount hlib hop)
  | escrowTransfer o =>
      exact unsupported_iff hlib (hop ▸ ⟨rfl, rfl⟩) (by simp [Supported, hop])
        (escrowTransfer_ne hlib hop hfits hvalid)
  | escrowDispute o =>
      exact supported_iff hlib (hop ▸ ⟨rfl, rfl⟩) (supported_escrowDispute hlib hop hfits)
  | escrowRelease o =>
      exact supported_iff hlib (hop ▸ ⟨rfl, rfl⟩) (supported_escrowRelease hlib hop hfits hvalid)
  | escrowApprove o =>
      exact supported_iff hlib (hop ▸ ⟨rfl, rfl⟩) (supported_escrowApprove hlib hop hfits)
  | transferToSavings o =>
      exact supported_iff hlib (hop ▸ ⟨rfl, rfl⟩) (supported_transferToSavings hlib hop hfits hvalid)
  | transferFromSavings o =>
      exact supported_iff hlib (hop ▸ ⟨rfl, rfl⟩) (supported_transferFromSavings hlib hop hfits hvalid)
  | cancelTransferFromSavings o =>
      exact supported_iff hlib (hop ▸ ⟨rfl, rfl⟩) (supported_cancelTransferFromSavings hlib hop hfits)
  | customBinary o =>
      exact supported_iff hlib (hop ▸ ⟨rfl, rfl⟩) (supported_customBinary hlib hop hfits)
  | declineVotingRights o =>
      exact supported_iff hlib (hop ▸ ⟨rfl, rfl⟩) (supported_declineVotingRights hlib hop)
  | resetAccount o =>
      exact supported_iff hlib (hop ▸ ⟨rfl, rfl⟩) (supported_resetAccount hlib hop hfits)
  | setResetAccount o =>
      exact supported_iff hlib (hop ▸ ⟨rfl, rfl⟩) (supported_setResetAccount hlib hop)
  | claimRewardBalance o =>
      exact supported_iff hlib (hop ▸ ⟨rfl, rfl⟩) (supported_claimRewardBalance hlib hop hfits hvalid)
  | delegateVestingShares o =>
      exact supported_iff hlib (hop ▸ ⟨rfl, rfl⟩) (supported_delegateVestingShares hlib hop hfits hvalid)
  | witnessSetProperties o =>
      exact unsupported_iff hlib (hop ▸ ⟨rfl, rfl⟩) (by simp [Supported, hop])
        (witnessSetProperties_ne hlib hop hfits hvalid)
  | createProposal o =>
      exact supported_iff hlib (hop ▸ ⟨rfl, rfl⟩) (supported_createProposal hlib hop hfits hvalid)
  | updateProposalVotes o =>
      exact supported_iff hlib (hop ▸ ⟨rfl, rfl⟩) (supported_updateProposalVotes hlib hop hfits)
  | removeProposal o =>
      exact supported_iff hlib (hop ▸ ⟨rfl, rfl⟩) (supported_removeProposal hlib hop hfits)

end BlurtJs

end Client

namespace Sample

open Client Client.BlurtJs Wire

/-- Packages that write every number in its lowest bytes and give keys as digits. -/
def libraries : Libraries where
  writeInt8 n := .ok (LittleEndian.encode 1 (n % 2 ^ 8).toNat)
  writeUint8 n := .ok (LittleEndian.encode 1 (n % 2 ^ 8).toNat)
  writeUint16 n := .ok (LittleEndian.encode 2 (n % 2 ^ 16).toNat)
  writeInt16 n := .ok (LittleEndian.encode 2 (n % 2 ^ 16).toNat)
  writeUint32 n := .ok (LittleEndian.encode 4 (n % 2 ^ 32).toNat)
  writeInt64 n := .ok (LittleEndian.encode 8 (n % 2 ^ 64).toNat)
  writeUint64 n := .ok (LittleEndian.encode 8 (n % 2 ^ 64).toNat)
  writeVarint32 n := .ok (varint 5 (n % 2 ^ 32).toNat)
  writeVString s := .ok (varint 5 (s.length % 2 ^ 32) ++ textBytes s)
  longFromString s := .ok (Decimal.parse s.toList)
  longToString n := String.ofList (Decimal.text n.natAbs)
  longFromNumber n := max (-2 ^ 63) (min n (2 ^ 63 - 1))
  base58Encode := Value.hexText
  base58Decode s := .ok (hexDecode s.toList)
  ripemd160 _ := List.replicate 20 0
  reencodePoint := .ok
  publicKeyVerify _ := true

theorem libraries_documented : libraries.Documented where
  writeInt8 n hn := by
    simp only [libraries]
    congr 2
    omega
  writeUint8 n hn := by
    simp only [libraries]
    congr 2
    omega
  writeUint16 n hn := by
    simp only [libraries]
    congr 2
    omega
  writeInt16 _ _ _ := rfl
  writeUint32 _ _ _ := rfl
  writeInt64 _ _ := rfl
  writeUint64 _ _ := rfl
  writeVarint32 n := by
    simp only [libraries]
    congr 2
  writeVString _ := rfl
  longFromString cs _ _ _ := by
    simp only [libraries, String.toList_ofList]
  longToString n _ := rfl
  longFromNumber _ := rfl
  base58Decode bytes := by
    simp only [libraries, hexDecode_hexText]
  length_ripemd160 _ := List.length_replicate
  length_reencodePoint bytes point hlength h := by
    cases h
    exact hlength
  reencodePoint_again _ _ _ := rfl

/-- Rules that accept every text. -/
def textRules : TextRules where
  isUtf8 _ := true
  isValidJson _ := true

def transferOfOne : WireOperation where
  operation := .transfer
    { fromAccount := "alice", toAccount := "bob", amount := .blurt 1000, memo := "rent" }

theorem transferOfOne_signed :
    (operation libraries).appendByteBuffer (transferOfOne.toJs libraries) =
      .ok (transferOfOne.pack libraries) :=
  (@appendByteBuffer_eq_pack_iff libraries transferOfOne textRules libraries_documented
    (by simp only [WireOperation.Fits, transferOfOne]; exact ⟨by decide, .inl rfl⟩)
    (by decide +kernel)).mpr trivial

/-- Alice escrows one BLURT for bob, with carol as the agent. -/
def escrowOfOne : WireOperation where
  operation := .escrowTransfer
    { fromAccount := "alice", toAccount := "bob", agent := "carol", escrowId := 30,
      blurtAmount := .blurt 1000, fee := .blurt 100, ratificationDeadline := 1600000000,
      escrowExpiration := 1700000000, jsonMeta := "" }

theorem escrowOfOne_not_signed :
    escrowOfOne.validate textRules = .ok () ∧
      (operation libraries).appendByteBuffer (escrowOfOne.toJs libraries) ≠
        .ok (escrowOfOne.pack libraries) := by
  have hvalid : escrowOfOne.validate textRules = .ok () := by decide +kernel
  have hfits : escrowOfOne.Fits := by
    simp only [WireOperation.Fits, escrowOfOne]
    exact ⟨⟨by decide, .inl rfl⟩, ⟨by decide, .inl rfl⟩, by decide, by decide, by decide⟩
  refine ⟨hvalid, ?_⟩
  have hne := escrowTransfer_ne libraries_documented rfl hfits hvalid
  exact mt (operation_append libraries_documented ⟨rfl, rfl⟩).mp hne

end Sample

end Blurt
