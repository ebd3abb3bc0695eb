import Blurt.Ledger.EscrowRun
import Blurt.Ledger.HardforkVotes
import Blurt.Ledger.WitnessProperties
import Blurt.Protocol.SignStateLaws

/-! # Who pays for a transaction

The fee of a transaction is asked of the accounts whose authority it requires. What such an
account pays, the null account receives, and no operation takes anything from it.
-/

namespace Blurt

/-- A change of the properties of a witness, which pays a fee of its own. -/
def Operation.propertyChange : Operation → Option WitnessSetPropertiesOperation
  | .witnessSetProperties o => some o
  | _ => none

namespace SignedTransaction

def propertyChanges (trx : SignedTransaction) : List WitnessSetPropertiesOperation :=
  trx.operations.filterMap Operation.propertyChange

/-- A transaction of nothing but changes of properties. -/
def OnlyProperties (trx : SignedTransaction) : Prop :=
  ∀ op ∈ trx.operations, ∃ o, op = .witnessSetProperties o

end SignedTransaction

/-- The null account neither acts in the operation nor owns the witness that it changes. -/
def Operation.SparesNull (op : Operation) : Prop :=
  blurtNullAccount ∉ op.required ∧ ∀ o, op = .witnessSetProperties o → o.owner ≠ blurtNullAccount

namespace Ledger

open Outcome

namespace Database

variable {host : Host} {rules : TextRules} {db db' : Database} {name : AccountName}

/-! ## Escrows -/

theorem EscrowsNonneg.of_books (hdb : db.EscrowsNonneg) {key : AccountName × Nat}
    (hother : ∀ k, k ≠ key → db'.escrows.find? k = db.escrows.find? k)
    (hkey : ∀ e, db'.books.escrows.find? key = some e →
      0 ≤ e.blurtBalance.amount ∧ 0 ≤ e.pendingFee.amount) : db'.EscrowsNonneg := by
  intro k e he
  by_cases hk : k = key
  · subst hk
    rw [← find?_escrows] at he
    exact hkey e he
  · rw [hother k hk] at he
    exact hdb k e he

/-- The amounts in escrow stay at least zero. -/
theorem applyOperation_escrowsNonneg {op : Operation} (hvalid : op.validate rules = .ok ())
    (hdb : db.EscrowsNonneg) :
    Always (applyOperation host db op) EscrowsNonneg := by
  intro db' h
  have hother : ∀ {key}, escrowKey op = some key →
      ∀ k, k ≠ key → db'.escrows.find? k = db.escrows.find? k := by
    intro key hkey k hk
    apply applyOperation_escrows hvalid h
    rw [hkey]
    exact fun hsame => hk (Option.some_inj.mp hsame).symm
  cases op with
  | escrowTransfer o =>
      apply hdb.of_books (hother rfl)
      intro e he
      obtain ⟨id, hopened⟩ := escrowTransfer_opens hvalid h
      rw [find?_escrows, hopened] at he
      cases he
      simp only [Operation.validate, EscrowTransferOperation.validate, bind_eq_ok,
        ensure_eq_ok] at hvalid
      obtain ⟨_, -, _, -, _, -, _, hfee, _, hamount, -⟩ := hvalid
      exact ⟨hamount.le, hfee⟩
  | escrowApprove o =>
      apply hdb.of_books (hother rfl)
      intro e he
      obtain ⟨escrow, approved, hfound, happroved, hcases⟩ := escrowApprove_books h
      rw [find?_escrows] at hfound
      obtain ⟨hbalance, hfee⟩ := hdb _ _ hfound
      have hsame := approveEscrow_eq_ok happroved
      rcases hcases with ⟨-, -, -, hbooks⟩ | ⟨-, -, -, -, hbooks⟩ | ⟨-, -, hbooks⟩
      · rw [hbooks, Books.closeEscrow, Table.find?_remove, if_pos rfl] at he
        cases he
      · rw [hbooks, Books.setEscrow, Table.find?_set, if_pos rfl, hsame] at he
        cases he
        exact ⟨hbalance, le_rfl⟩
      · rw [hbooks, Books.setEscrow, Table.find?_set, if_pos rfl, hsame] at he
        cases he
        exact ⟨hbalance, hfee⟩
  | escrowDispute o =>
      apply hdb.of_books (hother rfl)
      intro e he
      obtain ⟨escrow, hfound, hbooks⟩ := escrowDispute_books h
      rw [find?_escrows] at hfound
      have hamounts := hdb _ _ hfound
      rw [hbooks, Books.setEscrow, Table.find?_set, if_pos rfl] at he
      cases he
      exact hamounts
  | escrowRelease o =>
      apply hdb.of_books (hother rfl)
      intro e he
      obtain ⟨escrow, hfound, -, -, hamount, -, hbooks⟩ := escrowRelease_books h
      rw [find?_escrows] at hfound
      rw [hbooks] at he
      split at he
      · rw [Books.closeEscrow, Table.find?_remove, if_pos rfl] at he
        cases he
      · rw [Books.setEscrow, Table.find?_set, if_pos rfl] at he
        cases he
        exact ⟨Int.sub_nonneg.mpr hamount, (hdb _ _ hfound).2⟩
  | _ =>
      intro k e he
      rw [applyOperation_escrows hvalid h (by simp [escrowKey])] at he
      exact hdb k e he

/-! ## One payment -/

theorem payFee_growth {payer : AccountName} {fee : Int} (h : db.payFee payer fee = .ok db') :
    db.growth db' = payment payer (-fee) + payment db.feeAccount fee ∧
      (db'.accounts.find? db.feeAccount).isSome := by
  simp only [payFee, bind_eq_ok, ensure_eq_ok] at h
  obtain ⟨_, -, _, -, debited, hdebited, h⟩ := h
  have hdebit := adjustBalance_growth hdebited rfl
  have hcredit := adjustBalance_growth h rfl
  refine ⟨?_, ?_⟩
  · funext name
    rw [growth_trans db debited, hdebit, hcredit]
    rfl
  · obtain ⟨a, ha⟩ := adjustBalance_found h
    obtain ⟨hbooks, -⟩ := adjustBalance_blurt h rfl
    have hholder := find?_holders db' db.feeAccount
    rw [hbooks, Books.credit, Books.find?_adjust, if_pos rfl, find?_holders, ha] at hholder
    rw [← Option.isSome_map, ← hholder]
    rfl

theorem feeAccount_of_hardfork (hfork : db.hasHardfork 4) : db.feeAccount = blurtNullAccount := by
  rw [feeAccount, if_pos hfork]

theorem hasHardfork_mono {hardfork later : Nat} (h : db.hasHardfork later) (hle : hardfork ≤ later) :
    db.hasHardfork hardfork := by
  rw [hasHardfork, decide_eq_true_eq] at h ⊢
  omega

/-! ## Operations -/

theorem setPropertiesFee_congr (hwso : db'.wso = db.wso) (o : WitnessSetPropertiesOperation) :
    setPropertiesFee host db' o = setPropertiesFee host db o := by
  rw [setPropertiesFee, setPropertiesFee, hwso]

/-- A change of properties burns its fee, if the witness is not the null account itself. -/
theorem witnessSetProperties_growth {o : WitnessSetPropertiesOperation} (hfork : db.hasHardfork 5)
    (h : witnessSetProperties host db o = .ok db') :
    db.growth db' blurtNullAccount =
      if o.owner = blurtNullAccount then 0 else setPropertiesFee host db o := by
  simp only [witnessSetProperties, bind_eq_ok] at h
  obtain ⟨witness, -, _, -, _, -, _, -, _, -, h⟩ := h
  let changed := Witness.setProperties witness o.props
  have hlater : ({ db with witnesses := db.witnesses.set o.owner changed } : Database).hasHardfork 5 :=
    hfork
  rw [if_pos hlater] at h
  simp only [bind_eq_ok, shareType_eq_ok] at h
  obtain ⟨fee, ⟨-, rfl⟩, h⟩ := h
  obtain ⟨hgrowth, -⟩ := payFee_growth h
  rw [feeAccount_of_hardfork (hasHardfork_mono hlater (by decide))] at hgrowth
  have hnull := congrFun hgrowth blurtNullAccount
  change db.growth db' blurtNullAccount = payment o.owner (-setPropertiesFee host db o) blurtNullAccount +
    payment blurtNullAccount (setPropertiesFee host db o) blurtNullAccount at hnull
  rw [hnull, payment, payment, if_pos rfl]
  split
  · rename_i howner
    rw [if_pos howner.symm]
    omega
  · rename_i howner
    rw [if_neg fun hsame => howner hsame.symm]
    omega

/-- An operation that requires no account at all is one of two. -/
theorem required_eq_nil {op : Operation} (hvalid : op.validate rules = .ok ())
    (h : applyOperation host db op = .ok db') (hrequired : op.required = []) :
    (∃ o, op = .recoverAccount o) ∨ ∃ o, op = .witnessSetProperties o := by
  cases op with
  | recoverAccount o => exact .inl ⟨o, rfl⟩
  | witnessSetProperties o => exact .inr ⟨o, rfl⟩
  | accountUpdate o =>
      simp only [Operation.required, Operation.requiredActive, Operation.requiredOwner,
        Operation.requiredPosting] at hrequired
      cases howner : o.owner with
      | some auth => simp [howner] at hrequired
      | none =>
          by_cases hany : o.active.isSome ∨ o.posting.isSome ∨ o.memoKey.isSome ∨
            0 < o.jsonMetadata.length
          · simp [howner, hany] at hrequired
          · simp [howner, hany] at hrequired
  | custom o =>
      simp only [Operation.validate, CustomOperation.validate, ensure_eq_ok] at hvalid
      simp [Operation.required, Operation.requiredActive] at hrequired
      rw [hrequired.1] at hvalid
      cases hvalid
  | customJson o =>
      simp only [Operation.validate, CustomJsonOperation.validate, bind_eq_ok, ensure_eq_ok] at hvalid
      obtain ⟨_, hsome, -⟩ := hvalid
      simp only [Operation.required, Operation.requiredActive, Operation.requiredOwner,
        Operation.requiredPosting, List.append_eq_nil_iff] at hrequired
      rw [hrequired.1.1, hrequired.2] at hsome
      cases hsome
  | customBinary o =>
      simp only [Operation.validate, CustomBinaryOperation.validate, bind_eq_ok,
        ensure_eq_ok] at hvalid
      obtain ⟨_, hsome, -⟩ := hvalid
      simp only [Operation.required, Operation.requiredActive, Operation.requiredOwner,
        Operation.requiredPosting, List.append_eq_nil_iff] at hrequired
      rw [hrequired.1.1, hrequired.1.2, hrequired.2] at hsome
      cases hsome
  | resetAccount o => cases h
  | setResetAccount o => cases h
  | _ => simp [Operation.required, Operation.requiredActive, Operation.requiredOwner,
      Operation.requiredPosting] at hrequired

theorem recoverAccount_growth {o : RecoverAccountOperation} (h : db.recoverAccount o = .ok db')
    (name : AccountName) : db.growth db' name = 0 := by
  obtain ⟨-, auth, -, hbooks⟩ := recoverAccount_books h
  have hholders : db'.books.holders = db.books.holders := by
    rw [hbooks]
    rfl
  rw [growth, balanceOf_books, balanceOf_books, hholders, Int.sub_self]

/-- An operation takes nothing from an account whose authority it does not require. -/
theorem applyOperation_growth_nonneg {op : Operation} (hvalid : op.validate rules = .ok ())
    (hescrows : db.EscrowsNonneg) (hrequired : name ∉ op.required)
    (hprops : ∀ o, op ≠ .witnessSetProperties o) (hname : (db.accounts.find? name).isSome)
    (h : applyOperation host db op = .ok db') :
    0 ≤ db.growth db' name ∧ (db'.accounts.find? name).isSome := by
  simp only [Operation.required, List.mem_append, not_or] at hrequired
  obtain ⟨⟨hactive, howner⟩, hposting⟩ := hrequired
  have hspares : db.books.Spares name False db'.books := by
    by_cases hclaim : ∃ o, op = .claimRewardBalance o
    · obtain ⟨o, rfl⟩ := hclaim
      refine claimRewardBalance_spares (fun haccount => ?_) h
      exact hposting (by simp [Operation.requiredPosting, haccount])
    · intro k hk
      obtain ⟨l, hl, hspared⟩ := applyOperation_spares hvalid hescrows h
        (fun o ho => hclaim ⟨o, ho⟩) hprops k hk
      refine ⟨l, hl, .inl (hspared.resolve_right ?_)⟩
      exact fun hconsents => hconsents.elim howner hactive
  obtain ⟨a, ha⟩ := Option.isSome_iff_exists.mp hname
  obtain ⟨b, hb, hspared⟩ := exists_spared hspares ha
  have hle := (hspared.resolve_right id).funds .balance rfl
  rw [growth, balanceOf, balanceOf, ha, hb]
  refine ⟨?_, rfl⟩
  change a.balance ≤ b.balance at hle
  simp only [Option.map_some, Option.getD_some]
  omega

/-! ## Transactions -/

theorem payFees_spec {fee : Int} {auths : List AccountName} (hfork : db.hasHardfork 4)
    (hnull : blurtNullAccount ∉ auths)
    (h : Outcome.forEach (fun db auth => payFee db auth fee) db auths = .ok db') :
    db.growth db' blurtNullAccount = fee * auths.length ∧
      db' = { db with accounts := db'.accounts } ∧
      (auths ≠ [] → (db'.accounts.find? blurtNullAccount).isSome) := by
  induction auths generalizing db with
  | nil =>
      cases h
      exact ⟨by rw [growth_self, List.length_nil]; omega, rfl, fun hnil => absurd rfl hnil⟩
  | cons auth rest ih =>
      obtain ⟨paid, hpaid, hrest⟩ := forEach_cons_eq_ok.mp h
      obtain ⟨hauth, hnull⟩ := not_or.mp (List.mem_cons.not.mp hnull)
      obtain ⟨hfirst, hfound⟩ := payFee_growth hpaid
      obtain ⟨-, hframe⟩ := payFee_books hpaid
      rw [feeAccount_of_hardfork hfork] at hfirst hfound
      have hstill : paid.hasHardfork 4 := by
        rw [hframe]
        exact hfork
      obtain ⟨hgrowth, hrestFrame, hmore⟩ := ih hstill hnull hrest
      refine ⟨?_, ?_, fun _ => ?_⟩
      · have hone := congrFun hfirst blurtNullAccount
        simp only [Pi.add_apply, payment, if_neg hauth, if_pos] at hone
        rw [growth_trans db paid, hgrowth, hone, List.length_cons, Nat.cast_succ, Int.mul_add]
        omega
      · rw [hrestFrame, hframe]
      · cases rest with
        | nil =>
            cases hrest
            exact hfound
        | cons next rest => exact hmore (List.cons_ne_nil _ _)

/-- What each operation of a transaction preserves, once the null account is there. -/
structure Burning (before db : Database) : Prop where
  hardfork : db.hasHardfork 5
  escrows : db.EscrowsNonneg
  found : (db.accounts.find? blurtNullAccount).isSome
  growth : 0 ≤ before.growth db blurtNullAccount

theorem applyOperation_hasHardfork {op : Operation} {hardfork : Nat}
    (h : applyOperation host db op = .ok db') (hfork : db.hasHardfork hardfork) :
    db'.hasHardfork hardfork := by
  rw [hasHardfork, (applyOperation_hardforks op db' h).1]
  exact hfork

theorem Burning.operation {before : Database} {op : Operation} (hdb : Burning before db)
    (hvalid : op.validate rules = .ok ()) (hspares : op.SparesNull) :
    Always (applyOperation host db op) (Burning before) := by
  intro db' h
  have hfork := applyOperation_hasHardfork h hdb.hardfork
  have hescrows := applyOperation_escrowsNonneg hvalid hdb.escrows db' h
  have hgrowth := growth_trans before db db' blurtNullAccount
  have hbefore := hdb.growth
  by_cases hprops : ∃ o, op = .witnessSetProperties o
  · obtain ⟨o, rfl⟩ := hprops
    have hfee := witnessSetProperties_growth hdb.hardfork h
    have hpos := setPropertiesFee_pos host db o
    rw [if_neg (hspares.2 o rfl)] at hfee
    obtain ⟨a, ha⟩ := Option.isSome_iff_exists.mp hdb.found
    obtain ⟨b, hb, -⟩ := witnessSetProperties_paid h ha
    exact ⟨hfork, hescrows, Option.isSome_iff_exists.mpr ⟨b, hb⟩, by omega⟩
  · obtain ⟨hnonneg, hfound⟩ := applyOperation_growth_nonneg hvalid hdb.escrows hspares.1
      (fun o ho => hprops ⟨o, ho⟩) hdb.found h
    exact ⟨hfork, hescrows, hfound, by omega⟩

/-- What changes of properties burn. -/
def burnedFees (host : Host) (db : Database) (changes : List WitnessSetPropertiesOperation) : Int :=
  (changes.map fun o =>
    if o.owner = blurtNullAccount then 0 else setPropertiesFee host db o).sum

theorem burnedFees_congr (hwso : db'.wso = db.wso) (changes : List WitnessSetPropertiesOperation) :
    burnedFees host db' changes = burnedFees host db changes := by
  simp only [burnedFees, setPropertiesFee_congr hwso]

theorem applyOperation_wso {op : Operation} (h : applyOperation host db op = .ok db') :
    db'.wso = db.wso := by
  have hwso := congrArg Overview.wso (applyOperation_keeps host op db' h).seen
  rw [beyond_wso, beyond_wso] at hwso
  exact hwso

/-- Operations that require no account burn the fees of their changes of properties. -/
theorem applyOperations_growth {ops : List Operation} (hfork : db.hasHardfork 5)
    (hvalid : ∀ op ∈ ops, op.validate rules = .ok ()) (hrequired : ∀ op ∈ ops, op.required = [])
    (h : Outcome.forEach (applyOperation host) db ops = .ok db') :
    db.growth db' blurtNullAccount =
      burnedFees host db (ops.filterMap Operation.propertyChange) := by
  induction ops generalizing db with
  | nil =>
      cases h
      exact growth_self _ _
  | cons op rest ih =>
      obtain ⟨next, hnext, hrest⟩ := forEach_cons_eq_ok.mp h
      have hlater := ih (applyOperation_hasHardfork hnext hfork)
        (fun op hop => hvalid op (List.mem_cons_of_mem _ hop))
        (fun op hop => hrequired op (List.mem_cons_of_mem _ hop)) hrest
      rw [burnedFees_congr (applyOperation_wso hnext)] at hlater
      rw [growth_trans db next, hlater]
      obtain ⟨o, rfl⟩ | ⟨o, rfl⟩ := required_eq_nil (hvalid op List.mem_cons_self) hnext
        (hrequired op List.mem_cons_self)
      · rw [recoverAccount_growth hnext, Int.zero_add]
        rfl
      · rw [witnessSetProperties_growth hfork hnext]
        rfl

/-- The fees that a transaction of changes of properties owes. -/
def propertyFees (host : Host) (db : Database) (trx : SignedTransaction) : Int :=
  (trx.propertyChanges.map (setPropertiesFee host db)).sum

/-- The null account gained what the transaction owes: the fee of `process_tx_fee`, or the
fees of its operations if all of them change the properties of a witness. -/
def Pays (host : Host) (db db' : Database) (trx : SignedTransaction) : Prop :=
  (trx.OnlyProperties → propertyFees host db trx ≤ db.growth db' blurtNullAccount) ∧
    (¬ trx.OnlyProperties → ∀ fee, db.txFee trx = .ok fee → fee ≤ db.growth db' blurtNullAccount)

/-- Somebody is asked for the fee of `process_tx_fee`, or the changes of properties make up
for it. -/
def Charges (host : Host) (db : Database) (trx : SignedTransaction) : Prop :=
  trx.required ≠ [] ∨ trx.OnlyProperties ∨
    ∀ fee, db.txFee trx = .ok fee → fee ≤ propertyFees host db trx

theorem burnedFees_le (host : Host) (db : Database) (trx : SignedTransaction) :
    burnedFees host db trx.propertyChanges ≤ propertyFees host db trx := by
  apply List.sum_le_sum
  intro o _
  have hpos := setPropertiesFee_pos host db o
  split <;> omega

theorem burnedFees_eq (host : Host) (db : Database) {trx : SignedTransaction}
    (howner : ∀ o ∈ trx.propertyChanges, o.owner ≠ blurtNullAccount) :
    burnedFees host db trx.propertyChanges = propertyFees host db trx := by
  rw [burnedFees, propertyFees]
  congr 1
  apply List.map_congr_left
  intro o ho
  rw [if_neg (howner o ho)]

/-! ## The null account does not act -/

/-- Nobody can act for the null account, as genesis leaves it: its authorities cannot be met,
it is no witness, and the next block is none of those in which an authority may be missing. -/
structure NullIdle (db : Database) : Prop where
  authority : ∀ auth, db.authorities.find? blurtNullAccount = some auth →
    auth.owner = nobody ∧ auth.active = nobody ∧ auth.posting = nobody
  witness : db.witnesses.find? blurtNullAccount = none
  block : db.dgp.headBlockNumber + 1 ∉ sharedDbMerkle

theorem nobody_not_met (get : AuthorityGetter) (trusted : List AccountName) (sigs : List PublicKey) :
    ¬ nobody.MetBy get trusted sigs := by
  simp [Authority.MetBy, Threshold.Rule.Met, Authority.rule, nobody]

theorem NullIdle.not_authorized (hdb : db.NullIdle) {roles : List AuthorityGetter}
    (hroles : ∀ role ∈ roles, role ∈
      [db.getAuthority (·.posting), db.getAuthority (·.active), db.getAuthority (·.owner)])
    (get : AuthorityGetter) (trusted : List AccountName) (sigs : List PublicKey) :
    ¬ Authorized roles get trusted sigs blurtNullAccount := by
  rintro ⟨role, hrole, auth, hauth, hmet⟩
  have hnobody : auth = nobody := by
    have hrole := hroles role hrole
    simp only [List.mem_cons, List.not_mem_nil, or_false] at hrole
    rcases hrole with rfl | rfl | rfl
    all_goals
      unfold getAuthority at hauth
      split at hauth
      · rename_i found hfound
        obtain ⟨howner, hactive, hposting⟩ := hdb.authority found hfound
        cases hauth
        assumption
      · cases hauth
  rw [hnobody] at hmet
  exact nobody_not_met _ _ _ hmet

/-- No accepted transaction requires an authority of the idle null account. -/
theorem NullIdle.required (hdb : db.NullIdle) {t : BlockTransaction}
    (h : db.checkSignatures t = .ok ()) :
    ∀ op ∈ t.trx.operations, blurtNullAccount ∉ op.required := by
  unfold checkSignatures at h
  split at h
  · rename_i hverify
    simp only [verifyAuthority, bind_eq_ok] at hverify
    obtain ⟨s, hrun, -⟩ := hverify
    obtain ⟨hjustified, -⟩ := checkRequired_sound hrun
    intro op hop hrequired
    simp only [Operation.required, List.mem_append] at hrequired
    rcases hrequired with (hactive | howner) | hposting
    · rcases hjustified.active op hop _ hactive with htrusted | hauthorized
      · exact absurd htrusted (by decide)
      · exact hdb.not_authorized (by simp [authorityGetters]) _ _ _ hauthorized
    · rcases hjustified.owner op hop _ howner with htrusted | hauthorized
      · exact absurd htrusted (by decide)
      · exact hdb.not_authorized (by simp [authorityGetters]) _ _ _ hauthorized
    · rcases hjustified.posting op hop _ hposting with htrusted | hauthorized
      · exact absurd htrusted (by decide)
      · exact hdb.not_authorized (by simp [authorityGetters]) _ _ _ hauthorized
  · rw [if_neg fun hexempt => hdb.block hexempt.2] at h
    cases h

/-- Operations that do not require the null account change the properties of other witnesses
only. -/
theorem changes_spare_null {ops : List Operation} (hwitness : db.overview.announced blurtNullAccount = none)
    (hvalid : ∀ op ∈ ops, op.validate rules = .ok ())
    (hrequired : ∀ op ∈ ops, blurtNullAccount ∉ op.required)
    (h : Outcome.forEach (applyOperation host) db ops = .ok db') :
    ∀ op ∈ ops, ∀ o, op = .witnessSetProperties o → o.owner ≠ blurtNullAccount := by
  induction ops generalizing db with
  | nil => exact fun op hop => absurd hop List.not_mem_nil
  | cons first rest ih =>
      obtain ⟨next, hnext, hrest⟩ := forEach_cons_eq_ok.mp h
      have hfirst := hvalid first List.mem_cons_self
      have hset : ∀ {name p}, name ≠ blurtNullAccount →
          next.overview.witnesses = db.overview.witnesses.set name p →
          next.overview.announced blurtNullAccount = none := by
        intro name p hname hset
        rw [Overview.announced_set hset, if_neg (Ne.symm hname), hwitness]
      have howner : ∀ o, first = .witnessSetProperties o → o.owner ≠ blurtNullAccount := by
        rintro o rfl hname
        obtain ⟨-, previous, p, hprevious, -⟩ := witnessSetProperties_spec hfirst hnext
        rw [Overview.announced, ← hname, hprevious] at hwitness
        cases hwitness
      have hstays : next.overview.announced blurtNullAccount = none := by
        obtain hsame | ⟨o, rfl, hupdate, hnew⟩ | ⟨o, rfl, hchange, hnew⟩ :=
          applyOperation_witnesses hfirst next hnext
        · rwa [Overview.announced, hsame]
        · obtain ⟨-, _, p, -, -, -, hadded⟩ := witnessUpdate_spec hupdate hnew
          refine hset (fun hname => ?_) hadded
          exact hrequired _ List.mem_cons_self (by
            simp [Operation.required, Operation.requiredActive, hname])
        · obtain ⟨-, _, p, -, -, -, hchanged⟩ := witnessSetProperties_spec hchange hnew
          exact hset (howner o rfl) hchanged
      intro op hop
      rcases List.mem_cons.mp hop with rfl | hop
      · exact howner
      · exact ih hstays (fun op hop => hvalid op (List.mem_cons_of_mem _ hop))
          (fun op hop => hrequired op (List.mem_cons_of_mem _ hop)) hrest op hop

/-! ## The law -/

/-- The parts of an accepted transaction at hardfork 5. -/
theorem acceptTransaction_spec {t : BlockTransaction} (hfork : db.hasHardfork 5)
    (h : acceptTransaction host db t = .ok db') :
    (∀ op ∈ t.trx.operations, op.validate host.rules = .ok ()) ∧
      db.checkSignatures t = .ok () ∧ ∃ fee paid, db.txFee t.trx = .ok fee ∧ 0 < fee ∧
        Outcome.forEach (fun db auth => payFee db auth fee) db t.trx.required = .ok paid ∧
        Outcome.forEach (applyOperation host) paid t.trx.operations = .ok db' := by
  simp only [acceptTransaction, applyTransaction, bind_eq_ok] at h
  obtain ⟨_, hvalid, _, hsignatures, paid, hpaid, hoperations⟩ := h
  rw [processTxFee, if_pos (hasHardfork_mono hfork (by decide))] at hpaid
  obtain ⟨fee, hfee, hpaid⟩ := bind_eq_ok.mp hpaid
  refine ⟨fun op hop => validate_operations hvalid hop, hsignatures, fee, paid, hfee, ?_, hpaid,
    hoperations⟩
  simp only [txFee, shareType_eq_ok] at hfee
  rw [← hfee.2, bandwidthFee, atLeastOne, atLeastOne]
  omega

theorem mem_required {trx : SignedTransaction} {name : AccountName} :
    name ∈ trx.required ↔ ∃ op ∈ trx.operations, name ∈ op.required := by
  simp [SignedTransaction.required]

theorem required_eq_nil_iff {trx : SignedTransaction} :
    trx.required = [] ↔ ∀ op ∈ trx.operations, op.required = [] := by
  simp only [List.eq_nil_iff_forall_not_mem, mem_required]
  constructor
  · exact fun h op hop name hname => h name ⟨op, hop, hname⟩
  · rintro h name ⟨op, hop, hname⟩
    exact h op hop name hname

/-- A transaction of changes of properties requires no account. -/
theorem required_of_onlyProperties {trx : SignedTransaction} (h : trx.OnlyProperties) :
    trx.required = [] := by
  rw [required_eq_nil_iff]
  intro op hop
  obtain ⟨o, rfl⟩ := h op hop
  rfl

/-- A transaction that requires no account burns the fees of its changes of properties. -/
theorem growth_of_required_nil {t : BlockTransaction} (hfork : db.hasHardfork 5)
    (h : acceptTransaction host db t = .ok db') (hrequired : t.trx.required = []) :
    db.growth db' blurtNullAccount = burnedFees host db t.trx.propertyChanges := by
  obtain ⟨hvalid, -, fee, paid, -, -, hpaid, hoperations⟩ := acceptTransaction_spec hfork h
  rw [hrequired] at hpaid
  cases hpaid
  exact applyOperations_growth hfork hvalid (required_eq_nil_iff.mp hrequired) hoperations

theorem eq_of_propertyChange {op : Operation} {o : WitnessSetPropertiesOperation}
    (h : op.propertyChange = some o) : op = .witnessSetProperties o := by
  cases op with
  | witnessSetProperties other =>
      cases h
      rfl
  | _ => cases h

/-- The operations of an accepted transaction spare the idle null account. -/
theorem NullIdle.spares {t : BlockTransaction} {fee : Int} {paid : Database} (hdb : db.NullIdle)
    (hvalid : ∀ op ∈ t.trx.operations, op.validate host.rules = .ok ())
    (hsignatures : db.checkSignatures t = .ok ())
    (hpaid : Outcome.forEach (fun db auth => payFee db auth fee) db t.trx.required = .ok paid)
    (hoperations : Outcome.forEach (applyOperation host) paid t.trx.operations = .ok db') :
    ∀ op ∈ t.trx.operations, op.SparesNull := by
  have hrequired := hdb.required hsignatures
  have hquiet : Always (Outcome.forEach (fun db auth => payFee db auth fee) db t.trx.required)
      (Quiet db) :=
    .forEach (Keeps.refl _ _) fun state auth _ hstate =>
      (payFee_framed quiet_frame auth fee).mono fun _ => hstate.trans
  have hwitness : paid.overview.announced blurtNullAccount = none := by
    have hseen : paid.overview = db.overview := (hquiet paid hpaid).seen
    rw [hseen, announced_overview, hdb.witness]
    rfl
  have hchanges := changes_spare_null hwitness hvalid hrequired hoperations
  exact fun op hop => ⟨hrequired op hop, hchanges op hop⟩

/-- At hardfork 5 or later a transaction that pays charges somebody, and one that charges somebody
and spares the null account pays. All do where nobody can act for the null account. -/
theorem acceptTransaction_pays {t : BlockTransaction} (hfork : db.hasHardfork 5)
    (h : acceptTransaction host db t = .ok db') :
    (Pays host db db' t.trx → Charges host db t.trx) ∧
      ((∀ op ∈ t.trx.operations, op.SparesNull) → db.EscrowsNonneg → Charges host db t.trx →
        Pays host db db' t.trx) ∧
      (db.NullIdle → ∀ op ∈ t.trx.operations, op.SparesNull) := by
  obtain ⟨hvalid, hsignatures, fee, paid, hfee, hpos, hpaid, hoperations⟩ :=
    acceptTransaction_spec hfork h
  refine ⟨?_, ?_, fun hidle => hidle.spares hvalid hsignatures hpaid hoperations⟩
  · rintro ⟨-, hpays⟩
    by_cases hrequired : t.trx.required = []
    · by_cases honly : t.trx.OnlyProperties
      · exact .inr (.inl honly)
      · refine .inr (.inr fun fee hfee => ?_)
        have hle := burnedFees_le host db t.trx
        rw [← growth_of_required_nil hfork h hrequired] at hle
        exact (hpays honly fee hfee).trans hle
    · exact .inl hrequired
  · intro hspares hescrows hcharges
    by_cases hrequired : t.trx.required = []
    · have hgrowth := growth_of_required_nil hfork h hrequired
      rw [burnedFees_eq host db fun o ho => ?_] at hgrowth
      · rw [Pays, hgrowth]
        refine ⟨fun _ => le_rfl, fun honly => ?_⟩
        rcases hcharges with hsome | honly' | hcovers
        · exact absurd hrequired hsome
        · exact absurd honly' honly
        · exact hcovers
      · obtain ⟨op, hop, hchange⟩ := List.mem_filterMap.mp ho
        exact (hspares op hop).2 o (eq_of_propertyChange hchange)
    · have hnull : blurtNullAccount ∉ t.trx.required := by
        intro hmem
        obtain ⟨op, hop, hname⟩ := mem_required.mp hmem
        exact (hspares op hop).1 hname
      obtain ⟨hgrowth, hframe, hfound⟩ :=
        payFees_spec (hasHardfork_mono hfork (by decide)) hnull hpaid
      have hburning : Burning paid paid := by
        refine ⟨?_, ?_, hfound hrequired, (growth_self _ _).ge⟩
        · rw [hframe]
          exact hfork
        · rw [hframe]
          exact hescrows
      have hburned : Burning paid db' := forEach_invariant (Burning paid)
        (fun state op next hop hstate hnext =>
          hstate.operation (hvalid op hop) (hspares op hop) next hnext) hburning hoperations
      have hpositive := List.length_pos_of_ne_nil hrequired
      have hmore : fee ≤ fee * t.trx.required.length := by
        obtain ⟨others, hothers⟩ := Nat.exists_eq_succ_of_ne_zero hpositive.ne'
        have hnonneg := Int.mul_nonneg hpos.le (Int.natCast_nonneg others)
        rw [hothers, Nat.cast_succ, Int.mul_add, Int.mul_one]
        omega
      have htotal := growth_trans db paid db' blurtNullAccount
      have hlater := hburned.growth
      refine ⟨fun honly => absurd (required_of_onlyProperties honly) hrequired, fun _ other hother => ?_⟩
      rw [hfee] at hother
      cases hother
      omega

end Database

namespace Sample

open Database

/-- An authority of one key. -/
def keyAuthority (key : PublicKey) : Authority := { weightThreshold := 1, keyAuths := [(key, 1)] }

/-- A state at hardfork 5 in which `alice`, who lost her owner key 4 to key 5, may recover her
account with key 6. -/
def recoverableState : Database where
  dgp := { time := 1600000000, headBlockNumber := 10000000, currentWitness := "initminer" }
  processedHardforks := [0, 0, 0, 0, 0, 0]
  accounts := ((∅ : Store AccountName Account).set "alice" { id := 0, balance := 1000 }).set
    blurtNullAccount { id := 1 }
  authorities := ((∅ : Store AccountName AccountAuthority).set "alice"
    { owner := keyAuthority 5, active := keyAuthority 1, posting := keyAuthority 1 }).set
      blurtNullAccount { owner := nobody, active := nobody, posting := nobody }
  ownerHistory := (∅ : Store Nat OwnerAuthorityHistory).set 0
    { account := "alice", previousOwnerAuthority := keyAuthority 4, lastValidTime := 1599990000 }
  recoveryRequests := (∅ : Store AccountName AccountRecoveryRequest).set "alice"
    { newOwnerAuthority := keyAuthority 6, expires := 1600050000 }

def burning : BlockTransaction where
  trx :=
    { operations := [.transfer
        { fromAccount := "alice", toAccount := blurtNullAccount, amount := .blurt 3, memo := "" }]
      packSize := 200 }
  sigs := [1]

def recovering : BlockTransaction where
  trx :=
    { operations := [.recoverAccount
        { accountToRecover := "alice"
          newOwnerAuthority := keyAuthority 6
          recentOwnerAuthority := keyAuthority 4 }]
      packSize := 200 }
  sigs := [6, 4]

/-- A transfer is charged, and burns its fee. -/
theorem burning_pays : ∃ db', acceptTransaction plainHost recoverableState burning = .ok db' ∧
    Pays plainHost recoverableState db' burning.trx := by
  have haccepted : (acceptTransaction plainHost recoverableState burning).toOption.isSome := by
    decide +kernel
  cases h : acceptTransaction plainHost recoverableState burning with
  | error message =>
      rw [h] at haccepted
      cases haccepted
  | ok db' =>
      have hidle : recoverableState.NullIdle := by
        refine ⟨?_, rfl, by decide⟩
        rintro auth hauth
        cases hauth
        exact ⟨rfl, rfl, rfl⟩
      have hescrows : recoverableState.EscrowsNonneg := by
        intro key e he
        cases he
      obtain ⟨-, hpays, hspares⟩ := acceptTransaction_pays (by decide) h
      exact ⟨db', rfl, hpays (hspares hidle) hescrows (.inl (by decide))⟩

/-- A recovery is not charged, and burns nothing. -/
theorem recovering_is_free : ∃ db' fee, recoverableState.hasHardfork 5 ∧
    acceptTransaction plainHost recoverableState recovering = .ok db' ∧
    recoverableState.txFee recovering.trx = .ok fee ∧
    recoverableState.growth db' blurtNullAccount < fee ∧ ¬ recovering.trx.OnlyProperties := by
  have haccepted : (acceptTransaction plainHost recoverableState recovering).toOption.any
      (fun db' => recoverableState.growth db' blurtNullAccount = 0) := by
    decide +kernel
  cases h : acceptTransaction plainHost recoverableState recovering with
  | error message =>
      rw [h] at haccepted
      cases haccepted
  | ok db' =>
      rw [h] at haccepted
      have hgrowth : recoverableState.growth db' blurtNullAccount = 0 := of_decide_eq_true haccepted
      refine ⟨db', 51, by decide, rfl, by decide +kernel, ?_, ?_⟩
      · rw [hgrowth]
        decide
      · intro honly
        obtain ⟨o, ho⟩ := honly _ List.mem_cons_self
        cases ho

end Sample

end Ledger

end Blurt
