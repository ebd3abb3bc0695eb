import Blurt.Ledger.GenesisLaws
import Blurt.Ledger.ScheduleLaws

/-! # What witnesses publish

A witness changes its properties by two operations, which decode and check them apart. What
the checks of both preserve holds for the properties of every witness, and for their median.
-/

namespace Blurt

/-- Properties that pass the checks of `witness_update`. -/
structure LegacyChainProperties.Checked (props : LegacyChainProperties) : Prop where
  creationFee_min : blurtMinAccountCreationFee ≤ props.accountCreationFee
  creationFee_max : props.accountCreationFee ≤ blurtMaxAccountCreationFee
  blockSize_min : blurtMinBlockSizeLimit ≤ props.maximumBlockSize
  blockSize_max : props.maximumBlockSize ≤ blurtSoftMaxBlockSize

/-- Properties that pass the checks of `witness_set_properties`. -/
structure WitnessProperties.Checked (props : WitnessProperties) : Prop where
  creationFee : ∀ fee, props.accountCreationFee = some fee →
    blurtMinAccountCreationFee ≤ fee.amount ∧ fee.amount ≤ blurtMaxAccountCreationFee
  blockSize : ∀ size, props.maximumBlockSize = some size → blurtMinBlockSizeLimit ≤ size
  budget : ∀ budget, props.accountSubsidyBudget = some budget →
    blurtRdMinBudget ≤ budget ∧ budget ≤ blurtRdMaxBudget
  decay : ∀ decay, props.accountSubsidyDecay = some decay →
    blurtRdMinDecay ≤ decay ∧ decay ≤ blurtRdMaxDecay
  flatFee : ∀ fee, props.operationFlatFee = some fee → 0 < fee.amount ∧ fee.amount ≤ 100000
  bandwidthFee : ∀ fee, props.bandwidthKbytesFee = some fee → 0 < fee.amount ∧ fee.amount ≤ 100000

namespace Ledger

open Outcome

/-- The properties of a witness after a `witness_update`. -/
def ChainProperties.update (props : ChainProperties) (changes : LegacyChainProperties) :
    ChainProperties :=
  { props with
    accountCreationFee := .blurt changes.accountCreationFee
    maximumBlockSize := changes.maximumBlockSize }

/-- The properties of a witness after a `witness_set_properties`. -/
def ChainProperties.assign (props : ChainProperties) (changes : WitnessProperties) :
    ChainProperties where
  accountCreationFee := changes.accountCreationFee.getD props.accountCreationFee
  maximumBlockSize := changes.maximumBlockSize.getD props.maximumBlockSize
  accountSubsidyBudget := changes.accountSubsidyBudget.getD props.accountSubsidyBudget
  accountSubsidyDecay := changes.accountSubsidyDecay.getD props.accountSubsidyDecay
  operationFlatFee := changes.operationFlatFee.getD props.operationFlatFee
  bandwidthKbytesFee := changes.bandwidthKbytesFee.getD props.bandwidthKbytesFee

/-- A property of properties that the defaults have and that allowed operations preserve. -/
structure PublishRule (allowed : Operation → Prop) (good : ChainProperties → Prop) : Prop where
  default : good {}
  update : ∀ props (changes : LegacyChainProperties), changes.Checked → good props →
    good (props.update changes)
  assign : ∀ props (o : WitnessSetPropertiesOperation), allowed (.witnessSetProperties o) →
    o.props.Checked → good props → good (props.assign o.props)

/-- The signing key and the properties of each witness. -/
def Overview.announced (v : Overview) (name : AccountName) : Option (PublicKey × ChainProperties) :=
  (v.witnesses.find? name).map fun p => (p.signingKey, p.props)

theorem Overview.announced_set {v w : Overview} {name : AccountName} {p : Published}
    (hset : w.witnesses = v.witnesses.set name p) (other : AccountName) :
    w.announced other = if other = name then some (p.signingKey, p.props) else v.announced other := by
  rw [announced, announced, hset, Table.find?_set]
  split
  · rfl
  · rfl

/-- Every witness publishes properties with `good`. -/
def Overview.Publish (good : ChainProperties → Prop) (v : Overview) : Prop :=
  ∀ name key props, v.announced name = some (key, props) → good props

theorem Overview.Publish.congr {good : ChainProperties → Prop} {v w : Overview}
    (h : v.Publish good) (hsame : w.announced = v.announced) : w.Publish good := by
  intro name key props hp
  rw [hsame] at hp
  exact h name key props hp

theorem Overview.Publish.set {good : ChainProperties → Prop} {v w : Overview} {name : AccountName}
    {p : Published} (h : v.Publish good) (hgood : good p.props)
    (hset : w.witnesses = v.witnesses.set name p) : w.Publish good := by
  intro other key props hother
  rw [Overview.announced_set hset] at hother
  split at hother
  · cases hother
    exact hgood
  · exact h other key props hother

namespace Database

variable {host : Host} {allowed : Operation → Prop} {good : ChainProperties → Prop}
  {db db' : Database}

theorem announced_overview (db : Database) (name : AccountName) :
    db.overview.announced name =
      (db.witnesses.find? name).map fun w => (w.signingKey, w.props) := by
  rw [Overview.announced, overview, Table.find?_view, Option.map_map]
  rfl

theorem publish_iff : db.overview.Publish good ↔
    ∀ name w, db.witnesses.find? name = some w → good w.props := by
  constructor
  · intro h name w hw
    apply h name w.signingKey w.props
    rw [announced_overview, hw, Option.map_some]
  · intro h name key props hfound
    rw [announced_overview] at hfound
    obtain ⟨w, hw, hsame⟩ := Option.map_eq_some_iff.mp hfound
    cases hsame
    exact h name w hw

/-! ## The two operations -/

theorem ensureEntry_eq_ok {α : Type} {entry : Option α} {condition : α → Bool} {message : String}
    {u : Unit} : ensureEntry entry condition message = .ok u ↔ ∀ a, entry = some a → condition a := by
  rw [ensureEntry, ensure_eq_ok]
  cases entry <;> simp

/-- A witness gets new properties, or a new witness starts from the defaults. -/
theorem witnessUpdate_spec {o : WitnessUpdateOperation} {rules : TextRules}
    (hvalid : o.validate rules = .ok ()) (h : db.witnessUpdate o = .ok db') :
    o.props.Checked ∧ ∃ previous p : Published,
      (db.overview.witnesses.find? o.owner = some previous ∨
        db.overview.witnesses.find? o.owner = none ∧ previous.props = {}) ∧
      p.props = previous.props.update o.props ∧ p.signingKey = o.blockSigningKey ∧
      db'.overview.witnesses = db.overview.witnesses.set o.owner p := by
  simp only [WitnessUpdateOperation.validate, bind_eq_ok, ensure_eq_ok] at hvalid
  obtain ⟨_, -, _, -, _, -, _, -, _, -, _, hfeeMin, hsizeMin⟩ := hvalid
  simp only [witnessUpdate, bind_eq_ok, ensure_eq_ok, pure_eq_ok] at h
  obtain ⟨_, -, _, -, _, hfeeMax, _, hsizeMax, rfl⟩ := h
  refine ⟨⟨hfeeMin, hfeeMax, hsizeMin, hsizeMax⟩, ?_⟩
  let previous : Witness :=
    (db.witnesses.find? o.owner).getD { id := db.nextIds.witness, created := db.dgp.time }
  refine ⟨previous.published, _, ?_, rfl, rfl, Table.view_set _ _ _ _⟩
  simp only [overview, Table.find?_view, previous]
  cases db.witnesses.find? o.owner with
  | none => exact .inr ⟨rfl, rfl⟩
  | some w => exact .inl rfl

/-- A witness gets the entries of the operation. -/
theorem witnessSetProperties_spec {o : WitnessSetPropertiesOperation} {rules : TextRules}
    (hvalid : o.validate rules = .ok ()) (h : witnessSetProperties host db o = .ok db') :
    o.props.Checked ∧ ∃ previous p : Published,
      db.overview.witnesses.find? o.owner = some previous ∧
      p.props = previous.props.assign o.props ∧
      p.signingKey = o.props.newSigningKey.getD previous.signingKey ∧
      db'.overview.witnesses = db.overview.witnesses.set o.owner p := by
  simp only [WitnessSetPropertiesOperation.validate, bind_eq_ok, ensureEntry_eq_ok,
    decide_eq_true_eq] at hvalid
  obtain ⟨_, -, _, -, _, -, _, hfeeMin, _, hsize, _, -, _, -, _, -, _, hbudgetMin, _, hbudgetMax,
    _, hdecayMin, _, hdecayMax, _, -, _, hflat, _, -, hbandwidth⟩ := hvalid
  simp only [witnessSetProperties, getWitness, bind_eq_ok, require_eq_ok, ensureEntry_eq_ok,
    decide_eq_true_eq] at h
  obtain ⟨witness, hwitness, _, -, _, hfeeMax, _, hflatMax, _, hbandwidthMax, h⟩ := h
  refine ⟨?_, witness.published, (Witness.setProperties witness o.props).published, ?_, rfl, rfl, ?_⟩
  · constructor
    · exact fun fee hfee => ⟨hfeeMin fee hfee, hfeeMax fee hfee⟩
    · exact hsize
    · exact fun budget hbudget => ⟨hbudgetMin budget hbudget, hbudgetMax budget hbudget⟩
    · exact fun decay hdecay => ⟨hdecayMin decay hdecay, hdecayMax decay hdecay⟩
    · exact fun fee hfee => ⟨hflat fee hfee, hflatMax fee hfee⟩
    · exact fun fee hfee => ⟨hbandwidth fee hfee, hbandwidthMax fee hfee⟩
  · rw [overview, Table.find?_view, hwitness]
    rfl
  · have hset : db'.overview.witnesses =
        (db.witnesses.set o.owner (Witness.setProperties witness o.props)).view Witness.published := by
      split at h
      · obtain ⟨fee, -, hpaid⟩ := bind_eq_ok.mp h
        exact congrArg Overview.witnesses (payFee_framed quiet_frame _ _ _ hpaid).seen
      · cases h
        rfl
    rw [hset, Table.view_set]
    rfl

/-! ## Every operation -/

theorem beyond_wso (op : Operation) (v : Overview) : (v.beyond op).wso = v.wso := by
  cases op <;> rfl

/-- Only two operations change what a witness publishes. -/
theorem applyOperation_witnesses {rules : TextRules} {op : Operation}
    (hvalid : op.validate rules = .ok ()) :
    Always (applyOperation host db op) fun db' =>
      db'.overview.witnesses = db.overview.witnesses ∨
      (∃ o, op = .witnessUpdate o ∧ o.validate rules = .ok () ∧ db.witnessUpdate o = .ok db') ∨
      ∃ o, op = .witnessSetProperties o ∧ o.validate rules = .ok () ∧
        witnessSetProperties host db o = .ok db' := by
  intro db' h
  have hseen := congrArg Overview.witnesses (applyOperation_keeps host op db' h).seen
  cases op with
  | witnessUpdate o => exact .inr (.inl ⟨o, rfl, hvalid, h⟩)
  | witnessSetProperties o => exact .inr (.inr ⟨o, rfl, hvalid, h⟩)
  | _ => exact .inl hseen

theorem publish_operation (hrule : PublishRule allowed good) {rules : TextRules}
    {op : Operation} (hallowed : allowed op) (hvalid : op.validate rules = .ok ())
    (hdb : db.overview.Publish good) :
    Always (applyOperation host db op) fun db' => db'.overview.Publish good := by
  intro db' h
  have hfound : ∀ {name p}, db.overview.witnesses.find? name = some p → good p.props := by
    intro name p hp
    apply hdb name p.signingKey p.props
    rw [Overview.announced, hp, Option.map_some]
  obtain hsame | ⟨o, rfl, hvalid, h⟩ | ⟨o, rfl, hvalid, h⟩ := applyOperation_witnesses hvalid db' h
  · exact hdb.congr (funext fun name => by rw [Overview.announced, Overview.announced, hsame])
  · obtain ⟨hchecked, previous, p, hprevious, hp, -, hset⟩ := witnessUpdate_spec hvalid h
    have hgood : good previous.props := by
      obtain hprevious | ⟨-, hnew⟩ := hprevious
      · exact hfound hprevious
      · rw [hnew]
        exact hrule.default
    refine hdb.set ?_ hset
    rw [hp]
    exact hrule.update _ _ hchecked hgood
  · obtain ⟨hchecked, previous, p, hprevious, hp, -, hset⟩ := witnessSetProperties_spec hvalid h
    refine hdb.set ?_ hset
    rw [hp]
    exact hrule.assign _ o hallowed hchecked (hfound hprevious)

/-! ## The header -/

theorem setWitness_announced {name : AccountName} {w u : Witness}
    (hw : db.witnesses.find? name = some w) (hkey : u.signingKey = w.signingKey)
    (hprops : u.props = w.props) (hready : w.Ready → u.Ready) :
    Keeps Overview.announced db { db with witnesses := db.witnesses.set name u } := by
  refine ⟨funext fun other => ?_, fun h => h.set hw hready⟩
  rw [Overview.announced_set (v := db.overview) (Table.view_set _ _ _ _)]
  split
  · rename_i hother
    rw [hother, Overview.announced, overview, Table.find?_view, hw]
    simp [Witness.published, hkey, hprops]
  · rfl

theorem visitExtension_announced (witness : AccountName) (extension : BlockHeaderExtension) :
    Always (visitExtension witness db extension) (Keeps Overview.announced db) := by
  intro db' h
  unfold visitExtension at h
  split at h
  · simp only [getWitness, bind_eq_ok, require_eq_ok, pure_eq_ok] at h
    obtain ⟨w, hw, rfl⟩ := h
    exact setWitness_announced hw rfl rfl id
  · simp only [getWitness, bind_eq_ok, require_eq_ok] at h
    obtain ⟨w, hw, h⟩ := h
    split at h
    · cases h
      exact setWitness_announced hw rfl rfl id
    · cases h
      exact Keeps.refl _ _
  · simp only [bind_eq_ok, pure_eq_ok] at h
    obtain ⟨_, -, _, -, rfl⟩ := h
    exact Keeps.refl _ _

theorem startHardforks_announced (timestamp : Nat) :
    Always (db.startHardforks timestamp) (Keeps Overview.announced db) := by
  unfold startHardforks
  dsimp only
  split
  · refine (setHardfork_keeps _).bind fun started hstarted => .ensure fun _ => .pure ?_
    have hseen := congrArg Overview.announced hstarted.seen
    refine List.foldlRecOn _ _ ⟨hseen, hstarted.ready⟩ fun first hfirst row _ => ?_
    unfold modifyWitness
    split
    · rename_i w hw
      exact hfirst.trans (setWitness_announced hw rfl rfl id)
    · exact hfirst
  · exact .pure (Keeps.refl _ _)

/-! ## Every block -/

/-- What the checks of both operations preserve, all witnesses publish. -/
theorem publish_blockInvariant (host : Host) (hrule : PublishRule allowed good) :
    BlockInvariant host allowed fun db => db.overview.Publish good where
  quiet db db' hquiet h := h.congr (congrArg Overview.announced hquiet.seen)
  start db timestamp _ h := (startHardforks_announced timestamp).mono fun _ hkeeps => h.congr hkeeps.seen
  signer db name h := h
  extension db name extension h :=
    (visitExtension_announced name extension).mono fun _ hkeeps => h.congr hkeeps.seen
  operation db op hallowed hvalid h := publish_operation hrule hallowed hvalid h
  clock db b _ h := h
  schedule db h := by
    refine updateWitnessSchedule_keeps.mono fun db' hkeeps => h.congr ?_
    have hseen := congrArg Overview.announced hkeeps.seen
    exact hseen
  recovery db h := by
    refine accountRecoveryProcessing_keeps.mono fun db' hkeeps => h.congr ?_
    have hseen := congrArg Overview.announced hkeeps.seen
    exact hseen
  hardforks db h := by
    refine processHardforks_keeps.mono fun db' hkeeps => h.congr ?_
    have hseen := congrArg Overview.announced hkeeps.seen
    exact hseen

/-- The witnesses of a new chain publish the defaults. -/
theorem initGenesis_publish (hrule : PublishRule allowed good) (args : GenesisArgs) :
    Always (initGenesis args) fun db => db.overview.Publish good := by
  refine (initGenesis_initial args).mono fun db hinitial name key props hp => ?_
  obtain ⟨p, hfound, hsame⟩ := Option.map_eq_some_iff.mp hp
  cases hsame
  rw [(hinitial.1.1.witnesses name p hfound).1]
  exact hrule.default

end Database

end Ledger

end Blurt
