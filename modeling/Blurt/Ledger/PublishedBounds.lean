import Blurt.Ledger.ResourceLaws
import Blurt.Ledger.WitnessProperties

/-! # The bounds of what witnesses publish

Both operations keep the properties of a witness within their bounds, except for the size of
blocks, which `witness_set_properties` does not bound from above.
-/

namespace Blurt

namespace Ledger

open Outcome

/-- The bounds of published properties. -/
structure ChainProperties.WithinBounds (props : ChainProperties) : Prop where
  creationFee : blurtMinAccountCreationFee ≤ props.accountCreationFee.amount ∧
    props.accountCreationFee.amount ≤ blurtMaxAccountCreationFee
  blockSize : blurtMinBlockSizeLimit ≤ props.maximumBlockSize ∧
    props.maximumBlockSize ≤ blurtSoftMaxBlockSize
  subsidies : rdValidateUserParams props.accountSubsidyBudget props.accountSubsidyDecay = .ok ()
  flatFee : 0 < props.operationFlatFee.amount ∧ props.operationFlatFee.amount ≤ 100000
  bandwidthFee : 0 < props.bandwidthKbytesFee.amount ∧ props.bandwidthKbytesFee.amount ≤ 100000

/-- An operation that does not raise the size of blocks above its bound by
`witness_set_properties`. -/
def Operation.CapsBlockSize (op : Operation) : Prop :=
  ∀ o size, op = .witnessSetProperties o → o.props.maximumBlockSize = some size →
    size ≤ blurtSoftMaxBlockSize

theorem ChainProperties.WithinBounds.default : ChainProperties.WithinBounds {} := by
  constructor <;> decide

theorem ChainProperties.WithinBounds.update {props : ChainProperties}
    {changes : LegacyChainProperties} (h : props.WithinBounds) (hchecked : changes.Checked) :
    (props.update changes).WithinBounds where
  creationFee := ⟨hchecked.creationFee_min, hchecked.creationFee_max⟩
  blockSize := ⟨hchecked.blockSize_min, hchecked.blockSize_max⟩
  subsidies := h.subsidies
  flatFee := h.flatFee
  bandwidthFee := h.bandwidthFee

/-- What every new entry and the old value have, the value that counts has. -/
theorem getD_holds {α : Type} {holds : α → Prop} {entry : Option α} {old : α}
    (hentry : ∀ a, entry = some a → holds a) (hold : holds old) : holds (entry.getD old) := by
  cases entry with
  | none => exact hold
  | some a => exact hentry a rfl

theorem ChainProperties.WithinBounds.assign {props : ChainProperties}
    {changes : WitnessProperties} (h : props.WithinBounds) (hchecked : changes.Checked)
    (hsize : ∀ size, changes.maximumBlockSize = some size → size ≤ blurtSoftMaxBlockSize) :
    (props.assign changes).WithinBounds := by
  obtain ⟨hbudget, hdecay⟩ := rdValidateUserParams_eq_ok.mp h.subsidies
  have hboth : ∀ size, changes.maximumBlockSize = some size →
      blurtMinBlockSizeLimit ≤ size ∧ size ≤ blurtSoftMaxBlockSize :=
    fun size h => ⟨hchecked.blockSize size h, hsize size h⟩
  constructor
  · exact getD_holds hchecked.creationFee h.creationFee
  · exact getD_holds hboth h.blockSize
  · rw [rdValidateUserParams_eq_ok]
    exact ⟨getD_holds hchecked.budget hbudget, getD_holds hchecked.decay hdecay⟩
  · exact getD_holds hchecked.flatFee h.flatFee
  · exact getD_holds hchecked.bandwidthFee h.bandwidthFee

/-- Where the size of blocks is capped, the checks keep the bounds. -/
theorem withinBounds_rule :
    PublishRule Operation.CapsBlockSize ChainProperties.WithinBounds where
  default := .default
  update _ _ hchecked h := h.update hchecked
  assign _ o hcaps hchecked h := h.assign hchecked fun size hsize => hcaps o size rfl hsize

/-- The size of blocks and the median properties. -/
def Overview.limits (v : Overview) : Nat × ChainProperties := (v.maximumBlockSize, v.wso.medianProps)

namespace Database

variable {host : Host} {allowed : Operation → Prop} {db db' : Database}

/-! ## The median -/

theorem mem_scheduledWitnesses {active : List Witness} (h : db.scheduledWitnesses = .ok active)
    {w : Witness} (hw : w ∈ active) : ∃ name, db.witnesses.find? name = some w := by
  rw [scheduledWitnesses_eq_ok] at h
  generalize List.range db.wso.numScheduledWitnesses = seats at h
  induction h with
  | nil => cases hw
  | cons hfound _ ih =>
      rcases List.mem_cons.mp hw with rfl | hrest
      · exact ⟨_, hfound⟩
      · exact ih hrest

/-- Medians of properties within their bounds are within them. -/
theorem PublishedBy.withinBounds {active : List Witness} {props : ChainProperties}
    (h : PublishedBy active props) (hactive : ∀ w ∈ active, w.props.WithinBounds) :
    props.WithinBounds := by
  obtain ⟨byFee, hfee, hcreationFee⟩ := h.creationFee
  obtain ⟨bySize, hsize, hblockSize⟩ := h.blockSize
  obtain ⟨byBudget, hbudget, hsubsidyBudget⟩ := h.budget
  obtain ⟨byDecay, hdecay, hsubsidyDecay⟩ := h.decay
  obtain ⟨byFlat, hflat, hflatFee⟩ := h.flatFee
  obtain ⟨byBandwidth, hbandwidth, hbandwidthFee⟩ := h.bandwidthFee
  constructor
  · rw [hcreationFee]
    exact (hactive byFee hfee).creationFee
  · rw [hblockSize]
    exact (hactive bySize hsize).blockSize
  · rw [hsubsidyBudget, hsubsidyDecay, rdValidateUserParams_eq_ok]
    exact ⟨(rdValidateUserParams_eq_ok.mp (hactive byBudget hbudget).subsidies).1,
      (rdValidateUserParams_eq_ok.mp (hactive byDecay hdecay).subsidies).2⟩
  · rw [hflatFee]
    exact (hactive byFlat hflat).flatFee
  · rw [hbandwidthFee]
    exact (hactive byBandwidth hbandwidth).bandwidthFee

/-- A new schedule takes its medians from what the witnesses publish. -/
theorem updateWitnessSchedule_median (hdb : db.overview.Publish ChainProperties.WithinBounds)
    (hhead : db.dgp.headBlockNumber % blurtMaxWitnesses = 0) :
    Always db.updateWitnessSchedule fun db' => db'.wso.medianProps.WithinBounds ∧
      db'.dgp.maximumBlockSize = db'.wso.medianProps.maximumBlockSize := by
  intro db' h
  obtain ⟨hhead', -⟩ | ⟨-, timed, scheduled, wso, hnew, hmedian⟩ := updateWitnessSchedule_spec h
  · exact absurd hhead hhead'
  · obtain ⟨active, props, rd, witnessRd, hactive, hpublished, rfl⟩ :=
      updateMedianWitnessProps_spec hmedian
    refine ⟨hpublished.withinBounds fun w hw => ?_, rfl⟩
    obtain ⟨name, hfound⟩ := mem_scheduledWitnesses hactive hw
    have hsame := congrArg Overview.announced hnew.keeps.seen
    exact publish_iff.mp (hdb.congr hsame) name w hfound

/-! ## Every run -/

theorem beyond_limits (op : Operation) (v : Overview) : (v.beyond op).limits = v.limits := by
  cases op <;> rfl

/-- Operations and headers leave the limits alone. -/
theorem limits_openingInvariant (host : Host) (limits : Nat × ChainProperties) :
    OpeningInvariant host anyOperation fun db => db.overview.limits = limits where
  quiet db db' hquiet h := (congrArg Overview.limits hquiet.seen).trans h
  start db timestamp _ h := by
    refine (startHardforks_keeps timestamp).mono fun db' hkeeps => ?_
    have hseen := congrArg Overview.limits hkeeps.seen
    exact hseen.trans h
  signer db name h := h
  extension db name extension h := by
    refine (visitExtension_keeps name extension).mono fun db' hkeeps => ?_
    have hseen := congrArg Overview.limits hkeeps.seen
    exact hseen.trans h
  operation db op _ _ h := by
    refine (applyOperation_keeps host op).mono fun db' hkeeps => ?_
    have hseen := congrArg Overview.limits hkeeps.seen
    rw [beyond_limits, beyond_limits] at hseen
    exact hseen.trans h
  clock db b _ h := h

/-- What all witnesses publish is within its bounds, and from the first new schedule on so are
the limits of the chain. -/
def KeepsBounds (db : Database) : Prop :=
  db.overview.Publish ChainProperties.WithinBounds ∧ db.wso.medianProps.WithinBounds ∧
    (blurtMaxWitnesses ≤ db.dgp.headBlockNumber →
      db.dgp.maximumBlockSize = db.wso.medianProps.maximumBlockSize)

theorem initGenesis_keepsBounds (args : GenesisArgs) : Always (initGenesis args) KeepsBounds := by
  intro db hgenesis
  have hpublish := initGenesis_publish withinBounds_rule args db hgenesis
  have hinitial := (initGenesis_initial args db hgenesis).1.1
  obtain ⟨rd, witnessRd, hwso⟩ := hinitial.schedule
  have hmedian : db.wso.medianProps = {} := congrArg WitnessSchedule.medianProps hwso
  have hhead : db.dgp.headBlockNumber = 0 := hinitial.headBlockNumber
  refine ⟨hpublish, ?_, fun hlate => ?_⟩
  · rw [hmedian]
    exact .default
  · rw [hhead] at hlate
    exact absurd hlate (by decide)

theorem KeepsBounds.applyBlock {b : LedgerBlock} (hdb : db.KeepsBounds)
    (honly : b.Only Operation.CapsBlockSize) :
    Always (applyBlock host db b) KeepsBounds := by
  obtain ⟨hpublish, hmedian, hsize⟩ := hdb
  intro db' h
  have hinvariant := publish_blockInvariant host withinBounds_rule
  have hpublished := hinvariant.applyBlock hpublish honly db' h
  obtain ⟨returned, scheduled, hreturned, hscheduled, hkeeps⟩ := applyBlock_spec h
  obtain ⟨hclock, -⟩ := beforeSchedule_clock returned hreturned
  have hlimits := (limits_openingInvariant host _).returned rfl b.only_any returned hreturned
  have hlast := congrArg Overview.limits hkeeps.seen
  have hhead : db'.dgp.headBlockNumber = scheduled.dgp.headBlockNumber :=
    congrArg Overview.headBlockNumber hkeeps.seen
  have hstays : scheduled.dgp.headBlockNumber = returned.dgp.headBlockNumber :=
    congrArg Overview.headBlockNumber (updateWitnessSchedule_keeps _ hscheduled).seen
  have hnext : returned.dgp.headBlockNumber = db.dgp.headBlockNumber + 1 := congrArg Prod.snd hclock
  have hprops : db'.wso.medianProps = scheduled.wso.medianProps := congrArg Prod.snd hlast
  have hsizes : db'.dgp.maximumBlockSize = scheduled.dgp.maximumBlockSize := congrArg Prod.fst hlast
  refine ⟨hpublished, ?_⟩
  rw [hprops, hsizes, hhead, hstays, hnext]
  by_cases hround : returned.dgp.headBlockNumber % blurtMaxWitnesses = 0
  · have hbefore := hinvariant.toOpeningInvariant.returned hpublish honly returned hreturned
    obtain ⟨hgood, hsame⟩ := updateWitnessSchedule_median hbefore hround scheduled hscheduled
    exact ⟨hgood, fun _ => hsame⟩
  · -- the schedule stays, so this is not its first block
    obtain ⟨-, rfl⟩ | ⟨hrebuilt, -⟩ := updateWitnessSchedule_spec hscheduled
    · have hprops : scheduled.wso.medianProps = db.wso.medianProps := congrArg Prod.snd hlimits
      have hsizes : scheduled.dgp.maximumBlockSize = db.dgp.maximumBlockSize :=
        congrArg Prod.fst hlimits
      rw [hprops, hsizes]
      refine ⟨hmedian, fun hlate => hsize ?_⟩
      rw [hnext] at hround
      have hne : db.dgp.headBlockNumber + 1 ≠ blurtMaxWitnesses := by
        intro hsame
        rw [hsame, Nat.mod_self] at hround
        exact hround rfl
      omega
    · exact absurd hrebuilt hround

/-- Where no operation raises the size of blocks above its bound by `witness_set_properties`,
every witness publishes properties within their bounds. The median properties stay within
them too, and so does the maximum size of blocks from the first new schedule on. -/
theorem reachableBy_withinBounds (h : ReachableBy host Operation.CapsBlockSize db) :
    (∀ name w, db.witnesses.find? name = some w → w.props.WithinBounds) ∧
      db.wso.medianProps.WithinBounds ∧
      (blurtMaxWitnesses ≤ db.dgp.headBlockNumber →
        blurtMinBlockSizeLimit ≤ db.dgp.maximumBlockSize ∧
          db.dgp.maximumBlockSize ≤ blurtSoftMaxBlockSize) := by
  have hbounds : db.KeepsBounds := by
    induction h with
    | genesis hgenesis => exact initGenesis_keepsBounds _ _ hgenesis
    | block _ honly happly ih => exact ih.applyBlock honly _ happly
  obtain ⟨hpublish, hmedian, hsize⟩ := hbounds
  refine ⟨publish_iff.mp hpublish, hmedian, fun hlate => ?_⟩
  rw [hsize hlate]
  exact hmedian.blockSize

end Database

namespace Sample

open Database

/-- A block in which the first initial witness sets the size of blocks. -/
def resizing (size : Nat) : LedgerBlock where
  timestamp := blurtGenesisTime + 3
  witness := blurtInitMinerName
  transactions := [
    { trx :=
        { operations := [.witnessSetProperties
            { owner := blurtInitMinerName
              props := { key := some 1, maximumBlockSize := some size } }]
          packSize := 200 }
      sigs := [1] }]
  packSize := 400

/-- The size of blocks that the first initial witness publishes after `resizing size`. -/
def publishedSize (size : Nat) : Option Nat :=
  (initGenesis freshChain >>= fun db => applyBlock plainHost db (resizing size)).toOption.bind
    fun db => (db.witnesses.find? blurtInitMinerName).map fun w => w.props.maximumBlockSize

theorem resizing_spec (size published : Nat) (h : publishedSize size = some published) :
    ∃ db db' w, initGenesis freshChain = .ok db ∧
      applyBlock plainHost db (resizing size) = .ok db' ∧
      db'.witnesses.find? blurtInitMinerName = some w ∧ w.props.maximumBlockSize = published := by
  unfold publishedSize at h
  obtain ⟨db', hrun, hfound⟩ := Option.bind_eq_some_iff.mp h
  obtain ⟨w, hw, hsize⟩ := Option.map_eq_some_iff.mp hfound
  cases hblock : initGenesis freshChain >>= fun db => applyBlock plainHost db (resizing size) with
  | error message =>
      rw [hblock] at hrun
      cases hrun
  | ok last =>
      rw [hblock] at hrun
      cases hrun
      obtain ⟨db, hdb, happly⟩ := bind_eq_ok.mp hblock
      exact ⟨db, db', w, hdb, happly, hw, hsize⟩

/-- A witness publishes a size within the bound. -/
theorem resizing_withinBounds : ∃ db : Database,
    (∃ w : Witness, db.witnesses.find? blurtInitMinerName = some w ∧
      w.props.maximumBlockSize = 100000 ∧ w.props.WithinBounds) ∧
        db.wso.medianProps.WithinBounds := by
  obtain ⟨db, db', w, hdb, happly, hw, hsize⟩ :=
    resizing_spec 100000 100000 (by decide +kernel)
  have honly : (resizing 100000).Only Operation.CapsBlockSize := by
    intro t ht op hop o size ho hsome
    obtain rfl := List.mem_singleton.mp ht
    obtain rfl := List.mem_singleton.mp hop
    cases ho
    cases hsome
    decide
  obtain ⟨hpublish, hmedian, -⟩ :=
    reachableBy_withinBounds (.block (.genesis hdb) honly happly)
  exact ⟨db', ⟨w, hw, hsize, hpublish _ w hw⟩, hmedian⟩

/-- A witness publishes 3 MiB, above the bound. -/
theorem resizing_exceeds : ∃ (db : Database) (w : Witness), Reachable plainHost db ∧
    (∃ before, applyBlock plainHost before (resizing (3 * 1024 * 1024)) = .ok db) ∧
    db.witnesses.find? blurtInitMinerName = some w ∧ ¬ w.props.WithinBounds := by
  obtain ⟨db, db', w, hdb, happly, hw, hsize⟩ :=
    resizing_spec (3 * 1024 * 1024) (3 * 1024 * 1024) (by decide +kernel)
  refine ⟨db', w, .block (.genesis hdb) happly, ⟨db, happly⟩, hw, fun hbounds => ?_⟩
  have hcap := hbounds.blockSize.2
  rw [hsize] at hcap
  exact absurd hcap (by decide)

end Sample

end Ledger

end Blurt
