import Blurt.Ledger.BlockInvariants

/-! # What a new schedule is made of

The parts of `update_witness_schedule`, as far as they do not depend on its order of votes.
-/

namespace Blurt

namespace Ledger

open Outcome

/-- The overview without the virtual time of the schedule. -/
def Overview.besideVirtualTime (v : Overview) : Overview :=
  { v with wso := { v.wso with currentVirtualTime := 0 } }

/-- The overview without what a new schedule changes. -/
def Overview.besideSchedule (v : Overview) : Overview :=
  { v with
    wso := {}
    maximumBlockSize := 0
    hardforks := { v.hardforks with nextHardfork := 0, nextHardforkTime := 0 } }

namespace Database

/-- The witnesses that votes put into the next schedule. -/
def elected (db : Database) : List (AccountName × Witness) :=
  electedRows db.wso.maxVotedWitnesses db.witnessesByVote

/-- The runners-up that are processed, and those that get into the next schedule. -/
def runners (db : Database) : List (AccountName × Witness) × List (AccountName × Witness) :=
  runnersUp (db.elected.map (·.1)) (blurtMaxWitnesses - db.elected.length)
    db.witnessesByScheduleTime

/-- `active_witnesses` -/
def activeWitnesses (db : Database) : List AccountName :=
  db.elected.map (·.1) ++ db.runners.2.map (·.1)

variable {db db' : Database}

/-- The schedule after an update. -/
structure Rescheduled (db timed : Database) (scheduled : List Witness) (wso : WitnessSchedule) :
    Prop where
  keeps : Keeps Overview.besideVirtualTime db timed
  active : db.activeWitnesses.length = min blurtMaxWitnesses db.witnesses.rows.length
  scheduled : timed.scheduledWitnesses = .ok scheduled
  shuffled : wso.currentShuffledWitnesses =
    shuffle db.dgp.time (max db.activeWitnesses.length 1) (scheduleEntries db.activeWitnesses)
  num : wso.numScheduledWitnesses = max db.activeWitnesses.length 1
  required : wso.hardforkRequiredWitnesses = db.wso.hardforkRequiredWitnesses
  voted : wso.maxVotedWitnesses = db.wso.maxVotedWitnesses

/-! ## The steps of an update -/

/-- The witnesses with the next schedule marked in them. -/
def chosen (db : Database) : Database :=
  (db.markSchedule .elected db.elected).markSchedule .timeshare db.runners.2

/-- `new_virtual_time`, to which every processed witness advances. -/
def newVirtualTime (db : Database) : Nat :=
  (db.runners.1.getLast?.map (·.2.virtualScheduledTime)).getD db.wso.currentVirtualTime

/-- The processed witnesses start a new lap at `time`, or after an overflow all do, at 0. -/
inductive Lapped (db : Database) : Database → Nat → Prop
  | advanced {timed : Database}
      (h : startLaps db.newVirtualTime db.chosen db.runners.1 = .ok (timed, false)) :
      Lapped db timed db.newVirtualTime
  | overflow {advanced timed : Database}
      (h : startLaps db.newVirtualTime db.chosen db.runners.1 = .ok (advanced, true))
      (hreset : advanced.resetVirtualScheduleTime = .ok timed) : Lapped db timed 0

/-- The witness scheduler after an update. -/
def newSchedule (db timed : Database) (time : Nat) (scheduled : List Witness) : WitnessSchedule :=
  let numScheduledWitnesses := max db.activeWitnesses.length 1
  { timed.wso with
    currentShuffledWitnesses :=
      shuffle db.dgp.time numScheduledWitnesses (scheduleEntries db.activeWitnesses)
    numScheduledWitnesses
    witnessPayNormalizationFactor :=
      db.wso.electedWeight * db.elected.length + db.wso.timeshareWeight * db.runners.2.length
    currentVirtualTime := time
    nextShuffleBlockNum := (db.dgp.headBlockNumber + numScheduledWitnesses) % 2 ^ 32
    majorityVersion := countVersions db.wso scheduled }

/-- At the end of a round an update marks the next schedule, starts new laps and takes the medians
of the new schedule. -/
theorem updateWitnessSchedule_eq_ok (hhead : db.dgp.headBlockNumber % blurtMaxWitnesses = 0) :
    db.updateWitnessSchedule = .ok db' ↔ ∃ timed time scheduled, Lapped db timed time ∧
      db.activeWitnesses.length = min blurtMaxWitnesses db.witnesses.rows.length ∧
      timed.scheduledWitnesses = .ok scheduled ∧
      ({ timed with
          hardforks := timed.hardforks.schedule (countHardforkVotes db.wso scheduled)
          wso := db.newSchedule timed time scheduled } : Database).updateMedianWitnessProps =
        .ok db' := by
  unfold updateWitnessSchedule
  rw [if_neg (not_not.mpr hhead)]
  constructor
  · intro h
    obtain ⟨⟨advanced, overflows⟩, hadvanced, h⟩ := bind_eq_ok.mp h
    cases overflows with
    | true =>
        simp only [if_true, bind_eq_ok, ensure_eq_ok] at h
        obtain ⟨timed, htimed, _, hactive, scheduled, hscheduled, h⟩ := h
        exact ⟨timed, 0, scheduled, .overflow hadvanced htimed, hactive, hscheduled, h⟩
    | false =>
        simp only [Bool.false_eq_true, if_false, bind_eq_ok, ensure_eq_ok] at h
        obtain ⟨timed, htimed, _, hactive, scheduled, hscheduled, h⟩ := h
        cases htimed
        exact ⟨advanced, _, scheduled, .advanced hadvanced, hactive, hscheduled, h⟩
  · rintro ⟨timed, time, scheduled, hlapped, hactive, hscheduled, h⟩
    cases hlapped with
    | advanced hadvanced =>
        refine bind_eq_ok.mpr ⟨(timed, false), hadvanced, ?_⟩
        simp only [Bool.false_eq_true, if_false, bind_eq_ok, ensure_eq_ok]
        exact ⟨timed, rfl, (), hactive, scheduled, hscheduled, h⟩
    | @overflow advanced _ hadvanced hreset =>
        refine bind_eq_ok.mpr ⟨(advanced, true), hadvanced, ?_⟩
        simp only [if_true, bind_eq_ok, ensure_eq_ok]
        exact ⟨timed, hreset, (), hactive, scheduled, hscheduled, h⟩

theorem updateWitnessSchedule_lapped (h : db.updateWitnessSchedule = .ok db') :
    db.dgp.headBlockNumber % blurtMaxWitnesses ≠ 0 ∧ db' = db ∨
      db.dgp.headBlockNumber % blurtMaxWitnesses = 0 ∧ ∃ timed time scheduled,
        Lapped db timed time ∧
        db.activeWitnesses.length = min blurtMaxWitnesses db.witnesses.rows.length ∧
        timed.scheduledWitnesses = .ok scheduled ∧
        ({ timed with
            hardforks := timed.hardforks.schedule (countHardforkVotes db.wso scheduled)
            wso := db.newSchedule timed time scheduled } : Database).updateMedianWitnessProps =
          .ok db' := by
  by_cases hhead : db.dgp.headBlockNumber % blurtMaxWitnesses = 0
  · exact .inr ⟨hhead, (updateWitnessSchedule_eq_ok hhead).mp h⟩
  · rw [updateWitnessSchedule, if_pos hhead] at h
    cases h
    exact .inl ⟨hhead, rfl⟩

theorem chosen_quiet (db : Database) : Quiet db db.chosen :=
  (markSchedule_framed quiet_frame _ _).trans (markSchedule_framed quiet_frame _ _)

theorem Lapped.keeps {timed : Database} {time : Nat} (h : Lapped db timed time) :
    Keeps Overview.besideVirtualTime db timed := by
  cases h with
  | advanced h => exact (db.chosen_quiet.trans (startLaps_quiet _ _ _ h)).seenBy _
  | overflow h hreset =>
      have hadvanced := db.chosen_quiet.trans (startLaps_quiet _ _ _ h)
      exact (hadvanced.seenBy _).trans (resetVirtualScheduleTime_keeps _ hreset)

theorem Lapped.rescheduled {timed : Database} {time : Nat} {scheduled : List Witness}
    (h : Lapped db timed time)
    (hactive : db.activeWitnesses.length = min blurtMaxWitnesses db.witnesses.rows.length)
    (hscheduled : timed.scheduledWitnesses = .ok scheduled) :
    Rescheduled db timed scheduled (db.newSchedule timed time scheduled) := by
  have hrequired := congrArg (fun v => v.wso.hardforkRequiredWitnesses) h.keeps.seen
  have hvoted := congrArg (fun v => v.wso.maxVotedWitnesses) h.keeps.seen
  exact ⟨h.keeps, hactive, hscheduled, rfl, rfl, hrequired, hvoted⟩

theorem updateWitnessSchedule_spec (h : db.updateWitnessSchedule = .ok db') :
    db.dgp.headBlockNumber % blurtMaxWitnesses ≠ 0 ∧ db' = db ∨
      db.dgp.headBlockNumber % blurtMaxWitnesses = 0 ∧ ∃ timed scheduled wso,
        Rescheduled db timed scheduled wso ∧
        ({ timed with
            hardforks := timed.hardforks.schedule (countHardforkVotes db.wso scheduled)
            wso } : Database).updateMedianWitnessProps = .ok db' := by
  obtain hsame | ⟨hround, timed, time, scheduled, hlapped, hactive, hscheduled, h⟩ :=
    updateWitnessSchedule_lapped h
  · exact .inl hsame
  · exact .inr ⟨hround, timed, scheduled, _, hlapped.rescheduled hactive hscheduled, h⟩

/-! ## The scheduled witnesses -/

theorem scheduledWitnesses_eq_ok {scheduled : List Witness} :
    db.scheduledWitnesses = .ok scheduled ↔
      List.Forall₂ (fun i w =>
        db.witnesses.find? (db.wso.currentShuffledWitnesses.getD i "") = some w)
        (List.range db.wso.numScheduledWitnesses) scheduled := by
  rw [scheduledWitnesses, forEach_collect]
  simp [getWitness]

/-- What the scheduled witnesses publish depends on the overview only. -/
theorem scheduledWitnesses_published {first last : Database} {scheduled : List Witness}
    (hseen : last.overview.besideVirtualTime = first.overview.besideVirtualTime)
    (h : last.scheduledWitnesses = .ok scheduled) :
    ∃ witnesses, first.scheduledWitnesses = .ok witnesses ∧
      witnesses.map Witness.published = scheduled.map Witness.published := by
  have hnum : last.wso.numScheduledWitnesses = first.wso.numScheduledWitnesses :=
    congrArg (fun v : Overview => v.wso.numScheduledWitnesses) hseen
  have hnames : last.wso.currentShuffledWitnesses = first.wso.currentShuffledWitnesses :=
    congrArg (fun v : Overview => v.wso.currentShuffledWitnesses) hseen
  have hview : last.witnesses.view Witness.published = first.witnesses.view Witness.published :=
    congrArg Overview.witnesses hseen
  rw [scheduledWitnesses_eq_ok, hnum, hnames] at h
  simp only [scheduledWitnesses_eq_ok]
  generalize List.range first.wso.numScheduledWitnesses = seats at h ⊢
  induction h with
  | nil => exact ⟨[], .nil, rfl⟩
  | cons hw _ ih =>
      rename_i i w rest ws _
      obtain ⟨witnesses, hwitnesses, hpublished⟩ := ih
      have hrow := congrArg (Table.find? (first.wso.currentShuffledWitnesses.getD i "")) hview
      rw [Table.find?_view, Table.find?_view, hw, Option.map_some, eq_comm,
        Option.map_eq_some_iff] at hrow
      obtain ⟨v, hv, hsame⟩ := hrow
      exact ⟨v :: witnesses, .cons hv hwitnesses, by simp [hsame, hpublished]⟩

/-! ## The median properties -/

theorem medianBy_mem {key : Witness → Int} {active : List Witness} :
    Always (medianBy key active) (· ∈ active) := by
  intro w h
  have hmem := List.mem_of_getElem? (require_eq_ok.mp h)
  exact (List.perm_insertionSort _ _).mem_iff.mp hmem

/-- Properties of which each was published by one of the active witnesses. -/
structure PublishedBy (active : List Witness) (props : ChainProperties) : Prop where
  creationFee : ∃ w ∈ active, props.accountCreationFee = w.props.accountCreationFee
  blockSize : ∃ w ∈ active, props.maximumBlockSize = w.props.maximumBlockSize
  budget : ∃ w ∈ active, props.accountSubsidyBudget = w.props.accountSubsidyBudget
  decay : ∃ w ∈ active, props.accountSubsidyDecay = w.props.accountSubsidyDecay
  flatFee : ∃ w ∈ active, props.operationFlatFee = w.props.operationFlatFee
  bandwidthFee : ∃ w ∈ active, props.bandwidthKbytesFee = w.props.bandwidthKbytesFee

theorem updateMedianWitnessProps_spec (h : db.updateMedianWitnessProps = .ok db') :
    ∃ active medianProps rd witnessRd, db.scheduledWitnesses = .ok active ∧
      PublishedBy active medianProps ∧
      db' = { db with
        wso := { db.wso with
          medianProps, accountSubsidyRd := rd, accountSubsidyWitnessRd := witnessRd }
        dgp := { db.dgp with maximumBlockSize := medianProps.maximumBlockSize } } := by
  simp only [updateMedianWitnessProps, bind_eq_ok, pure_eq_ok] at h
  obtain ⟨active, hactive, byFee, hfee, bySize, hsize, byBudget, hbudget, byDecay, hdecay, byFlat,
    hflat, byBandwidth, hbandwidth, _, -, _, -, rd, -, witnessRd, -, _, -, minDecay, -, rfl⟩ := h
  let medianProps : ChainProperties :=
    { accountCreationFee := byFee.props.accountCreationFee
      maximumBlockSize := bySize.props.maximumBlockSize
      accountSubsidyBudget := byBudget.props.accountSubsidyBudget
      accountSubsidyDecay := byDecay.props.accountSubsidyDecay
      operationFlatFee := byFlat.props.operationFlatFee
      bandwidthKbytesFee := byBandwidth.props.bandwidthKbytesFee }
  refine ⟨active, medianProps, rd, { witnessRd with minDecay }, hactive, ⟨?_, ?_, ?_, ?_, ?_, ?_⟩, rfl⟩
  · exact ⟨byFee, medianBy_mem _ hfee, rfl⟩
  · exact ⟨bySize, medianBy_mem _ hsize, rfl⟩
  · exact ⟨byBudget, medianBy_mem _ hbudget, rfl⟩
  · exact ⟨byDecay, medianBy_mem _ hdecay, rfl⟩
  · exact ⟨byFlat, medianBy_mem _ hflat, rfl⟩
  · exact ⟨byBandwidth, medianBy_mem _ hbandwidth, rfl⟩

/-- A new schedule changes the schedule, the size of blocks and the next hardfork. -/
theorem updateWitnessSchedule_keeps :
    Always db.updateWitnessSchedule (Keeps Overview.besideSchedule db) := by
  intro db' h
  obtain ⟨-, rfl⟩ | ⟨-, timed, scheduled, wso, hnew, hmedian⟩ := updateWitnessSchedule_spec h
  · exact Keeps.refl _ _
  · obtain ⟨active, props, rd, witnessRd, -, -, rfl⟩ := updateMedianWitnessProps_spec hmedian
    have hseen := congrArg Overview.besideSchedule hnew.keeps.seen
    have htimed : Keeps Overview.besideSchedule db timed := ⟨hseen, hnew.keeps.ready⟩
    refine htimed.trans (Keeps.of_see ?_ rfl)
    simp only [Overview.besideSchedule, overview, HardforkProperty.schedule]
    split <;> rfl

end Database

end Ledger

end Blurt
