import Blurt.Ledger.PublishedBounds

/-! # Whether the schedule can be rebuilt

A new schedule throws in one case only: fewer witnesses can sign than there are seats, and
there are others that cannot.
-/

namespace Blurt

namespace Ledger

open Outcome

/-- A budget and a decay that pass the checks. -/
def ChainProperties.SubsidiesValid (props : ChainProperties) : Prop :=
  rdValidateUserParams props.accountSubsidyBudget props.accountSubsidyDecay = .ok ()

/-- Both operations check the budget and the decay, or leave them as they are. -/
theorem subsidiesValid_rule : PublishRule anyOperation ChainProperties.SubsidiesValid where
  default := rdValidateUserParams_eq_ok.mpr (by decide)
  update _ _ _ h := h
  assign props o _ hchecked h := by
    obtain ⟨hbudget, hdecay⟩ := rdValidateUserParams_eq_ok.mp h
    rw [ChainProperties.SubsidiesValid, rdValidateUserParams_eq_ok]
    exact ⟨getD_holds hchecked.budget hbudget, getD_holds hchecked.decay hdecay⟩

/-- The scheduled witnesses exist, and there is one. -/
structure Overview.Seated (v : Overview) : Prop where
  voted : v.wso.maxVotedWitnesses ≤ blurtMaxWitnesses
  pos : 0 < v.wso.numScheduledWitnesses
  announced : ∀ i < v.wso.numScheduledWitnesses,
    (v.announced (v.wso.currentShuffledWitnesses.getD i "")).isSome

/-- New witnesses take no seat away. -/
theorem Overview.Seated.mono {v w : Overview} (h : v.Seated) (hwso : w.wso = v.wso)
    (hmore : ∀ name, (v.announced name).isSome → (w.announced name).isSome) : w.Seated where
  voted := by
    rw [hwso]
    exact h.voted
  pos := by
    rw [hwso]
    exact h.pos
  announced i hi := by
    rw [hwso] at hi ⊢
    exact hmore _ (h.announced i hi)

theorem Overview.Seated.congr {v w : Overview} (h : v.Seated) (hwso : w.wso = v.wso)
    (hsame : w.announced = v.announced) : w.Seated :=
  h.mono hwso fun name hname => by rwa [hsame]

namespace Database

variable {host : Host} {db db' : Database}

/-! ## The median properties -/

theorem medianBy_ok (key : Witness → Int) {active : List Witness} (hactive : active ≠ []) :
    ∃ w, medianBy key active = .ok w ∧ w ∈ active := by
  have hpos := List.length_pos_of_ne_nil hactive
  have hmiddle : active.length / 2 <
      (active.insertionSort fun x y => key x ≤ key y).length := by
    rw [List.length_insertionSort]
    omega
  have hmedian : medianBy key active =
      .ok ((active.insertionSort fun x y => key x ≤ key y)[active.length / 2]) := by
    rw [medianBy, List.getElem?_eq_getElem hmiddle]
    rfl
  exact ⟨_, hmedian, medianBy_mem _ hmedian⟩

/-- The part of the decay of a pool that every pool loses. -/
theorem backstop_ok {decay : Nat} (hdecay : decay < 2 ^ 63) :
    UInt128.toInt64 (UInt128.wrap (UInt128.ofInt (max (decay : Int) 0) * blurtDecayBackstopPercent) /
      blurt100Percent) = .ok ((decay * blurtDecayBackstopPercent / blurt100Percent : Nat) : Int) := by
  rw [max_eq_left (Int.natCast_nonneg decay), UInt128.ofInt_natCast (by omega), UInt128.wrap,
    Nat.mod_eq_of_lt]
  · rw [UInt128.toInt64_eq_ok]
    refine ⟨?_, rfl⟩
    simp only [blurtDecayBackstopPercent, blurt1Percent, blurt100Percent]
    omega
  · simp only [blurtDecayBackstopPercent, blurt1Percent]
    omega

/-- The medians of witnesses with valid subsidies can be taken. -/
theorem updateMedianWitnessProps_ok {active : List Witness}
    (hscheduled : db.scheduledWitnesses = .ok active) (hactive : active ≠ [])
    (hpublish : db.overview.Publish ChainProperties.SubsidiesValid) (hready : db.Ready) :
    ∃ next, db.updateMedianWitnessProps = .ok next := by
  have hvalid : ∀ w ∈ active, w.props.SubsidiesValid ∧ w.Ready := by
    intro w hw
    obtain ⟨name, hfound⟩ := mem_scheduledWitnesses hscheduled hw
    exact ⟨publish_iff.mp hpublish name w hfound, hready name w hfound⟩
  obtain ⟨byFee, hfee, -⟩ := medianBy_ok (fun w => w.props.accountCreationFee.amount) hactive
  obtain ⟨bySize, hsize, -⟩ := medianBy_ok (fun w => w.props.maximumBlockSize) hactive
  obtain ⟨byBudget, hbudget, hinBudget⟩ :=
    medianBy_ok (fun w => w.props.accountSubsidyBudget) hactive
  obtain ⟨byDecay, hdecay, hinDecay⟩ := medianBy_ok (fun w => w.props.accountSubsidyDecay) hactive
  obtain ⟨byFlat, hflat, -⟩ := medianBy_ok (fun w => w.props.operationFlatFee.amount) hactive
  obtain ⟨byBandwidth, hbandwidth, -⟩ :=
    medianBy_ok (fun w => w.props.bandwidthKbytesFee.amount) hactive
  obtain ⟨bySubsidies, hsubsidies, hinSubsidies⟩ :=
    medianBy_ok (·.availableWitnessAccountSubsidies) hactive
  obtain ⟨hbudgetMin, hbudgetMax⟩ := (rdValidateUserParams_eq_ok.mp (hvalid _ hinBudget).1).1
  obtain ⟨hdecayMin, hdecayMax⟩ := (rdValidateUserParams_eq_ok.mp (hvalid _ hinDecay).1).2
  have hmedian : rdValidateUserParams byBudget.props.accountSubsidyBudget
      byDecay.props.accountSubsidyDecay = .ok () :=
    rdValidateUserParams_eq_ok.mpr ⟨⟨hbudgetMin, hbudgetMax⟩, hdecayMin, hdecayMax⟩
  obtain ⟨hwitnessMin, hwitnessMax⟩ := witnessSubsidyBudget_range hbudgetMin hbudgetMax
  obtain ⟨hfastMin, hfastMax⟩ := witnessSubsidyDecay_range hdecayMin
  rw [blurtRdMinBudget] at hbudgetMin
  rw [blurtRdMaxBudget] at hbudgetMax
  rw [blurtRdMinDecay] at hdecayMin
  rw [blurtRdMaxDecay] at hdecayMax
  obtain ⟨rd, hrd, -⟩ := @RdDynamicsParams.setup_ok db.wso.accountSubsidyRd _ _ hbudgetMin
    (by omega) hdecayMin (by omega)
  obtain ⟨witnessRd, hwitnessRd, hbalances⟩ :=
    @RdDynamicsParams.setup_ok db.wso.accountSubsidyWitnessRd _ _ hwitnessMin hwitnessMax hfastMin
      hfastMax
  obtain ⟨-, hpoolMin, hpoolMax⟩ := (hvalid _ hinSubsidies).2
  obtain ⟨pool, hpool⟩ := Int.eq_ofNat_of_zero_le hpoolMin
  have hlt : pool < 2 ^ 63 := by omega
  have hrate : witnessRd.decayPerTimeUnit < 2 ^ 32 := by
    rw [hbalances.rate]
    exact hfastMax
  have hcompute := witnessRd.computePoolDecay_eq hrate hbalances.shift hlt
  have hless := LeakyPool.leak_le (hrate.le.trans (by decide : 2 ^ 32 ≤ 2 ^ 36)) pool
  have hbackstop := backstop_ok (hless.trans_lt hlt)
  simp only [updateMedianWitnessProps, hscheduled, hfee, hsize, hbudget, hdecay, hflat, hbandwidth,
    hsubsidies, hmedian, hrd, hwitnessRd, hpool, ok_bind]
  rw [hcompute, ok_bind, hbackstop]
  exact ⟨_, rfl⟩

/-! ## The seats -/

/-- The number of witnesses that can sign. -/
def signers (db : Database) : Nat := db.witnesses.rows.countP fun row => row.2.canSign

theorem runnersUp_seated (elected : List AccountName) (free : Nat)
    (rows : List (AccountName × Witness)) :
    (runnersUp elected free rows).2 =
      (rows.filter fun row => row.2.canSign ∧ row.1 ∉ elected).take free := by
  induction rows generalizing free with
  | nil => cases free <;> rfl
  | cons row rest ih =>
      cases free with
      | zero => rw [runnersUp, List.take_zero]
      | succ free =>
          rw [runnersUp]
          split
          · rename_i hseat
            rw [List.filter_cons_of_pos (by simpa using hseat), List.take_succ_cons, ← ih free]
          · rename_i hseat
            rw [List.filter_cons_of_neg (by simpa using hseat), ← ih (free + 1)]

theorem witnessesByVote_perm (db : Database) : db.witnessesByVote.Perm db.witnesses.rows := by
  refine (List.perm_insertionSort _ _).trans ?_
  rw [List.filter_true]

theorem witnessesByScheduleTime_perm (db : Database) :
    db.witnessesByScheduleTime.Perm db.witnesses.rows := by
  refine (List.perm_insertionSort _ _).trans ?_
  rw [List.filter_true]

theorem mem_elected {row : AccountName × Witness} (h : row ∈ db.elected) :
    row ∈ db.witnesses.rows ∧ row.2.canSign := by
  obtain ⟨hrow, hsign⟩ := List.mem_filter.mp (List.mem_of_mem_take h)
  exact ⟨db.witnessesByVote_perm.mem_iff.mp hrow, hsign⟩

theorem mem_seated {row : AccountName × Witness} (h : row ∈ db.runners.2) :
    row ∈ db.witnesses.rows ∧ row.2.canSign := by
  rw [runners, runnersUp_seated] at h
  obtain ⟨hrow, hsign⟩ := List.mem_filter.mp (List.mem_of_mem_take h)
  simp only [decide_eq_true_eq] at hsign
  exact ⟨db.witnessesByScheduleTime_perm.mem_iff.mp hrow, hsign.1⟩

theorem elected_length (db : Database) :
    db.elected.length = min db.wso.maxVotedWitnesses db.signers := by
  rw [elected, electedRows, List.length_take, ← List.countP_eq_length_filter, signers,
    db.witnessesByVote_perm.countP_eq]

/-- The witnesses that can sign and are not elected. -/
theorem runners_count (db : Database) :
    db.elected.length +
      db.witnesses.rows.countP (fun row => row.2.canSign ∧ row.1 ∉ db.elected.map (·.1)) =
        db.signers := by
  have helected : (db.witnesses.rows.filter fun row =>
      row.2.canSign ∧ row.1 ∈ db.elected.map (·.1)).Perm db.elected := by
    rw [List.perm_ext_iff_of_nodup]
    · intro row
      simp only [List.mem_filter, decide_eq_true_eq]
      constructor
      · rintro ⟨hrow, -, hname⟩
        obtain ⟨other, hother, hsame⟩ := List.mem_map.mp hname
        have hrows := List.inj_on_of_nodup_map db.witnesses.rows_nodup
        rwa [← hrows (mem_elected hother).1 hrow hsame]
      · intro hrow
        obtain ⟨hmem, hsign⟩ := mem_elected hrow
        exact ⟨hmem, hsign, List.mem_map_of_mem hrow⟩
    · exact (db.witnesses.rows_nodup.of_map).filter _
    · have hnodup := (Store.ordered_nodup (fun x y => y.2.votes < x.2.votes ∨
        (x.2.votes = y.2.votes ∧ x.1 ≤ y.1)) (fun _ _ => true) db.witnesses).of_map
      exact (hnodup.filter _).sublist (List.take_sublist _ _)
  have hsplit := List.countP_eq_countP_filter_add db.witnesses.rows (fun row => row.2.canSign)
    fun row => row.1 ∈ db.elected.map (·.1)
  simp only [List.countP_filter] at hsplit
  rw [← helected.length_eq, ← List.countP_eq_length_filter, signers, hsplit]
  simp

/-- A new schedule has a seat for every witness that can sign, up to `BLURT_MAX_WITNESSES`. -/
theorem activeWitnesses_length (hvoted : db.wso.maxVotedWitnesses ≤ blurtMaxWitnesses) :
    db.activeWitnesses.length = min blurtMaxWitnesses db.signers := by
  have helected := db.elected_length
  have hcount := db.runners_count
  have hseated : db.runners.2.length = min (blurtMaxWitnesses - db.elected.length)
      (db.witnesses.rows.countP fun row => row.2.canSign ∧ row.1 ∉ db.elected.map (·.1)) := by
    rw [runners, runnersUp_seated, List.length_take, ← List.countP_eq_length_filter,
      db.witnessesByScheduleTime_perm.countP_eq]
  rw [activeWitnesses, List.length_append, List.length_map, List.length_map]
  omega

/-! ## The shuffle -/

theorem getD_set_holds {holds : AccountName → Prop} {names : List AccountName} {name : AccountName}
    {i k : Nat} (hnames : holds (names.getD k "")) (hname : holds name) :
    holds ((names.set i name).getD k "") := by
  rw [List.getD_eq_getElem?_getD, List.getElem?_set]
  split
  · split
    · exact hname
    · rename_i hik hlength
      rw [List.getD_eq_getElem?_getD, ← hik, List.getElem?_eq_none (by omega)] at hnames
      exact hnames
  · rwa [← List.getD_eq_getElem?_getD]

/-- What holds for the first `count` names still holds for them after the shuffle. -/
theorem shuffle_holds {holds : AccountName → Prop} {count : Nat} {names : List AccountName}
    (hnames : ∀ k < count, holds (names.getD k "")) (time : Nat) :
    ∀ k < count, holds ((shuffle time count names).getD k "") := by
  unfold shuffle
  apply List.foldlRecOn (motive := fun names : List AccountName =>
    ∀ k < count, holds (names.getD k "")) _ _ hnames
  intro names hnames i hi k hk
  have hi := List.mem_range.mp hi
  have hword : shuffleWord time i % (count - i) < count - i := Nat.mod_lt _ (by omega)
  unfold swapEntries
  apply getD_set_holds
  · exact getD_set_holds (hnames k hk) (hnames _ (by omega))
  · exact hnames i hi

theorem mem_activeWitnesses {name : AccountName} (h : name ∈ db.activeWitnesses) :
    (db.witnesses.find? name).isSome := by
  have hfound : ∀ row ∈ db.witnesses.rows, (db.witnesses.find? row.1).isSome := by
    intro row hrow
    rw [Store.mem_rows_iff.mp hrow]
    rfl
  rcases List.mem_append.mp h with h | h
  · obtain ⟨row, hrow, rfl⟩ := List.mem_map.mp h
    exact hfound row (mem_elected hrow).1
  · obtain ⟨row, hrow, rfl⟩ := List.mem_map.mp h
    exact hfound row (mem_seated hrow).1

/-! ## The invariant -/

/-- An operation takes no witness away, and leaves the scheduler as it is. -/
theorem operation_announced {rules : TextRules} {op : Operation}
    (hvalid : op.validate rules = .ok ()) :
    Always (applyOperation host db op) fun db' => db'.wso = db.wso ∧
      ∀ name, (db.overview.announced name).isSome → (db'.overview.announced name).isSome := by
  intro db' h
  have hwso := congrArg Overview.wso (applyOperation_keeps host op db' h).seen
  rw [beyond_wso, beyond_wso] at hwso
  have hset : ∀ {name p}, db'.overview.witnesses = db.overview.witnesses.set name p →
      ∀ other, (db.overview.announced other).isSome → (db'.overview.announced other).isSome := by
    intro name p hset other hother
    rw [Overview.announced_set hset]
    split
    · rfl
    · exact hother
  refine ⟨hwso, ?_⟩
  obtain hsame | ⟨o, -, hvalid, h⟩ | ⟨o, -, hvalid, h⟩ := applyOperation_witnesses hvalid db' h
  · intro name hname
    rwa [Overview.announced, hsame]
  · obtain ⟨-, _, p, -, -, -, hnew⟩ := witnessUpdate_spec hvalid h
    exact hset hnew
  · obtain ⟨-, _, p, -, -, -, hnew⟩ := witnessSetProperties_spec hvalid h
    exact hset hnew

theorem operation_seated {rules : TextRules} {op : Operation} (hvalid : op.validate rules = .ok ())
    (hdb : db.overview.Seated) :
    Always (applyOperation host db op) fun db' => db'.overview.Seated :=
  (operation_announced hvalid).mono fun _ ⟨hwso, hmore⟩ => hdb.mono hwso hmore

theorem announced_isSome (db : Database) (name : AccountName) :
    (db.overview.announced name).isSome = (db.witnesses.find? name).isSome := by
  rw [announced_overview, Option.isSome_map]

/-- A new schedule with a witness in it has only witnesses that exist in it. -/
theorem Rescheduled.seated {timed : Database} {scheduled : List Witness} {wso : WitnessSchedule}
    (h : Rescheduled db timed scheduled wso) (hdb : db.overview.Seated)
    (hactive : 0 < db.activeWitnesses.length) (hardforks : HardforkProperty) :
    ({ timed with hardforks, wso } : Database).overview.Seated := by
  have hannounced := congrArg Overview.announced h.keeps.seen
  have hnum : wso.numScheduledWitnesses = db.activeWitnesses.length := by
    rw [h.num]
    omega
  constructor
  · change wso.maxVotedWitnesses ≤ _
    rw [h.voted]
    exact hdb.voted
  · change 0 < wso.numScheduledWitnesses
    omega
  · change ∀ i < wso.numScheduledWitnesses,
      (timed.overview.announced (wso.currentShuffledWitnesses.getD i "")).isSome
    change timed.overview.announced = db.overview.announced at hannounced
    rw [hannounced, h.shuffled, hnum, max_eq_left hactive]
    apply @shuffle_holds fun name => (db.overview.announced name).isSome
    intro k hk
    rw [announced_isSome]
    apply mem_activeWitnesses
    rw [scheduleEntries, List.getD_eq_getElem?_getD, List.getElem?_append_left hk,
      List.getElem?_eq_getElem hk]
    exact List.getElem_mem hk

theorem Overview.Seated.witnesses_pos (hdb : db.overview.Seated) : 0 < db.witnesses.rows.length := by
  have hfirst := hdb.announced 0 hdb.pos
  rw [announced_isSome, Option.isSome_iff_exists] at hfirst
  obtain ⟨w, hw⟩ := hfirst
  exact List.length_pos_of_mem (Store.mem_rows_iff.mpr hw)

theorem schedule_seated (hdb : db.overview.Seated) :
    Always db.updateWitnessSchedule fun db' => db'.overview.Seated := by
  intro db' h
  obtain ⟨-, rfl⟩ | ⟨-, timed, scheduled, wso, hnew, hmedian⟩ := updateWitnessSchedule_spec h
  · exact hdb
  · have hactive : 0 < db.activeWitnesses.length := by
      have hpos := Overview.Seated.witnesses_pos hdb
      rw [hnew.active, blurtMaxWitnesses]
      omega
    have hseated := hnew.seated hdb hactive
      (timed.hardforks.schedule (countHardforkVotes db.wso scheduled))
    obtain ⟨active, props, rd, witnessRd, -, -, rfl⟩ := updateMedianWitnessProps_spec hmedian
    exact ⟨hseated.voted, hseated.pos, hseated.announced⟩

/-- Every reachable database has a schedule of witnesses that exist. -/
theorem seated_blockInvariant (host : Host) :
    BlockInvariant host anyOperation fun db => db.overview.Seated where
  quiet db db' hquiet h := by
    have hseen : db'.overview = db.overview := hquiet.seen
    rw [hseen]
    exact h
  start db timestamp _ h := by
    intro db' hstart
    have hwso := congrArg Overview.wso (startHardforks_keeps timestamp db' hstart).seen
    exact h.congr hwso (startHardforks_announced timestamp db' hstart).seen
  signer db name h := ⟨h.voted, h.pos, h.announced⟩
  extension db name extension h := by
    intro db' hvisit
    have hwso := congrArg Overview.wso (visitExtension_keeps name extension db' hvisit).seen
    exact h.congr hwso (visitExtension_announced name extension db' hvisit).seen
  operation db op _ hvalid h := operation_seated hvalid h
  clock db b _ h := ⟨h.voted, h.pos, h.announced⟩
  schedule db h := schedule_seated h
  recovery db h := by
    refine accountRecoveryProcessing_keeps.mono fun db' hkeeps => ?_
    have hwso := congrArg Overview.wso hkeeps.seen
    have hannounced := congrArg Overview.announced hkeeps.seen
    exact h.congr hwso hannounced
  hardforks db h := by
    refine processHardforks_keeps.mono fun db' hkeeps => ?_
    have hwso := congrArg Overview.wso hkeeps.seen
    have hannounced := congrArg Overview.announced hkeeps.seen
    exact h.congr hwso hannounced

/-! ## Progress -/

theorem lapTime_ok {w : Witness} (hready : w.Ready) : ∃ lap, w.lapTime = .ok lap := by
  have hne : UInt128.ofInt (wrapInt64 (w.votes + 1)) ≠ 0 := by
    have hlap := hready.1
    have hlow := wrapInt64_ge (w.votes + 1)
    have hhigh := wrapInt64_lt (w.votes + 1)
    unfold UInt128.ofInt
    omega
  exact ⟨_, UInt128.div_eq_ok.mpr ⟨hne, rfl⟩⟩

theorem startLaps_ok (newVirtualTime : Nat) {rows : List (AccountName × Witness)}
    (hready : ∀ row ∈ rows, row.2.Ready) (db : Database) :
    ∃ result, startLaps newVirtualTime db rows = .ok result := by
  induction rows generalizing db with
  | nil => exact ⟨_, rfl⟩
  | cons row rest ih =>
      obtain ⟨lap, hlap⟩ := lapTime_ok (hready row List.mem_cons_self)
      rw [startLaps, hlap, ok_bind]
      dsimp only
      split
      · exact ⟨_, rfl⟩
      · exact ih (fun other hother => hready other (List.mem_cons_of_mem _ hother)) _

theorem resetVirtualScheduleTime_ok (hready : db.Ready) :
    ∃ reset, db.resetVirtualScheduleTime = .ok reset := by
  apply forEach_ok
  rintro state ⟨name, w⟩ hrow
  obtain ⟨lap, hlap⟩ := lapTime_ok (hready name w (Store.mem_rows_iff.mp hrow))
  rw [hlap, ok_bind]
  exact ⟨_, rfl⟩

theorem mem_processed {elected : List AccountName} {free : Nat}
    {rows : List (AccountName × Witness)} {row : AccountName × Witness}
    (h : row ∈ (runnersUp elected free rows).1) : row ∈ rows := by
  induction rows generalizing free with
  | nil => cases free <;> exact h
  | cons first rest ih =>
      cases free with
      | zero => cases h
      | succ free =>
          rw [runnersUp] at h
          split at h
          · rcases List.mem_cons.mp h with rfl | hrest
            · exact List.mem_cons_self
            · exact List.mem_cons_of_mem _ (ih hrest)
          · rcases List.mem_cons.mp h with rfl | hrest
            · exact List.mem_cons_self
            · exact List.mem_cons_of_mem _ (ih hrest)

/-- The scheduled witnesses of a schedule of existing ones. -/
theorem scheduledWitnesses_ok (hdb : db.overview.Seated) :
    ∃ active, db.scheduledWitnesses = .ok active ∧ active ≠ [] := by
  have hfound : ∀ seats : List Nat, (∀ i ∈ seats, i < db.wso.numScheduledWitnesses) →
      ∃ active, List.Forall₂ (fun i w =>
        db.witnesses.find? (db.wso.currentShuffledWitnesses.getD i "") = some w) seats active := by
    intro seats hseats
    induction seats with
    | nil => exact ⟨[], .nil⟩
    | cons i rest ih =>
        have hseat := hdb.announced i (hseats i List.mem_cons_self)
        rw [announced_isSome, Option.isSome_iff_exists] at hseat
        obtain ⟨w, hw⟩ := hseat
        obtain ⟨active, hactive⟩ := ih fun j hj => hseats j (List.mem_cons_of_mem _ hj)
        exact ⟨w :: active, .cons hw hactive⟩
  obtain ⟨active, hactive⟩ := hfound (List.range db.wso.numScheduledWitnesses)
    fun i hi => List.mem_range.mp hi
  refine ⟨active, scheduledWitnesses_eq_ok.mpr hactive, fun hnil => ?_⟩
  have hlength := hactive.length_eq
  rw [hnil, List.length_range, List.length_nil] at hlength
  exact absurd hdb.pos (by change ¬ 0 < db.wso.numScheduledWitnesses; omega)

/-- What a new schedule needs: a seat for every witness, and properties that pass the checks. -/
structure Schedulable (db : Database) : Prop where
  ready : db.Ready
  seated : db.overview.Seated
  publish : db.overview.Publish ChainProperties.SubsidiesValid

theorem Schedulable.timed {timed : Database} (hdb : db.Schedulable)
    (h : Keeps Overview.besideVirtualTime db timed) :
    timed.Ready ∧ timed.overview.Publish ChainProperties.SubsidiesValid ∧
      ∃ scheduled, timed.scheduledWitnesses = .ok scheduled := by
  have hannounced := congrArg Overview.announced h.seen
  have hnum := congrArg (fun v : Overview => v.wso.numScheduledWitnesses) h.seen
  have hnames := congrArg (fun v : Overview => v.wso.currentShuffledWitnesses) h.seen
  have hvoted := congrArg (fun v : Overview => v.wso.maxVotedWitnesses) h.seen
  change timed.wso.numScheduledWitnesses = db.wso.numScheduledWitnesses at hnum
  change timed.wso.currentShuffledWitnesses = db.wso.currentShuffledWitnesses at hnames
  change timed.wso.maxVotedWitnesses = db.wso.maxVotedWitnesses at hvoted
  change timed.overview.announced = db.overview.announced at hannounced
  have hseated : timed.overview.Seated := by
    constructor
    · change timed.wso.maxVotedWitnesses ≤ _
      rw [hvoted]
      exact hdb.seated.voted
    · change 0 < timed.wso.numScheduledWitnesses
      rw [hnum]
      exact hdb.seated.pos
    · change ∀ i < timed.wso.numScheduledWitnesses,
        (timed.overview.announced (timed.wso.currentShuffledWitnesses.getD i "")).isSome
      rw [hnum, hnames, hannounced]
      exact hdb.seated.announced
  obtain ⟨scheduled, hscheduled, -⟩ := scheduledWitnesses_ok hseated
  exact ⟨h.ready hdb.ready, hdb.publish.congr hannounced, scheduled, hscheduled⟩

/-- The witnesses can start their next laps. -/
theorem Schedulable.lapped (hdb : db.Schedulable) : ∃ timed time, Lapped db timed time := by
  have hprocessed : ∀ row ∈ db.runners.1, row.2.Ready := by
    rintro ⟨name, w⟩ hrow
    have hmem := db.witnessesByScheduleTime_perm.mem_iff.mp (mem_processed hrow)
    exact hdb.ready name w (Store.mem_rows_iff.mp hmem)
  obtain ⟨⟨advanced, overflows⟩, hadvanced⟩ := startLaps_ok db.newVirtualTime hprocessed db.chosen
  cases overflows with
  | true =>
      have hkeeps := db.chosen_quiet.trans (startLaps_quiet _ _ _ hadvanced)
      obtain ⟨timed, hreset⟩ := resetVirtualScheduleTime_ok (hkeeps.ready hdb.ready)
      exact ⟨timed, 0, .overflow hadvanced hreset⟩
  | false => exact ⟨advanced, _, .advanced hadvanced⟩

/-- The part of `update_witness_schedule` after the virtual times. -/
theorem Schedulable.finish {timed : Database} {time : Nat} (hdb : db.Schedulable)
    (h : Lapped db timed time)
    (hactive : db.activeWitnesses.length = min blurtMaxWitnesses db.witnesses.rows.length) :
    ∃ scheduled next, timed.scheduledWitnesses = .ok scheduled ∧
      ({ timed with
          hardforks := timed.hardforks.schedule (countHardforkVotes db.wso scheduled)
          wso := db.newSchedule timed time scheduled } : Database).updateMedianWitnessProps =
        .ok next := by
  obtain ⟨hready, hpublish, scheduled, hscheduled⟩ := hdb.timed h.keeps
  have hpos : 0 < db.activeWitnesses.length := by
    have hrows := Overview.Seated.witnesses_pos hdb.seated
    rw [hactive, blurtMaxWitnesses]
    omega
  have hseated := (h.rescheduled hactive hscheduled).seated hdb.seated hpos
    (timed.hardforks.schedule (countHardforkVotes db.wso scheduled))
  obtain ⟨active, hnext, hne⟩ := scheduledWitnesses_ok hseated
  obtain ⟨next, hmedian⟩ := updateMedianWitnessProps_ok hnext hne hpublish hready
  exact ⟨scheduled, next, hscheduled, hmedian⟩

/-- A new schedule is made if and only if there are enough witnesses that can sign, or all can. -/
theorem Schedulable.update_ok_iff (hdb : db.Schedulable)
    (hhead : db.dgp.headBlockNumber % blurtMaxWitnesses = 0) :
    (∃ next, db.updateWitnessSchedule = .ok next) ↔
      blurtMaxWitnesses ≤ db.signers ∨ db.signers = db.witnesses.rows.length := by
  have hle : db.signers ≤ db.witnesses.rows.length := List.countP_le_length
  have hcount : db.activeWitnesses.length = min blurtMaxWitnesses db.witnesses.rows.length ↔
      blurtMaxWitnesses ≤ db.signers ∨ db.signers = db.witnesses.rows.length := by
    rw [activeWitnesses_length hdb.seated.voted]
    omega
  rw [← hcount]
  constructor
  · rintro ⟨next, h⟩
    obtain ⟨hround, -⟩ | ⟨-, timed, scheduled, wso, hnew, -⟩ := updateWitnessSchedule_spec h
    · exact absurd hhead hround
    · exact hnew.active
  · intro hactive
    obtain ⟨timed, time, hlapped⟩ := hdb.lapped
    obtain ⟨scheduled, next, hscheduled, hnext⟩ := hdb.finish hlapped hactive
    exact ⟨next, (updateWitnessSchedule_eq_ok hhead).mpr
      ⟨timed, time, scheduled, hlapped, hactive, hscheduled, hnext⟩⟩

/-! ## Every run -/

/-- Every part of a block leaves the witnesses ready. -/
theorem ready_blockInvariant (host : Host) : BlockInvariant host anyOperation Ready where
  quiet _ _ hquiet h := hquiet.ready h
  start _ timestamp _ h := (startHardforks_keeps timestamp).mono fun _ hkeeps => hkeeps.ready h
  signer _ _ h := h
  extension _ name extension h :=
    (visitExtension_keeps name extension).mono fun _ hkeeps => hkeeps.ready h
  operation _ op _ _ h := (applyOperation_keeps host op).mono fun _ hkeeps => hkeeps.ready h
  clock _ _ _ h := h
  schedule _ h := updateWitnessSchedule_keeps.mono fun _ hkeeps => hkeeps.ready h
  recovery _ h := accountRecoveryProcessing_keeps.mono fun _ hkeeps => hkeeps.ready h
  hardforks _ h := processHardforks_keeps.mono fun _ hkeeps => hkeeps.ready h

theorem initGenesis_schedulable (args : GenesisArgs) :
    Always (initGenesis args) Schedulable := by
  intro db hgenesis
  obtain ⟨⟨hinitial, hready⟩, hregistered⟩ := initGenesis_initial args db hgenesis
  obtain ⟨rd, witnessRd, hwso⟩ := hinitial.schedule
  have hvoted : db.wso.maxVotedWitnesses = blurtMaxVotedWitnessesHf17 :=
    congrArg WitnessSchedule.maxVotedWitnesses hwso
  have hnum : db.wso.numScheduledWitnesses = 1 := congrArg WitnessSchedule.numScheduledWitnesses hwso
  have hnames : db.wso.currentShuffledWitnesses = scheduleEntries [blurtInitMinerName] :=
    congrArg WitnessSchedule.currentShuffledWitnesses hwso
  refine ⟨hready, ⟨?_, ?_, ?_⟩, initGenesis_publish subsidiesValid_rule args db hgenesis⟩
  · change db.wso.maxVotedWitnesses ≤ _
    rw [hvoted]
    decide
  · change 0 < db.wso.numScheduledWitnesses
    rw [hnum]
    decide
  · change ∀ i < db.wso.numScheduledWitnesses,
      (db.overview.announced (db.wso.currentShuffledWitnesses.getD i "")).isSome
    intro i hi
    rw [hnum, Nat.lt_one_iff] at hi
    rw [hi, hnames, announced_isSome]
    exact hregistered 0 (by decide)

/-- What a block brings to `update_witness_schedule`. -/
theorem Schedulable.returned {b : LedgerBlock} (hdb : db.Schedulable) :
    Always (beforeSchedule host db b) Schedulable := by
  intro returned hreturned
  have hready := (ready_blockInvariant host).toOpeningInvariant.returned hdb.ready b.only_any
  have hseated := (seated_blockInvariant host).toOpeningInvariant.returned hdb.seated b.only_any
  have hpublish := (publish_blockInvariant host subsidiesValid_rule).toOpeningInvariant.returned
    hdb.publish b.only_any
  exact ⟨hready _ hreturned, hseated _ hreturned, hpublish _ hreturned⟩

theorem Schedulable.applyBlock {b : LedgerBlock} (hdb : db.Schedulable) :
    Always (applyBlock host db b) Schedulable := by
  intro db' happly
  have hready := (ready_blockInvariant host).applyBlock hdb.ready b.only_any _ happly
  have hseated := (seated_blockInvariant host).applyBlock hdb.seated b.only_any _ happly
  have hpublish := (publish_blockInvariant host subsidiesValid_rule).applyBlock hdb.publish
    b.only_any _ happly
  exact ⟨hready, hseated, hpublish⟩

theorem reachable_schedulable (h : Reachable host db) : db.Schedulable := by
  induction h with
  | genesis hgenesis => exact initGenesis_schedulable _ _ hgenesis
  | block _ happly ih => exact ih.applyBlock _ happly

/-- In every reachable database that comes to the end of a round, the schedule can be rebuilt
if and only if `BLURT_MAX_WITNESSES` witnesses can sign, or all of them can. -/
theorem returned_schedule_iff {b : LedgerBlock} {returned : Database}
    (h : Reachable host db) (hreturned : beforeSchedule host db b = .ok returned)
    (hround : returned.dgp.headBlockNumber % blurtMaxWitnesses = 0) :
    (∃ next, returned.updateWitnessSchedule = .ok next) ↔
      blurtMaxWitnesses ≤ returned.signers ∨ returned.signers = returned.witnesses.rows.length :=
  ((reachable_schedulable h).returned _ hreturned).update_ok_iff hround

end Database

namespace Sample

open Database

/-- A last block of the first round in which the second initial witness publishes `key`. -/
def lastOfRound (key : PublicKey) : LedgerBlock where
  timestamp := blurtGenesisTime + 63
  witness := blurtInitMinerName
  transactions := [
    { trx :=
        { operations := [.witnessUpdate
            { owner := initMinerName 1
              url := "second"
              blockSigningKey := key
              props := { accountCreationFee := 1, feeIsCanon := true, maximumBlockSize := 131072 }
              fee := .blurt 0 }]
          packSize := 200 }
      sigs := [1] }]
  packSize := 400

/-- The database that comes to the end of the first round. -/
def endOfRound (key : PublicKey) : Except String Database := do
  let last ← afterBlocks freshChain ((List.range 20).map quietBlock)
  beforeSchedule plainHost last (lastOfRound key)

theorem endOfRound_reached {key : PublicKey} {returned : Database}
    (h : endOfRound key = .ok returned) :
    ∃ db, Reachable plainHost db ∧
      beforeSchedule plainHost db (lastOfRound key) = .ok returned := by
  simp only [endOfRound, bind_eq_ok] at h
  obtain ⟨last, hlast, hreturned⟩ := h
  exact ⟨last, afterBlocks_reachable hlast, hreturned⟩

/-- The number of witnesses that can sign, of all witnesses and of blocks at the end of the
first round, and whether the schedule can be rebuilt. -/
def roundOutcome (key : PublicKey) : Option (Nat × Nat × Nat × Bool) :=
  (endOfRound key).toOption.map fun returned =>
    (returned.signers, returned.witnesses.rows.length, returned.dgp.headBlockNumber,
      returned.updateWitnessSchedule.toOption.isSome)

theorem roundOutcome_spec {key : PublicKey} {signers registered head : Nat} {rebuilt : Bool}
    (h : roundOutcome key = some (signers, registered, head, rebuilt)) :
    ∃ db returned, Reachable plainHost db ∧
      beforeSchedule plainHost db (lastOfRound key) = .ok returned ∧
      returned.signers = signers ∧ returned.witnesses.rows.length = registered ∧
      returned.dgp.headBlockNumber = head ∧
      returned.updateWitnessSchedule.toOption.isSome = rebuilt := by
  cases hround : endOfRound key with
  | error message =>
      rw [roundOutcome, hround] at h
      cases h
  | ok returned =>
      obtain ⟨db, hreachable, hreturned⟩ := endOfRound_reached hround
      rw [roundOutcome, hround] at h
      cases h
      exact ⟨db, returned, hreachable, hreturned, rfl, rfl, rfl, rfl⟩

theorem roundOutcome_signing : roundOutcome 1 = some (21, 21, 21, true) := by
  decide +kernel

/-- The initial witnesses all sign, and the schedule is rebuilt. -/
theorem signing_schedule_rebuilt : ∃ returned next : Database,
    returned.dgp.headBlockNumber % blurtMaxWitnesses = 0 ∧
      returned.updateWitnessSchedule = .ok next := by
  obtain ⟨db, returned, hreachable, hreturned, hsigners, hregistered, hhead, -⟩ :=
    roundOutcome_spec roundOutcome_signing
  have hround : returned.dgp.headBlockNumber % blurtMaxWitnesses = 0 := by
    rw [hhead]
    decide
  obtain ⟨next, hnext⟩ := (returned_schedule_iff hreachable hreturned hround).mpr
    (.inr (by rw [hsigners, hregistered]))
  exact ⟨returned, next, hround, hnext⟩

/-- One of the initial witnesses resigns, and the schedule cannot be rebuilt. -/
theorem resigned_schedule_stops : ∃ db returned : Database, Reachable plainHost db ∧
    beforeSchedule plainHost db (lastOfRound 0) = .ok returned ∧
    returned.dgp.headBlockNumber % blurtMaxWitnesses = 0 ∧ 0 < returned.signers ∧
    ∀ next, returned.updateWitnessSchedule ≠ .ok next := by
  have houtcome : roundOutcome 0 = some (20, 21, 21, false) := by decide +kernel
  obtain ⟨db, returned, hreachable, hreturned, hsigners, -, hhead, hfailed⟩ :=
    roundOutcome_spec houtcome
  refine ⟨db, returned, hreachable, hreturned, ?_, ?_, fun next hnext => ?_⟩
  · rw [hhead]
    decide
  · rw [hsigners]
    decide
  · rw [hnext] at hfailed
    cases hfailed

end Sample

end Ledger

end Blurt
