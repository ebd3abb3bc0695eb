import Blurt.Ledger.ScheduleProgress

/-! # Who is in a new schedule

A new schedule consists of the witnesses with the most votes and of the witness whose virtual
time comes first among the others. The shuffle only changes their order.
-/

namespace Blurt

namespace Ledger

open Outcome

/-! ## The shuffle -/

theorem swapEntries_perm {names : List AccountName} {i j : Nat} (hi : i < names.length)
    (hj : j < names.length) : (swapEntries names i j).Perm names := by
  rw [swapEntries, List.getD_eq_getElem?_getD, List.getD_eq_getElem?_getD,
    List.getElem?_eq_getElem hi, List.getElem?_eq_getElem hj, Option.getD_some, Option.getD_some]
  exact List.set_set_perm hi hj

theorem take_swapEntries {names : List AccountName} {i j count : Nat} (hi : i < count)
    (hj : j < count) : (swapEntries names i j).take count = swapEntries (names.take count) i j := by
  have hget : ∀ k < count, (names.take count).getD k "" = names.getD k "" := by
    intro k hk
    rw [List.getD_eq_getElem?_getD, List.getD_eq_getElem?_getD, List.getElem?_take_of_lt hk]
  rw [swapEntries, swapEntries, hget i hi, hget j hj, List.take_set, List.take_set]

/-- The shuffle of the first `count` names is a permutation of them. -/
theorem shuffle_perm (time : Nat) {count : Nat} {names : List AccountName}
    (hcount : count ≤ names.length) :
    ((shuffle time count names).take count).Perm (names.take count) := by
  unfold shuffle
  refine List.foldlRecOn (motive := fun shuffled : List AccountName =>
    (shuffled.take count).Perm (names.take count)) _ _ (.refl _) ?_
  intro shuffled hshuffled i hi
  have hi := List.mem_range.mp hi
  have hword : shuffleWord time i % (count - i) < count - i := Nat.mod_lt _ (by omega)
  have hlength : (shuffled.take count).length = count := by
    rw [hshuffled.length_eq, List.length_take, min_eq_left hcount]
  rw [take_swapEntries hi (by omega)]
  exact (swapEntries_perm (by omega) (by omega)).trans hshuffled

/-! ## The chosen witnesses -/

/-- The first rows of a sorted list come before the others. -/
theorem pairwise_take {β : Type*} {le : β → β → Prop} {rows : List β} (h : rows.Pairwise le)
    {k : Nat} {x y : β} (hx : x ∈ rows.take k) (hy : y ∈ rows) (hlate : y ∉ rows.take k) :
    le x y := by
  rw [← List.take_append_drop k rows] at h hy
  rcases List.mem_append.mp hy with hy | hy
  · exact absurd hy hlate
  · exact (List.pairwise_append.mp h).2.2 x hx y hy

namespace Database

variable {host : Host} {db db' : Database}

/-- The order of `by_vote_name`. -/
def VotedBefore (x y : AccountName × Witness) : Prop :=
  y.2.votes < x.2.votes ∨ x.2.votes = y.2.votes ∧ x.1 ≤ y.1

/-- The order of `by_schedule_time`. -/
def ScheduledBefore (x y : AccountName × Witness) : Prop :=
  x.2.virtualScheduledTime < y.2.virtualScheduledTime ∨
    x.2.virtualScheduledTime = y.2.virtualScheduledTime ∧ x.2.id ≤ y.2.id

theorem witnessesByVote_pairwise (db : Database) : db.witnessesByVote.Pairwise VotedBefore := by
  have htotal : Std.Total fun x y : AccountName × Witness =>
      y.2.votes < x.2.votes ∨ x.2.votes = y.2.votes ∧ x.1 ≤ y.1 :=
    ⟨fun x y => by
      rcases lt_trichotomy x.2.votes y.2.votes with h | h | h
      · exact .inr (.inl h)
      · exact (le_total x.1 y.1).imp (fun hle => .inr ⟨h, hle⟩) fun hle => .inr ⟨h.symm, hle⟩
      · exact .inl (.inl h)⟩
  have htrans : IsTrans (AccountName × Witness) fun x y =>
      y.2.votes < x.2.votes ∨ x.2.votes = y.2.votes ∧ x.1 ≤ y.1 :=
    ⟨fun x y z hxy hyz => by
      rcases hxy with hxy | ⟨hxy, hname⟩ <;> rcases hyz with hyz | ⟨hyz, hname'⟩
      · exact .inl (hyz.trans hxy)
      · exact .inl (hyz ▸ hxy)
      · exact .inl (hxy ▸ hyz)
      · exact .inr ⟨hxy.trans hyz, hname.trans hname'⟩⟩
  unfold VotedBefore
  exact List.pairwise_insertionSort _ _

theorem witnessesByScheduleTime_pairwise (db : Database) :
    db.witnessesByScheduleTime.Pairwise ScheduledBefore := by
  have htotal : Std.Total fun x y : AccountName × Witness =>
      x.2.virtualScheduledTime < y.2.virtualScheduledTime ∨
        x.2.virtualScheduledTime = y.2.virtualScheduledTime ∧ x.2.id ≤ y.2.id :=
    ⟨fun x y => by omega⟩
  have htrans : IsTrans (AccountName × Witness) fun x y =>
      x.2.virtualScheduledTime < y.2.virtualScheduledTime ∨
        x.2.virtualScheduledTime = y.2.virtualScheduledTime ∧ x.2.id ≤ y.2.id :=
    ⟨fun x y z hxy hyz => by omega⟩
  unfold ScheduledBefore
  exact List.pairwise_insertionSort _ _

/-- A witness with a key that is not elected comes after every elected one. -/
theorem elected_before {x y : AccountName × Witness} (hx : x ∈ db.elected)
    (hy : y ∈ db.witnesses.rows) (hsign : y.2.canSign) (hother : y.1 ∉ db.elected.map (·.1)) :
    VotedBefore x y := by
  refine pairwise_take (db.witnessesByVote_pairwise.filter _) hx ?_ ?_
  · exact List.mem_filter.mpr ⟨db.witnessesByVote_perm.mem_iff.mpr hy, hsign⟩
  · exact fun hy => hother (List.mem_map_of_mem hy)

/-- A seated witness comes before every other with a key that is not elected. -/
theorem seated_before {x y : AccountName × Witness} (hx : x ∈ db.runners.2)
    (hy : y ∈ db.witnesses.rows) (hsign : y.2.canSign) (helected : y.1 ∉ db.elected.map (·.1))
    (hother : y ∉ db.runners.2) : ScheduledBefore x y := by
  rw [runners, runnersUp_seated] at hx hother
  refine pairwise_take (db.witnessesByScheduleTime_pairwise.filter _) hx ?_ hother
  refine List.mem_filter.mpr ⟨db.witnessesByScheduleTime_perm.mem_iff.mpr hy, ?_⟩
  simp only [decide_eq_true_eq]
  exact ⟨hsign, helected⟩

theorem seated_not_elected {row : AccountName × Witness} (h : row ∈ db.runners.2) :
    row.1 ∉ db.elected.map (·.1) := by
  rw [runners, runnersUp_seated] at h
  have hfilter := (List.mem_filter.mp (List.mem_of_mem_take h)).2
  simp only [decide_eq_true_eq] at hfilter
  exact hfilter.2

theorem elected_nodup (db : Database) : (db.elected.map (·.1)).Nodup := by
  have hnodup := Store.ordered_nodup (fun x y : AccountName × Witness =>
    y.2.votes < x.2.votes ∨ (x.2.votes = y.2.votes ∧ x.1 ≤ y.1)) (fun _ _ => true) db.witnesses
  exact hnodup.sublist (((List.take_sublist _ _).trans List.filter_sublist).map _)

theorem seated_nodup (db : Database) : (db.runners.2.map (·.1)).Nodup := by
  have hnodup := Store.ordered_nodup (fun x y : AccountName × Witness =>
    x.2.virtualScheduledTime < y.2.virtualScheduledTime ∨
      (x.2.virtualScheduledTime = y.2.virtualScheduledTime ∧ x.2.id ≤ y.2.id))
    (fun _ _ => true) db.witnesses
  rw [runners, runnersUp_seated]
  exact hnodup.sublist (((List.take_sublist _ _).trans List.filter_sublist).map _)

theorem activeWitnesses_nodup (db : Database) : db.activeWitnesses.Nodup := by
  refine List.nodup_append.mpr ⟨db.elected_nodup, db.seated_nodup, ?_⟩
  rintro name helected other hseated rfl
  obtain ⟨row, hrow, rfl⟩ := List.mem_map.mp hseated
  exact seated_not_elected hrow helected

/-! ## The marks -/

/-- How a witness was chosen for the schedule. -/
def mark (db : Database) (name : AccountName) : Option WitnessScheduleType :=
  (db.witnesses.find? name).map (·.schedule)

theorem find?_modifyWitness (name other : AccountName) (f : Witness → Witness) :
    (db.modifyWitness name f).witnesses.find? other =
      (db.witnesses.find? other).map fun w => if other = name then f w else w := by
  unfold modifyWitness
  split
  · rename_i w hw
    rw [Store.find?_set]
    split
    · rename_i hname
      rw [hname, hw, Option.map_some]
    · simp
  · rename_i hnone
    by_cases hname : other = name
    · rw [hname, hnone, Option.map_none]
    · simp [hname]

theorem modifyWitness_mark {name : AccountName} {f : Witness → Witness}
    (hkeep : ∀ w, (f w).schedule = w.schedule) : (db.modifyWitness name f).mark = db.mark := by
  funext other
  rw [mark, find?_modifyWitness, Option.map_map, mark]
  congr 1
  funext w
  rw [Function.comp_apply]
  split
  · exact hkeep w
  · rfl

theorem markSchedule_mark (schedule : WitnessScheduleType) (rows : List (AccountName × Witness))
    (name : AccountName) : (db.markSchedule schedule rows).mark name =
      (db.mark name).map fun m => if name ∈ rows.map (·.1) then schedule else m := by
  unfold markSchedule
  induction rows generalizing db with
  | nil => simp
  | cons row rest ih =>
      rw [List.foldl_cons, ih, mark, find?_modifyWitness, mark, Option.map_map, Option.map_map,
        Option.map_map]
      congr 1
      funext w
      by_cases hrest : name ∈ rest.map (·.1)
      · simp [hrest]
      · by_cases hrow : name = row.1
        · simp [hrow]
        · simp [hrest, hrow]

theorem startLaps_mark (time : Nat) (rows : List (AccountName × Witness)) :
    Always (startLaps time db rows) fun result => result.1.mark = db.mark := by
  induction rows generalizing db with
  | nil => exact .ok rfl
  | cons row rest ih =>
      rw [startLaps]
      refine .skip fun lap => ?_
      dsimp only
      split
      · exact .pure rfl
      · refine ih.mono fun _ h => h.trans (modifyWitness_mark ?_)
        exact fun _ => rfl

theorem resetVirtualScheduleTime_mark :
    Always db.resetVirtualScheduleTime fun reset => reset.mark = db.mark := by
  refine .forEach rfl fun state row _ h => .skip fun lap => .pure ?_
  refine (modifyWitness_mark ?_).trans h
  exact fun _ => rfl

theorem Lapped.mark {timed : Database} {time : Nat} (h : Lapped db timed time) :
    timed.mark = db.chosen.mark := by
  cases h with
  | advanced h => exact startLaps_mark _ _ _ h
  | overflow h hreset => exact (resetVirtualScheduleTime_mark _ hreset).trans (startLaps_mark _ _ _ h)

theorem chosen_mark_elected {name : AccountName} (h : name ∈ db.elected.map (·.1)) :
    db.chosen.mark name = some .elected := by
  obtain ⟨row, hrow, rfl⟩ := List.mem_map.mp h
  have hnot : row.1 ∉ db.runners.2.map (·.1) := by
    intro hseated
    obtain ⟨other, hother, hsame⟩ := List.mem_map.mp hseated
    exact seated_not_elected hother (hsame ▸ h)
  rw [chosen, markSchedule_mark, markSchedule_mark, Database.mark,
    Store.mem_rows_iff.mp (mem_elected hrow).1, Option.map_some, Option.map_some, Option.map_some,
    if_neg hnot, if_pos h]

theorem chosen_mark_seated {name : AccountName} (h : name ∈ db.runners.2.map (·.1)) :
    db.chosen.mark name = some .timeshare := by
  obtain ⟨row, hrow, rfl⟩ := List.mem_map.mp h
  rw [chosen, markSchedule_mark, markSchedule_mark, Database.mark,
    Store.mem_rows_iff.mp (mem_seated hrow).1, Option.map_some, Option.map_some, Option.map_some,
    if_pos h]

/-! ## The seats -/

/-- The first `num_scheduled_witnesses` entries of `current_shuffled_witnesses`. -/
def seats (db : Database) : List AccountName :=
  db.wso.currentShuffledWitnesses.take db.wso.numScheduledWitnesses

/-- The seats of the witnesses that were chosen in one of the ways. -/
def seatsOf (db : Database) (schedule : WitnessScheduleType) : List AccountName :=
  db.seats.filter fun name => db.mark name = some schedule

/-- What an update at the end of a round leaves for the next. -/
structure Reseated (db next : Database) : Prop where
  names : next.wso.currentShuffledWitnesses =
    shuffle db.dgp.time (max db.activeWitnesses.length 1) (scheduleEntries db.activeWitnesses)
  num : next.wso.numScheduledWitnesses = max db.activeWitnesses.length 1
  factor : next.wso.witnessPayNormalizationFactor =
    next.wso.electedWeight * db.elected.length + next.wso.timeshareWeight * db.runners.2.length
  voted : next.wso.maxVotedWitnesses = db.wso.maxVotedWitnesses
  marks : next.mark = db.chosen.mark
  signing : ∀ row ∈ db.witnesses.rows, row.2.canSign →
    ∃ w, next.witnesses.find? row.1 = some w ∧ w.signingKey ≠ 0

/-- A schedule of the witnesses with the most votes and of one runner-up. -/
structure ScheduleOf (db next : Database) (elected : List AccountName) (runner : AccountName) :
    Prop where
  distinct : next.seats.Nodup
  full : next.seats.length = next.wso.numScheduledWitnesses
  signing : ∀ name ∈ next.seats, ∃ w, next.witnesses.find? name = some w ∧ w.signingKey ≠ 0
  selected : next.seats.Perm (elected ++ [runner])
  highest : elected.length = next.wso.maxVotedWitnesses
  voted : ∀ x ∈ db.witnesses.rows, ∀ y ∈ db.witnesses.rows, x.1 ∈ elected →
    y.2.signingKey ≠ 0 → y.1 ∉ elected → VotedBefore x y
  other : runner ∉ elected
  least : ∀ x ∈ db.witnesses.rows, ∀ y ∈ db.witnesses.rows, x.1 = runner →
    y.2.signingKey ≠ 0 → y.1 ∉ elected → ScheduledBefore x y
  marked : (next.seatsOf .elected).Perm elected ∧ (next.seatsOf .timeshare).Perm [runner]
  factor : next.wso.witnessPayNormalizationFactor =
    next.wso.electedWeight * (next.seatsOf .elected).length +
      next.wso.timeshareWeight * (next.seatsOf .timeshare).length

/-- The scheduler always takes as many witnesses by votes, and the initial witnesses stay
registered. -/
structure Staffed (db : Database) : Prop where
  voted : db.wso.maxVotedWitnesses = blurtMaxVotedWitnessesHf17
  registered : ∀ i < blurtMaxWitnesses, (db.overview.announced (initMinerName i)).isSome

theorem Staffed.mono (h : db.Staffed) (hwso : db'.wso.maxVotedWitnesses = db.wso.maxVotedWitnesses)
    (hmore : ∀ name, (db.overview.announced name).isSome → (db'.overview.announced name).isSome) :
    db'.Staffed where
  voted := hwso.trans h.voted
  registered i hi := hmore _ (h.registered i hi)

theorem Staffed.congr (h : db.Staffed) (hwso : db'.wso.maxVotedWitnesses = db.wso.maxVotedWitnesses)
    (hsame : db'.overview.announced = db.overview.announced) : db'.Staffed :=
  h.mono hwso fun name hname => by rwa [hsame]

/-- No block takes an initial witness away. -/
theorem staffed_blockInvariant (host : Host) : BlockInvariant host anyOperation Staffed where
  quiet db db' hquiet h := by
    have hwso := congrArg (fun v : Overview => v.wso.maxVotedWitnesses) hquiet.seen
    exact h.congr hwso (congrArg Overview.announced hquiet.seen)
  start db timestamp _ h := by
    intro db' hstart
    have hkeeps := (startHardforks_keeps timestamp db' hstart).seen
    have hwso := congrArg (fun v : Overview => v.wso.maxVotedWitnesses) hkeeps
    exact h.congr hwso (startHardforks_announced timestamp db' hstart).seen
  signer db name h := ⟨h.voted, h.registered⟩
  extension db name extension h := by
    intro db' hvisit
    have hkeeps := (visitExtension_keeps name extension db' hvisit).seen
    have hwso := congrArg (fun v : Overview => v.wso.maxVotedWitnesses) hkeeps
    exact h.congr hwso (visitExtension_announced name extension db' hvisit).seen
  operation db op _ hvalid h := by
    refine (operation_announced hvalid).mono fun db' ⟨hwso, hmore⟩ => h.mono ?_ hmore
    rw [hwso]
  clock db b _ h := ⟨h.voted, h.registered⟩
  schedule db h := by
    intro db' hschedule
    have hannounced := congrArg Overview.announced (updateWitnessSchedule_keeps db' hschedule).seen
    refine h.congr ?_ hannounced
    obtain ⟨-, rfl⟩ | ⟨-, timed, scheduled, wso, hnew, hmedian⟩ :=
      updateWitnessSchedule_spec hschedule
    · rfl
    · obtain ⟨_, _, _, _, -, -, rfl⟩ := updateMedianWitnessProps_spec hmedian
      exact hnew.voted
  recovery db h := by
    refine accountRecoveryProcessing_keeps.mono fun db' hkeeps => ?_
    have hwso := congrArg (fun v : Overview => v.wso.maxVotedWitnesses) hkeeps.seen
    have hannounced := congrArg Overview.announced hkeeps.seen
    exact h.congr hwso hannounced
  hardforks db h := by
    refine processHardforks_keeps.mono fun db' hkeeps => ?_
    have hwso := congrArg (fun v : Overview => v.wso.maxVotedWitnesses) hkeeps.seen
    have hannounced := congrArg Overview.announced hkeeps.seen
    exact h.congr hwso hannounced

theorem initGenesis_staffed (args : GenesisArgs) : Always (initGenesis args) Staffed := by
  intro db hgenesis
  obtain ⟨⟨hinitial, -⟩, hregistered⟩ := initGenesis_initial args db hgenesis
  obtain ⟨rd, witnessRd, hwso⟩ := hinitial.schedule
  refine ⟨congrArg WitnessSchedule.maxVotedWitnesses hwso, fun i hi => ?_⟩
  rw [announced_isSome]
  exact hregistered i hi

theorem reachable_staffed (h : Reachable host db) : db.Staffed := by
  induction h with
  | genesis hgenesis => exact initGenesis_staffed _ _ hgenesis
  | block _ happly ih =>
      exact (staffed_blockInvariant host).applyBlock ih (LedgerBlock.only_any _) _ happly

theorem initMinerName_nodup : ((List.range blurtMaxWitnesses).map initMinerName).Nodup := by
  decide +kernel

/-- There are at least as many witnesses as a schedule has seats. -/
theorem Staffed.rows_length (h : db.Staffed) : blurtMaxWitnesses ≤ db.witnesses.rows.length := by
  have hsubset : (List.range blurtMaxWitnesses).map initMinerName ⊆ db.witnesses.rows.map (·.1) := by
    intro name hname
    obtain ⟨i, hi, rfl⟩ := List.mem_map.mp hname
    have hfound := h.registered i (List.mem_range.mp hi)
    rw [announced_isSome, Option.isSome_iff_exists] at hfound
    obtain ⟨w, hw⟩ := hfound
    exact List.mem_map.mpr ⟨(initMinerName i, w), Store.mem_rows_iff.mpr hw, rfl⟩
  have hlength := (initMinerName_nodup.subperm hsubset).length_le
  simpa using hlength

/-- A witness with a key keeps it in a new lap. -/
theorem Lapped.signing {timed : Database} {time : Nat} (h : Lapped db timed time)
    {row : AccountName × Witness} (hrow : row ∈ db.witnesses.rows) (hsign : row.2.canSign) :
    ∃ w, timed.witnesses.find? row.1 = some w ∧ w.signingKey ≠ 0 := by
  have hannounced := congrArg Overview.announced h.keeps.seen
  change timed.overview.announced = db.overview.announced at hannounced
  have hname := congrFun hannounced row.1
  rw [announced_overview, announced_overview, Store.mem_rows_iff.mp hrow, Option.map_some,
    Option.map_eq_some_iff] at hname
  obtain ⟨w, hw, hsame⟩ := hname
  refine ⟨w, hw, ?_⟩
  rw [(Prod.mk.inj hsame).1]
  simpa [Witness.canSign] using hsign

theorem updateWitnessSchedule_reseated (hround : db.dgp.headBlockNumber % blurtMaxWitnesses = 0)
    (h : db.updateWitnessSchedule = .ok db') :
    db.activeWitnesses.length = min blurtMaxWitnesses db.witnesses.rows.length ∧
      Reseated db db' := by
  obtain ⟨hother, -⟩ | ⟨-, timed, time, scheduled, hlapped, hactive, -, hmedian⟩ :=
    updateWitnessSchedule_lapped h
  · exact absurd hround hother
  obtain ⟨_, _, _, _, -, -, rfl⟩ := updateMedianWitnessProps_spec hmedian
  have helected := congrArg (fun v => v.wso.electedWeight) hlapped.keeps.seen
  have htimeshare := congrArg (fun v => v.wso.timeshareWeight) hlapped.keeps.seen
  have hvoted := congrArg (fun v => v.wso.maxVotedWitnesses) hlapped.keeps.seen
  change timed.wso.electedWeight = db.wso.electedWeight at helected
  change timed.wso.timeshareWeight = db.wso.timeshareWeight at htimeshare
  refine ⟨hactive, ?_⟩
  constructor
  · rfl
  · rfl
  · change db.wso.electedWeight * _ + db.wso.timeshareWeight * _ =
      timed.wso.electedWeight * _ + timed.wso.timeshareWeight * _
    rw [helected, htimeshare]
  · exact hvoted
  · exact hlapped.mark
  · exact fun row hrow hsign => hlapped.signing hrow hsign

/-- The seats are the chosen witnesses in another order. -/
theorem Reseated.seats_perm (h : Reseated db db') (hpos : 0 < db.activeWitnesses.length) :
    db'.seats.Perm db.activeWitnesses := by
  have hlength : db.activeWitnesses.length ≤ (scheduleEntries db.activeWitnesses).length := by
    rw [scheduleEntries, List.length_append]
    omega
  rw [seats, h.names, h.num, max_eq_left hpos]
  refine (shuffle_perm _ hlength).trans ?_
  rw [scheduleEntries, List.take_left]

/-- The names of the schedule with a mark. -/
theorem Reseated.seatsOf_perm (h : Reseated db db') (hpos : 0 < db.activeWitnesses.length) :
    (db'.seatsOf .elected).Perm (db.elected.map (·.1)) ∧
      (db'.seatsOf .timeshare).Perm (db.runners.2.map (·.1)) := by
  have hperm := h.seats_perm hpos
  have helected : ∀ name ∈ db.elected.map (·.1), db'.mark name = some .elected := by
    intro name hname
    rw [h.marks, chosen_mark_elected hname]
  have hseated : ∀ name ∈ db.runners.2.map (·.1), db'.mark name = some .timeshare := by
    intro name hname
    rw [h.marks, chosen_mark_seated hname]
  constructor
  · refine (hperm.filter _).trans ?_
    rw [activeWitnesses, List.filter_append, List.filter_eq_self.mpr, List.filter_eq_nil_iff.mpr,
      List.append_nil]
    · intro name hname
      simp [hseated name hname]
    · simpa using helected
  · refine (hperm.filter _).trans ?_
    rw [activeWitnesses, List.filter_append, List.filter_eq_nil_iff.mpr, List.filter_eq_self.mpr,
      List.nil_append]
    · simpa using hseated
    · intro name hname
      simp [helected name hname]

/-- A full schedule has one seat more than are taken by votes. -/
theorem Staffed.counts (h : db.Staffed)
    (hactive : db.activeWitnesses.length = min blurtMaxWitnesses db.witnesses.rows.length) :
    db.elected.length = db.wso.maxVotedWitnesses ∧ ∃ row, db.runners.2 = [row] := by
  have hsigners := @activeWitnesses_length db (by rw [h.voted]; decide)
  have helected := db.elected_length
  have hseats : db.activeWitnesses.length = db.elected.length + db.runners.2.length := by
    rw [activeWitnesses, List.length_append, List.length_map, List.length_map]
  rw [min_eq_left h.rows_length] at hactive
  rw [← List.length_eq_one_iff]
  rw [h.voted] at helected ⊢
  rw [blurtMaxWitnesses] at hsigners hactive
  rw [blurtMaxVotedWitnessesHf17] at helected ⊢
  omega

/-- Each update at the end of a round seats the witnesses with the most votes and one more. -/
theorem Staffed.scheduleOf (hdb : db.Staffed)
    (hround : db.dgp.headBlockNumber % blurtMaxWitnesses = 0)
    (h : db.updateWitnessSchedule = .ok db') :
    ∃ elected runner, ScheduleOf db db' elected runner := by
  obtain ⟨hactive, hnext⟩ := updateWitnessSchedule_reseated hround h
  obtain ⟨hcount, row, hrow⟩ := hdb.counts hactive
  have hpos : 0 < db.activeWitnesses.length := by
    have hlength := hdb.rows_length
    rw [hactive, blurtMaxWitnesses] at *
    omega
  have hperm := hnext.seats_perm hpos
  have hmarked := hnext.seatsOf_perm hpos
  have hrunner : row ∈ db.runners.2 := hrow ▸ List.mem_singleton_self row
  have hseated : db.runners.2.map (·.1) = [row.1] := by rw [hrow, List.map_singleton]
  have hnames : ∀ x ∈ db.witnesses.rows, ∀ z ∈ db.witnesses.rows, x.1 = z.1 → x = z :=
    fun x hx z hz hname => List.inj_on_of_nodup_map db.witnesses.rows_nodup hx hz hname
  refine ⟨db.elected.map (·.1), row.1, ?_⟩
  constructor
  · exact hperm.nodup_iff.mpr db.activeWitnesses_nodup
  · rw [hperm.length_eq, hnext.num, max_eq_left hpos]
  · intro name hname
    rcases List.mem_append.mp (hperm.mem_iff.mp hname) with hname | hname
    · obtain ⟨x, hx, rfl⟩ := List.mem_map.mp hname
      exact hnext.signing x (mem_elected hx).1 (mem_elected hx).2
    · obtain ⟨x, hx, rfl⟩ := List.mem_map.mp hname
      exact hnext.signing x (mem_seated hx).1 (mem_seated hx).2
  · rwa [activeWitnesses, hseated] at hperm
  · rw [List.length_map, hcount, hnext.voted]
  · intro x hx y hy hname hkey hother
    obtain ⟨z, hz, hsame⟩ := List.mem_map.mp hname
    rw [hnames x hx z (mem_elected hz).1 hsame.symm]
    exact elected_before hz hy (by simpa [Witness.canSign] using hkey) hother
  · exact seated_not_elected hrunner
  · intro x hx y hy hname hkey hother
    rw [hnames x hx row (mem_seated hrunner).1 hname]
    by_cases hsame : y = row
    · exact .inr (by rw [hsame]; exact ⟨rfl, le_rfl⟩)
    · refine seated_before hrunner hy (by simpa [Witness.canSign] using hkey) hother ?_
      rw [hrow, List.mem_singleton]
      exact hsame
  · rwa [hseated] at hmarked
  · rw [hnext.factor, hmarked.1.length_eq, hmarked.2.length_eq, List.length_map, List.length_map]

/-- In every reachable database that comes to the end of a round, a completed update seats the
witnesses with the most votes and the runner-up with the least virtual time. -/
theorem reachable_scheduleOf {b : LedgerBlock} {returned next : Database}
    (h : Reachable host db) (hreturned : beforeSchedule host db b = .ok returned)
    (hround : returned.dgp.headBlockNumber % blurtMaxWitnesses = 0)
    (hnext : returned.updateWitnessSchedule = .ok next) :
    ∃ elected runner, ScheduleOf returned next elected runner := by
  have hopening := (staffed_blockInvariant host).toOpeningInvariant
  have hstaffed := hopening.returned (reachable_staffed h) b.only_any _ hreturned
  exact hstaffed.scheduleOf hround hnext

end Database

namespace Sample

open Database

/-- The first schedule of the chain, at the end of the first round. -/
theorem first_schedule : ∃ returned next : Database,
    returned.updateWitnessSchedule = .ok next ∧
      ∃ elected runner, ScheduleOf returned next elected runner := by
  obtain ⟨db, returned, hreachable, hreturned, -, -, hhead, hrebuilt⟩ :=
    roundOutcome_spec roundOutcome_signing
  have hround : returned.dgp.headBlockNumber % blurtMaxWitnesses = 0 := by
    rw [hhead]
    decide
  cases hnext : returned.updateWitnessSchedule with
  | error message =>
      rw [hnext] at hrebuilt
      cases hrebuilt
  | ok next => exact ⟨returned, next, hnext, reachable_scheduleOf hreachable hreturned hround hnext⟩

end Sample

end Ledger

end Blurt
