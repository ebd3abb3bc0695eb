import Blurt.Ledger.PollsOperations
import Blurt.Ledger.ScheduleOrder

/-! # The polls over a chain of blocks

Every block is a run of the machine of votes.
-/

namespace Blurt

namespace Ledger

open Outcome

namespace Database

variable {host : Host} {db db' : Database}

/-! ## Laps -/

theorem modifyWitness_same (name : AccountName) (f : Witness → Witness) :
    ∃ witnesses, db.modifyWitness name f = { db with witnesses } := by
  unfold modifyWitness
  split
  · exact ⟨_, rfl⟩
  · exact ⟨db.witnesses, rfl⟩

theorem markSchedule_same (schedule : WitnessScheduleType) (rows : List (AccountName × Witness)) :
    ∃ witnesses, db.markSchedule schedule rows = { db with witnesses } := by
  unfold markSchedule
  induction rows generalizing db with
  | nil => exact ⟨db.witnesses, rfl⟩
  | cons row rest ih =>
      obtain ⟨first, hfirst⟩ := @modifyWitness_same db row.1 fun w => { w with schedule }
      obtain ⟨witnesses, hrest⟩ := @ih (db.modifyWitness row.1 fun w => { w with schedule })
      rw [List.foldl_cons, hrest, hfirst]
      exact ⟨witnesses, rfl⟩

theorem startLaps_same (time : Nat) (rows : List (AccountName × Witness)) :
    Always (startLaps time db rows) fun result => ∃ witnesses, result.1 = { db with witnesses } := by
  induction rows generalizing db with
  | nil => exact .ok ⟨db.witnesses, rfl⟩
  | cons row rest ih =>
      rw [startLaps]
      refine .skip fun lap => ?_
      dsimp only
      split
      · exact .pure ⟨db.witnesses, rfl⟩
      · refine ih.mono fun result hrest => ?_
        obtain ⟨witnesses, hresult⟩ := hrest
        obtain ⟨first, hfirst⟩ := @modifyWitness_same db row.1 fun w => { w with
          virtualPosition := 0
          virtualLastUpdate := time
          virtualScheduledTime := UInt128.wrap (time + lap) }
        rw [hresult, hfirst]
        exact ⟨witnesses, rfl⟩

/-- A processed witness starts a lap, and the others keep their clocks. -/
theorem startLaps_clocks (time : Nat) {rows : List (AccountName × Witness)}
    (hrows : ∀ row ∈ rows, ∀ w, db.witnesses.find? row.1 = some w → w.votes = row.2.votes) :
    Always (startLaps time db rows) fun result => ∀ name v, result.1.witnesses.find? name = some v →
      ∃ w, db.witnesses.find? name = some w ∧ v.votes = w.votes ∧ (result.2 = false →
        v.clock = w.clock ∧ name ∉ rows.map (·.1) ∨ w.clock.StartsLap time v.clock) := by
  induction rows generalizing db with
  | nil => exact .ok fun name v hv => ⟨v, hv, rfl, fun _ => .inl ⟨rfl, List.not_mem_nil⟩⟩
  | cons row rest ih =>
      rw [startLaps]
      intro result hresult
      obtain ⟨lap, hlap, hresult⟩ := bind_eq_ok.mp hresult
      dsimp only at hresult
      split at hresult
      · cases hresult
        exact fun name v hv => ⟨v, hv, rfl, fun h => Bool.noConfusion h⟩
      · rename_i hdue
        let update : Witness → Witness := fun w => { w with
          virtualPosition := 0
          virtualLastUpdate := time
          virtualScheduledTime := UInt128.wrap (time + lap) }
        have hfind := fun name => @find?_modifyWitness db row.1 name update
        have hrest : ∀ other ∈ rest, ∀ w,
            (db.modifyWitness row.1 update).witnesses.find? other.1 = some w →
              w.votes = other.2.votes := by
          intro other hother w hw
          rw [hfind, Option.map_eq_some_iff] at hw
          obtain ⟨u, hu, rfl⟩ := hw
          have hvotes := hrows other (List.mem_cons_of_mem _ hother) u hu
          split
          · exact hvotes
          · exact hvotes
        intro name v hv
        obtain ⟨w, hw, hvotes, hclock⟩ := ih hrest result hresult name v hv
        rw [hfind, Option.map_eq_some_iff] at hw
        obtain ⟨u, hu, rfl⟩ := hw
        by_cases hname : name = row.1
        · rw [if_pos hname] at hvotes hclock
          refine ⟨u, hu, hvotes, fun hdone => .inr ?_⟩
          have hlaps : u.clock.StartsLap time (update u).clock := by
            refine ⟨lap, ?_, not_lt.mp hdue, rfl⟩
            rw [← hlap, Witness.lapTime, ← hrows row List.mem_cons_self u (hname ▸ hu)]
            rfl
          rcases hclock hdone with ⟨hsame, -⟩ | hagain
          · rwa [hsame]
          · exact hagain
        · rw [if_neg hname] at hvotes hclock
          refine ⟨u, hu, hvotes, fun hdone => ?_⟩
          rcases hclock hdone with ⟨hsame, hother⟩ | hagain
          · refine .inl ⟨hsame, ?_⟩
            simp only [List.map_cons, List.mem_cons, not_or]
            exact ⟨hname, hother⟩
          · exact .inr hagain

/-- A reset starts a lap of every witness at time 0. -/
theorem resetVirtualScheduleTime_eq (h : db.resetVirtualScheduleTime = .ok db') :
    startLaps 0 { db with wso := { db.wso with currentVirtualTime := 0 } } db.witnesses.rows =
      .ok (db', false) := by
  unfold resetVirtualScheduleTime at h
  generalize ({ db with wso := { db.wso with currentVirtualTime := 0 } } : Database) = start at h ⊢
  generalize db.witnesses.rows = rows at h ⊢
  induction rows generalizing start with
  | nil =>
      cases h
      rfl
  | cons row rest ih =>
      obtain ⟨next, hnext, hrest⟩ := forEach_cons_eq_ok.mp h
      obtain ⟨lap, hlap, hnext⟩ := bind_eq_ok.mp hnext
      have hwrap : UInt128.wrap (0 + lap) = lap := by
        rw [Witness.lapTime, UInt128.div_eq_ok] at hlap
        obtain ⟨-, rfl⟩ := hlap
        rw [Nat.zero_add]
        exact Nat.mod_eq_of_lt ((Nat.div_le_self _ _).trans_lt (by decide))
      cases hnext
      rw [startLaps, hlap, ok_bind]
      dsimp only
      rw [hwrap, if_neg (Nat.not_lt_zero _)]
      exact ih _ hrest

theorem resetVirtualScheduleTime_laps (h : db.resetVirtualScheduleTime = .ok db') :
    (∃ witnesses, db' = { db with
        witnesses, wso := { db.wso with currentVirtualTime := 0 } }) ∧
      ∀ name v, db'.witnesses.find? name = some v →
        ∃ w, db.witnesses.find? name = some w ∧ w.clock.StartsLap 0 v.clock := by
  have hlaps := resetVirtualScheduleTime_eq h
  refine ⟨startLaps_same _ _ _ hlaps, fun name v hv => ?_⟩
  have hrows : ∀ row ∈ db.witnesses.rows, ∀ w, db.witnesses.find? row.1 = some w →
      w.votes = row.2.votes := by
    intro row hrow w hw
    cases hw.symm.trans (Store.mem_rows_iff.mp hrow)
    rfl
  let start : Database := { db with wso := { db.wso with currentVirtualTime := 0 } }
  have hclocks := @startLaps_clocks start 0 db.witnesses.rows hrows
  obtain ⟨w, hw, -, hclock⟩ := hclocks _ hlaps name v hv
  refine ⟨w, hw, ?_⟩
  rcases hclock rfl with ⟨-, hnot⟩ | hlap
  · exact absurd (List.mem_map_of_mem (Store.mem_rows_iff.mpr hw)) hnot
  · exact hlap

/-- The processed runners-up are the first in the order of their times. -/
theorem runnersUp_prefix (elected : List AccountName) (free : Nat)
    (rows : List (AccountName × Witness)) : (runnersUp elected free rows).1 <+: rows := by
  induction rows generalizing free with
  | nil =>
      cases free with
      | zero => exact List.prefix_rfl
      | succ free => exact List.prefix_rfl
  | cons row rest ih =>
      cases free with
      | zero => exact List.nil_prefix
      | succ free =>
          rw [runnersUp]
          split
          · exact List.prefix_cons_inj row |>.mpr (ih free)
          · exact List.prefix_cons_inj row |>.mpr (ih (free + 1))

/-- The new time is that of the last processed witness, and no other is due before it. -/
theorem newVirtualTime_spec (db : Database) :
    db.runners.1 = [] ∧ db.newVirtualTime = db.wso.currentVirtualTime ∨
      ∃ last ∈ db.witnesses.rows, db.newVirtualTime = last.2.virtualScheduledTime ∧
        ∀ row ∈ db.witnesses.rows, row ∉ db.runners.1 →
          db.newVirtualTime ≤ row.2.virtualScheduledTime := by
  obtain ⟨later, hlater⟩ := runnersUp_prefix (db.elected.map (·.1))
    (blurtMaxWitnesses - db.elected.length) db.witnessesByScheduleTime
  change db.runners.1 ++ later = db.witnessesByScheduleTime at hlater
  rcases List.eq_nil_or_concat db.runners.1 with hnil | ⟨before, last, hlast⟩
  · refine .inl ⟨hnil, ?_⟩
    rw [newVirtualTime, hnil]
    rfl
  · have htime : db.newVirtualTime = last.2.virtualScheduledTime := by
      rw [newVirtualTime, hlast, List.concat_eq_append, List.getLast?_append]
      rfl
    have hmem : ∀ row, row ∈ db.witnesses.rows ↔ row ∈ db.runners.1 ++ later := by
      intro row
      rw [hlater]
      exact db.witnessesByScheduleTime_perm.mem_iff.symm
    have hprocessed : last ∈ db.runners.1 := by
      rw [hlast]
      simp
    refine .inr ⟨last, (hmem last).mpr (List.mem_append_left _ hprocessed), htime, ?_⟩
    intro row hrow hnot
    have hpairwise := db.witnessesByScheduleTime_pairwise
    rw [← hlater] at hpairwise
    have hrow := (List.mem_append.mp ((hmem row).mp hrow)).resolve_left hnot
    rw [htime]
    rcases (List.pairwise_append.mp hpairwise).2.2 last hprocessed row hrow with hlt | ⟨heq, -⟩
    · exact hlt.le
    · exact heq.le

theorem modifyWitness_clocks {name : AccountName} {f : Witness → Witness}
    (hclock : ∀ w, (f w).clock = w.clock) :
    (db.modifyWitness name f).witnesses.view Witness.clock = db.witnesses.view Witness.clock := by
  unfold modifyWitness
  split
  · rename_i w hw
    exact Table.view_quiet hw (hclock w)
  · rfl

theorem markSchedule_clocks (schedule : WitnessScheduleType) (rows : List (AccountName × Witness)) :
    (db.markSchedule schedule rows).witnesses.view Witness.clock =
      db.witnesses.view Witness.clock := by
  unfold markSchedule
  induction rows generalizing db with
  | nil => rfl
  | cons row rest ih =>
      rw [List.foldl_cons, ih]
      exact modifyWitness_clocks fun _ => rfl

/-- The marks of a schedule are not on the clocks. -/
theorem chosen_clock {name : AccountName} {w : Witness}
    (hw : db.chosen.witnesses.find? name = some w) :
    ∃ u, db.witnesses.find? name = some u ∧ u.clock = w.clock := by
  have hclocks : db.chosen.witnesses.view Witness.clock = db.witnesses.view Witness.clock := by
    rw [chosen, markSchedule_clocks, markSchedule_clocks]
  have hname := congrArg (Table.find? name) hclocks
  rw [Table.find?_view, Table.find?_view, hw, Option.map_some, eq_comm,
    Option.map_eq_some_iff] at hname
  exact hname

theorem chosen_same (db : Database) : ∃ witnesses, db.chosen = { db with witnesses } := by
  obtain ⟨first, hfirst⟩ := @markSchedule_same db .elected db.elected
  obtain ⟨witnesses, hchosen⟩ := @markSchedule_same (db.markSchedule .elected db.elected)
    .timeshare db.runners.2
  rw [chosen, hchosen, hfirst]
  exact ⟨witnesses, rfl⟩

/-- The laps of the processed witnesses, from the clocks before the schedule. -/
theorem startLaps_chosen {time : Nat} {result : Database × Bool}
    (h : startLaps time db.chosen db.runners.1 = .ok result) :
    ∀ name v, result.1.witnesses.find? name = some v →
      ∃ w, db.witnesses.find? name = some w ∧ v.votes = w.votes ∧ (result.2 = false →
        v.clock = w.clock ∧ name ∉ db.runners.1.map (·.1) ∨ w.clock.StartsLap time v.clock) := by
  have hrows : ∀ row ∈ db.runners.1, ∀ w, db.chosen.witnesses.find? row.1 = some w →
      w.votes = row.2.votes := by
    intro row hrow w hw
    obtain ⟨u, hu, hclock⟩ := chosen_clock hw
    have hmem := db.witnessesByScheduleTime_perm.mem_iff.mp (mem_processed hrow)
    cases hu.symm.trans (Store.mem_rows_iff.mp hmem)
    exact congrArg Clock.votes hclock.symm
  intro name v hv
  obtain ⟨w, hw, hvotes, hclock⟩ := startLaps_clocks time hrows result h name v hv
  obtain ⟨u, hu, hsame⟩ := chosen_clock hw
  refine ⟨u, hu, hvotes.trans (congrArg Clock.votes hsame.symm), fun hdone => ?_⟩
  rw [hsame]
  exact hclock hdone

/-- A new schedule starts laps at a time that has passed no witness, or at 0. -/
theorem Lapped.step {timed : Database} {time : Nat} (h : Lapped db timed time) :
    (∃ witnesses wso, timed = { db with witnesses, wso }) ∧
      Polls.Step db.polls { db.polls with
        clocks := timed.witnesses.view Witness.clock, virtualTime := time } := by
  obtain ⟨marked, hmarked⟩ := db.chosen_same
  cases h with
  | advanced h =>
      obtain ⟨witnesses, hsame⟩ := startLaps_same _ _ _ h
      refine ⟨⟨witnesses, db.wso, hsame.trans (by rw [hmarked])⟩, .advance ?_ ?_⟩
      · rcases db.newVirtualTime_spec with ⟨-, hnow⟩ | ⟨last, hlast, hnow, -⟩
        · exact .inl hnow
        · refine .inr ⟨last.1, last.2.clock, ?_, hnow⟩
          rw [polls, Table.find?_view, Store.mem_rows_iff.mp hlast, Option.map_some]
      · intro name d hd
        rw [Table.find?_view, Option.map_eq_some_iff] at hd
        obtain ⟨v, hv, rfl⟩ := hd
        obtain ⟨w, hw, -, hclock⟩ := startLaps_chosen h name v hv
        refine ⟨w.clock, by rw [polls, Table.find?_view, hw, Option.map_some], ?_⟩
        rcases hclock rfl with ⟨hkept, hnot⟩ | hlap
        · refine .inl ⟨hkept, fun hlater => ?_⟩
          rcases db.newVirtualTime_spec with ⟨-, hnow⟩ | ⟨last, -, -, hothers⟩
          · exact absurd hnow hlater.ne'
          · have hrow := Store.mem_rows_iff.mpr hw
            exact hothers (name, w) hrow fun hmem => hnot (List.mem_map_of_mem hmem)
        · exact .inr hlap
  | @overflow advanced timed h hreset =>
      obtain ⟨_, hadvanced⟩ := startLaps_same _ _ _ h
      obtain ⟨⟨witnesses, htimed⟩, hlaps⟩ := resetVirtualScheduleTime_laps hreset
      have hsame : ∃ witnesses wso, timed = { db with witnesses, wso } := by
        rw [hmarked] at hadvanced
        change advanced = _ at hadvanced
        refine ⟨witnesses, { db.wso with currentVirtualTime := 0 }, ?_⟩
        rw [htimed, hadvanced]
      refine ⟨hsame, .restart ?_⟩
      intro name d hd
      rw [Table.find?_view, Option.map_eq_some_iff] at hd
      obtain ⟨v, hv, rfl⟩ := hd
      obtain ⟨w, hw, lap, hlap, hdue, hv⟩ := hlaps name v hv
      obtain ⟨u, hu, hvotes, -⟩ := startLaps_chosen h name w hw
      refine ⟨u.clock, by rw [polls, Table.find?_view, hu, Option.map_some], lap, ?_, hdue, ?_⟩
      · change UInt128.div _ (UInt128.ofInt (wrapInt64 (u.votes + 1))) = _
        rw [← hvotes]
        exact hlap
      · rw [hv]
        change (⟨w.votes, _, _, _⟩ : Clock) = ⟨u.votes, _, _, _⟩
        rw [hvotes]

theorem updateWitnessSchedule_polled : Always db.updateWitnessSchedule (Polled db) := by
  intro db' h
  obtain ⟨-, rfl⟩ | ⟨-, timed, time, scheduled, hlapped, -, -, hmedian⟩ :=
    updateWitnessSchedule_lapped h
  · exact .refl db'
  · obtain ⟨_, _, _, _, -, -, rfl⟩ := updateMedianWitnessProps_spec hmedian
    obtain ⟨⟨witnesses, wso, rfl⟩, hstep⟩ := hlapped.step
    exact .step hstep rfl rfl (fun h => h)

/-! ## Blocks -/

theorem accountRecoveryProcessing_polled : Always db.accountRecoveryProcessing (Polled db) := by
  have hrefl := Polled.refl db
  refine Always.bind (Always.drain hrefl fun state row h _ => ?_) fun requested hrequested => ?_
  · exact .ok (h.trans (.unseen rfl rfl rfl (fun h => h)))
  · refine Always.bind (Always.drain hrequested fun state row h _ => ?_) fun historic hhistoric => ?_
    · exact .ok (h.trans (.unseen rfl rfl rfl (fun h => h)))
    · refine .drain hhistoric fun state row h _ db' hdb' => ?_
      simp only [applyRecoveryChange, bind_eq_ok, pure_eq_ok] at hdb'
      obtain ⟨_, hchanged, rfl⟩ := hdb'
      obtain ⟨a, b, ha, hb, rfl⟩ := modifyAccount_spec hchanged
      cases hb
      exact h.trans (.unseen rfl rfl rfl fun hsolvent => hsolvent.set (hsolvent _ a ha))

theorem polled_cashedOut : CashedOut Polled := by
  intro db id now c clearVotes hc
  refine .step ?_ rfl rfl (fun h => h)
  simp only [polls, setComment, Table.view_set]
  refine .payout (t := c.tally) ?_ ?_
  · rw [Table.find?_view, hc, Option.map_some]
  · cases clearVotes with
    | false => exact .inl rfl
    | true => exact .inr (db.view_foldl_votersOf id)

/-- Every block is a run of the machine. -/
theorem polled_blockFrame (host : Host) : BlockFrame host Polled where
  toFrame := polled_frame
  cashout := polled_cashedOut
  signer := .unseen rfl rfl rfl fun h => h
  clock := .unseen rfl rfl rfl fun h => h
  hardfork := .unseen rfl rfl rfl fun h => h
  publish hw hclock := setWitness_polled hw hclock
  operation _ := applyOperation_polled host _
  schedule := updateWitnessSchedule_polled
  recovery := accountRecoveryProcessing_polled

/-! ## Genesis -/

/-- A database in which the virtual time has passed no witness, and the votes for no comment
weigh more than it. -/
structure Balanced (db : Database) : Prop where
  rate : db.dgp.votePowerReserveRate = 10
  convergent : Convergent db.rewardFunds
  solvent : db.Solvent
  paced : db.polls.Paced
  covered : db.polls.Covered

theorem Balanced.polled (h : db.Balanced) (hpolled : Polled db db') : db'.Balanced where
  rate := hpolled.rate.trans h.rate
  convergent := hpolled.convergent h.convergent
  solvent := hpolled.solvent h.solvent
  paced := (hpolled.runs h.convergent).paced h.paced
  covered := (hpolled.runs h.convergent).covered h.covered

theorem createObject_polled (name : AccountName) {account : Nat → Account} (auth : AccountAuthority)
    (hmana : ∀ id, 0 ≤ (account id).votingManabar.currentMana) :
    Always (db.createObject name account auth) (Polled db) :=
  .ensure fun _ => .pure (.unseen rfl rfl rfl fun h => h.set (hmana _))

theorem genesisObjects_balanced : Always genesisObjects Balanced := by
  refine .skip fun price => .skip fun regentShares => .skip fun rd => .skip fun witnessRd => .pure ?_
  refine ⟨rfl, ?_, ?_, ⟨Nat.zero_le _, ?_⟩, ⟨?_, ?_, ?_⟩⟩
  · intro id f hf
    rw [Store.find?_set] at hf
    split at hf
    · cases hf
      exact ⟨⟨rfl, by decide⟩, by decide⟩
    · cases hf
  · rintro name a ha
    cases ha
  · rintro name c hc
    cases hc
  · rintro id t ht
    cases ht
  · rintro key weight hweight
    cases hweight
  · rintro id t ht
    cases ht

theorem createInitMiner_balanced (key : PublicKey) (i : Nat) (h : db.Balanced) :
    Always (createInitMiner key db i) Balanced := by
  refine (createObject_polled _ _ fun _ => le_rfl).bind fun created hcreated => .pure ?_
  have hbalanced := h.polled hcreated
  have hcovered := hbalanced.covered
  refine ⟨hbalanced.rate, hbalanced.convergent, hbalanced.solvent, ⟨hbalanced.paced.time, ?_⟩,
    ⟨hcovered.shared, hcovered.votes, hcovered.posted⟩⟩
  simp only [polls, Table.view_set]
  exact hbalanced.paced.set (Clock.new_paced hbalanced.paced.time)

theorem importSnapshot_polled (snapshot : List AccountSnapshot) :
    Always (db.importSnapshot snapshot) (Polled db) := by
  refine .skip fun price => ?_
  have hloop : Always (Outcome.forEach (importAccount price) (db, 0, 0, 0) snapshot) fun result =>
      Polled db result.1 := by
    refine .forEach (.refl db) fun state line _ h => .skip fun shares => ?_
    refine (createObject_polled _ _ fun _ => le_rfl).bind fun created hcreated => ?_
    exact .skip fun _ => .skip fun _ => .skip fun _ => .pure (h.trans hcreated)
  refine hloop.bind fun imported himported => .skip fun total => ?_
  refine (modifyAccount_framed polled_frame fun a => ?_).mono fun _ h => ?_
  · exact .skip fun _ => .pure ⟨rfl, id⟩
  · exact himported.trans (polled_frame.after h rfl)

theorem initGenesis_balanced (args : GenesisArgs) : Always (initGenesis args) Balanced := by
  refine genesisObjects_balanced.bind fun objects hobjects => ?_
  have hprotocol : Always objects.createProtocolAccounts (Polled objects) := by
    refine (createObject_polled _ _ fun _ => le_rfl).bind fun miner hminer => ?_
    refine (createObject_polled _ _ fun _ => le_rfl).bind fun null hnull => ?_
    refine (createObject_polled _ _ fun _ => le_rfl).bind fun treasury htreasury => ?_
    refine (createObject_polled _ _ fun _ => le_rfl).mono fun temp htemp => ?_
    exact ((hminer.trans hnull).trans htreasury).trans htemp
  refine hprotocol.bind fun protocol hprotocol => ?_
  have hminers := Always.forEach (hobjects.polled hprotocol)
    fun state i (_ : i ∈ List.range blurtMaxWitnesses) h =>
      createInitMiner_balanced args.initPublicKey i h
  refine hminers.bind fun miners hminers => ?_
  refine (createObject_polled _ _ fun _ => le_rfl).bind fun regent hregent => ?_
  refine (importSnapshot_polled _).bind fun imported himported db hreset => ?_
  refine (hminers.polled (hregent.trans himported)).polled ?_
  obtain ⟨⟨witnesses, rfl⟩, hlaps⟩ := resetVirtualScheduleTime_laps hreset
  refine .step (.restart ?_) rfl rfl (fun h => h)
  intro name d hd
  rw [Table.find?_view, Option.map_eq_some_iff] at hd
  obtain ⟨v, hv, rfl⟩ := hd
  obtain ⟨w, hw, hlap⟩ := hlaps name v hv
  exact ⟨w.clock, by rw [polls, Table.find?_view, hw, Option.map_some], hlap⟩

/-- Every reachable database is balanced. -/
theorem reachable_balanced (h : Reachable host db) : db.Balanced := by
  induction h with
  | genesis hgenesis => exact initGenesis_balanced _ _ hgenesis
  | block _ happly ih => exact ih.polled ((polled_blockFrame host).applyBlock _ happly)

/-! ## The virtual time -/

/-- The sums and products of `adjust_witness_vote` on a witness whose lap has not wrapped. -/
theorem adjustWitnessVote_position {name : AccountName} {w : Witness} {delta : Int}
    (hw : db.witnesses.find? name = some w) (hpaced : w.clock.Paced db.wso.currentVirtualTime)
    (hvotes : 0 ≤ w.votes) (h : db.adjustWitnessVote name delta = .ok db') :
    ∃ v, db'.witnesses.find? name = some v ∧ v.virtualPosition =
      w.virtualPosition + w.votes.toNat * (db.wso.currentVirtualTime - w.virtualLastUpdate) := by
  obtain ⟨u, v, votes, hu, ⟨-, lap, -, hclock⟩, rfl⟩ := adjustWitnessVote_spec h
  cases hw.symm.trans hu
  have hmoved := congrArg Clock.position hclock
  exact ⟨v, Store.find?_set_self _ _ _, hmoved.trans (hpaced.moved_eq hvotes).2⟩

/-- In a state that any changes of a block lead to from a reachable database, the virtual time has
passed no witness, and nothing wraps where the position of a witness moves. -/
theorem reachable_virtualTime {mid : Database} (h : Reachable host db)
    (hmid : Polled db mid) {name : AccountName} {w : Witness}
    (hw : mid.witnesses.find? name = some w) :
    mid.wso.currentVirtualTime ≤ w.virtualScheduledTime ∧
    w.virtualScheduledTime ≤ UInt128.maxValue ∧
    w.virtualLastUpdate ≤ mid.wso.currentVirtualTime ∧
    (0 ≤ w.votes →
      let elapsed := mid.wso.currentVirtualTime - w.virtualLastUpdate
      w.votes.toNat * elapsed ≤ UInt128.maxValue ∧
      w.virtualPosition + w.votes.toNat * elapsed ≤ UInt128.maxValue ∧
      ∀ delta next, mid.adjustWitnessVote name delta = .ok next →
        ∃ v, next.witnesses.find? name = some v ∧
          v.virtualPosition = w.virtualPosition + w.votes.toNat * elapsed) := by
  have hpaced : w.clock.Paced mid.wso.currentVirtualTime := by
    refine ((reachable_balanced h).polled hmid).paced.clocks name w.clock ?_
    rw [polls, Table.find?_view, hw, Option.map_some]
  refine ⟨hpaced.due, hpaced.scheduled, hpaced.last, fun hvotes => ?_⟩
  have hposition := (hpaced.moved_eq hvotes).1
  refine ⟨(Nat.le_add_left _ _).trans hposition, hposition, fun delta next hnext => ?_⟩
  exact adjustWitnessVote_position hw hpaced hvotes hnext

end Database

namespace Sample

open Database

/-- A chain on which alice and bob have BLURT and vesting shares. -/
def votersChain : GenesisArgs :=
  let key : Authority := singleKey 2
  { freshChain with
    snapshot := ["alice", "bob"].map fun name =>
      { name, owner := key, active := key, posting := key, memo := 2, balance := 1000000
        power := 1000000000 } }

/-- alice votes for the initial witness `i`, or takes back her vote. -/
def witnessVote (i : Nat) (approve : Bool) : Operation :=
  .accountWitnessVote { account := "alice", witness := initMinerName i, approve }

/-- The first round, at the start of which alice votes for all initial witnesses. -/
def votedRound : List LedgerBlock :=
  signedBlock 0 [2] ((List.range 21).map fun i => witnessVote i true) ::
    (List.range 20).map fun i => quietBlock (i + 1)

/-- The database after the round, the one after alice has taken back a vote in the next block,
and the one after another witness has lost its votes. -/
def votedOutcome : Except String (Database × Database × Database) := do
  let db ← afterBlocks votersChain votedRound
  let mid ← applyOperation plainHost db (witnessVote 1 false)
  let next ← mid.adjustWitnessVote (initMinerName 15) (-1000000000000)
  return (db, mid, next)

theorem votedOutcome_runs : votedOutcome.toOption.any fun (_, mid, _) =>
    mid.wso.currentVirtualTime = 340282366920598181096454009 ∧
      (mid.witnesses.find? (initMinerName 15)).any fun w => w.votes = 1000000000000 ∧
        w.virtualLastUpdate = 0 := by
  decide +kernel

/-- After the virtual time has advanced, the position of a witness with votes moves as far. -/
theorem votedRound_virtualTime : ∃ (db mid next : Database) (w v : Witness),
    Reachable plainHost db ∧ applyOperation plainHost db (witnessVote 1 false) = .ok mid ∧
      mid.wso.currentVirtualTime = 340282366920598181096454009 ∧
      mid.witnesses.find? (initMinerName 15) = some w ∧ w.votes = 1000000000000 ∧
      mid.wso.currentVirtualTime ≤ w.virtualScheduledTime ∧
      mid.adjustWitnessVote (initMinerName 15) (-1000000000000) = .ok next ∧
      next.witnesses.find? (initMinerName 15) = some v ∧
      v.virtualPosition = w.virtualPosition + 1000000000000 * 340282366920598181096454009 := by
  obtain ⟨⟨db, mid, next⟩, hrun, hfacts⟩ := (Option.any_eq_true _ _).mp votedOutcome_runs
  obtain ⟨htime, hw⟩ := of_decide_eq_true hfacts
  obtain ⟨w, hw, hfacts⟩ := (Option.any_eq_true _ _).mp hw
  obtain ⟨hvotes, hlast⟩ := of_decide_eq_true hfacts
  have houtcome := eq_ok_of_toOption hrun
  simp only [votedOutcome, bind_eq_ok] at houtcome
  obtain ⟨_, hdb, _, hmid, _, hnext, houtcome⟩ := houtcome
  cases houtcome
  have hreachable := afterBlocks_reachable hdb
  have hpolled := applyOperation_polled plainHost (witnessVote 1 false) _ hmid
  obtain ⟨hdue, -, -, hmoved⟩ := reachable_virtualTime hreachable hpolled hw
  obtain ⟨-, -, hmoved⟩ := hmoved (by rw [hvotes]; decide)
  obtain ⟨v, hv, hposition⟩ := hmoved _ _ hnext
  refine ⟨db, mid, next, w, v, hreachable, hmid, htime, hw, hvotes, hdue, hnext, hv, ?_⟩
  rw [hposition, htime, hlast, hvotes]
  rfl

end Sample

end Ledger

end Blurt
