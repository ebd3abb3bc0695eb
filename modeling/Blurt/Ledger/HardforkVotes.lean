import Blurt.Ledger.GenesisLaws
import Blurt.Ledger.ScheduleLaws
import Mathlib.Logic.Relation

/-! # Hardforks need a vote

The votes of the scheduled witnesses are counted when the schedule is rebuilt. Between two
counts the next hardfork stands for the last of them, or is none that is still to come.
-/

namespace Blurt

namespace Ledger

open Outcome

/-- The votes that an update of the schedule counts, and how many equal ones decide. -/
structure HardforkCount where
  votes : List (Nat × Nat)
  required : Nat
  deriving DecidableEq, Repr

/-- Enough of the counted witnesses voted for `version` at `time`. -/
def HardforkCount.Decides (c : HardforkCount) (version time : Nat) : Prop :=
  c.required ≤ c.votes.count (version, time)

namespace Database

/-- The latest count after `update_witness_schedule`. -/
def recount (db : Database) (previous : Option HardforkCount) : Option HardforkCount :=
  if db.dgp.headBlockNumber % blurtMaxWitnesses = 0 then
    match db.scheduledWitnesses with
    | .ok scheduled =>
        some
          { votes := scheduled.map Witness.hardforkVote
            required := db.wso.hardforkRequiredWitnesses }
    | .error _ => previous
  else previous

/-- The count at the end of a round does not depend on the one before. -/
theorem recount_of_none {db : Database} {latest : HardforkCount} (h : db.recount none = some latest)
    (previous : Option HardforkCount) : db.recount previous = some latest := by
  rw [recount] at h ⊢
  split at h
  · rw [if_pos ‹_›]
    split at h
    · exact h
    · cases h
  · cases h

/-- A chain of blocks from genesis, with the count of the latest update of the schedule. -/
inductive Counted (host : Host) : Database → Option HardforkCount → Prop
  | genesis {args : GenesisArgs} {db : Database} (hgenesis : initGenesis args = .ok db) :
      Counted host db none
  | block {db returned db' : Database} {count : Option HardforkCount} {b : LedgerBlock}
      (hcounted : Counted host db count)
      (hreturned : beforeSchedule host db b = .ok returned)
      (happly : applyBlock host db b = .ok db') :
      Counted host db' (returned.recount count)

/-- The hardforks so far are all the first ones, in their order. -/
structure HardforksOrdered (db : Database) : Prop where
  processed : db.processedHardforks =
    (List.range (db.hardforks.lastHardfork + 1)).map hardforkTimes
  current : db.hardforks.currentHardforkVersion = hardforkVersions db.hardforks.lastHardfork

/-- The next hardfork has been applied, or the latest count decided on it. -/
def Justified (count : Option HardforkCount) (db : Database) : Prop :=
  db.hardforks.nextHardfork ≤ hardforkVersions db.hardforks.lastHardfork ∨
    ∃ latest version, count = some latest ∧
      latest.Decides version db.hardforks.nextHardforkTime ∧
      db.hardforks.nextHardfork = hardforkVersion version

variable {host : Host} {db db' : Database} {count : Option HardforkCount}

/-! ## One hardfork -/

theorem applyHardfork_spec {hardfork : Nat} (h : db.applyHardfork hardfork = .ok db') :
    hardfork = db.hardforks.lastHardfork + 1 ∧
      db'.processedHardforks = db.processedHardforks ++ [hardforkTimes hardfork] ∧
      db'.hardforks = { db.hardforks with
        lastHardfork := hardfork
        currentHardforkVersion := hardforkVersions hardfork } ∧
      db'.dgp.time = db.dgp.time := by
  have htime := congrArg Overview.time (applyHardfork_keeps _ _ h).seen
  simp only [applyHardfork, bind_eq_ok, ensure_eq_ok, pure_eq_ok] at h
  obtain ⟨changed, hchanged, _, hlast, _, -, _, -, rfl⟩ := h
  have hquiet := (hardforkChanges_framed quiet_frame _ _ hchanged).seen
  have hhardforks : changed.hardforks = db.hardforks := congrArg Overview.hardforks hquiet
  have hprocessed : changed.processedHardforks = db.processedHardforks :=
    congrArg Overview.processedHardforks hquiet
  rw [hhardforks] at hlast
  refine ⟨hlast, ?_, ?_, htime⟩
  · rw [hprocessed]
  · rw [hhardforks]

theorem HardforksOrdered.applyHardfork {hardfork : Nat} (hordered : db.HardforksOrdered)
    (h : db.applyHardfork hardfork = .ok db') : db'.HardforksOrdered := by
  obtain ⟨hlast, hprocessed, hhardforks, -⟩ := applyHardfork_spec h
  constructor
  · rw [hprocessed, hhardforks, hordered.processed, ← hlast, List.range_succ, List.map_append]
    rfl
  · rw [hhardforks]

theorem dueHardfork_eq_some {hardfork : Nat} :
    db.dueHardfork = some hardfork ↔
      hardforkVersions db.hardforks.lastHardfork < db.hardforks.nextHardfork ∧
        db.hardforks.nextHardforkTime ≤ db.dgp.time ∧
        hardfork = db.hardforks.lastHardfork + 1 := by
  unfold dueHardfork
  split
  · rename_i hdue
    simp [hdue, eq_comm]
  · rename_i hdue
    simp only [reduceCtorEq, false_iff]
    exact fun h => hdue ⟨h.1, h.2.1⟩

/-- A hardfork that is due was voted for. -/
theorem Justified.decided {hardfork : Nat} (hjustified : db.Justified count)
    (hdue : db.dueHardfork = some hardfork) :
    ∃ latest version time, count = some latest ∧ latest.Decides version time ∧
      hardforkVersions hardfork ≤ version ∧ time ≤ db.dgp.time := by
  obtain ⟨hnext, htime, rfl⟩ := dueHardfork_eq_some.mp hdue
  rcases hjustified with hold | ⟨latest, version, hlatest, hdecides, hversion⟩
  · omega
  · refine ⟨latest, version, _, hlatest, hdecides, ?_, htime⟩
    simp only [hardforkVersions, hardforkVersion] at hnext hversion ⊢
    omega

/-! ## The loop -/

theorem applyHardfork_ne_endless (hardfork : Nat) :
    db.applyHardfork hardfork ≠ .error "the loop does not end" := by
  intro h
  simp only [applyHardfork, bind_eq_error, ensure_eq_error] at h
  obtain h | ⟨_, -, ⟨-, h⟩ | ⟨_, -, ⟨-, h⟩ | ⟨_, -, ⟨-, h⟩ | ⟨_, -, h⟩⟩⟩⟩ := h
  · have hfund : ∀ update, db.modifyRewardFund update ≠ .error "the loop does not end" := by
      intro update h
      simp only [modifyRewardFund, getRewardFund, bind_eq_error, require_eq_error] at h
      obtain ⟨-, h⟩ | ⟨_, -, h⟩ := h
      · exact absurd h (by decide)
      · cases h
    unfold hardforkChanges at h
    split at h
    · exact hfund _ h
    · exact hfund _ h
    · exact hfund _ h
    · cases h
  · exact absurd h (by decide)
  · exact absurd h (by decide)
  · exact absurd h (by decide)
  · cases h

/-- With enough turns the loop ends: each turn applies a hardfork, and it stops at the last one
that the node knows. -/
theorem drain_processHardfork_succ {turns : Nat} (hpos : 0 < turns)
    (hturns : blurtNumHardforks + 1 ≤ turns + db.hardforks.lastHardfork) :
    drain dueHardfork processHardfork (turns + 1) db = drain dueHardfork processHardfork turns db ∧
      drain dueHardfork processHardfork turns db ≠ .error "the loop does not end" := by
  induction turns generalizing db with
  | zero => omega
  | succ turns ih =>
      rw [drain, drain]
      cases hdue : db.dueHardfork with
      | none => exact ⟨rfl, by simp⟩
      | some hardfork =>
          obtain ⟨-, -, rfl⟩ := dueHardfork_eq_some.mp hdue
          simp only [processHardfork]
          by_cases hknown : db.hardforks.lastHardfork + 1 ≤ blurtNumHardforks
          · rw [if_pos hknown]
            cases happly : db.applyHardfork (db.hardforks.lastHardfork + 1) with
            | error message =>
                refine ⟨rfl, fun h => ?_⟩
                cases h
                exact applyHardfork_ne_endless _ happly
            | ok next =>
                obtain ⟨-, -, hhardforks, -⟩ := applyHardfork_spec happly
                exact ih (by omega) (by rw [hhardforks]; dsimp only; omega)
          · rw [if_neg hknown]
            exact ⟨rfl, by simp⟩

/-- The loop of `process_hardforks` ends, whatever the witnesses voted for. -/
theorem drain_processHardfork {turns : Nat} (hturns : blurtNumHardforks + 2 ≤ turns)
    (db : Database) :
    drain dueHardfork processHardfork turns db = db.processHardforks ∧
      db.processHardforks ≠ .error "the loop does not end" := by
  induction turns, hturns using Nat.le_induction with
  | base => exact ⟨rfl, (drain_processHardfork_succ (by omega) (by omega)).2⟩
  | succ turns hle ih =>
      obtain ⟨hsucc, -⟩ := @drain_processHardfork_succ db turns (by omega) (by omega)
      exact ⟨hsucc.trans ih.1, ih.2⟩

/-! ## Hardforks in order -/

/-- The order of hardforks only depends on the hardforks so far. -/
theorem HardforksOrdered.congr (h : db.HardforksOrdered)
    (hprocessed : db'.processedHardforks = db.processedHardforks)
    (hlast : db'.hardforks.lastHardfork = db.hardforks.lastHardfork)
    (hcurrent : db'.hardforks.currentHardforkVersion = db.hardforks.currentHardforkVersion) :
    db'.HardforksOrdered := by
  constructor
  · rw [hprocessed, hlast, h.processed]
  · rw [hcurrent, hlast, h.current]

theorem beyond_processedHardforks (op : Operation) (v : Overview) :
    (v.beyond op).processedHardforks = v.processedHardforks := by
  cases op <;> rfl

theorem beyond_hardforks (op : Operation) (v : Overview) :
    (v.beyond op).hardforks = v.hardforks := by
  cases op <;> rfl

/-- An operation changes no hardfork. -/
theorem applyOperation_hardforks (op : Operation) :
    Always (applyOperation host db op) fun db' =>
      db'.processedHardforks = db.processedHardforks ∧ db'.hardforks = db.hardforks := by
  refine (applyOperation_keeps host op).mono fun db' h => ?_
  have hprocessed := congrArg Overview.processedHardforks h.seen
  have hhardforks := congrArg Overview.hardforks h.seen
  rw [beyond_processedHardforks, beyond_processedHardforks] at hprocessed
  rw [beyond_hardforks, beyond_hardforks] at hhardforks
  exact ⟨hprocessed, hhardforks⟩

theorem visitExtension_hardforks (witness : AccountName) (extension : BlockHeaderExtension) :
    Always (visitExtension witness db extension) fun db' =>
      db'.processedHardforks = db.processedHardforks ∧ db'.hardforks = db.hardforks := by
  refine (visitExtension_keeps witness extension).mono fun db' h => ?_
  have hprocessed := congrArg Overview.processedHardforks h.seen
  have hhardforks := congrArg Overview.hardforks h.seen
  exact ⟨hprocessed, hhardforks⟩

theorem modifyWitness_hardforks (name : AccountName) (f : Witness → Witness) :
    (db.modifyWitness name f).processedHardforks = db.processedHardforks ∧
      (db.modifyWitness name f).hardforks = db.hardforks := by
  unfold modifyWitness
  split <;> exact ⟨rfl, rfl⟩

/-- What `set_hardfork` preserves and what only depends on the hardforks, the start of the
chain preserves. -/
theorem startHardforks_holds {holds : Database → Prop}
    (hset : ∀ db hardfork, holds db → Always (({ db with hardforks := { db.hardforks with
      nextHardfork := hardforkVersions hardfork
      nextHardforkTime := db.dgp.time } } : Database).applyHardfork hardfork) holds)
    (hcongr : ∀ db db' : Database, db'.processedHardforks = db.processedHardforks →
      db'.hardforks = db.hardforks → holds db → holds db')
    (hdb : holds db) (timestamp : Nat) : Always (db.startHardforks timestamp) holds := by
  unfold startHardforks
  dsimp only
  split
  · have hloop : Always (db.setHardfork (genesisHardforks timestamp)) holds :=
      .forEach hdb fun state i _ hstate => hset state i hstate
    refine hloop.bind fun started hstarted => .ensure fun _ => .pure ?_
    refine List.foldlRecOn _ _ hstarted fun first hfirst row _ => ?_
    exact hcongr _ _ (modifyWitness_hardforks _ _).1 (modifyWitness_hardforks _ _).2 hfirst
  · exact .pure hdb

theorem hardforksOrdered_blockInvariant (host : Host) :
    BlockInvariant host anyOperation HardforksOrdered where
  quiet db db' hquiet h := by
    have hhardforks := congrArg Overview.hardforks hquiet.seen
    exact h.congr (congrArg Overview.processedHardforks hquiet.seen)
      (congrArg HardforkProperty.lastHardfork hhardforks)
      (congrArg HardforkProperty.currentHardforkVersion hhardforks)
  start db timestamp _ h := by
    apply startHardforks_holds _ _ h
    · intro db hardfork h db' happly
      refine HardforksOrdered.applyHardfork ?_ happly
      exact h.congr rfl rfl rfl
    · intro db db' hprocessed hhardforks h
      exact h.congr hprocessed (congrArg _ hhardforks) (congrArg _ hhardforks)
  signer db name h := h.congr rfl rfl rfl
  extension db name extension h := by
    refine (visitExtension_hardforks name extension).mono fun db' hsame => ?_
    exact h.congr hsame.1 (congrArg _ hsame.2) (congrArg _ hsame.2)
  operation db op _ _ h := by
    refine (applyOperation_hardforks op).mono fun db' hsame => ?_
    exact h.congr hsame.1 (congrArg _ hsame.2) (congrArg _ hsame.2)
  clock db b _ h := h.congr rfl rfl rfl
  schedule db h := by
    refine updateWitnessSchedule_keeps.mono fun db' hkeeps => ?_
    have hprocessed := congrArg Overview.processedHardforks hkeeps.seen
    have hlast := congrArg (fun v => v.hardforks.lastHardfork) hkeeps.seen
    have hcurrent := congrArg (fun v => v.hardforks.currentHardforkVersion) hkeeps.seen
    exact h.congr hprocessed hlast hcurrent
  recovery db h := by
    refine accountRecoveryProcessing_keeps.mono fun db' hkeeps => ?_
    have hprocessed := congrArg Overview.processedHardforks hkeeps.seen
    have hhardforks := congrArg Overview.hardforks hkeeps.seen
    exact h.congr hprocessed (congrArg _ hhardforks) (congrArg _ hhardforks)
  hardforks db h := by
    refine .drain h fun state hardfork hstate _ => ?_
    unfold processHardfork
    split
    · exact fun next => hstate.applyHardfork
    · exact .error _

/-! ## The vote for the next hardfork -/

theorem Justified.congr (h : db.Justified count) (hhardforks : db'.hardforks = db.hardforks) :
    db'.Justified count := by
  rwa [Justified, hhardforks]

theorem justified_openingInvariant (host : Host) (count : Option HardforkCount) :
    OpeningInvariant host anyOperation (Justified count) where
  quiet db db' hquiet h := h.congr (congrArg Overview.hardforks hquiet.seen)
  start db timestamp _ h := by
    apply startHardforks_holds _ _ h
    · intro db hardfork _ db' happly
      obtain ⟨-, -, hhardforks, -⟩ := applyHardfork_spec happly
      exact .inl (by rw [hhardforks])
    · exact fun db db' _ hhardforks h => h.congr hhardforks
  signer db name h := h.congr rfl
  extension db name extension h :=
    (visitExtension_hardforks name extension).mono fun db' hsame => h.congr hsame.2
  operation db op _ _ h := (applyOperation_hardforks op).mono fun db' hsame => h.congr hsame.2
  clock db b _ h := h.congr rfl

/-- A majority was voted for by enough of the scheduled witnesses. -/
theorem decides_of_countHardforkVotes {wso : WitnessSchedule} {scheduled : List Witness}
    {version time : Nat} (h : countHardforkVotes wso scheduled = some (version, time)) :
    HardforkCount.Decides
      { votes := scheduled.map Witness.hardforkVote, required := wso.hardforkRequiredWitnesses }
      version time := by
  unfold countHardforkVotes at h
  have hcount := List.find?_some h
  rwa [decide_eq_true_eq, (List.perm_insertionSort _ _).count_eq] at hcount

/-- A new schedule counts the votes again. -/
theorem Justified.schedule (h : db.Justified count) (hordered : db.HardforksOrdered)
    (hschedule : db.updateWitnessSchedule = .ok db') : db'.Justified (db.recount count) := by
  obtain ⟨hhead, rfl⟩ | ⟨hhead, timed, scheduled, wso, hnew, hmedian⟩ :=
    updateWitnessSchedule_spec hschedule
  · rwa [recount, if_neg hhead]
  · obtain ⟨active, props, rd, witnessRd, -, -, rfl⟩ := updateMedianWitnessProps_spec hmedian
    obtain ⟨witnesses, hwitnesses, hpublished⟩ :=
      scheduledWitnesses_published hnew.keeps.seen hnew.scheduled
    have hvotes : witnesses.map Witness.hardforkVote = scheduled.map Witness.hardforkVote := by
      have hmap := congrArg (List.map Published.hardforkVote) hpublished
      rwa [List.map_map, List.map_map] at hmap
    have hhardforks : timed.hardforks = db.hardforks := congrArg Overview.hardforks hnew.keeps.seen
    rw [recount, if_pos hhead, hwitnesses, Justified]
    simp only [hhardforks, hvotes]
    cases hmajority : countHardforkVotes db.wso scheduled with
    | none =>
        -- the next hardfork is the current one again
        left
        rw [HardforkProperty.schedule, hordered.current]
        simp only [hardforkVersion, hardforkVersions]
        omega
    | some majority =>
        obtain ⟨version, time⟩ := majority
        exact .inr ⟨_, version, rfl, decides_of_countHardforkVotes hmajority, rfl⟩

/-- A turn of the loop leaves the vote for the next hardfork as it is. -/
theorem Justified.applyHardfork {hardfork : Nat} (h : db.Justified count)
    (happly : db.applyHardfork hardfork = .ok db') : db'.Justified count := by
  obtain ⟨hlast, -, hhardforks, -⟩ := applyHardfork_spec happly
  rcases h with hold | hdecided
  · left
    rw [hhardforks, hlast]
    exact hold.trans (Nat.mul_le_mul_right _ (Nat.le_succ _))
  · right
    rwa [hhardforks]

theorem hasHardfork_iff (hordered : db.HardforksOrdered) (hardfork : Nat) :
    db.hasHardfork hardfork ↔ hardfork ≤ db.hardforks.lastHardfork := by
  rw [hasHardfork, hordered.processed, decide_eq_true_eq, List.length_map, List.length_range,
    Nat.lt_succ_iff]

/-- What `process_hardforks` applies was decided by the latest count. -/
theorem processHardforks_decided (hordered : db.HardforksOrdered) (hjustified : db.Justified count) :
    Always db.processHardforks fun db' => db'.Justified count ∧
      db.processedHardforks <+: db'.processedHardforks ∧
      ∀ hardfork, ¬ db.hasHardfork hardfork → db'.hasHardfork hardfork →
        ∃ latest version time, count = some latest ∧ latest.Decides version time ∧
          hardforkVersions hardfork ≤ version ∧ time ≤ db.dgp.time := by
  have hloop : Always db.processHardforks fun d => d.Justified count ∧ d.HardforksOrdered ∧
      d.dgp.time = db.dgp.time ∧ db.processedHardforks <+: d.processedHardforks ∧
      ∀ hardfork, ¬ db.hasHardfork hardfork → d.hasHardfork hardfork →
        ∃ latest version time, count = some latest ∧ latest.Decides version time ∧
          hardforkVersions hardfork ≤ version ∧ time ≤ db.dgp.time := by
    refine .drain ⟨hjustified, hordered, rfl, List.prefix_rfl, fun _ hnot h => absurd h hnot⟩ ?_
    rintro d next ⟨hjustified, hordered, htime, hbegins, hdecided⟩ hdue
    unfold processHardfork
    split
    · intro d' happly
      obtain ⟨hlast, hprocessed, hhardforks, htime'⟩ := applyHardfork_spec happly
      refine ⟨hjustified.applyHardfork happly, hordered.applyHardfork happly, htime'.trans htime,
        ?_, ?_⟩
      · rw [hprocessed]
        exact hbegins.trans (List.prefix_append _ _)
      · intro hardfork hnot hhas
        by_cases hbefore : d.hasHardfork hardfork
        · exact hdecided hardfork hnot hbefore
        · -- the hardfork of this turn
          have hnext : hardfork = next := by
            rw [hasHardfork_iff (hordered.applyHardfork happly), hhardforks] at hhas
            rw [hasHardfork_iff hordered] at hbefore
            dsimp only at hhas
            omega
          rw [hnext, ← htime]
          exact hjustified.decided hdue
    · exact .error _
  exact hloop.mono fun d ⟨hjustified, _, _, hbegins, hdecided⟩ => ⟨hjustified, hbegins, hdecided⟩

/-- The hardforks so far begin with `hardforks`. -/
def StartsWith (hardforks : List Nat) (db : Database) : Prop := hardforks <+: db.processedHardforks

theorem StartsWith.congr {hardforks : List Nat} (h : StartsWith hardforks db)
    (hprocessed : db'.processedHardforks = db.processedHardforks) : StartsWith hardforks db' := by
  rwa [StartsWith, hprocessed]

theorem StartsWith.applyHardfork {hardforks : List Nat} (h : StartsWith hardforks db)
    (hardfork : Nat) : Always (db.applyHardfork hardfork) (StartsWith hardforks) := by
  intro db' happly
  obtain ⟨-, hprocessed, -⟩ := applyHardfork_spec happly
  rw [StartsWith, hprocessed]
  exact h.trans (List.prefix_append _ _)

/-- Hardforks are only added, at the end. -/
theorem startsWith_blockInvariant (host : Host) (hardforks : List Nat) :
    BlockInvariant host anyOperation (StartsWith hardforks) where
  quiet db db' hquiet h := h.congr (congrArg Overview.processedHardforks hquiet.seen)
  start db timestamp _ h := by
    apply startHardforks_holds _ _ h
    · intro db hardfork h
      refine StartsWith.applyHardfork ?_ hardfork
      exact h.congr rfl
    · exact fun db db' hprocessed _ h => h.congr hprocessed
  signer db name h := h
  extension db name extension h :=
    (visitExtension_hardforks name extension).mono fun db' hsame => h.congr hsame.1
  operation db op _ _ h := (applyOperation_hardforks op).mono fun db' hsame => h.congr hsame.1
  clock db b _ h := h
  schedule db h := by
    refine updateWitnessSchedule_keeps.mono fun db' hkeeps => h.congr ?_
    exact congrArg Overview.processedHardforks hkeeps.seen
  recovery db h := by
    refine accountRecoveryProcessing_keeps.mono fun db' hkeeps => h.congr ?_
    exact congrArg Overview.processedHardforks hkeeps.seen
  hardforks db h := by
    refine .drain h fun state hardfork hstate _ => ?_
    unfold processHardfork
    split
    · exact hstate.applyHardfork hardfork
    · exact .error _

/-- What a block comes to `process_hardforks` with. -/
theorem beforeHardforks_justified {b : LedgerBlock} {returned decayed : Database}
    (hordered : db.HardforksOrdered) (hjustified : db.Justified count)
    (hreturned : beforeSchedule host db b = .ok returned)
    (hdecayed : beforeHardforks host db b = .ok decayed) :
    decayed.Justified (returned.recount count) := by
  simp only [beforeHardforks, bind_eq_ok, hreturned, Except.ok.injEq] at hdecayed
  obtain ⟨_, rfl, scheduled, hscheduled, subsidized, hsubsidized, recovered, hrecovered,
    hdecayed⟩ := hdecayed
  have hany := LedgerBlock.only_any b
  have hholds := (justified_openingInvariant host count).returned hjustified hany _ hreturned
  have hopened := (hardforksOrdered_blockInvariant host).toOpeningInvariant.returned hordered hany _
    hreturned
  have hrecounted := hholds.schedule hopened hscheduled
  have hquiet := beforeRecovery_framed quiet_frame quiet_cashedOut _ hsubsidized
  have hsubsidized := congrArg Overview.hardforks hquiet.seen
  have hrecovered := congrArg Overview.hardforks (accountRecoveryProcessing_keeps _ hrecovered).seen
  have hdecayed := congrArg Overview.hardforks (afterRecovery_framed quiet_frame _ _ hdecayed).seen
  exact hrecounted.congr ((hdecayed.trans hrecovered).trans hsubsidized)

/-! ## Every run -/

theorem counted_spec (h : Counted host db count) :
    db.HardforksOrdered ∧ db.Justified count := by
  induction h with
  | genesis hgenesis =>
      rename_i args db
      have hinitial := (initGenesis_initial args db hgenesis).1.1
      have hprocessed : db.processedHardforks = [blurtGenesisTime] := hinitial.processed
      have hhardforks : db.hardforks = {} := hinitial.hardforks
      constructor
      · constructor
        · rw [hprocessed, hhardforks]
          rfl
        · rw [hhardforks]
          rfl
      · left
        rw [hhardforks]
        exact Nat.zero_le _
  | block hcounted hreturned happly ih =>
      rw [applyBlock_eq] at happly
      obtain ⟨decayed, hdecayed, hforked⟩ := bind_eq_ok.mp happly
      have hordered := (hardforksOrdered_blockInvariant host).decayed ih.1 (LedgerBlock.only_any _) _
        hdecayed
      have hjustified := beforeHardforks_justified ih.1 ih.2 hreturned hdecayed
      exact ⟨(hardforksOrdered_blockInvariant host).hardforks _ hordered _ hforked,
        (processHardforks_decided hordered hjustified _ hforked).1⟩

/-- A later block of the same chain. -/
def Later (host : Host) : Database → Database → Prop :=
  Relation.ReflTransGen fun db db' => ∃ b, applyBlock host db b = .ok db'

theorem Counted.blocks {blocks : List LedgerBlock} (h : Counted host db count)
    (hblocks : Outcome.forEach (applyBlock host) db blocks = .ok db') :
    ∃ count, Counted host db' count := by
  refine forEach_invariant (fun db => ∃ count, Counted host db count)
    (fun state b next _ hstate hnext => ?_) ⟨count, h⟩ hblocks
  obtain ⟨count, hcounted⟩ := hstate
  have happly := hnext
  rw [applyBlock_eq] at hnext
  obtain ⟨decayed, hdecayed, -⟩ := bind_eq_ok.mp hnext
  obtain ⟨returned, hreturned, -⟩ := bind_eq_ok.mp hdecayed
  exact ⟨_, .block hcounted hreturned happly⟩

/-- Hardforks are applied in order, each once, and for good. One that `process_hardforks`
applies was voted for at the latest update of the schedule, by enough of the scheduled
witnesses, with one version and one time; and its loop ends. -/
theorem counted_hardforks (h : Counted host db count) :
    db.processedHardforks = (List.range (db.hardforks.lastHardfork + 1)).map hardforkTimes ∧
      (∀ later, Later host db later →
        db.processedHardforks <+: later.processedHardforks ∧
          ∀ hardfork, db.hasHardfork hardfork → later.hasHardfork hardfork) ∧
      (∀ b returned decayed db' hardfork, beforeSchedule host db b = .ok returned →
        beforeHardforks host db b = .ok decayed → decayed.processHardforks = .ok db' →
        ¬ decayed.hasHardfork hardfork → db'.hasHardfork hardfork →
        ∃ latest version time, returned.recount count = some latest ∧
          latest.Decides version time ∧ hardforkVersions hardfork ≤ version ∧
          time ≤ decayed.dgp.time) ∧
      ∀ (any : Database) (turns : Nat), blurtNumHardforks + 2 ≤ turns →
        drain dueHardfork processHardfork turns any = any.processHardforks ∧
          any.processHardforks ≠ .error "the loop does not end" := by
  obtain ⟨hordered, hjustified⟩ := counted_spec h
  refine ⟨hordered.processed, ?_, ?_, fun any turns hturns => drain_processHardfork hturns any⟩
  · intro later hlater
    have hbegins : db.processedHardforks <+: later.processedHardforks := by
      induction hlater with
      | refl => exact List.prefix_rfl
      | tail _ hblock ih =>
          obtain ⟨b, hblock⟩ := hblock
          exact (startsWith_blockInvariant host _).applyBlock ih (LedgerBlock.only_any b) _ hblock
    refine ⟨hbegins, fun hardfork hhas => ?_⟩
    rw [hasHardfork, decide_eq_true_eq] at hhas ⊢
    exact hhas.trans_le hbegins.length_le
  · intro b returned decayed db' hardfork hreturned hdecayed hforked hnot hhas
    have hdone := (hardforksOrdered_blockInvariant host).decayed hordered (LedgerBlock.only_any b) _
      hdecayed
    have hlatest := beforeHardforks_justified hordered hjustified hreturned hdecayed
    exact (processHardforks_decided hdone hlatest _ hforked).2.2 hardfork hnot hhas

end Database

namespace Sample

open Database

/-- The witnesses of the second round, in the order of its schedule. -/
def secondRound : List Nat :=
  [9, 2, 8, 14, 1, 17, 13, 18, 3, 6, 11, 7, 0, 4, 15, 20, 19, 10, 16, 5, 12]

/-- The block number `i + 22`, the witness of which votes for the first hardfork after genesis,
unless it is one of the first three of its round. -/
def votingBlock (i : Nat) : LedgerBlock :=
  { quietBlock (21 + i) with
    witness := initMinerName (secondRound.getD i 0)
    extensions :=
      if i < 3 then [] else [.hardforkVersionVote (hardforkVersions 1) (blurtGenesisTime + 120)] }

/-- The last block of the second round in its parts, with the database before it. -/
def hardforkOutcome : Except String (Database × Database × Database × Database) := do
  let db ← afterBlocks freshChain ((List.range 21).map quietBlock ++ (List.range 20).map votingBlock)
  let returned ← beforeSchedule plainHost db (votingBlock 20)
  let decayed ← beforeHardforks plainHost db (votingBlock 20)
  let forked ← decayed.processHardforks
  return (db, returned, decayed, forked)

theorem hardforkOutcome_runs : hardforkOutcome.toOption.any fun (db, returned, decayed, forked) =>
    db.processedHardforks = [hardforkTimes 0] ∧
      forked.processedHardforks = [hardforkTimes 0, hardforkTimes 1] ∧
      ¬ decayed.hasHardfork 1 ∧
      (returned.recount none).any fun latest => latest.required = 17 ∧
        latest.votes.count (hardforkVersions 1, blurtGenesisTime + 120) = 18 := by
  decide +kernel

/-- Eighteen witnesses of the second round vote for a hardfork, which is applied at its end. -/
theorem secondRound_hardfork : ∃ (db decayed forked : Database) (latest : HardforkCount)
    (version time : Nat), Reachable plainHost db ∧ db.processedHardforks = [hardforkTimes 0] ∧
      beforeHardforks plainHost db (votingBlock 20) = .ok decayed ∧
      decayed.processHardforks = .ok forked ∧
      forked.processedHardforks = [hardforkTimes 0, hardforkTimes 1] ∧ latest.required = 17 ∧
      latest.votes.count (hardforkVersions 1, blurtGenesisTime + 120) = 18 ∧
      latest.Decides version time ∧ hardforkVersions 1 ≤ version ∧ time ≤ decayed.dgp.time := by
  obtain ⟨⟨db, returned, decayed, forked⟩, hrun, hfacts⟩ :=
    (Option.any_eq_true _ _).mp hardforkOutcome_runs
  obtain ⟨hbefore, hafter, hnot, hlatest⟩ := of_decide_eq_true hfacts
  obtain ⟨latest, hlatest, hvotes⟩ := (Option.any_eq_true _ _).mp hlatest
  obtain ⟨hrequired, hvotes⟩ := of_decide_eq_true hvotes
  have houtcome := eq_ok_of_toOption hrun
  simp only [hardforkOutcome, bind_eq_ok] at houtcome
  obtain ⟨_, hdb, _, hreturned, _, hdecayed, _, hforked, houtcome⟩ := houtcome
  cases houtcome
  obtain ⟨start, hstart, hblocks⟩ := bind_eq_ok.mp hdb
  obtain ⟨count, hcounted⟩ := (Counted.genesis hstart).blocks hblocks
  have hhas : forked.hasHardfork 1 := by
    rw [hasHardfork, hafter]
    decide
  obtain ⟨counted, version, time, hcount, hdecides, hversion, htime⟩ :=
    (counted_hardforks hcounted).2.2.1 _ _ _ _ 1 hreturned hdecayed hforked hnot hhas
  cases (recount_of_none hlatest count).symm.trans hcount
  exact ⟨db, decayed, forked, latest, version, time, afterBlocks_reachable hdb, hbefore, hdecayed,
    hforked, hafter, hrequired, hvotes, hdecides, hversion, htime⟩

end Sample

end Ledger

end Blurt
