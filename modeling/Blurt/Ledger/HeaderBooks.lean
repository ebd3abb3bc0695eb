import Blurt.Ledger.Block
import Blurt.Ledger.BooksLaws

/-! # What is not seen in the books

The header of a block, the schedule of the witnesses, the subsidies and the hardforks move
no funds, no shares and no votes.
-/

namespace Blurt

namespace Ledger

open Outcome

namespace Database

/-- The books are as before. -/
def Unbooked (db db' : Database) : Prop := db'.books = db.books

variable {db db' db'' : Database}

theorem Unbooked.refl (db : Database) : Unbooked db db := rfl

theorem Unbooked.trans (h : Unbooked db db') (h' : Unbooked db' db'') : Unbooked db db'' :=
  Eq.trans h' h

/-! ## The schedule -/

theorem modifyWitness_unbooked (db : Database) (name : AccountName) {f : Witness → Witness}
    (hf : ∀ w, (f w).votes = w.votes) : Unbooked db (db.modifyWitness name f) := by
  unfold modifyWitness
  split
  · rename_i w hw
    exact books_setWitness_quiet db _ hw (hf w)
  · exact .refl db

theorem markSchedule_unbooked (db : Database) (schedule : WitnessScheduleType)
    (rows : List (AccountName × Witness)) : Unbooked db (db.markSchedule schedule rows) := by
  unfold markSchedule
  refine List.foldlRecOn (motive := Unbooked db) _ _ (.refl db) fun state h row _ => ?_
  exact h.trans (modifyWitness_unbooked state row.1 fun _ => rfl)

theorem startLaps_unbooked (newVirtualTime : Nat) (rows : List (AccountName × Witness)) :
    Always (startLaps newVirtualTime db rows) fun result => Unbooked db result.1 := by
  induction rows generalizing db with
  | nil => exact .ok (.refl db)
  | cons row rest ih =>
      rw [startLaps]
      refine .skip fun lap => ?_
      dsimp only
      split
      · exact .pure (.refl db)
      · exact ih.mono fun _ => Unbooked.trans (modifyWitness_unbooked db row.1 fun _ => rfl)

theorem resetVirtualScheduleTime_unbooked : Always db.resetVirtualScheduleTime (Unbooked db) := by
  refine .forEach rfl fun state row _ h => .skip fun lap => .pure ?_
  exact Unbooked.trans h (modifyWitness_unbooked state row.1 fun _ => rfl)

theorem updateMedianWitnessProps_unbooked : Always db.updateMedianWitnessProps (Unbooked db) := by
  intro db' h
  simp only [updateMedianWitnessProps, bind_eq_ok, pure_eq_ok] at h
  obtain ⟨_, -, _, -, _, -, _, -, _, -, _, -, _, -, _, -, _, -, _, -, _, -, _, -, _, -, rfl⟩ := h
  rfl

theorem updateWitnessSchedule_unbooked : Always db.updateWitnessSchedule (Unbooked db) := by
  unfold updateWitnessSchedule
  split
  · exact .pure (.refl db)
  · dsimp only
    have hchosen := (markSchedule_unbooked db .elected (electedRows db.wso.maxVotedWitnesses
      db.witnessesByVote)).trans (markSchedule_unbooked _ .timeshare (runnersUp
        ((electedRows db.wso.maxVotedWitnesses db.witnessesByVote).map (·.1))
        (blurtMaxWitnesses - (electedRows db.wso.maxVotedWitnesses db.witnessesByVote).length)
        db.witnessesByScheduleTime).2)
    refine (startLaps_unbooked _ _).bind fun started hstarted => ?_
    have hadvanced := hchosen.trans hstarted
    refine .branch (resetVirtualScheduleTime_unbooked.mono fun _ => hadvanced.trans) (.ok hadvanced)
      fun timed h => ?_
    refine .ensure fun _ => .skip fun scheduled => ?_
    exact updateMedianWitnessProps_unbooked.mono fun _ => Unbooked.trans h

theorem processSubsidizedAccounts_unbooked : Always db.processSubsidizedAccounts (Unbooked db) := by
  intro db' h
  simp only [processSubsidizedAccounts, getWitness, bind_eq_ok, require_eq_ok] at h
  obtain ⟨_, -, currentWitness, hwitness, h⟩ := h
  split at h
  · simp only [bind_eq_ok, pure_eq_ok] at h
    obtain ⟨_, -, rfl⟩ := h
    exact books_setWitness_quiet _ _ hwitness rfl
  · cases h
    rfl

/-! ## Hardforks -/

theorem setRewardFund_unbooked (db : Database) {id : Nat} {f : RewardFund} (g : RewardFund)
    (hf : db.rewardFunds.find? id = some f) (hbalance : g.rewardBalance = f.rewardBalance) :
    Unbooked db { db with rewardFunds := db.rewardFunds.set id g } := by
  simp only [Unbooked, books]
  rw [Table.view_quiet hf hbalance]

theorem getRewardFund_found {row : Nat × RewardFund} (h : db.getRewardFund = .ok row) :
    db.rewardFunds.find? row.1 = some row.2 := by
  rw [getRewardFund, require_eq_ok] at h
  exact Store.mem_rows_iff.mp (List.mem_of_find?_eq_some h)

theorem modifyRewardFund_unbooked {update : RewardFund → RewardFund}
    (hupdate : ∀ f, (update f).rewardBalance = f.rewardBalance) :
    Always (db.modifyRewardFund update) (Unbooked db) := by
  intro db' h
  simp only [modifyRewardFund, bind_eq_ok, pure_eq_ok] at h
  obtain ⟨row, hrow, rfl⟩ := h
  exact setRewardFund_unbooked db _ (getRewardFund_found hrow) (hupdate _)

theorem applyHardfork_unbooked (hardfork : Nat) : Always (db.applyHardfork hardfork) (Unbooked db) := by
  have hchanges : Always (db.hardforkChanges hardfork) (Unbooked db) := by
    unfold hardforkChanges
    split
    · exact modifyRewardFund_unbooked fun _ => rfl
    · exact modifyRewardFund_unbooked fun _ => rfl
    · exact modifyRewardFund_unbooked fun _ => rfl
    · exact .ok (.refl db)
  refine hchanges.bind fun changed h => .ensure fun _ => .ensure fun _ => .ensure fun _ => ?_
  exact .pure (h.trans rfl)

theorem processHardforks_unbooked : Always db.processHardforks (Unbooked db) := by
  refine .drain (.refl db) fun state hardfork h _ => ?_
  unfold processHardfork
  split
  · exact (applyHardfork_unbooked hardfork).mono fun _ => h.trans
  · exact .error _

theorem startHardforks_unbooked (timestamp : Nat) :
    Always (db.startHardforks timestamp) (Unbooked db) := by
  have hset : ∀ hardfork, Always (db.setHardfork hardfork) (Unbooked db) := by
    refine fun hardfork => .forEach (.refl db) fun state i _ h => ?_
    exact (applyHardfork_unbooked i).mono fun _ happly => h.trans happly
  unfold startHardforks
  dsimp only
  split
  · refine (hset _).bind fun started hstarted => .ensure fun _ => .pure ?_
    refine List.foldlRecOn (motive := Unbooked db) _ _ hstarted fun state h row _ => ?_
    exact h.trans (modifyWitness_unbooked state row.1 fun _ => rfl)
  · exact .pure (.refl db)

/-! ## The header -/

theorem visitExtension_unbooked (witness : AccountName) (extension : BlockHeaderExtension) :
    Always (visitExtension witness db extension) (Unbooked db) := by
  intro db' h
  unfold visitExtension at h
  split at h
  · simp only [getWitness, bind_eq_ok, require_eq_ok, pure_eq_ok] at h
    obtain ⟨w, hw, rfl⟩ := h
    exact books_setWitness_quiet db _ hw rfl
  · simp only [getWitness, bind_eq_ok, require_eq_ok] at h
    obtain ⟨w, hw, h⟩ := h
    split at h
    · cases h
      exact books_setWitness_quiet db _ hw rfl
    · cases h
      rfl
  · simp only [bind_eq_ok, pure_eq_ok] at h
    obtain ⟨_, -, _, -, rfl⟩ := h
    rfl

theorem openBlock_unbooked (b : LedgerBlock) : Always (db.openBlock b) (Unbooked db) := by
  refine .branch (startHardforks_unbooked _) (.ok (.refl db)) fun started hstarted => ?_
  refine .ensure fun _ => .skip fun _ => .ensure fun _ => ?_
  have hsigned : Unbooked db
      { started with dgp := { started.dgp with currentWitness := b.witness } } := hstarted
  have hextended := Always.forEach hsigned fun state extension (_ : extension ∈ b.extensions) h =>
    (visitExtension_unbooked b.witness extension).mono fun _ => h.trans
  exact hextended.bind fun extended h => .skip fun _ => .ensure fun _ => .pure h

end Database

end Ledger

end Blurt
