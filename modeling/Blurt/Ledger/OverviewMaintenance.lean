import Blurt.Ledger.FrameMaintenance
import Blurt.Ledger.OverviewOperations

/-! # What the maintenance of a block changes of the overview

The schedule, the hardforks and the recovery of accounts change the parts of the overview
that they are about. The rest of the maintenance changes none of it.
-/

namespace Blurt

namespace Ledger

open Outcome

/-- The overview without what the recovery of accounts is about. -/
def Overview.besideRecovery (v : Overview) : Overview :=
  { v with
    recoveryRequests := ∅
    ownerHistory := ∅
    changeRecoveryRequests := ∅
    recoveryAccounts := ∅ }

/-- The overview without the hardforks. -/
def Overview.besideHardforks (v : Overview) : Overview :=
  { v with processedHardforks := [], hardforks := {} }

namespace Database

variable {db : Database}

/-! ## Payouts of comments -/

theorem quiet_cashedOut : CashedOut Quiet := fun _ _ _ _ _ hc =>
  (setComment_quiet hc rfl).trans (Quiet.of_eq rfl rfl)

/-! ## The recovery of accounts -/

theorem accountRecoveryProcessing_keeps :
    Always db.accountRecoveryProcessing (Keeps Overview.besideRecovery db) := by
  have hrefl := Keeps.refl Overview.besideRecovery db
  refine Always.bind (Always.drain hrefl fun state row h _ => ?_) fun requested hrequested => ?_
  · exact .ok (h.trans (Keeps.of_see rfl rfl))
  · refine Always.bind (Always.drain hrequested fun state row h _ => ?_) fun historic hhistoric => ?_
    · exact .ok (h.trans (Keeps.of_see rfl rfl))
    · refine .drain hhistoric fun state row h _ db' hdb' => ?_
      simp only [applyRecoveryChange, modifyAccount, bind_eq_ok, pure_eq_ok] at hdb'
      obtain ⟨_, ⟨a, -, b, -, rfl⟩, rfl⟩ := hdb'
      exact h.trans (Keeps.of_see rfl rfl)

/-! ## The schedule and hardforks -/

theorem startLaps_quiet (newVirtualTime : Nat) (rows : List (AccountName × Witness)) :
    Always (startLaps newVirtualTime db rows) fun result => Quiet db result.1 := by
  induction rows generalizing db with
  | nil => exact .ok (Keeps.refl _ _)
  | cons row rest ih =>
      rw [startLaps]
      refine .skip fun lap => ?_
      dsimp only
      split
      · exact .pure (Keeps.refl _ _)
      · refine ih.mono fun _ h => Keeps.trans (modifyWitness_quiet ?_ ?_) h
        · exact fun _ => rfl
        · exact fun _ => id

theorem resetVirtualScheduleTime_keeps :
    Always db.resetVirtualScheduleTime
      (Keeps (fun v => { v with wso := { v.wso with currentVirtualTime := 0 } }) db) := by
  refine .forEach (Keeps.of_see rfl rfl) fun state row _ h => .skip fun lap => .pure ?_
  refine h.trans (Keeps.seenBy (modifyWitness_quiet ?_ ?_) _)
  · exact fun _ => rfl
  · exact fun _ => id

theorem applyHardfork_keeps (hardfork : Nat) :
    Always (db.applyHardfork hardfork) (Keeps Overview.besideHardforks db) := by
  refine (hardforkChanges_framed quiet_frame hardfork).bind fun changed h => ?_
  refine .ensure fun _ => .ensure fun _ => .ensure fun _ => .pure ?_
  exact (h.seenBy _).trans (Keeps.of_see rfl rfl)

theorem setHardfork_keeps (hardfork : Nat) :
    Always (db.setHardfork hardfork) (Keeps Overview.besideHardforks db) := by
  refine .forEach (Keeps.refl _ _) fun state i _ h => (applyHardfork_keeps i).mono fun _ happly => ?_
  exact h.trans (happly.after rfl rfl)

theorem processHardforks_keeps :
    Always db.processHardforks (Keeps Overview.besideHardforks db) := by
  refine .drain (Keeps.refl _ _) fun state hardfork h _ => ?_
  unfold processHardfork
  split
  · exact (applyHardfork_keeps hardfork).mono fun _ => h.trans
  · exact .error _

end Database

end Ledger

end Blurt
