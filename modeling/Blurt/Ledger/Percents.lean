import Blurt.Ledger.Block

/-! # Percentages that users set

A route of a power-down and the liquid part of a payout are set in percent when they are
stored. Nothing else in the ledger changes them, so they stay within a hundred percent.
-/

namespace Blurt

namespace Ledger

open Outcome

namespace Database

/-- The routes of power-downs and the liquid parts of payouts are at most all. -/
structure Percents (db : Database) : Prop where
  routes : ∀ key r, db.withdrawRoutes.find? key = some r → r.percent ≤ blurt100Percent
  comments : ∀ id c, db.comments.find? id = some c → c.percentBlurt ≤ blurt100Percent

/-- What a step keeps of the percentages. -/
def KeepsPercents (db db' : Database) : Prop := db.Percents → db'.Percents

variable {db db' db'' : Database}

namespace KeepsPercents

theorem refl (db : Database) : KeepsPercents db db := id

theorem trans (h : KeepsPercents db db') (h' : KeepsPercents db' db'') : KeepsPercents db db'' :=
  h' ∘ h

/-- A change of anything else. -/
theorem beside (hroutes : db'.withdrawRoutes = db.withdrawRoutes)
    (hcomments : db'.comments = db.comments) : KeepsPercents db db' :=
  fun h => ⟨hroutes ▸ h.routes, hcomments ▸ h.comments⟩

/-- A step after a change of anything else. -/
theorem after (h : KeepsPercents db' db'') (hroutes : db'.withdrawRoutes = db.withdrawRoutes)
    (hcomments : db'.comments = db.comments) : KeepsPercents db db'' :=
  (beside hroutes hcomments).trans h

theorem comment {id : Nat} {c d : Comment} (hc : db.comments.find? id = some c)
    (hroutes : db'.withdrawRoutes = db.withdrawRoutes)
    (hcomments : db'.comments = db.comments.set id d) (hless : d.percentBlurt ≤ c.percentBlurt) :
    KeepsPercents db db' := by
  refine fun h => ⟨hroutes ▸ h.routes, fun other e he => ?_⟩
  rw [hcomments, Store.find?_set] at he
  split at he
  · cases he
    exact hless.trans (h.comments id c hc)
  · exact h.comments other e he

theorem newComment {id : Nat} {c : Comment} (hc : c.percentBlurt ≤ blurt100Percent)
    (hroutes : db'.withdrawRoutes = db.withdrawRoutes)
    (hcomments : db'.comments = db.comments.set id c) : KeepsPercents db db' := by
  refine fun h => ⟨hroutes ▸ h.routes, fun other e he => ?_⟩
  rw [hcomments, Store.find?_set] at he
  split at he
  · cases he
    exact hc
  · exact h.comments other e he

theorem fewerComments (id : Nat) (hroutes : db'.withdrawRoutes = db.withdrawRoutes)
    (hcomments : db'.comments = db.comments.remove id) : KeepsPercents db db' := by
  refine fun h => ⟨hroutes ▸ h.routes, fun other e he => ?_⟩
  rw [hcomments, Store.find?_remove] at he
  split at he
  · cases he
  · exact h.comments other e he

theorem route {key : AccountName × AccountName} {r : WithdrawVestingRoute}
    (hr : r.percent ≤ blurt100Percent)
    (hroutes : db'.withdrawRoutes = db.withdrawRoutes.set key r)
    (hcomments : db'.comments = db.comments) : KeepsPercents db db' := by
  refine fun h => ⟨fun other s hs => ?_, hcomments ▸ h.comments⟩
  rw [hroutes, Store.find?_set] at hs
  split at hs
  · cases hs
    exact hr
  · exact h.routes other s hs

theorem fewerRoutes (key : AccountName × AccountName)
    (hroutes : db'.withdrawRoutes = db.withdrawRoutes.remove key)
    (hcomments : db'.comments = db.comments) : KeepsPercents db db' := by
  refine fun h => ⟨fun other s hs => ?_, hcomments ▸ h.comments⟩
  rw [hroutes, Store.find?_remove] at hs
  split at hs
  · cases hs
  · exact h.routes other s hs

/-- Two steps. -/
theorem chain {first : Except String Database} {rest : Database → Except String Database}
    (h : Always first (KeepsPercents db)) (hrest : ∀ d, Always (rest d) (KeepsPercents d)) :
    Always (first >>= rest) (KeepsPercents db) :=
  h.bind fun d hd => (hrest d).mono fun _ => hd.trans

/-- A step, and a change of anything else. -/
theorem last {first : Except String Database} {f : Database → Database}
    (h : Always first (KeepsPercents db))
    (hroutes : ∀ d, (f d).withdrawRoutes = d.withdrawRoutes)
    (hcomments : ∀ d, (f d).comments = d.comments) :
    Always (first >>= fun d => pure (f d)) (KeepsPercents db) :=
  h.bind fun d hd => .pure (hd.trans (beside (hroutes d) (hcomments d)))

end KeepsPercents

/-! ## Accounts and witnesses -/

theorem modifyAccount_percents (name : AccountName) (update : Account → Except String Account) :
    Always (db.modifyAccount name update) (KeepsPercents db) :=
  .skip fun _ => .skip fun _ => .pure (.beside rfl rfl)

theorem adjustBalance_percents (name : AccountName) (delta : Asset) :
    Always (db.adjustBalance name delta) (KeepsPercents db) := by
  unfold adjustBalance
  refine .skip fun account => ?_
  split
  · exact .skip fun _ => .ensure fun _ => modifyAccount_percents name _
  · exact modifyAccount_percents name _

theorem adjustSavingsBalance_percents (name : AccountName) (delta : Asset) :
    Always (db.adjustSavingsBalance name delta) (KeepsPercents db) :=
  modifyAccount_percents name _

theorem adjustRewardBalance_percents (name : AccountName) (value : Asset) (shares : Int) :
    Always (db.adjustRewardBalance name value shares) (KeepsPercents db) :=
  .ensure fun _ => .ensure fun _ => modifyAccount_percents name _

theorem adjustSupply_percents (delta : Int) (adjustVesting : Bool) :
    Always (db.adjustSupply delta adjustVesting) (KeepsPercents db) :=
  .skip fun _ => .skip fun _ => .skip fun _ => .ensure fun _ => .pure (.beside rfl rfl)

theorem modifyWitness_percents (name : AccountName) (f : Witness → Witness) :
    KeepsPercents db (db.modifyWitness name f) := by
  unfold modifyWitness
  split
  · exact .beside rfl rfl
  · exact .refl db

theorem adjustWitnessVote_percents (witness : AccountName) (delta : Int) :
    Always (db.adjustWitnessVote witness delta) (KeepsPercents db) := by
  refine .skip fun w => .skip fun votes => ?_
  dsimp only
  split
  · exact .skip fun _ => .ensure fun _ => .skip fun _ => .pure (.beside rfl rfl)
  · exact .ensure fun _ => .skip fun _ => .pure (.beside rfl rfl)

theorem adjustWitnessVotes_percents (account : AccountName) (delta : Int) :
    Always (db.adjustWitnessVotes account delta) (KeepsPercents db) :=
  .forEach (.refl db) fun _ witness _ h =>
    (adjustWitnessVote_percents witness delta).mono fun _ => h.trans

theorem clearWitnessVotes_percents (account : AccountName) :
    Always (db.clearWitnessVotes account) (KeepsPercents db) :=
  (modifyAccount_percents account _).mono fun _ h => h.after rfl rfl

theorem adjustProxiedArray_percents (delta : VoteDelta) (levels : Nat) (name : AccountName) :
    Always (db.adjustProxiedArray name delta levels) (KeepsPercents db) := by
  induction levels generalizing db name with
  | zero =>
      refine .skip fun a => ?_
      split
      · exact .pure (.refl db)
      · exact adjustWitnessVotes_percents name _
  | succ levels ih =>
      refine .skip fun a => ?_
      split
      · exact .chain (modifyAccount_percents _ _) fun _ => ih _
      · exact .skip fun _ => adjustWitnessVotes_percents name _

theorem adjustProxiedShare_percents (delta : Int) (levels : Nat) (name : AccountName) :
    Always (db.adjustProxiedShare name delta levels) (KeepsPercents db) := by
  induction levels generalizing db name with
  | zero =>
      refine .skip fun a => ?_
      split
      · exact .pure (.refl db)
      · exact adjustWitnessVotes_percents name _
  | succ levels ih =>
      refine .skip fun a => ?_
      split
      · exact .chain (modifyAccount_percents _ _) fun _ => ih _
      · exact adjustWitnessVotes_percents name _

theorem createVesting_percents (toAccount : AccountName) (liquid : Asset) :
    Always (db.createVesting toAccount liquid) fun result => KeepsPercents db result.1 := by
  refine .skip fun _ => .skip fun price => .skip fun newVesting => ?_
  refine (modifyAccount_percents _ _).bind fun charged hcharged => ?_
  refine (adjustBalance_percents _ _).bind fun credited hcredited => .skip fun _ => .skip fun _ => ?_
  refine (adjustProxiedShare_percents _ _ _).bind fun voted hvoted => .pure ?_
  exact (hcharged.trans hcredited).trans (hvoted.after rfl rfl)

theorem createRewardVesting_percents (toAccount : AccountName) (liquid : Asset) :
    Always (db.createRewardVesting toAccount liquid) fun result => KeepsPercents db result.1 := by
  refine .skip fun _ => .skip fun price => .skip fun newVesting => ?_
  refine (adjustRewardBalance_percents _ _ _).bind fun rewarded h => ?_
  exact .skip fun _ => .skip fun _ => .pure (h.trans (.beside rfl rfl))

end Database

end Ledger

end Blurt
