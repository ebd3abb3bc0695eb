import Blurt.Ledger.FrameOperations
import Blurt.Ledger.OverviewFrames

/-! # What an operation changes of the overview

An operation changes at most the part of the overview that it is about.
-/

namespace Blurt

namespace Ledger

open Outcome

/-- The overview without what an operation may change. -/
def Overview.beyond (op : Operation) (v : Overview) : Overview :=
  match op with
  | .accountCreate _ | .createClaimedAccount _ => { v with authorities := ∅, recoveryAccounts := ∅ }
  | .accountUpdate _ => { v with authorities := ∅, ownerHistory := ∅, nextOwnerHistory := 0 }
  | .witnessUpdate _ => { v with witnesses := ∅, nextWitness := 0 }
  | .witnessSetProperties _ => { v with witnesses := ∅ }
  | .comment _ | .deleteComment _ => { v with comments := ∅, nextComment := 0 }
  | .requestAccountRecovery _ => { v with recoveryRequests := ∅ }
  | .recoverAccount _ =>
      { v with recoveryRequests := ∅, authorities := ∅, ownerHistory := ∅, nextOwnerHistory := 0 }
  | .changeRecoveryAccount _ => { v with changeRecoveryRequests := ∅ }
  | _ => v

namespace Database

variable {db : Database}

/-! ## Accounts -/

theorem createAccount_keeps (creator name : AccountName) (memoKey : PublicKey)
    (owner active posting : Authority) :
    Always (db.createAccount creator name memoKey owner active posting)
      (Keeps (fun v => { v with authorities := ∅, recoveryAccounts := ∅ }) db) :=
  .ensure fun _ => .pure (Keeps.of_see rfl rfl)

theorem accountCreate_keeps (o : AccountCreateOperation) :
    Always (db.accountCreate o) (Keeps (Overview.beyond (.accountCreate o)) db) := by
  refine .skip fun _ => .ensure fun _ => .skip fun _ => .skip fun _ => .skip fun _ => ?_
  refine (adjustBalance_framed quiet_frame _ _).bind fun debited hdebited => ?_
  refine (adjustBalance_framed quiet_frame _ _).bind fun burned hburned => ?_
  refine (createAccount_keeps _ _ _ _ _ _).mono fun _ hcreated => ?_
  exact ((hdebited.trans hburned).seenBy _).trans hcreated

theorem updateOwnerAuthority_keeps (account : AccountName) (owner : Authority) :
    Always (db.updateOwnerAuthority account owner)
      (Keeps (fun v => { v with authorities := ∅, ownerHistory := ∅, nextOwnerHistory := 0 }) db) :=
  .skip fun _ => .pure (Keeps.of_see rfl rfl)

theorem accountUpdate_keeps (o : AccountUpdateOperation) :
    Always (db.accountUpdate o) (Keeps (Overview.beyond (.accountUpdate o)) db) := by
  refine .ensure fun _ => .skip fun _ => .skip fun _ => .skip fun _ => .skip fun _ => ?_
  refine .skip fun _ => .skip fun _ => ?_
  have hrest : ∀ owned, Keeps (Overview.beyond (.accountUpdate o)) db owned →
      Always (do
        forAuthority o.active owned.verifyAuthorityAccountsExist
        forAuthority o.posting owned.verifyAuthorityAccountsExist
        let updated ← owned.modifyAccount o.account fun acc => .ok { acc with
          memoKey := if o.memoKey.all (· = 0) then acc.memoKey else o.memoKey.getD acc.memoKey
          lastAccountUpdate := db.dgp.time }
        let auth ← Outcome.require (updated.authorities.find? o.account) "unknown key"
        return { updated with authorities := updated.authorities.set o.account { auth with
          active := o.active.getD auth.active
          posting := o.posting.getD auth.posting } })
        (Keeps (Overview.beyond (.accountUpdate o)) db) := by
    intro owned howned
    refine .skip fun _ => .skip fun _ => ?_
    refine (modifyAccount_framed quiet_frame ?_).bind fun updated hupdated => ?_
    · exact fun _ => .ok ⟨rfl, fun h => h⟩
    · refine .skip fun auth => .pure ?_
      exact (howned.trans (hupdated.seenBy _)).trans (Keeps.of_see rfl rfl)
  dsimp only
  split
  · refine .ensure fun _ => .skip fun _ => ?_
    exact (updateOwnerAuthority_keeps _ _).bind fun owned howned => hrest owned howned
  · exact hrest db (Keeps.refl _ _)

theorem createClaimedAccount_keeps (o : CreateClaimedAccountOperation) :
    Always (db.createClaimedAccount o) (Keeps (Overview.beyond (.createClaimedAccount o)) db) := by
  refine .ensure fun _ => .skip fun _ => .ensure fun _ => .skip fun _ => .skip fun _ => ?_
  refine .skip fun _ => (modifyAccount_framed quiet_frame ?_).bind fun claimed hclaimed => ?_
  · exact fun _ => .ok ⟨rfl, fun h => h⟩
  · refine (createAccount_keeps _ _ _ _ _ _).mono fun _ hcreated => ?_
    exact (hclaimed.seenBy _).trans hcreated

theorem requestAccountRecovery_keeps (o : RequestAccountRecoveryOperation) :
    Always (db.requestAccountRecovery o)
      (Keeps (Overview.beyond (.requestAccountRecovery o)) db) := by
  refine .skip fun account => ?_
  dsimp only
  split
  · refine .ensure fun _ => ?_
    split
    · exact .ensure fun _ => .ensure fun _ => .skip fun _ => .skip fun _ => .pure (Keeps.of_see rfl rfl)
    · split
      · exact .pure (Keeps.of_see rfl rfl)
      · exact .ensure fun _ => .skip fun _ => .pure (Keeps.of_see rfl rfl)
  · refine .ensure fun _ => ?_
    split
    · exact .ensure fun _ => .ensure fun _ => .skip fun _ => .skip fun _ => .pure (Keeps.of_see rfl rfl)
    · split
      · exact .pure (Keeps.of_see rfl rfl)
      · exact .ensure fun _ => .skip fun _ => .pure (Keeps.of_see rfl rfl)

theorem recoverAccount_keeps (o : RecoverAccountOperation) :
    Always (db.recoverAccount o) (Keeps (Overview.beyond (.recoverAccount o)) db) := by
  refine .skip fun _ => .ensure fun _ => .skip fun _ => .ensure fun _ => .ensure fun _ => ?_
  refine (updateOwnerAuthority_keeps _ _).bind fun owned howned => ?_
  have hrequest : Keeps (Overview.beyond (.recoverAccount o)) db owned :=
    ⟨congrArg (fun v : Overview => { v with recoveryRequests := ∅ }) howned.seen, howned.ready⟩
  refine (modifyAccount_framed quiet_frame ?_).mono fun _ h => hrequest.trans (h.seenBy _)
  exact fun _ => .ok ⟨rfl, fun h => h⟩

theorem changeRecoveryAccount_keeps (o : ChangeRecoveryAccountOperation) :
    Always (db.changeRecoveryAccount o) (Keeps (Overview.beyond (.changeRecoveryAccount o)) db) := by
  refine .skip fun _ => .skip fun _ => ?_
  dsimp only
  split
  · exact .pure (Keeps.of_see rfl rfl)
  · exact .pure (Keeps.of_see rfl rfl)

/-! ## Witnesses -/

theorem witnessUpdate_keeps (o : WitnessUpdateOperation) :
    Always (db.witnessUpdate o) (Keeps (Overview.beyond (.witnessUpdate o)) db) := by
  refine .skip fun _ => .ensure fun _ => .ensure fun _ => .ensure fun _ => .pure ⟨rfl, ?_⟩
  intro hready name w hw
  rw [Store.find?_set] at hw
  split at hw
  · cases hw
    cases hprevious : db.witnesses.find? o.owner with
    | none =>
        -- a new witness has neither votes nor subsidies
        change wrapInt64 (0 + 1) ≠ 0 ∧ (0 : Int) ≤ 0 ∧ (0 : Int) < 2 ^ 63
        decide
    | some previous => exact hready o.owner previous hprevious
  · exact hready name w hw

theorem witnessSetProperties_keeps (host : Host) (o : WitnessSetPropertiesOperation) :
    Always (witnessSetProperties host db o) (Keeps (Overview.beyond (.witnessSetProperties o)) db) := by
  intro db' h
  simp only [witnessSetProperties, getWitness, bind_eq_ok, require_eq_ok] at h
  obtain ⟨witness, hwitness, _, -, _, -, _, -, _, -, h⟩ := h
  have hset : Keeps (Overview.beyond (.witnessSetProperties o)) db { db with
      witnesses := db.witnesses.set o.owner (Witness.setProperties witness o.props) } :=
    ⟨rfl, fun hready => hready.set hwitness id⟩
  split at h
  · obtain ⟨fee, -, h⟩ := bind_eq_ok.mp h
    exact hset.trans ((payFee_framed quiet_frame _ _ _ h).seenBy _)
  · cases h
    exact hset

/-! ## Comments and votes on comments -/

theorem updateAncestors_keeps (change : Nat → Nat) (turns id : Nat) :
    Always (db.updateAncestors change id turns)
      (Keeps (fun v => { v with comments := ∅, nextComment := 0 }) db) := by
  induction turns generalizing db id with
  | zero => exact .error _
  | succ turns ih =>
      refine .skip fun parent => ?_
      dsimp only
      split
      · exact .skip fun next => (ih _).mono fun _ h => h.after rfl rfl
      · exact .pure (Keeps.of_see rfl rfl)

theorem createComment_keeps (parent : Option (Nat × Comment)) (o : CommentOperation) :
    Always (db.createComment parent o) (Keeps (Overview.beyond (.comment o)) db) := by
  refine .skip fun auth => ?_
  cases parent with
  | none =>
      refine .ensure fun _ => (modifyAccount_framed quiet_frame ?_).bind fun posted hposted => ?_
      · exact fun _ => .ok ⟨rfl, fun h => h⟩
      · exact .skip fun _ => .skip fun _ => .pure ((hposted.seenBy _).trans (Keeps.of_see rfl rfl))
  | some pair =>
      refine .skip fun _ => .ensure fun _ => .ensure fun _ =>
        (modifyAccount_framed quiet_frame ?_).bind fun posted hposted => .skip fun _ => .skip fun _ => ?_
      · exact fun _ => .ok ⟨rfl, fun h => h⟩
      · refine (updateAncestors_keeps _ _ _).mono fun _ h => ?_
        exact (hposted.seenBy _).trans (h.after rfl rfl)

theorem comment_keeps (rules : TextRules) (o : CommentOperation) :
    Always (comment rules db o) (Keeps (Overview.beyond (.comment o)) db) := by
  refine .ensure fun _ => .skip fun _ => .skip fun parent => .ensure fun _ => ?_
  split
  · exact createComment_keeps parent o
  · rename_i id existing hfind
    have hc : db.comments.find? id = some existing :=
      Store.mem_rows_iff.mp (List.mem_of_find?_eq_some hfind)
    exact (editComment_framed quiet_frame parent hc o).mono fun _ h => h.seenBy _

theorem deleteComment_keeps (o : DeleteCommentOperation) :
    Always (db.deleteComment o) (Keeps (Overview.beyond (.deleteComment o)) db) := by
  refine .skip fun row => .ensure fun _ => .ensure fun _ => .ensure fun _ => ?_
  dsimp only
  split
  · refine .skip fun parent => (updateAncestors_keeps _ _ _).bind fun orphaned h => .pure ?_
    exact Keeps.trans (h.after rfl rfl) (Keeps.of_see rfl rfl)
  · exact .pure (Keeps.of_see rfl rfl)

theorem recordVote_quiet (voter : AccountName) (used absRshares : Int) (root : Nat) :
    Always (db.recordVote voter used absRshares root) (Quiet db) := by
  refine (modifyAccount_framed quiet_frame ?_).bind fun charged hcharged => ?_
  · exact fun _ => .ok ⟨rfl, fun _ => Manabar.useMana_nonneg _ _⟩
  · refine (getCommentById_found root).bind fun c hc => .skip fun _ => .pure ?_
    exact hcharged.trans (setComment_quiet hc rfl)

theorem addVote_place (hardfork4 : Bool) (rshares absRshares : Int) (c : Comment) :
    Always (Comment.addVote hardfork4 rshares absRshares c) fun voted => voted.place = c.place :=
  .skip fun _ => .skip fun _ => .skip fun _ => .pure rfl

theorem changeVote_place (rshares absRshares previous : Int) (c : Comment) :
    Always (Comment.changeVote rshares absRshares previous c) fun voted => voted.place = c.place :=
  .skip fun _ => .skip fun _ => .skip fun _ => .pure rfl

theorem castVote_quiet (id : Nat) (o : VoteOperation) (used absRshares : Int) :
    Always (db.castVote id o used absRshares) (Quiet db) := by
  refine .ensure fun _ => (getCommentById_found id).bind fun c hc => ?_
  refine (addVote_place _ _ _ c).bind fun voted hvoted => ?_
  refine (recordVote_quiet _ _ _ _).bind fun recorded hrecorded => ?_
  refine (getCommentById_found id).bind fun current hcurrent => .skip fun weights => .pure ?_
  refine (Keeps.trans (setComment_quiet hc hvoted) hrecorded).trans ?_
  exact (setComment_quiet hcurrent rfl).trans (Quiet.of_eq rfl rfl)

theorem recastVote_quiet (id : Nat) (previous : CommentVote) (o : VoteOperation)
    (used absRshares : Int) : Always (db.recastVote id previous o used absRshares) (Quiet db) := by
  refine .ensure fun _ => .ensure fun _ => (getCommentById_found id).bind fun c hc => ?_
  refine (changeVote_place _ _ _ c).bind fun voted hvoted => ?_
  refine (recordVote_quiet _ _ _ _).bind fun recorded hrecorded => ?_
  refine (getCommentById_found id).bind fun current hcurrent => .pure ?_
  refine (Keeps.trans (setComment_quiet hc hvoted) hrecorded).trans ?_
  exact Keeps.trans (setComment_quiet hcurrent rfl) (Quiet.of_eq rfl rfl)

theorem vote_quiet (clearVotes : Bool) (o : VoteOperation) :
    Always (db.vote clearVotes o) (Quiet db) := by
  refine .skip fun row => .skip fun voter => .ensure fun _ => .ensure fun _ => .ensure fun _ => ?_
  dsimp only
  split
  · refine .pure ?_
    rw [voteAfterPayout]
    split <;> exact Quiet.of_eq rfl rfl
  · refine .ensure fun _ => .ensure fun _ => .ensure fun _ => ?_
    refine (modifyAccount_framed quiet_frame fun a => updateManabar_keep _ a _).bind
      fun charged hcharged => ?_
    refine .skip fun _ => .ensure fun _ => .skip fun _ => .skip fun _ => ?_
    split
    · exact (castVote_quiet _ _ _ _).mono fun _ => hcharged.trans
    · exact (recastVote_quiet _ _ _ _ _).mono fun _ => hcharged.trans

/-! ## All operations -/

theorem applyOperation_keeps (host : Host) (op : Operation) :
    Always (applyOperation host db op) (Keeps (Overview.beyond op) db) := by
  have hquiet : ∀ {first : Except String Database}, Always first (Quiet db) →
      Always first (Keeps (Overview.beyond op) db) := fun h => h.mono fun _ h => h.seenBy _
  cases op with
  | vote o => exact hquiet (vote_quiet host.clearVotes o)
  | comment o => exact comment_keeps host.rules o
  | transfer o => exact hquiet (transfer_framed quiet_frame o)
  | transferToVesting o => exact hquiet (transferToVesting_framed quiet_frame o)
  | withdrawVesting o => exact hquiet (withdrawVesting_framed quiet_frame o)
  | accountCreate o => exact accountCreate_keeps o
  | accountUpdate o => exact accountUpdate_keeps o
  | witnessUpdate o => exact witnessUpdate_keeps o
  | accountWitnessVote o => exact hquiet (accountWitnessVote_framed quiet_frame o)
  | accountWitnessProxy o => exact hquiet (accountWitnessProxy_framed quiet_frame o)
  | custom o => exact .ensure fun _ => .ensure fun _ => .pure (Keeps.refl _ _)
  | deleteComment o => exact deleteComment_keeps o
  | customJson o => exact .ensure fun _ => .ensure fun _ => .pure (Keeps.refl _ _)
  | commentOptions o => exact hquiet (commentOptions_framed quiet_frame o)
  | setWithdrawVestingRoute o => exact hquiet (setWithdrawVestingRoute_framed quiet_frame o)
  | claimAccount o => exact hquiet (claimAccount_framed quiet_frame host o)
  | createClaimedAccount o => exact createClaimedAccount_keeps o
  | requestAccountRecovery o => exact requestAccountRecovery_keeps o
  | recoverAccount o => exact recoverAccount_keeps o
  | changeRecoveryAccount o => exact changeRecoveryAccount_keeps o
  | escrowTransfer o => exact hquiet (escrowTransfer_framed quiet_frame (.of_eq rfl rfl) o)
  | escrowDispute o => exact hquiet (escrowDispute_framed (.of_eq rfl rfl) o)
  | escrowRelease o => exact hquiet (escrowRelease_framed quiet_frame (.of_eq rfl rfl) o)
  | escrowApprove o => exact hquiet (escrowApprove_framed quiet_frame (.of_eq rfl rfl) o)
  | transferToSavings o => exact hquiet (transferToSavings_framed quiet_frame o)
  | transferFromSavings o => exact hquiet (transferFromSavings_framed quiet_frame o)
  | cancelTransferFromSavings o => exact hquiet (cancelTransferFromSavings_framed quiet_frame o)
  | customBinary o => exact .ensure fun _ => .ensure fun _ => .pure (Keeps.refl _ _)
  | declineVotingRights o => exact hquiet (declineVotingRights_framed quiet_frame o)
  | resetAccount o => exact .error _
  | setResetAccount o => exact .error _
  | claimRewardBalance o => exact hquiet (claimRewardBalance_framed quiet_frame o)
  | delegateVestingShares o => exact hquiet (delegateVestingShares_framed quiet_frame o)
  | witnessSetProperties o => exact witnessSetProperties_keeps host o
  | createProposal o => exact hquiet (createProposal_framed quiet_frame o)
  | updateProposalVotes o => exact .ok ((updateProposalVotes_framed quiet_frame o).seenBy _)
  | removeProposal o => exact hquiet (removeProposal_framed quiet_frame host o)

end Database

end Ledger

end Blurt
