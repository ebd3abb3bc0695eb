import Blurt.Ledger.FrameMaintenance
import Blurt.Ledger.Polls
import Blurt.Ledger.VoteMana

/-! # The polls of a database

Every operation is a run of the machine of votes, as long as the reward funds weigh votes by the
convergent square root.
-/

namespace Blurt

namespace Ledger

open Outcome

namespace Database

variable {db db' : Database}

/-- The votes for witnesses and comments. -/
def polls (db : Database) : Polls where
  virtualTime := db.wso.currentVirtualTime
  clocks := db.witnesses.view Witness.clock
  tallies := db.comments.view Comment.tally
  nextComment := db.nextIds.comment
  weights := db.commentVotes.view (·.weight)

/-- No account has a debt of mana. -/
def Solvent (db : Database) : Prop :=
  ∀ name a, db.accounts.find? name = some a → 0 ≤ a.votingManabar.currentMana

theorem Solvent.set {name : AccountName} {a : Account} (h : db.Solvent)
    (ha : 0 ≤ a.votingManabar.currentMana) :
    Solvent { db with accounts := db.accounts.set name a } := by
  intro other b hb
  rw [Store.find?_set] at hb
  split at hb
  · cases hb
    exact ha
  · exact h other b hb

/-- A change that is a run of the machine, and that keeps the rate at which votes use mana. -/
structure Polled (db db' : Database) : Prop where
  rate : db'.dgp.votePowerReserveRate = db.dgp.votePowerReserveRate
  convergent : Convergent db.rewardFunds → Convergent db'.rewardFunds
  runs : Convergent db.rewardFunds → Polls.Runs db.polls db'.polls
  solvent : db.Solvent → db'.Solvent

theorem Polled.refl (db : Database) : Polled db db := ⟨rfl, id, fun _ => .refl, id⟩

theorem Polled.trans {db'' : Database} (h : Polled db db') (h' : Polled db' db'') :
    Polled db db'' where
  rate := h'.rate.trans h.rate
  convergent hdb := h'.convergent (h.convergent hdb)
  runs hdb := (h.runs hdb).trans (h'.runs (h.convergent hdb))
  solvent hdb := h'.solvent (h.solvent hdb)

/-- A change that the machine does not see. -/
structure Unseen (db db' : Database) : Prop where
  polls : db'.polls = db.polls
  rate : db'.dgp.votePowerReserveRate = db.dgp.votePowerReserveRate
  funds : db'.rewardFunds = db.rewardFunds
  solvent : db.Solvent → db'.Solvent

theorem Unseen.trans {db'' : Database} (h : Unseen db db') (h' : Unseen db' db'') :
    Unseen db db'' :=
  ⟨h'.polls.trans h.polls, h'.rate.trans h.rate, h'.funds.trans h.funds,
    fun hdb => h'.solvent (h.solvent hdb)⟩

theorem Unseen.polled (h : Unseen db db') : Polled db db' where
  rate := h.rate
  convergent hdb := h.funds ▸ hdb
  runs _ := h.polls ▸ .refl
  solvent := h.solvent

theorem Polled.unseen (hpolls : db'.polls = db.polls)
    (hrate : db'.dgp.votePowerReserveRate = db.dgp.votePowerReserveRate)
    (hfunds : db'.rewardFunds = db.rewardFunds) (hsolvent : db.Solvent → db'.Solvent) :
    Polled db db' :=
  Unseen.polled ⟨hpolls, hrate, hfunds, hsolvent⟩

/-- A step of the machine. -/
theorem Polled.step (hstep : Polls.Step db.polls db'.polls)
    (hrate : db'.dgp.votePowerReserveRate = db.dgp.votePowerReserveRate)
    (hfunds : db'.rewardFunds = db.rewardFunds) (hsolvent : db.Solvent → db'.Solvent) :
    Polled db db' where
  rate := hrate
  convergent hdb := hfunds ▸ hdb
  runs _ := .single hstep
  solvent := hsolvent

theorem setWitness_polled {name : AccountName} {w v : Witness}
    (hw : db.witnesses.find? name = some w) (hclock : v.clock = w.clock) :
    Polled db { db with witnesses := db.witnesses.set name v } := by
  refine .unseen ?_ rfl rfl (fun h => h)
  simp only [polls, Table.view_quiet hw hclock]

theorem setComment_unseen {id : Nat} {c d : Comment} (hc : db.comments.find? id = some c)
    (htally : d.tally = c.tally) : Unseen db (db.setComment id d) := by
  refine ⟨?_, rfl, rfl, fun h => h⟩
  simp only [polls, setComment, Table.view_quiet hc htally]

/-- A change of the votes for a witness sets its clock. -/
theorem adjustWitnessVote_spec {witness : AccountName} {delta : Int}
    (h : db.adjustWitnessVote witness delta = .ok db') :
    ∃ w v votes, db.witnesses.find? witness = some w ∧
      w.clock.Adjusted db.wso.currentVirtualTime votes v.clock ∧
      { db with witnesses := db.witnesses.set witness v } = db' := by
  simp only [adjustWitnessVote, getWitness, bind_eq_ok, require_eq_ok, shareType_eq_ok] at h
  obtain ⟨w, hw, votes, ⟨hrange, rfl⟩, h⟩ := h
  split at h
  · simp only [bind_eq_ok, pure_eq_ok] at h
    obtain ⟨_, -, _, -, lap, hlap, h⟩ := h
    exact ⟨w, _, _, hw, ⟨hrange, lap, hlap, rfl⟩, h⟩
  · simp only [bind_eq_ok, pure_eq_ok] at h
    obtain ⟨_, -, lap, hlap, h⟩ := h
    exact ⟨w, _, _, hw, ⟨hrange, lap, hlap, rfl⟩, h⟩

theorem adjustWitnessVote_polled (witness : AccountName) (delta : Int) :
    Always (db.adjustWitnessVote witness delta) (Polled db) := by
  intro db' h
  obtain ⟨w, v, votes, hw, hclock, rfl⟩ := adjustWitnessVote_spec h
  refine .step ?_ rfl rfl (fun h => h)
  simp only [polls, Table.view_set]
  refine .adjust ?_ hclock
  rw [Table.find?_view, hw, Option.map_some]

theorem polled_frame : Frame Polled where
  refl := Polled.refl
  trans h h' := h.trans h'
  beside := by
    intro db db' h
    simp only [outlook, Outlook.mk.injEq] at h
    obtain ⟨-, -, -, -, hrate, hwso, -, -, haccounts, -, -, -, -, hfunds, hcomments, hvotes, hwitnesses, -,
      -, hnext, -⟩ := h
    refine .unseen ?_ hrate hfunds fun h => by rwa [Solvent, haccounts]
    simp only [polls, hwso, hcomments, hvotes, hwitnesses, hnext]
  account ha hkept := .unseen rfl rfl rfl fun h => h.set (hkept.mana (h _ _ ha))
  witness hw _ hclock _ := setWitness_polled hw hclock
  comment hc _ htally := (setComment_unseen hc htally).polled
  funds := by
    rintro db db' ⟨⟨funds, rfl⟩, hconvergent⟩
    exact ⟨rfl, hconvergent, fun _ => .refl, fun h => h⟩
  escrow := .unseen rfl rfl rfl fun h => h
  witnessVote h := adjustWitnessVote_polled _ _ _ h

/-! ## Accounts and witnesses -/

theorem createAccount_polled (creator name : AccountName) (memoKey : PublicKey)
    (owner active posting : Authority) :
    Always (db.createAccount creator name memoKey owner active posting) (Polled db) :=
  .ensure fun _ => .pure (.unseen rfl rfl rfl fun h => h.set le_rfl)

theorem accountCreate_polled (o : AccountCreateOperation) :
    Always (db.accountCreate o) (Polled db) := by
  refine .skip fun _ => .ensure fun _ => .skip fun _ => .skip fun _ => .skip fun _ => ?_
  refine (adjustBalance_framed polled_frame _ _).bind fun debited hdebited => ?_
  refine (adjustBalance_framed polled_frame _ _).bind fun burned hburned => ?_
  exact (createAccount_polled _ _ _ _ _ _).mono fun _ h => (hdebited.trans hburned).trans h

theorem updateOwnerAuthority_polled (account : AccountName) (owner : Authority) :
    Always (db.updateOwnerAuthority account owner) (Polled db) :=
  .skip fun _ => .pure (.unseen rfl rfl rfl (fun h => h))

theorem accountUpdate_polled (o : AccountUpdateOperation) :
    Always (db.accountUpdate o) (Polled db) := by
  refine .ensure fun _ => .skip fun _ => .skip fun _ => .skip fun _ => .skip fun _ => ?_
  refine .skip fun _ => .skip fun _ => ?_
  have hrest : ∀ owned, Polled db owned → Always (do
      forAuthority o.active owned.verifyAuthorityAccountsExist
      forAuthority o.posting owned.verifyAuthorityAccountsExist
      let updated ← owned.modifyAccount o.account fun acc => .ok { acc with
        memoKey := if o.memoKey.all (· = 0) then acc.memoKey else o.memoKey.getD acc.memoKey
        lastAccountUpdate := db.dgp.time }
      let auth ← Outcome.require (updated.authorities.find? o.account) "unknown key"
      return { updated with authorities := updated.authorities.set o.account { auth with
        active := o.active.getD auth.active
        posting := o.posting.getD auth.posting } }) (Polled db) := by
    intro owned howned
    refine .skip fun _ => .skip fun _ => (modifyAccount_framed polled_frame ?_).bind ?_
    · exact fun _ => .ok ⟨rfl, fun h => h⟩
    · intro updated hupdated
      exact .skip fun auth => .pure ((howned.trans hupdated).trans (.unseen rfl rfl rfl (fun h => h)))
  dsimp only
  split
  · refine .ensure fun _ => .skip fun _ => ?_
    exact (updateOwnerAuthority_polled _ _).bind fun owned howned => hrest owned howned
  · exact hrest db (.refl db)

theorem createClaimedAccount_polled (o : CreateClaimedAccountOperation) :
    Always (db.createClaimedAccount o) (Polled db) := by
  refine .ensure fun _ => .skip fun _ => .ensure fun _ => .skip fun _ => .skip fun _ => ?_
  refine .skip fun _ => (modifyAccount_framed polled_frame ?_).bind fun claimed hclaimed => ?_
  · exact fun _ => .ok ⟨rfl, fun h => h⟩
  · exact (createAccount_polled _ _ _ _ _ _).mono fun _ h => hclaimed.trans h

theorem requestAccountRecovery_polled (o : RequestAccountRecoveryOperation) :
    Always (db.requestAccountRecovery o) (Polled db) := by
  refine .skip fun account => ?_
  have hset : ∀ requests, Polled db { db with recoveryRequests := requests } :=
    fun _ => .unseen rfl rfl rfl (fun h => h)
  dsimp only
  split
  · refine .ensure fun _ => ?_
    split
    · exact .ensure fun _ => .ensure fun _ => .skip fun _ => .skip fun _ => .pure (hset _)
    · split
      · exact .pure (hset _)
      · exact .ensure fun _ => .skip fun _ => .pure (hset _)
  · refine .ensure fun _ => ?_
    split
    · exact .ensure fun _ => .ensure fun _ => .skip fun _ => .skip fun _ => .pure (hset _)
    · split
      · exact .pure (hset _)
      · exact .ensure fun _ => .skip fun _ => .pure (hset _)

theorem recoverAccount_polled (o : RecoverAccountOperation) :
    Always (db.recoverAccount o) (Polled db) := by
  refine .skip fun _ => .ensure fun _ => .skip fun _ => .ensure fun _ => .ensure fun _ => ?_
  have hrequest : Polled db { db with
      recoveryRequests := db.recoveryRequests.remove o.accountToRecover } :=
    .unseen rfl rfl rfl (fun h => h)
  refine (updateOwnerAuthority_polled _ _).bind fun owned howned => ?_
  refine (modifyAccount_framed polled_frame ?_).mono fun _ h => (hrequest.trans howned).trans h
  exact fun _ => .ok ⟨rfl, fun h => h⟩

theorem changeRecoveryAccount_polled (o : ChangeRecoveryAccountOperation) :
    Always (db.changeRecoveryAccount o) (Polled db) := by
  refine .skip fun _ => .skip fun _ => ?_
  dsimp only
  split
  · exact .pure (.unseen rfl rfl rfl (fun h => h))
  · exact .pure (.unseen rfl rfl rfl (fun h => h))

/-- A new witness starts at time 0 without a lap to end. -/
theorem witnessUpdate_polled (o : WitnessUpdateOperation) :
    Always (db.witnessUpdate o) (Polled db) := by
  refine .skip fun _ => .ensure fun _ => .ensure fun _ => .ensure fun _ => .pure ?_
  cases hprevious : db.witnesses.find? o.owner with
  | some w =>
      refine .unseen ?_ rfl rfl (fun h => h)
      have hclock := Table.view_quiet (f := Witness.clock) (v := w) (w := { w with
        url := o.url
        signingKey := o.blockSigningKey
        props := { w.props with
          accountCreationFee := .blurt o.props.accountCreationFee
          maximumBlockSize := o.props.maximumBlockSize } }) hprevious rfl
      simp only [polls, Option.getD_some, hclock]
  | none =>
      refine .step ?_ rfl rfl (fun h => h)
      simp only [polls, Option.getD_none, Table.view_set]
      apply Polls.Step.register
      rw [Table.find?_view, hprevious, Option.map_none]

theorem witnessSetProperties_polled (host : Host) (o : WitnessSetPropertiesOperation) :
    Always (witnessSetProperties host db o) (Polled db) := by
  intro db' h
  simp only [witnessSetProperties, getWitness, bind_eq_ok, require_eq_ok] at h
  obtain ⟨witness, hwitness, _, -, _, -, _, -, _, -, h⟩ := h
  have hset : Polled db { db with
      witnesses := db.witnesses.set o.owner (Witness.setProperties witness o.props) } :=
    setWitness_polled hwitness rfl
  split at h
  · obtain ⟨fee, -, h⟩ := bind_eq_ok.mp h
    exact hset.trans (payFee_framed polled_frame _ _ _ h)
  · cases h
    exact hset

/-! ## Comments -/

theorem updateAncestors_unseen (change : Nat → Nat) (turns id : Nat) :
    Always (db.updateAncestors change id turns) (Unseen db) := by
  induction turns generalizing db id with
  | zero => exact .error _
  | succ turns ih =>
      refine (getCommentById_found id).bind fun parent hparent => ?_
      have hset : Unseen db (db.setComment id
          { parent with children := change parent.children, active := db.dgp.time }) :=
        setComment_unseen hparent rfl
      dsimp only
      split
      · exact .skip fun next => (ih _).mono fun _ h => hset.trans h
      · exact .pure hset

theorem createComment_polled (parent : Option (Nat × Comment)) (o : CommentOperation) :
    Always (db.createComment parent o) (Polled db) := by
  have hcreated : ∀ posted, Polled db posted → Polled db { posted with
      comments := posted.comments.set posted.nextIds.comment
        (posted.newComment posted.nextIds.comment (parent.map (·.2)) o)
      nextIds := { posted.nextIds with comment := posted.nextIds.comment + 1 } } := by
    intro posted hposted
    refine hposted.trans (.step ?_ rfl rfl (fun h => h))
    simp only [polls, Table.view_set]
    exact .post ⟨rfl, rfl⟩
  refine .skip fun auth => ?_
  cases parent with
  | none =>
      refine .ensure fun _ => (modifyAccount_framed polled_frame ?_).bind fun posted hposted => ?_
      · exact fun _ => .ok ⟨rfl, fun h => h⟩
      · exact .skip fun _ => .skip fun _ => .pure (hcreated posted hposted)
  | some pair =>
      refine .skip fun _ => .ensure fun _ => .ensure fun _ =>
        (modifyAccount_framed polled_frame ?_).bind fun posted hposted => .skip fun _ => .skip fun _ => ?_
      · exact fun _ => .ok ⟨rfl, fun h => h⟩
      · refine (updateAncestors_unseen _ _ _).mono fun _ h => ?_
        exact (hcreated posted hposted).trans h.polled

theorem comment_polled (rules : TextRules) (o : CommentOperation) :
    Always (comment rules db o) (Polled db) := by
  refine .ensure fun _ => .skip fun _ => .skip fun parent => .ensure fun _ => ?_
  split
  · exact createComment_polled parent o
  · rename_i id existing hfind
    have hc : db.comments.find? id = some existing :=
      Store.mem_rows_iff.mp (List.mem_of_find?_eq_some hfind)
    exact editComment_framed polled_frame parent hc o

/-- The votes of a comment are removed by its voters. -/
theorem view_foldl_votersOf (id : Nat) :
    ((db.votersOf id).foldl (fun votes voter => votes.remove (id, voter)) db.commentVotes).view
      (·.weight) = Polls.forget id (db.commentVotes.view (·.weight)) := by
  have hfind : ∀ (voters : List AccountName) (votes : Store (Nat × AccountName) CommentVote) key,
      (voters.foldl (fun votes voter => votes.remove (id, voter)) votes).find? key =
        if key.1 = id ∧ key.2 ∈ voters then none else votes.find? key := by
    intro voters votes key
    induction voters generalizing votes with
    | nil => simp
    | cons voter rest ih =>
        rw [List.foldl_cons, ih, Store.find?_remove]
        by_cases hid : key.1 = id
        · by_cases hvoter : key.2 = voter
          · have hkey : key = (id, voter) := Prod.ext hid hvoter
            simp [hkey]
          · have hkey : key ≠ (id, voter) := fun h => hvoter (h ▸ rfl)
            simp [hid, hvoter, hkey]
        · have hkey : key ≠ (id, voter) := fun h => hid (h ▸ rfl)
          simp [hid, hkey]
  apply Table.ext_find?
  intro key
  rw [Table.find?_view, hfind, Polls.forget, Table.find?_filterKeys, Table.find?_view]
  by_cases hid : key.1 = id
  · have hvoted : ∀ vote, db.commentVotes.find? key = some vote → key.2 ∈ db.votersOf id := by
      intro vote hvote
      rw [votersOf]
      refine List.mem_map.mpr ⟨(key, vote), Store.mem_ordered_iff.mpr ⟨hvote, ?_⟩, rfl⟩
      simpa using hid
    cases hvote : db.commentVotes.find? key with
    | none => simp [hid]
    | some vote => simp [hid, hvoted vote hvote]
  · simp [hid]

theorem deleteComment_polled (o : DeleteCommentOperation) :
    Always (db.deleteComment o) (Polled db) := by
  refine .skip fun row => .ensure fun _ => .ensure fun _ => .ensure fun _ => ?_
  let commentVotes := (db.votersOf row.1).foldl (fun votes voter => votes.remove (row.1, voter))
    db.commentVotes
  have hdelete : ∀ orphaned : Database, Unseen { db with commentVotes } orphaned →
      Polled db { orphaned with comments := orphaned.comments.remove row.1 } := by
    intro orphaned h
    refine .step ?_ h.rate h.funds h.solvent
    have hpolls : ({ orphaned with comments := orphaned.comments.remove row.1 } : Database).polls =
        { orphaned.polls with tallies := orphaned.polls.tallies.remove row.1 } := by
      simp only [polls, Table.view_remove]
    rw [hpolls, h.polls]
    simp only [commentVotes, polls, view_foldl_votersOf]
    exact .delete row.1
  dsimp only
  split
  · refine .skip fun parent => (updateAncestors_unseen _ _ _).bind fun orphaned h => .pure ?_
    exact hdelete orphaned h
  · exact .pure (hdelete _ ⟨rfl, rfl, rfl, fun h => h⟩)

/-! ## Votes for comments -/

/-- A change of accounts, comments and votes after which the same comments are paid at the
same times. -/
structure VotedBeside (db db' : Database) : Prop where
  same : ∃ accounts comments commentVotes, db' = { db with accounts, comments, commentVotes }
  cashouts : db'.comments.view (·.cashoutTime) = db.comments.view (·.cashoutTime)

theorem VotedBeside.refl (db : Database) : VotedBeside db db := ⟨⟨_, _, _, rfl⟩, rfl⟩

theorem VotedBeside.trans {db'' : Database} (h : VotedBeside db db') (h' : VotedBeside db' db'') :
    VotedBeside db db'' := by
  obtain ⟨⟨_, _, _, rfl⟩, hcashouts⟩ := h
  obtain ⟨⟨_, _, _, rfl⟩, hcashouts'⟩ := h'
  exact ⟨⟨_, _, _, rfl⟩, hcashouts'.trans hcashouts⟩

theorem setComment_votedBeside {id : Nat} {c d : Comment} (hc : db.comments.find? id = some c)
    (htime : d.cashoutTime = c.cashoutTime) : VotedBeside db (db.setComment id d) :=
  ⟨⟨_, _, _, rfl⟩, Table.view_quiet hc htime⟩

theorem recordVote_votedBeside (voter : AccountName) (used absRshares : Int) (root : Nat) :
    Always (db.recordVote voter used absRshares root) (VotedBeside db) := by
  intro recorded h
  obtain ⟨accounts, c, children, hc, rfl⟩ := recordVote_spec h
  exact ⟨⟨_, _, _, rfl⟩, Table.view_quiet hc rfl⟩

theorem castVote_votedBeside (id : Nat) (o : VoteOperation) (used absRshares : Int) :
    Always (db.castVote id o used absRshares) fun db' => VotedBeside db db' ∧
      ∃ row, db.getRewardFund = .ok row := by
  refine .ensure fun _ => (getCommentById_found id).bind fun c hc => ?_
  have hadd : Always (Comment.addVote (db.hasHardfork 4)
      (if o.weight < 0 then -absRshares else absRshares) absRshares c) fun voted =>
        voted.cashoutTime = c.cashoutTime :=
    .skip fun _ => .skip fun _ => .skip fun _ => .pure rfl
  refine hadd.bind fun voted hvoted => ?_
  refine (recordVote_votedBeside _ _ _ _).bind fun recorded hrecorded => ?_
  have hbefore := (setComment_votedBeside hc hvoted).trans hrecorded
  refine (getCommentById_found id).bind fun current hcurrent db' h => ?_
  simp only [curationWeight, bind_eq_ok] at h
  obtain ⟨_, ⟨row, hfund, -⟩, h⟩ := h
  cases h
  refine ⟨hbefore.trans ⟨⟨_, _, _, rfl⟩, Table.view_quiet hcurrent rfl⟩, row, ?_⟩
  obtain ⟨⟨_, _, _, rfl⟩, -⟩ := hbefore
  exact hfund

theorem recastVote_votedBeside (id : Nat) (previous : CommentVote) (o : VoteOperation)
    (used absRshares : Int) :
    Always (db.recastVote id previous o used absRshares) (VotedBeside db) := by
  refine .ensure fun _ => .ensure fun _ => (getCommentById_found id).bind fun c hc => ?_
  have hchange : Always (Comment.changeVote (if o.weight < 0 then -absRshares else absRshares)
      absRshares previous.rshares c) fun voted => voted.cashoutTime = c.cashoutTime :=
    .skip fun _ => .skip fun _ => .skip fun _ => .pure rfl
  refine hchange.bind fun voted hvoted => ?_
  refine (recordVote_votedBeside _ _ _ _).bind fun recorded hrecorded => ?_
  refine (getCommentById_found id).bind fun current hcurrent => .pure ?_
  have hbefore := (setComment_votedBeside hc hvoted).trans hrecorded
  exact hbefore.trans ⟨⟨_, _, _, rfl⟩, Table.view_quiet hcurrent rfl⟩

theorem voteAfterPayout_votedBeside (clearVotes : Bool) (id : Nat) (o : VoteOperation) :
    VotedBeside db (db.voteAfterPayout clearVotes id o) := by
  rw [voteAfterPayout]
  split <;> exact ⟨⟨_, _, _, rfl⟩, rfl⟩

/-- A vote changes accounts, comments and votes; a first one is weighed by a reward fund. -/
theorem vote_votedBeside (clearVotes : Bool) (o : VoteOperation) :
    Always (db.vote clearVotes o) fun db' => VotedBeside db db' ∧
    ∀ id c, db.getComment o.author o.permlink = .ok (id, c) → c.cashoutTime ≠ maximumTime →
      db.commentVotes.find? (id, o.voter) = none → ∃ row, db.getRewardFund = .ok row := by
  intro db' h
  simp only [vote, bind_eq_ok, ensure_eq_ok] at h
  obtain ⟨⟨id, c⟩, hrow, _, -, _, -, _, -, _, -, h⟩ := h
  split at h
  · rename_i hpaid
    cases h
    refine ⟨voteAfterPayout_votedBeside clearVotes id o, fun k d hrow' hopen => ?_⟩
    rw [hrow] at hrow'
    cases hrow'
    exact absurd hpaid hopen
  · simp only [bind_eq_ok, ensure_eq_ok] at h
    obtain ⟨_, -, _, -, _, -, charged, hcharged, _, -, _, -, used, -, absRshares, -, h⟩ := h
    obtain ⟨a, b, -, -, rfl⟩ := modifyAccount_spec hcharged
    have hcharged : VotedBeside db { db with accounts := db.accounts.set o.voter b } :=
      ⟨⟨_, _, _, rfl⟩, rfl⟩
    split at h
    · obtain ⟨hcast, row, hfund⟩ := castVote_votedBeside _ _ _ _ _ h
      exact ⟨hcharged.trans hcast, fun _ _ _ _ _ => ⟨row, hfund⟩⟩
    · rename_i previous hprevious
      refine ⟨hcharged.trans (recastVote_votedBeside _ _ _ _ _ _ h), fun k d hrow' _ hnone => ?_⟩
      rw [hrow] at hrow'
      cases hrow'
      rw [hprevious] at hnone
      cases hnone

/-- A comment that a vote weighs, in the tallies. -/
theorem VotedBeside.tallies (h : VotedBeside db db') {id : Nat} {c : Comment} {rshares : Int}
    {total : Nat} (hc : db.comments.find? id = some c)
    (hafter : (db'.comments.find? id).map Comment.weighed = some (rshares, total))
    (hothers : db.OthersWeighed db' id) :
    db'.comments.view Comment.tally = (db.comments.view Comment.tally).set id
      { c.tally with voteRshares := rshares, totalVoteWeight := total } := by
  have htime : ∀ k, (db'.comments.find? k).map (·.cashoutTime) =
      (db.comments.find? k).map (·.cashoutTime) := by
    intro k
    rw [← Table.find?_view, ← Table.find?_view, h.cashouts]
  apply Table.ext_find?
  intro k
  rw [Table.find?_set, Table.find?_view, Table.find?_view]
  split
  · rename_i hk
    subst hk
    obtain ⟨d, hd, hweighed⟩ := Option.map_eq_some_iff.mp hafter
    have hcashout := htime k
    rw [hd, hc, Option.map_some, Option.map_some, Option.some.injEq] at hcashout
    rw [hd, Option.map_some, Comment.tally, hcashout]
    rw [Comment.weighed, Prod.mk.injEq] at hweighed
    rw [hweighed.1, hweighed.2]
    rfl
  · rename_i hk
    have hcashout := htime k
    have hweighed := hothers k hk
    cases hd : db'.comments.find? k with
    | none =>
        rw [hd, Option.map_none, eq_comm, Option.map_eq_none_iff] at hweighed
        rw [hweighed]
    | some d =>
        rw [hd, Option.map_some, eq_comm, Option.map_eq_some_iff] at hweighed
        obtain ⟨e, he, hsame⟩ := hweighed
        rw [hd, he, Option.map_some, Option.map_some, Option.some.injEq] at hcashout
        rw [Comment.weighed, Comment.weighed, Prod.mk.injEq] at hsame
        rw [he, Option.map_some, Option.map_some, Comment.tally, Comment.tally, hcashout, hsame.1,
          hsame.2]

/-- In a convergent fund a first vote raises the weight by at most its rshares. -/
theorem Cast.gain_le {id : Nat} {voter : AccountName} {absRshares : Int} {c : Comment} {gain : Nat}
    (h : db.Cast db' id voter absRshares c gain) (habs : 0 ≤ absRshares)
    (hfunds : Convergent db.rewardFunds) (hfund : ∃ row, db.getRewardFund = .ok row)
    (hlow : 0 ≤ c.voteRshares) : (gain : Int) ≤ absRshares := by
  obtain ⟨⟨k, fund⟩, hfund⟩ := hfund
  have hrow := hfund
  rw [getRewardFund, require_eq_ok] at hrow
  obtain ⟨⟨hcurve, -⟩, hpos, hlt⟩ := hfunds k fund (Store.mem_rows_iff.mp (List.mem_of_find?_eq_some hrow))
  let s := if db.hasHardfork 4 then blurtCurationConstant else fund.contentConstant
  have hs : 0 < s ∧ s < 2 ^ 64 := by
    dsimp only [s]
    split
    · decide
    · exact ⟨hpos, hlt⟩
  have hweighed : db.WeighedBy .convergentSquareRoot s :=
    ⟨⟨k, fund, hfund, hcurve, rfl⟩, by decide, hs.1, hs.2⟩
  by_cases hrewarded : 0 < absRshares ∧ db.Rewarded c
  · rw [h.rewarded _ s hweighed hlow hrewarded.1 hrewarded.2]
    have hgain := @weightOf_gain s c.voteRshares.toNat (c.voteRshares + absRshares).toNat hs.1
      (by omega)
    omega
  · rw [h.unrewarded _ s hweighed hlow hrewarded]
    exact habs

theorem vote_solvent {clearVotes : Bool} {o : VoteOperation} (h : db.vote clearVotes o = .ok db')
    (hdb : db.Solvent) :
    db'.Solvent := by
  rcases vote_charged h with haccounts | ⟨filled, used, hcharged⟩
  · rwa [Solvent, haccounts]
  · rw [Solvent, hcharged.accounts]
    exact hdb.set (Manabar.useMana_nonneg _ _)

theorem vote_polled (clearVotes : Bool) (o : VoteOperation) :
    Always (db.vote clearVotes o) (Polled db) := by
  intro db' h
  obtain ⟨hbeside, hfund⟩ := vote_votedBeside clearVotes o db' h
  obtain ⟨id, c, hrow, hcase⟩ := vote_spec h
  have hc := getComment_found _ _ _ hrow
  have htally : (db.comments.view Comment.tally).find? id = some c.tally := by
    rw [Table.find?_view, hc, Option.map_some]
  have hsame : db'.wso = db.wso ∧ db'.witnesses = db.witnesses ∧ db'.nextIds = db.nextIds ∧
      db'.dgp = db.dgp ∧ db'.rewardFunds = db.rewardFunds := by
    obtain ⟨⟨_, _, _, rfl⟩, -⟩ := hbeside
    exact ⟨rfl, rfl, rfl, rfl, rfl⟩
  obtain ⟨hwso, hwitnesses, hnext, hdgp, hfunds⟩ := hsame
  refine ⟨by rw [hdgp], fun hdb => hfunds ▸ hdb, fun hdb => ?_, vote_solvent h⟩
  rcases hcase with ⟨hpaid, rfl⟩ | ⟨hopen, ⟨hfirst, absRshares, d, gain, habs, hcast⟩ |
    ⟨previous, d, hprevious, hrecast⟩⟩
  · rw [voteAfterPayout]
    split
    · exact Relation.ReflTransGen.refl
    · simp only [polls, Table.view_set]
      exact .single (.late htally hpaid)
  · cases hcast.found.symm.trans hc
    obtain ⟨cv, hweight, hvotes⟩ := hcast.vote
    simp only [polls, hwso, hwitnesses, hnext, hvotes, Table.view_set,
      hbeside.tallies hc hcast.after hcast.others]
    refine .single (.cast (t := c.tally) htally hopen ?_ habs hcast.inRange ?_ hweight)
    · rw [Table.find?_view, hfirst, Option.map_none]
    · exact hcast.gain_le habs hdb (hfund id _ hrow hopen hfirst)
  · cases hrecast.found.symm.trans hc
    obtain ⟨cv, hweight, hvotes⟩ := hrecast.vote
    simp only [polls, hwso, hwitnesses, hnext, hvotes, Table.view_set, hweight,
      hbeside.tallies hc hrecast.after hrecast.others]
    refine .single (.recast (t := c.tally) htally hopen ?_)
    rw [Table.find?_view, hprevious, Option.map_some]

/-! ## All operations -/

/-- Every operation is a run of the machine. -/
theorem applyOperation_polled (host : Host) (op : Operation) :
    Always (applyOperation host db op) (Polled db) := by
  have hR := polled_frame
  cases op with
  | vote o => exact vote_polled host.clearVotes o
  | comment o => exact comment_polled host.rules o
  | transfer o => exact transfer_framed hR o
  | transferToVesting o => exact transferToVesting_framed hR o
  | withdrawVesting o => exact withdrawVesting_framed hR o
  | accountCreate o => exact accountCreate_polled o
  | accountUpdate o => exact accountUpdate_polled o
  | witnessUpdate o => exact witnessUpdate_polled o
  | accountWitnessVote o => exact accountWitnessVote_framed hR o
  | accountWitnessProxy o => exact accountWitnessProxy_framed hR o
  | custom o => exact .ensure fun _ => .ensure fun _ => .pure (.refl db)
  | deleteComment o => exact deleteComment_polled o
  | customJson o => exact .ensure fun _ => .ensure fun _ => .pure (.refl db)
  | commentOptions o => exact commentOptions_framed hR o
  | setWithdrawVestingRoute o => exact setWithdrawVestingRoute_framed hR o
  | claimAccount o => exact claimAccount_framed hR host o
  | createClaimedAccount o => exact createClaimedAccount_polled o
  | requestAccountRecovery o => exact requestAccountRecovery_polled o
  | recoverAccount o => exact recoverAccount_polled o
  | changeRecoveryAccount o => exact changeRecoveryAccount_polled o
  | escrowTransfer o => exact escrowTransfer_framed hR (.unseen rfl rfl rfl fun h => h) o
  | escrowDispute o => exact escrowDispute_framed (.unseen rfl rfl rfl fun h => h) o
  | escrowRelease o => exact escrowRelease_framed hR (.unseen rfl rfl rfl fun h => h) o
  | escrowApprove o => exact escrowApprove_framed hR (.unseen rfl rfl rfl fun h => h) o
  | transferToSavings o => exact transferToSavings_framed hR o
  | transferFromSavings o => exact transferFromSavings_framed hR o
  | cancelTransferFromSavings o => exact cancelTransferFromSavings_framed hR o
  | customBinary o => exact .ensure fun _ => .ensure fun _ => .pure (.refl db)
  | declineVotingRights o => exact declineVotingRights_framed hR o
  | resetAccount o => exact .error _
  | setResetAccount o => exact .error _
  | claimRewardBalance o => exact claimRewardBalance_framed hR o
  | delegateVestingShares o => exact delegateVestingShares_framed hR o
  | witnessSetProperties o => exact witnessSetProperties_polled host o
  | createProposal o => exact createProposal_framed hR o
  | updateProposalVotes o => exact .ok (updateProposalVotes_framed hR o)
  | removeProposal o => exact removeProposal_framed hR host o

end Database

end Ledger

end Blurt
