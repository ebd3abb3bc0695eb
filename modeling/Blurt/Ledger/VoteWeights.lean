import Blurt.Ledger.CommentEvaluators
import Blurt.Ledger.RewardLaws

/-! # What a vote does to the weights of a comment

A first vote raises the rshares and the weight of a comment, a changed vote takes its own
weight back, and no other comment is weighed differently.
-/

namespace Blurt

namespace Ledger

open Outcome

/-- What the votes for a comment add up to. -/
def Comment.weighed (c : Comment) : Int × Nat := (c.voteRshares, c.totalVoteWeight)

namespace Database

variable {db db' recorded : Database} {id : Nat} {o : VoteOperation} {used absRshares : Int}

/-- Comments other than `id` are weighed as before. -/
def OthersWeighed (db db' : Database) (id : Nat) : Prop :=
  ∀ k, k ≠ id → (db'.comments.find? k).map Comment.weighed = (db.comments.find? k).map Comment.weighed

theorem modifyAccount_spec {name : AccountName} {update : Account → Except String Account}
    (h : db.modifyAccount name update = .ok db') :
    ∃ a b, db.accounts.find? name = some a ∧ update a = .ok b ∧
      db' = { db with accounts := db.accounts.set name b } := by
  simp only [modifyAccount, getAccount, bind_eq_ok, require_eq_ok, pure_eq_ok] at h
  obtain ⟨a, ha, b, hb, rfl⟩ := h
  exact ⟨a, b, ha, hb, rfl⟩

/-- A vote is recorded at the voter and in the rshares below the root. -/
theorem recordVote_spec {voter : AccountName} {root : Nat}
    (h : db.recordVote voter used absRshares root = .ok recorded) :
    ∃ accounts c children, db.comments.find? root = some c ∧
      recorded = { db with
        accounts
        comments := db.comments.set root { c with childrenAbsRshares := children } } := by
  simp only [recordVote, bind_eq_ok, pure_eq_ok] at h
  obtain ⟨charged, hcharged, c, hc, children, -, rfl⟩ := h
  obtain ⟨a, b, -, -, rfl⟩ := modifyAccount_spec hcharged
  rw [getCommentById, require_eq_ok] at hc
  exact ⟨_, c, children, hc, rfl⟩

/-- The comment that was voted for, after the vote is recorded. -/
theorem recordVote_current {voter : AccountName} {root : Nat} {voted : Comment}
    (h : (db.setComment id voted).recordVote voter used absRshares root = .ok recorded) :
    ∃ children, recorded.comments.find? id = some { voted with childrenAbsRshares := children } := by
  obtain ⟨accounts, c, children, hc, rfl⟩ := recordVote_spec h
  simp only [setComment, Store.find?_set] at hc ⊢
  split
  · rename_i heq
    rw [if_pos heq.symm] at hc
    cases hc
    exact ⟨children, rfl⟩
  · exact ⟨voted.childrenAbsRshares, if_pos trivial⟩

theorem recordVote_others {voter : AccountName} {root : Nat} {voted : Comment}
    (h : (db.setComment id voted).recordVote voter used absRshares root = .ok recorded) :
    db.OthersWeighed recorded id := by
  obtain ⟨accounts, c, children, hc, rfl⟩ := recordVote_spec h
  intro k hk
  simp only [setComment, Store.find?_set] at hc ⊢
  split
  · rename_i heq
    subst heq
    rw [if_neg hk] at hc
    rw [hc]
    rfl
  · rfl

/-! ## First votes -/

/-- A fund whose votes are weighed by `curve`. -/
structure WeighedBy (db : Database) (curve : CurveId) (s : Nat) : Prop where
  fund : ∃ k fund, db.getRewardFund = .ok (k, fund) ∧ fund.curationRewardCurve = curve ∧
    s = if db.hasHardfork 4 then blurtCurationConstant else fund.contentConstant
  curve : curve ∈ curationCurves
  pos : 0 < s
  lt : s < 2 ^ 64

/-- Votes for the comment earn a part of its curation rewards. -/
def Rewarded (db : Database) (c : Comment) : Prop :=
  c.lastPayout = 0 ∧ c.allowCurationRewards ∧
    ∃ k fund, db.getRewardFund = .ok (k, fund) ∧ 0 < fund.percentCurationRewards

/-- The weights of a first vote: the discount leaves at most what the comment gains. -/
theorem curationWeight_le {c : Comment} {rshares old : Int} {maxVoteWeight weight : Nat}
    (h : db.curationWeight c rshares old = .ok (maxVoteWeight, weight)) : weight ≤ maxVoteWeight := by
  simp only [curationWeight, bind_eq_ok] at h
  obtain ⟨row, -, h⟩ := h
  split at h
  · simp only [bind_eq_ok] at h
    obtain ⟨_, -, oldWeight, -, _, -, newWeight, -, h⟩ := h
    split at h
    · cases h
      exact Nat.le_refl _
    · simp only [bind_eq_ok, UInt128.div_eq_ok, UInt128.toUInt64_eq_ok, pure_eq_ok, Prod.mk.injEq] at h
      obtain ⟨_, ⟨hne, rfl⟩, _, ⟨-, rfl⟩, rfl, rfl⟩ := h
      apply Nat.div_le_of_le_mul
      refine (Nat.mod_le _ _).trans ?_
      rw [Nat.mul_comm]
      exact Nat.mul_le_mul_right _ (Nat.min_le_right _ _)
  · cases h
    exact Nat.le_refl _

/-- What a first vote adds to the weight of a comment. -/
theorem curationWeight_gain {curve : CurveId} {s : Nat} {c : Comment} {rshares : Int}
    {old maxVoteWeight weight : Nat} (hdb : db.WeighedBy curve s) (hold : old < 2 ^ 63)
    (hlow : 0 ≤ c.voteRshares) (hhigh : c.voteRshares < 2 ^ 63)
    (h : db.curationWeight c rshares old = .ok (maxVoteWeight, weight)) :
    (0 < rshares ∧ db.Rewarded c →
      maxVoteWeight = weightOf curve s c.voteRshares.toNat - weightOf curve s old) ∧
    (¬ (0 < rshares ∧ db.Rewarded c) → maxVoteWeight = 0) := by
  obtain ⟨k, fund, hfund, rfl, hs⟩ := hdb.fund
  have hcurve := hdb.curve
  simp only [curationWeight, bind_eq_ok, hfund, Except.ok.injEq, exists_eq_left', ← hs] at h
  have hopen : (0 < rshares ∧ db.Rewarded c) ↔ 0 < rshares ∧ c.lastPayout = 0 ∧
      c.allowCurationRewards ∧ 0 < fund.percentCurationRewards := by
    simp only [Rewarded, hfund, Except.ok.injEq, Prod.mk.injEq]
    aesop
  rw [hopen]
  split at h
  · rename_i hrewarded
    refine ⟨fun _ => ?_, fun hnot => absurd hrewarded hnot⟩
    rw [UInt128.ofInt_natCast (by omega), UInt128.ofInt_of_nonneg hlow hhigh,
      evaluateRewardCurve_eq hcurve hdb.pos hdb.lt hold,
      evaluateRewardCurve_eq hcurve hdb.pos hdb.lt (by omega)] at h
    simp only [ok_bind, bind_eq_ok, UInt128.toUInt64_eq_ok] at h
    obtain ⟨_, ⟨-, rfl⟩, _, ⟨-, rfl⟩, h⟩ := h
    split at h
    · cases h
      omega
    · simp only [bind_eq_ok, pure_eq_ok, Prod.mk.injEq] at h
      obtain ⟨_, -, _, -, rfl, -⟩ := h
      rfl
  · rename_i hunrewarded
    cases h
    exact ⟨fun hrewarded => absurd hrewarded hunrewarded, fun _ => rfl⟩

/-- What a first vote for a comment does to the weights. -/
structure Cast (db db' : Database) (id : Nat) (voter : AccountName) (absRshares : Int) (c : Comment)
    (gain : Nat) : Prop where
  found : db.comments.find? id = some c
  inRange : c.voteRshares + absRshares < 2 ^ 63
  after : (db'.comments.find? id).map Comment.weighed =
    some (c.voteRshares + absRshares, (c.totalVoteWeight + gain) % 2 ^ 64)
  others : db.OthersWeighed db' id
  vote : ∃ cv : CommentVote, cv.weight ≤ gain ∧ db'.commentVotes = db.commentVotes.set (id, voter) cv
  rewarded : ∀ curve s, db.WeighedBy curve s → 0 ≤ c.voteRshares → 0 < absRshares → db.Rewarded c →
    gain = weightOf curve s (c.voteRshares + absRshares).toNat - weightOf curve s c.voteRshares.toNat
  unrewarded : ∀ curve s, db.WeighedBy curve s → 0 ≤ c.voteRshares →
    ¬ (0 < absRshares ∧ db.Rewarded c) → gain = 0

theorem castVote_spec (hweight : 0 ≤ o.weight) (habs : 0 ≤ absRshares)
    (h : db.castVote id o used absRshares = .ok db') :
    ∃ c gain, db.Cast db' id o.voter absRshares c gain := by
  simp only [castVote, bind_eq_ok, ensure_eq_ok, if_neg (not_lt.mpr hweight), pure_eq_ok,
    getCommentById, require_eq_ok] at h
  obtain ⟨_, -, c, hc, voted, hvoted, recorded, hrecorded, current, hcurrent, ⟨gain, weight⟩, hgain,
    rfl⟩ := h
  simp only [Comment.addVote, bind_eq_ok, shareType_eq_ok, pure_eq_ok] at hvoted
  obtain ⟨net, -, total, -, rshares, ⟨hrange, hrshares⟩, rfl⟩ := hvoted
  have hsum : rshares = c.voteRshares + absRshares := by
    rw [← hrshares]
    split <;> omega
  obtain ⟨children, hchildren⟩ := recordVote_current hrecorded
  rw [hchildren] at hcurrent
  cases hcurrent
  have hothers := recordVote_others hrecorded
  have hbefore : 0 ≤ c.voteRshares → ((c.voteRshares.toNat : Nat) : Int) = c.voteRshares :=
    Int.toNat_of_nonneg
  obtain ⟨accounts, root, below, -, rfl⟩ := recordVote_spec hrecorded
  have hhigh : c.voteRshares + absRshares < 2 ^ 63 := by
    rw [← hsum]
    exact hrshares ▸ hrange.2
  have hspec : ∀ curve s, db.WeighedBy curve s → 0 ≤ c.voteRshares →
      (0 < absRshares ∧ db.Rewarded c →
        gain = weightOf curve s rshares.toNat - weightOf curve s c.voteRshares.toNat) ∧
      (¬ (0 < absRshares ∧ db.Rewarded c) → gain = 0) := by
    intro curve s hdb hlow
    have hold : c.voteRshares.toNat < 2 ^ 63 := by omega
    have hnew : 0 ≤ rshares := by omega
    have hnewHigh : rshares < 2 ^ 63 := by omega
    rw [← hbefore hlow] at hgain
    exact curationWeight_gain ⟨hdb.fund, hdb.curve, hdb.pos, hdb.lt⟩ hold hnew hnewHigh hgain
  refine ⟨c, gain, hc, hhigh, ?_, ?_, ?_, ?_, ?_⟩
  · simp only [setComment, Store.find?_set_self, Option.map_some, Comment.weighed, hsum]
  · intro k hk
    rw [← hothers k hk]
    simp only [setComment, Store.find?_set_of_ne hk]
  · exact ⟨_, curationWeight_le hgain, rfl⟩
  · intro curve s hdb hlow hpos hrewarded
    rw [(hspec curve s hdb hlow).1 ⟨hpos, hrewarded⟩, ← hsum]
  · intro curve s hdb hlow hunrewarded
    exact (hspec curve s hdb hlow).2 hunrewarded

/-- The accounts do not matter for the weights. -/
theorem Cast.of_accounts {accounts : Store AccountName Account} {voter : AccountName} {c : Comment}
    {gain : Nat} (h : Cast { db with accounts } db' id voter absRshares c gain) :
    db.Cast db' id voter absRshares c gain where
  found := h.found
  inRange := h.inRange
  after := h.after
  others := h.others
  vote := h.vote
  rewarded curve s hdb := h.rewarded curve s ⟨hdb.fund, hdb.curve, hdb.pos, hdb.lt⟩
  unrewarded curve s hdb := h.unrewarded curve s ⟨hdb.fund, hdb.curve, hdb.pos, hdb.lt⟩

/-! ## Changed votes -/

/-- What a changed vote does to the weights. -/
structure Recast (db db' : Database) (id : Nat) (voter : AccountName) (previous : CommentVote)
    (c : Comment) : Prop where
  found : db.comments.find? id = some c
  after : (db'.comments.find? id).map Comment.weighed =
    some (c.voteRshares, (c.totalVoteWeight + (2 ^ 64 - previous.weight)) % 2 ^ 64)
  others : db.OthersWeighed db' id
  vote : ∃ cv : CommentVote, cv.weight = 0 ∧ db'.commentVotes = db.commentVotes.set (id, voter) cv

theorem recastVote_spec {previous : CommentVote}
    (h : db.recastVote id previous o used absRshares = .ok db') :
    ∃ c, db.Recast db' id o.voter previous c := by
  simp only [recastVote, bind_eq_ok, ensure_eq_ok, pure_eq_ok, getCommentById, require_eq_ok] at h
  obtain ⟨_, -, _, -, c, hc, voted, hvoted, recorded, hrecorded, current, hcurrent, rfl⟩ := h
  simp only [Comment.changeVote, bind_eq_ok, shareType_eq_ok, pure_eq_ok] at hvoted
  obtain ⟨withdrawn, -, net, -, total, -, rfl⟩ := hvoted
  obtain ⟨children, hchildren⟩ := recordVote_current hrecorded
  rw [hchildren] at hcurrent
  cases hcurrent
  have hothers := recordVote_others hrecorded
  obtain ⟨accounts, root, below, -, rfl⟩ := recordVote_spec hrecorded
  refine ⟨c, hc, ?_, ?_, _, rfl, rfl⟩
  · simp only [setComment, Store.find?_set_self, Option.map_some, Comment.weighed]
  · intro k hk
    rw [← hothers k hk]
    simp only [setComment, Store.find?_set_of_ne hk]

/-! ## Votes -/

theorem voteRshares_nonneg {c : Comment} {dgp : GlobalProperties} {mana weight : Int}
    (hused : usedMana dgp mana weight = .ok used) (h : db.voteRshares c used = .ok absRshares) :
    0 ≤ absRshares := by
  have hrange : used < 2 ^ 63 := by
    simp only [usedMana, bind_eq_ok, UInt128.toInt64_eq_ok] at hused
    obtain ⟨_, -, _, -, _, -, hlt, rfl⟩ := hused
    omega
  simp only [voteRshares] at h
  generalize hdusted : max 0 (if db.hasHardfork 4 then used else
    wrapInt64 (used - blurtVoteDustThreshold)) = dusted at h
  have hlow : 0 ≤ dusted := hdusted ▸ Int.le_max_left _ _
  have hhigh : dusted < 2 ^ 63 := by
    have hwrap := wrapInt64_lt (used - blurtVoteDustThreshold)
    rw [← hdusted]
    split <;> omega
  split at h
  · rename_i hlate
    simp only [bind_eq_ok, UInt128.div_eq_ok, UInt128.toUInt64_eq_ok, pure_eq_ok] at h
    obtain ⟨_, ⟨-, rfl⟩, _, ⟨-, rfl⟩, rfl⟩ := h
    -- the part of the rshares that is left fits `int64_t` as the whole did
    have hpart : UInt128.wrap (UInt128.ofInt dusted * (c.cashoutTime - db.dgp.time)) /
        blurtUpvoteLockoutSeconds ≤ dusted.toNat := by
      rw [UInt128.ofInt_of_nonneg hlow hhigh]
      apply Nat.div_le_of_le_mul
      refine (Nat.mod_le _ _).trans ?_
      rw [Nat.mul_comm]
      exact Nat.mul_le_mul_right _ hlate.le
    rw [wrapInt64_of_lt (Int.natCast_nonneg _) (by omega)]
    exact Int.natCast_nonneg _
  · cases h
    exact hlow

theorem comments_voteAfterPayout (clearVotes : Bool) (id : Nat) (o : VoteOperation) :
    (db.voteAfterPayout clearVotes id o).comments = db.comments := by
  rw [voteAfterPayout]
  split <;> rfl

/-- A vote casts a first vote or changes one, unless the comment has been paid. -/
theorem vote_spec {clearVotes : Bool} (h : db.vote clearVotes o = .ok db') :
    ∃ id c, db.getComment o.author o.permlink = .ok (id, c) ∧
    (c.cashoutTime = maximumTime ∧ db' = db.voteAfterPayout clearVotes id o ∨
      c.cashoutTime ≠ maximumTime ∧
        ((db.commentVotes.find? (id, o.voter) = none ∧
            ∃ absRshares c gain, 0 ≤ absRshares ∧ db.Cast db' id o.voter absRshares c gain) ∨
          ∃ previous c, db.commentVotes.find? (id, o.voter) = some previous ∧
            db.Recast db' id o.voter previous c)) := by
  simp only [vote, bind_eq_ok, ensure_eq_ok] at h
  obtain ⟨⟨id, c⟩, hrow, _, -, _, -, _, hweight, _, -, h⟩ := h
  refine ⟨id, c, hrow, ?_⟩
  split at h
  · rename_i hpaid
    cases h
    exact .inl ⟨hpaid, rfl⟩
  · rename_i hpaid
    simp only [bind_eq_ok, ensure_eq_ok] at h
    obtain ⟨_, -, _, -, _, -, charged, hcharged, _, -, _, -, used, hused, absRshares, habs, h⟩ := h
    obtain ⟨a, b, -, -, rfl⟩ := modifyAccount_spec hcharged
    have hnonneg := voteRshares_nonneg hused habs
    refine .inr ⟨hpaid, ?_⟩
    split at h
    · rename_i hnone
      obtain ⟨c, gain, hcast⟩ := castVote_spec hweight hnonneg h
      exact .inl ⟨hnone, absRshares, c, gain, hnonneg, hcast.of_accounts⟩
    · rename_i previous hsome
      obtain ⟨c, hrecast⟩ := recastVote_spec h
      exact .inr ⟨previous, c, hsome, hrecast.found, hrecast.after, hrecast.others, hrecast.vote⟩

end Database

end Ledger

end Blurt
