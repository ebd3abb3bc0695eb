import Blurt.Ledger.PollsBlocks

/-! # What the curators of a comment share

The votes for a comment never weigh more than the comment, so that the claims of its curators
never exceed their pot.
-/

namespace Blurt

namespace Ledger

open Outcome

/-! ## Claims on a pot -/

/-- What is claimed of a pot that is divided by `total`, each claim rounded down. -/
def claimed (pot total : Nat) (weights : List Nat) : Nat :=
  (weights.map fun weight => pot * weight / total).sum

/-- The claims cover no more than the weights. -/
theorem mul_claimed_le (pot total : Nat) (weights : List Nat) :
    total * claimed pot total weights ≤ pot * weights.sum := by
  induction weights with
  | nil => exact Nat.zero_le _
  | cons weight rest ih =>
      have hclaim := Nat.mul_div_le (pot * weight) total
      rw [claimed, List.map_cons, List.sum_cons, List.sum_cons, Nat.mul_add, Nat.mul_add]
      exact Nat.add_le_add hclaim ih

theorem claimed_le {pot total : Nat} {weights : List Nat} (hsum : weights.sum ≤ total) :
    claimed pot total weights ≤ pot := by
  rcases Nat.eq_zero_or_pos total with rfl | hpos
  · simp [claimed]
  apply Nat.le_of_mul_le_mul_left _ hpos
  calc total * claimed pot total weights
    _ ≤ pot * weights.sum := mul_claimed_le pot total weights
    _ ≤ pot * total := Nat.mul_le_mul_left pot hsum
    _ = total * pot := Nat.mul_comm pot total

namespace Database

variable {db db' : Database} {pot total : Nat}

/-! ## The turns of the curators -/

theorem curationClaim_eq_ok {weight : Nat} {claim : Int} (hpot : pot < 2 ^ 63)
    (htotal : total < 2 ^ 64) (hweight : weight ≤ total)
    (h : curationClaim pot weight total = .ok claim) :
    claim = (pot * weight / total : Nat) := by
  simp only [curationClaim, bind_eq_ok, UInt128.div_eq_ok, UInt128.toUInt64_eq_ok, pure_eq_ok] at h
  obtain ⟨share, ⟨-, rfl⟩, _, ⟨-, rfl⟩, rfl⟩ := h
  have hproduct : pot * weight < 2 ^ 128 := by
    have hbound := Nat.mul_le_mul hpot.le (hweight.trans htotal.le)
    omega
  have hclaim : pot * weight / total ≤ pot := by
    apply Nat.div_le_of_le_mul
    rw [Nat.mul_comm total]
    exact Nat.mul_le_mul_left pot hweight
  rw [UInt128.ofInt_of_nonneg (Int.natCast_nonneg pot) (by omega), Int.toNat_natCast]
  rw [UInt128.wrap, Nat.mod_eq_of_lt hproduct]
  exact wrapInt64_of_lt (Int.natCast_nonneg _) (by exact_mod_cast hclaim.trans_lt hpot)

/-- The rewards that are left after some of the turns. -/
theorem payCurator_turns {turns : List (AccountName × CommentVote)} {state result : Database × Int}
    (hpot : pot < 2 ^ 63) (htotal : total < 2 ^ 64)
    (hweights : ∀ item ∈ turns, item.2.weight ≤ total)
    (h : forEach (payCurator pot total) state turns = .ok result) :
    result.2 = state.2 - claimed pot total (turns.map (·.2.weight)) := by
  induction turns generalizing state with
  | nil =>
      cases h
      exact (Int.sub_zero _).symm
  | cons item rest ih =>
      obtain ⟨next, hnext, hrest⟩ := forEach_cons_eq_ok.mp h
      have hlast := ih (fun other hother => hweights other (List.mem_cons_of_mem _ hother)) hrest
      have hstep : next.2 = state.2 - (pot * item.2.weight / total : Nat) := by
        rw [payCurator, bind_eq_ok] at hnext
        obtain ⟨claim, hclaim, hnext⟩ := hnext
        cases curationClaim_eq_ok hpot htotal (hweights item List.mem_cons_self) hclaim
        split at hnext
        · simp only [bind_eq_ok, shareType_eq_ok, pure_eq_ok] at hnext
          obtain ⟨_, ⟨-, rfl⟩, _, -, _, -, _, -, rfl⟩ := hnext
          rfl
        · rename_i hzero
          cases hnext
          rw [not_not.mp hzero, Int.sub_zero]
      rw [hlast, hstep, List.map_cons, claimed, claimed, List.map_cons, List.sum_cons]
      omega

/-! ## The weights of the curators -/

/-- The weights of the curators of a comment add up to those of the votes for it. -/
theorem sum_curatorsOf (db : Database) (id : Nat) :
    (((db.curatorsOf id).map (·.2.weight)).sum : Nat) = Polls.weightFor id db.polls.weights := by
  rw [Polls.weightFor, polls, Table.sum_view, ← Store.rows_sum, curatorsOf, Store.ordered]
  rw [List.map_map, ((List.perm_insertionSort _ _).map _).sum_eq]
  induction db.commentVotes.rows with
  | nil => rfl
  | cons row rest ih =>
      rw [List.filter_cons, List.map_cons, List.sum_cons, ← ih]
      split
      · rename_i hid
        rw [if_pos (of_decide_eq_true hid), List.map_cons, List.sum_cons]
        rfl
      · rename_i hid
        rw [if_neg fun h => hid (decide_eq_true h), Int.zero_add]

theorem weight_le_sum {weights : List Nat} {weight : Nat} (h : weight ∈ weights) :
    weight ≤ weights.sum :=
  List.single_le_sum (fun _ _ => Nat.zero_le _) _ h

/-- A vote is one of the turns of the curators. -/
theorem mem_curatorsOf {id : Nat} {voter : AccountName} {cv : CommentVote}
    (h : db.commentVotes.find? (id, voter) = some cv) : (voter, cv) ∈ db.curatorsOf id := by
  refine List.mem_map.mpr ⟨((id, voter), cv), ?_, rfl⟩
  exact Store.mem_ordered_iff.mpr ⟨h, decide_eq_true rfl⟩

/-! ## The pot -/

/-- In a convergent fund the pot of the curators is a part of the reward. -/
theorem payReward_pot {id : Nat} {c : Comment} {reward : Int} {result : Database × Int}
    (hfunds : Convergent db.rewardFunds) (hreward : InInt64 reward)
    (h : db.payReward id c reward = .ok result) :
    ∃ pot : Nat, (pot : Int) ≤ reward ∧ ∃ curated, db.payCurators id c pot = .ok curated := by
  simp only [payReward, bind_eq_ok, getRewardFund, require_eq_ok, UInt128.toUInt64_eq_ok] at h
  obtain ⟨⟨k, fund⟩, hfund, _, ⟨-, rfl⟩, _, ⟨hrange, rfl⟩, _, -, curated, hcurated, -⟩ := h
  obtain ⟨⟨-, hpercent⟩, -⟩ := hfunds k fund (Store.mem_rows_iff.mp (List.mem_of_find?_eq_some hfund))
  have hnonneg : 0 ≤ reward := by
    unfold UInt128.ofInt at hrange
    unfold InInt64 at hreward
    omega
  obtain ⟨tokens, rfl⟩ := Int.eq_ofNat_of_zero_le hnonneg
  have htokens : tokens < 2 ^ 63 := by exact_mod_cast hreward.2
  have hproduct := Nat.mul_le_mul_left tokens hpercent
  have hpot : tokens * fund.percentCurationRewards / blurt100Percent ≤ tokens :=
    Nat.div_le_of_le_mul (by rwa [Nat.mul_comm blurt100Percent])
  have hsmall : tokens * fund.percentCurationRewards < 2 ^ 128 := by
    unfold blurt100Percent at hproduct
    omega
  rw [UInt128.ofInt_of_nonneg hnonneg hreward.2, Int.toNat_natCast, UInt128.wrap,
    Nat.mod_eq_of_lt hsmall, wrapInt64_of_lt (Int.natCast_nonneg _)
      (by exact_mod_cast hpot.trans_lt htokens)] at hcurated
  exact ⟨_, by exact_mod_cast hpot, curated, hcurated⟩

/-- A comment whose weight covers the votes for it, and what follows for its votes and for the
payout of its curators. -/
structure Shares (db : Database) (id : Nat) (c : Comment) : Prop where
  weights : ((db.curatorsOf id).map (·.2.weight)).sum ≤ c.totalVoteWeight
  /-- A first vote does not wrap the weight. -/
  cast : ∀ clearVotes o next, db.getComment o.author o.permlink = .ok (id, c) →
    db.commentVotes.find? (id, o.voter) = none → db.vote clearVotes o = .ok next →
      ∃ d, next.comments.find? id = some d ∧ c.totalVoteWeight ≤ d.totalVoteWeight
  /-- A changed vote takes back its own weight. -/
  recast : ∀ clearVotes o next previous, db.getComment o.author o.permlink = .ok (id, c) →
    db.commentVotes.find? (id, o.voter) = some previous → db.vote clearVotes o = .ok next →
      ∃ d, next.comments.find? id = some d ∧ d.totalVoteWeight + previous.weight = c.totalVoteWeight
  /-- After any number of turns no more than the pot is claimed. -/
  turns : ∀ pot : Nat, pot < 2 ^ 63 → ∀ turns rest result, db.curatorsOf id = turns ++ rest →
    forEach (payCurator pot c.totalVoteWeight) (db, (pot : Int)) turns = .ok result →
      0 ≤ result.2 ∧ result.2 = pot - claimed pot c.totalVoteWeight (turns.map (·.2.weight))
  paid : ∀ pot : Nat, pot < 2 ^ 63 → ∀ paid claims unclaimed,
    db.payCurators id c pot = .ok (paid, claims, unclaimed) →
      0 ≤ unclaimed ∧ 0 ≤ claims ∧ claims ≤ pot
  pot : ∀ reward, InInt64 reward → ∀ result, db.payReward id c reward = .ok result →
    ∃ pot : Nat, (pot : Int) ≤ reward ∧ ∃ curated, db.payCurators id c pot = .ok curated

theorem Balanced.shares {id : Nat} {c : Comment} (h : db.Balanced)
    (hc : db.comments.find? id = some c) (hopen : c.cashoutTime ≠ maximumTime) :
    db.Shares id c := by
  have htally : db.polls.tallies.find? id = some c.tally := by
    rw [polls, Table.find?_view, hc, Option.map_some]
  obtain ⟨hlow, hhigh, htotal, hshared⟩ := h.covered.shared id c.tally htally hopen
  have hlow : 0 ≤ c.voteRshares := hlow
  have htotal : (c.totalVoteWeight : Int) ≤ c.voteRshares := htotal
  have hhigh : c.voteRshares < 2 ^ 63 := hhigh
  have hsum : ((db.curatorsOf id).map (·.2.weight)).sum ≤ c.totalVoteWeight := by
    rw [← sum_curatorsOf] at hshared
    exact_mod_cast hshared
  have hrange : c.totalVoteWeight < 2 ^ 64 := by omega
  have hweight : ∀ item ∈ db.curatorsOf id, item.2.weight ≤ c.totalVoteWeight :=
    fun item hitem => (weight_le_sum (List.mem_map_of_mem hitem)).trans hsum
  have hturns : ∀ pot : Nat, pot < 2 ^ 63 → ∀ turns rest result, db.curatorsOf id = turns ++ rest →
      forEach (payCurator pot c.totalVoteWeight) (db, (pot : Int)) turns = .ok result →
        0 ≤ result.2 ∧ result.2 = pot - claimed pot c.totalVoteWeight (turns.map (·.2.weight)) := by
    intro pot hpot turns rest result hsplit hresult
    have hpart : ∀ item ∈ turns, item.2.weight ≤ c.totalVoteWeight :=
      fun item hitem => hweight item (hsplit ▸ List.mem_append_left _ hitem)
    have hleft := payCurator_turns hpot hrange hpart hresult
    refine ⟨?_, hleft⟩
    have hsome : (turns.map (·.2.weight)).sum ≤ c.totalVoteWeight := by
      rw [hsplit, List.map_append, List.sum_append] at hsum
      omega
    have hclaimed := @claimed_le pot _ _ hsome
    rw [hleft]
    omega
  refine ⟨hsum, ?_, ?_, hturns, ?_, fun reward hreward result => payReward_pot h.convergent hreward⟩
  · intro clearVotes o next hrow hfirst hvote
    have hfund := (vote_votedBeside clearVotes o next hvote).2
    obtain ⟨id', c', hrow', hcase⟩ := vote_spec hvote
    cases hrow.symm.trans hrow'
    obtain ⟨hpaid, -⟩ | ⟨-, ⟨-, absRshares, d, gain, habs, hcast⟩ | ⟨previous, d, hprevious, -⟩⟩ :=
      hcase
    · exact absurd hpaid hopen
    · cases hcast.found.symm.trans hc
      have hgain := hcast.gain_le habs h.convergent (hfund id _ hrow hopen hfirst) hlow
      have hinRange := hcast.inRange
      obtain ⟨d, hd, hweighed⟩ := Option.map_eq_some_iff.mp hcast.after
      have hraised : d.totalVoteWeight = (c.totalVoteWeight + gain) % 2 ^ 64 :=
        congrArg Prod.snd hweighed
      refine ⟨d, hd, ?_⟩
      omega
    · rw [hfirst] at hprevious
      cases hprevious
  · intro clearVotes o next previous hrow hprevious hvote
    obtain ⟨id', c', hrow', hcase⟩ := vote_spec hvote
    cases hrow.symm.trans hrow'
    obtain ⟨hpaid, -⟩ | ⟨-, ⟨hfirst, -⟩ | ⟨cv, d, hcv, hrecast⟩⟩ := hcase
    · exact absurd hpaid hopen
    · rw [hfirst] at hprevious
      cases hprevious
    · cases hprevious.symm.trans hcv
      cases hrecast.found.symm.trans hc
      have hown : previous.weight ≤ c.totalVoteWeight := hweight _ (mem_curatorsOf hprevious)
      obtain ⟨d, hd, hweighed⟩ := Option.map_eq_some_iff.mp hrecast.after
      have hback : d.totalVoteWeight = (c.totalVoteWeight + (2 ^ 64 - previous.weight)) % 2 ^ 64 :=
        congrArg Prod.snd hweighed
      refine ⟨d, hd, ?_⟩
      omega
  · intro pot hpot paid claims unclaimed hpaid
    rw [payCurators] at hpaid
    split at hpaid
    · cases hpaid
      exact ⟨le_rfl, le_rfl, Int.natCast_nonneg pot⟩
    · split at hpaid
      · simp only [bind_eq_ok, shareType_eq_ok, pure_eq_ok] at hpaid
        obtain ⟨⟨curated, left⟩, hcurated, _, ⟨-, rfl⟩, hresult⟩ := hpaid
        cases hresult
        obtain ⟨hnonneg, hleft⟩ :=
          hturns pot hpot (db.curatorsOf id) [] _ (List.append_nil _).symm hcurated
        dsimp only at hnonneg hleft
        omega
      · simp only [ok_bind, bind_eq_ok, shareType_eq_ok, pure_eq_ok] at hpaid
        obtain ⟨_, ⟨-, rfl⟩, hresult⟩ := hpaid
        cases hresult
        omega

/-- In a state that any changes of a block lead to from a reachable database, a comment that is not
paid out covers the weights of its votes, and its curators share no more than their pot. -/
theorem reachable_shares {host : Host} {mid : Database}
    (h : Reachable host db) (hmid : Polled db mid) {id : Nat} {c : Comment}
    (hc : mid.comments.find? id = some c) (hopen : c.cashoutTime ≠ maximumTime) :
    mid.Shares id c :=
  ((reachable_balanced h).polled hmid).shares hc hopen

end Database

namespace Sample

open Database

/-- A vote for the post of alice. -/
def curatorVote (voter : AccountName) (weight : Int) : VoteOperation :=
  { voter, author := "alice", permlink := "post", weight }

/-- alice posts, and then she and bob vote for the post. -/
def curatedBlocks : List LedgerBlock := [
  signedBlock 0 [2] [.comment
    { parentAuthor := blurtRootPostParent
      parentPermlink := "tag"
      author := "alice"
      permlink := "post"
      title := "title"
      body := "body"
      jsonMetadata := "" }],
  signedBlock 1 [2] [.vote (curatorVote "alice" 10000), .vote (curatorVote "bob" 10000)]]

/-- The database after the blocks, and the one after bob has changed his vote in the next. -/
def curatedOutcome : Except String (Database × Database) := do
  let db ← afterBlocks votersChain curatedBlocks
  let mid ← db.vote true (curatorVote "bob" 5000)
  return (db, mid)

/-- The weight of a vote for the first comment, and how often it was changed. -/
def curatorOf (db : Database) (voter : AccountName) : Option (Nat × Int) :=
  (db.commentVotes.find? (0, voter)).map fun cv => (cv.weight, cv.numChanges)

theorem curatedOutcome_runs : curatedOutcome.toOption.any fun (db, mid) =>
    curatorOf db "alice" = some (99, 0) ∧ curatorOf db "bob" = some (98, 0) ∧
      curatorOf mid "alice" = some (99, 0) ∧ curatorOf mid "bob" = some (0, 1) ∧
      (mid.comments.find? 0).any (·.cashoutTime ≠ maximumTime) := by
  decide +kernel

/-- The curators of a post after first votes, one of which was changed. -/
theorem curatedBlocks_shares : ∃ (db mid : Database) (c : Comment), Reachable plainHost db ∧
    curatorOf db "alice" = some (99, 0) ∧ curatorOf db "bob" = some (98, 0) ∧
      db.vote true (curatorVote "bob" 5000) = .ok mid ∧
      curatorOf mid "alice" = some (99, 0) ∧ curatorOf mid "bob" = some (0, 1) ∧
      mid.comments.find? 0 = some c ∧ mid.Shares 0 c := by
  obtain ⟨⟨db, mid⟩, hrun, hfacts⟩ := (Option.any_eq_true _ _).mp curatedOutcome_runs
  obtain ⟨halice, hbob, hkept, hchanged, hc⟩ := of_decide_eq_true hfacts
  obtain ⟨c, hc, hopen⟩ := (Option.any_eq_true _ _).mp hc
  have houtcome := eq_ok_of_toOption hrun
  simp only [curatedOutcome, bind_eq_ok] at houtcome
  obtain ⟨_, hdb, _, hmid, houtcome⟩ := houtcome
  cases houtcome
  have hreachable := afterBlocks_reachable hdb
  have hshares := reachable_shares hreachable (vote_polled true _ _ hmid) hc (of_decide_eq_true hopen)
  exact ⟨db, mid, c, hreachable, halice, hbob, hmid, hkept, hchanged, hc, hshares⟩

end Sample

end Ledger

end Blurt
