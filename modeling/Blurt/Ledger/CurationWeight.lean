import Blurt.Foundation.Rises
import Blurt.Ledger.OverviewOperations
import Blurt.Ledger.VoteWeights

/-! # The weight of curation is not monotone

The comment in `vote_evaluator` adds up the weights of first votes to the weight of all the
rshares. It relies on a weight that never falls, which the convergent square root does not keep.
-/

namespace Blurt

namespace Ledger

open Outcome Rises

/-- From `old` to `new` rshares the weight on a curve does not fall. -/
def KeepsPace (curve : CurveId) (s old new : Nat) : Prop :=
  curve = .convergentSquareRoot → RootKeepsPace s old new

namespace Database

variable {db db' : Database} {id : Nat} {curve : CurveId} {s : Nat} {sums : List Nat}

/-- First votes for a comment that earn a part of its curation rewards, with the sums of rshares
that they led to, the newest first. Between them nothing weighs the comment. -/
inductive FirstVotes (id : Nat) (curve : CurveId) (s : Nat) : Database → List Nat → Prop
  | fresh {db : Database} {c : Comment} (hc : db.comments.find? id = some c)
      (hnew : c.weighed = (0, 0)) : FirstVotes id curve s db []
  | vote {db db' : Database} {sums : List Nat} {clearVotes : Bool} {o : VoteOperation}
      {c c' : Comment}
      (hvotes : FirstVotes id curve s db sums) (hdb : db.WeighedBy curve s)
      (hrow : db.getComment o.author o.permlink = .ok (id, c)) (hrewarded : db.Rewarded c)
      (hfirst : db.commentVotes.find? (id, o.voter) = none)
      (hvote : db.vote clearVotes o = .ok db') (hc' : db'.comments.find? id = some c') :
      FirstVotes id curve s db' (c'.voteRshares.toNat :: sums)
  | between {db db' : Database} {sums : List Nat} (hvotes : FirstVotes id curve s db sums)
      (hsame : (db'.comments.find? id).map Comment.weighed =
        (db.comments.find? id).map Comment.weighed) : FirstVotes id curve s db' sums

/-- What a comment has gained after first votes: their rshares, and what they were weighed by. -/
structure Gained (curve : CurveId) (s : Nat) (db : Database) (id : Nat) (sums : List Nat) : Prop where
  weighed : (db.comments.find? id).map Comment.weighed =
    some (((sums.headD 0 : Nat) : Int), rise (weightOf curve s) 0 sums)
  headD_lt : sums.headD 0 < 2 ^ 63
  growing : Steady (· ≤ ·) 0 sums

theorem rise_lt (hs : 0 < s) (hlast : sums.headD 0 < 2 ^ 63) (hgrowing : Steady (· ≤ ·) 0 sums) :
    rise (weightOf curve s) 0 sums < 2 ^ 64 := by
  have hsteady : ∀ holds : Nat → Nat → Prop, (∀ old new, old ≤ new → holds old new) →
      Steady holds 0 sums := fun holds hholds => hgrowing.mono hholds
  by_cases hroot : curve = .convergentSquareRoot
  · subst hroot
    have hbound : rise (weightOf .convergentSquareRoot s) 0 sums ≤ id (sums.headD 0) :=
      rise_le (hsteady _ fun old new h => ⟨h, weightOf_gain hs h⟩)
    exact hbound.trans_lt (hlast.trans (by decide))
  · rw [(rise_eq_iff (weightOf_zero curve s) sums).mpr (hsteady _ fun old new h => ?_)]
    · exact weightOf_lt hs hlast
    · exact (weightOf_le_iff hs h).mpr fun h => absurd h hroot

theorem Gained.cast {voter : AccountName} {absRshares : Int} {c c' : Comment} {gain : Nat}
    (h : Gained curve s db id sums) (hdb : db.WeighedBy curve s) (hrewarded : db.Rewarded c)
    (hcast : db.Cast db' id voter absRshares c gain) (habs : 0 ≤ absRshares)
    (hc' : db'.comments.find? id = some c') :
    Gained curve s db' id (c'.voteRshares.toNat :: sums) := by
  have hweighed := h.weighed
  have hafter := hcast.after
  rw [hcast.found, Option.map_some, Option.some.injEq, Comment.weighed, Prod.mk.injEq] at hweighed
  rw [hc', Option.map_some, Option.some.injEq, Comment.weighed, Prod.mk.injEq] at hafter
  obtain ⟨hold, htotal⟩ := hweighed
  obtain ⟨hnew, htotal'⟩ := hafter
  have hrange := hcast.inRange
  have hlow : 0 ≤ c.voteRshares := by omega
  have hprevious : c.voteRshares.toNat = sums.headD 0 := by omega
  have hgrow : sums.headD 0 ≤ c'.voteRshares.toNat := by omega
  have hgain : gain = weightOf curve s c'.voteRshares.toNat - weightOf curve s (sums.headD 0) := by
    obtain hpos | hzero := habs.lt_or_eq
    · rw [hcast.rewarded curve s hdb hlow hpos hrewarded, hprevious, hnew]
    · rw [hcast.unrewarded curve s hdb hlow (by omega), hnew, ← hzero, Int.add_zero, hprevious,
        Nat.sub_self]
  have hsteady : Steady (· ≤ ·) 0 (c'.voteRshares.toNat :: sums) := ⟨hgrow, h.growing⟩
  have hlast : (c'.voteRshares.toNat :: sums).headD 0 < 2 ^ 63 := by
    rw [List.headD_cons]
    omega
  refine ⟨?_, hlast, hsteady⟩
  have hlt := @rise_lt curve s _ hdb.pos hlast hsteady
  simp only [rise] at hlt
  rw [hc', Option.map_some, Comment.weighed, htotal', htotal, hgain, List.headD_cons,
    Int.toNat_of_nonneg (by omega), rise, Nat.mod_eq_of_lt (by omega), Nat.add_comm]

theorem FirstVotes.gained (h : FirstVotes id curve s db sums) : Gained curve s db id sums := by
  induction h with
  | fresh hc hnew =>
      refine ⟨?_, by decide, trivial⟩
      rw [hc, Option.map_some, hnew]
      rfl
  | @vote db db' sums clearVotes o c c' hvotes hdb hrow hrewarded hfirst hvote hc' ih =>
      have hfound : db.comments.find? id = some c := getComment_found _ _ _ hrow
      obtain ⟨k, d, hrow', hcase⟩ := vote_spec hvote
      rw [hrow, Except.ok.injEq, Prod.mk.injEq] at hrow'
      obtain ⟨rfl, rfl⟩ := hrow'
      rcases hcase with ⟨-, rfl⟩ | ⟨-, ⟨-, absRshares, d, gain, habs, hcast⟩ | ⟨previous, d, hsome, -⟩⟩
      · -- a comment that was paid gains nothing
        rw [comments_voteAfterPayout] at hc'
        have hsame : c' = c := Option.some.inj (hc'.symm.trans hfound)
        have hweighed := ih.weighed
        rw [hfound, Option.map_some, Option.some.injEq, Comment.weighed, Prod.mk.injEq] at hweighed
        obtain ⟨hrshares, -⟩ := hweighed
        have hold : c.voteRshares.toNat = sums.headD 0 := by omega
        rw [hsame, hold]
        refine ⟨?_, ih.headD_lt, le_refl _, ih.growing⟩
        rw [comments_voteAfterPayout, List.headD_cons, rise, Nat.sub_self, Nat.zero_add]
        exact ih.weighed
      · have hsame : d = c := Option.some.inj (hcast.found.symm.trans hfound)
        subst hsame
        exact ih.cast hdb hrewarded hcast habs hc'
      · rw [hfirst] at hsome
        cases hsome
  | between hvotes hsame ih => exact ⟨hsame.trans ih.weighed, ih.headD_lt, ih.growing⟩

/-- One more share takes the weight from 657 to 656, where the approximate root goes up. -/
theorem convergent_falls :
    evaluateRewardCurve 1315684351 .convergentSquareRoot blurtCurationConstant = .ok 657 ∧
      evaluateRewardCurve 1315684352 .convergentSquareRoot blurtCurationConstant = .ok 656 :=
  ⟨eq_ok_of_toOption (by decide +kernel), eq_ok_of_toOption (by decide +kernel)⟩

/-- First votes add up to the weight of all their rshares if the weight falls with none of them. -/
theorem FirstVotes.addUp_iff {c : Comment} (hcurve : curve ∈ curationCurves) (hs : 0 < s)
    (hlt : s < 2 ^ 64) (hvotes : FirstVotes id curve s db sums)
    (hc : db.comments.find? id = some c) :
    evaluateRewardCurve (UInt128.ofInt c.voteRshares) curve s = .ok c.totalVoteWeight ↔
      Steady (KeepsPace curve s) 0 sums := by
  have hgained := hvotes.gained
  have hweighed := hgained.weighed
  rw [hc, Option.map_some, Option.some.injEq, Comment.weighed, Prod.mk.injEq] at hweighed
  obtain ⟨hrshares, htotal⟩ := hweighed
  have hlast : sums.headD 0 < 2 ^ 63 := hgained.headD_lt
  rw [hrshares, UInt128.ofInt_natCast (by omega), evaluateRewardCurve_eq hcurve hs hlt hlast,
    Except.ok.injEq, htotal, eq_comm, rise_eq_iff (weightOf_zero curve s)]
  exact hgained.growing.congr fun old new h => weightOf_le_iff hs h

end Database

namespace CurationSample

/-- A voter of so many vesting shares, with full mana at second 1000. -/
def voter (id : Nat) (shares : Int) : Account :=
  { id, vestingShares := shares, votingManabar := { currentMana := shares, lastUpdateTime := 1000 } }

/-- A comment of alice's before its first vote. -/
def post : Comment :=
  { category := "blurt", parentAuthor := "", parentPermlink := "blurt", author := "alice"
    permlink := "post", cashoutTime := 1000000, rootComment := 0 }

def postFund : RewardFund :=
  { name := blurtPostRewardFundName, percentCurationRewards := 5000
    authorRewardCurve := .convergentLinear, curationRewardCurve := .convergentSquareRoot }

def chain : Database :=
  { dgp := { time := 1000, currentWitness := "initminer" }
    processedHardforks := [0, 0, 0, 0, 0]
    accounts := ((∅ : Store AccountName Account).set "bob" (voter 1 65784217550)).set "carol"
      (voter 2 50)
    comments := (∅ : Store Nat Comment).set 0 post
    rewardFunds := (∅ : Store Nat RewardFund).set 0 postFund }

def ballot (voter : AccountName) : VoteOperation :=
  { voter, author := "alice", permlink := "post", weight := 10000 }

/-- A database after a vote for the comment. -/
def votedBy (voter : AccountName) (db : Database) : Database :=
  ((db.vote true (ballot voter)).toOption).getD db

def byBob : Database := votedBy "bob" chain

def byBobAndCarol : Database := votedBy "carol" byBob

/-- The comment in a database. -/
def postIn (db : Database) : Comment := (db.comments.find? 0).getD post

theorem ok_getD {α : Type} {first : Except String α} (h : first.toOption.isSome) (a : α) :
    first = .ok (first.toOption.getD a) := by
  cases first with
  | ok b => rfl
  | error message => cases h

theorem weighedBy_of {db : Database} (hfund : db.getRewardFund.toOption = some (0, postFund))
    (hhardfork : db.hasHardfork 4) : db.WeighedBy .convergentSquareRoot blurtCurationConstant where
  fund := ⟨0, postFund, eq_ok_of_toOption hfund, rfl, by rw [if_pos hhardfork]⟩
  curve := by decide
  pos := by decide
  lt := by decide

theorem rewarded_of {db : Database} (hfund : db.getRewardFund.toOption = some (0, postFund))
    (hpost : (postIn db).lastPayout = 0 ∧ (postIn db).allowCurationRewards) :
    db.Rewarded (postIn db) :=
  ⟨hpost.1, hpost.2, 0, postFund, eq_ok_of_toOption hfund, by decide⟩

/-- A first vote in the sample. -/
theorem vote_of {voter : AccountName} {db : Database} {sums : List Nat}
    (hvotes : Database.FirstVotes 0 .convergentSquareRoot blurtCurationConstant db sums)
    (hfund : db.getRewardFund.toOption = some (0, postFund)) (hhardfork : db.hasHardfork 4)
    (hrow : (db.getComment "alice" "post").toOption = some (0, postIn db))
    (hpost : (postIn db).lastPayout = 0 ∧ (postIn db).allowCurationRewards)
    (hfirst : db.commentVotes.find? (0, voter) = none)
    (hvote : (db.vote true (ballot voter)).toOption.isSome)
    (hfound : ((votedBy voter db).comments.find? 0).isSome) :
    Database.FirstVotes 0 .convergentSquareRoot blurtCurationConstant (votedBy voter db)
      ((postIn (votedBy voter db)).voteRshares.toNat :: sums) := by
  obtain ⟨c, hc⟩ := Option.isSome_iff_exists.mp hfound
  have hpostIn : postIn (votedBy voter db) = c := by rw [postIn, hc, Option.getD_some]
  rw [hpostIn]
  exact hvotes.vote (weighedBy_of hfund hhardfork) (eq_ok_of_toOption hrow) (rewarded_of hfund hpost)
    hfirst (ok_getD hvote db) hc

theorem firstVotes : Database.FirstVotes 0 .convergentSquareRoot blurtCurationConstant byBobAndCarol
    [1315684352, 1315684351] := by
  have hfresh : Database.FirstVotes 0 .convergentSquareRoot blurtCurationConstant chain [] :=
    .fresh (by decide +kernel : chain.comments.find? 0 = some post) rfl
  have hbob : Database.FirstVotes 0 .convergentSquareRoot blurtCurationConstant byBob _ :=
    vote_of hfresh (by decide +kernel) (by decide +kernel) (by decide +kernel)
      (by decide +kernel) (by decide +kernel) (by decide +kernel) (by decide +kernel)
  have hcarol : Database.FirstVotes 0 .convergentSquareRoot blurtCurationConstant byBobAndCarol _ :=
    vote_of hbob (by decide +kernel) (by decide +kernel) (by decide +kernel)
      (by decide +kernel) (by decide +kernel) (by decide +kernel) (by decide +kernel)
  have hsums : [(postIn (votedBy "carol" byBob)).voteRshares.toNat,
      (postIn (votedBy "bob" chain)).voteRshares.toNat] = [1315684352, 1315684351] := by
    decide +kernel
  rw [← hsums]
  exact hcarol

theorem found : byBobAndCarol.comments.find? 0 = some (postIn byBobAndCarol) := by
  decide +kernel

theorem overcount : UInt128.ofInt (postIn byBobAndCarol).voteRshares = 1315684352 ∧
    (postIn byBobAndCarol).totalVoteWeight = 657 := by
  decide +kernel

end CurationSample

namespace Database

/-- A weight of curation does not fall between sums of rshares for which the approximate root keeps
pace. Votes add up to the weight of all their rshares if all of them do, and only the convergent
square root has sums, and votes, for which it does not. -/
theorem curation_adds_up : ∀ curve ∈ curationCurves,
    (∀ s old new, 0 < s → s < 2 ^ 64 → old ≤ new → new < 2 ^ 63 →
      ∃ w w', evaluateRewardCurve old curve s = .ok w ∧ evaluateRewardCurve new curve s = .ok w' ∧
        (w ≤ w' ↔ KeepsPace curve s old new)) ∧
    ((∀ old new w w', old ≤ new → new < 2 ^ 63 →
        evaluateRewardCurve old curve blurtCurationConstant = .ok w →
        evaluateRewardCurve new curve blurtCurationConstant = .ok w' → w ≤ w') ↔
      curve ≠ .convergentSquareRoot) ∧
    (∀ s id db sums c, 0 < s → s < 2 ^ 64 → FirstVotes id curve s db sums →
      db.comments.find? id = some c →
        (evaluateRewardCurve (UInt128.ofInt c.voteRshares) curve s = .ok c.totalVoteWeight ↔
          Steady (KeepsPace curve s) 0 sums)) ∧
    ((∀ id db sums c, FirstVotes id curve blurtCurationConstant db sums →
        db.comments.find? id = some c →
          evaluateRewardCurve (UInt128.ofInt c.voteRshares) curve blurtCurationConstant =
            .ok c.totalVoteWeight) ↔
      curve ≠ .convergentSquareRoot) := by
  intro curve hcurve
  refine ⟨?_, ⟨?_, ?_⟩, ?_, ⟨?_, ?_⟩⟩
  · intro s old new hs hlt h hnew
    exact ⟨_, _, evaluateRewardCurve_eq hcurve hs hlt (by omega),
      evaluateRewardCurve_eq hcurve hs hlt hnew, weightOf_le_iff hs h⟩
  · rintro hmono rfl
    have hle := hmono 1315684351 1315684352 657 656 (by decide) (by decide) convergent_falls.1
      convergent_falls.2
    omega
  · intro hroot old new w w' h hnew hw hw'
    rw [evaluateRewardCurve_eq hcurve (by decide) (by decide) (by omega), Except.ok.injEq] at hw hw'
    subst hw hw'
    exact (weightOf_le_iff (by decide) h).mpr fun h => absurd h hroot
  · intro s id db sums c hs hlt hvotes hc
    exact hvotes.addUp_iff hcurve hs hlt hc
  · rintro hall rfl
    have hsum := hall 0 _ _ _ CurationSample.firstVotes CurationSample.found
    rw [CurationSample.overcount.1, CurationSample.overcount.2] at hsum
    have hless := convergent_falls.2
    cases hless.symm.trans hsum
  · intro hroot id db sums c hvotes hc
    refine (hvotes.addUp_iff hcurve (by decide) (by decide) hc).mpr ?_
    exact hvotes.gained.growing.mono fun _ _ _ h => absurd h hroot

end Database

namespace CurationSample

/-- After the votes of bob and carol the weights of their votes are 657, and the weight of their
rshares is 656. -/
theorem votes_overcount :
    (¬ ∀ old new w w', old ≤ new → new < 2 ^ 63 →
      evaluateRewardCurve old .convergentSquareRoot blurtCurationConstant = .ok w →
      evaluateRewardCurve new .convergentSquareRoot blurtCurationConstant = .ok w' → w ≤ w') ∧
    Database.FirstVotes 0 .convergentSquareRoot blurtCurationConstant byBobAndCarol
      [1315684352, 1315684351] ∧
    (postIn byBobAndCarol).totalVoteWeight = 657 ∧
    evaluateRewardCurve 1315684352 .convergentSquareRoot blurtCurationConstant = .ok 656 := by
  refine ⟨fun hmono => ?_, firstVotes, overcount.2, Database.convergent_falls.2⟩
  have hle := hmono 1315684351 1315684352 657 656 (by decide) (by decide)
    Database.convergent_falls.1 Database.convergent_falls.2
  omega

/-- The weights do not add up because the approximate root outgrows carol's vote. -/
theorem votes_outpaced :
    evaluateRewardCurve (UInt128.ofInt (postIn byBobAndCarol).voteRshares) .convergentSquareRoot
        blurtCurationConstant = .ok (postIn byBobAndCarol).totalVoteWeight ↔
      Steady (KeepsPace .convergentSquareRoot blurtCurationConstant) 0 [1315684352, 1315684351] :=
  (Database.curation_adds_up .convergentSquareRoot (by decide)).2.2.1 blurtCurationConstant 0
    byBobAndCarol _ _ (by decide) (by decide) firstVotes found

end CurationSample

end Ledger

end Blurt
