import Blurt.Ledger.GovernanceEvaluators

/-! # Who loses a proposal

`remove_proposal_evaluator` checks the owner while it deletes, and it stops deleting
when its budget is used up. The marking of what is left asks no further question.
-/

namespace Blurt

namespace Ledger

/-- A proposal as the marking loop leaves it. -/
def Proposal.marked (now : Nat) (p : Proposal) : Proposal :=
  if p.removed then p
  else { p with removed := true, endDate := subSeconds now blurtProposalMaintenanceCleanup }

theorem Proposal.marked_removed (now : Nat) (p : Proposal) : (p.marked now).removed := by
  unfold marked
  split <;> simp_all

theorem Proposal.marked_of_removed {now : Nat} {p : Proposal} (h : p.removed = true) :
    p.marked now = p := by
  simp [marked, h]

namespace Database

/-- The proposal under `id` exists before and not after. -/
def Deleted (db next : Database) (id : Nat) : Prop :=
  (db.proposals.find? id).isSome ∧ next.proposals.find? id = none

/-- A vote for the proposal under `id` exists before and not after. -/
def LosesVotes (db next : Database) (id : Nat) : Prop :=
  ∃ voter, (db.proposalVotes.find? (id, voter)).isSome ∧
    next.proposalVotes.find? (id, voter) = none

/-- The proposal under `id` is changed to a removed one. -/
def Marked (db next : Database) (id : Nat) : Prop :=
  ∃ before after, db.proposals.find? id = some before ∧
    next.proposals.find? id = some after ∧ after.removed ∧ after ≠ before

/-- Every proposal that a step deletes, marks, or strips of votes was created by `owner`. -/
def RemovesOnlyOf (owner : AccountName) (db next : Database) : Prop :=
  ∀ id proposal, db.proposals.find? id = some proposal →
    db.Deleted next id ∨ db.LosesVotes next id ∨ db.Marked next id →
    proposal.creator = owner

/-- The proposal under `id` and its votes are as they were. -/
def SameProposal (db next : Database) (id : Nat) : Prop :=
  next.proposals.find? id = db.proposals.find? id ∧
    ∀ voter, next.proposalVotes.find? (id, voter) = db.proposalVotes.find? (id, voter)

theorem SameProposal.refl (db : Database) (id : Nat) : db.SameProposal db id :=
  ⟨rfl, fun _ => rfl⟩

theorem SameProposal.trans {first second third : Database} {id : Nat}
    (hfirst : first.SameProposal second id) (hsecond : second.SameProposal third id) :
    first.SameProposal third id :=
  ⟨hsecond.1.trans hfirst.1, fun voter => (hsecond.2 voter).trans (hfirst.2 voter)⟩

theorem findProposal_natCast (db : Database) (id : Nat) :
    db.findProposal (id : Int) = db.proposals.find? id := by
  simp [findProposal]

theorem findProposal_eq_some {db : Database} {id : Int} {proposal : Proposal} :
    db.findProposal id = some proposal ↔
      0 ≤ id ∧ db.proposals.find? id.toNat = some proposal := by
  simp [findProposal]

/-! ## What the deleting loop reaches -/

theorem removeVotes_spec (id : Nat) (voters : List AccountName) (state : Database × Reducer) :
    (removeVotes id voters state).1.dgp = state.1.dgp ∧
      (removeVotes id voters state).1.proposals = state.1.proposals ∧
      ∀ other, other ≠ id → state.1.SameProposal (removeVotes id voters state).1 other := by
  induction voters generalizing state with
  | nil => exact ⟨rfl, rfl, fun other _ => SameProposal.refl _ other⟩
  | cons voter rest ih =>
      obtain ⟨db, reducer⟩ := state
      simp only [removeVotes]
      split
      · exact ⟨rfl, rfl, fun other _ => SameProposal.refl _ other⟩
      · have hrest := ih
          ({ db with proposalVotes := db.proposalVotes.remove (id, voter) }, reducer.check)
        refine ⟨hrest.1, hrest.2.1, fun other hother => ?_⟩
        apply SameProposal.trans _ (hrest.2.2 other hother)
        constructor
        · rfl
        · intro other_voter
          apply (Store.find?_remove _ _ _).trans
          simp [hother]

theorem removeProposalObject_spec (id : Nat) (state : Database × Reducer) :
    (removeProposalObject id state).1.dgp = state.1.dgp ∧
      (∀ other proposal,
        (removeProposalObject id state).1.proposals.find? other = some proposal →
          state.1.proposals.find? other = some proposal) ∧
      ∀ other, other ≠ id → state.1.SameProposal (removeProposalObject id state).1 other := by
  have hvotes := removeVotes_spec id (state.1.proposalVoters id) state
  unfold removeProposalObject
  generalize removeVotes id (state.1.proposalVoters id) state = stripped at hvotes ⊢
  obtain ⟨db, reducer⟩ := stripped
  obtain ⟨hdgp, hproposals, hsame⟩ := hvotes
  have hstay : ∀ other proposal, db.proposals.find? other = some proposal →
      state.1.proposals.find? other = some proposal := by
    intro other proposal hfind
    rwa [← hproposals]
  simp only
  split
  · exact ⟨hdgp, hstay, hsame⟩
  split
  · exact ⟨hdgp, hstay, hsame⟩
  · refine ⟨hdgp, ?_, ?_⟩
    · intro other proposal hfind
      rw [Store.find?_remove] at hfind
      by_cases hother : other = id
      · simp [hother] at hfind
      · apply hstay other proposal
        simpa [hother] using hfind
    · intro other hother
      apply (hsame other hother).trans
      constructor
      · apply (Store.find?_remove _ _ _).trans
        simp [hother]
      · intro voter
        rfl

/-- The deleting loop touches the proposals of `owner` only, and replaces none. -/
theorem removeProposals_spec {owner : AccountName} {ids : List Int}
    {state removed : Database × Reducer} (hrun : removeProposals owner ids state = .ok removed) :
    removed.1.dgp = state.1.dgp ∧
      (∀ id proposal, removed.1.proposals.find? id = some proposal →
        state.1.proposals.find? id = some proposal) ∧
      ∀ id, (∀ proposal, state.1.proposals.find? id = some proposal →
        proposal.creator ≠ owner) → state.1.SameProposal removed.1 id := by
  induction ids generalizing state with
  | nil =>
      cases hrun
      exact ⟨rfl, fun _ _ hfind => hfind, fun id _ => SameProposal.refl _ id⟩
  | cons id rest ih =>
      simp only [removeProposals] at hrun
      split at hrun
      · exact ih hrun
      · rename_i proposal hproposal
        obtain ⟨_, hfound⟩ := findProposal_eq_some.mp hproposal
        simp only [Outcome.bind_eq_ok, Outcome.ensure_eq_ok] at hrun
        obtain ⟨_, howner, hrun⟩ := hrun
        obtain ⟨hdgp, hstay, hsame⟩ := removeProposalObject_spec id.toNat state
        have hother : ∀ other, (∀ proposal, state.1.proposals.find? other = some proposal →
            proposal.creator ≠ owner) → other ≠ id.toNat := by
          rintro other hforeign rfl
          exact hforeign proposal hfound howner
        split at hrun
        · cases hrun
          exact ⟨hdgp, hstay, fun other hforeign => hsame other (hother other hforeign)⟩
        · obtain ⟨hdgp', hstay', hsame'⟩ := ih hrun
          refine ⟨hdgp'.trans hdgp, fun other p hfind => hstay other p (hstay' other p hfind), ?_⟩
          intro other hforeign
          apply (hsame other (hother other hforeign)).trans
          apply hsame' other
          intro p hfind
          exact hforeign p (hstay other p hfind)

/-! ## What the marking loop does -/

theorem markRemoved_spec (db : Database) (listed : Int) :
    (db.markRemoved listed).dgp = db.dgp ∧
      (db.markRemoved listed).proposalVotes = db.proposalVotes ∧
      ∀ id : Nat, (db.markRemoved listed).proposals.find? id =
        (db.proposals.find? id).map fun p => if (id : Int) = listed then p.marked db.dgp.time else p := by
  unfold markRemoved
  split
  · rename_i hnone
    refine ⟨rfl, rfl, fun id => ?_⟩
    by_cases hid : (id : Int) = listed
    · subst hid
      rw [findProposal_natCast] at hnone
      simp [hnone]
    · simp [hid]
  · rename_i proposal hfound
    obtain ⟨hnonneg, hfound⟩ := findProposal_eq_some.mp hfound
    split
    · rename_i hremoved
      refine ⟨rfl, rfl, fun id => ?_⟩
      by_cases hid : (id : Int) = listed
      · have hnat : listed.toNat = id := by omega
        rw [hnat] at hfound
        simp [hfound, hid, Proposal.marked_of_removed hremoved]
      · simp [hid]
    · rename_i hremoved
      refine ⟨rfl, rfl, fun id => ?_⟩
      simp only [Store.find?_set]
      by_cases hid : (id : Int) = listed
      · have hnat : id = listed.toNat := by omega
        simp [hnat, hfound, hnonneg, Proposal.marked, hremoved]
      · have hnat : id ≠ listed.toNat := by omega
        simp [hid, hnat]

theorem foldl_markRemoved_spec (ids : List Int) (db : Database) :
    (ids.foldl markRemoved db).proposalVotes = db.proposalVotes ∧
      ∀ id : Nat, (ids.foldl markRemoved db).proposals.find? id =
        (db.proposals.find? id).map fun p =>
          if (id : Int) ∈ ids then p.marked db.dgp.time else p := by
  induction ids generalizing db with
  | nil => simp
  | cons listed rest ih =>
      obtain ⟨hdgp, hvotes, hfind⟩ := markRemoved_spec db listed
      obtain ⟨hvotes', hfind'⟩ := ih (db.markRemoved listed)
      refine ⟨hvotes'.trans hvotes, fun id => ?_⟩
      rw [List.foldl_cons, hfind' id, hfind id, hdgp, Option.map_map]
      congr 1
      funext p
      by_cases hid : (id : Int) = listed
      · by_cases hrest : (id : Int) ∈ rest
        · simp [hid, hid ▸ hrest, Proposal.marked_of_removed (Proposal.marked_removed _ p)]
        · simp [hid, hid ▸ hrest]
      · simp [hid]

/-! ## Only the creator -/

/-- An accepted removal touches only proposals of its owner exactly when every listed
proposal that is not yet marked is one of the owner's. -/
theorem removeProposal_removesOnlyOf_iff {host : Host} {db next : Database}
    {op : RemoveProposalOperation} (hrun : removeProposal host db op = .ok next) :
    db.RemovesOnlyOf op.proposalOwner next ↔
      ∀ id ∈ op.proposalIds, ∀ proposal, db.findProposal id = some proposal →
        proposal.removed = false → proposal.creator = op.proposalOwner := by
  simp only [removeProposal, Outcome.bind_eq_ok, Outcome.pure_eq_ok] at hrun
  obtain ⟨⟨middle, reducer⟩, hloop, rfl⟩ := hrun
  obtain ⟨hdgp, hstay, hsame⟩ := removeProposals_spec hloop
  obtain ⟨hvotes, hfind⟩ := foldl_markRemoved_spec op.proposalIds middle
  -- what another creator's proposal becomes: only the marking loop can reach it
  have hforeign : ∀ id proposal, db.proposals.find? id = some proposal →
      proposal.creator ≠ op.proposalOwner →
      (op.proposalIds.foldl markRemoved middle).proposals.find? id =
          some (if (id : Int) ∈ op.proposalIds then proposal.marked db.dgp.time else proposal) ∧
        ∀ voter, (op.proposalIds.foldl markRemoved middle).proposalVotes.find? (id, voter) =
          db.proposalVotes.find? (id, voter) := by
    intro id proposal hproposal hcreator
    have hkept : db.SameProposal middle id := by
      apply hsame id
      intro p hp
      cases hproposal.symm.trans hp
      exact hcreator
    refine ⟨?_, fun voter => by rw [hvotes, hkept.2 voter]⟩
    rw [hfind id, hkept.1, hproposal, hdgp]
    rfl
  constructor
  · intro honly id hid proposal hproposal hremoved
    obtain ⟨hnonneg, hproposal⟩ := findProposal_eq_some.mp hproposal
    have hcast : ((id.toNat : Nat) : Int) = id := Int.toNat_of_nonneg hnonneg
    by_contra hcreator
    obtain ⟨hafter, -⟩ := hforeign id.toNat proposal hproposal hcreator
    rw [hcast, if_pos hid] at hafter
    apply hcreator
    apply honly id.toNat proposal hproposal
    refine .inr (.inr ⟨proposal, _, hproposal, hafter, Proposal.marked_removed _ _, ?_⟩)
    intro heq
    have hmarked := Proposal.marked_removed db.dgp.time proposal
    rw [heq, hremoved] at hmarked
    cases hmarked
  · intro howned id proposal hproposal htouched
    by_contra hcreator
    obtain ⟨hafter, hkept⟩ := hforeign id proposal hproposal hcreator
    have hsame : (if (id : Int) ∈ op.proposalIds then proposal.marked db.dgp.time
        else proposal) = proposal := by
      split
      · rename_i hid
        apply Proposal.marked_of_removed
        by_contra hremoved
        exact hcreator (howned id hid proposal (by rw [findProposal_natCast, hproposal])
          (by simpa using hremoved))
      · rfl
    rw [hsame] at hafter
    rcases htouched with hdeleted | ⟨voter, hbefore, hlost⟩ | ⟨before, after, hb, ha, -, hne⟩
    · rw [Deleted, hafter] at hdeleted
      cases hdeleted.2
    · rw [hkept voter] at hlost
      simp [hlost] at hbefore
    · rw [hproposal] at hb
      rw [hafter] at ha
      apply hne
      cases hb
      cases ha
      rfl

end Database

namespace Sample

open Database

/-- Two proposals, of `alice` and of `bob`, without votes. -/
def proposalOf (creator : AccountName) : Proposal :=
  { creator
    receiver := creator
    startDate := 1000000
    endDate := 9000000
    dailyPay := .blurt 1000
    subject := "pay"
    permlink := "post" }

def twoProposals : Database where
  dgp := { time := 2000000, currentWitness := "initminer" }
  processedHardforks := [0]
  proposals := ((∅ : Store Nat Proposal).set 0 (proposalOf "alice")).set 1 (proposalOf "bob")

/-- A node started with a removal threshold of `threshold`. -/
def hostWithThreshold (threshold : Int) : Host where
  rules := { isUtf8 := fun _ => true, isValidJson := fun _ => true }
  isProducing := false
  isPendingTx := false
  packSize := fun _ => 0
  spsRemoveThreshold := threshold

/-- `alice` lists her own proposal and `bob`'s. -/
def aliceRemovesBoth : RemoveProposalOperation :=
  { proposalOwner := "alice", proposalIds := [0, 1] }

def aliceRemovesHers : RemoveProposalOperation :=
  { proposalOwner := "alice", proposalIds := [0] }

theorem aliceRemovesHers_removesOnlyOf :
    twoProposals.RemovesOnlyOf "alice" (twoProposals.markRemoved 0) := by
  have hrun : removeProposal (hostWithThreshold 0) twoProposals aliceRemovesHers =
      .ok (twoProposals.markRemoved 0) := rfl
  apply (removeProposal_removesOnlyOf_iff hrun).mpr
  intro id hid proposal hproposal _
  have hzero : id = 0 := by simpa [aliceRemovesHers] using hid
  subst hzero
  cases (show twoProposals.findProposal 0 = some (proposalOf "alice") from rfl).symm.trans hproposal
  rfl

/-- With a budget of nothing the deleting loop stops at `alice`'s proposal, and the
marking loop takes `bob`'s. -/
theorem aliceRemovesBoth_marks_bobs :
    ∃ next, removeProposal (hostWithThreshold 0) twoProposals aliceRemovesBoth = .ok next ∧
      ¬ twoProposals.RemovesOnlyOf aliceRemovesBoth.proposalOwner next := by
  refine ⟨_, rfl, fun honly => ?_⟩
  have hcreator := honly 1 (proposalOf "bob") rfl
    (.inr (.inr ⟨proposalOf "bob", _, rfl, rfl, rfl, by decide⟩))
  exact absurd hcreator (by decide)

end Sample

end Ledger

end Blurt
