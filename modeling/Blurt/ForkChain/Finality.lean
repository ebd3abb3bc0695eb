import Blurt.ForkChain.FailedPush
import Mathlib.Data.Set.Basic

/-! # What stays committed

The committed state of a node only ever moves up along the chain that led to it,
through every returned and every failed call.
-/

namespace Blurt

open Outcome

variable {σ T : Type} {L : LedgerLogic σ T}

namespace Node

/-- The committed state of `later` is reached by blocks on top of that of `earlier`. -/
def Advances (L : LedgerLogic σ T) (earlier later : Node σ T) : Prop :=
  ∃ stack blocks, History L earlier.committed later.committed stack blocks

namespace Advances

theorem of_eq {earlier later : Node σ T} (h : later.committed = earlier.committed) :
    Advances L earlier later := by
  refine ⟨[], [], ?_⟩
  rw [h]
  exact .committed

theorem trans {earlier middle later : Node σ T} (h : Advances L earlier middle)
    (h' : Advances L middle later) : Advances L earlier later := by
  obtain ⟨_, _, hfirst⟩ := h
  obtain ⟨_, _, hsecond⟩ := h'
  exact ⟨_, _, hfirst.trans hsecond⟩

theorem reached {start : ChainState σ} {earlier later : Node σ T} (h : Advances L earlier later)
    (hearlier : ChainState.Reached L Set.univ start earlier.committed) :
    ChainState.Reached L Set.univ start later.committed := by
  obtain ⟨_, _, hhistory⟩ := h
  exact hhistory.reached (fun _ _ => Set.mem_univ _) hearlier

end Advances

section Push

variable {family : Set (ForkItem T)} {blocks : List (SignedBlock T)} {n : Node σ T}
  {newHead : ForkItem T} {first second : List (ForkItem T)} {b : SignedBlock T}

theorem BranchApplied.advances {m : Node σ T} {items : List (ForkItem T)}
    (h : BranchApplied L n blocks items m) : Advances L n m := by
  obtain ⟨_, older, stack, -, -, hhistory⟩ := h.coherent
  exact ⟨stack, older, hhistory⟩

theorem SwitchResult.advances {result : Partial σ T Bool} (hvalid : n.Valid L family blocks)
    (hbranches : n.Branches newHead first second)
    (h : SwitchResult L family n newHead first second result) : Advances L n result.1 := by
  have hpopped : ∀ {last}, second.length ≤ n.undoStack.length →
      Advances L n (n.rewind second.length last) :=
    fun hdepth => .of_eq (hvalid.coherent.rewind hdepth _).2.1
  cases h with
  | @stuckBelow last message shallow last_mem last_num popped =>
      exact .of_eq (hvalid.coherent.rewind le_rfl last).2.1
  | @switched last switched depth last_mem popped applied =>
      have happlied := branchApplied (hbranches.popped hvalid depth last_mem).1 applied
      exact (hpopped depth).trans happlied.advances
  | @stuckAbove last last' item before after stop message message' stopped shallow last_mem last_num =>
      have happlied := stopped.branchApplied hvalid hbranches
      obtain ⟨newer, -, -, -, hcoherent, -⟩ := happlied.coherent
      have hcleaned : (stop.cleaned item after).Coherent L newer := hcoherent.congr _
      exact ((hpopped stopped.depth).trans happlied.advances).trans
        (.of_eq (hcleaned.rewind le_rfl last').2.1)
  | @restored last last' item before after stop restored message stopped depth last_mem applied =>
      obtain ⟨_, hrestart, -, -, -, -, hcommitted, -⟩ :=
        stopped.restart hvalid hbranches depth last_mem
      exact (((hpopped stopped.depth).trans (stopped.branchApplied hvalid hbranches).advances).trans
        (.of_eq hcommitted)).trans (branchApplied hrestart applied).advances
  | @broken last last' item before after failed stop broken message message' stopped depth last_mem
      applied =>
      obtain ⟨_, hrestart, -, -, -, -, hcommitted, -⟩ :=
        stopped.restart hvalid hbranches depth last_mem
      obtain ⟨before', item', after', stop', -, -, hbefore, hitem⟩ := applyItems_some applied
      obtain ⟨rfl, -⟩ := applyItem_error.mp hitem
      exact (((hpopped stopped.depth).trans (stopped.branchApplied hvalid hbranches).advances).trans
        (.of_eq hcommitted)).trans (branchApplied hrestart hbefore).advances

theorem PushResult.advances {result : Partial σ T Bool} (hvalid : n.Valid L family blocks)
    (h : PushResult L family n b result) : Advances L n result.1 := by
  cases h with
  | rejected => exact .of_eq rfl
  | @applied item newHead forkDb applied accepted pushed head child applies =>
      obtain ⟨written, happlied⟩ := applyInSession_spec applies
      obtain ⟨_, older, stack, -, -, hhistory, -⟩ :=
        (hvalid.linked pushed).coherent.applied happlied
      exact ⟨stack, older, hhistory⟩
  | removed => exact .of_eq rfl
  | kept => exact .of_eq rfl
  | unlinked => exact .of_eq rfl
  | switching _ pushed switching ends =>
      have hlinked := hvalid.linked pushed
      have hadvances := ends.advances hlinked (switching.branches hlinked)
      exact hadvances

/-- The committed state advances over every run. -/
theorem run_advances (hvalid : n.Valid L family blocks) (pushes : List (SignedBlock T)) :
    Advances L n (run L n pushes) := by
  induction pushes generalizing n family blocks with
  | nil => exact .of_eq rfl
  | cons b rest ih =>
      have hpush := pushBlock_result hvalid b
      obtain ⟨_, _, hnext⟩ := hpush.valid hvalid
      exact (hpush.advances hvalid).trans (ih hnext)

end Push

/-- What is committed stays on the chain: later heads descend from every ancestor of an
earlier head that was not above the committed block. -/
theorem Advances.descends {earlier later : Node σ T} {blocks blocks' : List (SignedBlock T)}
    (h : Advances L earlier later) (hearlier : earlier.Coherent L blocks)
    (hlater : later.Coherent L blocks') {id : BlockId} (hid : earlier.headBlockId.Descends id)
    (hnum : id.num ≤ earlier.committedNum) : later.headBlockId.Descends id := by
  obtain ⟨_, _, hhistory⟩ := h
  have hbelow : earlier.committed.dgp.headBlockId.Descends id := by
    refine hearlier.history.descends.total hid ?_
    rwa [← hearlier.sound.number]
  exact hlater.history.descends.trans (hhistory.descends.trans hbelow)

section Run

variable {state : ChainState σ} {blockLog : List (SignedBlock T)}

theorem run_append (n : Node σ T) (pushes more : List (SignedBlock T)) :
    run L n (pushes ++ more) = run L (run L n pushes) more :=
  List.foldl_append

/-- Every chain state of a run is reached by applying blocks to the opened state. -/
theorem run_reached (hopens : Opens state blockLog) (pushes : List (SignedBlock T)) :
    ChainState.Reached L Set.univ state (run L (opened state blockLog) pushes).state := by
  obtain ⟨_, hopened⟩ := hopens.valid (L := L)
  obtain ⟨_, blocks, hvalid⟩ := run_valid hopened pushes
  have hcommitted := (run_advances hopened pushes).reached (by
    rw [committed_eq (L := L) hopened.coherent.history]
    exact ChainState.Reached.start)
  exact hvalid.coherent.history.reached (fun _ _ => Set.mem_univ _) hcommitted

end Run

end Node

end Blurt
