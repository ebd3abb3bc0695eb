import Blurt.ForkChain.SwitchOutcome

/-! # The outcomes of `push_block`

A call rejects the block, applies it on top of the chain, keeps it on the side, or
switches forks. Every outcome, returned or thrown, keeps the node invariant, so
the invariant holds after every run.
-/

namespace Blurt

open Outcome

variable {σ T : Type} {L : LedgerLogic σ T}

namespace Node

section Kept

variable {family : Set (ForkItem T)} {blocks : List (SignedBlock T)} {n : Node σ T}
  {newHead : ForkItem T} {first second : List (ForkItem T)}

/-- Below the fork database head nothing has to be anchored. -/
theorem Coherent.valid (h : n.Coherent L blocks) (hfork : n.forkDb.Consistent family)
    {head : ForkItem T} (hhead : n.forkDb.head = some head) (hnum : head.num ≤ n.headBlockNum) :
    n.Valid L family blocks where
  coherent := h
  fork := hfork
  anchored := by
    intro other hother hlt
    rw [hhead] at hother
    cases hother
    omega
  rooted := by
    intro hnone
    rw [hhead] at hnone
    cases hnone

/-- The item of a branch at which an application stops is a child of the head
that the application has reached. -/
theorem stopped_previous {n stop : Node σ T} {branch before after : List (ForkItem T)}
    {item : ForkItem T} {top : BlockId} {blocks : List (SignedBlock T)}
    (hget : ∀ i x, branch[i]? = some x → x.id = BlockId.previous^[i] top)
    (hbottom : n.headBlockId = BlockId.previous^[branch.length] top)
    (hsplit : branch.reverse = before ++ item :: after)
    (happlied : BranchApplied L n blocks before stop) :
    item.data.previous = stop.headBlockId := by
  have hbranch : branch = after.reverse ++ item :: before.reverse := by
    rw [← List.reverse_reverse branch, hsplit, List.reverse_append, List.reverse_cons,
      List.append_assoc, List.singleton_append]
  have hitem := hget after.length item (by
    rw [hbranch, List.getElem?_append_right (by simp)]
    simp)
  have hprevious : item.data.previous = BlockId.previous^[after.length + 1] top := by
    rw [Function.iterate_succ_apply', ← hitem]
    rfl
  rw [hprevious]
  obtain rfl | ⟨front, last, rfl⟩ := List.eq_nil_or_concat before
  · have hstop := happlied.ancestor
    rw [List.length_nil, Function.iterate_zero, id_eq] at hstop
    rw [hstop, hbottom, hbranch]
    simp
  · have hlast := hget (after.length + 1) last (by
      rw [hbranch, List.getElem?_append_right (by simp)]
      simp)
    rw [happlied.headBlockId last (by simp), hlast]

/-- Where the application of the old branch starts again. -/
theorem Stopped.restart {last last' item : ForkItem T} {before after : List (ForkItem T)}
    {stop : Node σ T} {message : String}
    (h : Stopped L family n newHead first second last before item after stop message)
    (hvalid : n.Valid L family blocks) (hbranches : n.Branches newHead first second)
    (hdepth : before.length ≤ stop.undoStack.length) (hlast : last' ∈ family) :
    let restart := (stop.cleaned item after).rewind before.length last'
    ∃ newer, restart.Coherent L newer ∧ restart.forkDb.Consistent family ∧
      restart.state = (n.rewind second.length last).state ∧
      restart.headBlockId = n.branchPoint second ∧
      restart.headBlockNum + second.length = n.headBlockNum ∧
      restart.committed = stop.committed ∧ restart.blockLog = stop.blockLog := by
  have happlied := h.branchApplied hvalid hbranches
  obtain ⟨newer, -, -, -, hcoherent, -⟩ := happlied.coherent
  have hcleaned : (stop.cleaned item after).Coherent L newer := hcoherent.congr _
  obtain ⟨hrestart, hcommitted, hid, hnum, -, hlog⟩ := hcleaned.rewind hdepth last'
  obtain ⟨-, hpoint, hpopped, -⟩ := hbranches.popped hvalid h.depth h.last_mem
  refine ⟨_, hrestart, (h.cleaned_consistent hvalid hbranches).setHead hlast, ?_, ?_, ?_,
    hcommitted, hlog⟩
  · rw [← happlied.undone hdepth]
    change (undo^[before.length] (stop.cleaned item after)).state = _
    rw [cleaned, undo_iterate_with_forkDb]
  · exact hid.trans (happlied.ancestor.trans hpoint)
  · have hstop := happlied.headBlockNum
    have hsame : (stop.cleaned item after).headBlockNum = stop.headBlockNum := rfl
    omega

/-- Every outcome of a fork switch keeps the node invariant. -/
theorem SwitchResult.valid {result : Partial σ T Bool} (hvalid : n.Valid L family blocks)
    (hbranches : n.Branches newHead first second)
    (h : SwitchResult L family n newHead first second result) : ∃ newer, result.1.Valid L family newer := by
  have hfirstFamily : ∀ x ∈ first, x ∈ family :=
    fun x hx => hvalid.fork.index (hbranches.firstIndexed x hx)
  have hsecondFamily : ∀ x ∈ second, x ∈ family :=
    fun x hx => hvalid.fork.index (hbranches.secondIndexed x hx)
  have hlengths := hbranches.lengths
  have hpos := hbranches.pos
  cases h with
  | @stuckBelow last message shallow last_mem last_num popped =>
      obtain ⟨hcoherent, hcommitted, -, -, -, -⟩ := hvalid.coherent.rewind le_rfl last
      refine ⟨_, hcoherent.valid (hvalid.fork.setHead last_mem) rfl ?_⟩
      rw [hcoherent.headBlockNum_eq, committedNum, hcommitted]
      exact Nat.le_add_right_of_le last_num
  | @switched last switched depth last_mem popped applied =>
      obtain ⟨hpopped, -, hnum, hfork⟩ := hbranches.popped hvalid depth last_mem
      have happlied := branchApplied hpopped applied
      obtain ⟨newer, -, -, -, hcoherent, -⟩ := happlied.coherent
      have hhead := happlied.headBlockNum
      rw [List.length_reverse] at hhead
      have hhigher := hbranches.higher
      obtain ⟨top, htop⟩ : ∃ top, first[0]? = some top :=
        ⟨_, List.getElem?_eq_getElem (by omega)⟩
      have htopNum := (hbranches.firstGet 0 top htop).2
      have hlast : first.reverse.getLast? = some top := by
        rw [List.getLast?_reverse, List.head?_eq_getElem?, htop]
      have htopHead : switched.forkDb.head = some top := by
        rw [happlied.head, hlast, Option.some_or]
      exact ⟨newer, hcoherent.valid (happlied.consistent hfork
        (fun x hx => hfirstFamily x (List.mem_reverse.mp hx))) htopHead (by omega)⟩
  | @stuckAbove last last' item before after stop message message' stopped shallow last_mem last_num =>
      obtain ⟨newer, -, -, -, hcoherent, -⟩ := (stopped.branchApplied hvalid hbranches).coherent
      have hcleaned : (stop.cleaned item after).Coherent L newer := hcoherent.congr _
      obtain ⟨hrewound, hcommitted, -, -, -, -⟩ := hcleaned.rewind le_rfl last'
      refine ⟨_, hrewound.valid
        ((stopped.cleaned_consistent hvalid hbranches).setHead last_mem) rfl ?_⟩
      rw [hrewound.headBlockNum_eq, committedNum, hcommitted]
      exact Nat.le_add_right_of_le last_num
  | @restored last last' item before after stop restored message stopped depth last_mem applied =>
      obtain ⟨_, hrestart, hfork, -, -, hnum, -, -⟩ :=
        stopped.restart hvalid hbranches depth last_mem
      have happlied := branchApplied hrestart applied
      obtain ⟨newer, -, -, -, hcoherent, -⟩ := happlied.coherent
      have hhead := happlied.headBlockNum
      rw [List.length_reverse] at hhead
      obtain ⟨top, htop⟩ : ∃ top, second[0]? = some top := ⟨_, List.getElem?_eq_getElem hpos⟩
      have htopNum := (hbranches.secondGet 0 top htop).2
      have hlast : second.reverse.getLast? = some top := by
        rw [List.getLast?_reverse, List.head?_eq_getElem?, htop]
      have htopHead : restored.forkDb.head = some top := by
        rw [happlied.head, hlast, Option.some_or]
      exact ⟨newer, hcoherent.valid (happlied.consistent hfork
        (fun x hx => hsecondFamily x (List.mem_reverse.mp hx))) htopHead (by omega)⟩
  | @broken last last' item before after failed stop broken message message' stopped depth last_mem
      applied =>
      obtain ⟨_, hrestart, hfork, -, hpoint, -, -, -⟩ :=
        stopped.restart hvalid hbranches depth last_mem
      obtain ⟨before', item', after', stop', hsplit, -, hbefore, hitem⟩ := applyItems_some applied
      obtain ⟨rfl, -⟩ := applyItem_error.mp hitem
      have happlied := branchApplied hrestart hbefore
      obtain ⟨newer, -, -, -, hcoherent, -⟩ := happlied.coherent
      have hmem : ∀ x ∈ before' ++ item' :: after', x ∈ family := by
        intro x hx
        rw [← hsplit] at hx
        exact hsecondFamily x (List.mem_reverse.mp hx)
      have hprevious : item'.data.previous = stop'.headBlockId :=
        stopped_previous (fun i x hx => (hbranches.secondGet i x hx).1)
          (hpoint.trans hbranches.secondAncestor) hsplit happlied
      refine ⟨newer, hcoherent.congr _, ?_, ?_, ?_⟩
      · exact (happlied.consistent hfork (fun x hx => hmem x (by simp [hx]))).setHead
          (hmem item' (by simp))
      · intro head hhead _
        cases hhead
        exact Or.inl hprevious
      · intro hnone
        cases hnone

end Kept

section Push

variable {family : Set (ForkItem T)} {blocks : List (SignedBlock T)} {n : Node σ T}
  {b : SignedBlock T}

/-- How a `push_block` call ends. In `linked` the fork database has taken the block. -/
inductive PushResult (L : LedgerLogic σ T) (family : Set (ForkItem T)) (n : Node σ T)
    (b : SignedBlock T) : Partial σ T Bool → Prop
  | rejected {message : String} (rejected : n.forkDb.pushBlock b = .error message) :
      PushResult L family n b (n, .error message)
  | applied {item newHead : ForkItem T} {forkDb : ForkDatabase T} {applied : Node σ T}
      (accepted : n.forkDb.pushBlock b = .ok forkDb)
      (pushed : n.forkDb.Pushed b item forkDb) (head : forkDb.head = some newHead)
      (child : newHead.data.previous = n.headBlockId)
      (applies : ({ n with forkDb } : Node σ T).applyInSession L b = .ok applied) :
      PushResult L family n b (applied, .ok false)
  | removed {item newHead : ForkItem T} {forkDb : ForkDatabase T} {message : String}
      (accepted : n.forkDb.pushBlock b = .ok forkDb)
      (pushed : n.forkDb.Pushed b item forkDb) (head : forkDb.head = some newHead)
      (child : newHead.data.previous = n.headBlockId)
      (throws : ({ n with forkDb } : Node σ T).applyInSession L b = .error message) :
      PushResult L family n b ({ n with forkDb := forkDb.remove b.id }, .error message)
  | kept {item newHead : ForkItem T} {forkDb : ForkDatabase T}
      (accepted : n.forkDb.pushBlock b = .ok forkDb)
      (pushed : n.forkDb.Pushed b item forkDb) (head : forkDb.head = some newHead)
      (aside : newHead.data.previous ≠ n.headBlockId) (low : newHead.num ≤ n.headBlockNum) :
      PushResult L family n b ({ n with forkDb }, .ok false)
  | unlinked {item newHead : ForkItem T} {forkDb : ForkDatabase T} {message : String}
      (accepted : n.forkDb.pushBlock b = .ok forkDb)
      (pushed : n.forkDb.Pushed b item forkDb) (head : forkDb.head = some newHead)
      (aside : newHead.data.previous ≠ n.headBlockId) (higher : n.headBlockNum < newHead.num)
      (missing : forkDb.fetchBranchFrom newHead.id n.headBlockId = .error message) :
      PushResult L family n b ({ n with forkDb }, .error message)
  | switching {item newHead : ForkItem T} {forkDb : ForkDatabase T}
      {first second : List (ForkItem T)} {result : Partial σ T Bool}
      (accepted : n.forkDb.pushBlock b = .ok forkDb)
      (pushed : n.forkDb.Pushed b item forkDb)
      (switching : ({ n with forkDb } : Node σ T).Switching newHead first second)
      (ends : SwitchResult L (Insert.insert item family) { n with forkDb } newHead first second
        result) :
      PushResult L family n b result

/-- Linking a block keeps the node invariant. -/
theorem Valid.linked (h : n.Valid L family blocks) {item : ForkItem T} {forkDb : ForkDatabase T}
    (hpushed : n.forkDb.Pushed b item forkDb) :
    ({ n with forkDb } : Node σ T).Valid L (Insert.insert item family) blocks where
  coherent := h.coherent.congr forkDb
  fork := hpushed.consistent h.fork
  anchored := by
    intro head hhead hlt
    rcases hpushed.head_eq with ⟨hnew, -⟩ | ⟨old, hold, hsame, -⟩
    · have heq : item = head := Option.some.inj (hnew.symm.trans hhead)
      subst heq
      rcases hpushed.link with ⟨-, hempty | hzero⟩ | ⟨parent, hparent, -, hfollows⟩
      · exact Or.inr (Or.inl (h.rooted hempty))
      · refine Or.inr (Or.inl ?_)
        rw [← BlockId.num_eq_zero]
        have hitem : item.num = 1 := by
          rw [ForkItem.num, hpushed.data, SignedBlock.blockNum, hzero]
          rfl
        change n.headBlockNum < item.num at hlt
        change n.headBlockId.num = 0
        rw [h.coherent.num_headBlockId]
        omega
      · exact Or.inr (Or.inr ⟨parent, hpushed.mem_index.mpr (Or.inl hparent), hfollows⟩)
    · have heq : old = head := Option.some.inj (hsame.symm.trans hhead)
      subst heq
      rcases h.anchored old hold hlt with hchild | hzero | ⟨parent, hparent, hfollows⟩
      · exact Or.inl hchild
      · exact Or.inr (Or.inl hzero)
      · exact Or.inr (Or.inr ⟨parent, hpushed.mem_index.mpr (Or.inl hparent), hfollows⟩)
  rooted := by
    intro hnone
    obtain ⟨head, hhead⟩ := hpushed.exists_head
    rw [hhead] at hnone
    cases hnone

theorem switchFork_error {n : Node σ T} {newHead : ForkItem T} {message : String}
    (h : n.forkDb.fetchBranchFrom newHead.id n.headBlockId = .error message) :
    switchFork L newHead n = (n, .error message) := by
  rw [switchFork, h]

theorem pushBlock_result (hvalid : n.Valid L family blocks) (b : SignedBlock T) :
    PushResult L family n b (n.pushBlock L b) := by
  rw [pushBlock, _pushBlock]
  cases hpush : n.forkDb.pushBlock b with
  | error message => exact .rejected hpush
  | ok forkDb =>
      obtain ⟨item, hpushed⟩ := ForkDatabase.pushBlock_spec hpush
      obtain ⟨newHead, hhead⟩ := hpushed.exists_head
      simp only [hhead]
      split
      next hchild =>
        cases happly : ({ n with forkDb } : Node σ T).applyInSession L b with
        | ok applied => exact .applied hpush hpushed hhead hchild happly
        | error message => exact .removed hpush hpushed hhead hchild happly
      next haside =>
        split
        next hhigher =>
          cases hfetch : forkDb.fetchBranchFrom newHead.id n.headBlockId with
          | error message =>
              rw [switchFork_error (n := { n with forkDb }) hfetch]
              exact .unlinked hpush hpushed hhead haside hhigher hfetch
          | ok branches =>
              have hswitching : ({ n with forkDb } : Node σ T).Switching newHead branches.1
                branches.2 := ⟨hhead, haside, hhigher, hfetch⟩
              exact .switching hpush hpushed hswitching (hswitching.result (hvalid.linked hpushed))
        next hlow => exact .kept hpush hpushed hhead haside (not_lt.mp hlow)

/-- Every outcome of `push_block` keeps the node invariant. -/
theorem PushResult.valid (hvalid : n.Valid L family blocks) {result : Partial σ T Bool}
    (h : PushResult L family n b result) : ∃ family' newer, result.1.Valid L family' newer := by
  cases h with
  | rejected => exact ⟨family, blocks, hvalid⟩
  | @applied item newHead forkDb applied accepted pushed head child applies =>
      have hlinked := hvalid.linked pushed
      obtain ⟨written, happlied⟩ := applyInSession_spec applies
      obtain ⟨newer, -, -, -, hcoherent, -, -, -, -⟩ := hlinked.coherent.applied happlied
      have hfork : applied.forkDb.Consistent (Insert.insert item family) := by
        rw [happlied.forkDb]
        exact hlinked.fork.setMaxSize _
      have hhead : applied.forkDb.head = some newHead := by
        rw [happlied.forkDb, ForkDatabase.setMaxSize_head]
        exact head
      exact ⟨_, newer, hcoherent.valid hfork hhead (happlied.heads newHead head).le⟩
  | @removed item newHead forkDb message accepted pushed head child throws =>
      have hlinked := hvalid.linked pushed
      refine ⟨_, blocks, hlinked.coherent.congr _, hlinked.fork.remove b.id, ?_, ?_⟩
      · intro other hother _
        rw [show other = newHead from Option.some.inj (hother.symm.trans head)]
        exact Or.inl child
      · intro hnone
        exact absurd (head.symm.trans hnone) (by simp)
  | kept _ pushed => exact ⟨_, blocks, hvalid.linked pushed⟩
  | unlinked _ pushed => exact ⟨_, blocks, hvalid.linked pushed⟩
  | switching _ pushed switching ends =>
      have hlinked := hvalid.linked pushed
      obtain ⟨newer, hnewer⟩ := ends.valid hlinked (switching.branches hlinked)
      exact ⟨_, newer, hnewer⟩

end Push

section Run

/-- What `open` checks: the block log ends at the head of the state. -/
structure Opens (state : ChainState σ) (blockLog : List (SignedBlock T)) : Prop where
  sound : state.Sound
  length : blockLog.length = state.dgp.headBlockNumber
  head : ∀ head, blockLog.getLast? = some head → head.id = state.dgp.headBlockId

theorem Opens.valid {state : ChainState σ} {blockLog : List (SignedBlock T)}
    (h : Opens state blockLog) : ∃ family, (opened state blockLog).Valid L family [] := by
  have hcoherent : (opened state blockLog).Coherent L [] := by
    refine ⟨h.sound, .committed, rfl, h.sound.irreversible, h.length, ?_⟩
    have hcommitted : (opened state blockLog).committedNum = state.dgp.headBlockNumber := rfl
    rw [hcommitted, Node.logHeadNum, show (opened state blockLog).blockLog = blockLog from rfl]
    cases hlast : blockLog.getLast? with
    | none =>
        rw [← h.length, List.getLast?_eq_none_iff.mp hlast]
        rfl
    | some last =>
        rw [h.sound.number, ← h.head last hlast]
        rfl
  cases hlast : blockLog.getLast? with
  | none =>
      have hfork : (opened state blockLog).forkDb = {} := by rw [opened, hlast]
      refine ⟨∅, hcoherent, ?_, ?_, ?_⟩
      · rw [hfork]
        exact ⟨by simp, by simp, by simp, by simp, by simp, List.nodup_nil⟩
      · intro head hhead
        rw [hfork] at hhead
        cases hhead
      · intro _
        rw [← BlockId.num_eq_zero, hcoherent.num_headBlockId]
        change state.dgp.headBlockNumber = 0
        rw [← h.length, List.getLast?_eq_none_iff.mp hlast]
        rfl
  | some last =>
      let item : ForkItem T := { ref := 0, data := last }
      have hfork : (opened state blockLog).forkDb =
          { index := [item], head := some item, nextRef := 1 } := by
        rw [opened, hlast]
        rfl
      have hhead : (opened state blockLog).forkDb.head = some item := by rw [hfork]
      refine ⟨{item}, hcoherent.valid ?_ hhead ?_⟩
      · rw [hfork]
        refine ⟨?_, ?_, ?_, ?_, ?_, ?_⟩
        · simp
        · simp [item]
        · simp
        · simp [item]
        · simp [item]
        · exact List.nodup_singleton _
      · change item.id.num ≤ state.dgp.headBlockNumber
        rw [h.sound.number, ← h.head last hlast]
        exact le_rfl

/-- The node invariant holds after every run of `push_block` calls. -/
theorem run_valid {n : Node σ T} {family : Set (ForkItem T)} {applied : List (SignedBlock T)}
    (hvalid : n.Valid L family applied) (pushes : List (SignedBlock T)) :
    ∃ family' applied', (run L n pushes).Valid L family' applied' := by
  induction pushes generalizing n family applied with
  | nil => exact ⟨family, applied, hvalid⟩
  | cons b rest ih =>
      obtain ⟨_, _, hnext⟩ := (pushBlock_result hvalid b).valid hvalid
      exact ih hnext

end Run

end Node

end Blurt
