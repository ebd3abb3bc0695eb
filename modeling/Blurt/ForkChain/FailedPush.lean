import Blurt.ForkChain.PushOutcome

/-! # Failed pushes and the chain state

`push_block` promises that every partial change of a failed call is unwound. A
call that attempts no fork switch keeps the promise. A switch keeps it exactly
when the undo history covers what has to be popped, on the old branch and on
the new one.
-/

namespace Blurt

open Outcome

variable {σ T : Type} {L : LedgerLogic σ T}

namespace Node

/-- The call moves the fork database head aside of the chain, and `linked` is the node
at which its fork switch starts. -/
structure Attempts (n : Node σ T) (b : SignedBlock T) (linked : Node σ T) (newHead : ForkItem T)
    (first second : List (ForkItem T)) : Prop where
  pushed : n.forkDb.pushBlock b = .ok linked.forkDb
  linked_eq : linked = { n with forkDb := linked.forkDb }
  switching : linked.Switching newHead first second

/-- The switch can be unwound. Either the branch point is not below the committed
block, or there is nothing to undo. Where a block of the new branch throws, no block
above the branch point has become irreversible on the new branch, unless the block
that did is the chain head itself; and the blocks stored for the old branch lead
from the branch point back to the state of the chain head. The new branch is followed
through nodes, since a block also throws if what it makes irreversible cannot be
written to the log. -/
structure Recoverable (L : LedgerLogic σ T) (n : Node σ T) (newHead : ForkItem T)
    (first second : List (ForkItem T)) : Prop where
  below : (n.branchPoint second).num < n.committedNum → n.undoStack = []
  above : ∀ popped before item after stop failed message,
    popUntil (newHead :: first ++ second) (n.branchPoint second) n.popFuel n = (popped, .ok ()) →
    first.reverse = before ++ item :: after →
    applyItems L before popped = (stop, none) →
    stop.applyItem L item = (failed, .error message) →
    (stop.state.dgp.lastIrreversibleBlockNum ≤ (n.branchPoint second).num ∨
        newHead.id.Descends n.headBlockId ∧
          stop.state.dgp.lastIrreversibleBlockNum = n.headBlockNum) ∧
      popped.state.applyAll L (second.reverse.map (·.data)) = .ok n.state

theorem Attempts.pushBlock_eq {n linked : Node σ T} {b : SignedBlock T} {newHead : ForkItem T}
    {first second : List (ForkItem T)} (h : n.Attempts b linked newHead first second) :
    n.pushBlock L b = switchFork L newHead linked := by
  have hid : linked.headBlockId = n.headBlockId := by rw [h.linked_eq]; rfl
  have hnum : linked.headBlockNum = n.headBlockNum := by rw [h.linked_eq]; rfl
  have haside := h.switching.aside
  have hhigher := h.switching.higher
  rw [hid] at haside
  rw [hnum] at hhigher
  rw [pushBlock, _pushBlock, h.pushed]
  simp only [h.switching.head]
  rw [if_neg haside, if_pos hhigher, ← h.linked_eq]

section Unwinding

variable {family : Set (ForkItem T)} {blocks : List (SignedBlock T)} {n : Node σ T}
  {newHead : ForkItem T} {first second : List (ForkItem T)}

/-- A branch that passes the commit point on its way leaves the state there committed. -/
theorem BranchApplied.committed_state {m : Node σ T} {items : List (ForkItem T)}
    (hcoherent : n.Coherent L blocks) (h : BranchApplied L n blocks items m)
    (hnum : n.headBlockNum ≤ m.committedNum) :
    n.state.applyAll L ((items.take (m.committedNum - n.headBlockNum)).map (·.data)) =
      .ok m.committed := by
  obtain ⟨newer, older, olderStack, hblocks, hm, hhistory⟩ := h.coherent
  have holder : m.committedNum = n.committedNum + older.length := by
    rw [hhistory.length_eq]
    exact hhistory.headBlockNumber hcoherent.sound
  have hlength : n.headBlockNum = n.committedNum + blocks.length := by
    rw [hcoherent.history.length_eq]
    exact hcoherent.headBlockNum_eq
  obtain ⟨middle, hmiddle⟩ : ∃ middle, older = middle ++ blocks := by
    have hsuffix : blocks <:+ older :=
      List.suffix_of_suffix_length_le ⟨_, hblocks⟩ (List.suffix_append newer older) (by omega)
    obtain ⟨middle, hmiddle⟩ := hsuffix
    exact ⟨middle, hmiddle.symm⟩
  subst hmiddle
  rw [← List.append_assoc, List.append_left_inj] at hblocks
  have htake : (items.take (m.committedNum - n.headBlockNum)).map (·.data) = middle.reverse := by
    have hitems := congrArg List.reverse hblocks
    rw [List.reverse_reverse, List.reverse_append] at hitems
    rw [List.map_take, hitems]
    refine List.take_left' ?_
    rw [List.length_append] at holder
    rw [List.length_reverse]
    omega
  have hall := hhistory.applyAll
  rw [List.reverse_append, ChainState.applyAll, forEach_append_eq_ok] at hall
  obtain ⟨s, hs, hs'⟩ := hall
  have hstate := hcoherent.history.applyAll
  rw [ChainState.applyAll, hs] at hstate
  cases hstate
  rw [htake]
  exact hs'

/-- A new branch that extends the chain head runs through the old branch. -/
theorem Branches.extends (hvalid : n.Valid L family blocks)
    (hbranches : n.Branches newHead first second) (h : newHead.id.Descends n.headBlockId) :
    ∃ upper, first = upper ++ second := by
  have hlengths := hbranches.lengths
  have hhigher := hbranches.higher
  have hhead := h.eq_iterate
  rw [hvalid.coherent.num_headBlockId, ForkItem.num_id] at hhead
  refine ⟨first.take (first.length - second.length), ?_⟩
  conv_lhs => rw [← List.take_append_drop (first.length - second.length) first]
  congr 1
  refine List.ext_getElem? ?_
  intro i
  rw [List.getElem?_drop]
  by_cases hi : i < second.length
  · have hy := List.getElem?_eq_getElem hi
    have hx := List.getElem?_eq_getElem (show first.length - second.length + i < first.length by omega)
    rw [hx, hy, Option.some_inj]
    refine hvalid.fork.eq_of_id_eq (hbranches.firstIndexed _ (List.mem_of_getElem? hx))
      (hbranches.secondIndexed _ (List.mem_of_getElem? hy)) ?_
    rw [(hbranches.firstGet _ _ hx).1, (hbranches.secondGet _ _ hy).1, hhead,
      ← Function.iterate_add_apply]
    congr 1
    omega
  · rw [List.getElem?_eq_none (by omega), List.getElem?_eq_none (by omega)]

theorem applyItems_append_error {items : List (ForkItem T)} {item : ForkItem T}
    {n stop failed : Node σ T} {message : String} (h : applyItems L items n = (stop, none))
    (hitem : stop.applyItem L item = (failed, .error message)) (after : List (ForkItem T)) :
    applyItems L (items ++ item :: after) n = (failed, some (message, item :: after)) := by
  induction items generalizing n with
  | nil =>
      cases h
      rw [List.nil_append, applyItems, hitem]
  | cons x rest ih =>
      obtain ⟨next, hx, hrest⟩ := applyItems_cons_none.mp h
      rw [List.cons_append, applyItems, hx]
      exact ih hrest

namespace Stopped

variable {last item : ForkItem T} {before after : List (ForkItem T)} {stop : Node σ T}
  {message : String}

theorem applyItems_eq (h : Stopped L family n newHead first second last before item after stop message) :
    applyItems L first.reverse (n.rewind second.length last) =
      ({ stop with forkDb := stop.forkDb.setHead item }, some (message, item :: after)) := by
  rw [h.split]
  exact applyItems_append_error h.applied (applyItem_error.mpr ⟨rfl, h.failed⟩) after

/-- The committed state after a stop above the branch point is the chain head only
where the new branch extends the chain head. -/
theorem committed_eq_state_iff (hvalid : n.Valid L family blocks)
    (hbranches : n.Branches newHead first second)
    (h : Stopped L family n newHead first second last before item after stop message)
    (hshallow : stop.undoStack.length < before.length) :
    stop.committed = n.state ↔
      (newHead.id.Descends n.headBlockId ∧
          stop.state.dgp.lastIrreversibleBlockNum = n.headBlockNum) ∧
        (n.rewind second.length last).state.applyAll L (second.reverse.map (·.data)) =
          .ok n.state := by
  have happlied := h.branchApplied hvalid hbranches
  obtain ⟨hpopped, hpoint, hnum, -⟩ := hbranches.popped hvalid h.depth h.last_mem
  obtain ⟨newer, -, -, -, hcoherent, -⟩ := happlied.coherent
  have hstop := hcoherent.headBlockNum_eq
  have hheight := happlied.headBlockNum
  have hbase : (n.rewind second.length last).committedNum ≤
      (n.rewind second.length last).headBlockNum := by
    have := hpopped.headBlockNum_eq
    omega
  have hirreversible : stop.committedNum = stop.state.dgp.lastIrreversibleBlockNum := by
    have hmax := happlied.committedNum
    omega
  have hcommitted := happlied.committed_state hpopped (by omega)
  have hdescends : newHead.id.Descends stop.committed.dgp.headBlockId := by
    have hitem : item.data.previous = stop.headBlockId :=
      stopped_previous (fun i x hx => (hbranches.firstGet i x hx).1)
        (hpoint.trans hbranches.firstAncestor) h.split happlied
    have hbelow := hcoherent.history.descends
    have hget := (hbranches.firstGet after.length item (by
      rw [h.first_eq, List.getElem?_append_right (by simp)]
      simp)).1
    have hup : newHead.id.Descends item.id := by
      rw [hget]
      exact BlockId.descends_iterate _ _
    refine hup.trans (BlockId.Descends.trans ?_ hbelow)
    change item.id.Descends stop.headBlockId
    rw [← hitem]
    exact Or.inr (.refl _)
  have hextend : newHead.id.Descends n.headBlockId → stop.committedNum = n.headBlockNum →
      (before.take (stop.committedNum - (n.rewind second.length last).headBlockNum)) =
        second.reverse := by
    intro hhead hsame
    obtain ⟨upper, hupper⟩ := hbranches.extends hvalid hhead
    have hsplit := h.split
    rw [hupper, List.reverse_append] at hsplit
    have htake := congrArg (List.take second.length) hsplit
    rw [List.take_left' (List.length_reverse), List.take_append_of_le_length (by omega)] at htake
    rw [show stop.committedNum - (n.rewind second.length last).headBlockNum = second.length by omega]
    exact htake.symm
  constructor
  · intro heq
    rw [heq] at hdescends
    have hsame : stop.committedNum = n.headBlockNum := by rw [committedNum, heq]; rfl
    rw [hextend hdescends hsame, heq] at hcommitted
    exact ⟨⟨hdescends, hirreversible.symm.trans hsame⟩, hcommitted⟩
  · rintro ⟨⟨hhead, hlast⟩, happly⟩
    rw [hextend hhead (hirreversible.trans hlast), happly] at hcommitted
    exact (Except.ok.inj hcommitted).symm

end Stopped

/-- The old branch, applied again where it leads back to the chain head, does not
throw: nothing on it is newly irreversible. -/
theorem reapply {restart : Node σ T} {items : List (ForkItem T)} {applied : List (SignedBlock T)}
    {s : ChainState σ} (hrestart : restart.Coherent L applied)
    (hstate : restart.state.applyAll L (items.map (·.data)) = .ok s)
    (hirreversible : s.dgp.lastIrreversibleBlockNum ≤ restart.committedNum) :
    ∃ restored, applyItems L items restart = (restored, none) ∧ restored.state = s := by
  induction items generalizing restart applied with
  | nil =>
      cases hstate
      exact ⟨restart, rfl, rfl⟩
  | cons item rest ih =>
      obtain ⟨next, hnext, hrest⟩ := forEach_cons_eq_ok.mp hstate
      have hle : next.dgp.lastIrreversibleBlockNum ≤ s.dgp.lastIrreversibleBlockNum :=
        forEach_invariant
          (fun t : ChainState σ => next.dgp.lastIrreversibleBlockNum ≤ t.dgp.lastIrreversibleBlockNum)
          (fun _ _ _ _ hle hstep => hle.trans (ChainState.applyBlock_irreversible_le hstep))
          le_rfl hrest
      have hmoved := hrestart.congr (restart.forkDb.setHead item)
      have hlogHead : restart.logHeadNum = restart.committedNum := hrestart.logHead
      obtain ⟨applied', hsession, rfl⟩ := applyInSession_of_committed
        (n := { restart with forkDb := restart.forkDb.setHead item }) hnext
        (by
          intro head hhead
          cases hhead
          exact (ChainState.applyBlock_headBlockNumber hnext).symm)
        (by
          change _ ≤ restart.logHeadNum
          omega)
      obtain ⟨_, hsession'⟩ := applyInSession_spec hsession
      obtain ⟨newer, _, _, _, hcoherent, _, hcommitted, _, _⟩ := hmoved.applied hsession'
      have hbase : applied'.committedNum =
          max restart.committedNum applied'.state.dgp.lastIrreversibleBlockNum := hcommitted
      obtain ⟨restored, hrestored, hs⟩ := ih hcoherent hrest (by omega)
      exact ⟨restored, applyItems_cons_none.mpr ⟨applied', applyItem_ok.mpr hsession, hrestored⟩, hs⟩

theorem branchPoint_num (hvalid : n.Valid L family blocks)
    (hbranches : n.Branches newHead first second) :
    (n.branchPoint second).num + second.length = n.headBlockNum := by
  have hdeep := hbranches.deep
  rw [hbranches.secondAncestor, BlockId.num_iterate, hvalid.coherent.num_headBlockId]
  omega

/-- The new branch stops at one place only, so being recoverable is a fact about it. -/
theorem Stopped.recoverable_iff {last item : ForkItem T} {before after : List (ForkItem T)}
    {stop : Node σ T} {message : String} (hvalid : n.Valid L family blocks)
    (hbranches : n.Branches newHead first second)
    (h : Stopped L family n newHead first second last before item after stop message) :
    n.Recoverable L newHead first second ↔
      (stop.state.dgp.lastIrreversibleBlockNum ≤ (n.branchPoint second).num ∨
          newHead.id.Descends n.headBlockId ∧
            stop.state.dgp.lastIrreversibleBlockNum = n.headBlockNum) ∧
        (n.rewind second.length last).state.applyAll L (second.reverse.map (·.data)) =
          .ok n.state := by
  have hitem : stop.applyItem L item =
      ({ stop with forkDb := stop.forkDb.setHead item }, .error message) :=
    applyItem_error.mpr ⟨rfl, h.failed⟩
  constructor
  · intro hrecoverable
    exact hrecoverable.above _ _ _ _ _ _ _ h.popped h.split h.applied hitem
  · intro hstop
    refine ⟨?_, ?_⟩
    · intro hbelow
      have hpoint := branchPoint_num hvalid hbranches
      have hheight := hvalid.coherent.headBlockNum_eq
      have hdepth := h.depth
      omega
    · intro popped before' item' after' stop' failed' message' hpopped hsplit happlied hfailed
      rw [h.popped] at hpopped
      cases hpopped
      have hall := applyItems_append_error happlied hfailed after'
      rw [← hsplit, h.applyItems_eq] at hall
      simp only [Prod.mk.injEq, Option.some.injEq, List.cons.injEq] at hall
      obtain ⟨-, -, rfl, rfl⟩ := hall
      have hbefore : before' = before := by
        have heq := hsplit.symm.trans h.split
        exact List.append_cancel_right heq
      subst hbefore
      rw [h.applied] at happlied
      cases happlied
      exact hstop

/-- A switch that throws leaves the chain state as it was exactly when it is
recoverable. -/
theorem SwitchResult.unwinds_iff {result : Partial σ T Bool} (hvalid : n.Valid L family blocks)
    (hbranches : n.Branches newHead first second)
    (h : SwitchResult L family n newHead first second result) :
    (∀ message, result.2 = .error message → result.1.state = n.state) ↔
      n.Recoverable L newHead first second := by
  have hpoint := branchPoint_num hvalid hbranches
  have hheight := hvalid.coherent.headBlockNum_eq
  cases h with
  | @stuckBelow last message shallow last_mem last_num popped =>
      have hstate : (n.rewind n.undoStack.length last).state = n.committed :=
        (hvalid.coherent.undo_exhausted le_rfl).2
      constructor
      · intro hunwound
        have hsame := hstate.symm.trans (hunwound message rfl)
        have hnum : n.committedNum = n.headBlockNum := by rw [committedNum, hsame]; rfl
        refine ⟨fun _ => List.length_eq_zero_iff.mp (by omega), ?_⟩
        intro popped' before item after stop failed message' hpopped
        rw [popped] at hpopped
        cases hpopped
      · intro hrecoverable message' _
        have hnil := hrecoverable.below (by omega)
        change (n.rewind n.undoStack.length last).state = n.state
        rw [hnil]
        rfl
  | @switched last switched depth last_mem popped applied =>
      refine iff_of_true (fun message herror => by cases herror) ⟨fun _ => by omega, ?_⟩
      intro popped' before item after stop failed message hpopped hsplit happlied hfailed
      rw [popped] at hpopped
      cases hpopped
      have hall := applyItems_append_error happlied hfailed after
      rw [← hsplit, applied] at hall
      cases hall
  | @stuckAbove last last' item before after stop message message' stopped shallow last_mem last_num =>
      have happlied := stopped.branchApplied hvalid hbranches
      obtain ⟨newer, -, -, -, hcoherent, -⟩ := happlied.coherent
      obtain ⟨hpopped, -, hnum, -⟩ := hbranches.popped hvalid stopped.depth stopped.last_mem
      have hcleaned : (stop.cleaned item after).Coherent L newer := hcoherent.congr _
      have hstate : ((stop.cleaned item after).rewind stop.undoStack.length last').state =
          stop.committed := (hcleaned.undo_exhausted le_rfl).2
      have hhigh : ¬ stop.state.dgp.lastIrreversibleBlockNum ≤ (n.branchPoint second).num := by
        have hstop := hcoherent.headBlockNum_eq
        have hcommitted := happlied.committedNum
        have hreached := happlied.headBlockNum
        have hbase := hpopped.headBlockNum_eq
        omega
      rw [stopped.recoverable_iff hvalid hbranches, or_iff_right hhigh,
        ← stopped.committed_eq_state_iff hvalid hbranches shallow, ← hstate]
      exact ⟨fun hunwound => hunwound _ rfl, fun hsame _ _ => hsame⟩
  | @restored last last' item before after stop restored message stopped depth last_mem applied =>
      have happlied := stopped.branchApplied hvalid hbranches
      obtain ⟨newer, -, -, -, hcoherent, -⟩ := happlied.coherent
      obtain ⟨hpopped, -, hnum, -⟩ := hbranches.popped hvalid stopped.depth stopped.last_mem
      obtain ⟨_, hrestart, -, hstate, -, -, -, -⟩ :=
        stopped.restart hvalid hbranches depth last_mem
      have hagain := (branchApplied hrestart applied).state
      have hlow : stop.state.dgp.lastIrreversibleBlockNum ≤ (n.branchPoint second).num := by
        have hstop := hcoherent.headBlockNum_eq
        have hcommitted := happlied.committedNum
        have hreached := happlied.headBlockNum
        omega
      rw [stopped.recoverable_iff hvalid hbranches, ← hstate, hagain, Except.ok.injEq]
      constructor
      · intro hunwound
        exact ⟨Or.inl hlow, hunwound _ rfl⟩
      · rintro ⟨-, hsame⟩ _ _
        exact hsame
  | @broken last last' item before after failed stop broken message message' stopped depth last_mem
      applied =>
      have happlied := stopped.branchApplied hvalid hbranches
      obtain ⟨_, hrestart, -, hstate, -, hnum, hcommitted, -⟩ :=
        stopped.restart hvalid hbranches depth last_mem
      obtain ⟨before', item', after', stop', hsplit, -, hbefore, hitem⟩ := applyItems_some applied
      obtain ⟨rfl, -⟩ := applyItem_error.mp hitem
      have hreached := (branchApplied hrestart hbefore).headBlockNum
      have hlength := congrArg List.length hsplit
      simp only [List.length_reverse, List.length_append, List.length_cons] at hlength
      refine iff_of_false ?_ ?_
      · intro hunwound
        have hsame := congrArg (fun s => s.dgp.headBlockNumber) (hunwound _ rfl)
        change stop'.headBlockNum = n.headBlockNum at hsame
        omega
      · rw [stopped.recoverable_iff hvalid hbranches, ← hstate]
        rintro ⟨-, hagain⟩
        have hle : n.state.dgp.lastIrreversibleBlockNum ≤
            ((stop.cleaned item after).rewind before.length last').committedNum := by
          have hbase := hvalid.coherent.irreversible
          have hraised := happlied.committedNum
          have hsame := (hvalid.coherent.rewind stopped.depth last).2.1
          have hbase' : (n.rewind second.length last).committedNum = n.committedNum := by
            rw [committedNum, hsame]
            rfl
          have hrestartNum : ((stop.cleaned item after).rewind before.length last').committedNum =
              stop.committedNum := by
            rw [committedNum, hcommitted]
            rfl
          omega
        obtain ⟨restored, hrestored, -⟩ := reapply hrestart hagain hle
        rw [applied] at hrestored
        cases hrestored

end Unwinding

/-- In every run, a throwing call leaves the head and the whole object database as
they were exactly when every fork switch that it attempts is recoverable. -/
theorem pushBlock_unwinds_iff {state : ChainState σ} {blockLog : List (SignedBlock T)}
    (hopens : Opens state blockLog) (pushes : List (SignedBlock T)) (b : SignedBlock T) :
    let n := run L (opened state blockLog) pushes
    (∀ message, (n.pushBlock L b).2 = .error message → (n.pushBlock L b).1.state = n.state) ↔
      ∀ linked newHead first second, n.Attempts b linked newHead first second →
        linked.Recoverable L newHead first second := by
  intro n
  obtain ⟨_, hopened⟩ := hopens.valid (L := L)
  obtain ⟨family, blocks, hvalid⟩ := run_valid hopened pushes
  have hlinkedValid : ∀ {linked newHead first second}, n.Attempts b linked newHead first second →
      ∃ family', linked.Valid L family' blocks ∧ linked.state = n.state := by
    intro linked newHead first second hattempt
    obtain ⟨item, hpushed⟩ := ForkDatabase.pushBlock_spec hattempt.pushed
    have hlinked := hvalid.linked hpushed
    rw [← hattempt.linked_eq] at hlinked
    exact ⟨_, hlinked, by rw [hattempt.linked_eq]⟩
  constructor
  · intro hunwound linked newHead first second hattempt
    obtain ⟨family', hlinked, hstate⟩ := hlinkedValid hattempt
    refine ((hattempt.switching.result hlinked).unwinds_iff hlinked
      (hattempt.switching.branches hlinked)).mp ?_
    rwa [← hattempt.pushBlock_eq, hstate]
  · intro hrecoverable message herror
    -- Only a fork switch touches the chain state of a call that throws.
    cases hresult : n.pushBlock L b with
    | mk after outcome =>
        rw [hresult] at herror
        have hcases := pushBlock_result hvalid b
        rw [hresult] at hcases
        cases hcases with
        | rejected => rfl
        | applied => cases herror
        | removed => rfl
        | kept => cases herror
        | unlinked => rfl
        | @switching item newHead forkDb first second _ accepted pushed switching ends =>
            have hlinked := hvalid.linked pushed
            exact (ends.unwinds_iff hlinked (switching.branches hlinked)).mpr
              (hrecoverable _ newHead first second ⟨accepted, rfl, switching⟩) message herror

end Node

/-! ### A chain with a fork below the last irreversible block -/

namespace Sample

def merkleRoot (valid : Bool) : Checksum := if valid then 0 else 1

/-- A ledger in which a block applies unless its transactions are marked as throwing. -/
def logic (witnesses : List AccountName) : LedgerLogic Unit Bool where
  signingKey _ _ := some 0
  shuffledWitnesses _ := witnesses
  calculateMerkleRoot valid := merkleRoot valid
  sharedDbMerkle _ := none
  applyTransactions _ b := if b.transactions then .ok () else .error "transaction throws"
  applyMaintenance _ _ := .ok ()

def genesis : ChainState Unit := { dgp := { time := 0 }, ledger := () }

/-- A block on top of another one, three seconds after genesis for every slot. -/
def block (previous : BlockId) (slot : Nat) (witness : AccountName) (valid : Bool := true) :
    SignedBlock Bool where
  previous := previous
  header :=
    { timestamp := slot * blurtBlockInterval, witness, transactionMerkleRoot := merkleRoot valid }
  transactions := valid

theorem genesis_opens : Node.Opens genesis ([] : List (SignedBlock Bool)) where
  sound := ⟨rfl, fun _ => le_rfl, le_rfl⟩
  length := rfl
  head := by simp

/-- Three blocks by alternating witnesses make the second block irreversible. -/
def first : SignedBlock Bool := block .zero 1 "bob"
def second : SignedBlock Bool := block first.id 2 "alice"
def third : SignedBlock Bool := block second.id 3 "bob"

/-- An unsigned branch that leaves the chain below the irreversible block. -/
def forkSecond : SignedBlock Bool := block first.id 4 "mallory"
def forkThird : SignedBlock Bool := block forkSecond.id 5 "mallory"
def forkFourth : SignedBlock Bool := block forkThird.id 6 "mallory"

def node : Node Unit Bool :=
  Node.run (logic ["alice", "bob"]) (Node.opened genesis [])
    [first, second, third, forkSecond, forkThird]

/-- The switch pops the third block, cannot undo the second, and throws; the third
block stays popped. -/
theorem forkFourth_drops_third :
    node.state.dgp.lastIrreversibleBlockNum = 2 ∧ node.headBlockId = third.id ∧
      (node.pushBlock (logic ["alice", "bob"]) forkFourth).2 =
        .error "popping head block would leave fork DB empty" ∧
      (node.pushBlock (logic ["alice", "bob"]) forkFourth).1.headBlockId = second.id ∧
      (node.pushBlock (logic ["alice", "bob"]) forkFourth).1.state ≠ node.state := by
  have hbefore : node.headBlockId = third.id := by decide
  have hafter : (node.pushBlock (logic ["alice", "bob"]) forkFourth).1.headBlockId = second.id := by
    decide
  have herror : (node.pushBlock (logic ["alice", "bob"]) forkFourth).2 =
      .error "popping head block would leave fork DB empty" := by
    rfl
  refine ⟨by decide, hbefore, herror, hafter, ?_⟩
  intro hsame
  have hid := congrArg (fun s : ChainState Unit => s.dgp.headBlockId) hsame
  have hne : second.id ≠ third.id := by decide
  exact hne (hafter.symm.trans (hid.trans hbefore))

/-- The same call, through the condition: its fork switch is not recoverable. -/
theorem forkFourth_not_recoverable :
    ¬ ∀ linked newHead upper lower, node.Attempts forkFourth linked newHead upper lower →
      linked.Recoverable (logic ["alice", "bob"]) newHead upper lower := by
  intro hrecoverable
  have hafter : (node.pushBlock (logic ["alice", "bob"]) forkFourth).1.headBlockId = second.id := by
    decide
  have hbefore : node.headBlockId = third.id := by decide
  have hne : second.id ≠ third.id := by decide
  have hsame := (Node.pushBlock_unwinds_iff genesis_opens
    [first, second, third, forkSecond, forkThird] forkFourth).mpr hrecoverable
    "popping head block would leave fork DB empty" rfl
  have hid := congrArg (fun s : ChainState Unit => s.dgp.headBlockId) hsame
  exact hne (hafter.symm.trans (hid.trans hbefore))

end Sample

end Blurt
