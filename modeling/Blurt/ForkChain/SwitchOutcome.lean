import Blurt.ForkChain.ForkSwitch

/-! # The outcomes of a fork switch

A switch pops down to the branch point and applies the new branch. It ends in
one of five ways, according to where the undo history and the block application
stop it. Every way is described by the nodes it passes through.
-/

namespace Blurt

open Outcome

variable {σ T : Type} {L : LedgerLogic σ T}

namespace Node

/-- A fork database head above the chain is a child of the chain head, or its
parent is in the index; on an empty chain it may hang in the air. -/
def Anchored (n : Node σ T) : Prop :=
  ∀ head, n.forkDb.head = some head → n.headBlockNum < head.num →
    head.data.previous = n.headBlockId ∨ n.headBlockId = .zero ∨
      ∃ parent ∈ n.forkDb.index, head.Follows parent

/-- The node invariant of a run. -/
structure Valid (L : LedgerLogic σ T) (family : Set (ForkItem T)) (blocks : List (SignedBlock T))
    (n : Node σ T) : Prop where
  coherent : n.Coherent L blocks
  fork : n.forkDb.Consistent family
  anchored : n.Anchored
  rooted : n.forkDb.head = none → n.headBlockId = .zero

/-- The previous block of the last item of the old branch. -/
def branchPoint (n : Node σ T) (second : List (ForkItem T)) : BlockId :=
  match second.getLast? with
  | none => n.headBlockId
  | some last => last.data.previous

/-- The call has moved the fork database head to an item that is higher than the
chain head and not its child, and has found the branches that lead to both. -/
structure Switching (n : Node σ T) (newHead : ForkItem T) (first second : List (ForkItem T)) :
    Prop where
  head : n.forkDb.head = some newHead
  aside : newHead.data.previous ≠ n.headBlockId
  higher : n.headBlockNum < newHead.num
  fetched : n.forkDb.fetchBranchFrom newHead.id n.headBlockId = .ok (first, second)

/-- The branches of a switch: both lie in the index, and lead down from the fork
database head and from the chain head to the branch point. -/
structure Branches (n : Node σ T) (newHead : ForkItem T) (first second : List (ForkItem T)) :
    Prop where
  head : n.forkDb.head = some newHead
  higher : n.headBlockNum < newHead.num
  firstIndexed : ∀ x ∈ first, x ∈ n.forkDb.index
  secondIndexed : ∀ x ∈ second, x ∈ n.forkDb.index
  firstBranch : ForkDatabase.Branch first
  headBranch : ForkDatabase.Branch (newHead :: first.tail)
  secondBranch : ForkDatabase.Branch second
  firstGet : ∀ i x, first[i]? = some x →
    x.id = BlockId.previous^[i] newHead.id ∧ x.num + i = newHead.num
  secondGet : ∀ i x, second[i]? = some x →
    x.id = BlockId.previous^[i] n.headBlockId ∧ x.num + i = n.headBlockNum
  firstAncestor : n.branchPoint second = BlockId.previous^[first.length] newHead.id
  secondAncestor : n.branchPoint second = BlockId.previous^[second.length] n.headBlockId
  lengths : first.length + n.headBlockNum = newHead.num + second.length
  pos : 0 < second.length
  deep : second.length ≤ n.headBlockNum
  apart : ∀ x ∈ first, ∀ y ∈ second, x.id = y.id → second.length = 1

theorem Switching.branches {family : Set (ForkItem T)} {blocks : List (SignedBlock T)}
    {n : Node σ T} {newHead : ForkItem T} {first second : List (ForkItem T)}
    (hvalid : n.Valid L family blocks) (h : n.Switching newHead first second) :
    n.Branches newHead first second := by
  have hfork := hvalid.fork
  have hhead := h.head
  obtain ⟨⟨firstItem, secondItem, firstLast, secondLast, firstUpper, secondUpper, hfirstFound,
    hsecondFound, hfirstEq, hsecondEq, hfirstDescent, hsecondDescent, hjoined, hapart⟩⟩ :=
      ForkDatabase.fetchBranchFrom_spec hfork h.fetched
  obtain ⟨hfirstMem, hfirstId⟩ := ForkDatabase.find_spec hfirstFound
  obtain ⟨hsecondMem, hsecondId⟩ := ForkDatabase.find_spec hsecondFound
  have hfirstNum : firstItem.num = newHead.num := ForkItem.num_eq_of_id_eq hfirstId
  have hsecondNum : secondItem.num = n.headBlockNum := by
    rw [← ForkItem.num_id, hsecondId, hvalid.coherent.num_headBlockId]
  have hfirstGet : ∀ i x, first[i]? = some x →
      x.id = BlockId.previous^[i] newHead.id ∧ x.num + i = newHead.num := by
    intro i x hx
    rw [hfirstEq] at hx
    have hget := hfirstDescent.get hfork hx
    rwa [hfirstId, hfirstNum] at hget
  have hsecondGet : ∀ i x, second[i]? = some x →
      x.id = BlockId.previous^[i] n.headBlockId ∧ x.num + i = n.headBlockNum := by
    intro i x hx
    rw [hsecondEq] at hx
    have hget := hsecondDescent.get hfork hx
    rwa [hsecondId, hsecondNum] at hget
  obtain ⟨hfirstLast, hfirstLastNum⟩ := hfirstDescent.previous_last hfork
  obtain ⟨hsecondLast, hsecondLastNum⟩ := hsecondDescent.previous_last hfork
  have hfirstLength : first.length = firstUpper.length + 1 := by rw [hfirstEq]; simp
  have hsecondLength : second.length = secondUpper.length + 1 := by rw [hsecondEq]; simp
  have hpoint : n.branchPoint second = secondLast.data.previous := by
    rw [branchPoint, hsecondEq, List.getLast?_concat]
  have hlastNum : firstLast.num = secondLast.num :=
    congrArg (fun previous => previous.num + 1) hjoined
  have hlastPos : 0 < secondLast.num := Nat.succ_pos _
  have hhigher := h.higher
  have hlive : ∀ x ∈ first, x ∈ n.forkDb.live := by rw [hfirstEq]; exact hfirstDescent.live
  have hlive' : ∀ x ∈ second, x ∈ n.forkDb.live := by rw [hsecondEq]; exact hsecondDescent.live
  have hindexed : ∀ x ∈ n.forkDb.live, x.num ≠ newHead.num → x ∈ n.forkDb.index := by
    intro x hx hne
    rcases ForkDatabase.mem_live.mp hx with hx | hx
    · exact hx
    · rw [hhead] at hx
      cases hx
      exact absurd rfl hne
  have hfirstIndexed : ∀ x ∈ first, x ∈ n.forkDb.index := by
    intro x hx
    obtain ⟨i, hi⟩ := List.getElem?_of_mem hx
    cases i with
    | zero =>
        have hitem := hfirstDescent.first
        rw [← hfirstEq, List.head?_eq_getElem?, hi] at hitem
        cases hitem
        exact hfirstMem
    | succ i => exact hindexed x (hlive x hx) (by have := (hfirstGet _ x hi).2; omega)
  have hsecondIndexed : ∀ x ∈ second, x ∈ n.forkDb.index := by
    intro x hx
    obtain ⟨i, hi⟩ := List.getElem?_of_mem hx
    exact hindexed x (hlive' x hx) (by have := (hsecondGet _ x hi).2; omega)
  have hfirstBranch : ForkDatabase.Branch first := by rw [hfirstEq]; exact hfirstDescent.chained
  refine {
    head := hhead
    higher := hhigher
    firstIndexed := hfirstIndexed
    secondIndexed := hsecondIndexed
    firstBranch := hfirstBranch
    headBranch := ?_
    secondBranch := by rw [hsecondEq]; exact hsecondDescent.chained
    firstGet := hfirstGet
    secondGet := hsecondGet
    firstAncestor := by rw [hpoint, ← hjoined, hfirstLast, hfirstId, hfirstLength]
    secondAncestor := by rw [hpoint, hsecondLast, hsecondId, hsecondLength]
    lengths := by omega
    pos := by omega
    deep := by omega
    apart := ?_ }
  · -- The head may be a second item of its block; its parent is that of the indexed one.
    cases hsplit : first.tail with
    | nil => exact .singleton _
    | cons parent rest =>
        have hfirst : first = firstItem :: parent :: rest := by
          have hitem := hfirstDescent.first
          rw [← hfirstEq] at hitem
          rw [← hsplit]
          exact (List.cons_head?_tail hitem).symm
        rw [hfirst] at hfirstBranch
        obtain ⟨hfollows, hchain⟩ := List.isChain_cons_cons.mp hfirstBranch
        refine List.isChain_cons_cons.mpr ⟨?_, hchain⟩
        have hparentMem := hfirstIndexed parent (by rw [hfirst]; simp)
        rcases hvalid.anchored newHead hhead hhigher with hchild | hzero | ⟨above, habove, hlink⟩
        · exact absurd hchild h.aside
        · rw [hzero] at hsecondId
          exact absurd hsecondId (SignedBlock.id_ne_zero _)
        · have hparentId := hfork.follows_id (hfork.index hfirstMem) (hfork.index hparentMem) hfollows
          have haboveId := hfork.follows_id (hfork.head hhead) (hfork.index habove) hlink
          rw [hfirstId] at hparentId
          rwa [hfork.eq_of_id_eq habove hparentMem (haboveId.trans hparentId.symm)] at hlink
  · intro x hx y hy hid
    have hnil := hapart (by omega) x hx y hy hid
    rw [hsecondLength, hnil]
    rfl

theorem Branches.getLast_previous {n : Node σ T} {newHead last : ForkItem T}
    {first second : List (ForkItem T)} (h : n.Branches newHead first second)
    (hlast : first.getLast? = some last) : last.data.previous = n.branchPoint second := by
  have hpos : 0 < first.length := List.length_pos_of_mem (List.mem_of_getLast? hlast)
  rw [List.getLast?_eq_getElem?] at hlast
  have hprevious := congrArg BlockId.previous (h.firstGet _ last hlast).1
  rw [← Function.iterate_succ_apply' BlockId.previous, Nat.succ_eq_add_one,
    Nat.sub_add_cancel hpos, ← h.firstAncestor] at hprevious
  exact hprevious

section Results

variable {family : Set (ForkItem T)} {blocks : List (SignedBlock T)} {n : Node σ T}
  {newHead : ForkItem T} {first second : List (ForkItem T)}

/-- Rewinding within the history moves the head down the chain and leaves the
committed state, the index and the block log. -/
theorem Coherent.rewind (h : n.Coherent L blocks) {count : Nat}
    (hcount : count ≤ n.undoStack.length) (last : ForkItem T) :
    (n.rewind count last).Coherent L (blocks.drop count) ∧
      (n.rewind count last).committed = n.committed ∧
      (n.rewind count last).headBlockId = BlockId.previous^[count] n.headBlockId ∧
      (n.rewind count last).headBlockNum + count = n.headBlockNum ∧
      (n.rewind count last).undoStack.length + count = n.undoStack.length ∧
      (n.rewind count last).blockLog = n.blockLog := by
  obtain ⟨hcoherent, hrewound⟩ := h.undo_iterate hcount
  have hnum := hcoherent.headBlockNum_eq
  have hnum' := h.headBlockNum_eq
  rw [committedNum, hrewound.committed] at hnum
  have hdepth := hrewound.depth
  refine ⟨hcoherent.congr _, hrewound.committed, hrewound.headBlockId, ?_, hdepth, hrewound.blockLog⟩
  change (undo^[count] n).headBlockNum + count = _
  rw [hnum, hnum', committedNum]
  omega

/-- The node with the failed items removed from the fork database, whose head still
is the first of them. -/
def cleaned (n : Node σ T) (item : ForkItem T) (after : List (ForkItem T)) : Node σ T :=
  { n with forkDb := (item :: after).foldl (fun fdb x => fdb.remove x.id) (n.forkDb.setHead item) }

theorem foldl_remove (fdb : ForkDatabase T) (items : List (ForkItem T)) :
    let removed := items.foldl (fun fdb x => fdb.remove x.id) fdb
    removed.index.Sublist fdb.index ∧ removed.head = fdb.head ∧ removed.nextRef = fdb.nextRef ∧
      ∀ x, x ∈ removed.index ↔ x ∈ fdb.index ∧ ∀ y ∈ items, x.id ≠ y.id := by
  induction items generalizing fdb with
  | nil => simp
  | cons item rest ih =>
      obtain ⟨hsublist, hhead, href, hmem⟩ := ih (fdb.remove item.id)
      refine ⟨hsublist.trans List.filter_sublist, hhead, href, ?_⟩
      intro x
      rw [List.foldl_cons, hmem, ForkDatabase.mem_remove, List.forall_mem_cons, and_assoc]

/-- The new branch applied up to `stop`, and threw at `item`. -/
structure Stopped (L : LedgerLogic σ T) (family : Set (ForkItem T)) (n : Node σ T)
    (newHead : ForkItem T) (first second : List (ForkItem T)) (last : ForkItem T)
    (before : List (ForkItem T))
    (item : ForkItem T) (after : List (ForkItem T)) (stop : Node σ T) (message : String) :
    Prop where
  depth : second.length ≤ n.undoStack.length
  last_mem : last ∈ family
  popped : popUntil (newHead :: first ++ second) (n.branchPoint second) n.popFuel n =
    (n.rewind second.length last, .ok ())
  split : first.reverse = before ++ item :: after
  applied : applyItems L before (n.rewind second.length last) = (stop, none)
  failed : ({ stop with forkDb := stop.forkDb.setHead item } : Node σ T).applyInSession L item.data =
    .error message

/-- How a fork switch ends: popping runs out of undo history below the committed
block; the new branch applies; or it throws, and popping it runs out of history
above the branch point, or the old branch applies again, or does not. -/
inductive SwitchResult (L : LedgerLogic σ T) (family : Set (ForkItem T)) (n : Node σ T)
    (newHead : ForkItem T) (first second : List (ForkItem T)) : Partial σ T Bool → Prop
  | stuckBelow {last : ForkItem T} {message : String}
      (shallow : n.undoStack.length < second.length) (last_mem : last ∈ family)
      (last_num : last.num ≤ n.committedNum)
      (popped : popUntil (newHead :: first ++ second) (n.branchPoint second) n.popFuel n =
        (n.rewind n.undoStack.length last, .error message)) :
      SwitchResult L family n newHead first second (n.rewind n.undoStack.length last, .error message)
  | switched {last : ForkItem T} {switched : Node σ T}
      (depth : second.length ≤ n.undoStack.length) (last_mem : last ∈ family)
      (popped : popUntil (newHead :: first ++ second) (n.branchPoint second) n.popFuel n =
        (n.rewind second.length last, .ok ()))
      (applied : applyItems L first.reverse (n.rewind second.length last) = (switched, none)) :
      SwitchResult L family n newHead first second (switched, .ok true)
  | stuckAbove {last last' item : ForkItem T} {before after : List (ForkItem T)}
      {stop : Node σ T} {message message' : String}
      (stopped : Stopped L family n newHead first second last before item after stop message)
      (shallow : stop.undoStack.length < before.length) (last_mem : last' ∈ family)
      (last_num : last'.num ≤ stop.committedNum) :
      SwitchResult L family n newHead first second
        ((stop.cleaned item after).rewind stop.undoStack.length last', .error message')
  | restored {last last' item : ForkItem T} {before after : List (ForkItem T)}
      {stop restored : Node σ T} {message : String}
      (stopped : Stopped L family n newHead first second last before item after stop message)
      (depth : before.length ≤ stop.undoStack.length) (last_mem : last' ∈ family)
      (applied : applyItems L second.reverse
        ((stop.cleaned item after).rewind before.length last') = (restored, none)) :
      SwitchResult L family n newHead first second (restored, .error message)
  | broken {last last' item : ForkItem T} {before after failed : List (ForkItem T)}
      {stop broken : Node σ T} {message message' : String}
      (stopped : Stopped L family n newHead first second last before item after stop message)
      (depth : before.length ≤ stop.undoStack.length) (last_mem : last' ∈ family)
      (applied : applyItems L second.reverse
        ((stop.cleaned item after).rewind before.length last') =
          (broken, some (message', failed))) :
      SwitchResult L family n newHead first second (broken, .error message')

theorem Branches.held (hvalid : n.Valid L family blocks)
    (hbranches : n.Branches newHead first second) :
    ∀ x ∈ newHead :: first ++ second, x ∈ family := by
  intro x hx
  simp only [List.cons_append, List.mem_cons, List.mem_append] at hx
  rcases hx with rfl | hx | hx
  · exact hvalid.fork.head hbranches.head
  · exact hvalid.fork.index (hbranches.firstIndexed x hx)
  · exact hvalid.fork.index (hbranches.secondIndexed x hx)

theorem Branches.popped (hvalid : n.Valid L family blocks)
    (hbranches : n.Branches newHead first second)
    (hdepth : second.length ≤ n.undoStack.length) {last : ForkItem T} (hlast : last ∈ family) :
    (n.rewind second.length last).Coherent L (blocks.drop second.length) ∧
      (n.rewind second.length last).headBlockId = n.branchPoint second ∧
      (n.rewind second.length last).headBlockNum + second.length = n.headBlockNum ∧
      (n.rewind second.length last).forkDb.Consistent family := by
  obtain ⟨hcoherent, -, hid, hnum, -, -⟩ := hvalid.coherent.rewind hdepth last
  exact ⟨hcoherent, hid.trans hbranches.secondAncestor.symm, hnum, hvalid.fork.setHead hlast⟩

namespace Stopped

variable {last item : ForkItem T} {before after : List (ForkItem T)} {stop : Node σ T}
  {message : String}

theorem branchApplied (h : Stopped L family n newHead first second last before item after stop message)
    (hvalid : n.Valid L family blocks) (hbranches : n.Branches newHead first second) :
    BranchApplied L (n.rewind second.length last) (blocks.drop second.length) before stop :=
  Node.branchApplied (hbranches.popped hvalid h.depth h.last_mem).1 h.applied

theorem length_eq (h : Stopped L family n newHead first second last before item after stop message) :
    first.length = before.length + after.length + 1 := by
  have hlength := congrArg List.length h.split
  simp only [List.length_reverse, List.length_append, List.length_cons] at hlength
  omega

theorem first_eq (h : Stopped L family n newHead first second last before item after stop message) :
    first = after.reverse ++ item :: before.reverse := by
  rw [← List.reverse_reverse first, h.split, List.reverse_append, List.reverse_cons,
    List.append_assoc, List.singleton_append]

theorem mem_first (h : Stopped L family n newHead first second last before item after stop message)
    {x : ForkItem T} : x ∈ first ↔ x ∈ before ∨ x = item ∨ x ∈ after := by
  rw [← List.mem_reverse, h.split, List.mem_append, List.mem_cons]

/-- The top of the new branch is not among the applied items. -/
theorem head_mem (h : Stopped L family n newHead first second last before item after stop message)
    {x : ForkItem T} (hx : first.head? = some x) : x ∈ item :: after := by
  rw [h.first_eq, List.head?_append] at hx
  rcases Option.or_eq_some_iff.mp hx with hfront | ⟨-, hitem⟩
  · exact List.mem_cons_of_mem item (List.mem_reverse.mp (List.mem_of_mem_head? hfront))
  · cases hitem
    exact List.mem_cons_self

/-- The items that threw, or that were never tried, lie above the applied ones. -/
theorem failed_num (h : Stopped L family n newHead first second last before item after stop message)
    (hvalid : n.Valid L family blocks) (hbranches : n.Branches newHead first second)
    {x : ForkItem T} (hx : x ∈ item :: after) : stop.headBlockNum < x.num := by
  have happlied := h.branchApplied hvalid hbranches
  have hpopped := (hbranches.popped hvalid h.depth h.last_mem).2.2.1
  have hnum := happlied.headBlockNum
  have hlengths := hbranches.lengths
  have hlength := h.length_eq
  obtain ⟨i, hi⟩ := List.getElem?_of_mem (List.mem_reverse.mpr hx)
  have hlt := (List.getElem?_eq_some_iff.mp hi).1
  rw [List.reverse_cons, List.length_append, List.length_reverse, List.length_singleton] at hlt
  have hget := (hbranches.firstGet i x (by
    rw [h.first_eq, ← List.singleton_append, ← List.append_assoc, ← List.reverse_cons,
      List.getElem?_append_left (by simpa using hlt), hi])).2
  omega

theorem item_num (h : Stopped L family n newHead first second last before item after stop message)
    (hvalid : n.Valid L family blocks) (hbranches : n.Branches newHead first second) :
    item.num = stop.headBlockNum + 1 := by
  have hpopped := (hbranches.popped hvalid h.depth h.last_mem).2.2.1
  have hnum := (h.branchApplied hvalid hbranches).headBlockNum
  have hlengths := hbranches.lengths
  have hlength := h.length_eq
  have hget := (hbranches.firstGet after.length item (by
    rw [h.first_eq, List.getElem?_append_right (by simp)]
    simp)).2
  omega

/-- The applied items stay in the index as far down as the node can still undo. -/
theorem applied_indexed (h : Stopped L family n newHead first second last before item after stop message)
    (hvalid : n.Valid L family blocks) (hbranches : n.Branches newHead first second)
    {i : Nat} (hi : i < before.length) (hdepth : i ≤ stop.undoStack.length) :
    ((stop.cleaned item after).forkDb.find (BlockId.previous^[i] stop.headBlockId)).isSome := by
  have happlied := h.branchApplied hvalid hbranches
  have hpopped := (hbranches.popped hvalid h.depth h.last_mem).2.2.1
  have hnum := happlied.headBlockNum
  have hlengths := hbranches.lengths
  have hlength := h.length_eq
  obtain ⟨newer, -, -, -, hcoherent, -⟩ := happlied.coherent
  have hstop := hcoherent.headBlockNum_eq
  have hirreversible := hcoherent.irreversible
  have hindex : ∀ j (hj : j < before.length), first[after.length + 1 + j]? = before.reverse[j]? := by
    intro j hj
    rw [h.first_eq, List.getElem?_append_right (by simp; omega), List.length_reverse,
      show after.length + 1 + j - after.length = j + 1 by omega, List.getElem?_cons_succ]
  obtain ⟨top, htop⟩ : ∃ top, before.reverse[0]? = some top :=
    ⟨_, List.getElem?_eq_getElem (by simpa using (by omega : 0 < before.length))⟩
  obtain ⟨x, hx⟩ : ∃ x, before.reverse[i]? = some x :=
    ⟨_, List.getElem?_eq_getElem (by simpa using hi)⟩
  obtain ⟨htopId, -⟩ := hbranches.firstGet _ top ((hindex 0 (by omega)).trans htop)
  obtain ⟨hxId, hxNum⟩ := hbranches.firstGet _ x ((hindex i hi).trans hx)
  have hhead : stop.headBlockId = top.id := by
    refine happlied.headBlockId top ?_
    rw [← List.head?_reverse, List.head?_eq_getElem?, htop]
  have hid : BlockId.previous^[i] stop.headBlockId = x.id := by
    rw [hhead, htopId, hxId, ← Function.iterate_add_apply]
    congr 1
    omega
  rw [hid]
  refine ForkDatabase.find_isSome ?_
  rw [cleaned, (foldl_remove _ _).2.2.2]
  refine ⟨?_, ?_⟩
  · refine happlied.kept x ?_ (by omega)
    refine hbranches.firstIndexed x (h.mem_first.mpr (Or.inl ?_))
    exact List.mem_reverse.mp (List.mem_of_getElem? hx)
  · intro y hy heq
    have hy' := h.failed_num hvalid hbranches hy
    have hxy := ForkItem.num_eq_of_id_eq heq
    omega

theorem cleaned_consistent (h : Stopped L family n newHead first second last before item after stop message)
    (hvalid : n.Valid L family blocks) (hbranches : n.Branches newHead first second) :
    (stop.cleaned item after).forkDb.Consistent family := by
  have hfamily : ∀ x ∈ first, x ∈ family := fun x hx =>
    hvalid.fork.index (hbranches.firstIndexed x hx)
  have hstop := (h.branchApplied hvalid hbranches).consistent
    (hbranches.popped hvalid h.depth h.last_mem).2.2.2
    (fun x hx => hfamily x (h.mem_first.mpr (Or.inl hx)))
  have hitem := hfamily item (h.mem_first.mpr (Or.inr (Or.inl rfl)))
  obtain ⟨hsublist, hhead, href, -⟩ := foldl_remove (stop.forkDb.setHead item) (item :: after)
  refine (hstop.setHead hitem).trim hsublist ?_ href
  intro x hx
  rw [cleaned, hhead] at hx
  cases hx
  exact hitem

/-- Popping the applied part of the new branch again. -/
theorem popUntil_cleaned (h : Stopped L family n newHead first second last before item after stop message)
    (hvalid : n.Valid L family blocks) (hbranches : n.Branches newHead first second) :
    (before.length ≤ stop.undoStack.length → ∃ last' ∈ family,
        popUntil (newHead :: first ++ second) (n.branchPoint second)
            (stop.cleaned item after).popFuel (stop.cleaned item after) =
          ((stop.cleaned item after).rewind before.length last', .ok ())) ∧
      (stop.undoStack.length < before.length → ∃ last' ∈ family, ∃ message',
        popUntil (newHead :: first ++ second) (n.branchPoint second)
            (stop.cleaned item after).popFuel (stop.cleaned item after) =
          ((stop.cleaned item after).rewind stop.undoStack.length last', .error message') ∧
        last'.num ≤ stop.committedNum) := by
  have happlied := h.branchApplied hvalid hbranches
  obtain ⟨-, hpoint, -, -⟩ := hbranches.popped hvalid h.depth h.last_mem
  obtain ⟨newer, -, -, -, hcoherent, -⟩ := happlied.coherent
  have hnum := happlied.headBlockNum
  have hcleaned : (stop.cleaned item after).Coherent L newer := hcoherent.congr _
  have hbranch : ForkDatabase.Branch (item :: before.reverse) := by
    have hfirst := hbranches.firstBranch
    rw [h.first_eq] at hfirst
    exact hfirst.right_of_append
  have hitem := h.item_num hvalid hbranches
  obtain ⟨hok, hstuck⟩ := popUntil_ancestor hcleaned
    (h.cleaned_consistent hvalid hbranches) (hbranches.held hvalid) (foldl_remove _ _).2.1 hbranch
    (by
      intro x hx
      simp only [List.cons_append, List.mem_cons, List.mem_append]
      exact Or.inr (Or.inl (h.mem_first.mpr (Or.inl (List.mem_reverse.mp hx)))))
    (show before.length ≤ before.reverse.length by simp)
    (by change before.length ≤ stop.headBlockNum; omega)
    (by
      change n.branchPoint second = BlockId.previous^[before.length] stop.headBlockId
      rw [happlied.ancestor, hpoint])
    (fun i hi hdepth => h.applied_indexed hvalid hbranches hi hdepth)
  refine ⟨hok, ?_⟩
  intro hshallow
  obtain ⟨last', hlast', message', hpop, hle⟩ := hstuck hshallow
  refine ⟨last', hlast', message', hpop, ?_⟩
  rw [List.length_reverse] at hle
  have hstop := hcoherent.headBlockNum_eq
  omega

end Stopped

theorem switchFork_of_fetched {n : Node σ T} {newHead : ForkItem T} {first second : List (ForkItem T)}
    (hfetch : n.forkDb.fetchBranchFrom newHead.id n.headBlockId = .ok (first, second)) :
    switchFork L newHead n =
      match popUntil (newHead :: first ++ second) (n.branchPoint second) n.popFuel n with
      | (popped, .error message) => (popped, .error message)
      | (popped, .ok ()) =>
          match applyItems L first.reverse popped with
          | (switched, none) => (switched, .ok true)
          | (broken, some (message, failed)) => restoreBranch L (newHead :: first ++ second) second
              failed (n.branchPoint second) message broken := by
  rw [switchFork, hfetch]
  rfl

/-- Every fork switch ends in one of the five ways. -/
theorem Switching.result (hvalid : n.Valid L family blocks)
    (h : n.Switching newHead first second) :
    SwitchResult L family n newHead first second (switchFork L newHead n) := by
  have hbranches := h.branches hvalid
  have hlengths := hbranches.lengths
  have hhigher := h.higher
  obtain ⟨hpop, hstuck⟩ := popUntil_ancestor hvalid.coherent hvalid.fork (hbranches.held hvalid) h.head
    hbranches.headBranch
    (by
      intro x hx
      simp only [List.cons_append, List.mem_cons, List.mem_append]
      exact Or.inr (Or.inl (List.mem_of_mem_tail hx)))
    (show second.length ≤ first.tail.length by rw [List.length_tail]; omega)
    hbranches.deep hbranches.secondAncestor
    (by
      intro i hi _
      obtain ⟨hid, -⟩ := hbranches.secondGet i _ (List.getElem?_eq_getElem hi)
      rw [← hid]
      exact ForkDatabase.find_isSome (hbranches.secondIndexed _ (List.getElem_mem hi)))
  rw [switchFork_of_fetched h.fetched]
  by_cases hdepth : second.length ≤ n.undoStack.length
  · obtain ⟨last, hlast, hpopped⟩ := hpop hdepth
    rcases happly : applyItems L first.reverse (n.rewind second.length last) with
      ⟨reached, _ | ⟨message, failed⟩⟩
    · simp only [hpopped, happly]
      exact .switched hdepth hlast hpopped happly
    · obtain ⟨before, item, after, stop, hsplit, rfl, hbefore, hitem⟩ := applyItems_some happly
      obtain ⟨rfl, hfailed⟩ := applyItem_error.mp hitem
      have hstopped : Stopped L family n newHead first second last before item after stop message :=
        ⟨hdepth, hlast, hpopped, hsplit, hbefore, hfailed⟩
      obtain ⟨hrestore, hstuckAbove⟩ := hstopped.popUntil_cleaned hvalid hbranches
      simp only [hpopped, happly]
      change SwitchResult L family n newHead first second
        (match popUntil (newHead :: first ++ second) (n.branchPoint second)
          (stop.cleaned item after).popFuel (stop.cleaned item after) with
        | (popped, .error message) => (popped, .error message)
        | (popped, .ok ()) =>
            match applyItems L second.reverse popped with
            | (restored, none) => (restored, .error message)
            | (broken, some (message, _)) => (broken, .error message))
      by_cases hdepth' : before.length ≤ stop.undoStack.length
      · obtain ⟨last', hlast', hpopped'⟩ := hrestore hdepth'
        rcases happly' : applyItems L second.reverse
            ((stop.cleaned item after).rewind before.length last') with
          ⟨reached, _ | ⟨message', failed'⟩⟩
        · simp only [hpopped', happly']
          exact .restored hstopped hdepth' hlast' happly'
        · simp only [hpopped', happly']
          exact .broken hstopped hdepth' hlast' happly'
      · obtain ⟨last', hlast', message', hpopped', hnum⟩ := hstuckAbove (by omega)
        simp only [hpopped']
        exact .stuckAbove hstopped (by omega) hlast' hnum
  · obtain ⟨last, hlast, message, hpopped, hnum⟩ := hstuck (by omega)
    have hcommitted := hvalid.coherent.headBlockNum_eq
    rw [List.length_tail] at hnum
    simp only [hpopped]
    exact .stuckBelow (by omega) hlast (by omega) hpopped

end Results

end Node

end Blurt
