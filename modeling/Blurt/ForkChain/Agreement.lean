import Blurt.ForkChain.BlockLog

/-! # Agreement of the fork database with the chain

The fork database agrees with the chain when its head is the chain head and the
chain blocks from the last irreversible one up lie in the index, each linked to its
parent. A call keeps the agreement unless its block throws on top of the chain, or
attempts a fork switch that cannot start, cannot be taken back, or moves the last
irreversible block below the committed one.
-/

namespace Blurt

open Outcome

variable {σ T : Type} {L : LedgerLogic σ T}

namespace Node

/-- The lowest block that the index still has to hold. -/
def floorNum (startNum : Nat) (n : Node σ T) : Nat :=
  max (max 1 startNum) (n.committedNum - 1)

/-- `chain` is the indexed branch of the chain blocks, newest first, down to the block
below the committed one. -/
structure Backed (startNum : Nat) (n : Node σ T) (chain : List (ForkItem T)) : Prop where
  branch : ForkDatabase.Branch chain
  indexed : ∀ x ∈ chain, x ∈ n.forkDb.index
  top : ∀ x, chain.head? = some x → x.id = n.headBlockId
  long : n.headBlockNum + 1 ≤ chain.length + n.floorNum startNum
  start_le : startNum ≤ n.committedNum

namespace Backed

variable {startNum : Nat} {family : Set (ForkItem T)} {n : Node σ T} {chain : List (ForkItem T)}
  {blocks : List (SignedBlock T)}

theorem get (h : Backed startNum n chain) (hcoherent : n.Coherent L blocks)
    (hfork : n.forkDb.Consistent family) {i : Nat} {x : ForkItem T} (hx : chain[i]? = some x) :
    x.id = BlockId.previous^[i] n.headBlockId ∧ x.num + i = n.headBlockNum := by
  obtain ⟨top, htop⟩ : ∃ top, chain.head? = some top := by
    cases chain with
    | nil => simp at hx
    | cons y rest => exact ⟨y, rfl⟩
  have hid := h.top top htop
  have hnum : top.num = n.headBlockNum := by
    rw [← ForkItem.num_id, hid, hcoherent.num_headBlockId]
  have hget := hfork.branch_get h.branch (fun y hy => hfork.index (h.indexed y hy)) htop hx
  rwa [hid, hnum] at hget

theorem length_le (h : Backed startNum n chain) (hcoherent : n.Coherent L blocks)
    (hfork : n.forkDb.Consistent family) : chain.length ≤ n.headBlockNum := by
  cases hlength : chain.length with
  | zero => exact Nat.zero_le _
  | succ i =>
      obtain ⟨x, hx⟩ : ∃ x, chain[i]? = some x := ⟨_, List.getElem?_eq_getElem (by omega)⟩
      have hnum := (h.get hcoherent hfork hx).2
      have hpos : 0 < x.num := Nat.succ_pos _
      omega

/-- Every chain block from the floor up is the item of the branch at its height. -/
theorem find (h : Backed startNum n chain) (hcoherent : n.Coherent L blocks)
    (hfork : n.forkDb.Consistent family) {id : BlockId} (hid : n.headBlockId.Descends id)
    (hfloor : n.floorNum startNum ≤ id.num) :
    ∃ x, chain[n.headBlockNum - id.num]? = some x ∧ x.id = id := by
  have hle := hid.num_le
  rw [hcoherent.num_headBlockId] at hle
  have hlong := h.long
  obtain ⟨x, hx⟩ : ∃ x, chain[n.headBlockNum - id.num]? = some x :=
    ⟨_, List.getElem?_eq_getElem (by omega)⟩
  refine ⟨x, hx, ?_⟩
  rw [(h.get hcoherent hfork hx).1, ← hcoherent.num_headBlockId]
  exact hid.eq_iterate.symm

/-- With the items below it indexed and linked, an item whose block applies is applied. -/
theorem applyItem (h : Backed startNum n chain) (hcoherent : n.Coherent L blocks)
    (hfork : n.forkDb.Consistent family) {item : ForkItem T} (hin : item ∈ n.forkDb.index)
    (hlink : ∀ x, chain.head? = some x → item.Follows x) {s : ChainState σ}
    (happly : n.state.applyBlock L item.data = .ok s) :
    ∃ next newer, n.applyItem L item = (next, .ok ()) ∧ next.state = s ∧ next.Coherent L newer ∧
      Backed startNum next ((item :: chain).take (next.headBlockNum + 1 - next.floorNum startNum)) ∧
      next.forkDb.head = some item ∧ next.headBlockId = item.id ∧
      next.forkDb.nextRef = n.forkDb.nextRef ∧ next.forkDb.index.Sublist n.forkDb.index := by
  have hmoved := hcoherent.congr (n.forkDb.setHead item)
  have hmovedFork := hfork.setHead (hfork.index hin)
  have hsound := hcoherent.state_sound.applyBlock happly
  have hnum : s.dgp.headBlockNumber = n.headBlockNum + 1 :=
    History.headBlockNumber_succ hcoherent.state_sound happly
  have hitemNum : item.num = s.dgp.headBlockNumber :=
    (ChainState.applyBlock_headBlockNumber happly).symm
  have hbranch : ForkDatabase.Branch (item :: chain) := by
    cases chain with
    | nil => exact .singleton _
    | cons x rest => exact List.isChain_cons_cons.mpr ⟨hlink x rfl, h.branch⟩
  have hindexed : ∀ x ∈ item :: chain, x ∈ n.forkDb.index :=
    List.forall_mem_cons.mpr ⟨hin, h.indexed⟩
  have hlong := h.long
  have hstart := h.start_le
  -- Every number to be written can be fetched, so the session completes.
  obtain ⟨next, hnext, rfl⟩ := applyInSession_of_fetched
    (n := { n with forkDb := n.forkDb.setHead item }) happly
    (by
      intro head hhead
      cases hhead
      exact hitemNum)
    (by
      intro i hi
      change i < s.dgp.lastIrreversibleBlockNum - n.logHeadNum at hi
      have hirreversible := hsound.irreversible
      have hlogHead := hcoherent.logHead
      rw [floorNum] at hlong
      obtain ⟨found, hfound, hfoundNum⟩ :=
        ForkDatabase.fetchBlockOnMainBranchByNumber_isSome hmovedFork
          (show (n.forkDb.setHead item).head = some item from rfl) hbranch hindexed
          (show n.logHeadNum + i + 1 ≤ item.num by omega) (by omega)
      refine ⟨found, hfound, ?_⟩
      change found.num = n.blockLog.length + i + 1
      rw [hfoundNum, hcoherent.logHead, hcoherent.log])
  obtain ⟨written, happlied⟩ := applyInSession_spec hnext
  obtain ⟨newer, -, -, -, hnewer, -, hcommitted, hheight, hid⟩ := hmoved.applied happlied
  have hcommitted' : next.committedNum =
      max n.committedNum next.state.dgp.lastIrreversibleBlockNum := hcommitted
  have hheight' : next.headBlockNum = n.headBlockNum + 1 := hheight
  refine ⟨next, newer, applyItem_ok.mpr hnext, rfl, hnewer, ?_, ?_, hid, ?_, ?_⟩
  · have hfloor : n.floorNum startNum ≤ next.floorNum startNum := by
      rw [floorNum, floorNum]
      omega
    have hget : ∀ i x, (item :: chain)[i]? = some x → x.num + i = next.headBlockNum := by
      intro i x hx
      have hbelow := (hfork.branch_get hbranch (fun y hy => hfork.index (hindexed y hy)) rfl hx).2
      rw [hbelow, hitemNum, hnum, hheight']
    refine ⟨hbranch.take _, ?_, ?_, ?_, by omega⟩
    · intro x hx
      obtain ⟨i, hi⟩ := List.getElem?_of_mem hx
      have hlt := (List.getElem?_eq_some_iff.mp hi).1
      rw [List.length_take] at hlt
      have hxNum := hget i x (by rwa [List.getElem?_take_of_lt (by omega)] at hi)
      rw [happlied.forkDb, ForkDatabase.mem_setMaxSize]
      refine ⟨hindexed x (List.mem_of_mem_take hx), ?_⟩
      intro top htop
      have htopNum := happlied.heads top htop
      have hirreversible := hnewer.irreversible
      have hnextSound := hnewer.state_sound.irreversible
      change next.state.dgp.lastIrreversibleBlockNum ≤ next.headBlockNum at hnextSound
      rw [floorNum] at hlt
      omega
    · intro x hx
      rw [List.head?_take] at hx
      split at hx
      · cases hx
      · cases hx
        exact hid.symm
    · rw [List.length_take, List.length_cons]
      have hbase := hnewer.headBlockNum_eq
      omega
  · rw [happlied.forkDb, ForkDatabase.setMaxSize_head]
    rfl
  · rw [happlied.forkDb, ForkDatabase.setMaxSize_nextRef]
    rfl
  · rw [happlied.forkDb]
    exact ForkDatabase.setMaxSize_sublist _ _

/-- Rewinding drops the items of the undone blocks from the branch. -/
theorem rewind (h : Backed startNum n chain) (hcoherent : n.Coherent L blocks)
    (hfork : n.forkDb.Consistent family) {count : Nat} (hcount : count ≤ n.undoStack.length)
    (last : ForkItem T) : Backed startNum (n.rewind count last) (chain.drop count) := by
  obtain ⟨-, hcommitted, hid, hnum, -, -⟩ := hcoherent.rewind hcount last
  have hbase : (n.rewind count last).committedNum = n.committedNum := by
    rw [committedNum, hcommitted]
    rfl
  have hlong := h.long
  refine ⟨h.branch.drop _, fun x hx => h.indexed x (List.mem_of_mem_drop hx), ?_, ?_, ?_⟩
  · intro x hx
    rw [List.head?_drop] at hx
    rw [hid]
    exact (h.get hcoherent hfork hx).1
  · rw [List.length_drop, floorNum, hbase]
    rw [floorNum] at hlong
    omega
  · rw [hbase]
    exact h.start_le

/-- A linked branch of indexed items whose blocks apply is applied. -/
theorem applyItems {items : List (ForkItem T)} (h : Backed startNum n chain)
    (hcoherent : n.Coherent L blocks) (hfork : n.forkDb.Consistent family)
    (hindexed : ∀ x ∈ items, x ∈ n.forkDb.index)
    (hnums : ∀ i x, items[i]? = some x → x.num = n.headBlockNum + 1 + i)
    (hlinked : ForkDatabase.Branch (items.reverse ++ chain)) {s : ChainState σ}
    (hstate : n.state.applyAll L (items.map (·.data)) = .ok s) :
    ∃ m count, Node.applyItems L items n = (m, none) ∧ m.state = s ∧
      Backed startNum m ((items.reverse ++ chain).take count) ∧ (items ≠ [] → 0 < count) := by
  induction items generalizing n blocks chain with
  | nil =>
      cases hstate
      exact ⟨n, chain.length, rfl, rfl, by simpa using h, by simp⟩
  | cons item rest ih =>
      obtain ⟨next', hnext', hrest⟩ := forEach_cons_eq_ok.mp hstate
      have hin := hindexed item (by simp)
      rw [List.reverse_cons, List.append_assoc, List.singleton_append] at hlinked
      have hlower : ForkDatabase.Branch (item :: chain) := hlinked.right_of_append
      obtain ⟨next, newer, hitem, rfl, hnewer, hbacked, -, -, href, -⟩ :=
        h.applyItem hcoherent hfork hin (by
          intro x hx
          cases chain with
          | nil => cases hx
          | cons y tail =>
              cases hx
              exact (List.isChain_cons_cons.mp hlower).1) hnext'
      have hsingle := branchApplied hcoherent (show Node.applyItems L [item] n = (next, none) from
        applyItems_cons_none.mpr ⟨next, hitem, rfl⟩)
      have hheight := hsingle.headBlockNum
      rw [List.length_singleton] at hheight
      have hfork' := hsingle.consistent hfork (by simpa using hfork.index hin)
      have hirreversible := hnewer.irreversible
      have hbase := hnewer.headBlockNum_eq
      generalize hdepth : next.headBlockNum + 1 - next.floorNum startNum = depth at hbacked
      obtain ⟨m, count, hm, hs, hchain, hpos⟩ := ih hbacked hnewer hfork'
        (by
          intro x hx
          refine hsingle.kept x (hindexed x (List.mem_cons_of_mem item hx)) ?_
          obtain ⟨i, hi⟩ := List.getElem?_of_mem hx
          have hnum := hnums (i + 1) x (by simpa using hi)
          omega)
        (by
          intro i x hx
          have hnum := hnums (i + 1) x (by simpa using hx)
          omega)
        (by
          have htake := hlinked.take (rest.reverse.length + depth)
          rwa [List.take_append, Nat.add_sub_cancel_left,
            List.take_of_length_le (Nat.le_add_right _ _)] at htake)
        hrest
      have hfloor : next.floorNum startNum ≤ next.headBlockNum := by
        have hstart := hbacked.start_le
        rw [floorNum]
        omega
      refine ⟨m, min count (rest.reverse.length + depth), applyItems_cons_none.mpr ⟨next, hitem, hm⟩,
        hs, ?_, ?_⟩
      · have heq : ((item :: rest).reverse ++ chain).take (min count (rest.reverse.length + depth)) =
            (rest.reverse ++ (item :: chain).take depth).take count := by
          rw [List.reverse_cons, List.append_assoc, List.singleton_append, ← List.take_take,
            List.take_append (i := rest.reverse.length + depth), Nat.add_sub_cancel_left,
            List.take_of_length_le (Nat.le_add_right rest.reverse.length depth)]
        rw [heq]
        exact hchain
      · intro _
        by_cases hnil : rest = []
        · subst hnil
          cases hm
          have hmHead := hchain.long
          rw [List.length_take] at hmHead
          simp only [List.reverse_nil, List.nil_append, List.length_nil] at hmHead ⊢
          omega
        · have := hpos hnil
          omega

end Backed

/-- The fork database agrees with the chain: its head is the chain head, the chain blocks
from the last irreversible one up are indexed, and each is linked to its parent.
`open` puts only the block at `startNum` into the fork database. -/
structure Agrees (startNum : Nat) (n : Node σ T) : Prop where
  head : ∀ head, n.forkDb.head = some head → head.id = n.headBlockId
  empty : n.forkDb.head = none → n.headBlockId = .zero
  indexed : ∀ id, n.headBlockId.Descends id → n.state.dgp.lastIrreversibleBlockNum ≤ id.num →
    startNum ≤ id.num → 0 < id.num → ∃ item ∈ n.forkDb.index, item.id = id ∧
      (startNum < id.num → id.previous ≠ .zero →
        ∃ parent ∈ n.forkDb.index, item.Follows parent ∧ parent.id = id.previous)
  links : ∀ b : SignedBlock T, b.previous = n.headBlockId →
    ∃ forkDb, n.forkDb.pushBlock b = .ok forkDb

/-- The invariant behind the agreement: no item is higher than the chain head, which is
the top of the indexed branch. -/
structure Aligned (L : LedgerLogic σ T) (startNum : Nat) (start : ChainState σ)
    (startLog : List (SignedBlock T)) (family : Set (ForkItem T)) (n : Node σ T)
    (blocks : List (SignedBlock T)) (chain : List (ForkItem T)) : Prop where
  valid : n.Valid L family blocks
  recorded : Recorded L start startLog n blocks
  backed : Backed startNum n chain
  head : n.forkDb.head = chain.head?
  low : ∀ x ∈ n.forkDb.index, x.num ≤ n.headBlockNum
  settled : n.committedNum ≤ max startNum n.state.dgp.lastIrreversibleBlockNum
  recent : n.headBlockNum ≤ n.committedNum + n.forkDb.maxSize

/-- The new branch is stored down to a branch point at or above the committed block. -/
structure Joined (n : Node σ T) (first second : List (ForkItem T)) : Prop where
  committed : n.committedNum ≤ (n.branchPoint second).num
  linked : ∀ last, first.getLast? = some last → 0 < (n.branchPoint second).num →
    ∃ parent ∈ n.forkDb.index, last.Follows parent

/-- The new branch joins the chain. It makes no new block irreversible before a block of
it throws; if none throws, it leads to a last irreversible block at or above the
committed one, unless nothing is committed since the start. -/
structure Switchable (L : LedgerLogic σ T) (startNum : Nat) (n : Node σ T)
    (first second : List (ForkItem T)) : Prop where
  joined : n.Joined first second
  reversible : ∀ before item after s message, first.reverse = before ++ item :: after →
    (undo^[second.length] n).state.applyAll L (before.map (·.data)) = .ok s →
    s.applyBlock L item.data = .error message →
    s.dgp.lastIrreversibleBlockNum ≤ n.committedNum
  raised : ∀ s, (undo^[second.length] n).state.applyAll L (first.reverse.map (·.data)) = .ok s →
    n.committedNum ≤ max startNum s.dgp.lastIrreversibleBlockNum

/-- A branch that applies as a whole has no block that throws. -/
theorem Switchable.of_applies {startNum : Nat} {n : Node σ T} {first second : List (ForkItem T)}
    {s : ChainState σ} (hjoined : n.Joined first second)
    (happlies : (undo^[second.length] n).state.applyAll L (first.reverse.map (·.data)) = .ok s)
    (hraised : n.committedNum ≤ max startNum s.dgp.lastIrreversibleBlockNum) :
    n.Switchable L startNum first second where
  joined := hjoined
  reversible := by
    intro before item after t message hsplit ht hthrows
    rw [hsplit, List.map_append, List.map_cons] at happlies
    obtain ⟨t', ht', hrest⟩ := forEach_append_eq_ok.mp happlies
    obtain ⟨_, hitem, -⟩ := forEach_cons_eq_ok.mp hrest
    cases ht.symm.trans ht'
    rw [hthrows] at hitem
    cases hitem
  raised := by
    intro t ht
    cases happlies.symm.trans ht
    exact hraised

/-- What a call must do for the fork database to follow the chain: a block that is
applied on top of the chain does not throw, and a fork switch can start and can be
taken back. -/
structure Smooth (L : LedgerLogic σ T) (startNum : Nat) (n : Node σ T) (b : SignedBlock T) :
    Prop where
  direct : ∀ forkDb newHead, n.forkDb.pushBlock b = .ok forkDb → forkDb.head = some newHead →
    newHead.data.previous = n.headBlockId → ∃ s, n.state.applyBlock L b = .ok s
  switch : ∀ forkDb newHead, n.forkDb.pushBlock b = .ok forkDb → forkDb.head = some newHead →
    newHead.data.previous ≠ n.headBlockId → n.headBlockNum < newHead.num →
    ∃ first second, forkDb.fetchBranchFrom newHead.id n.headBlockId = .ok (first, second) ∧
      ({ n with forkDb } : Node σ T).Switchable L startNum first second

namespace Smooth

variable {startNum : Nat} {n : Node σ T} {b : SignedBlock T} {head : ForkItem T}
  (hhead : (n.forkDb.pushBlock b).toOption.bind ForkDatabase.head = some head)

include hhead

theorem head_eq {forkDb : ForkDatabase T} {newHead : ForkItem T}
    (hpush : n.forkDb.pushBlock b = .ok forkDb) (hnewHead : forkDb.head = some newHead) :
    newHead = head := by
  rw [hpush, Except.toOption, Option.bind_some, hnewHead] at hhead
  exact Option.some.inj hhead

/-- A block that applies on top of the chain. -/
theorem of_child (hchild : head.data.previous = n.headBlockId)
    (happlies : ∃ s, n.state.applyBlock L b = .ok s) : n.Smooth L startNum b where
  direct := fun _ _ _ _ _ => happlies
  switch := by
    intro forkDb newHead hpush hnewHead haside
    rw [head_eq hhead hpush hnewHead] at haside
    exact absurd hchild haside

/-- A block on the side that makes no branch higher than the chain. -/
theorem of_low (haside : head.data.previous ≠ n.headBlockId) (hlow : head.num ≤ n.headBlockNum) :
    n.Smooth L startNum b where
  direct := by
    intro forkDb newHead hpush hnewHead hchild
    rw [head_eq hhead hpush hnewHead] at hchild
    exact absurd hchild haside
  switch := by
    intro forkDb newHead hpush hnewHead _ hhigher
    rw [head_eq hhead hpush hnewHead] at hhigher
    exact absurd hhigher (Nat.not_lt.mpr hlow)

end Smooth

namespace Aligned

variable {startNum : Nat} {start : ChainState σ} {startLog : List (SignedBlock T)}
  {family : Set (ForkItem T)} {n : Node σ T} {blocks : List (SignedBlock T)}
  {chain : List (ForkItem T)} {b : SignedBlock T} {item : ForkItem T} {forkDb : ForkDatabase T}

theorem floor_le (h : Aligned L startNum start startLog family n blocks chain)
    (hpos : 0 < n.headBlockNum) : n.floorNum startNum ≤ n.headBlockNum := by
  have hbase := h.recorded.coherent.headBlockNum_eq
  have hstart := h.backed.start_le
  rw [floorNum]
  omega

/-- The chain is empty exactly when the fork database has no head. -/
theorem head_of_pos (h : Aligned L startNum start startLog family n blocks chain)
    (hpos : 0 < n.headBlockNum) : ∃ top rest, chain = top :: rest ∧ n.forkDb.head = some top ∧
      top.id = n.headBlockId ∧ top.num = n.headBlockNum := by
  have hfloor := h.floor_le hpos
  have hlong := h.backed.long
  cases chain with
  | nil =>
      rw [List.length_nil] at hlong
      omega
  | cons top rest =>
      have hid := h.backed.top top rfl
      refine ⟨top, rest, rfl, h.head, hid, ?_⟩
      rw [← ForkItem.num_id, hid, h.recorded.coherent.num_headBlockId]

theorem head_num (h : Aligned L startNum start startLog family n blocks chain) {top : ForkItem T}
    (htop : n.forkDb.head = some top) : top.id = n.headBlockId ∧ top.num = n.headBlockNum := by
  rw [h.head] at htop
  have hid := h.backed.top top htop
  refine ⟨hid, ?_⟩
  rw [← ForkItem.num_id, hid, h.recorded.coherent.num_headBlockId]

theorem agrees (h : Aligned L startNum start startLog family n blocks chain) :
    Agrees startNum n where
  head head hhead := (h.head_num hhead).1
  empty := h.valid.rooted
  indexed := by
    intro id hid hirreversible hstart hpos
    have hcoherent := h.recorded.coherent
    have hsettled := h.settled
    have hle := hid.num_le
    rw [hcoherent.num_headBlockId] at hle
    have hlong := h.backed.long
    obtain ⟨x, hx, hxId⟩ := h.backed.find hcoherent h.valid.fork hid (by rw [floorNum]; omega)
    refine ⟨x, h.backed.indexed x (List.mem_of_getElem? hx), hxId, ?_⟩
    intro habove hprevious
    have hpreviousPos : 0 < id.previous.num := by
      rw [Nat.pos_iff_ne_zero, ne_eq, BlockId.num_eq_zero]
      exact hprevious
    rw [BlockId.num_previous] at hpreviousPos
    obtain ⟨parent, hparent⟩ : ∃ parent, chain[n.headBlockNum - id.num + 1]? = some parent :=
      ⟨_, List.getElem?_eq_getElem (by rw [floorNum] at hlong; omega)⟩
    refine ⟨parent, h.backed.indexed parent (List.mem_of_getElem? hparent), ?_, ?_⟩
    · obtain ⟨hlt, rfl⟩ := List.getElem?_eq_some_iff.mp hparent
      obtain ⟨hlt', rfl⟩ := List.getElem?_eq_some_iff.mp hx
      exact h.backed.branch.getElem _ hlt
    · rw [← hxId, (h.backed.get hcoherent h.valid.fork hparent).1,
        (h.backed.get hcoherent h.valid.fork hx).1, Function.iterate_succ_apply']
  links := by
    intro b hprevious
    have hnum : b.blockNum = n.headBlockNum + 1 := by
      rw [SignedBlock.blockNum, hprevious, h.recorded.coherent.num_headBlockId]
    cases hhead : n.forkDb.head with
    | none => exact ForkDatabase.pushBlock_of_empty hhead b
    | some top =>
        obtain ⟨htopId, htopNum⟩ := h.head_num hhead
        exact ForkDatabase.pushBlock_of_parent h.valid.fork hhead (by omega)
          (h.backed.indexed top (List.mem_of_mem_head? (by rw [← h.head, hhead]; rfl)))
          (htopId.trans hprevious.symm)

section Push

variable (h : Aligned L startNum start startLog family n blocks chain)
  (hpushed : n.forkDb.Pushed b item forkDb)

include h hpushed

theorem linked_backed : Backed startNum ({ n with forkDb } : Node σ T) chain :=
  ⟨h.backed.branch, fun x hx => hpushed.mem_index.mpr (Or.inl (h.backed.indexed x hx)),
    h.backed.top, h.backed.long, h.backed.start_le⟩

theorem linked_recorded : Recorded L start startLog ({ n with forkDb } : Node σ T) blocks :=
  h.recorded.congr forkDb (fun _ hx _ => hpushed.mem_index.mpr (Or.inl hx))

/-- A head above the chain is the new item, which no older item stands for. -/
theorem newHead_eq {newHead : ForkItem T} (hhead : forkDb.head = some newHead)
    (hhigher : n.headBlockNum < newHead.num) : newHead = item ∧ item ∈ forkDb.index := by
  rcases hpushed.head_eq with ⟨hnew, -⟩ | ⟨old, hold, hsame, -⟩
  · have heq : newHead = item := Option.some.inj (hhead.symm.trans hnew)
    subst heq
    refine ⟨rfl, hpushed.mem_index.mpr (Or.inr ⟨rfl, ?_⟩)⟩
    intro y hy hid
    have hlow := h.low y hy
    have hsame := congrArg BlockId.num hid
    rw [ForkItem.num_id, ← hpushed.id_eq, ForkItem.num_id] at hsame
    omega
  · have heq : newHead = old := Option.some.inj (hhead.symm.trans hsame)
    subst heq
    have hnum := (h.head_num hold).2
    omega

omit hpushed in
theorem newHead_child {newHead : ForkItem T}
    (hchild : newHead.data.previous = n.headBlockId) : n.headBlockNum < newHead.num := by
  have hnum : newHead.num = n.headBlockNum + 1 := by
    rw [ForkItem.num, SignedBlock.blockNum, hchild, h.recorded.coherent.num_headBlockId]
  omega

/-- The new item of a child of the chain head follows the top of the branch. -/
theorem item_follows (hchild : b.previous = n.headBlockId) :
    ∀ x, chain.head? = some x → item.Follows x := by
  intro x hx
  have hxMem := List.mem_of_mem_head? hx
  have hxId := h.backed.top x hx
  have hpos : 0 < n.headBlockNum := by
    have hle := h.backed.length_le h.recorded.coherent h.valid.fork
    have := List.length_pos_of_mem hxMem
    omega
  rcases hpushed.link with ⟨-, hempty | hzero⟩ | ⟨parent, hparent, hid, hfollows⟩
  · rw [h.head, hx] at hempty
    cases hempty
  · rw [hchild, ← BlockId.num_eq_zero, h.recorded.coherent.num_headBlockId] at hzero
    omega
  · have hsame : parent = x := h.valid.fork.eq_of_id_eq hparent (h.backed.indexed x hxMem)
      (hid.trans (hchild.trans hxId.symm))
    rwa [hsame] at hfollows

theorem linked_low {x : ForkItem T} (hx : x ∈ forkDb.index) : x.num ≤ n.headBlockNum ∨ x = item := by
  rcases hpushed.mem_index.mp hx with hold | ⟨heq, -⟩
  · exact Or.inl (h.low x hold)
  · exact Or.inr heq

end Push

/-- A block that applies on top of the chain becomes the head of both. -/
theorem applied (h : Aligned L startNum start startLog family n blocks chain)
    (hpushed : n.forkDb.Pushed b item forkDb) {newHead : ForkItem T}
    (hhead : forkDb.head = some newHead) (hchild : newHead.data.previous = n.headBlockId)
    {s : ChainState σ} (happly : n.state.applyBlock L b = .ok s) :
    ∃ next, ({ n with forkDb } : Node σ T).applyInSession L b = .ok next ∧
      Backed startNum next
        ((item :: chain).take (next.headBlockNum + 1 - next.floorNum startNum)) ∧
      next.forkDb.head = some item ∧ next.headBlockId = b.id ∧
      next.headBlockNum = n.headBlockNum + 1 ∧
      next.forkDb.index.Sublist forkDb.index := by
  have hlinked := h.valid.linked hpushed
  obtain ⟨rfl, hin⟩ := h.newHead_eq hpushed hhead (h.newHead_child hchild)
  rw [hpushed.data] at hchild
  have hself : ({ n with forkDb := forkDb.setHead newHead } : Node σ T) = { n with forkDb } := by
    rw [show forkDb.setHead newHead = forkDb by rw [ForkDatabase.setHead, ← hhead]]
  obtain ⟨next, newer, hitem, hstate, hnewer, hbacked, hnextHead, hid, -, hsublist⟩ :=
    (h.linked_backed hpushed).applyItem hlinked.coherent hlinked.fork hin
      (h.item_follows hpushed hchild) (by rw [hpushed.data]; exact happly)
  have hsession := applyItem_ok.mp hitem
  rw [hpushed.data] at hsession
  refine ⟨next, ?_, hbacked, hnextHead, hid.trans hpushed.id_eq, ?_, hsublist⟩
  · rw [← hself]
    exact hsession
  · rw [headBlockNum, hstate]
    exact History.headBlockNumber_succ h.recorded.coherent.state_sound happly

section Switch

variable {newHead : ForkItem T} {first second : List (ForkItem T)}

/-- The shape of a switch on an aligned node: the old branch is the top of the chain, and
the new one joins it below. -/
theorem switch_shape (h : Aligned L startNum start startLog family n blocks chain)
    (hpushed : n.forkDb.Pushed b item forkDb)
    (hbranches : ({ n with forkDb } : Node σ T).Branches newHead first second)
    (hjoined : ({ n with forkDb } : Node σ T).Joined first second) :
    second.length ≤ n.undoStack.length ∧ second = chain.take second.length ∧
      ForkDatabase.Branch (first ++ chain.drop second.length) ∧ ∃ rest, first = item :: rest := by
  have hlinked := h.valid.linked hpushed
  have hbacked := h.linked_backed hpushed
  have hpoint := branchPoint_num hlinked hbranches
  have hcommitted := hjoined.committed
  have hheight := h.recorded.coherent.headBlockNum_eq
  have hpos := hbranches.pos
  have hlong := h.backed.long
  have hstart := h.backed.start_le
  have hlength : second.length ≤ chain.length := by
    change (({ n with forkDb } : Node σ T).branchPoint second).num + second.length =
      n.headBlockNum at hpoint
    change n.committedNum ≤ _ at hcommitted
    rw [floorNum] at hlong
    omega
  have hdepth : second.length ≤ n.undoStack.length := by
    change (({ n with forkDb } : Node σ T).branchPoint second).num + second.length =
      n.headBlockNum at hpoint
    change n.committedNum ≤ _ at hcommitted
    omega
  have hsecond : second = chain.take second.length := by
    refine List.ext_getElem? ?_
    intro i
    by_cases hi : i < second.length
    · have hx := List.getElem?_eq_getElem hi
      have hy := List.getElem?_eq_getElem (show i < chain.length by omega)
      rw [hx, List.getElem?_take_of_lt hi, hy, Option.some_inj]
      refine hlinked.fork.eq_of_id_eq (hbranches.secondIndexed _ (List.mem_of_getElem? hx))
        (hbacked.indexed _ (List.mem_of_getElem? hy)) ?_
      rw [(hbranches.secondGet _ _ hx).1, (hbacked.get hlinked.coherent hlinked.fork hy).1]
    · rw [List.getElem?_eq_none (by omega), List.getElem?_eq_none (by simp; omega)]
  refine ⟨hdepth, hsecond, ?_, ?_⟩
  · refine List.isChain_append.mpr ⟨hbranches.firstBranch, h.backed.branch.drop _, ?_⟩
    intro last hlast below hbelow
    have hbelowGet : chain[second.length]? = some below := by
      rw [← List.head?_drop]
      exact hbelow
    have hbelowId := (hbacked.get hlinked.coherent hlinked.fork hbelowGet).1
    rw [← hbranches.secondAncestor] at hbelowId
    have hbelowPos : 0 < (({ n with forkDb } : Node σ T).branchPoint second).num := by
      rw [← hbelowId, ForkItem.num_id]
      exact Nat.succ_pos _
    obtain ⟨parent, hparent, hfollows⟩ := hjoined.linked last hlast hbelowPos
    have hlastMem := hbranches.firstIndexed last (List.mem_of_getLast? hlast)
    have hparentId := hlinked.fork.follows_id (hlinked.fork.index hlastMem)
      (hlinked.fork.index hparent) hfollows
    have hlastPrevious := hbranches.getLast_previous hlast
    have hsame : parent = below := hlinked.fork.eq_of_id_eq hparent
      (hbacked.indexed below (List.mem_of_getElem? hbelowGet))
      (hparentId.trans (hlastPrevious.trans hbelowId.symm))
    rwa [hsame] at hfollows
  · obtain ⟨rfl, hin⟩ := h.newHead_eq hpushed hbranches.head hbranches.higher
    have hlengths := hbranches.lengths
    have hhigher := hbranches.higher
    cases hfirst : first with
    | nil =>
        rw [hfirst, List.length_nil] at hlengths
        omega
    | cons x rest =>
        have hx := (hbranches.firstGet 0 x (by rw [hfirst]; rfl)).1
        have hsame := hlinked.fork.eq_of_id_eq (hbranches.firstIndexed x (by rw [hfirst]; simp)) hin hx
        exact ⟨rest, by rw [hsame]⟩

/-- Applying a linked branch to a backed node, with the state it reaches. -/
theorem applied_backed {m k : Node σ T} {applied' : List (SignedBlock T)}
    {items lower : List (ForkItem T)} (hbacked : Backed startNum m lower)
    (hcoherent : m.Coherent L applied') (hfork : m.forkDb.Consistent family)
    (hindexed : ∀ x ∈ items, x ∈ m.forkDb.index)
    (hnums : ∀ i x, items[i]? = some x → x.num = m.headBlockNum + 1 + i)
    (hlinked : ForkDatabase.Branch (items.reverse ++ lower))
    (happlied : Node.applyItems L items m = (k, none)) :
    ∃ count, Backed startNum k ((items.reverse ++ lower).take count) ∧ (items ≠ [] → 0 < count) := by
  have hstate := (branchApplied hcoherent happlied).state
  obtain ⟨k', count, hk', -, hbacked', hpos⟩ :=
    hbacked.applyItems hcoherent hfork hindexed hnums hlinked hstate
  rw [happlied] at hk'
  cases hk'
  exact ⟨count, hbacked', hpos⟩

/-- The items of the new branch are numbered upwards from the branch point. -/
theorem first_num (hbranches : ({ n with forkDb } : Node σ T).Branches newHead first second)
    {m : Node σ T} (hm : m.headBlockNum + second.length = n.headBlockNum) {i : Nat} {x : ForkItem T}
    (hx : first.reverse[i]? = some x) : x.num = m.headBlockNum + 1 + i := by
  have hlengths := hbranches.lengths
  have hi := (List.getElem?_eq_some_iff.mp hx).1
  rw [List.length_reverse] at hi
  rw [List.getElem?_reverse hi] at hx
  have hnum := (hbranches.firstGet _ x hx).2
  change first.length + n.headBlockNum = _ at hlengths
  omega

/-- What a joined branch reaches before it throws is backed, and the block at which it
stops throws by itself. -/
theorem stopped_backed (h : Aligned L startNum start startLog family n blocks chain)
    (hpushed : n.forkDb.Pushed b item forkDb)
    (hbranches : ({ n with forkDb } : Node σ T).Branches newHead first second)
    (hjoined : ({ n with forkDb } : Node σ T).Joined first second)
    {last item' : ForkItem T} {before after : List (ForkItem T)} {stop : Node σ T} {message : String}
    (hstop : Stopped L (Insert.insert item family) { n with forkDb } newHead first second last before
      item' after stop message) :
    (∃ count, Backed startNum stop ((before.reverse ++ chain.drop second.length).take count)) ∧
      ∃ message', stop.state.applyBlock L item'.data = .error message' := by
  have hlinked := h.valid.linked hpushed
  obtain ⟨hdepth, -, hbranch, -⟩ := h.switch_shape hpushed hbranches hjoined
  obtain ⟨hcoherent, -, hnum, hfork⟩ := hbranches.popped hlinked hstop.depth hstop.last_mem
  have happlied := hstop.branchApplied hlinked hbranches
  have hlower : ForkDatabase.Branch (item' :: (before.reverse ++ chain.drop second.length)) := by
    rw [hstop.first_eq, List.append_assoc, List.cons_append] at hbranch
    exact hbranch.right_of_append
  obtain ⟨count, hstopBacked, -⟩ := applied_backed
    ((h.linked_backed hpushed).rewind hlinked.coherent hlinked.fork hdepth last) hcoherent hfork
    (fun x hx => hbranches.firstIndexed x (hstop.mem_first.mpr (Or.inl hx)))
    (by
      intro i x hx
      apply first_num hbranches hnum
      rw [hstop.split, List.getElem?_append_left (List.getElem?_eq_some_iff.mp hx).1, hx])
    hlower.tail hstop.applied
  refine ⟨⟨count, hstopBacked⟩, ?_⟩
  cases happly : stop.state.applyBlock L item'.data with
  | error message' => exact ⟨message', rfl⟩
  | ok s =>
      exfalso
      obtain ⟨newer, -, -, -, hstopCoherent, -⟩ := happlied.coherent
      have hstopFork := happlied.consistent hfork (fun x hx =>
        hlinked.fork.index (hbranches.firstIndexed x (hstop.mem_first.mpr (Or.inl hx))))
      have hin : item' ∈ stop.forkDb.index := by
        refine happlied.kept item'
          (hbranches.firstIndexed item' (hstop.mem_first.mpr (Or.inr (Or.inl rfl)))) ?_
        have hitem' := hstop.item_num hlinked hbranches
        have hsound := hstopCoherent.state_sound.irreversible
        change stop.state.dgp.lastIrreversibleBlockNum ≤ stop.headBlockNum at hsound
        omega
      obtain ⟨next, -, hnext, -⟩ := hstopBacked.applyItem hstopCoherent hstopFork hin (by
        intro x hx
        rw [List.head?_take] at hx
        split at hx
        · cases hx
        · cases hlist : before.reverse ++ chain.drop second.length with
          | nil =>
              rw [hlist] at hx
              cases hx
          | cons y tail =>
              rw [hlist] at hx hlower
              cases hx
              exact (List.isChain_cons_cons.mp hlower).1) happly
      have hfailed := hstop.failed
      rw [applyItem_ok.mp hnext] at hfailed
      cases hfailed

theorem rewind_committedNum {m : Node σ T} {older : List (SignedBlock T)} {count : Nat}
    (hcoherent : m.Coherent L older) (hle : count ≤ m.undoStack.length) (last : ForkItem T) :
    (m.rewind count last).committedNum = m.committedNum := by
  rw [committedNum, (hcoherent.rewind hle last).2.1]
  rfl

section Switchable

variable (h : Aligned L startNum start startLog family n blocks chain)
  (hpushed : n.forkDb.Pushed b item forkDb)
  (hbranches : ({ n with forkDb } : Node σ T).Branches newHead first second)
  (hswitchable : ({ n with forkDb } : Node σ T).Switchable L startNum first second)
  {last last' item' : ForkItem T} {before after : List (ForkItem T)} {stop : Node σ T}
  {message : String} {blocks' : List (SignedBlock T)}

include h hpushed hbranches hswitchable

/-- Where a switch that can be taken back stops, the chain is still backed, and nothing new has
become irreversible. -/
theorem stopped_reversible (hstop : Stopped L (Insert.insert item family) { n with forkDb } newHead
    first second last before item' after stop message) :
    (∃ count, Backed startNum stop ((before.reverse ++ chain.drop second.length).take count)) ∧
      stop.state.dgp.lastIrreversibleBlockNum ≤ n.committedNum := by
  obtain ⟨hbacked, message', hthrows⟩ := h.stopped_backed hpushed hbranches hswitchable.joined hstop
  refine ⟨hbacked, ?_⟩
  refine hswitchable.reversible before item' after stop.state message' hstop.split ?_ hthrows
  have hstate := (hstop.branchApplied (h.valid.linked hpushed) hbranches).state
  rwa [rewind] at hstate

/-- The old branch is ready to be applied again on top of what is left of the chain. -/
theorem restart_backed (hstop : Stopped L (Insert.insert item family) { n with forkDb } newHead
      first second last before item' after stop message)
    (hdepth : before.length ≤ stop.undoStack.length) (hlast : last' ∈ Insert.insert item family) :
    let restart := (stop.cleaned item' after).rewind before.length last'
    ∃ lower, Backed startNum restart lower ∧ (∀ x ∈ second, x ∈ restart.forkDb.index) ∧
      (∀ i x, second.reverse[i]? = some x → x.num = restart.headBlockNum + 1 + i) ∧
      ForkDatabase.Branch (second ++ lower) := by
  intro restart
  have hlinked := h.valid.linked hpushed
  have hrecorded := h.linked_recorded hpushed
  obtain ⟨-, hsecond, -⟩ := h.switch_shape hpushed hbranches hswitchable.joined
  obtain ⟨⟨count, hstopBacked⟩, -⟩ := h.stopped_reversible hpushed hbranches hswitchable hstop
  have happlied := hstop.branchApplied hlinked hbranches
  obtain ⟨newer, -, -, -, hcoherent, -⟩ := happlied.coherent
  obtain ⟨-, -, hnum, hfork⟩ := hbranches.popped hlinked hstop.depth hstop.last_mem
  obtain ⟨newer', hstopRecorded⟩ := (hrecorded.rewind hstop.depth last).branch hfork
    (fun x hx => hbranches.firstIndexed x (hstop.mem_first.mpr (Or.inl hx)))
    (by
      intro i x hx
      apply first_num hbranches hnum
      rw [hstop.split, List.getElem?_append_left (List.getElem?_eq_some_iff.mp hx).1, hx])
    hstop.applied
  have hstopFork := happlied.consistent hfork (fun x hx =>
    hlinked.fork.index (hbranches.firstIndexed x (hstop.mem_first.mpr (Or.inl hx))))
  have hindex := (foldl_remove (stop.forkDb.setHead item') (item' :: after)).2.2.2
  have hcleaned : Backed startNum (stop.cleaned item' after)
      ((before.reverse ++ chain.drop second.length).take count) := by
    refine ⟨hstopBacked.branch, ?_, hstopBacked.top, hstopBacked.long, hstopBacked.start_le⟩
    intro x hx
    refine (hindex x).mpr ⟨hstopBacked.indexed x hx, ?_⟩
    intro y hy hid
    obtain ⟨i, hi⟩ := List.getElem?_of_mem hx
    have hxNum := (hstopBacked.get hcoherent hstopFork hi).2
    have hyNum := hstop.failed_num hlinked hbranches hy
    have hsame := ForkItem.num_eq_of_id_eq hid
    omega
  have hlower := hcleaned.rewind (hcoherent.congr _) (hstop.cleaned_consistent hlinked hbranches)
    hdepth last'
  obtain ⟨-, hindexed⟩ := hrecorded.restart hlinked hbranches hstop hstopRecorded hdepth last'
  obtain ⟨_, -, -, -, -, hrestartNum, -, -⟩ := hstop.restart hlinked hbranches hdepth hlast
  refine ⟨_, hlower, hindexed, ?_, ?_⟩
  · intro i x hx
    have hi := (List.getElem?_eq_some_iff.mp hx).1
    rw [List.length_reverse] at hi
    rw [List.getElem?_reverse hi] at hx
    have hxNum := (hbranches.secondGet _ x hx).2
    change restart.headBlockNum + second.length = n.headBlockNum at hrestartNum
    change _ = n.headBlockNum at hxNum
    omega
  · have htake := h.backed.branch.take (second.length + (count - before.length))
    rw [List.drop_take, List.drop_left' (List.length_reverse)]
    have heq : second ++ (chain.drop second.length).take (count - before.length) =
        chain.take (second.length + (count - before.length)) := by
      conv_lhs => rw [hsecond]
      rw [List.take_add, List.length_take]
      congr 3
      all_goals
        have hle := congrArg List.length hsecond
        rw [List.length_take] at hle
        omega
    rw [heq]
    exact htake

/-- A finished switch leaves an aligned node. -/
theorem switched_aligned {switched : Node σ T} (hdepth : second.length ≤ n.undoStack.length)
    (hlast : last ∈ Insert.insert item family)
    (hrun : applyItems L first.reverse (({ n with forkDb } : Node σ T).rewind second.length last) =
      (switched, none))
    (hvalid : switched.Valid L (Insert.insert item family) blocks')
    (hrecorded : Recorded L start startLog switched blocks') :
    ∃ chain', Aligned L startNum start startLog (Insert.insert item family) switched blocks'
      chain' := by
  have hlinked := h.valid.linked hpushed
  obtain ⟨-, -, hbranch, rest, hfirst⟩ := h.switch_shape hpushed hbranches hswitchable.joined
  obtain ⟨hcoherent, -, hnum, hfork⟩ := hbranches.popped hlinked hdepth hlast
  have happlied := branchApplied hcoherent hrun
  have hpopped := (h.linked_backed hpushed).rewind hlinked.coherent hlinked.fork hdepth last
  obtain ⟨count, hbacked, hcount⟩ := applied_backed hpopped hcoherent hfork
    (fun x hx => hbranches.firstIndexed x (List.mem_reverse.mp hx))
    (fun _ _ => first_num hbranches hnum) (by rwa [List.reverse_reverse]) hrun
  have hlengths := hbranches.lengths
  have hhigher := hbranches.higher
  have hitemNum : item.num = newHead.num := by
    have hitem := (hbranches.firstGet 0 item (by rw [hfirst]; rfl)).2
    simpa using hitem
  have hheight := happlied.headBlockNum
  rw [List.length_reverse] at hheight
  have hpos := hcount (by simp [hfirst])
  refine ⟨_, hvalid, hrecorded, hbacked, ?_, ?_, ?_, ?_⟩
  · rw [happlied.head, List.getLast?_reverse, List.reverse_reverse, hfirst, List.head?_take,
      if_neg (by omega)]
    rfl
  · intro x hx
    change first.length + n.headBlockNum = _ at hlengths
    change _ + second.length = n.headBlockNum at hnum
    change n.headBlockNum < newHead.num at hhigher
    rcases h.linked_low hpushed (happlied.trimmed.subset hx) with hlow | rfl <;> omega
  · have hraised := hswitchable.raised switched.state happlied.state
    have hcommitted := happlied.committedNum
    have hbase := rewind_committedNum hlinked.coherent hdepth last
    change _ = n.committedNum at hbase
    change n.committedNum ≤ max startNum _ at hraised
    change switched.committedNum ≤ max startNum switched.state.dgp.lastIrreversibleBlockNum
    omega
  · have hsize := happlied.size (by simp [hfirst])
    have hirreversible := hrecorded.coherent.irreversible
    change switched.headBlockNum ≤ switched.committedNum + switched.forkDb.maxSize
    change switched.state.dgp.lastIrreversibleBlockNum ≤ switched.committedNum at hirreversible
    omega

/-- A failed switch that goes back to the old branch leaves an aligned node. -/
theorem restored_aligned {restored : Node σ T}
    (hstop : Stopped L (Insert.insert item family) { n with forkDb } newHead first second last before
      item' after stop message)
    (hdepth : before.length ≤ stop.undoStack.length) (hlast : last' ∈ Insert.insert item family)
    (hrun : applyItems L second.reverse ((stop.cleaned item' after).rewind before.length last') =
      (restored, none))
    (hvalid : restored.Valid L (Insert.insert item family) blocks')
    (hrecorded : Recorded L start startLog restored blocks') :
    ∃ chain', Aligned L startNum start startLog (Insert.insert item family) restored blocks'
      chain' := by
  have hlinked := h.valid.linked hpushed
  obtain ⟨hpopDepth, -, -, rest, hfirst⟩ := h.switch_shape hpushed hbranches hswitchable.joined
  have hstopApplied := hstop.branchApplied hlinked hbranches
  obtain ⟨_, hcoherent, hfork, hstate, -, hnum, hcommitted, -⟩ :=
    hstop.restart hlinked hbranches hdepth hlast
  obtain ⟨lower, hbackedRestart, hindexed, hsecondNums, hjoined⟩ :=
    h.restart_backed hpushed hbranches hswitchable hstop hdepth hlast
  have happlied := branchApplied hcoherent hrun
  obtain ⟨count, hbacked, hcount⟩ := applied_backed hbackedRestart hcoherent hfork
    (fun x hx => hindexed x (List.mem_reverse.mp hx)) hsecondNums
    (by rwa [List.reverse_reverse]) hrun
  have hheight := happlied.headBlockNum
  rw [List.length_reverse] at hheight
  obtain ⟨top, tail, htop⟩ := List.exists_cons_of_length_pos hbranches.pos
  have hpos := hcount (by simp [htop])
  refine ⟨_, hvalid, hrecorded, hbacked, ?_, ?_, ?_, ?_⟩
  · rw [happlied.head, List.getLast?_reverse, List.reverse_reverse, List.head?_take,
      if_neg (by omega), htop]
    rfl
  · intro x hx
    obtain ⟨hxStop, hxApart⟩ := (foldl_remove (stop.forkDb.setHead item') (item' :: after)).2.2.2 x
      |>.mp (happlied.trimmed.subset hx)
    rcases h.linked_low hpushed (hstopApplied.trimmed.subset hxStop) with hlow | heq
    · change _ + second.length = n.headBlockNum at hnum
      omega
    · -- The new item tops the new branch, so it was removed with the failed ones.
      exfalso
      exact hxApart item (hstop.head_mem (by rw [hfirst]; rfl)) (by rw [heq])
  · obtain ⟨-, hirreversible⟩ := h.stopped_reversible hpushed hbranches hswitchable hstop
    have hagain := (h.linked_recorded hpushed).reapplies hlinked hbranches hpopDepth last
    rw [← hstate, happlied.state, Except.ok.injEq] at hagain
    have hraised := hstopApplied.committedNum
    have hbase := rewind_committedNum hlinked.coherent hstop.depth last
    change _ = n.committedNum at hbase
    have hcommittedNum := happlied.committedNum
    have hrestartNum : ((stop.cleaned item' after).rewind before.length last').committedNum =
        stop.committedNum := by
      rw [committedNum, hcommitted]
      rfl
    have hsettled := h.settled
    change restored.committedNum ≤ max startNum restored.state.dgp.lastIrreversibleBlockNum
    rw [hagain] at hcommittedNum ⊢
    change _ = max _ n.state.dgp.lastIrreversibleBlockNum at hcommittedNum
    change _ ≤ max _ n.state.dgp.lastIrreversibleBlockNum
    omega
  · have hsize := happlied.size (by simp [htop])
    have hirreversible := hrecorded.coherent.irreversible
    change restored.headBlockNum ≤ restored.committedNum + restored.forkDb.maxSize
    change restored.state.dgp.lastIrreversibleBlockNum ≤ restored.committedNum at hirreversible
    omega

/-- The old branch does not throw when it is applied again. -/
theorem not_broken {broken : Node σ T} {failed : List (ForkItem T)} {message' : String}
    (hstop : Stopped L (Insert.insert item family) { n with forkDb } newHead first second last before
      item' after stop message)
    (hdepth : before.length ≤ stop.undoStack.length) (hlast : last' ∈ Insert.insert item family) :
    applyItems L second.reverse ((stop.cleaned item' after).rewind before.length last') ≠
      (broken, some (message', failed)) := by
  intro hrun
  have hlinked := h.valid.linked hpushed
  obtain ⟨hpopDepth, -⟩ := h.switch_shape hpushed hbranches hswitchable.joined
  obtain ⟨_, hcoherent, hfork, hstate, -⟩ := hstop.restart hlinked hbranches hdepth hlast
  obtain ⟨lower, hbackedRestart, hindexed, hsecondNums, hjoined⟩ :=
    h.restart_backed hpushed hbranches hswitchable hstop hdepth hlast
  have hagain := (h.linked_recorded hpushed).reapplies hlinked hbranches hpopDepth last
  rw [← hstate] at hagain
  obtain ⟨m, -, hm, -⟩ := hbackedRestart.applyItems hcoherent hfork
    (fun x hx => hindexed x (List.mem_reverse.mp hx)) hsecondNums
    (by rwa [List.reverse_reverse]) hagain
  rw [hrun] at hm
  cases hm

/-- What a stopped switch has applied can be taken back. -/
theorem not_stuckAbove (hstop : Stopped L (Insert.insert item family) { n with forkDb } newHead
    first second last before item' after stop message) :
    before.length ≤ stop.undoStack.length := by
  have hlinked := h.valid.linked hpushed
  obtain ⟨-, hirreversible⟩ := h.stopped_reversible hpushed hbranches hswitchable hstop
  have happlied := hstop.branchApplied hlinked hbranches
  obtain ⟨newer, -, -, -, hcoherent, -⟩ := happlied.coherent
  obtain ⟨-, -, hnum, -⟩ := hbranches.popped hlinked hstop.depth hstop.last_mem
  have hpoint := branchPoint_num hlinked hbranches
  have hheights := hcoherent.headBlockNum_eq
  have hraised := happlied.committedNum
  have hheight := happlied.headBlockNum
  have hbase := rewind_committedNum hlinked.coherent hstop.depth last
  have hcommitted := hswitchable.joined.committed
  change _ = n.committedNum at hbase
  change n.committedNum ≤ _ at hcommitted
  omega

/-- A switch that can start and can be taken back keeps the fork database aligned. -/
theorem switchResult {result : Partial σ T Bool}
    (hresult : SwitchResult L (Insert.insert item family) { n with forkDb } newHead first second
      result) :
    ∃ blocks' chain', Aligned L startNum start startLog (Insert.insert item family) result.1
      blocks' chain' := by
  have hlinked := h.valid.linked hpushed
  obtain ⟨hdepth, -⟩ := h.switch_shape hpushed hbranches hswitchable.joined
  obtain ⟨_, hends⟩ := hresult.valid hlinked hbranches
  obtain ⟨blocks', hrecorded⟩ := (h.linked_recorded hpushed).switchResult hlinked hbranches hresult
  have hvalid : result.1.Valid L (Insert.insert item family) blocks' :=
    ⟨hrecorded.coherent, hends.fork, hends.anchored, hends.rooted⟩
  refine ⟨blocks', ?_⟩
  cases hresult with
  | stuckBelow shallow => exact absurd hdepth (not_le.mpr shallow)
  | switched depth last_mem popped applied =>
      exact h.switched_aligned hpushed hbranches hswitchable depth last_mem applied hvalid hrecorded
  | stuckAbove stopped shallow =>
      have hshallow := h.not_stuckAbove hpushed hbranches hswitchable stopped
      exact absurd hshallow (not_le.mpr shallow)
  | restored stopped depth last_mem applied =>
      exact h.restored_aligned hpushed hbranches hswitchable stopped depth last_mem applied hvalid
        hrecorded
  | broken stopped depth last_mem applied =>
      exact absurd applied (h.not_broken hpushed hbranches hswitchable stopped depth last_mem)

end Switchable

end Switch

/-- On an aligned node a call keeps the block log in order. -/
theorem keepsRecord (h : Aligned L startNum start startLog family n blocks chain) :
    n.KeepsRecord L b := by
  have hnew : ∀ {forkDb newHead}, n.forkDb.pushBlock b = .ok forkDb → forkDb.head = some newHead →
      newHead.data.previous = n.headBlockId →
      newHead.data = b ∧ b.blockNum = n.headBlockNum + 1 := by
    intro forkDb newHead hpush hhead hchild
    obtain ⟨item, hpushed⟩ := ForkDatabase.pushBlock_spec hpush
    obtain ⟨rfl, -⟩ := h.newHead_eq hpushed hhead (h.newHead_child hchild)
    refine ⟨hpushed.data, ?_⟩
    rw [← hpushed.data, SignedBlock.blockNum, hchild, h.recorded.coherent.num_headBlockId]
  constructor
  · intro forkDb newHead hpush hhead hchild hdescends
    have hnum := (hnew hpush hhead hchild).2
    have hle := hdescends.num_le
    rw [h.recorded.coherent.num_headBlockId, SignedBlock.num_id] at hle
    omega
  · intro forkDb newHead s hpush hhead hchild happly x hx hid
    have hnum := (hnew hpush hhead hchild).2
    have hlow := h.low x hx
    have hsame : x.num = b.blockNum := congrArg BlockId.num hid
    omega
  · intro forkDb newHead s hpush hhead hchild happly
    exact Or.inl (hnew hpush hhead hchild).1

/-- A smooth call keeps the fork database aligned, whether it returns or throws. -/
theorem pushBlock (h : Aligned L startNum start startLog family n blocks chain)
    (hsmooth : n.Smooth L startNum b) : ∃ family' blocks' chain',
      Aligned L startNum start startLog family' (n.pushBlock L b).1 blocks' chain' := by
  have hresult := pushBlock_result h.valid b
  obtain ⟨family', _, hvalid⟩ := hresult.valid h.valid
  obtain ⟨blocks', hrecorded⟩ := h.recorded.pushBlock h.valid (b := b) h.keepsRecord
  have hvalid' : (n.pushBlock L b).1.Valid L family' blocks' :=
    ⟨hrecorded.coherent, hvalid.fork, hvalid.anchored, hvalid.rooted⟩
  clear hvalid
  generalize n.pushBlock L b = result at hresult hvalid' hrecorded
  cases hresult with
  | rejected => exact ⟨family, blocks, chain, h⟩
  | @applied item newHead forkDb applied accepted pushed head child applies =>
      obtain ⟨s, happly⟩ := hsmooth.direct forkDb newHead accepted head child
      obtain ⟨next, hnext, hbacked, hnextHead, -, hheight, hsublist⟩ :=
        h.applied pushed head child happly
      have hsame : applied = next := Except.ok.inj (applies.symm.trans hnext)
      subst hsame
      obtain ⟨written, happlied⟩ := applyInSession_spec applies
      obtain ⟨rfl, -⟩ := h.newHead_eq pushed head (h.newHead_child child)
      have hitemNum : newHead.num = n.headBlockNum + 1 := by
        rw [ForkItem.num, SignedBlock.blockNum, child, h.recorded.coherent.num_headBlockId]
      refine ⟨family', blocks', _, hvalid', hrecorded, hbacked, ?_, ?_, ?_, ?_⟩
      · have hfloor : applied.floorNum startNum ≤ applied.headBlockNum := by
          have hbase := hrecorded.coherent.headBlockNum_eq
          have hstart := hbacked.start_le
          change applied.headBlockNum = applied.committedNum + applied.undoStack.length at hbase
          rw [floorNum]
          omega
        change applied.forkDb.head = _
        rw [hnextHead, List.head?_take, if_neg (by omega)]
        rfl
      · intro x hx
        change x.num ≤ applied.headBlockNum
        rcases h.linked_low pushed (hsublist.subset hx) with hlow | rfl <;> omega
      · obtain ⟨_, _, _, -, -, -, hcommitted, -⟩ :=
          (h.valid.linked pushed).coherent.applied happlied
        have hirreversible := ChainState.applyBlock_irreversible_le happlied.state
        have hsettled := h.settled
        change applied.committedNum = max n.committedNum _ at hcommitted
        change applied.committedNum ≤ max startNum applied.state.dgp.lastIrreversibleBlockNum
        change n.state.dgp.lastIrreversibleBlockNum ≤ _ at hirreversible
        omega
      · have hirreversible := hrecorded.coherent.irreversible
        change applied.headBlockNum ≤ applied.committedNum + applied.forkDb.maxSize
        change applied.state.dgp.lastIrreversibleBlockNum ≤ applied.committedNum at hirreversible
        rw [happlied.forkDb, ForkDatabase.setMaxSize_maxSize]
        omega
  | @removed item newHead forkDb message accepted pushed head child throws =>
      obtain ⟨s, happly⟩ := hsmooth.direct forkDb newHead accepted head child
      obtain ⟨next, hnext, -⟩ := h.applied pushed head child happly
      rw [throws] at hnext
      cases hnext
  | @kept item newHead forkDb accepted pushed head aside low =>
      have hold : n.forkDb.head = some newHead ∧ item.num ≤ newHead.num := by
        rcases pushed.head_eq with ⟨hnew, hbelow⟩ | ⟨old, hold, hsame, hle⟩
        · exfalso
          have heq : newHead = item := Option.some.inj (head.symm.trans hnew)
          subst heq
          cases htop : n.forkDb.head with
          | none =>
              have hzero := congrArg BlockId.num (h.valid.rooted htop)
              rw [h.recorded.coherent.num_headBlockId] at hzero
              have hpos : 0 < newHead.num := Nat.succ_pos _
              change n.headBlockNum = 0 at hzero
              omega
          | some top =>
              have hlt := hbelow top htop
              have htopNum := (h.head_num htop).2
              omega
        · rw [head] at hsame
          cases hsame
          exact ⟨hold, hle⟩
      refine ⟨family', blocks', chain, hvalid', hrecorded, h.linked_backed pushed, ?_, ?_, h.settled, ?_⟩
      · change forkDb.head = _
        rw [head, ← h.head, hold.1]
      · intro x hx
        rcases h.linked_low pushed hx with hlow | rfl
        · exact hlow
        · exact hold.2.trans low
      · change n.headBlockNum ≤ n.committedNum + forkDb.maxSize
        rw [pushed.maxSize_eq]
        exact h.recent
  | @unlinked item newHead forkDb message accepted pushed head aside higher missing =>
      obtain ⟨first, second, hfetched, -⟩ := hsmooth.switch forkDb newHead accepted head aside higher
      rw [missing] at hfetched
      cases hfetched
  | @switching item newHead forkDb first second result accepted pushed switching ends =>
      have hlinked := h.valid.linked pushed
      obtain ⟨first', second', hfetched, hswitchable⟩ := hsmooth.switch forkDb newHead accepted
        switching.head switching.aside switching.higher
      have hsame := Except.ok.inj (switching.fetched.symm.trans hfetched)
      cases hsame
      obtain ⟨blocks'', chain', haligned⟩ :=
        h.switchResult pushed (switching.branches hlinked) hswitchable ends
      exact ⟨_, blocks'', chain', haligned⟩

end Aligned

section Run

variable {state : ChainState σ} {blockLog : List (SignedBlock T)}

/-- `open` leaves the fork database aligned. -/
theorem Opens.aligned (h : Opens state blockLog) : ∃ family chain,
    Aligned L state.dgp.headBlockNumber state blockLog family (opened state blockLog) [] chain := by
  obtain ⟨family, hvalid⟩ := h.valid (L := L)
  have hrecorded : Recorded L state blockLog (opened state blockLog) [] :=
    ⟨hvalid.coherent, by simp, [], by simp [opened], rfl⟩
  have hcommitted : (opened state blockLog : Node σ T).committedNum = state.dgp.headBlockNumber := rfl
  have hhead : (opened state blockLog : Node σ T).headBlockNum = state.dgp.headBlockNumber := rfl
  cases hlast : blockLog.getLast? with
  | none =>
      have hfork : (opened state blockLog).forkDb = {} := by rw [opened, hlast]
      have hzero : state.dgp.headBlockNumber = 0 := by
        rw [← h.length, List.getLast?_eq_none_iff.mp hlast]
        rfl
      refine ⟨family, [], hvalid, hrecorded, ⟨.nil, by simp, by simp, ?_, hcommitted.ge⟩, ?_, ?_, ?_,
        Nat.le_add_right _ _⟩
      · rw [floorNum, List.length_nil]
        omega
      · rw [hfork]
        rfl
      · rw [hfork]
        simp
      · rw [hcommitted]
        exact le_max_left _ _
  | some last =>
      let item : ForkItem T := { ref := 0, data := last }
      have hfork : (opened state blockLog).forkDb =
          { index := [item], head := some item, nextRef := 1 } := by
        rw [opened, hlast]
        rfl
      have hid : item.id = (opened state blockLog).headBlockId := h.head last hlast
      have hnum : item.num = state.dgp.headBlockNumber := by
        rw [← ForkItem.num_id, hid, h.sound.number]
        rfl
      have hpos : 0 < item.num := Nat.succ_pos _
      refine ⟨family, [item], hvalid, hrecorded, ⟨.singleton _, ?_, ?_, ?_, hcommitted.ge⟩, ?_, ?_, ?_,
        Nat.le_add_right _ _⟩
      · rw [hfork]
        simp
      · simpa using hid
      · rw [floorNum, List.length_singleton]
        omega
      · rw [hfork]
        rfl
      · rw [hfork]
        simpa [hhead] using hnum.le
      · rw [hcommitted]
        exact le_max_left _ _

theorem run_aligned (hopens : Opens state blockLog) (pushes : List (SignedBlock T))
    (hsmooth : ∀ before b after, pushes = before ++ b :: after →
      (run L (opened state blockLog) before).Smooth L state.dgp.headBlockNumber b) :
    ∃ family blocks chain, Aligned L state.dgp.headBlockNumber state blockLog family
      (run L (opened state blockLog) pushes) blocks chain := by
  induction pushes using List.reverseRecOn with
  | nil =>
      obtain ⟨family, chain, hopened⟩ := hopens.aligned (L := L)
      exact ⟨family, [], chain, hopened⟩
  | append_singleton before b ih =>
      obtain ⟨family, blocks, chain, haligned⟩ := ih (fun before' b' after' hsplit =>
        hsmooth before' b' (after' ++ [b]) (by rw [hsplit]; simp))
      have hstep : run L (opened state blockLog) (before ++ [b]) =
          ((run L (opened state blockLog) before).pushBlock L b).1 := by
        rw [run_append]
        rfl
      rw [hstep]
      exact haligned.pushBlock (hsmooth before b [] rfl)

/-- After every run of smooth calls, returned or thrown, the fork database agrees with
the chain. -/
theorem run_agrees (hopens : Opens state blockLog) (pushes : List (SignedBlock T))
    (hsmooth : ∀ before b after, pushes = before ++ b :: after →
      (run L (opened state blockLog) before).Smooth L state.dgp.headBlockNumber b) :
    Agrees state.dgp.headBlockNumber (run L (opened state blockLog) pushes) := by
  obtain ⟨_, _, _, haligned⟩ := run_aligned hopens pushes hsmooth
  exact haligned.agrees

end Run

end Node

/-! ### The fork database after a child of the head that throws -/

namespace Sample

def brokenSecond : SignedBlock Bool := block first.id 2 "alice" false

/-- The block is removed from the index, and stays the head of the fork database. -/
theorem brokenSecond_disagrees :
    let n := Node.run (logic ["alice", "bob"]) (Node.opened genesis []) [first, brokenSecond]
    n.headBlockId = first.id ∧ n.forkDb.head.map ForkItem.id = some brokenSecond.id ∧
      n.forkDb.find brokenSecond.id = none ∧ ¬ n.Agrees 0 := by
  intro n
  have hhead : n.headBlockId = first.id := by decide
  have hfork : n.forkDb.head.map ForkItem.id = some brokenSecond.id := by decide
  refine ⟨hhead, hfork, by decide, ?_⟩
  intro hagrees
  obtain ⟨item, hitem, hid⟩ := Option.map_eq_some_iff.mp hfork
  have hsame := hagrees.head item hitem
  rw [hid, hhead] at hsame
  exact absurd hsame (by decide)

theorem first_smooth : (Node.opened genesis []).Smooth (logic ["alice", "bob"]) 0 first :=
  .of_child rfl rfl ⟨_, rfl⟩

theorem second_smooth : (Node.run (logic ["alice", "bob"]) (Node.opened genesis []) [first]).Smooth
    (logic ["alice", "bob"]) 0 second :=
  .of_child rfl rfl ⟨_, rfl⟩

/-- A branch that leaves the chain at the last irreversible block. -/
def sideSecond : SignedBlock Bool := block first.id 3 "bob"
def sideThirdByAlice : SignedBlock Bool := block sideSecond.id 4 "alice"

theorem sideSecond_smooth :
    (Node.run (logic ["alice", "bob"]) (Node.opened genesis []) [first, second]).Smooth
      (logic ["alice", "bob"]) 0 sideSecond :=
  .of_low rfl (by decide) (by decide)

/-- The node with the first block of the branch, and its fork database with the second. -/
def sideNode : Node Unit Bool :=
  Node.run (logic ["alice", "bob"]) (Node.opened genesis []) [first, second, sideSecond]

def sideForkDb : ForkDatabase Bool where
  maxSize := 2
  index := [
    { ref := 0, data := first },
    { ref := 1, prev := some 0, data := second },
    { ref := 2, prev := some 0, data := sideSecond },
    { ref := 3, prev := some 2, data := sideThirdByAlice }]
  head := some { ref := 3, prev := some 2, data := sideThirdByAlice }
  nextRef := 4

theorem sideForkDb_pushed : sideNode.forkDb.pushBlock sideThirdByAlice = .ok sideForkDb := by
  rfl

theorem sideForkDb_branches : sideForkDb.fetchBranchFrom sideThirdByAlice.id sideNode.headBlockId =
    .ok ([{ ref := 3, prev := some 2, data := sideThirdByAlice },
      { ref := 2, prev := some 0, data := sideSecond }],
      [{ ref := 1, prev := some 0, data := second }]) := by
  rfl

theorem side_applies : ∃ s, (Node.undo^[1] sideNode).state.applyAll (logic ["alice", "bob"])
    [sideSecond, sideThirdByAlice] = .ok s ∧
      sideNode.committedNum ≤ max 0 s.dgp.lastIrreversibleBlockNum :=
  ⟨_, rfl, by decide⟩

theorem side_switchable :
    ({ sideNode with forkDb := sideForkDb } : Node Unit Bool).Switchable (logic ["alice", "bob"]) 0
      [{ ref := 3, prev := some 2, data := sideThirdByAlice },
        { ref := 2, prev := some 0, data := sideSecond }]
      [{ ref := 1, prev := some 0, data := second }] := by
  obtain ⟨s, happlies, hraised⟩ := side_applies
  refine Node.Switchable.of_applies ⟨?_, ?_⟩ happlies hraised
  · have hcommitted : sideNode.committedNum = 1 := by decide
    have hpoint : first.id.num = 1 := by decide
    change sideNode.committedNum ≤ first.id.num
    rw [hcommitted, hpoint]
  · intro last hlast hpos
    cases hlast
    exact ⟨{ ref := 0, data := first }, List.mem_cons_self, rfl⟩

/-- The node switches to the branch. -/
theorem sideThird_smooth : sideNode.Smooth (logic ["alice", "bob"]) 0 sideThirdByAlice where
  direct := by
    intro forkDb newHead hpush hhead hchild
    rw [sideForkDb_pushed] at hpush
    cases hpush
    cases hhead
    have haside : sideThirdByAlice.previous ≠ sideNode.headBlockId := by decide
    exact absurd hchild haside
  switch := by
    intro forkDb newHead hpush hhead haside hhigher
    rw [sideForkDb_pushed] at hpush
    cases hpush
    cases hhead
    exact ⟨_, _, sideForkDb_branches, side_switchable⟩

/-- The node after the switch to the branch. -/
def sideSwitched : Node Unit Bool :=
  Node.run (logic ["alice", "bob"]) (Node.opened genesis [])
    [first, second, sideSecond, sideThirdByAlice]

/-- A fork switch keeps the agreement. -/
theorem sideSwitched_agrees : sideSwitched.headBlockId = sideThirdByAlice.id ∧ sideSwitched.Agrees 0 := by
  have hhead : sideSwitched.headBlockId = sideThirdByAlice.id := by decide +kernel
  refine ⟨hhead, ?_⟩
  refine Node.run_agrees (L := logic ["alice", "bob"]) genesis_opens
    [first, second, sideSecond, sideThirdByAlice] ?_
  intro before b after hsplit
  match before with
  | [] =>
      cases hsplit
      exact first_smooth
  | [_] =>
      cases hsplit
      exact second_smooth
  | [_, _] =>
      cases hsplit
      exact sideSecond_smooth
  | [_, _, _] =>
      cases hsplit
      exact sideThird_smooth
  | _ :: _ :: _ :: _ :: _ => simp at hsplit

end Sample

end Blurt
