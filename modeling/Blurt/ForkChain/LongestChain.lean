import Blurt.ForkChain.KnownBlocks

/-! # Adoption of the longest valid chain

In a run of smooth calls without forged blocks the index tracks the block tree: each
valid block on top of the committed one that was pushed after its parent is stored and
linked. A longer valid branch can then be fetched, and is switched to.
-/

namespace Blurt

open Outcome

variable {σ T : Type} {L : LedgerLogic σ T}

namespace Node

open ChainState

/-- The ids of the blocks that were pushed after their parents, from `root` up. -/
def pushedInOrder (root : BlockId) (pushes : List (SignedBlock T)) : List BlockId :=
  pushes.foldl (fun ids b => if b.previous ∈ ids then b.id :: ids else ids) [root]

section Order

variable {root id : BlockId} {pushes : List (SignedBlock T)} {b : SignedBlock T}

theorem mem_pushedInOrder_concat : id ∈ pushedInOrder root (pushes ++ [b]) ↔
    id ∈ pushedInOrder root pushes ∨ id = b.id ∧ b.previous ∈ pushedInOrder root pushes := by
  rw [pushedInOrder, List.foldl_append, List.foldl_cons, List.foldl_nil, ← pushedInOrder]
  by_cases hparent : b.previous ∈ pushedInOrder root pushes
  · simp [hparent, or_comm]
  · simp [hparent]

theorem root_mem_pushedInOrder : root ∈ pushedInOrder root pushes := by
  induction pushes using List.reverseRecOn with
  | nil => exact List.mem_singleton.mpr rfl
  | append_singleton before b ih => exact mem_pushedInOrder_concat.mpr (Or.inl ih)

end Order

/-- The index holds known blocks, each pushed in order, and every valid one of these on
top of `base`, linked to its parent. -/
structure Tracks (L : LedgerLogic σ T) (known : Set (SignedBlock T)) (start : ChainState σ)
    (pushes : List (SignedBlock T)) (base : BlockId) (fdb : ForkDatabase T) : Prop where
  data_mem : ∀ x ∈ fdb.index, x.data ∈ known
  ordered : ∀ x ∈ fdb.index, x.id.Descends start.dgp.headBlockId →
    x.id ∈ pushedInOrder start.dgp.headBlockId pushes
  stored : ∀ id ∈ pushedInOrder start.dgp.headBlockId pushes,
    (∃ s, Reached L known start s ∧ s.dgp.headBlockId = id) → id.Descends base → id ≠ base →
      ∃ x ∈ fdb.index, x.id = id ∧ (id.previous ≠ .zero → ∃ y ∈ fdb.index, x.Follows y)

namespace Tracks

variable {known : Set (SignedBlock T)} {start : ChainState σ} {startLog : List (SignedBlock T)}
  {family : Set (ForkItem T)} {n : Node σ T} {blocks blocks' : List (SignedBlock T)}
  {chain : List (ForkItem T)} {pushes : List (SignedBlock T)} {base : BlockId}
  {fdb forkDb : ForkDatabase T} {b : SignedBlock T} {item : ForkItem T}

/-- Tracking survives the loss of items below a higher base, and of invalid ones. -/
theorem trim (h : Tracks L known start pushes base fdb) {base' : BlockId}
    (hsub : ∀ x ∈ forkDb.index, x ∈ fdb.index)
    (hkept : ∀ x ∈ fdb.index, base'.num ≤ x.num →
      (∃ s, Reached L known start s ∧ s.dgp.headBlockId = x.id) → x ∈ forkDb.index)
    (hbase : base'.Descends base) (hstart : start.dgp.headBlockId.num ≤ base'.num)
    (hfdb : fdb.Consistent family) : Tracks L known start pushes base' forkDb where
  data_mem x hx := h.data_mem x (hsub x hx)
  ordered x hx := h.ordered x (hsub x hx)
  stored := by
    intro id hid hreached hdescends hne
    have habove : base'.num < id.num := by
      refine lt_of_le_of_ne hdescends.num_le ?_
      intro hnum
      exact hne (hdescends.eq_of_num_le hnum.ge).symm
    have hneBase : id ≠ base := by
      rintro rfl
      have := hbase.num_le
      omega
    obtain ⟨x, hx, rfl, hlinked⟩ := h.stored id hid hreached (hdescends.trans hbase) hneBase
    rw [ForkItem.num_id] at habove
    refine ⟨x, hkept x hx habove.le hreached, rfl, ?_⟩
    intro hprevious
    obtain ⟨y, hy, hfollows⟩ := hlinked hprevious
    have hyId := hfdb.follows_id (hfdb.index hx) (hfdb.index hy) hfollows
    have hyNum := hfdb.follows_num (hfdb.index hx) (hfdb.index hy) hfollows
    obtain ⟨s, hs, hhead⟩ := hreached
    have hparent : s.dgp.headBlockId.Descends y.id := by
      rw [hhead, hyId]
      exact BlockId.descends_iterate x.id 1
    refine ⟨y, hkept y hy (by omega) (hs.ancestor hparent ?_), hfollows⟩
    rw [ForkItem.num_id]
    omega

/-- The parent of a valid block pushed in order on top of the committed one is indexed. -/
theorem parent (h : Tracks L known start pushes n.committed.dgp.headBlockId n.forkDb)
    (haligned : Aligned L start.dgp.headBlockId.num start startLog family n blocks chain)
    (horder : b.previous ∈ pushedInOrder start.dgp.headBlockId pushes)
    (hreached : ∃ s, Reached L known start s ∧ s.dgp.headBlockId = b.id)
    (hdescends : b.id.Descends n.committed.dgp.headBlockId)
    (hne : b.id ≠ n.committed.dgp.headBlockId) (hprevious : b.previous ≠ .zero) :
    ∃ parent ∈ n.forkDb.index, parent.id = b.previous := by
  have hcoherent := haligned.recorded.coherent
  have hbelow : b.previous.Descends n.committed.dgp.headBlockId :=
    hdescends.resolve_left (fun heq => hne heq.symm)
  by_cases hsame : b.previous = n.committed.dgp.headBlockId
  · have hnum : n.committedNum = n.committed.dgp.headBlockId.num := hcoherent.sound.number
    have hpos : 0 < n.committed.dgp.headBlockId.num := by
      rw [← hsame, Nat.pos_iff_ne_zero, ne_eq, BlockId.num_eq_zero]
      exact hprevious
    have hstart := haligned.backed.start_le
    obtain ⟨x, hx, hid⟩ := haligned.backed.find hcoherent haligned.valid.fork
      (show n.headBlockId.Descends n.committed.dgp.headBlockId from hcoherent.history.descends)
      (by rw [floorNum]; omega)
    exact ⟨x, haligned.backed.indexed x (List.mem_of_getElem? hx), hid.trans hsame.symm⟩
  · obtain ⟨s, hs, hhead⟩ := hreached
    have hparent : s.dgp.headBlockId.Descends b.previous := by
      rw [hhead]
      exact BlockId.descends_iterate b.id 1
    have habove : start.dgp.headBlockId.num ≤ b.previous.num := by
      have hstart := haligned.backed.start_le
      have hnum : n.committedNum = n.committed.dgp.headBlockId.num := hcoherent.sound.number
      have hle := hbelow.num_le
      omega
    obtain ⟨x, hx, hid, -⟩ := h.stored b.previous horder (hs.ancestor hparent habove) hbelow hsame
    exact ⟨x, hx, hid⟩

/-- A valid block pushed in order on top of the committed one is accepted. -/
theorem accepted (h : Tracks L known start pushes n.committed.dgp.headBlockId n.forkDb)
    (haligned : Aligned L start.dgp.headBlockId.num start startLog family n blocks chain)
    (horder : b.previous ∈ pushedInOrder start.dgp.headBlockId pushes)
    (hreached : ∃ s, Reached L known start s ∧ s.dgp.headBlockId = b.id)
    (hdescends : b.id.Descends n.committed.dgp.headBlockId)
    (hne : b.id ≠ n.committed.dgp.headBlockId) : ∃ forkDb, n.forkDb.pushBlock b = .ok forkDb := by
  cases hhead : n.forkDb.head with
  | none => exact ForkDatabase.pushBlock_of_empty hhead b
  | some head =>
      have hrecent : head.num < b.blockNum + n.forkDb.maxSize := by
        have hheadNum := (haligned.head_num hhead).2
        have hwindow := haligned.recent
        have hnum : n.committedNum = n.committed.dgp.headBlockId.num :=
          haligned.recorded.coherent.sound.number
        have hlt : n.committed.dgp.headBlockId.num < b.id.num := by
          refine lt_of_le_of_ne hdescends.num_le ?_
          intro heq
          exact hne (hdescends.eq_of_num_le heq.ge).symm
        rw [SignedBlock.num_id] at hlt
        omega
      by_cases hprevious : b.previous = .zero
      · exact ForkDatabase.pushBlock_of_zero hhead hrecent hprevious
      · obtain ⟨parent, hparent, hid⟩ :=
          h.parent haligned horder hreached hdescends hne hprevious
        exact ForkDatabase.pushBlock_of_parent haligned.valid.fork hhead hrecent hparent hid

/-- A push that the fork database rejects leaves nothing to track. -/
theorem rejected (h : Tracks L known start pushes n.committed.dgp.headBlockId n.forkDb)
    (haligned : Aligned L start.dgp.headBlockId.num start startLog family n blocks chain)
    {message : String} (hrejected : n.forkDb.pushBlock b = .error message) :
    Tracks L known start (pushes ++ [b]) n.committed.dgp.headBlockId n.forkDb where
  data_mem := h.data_mem
  ordered x hx hdescends := mem_pushedInOrder_concat.mpr (Or.inl (h.ordered x hx hdescends))
  stored := by
    intro id hid hreached hdescends hne
    rcases mem_pushedInOrder_concat.mp hid with hold | ⟨rfl, horder⟩
    · exact h.stored id hold hreached hdescends hne
    · obtain ⟨forkDb, haccepted⟩ := h.accepted haligned horder hreached hdescends hne
      rw [hrejected] at haccepted
      cases haccepted

/-- An accepted push is tracked. -/
theorem pushed (h : Tracks L known start pushes base n.forkDb) (hb : b ∈ known)
    (hempty : n.forkDb.head = none → b.previous = .zero)
    (hpushed : n.forkDb.Pushed b item forkDb) :
    Tracks L known start (pushes ++ [b]) base forkDb where
  data_mem := by
    intro x hx
    rcases hpushed.mem_index.mp hx with hold | ⟨rfl, -⟩
    · exact h.data_mem x hold
    · rw [hpushed.data]
      exact hb
  ordered := by
    intro x hx hdescends
    apply mem_pushedInOrder_concat.mpr
    rcases hpushed.mem_index.mp hx with hold | ⟨rfl, -⟩
    · exact Or.inl (h.ordered x hold hdescends)
    · rw [hpushed.id_eq] at hdescends ⊢
      rcases hdescends with heq | hbelow
      · rw [show b.id = start.dgp.headBlockId from heq.symm]
        exact Or.inl root_mem_pushedInOrder
      · refine Or.inr ⟨rfl, ?_⟩
        rcases hpushed.link with ⟨-, hnone⟩ | ⟨parent, hparent, hid, -⟩
        · have hzero : b.previous = .zero := hnone.elim hempty id
          rw [hzero] at hbelow ⊢
          rw [show start.dgp.headBlockId = .zero from hbelow]
          exact root_mem_pushedInOrder
        · rw [← hid] at hbelow ⊢
          exact h.ordered parent hparent hbelow
  stored := by
    intro id hid hreached hdescends hne
    have hold : id ∈ pushedInOrder start.dgp.headBlockId pushes →
        ∃ x ∈ forkDb.index, x.id = id ∧ (id.previous ≠ .zero → ∃ y ∈ forkDb.index, x.Follows y) := by
      intro horder
      obtain ⟨x, hx, hxId, hlinked⟩ := h.stored id horder hreached hdescends hne
      refine ⟨x, hpushed.mem_index.mpr (Or.inl hx), hxId, ?_⟩
      intro hprevious
      obtain ⟨y, hy, hfollows⟩ := hlinked hprevious
      exact ⟨y, hpushed.mem_index.mpr (Or.inl hy), hfollows⟩
    rcases mem_pushedInOrder_concat.mp hid with horder | ⟨rfl, horder⟩
    · exact hold horder
    · by_cases hnew : ∀ y ∈ n.forkDb.index, y.id ≠ b.id
      · refine ⟨item, hpushed.mem_index.mpr (Or.inr ⟨rfl, hnew⟩), hpushed.id_eq, ?_⟩
        intro hprevious
        rcases hpushed.link with ⟨-, hnone⟩ | ⟨parent, hparent, -, hfollows⟩
        · exact absurd (hnone.elim hempty (fun hzero => hzero)) hprevious
        · exact ⟨parent, hpushed.mem_index.mpr (Or.inl hparent), hfollows⟩
      · -- An item of the block was there, so the block had been pushed in order before.
        push Not at hnew
        obtain ⟨y, hy, hyId⟩ := hnew
        apply hold
        obtain ⟨s, hs, hhead⟩ := hreached
        rw [← hyId]
        apply h.ordered y hy
        rw [hyId, ← hhead]
        exact hs.descends

end Tracks

section Push

variable {known : Set (SignedBlock T)} {start : ChainState σ} {startLog : List (SignedBlock T)}
  {family : Set (ForkItem T)} {n : Node σ T} {blocks blocks' : List (SignedBlock T)}
  {chain : List (ForkItem T)} {pushes : List (SignedBlock T)} {b : SignedBlock T}
  {newHead : ForkItem T} {first second : List (ForkItem T)}

/-- No state is reached at or above the block at which a failed switch stops. -/
theorem Stopped.invalid {last item : ForkItem T} {before after : List (ForkItem T)} {stop : Node σ T}
    {message message' : String} (hunforged : Unforged known) (htraced : Traced L known start n blocks)
    (hvalid : n.Valid L family blocks') (hbranches : n.Branches newHead first second)
    (hknown : ∀ x ∈ n.forkDb.index, x.data ∈ known)
    (h : Stopped L family n newHead first second last before item after stop message)
    (hthrows : stop.state.applyBlock L item.data = .error message') {y : ForkItem T}
    (hy : y ∈ item :: after) : ¬ ∃ s, Reached L known start s ∧ s.dgp.headBlockId = y.id := by
  rintro ⟨s, hs, hhead⟩
  have hvalidTraced : n.Valid L family blocks :=
    ⟨htraced.coherent, hvalid.fork, hvalid.anchored, hvalid.rooted⟩
  obtain ⟨newer, hstop⟩ := h.traced htraced hvalidTraced hbranches hknown
  have hitemNum := h.item_num hvalidTraced hbranches
  have hyNum := h.failed_num hvalidTraced hbranches hy
  have hitemFirst : item ∈ first := h.mem_first.mpr (Or.inr (Or.inl rfl))
  have hyFirst : y ∈ first := h.mem_first.mpr (Or.inr (List.mem_cons.mp hy))
  obtain ⟨i, hi⟩ := List.getElem?_of_mem hitemFirst
  obtain ⟨j, hj⟩ := List.getElem?_of_mem hyFirst
  -- The stopping block is on the chain of the state, so it has been applied to reach it.
  have hbelow : s.dgp.headBlockId.Descends item.id := by
    have htop : ∀ {k : Nat} {x : ForkItem T}, first[k]? = some x → newHead.id.Descends x.id := by
      intro k x hx
      rw [(hbranches.firstGet k x hx).1]
      exact BlockId.descends_iterate _ _
    rw [hhead]
    apply (htop hj).total (htop hi)
    rw [ForkItem.num_id, ForkItem.num_id]
    omega
  have hstopNum : stop.headBlockId.num = stop.headBlockNum := hstop.coherent.num_headBlockId
  have habove : start.dgp.headBlockId.num ≤ stop.headBlockNum := by
    rw [← hstopNum]
    exact hstop.state.descends.num_le
  obtain ⟨t, ht, htHead⟩ := hs.ancestor hbelow (by rw [ForkItem.num_id]; omega)
  have hne : t.dgp.headBlockId ≠ start.dgp.headBlockId := by
    intro heq
    have hnum := congrArg BlockId.num (htHead.symm.trans heq)
    rw [ForkItem.num_id] at hnum
    omega
  obtain ⟨u, c, hu, hc, happly, hcId⟩ := ht.last hne
  have hsame : c = item.data :=
    hunforged c hc item.data (hknown item (hbranches.firstIndexed item hitemFirst))
      (hcId.trans htHead)
  subst hsame
  have hstopPrevious : item.data.previous = stop.headBlockId :=
    stopped_previous (fun i x hx => (hbranches.firstGet i x hx).1)
      ((hbranches.popped hvalidTraced h.depth h.last_mem).2.1.trans hbranches.firstAncestor) h.split
      (h.branchApplied hvalidTraced hbranches)
  have hstate : u = stop.state :=
    hu.unique hunforged.binds hstop.state ((applyBlock_previous happly).trans hstopPrevious)
  rw [hstate, hthrows] at happly
  cases happly

/-- A smooth call on an empty fork database pushes a first block. -/
theorem Smooth.previous_zero {startNum : Nat} (h : n.Smooth L startNum b) (hvalid : n.Valid L family blocks)
    {forkDb : ForkDatabase T} (haccepted : n.forkDb.pushBlock b = .ok forkDb)
    (hempty : n.forkDb.head = none) : b.previous = .zero := by
  obtain ⟨item, hpushed⟩ := ForkDatabase.pushBlock_spec haccepted
  have hhead : forkDb.head = some item := by
    rcases hpushed.head_eq with ⟨hnew, -⟩ | ⟨old, hold, -⟩
    · exact hnew
    · rw [hempty] at hold
      cases hold
  have hzero := hvalid.rooted hempty
  by_contra hprevious
  have haside : item.data.previous ≠ n.headBlockId := by
    rw [hpushed.data, hzero]
    exact hprevious
  have hhigher : n.headBlockNum < item.num := by
    rw [← hvalid.coherent.num_headBlockId, hzero]
    exact Nat.succ_pos _
  -- No item has the id before the first block, so no branch is fetched from it.
  obtain ⟨first, second, hfetched, -⟩ := h.switch forkDb item haccepted hhead haside hhigher
  obtain ⟨fetched⟩ := ForkDatabase.fetchBranchFrom_spec (hpushed.consistent hvalid.fork) hfetched
  exact SignedBlock.id_ne_zero _ ((ForkDatabase.find_spec fetched.secondFound).2.trans hzero)

/-- A smooth call keeps the block tree tracked. -/
theorem Tracks.pushBlock (h : Tracks L known start pushes n.committed.dgp.headBlockId n.forkDb)
    (haligned : Aligned L start.dgp.headBlockId.num start startLog family n blocks chain)
    (htraced : Traced L known start n blocks') (hsmooth : n.Smooth L start.dgp.headBlockId.num b)
    (hb : b ∈ known)
    (hunforged : Unforged known) :
    Tracks L known start (pushes ++ [b]) (n.pushBlock L b).1.committed.dgp.headBlockId
      (n.pushBlock L b).1.forkDb := by
  have hvalid := haligned.valid
  have hvalidTraced : n.Valid L family blocks' :=
    ⟨htraced.coherent, hvalid.fork, hvalid.anchored, hvalid.rooted⟩
  have hresult := pushBlock_result hvalid b
  obtain ⟨_, _, hhistory⟩ := hresult.advances hvalid
  have hbase := hhistory.descends
  have hstart : start.dgp.headBlockId.num ≤ (n.pushBlock L b).1.committed.dgp.headBlockId.num := by
    obtain ⟨newer, hnewer⟩ := (pushBlock_result hvalidTraced b).traced htraced hvalidTraced
      h.data_mem hb
    exact hnewer.reached.descends.num_le
  obtain ⟨_, _, hvalid'⟩ := hresult.valid hvalid
  have hcommitted : (n.pushBlock L b).1.committed.dgp.headBlockId.num =
      (n.pushBlock L b).1.committedNum := hvalid'.coherent.sound.number.symm
  have hirreversible := hvalid'.coherent.irreversible
  clear hhistory hvalid'
  generalize n.pushBlock L b = result at *
  cases hresult with
  | rejected rejected => exact h.rejected haligned rejected
  | @applied item newHead forkDb applied accepted pushed head child applies =>
      have hlinked := h.pushed hb (hsmooth.previous_zero hvalid accepted) pushed
      obtain ⟨written, happlied⟩ := applyInSession_spec applies
      refine hlinked.trim ?_ ?_ hbase hstart (pushed.consistent hvalid.fork)
      · intro x hx
        change x ∈ applied.forkDb.index at hx
        rw [happlied.forkDb] at hx
        exact (ForkDatabase.setMaxSize_sublist _ _).subset hx
      · intro x hx hnum _
        change x ∈ applied.forkDb.index
        rw [happlied.forkDb, ForkDatabase.mem_setMaxSize]
        refine ⟨hx, ?_⟩
        intro top htop
        have htopNum := happlied.heads top htop
        change applied.state.dgp.lastIrreversibleBlockNum ≤ applied.committedNum at hirreversible
        change applied.committed.dgp.headBlockId.num = applied.committedNum at hcommitted
        change applied.committed.dgp.headBlockId.num ≤ x.num at hnum
        omega
  | @removed item newHead forkDb message accepted pushed head child throws =>
      obtain ⟨s, happly⟩ := hsmooth.direct forkDb newHead accepted head child
      obtain ⟨next, hnext, -⟩ := haligned.applied pushed head child happly
      rw [throws] at hnext
      cases hnext
  | kept accepted pushed => exact h.pushed hb (hsmooth.previous_zero hvalid accepted) pushed
  | @unlinked item newHead forkDb message accepted pushed head aside higher missing =>
      obtain ⟨first, second, hfetched, -⟩ := hsmooth.switch forkDb newHead accepted head aside higher
      rw [missing] at hfetched
      cases hfetched
  | @switching item newHead forkDb first second result accepted pushed switching ends =>
      have hlinked := h.pushed hb (hsmooth.previous_zero hvalid accepted) pushed
      have hlinkedValid := hvalid.linked pushed
      have hbranches := switching.branches hlinkedValid
      obtain ⟨first', second', hfetched, hswitchable⟩ := hsmooth.switch forkDb newHead accepted
        switching.head switching.aside switching.higher
      cases Except.ok.inj (switching.fetched.symm.trans hfetched)
      obtain ⟨hsub, hkept⟩ := ends.index hlinkedValid hbranches
      refine hlinked.trim hsub ?_ hbase hstart (pushed.consistent hvalid.fork)
      intro x hx hnum hreached
      rcases hkept x hx (by omega) with hin | ⟨last, before, item', after, stop, message, hstop, y, hy,
        hid⟩
      · exact hin
      · exfalso
        obtain ⟨-, message', hthrows⟩ :=
          haligned.stopped_backed pushed hbranches hswitchable.joined hstop
        refine hstop.invalid hunforged (htraced.congr forkDb) hlinkedValid hbranches
          hlinked.data_mem hthrows hy ?_
        rwa [← hid]

end Push

/-- The block `b` leads to the state `s` on a branch of known blocks, pushed in order, which
leaves the chain at `ancestor`, not below the committed block, and is higher than it. -/
structure Candidate (L : LedgerLogic σ T) (known : Set (SignedBlock T)) (start : ChainState σ)
    (pushes : List (SignedBlock T)) (n : Node σ T) (b : SignedBlock T) (ancestor : BlockId)
    (s : ChainState σ) : Prop where
  mem : b ∈ known
  ordered : b.previous ∈ pushedInOrder start.dgp.headBlockId pushes
  reached : Reached L known start s
  head : s.dgp.headBlockId = b.id
  joins : b.id.Descends ancestor
  chain : n.headBlockId.Descends ancestor
  above : ancestor.Descends n.committed.dgp.headBlockId
  higher : n.headBlockNum < b.blockNum

section Adoption

variable {known : Set (SignedBlock T)} {start s : ChainState σ} {startLog : List (SignedBlock T)}
  {family : Set (ForkItem T)} {n : Node σ T} {blocks blocks' : List (SignedBlock T)}
  {chain : List (ForkItem T)} {pushes : List (SignedBlock T)} {b : SignedBlock T}
  {ancestor : BlockId} {item newHead : ForkItem T} {forkDb : ForkDatabase T}
  {first second : List (ForkItem T)}

/-- An item on the chain of a reached state, above the base, is linked to its parent. -/
theorem Tracks.link {base : BlockId} {fdb : ForkDatabase T}
    (h : Tracks L known start pushes base fdb) (hfdb : fdb.Consistent family)
    (hs : Reached L known start s) (hbase : s.dgp.headBlockId.Descends base)
    (hstart : base.Descends start.dgp.headBlockId) {x : ForkItem T} (hx : x ∈ fdb.index)
    (hbelow : s.dgp.headBlockId.Descends x.id) (habove : base.num < x.num)
    (hprevious : x.id.previous ≠ .zero) : ∃ parent ∈ fdb.index, x.Follows parent := by
  have hdescends : x.id.Descends base := hbelow.total hbase (by rw [ForkItem.num_id]; omega)
  have hne : x.id ≠ base := by
    intro heq
    rw [← ForkItem.num_id, heq] at habove
    omega
  have hle := hstart.num_le
  obtain ⟨y, hy, hid, hlinked⟩ := h.stored x.id (h.ordered x hx (hdescends.trans hstart))
    (hs.ancestor hbelow (by rw [ForkItem.num_id]; omega)) hdescends hne
  have hsame : y = x := hfdb.eq_of_id_eq hy hx hid
  rw [← hsame]
  rw [← hid] at hprevious
  exact hlinked (by rwa [← hid])

namespace Candidate

theorem descends (h : Candidate L known start pushes n b ancestor s) :
    b.id.Descends n.committed.dgp.headBlockId := h.joins.trans h.above

theorem ne_committed (h : Candidate L known start pushes n b ancestor s)
    (hcoherent : n.Coherent L blocks) : b.id ≠ n.committed.dgp.headBlockId := by
  intro heq
  have hle := (h.chain.trans h.above).num_le
  have hhigher := h.higher
  rw [hcoherent.num_headBlockId, ← heq, SignedBlock.num_id] at hle
  omega

/-- The stored blocks are not above the chain head, so the branch is higher by its top block. -/
theorem previous_num (h : Candidate L known start pushes n b ancestor s)
    (htracks : Tracks L known start pushes n.committed.dgp.headBlockId n.forkDb)
    (haligned : Aligned L start.dgp.headBlockId.num start startLog family n blocks chain) :
    b.previous.num = n.headBlockNum := by
  have hhigher := h.higher
  have hnum : b.blockNum = b.previous.num + 1 := rfl
  by_cases hzero : b.previous = .zero
  · rw [hzero] at hnum ⊢
    rw [BlockId.num_zero] at hnum ⊢
    omega
  · obtain ⟨parent, hparent, hid⟩ := htracks.parent haligned h.ordered ⟨s, h.reached, h.head⟩
      h.descends (h.ne_committed haligned.recorded.coherent) hzero
    have hlow := haligned.low parent hparent
    rw [← ForkItem.num_id, hid] at hlow
    omega

/-- The fork database takes the block as its new head. -/
theorem pushed (h : Candidate L known start pushes n b ancestor s)
    (haligned : Aligned L start.dgp.headBlockId.num start startLog family n blocks chain)
    (hpushed : n.forkDb.Pushed b item forkDb) : forkDb.head = some item ∧ item ∈ forkDb.index := by
  have hitemNum : item.num = b.blockNum := congrArg SignedBlock.blockNum hpushed.data
  have hhigher := h.higher
  rcases hpushed.head_eq with ⟨hnew, -⟩ | ⟨old, hold, hsame, hle⟩
  · exact ⟨hnew, (haligned.newHead_eq hpushed hnew (by omega)).2⟩
  · have holdNum := (haligned.head_num hold).2
    omega

theorem tracked (h : Candidate L known start pushes n b ancestor s)
    (htracks : Tracks L known start pushes n.committed.dgp.headBlockId n.forkDb)
    (haligned : Aligned L start.dgp.headBlockId.num start startLog family n blocks chain)
    (hpushed : n.forkDb.Pushed b item forkDb) :
    Tracks L known start (pushes ++ [b]) n.committed.dgp.headBlockId forkDb := by
  refine htracks.pushed h.mem ?_ hpushed
  intro hempty
  have hzero := haligned.valid.rooted hempty
  rw [← BlockId.num_eq_zero, h.previous_num htracks haligned,
    ← haligned.recorded.coherent.num_headBlockId, hzero]
  rfl

/-- The new branch can be fetched, down to a block not below the ancestor. -/
theorem fetched (h : Candidate L known start pushes n b ancestor s)
    (htracks : Tracks L known start pushes n.committed.dgp.headBlockId n.forkDb)
    (haligned : Aligned L start.dgp.headBlockId.num start startLog family n blocks chain)
    (htraced : Traced L known start n blocks') (hpushed : n.forkDb.Pushed b item forkDb)
    (haside : b.previous ≠ n.headBlockId) :
    ∃ first second, forkDb.fetchBranchFrom item.id n.headBlockId = .ok (first, second) ∧
      ∀ x ∈ second, ancestor.num < x.num := by
  have hcoherent := haligned.recorded.coherent
  have hlinked := haligned.valid.linked hpushed
  have htracked := h.tracked htracks haligned hpushed
  have hprevious := h.previous_num htracks haligned
  have hheadNum := hcoherent.num_headBlockId
  have habove : ancestor.num < n.headBlockNum := by
    rw [← hheadNum]
    refine lt_of_le_of_ne h.chain.num_le ?_
    intro heq
    have hchain := h.chain.eq_of_num_le heq.ge
    have hjoins : b.previous.Descends ancestor :=
      BlockId.Descends.of_hash (show (BlockId.hash b.previous b.header).Descends ancestor from h.joins)
        (by omega)
    exact haside ((hjoins.eq_of_num_le (by omega)).symm.trans hchain)
  obtain ⟨top, rest, hchain, hhead, htopId, htopNum⟩ := haligned.head_of_pos (by omega)
  have htop : top ∈ forkDb.index :=
    hpushed.mem_index.mpr (Or.inl (haligned.backed.indexed top (by rw [hchain]; simp)))
  have hreached := h.reached
  have hstart := htraced.reached.descends
  refine ForkDatabase.fetchBranchFrom_isOk hlinked.fork (h.pushed haligned hpushed).2 rfl htop htopId
    (by rw [hpushed.id_eq]; exact h.joins) h.chain (by rwa [hheadNum]) ?_ ?_
  · have hhigher := h.higher
    rw [hpushed.id_eq, SignedBlock.num_id, hheadNum]
    omega
  · intro x hx hbelow hlt
    have hne : x.id.previous ≠ .zero := by
      rw [ne_eq, ← BlockId.num_eq_zero, BlockId.num_previous, ForkItem.num_id]
      omega
    have hle := h.above.num_le
    rcases hbelow with hbelow | hbelow
    · rw [hpushed.id_eq, ← h.head] at hbelow
      refine htracked.link hlinked.fork h.reached ?_ hstart hx hbelow (by omega) hne
      rw [h.head]
      exact h.descends
    · exact htracked.link hlinked.fork htraced.state (h.chain.trans h.above) hstart hx hbelow
        (by omega) hne

/-- The fetched branch joins the chain at or above the committed block. -/
theorem joined (h : Candidate L known start pushes n b ancestor s)
    (htracks : Tracks L known start pushes n.committed.dgp.headBlockId n.forkDb)
    (haligned : Aligned L start.dgp.headBlockId.num start startLog family n blocks chain)
    (htraced : Traced L known start n blocks') (hpushed : n.forkDb.Pushed b item forkDb)
    (hbranches : ({ n with forkDb } : Node σ T).Branches item first second)
    (habove : ∀ x ∈ second, ancestor.num < x.num) :
    ({ n with forkDb } : Node σ T).Joined first second := by
  have hlinked := haligned.valid.linked hpushed
  have hpoint := branchPoint_num hlinked hbranches
  have hpos := hbranches.pos
  obtain ⟨x, hx⟩ : ∃ x, second[second.length - 1]? = some x :=
    ⟨_, List.getElem?_eq_getElem (by omega)⟩
  have hxNum := (hbranches.secondGet _ x hx).2
  have hxAbove := habove x (List.mem_of_getElem? hx)
  have hle := h.above.num_le
  have hcommitted : n.committedNum = n.committed.dgp.headBlockId.num :=
    haligned.recorded.coherent.sound.number
  have hlow : n.committedNum ≤ (({ n with forkDb } : Node σ T).branchPoint second).num := by
    omega
  refine ⟨hlow, ?_⟩
  intro last hlast hpositive
  have hprevious := hbranches.getLast_previous hlast
  have hmem := List.mem_of_getLast? hlast
  obtain ⟨i, hi⟩ := List.getElem?_of_mem hmem
  have hlastNum : last.num = (({ n with forkDb } : Node σ T).branchPoint second).num + 1 := by
    rw [← hprevious]
    rfl
  refine (h.tracked htracks haligned hpushed).link hlinked.fork h.reached ?_ htraced.reached.descends
    (hbranches.firstIndexed last hmem) ?_ (by omega) ?_
  · rw [h.head]
    exact h.descends
  · rw [h.head, ← hpushed.id_eq, (hbranches.firstGet i last hi).1]
    exact BlockId.descends_iterate _ _
  · change last.data.previous ≠ .zero
    rw [hprevious, ne_eq, ← BlockId.num_eq_zero]
    omega

/-- No block of the new branch throws. -/
theorem not_stopped (h : Candidate L known start pushes n b ancestor s)
    (htracks : Tracks L known start pushes n.committed.dgp.headBlockId n.forkDb)
    (haligned : Aligned L start.dgp.headBlockId.num start startLog family n blocks chain)
    (htraced : Traced L known start n blocks') (hunforged : Unforged known)
    (hpushed : n.forkDb.Pushed b item forkDb)
    (hbranches : ({ n with forkDb } : Node σ T).Branches item first second)
    (hjoined : ({ n with forkDb } : Node σ T).Joined first second) {last item' : ForkItem T}
    {before after : List (ForkItem T)} {stop : Node σ T} {message : String}
    (hstop : Stopped L (Insert.insert item family) { n with forkDb } item first second last before
      item' after stop message) : False := by
  obtain ⟨-, message', hthrows⟩ := haligned.stopped_backed hpushed hbranches hjoined hstop
  obtain ⟨-, -, -, rest, hfirst⟩ := haligned.switch_shape hpushed hbranches hjoined
  refine hstop.invalid hunforged (htraced.congr forkDb) (haligned.valid.linked hpushed) hbranches
    (h.tracked htracks haligned hpushed).data_mem hthrows (hstop.head_mem (by rw [hfirst]; rfl)) ?_
  exact ⟨s, h.reached, h.head.trans hpushed.id_eq.symm⟩

/-- Pushing the block returns, and makes it the chain head. -/
theorem adopted (h : Candidate L known start pushes n b ancestor s)
    (htracks : Tracks L known start pushes n.committed.dgp.headBlockId n.forkDb)
    (haligned : Aligned L start.dgp.headBlockId.num start startLog family n blocks chain)
    (htraced : Traced L known start n blocks') (hunforged : Unforged known) :
    ∃ switched, (n.pushBlock L b).2 = .ok switched ∧ (n.pushBlock L b).1.headBlockId = b.id := by
  have hresult := pushBlock_result haligned.valid b
  generalize n.pushBlock L b = result at hresult
  cases hresult with
  | rejected rejected =>
      obtain ⟨forkDb, haccepted⟩ := htracks.accepted haligned h.ordered ⟨s, h.reached, h.head⟩
        h.descends (h.ne_committed haligned.recorded.coherent)
      rw [rejected] at haccepted
      cases haccepted
  | @applied item newHead forkDb applied accepted pushed head child applies =>
      obtain ⟨written, happlied⟩ := applyInSession_spec applies
      exact ⟨false, rfl, applyBlock_headBlockId happlied.state⟩
  | @removed item newHead forkDb message accepted pushed head child throws =>
      exfalso
      obtain rfl : newHead = item := Option.some.inj (head.symm.trans (h.pushed haligned pushed).1)
      rw [pushed.data] at child
      have hne : s.dgp.headBlockId ≠ start.dgp.headBlockId := by
        intro heq
        have hle := htraced.state.descends.num_le
        have hhigher := h.higher
        have hnum := congrArg BlockId.num (h.head.symm.trans heq)
        have hheadNum : n.state.dgp.headBlockId.num = n.headBlockNum :=
          haligned.recorded.coherent.num_headBlockId
        rw [SignedBlock.num_id] at hnum
        omega
      obtain ⟨u, c, hu, hc, happly, hcId⟩ := h.reached.last hne
      obtain rfl : c = b := hunforged c hc b h.mem (hcId.trans h.head)
      have hsame : u = n.state :=
        hu.unique hunforged.binds htraced.state ((applyBlock_previous happly).trans child)
      rw [hsame] at happly
      obtain ⟨next, hnext, -⟩ := haligned.applied pushed head (by rw [pushed.data]; exact child) happly
      rw [throws] at hnext
      cases hnext
  | @kept item newHead forkDb accepted pushed head aside low =>
      exfalso
      obtain rfl : newHead = item := Option.some.inj (head.symm.trans (h.pushed haligned pushed).1)
      have hitemNum : newHead.num = b.blockNum := congrArg SignedBlock.blockNum pushed.data
      have hhigher := h.higher
      omega
  | @unlinked item newHead forkDb message accepted pushed head aside higher missing =>
      exfalso
      obtain rfl : newHead = item := Option.some.inj (head.symm.trans (h.pushed haligned pushed).1)
      obtain ⟨first, second, hfetched, -⟩ := h.fetched htracks haligned htraced pushed
        (by rwa [← pushed.data])
      rw [missing] at hfetched
      cases hfetched
  | @switching item newHead forkDb first second result accepted pushed switching ends =>
      obtain rfl : newHead = item :=
        Option.some.inj (switching.head.symm.trans (h.pushed haligned pushed).1)
      have hlinked := haligned.valid.linked pushed
      have hbranches := switching.branches hlinked
      obtain ⟨first', second', hfetched, habove⟩ := h.fetched htracks haligned htraced pushed
        (by rw [← pushed.data]; exact switching.aside)
      cases Except.ok.inj (switching.fetched.symm.trans hfetched)
      have hjoined := h.joined htracks haligned htraced pushed hbranches habove
      obtain ⟨hdepth, -, -, rest, hfirst⟩ := haligned.switch_shape pushed hbranches hjoined
      cases ends with
      | stuckBelow shallow =>
          change n.undoStack.length < second.length at shallow
          omega
      | @switched last switched depth last_mem popped applied =>
          have happlied := branchApplied (hbranches.popped hlinked depth last_mem).1 applied
          refine ⟨true, rfl, (happlied.headBlockId newHead ?_).trans pushed.id_eq⟩
          rw [List.getLast?_reverse, hfirst]
          rfl
      | stuckAbove stopped =>
          exact (h.not_stopped htracks haligned htraced hunforged pushed hbranches hjoined stopped).elim
      | restored stopped =>
          exact (h.not_stopped htracks haligned htraced hunforged pushed hbranches hjoined stopped).elim
      | broken stopped =>
          exact (h.not_stopped htracks haligned htraced hunforged pushed hbranches hjoined stopped).elim

end Candidate

end Adoption

section Run

variable {state : ChainState σ} {blockLog : List (SignedBlock T)}

theorem Opens.tracks (hopens : Opens state blockLog) {known : Set (SignedBlock T)}
    (hlog : ∀ c ∈ blockLog, c ∈ known) :
    Traced L known state (opened state blockLog) [] ∧
      Tracks L known state [] (opened state blockLog).committed.dgp.headBlockId
        (opened state blockLog).forkDb := by
  obtain ⟨family, hvalid⟩ := hopens.valid (L := L)
  have hindex := hopens.index_mem
  refine ⟨⟨hvalid.coherent, by simp, .start⟩, ?_, ?_, ?_⟩
  · intro x hx
    exact hlog _ (hindex x hx).1
  · intro x hx _
    rw [(hindex x hx).2]
    exact root_mem_pushedInOrder
  · intro id hid _ _ hne
    exact absurd (List.mem_singleton.mp hid) hne

theorem run_tracks (hopens : Opens state blockLog) {known : Set (SignedBlock T)}
    (hunforged : Unforged known) (hlog : ∀ c ∈ blockLog, c ∈ known) (pushes : List (SignedBlock T))
    (hpushes : ∀ c ∈ pushes, c ∈ known)
    (hsmooth : ∀ before b after, pushes = before ++ b :: after →
      (run L (opened state blockLog) before).Smooth L state.dgp.headBlockNumber b) :
    let n := run L (opened state blockLog) pushes
    (∃ blocks, Traced L known state n blocks) ∧
      Tracks L known state pushes n.committed.dgp.headBlockId n.forkDb := by
  induction pushes using List.reverseRecOn with
  | nil =>
      obtain ⟨htraced, htracks⟩ := hopens.tracks (L := L) hlog
      exact ⟨⟨[], htraced⟩, htracks⟩
  | append_singleton before b ih =>
      have hsmooth' : ∀ before' b' after', before = before' ++ b' :: after' →
          (run L (opened state blockLog) before').Smooth L state.dgp.headBlockNumber b' :=
        fun before' b' after' hsplit => hsmooth before' b' (after' ++ [b]) (by rw [hsplit]; simp)
      obtain ⟨⟨blocks, htraced⟩, htracks⟩ :=
        ih (fun c hc => hpushes c (List.mem_append_left _ hc)) hsmooth'
      obtain ⟨family, _, chain, haligned⟩ := run_aligned hopens before hsmooth'
      have hlast := hsmooth before b [] rfl
      rw [hopens.sound.number] at haligned hlast
      have hb : b ∈ known := hpushes b (by simp)
      have hvalid : (run L (opened state blockLog) before).Valid L family blocks :=
        ⟨htraced.coherent, haligned.valid.fork, haligned.valid.anchored, haligned.valid.rooted⟩
      have hstep : run L (opened state blockLog) (before ++ [b]) =
          ((run L (opened state blockLog) before).pushBlock L b).1 := by
        rw [run_append]
        rfl
      intro n
      change (∃ blocks, Traced L known state (run L (opened state blockLog) (before ++ [b])) blocks) ∧
        Tracks L known state (before ++ [b])
          (run L (opened state blockLog) (before ++ [b])).committed.dgp.headBlockId
          (run L (opened state blockLog) (before ++ [b])).forkDb
      rw [hstep]
      exact ⟨(pushBlock_result hvalid b).traced htraced hvalid htracks.data_mem hb,
        htracks.pushBlock haligned htraced hlast hb hunforged⟩

/-- After a run of smooth calls without forged blocks, a block that is higher than the
chain head, and that applies on top of pushed ancestors leading down to a state of
the undo history, each pushed after its parent, is adopted. -/
theorem run_adopts (hopens : Opens state blockLog) (pushes branch : List (SignedBlock T))
    (b : SignedBlock T) (count : Nat) (s : ChainState σ)
    (hsmooth : ∀ before c after, pushes = before ++ c :: after →
      (run L (opened state blockLog) before).Smooth L state.dgp.headBlockNumber c)
    (hunforged : Unforged (knownBlocks blockLog (pushes ++ [b])))
    (hbranch : ∀ a ∈ branch, a ∈ pushes)
    (hordered : b.previous ∈ pushedInOrder state.dgp.headBlockId pushes)
    (happlies : (undo^[count] (run L (opened state blockLog) pushes)).state.applyAll L
      (branch ++ [b]) = .ok s)
    (hhigher : (run L (opened state blockLog) pushes).headBlockNum < b.blockNum) :
    ∃ switched, ((run L (opened state blockLog) pushes).pushBlock L b).2 = .ok switched ∧
      ((run L (opened state blockLog) pushes).pushBlock L b).1.headBlockId = b.id := by
  obtain ⟨⟨blocks, htraced⟩, htracks⟩ := run_tracks hopens hunforged (fun c hc => Or.inl hc) pushes
    (fun c hc => Or.inr (List.mem_append_left _ hc)) hsmooth
  obtain ⟨family, _, chain, haligned⟩ := run_aligned hopens pushes hsmooth
  rw [hopens.sound.number] at haligned
  generalize run L (opened state blockLog) pushes = n at *
  -- Undoing more than the history holds stops at the committed state.
  obtain ⟨depth, hdepth, hundo⟩ : ∃ depth ≤ n.undoStack.length, undo^[count] n = undo^[depth] n := by
    by_cases hle : count ≤ n.undoStack.length
    · exact ⟨count, hle, rfl⟩
    · exact ⟨_, le_rfl, (htraced.coherent.undo_exhausted (by omega)).1⟩
  rw [hundo] at happlies
  obtain ⟨hbelow, hrewound⟩ := htraced.coherent.undo_iterate hdepth
  have hbelowReached : Reached L (knownBlocks blockLog (pushes ++ [b])) state (undo^[depth] n).state := by
    refine hbelow.history.reached (fun c hc => htraced.blocks c (List.mem_of_mem_drop hc)) ?_
    rw [hrewound.committed]
    exact htraced.reached
  have hknown : ∀ c ∈ branch ++ [b], c ∈ knownBlocks blockLog (pushes ++ [b]) := by
    intro c hc
    rcases List.mem_append.mp hc with hc | hc
    · exact Or.inr (List.mem_append_left _ (hbranch c hc))
    · exact Or.inr (List.mem_append_right _ hc)
  have hhead : s.dgp.headBlockId = b.id := by
    obtain ⟨t, -, hlast⟩ := forEach_append_eq_ok.mp happlies
    obtain ⟨s', hs', hnil⟩ := forEach_cons_eq_ok.mp hlast
    cases hnil
    exact applyBlock_headBlockId hs'
  have hjoins : s.dgp.headBlockId.Descends (undo^[depth] n).headBlockId :=
    (Reached.start.applyAll hknown happlies).descends
  have habove : (undo^[depth] n).headBlockId.Descends n.committed.dgp.headBlockId := by
    rw [← hrewound.committed]
    exact hbelow.history.descends
  have hchain : n.headBlockId.Descends (undo^[depth] n).headBlockId := by
    rw [hrewound.headBlockId]
    exact BlockId.descends_iterate _ _
  have hcandidate : Candidate L (knownBlocks blockLog (pushes ++ [b])) state pushes n b
      (undo^[depth] n).headBlockId s :=
    ⟨hknown b (by simp), hordered, hbelowReached.applyAll hknown happlies, hhead, hhead ▸ hjoins,
      hchain, habove, hhigher⟩
  exact hcandidate.adopted htracks haligned htraced hunforged

end Run

end Node

/-! ### A longer branch after a child of the head that throws -/

namespace Sample

open Node

def brokenThird : SignedBlock Bool := block second.id 3 "bob" false

def stalled : Node Unit Bool :=
  Node.run (logic ["alice", "bob"]) (Node.opened genesis []) [first, second, brokenThird, sideSecond]

/-- The removed block is the head of the fork database, so the first block of the branch
is taken for a child of the chain head, and thrown out. -/
theorem sideThird_not_adopted :
    (∃ s, genesis.applyAll (logic ["alice", "bob"]) [first, sideSecond, sideThirdByAlice] = .ok s) ∧
      stalled.state.dgp.lastIrreversibleBlockNum = first.blockNum ∧
      stalled.headBlockId = second.id ∧ stalled.headBlockNum < sideThirdByAlice.blockNum ∧
      (stalled.pushBlock (logic ["alice", "bob"]) sideThirdByAlice).2 =
        .error "block does not link to known chain" ∧
      (stalled.pushBlock (logic ["alice", "bob"]) sideThirdByAlice).1.headBlockId = second.id := by
  refine ⟨⟨_, rfl⟩, ?_, ?_, ?_, rfl, ?_⟩ <;> decide

/-- Without the throwing block the branch is adopted. -/
theorem sideThird_adopted :
    ∃ switched, ((Node.run (logic ["alice", "bob"]) (Node.opened genesis [])
        [first, second, sideSecond]).pushBlock (logic ["alice", "bob"]) sideThirdByAlice).2 =
          .ok switched ∧
      ((Node.run (logic ["alice", "bob"]) (Node.opened genesis [])
        [first, second, sideSecond]).pushBlock (logic ["alice", "bob"])
          sideThirdByAlice).1.headBlockId = sideThirdByAlice.id := by
  refine Node.run_adopts (L := logic ["alice", "bob"]) genesis_opens [first, second, sideSecond]
    [sideSecond] sideThirdByAlice 1 _ ?_ ?_ (by simp) (by decide) rfl (by decide)
  · intro before c after hsplit
    match before with
    | [] =>
        cases hsplit
        exact first_smooth
    | [_] =>
        cases hsplit
        exact second_smooth
    | [_, _] =>
        cases hsplit
        exact sideSecond_smooth
    | _ :: _ :: _ :: _ => simp at hsplit
  · intro b hb c hc hid
    simp only [knownBlocks, List.not_mem_nil, false_or, Set.mem_ofPred_eq, List.cons_append,
      List.nil_append, List.mem_cons, or_false] at hb hc
    rcases hb with rfl | rfl | rfl | rfl <;> rcases hc with rfl | rfl | rfl | rfl <;>
      first | rfl | exact absurd hid (by decide)

end Sample

end Blurt
