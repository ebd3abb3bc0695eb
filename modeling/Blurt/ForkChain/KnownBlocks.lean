import Blurt.ForkChain.Agreement

/-! # States reached from known blocks

The known blocks of a run are those of the opened log and those pushed. Every state
of the undo history, and every item of the index, comes from them. Where no two of
them share an id, the head id determines the state. The last irreversible block number is a
part of the state, and can fall in a fork switch.
-/

namespace Blurt

open Outcome

variable {σ T : Type} {L : LedgerLogic σ T}

namespace ChainState

/-- No two known blocks have one id and different transactions. -/
def Unforged (known : Set (SignedBlock T)) : Prop :=
  ∀ b ∈ known, ∀ c ∈ known, b.id = c.id → b = c

theorem Unforged.binds {known : Set (SignedBlock T)} (h : Unforged known) :
    MerkleBinds L known :=
  fun b hb c hc _ _ hid => h b hb c hc hid

namespace Reached

variable {known : Set (SignedBlock T)} {start s : ChainState σ}

/-- Above the starting state, a reached state has reached every block on its chain. -/
theorem ancestor (h : Reached L known start s) {id : BlockId} (hid : s.dgp.headBlockId.Descends id)
    (habove : start.dgp.headBlockId.num ≤ id.num) :
    ∃ t, Reached L known start t ∧ t.dgp.headBlockId = id := by
  induction h with
  | start => exact ⟨_, .start, (hid.eq_of_num_le habove).symm⟩
  | @step u t b hu hb happly ih =>
      rw [applyBlock_headBlockId happly] at hid
      rcases hid with heq | hbelow
      · exact ⟨t, .step hu hb happly, (applyBlock_headBlockId happly).trans heq.symm⟩
      · apply ih
        rwa [applyBlock_previous happly]

/-- The block at the head of a reached state applied to a reached state. -/
theorem last (h : Reached L known start s) (hne : s.dgp.headBlockId ≠ start.dgp.headBlockId) :
    ∃ u b, Reached L known start u ∧ b ∈ known ∧ u.applyBlock L b = .ok s ∧
      b.id = s.dgp.headBlockId := by
  cases h with
  | start => exact absurd rfl hne
  | @step u _ b hu hb happly => exact ⟨u, b, hu, hb, happly, (applyBlock_headBlockId happly).symm⟩

theorem applyAll {t : ChainState σ} {blocks : List (SignedBlock T)} (h : Reached L known start s)
    (hblocks : ∀ c ∈ blocks, c ∈ known) (happly : s.applyAll L blocks = .ok t) :
    Reached L known start t :=
  forEach_invariant (Reached L known start) (fun _ c _ hc hs hstep => hs.step (hblocks c hc) hstep) h
    happly

end Reached

end ChainState

namespace Node

open ChainState

/-- The undo history of a node, with its committed state, comes from known blocks. -/
structure Traced (L : LedgerLogic σ T) (known : Set (SignedBlock T)) (start : ChainState σ)
    (n : Node σ T) (blocks : List (SignedBlock T)) : Prop where
  coherent : n.Coherent L blocks
  blocks : ∀ c ∈ blocks, c ∈ known
  reached : Reached L known start n.committed

namespace Traced

variable {known : Set (SignedBlock T)} {start : ChainState σ} {n m : Node σ T}
  {blocks : List (SignedBlock T)}

theorem state (h : Traced L known start n blocks) : Reached L known start n.state :=
  h.coherent.history.reached h.blocks h.reached

theorem congr (h : Traced L known start n blocks) (forkDb : ForkDatabase T) :
    Traced L known start { n with forkDb } blocks :=
  ⟨h.coherent.congr forkDb, h.blocks, h.reached⟩

theorem rewind (h : Traced L known start n blocks) {count : Nat}
    (hcount : count ≤ n.undoStack.length) (last : ForkItem T) :
    Traced L known start (n.rewind count last) (blocks.drop count) := by
  obtain ⟨hcoherent, hcommitted, -⟩ := h.coherent.rewind hcount last
  refine ⟨hcoherent, fun c hc => h.blocks c (List.mem_of_mem_drop hc), ?_⟩
  rw [hcommitted]
  exact h.reached

theorem branch (h : Traced L known start n blocks) {items : List (ForkItem T)}
    (hitems : ∀ x ∈ items, x.data ∈ known) (happlied : BranchApplied L n blocks items m) :
    ∃ newer, Traced L known start m newer := by
  obtain ⟨newer, older, stack, hblocks, hcoherent, hhistory⟩ := happlied.coherent
  have hknown : ∀ c ∈ newer ++ older, c ∈ known := by
    rw [← hblocks]
    intro c hc
    rcases List.mem_append.mp hc with hc | hc
    · obtain ⟨x, hx, rfl⟩ := List.mem_map.mp (List.mem_reverse.mp hc)
      exact hitems x hx
    · exact h.blocks c hc
  refine ⟨newer, hcoherent, fun c hc => hknown c (List.mem_append_left _ hc), ?_⟩
  exact hhistory.reached (fun c hc => hknown c (List.mem_append_right _ hc)) h.reached

theorem applied (h : Traced L known start n blocks) {b : SignedBlock T}
    {written : List (SignedBlock T)} (hb : b ∈ known) (happlied : n.Applied L b written m) :
    ∃ newer, Traced L known start m newer := by
  obtain ⟨newer, older, stack, hblocks, hcoherent, hhistory, -⟩ := h.coherent.applied happlied
  have hknown : ∀ c ∈ newer ++ older, c ∈ known := by
    rw [← hblocks]
    exact List.forall_mem_cons.mpr ⟨hb, h.blocks⟩
  refine ⟨newer, hcoherent, fun c hc => hknown c (List.mem_append_left _ hc), ?_⟩
  exact hhistory.reached (fun c hc => hknown c (List.mem_append_right _ hc)) h.reached

end Traced

section Push

variable {known : Set (SignedBlock T)} {start : ChainState σ} {family : Set (ForkItem T)}
  {blocks : List (SignedBlock T)} {n : Node σ T} {newHead : ForkItem T}
  {first second : List (ForkItem T)} {b : SignedBlock T}

/-- What the new branch has reached where a failed switch stops comes from known blocks. -/
theorem Stopped.traced {last item : ForkItem T} {before after : List (ForkItem T)} {stop : Node σ T}
    {message : String} (htraced : Traced L known start n blocks) (hvalid : n.Valid L family blocks)
    (hbranches : n.Branches newHead first second) (hknown : ∀ x ∈ n.forkDb.index, x.data ∈ known)
    (h : Stopped L family n newHead first second last before item after stop message) :
    ∃ newer, Traced L known start stop newer :=
  (htraced.rewind h.depth last).branch
    (fun x hx => hknown x (hbranches.firstIndexed x (h.mem_first.mpr (Or.inl hx))))
    (h.branchApplied hvalid hbranches)

theorem SwitchResult.traced {result : Partial σ T Bool} (htraced : Traced L known start n blocks)
    (hvalid : n.Valid L family blocks) (hbranches : n.Branches newHead first second)
    (hknown : ∀ x ∈ n.forkDb.index, x.data ∈ known)
    (h : SwitchResult L family n newHead first second result) :
    ∃ newer, Traced L known start result.1 newer := by
  have hfirst : ∀ x ∈ first, x.data ∈ known := fun x hx => hknown x (hbranches.firstIndexed x hx)
  have hsecond : ∀ x ∈ second, x.data ∈ known := fun x hx => hknown x (hbranches.secondIndexed x hx)
  cases h with
  | @stuckBelow last message shallow last_mem last_num popped =>
      exact ⟨_, htraced.rewind le_rfl last⟩
  | @switched last switched depth last_mem popped applied =>
      have hpopped := htraced.rewind depth last
      exact hpopped.branch (fun x hx => hfirst x (List.mem_reverse.mp hx))
        (branchApplied hpopped.coherent applied)
  | @stuckAbove last last' item before after stop message message' stopped shallow last_mem last_num =>
      obtain ⟨newer, hstop⟩ := stopped.traced htraced hvalid hbranches hknown
      have hcleaned : Traced L known start (stop.cleaned item after) newer := hstop.congr _
      exact ⟨_, hcleaned.rewind le_rfl last'⟩
  | @restored last last' item before after stop restored message stopped depth last_mem applied =>
      obtain ⟨newer, hstop⟩ := stopped.traced htraced hvalid hbranches hknown
      have hcleaned : Traced L known start (stop.cleaned item after) newer := hstop.congr _
      have hrestart := hcleaned.rewind depth last'
      exact hrestart.branch (fun x hx => hsecond x (List.mem_reverse.mp hx))
        (branchApplied hrestart.coherent applied)
  | @broken last last' item before after failed stop broken message message' stopped depth last_mem
      applied =>
      obtain ⟨newer, hstop⟩ := stopped.traced htraced hvalid hbranches hknown
      have hcleaned : Traced L known start (stop.cleaned item after) newer := hstop.congr _
      have hrestart := hcleaned.rewind depth last'
      obtain ⟨before', item', after', stop', hsplit, -, hbefore, hitem⟩ := applyItems_some applied
      obtain ⟨rfl, -⟩ := applyItem_error.mp hitem
      obtain ⟨newer', hstop'⟩ := hrestart.branch
        (fun x hx => hsecond x (List.mem_reverse.mp (by
          rw [hsplit]
          exact List.mem_append_left _ hx)))
        (branchApplied hrestart.coherent hbefore)
      exact ⟨newer', hstop'.congr _⟩

/-- A fork switch adds no item to the index, and takes out only items below the
committed block and items of the new branch from its throwing block up. -/
theorem SwitchResult.index {result : Partial σ T Bool} (hvalid : n.Valid L family blocks)
    (hbranches : n.Branches newHead first second)
    (h : SwitchResult L family n newHead first second result) :
    (∀ x ∈ result.1.forkDb.index, x ∈ n.forkDb.index) ∧
      ∀ x ∈ n.forkDb.index, result.1.committedNum ≤ x.num → x ∈ result.1.forkDb.index ∨
        ∃ last before item after stop message,
          Stopped L family n newHead first second last before item after stop message ∧
            ∃ y ∈ item :: after, x.id = y.id := by
  have hstopped : ∀ {last item : ForkItem T} {before after : List (ForkItem T)} {stop : Node σ T}
      {message : String}, Stopped L family n newHead first second last before item after stop message →
      (∀ x ∈ (stop.cleaned item after).forkDb.index, x ∈ n.forkDb.index) ∧
        ∀ x ∈ n.forkDb.index, stop.state.dgp.lastIrreversibleBlockNum ≤ x.num + 1 →
          x ∈ (stop.cleaned item after).forkDb.index ∨ ∃ y ∈ item :: after, x.id = y.id := by
    intro last item before after stop message hstop
    have happlied := hstop.branchApplied hvalid hbranches
    have hindex := (foldl_remove (stop.forkDb.setHead item) (item :: after)).2.2.2
    constructor
    · intro x hx
      exact happlied.trimmed.subset ((hindex x).mp hx).1
    · intro x hx hnum
      by_cases hfailed : ∃ y ∈ item :: after, x.id = y.id
      · exact Or.inr hfailed
      · push Not at hfailed
        exact Or.inl ((hindex x).mpr ⟨happlied.kept x hx hnum, hfailed⟩)
  -- The committed number of the result is at least what was irreversible at any stop.
  have hbase : ∀ {m : Node σ T} {newer : List (SignedBlock T)}, m.Coherent L newer →
      m.state.dgp.lastIrreversibleBlockNum ≤ m.committedNum := fun hcoherent => hcoherent.irreversible
  cases h with
  | @stuckBelow last message shallow last_mem last_num popped =>
      exact ⟨fun x hx => hx, fun x hx _ => Or.inl hx⟩
  | @switched last switched depth last_mem popped applied =>
      have happlied := branchApplied (hbranches.popped hvalid depth last_mem).1 applied
      obtain ⟨newer, -, -, -, hcoherent, -⟩ := happlied.coherent
      refine ⟨fun x hx => happlied.trimmed.subset hx, ?_⟩
      intro x hx hnum
      have hirreversible := hbase hcoherent
      change switched.committedNum ≤ x.num at hnum
      exact Or.inl (happlied.kept x hx (by omega))
  | @stuckAbove last last' item before after stop message message' stopped shallow last_mem last_num =>
      obtain ⟨hsub, hkept⟩ := hstopped stopped
      obtain ⟨newer, -, -, -, hcoherent, -⟩ := (stopped.branchApplied hvalid hbranches).coherent
      have hcommitted := ((hcoherent.congr (stop.cleaned item after).forkDb).rewind le_rfl last').2.1
      refine ⟨hsub, ?_⟩
      intro x hx hnum
      have hirreversible := hbase hcoherent
      change (Node.rewind (stop.cleaned item after) stop.undoStack.length last').committedNum ≤ _ at hnum
      have hsame : (Node.rewind (stop.cleaned item after) stop.undoStack.length last').committedNum =
          stop.committedNum := congrArg (fun s => s.dgp.headBlockNumber) hcommitted
      rcases hkept x hx (by omega) with hin | hfailed
      · exact Or.inl hin
      · exact Or.inr ⟨last, before, item, after, stop, message, stopped, hfailed⟩
  | @restored last last' item before after stop restored message stopped depth last_mem applied =>
      obtain ⟨hsub, hkept⟩ := hstopped stopped
      obtain ⟨_, hrestart, -, -, -, -, hcommitted, -⟩ :=
        stopped.restart hvalid hbranches depth last_mem
      obtain ⟨newer, -, -, -, hcoherent, -⟩ := (stopped.branchApplied hvalid hbranches).coherent
      have happlied := branchApplied hrestart applied
      obtain ⟨newer', -, -, -, hcoherent', -⟩ := happlied.coherent
      refine ⟨fun x hx => hsub x (happlied.trimmed.subset hx), ?_⟩
      intro x hx hnum
      have hirreversible := hbase hcoherent
      have hirreversible' := hbase hcoherent'
      have hraised := happlied.committedNum
      have hsame : ((stop.cleaned item after).rewind before.length last').committedNum =
          stop.committedNum := congrArg (fun s => s.dgp.headBlockNumber) hcommitted
      change restored.committedNum ≤ x.num at hnum
      rcases hkept x hx (by omega) with hin | hfailed
      · exact Or.inl (happlied.kept x hin (by omega))
      · exact Or.inr ⟨last, before, item, after, stop, message, stopped, hfailed⟩
  | @broken last last' item before after failed stop broken message message' stopped depth last_mem
      applied =>
      obtain ⟨hsub, hkept⟩ := hstopped stopped
      obtain ⟨_, hrestart, -, -, -, -, hcommitted, -⟩ :=
        stopped.restart hvalid hbranches depth last_mem
      obtain ⟨newer, -, -, -, hcoherent, -⟩ := (stopped.branchApplied hvalid hbranches).coherent
      obtain ⟨before', item', after', stop', -, -, hbefore, hitem⟩ := applyItems_some applied
      obtain ⟨rfl, -⟩ := applyItem_error.mp hitem
      have happlied := branchApplied hrestart hbefore
      obtain ⟨newer', -, -, -, hcoherent', -⟩ := happlied.coherent
      refine ⟨fun x hx => hsub x (happlied.trimmed.subset hx), ?_⟩
      intro x hx hnum
      have hirreversible := hbase hcoherent
      have hirreversible' := hbase hcoherent'
      have hraised := happlied.committedNum
      have hsame : ((stop.cleaned item after).rewind before.length last').committedNum =
          stop.committedNum := congrArg (fun s => s.dgp.headBlockNumber) hcommitted
      change stop'.committedNum ≤ x.num at hnum
      rcases hkept x hx (by omega) with hin | hfailed
      · exact Or.inl (happlied.kept x hin (by omega))
      · exact Or.inr ⟨last, before, item, after, stop, message, stopped, hfailed⟩

theorem PushResult.traced {result : Partial σ T Bool} (htraced : Traced L known start n blocks)
    (hvalid : n.Valid L family blocks) (hknown : ∀ x ∈ n.forkDb.index, x.data ∈ known)
    (hb : b ∈ known) (h : PushResult L family n b result) :
    ∃ newer, Traced L known start result.1 newer := by
  cases h with
  | rejected => exact ⟨blocks, htraced⟩
  | @applied item newHead forkDb applied accepted pushed head child applies =>
      obtain ⟨written, happlied⟩ := applyInSession_spec applies
      exact (htraced.congr forkDb).applied hb happlied
  | removed => exact ⟨blocks, htraced.congr _⟩
  | kept => exact ⟨blocks, htraced.congr _⟩
  | unlinked => exact ⟨blocks, htraced.congr _⟩
  | @switching item newHead forkDb first second result accepted pushed switching ends =>
      have hlinked := hvalid.linked pushed
      refine ends.traced (htraced.congr forkDb) hlinked (switching.branches hlinked) ?_
      intro x hx
      rcases pushed.mem_index.mp hx with hold | ⟨rfl, -⟩
      · exact hknown x hold
      · rw [pushed.data]
        exact hb

theorem PushResult.index_known {result : Partial σ T Bool} (hvalid : n.Valid L family blocks)
    (hknown : ∀ x ∈ n.forkDb.index, x.data ∈ known) (hb : b ∈ known)
    (h : PushResult L family n b result) : ∀ x ∈ result.1.forkDb.index, x.data ∈ known := by
  have hlinked : ∀ {item : ForkItem T} {forkDb : ForkDatabase T}, n.forkDb.Pushed b item forkDb →
      ∀ x ∈ forkDb.index, x.data ∈ known := by
    intro item forkDb hpushed x hx
    rcases hpushed.mem_index.mp hx with hold | ⟨rfl, -⟩
    · exact hknown x hold
    · rw [hpushed.data]
      exact hb
  cases h with
  | rejected => exact hknown
  | @applied item newHead forkDb applied accepted pushed head child applies =>
      obtain ⟨written, happlied⟩ := applyInSession_spec applies
      intro x hx
      rw [happlied.forkDb] at hx
      exact hlinked pushed x ((ForkDatabase.setMaxSize_sublist _ _).subset hx)
  | removed _ pushed => exact fun x hx => hlinked pushed x (ForkDatabase.mem_remove.mp hx).1
  | kept _ pushed => exact hlinked pushed
  | unlinked _ pushed => exact hlinked pushed
  | switching _ pushed switching ends =>
      have hvalid := hvalid.linked pushed
      exact fun x hx => hlinked pushed x ((ends.index hvalid (switching.branches hvalid)).1 x hx)

end Push

section Run

variable {state : ChainState σ} {blockLog : List (SignedBlock T)}

/-- The blocks of the opened log and the pushed ones. -/
def knownBlocks (blockLog pushes : List (SignedBlock T)) : Set (SignedBlock T) :=
  {c | c ∈ blockLog ∨ c ∈ pushes}

/-- A node that has just been opened knows the blocks of its log. -/
theorem Opens.index_mem (hopens : Opens state blockLog) :
    ∀ x ∈ (opened state blockLog).forkDb.index,
      x.data ∈ blockLog ∧ x.id = state.dgp.headBlockId := by
  intro x hx
  cases hlast : blockLog.getLast? with
  | none => simp [opened, hlast] at hx
  | some last =>
      have hmem : x = { ref := 0, data := last } := by
        simpa [opened, hlast, ForkDatabase.startBlock, ForkDatabase.insert, ForkDatabase.find] using hx
      subst hmem
      exact ⟨List.mem_of_getLast? hlast, hopens.head last hlast⟩

/-- Every run stays within its known blocks. -/
theorem run_traced (hopens : Opens state blockLog) {known : Set (SignedBlock T)}
    (hlog : ∀ c ∈ blockLog, c ∈ known) (pushes : List (SignedBlock T))
    (hpushes : ∀ c ∈ pushes, c ∈ known) :
    let n := run L (opened state blockLog) pushes
    ∃ family blocks, n.Valid L family blocks ∧ Traced L known state n blocks ∧
      ∀ x ∈ n.forkDb.index, x.data ∈ known := by
  induction pushes using List.reverseRecOn with
  | nil =>
      obtain ⟨family, hvalid⟩ := hopens.valid (L := L)
      refine ⟨family, [], hvalid, ⟨hvalid.coherent, by simp, .start⟩, fun x hx => ?_⟩
      exact hlog _ (hopens.index_mem x hx).1
  | append_singleton before b ih =>
      obtain ⟨family, blocks, hvalid, htraced, hindex⟩ :=
        ih fun c hc => hpushes c (List.mem_append_left _ hc)
      have hb : b ∈ known := hpushes b (by simp)
      have hpush := pushBlock_result hvalid b
      obtain ⟨family', _, hnext⟩ := hpush.valid hvalid
      obtain ⟨newer, hnewer⟩ := hpush.traced htraced hvalid hindex hb
      intro n
      have hstep : n = ((run L (opened state blockLog) before).pushBlock L b).1 := by
        change run L (opened state blockLog) (before ++ [b]) = _
        rw [run_append]
        rfl
      rw [hstep]
      exact ⟨family', newer, ⟨hnewer.coherent, hnext.fork, hnext.anchored, hnext.rooted⟩, hnewer,
        hpush.index_known hvalid hindex hb⟩

/-- In every run the last irreversible block number is at most the head number. The number of
the committed block never falls, and is never below it. Where the merkle roots of the known
blocks bind their transactions, it is at least the number of every state on the chain of the
head, so it only falls where the node leaves a chain, and not below its value at the branch
point. -/
theorem run_irreversible (hopens : Opens state blockLog) (pushes more : List (SignedBlock T)) :
    let earlier := run L (opened state blockLog) pushes
    let later := run L (opened state blockLog) (pushes ++ more)
    later.state.dgp.lastIrreversibleBlockNum ≤ later.headBlockNum ∧
      earlier.committedNum ≤ later.committedNum ∧
      later.state.dgp.lastIrreversibleBlockNum ≤ later.committedNum ∧
      ∀ known, knownBlocks blockLog (pushes ++ more) ⊆ known → MerkleBinds L known →
        (∀ s, Reached L known state s → later.headBlockId.Descends s.dgp.headBlockId →
          s.dgp.lastIrreversibleBlockNum ≤ later.state.dgp.lastIrreversibleBlockNum) ∧
        (later.headBlockId.Descends earlier.headBlockId →
          earlier.state.dgp.lastIrreversibleBlockNum ≤ later.state.dgp.lastIrreversibleBlockNum) := by
  intro earlier later
  obtain ⟨_, hopened⟩ := hopens.valid (L := L)
  obtain ⟨_, _, hearlier⟩ := run_valid hopened pushes
  obtain ⟨_, _, hlater⟩ := run_valid hopened (pushes ++ more)
  have hadvances : Advances L earlier later := by
    change Advances L (run L (opened state blockLog) pushes)
      (run L (opened state blockLog) (pushes ++ more))
    rw [run_append]
    exact run_advances hearlier more
  refine ⟨hlater.coherent.state_sound.irreversible, ?_, hlater.coherent.irreversible, ?_⟩
  · obtain ⟨_, _, hhistory⟩ := hadvances
    have hnum := hhistory.headBlockNumber hearlier.coherent.sound
    change earlier.committed.dgp.headBlockNumber ≤ later.committed.dgp.headBlockNumber
    omega
  · intro known hknown hbinds
    have hlog : ∀ c ∈ blockLog, c ∈ known := fun c hc => hknown (.inl hc)
    have hpushes : ∀ c ∈ pushes ++ more, c ∈ known := fun c hc => hknown (.inr hc)
    obtain ⟨_, _, -, htraced, -⟩ := run_traced (L := L) hopens hlog (pushes ++ more) hpushes
    obtain ⟨_, _, -, hbefore, -⟩ := run_traced (L := L) hopens hlog pushes
      fun c hc => hpushes c (List.mem_append_left _ hc)
    exact ⟨fun s hs => hs.irreversible_le hbinds htraced.state,
      hbefore.state.irreversible_le hbinds htraced.state⟩

end Run

end Node

/-! ### A fork switch above the committed block -/

namespace Sample

theorem logic_binds (witnesses : List AccountName) : ChainState.MerkleBinds (logic witnesses) Set.univ := by
  intro b _ c _ hb hc hid
  have hroot : ∀ a : SignedBlock Bool, ChainState.checkMerkle (logic witnesses) a = .ok () →
      a.header.transactionMerkleRoot = merkleRoot a.transactions := by
    intro a ha
    have hcheck := Outcome.ensure_eq_ok.mp ha
    simpa [logic] using hcheck
  obtain ⟨previous, header, valid⟩ := b
  obtain ⟨previous', header', valid'⟩ := c
  simp only [SignedBlock.id, BlockId.hash.injEq] at hid
  obtain ⟨rfl, rfl⟩ := hid
  have hsame : merkleRoot valid = merkleRoot valid' := by
    rw [← hroot ⟨previous, header, valid⟩ hb]
    exact hroot ⟨previous, header, valid'⟩ hc
  cases valid <;> cases valid' <;> first | rfl | exact absurd hsame (by decide)

/-- Blocks by both witnesses make the fourth block irreversible. -/
def fourth : SignedBlock Bool := block third.id 4 "alice"
def fifth : SignedBlock Bool := block fourth.id 5 "bob"

/-- A longer fork that one witness makes alone. -/
def lateFifth : SignedBlock Bool := block fourth.id 6 "alice"
def lateSixth : SignedBlock Bool := block lateFifth.id 8 "alice"

def afterFourth : Node Unit Bool :=
  Node.run (logic ["alice", "bob"]) (Node.opened genesis []) [first, second, third, fourth]

def afterFifth : Node Unit Bool :=
  Node.run (logic ["alice", "bob"]) (Node.opened genesis []) [first, second, third, fourth, fifth]

def afterSwitch : Node Unit Bool :=
  Node.run (logic ["alice", "bob"]) (Node.opened genesis [])
    ([first, second, third, fourth, fifth] ++ [lateFifth, lateSixth])

/-- The longer fork branches off at the committed block, and the last irreversible
block number falls from four to three. -/
theorem switch_lowers_irreversible :
    afterFifth.committedNum = 4 ∧ afterFifth.state.dgp.lastIrreversibleBlockNum = 4 ∧
      afterSwitch.headBlockId = lateSixth.id ∧
      afterSwitch.state.dgp.lastIrreversibleBlockNum = 3 := by
  refine ⟨?_, ?_, ?_, ?_⟩ <;> decide

/-- At the branch point the number was three already, and the committed number stays four. -/
theorem switch_keeps_committed :
    afterSwitch.state.dgp.lastIrreversibleBlockNum ≤ afterSwitch.headBlockNum ∧
      afterFifth.committedNum ≤ afterSwitch.committedNum ∧
      afterFourth.state.dgp.lastIrreversibleBlockNum = 3 ∧
      afterFourth.state.dgp.lastIrreversibleBlockNum ≤
        afterSwitch.state.dgp.lastIrreversibleBlockNum := by
  obtain ⟨hhead, hcommitted, -⟩ := Node.run_irreversible (L := logic ["alice", "bob"])
    genesis_opens [first, second, third, fourth, fifth] [lateFifth, lateSixth]
  obtain ⟨-, -, -, hknown⟩ := Node.run_irreversible (L := logic ["alice", "bob"])
    genesis_opens [first, second, third, fourth] [fifth, lateFifth, lateSixth]
  obtain ⟨-, hbranch⟩ := hknown Set.univ (Set.subset_univ _) (logic_binds ["alice", "bob"])
  have hlater : afterSwitch.headBlockId = lateSixth.id := by decide
  have hearlier : afterFourth.headBlockId = fourth.id := by decide
  have hdescends : afterSwitch.headBlockId.Descends afterFourth.headBlockId := by
    rw [hlater, hearlier]
    exact .inr (.inr (.refl _))
  exact ⟨hhead, hcommitted, by decide, hbranch hdescends⟩

end Sample

end Blurt
