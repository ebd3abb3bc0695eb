import Blurt.ForkChain.PendingLaws

/-! # The pending state is the head state with the pending transactions

Between two calls the object database is that of the node without its pending session,
with the pending transactions applied in their order. A call of `push_block` accounts for
every transaction that was pending or in a popped block.
-/

namespace Blurt

open Outcome Guarded

variable {σ O : Type}

/-- The node in an open pending session, with `ledger` in place of that of the head. -/
def Node.pendingOn (head : GuardedNode σ O) (ledger : Guarded σ O) : GuardedNode σ O :=
  { head.startUndoSession with state := { head.state with ledger } }

namespace Pool

variable {head : GuardedNode σ O} {p q : Pool σ O} {trx : BlockTransaction O}

/-- The node is `head`, in a pending session or not. -/
structure OnHead (head : GuardedNode σ O) (p : Pool σ O) : Prop where
  opened : p.pendingSession = true → p.node = head.pendingOn p.node.state.ledger
  closed : p.pendingSession = false → p.node = head

namespace OnHead

theorem state (h : p.OnHead head) :
    p.node.state = { head.state with ledger := p.node.state.ledger } := by
  cases hsession : p.pendingSession with
  | true =>
      rw [h.opened hsession]
      rfl
  | false => rw [h.closed hsession]

theorem clearPending (h : p.OnHead head) :
    p.clearPending = { node := head, poppedTx := p.poppedTx } := by
  cases hsession : p.pendingSession with
  | true =>
      have hnode := h.opened hsession
      simp only [Pool.clearPending, resetSession, hsession, if_true]
      rw [hnode]
      simp [Node.pendingOn, Node.startUndoSession, Node.undo]
  | false =>
      simp only [Pool.clearPending, resetSession, hsession, Bool.false_eq_true, if_false]
      rw [h.closed hsession]

/-- What `_push_transaction` starts from: the pending session is open. -/
theorem openSession (h : p.OnHead head) :
    (if p.pendingSession then p
      else { p with node := p.node.startUndoSession, pendingSession := true }) =
      { p with node := head.pendingOn p.node.state.ledger, pendingSession := true } := by
  cases hsession : p.pendingSession with
  | true =>
      have hnode := h.opened hsession
      obtain ⟨node, pendingTx, poppedTx, session⟩ := p
      cases hsession
      simp only [if_true]
      exact congrArg (fun n => Pool.mk n pendingTx poppedTx true) hnode
  | false =>
      rw [if_neg Bool.false_ne_true, h.closed hsession]
      rfl

variable [DecidableEq O] {B : BlockLogic σ O}

/-- A transaction that applies is pending, in an open session. -/
theorem pushTransaction_ok (h : p.OnHead head) {ledger : Guarded σ O}
    (happly : applyTransaction B head.state.dgp p.node.state.ledger trx = .ok ledger) :
    p._pushTransaction B trx =
      ({ p with
          node := head.pendingOn ledger
          pendingTx := p.pendingTx ++ [trx]
          pendingSession := true }, .ok ()) := by
  unfold _pushTransaction
  rw [h.openSession]
  simp only [Node.pendingOn, Node.startUndoSession, Node.squash, happly, Nat.add_sub_cancel]

/-- A transaction that throws leaves an open session behind. -/
theorem pushTransaction_error (h : p.OnHead head) {message : String}
    (happly : applyTransaction B head.state.dgp p.node.state.ledger trx = .error message) :
    p._pushTransaction B trx =
      ({ p with
          node := head.pendingOn p.node.state.ledger
          pendingSession := true }, .error message) := by
  unfold _pushTransaction
  rw [h.openSession]
  simp only [Node.pendingOn, Node.startUndoSession, Node.undo, happly, Nat.add_sub_cancel]

omit [DecidableEq O] in
theorem pendingOn (ledger : Guarded σ O) (pendingTx poppedTx : List (BlockTransaction O)) :
    (Pool.mk (head.pendingOn ledger) pendingTx poppedTx true).OnHead head where
  opened _ := rfl
  closed hclosed := by cases hclosed

end OnHead

variable [DecidableEq O]

/-- What the loops of the restorer keep: the pending transactions, in their order, lead
from the head to the object database. -/
structure Restored (P : PoolLogic σ O) (head : GuardedNode σ O) (p : Pool σ O) : Prop where
  onHead : p.OnHead head
  applied : forEach (applyTransaction P.toBlockLogic head.state.dgp) head.state.ledger p.pendingTx =
    .ok p.node.state.ledger

/-- Applying `trx` after the first of the pending transactions throws. -/
def Failed (P : PoolLogic σ O) (head : GuardedNode σ O) (p : Pool σ O)
    (trx : BlockTransaction O) : Prop :=
  ∃ before db message, before <+: p.pendingTx ∧
    forEach (applyTransaction P.toBlockLogic head.state.dgp) head.state.ledger before = .ok db ∧
    applyTransaction P.toBlockLogic head.state.dgp db trx = .error message

/-- A transaction is pending, in the chain, or has failed to apply. -/
def Accounted (P : PoolLogic σ O) (head : GuardedNode σ O) (chain : List (BlockTransaction O))
    (p : Pool σ O) (trx : BlockTransaction O) : Prop :=
  trx.id ∈ p.pendingTx.map BlockTransaction.id ∨ trx.id ∈ chain.map BlockTransaction.id ∨
    Failed P head p trx

variable {P : PoolLogic σ O} {chain : List (BlockTransaction O)}

theorem Accounted.mono (h : Accounted P head chain p trx) (hextends : p.pendingTx <+: q.pendingTx) :
    Accounted P head chain q trx := by
  rcases h with hpending | hchain | ⟨before, db, message, hbefore, hdb, hfails⟩
  · exact .inl (List.map_subset _ hextends.subset hpending)
  · exact .inr (.inl hchain)
  · exact .inr (.inr ⟨before, db, message, hbefore.trans hextends, hdb, hfails⟩)

/-- A retried transaction is accounted for, and those before it stay pending. -/
theorem Restored.retry (h : Restored P head p) (hchain : Indexed chain head.state.ledger)
    (trx : BlockTransaction O) :
    Restored P head (p.retry P trx) ∧ p.pendingTx <+: (p.retry P trx).pendingTx ∧
      (p.retry P trx).poppedTx = p.poppedTx ∧ Accounted P head chain (p.retry P trx) trx := by
  unfold Pool.retry
  split
  · rename_i hknown
    refine ⟨h, List.prefix_rfl, rfl, ?_⟩
    have hmem := hchain.applyTransactions h.applied trx.id hknown
    rw [List.map_append, List.mem_append] at hmem
    rcases hmem with hold | hpending
    · exact .inr (.inl hold)
    · exact .inl hpending
  · cases happly : applyTransaction P.toBlockLogic head.state.dgp p.node.state.ledger trx with
    | ok ledger =>
        rw [h.onHead.pushTransaction_ok happly]
        refine ⟨⟨.pendingOn _ _ _, ?_⟩, List.prefix_append _ _, rfl, .inl (by simp)⟩
        exact forEach_append_eq_ok.mpr
          ⟨_, h.applied, forEach_cons_eq_ok.mpr ⟨ledger, happly, rfl⟩⟩
    | error message =>
        rw [h.onHead.pushTransaction_error happly]
        exact ⟨⟨.pendingOn _ _ _, h.applied⟩, List.prefix_rfl, rfl,
          .inr (.inr ⟨_, _, message, List.prefix_rfl, h.applied, happly⟩)⟩

theorem Restored.foldl_retry (h : Restored P head p) (hchain : Indexed chain head.state.ledger)
    (trxs : List (BlockTransaction O)) :
    Restored P head (trxs.foldl (Pool.retry P) p) ∧
      p.pendingTx <+: (trxs.foldl (Pool.retry P) p).pendingTx ∧
      (trxs.foldl (Pool.retry P) p).poppedTx = p.poppedTx ∧
      ∀ trx ∈ trxs, Accounted P head chain (trxs.foldl (Pool.retry P) p) trx := by
  induction trxs generalizing p with
  | nil => exact ⟨h, List.prefix_rfl, rfl, by simp⟩
  | cons trx rest ih =>
      obtain ⟨hnext, hextends, hpopped, haccounted⟩ := h.retry hchain trx
      obtain ⟨hlast, hlater, hpopped', hrest⟩ := ih hnext
      rw [List.foldl_cons]
      refine ⟨hlast, hextends.trans hlater, hpopped'.trans hpopped, ?_⟩
      intro other hother
      rcases List.mem_cons.mp hother with rfl | hother
      · exact haccounted.mono hlater
      · exact hrest other hother

/-- The restorer accounts for the popped transactions and for those that were pending. -/
theorem restorePending_spec (hhead : p.node = head) (hclosed : p.pendingSession = false)
    (hnone : p.pendingTx = []) (hchain : Indexed chain head.state.ledger)
    (pendingTransactions : List (BlockTransaction O)) :
    Restored P head (p.restorePending P pendingTransactions) ∧
      (p.restorePending P pendingTransactions).poppedTx = [] ∧
      ∀ trx ∈ p.poppedTx ++ pendingTransactions,
        Accounted P head chain (p.restorePending P pendingTransactions) trx := by
  have hstart : Restored P head p := by
    refine ⟨⟨fun hopen => ?_, fun _ => hhead⟩, ?_⟩
    · rw [hclosed] at hopen
      cases hopen
    · rw [hnone, hhead]
      rfl
  obtain ⟨hpopped, -, -, haccounted⟩ := hstart.foldl_retry hchain p.poppedTx
  have hcleared : Restored P head { p.poppedTx.foldl (Pool.retry P) p with poppedTx := [] } :=
    ⟨⟨hpopped.onHead.opened, hpopped.onHead.closed⟩, hpopped.applied⟩
  obtain ⟨hlast, hextends, hempty, hpending⟩ := hcleared.foldl_retry hchain pendingTransactions
  refine ⟨hlast, hempty, ?_⟩
  intro trx htrx
  rcases List.mem_append.mp htrx with hold | hnew
  · exact (haccounted trx hold).mono hextends
  · exact hpending trx hnew

/-! ## Runs -/

/-- What holds between two calls. The restorer has applied the pending transactions up to
the last block, `push_transaction` the later ones. -/
structure Standing (P : PoolLogic σ O) (head : GuardedNode σ O) (p : Pool σ O) : Prop where
  onHead : p.OnHead head
  popped : p.poppedTx = []
  applied : ∃ restored pushed db, p.pendingTx = restored ++ pushed ∧
    forEach (applyTransaction P.toBlockLogic head.state.dgp) head.state.ledger restored = .ok db ∧
    forEach (applyTransaction P.pending head.state.dgp) db pushed = .ok p.node.state.ledger

namespace Standing

theorem pushTransaction (h : Standing P head p) (trx : BlockTransaction O) :
    Standing P head (p.pushTransaction P trx).1 := by
  unfold Pool.pushTransaction
  split
  · cases happly : applyTransaction P.pending head.state.dgp p.node.state.ledger trx with
    | ok ledger =>
        rw [h.onHead.pushTransaction_ok happly]
        obtain ⟨restored, pushed, db, hsplit, hrestored, hpushed⟩ := h.applied
        refine ⟨.pendingOn _ _ _, h.popped, restored, pushed ++ [trx], db, ?_, hrestored, ?_⟩
        · rw [hsplit, List.append_assoc]
        · exact forEach_append_eq_ok.mpr ⟨_, hpushed, forEach_cons_eq_ok.mpr ⟨ledger, happly, rfl⟩⟩
    | error message =>
        rw [h.onHead.pushTransaction_error happly]
        exact ⟨.pendingOn _ _ _, h.popped, h.applied⟩
  · exact h

/-- What the callback of `push_block` leaves to the restorer. -/
theorem callback (h : Standing P head p) (b : SignedBlock (List (BlockTransaction O))) :
    Follows { node := head } (p.clearPending._pushBlock P b)
      (head.pushBlock (logic P.toBlockLogic) b) := by
  rw [h.onHead.clearPending, h.popped]
  exact _pushBlock_follows (p := { node := head }) b rfl

theorem pushBlock (h : Standing P head p) (b : SignedBlock (List (BlockTransaction O)))
    (hchain : Indexed chain (head.pushBlock (logic P.toBlockLogic) b).1.state.ledger) :
    Standing P (head.pushBlock (logic P.toBlockLogic) b).1 (p.pushBlock P b).1 ∧
      ∀ trx ∈ (p.clearPending._pushBlock P b).1.poppedTx ++ p.pendingTx,
        Accounted P (head.pushBlock (logic P.toBlockLogic) b).1 chain (p.pushBlock P b).1 trx := by
  have hfollows := h.callback b
  obtain ⟨hrestored, hpopped, haccounted⟩ :=
    restorePending_spec hfollows.node hfollows.session hfollows.pendingTx hchain p.pendingTx
  refine ⟨⟨hrestored.onHead, hpopped, _, [], _, ?_, hrestored.applied, rfl⟩, haccounted⟩
  rw [List.append_nil]
  rfl

end Standing

theorem run_append (P : PoolLogic σ O) (p : Pool σ O) (first second : List (Call O)) :
    p.run P (first ++ second) = (p.run P first).run P second := by
  simp [run]

theorem standing_run (node : GuardedNode σ O)
    (hindexed : ∀ blocks, ∃ chain, Indexed chain
      (Node.run (logic P.toBlockLogic) node blocks).state.ledger) (calls : List (Call O)) :
    Standing P (Node.run (logic P.toBlockLogic) node (blocksOf calls))
      (Pool.run P { node } calls) := by
  induction calls using List.reverseRecOn with
  | nil =>
      have honHead : (Pool.run P { node } []).OnHead node :=
        ⟨(fun hopen => by cases hopen), fun _ => rfl⟩
      exact ⟨honHead, rfl, [], [], _, rfl, rfl, rfl⟩
  | append_singleton calls last ih =>
      rw [run_append]
      cases last with
      | transaction trx =>
          have hblocks : blocksOf (calls ++ [Call.transaction trx]) = blocksOf calls := by
            simp [blocksOf]
          rw [hblocks]
          exact ih.pushTransaction trx
      | block b =>
          have hblocks : blocksOf (calls ++ [Call.block b]) = blocksOf calls ++ [b] := by
            simp [blocksOf]
          obtain ⟨chain, hchain⟩ := hindexed (blocksOf calls ++ [b])
          have hrun : Node.run (logic P.toBlockLogic) node (blocksOf calls ++ [b]) =
              ((Node.run (logic P.toBlockLogic) node (blocksOf calls)).pushBlock
                (logic P.toBlockLogic) b).1 := by
            simp [Node.run]
          rw [hblocks, hrun]
          rw [hrun] at hchain
          exact (ih.pushBlock b hchain).1

/-- The head of every run, over any forks, is at the end of a chain without replays, whose
ids are the ones in the index. -/
theorem run_chain {genesisTime : Nat} {production : AccountName → WitnessProduction} {rest : σ}
    {start log : List (SignedBlock (List (BlockTransaction O)))} {state : ChainState (Guarded σ O)}
    (hstart : (ChainState.atGenesis genesisTime production { rest }).applyAll
      (logic P.toBlockLogic) start = .ok state)
    (hopens : Node.Opens state log)
    (blocks : List (SignedBlock (List (BlockTransaction O)))) :
    let head := Node.run (logic P.toBlockLogic) (Node.opened state log) blocks
    ∃ chain, (ChainState.atGenesis genesisTime production { rest }).applyAll
        (logic P.toBlockLogic) chain = .ok head.state ∧
      Recorded (Live head.state.dgp) (transactionsOf chain) head.state.ledger ∧
      Indexed (transactionsOf chain) head.state.ledger := by
  intro head
  obtain ⟨added, hadded⟩ :=
    (Node.run_reached (L := logic P.toBlockLogic) hopens blocks).exists_applyAll
  have hchain : (ChainState.atGenesis genesisTime production { rest }).applyAll
      (logic P.toBlockLogic) (start ++ added) = .ok head.state :=
    forEach_append_eq_ok.mpr ⟨state, hstart, hadded⟩
  have hgenesis : NoReplay ([] : List (SignedBlock (List (BlockTransaction O))))
      (ChainState.atGenesis genesisTime production { rest }) :=
    ⟨⟨List.nodup_nil, by simp [transactionsOf]⟩, fun _ => rfl⟩
  have hempty : Indexed (transactionsOf [])
      (ChainState.atGenesis genesisTime production ({ rest } : Guarded σ O)).ledger := by
    intro id hid
    cases hid
  exact ⟨start ++ added, hchain, (hgenesis.applyAll hchain).live, hempty.applyAll hchain⟩

/-- No transaction occurs twice in the chain and the pending list. -/
theorem Standing.nodup (h : Standing P head p)
    (hchain : Recorded (Live head.state.dgp) chain head.state.ledger) :
    ((chain ++ p.pendingTx).map BlockTransaction.id).Nodup := by
  obtain ⟨restored, pushed, db, hsplit, hrestored, hpushed⟩ := h.applied
  have hall := (hchain.applyTransactions hrestored).applyTransactions hpushed
  rw [hsplit, ← List.append_assoc]
  exact hall.nodup

end Pool

namespace Sample

/-- Transactions that do nothing, pending or in a block. -/
def idlePool : PoolLogic Unit Unit where
  toBlockLogic := idle
  checkSize _ _ := .ok ()
  evaluatePending _ _ _ := .ok ()

def poolNode : GuardedNode Unit Unit :=
  Node.opened (ChainState.atGenesis blurtGenesisTime (fun _ => {}) { rest := () }) []

/-- The transaction waits for a block, and then the first block carries it. -/
def waiting : List (Pool.Call Unit) := [.transaction shortLived, .block carryFirst]

end Sample

end Blurt
