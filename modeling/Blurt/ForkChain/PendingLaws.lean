import Blurt.ForkChain.PendingTransactions

/-! # The pending state is the head state with the pending transactions

Between two calls the object database is that of the node without its pending session,
with the pending transactions applied in their order. A call of `push_block` moves the
node below as if nothing were pending, and then accounts for every transaction that was
pending or in a popped block.
-/

namespace Blurt

open Outcome

variable {σ O : Type}

namespace Pool

/-! ## Blocks move the node as if nothing were pending -/

/-- A call moves the node of a pool without a pending session like the call of the node,
and leaves the pending transactions alone. -/
structure Follows {α : Type} (p : Pool σ O) (result : Pool σ O × α)
    (nodeResult : GuardedNode σ O × α) : Prop where
  node : result.1.node = nodeResult.1
  answer : result.2 = nodeResult.2
  session : result.1.pendingSession = p.pendingSession
  pendingTx : result.1.pendingTx = p.pendingTx

theorem Follows.eq {α : Type} {p q : Pool σ O} {a : α} {nodeResult : GuardedNode σ O × α}
    (h : Follows p (q, a) nodeResult) : nodeResult = (q.node, a) :=
  Prod.ext h.node.symm h.answer.symm

theorem Follows.trans {α β : Type} {p q : Pool σ O} {a : α} {result : Pool σ O × β}
    {nodeResult : GuardedNode σ O × α} {nodeResult' : GuardedNode σ O × β}
    (h : Follows p (q, a) nodeResult) (h' : Follows q result nodeResult') :
    Follows p result nodeResult' where
  node := h'.node
  answer := h'.answer
  session := h'.session.trans h.session
  pendingTx := h'.pendingTx.trans h.pendingTx

variable {p q : Pool σ O} {held : List (ForkItem (List (BlockTransaction O)))}

theorem resetSession_of_closed (hclosed : p.pendingSession = false) : p.resetSession = p := by
  simp [resetSession, hclosed]

theorem popBlock_ok (hclosed : p.pendingSession = false) (hpop : p.popBlock held = .ok q) :
    p.node.popBlock held = .ok q.node ∧ q.pendingSession = p.pendingSession ∧
      q.pendingTx = p.pendingTx := by
  simp only [popBlock, resetSession_of_closed hclosed, bind_eq_ok, pure_eq_ok] at hpop
  obtain ⟨_, -, node, hnode, rfl⟩ := hpop
  exact ⟨hnode, rfl, rfl⟩

theorem popBlock_error (hclosed : p.pendingSession = false) {message : String}
    (hpop : p.popBlock held = .error message) : p.node.popBlock held = .error message := by
  cases hnode : p.node.popBlock held with
  | ok node =>
      have hfetch : ∃ head, Outcome.require (p.node.fetchBlockById p.node.headBlockId)
          "there are no blocks to pop" = .ok head := by
        simp only [Node.popBlock, bind_eq_ok] at hnode
        obtain ⟨head, hhead, -⟩ := hnode
        exact ⟨head, hhead⟩
      obtain ⟨head, hhead⟩ := hfetch
      simp [popBlock, resetSession_of_closed hclosed, hhead, hnode, bind, Except.bind, pure,
        Except.pure] at hpop
  | error other =>
      simp only [popBlock, resetSession_of_closed hclosed] at hpop
      cases hfetch : Outcome.require (p.node.fetchBlockById p.node.headBlockId)
          "there are no blocks to pop" with
      | ok head =>
          simpa [hfetch, hnode, bind, Except.bind] using hpop
      | error first =>
          simp only [Node.popBlock, hfetch, error_bind] at hnode hpop
          cases hnode
          cases hpop
          rfl

theorem popUntil_follows (held : List (ForkItem (List (BlockTransaction O)))) (target : BlockId)
    (fuel : Nat) (hclosed : p.pendingSession = false) :
    Follows p (popUntil held target fuel p) (Node.popUntil held target fuel p.node) := by
  induction fuel generalizing p with
  | zero =>
      unfold popUntil Node.popUntil
      split
      · exact ⟨rfl, rfl, rfl, rfl⟩
      · cases hpop : p.popBlock held with
        | ok popped =>
            obtain ⟨hnode, hsession, hpending⟩ := popBlock_ok hclosed hpop
            rw [hnode]
            exact ⟨rfl, rfl, hsession, hpending⟩
        | error message =>
            rw [popBlock_error hclosed hpop]
            exact ⟨rfl, rfl, rfl, rfl⟩
  | succ fuel ih =>
      unfold popUntil Node.popUntil
      split
      · exact ⟨rfl, rfl, rfl, rfl⟩
      · cases hpop : p.popBlock held with
        | ok popped =>
            obtain ⟨hnode, hsession, hpending⟩ := popBlock_ok hclosed hpop
            rw [hnode]
            have hrest := ih (hsession.trans hclosed)
            exact ⟨hrest.node, hrest.answer, hrest.session.trans hsession,
              hrest.pendingTx.trans hpending⟩
        | error message =>
            rw [popBlock_error hclosed hpop]
            exact ⟨rfl, rfl, rfl, rfl⟩

variable [DecidableEq O] {P : PoolLogic σ O}

theorem applyItems_follows (items : List (ForkItem (List (BlockTransaction O)))) (p : Pool σ O) :
    Follows p (p.applyItems P items)
      (Node.applyItems (Guarded.logic P.toBlockLogic) items p.node) := by
  unfold applyItems
  exact ⟨rfl, rfl, rfl, rfl⟩

omit [DecidableEq O] in
theorem popUntil_eq {target : BlockId} {fuel : Nat} {answer : Except String Unit}
    (hclosed : p.pendingSession = false) (hpop : popUntil held target fuel p = (q, answer)) :
    Node.popUntil held target fuel p.node = (q.node, answer) ∧
      Follows p (q, answer) (q.node, answer) := by
  have hfollows := popUntil_follows held target fuel hclosed
  rw [hpop] at hfollows
  exact ⟨hfollows.eq, rfl, rfl, hfollows.session, hfollows.pendingTx⟩

theorem applyItems_eq {items : List (ForkItem (List (BlockTransaction O)))}
    {stopped : Option (String × List (ForkItem (List (BlockTransaction O))))}
    (happly : p.applyItems P items = (q, stopped)) :
    Node.applyItems (Guarded.logic P.toBlockLogic) items p.node = (q.node, stopped) ∧
      Follows p (q, stopped) (q.node, stopped) := by
  have hfollows := applyItems_follows (P := P) items p
  rw [happly] at hfollows
  exact ⟨hfollows.eq, rfl, rfl, hfollows.session, hfollows.pendingTx⟩

theorem restoreBranch_follows {second failed : List (ForkItem (List (BlockTransaction O)))}
    {ancestor : BlockId} {except : String} (hclosed : p.pendingSession = false) :
    Follows p (p.restoreBranch P held second failed ancestor except)
      (p.node.restoreBranch (Guarded.logic P.toBlockLogic) held second failed ancestor except) := by
  let cleaned : Pool σ O :=
    { p with
      node := { p.node with
        forkDb := failed.foldl (fun fdb item => fdb.remove item.id) p.node.forkDb } }
  have hcleaned : Follows p (cleaned, ()) (cleaned.node, ()) := ⟨rfl, rfl, rfl, rfl⟩
  simp only [restoreBranch, Node.restoreBranch]
  split
  · rename_i popped message hpop
    obtain ⟨hnode, hpopped⟩ := popUntil_eq (p := cleaned) hclosed hpop
    simp only [cleaned] at hnode
    rw [hnode]
    exact hcleaned.trans (hpopped.trans ⟨rfl, rfl, rfl, rfl⟩)
  · rename_i popped hpop
    obtain ⟨hnode, hpopped⟩ := popUntil_eq (p := cleaned) hclosed hpop
    simp only [cleaned] at hnode
    rw [hnode]
    simp only
    split
    · rename_i restored happly
      obtain ⟨hitems, hrestored⟩ := applyItems_eq happly
      rw [hitems]
      exact hcleaned.trans (hpopped.trans (hrestored.trans ⟨rfl, rfl, rfl, rfl⟩))
    · rename_i broken message rest happly
      obtain ⟨hitems, hrestored⟩ := applyItems_eq happly
      rw [hitems]
      exact hcleaned.trans (hpopped.trans (hrestored.trans ⟨rfl, rfl, rfl, rfl⟩))

theorem switchFork_follows {newHead : ForkItem (List (BlockTransaction O))}
    (hclosed : p.pendingSession = false) :
    Follows p (p.switchFork P newHead)
      (p.node.switchFork (Guarded.logic P.toBlockLogic) newHead) := by
  cases hfetch : p.node.forkDb.fetchBranchFrom newHead.id p.node.headBlockId with
  | error message =>
      rw [switchFork, Node.switchFork, hfetch]
      exact ⟨rfl, rfl, rfl, rfl⟩
  | ok branches =>
      rw [Node.switchFork_of_fetched hfetch]
      simp only [switchFork, hfetch]
      split
      · rename_i popped message hpop
        obtain ⟨hnode, hpopped⟩ := popUntil_eq hclosed hpop
        rw [hnode]
        exact hpopped.trans ⟨rfl, rfl, rfl, rfl⟩
      · rename_i popped hpop
        obtain ⟨hnode, hpopped⟩ := popUntil_eq hclosed hpop
        rw [hnode]
        simp only
        split
        · rename_i switched happly
          obtain ⟨hitems, hswitched⟩ := applyItems_eq happly
          rw [hitems]
          exact hpopped.trans (hswitched.trans ⟨rfl, rfl, rfl, rfl⟩)
        · rename_i broken message failed happly
          obtain ⟨hitems, hbroken⟩ := applyItems_eq happly
          rw [hitems]
          have hclosed' := (hpopped.trans hbroken).session.trans hclosed
          exact hpopped.trans (hbroken.trans (restoreBranch_follows hclosed'))

/-- `_push_block` on a pool without a pending session is `_push_block` on its node. -/
theorem _pushBlock_follows (b : SignedBlock (List (BlockTransaction O)))
    (hclosed : p.pendingSession = false) :
    Follows p (p._pushBlock P b) (p.node.pushBlock (Guarded.logic P.toBlockLogic) b) := by
  unfold _pushBlock Node.pushBlock Node._pushBlock
  cases p.node.forkDb.pushBlock b with
  | error message => exact ⟨rfl, rfl, rfl, rfl⟩
  | ok forkDb =>
      let linked : Pool σ O := { p with node := { p.node with forkDb } }
      have hlinked : Follows p (linked, ()) (linked.node, ()) := ⟨rfl, rfl, rfl, rfl⟩
      apply hlinked.trans
      cases hdirect : linked.node.applyInSession (Guarded.logic P.toBlockLogic) b with
      | ok applied =>
          simp only [linked] at hdirect
          simp only [hdirect]
          rcases forkDb.head with _ | newHead
          · exact ⟨rfl, rfl, rfl, rfl⟩
          · simp only
            split
            · exact ⟨rfl, rfl, rfl, rfl⟩
            · split
              · exact switchFork_follows (p := linked) hclosed
              · exact ⟨rfl, rfl, rfl, rfl⟩
      | error message =>
          simp only [linked] at hdirect
          simp only [hdirect]
          rcases forkDb.head with _ | newHead
          · exact ⟨rfl, rfl, rfl, rfl⟩
          · simp only
            split
            · exact ⟨rfl, rfl, rfl, rfl⟩
            · split
              · exact switchFork_follows (p := linked) hclosed
              · exact ⟨rfl, rfl, rfl, rfl⟩

end Pool

/-! ## The index holds the ids of the chain only -/

namespace Guarded

variable [DecidableEq O]

/-- Every id in the index is that of an applied transaction. -/
def Indexed (applied : List (BlockTransaction O)) (db : Guarded σ O) : Prop :=
  ∀ id, (db.transactions.find? id).isSome → id ∈ applied.map BlockTransaction.id

theorem Indexed.applyTransaction {B : BlockLogic σ O} {dgp : DynamicGlobalProperties}
    {applied : List (BlockTransaction O)} {db next : Guarded σ O} {trx : BlockTransaction O}
    (h : Indexed applied db) (hnext : applyTransaction B dgp db trx = .ok next) :
    Indexed (applied ++ [trx]) next := by
  simp only [Guarded.applyTransaction, bind_eq_ok, pure_eq_ok] at hnext
  obtain ⟨_, -, _, -, _, -, _, -, rest, -, rfl⟩ := hnext
  intro id hid
  rw [List.map_append, List.mem_append]
  by_cases hsame : id = trx.id
  · subst hsame
    exact .inr (by simp)
  · rw [Store.find?_set_of_ne hsame] at hid
    exact .inl (h id hid)

theorem Indexed.applyTransactions {B : BlockLogic σ O} {dgp : DynamicGlobalProperties}
    {applied trxs : List (BlockTransaction O)} {db next : Guarded σ O} (h : Indexed applied db)
    (hnext : forEach (Guarded.applyTransaction B dgp) db trxs = .ok next) :
    Indexed (applied ++ trxs) next := by
  induction trxs generalizing applied db with
  | nil =>
      cases hnext
      simpa using h
  | cons trx rest ih =>
      obtain ⟨middle, hmiddle, hrest⟩ := forEach_cons_eq_ok.mp hnext
      have hlast := ih (h.applyTransaction hmiddle) hrest
      simpa using hlast

theorem Indexed.applyBlock {B : BlockLogic σ O}
    {blocks : List (SignedBlock (List (BlockTransaction O)))} {s s' : ChainState (Guarded σ O)}
    {b : SignedBlock (List (BlockTransaction O))} (h : Indexed (transactionsOf blocks) s.ledger)
    (hb : s.applyBlock (logic B) b = .ok s') :
    Indexed (transactionsOf (blocks ++ [b])) s'.ledger := by
  obtain ⟨rest, rest', kept, htrxs, hledger⟩ := applyBlock_ledger hb
  have hstart : Indexed (transactionsOf blocks) { s.ledger with rest } := h
  have hkept := hstart.applyTransactions htrxs
  have happend : transactionsOf (blocks ++ [b]) = transactionsOf blocks ++ b.transactions := by
    simp [transactionsOf]
  intro id hid
  rw [hledger] at hid
  obtain ⟨expiration, hfind⟩ := Option.isSome_iff_exists.mp hid
  rw [happend]
  apply hkept id
  rw [(find?_clearExpiredTransactions.mp hfind).1]
  rfl

theorem Indexed.applyAll {B : BlockLogic σ O}
    {before blocks : List (SignedBlock (List (BlockTransaction O)))}
    {s s' : ChainState (Guarded σ O)} (h : Indexed (transactionsOf before) s.ledger)
    (hblocks : s.applyAll (logic B) blocks = .ok s') :
    Indexed (transactionsOf (before ++ blocks)) s'.ledger := by
  induction blocks generalizing before s with
  | nil =>
      cases hblocks
      simpa using h
  | cons b rest ih =>
      obtain ⟨middle, hmiddle, hrest⟩ := forEach_cons_eq_ok.mp hblocks
      have hlast := ih (h.applyBlock hmiddle) hrest
      simpa using hlast

end Guarded

end Blurt
