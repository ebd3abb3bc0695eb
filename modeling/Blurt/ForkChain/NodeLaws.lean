import Blurt.ForkChain.ChainStateLaws
import Blurt.ForkChain.ForkDatabaseLaws
import Blurt.ForkChain.Node

/-! # Laws of the undo history and the block log

The undo stack is the history of the blocks applied since the committed state,
one session for each block. Undoing a session returns to the state before its
block, and a commit moves the committed state up along the history. The block
log always ends at the committed block.
-/

namespace Blurt

open Outcome

variable {σ T : Type} {L : LedgerLogic σ T}

/-- The undo states of a chain of applied blocks, newest first, above the state
`base` that can no longer be undone. -/
inductive History (L : LedgerLogic σ T) (base : ChainState σ) :
    ChainState σ → List (UndoState σ) → List (SignedBlock T) → Prop
  | committed : History L base base [] []
  | applied {old s : ChainState σ} {stack : List (UndoState σ)} {blocks : List (SignedBlock T)}
      {b : SignedBlock T} (h : History L base old stack blocks)
      (happly : old.applyBlock L b = .ok s) :
      History L base s (⟨s.dgp.headBlockNumber, old⟩ :: stack) (b :: blocks)

namespace History

variable {base s : ChainState σ} {stack : List (UndoState σ)} {blocks : List (SignedBlock T)}

theorem sound (h : History L base s stack blocks) (hbase : base.Sound) : s.Sound := by
  induction h with
  | committed => exact hbase
  | applied _ happly ih => exact ih.applyBlock happly

theorem headBlockNumber_succ {old s : ChainState σ} {b : SignedBlock T} (hold : old.Sound)
    (h : old.applyBlock L b = .ok s) :
    s.dgp.headBlockNumber = old.dgp.headBlockNumber + 1 := by
  rw [ChainState.applyBlock_headBlockNumber h, hold.number, ChainState.applyBlock_previous h]
  rfl

theorem length_eq (h : History L base s stack blocks) : blocks.length = stack.length := by
  induction h with
  | committed => rfl
  | applied _ _ ih => simp [ih]

theorem headBlockNumber (h : History L base s stack blocks) (hbase : base.Sound) :
    s.dgp.headBlockNumber = base.dgp.headBlockNumber + stack.length := by
  induction h with
  | committed => rfl
  | applied h happly ih =>
      rw [headBlockNumber_succ (h.sound hbase) happly, ih, List.length_cons]
      rfl

theorem irreversible_le (h : History L base s stack blocks) :
    base.dgp.lastIrreversibleBlockNum ≤ s.dgp.lastIrreversibleBlockNum := by
  induction h with
  | committed => exact le_rfl
  | applied _ happly ih => exact ih.trans (ChainState.applyBlock_irreversible_le happly)

theorem descends (h : History L base s stack blocks) :
    s.dgp.headBlockId.Descends base.dgp.headBlockId := by
  induction h with
  | committed => exact .refl _
  | applied _ happly ih =>
      rw [ChainState.applyBlock_headBlockId happly]
      rw [ChainState.applyBlock_previous happly] at ih
      exact ih.step _

theorem reached {known : Set (SignedBlock T)} {start : ChainState σ}
    (h : History L base s stack blocks) (hblocks : ∀ b ∈ blocks, b ∈ known)
    (hbase : ChainState.Reached L known start base) : ChainState.Reached L known start s := by
  induction h with
  | committed => exact hbase
  | applied _ happly ih =>
      exact (ih fun b hb => hblocks b (List.mem_cons_of_mem _ hb)).step (hblocks _ (by simp)) happly

/-- The blocks of a history lead from its committed state to its state. -/
theorem applyAll (h : History L base s stack blocks) :
    base.applyAll L blocks.reverse = .ok s := by
  induction h with
  | committed => rfl
  | applied _ happly ih =>
      rw [List.reverse_cons, ChainState.applyAll, forEach_append_eq_ok]
      exact ⟨_, ih, forEach_cons_eq_ok.mpr ⟨_, happly, rfl⟩⟩

/-- The applied blocks are those of the chain below the head. -/
theorem get (h : History L base s stack blocks) {i : Nat} {b : SignedBlock T}
    (hb : blocks[i]? = some b) : b.id = BlockId.previous^[i] s.dgp.headBlockId := by
  induction h generalizing i with
  | committed => simp at hb
  | applied _ happly ih =>
      cases i with
      | zero =>
          cases hb
          exact (ChainState.applyBlock_headBlockId happly).symm
      | succ i =>
          rw [ih (by simpa using hb), Function.iterate_succ_apply,
            ChainState.applyBlock_headBlockId happly, ChainState.applyBlock_previous happly]
          rfl

theorem get_num (h : History L base s stack blocks) (hbase : base.Sound) {i : Nat}
    {b : SignedBlock T} (hb : blocks[i]? = some b) :
    b.blockNum + i = s.dgp.headBlockNumber := by
  have hnum := congrArg BlockId.num (h.get hb)
  have hhead := h.headBlockNumber hbase
  have hlength := h.length_eq
  have hi := (List.getElem?_eq_some_iff.mp hb).1
  rw [SignedBlock.num_id, BlockId.num_iterate, ← (h.sound hbase).number] at hnum
  omega

theorem trans {middle : ChainState σ} {stack' : List (UndoState σ)}
    {blocks' : List (SignedBlock T)} (h : History L base middle stack blocks)
    (h' : History L middle s stack' blocks') :
    History L base s (stack' ++ stack) (blocks' ++ blocks) := by
  induction h' with
  | committed => exact h
  | applied _ happly ih => exact .applied ih happly

theorem cons_inv {b : SignedBlock T} (h : History L base s stack (b :: blocks)) :
    ∃ old rest, stack = ⟨s.dgp.headBlockNumber, old⟩ :: rest ∧ old.applyBlock L b = .ok s ∧
      History L base old rest blocks := by
  cases h with
  | applied h happly => exact ⟨_, _, rfl, happly, h⟩

/-- A commit at a height splits the history there. -/
theorem split (h : History L base s stack blocks) (hbase : base.Sound) {revision : Nat}
    (hrevision : revision ≤ s.dgp.headBlockNumber) :
    ∃ middle newer older newerBlocks olderBlocks,
      stack = newer ++ older ∧ blocks = newerBlocks ++ olderBlocks ∧
      newer = stack.takeWhile (fun u => decide (revision < u.revision)) ∧
      History L middle s newer newerBlocks ∧ History L base middle older olderBlocks ∧
      middle.dgp.headBlockNumber = max base.dgp.headBlockNumber revision := by
  induction h with
  | committed =>
      exact ⟨base, [], [], [], [], rfl, rfl, rfl, .committed, .committed,
        (max_eq_left hrevision).symm⟩
  | @applied old s stack blocks b h happly ih =>
      have hnum := headBlockNumber_succ (h.sound hbase) happly
      by_cases hlt : revision < s.dgp.headBlockNumber
      · obtain ⟨middle, newer, older, newerBlocks, olderBlocks, hstack, hblocks, hnewer,
          hupper, hlower, hmiddle⟩ := ih (by omega)
        refine ⟨middle, ⟨s.dgp.headBlockNumber, old⟩ :: newer, older, b :: newerBlocks,
          olderBlocks, ?_, ?_, ?_, .applied hupper happly, hlower, hmiddle⟩
        · rw [hstack, List.cons_append]
        · rw [hblocks, List.cons_append]
        · rw [List.takeWhile_cons_of_pos (by simpa using hlt), ← hnewer]
      · have hall := History.applied h happly
        refine ⟨s, [], _, [], _, rfl, rfl, ?_, .committed, hall, ?_⟩
        · rw [List.takeWhile_cons_of_neg (by simpa using hlt)]
        · have hle := hall.headBlockNumber hbase
          rw [max_eq_right (by omega)]
          omega

end History

namespace Node

/-- The state that the undo history leads back to. -/
def committed (n : Node σ T) : ChainState σ :=
  match n.undoStack.getLast? with
  | none => n.state
  | some oldest => oldest.old

/-- The number of the block that the node committed last. -/
def committedNum (n : Node σ T) : Nat := n.committed.dgp.headBlockNumber

theorem committed_eq {n : Node σ T} {base : ChainState σ} {blocks : List (SignedBlock T)}
    (h : History L base n.state n.undoStack blocks) : n.committed = base := by
  unfold committed
  generalize n.state = s at h
  generalize n.undoStack = stack at h
  induction h with
  | committed => rfl
  | @applied old s stack blocks b h happly ih =>
      cases stack with
      | nil =>
          cases h
          rfl
      | cons u rest => simpa [List.getLast?_cons] using ih

/-- The undo history, the revision and the block log fit together; `blocks` are
the applied blocks that can still be undone, newest first. -/
structure Coherent (L : LedgerLogic σ T) (n : Node σ T) (blocks : List (SignedBlock T)) :
    Prop where
  sound : n.committed.Sound
  history : History L n.committed n.state n.undoStack blocks
  revision : n.revision = n.headBlockNum
  irreversible : n.state.dgp.lastIrreversibleBlockNum ≤ n.committedNum
  log : n.blockLog.length = n.committedNum
  logHead : n.logHeadNum = n.committedNum

namespace Coherent

variable {n : Node σ T} {blocks : List (SignedBlock T)}

theorem state_sound (h : n.Coherent L blocks) : n.state.Sound := h.history.sound h.sound

theorem headBlockNum_eq (h : n.Coherent L blocks) :
    n.headBlockNum = n.committedNum + n.undoStack.length :=
  h.history.headBlockNumber h.sound

theorem num_headBlockId (h : n.Coherent L blocks) : n.headBlockId.num = n.headBlockNum :=
  h.state_sound.number.symm

/-- Only the fork database differs. -/
theorem congr (h : n.Coherent L blocks) (forkDb : ForkDatabase T) :
    ({ n with forkDb } : Node σ T).Coherent L blocks :=
  ⟨h.sound, h.history, h.revision, h.irreversible, h.log, h.logHead⟩

theorem undo_of_nil (hnil : n.undoStack = []) : n.undo = n := by
  unfold Node.undo
  rw [hnil]

/-- Undoing a session returns to the state before the newest block. -/
theorem undo_cons {b : SignedBlock T} (h : n.Coherent L (b :: blocks)) :
    n.undo.Coherent L blocks ∧ n.undo.state.applyBlock L b = .ok n.state ∧
      n.undo.committed = n.committed ∧ n.undo.undoStack.length + 1 = n.undoStack.length ∧
      n.undo.forkDb = n.forkDb ∧ n.undo.blockLog = n.blockLog := by
  have hnum := h.headBlockNum_eq
  obtain ⟨old, rest, hstack, happly, holder⟩ := h.history.cons_inv
  have hundo : n.undo = { n with state := old, revision := n.revision - 1, undoStack := rest } := by
    unfold Node.undo
    rw [hstack]
  have hcommitted : n.undo.committed = n.committed := by
    refine committed_eq (L := L) (show History L _ _ _ blocks from ?_)
    rw [hundo]
    exact holder
  have hsucc := History.headBlockNumber_succ (holder.sound h.sound) happly
  refine ⟨?_, ?_, hcommitted, ?_, ?_, ?_⟩
  · constructor
    · rw [hcommitted]
      exact h.sound
    · rw [hcommitted, hundo]
      exact holder
    · rw [hundo]
      change n.revision - 1 = old.dgp.headBlockNumber
      rw [h.revision]
      change n.state.dgp.headBlockNumber - 1 = _
      omega
    · rw [committedNum, hcommitted, hundo]
      exact (ChainState.applyBlock_irreversible_le happly).trans h.irreversible
    · rw [committedNum, hcommitted, hundo]
      exact h.log
    · rw [committedNum, hcommitted, hundo]
      exact h.logHead
  · rw [hundo]
    exact happly
  · rw [hundo, hstack, List.length_cons]
  · rw [hundo]
  · rw [hundo]

theorem undo_headBlockId {b : SignedBlock T} (h : n.Coherent L (b :: blocks)) :
    n.undo.headBlockId = n.headBlockId.previous := by
  obtain ⟨-, happly, -⟩ := h.undo_cons
  rw [headBlockId, headBlockId, ChainState.applyBlock_headBlockId happly,
    ChainState.applyBlock_previous happly]
  rfl

/-- What undoing `count` sessions leaves, when the history holds as many. -/
structure Rewound (n : Node σ T) (count : Nat) (m : Node σ T) : Prop where
  committed : m.committed = n.committed
  headBlockId : m.headBlockId = BlockId.previous^[count] n.headBlockId
  depth : m.undoStack.length + count = n.undoStack.length
  forkDb : m.forkDb = n.forkDb
  blockLog : m.blockLog = n.blockLog

theorem undo_iterate (h : n.Coherent L blocks) {count : Nat}
    (hcount : count ≤ n.undoStack.length) :
    (undo^[count] n).Coherent L (blocks.drop count) ∧ Rewound n count (undo^[count] n) := by
  induction count generalizing n blocks with
  | zero => exact ⟨h, rfl, rfl, rfl, rfl, rfl⟩
  | succ count ih =>
      cases blocks with
      | nil =>
          have hlength := h.history.length_eq
          rw [List.length_nil] at hlength
          omega
      | cons b blocks =>
          obtain ⟨hundo, -, hcommitted, hdepth, hfork, hlog⟩ := h.undo_cons
          obtain ⟨hrest, hrewound⟩ := ih hundo (by omega)
          refine ⟨hrest, hrewound.committed.trans hcommitted, ?_, ?_,
            hrewound.forkDb.trans hfork, hrewound.blockLog.trans hlog⟩
          · rw [Function.iterate_succ_apply, hrewound.headBlockId, h.undo_headBlockId]
            rfl
          · have hrest := hrewound.depth
            rw [Function.iterate_succ_apply]
            omega

/-- A history that is used up leaves the committed state. -/
theorem undo_exhausted (h : n.Coherent L blocks) {count : Nat}
    (hcount : n.undoStack.length ≤ count) :
    undo^[count] n = undo^[n.undoStack.length] n ∧ (undo^[count] n).state = n.committed := by
  obtain ⟨hlast, hrewound⟩ := h.undo_iterate (le_refl n.undoStack.length)
  have hnil : (undo^[n.undoStack.length] n).undoStack = [] := by
    rw [← List.length_eq_zero_iff]
    have hdepth := hrewound.depth
    omega
  have hfixed : ∀ extra, undo^[extra] (undo^[n.undoStack.length] n) =
      undo^[n.undoStack.length] n := by
    intro extra
    induction extra with
    | zero => rfl
    | succ extra ih => rw [Function.iterate_succ_apply, undo_of_nil hnil, ih]
  have heq : undo^[count] n = undo^[n.undoStack.length] n := by
    obtain ⟨extra, rfl⟩ := Nat.exists_eq_add_of_le' hcount
    rw [Function.iterate_add_apply, hfixed]
  refine ⟨heq, ?_⟩
  rw [heq, ← hrewound.committed, Node.committed, hnil]
  rfl

/-- The state below a session is the one that the session saved. -/
theorem undo_iterate_state (n : Node σ T) {count : Nat} {u : UndoState σ}
    (hu : n.undoStack[count]? = some u) : (undo^[count + 1] n).state = u.old := by
  induction count generalizing n with
  | zero =>
      cases hstack : n.undoStack with
      | nil => simp [hstack] at hu
      | cons top rest =>
          rw [hstack] at hu
          cases hu
          change n.undo.state = _
          unfold Node.undo
          rw [hstack]
  | succ count ih =>
      rw [Function.iterate_succ_apply]
      refine ih n.undo ?_
      cases hstack : n.undoStack with
      | nil => simp [hstack] at hu
      | cons top rest =>
          rw [hstack] at hu
          unfold Node.undo
          rw [hstack]
          exact hu

/-- The states of the history, from the top down to a height, lead back up
through the blocks undone. -/
theorem applyAll_undone (h : n.Coherent L blocks) {count : Nat}
    (hcount : count ≤ n.undoStack.length) :
    (undo^[count] n).state.applyAll L (blocks.take count).reverse = .ok n.state := by
  induction count generalizing n blocks with
  | zero => rfl
  | succ count ih =>
      cases blocks with
      | nil =>
          have hlength := h.history.length_eq
          rw [List.length_nil] at hlength
          omega
      | cons b blocks =>
          obtain ⟨hundo, happly, -, hdepth, -, -⟩ := h.undo_cons
          rw [List.take_succ_cons, List.reverse_cons, Function.iterate_succ_apply,
            ChainState.applyAll, forEach_append_eq_ok]
          exact ⟨_, ih hundo (by omega), forEach_cons_eq_ok.mpr ⟨_, happly, rfl⟩⟩

end Coherent

section Migrate

variable {n : Node σ T}

theorem blocksToWrite_spec {written : List (SignedBlock T)} :
    n.blocksToWrite = .ok written ↔ List.Forall₂
      (fun i b => ∃ item, n.forkDb.fetchBlockOnMainBranchByNumber (n.logHeadNum + i + 1) =
        some item ∧ item.data = b)
      (List.range (n.state.dgp.lastIrreversibleBlockNum - n.logHeadNum)) written := by
  have hloop : ∀ (indices : List Nat) (before written : List (SignedBlock T)),
      forEach (fun blocks i => do
          let item ← require (n.forkDb.fetchBlockOnMainBranchByNumber (n.logHeadNum + i + 1))
            "Current fork in the fork database does not contain the last_irreversible_block"
          return blocks ++ [item.data]) before indices = .ok written ↔
        ∃ after, written = before ++ after ∧ List.Forall₂
          (fun i b => ∃ item, n.forkDb.fetchBlockOnMainBranchByNumber (n.logHeadNum + i + 1) =
            some item ∧ item.data = b) indices after := by
    intro indices
    induction indices with
    | nil =>
        intro before written
        simp [eq_comm]
    | cons i rest ih =>
        intro before written
        simp only [forEach_cons_eq_ok, bind_eq_ok, require_eq_ok, pure_eq_ok, ih]
        constructor
        · rintro ⟨_, ⟨item, hitem, rfl⟩, after, rfl, hafter⟩
          exact ⟨item.data :: after, by simp, .cons ⟨item, hitem, rfl⟩ hafter⟩
        · rintro ⟨after, rfl, hafter⟩
          cases hafter with
          | @cons _ b _ after hb hafter =>
              obtain ⟨item, hitem, rfl⟩ := hb
              exact ⟨_, ⟨item, hitem, rfl⟩, after, by simp, hafter⟩
  rw [blocksToWrite, hloop]
  simp only [List.nil_append, exists_eq_left']

theorem appendLog_forEach {log log' written : List (SignedBlock T)} :
    forEach appendLog log written = .ok log' ↔
      log' = log ++ written ∧ ∀ i b, written[i]? = some b → b.blockNum = log.length + i + 1 := by
  induction written generalizing log with
  | nil => simp [eq_comm]
  | cons b rest ih =>
      simp only [forEach_cons_eq_ok, appendLog, bind_eq_ok, ensure_eq_ok, pure_eq_ok]
      have hnum : log.length = b.blockNum - 1 ↔ b.blockNum = log.length + 1 := by
        have hpos : 0 < b.blockNum := Nat.succ_pos _
        omega
      constructor
      · rintro ⟨_, ⟨_, hlength, rfl⟩, hrest⟩
        obtain ⟨rfl, hnums⟩ := ih.mp hrest
        refine ⟨by simp, ?_⟩
        intro i c hc
        cases i with
        | zero =>
            cases hc
            exact hnum.mp hlength
        | succ i =>
            have hci := hnums i c hc
            simp only [List.length_append, List.length_singleton] at hci
            omega
      · rintro ⟨rfl, hnums⟩
        refine ⟨_, ⟨(), hnum.mpr (hnums 0 b rfl), rfl⟩, ih.mpr ⟨by simp, ?_⟩⟩
        intro i c hc
        have hci := hnums (i + 1) c hc
        simp only [List.length_append, List.length_singleton]
        omega

/-- What a completed `migrate_irreversible_state` did. -/
structure Migrated (n : Node σ T) (written : List (SignedBlock T)) (next : Node σ T) : Prop where
  heads : ∀ head, n.forkDb.head = some head → head.num = n.headBlockNum
  fetched : List.Forall₂
    (fun i b => ∃ item, n.forkDb.fetchBlockOnMainBranchByNumber (n.logHeadNum + i + 1) =
      some item ∧ item.data = b)
    (List.range (n.state.dgp.lastIrreversibleBlockNum - n.logHeadNum)) written
  numbered : ∀ i b, written[i]? = some b → b.blockNum = n.blockLog.length + i + 1
  eq : next = ({ n with
    blockLog := n.blockLog ++ written
    forkDb := n.forkDb.setMaxSize
      (n.headBlockNum - n.state.dgp.lastIrreversibleBlockNum + 1) } : Node σ T).commit
        n.state.dgp.lastIrreversibleBlockNum

theorem migrateIrreversibleState_spec {next : Node σ T} :
    n.migrateIrreversibleState = .ok next ↔ ∃ written, n.Migrated written next := by
  simp only [migrateIrreversibleState, bind_eq_ok, ensure_eq_ok, blocksToWrite_spec,
    appendLog_forEach, pure_eq_ok]
  constructor
  · rintro ⟨_, hheads, written, hfetched, _, ⟨rfl, hnumbered⟩, rfl⟩
    exact ⟨written, fun head hhead => hheads head (by simpa using hhead), hfetched, hnumbered, rfl⟩
  · rintro ⟨written, hheads, hfetched, hnumbered, rfl⟩
    exact ⟨(), fun head hhead => hheads head (by simpa using hhead), written, hfetched, _,
      ⟨rfl, hnumbered⟩, rfl⟩

end Migrate

section Session

variable {n : Node σ T} {blocks : List (SignedBlock T)} {b : SignedBlock T}

/-- What a completed session of `apply_block` did. -/
structure Applied (L : LedgerLogic σ T) (n : Node σ T) (b : SignedBlock T)
    (written : List (SignedBlock T)) (next : Node σ T) : Prop where
  state : n.state.applyBlock L b = .ok next.state
  heads : ∀ head, n.forkDb.head = some head → head.num = next.headBlockNum
  fetched : List.Forall₂
    (fun i b => ∃ item, n.forkDb.fetchBlockOnMainBranchByNumber (n.logHeadNum + i + 1) =
      some item ∧ item.data = b)
    (List.range (next.state.dgp.lastIrreversibleBlockNum - n.logHeadNum)) written
  numbered : ∀ i b, written[i]? = some b → b.blockNum = n.blockLog.length + i + 1
  revision : next.revision = n.revision + 1
  blockLog : next.blockLog = n.blockLog ++ written
  forkDb : next.forkDb = n.forkDb.setMaxSize
    (next.headBlockNum - next.state.dgp.lastIrreversibleBlockNum + 1)
  undoStack : next.undoStack = (⟨n.revision + 1, n.state⟩ :: n.undoStack).takeWhile
    (fun u => decide (next.state.dgp.lastIrreversibleBlockNum < u.revision))

theorem applyInSession_spec {next : Node σ T} (h : n.applyInSession L b = .ok next) :
    ∃ written, n.Applied L b written next := by
  simp only [applyInSession, bind_eq_ok, migrateIrreversibleState_spec] at h
  obtain ⟨state, hstate, written, hheads, hfetched, hnumbered, rfl⟩ := h
  exact ⟨written, hstate, hheads, hfetched, hnumbered, rfl, rfl, rfl, rfl⟩

/-- Where every number to be written out can be fetched, only the block itself can make
its session throw. -/
theorem applyInSession_of_fetched {s : ChainState σ} (hstate : n.state.applyBlock L b = .ok s)
    (hheads : ∀ head, n.forkDb.head = some head → head.num = s.dgp.headBlockNumber)
    (hfetched : ∀ i < s.dgp.lastIrreversibleBlockNum - n.logHeadNum, ∃ found,
      n.forkDb.fetchBlockOnMainBranchByNumber (n.logHeadNum + i + 1) = some found ∧
        found.num = n.blockLog.length + i + 1) :
    ∃ next, n.applyInSession L b = .ok next ∧ next.state = s := by
  let session : Node σ T := { n.startUndoSession with state := s }
  have hwritten : ∀ count ≤ s.dgp.lastIrreversibleBlockNum - n.logHeadNum,
      ∃ written, List.Forall₂ (fun i b => ∃ item,
          n.forkDb.fetchBlockOnMainBranchByNumber (n.logHeadNum + i + 1) = some item ∧
            item.data = b) (List.range count) written ∧
        ∀ i b, written[i]? = some b → b.blockNum = n.blockLog.length + i + 1 := by
    intro count
    induction count with
    | zero => exact fun _ => ⟨[], .nil, by simp⟩
    | succ count ih =>
        intro hcount
        obtain ⟨written, hforall, hnumbered⟩ := ih (by omega)
        obtain ⟨found, hfound, hnum⟩ := hfetched count (by omega)
        have hlength := hforall.length_eq
        rw [List.length_range] at hlength
        refine ⟨written ++ [found.data], ?_, ?_⟩
        · rw [List.range_succ]
          exact List.rel_append hforall (.cons ⟨found, hfound, rfl⟩ .nil)
        · intro i b hb
          by_cases hi : i < written.length
          · rw [List.getElem?_append_left hi] at hb
            exact hnumbered i b hb
          · rw [List.getElem?_append_right (by omega)] at hb
            obtain ⟨hlt, heq⟩ := List.getElem?_eq_some_iff.mp hb
            rw [List.length_singleton] at hlt
            have hi' : i = count := by omega
            subst hi'
            rw [List.getElem_singleton] at heq
            rw [← heq]
            exact hnum
  obtain ⟨written, hforall, hnumbered⟩ := hwritten _ le_rfl
  have hmigrated : session.Migrated written (({ session with
      blockLog := n.blockLog ++ written
      forkDb := n.forkDb.setMaxSize
        (s.dgp.headBlockNumber - s.dgp.lastIrreversibleBlockNum + 1) } : Node σ T).commit
          s.dgp.lastIrreversibleBlockNum) := ⟨hheads, hforall, hnumbered, rfl⟩
  have hok : n.applyInSession L b = .ok (({ session with
      blockLog := n.blockLog ++ written
      forkDb := n.forkDb.setMaxSize
        (s.dgp.headBlockNumber - s.dgp.lastIrreversibleBlockNum + 1) } : Node σ T).commit
          s.dgp.lastIrreversibleBlockNum) := by
    simp only [applyInSession, bind_eq_ok, migrateIrreversibleState_spec]
    exact ⟨s, hstate, written, hmigrated⟩
  exact ⟨_, hok, rfl⟩

/-- A block whose irreversible number is already committed writes nothing out. -/
theorem applyInSession_of_committed {s : ChainState σ} (hstate : n.state.applyBlock L b = .ok s)
    (hheads : ∀ head, n.forkDb.head = some head → head.num = s.dgp.headBlockNumber)
    (hcommitted : s.dgp.lastIrreversibleBlockNum ≤ n.logHeadNum) :
    ∃ next, n.applyInSession L b = .ok next ∧ next.state = s :=
  applyInSession_of_fetched hstate hheads (fun i hi => by omega)

/-- An applied block extends the history, and the commit moves the committed
state up to the last irreversible block. -/
theorem Coherent.applied (h : n.Coherent L blocks) {written : List (SignedBlock T)}
    {next : Node σ T} (happlied : n.Applied L b written next) :
    ∃ newer older olderStack, b :: blocks = newer ++ older ∧ next.Coherent L newer ∧
      History L n.committed next.committed olderStack older ∧
      next.committedNum = max n.committedNum next.state.dgp.lastIrreversibleBlockNum ∧
      next.headBlockNum = n.headBlockNum + 1 ∧ next.headBlockId = b.id := by
  have hnum : next.headBlockNum = n.headBlockNum + 1 :=
    History.headBlockNumber_succ h.state_sound happlied.state
  have hfull : History L n.committed next.state (⟨n.revision + 1, n.state⟩ :: n.undoStack)
      (b :: blocks) := by
    rw [h.revision, ← hnum]
    exact .applied h.history happlied.state
  have hsound : next.state.Sound := h.state_sound.applyBlock happlied.state
  obtain ⟨middle, newer, older, newerBlocks, olderBlocks, -, hblocks, hnewer, hupper, hlower,
    hmiddle⟩ := hfull.split h.sound hsound.irreversible
  rw [← happlied.undoStack] at hnewer
  rw [hnewer] at hupper
  have hcommitted : next.committed = middle := committed_eq hupper
  have hcommittedNum : next.committedNum =
      max n.committedNum next.state.dgp.lastIrreversibleBlockNum := by
    rw [committedNum, hcommitted, hmiddle]
    rfl
  have hwritten : written.length =
      next.state.dgp.lastIrreversibleBlockNum - n.committedNum := by
    rw [← h.logHead, ← happlied.fetched.length_eq, List.length_range]
  have hlength : next.blockLog.length = next.committedNum := by
    rw [happlied.blockLog, List.length_append, hwritten, h.log, hcommittedNum]
    omega
  refine ⟨newerBlocks, olderBlocks, older, hblocks, ?_, ?_, hcommittedNum, hnum,
    ChainState.applyBlock_headBlockId happlied.state⟩
  · constructor
    · rw [hcommitted]
      exact hlower.sound h.sound
    · rw [hcommitted]
      exact hupper
    · rw [happlied.revision, h.revision, hnum]
    · rw [hcommittedNum]
      exact le_max_right _ _
    · exact hlength
    · rw [← hlength, logHeadNum, happlied.blockLog]
      obtain rfl | ⟨front, last, rfl⟩ := written.eq_nil_or_concat
      · rw [List.append_nil, h.log, ← h.logHead, logHeadNum]
      · have hlast := happlied.numbered front.length last (by simp)
        rw [List.concat_eq_append, ← List.append_assoc, List.getLast?_concat]
        change last.blockNum = _
        rw [hlast, List.length_append, List.length_append, List.length_singleton]
  · rw [hcommitted]
    exact hlower

end Session

end Node

end Blurt
