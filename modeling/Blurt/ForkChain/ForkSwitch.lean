import Blurt.ForkChain.NodeLaws

/-! # Popping and re-applying branches

The recovery loop of `_push_block` pops blocks, applies a branch, and where a
block of the branch throws, pops again and applies the old branch. Each of these
parts is described by what it leaves of the chain state, the undo history and the
fork database.
-/

namespace Blurt

open Outcome

variable {σ T : Type} {L : LedgerLogic σ T}

namespace Node

section Pop

variable {family : Set (ForkItem T)} {held : List (ForkItem T)} {target : BlockId}

theorem undo_with_forkDb (n : Node σ T) (forkDb : ForkDatabase T) :
    ({ n with forkDb } : Node σ T).undo = { n.undo with forkDb } := by
  obtain ⟨state, revision, undoStack, _, blockLog⟩ := n
  cases undoStack <;> rfl

theorem undo_iterate_with_forkDb (n : Node σ T) (forkDb : ForkDatabase T) (count : Nat) :
    undo^[count] ({ n with forkDb } : Node σ T) = { undo^[count] n with forkDb } := by
  induction count generalizing n with
  | zero => rfl
  | succ count ih => rw [Function.iterate_succ_apply, undo_with_forkDb, ih]; rfl

/-- The node after `count` pops that left the fork database head at `last`. -/
def rewind (n : Node σ T) (count : Nat) (last : ForkItem T) : Node σ T :=
  { undo^[count] n with forkDb := n.forkDb.setHead last }

theorem popBlock_spec {n : Node σ T} (hfork : n.forkDb.Consistent family)
    (hheld : ∀ x ∈ held, x ∈ family) {head : ForkItem T} (hhead : n.forkDb.head = some head)
    {next : Node σ T} : n.popBlock held = .ok next ↔
      (n.fetchBlockById n.headBlockId).isSome ∧ ∃ parent,
        (parent ∈ n.forkDb.live ∨ parent ∈ held) ∧ head.Follows parent ∧
          next = n.rewind 1 parent := by
  simp only [Node.popBlock, bind_eq_ok, require_eq_ok, pure_eq_ok,
    ForkDatabase.popBlock_spec hfork hheld hhead]
  constructor
  · rintro ⟨b, hb, forkDb, ⟨parent, hmem, hfollows, rfl⟩, rfl⟩
    exact ⟨by rw [hb]; rfl, parent, hmem, hfollows, undo_with_forkDb _ _⟩
  · rintro ⟨hsome, parent, hmem, hfollows, rfl⟩
    obtain ⟨b, hb⟩ := Option.isSome_iff_exists.mp hsome
    exact ⟨b, hb, _, ⟨parent, hmem, hfollows, rfl⟩, undo_with_forkDb _ _⟩

theorem popUntil_done {n : Node σ T} (fuel : Nat) (h : n.headBlockId = target) :
    popUntil held target fuel n = (n, .ok ()) := by
  rw [popUntil.eq_def]
  exact if_pos h

theorem popUntil_error {n : Node σ T} (fuel : Nat) {message : String}
    (h : n.headBlockId ≠ target) (hpop : n.popBlock held = .error message) :
    popUntil held target fuel n = (n, .error message) := by
  rw [popUntil.eq_def]
  simp only [if_neg h, hpop]

theorem popUntil_pop {n popped : Node σ T} (fuel : Nat) (h : n.headBlockId ≠ target)
    (hpop : n.popBlock held = .ok popped) :
    popUntil held target (fuel + 1) n = popUntil held target fuel popped := by
  rw [popUntil.eq_def]
  simp only [if_neg h, hpop]

/-- The pop loop undoes one session and moves the fork database head to its parent in
each turn. It stops at the target, or where a block or a parent is missing. -/
theorem popUntil_spec (target : BlockId) {fuel : Nat} {n : Node σ T} {head : ForkItem T}
    {rest : List (ForkItem T)}
    (hfork : n.forkDb.Consistent family) (hheld : ∀ x ∈ held, x ∈ family)
    (hhead : n.forkDb.head = some head) (hfuel : head.num ≤ fuel)
    (hbranch : ForkDatabase.Branch (head :: rest)) (hrest : ∀ x ∈ rest, x ∈ held) :
    ∃ count last, last ∈ family ∧ last.num + count = head.num ∧
      (∀ i < count, (undo^[i] n).headBlockId ≠ target) ∧
      (popUntil held target fuel n = (n.rewind count last, .ok ()) ∧
          (undo^[count] n).headBlockId = target ∨
        ∃ message, popUntil held target fuel n = (n.rewind count last, .error message) ∧
          (n.rewind count last).popBlock held = .error message ∧
          (undo^[count] n).headBlockId ≠ target ∧
          (n.forkDb.find (undo^[count] n).headBlockId = none ∨ rest.length ≤ count)) := by
  induction fuel generalizing n head rest with
  | zero =>
      have hpos : 0 < head.num := Nat.succ_pos _
      omega
  | succ fuel ih =>
      have hself : n.rewind 0 head = n := by
        simp only [rewind, ForkDatabase.setHead, ← hhead, Function.iterate_zero, id_eq]
      by_cases htarget : n.headBlockId = target
      · refine ⟨0, head, hfork.head hhead, rfl, by simp, Or.inl ⟨?_, htarget⟩⟩
        rw [popUntil_done _ htarget, hself]
      · cases hpop : n.popBlock held with
        | error message =>
            refine ⟨0, head, hfork.head hhead, rfl, by simp, Or.inr ⟨message, ?_, ?_, htarget, ?_⟩⟩
            · rw [popUntil_error _ htarget hpop, hself]
            · rw [hself]
              exact hpop
            · by_contra hboth
              push Not at hboth
              obtain ⟨hfound, hlength⟩ := hboth
              obtain ⟨parent, rest', rfl⟩ := List.exists_cons_of_length_pos hlength
              obtain ⟨found, hfound⟩ := Option.ne_none_iff_exists'.mp hfound
              have hfollows := (List.isChain_cons_cons.mp hbranch).1
              have hok := (popBlock_spec hfork hheld hhead).mpr ⟨by
                rw [fetchBlockById, show n.forkDb.find n.headBlockId = some found from hfound]
                rfl, parent, Or.inr (hrest parent (by simp)), hfollows, rfl⟩
              rw [hpop] at hok
              cases hok
        | ok next =>
            obtain ⟨-, parent, hmem, hfollows, rfl⟩ := (popBlock_spec hfork hheld hhead).mp hpop
            have hparent : parent ∈ family := hmem.elim (hfork.live parent) (hheld parent)
            have hnum := hfork.follows_num (hfork.head hhead) hparent hfollows
            have hrest' : ForkDatabase.Branch (parent :: rest.tail) ∧
                ∀ x ∈ rest.tail, x ∈ held := by
              cases rest with
              | nil => exact ⟨.singleton _, by simp⟩
              | cons y rest =>
                  obtain ⟨hfollows', hchain⟩ := List.isChain_cons_cons.mp hbranch
                  have hy := hheld y (hrest y (by simp))
                  rw [hfork.follows_unique hparent hy hfollows hfollows']
                  exact ⟨hchain, fun x hx => hrest x (List.mem_cons_of_mem y hx)⟩
            obtain ⟨count, last, hlast, hcount, hbefore, hresult⟩ :=
              ih (n := n.rewind 1 parent) (hfork.setHead hparent) rfl (by omega) hrest'.1 hrest'.2
            have hrewind : (n.rewind 1 parent).rewind count last = n.rewind (count + 1) last := by
              simp only [rewind, undo_iterate_with_forkDb, Function.iterate_succ_apply]
              rfl
            have hids : ∀ i, (undo^[i] (n.rewind 1 parent)).headBlockId =
                (undo^[i + 1] n).headBlockId := by
              intro i
              rw [rewind, undo_iterate_with_forkDb]
              rfl
            rw [hrewind, hids] at hresult
            refine ⟨count + 1, last, hlast, by omega, ?_, ?_⟩
            · intro i hi
              cases i with
              | zero => exact htarget
              | succ i =>
                  rw [← hids]
                  exact hbefore i (by omega)
            · rw [popUntil_pop _ htarget hpop]
              rcases hresult with hok | ⟨message, herror, hpopError, hne, hmissing⟩
              · exact Or.inl hok
              · refine Or.inr ⟨message, herror, hpopError, hne, hmissing.imp_right ?_⟩
                rw [List.length_tail]
                omega

/-- Popping down to the ancestor `count` blocks below the head. The fork database
must follow; whether the undo history reaches as deep decides the outcome. -/
theorem popUntil_ancestor {n : Node σ T} {blocks : List (SignedBlock T)} {head : ForkItem T}
    {rest : List (ForkItem T)} {count : Nat} (hcoherent : n.Coherent L blocks)
    (hfork : n.forkDb.Consistent family) (hheld : ∀ x ∈ held, x ∈ family)
    (hhead : n.forkDb.head = some head) (hbranch : ForkDatabase.Branch (head :: rest))
    (hrest : ∀ x ∈ rest, x ∈ held) (hcount : count ≤ rest.length)
    (hdeep : count ≤ n.headBlockNum) (htarget : target = BlockId.previous^[count] n.headBlockId)
    (hindexed : ∀ i < count, i ≤ n.undoStack.length →
      (n.forkDb.find (BlockId.previous^[i] n.headBlockId)).isSome) :
    (count ≤ n.undoStack.length → ∃ last ∈ family,
        popUntil held target n.popFuel n = (n.rewind count last, .ok ())) ∧
      (n.undoStack.length < count → ∃ last ∈ family, ∃ message,
        popUntil held target n.popFuel n =
            (n.rewind n.undoStack.length last, .error message) ∧
          last.num + rest.length ≤ head.num) := by
  have hid : ∀ i ≤ n.undoStack.length,
      (undo^[i] n).headBlockId = BlockId.previous^[i] n.headBlockId :=
    fun i hi => (hcoherent.undo_iterate hi).2.headBlockId
  have hne : ∀ i < count, BlockId.previous^[i] n.headBlockId ≠ target := by
    intro i hi heq
    have hnum := congrArg BlockId.num (heq.trans htarget)
    rw [BlockId.num_iterate, BlockId.num_iterate, hcoherent.num_headBlockId] at hnum
    omega
  have hfuel : head.num ≤ n.popFuel := by simp [popFuel, hhead]
  obtain ⟨depth, last, hlast, hdepth, hbefore, hresult⟩ :=
    popUntil_spec target hfork hheld hhead hfuel hbranch hrest
  constructor
  · intro hreach
    have hle : depth ≤ count := by
      by_contra hlt
      exact hbefore count (by omega) ((hid count hreach).trans htarget.symm)
    rcases hresult with ⟨hok, htop⟩ | ⟨message, -, -, htop, hmissing⟩
    · rw [hid depth (by omega)] at htop
      have heq : depth = count := by
        by_contra hlt
        exact hne depth (by omega) htop
      subst heq
      exact ⟨last, hlast, hok⟩
    · have hlt : depth ≠ count := by
        rintro rfl
        exact htop ((hid depth hreach).trans htarget.symm)
      rcases hmissing with hnone | hshort
      · have hsome := hindexed depth (by omega) (by omega)
        rw [← hid depth (by omega), hnone] at hsome
        cases hsome
      · omega
  · intro hshallow
    have hstuck : ∀ i, (undo^[i] n).headBlockId ≠ target ∧
        (n.forkDb.find (undo^[i] n).headBlockId).isSome := by
      intro i
      by_cases hi : i ≤ n.undoStack.length
      · rw [hid i hi]
        exact ⟨hne i (by omega), hindexed i (by omega) hi⟩
      · rw [(hcoherent.undo_exhausted (by omega)).1, hid _ le_rfl]
        exact ⟨hne _ hshallow, hindexed _ hshallow le_rfl⟩
    rcases hresult with ⟨-, htop⟩ | ⟨message, herror, -, -, hmissing⟩
    · exact absurd htop (hstuck depth).1
    · have hshort : rest.length ≤ depth := by
        rcases hmissing with hnone | hshort
        · have hsome := (hstuck depth).2
          rw [hnone] at hsome
          cases hsome
        · exact hshort
      have hexhausted := (hcoherent.undo_exhausted (show n.undoStack.length ≤ depth by omega)).1
      refine ⟨last, hlast, message, ?_, by omega⟩
      rw [herror, rewind, hexhausted]
      rfl

end Pop

section ApplyItems

variable {family : Set (ForkItem T)}

theorem applyItem_ok {n m : Node σ T} {item : ForkItem T} :
    n.applyItem L item = (m, .ok ()) ↔
      ({ n with forkDb := n.forkDb.setHead item } : Node σ T).applyInSession L item.data =
        .ok m := by
  simp only [applyItem]
  split <;> simp_all

theorem applyItem_error {n m : Node σ T} {item : ForkItem T} {message : String} :
    n.applyItem L item = (m, .error message) ↔
      m = { n with forkDb := n.forkDb.setHead item } ∧
        ({ n with forkDb := n.forkDb.setHead item } : Node σ T).applyInSession L item.data =
          .error message := by
  simp only [applyItem]
  split
  next applied happlied => simp [happlied]
  next message' herror =>
    rw [herror]
    simp only [Prod.mk.injEq, Except.error.injEq]
    exact and_congr_left' eq_comm

theorem applyItems_cons_none {n m : Node σ T} {item : ForkItem T} {rest : List (ForkItem T)} :
    applyItems L (item :: rest) n = (m, none) ↔
      ∃ applied, n.applyItem L item = (applied, .ok ()) ∧ applyItems L rest applied = (m, none) := by
  rw [applyItems]
  split
  next applied happlied => simp [happlied]
  next failed message hfailed => simp [hfailed]

/-- A branch that does not apply splits at its first throwing item, which stays the
head of the fork database. -/
theorem applyItems_some {n m : Node σ T} {items failed : List (ForkItem T)} {message : String}
    (h : applyItems L items n = (m, some (message, failed))) :
    ∃ before item after stop, items = before ++ item :: after ∧ failed = item :: after ∧
      applyItems L before n = (stop, none) ∧ stop.applyItem L item = (m, .error message) := by
  induction items generalizing n with
  | nil => simp [applyItems] at h
  | cons item rest ih =>
      rw [applyItems] at h
      split at h
      next applied happlied =>
        obtain ⟨before, x, after, stop, rfl, hfailed, hstop, hx⟩ := ih h
        exact ⟨item :: before, x, after, stop, rfl, hfailed,
          applyItems_cons_none.mpr ⟨applied, happlied, hstop⟩, hx⟩
      next failed' message' hfailed =>
        simp only [Prod.mk.injEq, Option.some.injEq] at h
        obtain ⟨rfl, rfl, rfl⟩ := h
        exact ⟨[], item, rest, n, rfl, rfl, rfl, hfailed⟩

/-- What the application of a branch leaves. -/
structure BranchApplied (L : LedgerLogic σ T) (n : Node σ T) (blocks : List (SignedBlock T))
    (items : List (ForkItem T)) (m : Node σ T) : Prop where
  state : n.state.applyAll L (items.map (·.data)) = .ok m.state
  coherent : ∃ newer older olderStack, (items.map (·.data)).reverse ++ blocks = newer ++ older ∧
    m.Coherent L newer ∧ History L n.committed m.committed olderStack older
  committedNum : m.committedNum = max n.committedNum m.state.dgp.lastIrreversibleBlockNum
  headBlockNum : m.headBlockNum = n.headBlockNum + items.length
  headBlockId : ∀ last, items.getLast? = some last → m.headBlockId = last.id
  ancestor : BlockId.previous^[items.length] m.headBlockId = n.headBlockId
  stack : ∃ sessions : List (UndoState σ), m.undoStack <+: sessions ++ n.undoStack ∧
    sessions.length = items.length ∧ ∀ oldest, sessions.getLast? = some oldest →
      oldest.old = n.state
  head : m.forkDb.head = (items.getLast?).or n.forkDb.head
  nextRef : m.forkDb.nextRef = n.forkDb.nextRef
  size : items ≠ [] → m.forkDb.maxSize =
    m.headBlockNum - m.state.dgp.lastIrreversibleBlockNum + 1
  trimmed : m.forkDb.index.Sublist n.forkDb.index
  kept : ∀ x ∈ n.forkDb.index, m.state.dgp.lastIrreversibleBlockNum ≤ x.num + 1 →
    x ∈ m.forkDb.index
  log : ∃ written, m.blockLog = n.blockLog ++ written

theorem branchApplied {items : List (ForkItem T)} {n m : Node σ T}
    {blocks : List (SignedBlock T)} (hcoherent : n.Coherent L blocks)
    (h : applyItems L items n = (m, none)) : BranchApplied L n blocks items m := by
  induction items generalizing n blocks with
  | nil =>
      cases h
      exact {
        state := rfl
        coherent := ⟨blocks, [], [], by simp, hcoherent, .committed⟩
        committedNum := (max_eq_left hcoherent.irreversible).symm
        headBlockNum := rfl
        headBlockId := by simp
        ancestor := rfl
        stack := ⟨[], by simp, rfl, by simp⟩
        head := rfl
        nextRef := rfl
        size := by simp
        trimmed := .refl _
        kept := fun x hx _ => hx
        log := ⟨[], by simp⟩ }
  | cons item rest ih =>
      obtain ⟨next, hitem, hrest⟩ := applyItems_cons_none.mp h
      have hmoved := hcoherent.congr (n.forkDb.setHead item)
      obtain ⟨written, happlied⟩ := applyInSession_spec (applyItem_ok.mp hitem)
      obtain ⟨newer, older, olderStack, hblocks, hnext, hhistory, hcommitted, hnum, hid⟩ :=
        hmoved.applied happlied
      have hafter := ih hnext hrest
      have hirreversible : next.state.dgp.lastIrreversibleBlockNum ≤
          m.state.dgp.lastIrreversibleBlockNum :=
        forEach_invariant
          (fun s => next.state.dgp.lastIrreversibleBlockNum ≤ s.dgp.lastIrreversibleBlockNum)
          (fun _ _ _ _ hle hstep => hle.trans (ChainState.applyBlock_irreversible_le hstep))
          le_rfl hafter.state
      have hheads : item.num = next.headBlockNum := happlied.heads item rfl
      exact {
        state := forEach_cons_eq_ok.mpr ⟨next.state, happlied.state, hafter.state⟩
        coherent := by
          obtain ⟨newer', older', olderStack', hblocks', hm, hhistory'⟩ := hafter.coherent
          refine ⟨newer', older' ++ older, olderStack' ++ olderStack, ?_, hm,
            hhistory.trans hhistory'⟩
          rw [List.map_cons, List.reverse_cons, List.append_assoc, List.singleton_append, hblocks,
            ← List.append_assoc, hblocks', List.append_assoc]
        committedNum := by
          have hfirst : next.committedNum =
              max n.committedNum next.state.dgp.lastIrreversibleBlockNum := hcommitted
          rw [hafter.committedNum, hfirst, max_assoc, max_eq_right hirreversible]
        headBlockNum := by
          have hfirst : next.headBlockNum = n.headBlockNum + 1 := hnum
          rw [hafter.headBlockNum, hfirst, List.length_cons]
          omega
        headBlockId := by
          intro last hlast
          cases rest with
          | nil =>
              cases hlast
              cases hrest
              exact hid
          | cons y rest => exact hafter.headBlockId last (by rwa [List.getLast?_cons_cons] at hlast)
        ancestor := by
          rw [List.length_cons, Function.iterate_succ_apply', hafter.ancestor, hid,
            SignedBlock.previous_id]
          exact (ChainState.applyBlock_previous happlied.state).symm
        stack := by
          obtain ⟨sessions, hprefix, hlength, -⟩ := hafter.stack
          refine ⟨sessions ++ [⟨n.revision + 1, n.state⟩], ?_, by simp [hlength], ?_⟩
          · refine hprefix.trans ?_
            rw [List.append_assoc, List.prefix_append_right_inj, happlied.undoStack]
            exact List.takeWhile_prefix _
          · intro oldest holdest
            rw [List.getLast?_concat] at holdest
            cases holdest
            rfl
        head := by
          rw [hafter.head, happlied.forkDb, ForkDatabase.setMaxSize_head, List.getLast?_cons]
          cases rest.getLast? <;> rfl
        nextRef := by
          rw [hafter.nextRef, happlied.forkDb, ForkDatabase.setMaxSize_nextRef]
          rfl
        size := by
          intro _
          by_cases hnil : rest = []
          · subst hnil
            cases hrest
            rw [happlied.forkDb, ForkDatabase.setMaxSize_maxSize]
          · exact hafter.size hnil
        trimmed := by
          refine hafter.trimmed.trans ?_
          rw [happlied.forkDb]
          exact ForkDatabase.setMaxSize_sublist _ _
        kept := by
          intro x hx hnum'
          refine hafter.kept x ?_ hnum'
          have hsound := (hmoved.state_sound.applyBlock happlied.state).irreversible
          rw [happlied.forkDb, ForkDatabase.mem_setMaxSize]
          refine ⟨hx, ?_⟩
          intro head hhead
          cases hhead
          change next.state.dgp.lastIrreversibleBlockNum ≤ next.headBlockNum at hsound
          omega
        log := by
          obtain ⟨written', hwritten'⟩ := hafter.log
          refine ⟨written ++ written', ?_⟩
          rw [hwritten', happlied.blockLog, List.append_assoc] }

theorem BranchApplied.consistent {n m : Node σ T} {blocks : List (SignedBlock T)}
    {items : List (ForkItem T)} (h : BranchApplied L n blocks items m)
    (hfork : n.forkDb.Consistent family) (hitems : ∀ x ∈ items, x ∈ family) :
    m.forkDb.Consistent family := by
  refine hfork.trim h.trimmed ?_ h.nextRef
  intro head hhead
  rw [h.head] at hhead
  cases hlast : items.getLast? with
  | none =>
      rw [hlast] at hhead
      exact hfork.head hhead
  | some last =>
      rw [hlast] at hhead
      cases hhead
      exact hitems _ (List.mem_of_getLast? hlast)

/-- Undoing as many sessions as the branch has items returns to where it began. -/
theorem BranchApplied.undone {n m : Node σ T} {blocks : List (SignedBlock T)}
    {items : List (ForkItem T)} (h : BranchApplied L n blocks items m)
    (hdepth : items.length ≤ m.undoStack.length) :
    (undo^[items.length] m).state = n.state := by
  cases hlength : items.length with
  | zero =>
      have hnil := List.length_eq_zero_iff.mp hlength
      subst hnil
      exact (Except.ok.inj h.state).symm
  | succ count =>
      obtain ⟨sessions, hprefix, hsessions, holdest⟩ := h.stack
      have hcount : count < m.undoStack.length := by omega
      have hget := hprefix.getElem hcount
      rw [List.getElem_append_left (by omega)] at hget
      rw [Coherent.undo_iterate_state m (List.getElem?_eq_getElem hcount)]
      refine holdest _ ?_
      rw [List.getLast?_eq_getElem?, hsessions, hlength, Nat.add_sub_cancel, hget]
      exact List.getElem?_eq_getElem (by omega)

end ApplyItems

end Node

end Blurt
