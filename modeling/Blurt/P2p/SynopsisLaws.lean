import Blurt.ForkChain.Agreement
import Blurt.P2p.Synopsis

/-! # The sync handshake

On a node whose fork database follows its chain, a block id looked up by number is
the id of the chain. The loop of the synopsis ends exactly when its arithmetic stays
inside 32 bits; it then describes the branch that ends in the reference point, and a
peer that shares the first block of the description lists its own chain from the
highest block it shares.
-/

namespace Blurt

open Outcome

variable {σ T : Type}

namespace BlockId

/-- The block of a number on the chain below an id. -/
def ancestorAt (id : BlockId) (num : Nat) : BlockId := previous^[id.num - num] id

theorem num_ancestorAt {id : BlockId} {num : Nat} (h : num ≤ id.num) :
    (id.ancestorAt num).num = num := by
  rw [ancestorAt, num_iterate]
  omega

theorem descends_ancestorAt (id : BlockId) (num : Nat) : id.Descends (id.ancestorAt num) :=
  descends_iterate id _

theorem Descends.eq_ancestorAt {id ancestor : BlockId} (h : id.Descends ancestor) :
    ancestor = id.ancestorAt ancestor.num := h.eq_iterate

theorem Descends.ancestorAt_eq {id ancestor : BlockId} (h : id.Descends ancestor) {num : Nat}
    (hnum : num ≤ ancestor.num) : id.ancestorAt num = ancestor.ancestorAt num := by
  have hbelow := h.trans (descends_ancestorAt ancestor num)
  rw [hbelow.eq_ancestorAt, num_ancestorAt hnum]

theorem ancestorAt_num (id : BlockId) : id.ancestorAt id.num = id :=
  (Descends.refl id).eq_ancestorAt.symm

theorem getElem?_ancestry {id : BlockId} {num : Nat} (hpos : 0 < num) (hnum : num ≤ id.num) :
    id.ancestry[num - 1]? = some (id.ancestorAt num) := by
  induction id with
  | zero => simp at hnum; omega
  | hash previous header ih =>
      rcases Nat.lt_or_ge previous.num num with hlt | hle
      · have heq : num = (hash previous header).num := by
          rw [num_hash] at hnum ⊢
          omega
        rw [heq, ancestorAt_num, ancestry, num_hash, Nat.add_sub_cancel, ← length_ancestry previous,
          List.getElem?_concat_length]
      · rw [ancestry, List.getElem?_append_left (by rw [length_ancestry]; omega), ih hle,
          ((Descends.refl previous).step header).ancestorAt_eq hle]

theorem mem_ancestry {id ancestor : BlockId} :
    ancestor ∈ id.ancestry ↔ id.Descends ancestor ∧ 0 < ancestor.num := by
  induction id with
  | zero => simp +contextual [ancestry, Descends, Nat.pos_iff_ne_zero]
  | hash previous header ih =>
      rw [ancestry, List.mem_append, ih, List.mem_singleton, Descends]
      constructor
      · rintro (⟨hbelow, hpos⟩ | rfl)
        · exact ⟨Or.inr hbelow, hpos⟩
        · exact ⟨Or.inl rfl, Nat.succ_pos _⟩
      · rintro ⟨rfl | hbelow, hpos⟩
        · exact Or.inr rfl
        · exact Or.inl ⟨hbelow, hpos⟩

end BlockId

/-! ## Looking up a block id by number -/

namespace ChainState

/-- What looking up a block by number relies on: every block summary is of the own chain,
the latest ones are all there, and the undo history is shorter than their table. Blocks are
at least one interval apart. -/
structure Tabulated (startNum : Nat) (s : ChainState (Summarized σ)) : Prop where
  own : ∀ slot, s.dgp.headBlockId.Descends (s.ledger.blockSummary slot)
  recent : ∀ id, s.dgp.headBlockId.Descends id → 0 < id.num →
    s.dgp.headBlockNumber < id.num + 2 ^ 16 → s.ledger.blockSummary (id.num % 2 ^ 16) = id
  undoable : s.dgp.headBlockNumber = startNum ∨
    s.dgp.headBlockNumber < s.dgp.lastIrreversibleBlockNum + 2 ^ 16
  clock : s.dgp.time < 2 ^ 32 → s.dgp.headBlockNumber * blurtBlockInterval ≤ s.dgp.time

variable {L : LedgerLogic (Summarized σ) T} {s s' : ChainState (Summarized σ)} {b : SignedBlock T}

/-- A block writes its own id into the block summaries, moves the clock forward, and is
refused when it would make the undo history too long. -/
theorem applyBlock_withSummaries (h : s.applyBlock L.withSummaries b = .ok s') :
    s'.ledger.blockSummary =
        Function.update s.ledger.blockSummary (b.blockNum % 2 ^ 16) b.id ∧
      s'.dgp.headBlockNumber < s'.dgp.lastIrreversibleBlockNum + blurtMaxUndoHistory ∧
      s.dgp.time < s'.dgp.time ∧ s.getSlotTime 1 ≤ s'.dgp.time := by
  simp only [applyBlock, bind_eq_ok, pure_eq_ok] at h
  obtain ⟨_, -, _, hheader, ledger, htransactions, updated, hupdated, confirmed, hconfirmed, ledger',
    hmaintenance, rfl⟩ := h
  simp only [LedgerLogic.withSummaries, bind_eq_ok, pure_eq_ok] at htransactions hmaintenance
  obtain ⟨after, -, rfl⟩ := htransactions
  obtain ⟨after', -, rfl⟩ := hmaintenance
  have hkept := (updateGlobalDynamicData_spec hupdated).2.2.2.1
  obtain ⟨num, -, rfl⟩ := updateLastIrreversibleBlock_spec hconfirmed
  simp only [updateGlobalDynamicData, bind_eq_ok, ensure_eq_ok, exists_and_left, exists_const,
    pure_eq_ok] at hupdated
  obtain ⟨production, -, hundo, rfl⟩ := hupdated
  simp only [validateBlockHeader, bind_eq_ok, ensure_eq_ok] at hheader
  obtain ⟨_, -, _, htime, _, -, _, -, _, hslot, -⟩ := hheader
  refine ⟨?_, ?_, htime, ?_⟩
  · rfl
  · have hraised := le_max_left s.dgp.lastIrreversibleBlockNum num
    change (b.blockNum : Int) - s.dgp.lastIrreversibleBlockNum < _ at hundo
    change b.blockNum < max s.dgp.lastIrreversibleBlockNum num + _
    omega
  · by_contra hearly
    change ¬ s.getSlotTime 1 ≤ b.header.timestamp at hearly
    rw [getSlotAtTime, if_pos (not_le.mp hearly)] at hslot
    omega

theorem Tabulated.applyBlock {startNum : Nat} (hs : s.Tabulated startNum) (hsound : s.Sound)
    (h : s.applyBlock L.withSummaries b = .ok s') :
    s'.Tabulated startNum := by
  obtain ⟨hsummary, hundo, htime, hslot⟩ := applyBlock_withSummaries h
  have hid := applyBlock_headBlockId h
  have hnum := applyBlock_headBlockNumber h
  have hprevious := applyBlock_previous h
  have hsucc : b.blockNum = s.dgp.headBlockNumber + 1 := by
    rw [SignedBlock.blockNum, ← hprevious, hsound.number]
  have hold : ∀ id, s.dgp.headBlockId.Descends id → s'.dgp.headBlockId.Descends id := by
    intro id hdescends
    rw [hid]
    rw [hprevious] at hdescends
    exact hdescends.step b.header
  refine ⟨?_, ?_, ?_, ?_⟩
  · intro slot
    rw [hsummary, Function.update_apply]
    split
    · rw [hid]
      exact .refl _
    · exact hold _ (hs.own slot)
  · intro id hdescends hpos hrecent
    rw [hid] at hdescends
    rw [hsummary, Function.update_apply]
    rcases hdescends with rfl | hbelow
    · exact if_pos rfl
    · rw [← hprevious] at hbelow
      have hle := hbelow.num_le
      rw [← hsound.number] at hle
      rw [if_neg (by omega)]
      exact hs.recent id hbelow hpos (by omega)
  · right
    have hbound : blurtMaxUndoHistory ≤ 2 ^ 16 := by decide
    omega
  · intro hend
    have hclock := hs.clock (by omega)
    have hinterval : blurtBlockInterval = 3 := rfl
    rw [getSlotTime, if_neg (by decide)] at hslot
    rw [hinterval] at hclock hslot ⊢
    split at hslot <;> omega

/-- The block summaries are in order in every state that blocks lead to. -/
theorem Reached.tabulated {known : Set (SignedBlock T)} {start : ChainState (Summarized σ)}
    (hstart : start.Tabulated start.dgp.headBlockNumber) (hsound : start.Sound)
    (h : Reached L.withSummaries known start s) :
    s.Tabulated start.dgp.headBlockNumber ∧ s.Sound := by
  induction h with
  | start => exact ⟨hstart, hsound⟩
  | step _ _ happly ih => exact ⟨ih.1.applyBlock ih.2 happly, ih.2.applyBlock happly⟩

end ChainState

namespace Node

variable {L : LedgerLogic (Summarized σ) T}

/-- The block log and the fork database hold the chain of the node, each block linked to its
parent above the end of the log, and the fork database holds nothing above the head. -/
structure Tidy (n : Node σ T) : Prop where
  log : n.blockLog.map SignedBlock.id = n.headBlockId.ancestry.take n.blockLog.length
  low : ∀ x ∈ n.forkDb.index, x.num ≤ n.headBlockNum
  stored : ∀ id, n.headBlockId.Descends id → n.blockLog.length ≤ id.num → 0 < id.num →
    ∃ item ∈ n.forkDb.index, item.id = id
  linked : ∀ x ∈ n.forkDb.index, n.headBlockId.Descends x.id → n.blockLog.length + 1 < x.num →
    ∃ parent ∈ n.forkDb.index, x.Follows parent

/-- A run of smooth calls leaves the node tidy. -/
theorem run_tidy {L : LedgerLogic σ T} {state : ChainState σ} {blockLog : List (SignedBlock T)}
    (hopens : Opens state blockLog)
    (hlog : blockLog.map SignedBlock.id = state.dgp.headBlockId.ancestry)
    (pushes : List (SignedBlock T))
    (hsmooth : ∀ before b after, pushes = before ++ b :: after →
      (run L (opened state blockLog) before).Smooth L state.dgp.headBlockNumber b) :
    (run L (opened state blockLog) pushes).Tidy := by
  obtain ⟨family, blocks, chain, haligned⟩ := run_aligned hopens pushes hsmooth
  obtain ⟨hrecord, hlength, hirreversible, -⟩ := run_blockLog (L := L) hopens hlog pushes
  have hcoherent := haligned.valid.coherent
  have hheight := hcoherent.headBlockNum_eq
  have hstartLe := haligned.backed.start_le
  refine ⟨?_, haligned.low, ?_, ?_⟩
  · refine (hrecord ?_).1
    intro before b after hsplit
    have hsmooth' : ∀ before' b' after', before = before' ++ b' :: after' →
        (run L (opened state blockLog) before').Smooth L state.dgp.headBlockNumber b' := by
      intro before' b' after' hsplit'
      exact hsmooth before' b' (after' ++ b :: after) (by rw [hsplit, hsplit']; simp)
    obtain ⟨_, _, _, haligned'⟩ := run_aligned hopens before hsmooth'
    exact haligned'.keepsRecord
  · intro id hid hnum hpos
    rw [hlength] at hnum
    obtain ⟨x, hx, hxId⟩ := haligned.backed.find hcoherent haligned.valid.fork hid
      (by rw [floorNum]; omega)
    exact ⟨x, haligned.backed.indexed x (List.mem_of_getElem? hx), hxId⟩
  · intro x hx hid hnum
    rw [hlength] at hnum
    have hxNum : x.id.num = x.num := x.num_id
    obtain ⟨item, hitem, hitemId, hparent⟩ := haligned.agrees.indexed x.id hid (by omega) (by omega)
      (by omega)
    have hsame := haligned.valid.fork.eq_of_id_eq hitem hx hitemId
    subst hsame
    obtain ⟨parent, hmem, hfollows, -⟩ := hparent (by omega) (by
      intro hzero
      have hprevious := BlockId.num_previous item.id
      rw [hzero, BlockId.num_zero] at hprevious
      omega)
    exact ⟨parent, hmem, hfollows⟩

/-- A node that any run of `push_block` calls reaches from an opened one and that is tidy,
before the end of 32 bit time. -/
structure Settled (L : LedgerLogic (Summarized σ) T) (n : Node (Summarized σ) T) : Prop where
  reached : ∃ state blockLog pushes, Opens state blockLog ∧
    blockLog.map SignedBlock.id = state.dgp.headBlockId.ancestry ∧
    state.Tabulated state.dgp.headBlockNumber ∧
    n = run L.withSummaries (opened state blockLog) pushes
  tidy : n.Tidy
  clock : n.state.dgp.time < 2 ^ 32

/-- What a lookup can rely on. -/
structure Indexed (n : Node (Summarized σ) T) : Prop extends Tidy n where
  tabulated : ∃ startNum ≤ n.blockLog.length, n.state.Tabulated startNum
  number : n.headBlockNum = n.headBlockId.num
  small : n.headBlockNum < 2 ^ 31
  logHead : n.logHeadNum = n.blockLog.length
  logLow : n.blockLog.length ≤ n.headBlockNum
  irreversible : n.lastNonUndoableBlockNum ≤ n.blockLog.length
  consistent : ∃ family, n.forkDb.Consistent family

theorem Settled.indexed {n : Node (Summarized σ) T} (h : Settled L n) : n.Indexed := by
  obtain ⟨state, blockLog, pushes, hopens, hlog, hstart, rfl⟩ := h.reached
  obtain ⟨_, hopened⟩ := hopens.valid (L := L.withSummaries)
  obtain ⟨family, blocks, hvalid⟩ := run_valid hopened pushes
  have hcoherent := hvalid.coherent
  obtain ⟨htabulated, hsound⟩ :=
    (run_reached (L := L.withSummaries) hopens pushes).tabulated hstart hopens.sound
  obtain ⟨stack, newer, hadvances⟩ := run_advances hopened pushes
  have hcommitted := hadvances.headBlockNumber hopened.coherent.sound
  have hopenedNum : (opened state blockLog : Node (Summarized σ) T).committedNum =
      state.dgp.headBlockNumber := rfl
  have hbelow := htabulated.clock h.clock
  have hheight := hcoherent.headBlockNum_eq
  have hlength := hcoherent.log
  have hinterval : blurtBlockInterval = 3 := rfl
  have hclock := h.clock
  change (run L.withSummaries (opened state blockLog) pushes).headBlockNum * _ ≤ _ at hbelow
  rw [hinterval] at hbelow
  refine ⟨h.tidy, ⟨state.dgp.headBlockNumber, ?_, htabulated⟩, hsound.number, ?_, ?_, ?_, ?_, family,
    hvalid.fork⟩
  · rw [hlength, ← hopenedNum, committedNum, committedNum, hcommitted]
    exact Nat.le_add_right _ _
  · omega
  · rw [hcoherent.logHead, hlength]
  · rw [hlength]
    omega
  · rw [hlength]
    exact hcoherent.irreversible

namespace Indexed

variable {n : Node (Summarized σ) T}

theorem readBlockByNum_eq (h : n.Indexed) {num : Nat} (hpos : 0 < num)
    (hnum : num ≤ n.blockLog.length) :
    ∃ b, n.readBlockByNum num = .ok (some b) ∧ b.id = n.headBlockId.ancestorAt num := by
  have hlow := h.logLow
  rw [h.number] at hlow
  obtain ⟨b, hb⟩ : ∃ b, n.blockLog[num - 1]? = some b :=
    ⟨_, List.getElem?_eq_getElem (by omega)⟩
  have hget : (n.blockLog.map SignedBlock.id)[num - 1]? = some b.id := by
    rw [List.getElem?_map, hb]
    rfl
  rw [h.log, List.getElem?_take_of_lt (by omega),
    BlockId.getElem?_ancestry hpos (hnum.trans hlow)] at hget
  have hid := (Option.some.inj hget).symm
  have hblockNum : b.blockNum = num := by
    rw [← SignedBlock.num_id, hid, BlockId.num_ancestorAt (hnum.trans hlow)]
  refine ⟨b, ?_, hid⟩
  rw [readBlockByNum, if_pos ⟨hpos, by rwa [h.logHead]⟩, hb, require, ok_bind, ensure,
    if_pos hblockNum]
  rfl

/-- A number up to the head is looked up to the block of the chain at that height. -/
theorem findBlockIdForNum_eq (h : n.Indexed) {num : Nat} (hpos : 0 < num)
    (hnum : num ≤ n.headBlockNum) :
    n.findBlockIdForNum num = .ok (n.headBlockId.ancestorAt num) := by
  obtain ⟨startNum, hstart, htabulated⟩ := h.tabulated
  have hheight := BlockId.num_ancestorAt (show num ≤ n.headBlockId.num by rwa [← h.number])
  have hown := htabulated.own (num % 2 ^ 16)
  rw [findBlockIdForNum, if_neg (by omega)]
  split
  next hsame =>
    have heq := hown.eq_ancestorAt
    rw [hsame] at heq
    exact congrArg Except.ok heq
  next hother =>
    have hold : num + 2 ^ 16 ≤ n.headBlockNum := by
      by_contra hrecent
      apply hother
      have hentry := htabulated.recent _ (BlockId.descends_ancestorAt n.headBlockId num)
        (by omega) (by rw [hheight]; exact not_le.mp hrecent)
      rw [hheight] at hentry
      rw [hentry, hheight]
    have hundoable := htabulated.undoable
    have hirreversible := h.irreversible
    change n.headBlockNum = startNum ∨ n.headBlockNum < n.lastNonUndoableBlockNum + 2 ^ 16 at hundoable
    obtain ⟨b, hread, hid⟩ := h.readBlockByNum_eq hpos (by omega)
    rw [hread, ok_bind, ← hid]
    rfl

theorem getBlockIdForNum_eq (h : n.Indexed) {num : Nat} (hpos : 0 < num)
    (hnum : num ≤ n.headBlockNum) :
    n.getBlockIdForNum num = .ok (n.headBlockId.ancestorAt num) := by
  have hne : n.headBlockId.ancestorAt num ≠ .zero := by
    intro hzero
    have hheight := BlockId.num_ancestorAt (show num ≤ n.headBlockId.num by rwa [← h.number])
    rw [hzero, BlockId.num_zero] at hheight
    omega
  rw [getBlockIdForNum, h.findBlockIdForNum_eq hpos hnum, ok_bind, ensure, if_pos hne]
  rfl

/-- A block up to the head is included exactly when it is on the chain. -/
theorem isIncludedBlock_eq (h : n.Indexed) {id : BlockId} (hpos : 0 < id.num)
    (hnum : id.num ≤ n.headBlockNum) :
    ∃ included, n.isIncludedBlock id = .ok included ∧
      (included = true ↔ n.headBlockId.Descends id) := by
  refine ⟨decide (id = n.headBlockId.ancestorAt id.num), ?_, ?_⟩
  · rw [isIncludedBlock, h.getBlockIdForNum_eq hpos hnum, ok_bind]
    rfl
  · rw [decide_eq_true_iff]
    constructor
    · intro heq
      rw [heq]
      exact BlockId.descends_ancestorAt _ _
    · exact BlockId.Descends.eq_ancestorAt

/-- Every block of the chain is known. -/
theorem isKnownBlock_of_descends (h : n.Indexed) {id : BlockId} (hpos : 0 < id.num)
    (hid : n.headBlockId.Descends id) : n.isKnownBlock id = true := by
  rw [isKnownBlock, fetchBlockById]
  split
  next => rfl
  next hnone =>
    rcases Nat.lt_or_ge id.num n.blockLog.length with hlogged | habove
    · obtain ⟨b, hread, hbId⟩ := h.readBlockByNum_eq hpos hlogged.le
      have hmem : b ∈ n.blockLog := by
        rw [readBlockByNum] at hread
        split at hread
        · obtain ⟨c, hc, hread⟩ := bind_eq_ok.mp hread
          obtain ⟨_, -, hread⟩ := bind_eq_ok.mp hread
          cases hread
          exact List.mem_of_getElem? (require_eq_ok.mp hc)
        · cases hread
      rw [List.find?_isSome]
      exact ⟨b, hmem, by simp [hbId, hid.eq_ancestorAt.symm]⟩
    · obtain ⟨item, hitem, hitemId⟩ := h.stored id hid habove hpos
      exact absurd hitemId (ForkDatabase.find_eq_none.mp hnone item hitem)

/-- No known block is above the head. -/
theorem num_le_of_isKnownBlock (h : n.Indexed) {id : BlockId} (hknown : n.isKnownBlock id = true) :
    0 < id.num ∧ id.num ≤ n.headBlockNum := by
  rw [isKnownBlock, fetchBlockById] at hknown
  split at hknown
  next item hitem =>
    obtain ⟨hmem, rfl⟩ := ForkDatabase.find_spec hitem
    exact ⟨Nat.succ_pos _, h.low item hmem⟩
  next =>
    obtain ⟨b, hb, hbId⟩ := List.find?_isSome.mp hknown
    have hbId : b.id = id := by simpa using hbId
    have hmem : b.id ∈ n.blockLog.map SignedBlock.id := List.mem_map_of_mem hb
    rw [h.log] at hmem
    obtain ⟨hdescends, hpos⟩ := BlockId.mem_ancestry.mp (List.mem_of_mem_take hmem)
    rw [hbId] at hdescends hpos
    exact ⟨hpos, by rw [h.number]; exact hdescends.num_le⟩

/-- The search returns the first listed id that is on the chain. -/
theorem lastKnownBlockId_spec (h : n.Indexed) (ids : List BlockId) (hpos : ∀ id ∈ ids, 0 < id.num)
    (hshared : ∃ id ∈ ids, n.headBlockId.Descends id) :
    ∃ before id after, ids = before ++ id :: after ∧ n.headBlockId.Descends id ∧
      (∀ x ∈ before, ¬ n.headBlockId.Descends x) ∧ n.lastKnownBlockId ids = .ok id := by
  induction ids with
  | nil => simp at hshared
  | cons id rest ih =>
      have hidPos := hpos id List.mem_cons_self
      have hne : id ≠ .zero := by
        rintro rfl
        simp at hidPos
      by_cases hown : n.headBlockId.Descends id
      · refine ⟨[], id, rest, rfl, hown, by simp, ?_⟩
        have hknown := h.isKnownBlock_of_descends hidPos hown
        obtain ⟨included, hincluded, hiff⟩ :=
          h.isIncludedBlock_eq hidPos (h.num_le_of_isKnownBlock hknown).2
        rw [hiff.mpr hown] at hincluded
        rw [lastKnownBlockId, if_neg hne, if_pos hknown, hincluded]
        rfl
      · obtain ⟨before, found, after, rfl, hfound, hbefore, hrest⟩ :=
          ih (fun x hx => hpos x (List.mem_cons_of_mem _ hx)) (by simpa [hown] using hshared)
        refine ⟨id :: before, found, after, rfl, hfound, ?_, ?_⟩
        · exact List.forall_mem_cons.mpr ⟨hown, hbefore⟩
        · rw [lastKnownBlockId, if_neg hne]
          split
          next hknown =>
            obtain ⟨included, hincluded, hiff⟩ :=
              h.isIncludedBlock_eq hidPos (h.num_le_of_isKnownBlock hknown).2
            have hfalse : included = false := by
              rw [← Bool.not_eq_true, hiff]
              exact hown
            rw [hincluded, hfalse, ok_bind]
            exact hrest
          next => exact hrest

/-- The listing loop adds the ids of the chain, one number after the other. -/
theorem listBlockId_drain (h : n.Indexed) (limit turns num : Nat) (listed : List BlockId)
    (hpos : 0 < num) (hnum : num ≤ n.headBlockNum + 1) (hlisted : listed.length ≤ limit)
    (hturns : limit - listed.length < turns) :
    ∃ next, drain
      (fun progress : Nat × List BlockId =>
        if progress.1 ≤ n.headBlockNum ∧ progress.2.length < limit then some progress.1 else none)
      n.listBlockId turns (num, listed) =
        .ok (next, listed ++ (n.headBlockId.ancestry.drop (num - 1)).take (limit - listed.length)) := by
  have hsmall := h.small
  have hlength : n.headBlockId.ancestry.length = n.headBlockNum := by
    rw [BlockId.length_ancestry, h.number]
  induction turns generalizing num listed with
  | zero => omega
  | succ turns ih =>
      rw [drain]
      by_cases hmore : num ≤ n.headBlockNum ∧ listed.length < limit
      · rw [if_pos hmore]
        have hget := BlockId.getElem?_ancestry hpos (h.number ▸ hmore.1)
        have hdrop : n.headBlockId.ancestry.drop (num - 1) =
            n.headBlockId.ancestorAt num :: n.headBlockId.ancestry.drop num := by
          obtain ⟨hlt, heq⟩ := List.getElem?_eq_some_iff.mp hget
          rw [List.drop_eq_getElem_cons hlt, heq, Nat.sub_add_cancel hpos]
        have hstep : n.listBlockId (num, listed) num =
            .ok (num + 1, listed ++ [n.headBlockId.ancestorAt num]) := by
          rw [listBlockId, if_pos hpos, h.getBlockIdForNum_eq hpos hmore.1, ok_bind,
            Nat.mod_eq_of_lt (by omega)]
          rfl
        have hroom : limit - listed.length = limit - (listed.length + 1) + 1 := by omega
        have hgrown : (listed ++ [n.headBlockId.ancestorAt num]).length = listed.length + 1 := by simp
        obtain ⟨next, hnext⟩ := ih (num + 1) (listed ++ [n.headBlockId.ancestorAt num])
          (Nat.succ_pos num) (by omega) (by omega) (by omega)
        refine ⟨next, ?_⟩
        dsimp only
        rw [hstep, ok_bind, hnext, hdrop, hroom, List.take_succ_cons, hgrown,
          Nat.add_sub_cancel, List.append_assoc, List.singleton_append]
      · rw [if_neg hmore]
        refine ⟨num, ?_⟩
        have hempty : (n.headBlockId.ancestry.drop (num - 1)).take (limit - listed.length) = [] := by
          rw [List.take_eq_nil_iff]
          rcases not_and_or.mp hmore with hend | hfull
          · right
            rw [List.drop_eq_nil_iff]
            omega
          · left
            omega
        rw [hempty, List.append_nil]

end Indexed

/-- What a peer should answer: the ids of its own chain from the highest shared block on,
as many as it may list, and how many are left. -/
structure Answers (n : Node (Summarized σ) T) (synopsis : List BlockId) (limit : Nat)
    (listed : List BlockId) (remaining : Nat) : Prop where
  shared : ∃ id ∈ synopsis, n.headBlockId.Descends id ∧
    (∀ other ∈ synopsis, n.headBlockId.Descends other → other.num ≤ id.num) ∧
    listed.head? = some id ∧
    listed = (n.headBlockId.ancestry.drop (id.num - 1)).take limit
  counted : ∃ last, listed.getLast? = some last ∧ remaining = n.headBlockNum - last.num

/-- A rising synopsis that shares a block with the chain is answered. -/
theorem Indexed.getBlockIds_answers {n : Node (Summarized σ) T} (h : n.Indexed)
    {synopsis : List BlockId} {limit : Nat} (hlimit : 0 < limit)
    (hrising : (synopsis.map BlockId.num).Pairwise (· < ·)) (hpos : ∀ id ∈ synopsis, 0 < id.num)
    (hshared : ∃ id ∈ synopsis, n.headBlockId.Descends id) :
    ∃ listed remaining, n.getBlockIds synopsis limit = .ok (listed, remaining) ∧
      n.Answers synopsis limit listed remaining := by
  obtain ⟨before, id, after, hsplit, hown, hbefore, hlast⟩ :=
    h.lastKnownBlockId_spec synopsis.reverse (by simpa using hpos) (by simpa using hshared)
  have hsynopsis : synopsis = after.reverse ++ id :: before.reverse := by
    rw [← List.reverse_inj, hsplit]
    simp
  have hmem : id ∈ synopsis := by simp [hsynopsis]
  have hidPos := hpos id hmem
  have hle := hown.num_le
  rw [← h.number] at hle
  have hhead : n.headBlockNum ≠ 0 := by omega
  have hsome : ¬ (synopsis = [] ∨ synopsis = [.zero]) := by
    rintro (hnil | hzero)
    · simp [hnil] at hmem
    · rw [hzero, List.mem_singleton] at hmem
      rw [hmem, BlockId.num_zero] at hidPos
      omega
  obtain ⟨next, hdrain⟩ := h.listBlockId_drain limit (limit + 3) id.num [] hidPos (by omega)
    (Nat.zero_le _) (by rw [List.length_nil]; omega)
  rw [List.nil_append, List.length_nil, Nat.sub_zero] at hdrain
  generalize hresult : (n.headBlockId.ancestry.drop (id.num - 1)).take limit = result at hdrain
  have hfirst : result.head? = some id := by
    rw [← hresult, List.head?_take, if_neg (by omega), List.head?_drop,
      BlockId.getElem?_ancestry hidPos (by rw [← h.number]; exact hle), ← hown.eq_ancestorAt]
  obtain ⟨last, hlastId⟩ : ∃ last, result.getLast? = some last := by
    cases result with
    | nil => cases hfirst
    | cons x rest => exact ⟨_, List.getLast?_eq_getLast_of_ne_nil (by simp)⟩
  have hlastLe : last.num ≤ n.headBlockNum := by
    have hin : last ∈ n.headBlockId.ancestry := by
      have hres := List.mem_of_getLast? hlastId
      rw [← hresult] at hres
      exact List.mem_of_mem_drop (List.mem_of_mem_take hres)
    rw [h.number]
    exact (BlockId.mem_ancestry.mp hin).1.num_le
  refine ⟨result, n.headBlockNum - last.num, ?_, ⟨id, hmem, hown, ?_, hfirst, hresult.symm⟩,
    last, hlastId, rfl⟩
  · simp only [getBlockIds, if_neg hhead, if_neg hsome, hlast, hdrain, hlastId, ok_bind]
    split
    · rfl
    next hend =>
      have hzero : n.headBlockNum - last.num = 0 := by omega
      rw [hzero]
      rfl
  · intro other hother hotherOwn
    rw [hsynopsis, List.mem_append, List.mem_cons] at hother
    rw [hsynopsis, List.map_append, List.map_cons, List.pairwise_append] at hrising
    rcases hother with hlower | rfl | hhigher
    · exact (hrising.2.2 _ (List.mem_map_of_mem hlower) _ List.mem_cons_self).le
    · exact le_rfl
    · exact absurd hotherOwn (hbefore other (List.mem_reverse.mp hhigher))

/-! ## The synopsis -/

/-- The block that a reference point stands for: the head for the zero id, a block of the
main chain from the last non-undoable one up, or the end of a linked fork. The fork
branches off at or above the end of the block log: there are no older blocks in the fork
database, and the log ends in the last non-undoable block unless the node was restarted. -/
inductive Refers (n : Node σ T) : BlockId → BlockId → Prop
  | head (exists_block : n.headBlockId ≠ .zero) : Refers n .zero n.headBlockId
  | main {id : BlockId} (exists_block : id ≠ .zero) (included : n.headBlockId.Descends id)
      (recent : n.lastNonUndoableBlockNum ≤ id.num) : Refers n id id
  | fork {top last : ForkItem T} {branch : List (ForkItem T)} (linked : ForkDatabase.Branch branch)
      (indexed : ∀ x ∈ branch, x ∈ n.forkDb.index) (first : branch.head? = some top)
      (ends : branch.getLast? = some last) (joins : n.headBlockId.Descends last.data.previous)
      (recent : n.blockLog.length ≤ last.data.previous.num) : Refers n top.id top.id

/-- The marks delimit the branch that ends in `point`, and its ids are found. -/
structure Marked (n : Node (Summarized σ) T) (point : BlockId) (marks : SynopsisMarks) : Prop where
  low : marks.lowBlockNum = n.lastNonUndoableBlockNum
  high : marks.highBlockNum = point.num
  lookup : ∀ num, 0 < num → num ≤ point.num →
    n.synopsisBlockId marks num = .ok (point.ancestorAt num)

namespace Indexed

variable {n : Node (Summarized σ) T}

/-- Marks on the main chain. -/
theorem marked_main (h : n.Indexed) {point : BlockId} (hpoint : n.headBlockId.Descends point) :
    n.Marked point ⟨n.lastNonUndoableBlockNum, point.num, point.num, []⟩ where
  low := rfl
  high := rfl
  lookup := by
    intro num hpos hnum
    have hle := hpoint.num_le
    rw [← h.number] at hle
    rw [synopsisBlockId, if_pos hnum, h.getBlockIdForNum_eq hpos (hnum.trans hle),
      hpoint.ancestorAt_eq hnum]

theorem synopsisMarks_main (h : n.Indexed) {id : BlockId} (hne : id ≠ .zero)
    (hid : n.headBlockId.Descends id) (hrecent : n.lastNonUndoableBlockNum ≤ id.num) :
    n.synopsisMarks id = .ok (some ⟨n.lastNonUndoableBlockNum, id.num, id.num, []⟩) := by
  have hpos : 0 < id.num := Nat.pos_of_ne_zero fun hzero => hne (BlockId.num_eq_zero.mp hzero)
  have hle := hid.num_le
  rw [← h.number] at hle
  obtain ⟨included, hincluded, hiff⟩ := h.isIncludedBlock_eq hpos hle
  rw [hiff.mpr hid] at hincluded
  simp only [synopsisMarks, if_pos hne, hincluded, ok_bind, if_true, if_neg (not_lt.mpr hrecent)]
  rfl

/-- The ids on a linked fork, down to a block of the chain. -/
theorem getBlockIdsOnFork_spec (h : n.Indexed) {top last : ForkItem T} {branch : List (ForkItem T)}
    (hlinked : ForkDatabase.Branch branch) (hindexed : ∀ x ∈ branch, x ∈ n.forkDb.index)
    (hfirst : branch.head? = some top) (hlast : branch.getLast? = some last)
    (hjoins : n.headBlockId.Descends last.data.previous)
    (hrecent : n.blockLog.length ≤ last.data.previous.num) :
    ∃ ancestor fork, n.getBlockIdsOnFork top.id = .ok (fork ++ [ancestor]) ∧
      n.headBlockId.Descends ancestor ∧ top.id.Descends ancestor ∧
      n.lastNonUndoableBlockNum ≤ ancestor.num ∧ top.num = ancestor.num + fork.length ∧
      ∀ num, ancestor.num < num → num ≤ top.num →
        fork.reverse[num - ancestor.num - 1]? = some (top.id.ancestorAt num) := by
  obtain ⟨family, hfork⟩ := h.consistent
  have hfamily : ∀ x ∈ branch, x ∈ family := fun x hx => hfork.index (hindexed x hx)
  have htop : top ∈ n.forkDb.index := hindexed top (List.mem_of_mem_head? hfirst)
  obtain ⟨hprevious, hlastNum⟩ := hfork.branch_getLast hlinked hfamily hfirst hlast
  have hbelow := last.id.num_previous
  change last.data.previous.num = last.num - 1 at hbelow
  have htopNum := BlockId.num_previous last.id
  have hlastMem : last ∈ branch := List.mem_of_getLast? hlast
  have hlastLe : last.num ≤ top.num := by
    obtain ⟨i, hi⟩ := List.getElem?_of_mem hlastMem
    have hget := (hfork.branch_get hlinked hfamily hfirst hi).2
    omega
  have hheadNum : n.headBlockNum = n.headBlockId.num := h.number
  have hjoinsLe := hjoins.num_le
  have hlastPos : 0 < last.num := Nat.succ_pos _
  have htopLow := h.low top htop
  have hlogLow := h.logLow
  obtain ⟨headItem, hheadItem, hheadId⟩ := h.stored n.headBlockId (.refl _) (by omega) (by omega)
  have htopJoins : top.id.Descends last.data.previous := by
    rw [hprevious]
    exact BlockId.descends_iterate _ _
  -- Above the branch point both branches consist of linked items of the index.
  obtain ⟨first, second, hfetched, habove⟩ := ForkDatabase.fetchBranchFrom_isOk hfork hheadItem hheadId
    htop rfl hjoins htopJoins (by rw [ForkItem.num_id]; omega) (by rw [ForkItem.num_id]; omega)
    (by
      intro x hx hdescends hnum
      rcases hdescends with hmain | hside
      · exact h.linked x hx hmain (by omega)
      · have hle := hside.num_le
        rw [ForkItem.num_id, ForkItem.num_id] at hle
        obtain ⟨y, hy⟩ : ∃ y, branch[top.num - x.num]? = some y :=
          ⟨_, List.getElem?_eq_getElem (by omega)⟩
        obtain ⟨hyId, hyNum⟩ := hfork.branch_get hlinked hfamily hfirst hy
        have hsame : x = y := by
          apply hfork.eq_of_id_eq hx (hindexed y (List.mem_of_getElem? hy))
          rw [hyId, ← ForkItem.num_id, ← ForkItem.num_id]
          exact hside.eq_iterate
        subst hsame
        obtain ⟨parent, hparent⟩ : ∃ parent, branch[top.num - x.num + 1]? = some parent :=
          ⟨_, List.getElem?_eq_getElem (by omega)⟩
        refine ⟨parent, hindexed parent (List.mem_of_getElem? hparent), ?_⟩
        obtain ⟨hlt, rfl⟩ := List.getElem?_eq_some_iff.mp hparent
        have hfollows := hlinked.getElem _ hlt
        rwa [(List.getElem?_eq_some_iff.mp hy).2] at hfollows)
  obtain ⟨firstItem, secondItem, firstLast, secondLast, firstUpper, secondUpper, hfirstFound,
    hsecondFound, hfirstEq, hsecondEq, hfirstDescent, hsecondDescent, hjoined, -⟩ :=
    ForkDatabase.fetchBranchFrom_spec hfork hfetched
  have hfirstId : firstItem.id = n.headBlockId :=
    (ForkDatabase.find_spec hfirstFound).2
  have hsecondItem : secondItem = top := by
    have hfound := hsecondFound
    rw [hfork.find_eq htop] at hfound
    exact (Option.some.inj hfound).symm
  have hfirstEnd := (hfirstDescent.previous_last hfork).1
  obtain ⟨hsecondEnd, hsecondNum⟩ := hsecondDescent.previous_last hfork
  rw [hsecondItem] at hsecondEnd hsecondNum
  have hlastAbove := habove secondLast (by rw [hsecondEq]; simp)
  have hancestorNum := secondLast.id.num_previous
  change secondLast.data.previous.num = secondLast.num - 1 at hancestorNum
  have hirreversible := h.irreversible
  refine ⟨secondLast.data.previous, second.map ForkItem.id, ?_, ?_, ?_, ?_, ?_, ?_⟩
  · rw [getBlockIdsOnFork, hfetched, ok_bind]
    dsimp only
    rw [hfirstEq, List.getLast?_concat, require, ok_bind, hjoined]
    rfl
  · rw [← hjoined, hfirstEnd, hfirstId]
    exact BlockId.descends_iterate _ _
  · rw [hsecondEnd]
    exact BlockId.descends_iterate _ _
  · omega
  · rw [List.length_map, hsecondEq, List.length_append, List.length_singleton]
    omega
  · intro num hlow hhigh
    have hlength : second.length = secondUpper.length + 1 := by
      rw [hsecondEq, List.length_append, List.length_singleton]
    obtain ⟨x, hx⟩ : ∃ x, second[top.num - num]? = some x :=
      ⟨_, List.getElem?_eq_getElem (by omega)⟩
    have hxId := (hsecondDescent.get hfork (by rw [← hsecondEq]; exact hx)).1
    rw [hsecondItem] at hxId
    rw [List.getElem?_reverse (by rw [List.length_map]; omega), List.getElem?_map, List.length_map]
    rw [show second.length - 1 - (num - secondLast.data.previous.num - 1) = top.num - num by omega,
      hx, Option.map_some, hxId, BlockId.ancestorAt, ForkItem.num_id]

/-- Every reference point gives the marks of the branch that ends in its block. -/
theorem marked (h : n.Indexed) {referencePoint point : BlockId}
    (hrefers : n.Refers referencePoint point) :
    ∃ marks, n.synopsisMarks referencePoint = .ok (some marks) ∧ n.Marked point marks := by
  cases hrefers with
  | head hne =>
      have hpos : n.headBlockNum ≠ 0 := by
        rw [h.number]
        exact fun hzero => hne (BlockId.num_eq_zero.mp hzero)
      have hmarked := h.marked_main (BlockId.Descends.refl n.headBlockId)
      rw [← h.number] at hmarked
      refine ⟨_, ?_, hmarked⟩
      rw [synopsisMarks]
      simp only [ne_eq, not_true_eq_false, if_false, if_neg hpos]
      rfl
  | main hne hincluded hrecent =>
      exact ⟨_, h.synopsisMarks_main hne hincluded hrecent, h.marked_main hincluded⟩
  | @fork top last branch hlinked hindexed hfirst hlast hjoins hrecent =>
      have htop : top ∈ n.forkDb.index := hindexed top (List.mem_of_mem_head? hfirst)
      have hne : top.id ≠ .zero := SignedBlock.id_ne_zero _
      have htopPos : 0 < top.num := Nat.succ_pos _
      have htopLow := h.low top htop
      have hsmall := h.small
      obtain ⟨ancestor, fork, hfork, hmain, hside, hrecent', hheight, hget⟩ :=
        h.getBlockIdsOnFork_spec hlinked hindexed hfirst hlast hjoins hrecent
      by_cases hincluded : n.headBlockId.Descends top.id
      · have htopRecent : n.lastNonUndoableBlockNum ≤ top.id.num := by
          rw [ForkItem.num_id]
          omega
        exact ⟨_, h.synopsisMarks_main hne hincluded htopRecent, h.marked_main hincluded⟩
      · obtain ⟨included, hfalse, hiff⟩ :=
          h.isIncludedBlock_eq (show 0 < top.id.num from htopPos) htopLow
        rw [← hiff, Bool.not_eq_true] at hincluded
        rw [hincluded] at hfalse
        refine ⟨⟨n.lastNonUndoableBlockNum, (ancestor.num + fork.reverse.length) % 2 ^ 32, ancestor.num,
          fork.reverse⟩, ?_, rfl, ?_, ?_⟩
        · simp only [synopsisMarks, if_pos hne, hfalse, ok_bind, hfork, List.getLast?_concat, require,
            List.dropLast_concat, ensure, if_pos hrecent']
          rfl
        · change (ancestor.num + fork.reverse.length) % 2 ^ 32 = top.num
          rw [List.length_reverse, ← hheight]
          omega
        · intro num hpos hnum
          rw [synopsisBlockId]
          dsimp only
          split
          next hlow =>
            have hmainNum := hmain.num_le
            rw [← h.number] at hmainNum
            rw [h.getBlockIdForNum_eq hpos (hlow.trans hmainNum), hmain.ancestorAt_eq hlow,
              hside.ancestorAt_eq hlow]
          next habove => rw [hget num (not_le.mp habove) hnum, require]

end Indexed

section Loop

variable {n : Node (Summarized σ) T} {point : BlockId} {marks : SynopsisMarks} {extra : Nat}

/-- The step of the loop, while it stays inside 32 bits or not. -/
theorem nextLowBlockNum_eq (extra : Nat) {high low : Nat} (hlow : low ≤ high) (hhigh : high < 2 ^ 31) :
    nextLowBlockNum ((high + extra) % 2 ^ 32) low =
      (low + (high + extra + 2 - low) % 2 ^ 32 / 2) % 2 ^ 32 := by
  rw [nextLowBlockNum]
  have hroom : ((high + extra) % 2 ^ 32 + 2 ^ 32 - low + 2) % 2 ^ 32 =
      (high + extra + 2 - low) % 2 ^ 32 := by omega
  rw [hroom]

/-- While the arithmetic stays inside 32 bits, the loop ends in the reference point or
beyond it, and adds rising ids of the branch. -/
theorem synopsisLoop_ends (hmarked : n.Marked point marks) (hpoint : point.num < 2 ^ 31)
    (turns low : Nat) (synopsis : List BlockId) (hpos : 0 < low) (hlow : low ≤ point.num)
    (hroom : point.num + extra + 2 - low < 2 ^ 32) (hturns : point.num - low < turns) :
    ∃ ids, n.synopsisLoop marks ((marks.highBlockNum + extra) % 2 ^ 32) turns low synopsis =
        .ok (synopsis ++ ids) ∧
      ids.head? = some (point.ancestorAt low) ∧ (ids.map BlockId.num).Pairwise (· < ·) ∧
      (∀ id ∈ ids, point.Descends id ∧ low ≤ id.num) ∧
      (extra = 0 → ids.getLast? = some point) := by
  induction turns generalizing low synopsis with
  | zero => omega
  | succ turns ih =>
      have hnum := BlockId.num_ancestorAt hlow
      have hown := BlockId.descends_ancestorAt point low
      have hnext := nextLowBlockNum_eq extra hlow hpoint
      have hinside : low + (point.num + extra + 2 - low) / 2 < 2 ^ 32 := by omega
      rw [Nat.mod_eq_of_lt hroom, Nat.mod_eq_of_lt hinside] at hnext
      rw [synopsisLoop, hmarked.lookup low hpos hlow, ok_bind, hmarked.high]
      dsimp only
      rw [hnext]
      split
      next hmore =>
        obtain ⟨ids, hloop, hhead, hrising, hids, hlast⟩ :=
          ih (low + (point.num + extra + 2 - low) / 2) (synopsis ++ [point.ancestorAt low])
            (by omega) hmore (by omega) (by omega)
        rw [hmarked.high] at hloop
        refine ⟨point.ancestorAt low :: ids, ?_, rfl, ?_, ?_, ?_⟩
        · rw [hloop, List.append_assoc, List.singleton_append]
        · rw [List.map_cons, List.pairwise_cons]
          refine ⟨?_, hrising⟩
          intro num hmem
          obtain ⟨id, hid, rfl⟩ := List.mem_map.mp hmem
          have hidLow := (hids id hid).2
          omega
        · refine List.forall_mem_cons.mpr ⟨⟨hown, hnum.ge⟩, ?_⟩
          intro id hid
          have hidLow := (hids id hid).2
          exact ⟨(hids id hid).1, by omega⟩
        · intro hzero
          cases ids with
          | nil => cases hhead
          | cons x rest => rw [List.getLast?_cons_cons, hlast hzero]
      next hend =>
        refine ⟨[point.ancestorAt low], rfl, rfl, List.pairwise_singleton _ _, ?_, ?_⟩
        · rintro id hid
          rw [List.mem_singleton] at hid
          rw [hid]
          exact ⟨hown, hnum.ge⟩
        · rintro rfl
          have htop : low = point.num := by omega
          rw [htop, BlockId.ancestorAt_num]
          rfl

/-- Once the distance to the true high number overflows, the loop never ends. -/
theorem synopsisLoop_runs_on (hmarked : n.Marked point marks) (hpoint : point.num < 2 ^ 31)
    (hextra : extra < 2 ^ 32) (turns low : Nat) (synopsis ids : List BlockId) (hlow : low ≤ point.num)
    (hroom : 2 ^ 32 ≤ point.num + extra + 2 - low) :
    n.synopsisLoop marks ((marks.highBlockNum + extra) % 2 ^ 32) turns low synopsis ≠ .ok ids := by
  induction turns generalizing low synopsis with
  | zero => simp [synopsisLoop]
  | succ turns ih =>
      have hnext := nextLowBlockNum_eq extra hlow hpoint
      have hwrapped : (point.num + extra + 2 - low) % 2 ^ 32 = point.num + extra + 2 - low - 2 ^ 32 := by
        omega
      have hinside : low + (point.num + extra + 2 - low - 2 ^ 32) / 2 < 2 ^ 32 := by omega
      rw [hwrapped, Nat.mod_eq_of_lt hinside] at hnext
      intro hloop
      obtain ⟨id, -, hrest⟩ := bind_eq_ok.mp hloop
      dsimp only at hrest
      rw [← hmarked.high] at hnext
      rw [hnext, if_pos (by rw [hmarked.high]; omega)] at hrest
      exact ih _ _ (by rw [hmarked.high]; omega) (by rw [hmarked.high]; omega) hrest

end Loop

/-! ## The handshake -/

/-- What a synopsis should be: rising ids of the branch that ends in `point`, from the last
non-undoable block on, or from block 1 if there is none. -/
structure Describes (n : Node (Summarized σ) T) (point : BlockId) (extra : Nat)
    (synopsis : List BlockId) : Prop where
  rising : (synopsis.map BlockId.num).Pairwise (· < ·)
  branch : ∀ id ∈ synopsis, point.Descends id
  first : ∃ id, synopsis.head? = some id ∧ id.num = max 1 n.lastNonUndoableBlockNum ∧
    (0 < n.lastNonUndoableBlockNum → n.headBlockId.Descends id)
  last : extra = 0 → synopsis.getLast? = some point

/-- One node describes the branch of its reference point, and its peer answers. -/
def Handshake (n peer : Node (Summarized σ) T) (referencePoint point : BlockId) (extra : Nat) : Prop :=
  ∃ turns synopsis, n.getBlockchainSynopsis turns referencePoint extra = .ok synopsis ∧
    n.Describes point extra synopsis ∧
    ∀ limit, 0 < limit → ∃ listed remaining,
      peer.getBlockIds synopsis limit = .ok (listed, remaining) ∧
        peer.Answers synopsis limit listed remaining

section Handshake

variable {n peer : Node (Summarized σ) T} {referencePoint point : BlockId} {extra : Nat}

/-- The branch of a reference point leaves the main chain at or above the last non-undoable
block. -/
theorem Refers.joins (hrefers : n.Refers referencePoint point) (h : n.Indexed) :
    0 < point.num ∧ point.num ≤ n.headBlockNum ∧ ∃ ancestor, n.headBlockId.Descends ancestor ∧
      point.Descends ancestor ∧ n.lastNonUndoableBlockNum ≤ ancestor.num := by
  have hpositive : ∀ id : BlockId, id ≠ .zero → 0 < id.num := fun id hne =>
    Nat.pos_of_ne_zero fun hzero => hne (BlockId.num_eq_zero.mp hzero)
  have hirreversible := h.irreversible
  have hlogLow := h.logLow
  have hnumber := h.number
  cases hrefers with
  | head hne =>
      exact ⟨hpositive _ hne, hnumber.ge, n.headBlockId, .refl _, .refl _, by omega⟩
  | main hne hincluded hrecent =>
      exact ⟨hpositive _ hne, hnumber ▸ hincluded.num_le, _, hincluded, .refl _, hrecent⟩
  | @fork top last branch hlinked hindexed hfirst hlast hjoins hrecent =>
      have htop : top ∈ n.forkDb.index := hindexed top (List.mem_of_mem_head? hfirst)
      obtain ⟨ancestor, fork, -, hmain, hside, hrecent', -⟩ :=
        h.getBlockIdsOnFork_spec hlinked hindexed hfirst hlast hjoins hrecent
      exact ⟨Nat.succ_pos _, h.low top htop, ancestor, hmain, hside, hrecent'⟩

/-- The synopsis from its marks. -/
theorem getBlockchainSynopsis_eq {marks : SynopsisMarks}
    (hmarks : n.synopsisMarks referencePoint = .ok (some marks)) (hmarked : n.Marked point marks)
    (turns : Nat) : n.getBlockchainSynopsis turns referencePoint extra =
      n.synopsisLoop marks ((marks.highBlockNum + extra) % 2 ^ 32) turns
        (max 1 n.lastNonUndoableBlockNum) [] := by
  have hlow : (if marks.lowBlockNum = 0 then 1 else marks.lowBlockNum) =
      max 1 n.lastNonUndoableBlockNum := by
    rw [hmarked.low]
    split <;> omega
  rw [getBlockchainSynopsis, hmarks, ok_bind, ← hlow]

/-- Inside 32 bits the synopsis is computed, and describes the branch. -/
theorem synopsis_describes (h : n.Indexed) (hrefers : n.Refers referencePoint point)
    (hroom : point.num + extra + 2 < 2 ^ 32 + max 1 n.lastNonUndoableBlockNum) :
    ∃ turns synopsis, n.getBlockchainSynopsis turns referencePoint extra = .ok synopsis ∧
      n.Describes point extra synopsis := by
  obtain ⟨hpos, hhigh, ancestor, hmain, hside, hrecent⟩ := hrefers.joins h
  obtain ⟨marks, hmarks, hmarked⟩ := h.marked hrefers
  have hsmall := h.small
  have hside' := hside.num_le
  obtain ⟨ids, hloop, hhead, hrising, hids, hlast⟩ := synopsisLoop_ends hmarked (by omega)
    (point.num + 1) (max 1 n.lastNonUndoableBlockNum) [] (by omega) (by omega)
    (show point.num + extra + 2 - _ < 2 ^ 32 by omega) (by omega)
  refine ⟨point.num + 1, ids, ?_, hrising, fun id hid => (hids id hid).1, ?_, hlast⟩
  · rw [getBlockchainSynopsis_eq hmarks hmarked, hloop, List.nil_append]
  · refine ⟨_, hhead, BlockId.num_ancestorAt (by omega), ?_⟩
    intro hirreversible
    rw [max_eq_right hirreversible, hside.ancestorAt_eq hrecent]
    exact hmain.trans (BlockId.descends_ancestorAt _ _)

/-- Outside 32 bits no synopsis is ever returned. -/
theorem synopsis_runs_on (h : n.Indexed) (hrefers : n.Refers referencePoint point)
    (hextra : extra < 2 ^ 32)
    (hroom : 2 ^ 32 + max 1 n.lastNonUndoableBlockNum ≤ point.num + extra + 2) (turns : Nat)
    (synopsis : List BlockId) : n.getBlockchainSynopsis turns referencePoint extra ≠ .ok synopsis := by
  obtain ⟨hpos, hhigh, ancestor, -, hside, hrecent⟩ := hrefers.joins h
  obtain ⟨marks, hmarks, hmarked⟩ := h.marked hrefers
  have hsmall := h.small
  have hside' := hside.num_le
  rw [getBlockchainSynopsis_eq hmarks hmarked]
  exact synopsisLoop_runs_on hmarked (by omega) hextra turns _ [] synopsis (by omega) (by omega)

/-- Between two tidy nodes that runs reach, of which the second shares the last
non-undoable block of the first, the handshake succeeds exactly when the number of extra
blocks does not push the distance to the true high number out of 32 bits, and the
second node shares block 1 of the branch if the first has no irreversible block yet. -/
theorem handshake_iff {L : LedgerLogic (Summarized σ) T} (hn : Settled L n) (hpeer : Settled L peer)
    (hrefers : n.Refers referencePoint point) (hextra : extra < 2 ^ 32)
    (hshared : ∀ id, n.headBlockId.Descends id → id.num = n.lastNonUndoableBlockNum →
      peer.headBlockId.Descends id) :
    n.Handshake peer referencePoint point extra ↔
      point.num + extra + 2 < 2 ^ 32 + max 1 n.lastNonUndoableBlockNum ∧
        (n.lastNonUndoableBlockNum = 0 → peer.headBlockId.Descends (point.ancestorAt 1)) := by
  have hfirst : ∀ {synopsis : List BlockId} {id : BlockId}, n.Describes point extra synopsis →
      synopsis.head? = some id → id = point.ancestorAt (max 1 n.lastNonUndoableBlockNum) := by
    intro synopsis id hdescribes hhead
    obtain ⟨first, hfirst, hnum, -⟩ := hdescribes.first
    rw [hhead] at hfirst
    cases hfirst
    rw [← hnum]
    exact (hdescribes.branch id (List.mem_of_mem_head? hhead)).eq_ancestorAt
  constructor
  · rintro ⟨turns, synopsis, hsynopsis, hdescribes, hanswers⟩
    constructor
    · by_contra hroom
      exact synopsis_runs_on hn.indexed hrefers hextra (not_lt.mp hroom) turns synopsis hsynopsis
    · intro hnone
      obtain ⟨listed, remaining, -, hanswer⟩ := hanswers 1 Nat.one_pos
      obtain ⟨id, hid, hown, -⟩ := hanswer.shared
      obtain ⟨first, hhead, hnum, -⟩ := hdescribes.first
      have heq := hfirst hdescribes hhead
      rw [hnone, max_eq_left (Nat.zero_le 1)] at heq hnum
      -- The shared id is at or above the first one, on the same branch.
      have hle : first.num ≤ id.num := by
        cases synopsis with
        | nil => cases hhead
        | cons x rest =>
            cases hhead
            rcases List.mem_cons.mp hid with rfl | hrest
            · exact le_rfl
            · exact ((List.pairwise_cons.mp hdescribes.rising).1 _ (List.mem_map_of_mem hrest)).le
      have hbelow := (hdescribes.branch id hid).total
        (hdescribes.branch first (List.mem_of_mem_head? hhead)) hle
      rw [← heq]
      exact hown.trans hbelow
  · rintro ⟨hroom, hblock⟩
    obtain ⟨turns, synopsis, hsynopsis, hdescribes⟩ := synopsis_describes hn.indexed hrefers hroom
    refine ⟨turns, synopsis, hsynopsis, hdescribes, ?_⟩
    obtain ⟨first, hhead, hnum, hmain⟩ := hdescribes.first
    have hrising := hdescribes.rising
    have hpositive : ∀ id ∈ synopsis, 0 < id.num := by
      intro id hid
      cases synopsis with
      | nil => cases hid
      | cons x rest =>
          cases hhead
          rcases List.mem_cons.mp hid with rfl | hrest
          · omega
          · have hlt := (List.pairwise_cons.mp hrising).1 _ (List.mem_map_of_mem hrest)
            omega
    have hown : peer.headBlockId.Descends first := by
      rcases Nat.eq_zero_or_pos n.lastNonUndoableBlockNum with hnone | hsome
      · have heq := hfirst hdescribes hhead
        rw [hnone, max_eq_left (Nat.zero_le 1)] at heq
        rw [heq]
        exact hblock hnone
      · exact hshared first (hmain hsome) (by omega)
    intro limit hlimit
    exact hpeer.indexed.getBlockIds_answers hlimit hrising hpositive
      ⟨first, List.mem_of_mem_head? hhead, hown⟩

end Handshake

end Node

/-! ### A synopsis whose arithmetic overflows -/

namespace Sample

/-- The sample ledger with block summaries. -/
def summaryLogic : LedgerLogic (Summarized Unit) Bool where
  signingKey _ _ := some 0
  shuffledWitnesses _ := ["alice", "bob"]
  calculateMerkleRoot valid := merkleRoot valid
  sharedDbMerkle _ := none
  applyTransactions s b := if b.transactions then .ok s.ledger else .error "transaction throws"
  applyMaintenance s _ := .ok s.ledger

def summaryGenesis : ChainState (Summarized Unit) := { dgp := { time := 0 }, ledger := { rest := () } }

/-- Two nodes of one block each, which no witness has confirmed. -/
def otherFirst : SignedBlock Bool := block .zero 2 "alice"
def atFirst : Node (Summarized Unit) Bool :=
  Node.run summaryLogic.withSummaries (Node.opened summaryGenesis []) [first]
def atOtherFirst : Node (Summarized Unit) Bool :=
  Node.run summaryLogic.withSummaries (Node.opened summaryGenesis []) [otherFirst]

theorem summaryGenesis_opens : Node.Opens summaryGenesis ([] : List (SignedBlock Bool)) :=
  ⟨⟨rfl, fun _ => le_rfl, le_rfl⟩, rfl, by simp⟩

/-- A run of smooth calls leaves a settled node. -/
theorem run_settled {pushes : List (SignedBlock Bool)}
    (hsmooth : ∀ before b after, pushes = before ++ b :: after →
      (Node.run summaryLogic.withSummaries (Node.opened summaryGenesis []) before).Smooth
        summaryLogic.withSummaries 0 b)
    (hclock : (Node.run summaryLogic.withSummaries (Node.opened summaryGenesis []) pushes).state.dgp.time
      < 2 ^ 32) :
    Node.Settled summaryLogic
      (Node.run summaryLogic.withSummaries (Node.opened summaryGenesis []) pushes) where
  reached := by
    refine ⟨summaryGenesis, [], pushes, summaryGenesis_opens, rfl, ?_, rfl⟩
    refine ⟨fun _ => .refl _, ?_, Or.inl rfl, fun _ => Nat.zero_le _⟩
    rintro id rfl hpos
    exact absurd hpos (lt_irrefl 0)
  tidy := Node.run_tidy summaryGenesis_opens rfl pushes hsmooth
  clock := hclock

theorem single_block_settled {b : SignedBlock Bool}
    (hsmooth : (Node.opened summaryGenesis []).Smooth summaryLogic.withSummaries 0 b)
    (hclock : (Node.run summaryLogic.withSummaries (Node.opened summaryGenesis []) [b]).state.dgp.time
      < 2 ^ 32) :
    Node.Settled summaryLogic
      (Node.run summaryLogic.withSummaries (Node.opened summaryGenesis []) [b]) := by
  refine run_settled ?_ hclock
  intro before c after hsplit
  cases before with
  | cons x rest => simp at hsplit
  | nil =>
      cases hsplit
      exact hsmooth

theorem atFirst_settled : Node.Settled summaryLogic atFirst :=
  single_block_settled (.of_child rfl rfl ⟨_, rfl⟩) (by decide)

theorem atOtherFirst_settled : Node.Settled summaryLogic atOtherFirst :=
  single_block_settled (.of_child rfl rfl ⟨_, rfl⟩) (by decide)

/-- Asked for its head and the most extra blocks, a node with one block never returns; and
a peer that has another first block, nothing being irreversible, refuses the synopsis. -/
theorem first_handshakes_fail :
    Node.Settled summaryLogic atFirst ∧ Node.Settled summaryLogic atOtherFirst ∧
      atFirst.Refers .zero first.id ∧ atFirst.lastNonUndoableBlockNum = 0 ∧
      (∀ turns synopsis, atFirst.getBlockchainSynopsis turns .zero (2 ^ 32 - 1) ≠ .ok synopsis) ∧
      ¬ atFirst.Handshake atFirst .zero first.id (2 ^ 32 - 1) ∧
      (∃ message, atOtherFirst.getBlockIds [first.id] 1 = .error message) ∧
      ¬ atFirst.Handshake atOtherFirst .zero first.id 0 := by
  have hrefers : atFirst.Refers .zero first.id :=
    .head (show atFirst.headBlockId ≠ .zero by decide)
  have hruns := Node.synopsis_runs_on atFirst_settled.indexed hrefers
    (show 2 ^ 32 - 1 < 2 ^ 32 by omega) (by decide)
  refine ⟨atFirst_settled, atOtherFirst_settled, hrefers, by decide, hruns, ?_, ⟨_, by rfl⟩, ?_⟩
  · rintro ⟨turns, synopsis, hsynopsis, -⟩
    exact hruns turns synopsis hsynopsis
  · rintro ⟨turns, synopsis, -, hdescribes, hanswers⟩
    obtain ⟨listed, remaining, -, hanswer⟩ := hanswers 1 Nat.one_pos
    obtain ⟨id, hid, hown, -⟩ := hanswer.shared
    obtain ⟨start, hstart, hnum, -⟩ := hdescribes.first
    have hbranch := hdescribes.branch id hid
    have hlow : ∀ x, first.id.Descends x → x = first.id ∨ x = .zero := fun x hx => hx
    have hother : ∀ x, atOtherFirst.headBlockId.Descends x → x = otherFirst.id ∨ x = .zero :=
      fun x hx => hx
    have hzero : id = .zero := by
      rcases hlow id hbranch with rfl | hzero
      · rcases hother _ hown with hsame | hzero
        · exact absurd hsame (by decide)
        · exact hzero
      · exact hzero
    subst hzero
    cases synopsis with
    | nil => cases hstart
    | cons x rest =>
        cases hstart
        rcases List.mem_cons.mp hid with rfl | hrest
        · exact absurd hnum (by decide)
        · have hlt := (List.pairwise_cons.mp hdescribes.rising).1 _ (List.mem_map_of_mem hrest)
          exact absurd hlt (Nat.not_lt_zero _)

/-- Two nodes that share two blocks, and the block on the side of the first that is the head of the
second. -/
def otherThird : SignedBlock Bool := block second.id 4 "alice"
def atThird : Node (Summarized Unit) Bool :=
  Node.run summaryLogic.withSummaries (Node.opened summaryGenesis []) [first, second, third, otherThird]
def atOtherThird : Node (Summarized Unit) Bool :=
  Node.run summaryLogic.withSummaries (Node.opened summaryGenesis []) [first, second, otherThird]

theorem atThird_settled : Node.Settled summaryLogic atThird := by
  refine run_settled ?_ (by decide)
  intro before b after hsplit
  match before with
  | [] =>
      cases hsplit
      exact .of_child rfl rfl ⟨_, rfl⟩
  | [_] =>
      cases hsplit
      exact .of_child rfl rfl ⟨_, rfl⟩
  | [_, _] =>
      cases hsplit
      exact .of_child rfl rfl ⟨_, rfl⟩
  | [_, _, _] =>
      cases hsplit
      exact .of_low rfl (by decide) (by decide)
  | _ :: _ :: _ :: _ :: _ => simp at hsplit

theorem atOtherThird_settled : Node.Settled summaryLogic atOtherThird := by
  refine run_settled ?_ (by decide)
  intro before b after hsplit
  match before with
  | [] =>
      cases hsplit
      exact .of_child rfl rfl ⟨_, rfl⟩
  | [_] =>
      cases hsplit
      exact .of_child rfl rfl ⟨_, rfl⟩
  | [_, _] =>
      cases hsplit
      exact .of_child rfl rfl ⟨_, rfl⟩
  | _ :: _ :: _ :: _ => simp at hsplit

/-- The first node describes the branch of the second, as it knows it. -/
theorem third_handshake : atThird.headBlockId ≠ atOtherThird.headBlockId ∧
    atThird.lastNonUndoableBlockNum = 2 ∧
      atThird.Handshake atOtherThird otherThird.id otherThird.id 0 := by
  have hlast : atThird.lastNonUndoableBlockNum = 2 := by decide
  have hbranch : ForkDatabase.Branch [({ ref := 3, prev := some 1, data := otherThird } : ForkItem Bool)] :=
    .singleton _
  have hrefers : atThird.Refers otherThird.id otherThird.id :=
    .fork hbranch (by decide) rfl rfl (.inr (.inl rfl)) (by decide)
  refine ⟨by decide, hlast, ?_⟩
  refine (Node.handshake_iff atThird_settled atOtherThird_settled hrefers (by decide) ?_).mpr ?_
  · rw [hlast]
    rintro id hid hnum
    have hthird : third.id.Descends id := hid
    rcases hthird with rfl | rfl | hfirst
    · exact absurd hnum (by decide)
    · exact .inr (.inl rfl)
    · have hbelow : first.id.Descends id := hfirst
      have hle := hbelow.num_le
      have hone : first.id.num = 1 := by decide
      omega
  · refine ⟨by rw [hlast]; decide, fun hnone => ?_⟩
    rw [hlast] at hnone
    cases hnone

end Sample

end Blurt
