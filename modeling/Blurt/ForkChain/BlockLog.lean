import Blurt.ForkChain.Finality

/-! # The block log

The log is written from the fork database, by block number. It records the chain
of the node as long as the index holds the applied blocks that can still be
undone, and the fork database head stands on the chain when a number is looked up.
-/

namespace Blurt

open Outcome

variable {σ T : Type} {L : LedgerLogic σ T}

/-- Blocks applied in turn have the ids of the chain between their end states. -/
theorem ChainState.ancestry_applyAll {s s' : ChainState σ} {blocks : List (SignedBlock T)}
    (h : s.applyAll L blocks = .ok s') :
    s'.dgp.headBlockId.ancestry = s.dgp.headBlockId.ancestry ++ blocks.map SignedBlock.id := by
  induction blocks generalizing s with
  | nil =>
      cases h
      simp
  | cons b rest ih =>
      obtain ⟨next, hnext, hrest⟩ := forEach_cons_eq_ok.mp h
      rw [ih hrest, applyBlock_headBlockId hnext, applyBlock_previous hnext, List.map_cons]
      simp [SignedBlock.id, BlockId.ancestry]

namespace Node

/-- The log extends the opened log by blocks that lead to the committed state, and the
index holds the blocks applied since. -/
structure Recorded (L : LedgerLogic σ T) (start : ChainState σ) (startLog : List (SignedBlock T))
    (n : Node σ T) (blocks : List (SignedBlock T)) : Prop where
  coherent : n.Coherent L blocks
  present : ∀ b ∈ blocks, ∃ x ∈ n.forkDb.index, x.data = b
  log : ∃ written, n.blockLog = startLog ++ written ∧ start.applyAll L written = .ok n.committed

namespace Recorded

variable {start : ChainState σ} {startLog : List (SignedBlock T)} {family : Set (ForkItem T)}
  {n next : Node σ T} {blocks written : List (SignedBlock T)} {b : SignedBlock T}

/-- Only the index differs, and it still holds the applied blocks. -/
theorem congr (h : Recorded L start startLog n blocks) (forkDb : ForkDatabase T)
    (hkept : ∀ x ∈ n.forkDb.index, x.data ∈ blocks → x ∈ forkDb.index) :
    Recorded L start startLog { n with forkDb } blocks where
  coherent := h.coherent.congr forkDb
  present := by
    intro b hb
    obtain ⟨x, hx, rfl⟩ := h.present b hb
    exact ⟨x, hkept x hx hb, rfl⟩
  log := h.log

theorem rewind (h : Recorded L start startLog n blocks) {count : Nat}
    (hcount : count ≤ n.undoStack.length) (last : ForkItem T) :
    Recorded L start startLog (n.rewind count last) (blocks.drop count) := by
  obtain ⟨hcoherent, hcommitted, -, -, -, hlog⟩ := h.coherent.rewind hcount last
  refine ⟨hcoherent, fun b hb => h.present b (List.mem_of_mem_drop hb), ?_⟩
  rw [hcommitted, hlog]
  exact h.log

/-- The block fetched at the height of an applied block is that block. -/
theorem fetched_eq (hpresent : ∀ c ∈ b :: blocks, ∃ x ∈ n.forkDb.index, x.data = c)
    (hfork : n.forkDb.Consistent family) {head item : ForkItem T}
    (hhead : n.forkDb.head = some head) (hprevious : head.data.previous = b.previous)
    {i : Nat} {c : SignedBlock T} (hc : (b :: blocks)[i]? = some c)
    (hid : c.id = BlockId.previous^[i] b.id) (hnum : c.blockNum + i = b.blockNum)
    (hfetch : n.forkDb.fetchBlockOnMainBranchByNumber c.blockNum = some item)
    (htop : i = 0 → head.data = b ∨
      ∀ x ∈ n.forkDb.index, x.num = b.blockNum → x.id = b.id) : item.data = c := by
  obtain ⟨x, hx, hdata⟩ := hpresent c (List.mem_of_getElem? hc)
  have hxnum : x.num = c.blockNum := by rw [ForkItem.num, hdata]
  have hxid : x.id = c.id := congrArg SignedBlock.id hdata
  have hheadNum : head.num = b.blockNum := congrArg (fun previous => previous.num + 1) hprevious
  rcases ForkDatabase.fetchBlockOnMainBranchByNumber_spec hfork hfetch with
    honly | ⟨head', y, z, hhead', -, hlive, hitemNum, hitemId, hy, hynum, hz, hznum, hne⟩
  · rw [← honly x hx hxnum, hdata]
  · rw [hhead] at hhead'
    cases hhead'
    cases i with
    | zero =>
        cases hc
        rcases htop rfl with hsame | honly
        · rcases ForkDatabase.mem_live.mp hlive with hin | htopItem
          · have hitem : item.id = x.id := by
              rw [hitemId, hxid, hheadNum, Nat.sub_self]
              exact congrArg SignedBlock.id hsame
            rw [hfork.eq_of_id_eq hin hx hitem, hdata]
          · rw [hhead] at htopItem
            cases htopItem
            exact hsame
        · exact absurd ((honly y hy hynum).trans (honly z hz hznum).symm) hne
    | succ i =>
        have hin : item ∈ n.forkDb.index := by
          rcases ForkDatabase.mem_live.mp hlive with hin | htopItem
          · exact hin
          · rw [hhead] at htopItem
            cases htopItem
            omega
        have hitem : item.id = x.id := by
          rw [hitemId, hxid, hid, show head.num - c.blockNum = i + 1 by omega,
            Function.iterate_succ_apply, Function.iterate_succ_apply]
          change BlockId.previous^[i] head.data.previous = BlockId.previous^[i] b.previous
          rw [hprevious]
        rw [hfork.eq_of_id_eq hin hx hitem, hdata]

/-- An applied block writes the newly irreversible blocks of its chain to the log. -/
theorem applied (h : Recorded L start startLog n blocks) (hfork : n.forkDb.Consistent family)
    (happlied : n.Applied L b written next) (hstored : ∃ x ∈ n.forkDb.index, x.data = b)
    {head : ForkItem T} (hhead : n.forkDb.head = some head)
    (hprevious : head.data.previous = b.previous)
    (htop : head.data = b ∨ next.state.dgp.lastIrreversibleBlockNum < b.blockNum ∨
      ∀ x ∈ n.forkDb.index, x.num = b.blockNum → x.id = b.id) :
    ∃ newer, Recorded L start startLog next newer := by
  obtain ⟨newer, older, olderStack, hblocks, hnext, hhistory, hcommitted, hnum, hid⟩ :=
    h.coherent.applied happlied
  have hpresent : ∀ c ∈ b :: blocks, ∃ x ∈ n.forkDb.index, x.data = c :=
    List.forall_mem_cons.mpr ⟨hstored, h.present⟩
  have hbNum : b.blockNum = next.headBlockNum :=
    (ChainState.applyBlock_headBlockNumber happlied.state).symm
  have hfull : History L n.committed next.state (⟨next.headBlockNum, n.state⟩ :: n.undoStack)
      (b :: blocks) := .applied h.coherent.history happlied.state
  have hget : ∀ {i c}, (b :: blocks)[i]? = some c →
      c.id = BlockId.previous^[i] b.id ∧ c.blockNum + i = b.blockNum := by
    intro i c hc
    refine ⟨?_, ?_⟩
    · rw [hfull.get hc, ChainState.applyBlock_headBlockId happlied.state]
    · rw [hfull.get_num h.coherent.sound hc, hbNum]
      rfl
  have holder : older.length + n.committedNum = next.committedNum := by
    rw [hhistory.length_eq, Nat.add_comm]
    exact (hhistory.headBlockNumber h.coherent.sound).symm
  have hlength : newer.length + older.length = blocks.length + 1 := by
    rw [← List.length_append, ← hblocks, List.length_cons]
  have hheight : n.headBlockNum = n.committedNum + blocks.length := by
    rw [h.coherent.history.length_eq]
    exact h.coherent.headBlockNum_eq
  have hwritten : written = older.reverse := by
    have hfetched := happlied.fetched
    rw [h.coherent.logHead] at hfetched
    have hcount : next.state.dgp.lastIrreversibleBlockNum - n.committedNum = older.length := by
      omega
    rw [hcount] at hfetched
    refine List.ext_getElem? ?_
    intro i
    by_cases hi : i < older.length
    · have hiWritten : i < written.length := by
        rw [← hfetched.length_eq, List.length_range]
        exact hi
      obtain ⟨item, hitem, hdata⟩ := (List.forall₂_iff_get.mp hfetched).2 i
        (by rwa [List.length_range]) hiWritten
      simp only [List.get_eq_getElem, List.getElem_range] at hitem hdata
      have hindex : (b :: blocks)[newer.length + (older.length - 1 - i)]? = older.reverse[i]? := by
        rw [hblocks, List.getElem?_append_right (by omega), Nat.add_sub_cancel_left,
          List.getElem?_reverse hi]
      obtain ⟨c, hcSome⟩ : ∃ c, older.reverse[i]? = some c :=
        ⟨_, List.getElem?_eq_getElem (by simpa using hi)⟩
      have hc := hindex.trans hcSome
      obtain ⟨hcId, hcNum⟩ := hget hc
      have hcHeight : n.committedNum + i + 1 = c.blockNum := by omega
      rw [hcHeight] at hitem
      rw [List.getElem?_eq_getElem hiWritten, hcSome, ← hdata]
      congr 1
      refine fetched_eq hpresent hfork hhead hprevious hc hcId hcNum hitem ?_
      intro hzero
      rcases htop with hsame | hlow | honly
      · exact Or.inl hsame
      · omega
      · exact Or.inr honly
    · rw [List.getElem?_eq_none (by rw [← hfetched.length_eq, List.length_range]; omega),
        List.getElem?_eq_none (by simpa using hi)]
  refine ⟨newer, hnext, ?_, ?_⟩
  · intro c hc
    obtain ⟨x, hx, hdata⟩ := hpresent c (by rw [hblocks]; exact List.mem_append_left _ hc)
    refine ⟨x, ?_, hdata⟩
    rw [happlied.forkDb, ForkDatabase.mem_setMaxSize]
    refine ⟨hx, ?_⟩
    intro top htop
    have htopNum := happlied.heads top htop
    obtain ⟨i, hi⟩ := List.getElem?_of_mem hc
    have hcNum := (hget (i := i) (c := c) (by
      rw [hblocks, List.getElem?_append_left (List.getElem?_eq_some_iff.mp hi).1, hi])).2
    have hiLt := (List.getElem?_eq_some_iff.mp hi).1
    have hirreversible := hnext.irreversible
    have hxNum : x.num = c.blockNum := by rw [ForkItem.num, hdata]
    omega
  · obtain ⟨before, hlog, hstart⟩ := h.log
    refine ⟨before ++ written, by rw [happlied.blockLog, hlog, List.append_assoc], ?_⟩
    rw [ChainState.applyAll, forEach_append_eq_ok]
    refine ⟨_, hstart, ?_⟩
    rw [hwritten]
    exact hhistory.applyAll

/-- A branch from the index records each of its newly irreversible blocks. -/
theorem branch {items : List (ForkItem T)} {m : Node σ T}
    (h : Recorded L start startLog n blocks) (hfork : n.forkDb.Consistent family)
    (hindexed : ∀ x ∈ items, x ∈ n.forkDb.index)
    (hnums : ∀ i x, items[i]? = some x → x.num = n.headBlockNum + 1 + i)
    (happlied : applyItems L items n = (m, none)) : ∃ newer, Recorded L start startLog m newer := by
  induction items generalizing n blocks with
  | nil =>
      cases happlied
      exact ⟨blocks, h⟩
  | cons item rest ih =>
      obtain ⟨next, hitem, hrest⟩ := applyItems_cons_none.mp happlied
      obtain ⟨written, hsession⟩ := applyInSession_spec (applyItem_ok.mp hitem)
      have hin := hindexed item (by simp)
      have hmoved := h.congr (n.forkDb.setHead item) (fun x hx _ => hx)
      have hmovedFork := hfork.setHead (hfork.index hin)
      obtain ⟨newer, hnext⟩ := hmoved.applied hmovedFork hsession ⟨item, hin, rfl⟩ rfl rfl
        (Or.inl rfl)
      have hheight : next.headBlockNum = n.headBlockNum + 1 :=
        History.headBlockNumber_succ h.coherent.state_sound hsession.state
      have hsound := hnext.coherent.state_sound.irreversible
      change next.state.dgp.lastIrreversibleBlockNum ≤ next.headBlockNum at hsound
      refine ih hnext ?_ ?_ ?_ hrest
      · rw [hsession.forkDb]
        exact hmovedFork.setMaxSize _
      · intro x hx
        obtain ⟨i, hi⟩ := List.getElem?_of_mem hx
        have hnum := hnums (i + 1) x (by simpa using hi)
        rw [hsession.forkDb, ForkDatabase.mem_setMaxSize]
        refine ⟨hindexed x (List.mem_cons_of_mem item hx), ?_⟩
        intro top htop
        have htopNum := hsession.heads top htop
        omega
      · intro i x hx
        have hnum := hnums (i + 1) x (by simpa using hx)
        omega

/-- The stored blocks of the old branch are those that led to the chain head. -/
theorem reapplies {newHead : ForkItem T} {first second : List (ForkItem T)}
    (h : Recorded L start startLog n blocks) (hvalid : n.Valid L family blocks)
    (hbranches : n.Branches newHead first second)
    (hdepth : second.length ≤ n.undoStack.length) (last : ForkItem T) :
    (n.rewind second.length last).state.applyAll L (second.reverse.map (·.data)) =
      .ok n.state := by
  have hlength := h.coherent.history.length_eq
  have hdata : second.map (·.data) = blocks.take second.length := by
    refine List.ext_getElem? ?_
    intro i
    by_cases hi : i < second.length
    · have hx := List.getElem?_eq_getElem hi
      have hb := List.getElem?_eq_getElem (show i < blocks.length by omega)
      rw [List.getElem?_map, hx, List.getElem?_take_of_lt hi, hb, Option.map_some]
      congr 1
      obtain ⟨y, hy, hydata⟩ := h.present _ (List.mem_of_getElem? hb)
      have hid : y.id = (second[i]).id := by
        rw [(hbranches.secondGet i _ hx).1]
        exact (congrArg SignedBlock.id hydata).trans (h.coherent.history.get hb)
      rw [← hydata, hvalid.fork.eq_of_id_eq hy
        (hbranches.secondIndexed _ (List.getElem_mem hi)) hid]
    · rw [List.getElem?_eq_none (by simpa using hi), List.getElem?_eq_none (by simp; omega)]
  rw [List.map_reverse, hdata]
  exact h.coherent.applyAll_undone hdepth

section Switch

variable {newHead last item : ForkItem T} {first second before after : List (ForkItem T)}
  {stop : Node σ T} {message : String}

/-- The items that a failed switch removes are not on the old branch. -/
theorem failed_apart (h : Recorded L start startLog n blocks) (hvalid : n.Valid L family blocks)
    (hbranches : n.Branches newHead first second)
    (hstopped : Stopped L family n newHead first second last before item after stop message)
    {x y : ForkItem T} (hx : x ∈ second) (hy : y ∈ item :: after) : x.id ≠ y.id := by
  intro hid
  have hyFirst : y ∈ first := by
    rw [hstopped.mem_first]
    exact Or.inr (List.mem_cons.mp hy)
  have hsingle := hbranches.apart y hyFirst x hx hid.symm
  have hsame : x = y := hvalid.fork.eq_of_id_eq (hbranches.secondIndexed x hx)
    (hbranches.firstIndexed y hyFirst) hid
  subst hsame
  obtain ⟨hpopped, -, hpoppedNum, -⟩ := hbranches.popped hvalid hstopped.depth hstopped.last_mem
  have happlied := hstopped.branchApplied hvalid hbranches
  have hstopNum := happlied.headBlockNum
  have hyNum := hstopped.failed_num hvalid hbranches hy
  have hsecond : second = [x] := by
    obtain ⟨z, rfl⟩ := List.length_eq_one_iff.mp hsingle
    rw [List.mem_singleton.mp hx]
  have hxNum := (hbranches.secondGet 0 x (by rw [hsecond]; rfl)).2
  have hnone : before = [] := List.length_eq_zero_iff.mp (by omega)
  subst hnone
  have hitemNum := hstopped.item_num hvalid hbranches
  have hitem : item ∈ first := hstopped.mem_first.mpr (Or.inr (Or.inl rfl))
  have hxItem : x = item := by
    obtain ⟨i, hi⟩ := List.getElem?_of_mem hyFirst
    obtain ⟨j, hj⟩ := List.getElem?_of_mem hitem
    have hiNum := (hbranches.firstGet i x hi).2
    have hjNum := (hbranches.firstGet j item hj).2
    have hij : i = j := by
      simp only [List.length_nil, Nat.add_zero] at hstopNum
      omega
    rw [hij, hj] at hi
    exact (Option.some.inj hi).symm
  subst hxItem
  have hstop := hstopped.applied
  cases hstop
  -- The chain head applies again on the state below it, and commits nothing new.
  have hagain := h.reapplies hvalid hbranches hstopped.depth last
  rw [hsecond, List.reverse_singleton, List.map_singleton] at hagain
  obtain ⟨s, hs, hnil⟩ := forEach_cons_eq_ok.mp hagain
  cases hnil
  have hcommitted := (h.coherent.rewind hstopped.depth last).2.1
  have hlogHead : (n.rewind second.length last).logHeadNum = n.committedNum := by
    rw [hpopped.logHead, committedNum, hcommitted]
    rfl
  obtain ⟨next, hnext, -⟩ := applyInSession_of_committed
    (n := { n.rewind second.length last with
      forkDb := (n.rewind second.length last).forkDb.setHead x }) (b := x.data) (by
        rw [hsecond]
        exact hs)
    (by
      intro top htop
      cases htop
      exact (ChainState.applyBlock_headBlockNumber hs).symm)
    (by
      change n.state.dgp.lastIrreversibleBlockNum ≤ (n.rewind second.length last).logHeadNum
      rw [hlogHead]
      exact h.coherent.irreversible)
  have hfailed := hstopped.failed
  rw [hnext] at hfailed
  cases hfailed

/-- What the index holds when the old branch starts to be applied again. -/
theorem restart (h : Recorded L start startLog n blocks) (hvalid : n.Valid L family blocks)
    (hbranches : n.Branches newHead first second)
    (hstopped : Stopped L family n newHead first second last before item after stop message)
    {newer : List (SignedBlock T)} (hstop : Recorded L start startLog stop newer)
    (hdepth : before.length ≤ stop.undoStack.length) (last' : ForkItem T) :
    Recorded L start startLog ((stop.cleaned item after).rewind before.length last')
        (newer.drop before.length) ∧
      ∀ x ∈ second, x ∈ ((stop.cleaned item after).rewind before.length last').forkDb.index := by
  have happlied := hstopped.branchApplied hvalid hbranches
  have hpoppedNum := (hbranches.popped hvalid hstopped.depth hstopped.last_mem).2.2.1
  have hstopNum := happlied.headBlockNum
  have hstopHeight := hstop.coherent.headBlockNum_eq
  have hirreversible := hstop.coherent.irreversible
  have hlength := hstop.coherent.history.length_eq
  have hindex : ∀ x, x ∈ (stop.cleaned item after).forkDb.index ↔
      x ∈ stop.forkDb.index ∧ ∀ y ∈ item :: after, x.id ≠ y.id :=
    (foldl_remove (stop.forkDb.setHead item) (item :: after)).2.2.2
  refine ⟨?_, ?_⟩
  · obtain ⟨hcoherent, hcommitted, -, -, -, hlog⟩ :=
      (hstop.coherent.congr (stop.cleaned item after).forkDb).rewind hdepth last'
    refine ⟨hcoherent, ?_, ?_⟩
    · intro b hb
      obtain ⟨x, hx, rfl⟩ := hstop.present b (List.mem_of_mem_drop hb)
      refine ⟨x, (hindex x).mpr ⟨hx, ?_⟩, rfl⟩
      intro y hy hid
      obtain ⟨i, hi⟩ := List.getElem?_of_mem (List.mem_of_mem_drop hb)
      have hxNum := hstop.coherent.history.get_num hstop.coherent.sound hi
      change x.num + i = stop.headBlockNum at hxNum
      have hyNum := hstopped.failed_num hvalid hbranches hy
      have hsame := ForkItem.num_eq_of_id_eq hid
      omega
    · rw [show ((stop.cleaned item after).rewind before.length last').committed = stop.committed
        from hcommitted, show ((stop.cleaned item after).rewind before.length last').blockLog =
        stop.blockLog from hlog]
      exact hstop.log
  · intro x hx
    refine (hindex x).mpr ⟨?_, fun y hy => failed_apart h hvalid hbranches hstopped hx hy⟩
    refine happlied.kept x (hbranches.secondIndexed x hx) ?_
    obtain ⟨i, hi⟩ := List.getElem?_of_mem hx
    have hiLt := (List.getElem?_eq_some_iff.mp hi).1
    have hxNum := (hbranches.secondGet i x hi).2
    omega

/-- Every outcome of a fork switch keeps the record. -/
theorem switchResult {result : Partial σ T Bool} (h : Recorded L start startLog n blocks)
    (hvalid : n.Valid L family blocks) (hbranches : n.Branches newHead first second)
    (hresult : SwitchResult L family n newHead first second result) :
    ∃ newer, Recorded L start startLog result.1 newer := by
  have hlengths := hbranches.lengths
  have hdeep := hbranches.deep
  have hfirstNums : ∀ {m : Node σ T}, m.headBlockNum + second.length = n.headBlockNum →
      ∀ i x, first.reverse[i]? = some x → x.num = m.headBlockNum + 1 + i := by
    intro m hm i x hx
    have hi := (List.getElem?_eq_some_iff.mp hx).1
    rw [List.length_reverse] at hi
    rw [List.getElem?_reverse hi] at hx
    have hnum := (hbranches.firstGet _ x hx).2
    omega
  have hsecondNums : ∀ {m : Node σ T}, m.headBlockNum + second.length = n.headBlockNum →
      ∀ i x, second.reverse[i]? = some x → x.num = m.headBlockNum + 1 + i := by
    intro m hm i x hx
    have hi := (List.getElem?_eq_some_iff.mp hx).1
    rw [List.length_reverse] at hi
    rw [List.getElem?_reverse hi] at hx
    have hnum := (hbranches.secondGet _ x hx).2
    omega
  have hstop : ∀ {last item : ForkItem T} {before after : List (ForkItem T)} {stop : Node σ T}
      {message : String}, Stopped L family n newHead first second last before item after stop message →
      ∃ newer, Recorded L start startLog stop newer := by
    intro last item before after stop message hstopped
    obtain ⟨-, -, hnum, hfork⟩ := hbranches.popped hvalid hstopped.depth hstopped.last_mem
    refine (h.rewind hstopped.depth last).branch hfork ?_ ?_ hstopped.applied
    · intro x hx
      exact hbranches.firstIndexed x (hstopped.mem_first.mpr (Or.inl hx))
    · intro i x hx
      refine hfirstNums hnum i x ?_
      rw [hstopped.split, List.getElem?_append_left (List.getElem?_eq_some_iff.mp hx).1, hx]
  cases hresult with
  | @stuckBelow last message shallow last_mem last_num popped =>
      exact ⟨_, h.rewind le_rfl last⟩
  | @switched last switched depth last_mem popped applied =>
      obtain ⟨-, -, hnum, hfork⟩ := hbranches.popped hvalid depth last_mem
      exact (h.rewind depth last).branch hfork
        (fun x hx => hbranches.firstIndexed x (List.mem_reverse.mp hx)) (hfirstNums hnum) applied
  | @stuckAbove last last' item before after stop message message' stopped shallow last_mem last_num =>
      obtain ⟨newer, hnewer⟩ := hstop stopped
      obtain ⟨hcoherent, hcommitted, -, -, -, hlog⟩ :=
        (hnewer.coherent.congr (stop.cleaned item after).forkDb).rewind le_rfl last'
      have hnone : newer.drop stop.undoStack.length = [] := by
        rw [← hnewer.coherent.history.length_eq, List.drop_length]
      change Coherent L ((stop.cleaned item after).rewind stop.undoStack.length last')
        (newer.drop stop.undoStack.length) at hcoherent
      rw [hnone] at hcoherent
      refine ⟨[], hcoherent, by simp, ?_⟩
      rw [show ((stop.cleaned item after).rewind stop.undoStack.length last').committed =
        stop.committed from hcommitted,
        show ((stop.cleaned item after).rewind stop.undoStack.length last').blockLog =
        stop.blockLog from hlog]
      exact hnewer.log
  | @restored last last' item before after stop restored message stopped depth last_mem applied =>
      obtain ⟨newer, hnewer⟩ := hstop stopped
      obtain ⟨_, -, hfork, -, -, hnum, -, -⟩ := stopped.restart hvalid hbranches depth last_mem
      obtain ⟨hrestart, hindexed⟩ := h.restart hvalid hbranches stopped hnewer depth last'
      exact hrestart.branch hfork (fun x hx => hindexed x (List.mem_reverse.mp hx))
        (hsecondNums hnum) applied
  | @broken last last' item before after failed stop broken message message' stopped depth last_mem
      applied =>
      -- The old branch leads back to the chain head, so it cannot throw.
      exfalso
      obtain ⟨newer, hnewer⟩ := hstop stopped
      obtain ⟨_, -, -, hstate, -, -, hcommitted, -⟩ :=
        stopped.restart hvalid hbranches depth last_mem
      obtain ⟨hrestart, -⟩ := h.restart hvalid hbranches stopped hnewer depth last'
      have hagain := h.reapplies hvalid hbranches stopped.depth last
      rw [← hstate] at hagain
      have hraised := (stopped.branchApplied hvalid hbranches).committedNum
      have hbase : (n.rewind second.length last).committedNum = n.committedNum := by
        rw [committedNum, (h.coherent.rewind stopped.depth last).2.1]
        rfl
      have hrestartNum : ((stop.cleaned item after).rewind before.length last').committedNum =
          stop.committedNum := by
        rw [committedNum, hcommitted]
        rfl
      have hirreversible := h.coherent.irreversible
      obtain ⟨restored, hrestored, -⟩ := reapply hrestart.coherent hagain (by omega)
      rw [applied] at hrestored
      cases hrestored

end Switch

end Recorded

/-- What a call must not do for the block log to record the chain: push a block of the
own chain again, above the committed block, while the fork database head is a
child of the chain head; apply a block stored with other transactions; and make
a block irreversible at once while the fork database head is another block of its
number and the index holds a second one. -/
structure KeepsRecord (L : LedgerLogic σ T) (n : Node σ T) (b : SignedBlock T) : Prop where
  own : ∀ forkDb newHead, n.forkDb.pushBlock b = .ok forkDb → forkDb.head = some newHead →
    newHead.data.previous = n.headBlockId → n.headBlockId.Descends b.id →
    b.blockNum ≤ n.committedNum
  stored : ∀ forkDb newHead s, n.forkDb.pushBlock b = .ok forkDb → forkDb.head = some newHead →
    newHead.data.previous = n.headBlockId → n.state.applyBlock L b = .ok s →
    ∀ x ∈ n.forkDb.index, x.id = b.id → x.data = b
  sibling : ∀ forkDb newHead s, n.forkDb.pushBlock b = .ok forkDb → forkDb.head = some newHead →
    newHead.data.previous = n.headBlockId → n.state.applyBlock L b = .ok s →
    newHead.data = b ∨ s.dgp.lastIrreversibleBlockNum < b.blockNum ∨
      ∀ x ∈ forkDb.index, x.num = b.blockNum → x.id = b.id

/-- A block that is new to a node on top of its head keeps the record. -/
theorem KeepsRecord.of_new {n : Node σ T} {b : SignedBlock T}
    (hhead : n.headBlockId.num < b.blockNum) (hnew : ∀ x ∈ n.forkDb.index, x.id ≠ b.id)
    (hpushed : (n.forkDb.pushBlock b).toOption.bind (fun forkDb => forkDb.head.map ForkItem.data) =
      some b) : n.KeepsRecord L b where
  own := by
    intro forkDb newHead hpush hnewHead hchild hdescends
    exact absurd hdescends.num_le (Nat.not_le.mpr hhead)
  stored := fun forkDb newHead s hpush hnewHead hchild happly x hx hid => absurd hid (hnew x hx)
  sibling := by
    intro forkDb newHead s hpush hnewHead hchild happly
    left
    rw [hpush, Except.toOption, Option.bind_some, hnewHead] at hpushed
    exact Option.some.inj hpushed

section Run

variable {state : ChainState σ} {blockLog : List (SignedBlock T)}

/-- A call that meets the condition keeps the record. -/
theorem Recorded.pushBlock {start : ChainState σ} {startLog : List (SignedBlock T)}
    {family : Set (ForkItem T)} {n : Node σ T} {blocks : List (SignedBlock T)} {b : SignedBlock T}
    (h : Recorded L start startLog n blocks) (hvalid : n.Valid L family blocks)
    (hkeeps : n.KeepsRecord L b) :
    ∃ newer, Recorded L start startLog (n.pushBlock L b).1 newer := by
  have hlinked : ∀ {item forkDb}, n.forkDb.Pushed b item forkDb →
      Recorded L start startLog { n with forkDb } blocks := by
    intro item forkDb hpushed
    exact h.congr forkDb (fun x hx _ => hpushed.mem_index.mpr (Or.inl hx))
  have hresult := pushBlock_result hvalid b
  generalize n.pushBlock L b = result at hresult
  cases hresult with
  | rejected => exact ⟨blocks, h⟩
  | @applied item newHead forkDb applied accepted pushed head child applies =>
      obtain ⟨written, happlied⟩ := applyInSession_spec applies
      refine (hlinked pushed).applied (hvalid.linked pushed).fork happlied ?_ head ?_ ?_
      · obtain ⟨x, hx, hid⟩ := pushed.stored
        refine ⟨x, hx, ?_⟩
        rcases pushed.mem_index.mp hx with hold | ⟨rfl, -⟩
        · exact hkeeps.stored forkDb newHead _ accepted head child happlied.state x hold hid
        · exact pushed.data
      · rw [child]
        exact ChainState.applyBlock_previous happlied.state
      · exact hkeeps.sibling forkDb newHead _ accepted head child happlied.state
  | @removed item newHead forkDb message accepted pushed head child throws =>
      refine ⟨blocks, (h.congr (forkDb.remove b.id) ?_)⟩
      intro x hx hdata
      rw [ForkDatabase.mem_remove]
      refine ⟨pushed.mem_index.mpr (Or.inl hx), ?_⟩
      intro hid
      obtain ⟨i, hi⟩ := List.getElem?_of_mem hdata
      have hget := h.coherent.history.get hi
      have hnum := h.coherent.history.get_num h.coherent.sound hi
      have hiLt := (List.getElem?_eq_some_iff.mp hi).1
      have hlength := h.coherent.history.length_eq
      have hheight := h.coherent.headBlockNum_eq
      have hchain : n.headBlockId.Descends b.id := by
        rw [← hid]
        change n.headBlockId.Descends x.data.id
        rw [hget]
        exact BlockId.descends_iterate _ _
      have hbNum : x.data.blockNum = b.blockNum := congrArg BlockId.num hid
      have hlow := hkeeps.own forkDb newHead accepted head child hchain
      change x.data.blockNum + i = n.headBlockNum at hnum
      omega
  | kept _ pushed => exact ⟨blocks, hlinked pushed⟩
  | unlinked _ pushed => exact ⟨blocks, hlinked pushed⟩
  | switching _ pushed switching ends =>
      have hvalid' := hvalid.linked pushed
      exact (hlinked pushed).switchResult hvalid' (switching.branches hvalid') ends

/-- A run whose calls all meet the condition keeps the record. -/
theorem run_recorded (hopens : Opens state blockLog) (pushes : List (SignedBlock T))
    (hkeeps : ∀ before b after, pushes = before ++ b :: after →
      (run L (opened state blockLog) before).KeepsRecord L b) :
    ∃ family blocks, (run L (opened state blockLog) pushes).Valid L family blocks ∧
      Recorded L state blockLog (run L (opened state blockLog) pushes) blocks := by
  induction pushes using List.reverseRecOn with
  | nil =>
      obtain ⟨family, hopened⟩ := hopens.valid (L := L)
      refine ⟨family, [], hopened, hopened.coherent, by simp, [], by simp [run, opened], rfl⟩
  | append_singleton before b ih =>
      obtain ⟨family, blocks, hvalid, hrecorded⟩ := ih (fun before' b' after' hsplit =>
        hkeeps before' b' (after' ++ [b]) (by rw [hsplit]; simp))
      obtain ⟨newer, hnewer⟩ := hrecorded.pushBlock hvalid (hkeeps before b [] rfl)
      obtain ⟨family', _, hvalid'⟩ := (pushBlock_result hvalid b).valid hvalid
      have hstep : run L (opened state blockLog) (before ++ [b]) =
          ((run L (opened state blockLog) before).pushBlock L b).1 := by
        rw [run_append]
        rfl
      rw [hstep]
      exact ⟨family', newer, ⟨hnewer.coherent, hvalid'.fork, hvalid'.anchored, hvalid'.rooted⟩,
        hnewer⟩

/-- In every run whose calls all meet the condition, the block log holds the blocks of the
node's own chain up to the committed block, in order; replaying what was written
gives the committed state. In every run, whatever the calls, no later head leaves
the chain up to the committed block, which is at or above the last irreversible one. -/
theorem run_blockLog (hopens : Opens state blockLog)
    (hlog : blockLog.map SignedBlock.id = state.dgp.headBlockId.ancestry)
    (pushes : List (SignedBlock T)) :
    let n := run L (opened state blockLog) pushes
    ((∀ before b after, pushes = before ++ b :: after →
        (run L (opened state blockLog) before).KeepsRecord L b) →
      n.blockLog.map SignedBlock.id = n.headBlockId.ancestry.take n.blockLog.length ∧
        ∃ written, n.blockLog = blockLog ++ written ∧
          state.applyAll L written = .ok n.committed) ∧
      n.blockLog.length = n.committedNum ∧
      n.state.dgp.lastIrreversibleBlockNum ≤ n.committedNum ∧
      ∀ more id, n.headBlockId.Descends id → id.num ≤ n.committedNum →
        (run L n more).headBlockId.Descends id := by
  intro n
  obtain ⟨_, hopened⟩ := hopens.valid (L := L)
  obtain ⟨_, blocks, hvalid⟩ := run_valid hopened pushes
  refine ⟨?_, hvalid.coherent.log, hvalid.coherent.irreversible, ?_⟩
  · intro hkeeps
    obtain ⟨_, _, -, hrecorded⟩ := run_recorded hopens pushes hkeeps
    obtain ⟨written, hwritten, happly⟩ := hrecorded.log
    refine ⟨?_, written, hwritten, happly⟩
    have hancestry := ChainState.ancestry_applyAll happly
    have hdescends := hrecorded.coherent.history.descends
    have htake := hdescends.take_ancestry
    rw [← hrecorded.coherent.sound.number] at htake
    change n.headBlockId.ancestry.take n.committedNum = _ at htake
    rw [show n.blockLog.length = n.committedNum from hvalid.coherent.log, htake]
    change (run L (opened state blockLog) pushes).blockLog.map SignedBlock.id = _
    rw [hwritten, List.map_append, hlog, hancestry]
  · intro more id hid hnum
    obtain ⟨_, _, hlater⟩ := run_valid hvalid more
    exact (run_advances hvalid more).descends hvalid.coherent hlater.coherent hid hnum

end Run

end Node

/-! ### A side block in the log -/

namespace Sample

/-- A chain whose third and fourth blocks one witness makes alone, and which stays
reversible. -/
def lateThird : SignedBlock Bool := block second.id 4 "alice"
def lateFourth : SignedBlock Bool := block lateThird.id 6 "alice"

/-- A block on the side, a child of the chain head that throws, and one that applies. -/
def sideThird : SignedBlock Bool := block second.id 3 "bob" false
def brokenFifth : SignedBlock Bool := block lateFourth.id 7 "bob" false
def lateFifthByBob : SignedBlock Bool := block lateFourth.id 9 "bob"

/-- After the child that throws, the third block of the chain is pushed once more. -/
def misrecorded : Node Unit Bool :=
  Node.run (logic ["alice", "bob"]) (Node.opened genesis [])
    [first, second, lateThird, lateFourth, sideThird, brokenFifth, lateThird, lateFifthByBob]

/-- The log of the node has the side block in the place of the third block. -/
theorem misrecorded_blockLog :
    misrecorded.headBlockId.ancestry =
        [first.id, second.id, lateThird.id, lateFourth.id, lateFifthByBob.id] ∧
      misrecorded.blockLog = [first, second, sideThird, lateFourth] ∧
      misrecorded.blockLog.map SignedBlock.id ≠
        misrecorded.headBlockId.ancestry.take misrecorded.blockLog.length := by
  refine ⟨?_, ?_, ?_⟩ <;> decide

/-- Three blocks, of which two become irreversible and are logged. -/
theorem third_blockLog :
    let n := Node.run (logic ["alice", "bob"]) (Node.opened genesis []) [first, second, third]
    n.committedNum = 2 ∧ n.blockLog = [first, second] ∧
      n.blockLog.map SignedBlock.id = n.headBlockId.ancestry.take n.blockLog.length ∧
      ∀ more, (Node.run (logic ["alice", "bob"]) n more).headBlockId.Descends second.id := by
  intro n
  have hcommitted : n.committedNum = 2 := by decide
  have hlog : n.blockLog = [first, second] := by decide
  obtain ⟨hrecord, -, -, hfinal⟩ :=
    Node.run_blockLog (L := logic ["alice", "bob"]) genesis_opens rfl [first, second, third]
  refine ⟨hcommitted, hlog, (hrecord ?_).1, fun more => hfinal more second.id ?_ ?_⟩
  · intro before b after hsplit
    match before with
    | [] | [_] | [_, _] =>
        cases hsplit
        exact .of_new (by decide) (by decide) (by decide)
    | _ :: _ :: _ :: _ => simp at hsplit
  · exact .inr (.inl rfl)
  · exact hcommitted.ge

end Sample

end Blurt
