import Blurt.Plugins.AccountHistory
import Mathlib.Data.Nat.Bitwise

/-! # Paging through virtual operations

The search for the next block starts after the last operation of a range. In a range without virtual
operations there is none, and the search starts at the first block.
-/

namespace Blurt

namespace AccountHistory

open Outcome

/-! ## Keys -/

theorem BlockOpId.le_total (x y : BlockOpId) : x.le y ∨ y.le x := by
  unfold BlockOpId.le
  omega

theorem BlockOpId.le_trans {x y z : BlockOpId} (hxy : x.le y) (hyz : y.le z) : x.le z := by
  unfold BlockOpId.le at *
  omega

theorem BlockOpId.le_antisymm {x y : BlockOpId} (hxy : x.le y) (hyx : y.le x) : x = y := by
  unfold BlockOpId.le at *
  exact Prod.ext (by omega) (by omega)

instance : Std.Total fun x y : BlockOpId × Nat => x.1.le y.1 := ⟨fun _ _ => BlockOpId.le_total _ _⟩

instance : IsTrans (BlockOpId × Nat) fun x y => x.1.le y.1 := ⟨fun _ _ _ => BlockOpId.le_trans⟩

/-- The place of an operation in the order of blocks and ids. -/
def OperationObject.place (obj : OperationObject) : BlockOpId := (obj.block, obj.id)

instance : Std.Total fun x y : Nat × OperationObject => x.2.place.le y.2.place :=
  ⟨fun _ _ => BlockOpId.le_total _ _⟩

instance : IsTrans (Nat × OperationObject) fun x y => x.2.place.le y.2.place :=
  ⟨fun _ _ _ => BlockOpId.le_trans⟩

theorem isVirtual_encodedId {obj : OperationObject} (hid : obj.id < virtualOpFlag) (block : Nat) :
    Storage.isVirtual (block, obj.encodedId) = true ↔ 0 < obj.virtualOp := by
  have hflag : virtualOpFlag = 2 ^ 63 := rfl
  have hlow : obj.id.testBit 63 = false := Nat.testBit_lt_two_pow (hflag ▸ hid)
  unfold Storage.isVirtual OperationObject.encodedId
  rw [hflag, Nat.and_two_pow]
  split
  · rename_i hvirtual
    rw [Nat.testBit_or, hlow, Nat.testBit_two_pow_self]
    simp [hvirtual]
  · rename_i hvirtual
    simp [hvirtual, hlow]

theorem encodedId_eq {obj : OperationObject} (hid : obj.id < virtualOpFlag) :
    obj.encodedId = if 0 < obj.virtualOp then virtualOpFlag + obj.id else obj.id := by
  unfold OperationObject.encodedId
  split
  · rw [Nat.lor_comm, show virtualOpFlag = 2 ^ 63 * 1 from rfl,
      ← Nat.two_pow_add_eq_or_of_lt (show obj.id < 2 ^ 63 from hid)]
  · rfl

/-- No two operations have one key. -/
theorem id_eq_of_encodedId_eq {a b : OperationObject} (ha : a.id < virtualOpFlag)
    (hb : b.id < virtualOpFlag) (h : a.encodedId = b.encodedId) : a.id = b.id := by
  rw [encodedId_eq ha, encodedId_eq hb] at h
  split at h <;> split at h <;> omega

/-! ## What is stored -/

/-- The columns hold the same operations, whose ids are below `bound`. -/
structure Storage.Consistent (s : Storage) (bound : Nat) : Prop where
  byId : ∀ id obj, s.operationById.find? id = some obj → obj.id = id ∧ id < bound ∧
    s.operationByBlock.find? (obj.block, obj.encodedId) = some id
  byBlock : ∀ key id, s.operationByBlock.find? key = some id →
    ∃ obj, s.operationById.find? id = some obj ∧ key = (obj.block, obj.encodedId)

theorem Storage.Consistent.put {s : Storage} {bound : Nat} (h : s.Consistent bound)
    {obj : OperationObject} (hid : obj.id = bound) (hbound : bound < virtualOpFlag) :
    (s.put obj).Consistent (bound + 1) := by
  have hfresh : s.operationById.find? obj.id = none := by
    cases hfind : s.operationById.find? obj.id with
    | none => rfl
    | some other => exact absurd (h.byId _ _ hfind).2.1 (by omega)
  have hkey : s.operationByBlock.find? (obj.block, obj.encodedId) = none := by
    cases hfind : s.operationByBlock.find? (obj.block, obj.encodedId) with
    | none => rfl
    | some id =>
        obtain ⟨other, hother, heq⟩ := h.byBlock _ _ hfind
        obtain ⟨hotherId, hlt, -⟩ := h.byId _ _ hother
        have hsame := id_eq_of_encodedId_eq (by omega) (by omega) (Prod.mk.inj heq).2
        omega
  constructor
  · intro id other hfind
    dsimp only [Storage.put] at hfind ⊢
    rw [Store.find?_set] at hfind
    split at hfind
    · rename_i hsame
      cases hfind
      exact ⟨hsame.symm, by omega, by rw [Store.find?_set_self, hsame]⟩
    · obtain ⟨hotherId, hlt, hblock⟩ := h.byId _ _ hfind
      refine ⟨hotherId, by omega, ?_⟩
      rw [Store.find?_set_of_ne, hblock]
      rintro heq
      rw [heq, hkey] at hblock
      cases hblock
  · intro key id hfind
    dsimp only [Storage.put] at hfind ⊢
    rw [Store.find?_set] at hfind
    split at hfind
    · rename_i hsame
      cases hfind
      exact ⟨obj, Store.find?_set_self _ _ _, hsame⟩
    · obtain ⟨other, hother, heq⟩ := h.byBlock _ _ hfind
      refine ⟨other, ?_, heq⟩
      rw [Store.find?_set_of_ne, hother]
      rintro rfl
      rw [hfresh] at hother
      cases hother

theorem Storage.Consistent.foldl_put {s : Storage} {bound : Nat} (h : s.Consistent bound)
    {objs : List OperationObject} (hids : objs.map (·.id) = List.range' bound objs.length)
    (hbound : bound + objs.length ≤ virtualOpFlag) :
    (objs.foldl Storage.put s).Consistent (bound + objs.length) := by
  induction objs generalizing s bound with
  | nil => exact h
  | cons obj rest ih =>
      rw [List.length_cons] at hids hbound ⊢
      rw [List.map_cons, List.range'_succ, List.cons.injEq] at hids
      rw [List.foldl_cons, show bound + (rest.length + 1) = bound + 1 + rest.length by omega]
      exact ih (h.put hids.1 (by omega)) hids.2 (by omega)

/-- The buffered operations have the ids that follow the stored ones. -/
structure Plugin.Invariant (p : Plugin) : Prop where
  ids : p.writeBuffer.map (·.id) = List.range' p.storage.operationSeqId p.writeBuffer.length
  operationSeqId : p.operationSeqId = p.storage.operationSeqId + p.writeBuffer.length
  consistent : p.storage.operationSeqId ≤ virtualOpFlag →
    p.storage.Consistent p.storage.operationSeqId

theorem Plugin.Invariant.flush {p : Plugin} (h : p.Invariant) : p.flushWriteBuffer.Invariant where
  ids := rfl
  operationSeqId := rfl
  consistent hbound := by
    dsimp only [Plugin.flushWriteBuffer] at hbound ⊢
    rw [h.operationSeqId] at hbound ⊢
    have hputs := (h.consistent (by omega)).foldl_put h.ids hbound
    exact ⟨hputs.byId, hputs.byBlock⟩

theorem Plugin.Reachable.invariant {p : Plugin} (h : p.Reachable) : p.Invariant := by
  induction h with
  | start =>
      refine ⟨rfl, rfl, fun _ => ⟨fun id obj hfind => ?_, fun key id hfind => ?_⟩⟩
      · cases hfind
      · cases hfind
  | @importOperation p _ obj ih =>
      have hcollected : Plugin.Invariant { p with
          writeBuffer := p.writeBuffer ++ [{ obj with id := p.operationSeqId }]
          operationSeqId := p.operationSeqId + 1
          collectedOps := p.collectedOps + 1 } := by
        refine ⟨?_, ?_, ih.consistent⟩
        · dsimp only
          rw [List.map_append, ih.ids, List.length_append, List.length_singleton, List.range'_1_concat,
            ih.operationSeqId]
          rfl
        · dsimp only
          rw [ih.operationSeqId, List.length_append, List.length_singleton]
          omega
      unfold Plugin.importOperation
      dsimp only
      split
      · exact hcollected.flush
      · exact hcollected
  | flush _ ih => exact ih.flush
  | limit _ limit ih => exact ⟨ih.ids, ih.operationSeqId, ih.consistent⟩
  | reopen _ ih => exact ⟨rfl, rfl, ih.consistent⟩

/-! ## The loops -/

namespace Storage

/-- The stored virtual operations in the order of their blocks and ids. -/
def virtualOperations (s : Storage) : List OperationObject :=
  (s.operationById.ordered (fun x y => x.2.place.le y.2.place)
    fun _ obj => 0 < obj.virtualOp).map Prod.snd

/-- The virtual operations of entries of the column of blocks. -/
def virtualOf (s : Storage) (entries : List (BlockOpId × Nat)) : List OperationObject :=
  (entries.filter fun entry => isVirtual entry.1).filterMap fun entry => s.findOperationObject entry.2

variable {s : Storage} {bound : Nat}

/-- An entry of the column of blocks has an operation. -/
theorem Consistent.entry (h : s.Consistent bound) {entry : BlockOpId × Nat}
    (hentry : s.operationByBlock.find? entry.1 = some entry.2) :
    ∃ obj, s.findOperationObject entry.2 = some obj ∧ entry.1 = (obj.block, obj.encodedId) ∧
      obj.id = entry.2 ∧ obj.id < bound := by
  obtain ⟨obj, hobj, hkey⟩ := h.byBlock entry.1 entry.2 hentry
  obtain ⟨hid, hlt, -⟩ := h.byId _ _ hobj
  exact ⟨obj, hobj, hkey, hid, by omega⟩

/-- The loop gives the virtual operations to the processor. -/
theorem processVirtual_eq (h : s.Consistent bound) {entries : List (BlockOpId × Nat)}
    (hentries : ∀ entry ∈ entries, s.operationByBlock.find? entry.1 = some entry.2)
    (lastFoundBlock : Nat) :
    s.processVirtual entries lastFoundBlock = .ok (s.virtualOf entries,
      (((s.virtualOf entries).getLast?).map OperationObject.block).getD lastFoundBlock) := by
  induction entries generalizing lastFoundBlock with
  | nil => rfl
  | cons entry rest ih =>
      have ih := ih fun entry hmem => hentries entry (List.mem_cons_of_mem _ hmem)
      obtain ⟨obj, hobj, -⟩ := h.entry (hentries entry List.mem_cons_self)
      obtain ⟨key, opId⟩ := entry
      by_cases hvirtual : isVirtual key
      · have hcons : s.virtualOf ((key, opId) :: rest) = obj :: s.virtualOf rest := by
          simp [virtualOf, hvirtual, hobj]
        have hfound : Outcome.require (s.findOperationObject opId) "found" = .ok obj :=
          require_eq_ok.mpr hobj
        rw [processVirtual, if_pos hvirtual, hfound, ok_bind, ih, hcons, List.getLast?_cons]
        cases (s.virtualOf rest).getLast? <;> rfl
      · have hcons : s.virtualOf ((key, opId) :: rest) = s.virtualOf rest := by
          simp [virtualOf, hvirtual]
        rw [processVirtual, if_neg hvirtual, ih, hcons]

/-- A condition on the block of entries is one on their operations. -/
theorem virtualOf_filter (h : s.Consistent bound) {entries : List (BlockOpId × Nat)}
    (hentries : ∀ entry ∈ entries, s.operationByBlock.find? entry.1 = some entry.2)
    (keep : Nat → Bool) :
    s.virtualOf (entries.filter fun entry => keep entry.1.1) =
      (s.virtualOf entries).filter fun obj => keep obj.block := by
  induction entries with
  | nil => rfl
  | cons entry rest ih =>
      have ih := ih fun entry hmem => hentries entry (List.mem_cons_of_mem _ hmem)
      obtain ⟨obj, hobj, hkey, -⟩ := h.entry (hentries entry List.mem_cons_self)
      have hblock : entry.1.1 = obj.block := congrArg Prod.fst hkey
      unfold virtualOf at ih ⊢
      by_cases hvirtual : isVirtual entry.1 <;> by_cases hkeep : keep entry.1.1 <;>
        simp_all

/-- The first entry with the flag is the first virtual operation. -/
theorem find?_virtual (h : s.Consistent bound) {entries : List (BlockOpId × Nat)}
    (hentries : ∀ entry ∈ entries, s.operationByBlock.find? entry.1 = some entry.2) :
    (entries.find? fun entry => isVirtual entry.1).map (fun entry => entry.1.1) =
      (s.virtualOf entries).head?.map OperationObject.block := by
  induction entries with
  | nil => rfl
  | cons entry rest ih =>
      have ih := ih fun entry hmem => hentries entry (List.mem_cons_of_mem _ hmem)
      obtain ⟨obj, hobj, hkey, -⟩ := h.entry (hentries entry List.mem_cons_self)
      have hblock : entry.1.1 = obj.block := congrArg Prod.fst hkey
      unfold virtualOf at ih ⊢
      by_cases hvirtual : isVirtual entry.1 <;> simp_all

/-! ## The order -/

/-- The column of blocks in the order of its keys. -/
def column (s : Storage) : List (BlockOpId × Nat) :=
  s.operationByBlock.ordered (fun x y => x.1.le y.1) fun _ _ => true

theorem column_find? (s : Storage) :
    ∀ entry ∈ s.column, s.operationByBlock.find? entry.1 = some entry.2 :=
  fun _ hentry => (Store.mem_ordered_iff.mp hentry).1

theorem column_pairwise (s : Storage) :
    s.column.Pairwise fun x y => x.1.le y.1 ∧ x.1 ≠ y.1 := by
  have hkeys : s.column.Pairwise fun x y => x.1 ≠ y.1 :=
    List.pairwise_map.mp (Store.ordered_nodup _ _ _)
  have hsorted : s.column.Pairwise fun x y => x.1.le y.1 :=
    List.pairwise_insertionSort (fun x y : BlockOpId × Nat => x.1.le y.1) _
  exact hsorted.and hkeys

theorem virtualOf_column_pairwise (h : s.Consistent bound) (hbound : bound ≤ virtualOpFlag) :
    (s.virtualOf s.column).Pairwise fun x y => x.place.le y.place ∧ x ≠ y := by
  have hcolumn : (s.column.filter fun entry => isVirtual entry.1).Pairwise
      fun x y => x.1.le y.1 ∧ x.1 ≠ y.1 := s.column_pairwise.sublist List.filter_sublist
  refine List.pairwise_filterMap.mpr (hcolumn.imp_of_mem fun {x y} hx hy hle a ha b hb => ?_)
  obtain ⟨hxColumn, hxVirtual⟩ := List.mem_filter.mp hx
  obtain ⟨hyColumn, hyVirtual⟩ := List.mem_filter.mp hy
  obtain ⟨a', ha', hxKey, -, haLt⟩ := h.entry (s.column_find? _ hxColumn)
  obtain ⟨b', hb', hyKey, -, hbLt⟩ := h.entry (s.column_find? _ hyColumn)
  cases ha'.symm.trans ha
  cases hb'.symm.trans hb
  rw [hxKey, isVirtual_encodedId (by omega)] at hxVirtual
  rw [hyKey, isVirtual_encodedId (by omega)] at hyVirtual
  rw [hxKey, hyKey] at hle
  obtain ⟨hle, hne⟩ := hle
  refine ⟨?_, fun heq => hne (by rw [heq])⟩
  rw [encodedId_eq (by omega), encodedId_eq (by omega), if_pos hxVirtual, if_pos hyVirtual] at hle
  unfold BlockOpId.le OperationObject.place at *
  omega

theorem virtualOperations_pairwise (s : Storage) :
    s.virtualOperations.Pairwise fun x y => x.place.le y.place :=
  List.pairwise_map.mpr
    (List.pairwise_insertionSort (fun x y : Nat × OperationObject => x.2.place.le y.2.place) _)

theorem mem_virtualOperations (h : s.Consistent bound) {obj : OperationObject} :
    obj ∈ s.virtualOperations ↔ s.operationById.find? obj.id = some obj ∧ 0 < obj.virtualOp := by
  simp only [virtualOperations, List.mem_map, Prod.exists, exists_eq_right, Store.mem_ordered_iff,
    decide_eq_true_eq]
  constructor
  · rintro ⟨id, hfind, hvirtual⟩
    have hid := (h.byId _ _ hfind).1
    exact ⟨hid ▸ hfind, hvirtual⟩
  · rintro ⟨hfind, hvirtual⟩
    exact ⟨_, hfind, hvirtual⟩

theorem virtualOperations_nodup (h : s.Consistent bound) : s.virtualOperations.Nodup := by
  have hids : s.virtualOperations.map (·.id) =
      (s.operationById.ordered (fun x y => x.2.place.le y.2.place)
        fun _ obj => 0 < obj.virtualOp).map Prod.fst := by
    rw [virtualOperations, List.map_map]
    apply List.map_congr_left
    rintro ⟨id, obj⟩ hmem
    exact (h.byId id obj (Store.mem_ordered_iff.mp hmem).1).1
  apply List.Nodup.of_map (·.id)
  rw [hids]
  exact Store.ordered_nodup _ _ _

theorem mem_virtualOf_column (h : s.Consistent bound) (hbound : bound ≤ virtualOpFlag)
    {obj : OperationObject} : obj ∈ s.virtualOf s.column ↔ obj ∈ s.virtualOperations := by
  rw [mem_virtualOperations h]
  constructor
  · intro hmem
    obtain ⟨entry, hentry, hobj⟩ := List.mem_filterMap.mp hmem
    obtain ⟨hcolumn, hvirtual⟩ := List.mem_filter.mp hentry
    obtain ⟨other, hother, hkey, hid, hlt⟩ := h.entry (s.column_find? _ hcolumn)
    cases hother.symm.trans hobj
    rw [hkey, isVirtual_encodedId (by omega)] at hvirtual
    exact ⟨hid ▸ hobj, hvirtual⟩
  · rintro ⟨hfind, hvirtual⟩
    obtain ⟨-, hlt, hblock⟩ := h.byId _ _ hfind
    refine List.mem_filterMap.mpr
      ⟨((obj.block, obj.encodedId), obj.id), List.mem_filter.mpr ⟨?_, ?_⟩, hfind⟩
    · exact Store.mem_ordered_iff.mpr ⟨hblock, rfl⟩
    · exact (isVirtual_encodedId (by omega) _).mpr hvirtual

/-- The column of blocks has the virtual operations in their order. -/
theorem virtualOf_column (h : s.Consistent bound) (hbound : bound ≤ virtualOpFlag) :
    s.virtualOf s.column = s.virtualOperations := by
  have hpairs := virtualOf_column_pairwise h hbound
  have hperm : (s.virtualOf s.column).Perm s.virtualOperations :=
    (List.perm_ext_iff_of_nodup (hpairs.imp fun hxy => hxy.2) (virtualOperations_nodup h)).mpr
      fun _ => mem_virtualOf_column h hbound
  have hantisymm : ∀ a b, a ∈ s.virtualOf s.column → b ∈ s.virtualOperations →
      a.place.le b.place → b.place.le a.place → a = b := by
    intro a b ha hb hab hba
    -- operations of one id are one
    have hid : a.id = b.id := congrArg Prod.snd (BlockOpId.le_antisymm hab hba)
    have ha := ((mem_virtualOperations h).mp ((mem_virtualOf_column h hbound).mp ha)).1
    have hb := ((mem_virtualOperations h).mp hb).1
    rw [hid, hb] at ha
    exact (Option.some.inj ha).symm
  exact List.Perm.eq_of_pairwise hantisymm (hpairs.imp fun hxy => hxy.1)
    s.virtualOperations_pairwise hperm

/-! ## One call -/

/-- The block of the last operation of a range, or zero. -/
def lastBlock (ops : List OperationObject) : Nat := (ops.getLast?.map OperationObject.block).getD 0

theorem iterate_range (rangeBegin rangeEnd : Nat) :
    s.iterate (rangeBegin, 0) (some (rangeEnd, 0)) =
      s.column.filter fun entry => rangeBegin ≤ entry.1.1 ∧ entry.1.1 < rangeEnd := by
  unfold iterate column
  apply List.filter_congr
  intro entry _
  simp only [Option.mem_some_iff, forall_eq', decide_eq_decide]
  unfold BlockOpId.le
  omega

theorem iterate_from (rangeBegin : Nat) :
    s.iterate (rangeBegin, 0) none = s.column.filter fun entry => rangeBegin ≤ entry.1.1 := by
  unfold iterate column
  apply List.filter_congr
  intro entry _
  simp only [Option.not_mem_none, false_implies, implies_true, and_true, decide_eq_decide]
  unfold BlockOpId.le
  omega

/-- A call processes the operations of its range, and returns the first block with a virtual
operation after the last of them. -/
theorem enum_eq (h : s.Consistent bound) (hbound : bound ≤ virtualOpFlag) {rangeBegin rangeEnd : Nat}
    (hrange : rangeBegin < rangeEnd) :
    s.enumVirtualOperationsFromBlockRange rangeBegin rangeEnd =
      .ok (Paging.page OperationObject.block s.virtualOperations rangeBegin rangeEnd,
        Paging.nextBlock OperationObject.block s.virtualOperations
          (lastBlock (Paging.page OperationObject.block s.virtualOperations rangeBegin rangeEnd) + 1)) := by
  have hsub : ∀ keep : BlockOpId × Nat → Bool, ∀ entry ∈ s.column.filter keep,
      s.operationByBlock.find? entry.1 = some entry.2 := fun keep entry hentry =>
    s.column_find? entry (List.mem_filter.mp hentry).1
  have hpage : s.virtualOf (s.iterate (rangeBegin, 0) (some (rangeEnd, 0))) =
      Paging.page OperationObject.block s.virtualOperations rangeBegin rangeEnd := by
    rw [iterate_range, virtualOf_filter h s.column_find?
      (fun block => rangeBegin ≤ block ∧ block < rangeEnd), virtualOf_column h hbound]
    rfl
  have hnext : ∀ block : Nat,
      (((s.iterate (block, 0) none).find? fun entry => isVirtual entry.1).map
        fun entry => entry.1.1) =
          (Paging.itemsFrom OperationObject.block s.virtualOperations block).head?.map
            OperationObject.block := by
    intro block
    rw [iterate_from, find?_virtual h (hsub _), virtualOf_filter h s.column_find?
      (fun other => block ≤ other), virtualOf_column h hbound]
    rfl
  have hprocess := processVirtual_eq h (iterate_range (s := s) rangeBegin rangeEnd ▸ hsub _) 0
  rw [hpage] at hprocess
  rw [enumVirtualOperationsFromBlockRange, Outcome.ensure, if_pos hrange, ok_bind, hprocess, ok_bind]
  dsimp only
  rw [hnext]
  rfl

/-! ## Paging -/

theorem virtualOperations_sorted (s : Storage) :
    s.virtualOperations.Pairwise fun x y => x.block ≤ y.block :=
  s.virtualOperations_pairwise.imp fun {x y} hle => by
    unfold BlockOpId.le OperationObject.place at hle
    omega

/-- From a range with virtual operations the search starts behind the last of them, and finds the
first block from the end of the range on. -/
theorem nextBlock_of_page {rangeBegin rangeEnd : Nat}
    (hpage : Paging.page OperationObject.block s.virtualOperations rangeBegin rangeEnd ≠ []) :
    Paging.nextBlock OperationObject.block s.virtualOperations
        (lastBlock (Paging.page OperationObject.block s.virtualOperations rangeBegin rangeEnd) + 1) =
      Paging.nextBlock OperationObject.block s.virtualOperations rangeEnd := by
  obtain ⟨init, last, hlast⟩ : ∃ init last,
      Paging.page OperationObject.block s.virtualOperations rangeBegin rangeEnd = init ++ [last] :=
    (List.eq_nil_or_concat' _).resolve_left hpage
  have hmem : ∀ obj, obj ∈ init ++ [last] ↔
      obj ∈ s.virtualOperations ∧ rangeBegin ≤ obj.block ∧ obj.block < rangeEnd := fun obj => by
    rw [← hlast]
    simp [Paging.page]
  have hblock : lastBlock (init ++ [last]) = last.block := by
    rw [lastBlock, List.getLast?_append]
    rfl
  have hsorted : (init ++ [last]).Pairwise fun x y => x.block ≤ y.block :=
    hlast ▸ s.virtualOperations_sorted.sublist List.filter_sublist
  obtain ⟨-, hbegin, hend⟩ := (hmem last).mp (by simp)
  rw [hlast, hblock, Paging.nextBlock, Paging.nextBlock]
  refine congrArg (fun items => ((List.head? items).map _).getD 0) (List.filter_congr fun obj hobj => ?_)
  rw [decide_eq_decide]
  refine ⟨fun hafter => ?_, fun hfrom => by omega⟩
  by_contra hbefore
  have hin := (hmem obj).mpr ⟨hobj, by omega, by omega⟩
  rcases List.mem_append.mp hin with hinit | hsame
  · have := (List.pairwise_append.mp hsorted).2.2 obj hinit last (by simp)
    omega
  · rw [List.mem_singleton.mp hsame] at hafter
    omega

/-- The calls from a block on process every virtual operation from it on, and each call returns the
first block with a virtual operation from the end of its range on. -/
structure PagesExactly (s : Storage) (length rangeBegin : Nat) : Prop where
  pages : Paging.Pages s.enumVirtualOperationsFromBlockRange length rangeBegin
    (Paging.itemsFrom OperationObject.block s.virtualOperations rangeBegin)
  returned : ∀ later, Paging.Called s.enumVirtualOperationsFromBlockRange length rangeBegin later →
    ∃ ops, s.enumVirtualOperationsFromBlockRange later (later + length) =
      .ok (ops, Paging.nextBlock OperationObject.block s.virtualOperations (later + length))

end Storage

/-- Paging is exact if the first range has a virtual operation, or no block before it but the block
zero has one. -/
theorem pagesExactly_iff {p : Plugin} (hp : p.Reachable)
    (hids : p.storage.operationSeqId ≤ virtualOpFlag) {length : Nat} (hlength : 0 < length)
    (rangeBegin : Nat) : p.storage.PagesExactly length rangeBegin ↔
      (∃ op ∈ p.storage.virtualOperations,
        rangeBegin ≤ op.block ∧ op.block < rangeBegin + length) ∨
      ∀ op ∈ p.storage.virtualOperations, op.block = 0 ∨ rangeBegin ≤ op.block := by
  have h := hp.invariant.consistent hids
  have hsorted := p.storage.virtualOperations_sorted
  generalize p.storage = s at h hsorted hids
  have hcall : ∀ rangeBegin, s.enumVirtualOperationsFromBlockRange rangeBegin (rangeBegin + length) =
      .ok (Paging.page OperationObject.block s.virtualOperations rangeBegin (rangeBegin + length),
        Paging.nextBlock OperationObject.block s.virtualOperations (Storage.lastBlock
          (Paging.page OperationObject.block s.virtualOperations rangeBegin (rangeBegin + length)) + 1)) :=
    fun rangeBegin => Storage.enum_eq h hids (by omega)
  have hpage : ∀ rangeBegin op, op ∈ Paging.page OperationObject.block s.virtualOperations rangeBegin
      (rangeBegin + length) ↔ op ∈ s.virtualOperations ∧ rangeBegin ≤ op.block ∧
        op.block < rangeBegin + length := fun rangeBegin op => by simp [Paging.page]
  have hexact : ∀ rangeBegin, (∃ op ∈ s.virtualOperations,
      rangeBegin ≤ op.block ∧ op.block < rangeBegin + length) →
        s.enumVirtualOperationsFromBlockRange rangeBegin (rangeBegin + length) =
          .ok (Paging.page OperationObject.block s.virtualOperations rangeBegin (rangeBegin + length),
            Paging.nextBlock OperationObject.block s.virtualOperations (rangeBegin + length)) := by
    rintro rangeBegin ⟨op, hop, hrange⟩
    rw [hcall, Storage.nextBlock_of_page (List.ne_nil_of_mem ((hpage _ op).mpr ⟨hop, hrange⟩))]
  have hempty : (¬ ∃ op ∈ s.virtualOperations,
      rangeBegin ≤ op.block ∧ op.block < rangeBegin + length) →
        s.enumVirtualOperationsFromBlockRange rangeBegin (rangeBegin + length) =
          .ok (Paging.page OperationObject.block s.virtualOperations rangeBegin (rangeBegin + length),
            Paging.nextBlock OperationObject.block s.virtualOperations 1) := by
    intro hnone
    have hnil : Paging.page OperationObject.block s.virtualOperations rangeBegin
        (rangeBegin + length) = [] :=
      List.eq_nil_iff_forall_not_mem.mpr fun op hop => hnone ⟨op, (hpage _ op).mp hop⟩
    rw [hcall, hnil]
    rfl
  constructor
  · intro hpages
    by_contra hcondition
    rw [not_or] at hcondition
    obtain ⟨hnone, hearly⟩ := hcondition
    simp only [not_forall, not_or] at hearly
    obtain ⟨early, hearlyMem, hearlyZero, hearlyBefore⟩ := hearly
    obtain ⟨ops, hreturned⟩ := hpages.returned rangeBegin .start
    rw [hempty hnone, Except.ok.injEq, Prod.mk.injEq] at hreturned
    have hsome : Paging.itemsFrom OperationObject.block s.virtualOperations 1 ≠ [] :=
      List.ne_nil_of_mem (Paging.mem_itemsFrom.mpr ⟨hearlyMem, Nat.pos_of_ne_zero hearlyZero⟩)
    obtain ⟨-, hpositive, hleast⟩ := Paging.nextBlock_spec hsorted hsome
    have hbefore := hleast early hearlyMem (Nat.pos_of_ne_zero hearlyZero)
    rw [hreturned.2] at hpositive hbefore
    by_cases hlate : Paging.itemsFrom OperationObject.block s.virtualOperations (rangeBegin + length) = []
    · rw [Paging.nextBlock_eq_zero hlate] at hpositive
      omega
    · have hafter := (Paging.nextBlock_spec hsorted hlate).2.1
      omega
  · intro hcondition
    have hfirst : s.enumVirtualOperationsFromBlockRange rangeBegin (rangeBegin + length) =
        .ok (Paging.page OperationObject.block s.virtualOperations rangeBegin (rangeBegin + length),
          Paging.nextBlock OperationObject.block s.virtualOperations (rangeBegin + length)) := by
      by_cases hsome : ∃ op ∈ s.virtualOperations,
          rangeBegin ≤ op.block ∧ op.block < rangeBegin + length
      · exact hexact rangeBegin hsome
      · have hnone := hcondition.resolve_left hsome
        have hsame : Paging.itemsFrom OperationObject.block s.virtualOperations 1 =
            Paging.itemsFrom OperationObject.block s.virtualOperations (rangeBegin + length) := by
          refine List.filter_congr fun op hop => decide_eq_decide.mpr ⟨fun hone => ?_, fun hlate => ?_⟩
          · by_contra hbefore
            exact hsome ⟨op, hop, (hnone op hop).resolve_left (by omega), by omega⟩
          · omega
        rw [hempty hsome, Paging.nextBlock, hsame]
        rfl
    have hlater : ∀ op ∈ s.virtualOperations,
        s.enumVirtualOperationsFromBlockRange op.block (op.block + length) =
          .ok (Paging.page OperationObject.block s.virtualOperations op.block (op.block + length),
            Paging.nextBlock OperationObject.block s.virtualOperations (op.block + length)) :=
      fun op hop => hexact op.block ⟨op, hop, Nat.le_refl _, by omega⟩
    exact ⟨Paging.pages_of_calls hsorted hlength hfirst hlater,
      fun later hcalled => ⟨_, Paging.called_cases hsorted hfirst hlater hcalled⟩⟩

end AccountHistory

namespace Sample

open AccountHistory Outcome

/-- A virtual operation in a block. -/
def virtualOpIn (block : Nat) : OperationObject where
  id := 0
  trxId := []
  block
  trxInBlock := 0
  opInTrx := 0
  virtualOp := 1
  timestamp := 0
  serializedOp := []

/-- A store with one virtual operation, in block 5. -/
def historyOfFive : Plugin := Plugin.importOperation {} (virtualOpIn 5)

theorem historyOfFive_reachable : historyOfFive.Reachable := .importOperation .start _

theorem historyOfFive_pagesExactly : historyOfFive.storage.PagesExactly 10 1 :=
  (pagesExactly_iff historyOfFive_reachable (by decide) (by decide) 1).mpr
    (.inl ⟨virtualOpIn 5, by decide +kernel, by decide, by decide⟩)

/-- The paging from block 10 goes back to block 5. -/
theorem historyOfFive_goes_back :
    historyOfFive.storage.enumVirtualOperationsFromBlockRange 10 20 = .ok ([], 5) ∧
      ¬ historyOfFive.storage.PagesExactly 10 10 := by
  have hcall : historyOfFive.storage.enumVirtualOperationsFromBlockRange 10 20 = .ok ([], 5) :=
    eq_ok_of_toOption (by decide +kernel)
  refine ⟨hcall, fun hpages => ?_⟩
  obtain ⟨ops, hreturned⟩ := hpages.returned 10 .start
  rw [hcall, Except.ok.injEq, Prod.mk.injEq] at hreturned
  exact absurd hreturned.2 (by decide +kernel)

end Sample

end Blurt
