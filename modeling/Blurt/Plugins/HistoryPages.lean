import Blurt.Foundation.Descending
import Blurt.Plugins.PruningRuns

/-! # Pages of account histories

`get_account_history` of the account_history plugin gives the entries from a sequence down. That of
the account_history_rocksdb plugin walks down to a number that it includes.
-/

namespace Blurt

namespace AccountHistory

open Outcome Descending

/-- An answer is the page of some numbers, with the operation of each. -/
def GivesPage (answer : Except String (List (Nat × OperationObject))) (numbers : List Nat)
    (operation : Nat → Option OperationObject) (start limit : Nat) : Prop :=
  ∃ items, answer = .ok items ∧ items.map Prod.fst = page numbers start limit ∧
    ∀ item ∈ items, operation item.1 = some item.2

/-- Rows whose operations are stored are read. -/
theorem mapM_read (find : Nat → Option OperationObject) (message : String) (rows : List (Nat × Nat))
    (hfound : ∀ row ∈ rows, (find row.2).isSome) :
    ∃ items, (rows.mapM fun row => do
        let op ← Outcome.require (find row.2) message
        return (row.1, op)) = .ok items ∧ items.map Prod.fst = rows.map Prod.fst ∧
      ∀ item ∈ items, ∃ opId, (item.1, opId) ∈ rows ∧ find opId = some item.2 := by
  induction rows with
  | nil => exact ⟨[], rfl, rfl, fun item hin => absurd hin List.not_mem_nil⟩
  | cons row rest ih =>
    obtain ⟨op, hop⟩ := Option.isSome_iff_exists.mp (hfound row List.mem_cons_self)
    obtain ⟨items, hitems, hnumbers, hops⟩ := ih fun later hin =>
      hfound later (List.mem_cons_of_mem _ hin)
    refine ⟨(row.1, op) :: items, ?_, congrArg (row.1 :: ·) hnumbers, fun item hin => ?_⟩
    · rw [List.mapM_cons, hitems, hop]
      rfl
    · rcases List.mem_cons.mp hin with rfl | hin
      · exact ⟨row.2, List.mem_cons_self, hop⟩
      · obtain ⟨opId, hrow, hfind⟩ := hops item hin
        exact ⟨opId, List.mem_cons_of_mem _ hrow, hfind⟩

/-- An answer that reads some rows is a page if the numbers of the rows are. -/
theorem givesPage_iff (find : Nat → Option OperationObject) (message : String)
    {rows : List (Nat × Nat)} {numbers : List Nat} {operation : Nat → Option OperationObject}
    {start limit : Nat} (hfound : ∀ row ∈ rows, (find row.2).isSome)
    (hoperation : ∀ row ∈ rows, operation row.1 = find row.2) :
    GivesPage (rows.mapM fun row => do
        let op ← Outcome.require (find row.2) message
        return (row.1, op)) numbers operation start limit ↔
      rows.map Prod.fst = page numbers start limit := by
  obtain ⟨items, hitems, hnumbers, hops⟩ := mapM_read find message rows hfound
  constructor
  · rintro ⟨answer, hanswer, hpage, -⟩
    rw [hitems] at hanswer
    rw [← hnumbers, Except.ok.inj hanswer, hpage]
  · intro hpage
    refine ⟨items, hitems, hnumbers.trans hpage, fun item hin => ?_⟩
    obtain ⟨opId, hrow, hfind⟩ := hops item hin
    rw [hoperation _ hrow, hfind]

/-- The checks of an accepted call. -/
theorem checkLimit_eq_ok {start limit : Nat} (hmost : limit ≤ 10000) (hstart : limit ≤ start) :
    checkLimit start limit = .ok () := by
  unfold checkLimit
  simp [Outcome.ensure, hmost, hstart]

/-- A call that is answered is accepted. -/
theorem accepted_of_checkLimit {α : Type} {rest : Unit → Except String α} {start limit : Nat}
    {answer : α} (h : (checkLimit start limit >>= rest) = .ok answer) :
    limit ≤ 10000 ∧ limit ≤ start := by
  obtain ⟨u, hchecked, -⟩ := bind_eq_ok.mp h
  unfold checkLimit at hchecked
  simpa using hchecked

/-! ## Objects of the database -/

namespace HistoryIndexes

variable {h : HistoryIndexes} {account : AccountName} {start limit : Nat}

/-- The sequences of an account, the newest first. -/
def numbers (h : HistoryIndexes) (account : AccountName) : List Nat :=
  (h.rowsOf account).reverse.map Prod.fst

/-- The operation of a sequence. -/
def operation (h : HistoryIndexes) (account : AccountName) (s : Nat) : Option OperationObject :=
  (h.history.find? (account, s)).bind fun opId => h.operations.find? opId

theorem numbers_sorted (h : HistoryIndexes) (account : AccountName) :
    (h.numbers account).Pairwise (· > ·) := by
  unfold numbers
  rw [List.map_reverse, List.pairwise_reverse]
  exact h.rowsOf_sorted account

/-- No sequence is at or below the start, but above it when 64 bits are cut to 32. -/
def MeetsPage (h : HistoryIndexes) (account : AccountName) (start limit : Nat) : Prop :=
  limit = 0 ∨ ∀ s ∈ h.numbers account, s ≤ start → s ≤ start % 2 ^ 32

theorem givesPage_iff_meets
    (hrefers : ∀ key opId, h.history.find? key = some opId → (h.operations.find? opId).isSome)
    (hmost : limit ≤ 10000) (hstart : limit ≤ start) :
    GivesPage (h.getAccountHistory account start limit) (h.numbers account) (h.operation account)
      start limit ↔ h.MeetsPage account start limit := by
  unfold getAccountHistory MeetsPage
  rw [checkLimit_eq_ok hmost hstart, ok_bind]
  dsimp only
  have hrow : ∀ row ∈ ((h.rowsOf account).reverse.filter fun row =>
      row.1 ≤ start % 2 ^ 32).take limit, h.history.find? (account, row.1) = some row.2 :=
    fun row hrow => mem_rowsOf.mp
      (List.mem_reverse.mp (List.mem_filter.mp ((List.take_subset _ _) hrow)).1)
  rw [givesPage_iff (fun opId => h.operations.find? opId) "unknown key"
    (fun row hin => hrefers _ _ (hrow row hin)) fun row hin => by
      unfold operation
      rw [hrow row hin, Option.bind_some]]
  rw [← page_eq_page_iff (h.numbers_sorted account) (Nat.mod_le start _)]
  have hnumbers : (((h.rowsOf account).reverse.filter fun row =>
      row.1 ≤ start % 2 ^ 32).take limit).map Prod.fst =
        page (h.numbers account) (start % 2 ^ 32) limit := by
    unfold page below numbers
    rw [List.map_take, List.filter_map]
    rfl
  rw [hnumbers]

end HistoryIndexes

/-! ## The store -/

namespace RecordPlugin

variable {p : RecordPlugin} {account : AccountName} {info : AccountHistoryInfo} {start limit : Nat}

theorem map_walkDown {α : Type*} (lowerBound : Nat) {rows : List (Nat × α)}
    (h : (rows.map Prod.fst).Pairwise (· > ·)) :
    (walkDown lowerBound rows).map Prod.fst = walkedTo (rows.map Prod.fst) lowerBound := by
  induction rows with
  | nil => rfl
  | cons row rest ih =>
    rw [List.map_cons] at h ⊢
    obtain ⟨hrow, hrest⟩ := List.pairwise_cons.mp h
    unfold walkDown
    split
    · rename_i hle
      have hnone : (row.1 :: rest.map Prod.fst).filter (fun s => lowerBound < s) = [] := by
        rw [List.filter_eq_nil_iff]
        intro s hs
        have hsle : s ≤ row.1 := by
          rcases List.mem_cons.mp hs with rfl | hin
          · exact Nat.le_refl _
          · exact Nat.le_of_lt (hrow s hin)
        simpa using Nat.le_trans hsle hle
      have hfirst : below (row.1 :: rest.map Prod.fst) lowerBound =
          row.1 :: below (rest.map Prod.fst) lowerBound :=
        List.filter_cons_of_pos (by simpa using hle)
      unfold walkedTo
      rw [hnone, hfirst]
      rfl
    · rename_i hgt
      have hlater : below (row.1 :: rest.map Prod.fst) lowerBound =
          below (rest.map Prod.fst) lowerBound :=
        List.filter_cons_of_neg (by simpa using hgt)
      unfold walkedTo
      rw [List.filter_cons_of_pos (by simpa using hgt), hlater, List.map_cons, ih hrest]
      rfl

/-- The rows of an info from its oldest entry on, below a bound. -/
def rowsBelow (p : RecordPlugin) (info : AccountHistoryInfo) (bound : Nat) : List (Nat × Nat) :=
  ((p.iterate (info.id, info.oldestEntryId) (info.id, bound)).map fun row =>
    (row.1.2, row.2)).reverse

/-- The numbers of the flushed entries that an info counts, the newest first. -/
def numbersOf (p : RecordPlugin) (info : AccountHistoryInfo) : List Nat :=
  (p.rowsBelow info (info.newestEntryId + 1)).map Prod.fst

/-- The numbers of the flushed entries of an account, the newest first. -/
def numbers (p : RecordPlugin) (account : AccountName) : List Nat :=
  ((p.storage.infoByName.find? account).map p.numbersOf).getD []

/-- The flushed operation of an entry. -/
def operation (p : RecordPlugin) (account : AccountName) (s : Nat) : Option OperationObject :=
  (p.storage.infoByName.find? account).bind fun info =>
    (p.storage.entryById.find? (info.id, s)).bind fun opId => p.storage.findOperationObject opId

theorem mem_rowsBelow {bound : Nat} {row : Nat × Nat} : row ∈ p.rowsBelow info bound ↔
    p.storage.entryById.find? (info.id, row.1) = some row.2 ∧ info.oldestEntryId ≤ row.1 ∧
      row.1 < bound := by
  unfold rowsBelow
  rw [List.mem_reverse, List.mem_map]
  constructor
  · rintro ⟨⟨⟨id, s⟩, opId⟩, hin, rfl⟩
    obtain ⟨hfind, hlower, hupper⟩ := mem_iterate.mp hin
    unfold entryLe at hlower hupper
    dsimp only at hlower hupper hfind ⊢
    obtain rfl : id = info.id := by omega
    exact ⟨hfind, by omega, by omega⟩
  · rintro ⟨hfind, hlower, hupper⟩
    refine ⟨((info.id, row.1), row.2), mem_iterate.mpr ⟨hfind, Or.inr ⟨rfl, hlower⟩, ?_⟩, rfl⟩
    unfold entryLe
    dsimp only
    omega

theorem rowsBelow_sorted (p : RecordPlugin) (info : AccountHistoryInfo) (bound : Nat) :
    ((p.rowsBelow info bound).map Prod.fst).Pairwise (· > ·) := by
  have hsorted := p.iterate_sorted (info.id, info.oldestEntryId) (info.id, bound)
  have hnodup := p.iterate_nodup (info.id, info.oldestEntryId) (info.id, bound)
  unfold rowsBelow
  rw [List.map_reverse, List.pairwise_reverse, List.map_map, List.pairwise_map]
  rw [List.Nodup, List.pairwise_map] at hnodup
  refine (hsorted.and hnodup).imp_of_mem fun {x y} hx hy hxy => ?_
  have hkey : ∀ row ∈ p.iterate (info.id, info.oldestEntryId) (info.id, bound),
      row.1.1 = info.id := fun row hrow => by
    obtain ⟨-, hlower, hupper⟩ := mem_iterate.mp hrow
    unfold entryLe at hlower hupper
    dsimp only at hlower hupper
    omega
  obtain ⟨hle, hne⟩ := hxy
  have hsame : x.1.1 = y.1.1 := (hkey x hx).trans (hkey y hy).symm
  unfold entryLe at hle
  have hother : x.1.2 ≠ y.1.2 := fun heq => hne (Prod.ext hsame heq)
  dsimp only [Function.comp_apply]
  omega

theorem numbers_sorted (p : RecordPlugin) (account : AccountName) :
    (p.numbers account).Pairwise (· > ·) := by
  unfold numbers
  cases p.storage.infoByName.find? account with
  | none => exact List.Pairwise.nil
  | some info => exact p.rowsBelow_sorted info _

theorem mem_of_mem_walkDown {α : Type*} {lowerBound : Nat} {rows : List (Nat × α)}
    {row : Nat × α} (h : row ∈ walkDown lowerBound rows) : row ∈ rows := by
  induction rows with
  | nil => cases h
  | cons first rest ih =>
    unfold walkDown at h
    split at h
    · rw [List.mem_singleton.mp h]
      exact List.mem_cons_self
    · rcases List.mem_cons.mp h with rfl | hin
      · exact List.mem_cons_self
      · exact List.mem_cons_of_mem _ (ih hin)

/-- The start is not cut to less than an entry, and the walk stops in time. Of an info with the
greatest number nothing is seen. -/
def MeetsPage (p : RecordPlugin) (account : AccountName) (start limit : Nat) : Prop :=
  ∀ info ∈ p.storage.infoByName.find? account,
    if limit = 0 then
      info.newestEntryId + 1 = 2 ^ 32 ∨ below (p.numbersOf info) (start % 2 ^ 32) = []
    else
      (∀ s ∈ p.numbersOf info, s ≤ start →
        s ≤ start % 2 ^ 32 ∧ info.newestEntryId + 1 < 2 ^ 32) ∧
      OneMore (below (p.numbersOf info) start) limit

/-- The entries that a call starts with. -/
def rowsFrom (p : RecordPlugin) (info : AccountHistoryInfo) (start : Nat) : List (Nat × Nat) :=
  (p.visible info).filter fun row => row.1 ≤ start % 2 ^ 32

/-- What a call reads. -/
theorem getAccountHistory_eq (hinfo : p.storage.infoByName.find? account = some info)
    (hmost : limit ≤ 10000) (hstart : limit ≤ start) :
    p.getAccountHistory account start limit =
      (walkDown (((p.rowsFrom info start).map Prod.fst).headD 0 - limit)
        (p.rowsFrom info start)).mapM fun row => do
          let op ← Outcome.require (p.storage.findOperationObject row.2) "Missing operation?"
          return (row.1, op) := by
  unfold getAccountHistory findAccountHistoryData
  rw [checkLimit_eq_ok hmost hstart, ok_bind, hinfo]
  dsimp only
  have hrows : ((p.visible info).filter fun row => row.1 ≤ start % 2 ^ 32) =
    p.rowsFrom info start := rfl
  rw [hrows]
  cases p.rowsFrom info start with
  | nil => rfl
  | cons first rest => rfl

theorem walkDown_eq_page_iff (hroom : info.newestEntryId < 2 ^ 32) :
    (walkDown (((p.rowsFrom info start).map Prod.fst).headD 0 - limit)
      (p.rowsFrom info start)).map Prod.fst = page (p.numbersOf info) start limit ↔
    if limit = 0 then
      info.newestEntryId + 1 = 2 ^ 32 ∨ below (p.numbersOf info) (start % 2 ^ 32) = []
    else
      (∀ s ∈ p.numbersOf info, s ≤ start →
        s ≤ start % 2 ^ 32 ∧ info.newestEntryId + 1 < 2 ^ 32) ∧
      OneMore (below (p.numbersOf info) start) limit := by
  have hnumbers := p.rowsBelow_sorted info (info.newestEntryId + 1)
  have hseen : (p.rowsFrom info start).map Prod.fst = below
      ((p.rowsBelow info ((info.newestEntryId + 1) % 2 ^ 32)).map Prod.fst) (start % 2 ^ 32) := by
    unfold rowsFrom below
    rw [List.filter_map]
    rfl
  have hsorted : ((p.rowsFrom info start).map Prod.fst).Pairwise (· > ·) := by
    rw [hseen]
    exact below_sorted (p.rowsBelow_sorted info _) _
  rw [map_walkDown _ hsorted, walkedTo_eq_take hsorted]
  by_cases hlast : info.newestEntryId + 1 = 2 ^ 32
  · -- the upper bound of the iterator is zero
    have hnone : p.rowsBelow info 0 = [] := List.eq_nil_iff_forall_not_mem.mpr fun row hin =>
      Nat.not_lt_zero _ (mem_rowsBelow.mp hin).2.2
    rw [hlast, Nat.mod_self, hnone] at hseen
    rw [hseen]
    have hpage : [] = page (p.numbersOf info) start limit ↔
        limit = 0 ∨ below (p.numbersOf info) start = [] := by
      unfold page
      rw [eq_comm, List.take_eq_nil_iff, or_comm]
    rw [List.map_nil, show below [] (start % 2 ^ 32) = [] from rfl, List.take_nil, hpage]
    by_cases hlimit : limit = 0
    · rw [if_pos hlimit]
      exact iff_of_true (Or.inl hlimit) (Or.inl hlast)
    · rw [if_neg hlimit, or_iff_right hlimit]
      constructor
      · intro hnil
        rw [hnil]
        refine ⟨fun s hs hle => ?_, oneMore_nil limit⟩
        exact absurd hle (Nat.not_le.mpr (below_eq_nil_iff.mp hnil s hs))
      · rintro ⟨hnone, -⟩
        rw [below_eq_nil_iff]
        intro s hs
        by_contra hle
        have hlt := (hnone s hs (Nat.not_lt.mp hle)).2
        omega
  · have hlt : info.newestEntryId + 1 < 2 ^ 32 := by omega
    rw [Nat.mod_eq_of_lt hlt] at hseen
    rw [hseen]
    refine (walk_eq_page_iff hnumbers (Nat.mod_le start (2 ^ 32))).trans ?_
    simp only [hlast, false_or, hlt, and_true]
    rfl

theorem givesPage_iff_meets
    (hrefers : ∀ key opId, p.storage.entryById.find? key = some opId →
      (p.storage.findOperationObject opId).isSome)
    (hroom : ∀ info, p.storage.infoByName.find? account = some info →
      info.newestEntryId < 2 ^ 32)
    (hmost : limit ≤ 10000) (hstart : limit ≤ start) :
    GivesPage (p.getAccountHistory account start limit) (p.numbers account) (p.operation account)
      start limit ↔ p.MeetsPage account start limit := by
  cases hinfo : p.storage.infoByName.find? account with
  | none =>
    have hanswer : p.getAccountHistory account start limit = .ok [] := by
      unfold getAccountHistory findAccountHistoryData
      rw [checkLimit_eq_ok hmost hstart, ok_bind, hinfo]
    refine iff_of_true ⟨[], hanswer, ?_, fun item hin => absurd hin List.not_mem_nil⟩ ?_
    · unfold numbers
      rw [hinfo]
      exact List.take_nil.symm
    · unfold MeetsPage
      rw [hinfo]
      simp
  | some info =>
    have hrow : ∀ row ∈ walkDown (((p.rowsFrom info start).map Prod.fst).headD 0 - limit)
        (p.rowsFrom info start), p.storage.entryById.find? (info.id, row.1) = some row.2 :=
      fun row hin => (mem_rowsBelow.mp (List.mem_filter.mp (mem_of_mem_walkDown hin)).1).1
    rw [getAccountHistory_eq hinfo hmost hstart,
      givesPage_iff (fun opId => p.storage.findOperationObject opId) "Missing operation?"
        (fun row hin => hrefers _ _ (hrow row hin)) fun row hin => by
          unfold operation
          rw [hinfo, Option.bind_some, hrow row hin, Option.bind_some]]
    unfold numbers MeetsPage
    rw [hinfo, Option.map_some, Option.getD_some, walkDown_eq_page_iff (hroom info hinfo)]
    simp

end RecordPlugin

/-- Both plugins page the history of an account alike in exactly the calls that meet both conditions,
and from pages of such calls a client that walks back sees every entry once. -/
theorem histories_page {h : HistoryIndexes} {p : RecordPlugin} {account : AccountName}
    (hobjects : ∀ key opId, h.history.find? key = some opId → (h.operations.find? opId).isSome)
    (hentries : ∀ key opId, p.storage.entryById.find? key = some opId →
      (p.storage.findOperationObject opId).isSome)
    (hroom : ∀ info, p.storage.infoByName.find? account = some info →
      info.newestEntryId < 2 ^ 32) :
    (∀ start limit, limit ≤ 10000 → limit ≤ start →
      ((GivesPage (h.getAccountHistory account start limit) (h.numbers account)
            (h.operation account) start limit ∧
          GivesPage (p.getAccountHistory account start limit) (p.numbers account)
            (p.operation account) start limit) ↔
        h.MeetsPage account start limit ∧ p.MeetsPage account start limit)) ∧
    (∀ start pages last,
      Walk (h.getAccountHistory account) (h.MeetsPage account) start pages last →
        (pages.flatMap fun page => page.2.map Prod.fst) ++ left (h.numbers account) last =
            below (h.numbers account) start ∧
          ∀ page ∈ pages, page.2.length ≤ page.1) ∧
    ∀ start pages last,
      Walk (p.getAccountHistory account) (p.MeetsPage account) start pages last →
        (pages.flatMap fun page => page.2.map Prod.fst) ++ left (p.numbers account) last =
            below (p.numbers account) start ∧
          ∀ page ∈ pages, page.2.length ≤ page.1 := by
  refine ⟨fun start limit hmost hstart => and_congr
    (HistoryIndexes.givesPage_iff_meets hobjects hmost hstart)
    (RecordPlugin.givesPage_iff_meets hentries hroom hmost hstart), ?_, ?_⟩
  · intro start pages last hwalk
    refine pages_of_walk (h.numbers_sorted account) (fun start limit items hget hmeets => ?_) hwalk
    have haccepted := accepted_of_checkLimit hget
    obtain ⟨answer, hanswer, hpage, -⟩ :=
      (HistoryIndexes.givesPage_iff_meets hobjects haccepted.1 haccepted.2).mpr hmeets
    rw [hget] at hanswer
    rw [Except.ok.inj hanswer, hpage]
  · intro start pages last hwalk
    refine pages_of_walk (p.numbers_sorted account) (fun start limit items hget hmeets => ?_) hwalk
    have haccepted := accepted_of_checkLimit hget
    obtain ⟨answer, hanswer, hpage, -⟩ :=
      (RecordPlugin.givesPage_iff_meets hentries hroom haccepted.1 haccepted.2).mpr hmeets
    rw [hget] at hanswer
    rw [Except.ok.inj hanswer, hpage]

end AccountHistory

namespace Sample

open AccountHistory Descending

/-- Three operations of alice. -/
def threeTransfers : List Event :=
  [.operation (transferAt 0) ["alice"], .operation (transferAt 3) ["alice"],
    .operation (transferAt 6) ["alice"]]

/-- The store after three operations. -/
def threeStored : RecordPlugin := storeAfter (fun _ => none) threeTransfers

/-- A call for one entry gets two. -/
theorem threeTransfers_overlong :
    (threeStored.getAccountHistory "alice" 2 1).toOption.map (List.map Prod.fst) = some [2, 1] ∧
    page (threeStored.numbers "alice") 2 1 = [2] ∧
    ¬ GivesPage (threeStored.getAccountHistory "alice" 2 1) (threeStored.numbers "alice")
      (threeStored.operation "alice") 2 1 := by
  have hanswer : (threeStored.getAccountHistory "alice" 2 1).toOption.map (List.map Prod.fst) =
      some [2, 1] := by decide +kernel
  have hpage : page (threeStored.numbers "alice") 2 1 = [2] := by decide +kernel
  refine ⟨hanswer, hpage, ?_⟩
  rintro ⟨items, hitems, hnumbers, -⟩
  rw [hitems] at hanswer
  have hsame := Option.some.inj hanswer
  rw [hnumbers, hpage] at hsame
  cases hsame

/-- A call for as many entries as there are gets them all. -/
theorem threeTransfers_paged : ∃ h, Outcome.forEach HistoryIndexes.step {} threeTransfers = .ok h ∧
    GivesPage (h.getAccountHistory "alice" 7 3) (h.numbers "alice") (h.operation "alice") 7 3 ∧
    GivesPage (threeStored.getAccountHistory "alice" 7 3) (threeStored.numbers "alice")
      (threeStored.operation "alice") 7 3 := by
  have htimes : InOrder 0 threeTransfers := by decide +kernel
  have hroom : ∀ name, (logsOf threeTransfers name).length < 2 ^ 32 := fun name =>
    Nat.lt_of_le_of_lt (length_logsOf_le _ name) (by decide +kernel)
  have hprunes : RecordPlugin.MeetsRun (fun _ => none) {} threeTransfers := by decide +kernel
  obtain ⟨h, hrun, hkept⟩ := HistoryIndexes.kept_empty.run threeTransfers htimes hroom
  have hrecorded := RecordPlugin.recorded_empty.run threeTransfers htimes hroom hprunes
  have hentries : ∀ key opId, threeStored.storage.entryById.find? key = some opId →
      (threeStored.storage.findOperationObject opId).isSome := fun key opId hfind =>
    (hrecorded.behind.entries key opId hfind).1
  have hinfo : (threeStored.storage.infoByName.find? "alice").all
      (fun info => info.newestEntryId < 2 ^ 32) := by decide +kernel
  have hmeets : threeStored.MeetsPage "alice" 7 3 := by
    unfold RecordPlugin.MeetsPage OneMore
    decide +kernel
  have hpages := histories_page hkept.refers hentries fun info hfind => by
    rw [hfind] at hinfo
    simpa using hinfo
  refine ⟨h, hrun, (hpages.1 7 3 (by decide) (by decide)).mpr ⟨Or.inr fun s hs hle => ?_, hmeets⟩⟩
  exact hle

end Sample

end Blurt
