import Blurt.Foundation.Retention
import Blurt.Plugins.AccountRecords

/-! # What pruning keeps

The account_history plugin keeps consecutive entries, the newest and the recent ones among them. The
store of the account_history_rocksdb plugin does so only if each pruning drops one entry: what it
deletes after the oldest entry it looks for in the column of the infos, and when no recent entry is
found the info still says that the dropped one is stored.
-/

namespace Blurt

namespace AccountHistory

open Outcome Retention

/-- An operation without the id that a plugin gives it. -/
def OperationObject.content (obj : OperationObject) : OperationObject := { obj with id := 0 }

/-- An operation that is more than 30 days old. -/
def Old (now : Nat) (obj : OperationObject) : Prop := tooOld now obj.timestamp

theorem Old.later {now later : Nat} (h : now ≤ later) {obj : OperationObject} (hold : Old now obj) :
    Old later obj := by
  unfold Old tooOld at *
  simp only [decide_eq_true_eq] at *
  omega

namespace HistoryIndexes

variable {h : HistoryIndexes} {item : AccountName} {now dropped : Nat} {log : List OperationObject}

theorem mem_rowsOf {s opId : Nat} :
    (s, opId) ∈ h.rowsOf item ↔ h.history.find? (item, s) = some opId := by
  simp only [rowsOf, List.mem_map, Prod.exists, Prod.mk.injEq]
  constructor
  · rintro ⟨name, sequence, id, hrow, rfl, rfl⟩
    obtain ⟨hfind, hitem⟩ := Store.mem_ordered_iff.mp hrow
    rwa [← of_decide_eq_true hitem]
  · intro hfind
    exact ⟨item, s, opId, Store.mem_ordered_iff.mpr ⟨hfind, by simp⟩, rfl, rfl⟩

theorem rowsOf_sorted (h : HistoryIndexes) (item : AccountName) :
    ((h.rowsOf item).map Prod.fst).Pairwise (· < ·) := by
  have hle : ((h.rowsOf item).map Prod.fst).Pairwise (· ≤ ·) := by
    rw [rowsOf, List.map_map, List.pairwise_map]
    exact List.pairwise_insertionSort _ _
  have hnodup : ((h.rowsOf item).map Prod.fst).Nodup := by
    have hkeys := Store.ordered_nodup (fun x y => x.1.2 ≤ y.1.2)
      (fun (key : AccountName × Nat) _ => key.1 = item) h.history
    rw [rowsOf, List.map_map]
    rw [List.nodup_map_iff_inj_on (List.Nodup.of_map _ hkeys)]
    intro x hx y hy hxy
    have hkey : ∀ z ∈ h.history.ordered (fun x y => x.1.2 ≤ y.1.2) (fun key _ => key.1 = item),
        z.1 = (item, z.1.2) := fun z hz => by
      have hitem := of_decide_eq_true (Store.mem_ordered_iff.mp hz).2
      rw [← hitem]
    have hsame : x.1 = y.1 := by
      rw [hkey x hx, hkey y hy]
      exact congrArg (Prod.mk item) hxy
    exact List.inj_on_of_nodup_map hkeys hx hy hsame
  exact (hle.and hnodup).imp fun hxy => Nat.lt_of_le_of_ne hxy.1 hxy.2

/-- The operation of an entry. -/
def stored (h : HistoryIndexes) (item : AccountName) (s : Nat) : Option OperationObject :=
  ((h.history.find? (item, s)).bind fun opId => h.operations.find? opId).map (·.content)

/-- What the indexes keep of the operations of each account. -/
structure Kept (h : HistoryIndexes) (logs : AccountName → List OperationObject) (now : Nat) :
    Prop where
  fresh : ∀ id, h.nextOperationId ≤ id → h.operations.find? id = none
  refers : ∀ key opId, h.history.find? key = some opId → (h.operations.find? opId).isSome
  retained : ∀ item, ∃ dropped, Retained (h.stored item) 1 30 (Old now) (logs item) dropped

theorem isSome_stored (hrefers : ∀ key opId, h.history.find? key = some opId →
    (h.operations.find? opId).isSome) (item : AccountName) (s : Nat) :
    (h.stored item s).isSome ↔ (h.history.find? (item, s)).isSome := by
  unfold stored
  cases hfind : h.history.find? (item, s) with
  | none => simp
  | some opId => simp [hrefers _ _ hfind]

/-- The entries of an account are numbered by an interval. -/
theorem rowsOf_range' (hrefers : ∀ key opId, h.history.find? key = some opId →
    (h.operations.find? opId).isSome)
    (hlog : Retained (h.stored item) 1 30 (Old now) log dropped) :
    (h.rowsOf item).map Prod.fst = List.range' (1 + dropped) (log.length - dropped) := by
  apply eq_range' (h.rowsOf_sorted item)
  intro s
  have hmem : s ∈ (h.rowsOf item).map Prod.fst ↔ (h.history.find? (item, s)).isSome := by
    rw [List.mem_map, Option.isSome_iff_exists]
    constructor
    · rintro ⟨⟨_, opId⟩, hrow, rfl⟩
      exact ⟨opId, mem_rowsOf.mp hrow⟩
    · rintro ⟨opId, hfind⟩
      exact ⟨(s, opId), mem_rowsOf.mpr hfind, rfl⟩
  have hle := hlog.le
  rw [hmem, ← isSome_stored hrefers, hlog.isSome_iff]
  omega

/-- A new entry gets the number after the last. -/
theorem newSequence_eq (hrefers : ∀ key opId, h.history.find? key = some opId →
    (h.operations.find? opId).isSome)
    (hlog : Retained (h.stored item) 1 30 (Old now) log dropped) (hroom : log.length + 1 < 2 ^ 32) :
    h.newSequence item = log.length + 1 := by
  have hrange := rowsOf_range' hrefers hlog
  have hlt := hlog.lt (by decide)
  have hlast := congrArg List.getLast? hrange
  rw [List.getLast?_map, List.getLast?_range'] at hlast
  unfold newSequence
  cases hrow : (h.rowsOf item).getLast? with
  | none =>
    rw [hrow] at hlast
    have hempty : log.length - dropped = 0 := by
      by_contra hne
      simp [hne] at hlast
    rcases hlt with hlt | rfl
    · omega
    · rfl
  | some row =>
    rw [hrow] at hlast
    have hne : log.length - dropped ≠ 0 := by
      intro hzero
      simp [hzero] at hlast
    rw [if_neg hne, Option.map_some, Option.some.injEq] at hlast
    dsimp only
    omega

theorem find?_removeRows (rows : List (Nat × Nat)) (history : Store (AccountName × Nat) Nat)
    (key : AccountName × Nat) :
    (rows.foldl (fun history row => history.remove (item, row.1)) history).find? key =
      if key.1 = item ∧ key.2 ∈ rows.map Prod.fst then none else history.find? key := by
  have hfold : rows.foldl (fun history row => history.remove (item, row.1)) history =
      (rows.map fun row => ((item, row.1), row.2)).foldl
        (fun history row => history.remove row.1) history := by
    rw [List.foldl_map]
  rw [hfold, Store.find?_foldl_remove]
  congr 1
  rw [List.map_map, eq_iff_iff, List.mem_map, List.mem_map]
  constructor
  · rintro ⟨row, hrow, rfl⟩
    exact ⟨rfl, row, hrow, rfl⟩
  · rintro ⟨hitem, row, hrow, hs⟩
    refine ⟨row, hrow, ?_⟩
    rw [← hitem, Function.comp_apply, hs]

/-- The rows that are removed are at the front, more than 30 behind and old. -/
theorem toRemove_spec {sequence : Nat} (hpos : ∀ row ∈ h.rowsOf item, 0 < row.1) :
    h.toRemove item sequence now <+: h.rowsOf item ∧
      ∀ row ∈ h.toRemove item sequence now, 30 < (sequence + 2 ^ 32 - row.1) % 2 ^ 32 ∧
        ∀ x, h.stored item row.1 = some x → Old now x := by
  unfold toRemove
  rw [List.filter_eq_self.mpr fun row hrow => decide_eq_true (hpos row hrow)]
  refine ⟨List.takeWhile_prefix _, fun row hrow => ?_⟩
  have hdue := List.all_eq_true.mp List.all_takeWhile row hrow
  have hfind := mem_rowsOf.mp ((List.takeWhile_prefix _).subset hrow)
  rw [Bool.and_eq_true, decide_eq_true_eq] at hdue
  refine ⟨hdue.1, fun x hx => ?_⟩
  unfold stored at hx
  rw [hfind, Option.bind_some, Option.map_eq_some_iff] at hx
  obtain ⟨op, hop, rfl⟩ := hx
  rw [hop] at hdue
  exact hdue.2

/-- Removing what `operation_visitor` removes drops entries at the front. -/
theorem removed_retained (hrefers : ∀ key opId, h.history.find? key = some opId →
    (h.operations.find? opId).isSome)
    (hlog : Retained (h.stored item) 1 30 (Old now) log dropped) :
    ∃ dropped, Retained (stored { h with
      history := (h.toRemove item log.length now).foldl
        (fun history row => history.remove (item, row.1)) h.history } item)
      1 30 (Old now) log dropped := by
  have hrange := rowsOf_range' hrefers hlog
  have hnumber : ∀ row ∈ h.rowsOf item, 1 + dropped ≤ row.1 ∧ row.1 < 1 + log.length := by
    intro row hrow
    have hmem : row.1 ∈ (h.rowsOf item).map Prod.fst := List.mem_map_of_mem hrow
    have hle := hlog.le
    rw [hrange, List.mem_range'_1] at hmem
    omega
  have hspec : h.toRemove item log.length now <+: h.rowsOf item ∧
      ∀ row ∈ h.toRemove item log.length now, 30 < (log.length + 2 ^ 32 - row.1) % 2 ^ 32 ∧
        ∀ x, h.stored item row.1 = some x → Old now x :=
    toRemove_spec fun row hrow => Nat.lt_of_lt_of_le (by omega) (hnumber row hrow).1
  generalize h.toRemove item log.length now = front at hspec
  obtain ⟨hfront, hdue⟩ := hspec
  have hmem := mem_take_range' hrange hfront
  have hlength := hfront.length_le
  have hcount := congrArg List.length hrange
  rw [List.length_map, List.length_range'] at hcount
  have hle := hlog.le
  refine ⟨dropped + front.length, hlog.drop _ (by omega) (fun s => ?_) fun i x hi hlt hx => ?_⟩
  · unfold stored
    dsimp only
    rw [find?_removeRows]
    by_cases hs : 1 + dropped ≤ s ∧ s < 1 + dropped + front.length
    · rw [if_pos hs, if_pos ⟨rfl, (hmem s).mpr hs⟩]
      rfl
    · rw [if_neg hs, if_neg fun hrow => hs ((hmem s).mp hrow.2)]
  · obtain ⟨row, hrow, hs⟩ := List.mem_map.mp ((hmem (1 + i)).mpr (by omega))
    obtain ⟨hbehind, hold⟩ := hdue row hrow
    have hstored := hlog.stored row.1
    rw [hs, if_pos (by omega), Nat.add_sub_cancel_left, hx] at hstored
    have hi := (List.getElem?_eq_some_iff.mp hx).1
    refine ⟨?_, hold x (hs ▸ hstored)⟩
    rw [hs] at hbehind
    omega

/-- A new entry is the last one. -/
theorem added_retained {obj : OperationObject} (hobj : h.operations.find? obj.id = some obj)
    (hlog : Retained (h.stored item) 1 30 (Old now) log dropped) :
    Retained (stored { h with history := h.history.set (item, log.length + 1) obj.id } item)
      1 30 (Old now) (log ++ [obj.content]) dropped := by
  refine hlog.append fun s => ?_
  unfold stored
  dsimp only
  rw [Nat.add_comm 1]
  by_cases hs : s = log.length + 1
  · rw [if_pos hs, hs, Store.find?_set_self, Option.bind_some, hobj, Option.map_some]
  · rw [if_neg hs, Store.find?_set_of_ne fun hkey => hs (congrArg Prod.snd hkey)]

/-- The visit of an account adds its entry, and drops entries at the front that are old and more than
30 behind. -/
theorem visit_spec {obj : OperationObject} {logs : AccountName → List OperationObject}
    (hkept : h.Kept logs obj.timestamp) (hobj : h.operations.find? obj.id = some obj)
    (item : AccountName) (hroom : (logs item).length + 1 < 2 ^ 32) :
    ∃ h', visit true obj h item = .ok h' ∧ h'.operations = h.operations ∧
      h'.Kept (Function.update logs item (logs item ++ [obj.content])) obj.timestamp := by
  obtain ⟨dropped, hlog⟩ := hkept.retained item
  have hsequence := newSequence_eq hkept.refers hlog hroom
  have hnew : h.history.find? (item, (logs item).length + 1) = none := by
    have hnone : ¬ (h.stored item ((logs item).length + 1)).isSome := by
      rw [hlog.isSome_iff]
      omega
    rw [isSome_stored hkept.refers] at hnone
    simpa using hnone
  have hcreated := added_retained hobj hlog
  have hcreatedRefers : ∀ key opId,
      (h.history.set (item, (logs item).length + 1) obj.id).find? key = some opId →
        (h.operations.find? opId).isSome := by
    intro key opId hfind
    rw [Store.find?_set] at hfind
    split at hfind
    · cases hfind
      rw [hobj]
      rfl
    · exact hkept.refers key opId hfind
  have hlength : (logs item ++ [obj.content]).length = (logs item).length + 1 :=
    List.length_append
  have hdropped := removed_retained hcreatedRefers hcreated
  rw [hlength] at hdropped
  have hvisit : visit true obj h item = .ok { h with
      history := (toRemove { h with
          history := h.history.set (item, (logs item).length + 1) obj.id } item
          ((logs item).length + 1) obj.timestamp).foldl
        (fun history row => history.remove (item, row.1))
        (h.history.set (item, (logs item).length + 1) obj.id) } := by
    unfold visit
    rw [hsequence]
    simp only [hnew, Outcome.ensure, Option.isNone_none, if_true]
    rfl
  generalize toRemove { h with history := h.history.set (item, (logs item).length + 1) obj.id } item
    ((logs item).length + 1) obj.timestamp = front at hvisit hdropped
  refine ⟨_, hvisit, rfl, hkept.fresh, fun key opId hfind => ?_, fun other => ?_⟩
  · dsimp only at hfind
    rw [find?_removeRows] at hfind
    split at hfind
    · cases hfind
    · exact hcreatedRefers key opId hfind
  · by_cases hother : other = item
    · subst hother
      rw [Function.update_self]
      exact hdropped
    · rw [Function.update_of_ne hother]
      obtain ⟨gone, hgone⟩ := hkept.retained other
      refine ⟨gone, ?_⟩
      have hsame : stored { h with
          history := front.foldl (fun history row => history.remove (item, row.1))
            (h.history.set (item, (logs item).length + 1) obj.id) } other = h.stored other := by
        funext s
        unfold stored
        dsimp only
        rw [find?_removeRows, if_neg fun hrow => hother hrow.1,
          Store.find?_set_of_ne fun hkey => hother (congrArg Prod.fst hkey)]
      rwa [hsame]

/-! ### Operations -/

theorem Kept.later {logs : AccountName → List OperationObject} {later : Nat} (hkept : h.Kept logs now)
    (hlater : now ≤ later) : h.Kept logs later where
  fresh := hkept.fresh
  refers := hkept.refers
  retained item := by
    obtain ⟨dropped, hlog⟩ := hkept.retained item
    exact ⟨dropped, hlog.mono fun _ => Old.later hlater⟩

end HistoryIndexes

/-- The operations of each account after another one that impacts some. -/
def record (logs : AccountName → List OperationObject) (obj : OperationObject)
    (impacted : List AccountName) : AccountName → List OperationObject :=
  impacted.foldl (fun logs item => Function.update logs item (logs item ++ [obj.content])) logs

theorem length_le_record (logs : AccountName → List OperationObject) (obj : OperationObject)
    (impacted : List AccountName) (name : AccountName) :
    (logs name).length ≤ (record logs obj impacted name).length := by
  induction impacted generalizing logs with
  | nil => exact Nat.le_refl _
  | cons item rest ih =>
    refine Nat.le_trans ?_ (ih _)
    dsimp only
    by_cases hname : name = item
    · subst hname
      rw [Function.update_self, List.length_append]
      omega
    · rw [Function.update_of_ne hname]

theorem length_record_le (logs : AccountName → List OperationObject) (obj : OperationObject)
    (impacted : List AccountName) (name : AccountName) :
    (record logs obj impacted name).length ≤ (logs name).length + impacted.length := by
  induction impacted generalizing logs with
  | nil => exact Nat.le_refl _
  | cons item rest ih =>
    refine Nat.le_trans (ih _) ?_
    rw [List.length_cons]
    dsimp only
    by_cases hname : name = item
    · subst hname
      rw [Function.update_self, List.length_append, List.length_singleton]
      omega
    · rw [Function.update_of_ne hname]
      omega

theorem length_lt_record (logs : AccountName → List OperationObject) (obj : OperationObject)
    (item : AccountName) (rest : List AccountName) :
    (logs item).length < (record logs obj (item :: rest) item).length := by
  refine Nat.lt_of_lt_of_le ?_ (length_le_record _ obj rest item)
  dsimp only
  rw [Function.update_self, List.length_append]
  exact Nat.lt_succ_self _

namespace HistoryIndexes

variable {h : HistoryIndexes} {now : Nat} {logs : AccountName → List OperationObject}

theorem visits_spec {obj : OperationObject} (impacted : List AccountName)
    (hkept : h.Kept logs obj.timestamp) (hobj : h.operations.find? obj.id = some obj)
    (hroom : ∀ name, (record logs obj impacted name).length < 2 ^ 32) :
    ∃ h', Outcome.forEach (visit true obj) h impacted = .ok h' ∧
      h'.Kept (record logs obj impacted) obj.timestamp := by
  induction impacted generalizing h logs with
  | nil => exact ⟨h, rfl, hkept⟩
  | cons item rest ih =>
    have hmore := length_lt_record logs obj item rest
    have hfits := hroom item
    obtain ⟨next, hvisit, hoperations, hnext⟩ := visit_spec hkept hobj item (by omega)
    rw [← hoperations] at hobj
    obtain ⟨final, hrest, hfinal⟩ := ih hnext hobj hroom
    exact ⟨final, forEach_cons_eq_ok.mpr ⟨next, hvisit, hrest⟩, hfinal⟩

/-- The operation that the first account has stored. -/
theorem Kept.stored_operation (hkept : h.Kept logs now) (obj : OperationObject) :
    Kept { h with
      operations := h.operations.set h.nextOperationId obj
      nextOperationId := h.nextOperationId + 1 } logs now where
  fresh id hle := by
    have hlt : h.nextOperationId < id := hle
    rw [Store.find?_set_of_ne (Nat.ne_of_gt hlt)]
    exact hkept.fresh id (Nat.le_of_lt hlt)
  refers key opId hfind := by
    rw [Store.find?_set]
    split
    · rfl
    · exact hkept.refers key opId hfind
  retained item := by
    obtain ⟨dropped, hlog⟩ := hkept.retained item
    refine ⟨dropped, ?_⟩
    have hsame : stored { h with
        operations := h.operations.set h.nextOperationId obj
        nextOperationId := h.nextOperationId + 1 } item = h.stored item := by
      funext s
      unfold stored
      cases hfind : h.history.find? (item, s) with
      | none => rfl
      | some opId =>
        have hne : opId ≠ h.nextOperationId := by
          rintro rfl
          have hthere := hkept.refers _ _ hfind
          rw [hkept.fresh _ (Nat.le_refl _)] at hthere
          cases hthere
        rw [Option.bind_some, Option.bind_some, Store.find?_set_of_ne hne]
    rwa [hsame]

theorem onOperation_spec {obj : OperationObject} {impacted : List AccountName}
    (hkept : h.Kept logs now) (htime : now ≤ obj.timestamp)
    (hroom : ∀ name, (record logs obj impacted name).length < 2 ^ 32) :
    ∃ h', onOperation true h obj impacted = .ok h' ∧
      h'.Kept (record logs obj impacted) obj.timestamp := by
  unfold onOperation
  split
  · rename_i hnone
    subst hnone
    exact ⟨h, rfl, hkept.later htime⟩
  · exact visits_spec impacted ((hkept.later htime).stored_operation _)
      (Store.find?_set_self _ _ _) hroom

end HistoryIndexes

end AccountHistory

end Blurt
