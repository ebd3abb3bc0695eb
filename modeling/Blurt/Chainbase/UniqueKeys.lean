import Blurt.Chainbase.UndoLaws

/-! # Unique secondary keys

A container refuses an object that has a unique key of another object. `undo` takes the
changes of a session back one by one, in the order of ids, through the same check, so it
may meet an object that still has the key that another one had before.
-/

namespace Blurt

namespace Chainbase

variable {V K : Type}

/-- Two objects that a container with the unique keys `keys` does not hold at once. -/
def Clash (keys : List (V → K)) (v w : V) : Prop := ∃ key ∈ keys, key v = key w

instance [DecidableEq K] (keys : List (V → K)) (v w : V) : Decidable (Clash keys v w) :=
  inferInstanceAs (Decidable (∃ key ∈ keys, key v = key w))

/-- The check of a container for the value `v` under `id`. -/
def Admits (keys : List (V → K)) (indices : Store Nat V) (id : Nat) (v : V) : Prop :=
  ∀ row ∈ indices.rows, row.1 ≠ id → ¬ Clash keys row.2 v

instance [DecidableEq K] (keys : List (V → K)) (indices : Store Nat V) (id : Nat) (v : V) :
    Decidable (Admits keys indices id v) :=
  inferInstanceAs (Decidable (∀ row ∈ indices.rows, row.1 ≠ id → ¬ Clash keys row.2 v))

/-- The order of a map from ids. -/
def inIdOrder (s : Store Nat V) : List (Nat × V) :=
  s.ordered (fun x y => x.1 ≤ y.1) fun _ _ => true

namespace GenericIndex

variable [DecidableEq K] (keys : List (V → K))

/-- `emplace`, with the check of the unique keys. -/
def emplaceUnique (g : GenericIndex V) (v : V) : Except String (GenericIndex V) := do
  Outcome.ensure (Admits keys g.indices g.nextId v)
    "could not insert object, most likely a uniqueness constraint was violated"
  g.emplace v

/-- `modify`, with the check of the unique keys. -/
def modifyUnique (g : GenericIndex V) (id : Nat) (m : V → V) : Except String (GenericIndex V) :=
  match g.indices.find? id with
  | none => .ok g
  | some v => do
      Outcome.ensure (Admits keys g.indices id (m v))
        "Could not modify object, most likely a uniqueness constraint was violated"
      return g.modify id m

/-- `undo`, with the checks of the unique keys. An old value is checked the same whether its
object is modified or, when it is gone, inserted. -/
def undoUnique (g : GenericIndex V) : Except String (GenericIndex V) :=
  match g.stack with
  | [] => .ok g
  | head :: rest => do
      let modified ← Outcome.forEach (fun indices item => do
        Outcome.ensure (Admits keys indices item.1 item.2)
          "Could not modify object, most likely a uniqueness constraint was violated"
        return indices.set item.1 item.2) g.indices (inIdOrder head.oldValues)
      let erased := head.newIds.rows.foldl (fun indices item => indices.remove item.1) modified
      let indices ← Outcome.forEach (fun indices item => do
        Outcome.ensure ((indices.find? item.1).isNone ∧ Admits keys indices item.1 item.2)
          "Could not restore object, most likely a uniqueness constraint was violated"
        return indices.set item.1 item.2) erased (inIdOrder head.removedValues)
      return { indices, nextId := head.oldNextId, revision := g.revision - 1, stack := rest }

/-- One call on an index with unique keys. -/
def stepUnique (g : GenericIndex V) : IndexOp V → Except String (GenericIndex V)
  | .startUndoSession => .ok g.startUndoSession
  | .emplace v => g.emplaceUnique keys v
  | .modify id m => g.modifyUnique keys id m
  | .remove id => .ok (g.remove id)
  | .erase id => .ok (g.remove id)
  | .undo => g.undoUnique keys
  | .push => .ok g
  | .commit revision => .ok (g.commit revision)
  | .squash => .ok g.squash

/-- A sequence of calls on an index with unique keys. -/
def runUnique (g : GenericIndex V) (ops : List (IndexOp V)) : Except String (GenericIndex V) :=
  Outcome.forEach (stepUnique keys) g ops

end GenericIndex

/-- The calls that change objects. -/
def IndexOp.IsEdit : IndexOp V → Prop
  | .emplace _ | .modify _ _ | .remove _ | .erase _ => True
  | _ => False

/-- What `undo` needs: no object that was there at the start of the session and still is had a
key that an object with a larger id has now. -/
def Restorable (keys : List (V → K)) (start now : Contents V) : Prop :=
  ∀ i j v w, i < j → start.objects i = some v → (now.objects i).isSome →
    now.objects j = some w → ¬ Clash keys v w

/-- No two objects have a unique key in common. -/
def Contents.Distinct (keys : List (V → K)) (c : Contents V) : Prop :=
  ∀ i j v w, i ≠ j → c.objects i = some v → c.objects j = some w → ¬ Clash keys v w

section Laws

variable {keys : List (V → K)}

theorem Clash.symm {v w : V} (h : Clash keys v w) : Clash keys w v := by
  obtain ⟨key, hkey, heq⟩ := h
  exact ⟨key, hkey, heq.symm⟩

theorem admits_iff {indices : Store Nat V} {id : Nat} {v : V} : Admits keys indices id v ↔
    ∀ j w, indices.find? j = some w → j ≠ id → ¬ Clash keys w v := by
  constructor
  · intro h j w hw
    exact h (j, w) (Store.mem_rows_iff.mpr hw)
  · intro h row hrow
    exact h row.1 row.2 (Store.mem_rows_iff.mp hrow)

/-! ## Changes one by one -/

theorem find?_foldl_set_of_notMem {rows : List (Nat × V)} {id : Nat}
    (hid : id ∉ rows.map Prod.fst) (indices : Store Nat V) :
    (rows.foldl (fun indices item => indices.set item.1 item.2) indices).find? id =
      indices.find? id := by
  induction rows generalizing indices with
  | nil => rfl
  | cons row rest ih =>
      rw [List.map_cons, List.mem_cons, not_or] at hid
      rw [List.foldl_cons, ih hid.2, Store.find?_set_of_ne hid.1]

theorem find?_foldl_set_of_mem {rows : List (Nat × V)} (hnodup : (rows.map Prod.fst).Nodup)
    {id : Nat} {v : V} (hrow : (id, v) ∈ rows) (indices : Store Nat V) :
    (rows.foldl (fun indices item => indices.set item.1 item.2) indices).find? id = some v := by
  induction rows generalizing indices with
  | nil => cases hrow
  | cons row rest ih =>
      obtain ⟨hnot, hnodup⟩ := List.nodup_cons.mp hnodup
      rw [List.foldl_cons]
      rcases List.mem_cons.mp hrow with rfl | hrest
      · rw [find?_foldl_set_of_notMem hnot, Store.find?_set_self]
      · exact ih hnodup hrest _

theorem mem_inIdOrder {s : Store Nat V} {id : Nat} {v : V} :
    (id, v) ∈ inIdOrder s ↔ s.find? id = some v := by
  rw [inIdOrder, Store.mem_ordered_iff]
  simp

theorem inIdOrder_nodup (s : Store Nat V) : ((inIdOrder s).map Prod.fst).Nodup :=
  Store.ordered_nodup _ _ _

/-- The ids before and after an element of the order. -/
theorem inIdOrder_split {s : Store Nat V} {before after : List (Nat × V)} {item : Nat × V}
    (h : inIdOrder s = before ++ item :: after) :
    (∀ row ∈ before, row.1 < item.1) ∧ ∀ row ∈ after, item.1 < row.1 := by
  have hsorted : (inIdOrder s).Pairwise fun x y => x.1 ≤ y.1 := by
    unfold inIdOrder Store.ordered
    exact List.pairwise_insertionSort _ _
  have hnodup := inIdOrder_nodup s
  rw [h] at hsorted hnodup
  rw [List.Nodup, List.pairwise_map] at hnodup
  have hstrict : (before ++ item :: after).Pairwise fun x y => x.1 < y.1 := by
    refine (hsorted.and hnodup).imp ?_
    rintro x y ⟨hle, hne⟩
    exact Nat.lt_of_le_of_ne hle hne
  rw [List.pairwise_append, List.pairwise_cons] at hstrict
  obtain ⟨-, ⟨hafter, -⟩, hbefore⟩ := hstrict
  exact ⟨fun row hrow => hbefore row hrow item List.mem_cons_self, hafter⟩

theorem find?_foldl_inIdOrder (rows indices : Store Nat V) (id : Nat) :
    ((inIdOrder rows).foldl (fun indices item => indices.set item.1 item.2) indices).find? id =
      (rows.find? id).or (indices.find? id) := by
  cases hrow : rows.find? id with
  | some v => exact find?_foldl_set_of_mem (inIdOrder_nodup rows) (mem_inIdOrder.mpr hrow) indices
  | none =>
      apply find?_foldl_set_of_notMem
      intro hid
      obtain ⟨⟨key, v⟩, hmem, rfl⟩ := List.mem_map.mp hid
      rw [mem_inIdOrder.mp hmem] at hrow
      cases hrow

/-- The objects when the changes before `item` have been taken back. -/
theorem find?_foldl_before {rows indices : Store Nat V} {before after : List (Nat × V)}
    {item : Nat × V} (h : inIdOrder rows = before ++ item :: after) (id : Nat) :
    (before.foldl (fun indices item => indices.set item.1 item.2) indices).find? id =
      if id < item.1 then (rows.find? id).or (indices.find? id) else indices.find? id := by
  obtain ⟨hbefore, hafter⟩ := inIdOrder_split h
  have hnodup : (before.map Prod.fst).Nodup := by
    have hall := inIdOrder_nodup rows
    rw [h, List.map_append] at hall
    exact hall.of_append_left
  split
  · rename_i hlt
    cases hrow : rows.find? id with
    | some v =>
        have hmem := mem_inIdOrder.mpr hrow
        rw [h, List.mem_append, List.mem_cons] at hmem
        rcases hmem with hmem | rfl | hmem
        · exact find?_foldl_set_of_mem hnodup hmem indices
        · exact absurd hlt (lt_irrefl _)
        · exact absurd (hafter _ hmem) (lt_asymm hlt)
    | none =>
        apply find?_foldl_set_of_notMem
        intro hid
        obtain ⟨⟨key, v⟩, hmem, rfl⟩ := List.mem_map.mp hid
        have hfound : rows.find? key = some v := by
          apply mem_inIdOrder.mp
          rw [h]
          exact List.mem_append_left _ hmem
        rw [hfound] at hrow
        cases hrow
  · rename_i hge
    apply find?_foldl_set_of_notMem
    intro hid
    obtain ⟨row, hmem, rfl⟩ := List.mem_map.mp hid
    exact hge (hbefore row hmem)

/-- What `undo` does when no check fails, and when that is. -/
theorem undoUnique_eq_ok [DecidableEq K] {g undone : GenericIndex V} {head : UndoState V}
    {rest : List (UndoState V)} (hstack : g.stack = head :: rest) :
    let modified := (inIdOrder head.oldValues).foldl
      (fun indices item => indices.set item.1 item.2) g.indices
    let erased := head.newIds.rows.foldl (fun indices item => indices.remove item.1) modified
    let restored := (inIdOrder head.removedValues).foldl
      (fun indices item => indices.set item.1 item.2) erased
    g.undoUnique keys = .ok undone ↔
      (∀ before item after, inIdOrder head.oldValues = before ++ item :: after →
        Admits keys (before.foldl (fun indices item => indices.set item.1 item.2) g.indices)
          item.1 item.2) ∧
      (∀ before item after, inIdOrder head.removedValues = before ++ item :: after →
        ((before.foldl (fun indices item => indices.set item.1 item.2) erased).find?
            item.1).isNone ∧
          Admits keys (before.foldl (fun indices item => indices.set item.1 item.2) erased)
            item.1 item.2) ∧
      undone = { indices := restored, nextId := head.oldNextId, revision := g.revision - 1,
                 stack := rest } := by
  intro modified erased restored
  simp only [GenericIndex.undoUnique, hstack, Outcome.bind_eq_ok, Outcome.forEach_checked,
    Outcome.pure_eq_ok]
  constructor
  · rintro ⟨_, ⟨rfl, hold⟩, _, ⟨rfl, hremoved⟩, rfl⟩
    exact ⟨hold, hremoved, rfl⟩
  · rintro ⟨hold, hremoved, rfl⟩
    exact ⟨_, ⟨rfl, hold⟩, _, ⟨rfl, hremoved⟩, rfl⟩

section Undo

variable {g : GenericIndex V} {head : UndoState V} {rest : List (UndoState V)} {start : Contents V}

/-- The objects when the old values are back and the new objects are gone: those of the start,
but the removed ones. -/
theorem find?_erased (h : Describes head start g.contents) (id : Nat) :
    (head.newIds.rows.foldl (fun indices item => indices.remove item.1)
      ((inIdOrder head.oldValues).foldl (fun indices item => indices.set item.1 item.2)
        g.indices)).find? id =
      if (head.removedValues.find? id).isSome then none else start.objects id := by
  have hview := Store.view_foldl_rows (fun (s : Store Nat V) k => s.find? k)
    (fun indices (item : Nat × Unit) => indices.remove item.1) (fun _ _ => none)
    (fun state row k => Store.find?_remove k row.1 state) head.newIds
    ((inIdOrder head.oldValues).foldl (fun indices item => indices.set item.1 item.2) g.indices) id
  rw [hview, find?_foldl_inIdOrder]
  have hid := h.relation id
  simp only [UndoState.noted, GenericIndex.contents] at hid
  generalize head.newIds.find? id = new at hid ⊢
  generalize head.oldValues.find? id = old at hid ⊢
  generalize head.removedValues.find? id = removed at hid ⊢
  generalize g.indices.find? id = now at hid ⊢
  generalize start.objects id = was at hid ⊢
  cases hid <;> rfl

/-- An old value is that of the start, and its object is still there. -/
theorem Describes.old_spec (h : Describes head start g.contents) {id : Nat} {v : V}
    (hold : head.oldValues.find? id = some v) :
    start.objects id = some v ∧ (g.indices.find? id).isSome := by
  have hid := h.relation id
  simp only [UndoState.noted, GenericIndex.contents, hold] at hid
  generalize head.newIds.find? id = new at hid
  generalize head.removedValues.find? id = removed at hid
  generalize g.indices.find? id = now at hid ⊢
  generalize start.objects id = was at hid ⊢
  cases hid
  exact ⟨rfl, rfl⟩

theorem Describes.removed_spec (h : Describes head start g.contents) {id : Nat} {v : V}
    (hremoved : head.removedValues.find? id = some v) : start.objects id = some v := by
  have hid := h.relation id
  simp only [UndoState.noted, GenericIndex.contents, hremoved] at hid
  generalize head.newIds.find? id = new at hid
  generalize head.oldValues.find? id = old at hid
  generalize g.indices.find? id = now at hid
  generalize start.objects id = was at hid ⊢
  cases hid
  rfl

/-- An object that was there and still is has been noted, or is as it was. -/
theorem Describes.kept (h : Describes head start g.contents) {id : Nat} {v w : V}
    (hstart : start.objects id = some v) (hnow : g.indices.find? id = some w) :
    head.oldValues.find? id = some v ∨ v = w := by
  have hid := h.relation id
  simp only [UndoState.noted, GenericIndex.contents, hstart, hnow] at hid
  generalize head.newIds.find? id = new at hid
  generalize head.oldValues.find? id = old at hid ⊢
  generalize head.removedValues.find? id = removed at hid
  cases hid
  · exact Or.inl rfl
  · exact Or.inr rfl

/-- Before the old value under `i` the objects with smaller ids are as they were. -/
theorem Describes.restored_before (h : Describes head start g.contents) {i j : Nat} {v w : V}
    (hi : start.objects i = some v) (hij : j < i)
    (hw : (head.oldValues.find? j).or (g.indices.find? j) = some w) : start.objects j = some w := by
  have hj := h.relation j
  have hlater := h.later j
  simp only [UndoState.noted, GenericIndex.contents] at hj hlater
  generalize head.newIds.find? j = new at hj hlater
  generalize head.oldValues.find? j = old at hj hw
  generalize head.removedValues.find? j = removed at hj
  generalize g.indices.find? j = now at hj hw
  generalize hwas : start.objects j = was at hj ⊢
  cases hj with
  | new v' =>
      -- the object under `i` was there at the start, so the new ids are larger
      have hfresh := h.fresh i ((hlater rfl).trans (Nat.le_of_lt hij))
      rw [hi] at hfresh
      cases hfresh
  | upd _ _ => exact hw
  | del _ => cases hw
  | nop _ => exact hw

/-- `undo` passes the checks of the old values exactly when no key is taken. -/
theorem old_admitted_iff (h : Describes head start g.contents) (hstart : start.Distinct keys)
    (hnow : g.contents.Distinct keys) :
    (∀ before item after, inIdOrder head.oldValues = before ++ item :: after →
      Admits keys (before.foldl (fun indices item => indices.set item.1 item.2) g.indices)
        item.1 item.2) ↔ Restorable keys start g.contents := by
  constructor
  · intro hchecks i j v w hij hi hpresent hj
    obtain ⟨now, hnowI⟩ := Option.isSome_iff_exists.mp hpresent
    rcases h.kept hi hnowI with hold | rfl
    · obtain ⟨before, after, hsplit⟩ := List.append_of_mem (mem_inIdOrder.mpr hold)
      have hcheck := admits_iff.mp (hchecks before (i, v) after hsplit) j w
      rw [find?_foldl_before hsplit, if_neg (lt_asymm hij)] at hcheck
      exact fun hclash => hcheck hj (Nat.ne_of_gt hij) hclash.symm
    · exact hnow i j v w (Nat.ne_of_lt hij) hnowI hj
  · rintro hrestorable before ⟨i, v⟩ after hsplit
    have hmem : (i, v) ∈ inIdOrder head.oldValues := by
      rw [hsplit]
      exact List.mem_append_right _ List.mem_cons_self
    obtain ⟨hi, hpresent⟩ := h.old_spec (mem_inIdOrder.mp hmem)
    apply admits_iff.mpr
    intro j w hj hne hclash
    rw [find?_foldl_before hsplit] at hj
    split at hj
    · rename_i hji
      exact hstart j i w v hne (h.restored_before hi hji hj) hi hclash
    · rename_i hji
      have hij : i < j := Nat.lt_of_le_of_ne (Nat.le_of_not_lt hji) hne.symm
      exact hrestorable i j v w hij hi hpresent hj hclash.symm

/-- `undo` puts back every removed object. -/
theorem removed_admitted (h : Describes head start g.contents) (hstart : start.Distinct keys)
    {before after : List (Nat × V)} {item : Nat × V}
    (hsplit : inIdOrder head.removedValues = before ++ item :: after) {erased : Store Nat V}
    (herased : ∀ id, erased.find? id =
      if (head.removedValues.find? id).isSome then none else start.objects id) :
    ((before.foldl (fun indices item => indices.set item.1 item.2) erased).find? item.1).isNone ∧
      Admits keys (before.foldl (fun indices item => indices.set item.1 item.2) erased)
        item.1 item.2 := by
  have hmem : (item.1, item.2) ∈ inIdOrder head.removedValues := by
    rw [hsplit]
    exact List.mem_append_right _ List.mem_cons_self
  have hremoved := mem_inIdOrder.mp hmem
  constructor
  · rw [find?_foldl_before hsplit, if_neg (lt_irrefl _), herased, hremoved]
    rfl
  · apply admits_iff.mpr
    intro j w hj hne
    have hwas : start.objects j = some w := by
      rw [find?_foldl_before hsplit, herased] at hj
      cases hrow : head.removedValues.find? j with
      | some v =>
          rw [hrow] at hj
          split at hj
          · cases hj
            exact h.removed_spec hrow
          · cases hj
      | none =>
          rw [hrow] at hj
          split at hj <;> exact hj
    exact hstart j item.1 w item.2 hne hwas (h.removed_spec hremoved)

variable [DecidableEq K]

/-- `undo` completes exactly when no key is taken. -/
theorem undoUnique_iff (h : Describes head start g.contents) (hstack : g.stack = head :: rest)
    (hstart : start.Distinct keys) (hnow : g.contents.Distinct keys) :
    (∃ undone, g.undoUnique keys = .ok undone) ↔ Restorable keys start g.contents := by
  rw [← old_admitted_iff h hstart hnow]
  constructor
  · rintro ⟨undone, hundone⟩
    exact ((undoUnique_eq_ok hstack).mp hundone).1
  · intro hold
    refine ⟨_, (undoUnique_eq_ok hstack).mpr ⟨hold, ?_, rfl⟩⟩
    intro before item after hsplit
    exact removed_admitted h hstart hsplit (find?_erased h)

theorem undoUnique_contents (h : Describes head start g.contents) (hstack : g.stack = head :: rest)
    {undone : GenericIndex V} (hundone : g.undoUnique keys = .ok undone) :
    undone.contents = start ∧ undone.stack = rest := by
  obtain ⟨-, -, rfl⟩ := (undoUnique_eq_ok hstack).mp hundone
  refine ⟨?_, rfl⟩
  obtain ⟨objects, nextId⟩ := start
  simp only [GenericIndex.contents, Contents.mk.injEq]
  refine ⟨?_, h.nextId⟩
  funext id
  rw [find?_foldl_inIdOrder, find?_erased h]
  cases hremoved : head.removedValues.find? id with
  | none => rfl
  | some v => exact (h.removed_spec hremoved).symm

end Undo

/-! ## Runs -/

theorem Contents.Distinct.put {c : Contents V} (h : c.Distinct keys) {id : Nat} {v : V}
    (hv : ∀ j w, c.objects j = some w → j ≠ id → ¬ Clash keys w v) :
    (c.put id (some v)).Distinct keys := by
  intro i j x y hij hi hj
  simp only [Contents.put, Function.update_apply] at hi hj
  split at hi
  · rename_i hid
    rw [if_neg (fun hjd => hij (hid.trans hjd.symm))] at hj
    cases hi
    exact fun hclash => hv j y hj (fun hjd => hij (hid.trans hjd.symm)) hclash.symm
  · rename_i hid
    split at hj
    · cases hj
      exact hv i x hi hid
    · exact h i j x y hij hi hj

theorem Contents.Distinct.remove {c : Contents V} (h : c.Distinct keys) (id : Nat) :
    (c.put id none).Distinct keys := by
  intro i j x y hij hi hj
  simp only [Contents.put, Function.update_apply] at hi hj
  split at hi
  · cases hi
  · split at hj
    · cases hj
    · exact h i j x y hij hi hj

/-- An index that behaves as the snapshots `a`, each without a key in common. -/
structure Sound (keys : List (V → K)) (g : GenericIndex V) (a : SnapshotStack (Contents V)) :
    Prop where
  simulates : Simulates g a
  current : a.current.Distinct keys
  saved : ∀ session ∈ a.saved, session.2.Distinct keys

namespace Sound

variable {g next : GenericIndex V} {a : SnapshotStack (Contents V)}

/-- The checks of the unique keys keep them unique. -/
theorem edit [DecidableEq K] (h : Sound keys g a) {op : IndexOp V} (hedit : op.IsEdit)
    (hstep : g.stepUnique keys op = .ok next) : ∃ a', Sound keys next a' ∧ a'.saved = a.saved := by
  have hobjects : ∀ id, a.current.objects id = g.indices.find? id := by
    intro id
    rw [← h.simulates.current]
    rfl
  have hremove : ∀ id, Sound keys (g.remove id) (a.update fun c => c.put id none) :=
    fun id => ⟨h.simulates.remove id, h.current.remove id, h.saved⟩
  cases op with
  | emplace v =>
      obtain ⟨_, hadmits, hemplace⟩ := Outcome.bind_eq_ok.mp hstep
      obtain ⟨_, hnext, hsimulates⟩ := h.simulates.emplace v
      rw [hnext] at hemplace
      cases hemplace
      refine ⟨_, ⟨hsimulates, ?_, h.saved⟩, rfl⟩
      have hnextId : a.current.nextId = g.nextId := by
        rw [← h.simulates.current]
        rfl
      refine Contents.Distinct.put h.current fun j w hj hne => ?_
      rw [hobjects] at hj
      rw [hnextId] at hne
      exact admits_iff.mp (Outcome.ensure_eq_ok.mp hadmits) j w hj hne
  | modify id m =>
      simp only [GenericIndex.stepUnique, GenericIndex.modifyUnique] at hstep
      have hsimulates := h.simulates.modify id m
      split at hstep
      · rename_i hnone
        have hsame : g.modify id m = g := by
          rw [GenericIndex.modify, hnone]
        cases hstep
        rw [hsame] at hsimulates
        refine ⟨_, ⟨hsimulates, ?_, h.saved⟩, rfl⟩
        change (a.current.put id ((a.current.objects id).map m)).Distinct keys
        rw [hobjects, hnone]
        exact h.current.remove id
      · rename_i v hv
        obtain ⟨_, hadmits, hmodify⟩ := Outcome.bind_eq_ok.mp hstep
        cases hmodify
        refine ⟨_, ⟨hsimulates, ?_, h.saved⟩, rfl⟩
        change (a.current.put id ((a.current.objects id).map m)).Distinct keys
        rw [hobjects, hv, Option.map_some]
        refine h.current.put fun j w hj hne => ?_
        rw [hobjects] at hj
        exact admits_iff.mp (Outcome.ensure_eq_ok.mp hadmits) j w hj hne
  | remove id =>
      cases hstep
      exact ⟨_, hremove id, rfl⟩
  | erase id =>
      cases hstep
      exact ⟨_, hremove id, rfl⟩
  | _ => exact absurd hedit id

theorem startUndoSession (h : Sound keys g a) : Sound keys g.startUndoSession a.save where
  simulates := h.simulates.startUndoSession
  current := h.current
  saved := List.forall_mem_cons.mpr ⟨h.current, h.saved⟩

theorem undo [DecidableEq K] (h : Sound keys g a) (hundo : g.undoUnique keys = .ok next) :
    ∃ a', Sound keys next a' := by
  have hlayers := h.simulates.layers
  cases hstack : g.stack with
  | nil =>
      rw [GenericIndex.undoUnique, hstack] at hundo
      cases hundo
      exact ⟨a, h⟩
  | cons head rest =>
      rw [hstack] at hlayers
      generalize hsaved : a.saved = saved at hlayers
      cases hlayers with
      | @session _ _ start _ saved htop hrest =>
          obtain ⟨hcontents, hstack'⟩ := undoUnique_contents htop hstack hundo
          have hdistinct := h.saved
          rw [hsaved] at hdistinct
          obtain ⟨hstart, hdistinct⟩ := List.forall_mem_cons.mp hdistinct
          refine ⟨⟨start, next.revision, saved⟩, ⟨hcontents, rfl, ?_, ?_⟩, hstart, hdistinct⟩
          · rw [hcontents]
            exact htop.fresh
          · rw [hcontents, hstack']
            exact hrest

theorem squash (h : Sound keys g a) : ∃ a', Sound keys g.squash a' := by
  by_cases hopen : 2 ≤ a.saved.length
  · refine ⟨a.squash, h.simulates.squash hopen, ?_, ?_⟩
    · unfold SnapshotStack.squash
      split <;> exact h.current
    · unfold SnapshotStack.squash
      split
      · exact h.saved
      · rename_i session rest hsaved
        have hall := h.saved
        rw [hsaved] at hall
        exact (List.forall_mem_cons.mp hall).2
  · -- without a session around it the undo state is dropped
    have hstack : g.squash.stack = [] ∧ g.squash.contents = g.contents := by
      have hlength := congrArg List.length h.simulates.layers.revisions
      simp only [List.length_map] at hlength
      unfold GenericIndex.squash
      split
      · rename_i hnil
        exact ⟨hnil, rfl⟩
      · exact ⟨rfl, rfl⟩
      · rename_i hcons
        rw [hcons, List.length_cons, List.length_cons] at hlength
        omega
    refine ⟨⟨g.contents, g.squash.revision, []⟩, ⟨hstack.2, rfl, ?_, ?_⟩, ?_, ?_⟩
    · rw [hstack.2]
      exact h.simulates.fresh
    · rw [hstack.1]
      exact .base _
    · rw [h.simulates.current]
      exact h.current
    · rintro session ⟨⟩

/-- Every call that completes keeps the index sound. -/
theorem step [DecidableEq K] (h : Sound keys g a) {op : IndexOp V}
    (hstep : g.stepUnique keys op = .ok next) :
    ∃ a', Sound keys next a' := by
  have hedit : op.IsEdit → ∃ a', Sound keys next a' := by
    intro hedit
    obtain ⟨a', hnext, -⟩ := h.edit hedit hstep
    exact ⟨a', hnext⟩
  cases op with
  | startUndoSession =>
      cases hstep
      exact ⟨_, h.startUndoSession⟩
  | undo => exact h.undo hstep
  | push =>
      cases hstep
      exact ⟨_, h⟩
  | commit revision =>
      cases hstep
      refine ⟨a.commit revision, ?_, h.current, ?_⟩
      · have hlayers := h.simulates.layers.commit revision
        exact ⟨h.simulates.current, h.simulates.revision, h.simulates.fresh, hlayers⟩
      · intro session hsession
        exact h.saved session ((List.rdropWhile_prefix _ _).subset hsession)
  | squash =>
      cases hstep
      exact h.squash
  | _ => exact hedit trivial

theorem run [DecidableEq K] (h : Sound keys g a) {ops : List (IndexOp V)}
    (hrun : g.runUnique keys ops = .ok next) : ∃ a', Sound keys next a' :=
  Outcome.forEach_invariant (fun g => ∃ a, Sound keys g a)
    (fun _ _ _ _ hstate hstep => hstate.choose_spec.step hstep) ⟨a, h⟩ hrun

/-- Edits keep the snapshots of the open sessions. -/
theorem edits [DecidableEq K] (h : Sound keys g a) {ops : List (IndexOp V)}
    (honly : ∀ op ∈ ops, op.IsEdit) (hrun : g.runUnique keys ops = .ok next) :
    ∃ a', Sound keys next a' ∧ a'.saved = a.saved := by
  refine Outcome.forEach_invariant (fun g => ∃ a', Sound keys g a' ∧ a'.saved = a.saved) ?_
    ⟨a, h, rfl⟩ hrun
  rintro state op next hop ⟨a', hstate, hsaved⟩ hstep
  obtain ⟨next', hnext, hsame⟩ := hstate.edit (honly op hop) hstep
  exact ⟨next', hnext, hsame.trans hsaved⟩

end Sound

/-- A new index. -/
theorem sound_new : Sound keys ({} : GenericIndex V)
    { current := ⟨fun _ => none, 0⟩, revision := 0 } where
  simulates := ⟨rfl, rfl, fun _ _ => rfl, .base _⟩
  current := by
    rintro i j v w - ⟨⟩
  saved := by
    rintro session ⟨⟩

/-- After a session of edits, `undo` completes and restores the contents at the start of the
session exactly when no object that was there and still is had a key that an object with a
larger id has now. -/
theorem undo_restores_iff [DecidableEq K] {before edits : List (IndexOp V)} {start now : GenericIndex V}
    (hbefore : GenericIndex.runUnique keys {} before = .ok start)
    (honly : ∀ op ∈ edits, op.IsEdit)
    (hedits : start.startUndoSession.runUnique keys edits = .ok now) :
    (∃ undone, now.undoUnique keys = .ok undone ∧ undone.contents = start.contents) ↔
      Restorable keys start.contents now.contents := by
  obtain ⟨a, hstart⟩ := sound_new.run hbefore
  obtain ⟨a', hnow, hsaved⟩ := hstart.startUndoSession.edits honly hedits
  have hlayers := hnow.simulates.layers
  rw [hsaved, SnapshotStack.save] at hlayers
  generalize hstack : now.stack = stack at hlayers
  generalize a.revision + 1 = revision at hlayers
  have hcontents := hstart.simulates.current
  cases hlayers with
  | session htop hrest =>
      have hdistinct : now.contents.Distinct keys := by
        rw [hnow.simulates.current]
        exact hnow.current
      rw [hcontents, ← undoUnique_iff htop hstack hstart.current hdistinct]
      constructor
      · rintro ⟨undone, hundone, -⟩
        exact ⟨undone, hundone⟩
      · rintro ⟨undone, hundone⟩
        exact ⟨undone, hundone, (undoUnique_contents htop hstack hundone).1⟩

end Laws

/-! ### Two objects that exchange their keys -/

/-- Two numbers, each its own unique key, in a session that exchanges them by way of a third,
and in one that gives the key of the first to a new object. -/
def twoKeys : List (IndexOp Nat) := [.emplace 1, .emplace 2]
def exchange : List (IndexOp Nat) :=
  [.modify 0 fun _ => 3, .modify 1 fun _ => 1, .modify 0 fun _ => 2]
def takeOver : List (IndexOp Nat) := [.modify 0 fun _ => 3, .emplace 1]

/-- Both sessions of edits complete, and `undo` throws in both. -/
theorem exchange_undo_throws : ∃ start exchanged taken,
    GenericIndex.runUnique [id] {} twoKeys = .ok start ∧
      start.startUndoSession.runUnique [id] exchange = .ok exchanged ∧
      exchanged.undoUnique [id] =
        .error "Could not modify object, most likely a uniqueness constraint was violated" ∧
      start.startUndoSession.runUnique [id] takeOver = .ok taken ∧
      taken.undoUnique [id] =
        .error "Could not modify object, most likely a uniqueness constraint was violated" :=
  ⟨_, _, _, rfl, rfl, rfl, rfl, rfl⟩

/-- In the session that takes a key over the condition fails with the call. -/
theorem takeOver_undo_iff : ∃ start taken : GenericIndex Nat,
    GenericIndex.runUnique [id] {} twoKeys = .ok start ∧
      start.startUndoSession.runUnique [id] takeOver = .ok taken ∧
      ((∃ undone, taken.undoUnique [id] = .ok undone ∧ undone.contents = start.contents) ↔
        Restorable [id] start.contents taken.contents) := by
  have honly : ∀ op ∈ takeOver, op.IsEdit := by
    simp [takeOver, IndexOp.IsEdit]
  have hstart : GenericIndex.runUnique [id] {} twoKeys = .ok _ := rfl
  exact ⟨_, _, hstart, rfl, undo_restores_iff hstart honly rfl⟩

end Chainbase

end Blurt
