import Blurt.Chainbase.GenericIndex
import Blurt.Foundation.SnapshotStack

/-! # Undo is a stack of snapshots

An undo state describes how the objects changed since its session started, one of four
ways for every id. Every call on the index keeps the undo states of the stack in line
with the snapshots that they stand for.
-/

namespace Blurt

namespace Chainbase

variable {V : Type}

/-- What a session can restore: the objects by id and the next id. -/
structure Contents (V : Type) where
  objects : Nat → Option V
  nextId : Nat

namespace Contents

/-- The contents with the object under `id` replaced. -/
def put (c : Contents V) (id : Nat) (v : Option V) : Contents V :=
  { c with objects := Function.update c.objects id v }

/-- No object has an id that is still to be given. -/
def Fresh (c : Contents V) : Prop := ∀ id, c.nextId ≤ id → c.objects id = none

end Contents

def GenericIndex.contents (g : GenericIndex V) : Contents V where
  objects id := g.indices.find? id
  nextId := g.nextId

/-- What a call does to a stack of full snapshots. -/
def IndexOp.onSnapshots (a : SnapshotStack (Contents V)) : IndexOp V → SnapshotStack (Contents V)
  | .startUndoSession => a.save
  | .emplace v => a.update fun c => { c.put c.nextId (some v) with nextId := c.nextId + 1 }
  | .modify id m => a.update fun c => c.put id ((c.objects id).map m)
  | .remove id => a.update fun c => c.put id none
  | .erase id => a.update fun c => c.put id none
  | .undo => a.undo
  | .push => a
  | .commit revision => a.commit revision
  | .squash => a.squash

/-! ## The four relations of an object to an undo state -/

/-- What the three containers of an undo state hold under one id. -/
structure Noted (V : Type) where
  new : Option Unit
  old : Option V
  removed : Option V

def UndoState.noted (u : UndoState V) (id : Nat) : Noted V where
  new := u.newIds.find? id
  old := u.oldValues.find? id
  removed := u.removedValues.find? id

/-- `new`, `upd`, `del` and `nop` of the comment of `squash`, with the object at the start
of the session and now. -/
inductive Relation : Noted V → Option V → Option V → Prop
  | new (v : V) : Relation ⟨some (), none, none⟩ none (some v)
  | upd (was v : V) : Relation ⟨none, some was, none⟩ (some was) (some v)
  | del (was : V) : Relation ⟨none, none, some was⟩ (some was) none
  | nop (v : Option V) : Relation ⟨none, none, none⟩ v v

/-- An undo state says how the contents changed since its session started. -/
structure Describes (u : UndoState V) (start now : Contents V) : Prop where
  nextId : u.oldNextId = start.nextId
  grows : start.nextId ≤ now.nextId
  fresh : start.Fresh
  later : ∀ id, (u.noted id).new = some () → start.nextId ≤ id
  relation : ∀ id, Relation (u.noted id) (start.objects id) (now.objects id)

/-! ### What each routine does to one id -/

theorem find?_emplaceValue (k id : Nat) (v : V) (s : Store Nat V) :
    (emplaceValue k v s).find? id =
      if id = k then some ((s.find? k).getD v) else s.find? id := by
  unfold emplaceValue
  split
  · rename_i hfound
    obtain ⟨w, hw⟩ := Option.isSome_iff_exists.mp hfound
    split
    · rename_i hid
      simp [hid, hw]
    · rfl
  · rename_i hnone
    have hnone : s.find? k = none := by simpa using hnone
    rw [Store.find?_set]
    simp [hnone]

namespace Noted

def onCreate (n : Noted V) : Noted V := { n with new := some () }

def onModify (v : V) (n : Noted V) : Noted V :=
  if n.new.isSome || n.old.isSome then n else { n with old := some v }

def onRemove (v : V) (n : Noted V) : Noted V :=
  if n.new.isSome then { n with new := none }
  else
    match n.old with
    | some was => { n with old := none, removed := some (n.removed.getD was) }
    | none => { n with removed := some (n.removed.getD v) }

end Noted

theorem noted_onCreate (u : UndoState V) (id other : Nat) :
    (u.onCreate id).noted other = if other = id then (u.noted other).onCreate else u.noted other := by
  by_cases hother : other = id
  · simp [UndoState.noted, UndoState.onCreate, Noted.onCreate, hother]
  · simp [UndoState.noted, UndoState.onCreate, Store.find?_set_of_ne hother, hother]

theorem noted_onModify (u : UndoState V) (id other : Nat) (v : V) :
    (u.onModify id v).noted other =
      if other = id then (u.noted other).onModify v else u.noted other := by
  by_cases hother : other = id
  · subst hother
    cases hnew : u.newIds.find? other with
    | some _ => simp [UndoState.noted, UndoState.onModify, Noted.onModify, hnew]
    | none =>
        cases hold : u.oldValues.find? other with
        | some _ => simp [UndoState.noted, UndoState.onModify, Noted.onModify, hnew, hold]
        | none =>
            simp [UndoState.noted, UndoState.onModify, Noted.onModify, find?_emplaceValue, hnew,
              hold]
  · simp only [UndoState.onModify, hother, if_false]
    split
    · rfl
    split
    · rfl
    · simp [UndoState.noted, find?_emplaceValue, hother]

theorem noted_onRemove (u : UndoState V) (id other : Nat) (v : V) :
    (u.onRemove id v).noted other =
      if other = id then (u.noted other).onRemove v else u.noted other := by
  by_cases hother : other = id
  · subst hother
    cases hnew : u.newIds.find? other with
    | some _ => simp [UndoState.noted, UndoState.onRemove, Noted.onRemove, hnew, Store.find?_remove]
    | none =>
        cases hold : u.oldValues.find? other with
        | some _ =>
            simp [UndoState.noted, UndoState.onRemove, Noted.onRemove, hnew, hold,
              find?_emplaceValue, Store.find?_remove]
        | none =>
            cases hremoved : u.removedValues.find? other <;>
              simp [UndoState.noted, UndoState.onRemove, Noted.onRemove, hnew, hold, hremoved,
                find?_emplaceValue]
  · simp only [UndoState.onRemove, hother, if_false]
    split
    · simp [UndoState.noted, Store.find?_remove, hother]
    split
    · simp [UndoState.noted, find?_emplaceValue, Store.find?_remove, hother]
    split
    · rfl
    · simp [UndoState.noted, find?_emplaceValue, hother]

theorem noted_mergeOld (u : UndoState V) (item : Nat × V) (other : Nat) :
    (u.mergeOld item).noted other =
      if other = item.1 then (u.noted other).onModify item.2 else u.noted other :=
  noted_onModify u item.1 other item.2

theorem noted_mergeNew (u : UndoState V) (item : Nat × Unit) (other : Nat) :
    (u.mergeNew item).noted other =
      if other = item.1 then (u.noted other).onCreate else u.noted other :=
  noted_onCreate u item.1 other

theorem noted_mergeRemoved (u : UndoState V) (obj : Nat × V) (other : Nat) :
    (u.mergeRemoved obj).noted other =
      if other = obj.1 then (u.noted other).onRemove obj.2 else u.noted other := by
  by_cases hother : other = obj.1
  · subst hother
    cases hnew : u.newIds.find? obj.1 with
    | some _ =>
        simp [UndoState.noted, UndoState.mergeRemoved, Noted.onRemove, hnew, Store.find?_remove]
    | none =>
        cases hold : u.oldValues.find? obj.1 <;>
          simp [UndoState.noted, UndoState.mergeRemoved, Noted.onRemove, hnew, hold,
            find?_emplaceValue, Store.find?_remove]
  · simp only [UndoState.mergeRemoved, hother, if_false]
    split
    · simp [UndoState.noted, Store.find?_remove, hother]
    split
    · simp [UndoState.noted, find?_emplaceValue, Store.find?_remove, hother]
    · simp [UndoState.noted, find?_emplaceValue, hother]

/-- The entry of the table of `squash` for one id. -/
def Noted.merge (prev state : Noted V) : Noted V :=
  let old := match state.old with
    | some was => prev.onModify was
    | none => prev
  let new := match state.new with
    | some _ => old.onCreate
    | none => old
  match state.removed with
  | some was => new.onRemove was
  | none => new

theorem noted_merge (prev state : UndoState V) (id : Nat) :
    (prev.merge state).noted id = (prev.noted id).merge (state.noted id) := by
  unfold UndoState.merge
  rw [Store.view_foldl_rows UndoState.noted UndoState.mergeRemoved Noted.onRemove
      noted_mergeRemoved,
    Store.view_foldl_rows UndoState.noted UndoState.mergeNew (fun _ => Noted.onCreate)
      noted_mergeNew,
    Store.view_foldl_rows UndoState.noted UndoState.mergeOld Noted.onModify noted_mergeOld]
  simp only [Noted.merge, UndoState.noted]
  cases state.removedValues.find? id <;> cases state.newIds.find? id <;>
    cases state.oldValues.find? id <;> rfl

/-- The table of `squash`. A removed object does not come back under its id, so the case
`del` before `new` does not arise. -/
theorem Relation.merge {prev state : Noted V} {start middle now : Option V}
    (hprev : Relation prev start middle) (hstate : Relation state middle now)
    (hcausal : start.isSome → state.new = none) : Relation (prev.merge state) start now := by
  cases hprev with
  | new v =>
      cases hstate with
      | upd _ w => exact .new w
      | del => exact .nop none
      | nop => exact .new _
  | upd was v =>
      cases hstate with
      | upd _ w => exact .upd was w
      | del => exact .del was
      | nop => exact .upd was _
  | del was =>
      cases hstate with
      | new => cases hcausal rfl
      | nop => exact .del was
  | nop v =>
      cases hstate with
      | new w => exact .new w
      | upd was w => exact .upd was w
      | del was => exact .del was
      | nop => exact .nop _

/-! ## What the calls do to the top of the stack -/

theorem Describes.start {c : Contents V} (h : c.Fresh) (revision : Int) :
    Describes { oldNextId := c.nextId, revision } c c where
  nextId := rfl
  grows := le_rfl
  fresh := h
  later id hnew := by cases hnew
  relation id := .nop _

theorem Describes.emplace {u : UndoState V} {start now : Contents V} (h : Describes u start now)
    (hnow : now.Fresh) (v : V) :
    Describes (u.onCreate now.nextId) start
      { now.put now.nextId (some v) with nextId := now.nextId + 1 } where
  nextId := h.nextId
  grows := h.grows.trans (Nat.le_succ _)
  fresh := h.fresh
  later id hnew := by
    rw [noted_onCreate] at hnew
    split at hnew
    · rename_i hid
      rw [hid]
      exact h.grows
    · exact h.later id hnew
  relation id := by
    have hid := h.relation id
    rw [noted_onCreate]
    by_cases heq : id = now.nextId
    · subst heq
      have hstart := h.fresh now.nextId h.grows
      rw [hstart, hnow now.nextId le_rfl] at hid
      simp only [if_true, Contents.put, Function.update_self, hstart]
      generalize u.noted now.nextId = noted at hid ⊢
      cases hid
      exact .new v
    · simpa [heq, Contents.put, Function.update_of_ne heq] using hid

theorem Describes.modify {u : UndoState V} {start now : Contents V} (h : Describes u start now)
    {id : Nat} {v : V} (hv : now.objects id = some v) (w : V) :
    Describes (u.onModify id v) start (now.put id (some w)) where
  nextId := by
    rw [← h.nextId]
    unfold UndoState.onModify
    split
    · rfl
    split <;> rfl
  grows := h.grows
  fresh := h.fresh
  later other hnew := by
    rw [noted_onModify] at hnew
    apply h.later other
    split at hnew
    · unfold Noted.onModify at hnew
      split at hnew <;> exact hnew
    · exact hnew
  relation other := by
    have hother := h.relation other
    rw [noted_onModify]
    by_cases heq : other = id
    · subst heq
      rw [hv] at hother
      simp only [if_true, Contents.put, Function.update_self]
      generalize u.noted other = noted at hother ⊢
      generalize start.objects other = before at hother ⊢
      cases hother with
      | new => exact .new w
      | upd was => exact .upd was w
      | nop => exact .upd v w
    · simpa [heq, Contents.put, Function.update_of_ne heq] using hother

theorem Describes.remove {u : UndoState V} {start now : Contents V} (h : Describes u start now)
    {id : Nat} {v : V} (hv : now.objects id = some v) :
    Describes (u.onRemove id v) start (now.put id none) where
  nextId := by
    rw [← h.nextId]
    unfold UndoState.onRemove
    split
    · rfl
    split
    · rfl
    split <;> rfl
  grows := h.grows
  fresh := h.fresh
  later other hnew := by
    rw [noted_onRemove] at hnew
    apply h.later other
    split at hnew
    · unfold Noted.onRemove at hnew
      split at hnew
      · cases hnew
      split at hnew <;> exact hnew
    · exact hnew
  relation other := by
    have hother := h.relation other
    rw [noted_onRemove]
    by_cases heq : other = id
    · subst heq
      rw [hv] at hother
      simp only [if_true, Contents.put, Function.update_self]
      generalize u.noted other = noted at hother ⊢
      generalize start.objects other = before at hother ⊢
      cases hother with
      | new => exact .nop none
      | upd was => exact .del was
      | nop => exact .del v
    · simpa [heq, Contents.put, Function.update_of_ne heq] using hother

theorem foldl_keeps {σ β γ : Type*} (view : σ → γ) {body : σ → β → σ}
    (hbody : ∀ state b, view (body state b) = view state) (rows : List β) (state : σ) :
    view (rows.foldl body state) = view state := by
  induction rows generalizing state with
  | nil => rfl
  | cons row rest ih => rw [List.foldl_cons, ih, hbody]

/-- What `squash` leaves of the outer session besides its differences. -/
theorem merge_session (prev state : UndoState V) :
    ((prev.merge state).oldNextId, (prev.merge state).revision) =
      (prev.oldNextId, prev.revision) := by
  unfold UndoState.merge
  let view (u : UndoState V) := (u.oldNextId, u.revision)
  have hremoved : ∀ u obj, view (UndoState.mergeRemoved u obj) = view u := by
    intro u obj
    unfold UndoState.mergeRemoved
    split
    · rfl
    split <;> rfl
  have hold : ∀ u item, view (UndoState.mergeOld u item) = view u := by
    intro u item
    unfold UndoState.mergeOld
    split
    · rfl
    split <;> rfl
  have hnew : ∀ u item, view (UndoState.mergeNew u item) = view u := fun _ _ => rfl
  exact (foldl_keeps view hremoved _ _).trans
    ((foldl_keeps view hnew _ _).trans (foldl_keeps view hold _ _))

theorem merge_oldNextId (prev state : UndoState V) :
    (prev.merge state).oldNextId = prev.oldNextId :=
  congrArg Prod.fst (merge_session prev state)

theorem merge_revision (prev state : UndoState V) :
    (prev.merge state).revision = prev.revision :=
  congrArg Prod.snd (merge_session prev state)

theorem Noted.new_of_merge {prev state : Noted V} (h : (prev.merge state).new = some ()) :
    prev.new = some () ∨ state.new = some () := by
  obtain ⟨new, old, removed⟩ := prev
  obtain ⟨new', old', removed'⟩ := state
  cases new with
  | some _ => exact .inl rfl
  | none =>
      cases new' with
      | some _ => exact .inr rfl
      | none =>
          cases old <;> cases old' <;> cases removed' <;>
            simp [Noted.merge, Noted.onModify, Noted.onRemove] at h

theorem Describes.merge {prev state : UndoState V} {start middle now : Contents V}
    (hprev : Describes prev start middle) (hstate : Describes state middle now) :
    Describes (prev.merge state) start now where
  nextId := by rw [merge_oldNextId, hprev.nextId]
  grows := hprev.grows.trans hstate.grows
  fresh := hprev.fresh
  later id hnew := by
    rw [noted_merge] at hnew
    rcases Noted.new_of_merge hnew with hold | hlate
    · exact hprev.later id hold
    · exact hprev.grows.trans (hstate.later id hlate)
  relation id := by
    rw [noted_merge]
    apply (hprev.relation id).merge (hstate.relation id)
    intro hbefore
    by_contra hnew
    have hnew : (state.noted id).new = some () := by
      cases hcase : (state.noted id).new with
      | none => exact absurd hcase hnew
      | some u => rfl
    have hlate := hprev.grows.trans (hstate.later id hnew)
    rw [hprev.fresh id hlate] at hbefore
    cases hbefore

/-! ### Undo -/

theorem restoreRemoved_spec {rows : List (Nat × V)} {indices : Store Nat V}
    (hnodup : (rows.map Prod.fst).Nodup)
    (habsent : ∀ row ∈ rows, indices.find? row.1 = none) :
    ∃ restored, Outcome.forEach GenericIndex.restoreRemoved indices rows = .ok restored ∧
      restored = rows.foldl (fun indices item => indices.set item.1 item.2) indices := by
  induction rows generalizing indices with
  | nil => exact ⟨indices, rfl, rfl⟩
  | cons row rest ih =>
      obtain ⟨hrow, hrest⟩ := List.nodup_cons.mp hnodup
      have hstep : GenericIndex.restoreRemoved indices row = .ok (indices.set row.1 row.2) := by
        simp [GenericIndex.restoreRemoved, Outcome.ensure, habsent row List.mem_cons_self]
      have hlater : ∀ later ∈ rest, (indices.set row.1 row.2).find? later.1 = none := by
        intro later hlater
        have hne : later.1 ≠ row.1 := by
          intro heq
          exact hrow (heq ▸ List.mem_map_of_mem hlater)
        rw [Store.find?_set_of_ne hne]
        exact habsent later (List.mem_cons_of_mem _ hlater)
      obtain ⟨restored, hrun, heq⟩ := ih hrest hlater
      exact ⟨restored, Outcome.forEach_cons_eq_ok.mpr ⟨_, hstep, hrun⟩, heq⟩

theorem find?_foldl_set (rows indices : Store Nat V) (id : Nat) :
    (rows.rows.foldl (fun indices item => indices.set item.1 item.2) indices).find? id =
      (rows.find? id).or (indices.find? id) := by
  have hview := Store.view_foldl_rows (fun (s : Store Nat V) k => s.find? k)
    (fun indices item => indices.set item.1 item.2) (fun v _ => some v)
    (fun state row k => Store.find?_set k row.1 row.2 state) rows indices id
  rw [hview]
  cases rows.find? id <;> rfl

/-- An undo state takes the contents back to the start of its session. -/
theorem Describes.undo {u : UndoState V} {start : Contents V} {g : GenericIndex V}
    {rest : List (UndoState V)} (h : Describes u start g.contents) (hstack : g.stack = u :: rest) :
    ∃ undone, g.undo = .ok undone ∧ undone.contents = start ∧
      undone.revision = g.revision - 1 ∧ undone.stack = rest := by
  let modified := u.oldValues.rows.foldl
    (fun indices item => indices.set item.1 item.2) g.indices
  let erased := u.newIds.rows.foldl (fun indices item => indices.remove item.1) modified
  have hmodified : ∀ id, modified.find? id = (u.oldValues.find? id).or (g.indices.find? id) :=
    find?_foldl_set u.oldValues g.indices
  have herased : ∀ id, erased.find? id =
      if (u.newIds.find? id).isSome then none else modified.find? id := by
    intro id
    have hview := Store.view_foldl_rows (fun (s : Store Nat V) k => s.find? k)
      (fun indices (item : Nat × Unit) => indices.remove item.1) (fun _ _ => none)
      (fun state row k => Store.find?_remove k row.1 state) u.newIds modified id
    apply hview.trans
    cases u.newIds.find? id <;> rfl
  have habsent : ∀ row ∈ u.removedValues.rows, erased.find? row.1 = none := by
    rintro ⟨id, v⟩ hrow
    have hremoved := Store.mem_rows_iff.mp hrow
    have hid := h.relation id
    rw [herased, hmodified]
    simp only [UndoState.noted, GenericIndex.contents, hremoved] at hid
    generalize u.newIds.find? id = new at hid ⊢
    generalize u.oldValues.find? id = old at hid ⊢
    generalize g.indices.find? id = now at hid ⊢
    generalize start.objects id = before at hid
    cases hid
    rfl
  obtain ⟨restored, hrestored, heq⟩ :=
    restoreRemoved_spec u.removedValues.rows_nodup habsent
  refine ⟨{ indices := restored, nextId := u.oldNextId, revision := g.revision - 1, stack := rest },
    ?_, ?_, rfl, rfl⟩
  · simp only [GenericIndex.undo, hstack]
    change (Outcome.forEach GenericIndex.restoreRemoved erased u.removedValues.rows >>= _) = _
    rw [hrestored]
    rfl
  · obtain ⟨objects, nextId⟩ := start
    have hnext : u.oldNextId = nextId := h.nextId
    simp only [GenericIndex.contents, hnext, Contents.mk.injEq, and_true]
    funext id
    have hid := h.relation id
    rw [heq, find?_foldl_set, herased, hmodified]
    simp only [UndoState.noted, GenericIndex.contents] at hid
    generalize u.newIds.find? id = new at hid ⊢
    generalize u.oldValues.find? id = old at hid ⊢
    generalize u.removedValues.find? id = removed at hid ⊢
    generalize g.indices.find? id = now at hid ⊢
    generalize objects id = before at hid ⊢
    cases hid <;> rfl

/-! ## The simulation -/

/-- The undo states of a stack lead from each snapshot to the next one and from the
newest to `now`. -/
inductive Layers : List (UndoState V) → Contents V → List (Int × Contents V) → Prop
  | base (now : Contents V) : Layers [] now []
  | session {u : UndoState V} {rest : List (UndoState V)} {start now : Contents V}
      {saved : List (Int × Contents V)} (htop : Describes u start now)
      (hrest : Layers rest start saved) : Layers (u :: rest) now ((u.revision, start) :: saved)

/-- An index behaves as a stack of snapshots. -/
structure Simulates (g : GenericIndex V) (a : SnapshotStack (Contents V)) : Prop where
  current : g.contents = a.current
  revision : g.revision = a.revision
  fresh : g.contents.Fresh
  layers : Layers g.stack g.contents a.saved

theorem Layers.revisions {stack : List (UndoState V)} {now : Contents V}
    {saved : List (Int × Contents V)} (h : Layers stack now saved) :
    stack.map (·.revision) = saved.map (·.1) := by
  induction h with
  | base => rfl
  | session htop hrest ih => simp [ih]

theorem withHead_indices (g : GenericIndex V) (change : UndoState V → UndoState V) :
    (g.withHead change).indices = g.indices := by
  unfold GenericIndex.withHead
  split <;> rfl

theorem withHead_contents (g : GenericIndex V) (change : UndoState V → UndoState V) :
    (g.withHead change).contents = g.contents := by
  unfold GenericIndex.withHead
  split <;> rfl

theorem withHead_revision (g : GenericIndex V) (change : UndoState V → UndoState V) :
    (g.withHead change).revision = g.revision := by
  unfold GenericIndex.withHead
  split <;> rfl

theorem withHead_stack (g : GenericIndex V) (change : UndoState V → UndoState V) :
    (g.withHead change).stack = g.stack.modifyHead change := by
  unfold GenericIndex.withHead
  cases hstack : g.stack <;> simp [hstack]

theorem onModify_revision (u : UndoState V) (id : Nat) (v : V) :
    (u.onModify id v).revision = u.revision := by
  unfold UndoState.onModify
  split
  · rfl
  split <;> rfl

theorem onRemove_revision (u : UndoState V) (id : Nat) (v : V) :
    (u.onRemove id v).revision = u.revision := by
  unfold UndoState.onRemove
  split
  · rfl
  split
  · rfl
  split <;> rfl

/-- An edit of the contents that the undo state at the top follows. -/
theorem Simulates.edit {g next : GenericIndex V} {a : SnapshotStack (Contents V)}
    (h : Simulates g a) (change : UndoState V → UndoState V) (f : Contents V → Contents V)
    (hstack : next.stack = g.stack.modifyHead change) (hrevision : next.revision = g.revision)
    (hcontents : next.contents = f g.contents) (hfresh : next.contents.Fresh)
    (hrevisions : ∀ u : UndoState V, (change u).revision = u.revision)
    (hchange : ∀ u start, Describes u start g.contents →
      Describes (change u) start next.contents) : Simulates next (a.update f) where
  current := by rw [hcontents, h.current]; rfl
  revision := hrevision.trans h.revision
  fresh := hfresh
  layers := by
    have hlayers := h.layers
    rw [hstack]
    simp only [SnapshotStack.update]
    generalize g.stack = stack at hlayers ⊢
    generalize a.saved = saved at hlayers ⊢
    cases hlayers with
    | base => exact .base _
    | @session u rest start _ saved htop hrest =>
        have hsession := Layers.session (hchange u start htop) hrest
        rwa [hrevisions] at hsession

theorem Simulates.emplace {g : GenericIndex V} {a : SnapshotStack (Contents V)}
    (h : Simulates g a) (v : V) :
    ∃ next, g.emplace v = .ok next ∧ Simulates next (IndexOp.onSnapshots a (.emplace v)) := by
  have habsent : g.indices.find? g.nextId = none := h.fresh g.nextId le_rfl
  let inserted : GenericIndex V :=
    { g with indices := g.indices.set g.nextId v, nextId := g.nextId + 1 }
  have hput : inserted.contents =
      { g.contents.put g.nextId (some v) with nextId := g.nextId + 1 } := by
    simp only [GenericIndex.contents, Contents.put, inserted, Contents.mk.injEq, and_true]
    funext id
    rw [Store.find?_set, Function.update_apply]
  refine ⟨inserted.withHead fun head => head.onCreate g.nextId, ?_, ?_⟩
  · simp [GenericIndex.emplace, Outcome.ensure, habsent, inserted, pure, Except.pure, bind,
      Except.bind]
  · apply h.edit (fun head => head.onCreate g.nextId)
      (fun c => { c.put c.nextId (some v) with nextId := c.nextId + 1 })
    · rw [withHead_stack]
    · rw [withHead_revision]
    · rw [withHead_contents, hput]
      rfl
    · rw [withHead_contents, hput]
      intro id hid
      have hlate : g.nextId + 1 ≤ id := hid
      have hold : (g.contents.put g.nextId (some v)).objects id = g.contents.objects id :=
        Function.update_of_ne (by omega) _ _
      exact hold.trans (h.fresh id (by change g.nextId ≤ id; omega))
    · intro u
      rfl
    · intro u start hu
      rw [withHead_contents, hput]
      exact hu.emplace h.fresh v

theorem Contents.Fresh.put {c : Contents V} (h : c.Fresh) {id : Nat} {v : V}
    (hid : c.objects id = some v) (w : Option V) : (c.put id w).Fresh := by
  intro other hother
  have hne : other ≠ id := by
    rintro rfl
    rw [h other hother] at hid
    cases hid
  exact (Function.update_of_ne hne _ _).trans (h other hother)

theorem Contents.put_self (c : Contents V) (id : Nat) : c.put id (c.objects id) = c := by
  simp [Contents.put]

theorem Simulates.modify {g : GenericIndex V} {a : SnapshotStack (Contents V)}
    (h : Simulates g a) (id : Nat) (m : V → V) :
    Simulates (g.modify id m) (IndexOp.onSnapshots a (.modify id m)) := by
  unfold GenericIndex.modify
  split
  · rename_i hnone
    -- there is no object: nothing changes, in the snapshots either
    have hsame : a.current.put id ((a.current.objects id).map m) = a.current := by
      have hobject : a.current.objects id = none := by
        rw [← h.current]
        exact hnone
      rw [hobject]
      exact (congrArg _ hobject.symm).trans (a.current.put_self id)
    have hstack : IndexOp.onSnapshots a (.modify id m) = a := by
      simp only [IndexOp.onSnapshots, SnapshotStack.update, hsame]
    rwa [hstack]
  · rename_i v hv
    have hobject : g.contents.objects id = some v := hv
    have hcontents : ({ g.withHead (fun head => head.onModify id v) with
        indices := (g.withHead fun head => head.onModify id v).indices.set id (m v) } :
          GenericIndex V).contents = g.contents.put id (some (m v)) := by
      have hnext := congrArg Contents.nextId (withHead_contents g fun head => head.onModify id v)
      simp only [GenericIndex.contents, Contents.put, withHead_indices] at hnext ⊢
      rw [hnext]
      congr 1
      funext other
      rw [Store.find?_set, Function.update_apply]
    apply h.edit (fun head => head.onModify id v) (fun c => c.put id ((c.objects id).map m))
    · exact withHead_stack _ _
    · exact withHead_revision _ _
    · rw [hcontents, hobject]
      rfl
    · rw [hcontents]
      exact h.fresh.put hobject _
    · intro u
      exact onModify_revision u id v
    · intro u start hu
      rw [hcontents]
      exact hu.modify hobject (m v)

theorem Simulates.remove {g : GenericIndex V} {a : SnapshotStack (Contents V)}
    (h : Simulates g a) (id : Nat) :
    Simulates (g.remove id) (a.update fun c => c.put id none) := by
  unfold GenericIndex.remove
  split
  · rename_i hnone
    have hobject : a.current.objects id = none := by
      rw [← h.current]
      exact hnone
    have hsame : a.current.put id none = a.current :=
      (congrArg _ hobject.symm).trans (a.current.put_self id)
    have hstack : (a.update fun c => c.put id none) = a := by
      simp only [SnapshotStack.update, hsame]
    rwa [hstack]
  · rename_i v hv
    have hobject : g.contents.objects id = some v := hv
    have hcontents : ({ g.withHead (fun head => head.onRemove id v) with
        indices := (g.withHead fun head => head.onRemove id v).indices.remove id } :
          GenericIndex V).contents = g.contents.put id none := by
      have hnext := congrArg Contents.nextId (withHead_contents g fun head => head.onRemove id v)
      simp only [GenericIndex.contents, Contents.put, withHead_indices] at hnext ⊢
      rw [hnext]
      congr 1
      funext other
      rw [Store.find?_remove, Function.update_apply]
    apply h.edit (fun head => head.onRemove id v) (fun c => c.put id none)
    · exact withHead_stack _ _
    · exact withHead_revision _ _
    · exact hcontents
    · rw [hcontents]
      exact h.fresh.put hobject _
    · intro u
      exact onRemove_revision u id v
    · intro u start hu
      rw [hcontents]
      exact hu.remove hobject

theorem Simulates.startUndoSession {g : GenericIndex V} {a : SnapshotStack (Contents V)}
    (h : Simulates g a) : Simulates g.startUndoSession a.save where
  current := h.current
  revision := congrArg (· + 1) h.revision
  fresh := h.fresh
  layers := by
    have hsession := Layers.session (Describes.start h.fresh (g.revision + 1)) h.layers
    have hsaved : a.save.saved = (g.revision + 1, g.contents) :: a.saved := by
      rw [h.revision, h.current]
      rfl
    rw [hsaved]
    exact hsession

theorem Simulates.undo {g : GenericIndex V} {a : SnapshotStack (Contents V)}
    (h : Simulates g a) : ∃ next, g.undo = .ok next ∧ Simulates next a.undo := by
  have hlayers := h.layers
  cases hstack : g.stack with
  | nil =>
      rw [hstack] at hlayers
      have hsaved : a.saved = [] := by
        have hlength := congrArg List.length hlayers.revisions
        simpa using hlength.symm
      refine ⟨g, by simp [GenericIndex.undo, hstack], ?_⟩
      rwa [SnapshotStack.undo, hsaved]
  | cons u rest =>
      rw [hstack] at hlayers
      obtain ⟨current, revision, saved⟩ := a
      cases hlayers with
      | @session _ _ start _ saved htop hrest =>
          obtain ⟨next, hnext, hcontents, hrevision, hrest'⟩ := htop.undo hstack
          refine ⟨next, hnext, ?_⟩
          constructor
          · exact hcontents
          · rw [hrevision, h.revision]
            rfl
          · rw [hcontents]
            exact htop.fresh
          · rw [hrest', hcontents]
            exact hrest

theorem Simulates.squash {g : GenericIndex V} {a : SnapshotStack (Contents V)}
    (h : Simulates g a) (hopen : 2 ≤ a.saved.length) : Simulates g.squash a.squash := by
  obtain ⟨indices, nextId, revision, stack⟩ := g
  obtain ⟨current, _, saved⟩ := a
  obtain ⟨hcurrent, hrevision, hfresh, hlayers⟩ := h
  cases hlayers with
  | base => simp at hopen
  | @session state rest middle _ saved htop hrest =>
      cases hrest with
      | base => simp at hopen
      | @session prev rest start _ saved houter hrest =>
          have hmerged := Layers.session (houter.merge htop) hrest
          rw [merge_revision] at hmerged
          refine ⟨hcurrent, ?_, hfresh, hmerged⟩
          exact congrArg (· - 1) hrevision

theorem rdropWhile_cons {β : Type*} (p : β → Bool) (x : β) (rest : List β) :
    (x :: rest).rdropWhile p =
      if rest.rdropWhile p = [] then (if p x then [] else [x]) else x :: rest.rdropWhile p := by
  unfold List.rdropWhile
  rw [List.reverse_cons, List.dropWhile_append]
  cases hkept : rest.reverse.dropWhile p with
  | nil => cases hx : p x <;> simp [List.dropWhile, hx]
  | cons y ys => simp

theorem Layers.commit {stack : List (UndoState V)} {now : Contents V}
    {saved : List (Int × Contents V)} (h : Layers stack now saved) (revision : Int) :
    Layers (stack.rdropWhile fun u => decide (u.revision ≤ revision)) now
      (saved.rdropWhile fun session => decide (session.1 ≤ revision)) := by
  induction h with
  | base now => exact .base now
  | @session u rest start now saved htop hrest ih =>
      rw [rdropWhile_cons, rdropWhile_cons]
      have hlength := congrArg List.length ih.revisions
      simp only [List.length_map] at hlength
      generalize rest.rdropWhile _ = rest' at ih hlength ⊢
      generalize saved.rdropWhile _ = saved' at ih hlength ⊢
      cases ih with
      | base =>
          by_cases hdone : u.revision ≤ revision
          · simp only [hdone, decide_true, if_true]
            exact .base now
          · simp only [hdone, decide_false, if_true, Bool.false_eq_true, if_false]
            exact .session htop (.base start)
      | session htop' hrest' =>
          simp only [reduceCtorEq, if_false]
          exact .session htop (.session htop' hrest')

/-- Every call keeps the index a stack of snapshots, and completes. -/
theorem Simulates.step {g : GenericIndex V} {a : SnapshotStack (Contents V)}
    (h : Simulates g a) (op : IndexOp V) (hopen : op = .squash → 2 ≤ a.saved.length) :
    ∃ next, g.step op = .ok next ∧ Simulates next (op.onSnapshots a) := by
  cases op with
  | startUndoSession => exact ⟨_, rfl, h.startUndoSession⟩
  | emplace v => exact h.emplace v
  | modify id m => exact ⟨_, rfl, h.modify id m⟩
  | remove id => exact ⟨_, rfl, h.remove id⟩
  | erase id => exact ⟨_, rfl, h.remove id⟩
  | undo => exact h.undo
  | push => exact ⟨g, rfl, h⟩
  | commit revision =>
      exact ⟨_, rfl, h.current, h.revision, h.fresh, h.layers.commit revision⟩
  | squash => exact ⟨_, rfl, h.squash (hopen rfl)⟩

/-- A sequence of calls that squashes only with two open sessions. -/
def SquashesNested (a : SnapshotStack (Contents V)) : List (IndexOp V) → Prop
  | [] => True
  | op :: rest => (op = .squash → 2 ≤ a.saved.length) ∧ SquashesNested (op.onSnapshots a) rest

theorem Simulates.run {g : GenericIndex V} {a : SnapshotStack (Contents V)}
    (h : Simulates g a) {ops : List (IndexOp V)} (hops : SquashesNested a ops) :
    ∃ next, g.run ops = .ok next ∧ Simulates next (ops.foldl IndexOp.onSnapshots a) := by
  induction ops generalizing g a with
  | nil => exact ⟨g, rfl, h⟩
  | cons op rest ih =>
      obtain ⟨middle, hmiddle, hsim⟩ := h.step op hops.1
      obtain ⟨next, hnext, hlast⟩ := ih hsim hops.2
      exact ⟨next, Outcome.forEach_cons_eq_ok.mpr ⟨middle, hmiddle, hnext⟩, hlast⟩

/-- Every sequence of calls on a new index completes, and leaves the objects, the next id
and the revisions that full snapshots would. -/
theorem run_snapshots {ops : List (IndexOp V)}
    (hops : SquashesNested { current := ⟨fun _ => none, 0⟩, revision := 0 } ops) :
    ∃ index : GenericIndex V, GenericIndex.run {} ops = .ok index ∧
      let stack := ops.foldl IndexOp.onSnapshots
        { current := ⟨fun _ => none, 0⟩, revision := 0 }
      index.contents = stack.current ∧ index.revision = stack.revision ∧
        index.stack.map (·.revision) = stack.saved.map (·.1) := by
  have hnew : Simulates ({} : GenericIndex V)
      { current := ⟨fun _ => none, 0⟩, revision := 0 } :=
    ⟨rfl, rfl, fun _ _ => rfl, .base _⟩
  obtain ⟨index, hindex, hsim⟩ := hnew.run hops
  exact ⟨index, hindex, hsim.current, hsim.revision, hsim.layers.revisions⟩

/-- A session around another one that removes what the outer one changed. -/
theorem nested_run_snapshots :
    ∃ index : GenericIndex Nat,
      GenericIndex.run {} [.emplace 7, .startUndoSession, .modify 0 (· + 1), .startUndoSession,
        .remove 0, .emplace 9, .squash, .undo] = .ok index ∧
      index.contents.objects 0 = some 7 ∧ index.contents.objects 1 = none ∧
      index.contents.nextId = 1 := by
  have hops : SquashesNested { current := ⟨fun _ => none, 0⟩, revision := 0 }
      [.emplace 7, .startUndoSession, .modify 0 (· + 1), .startUndoSession, .remove 0,
        .emplace 9, .squash, .undo] := by
    simp [SquashesNested, IndexOp.onSnapshots, SnapshotStack.save, SnapshotStack.update]
  obtain ⟨index, hindex, hcontents, -⟩ := run_snapshots hops
  refine ⟨index, hindex, ?_⟩
  rw [hcontents]
  exact ⟨rfl, rfl, rfl⟩

end Chainbase

end Blurt
