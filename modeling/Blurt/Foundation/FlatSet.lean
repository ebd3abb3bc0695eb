import Mathlib.Data.List.Sort

/-! # Flat sets

A set as the sorted list of its elements, each once.
-/

/-- A list without repetitions. -/
structure FlatSet (α : Type) where
  elements : List α
  nodup : elements.Nodup

namespace FlatSet

variable {α : Type}

instance : EmptyCollection (FlatSet α) := ⟨[], List.nodup_nil⟩

instance : Membership α (FlatSet α) := ⟨fun s a => a ∈ s.elements⟩

theorem mem_def {s : FlatSet α} {a : α} : a ∈ s ↔ a ∈ s.elements := Iff.rfl

@[simp] theorem not_mem_empty (a : α) : a ∉ (∅ : FlatSet α) := List.not_mem_nil

variable [LinearOrder α]

instance (a : α) (s : FlatSet α) : Decidable (a ∈ s) :=
  inferInstanceAs (Decidable (a ∈ s.elements))

/-- A new element at its place in the order. -/
def insert (a : α) (s : FlatSet α) : FlatSet α where
  elements := if a ∈ s.elements then s.elements else s.elements.orderedInsert (· ≤ ·) a
  nodup := by
    split
    · exact s.nodup
    · rename_i hnew
      exact (List.perm_orderedInsert _ a s.elements).nodup_iff.mpr
        (List.nodup_cons.mpr ⟨hnew, s.nodup⟩)

def erase (a : α) (s : FlatSet α) : FlatSet α := ⟨s.elements.erase a, s.nodup.erase a⟩

@[simp] theorem mem_insert {a b : α} {s : FlatSet α} : a ∈ s.insert b ↔ a = b ∨ a ∈ s := by
  simp only [mem_def, insert]
  split
  · rename_i hb
    exact ⟨.inr, fun h => h.elim (fun hab => hab ▸ hb) id⟩
  · exact List.mem_orderedInsert _

@[simp] theorem mem_erase {a b : α} {s : FlatSet α} : a ∈ s.erase b ↔ a ≠ b ∧ a ∈ s :=
  s.nodup.mem_erase_iff

/-- Elements inserted one after the other. -/
def insertAll (s : FlatSet α) (items : List α) : FlatSet α :=
  items.foldl (fun s a => s.insert a) s

@[simp] theorem mem_insertAll {a : α} {s : FlatSet α} {items : List α} :
    a ∈ s.insertAll items ↔ a ∈ items ∨ a ∈ s := by
  unfold insertAll
  induction items generalizing s with
  | nil => simp
  | cons b items ih =>
    rw [List.foldl_cons, ih, mem_insert, List.mem_cons]
    tauto

end FlatSet
