import Blurt.Foundation.Store
import Mathlib.Algebra.Order.BigOperators.Group.Multiset
import Mathlib.Data.Finmap

/-! # Tables

A table is an index up to the order of its rows, so two tables with the same lookups
are equal. An abstract model keeps tables where a program keeps indexes; `Store.view`
is what such a model sees of an index.
-/

universe u v w

/-- A finite map. -/
abbrev Table (κ : Type u) (α : Type v) := Finmap fun _ : κ => α

namespace Store

variable {κ : Type u} {α : Type v} {β : Type w}

/-- The rows of an index, each replaced by a function of it. -/
def mapRows (f : κ → α → β) (s : Store κ α) : Store κ β :=
  ⟨s.entries.map fun entry => ⟨entry.1, f entry.1 entry.2⟩, by
    have hkeys : (s.entries.map fun entry => (⟨entry.1, f entry.1 entry.2⟩ :
        Sigma fun _ : κ => β)).keys = s.entries.keys := by
      simp [List.keys, Function.comp_def]
    rw [List.NodupKeys, hkeys]
    exact s.nodupKeys⟩

/-- What is seen of an index when `f` is what is seen of each object. -/
def view (f : α → β) (s : Store κ α) : Table κ β := (s.mapRows fun _ => f).toFinmap

theorem sum_mapRows (g : κ → β → Int) (f : κ → α → β) (s : Store κ α) :
    (s.mapRows f).sum g = s.sum fun k v => g k (f k v) := by
  simp [sum, mapRows, Function.comp_def]

variable [DecidableEq κ]

theorem find?_mapRows (f : κ → α → β) (s : Store κ α) (k : κ) :
    (s.mapRows f).find? k = (s.find? k).map (f k) := by
  apply Option.ext
  intro v
  rw [Option.map_eq_some_iff, ← mem_rows_iff]
  simp only [mapRows, rows, List.map_map, List.mem_map, Function.comp_apply, Prod.mk.injEq]
  constructor
  · rintro ⟨entry, hentry, rfl, rfl⟩
    exact ⟨entry.2, mem_rows_iff.mp (List.mem_map.mpr ⟨entry, hentry, rfl⟩), rfl⟩
  · rintro ⟨a, ha, rfl⟩
    obtain ⟨entry, hentry, hrow⟩ := List.mem_map.mp (mem_rows_iff.mpr ha)
    cases hrow
    exact ⟨entry, hentry, rfl, rfl⟩

end Store

namespace Table

variable {κ : Type u} {α : Type v} {β : Type w}

/-- The sum of `g` over all rows. -/
def sum (g : κ → α → Int) (t : Table κ α) : Int :=
  (t.entries.map fun entry => g entry.1 entry.2).sum

theorem sum_add (f g : κ → α → Int) (t : Table κ α) :
    sum (fun k v => f k v + g k v) t = sum f t + sum g t := by
  simp [sum, Multiset.sum_map_add]

theorem sum_toFinmap (g : κ → α → Int) (s : Store κ α) : sum g s.toFinmap = s.sum g := by
  simp [sum, Store.sum]

theorem sum_view (g : κ → β → Int) (f : α → β) (s : Store κ α) :
    sum g (s.view f) = s.sum fun k v => g k (f v) := by
  rw [Store.view, sum_toFinmap, Store.sum_mapRows]

/-- The rows of a table, each replaced by a function of it. -/
def mapRows (f : κ → α → β) (t : Table κ α) : Table κ β :=
  ⟨t.entries.map fun entry => ⟨entry.1, f entry.1 entry.2⟩, by
    induction t using Finmap.induction_on with
    | H s => exact (Store.mapRows f s).nodupKeys⟩

theorem mapRows_toFinmap (f : κ → α → β) (s : Store κ α) :
    mapRows f s.toFinmap = (Store.mapRows f s).toFinmap := rfl

/-- The rows under the keys that satisfy `keep`. -/
def filterKeys (keep : κ → Bool) (t : Table κ α) : Table κ α :=
  ⟨t.entries.filter fun entry => keep entry.1, by
    rw [← Multiset.nodup_keys]
    apply Multiset.nodup_of_le _ (Multiset.nodup_keys.mpr t.nodupKeys)
    exact Multiset.map_le_map (Multiset.filter_le _ _)⟩

variable [DecidableEq κ]

/-- The row under `k`. -/
def find? (k : κ) (t : Table κ α) : Option α := t.lookup k

/-- `v` under `k`, in place of what was there. -/
def set (k : κ) (v : α) (t : Table κ α) : Table κ α := t.insert k v

def remove (k : κ) (t : Table κ α) : Table κ α := t.erase k

/-- The row under `k`, if there is one, replaced by a function of it. -/
def adjust (k : κ) (f : α → α) (t : Table κ α) : Table κ α :=
  match t.find? k with
  | some v => t.set k (f v)
  | none => t

theorem ext_find? {s t : Table κ α} (h : ∀ k, s.find? k = t.find? k) : s = t :=
  Finmap.ext_lookup h

@[simp] theorem find?_empty (k : κ) : find? k (∅ : Table κ α) = none := rfl

theorem find?_set (k key : κ) (v : α) (t : Table κ α) :
    (t.set key v).find? k = if k = key then some v else t.find? k := by
  by_cases hkey : k = key
  · subst hkey
    simp [find?, set]
  · simp [find?, set, hkey]

theorem find?_remove (k key : κ) (t : Table κ α) :
    (t.remove key).find? k = if k = key then none else t.find? k := by
  by_cases hkey : k = key
  · subst hkey
    simp [find?, remove]
  · simp [find?, remove, hkey]

theorem find?_adjust (k key : κ) (f : α → α) (t : Table κ α) :
    (t.adjust key f).find? k = if k = key then (t.find? k).map f else t.find? k := by
  unfold adjust
  split
  · rename_i v hv
    rw [find?_set]
    by_cases hkey : k = key
    · rw [if_pos hkey, if_pos hkey, hkey, hv, Option.map_some]
    · rw [if_neg hkey, if_neg hkey]
  · rename_i hnone
    by_cases hkey : k = key
    · rw [if_pos hkey, hkey, hnone, Option.map_none]
    · rw [if_neg hkey]

theorem mem_entries_iff {t : Table κ α} {entry : Sigma fun _ : κ => α} :
    entry ∈ t.entries ↔ t.find? entry.1 = some entry.2 := by
  induction t using Finmap.induction_on with
  | H s => exact AList.mem_lookup_iff.symm

@[simp] theorem find?_toFinmap (k : κ) (s : Store κ α) : find? k s.toFinmap = s.find? k := rfl

@[simp] theorem find?_view (k : κ) (f : α → β) (s : Store κ α) :
    find? k (s.view f) = (s.find? k).map f := by
  rw [Store.view, find?_toFinmap, Store.find?_mapRows]

/-- Indexes that look the same have the same keys. -/
theorem isSome_of_view_eq {f : α → β} {s t : Store κ α} (h : s.view f = t.view f) (k : κ) :
    (s.find? k).isSome = (t.find? k).isSome := by
  have hrow := congrArg (fun table => (Table.find? k table).isSome) h
  simpa only [find?_view, Option.isSome_map] using hrow

theorem find?_mapRows (f : κ → α → β) (t : Table κ α) (k : κ) :
    (t.mapRows f).find? k = (t.find? k).map (f k) := by
  induction t using Finmap.induction_on with
  | H s => rw [mapRows_toFinmap, find?_toFinmap, Store.find?_mapRows, find?_toFinmap]

@[simp] theorem mapRows_id (t : Table κ α) : t.mapRows (fun _ v => v) = t := by
  apply ext_find?
  intro k
  simp [find?_mapRows]

theorem find?_filterKeys (keep : κ → Bool) (t : Table κ α) (k : κ) :
    (t.filterKeys keep).find? k = if keep k then t.find? k else none := by
  apply Option.ext
  intro v
  have hentry : (⟨k, v⟩ : Sigma fun _ : κ => α) ∈ (t.filterKeys keep).entries ↔
      (t.filterKeys keep).find? k = some v := mem_entries_iff
  rw [← hentry, filterKeys, Multiset.mem_filter, mem_entries_iff]
  by_cases hkeep : keep k <;> simp [hkeep]

/-! ## Views of the updates of an index -/

theorem view_set (f : α → β) (s : Store κ α) (k : κ) (v : α) :
    (s.set k v).view f = (s.view f).set k (f v) := by
  apply ext_find?
  intro key
  rw [find?_view, find?_set, Store.find?_set, find?_view]
  by_cases hkey : key = k <;> simp [hkey]

theorem view_remove (f : α → β) (s : Store κ α) (k : κ) :
    (s.remove k).view f = (s.view f).remove k := by
  apply ext_find?
  intro key
  rw [find?_view, find?_remove, Store.find?_remove, find?_view]
  by_cases hkey : key = k <;> simp [hkey]

/-- An update that is seen as `g`. -/
theorem view_adjust {f : α → β} {s : Store κ α} {k : κ} {v w : α} {g : β → β}
    (hv : s.find? k = some v) (hw : f w = g (f v)) :
    (s.set k w).view f = (s.view f).adjust k g := by
  apply ext_find?
  intro key
  rw [find?_view, find?_adjust, Store.find?_set, find?_view]
  by_cases hkey : key = k
  · simp [hkey, hv, hw]
  · simp [hkey]

/-- An update that is not seen. -/
theorem view_quiet {f : α → β} {s : Store κ α} {k : κ} {v w : α} (hv : s.find? k = some v)
    (hw : f w = f v) : (s.set k w).view f = s.view f := by
  apply ext_find?
  intro key
  rw [find?_view, Store.find?_set, find?_view]
  by_cases hkey : key = k
  · simp [hkey, hv, hw]
  · simp [hkey]

/-! ## Sums -/

/-- What the row under `k`, if there is one, contributes to a sum. -/
def share (g : κ → α → Int) (k : κ) (t : Table κ α) : Int :=
  ((t.find? k).map (g k)).getD 0

@[simp] theorem share_of_found {g : κ → α → Int} {k : κ} {v : α} {t : Table κ α}
    (hv : t.find? k = some v) : t.share g k = g k v := by
  simp [share, hv]

@[simp] theorem share_of_absent {g : κ → α → Int} {k : κ} {t : Table κ α}
    (hk : t.find? k = none) : t.share g k = 0 := by
  simp [share, hk]

theorem sum_set (g : κ → α → Int) (k : κ) (w : α) (t : Table κ α) :
    (t.set k w).sum g = t.sum g + (g k w - t.share g k) := by
  induction t using Finmap.induction_on with
  | H s =>
      have hset : set k w s.toFinmap = (Store.set k w s).toFinmap :=
        Finmap.insert_toFinmap (β := fun _ => α) k w s
      rw [hset, sum_toFinmap, sum_toFinmap, Store.sum_set]
      rfl

theorem sum_remove (g : κ → α → Int) (k : κ) (t : Table κ α) :
    (t.remove k).sum g = t.sum g - t.share g k := by
  induction t using Finmap.induction_on with
  | H s =>
      have hremove : remove k s.toFinmap = (Store.remove k s).toFinmap := Finmap.erase_toFinmap k s
      rw [hremove, sum_toFinmap, sum_toFinmap, Store.sum_remove]
      rfl

theorem sum_adjust {g : κ → α → Int} {k : κ} {v : α} {t : Table κ α} (hv : t.find? k = some v)
    (f : α → α) : (t.adjust k f).sum g = t.sum g + (g k (f v) - g k v) := by
  simp only [adjust, hv]
  rw [sum_set, share_of_found hv]

theorem sum_congr {f g : κ → α → Int} {t : Table κ α}
    (h : ∀ k v, t.find? k = some v → f k v = g k v) : t.sum f = t.sum g := by
  unfold sum
  congr 1
  apply Multiset.map_congr rfl
  intro entry hentry
  exact h entry.1 entry.2 (mem_entries_iff.mp hentry)

theorem sum_nonneg {g : κ → α → Int} {t : Table κ α}
    (h : ∀ k v, t.find? k = some v → 0 ≤ g k v) : 0 ≤ t.sum g := by
  apply Multiset.sum_nonneg
  intro x hx
  obtain ⟨entry, hentry, rfl⟩ := Multiset.mem_map.mp hx
  exact h entry.1 entry.2 (mem_entries_iff.mp hentry)

omit [DecidableEq κ] in
theorem sum_filterKeys (keep : κ → Bool) (g : κ → α → Int) (t : Table κ α) :
    (t.filterKeys keep).sum g = t.sum fun k v => if keep k then g k v else 0 := by
  unfold sum filterKeys
  dsimp only
  induction t.entries using Multiset.induction_on with
  | empty => simp
  | cons entry entries ih =>
      by_cases hkeep : keep entry.1
      · simp only [Multiset.filter_cons, hkeep, if_true, Multiset.map_cons, Multiset.sum_cons,
          Multiset.singleton_add, ih]
      · rw [Bool.not_eq_true] at hkeep
        simp only [Multiset.filter_cons, hkeep, Bool.false_eq_true, if_false, Multiset.map_cons,
          Multiset.sum_cons, zero_add, ih]

theorem sum_le_sum {f g : κ → α → Int} {t : Table κ α}
    (h : ∀ k v, t.find? k = some v → f k v ≤ g k v) : t.sum f ≤ t.sum g := by
  apply Multiset.sum_map_le_sum_map
  intro entry hentry
  exact h entry.1 entry.2 (mem_entries_iff.mp hentry)

omit [DecidableEq κ] in
theorem sum_comm {ι : Type u} {β : Type v} (f : κ → α → ι → β → Int) (t : Table κ α)
    (s : Table ι β) : t.sum (fun k v => s.sum fun i w => f k v i w) =
      s.sum fun i w => t.sum fun k v => f k v i w :=
  Multiset.sum_map_sum_map _ _

/-- Only the row under one key counts. -/
theorem sum_single (key : κ) (g : κ → α → Int) (t : Table κ α) :
    t.sum (fun k v => if key = k then g k v else 0) = t.share g key := by
  have hremove := sum_remove (fun k v => if key = k then g k v else 0) key t
  have hzero : (t.remove key).sum (fun k v => if key = k then g k v else 0) = 0 := by
    rw [sum_congr (g := fun _ _ => 0)]
    · simp [sum]
    · intro k v hv
      rw [find?_remove] at hv
      split at hv
      · cases hv
      · rename_i hk
        rw [if_neg (Ne.symm hk)]
  have hshare : t.share (fun k v => if key = k then g k v else 0) key = t.share g key := by
    unfold share
    cases t.find? key <;> simp
  omega

end Table
