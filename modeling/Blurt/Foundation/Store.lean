import Mathlib.Data.List.AList
import Mathlib.Algebra.BigOperators.Group.List.Basic
import Mathlib.Algebra.Order.BigOperators.Group.List
import Mathlib.Data.List.Sort
import Mathlib.Algebra.Ring.Int.Defs
import Mathlib.Data.Finmap

/-! # Object indexes

An index is an association list without duplicate keys. Besides lookups, the
programs that use one add up a quantity over all of its objects, so every update
comes with a rule for its effect on such a sum.
-/

universe u v

/-- The objects of one type, by a key that is unique among them. -/
abbrev Store (κ : Type u) (α : Type v) := AList (fun _ : κ => α)

namespace Store

variable {κ : Type u} {α : Type v}

/-- The sum of `g` over all objects. -/
def sum (g : κ → α → Int) (s : Store κ α) : Int :=
  (s.entries.map fun entry => g entry.1 entry.2).sum

/-- The objects with their keys. -/
def rows (s : Store κ α) : List (κ × α) :=
  s.entries.map fun entry => (entry.1, entry.2)

/-- The objects that satisfy `keep`, in the order of `le`. -/
def ordered (le : κ × α → κ × α → Prop) [DecidableRel le] (keep : κ → α → Bool)
    (s : Store κ α) : List (κ × α) :=
  (s.rows.filter fun row => keep row.1 row.2).insertionSort le

/-- The objects at the front of the order of `le` that are due, up to the first that
is not. -/
def due (le : κ × α → κ × α → Prop) [DecidableRel le] (isDue : κ × α → Bool)
    (s : Store κ α) : List (κ × α) :=
  (s.ordered le fun _ _ => true).takeWhile isDue

theorem rows_sum (g : κ → α → Int) (s : Store κ α) :
    (s.rows.map fun row => g row.1 row.2).sum = s.sum g := by
  simp [rows, sum, Function.comp_def]

/-- A sum of ones is a number of rows. -/
theorem sum_eq_length_filter {β : Type*} (weight : β → Int) (keep : β → Bool) (rows : List β)
    (h : ∀ row ∈ rows, weight row = if keep row then 1 else 0) :
    (rows.map weight).sum = (rows.filter keep).length := by
  induction rows with
  | nil => rfl
  | cons row rows ih =>
      have hrest := ih fun other hother => h other (List.mem_cons_of_mem _ hother)
      rw [List.map_cons, List.sum_cons, h row List.mem_cons_self, hrest]
      by_cases hrow : keep row
      · simp [hrow, Int.add_comm]
      · simp [hrow]

@[simp] theorem sum_empty (g : κ → α → Int) : sum g (∅ : Store κ α) = 0 := rfl

theorem sum_add (f g : κ → α → Int) (s : Store κ α) :
    s.sum (fun k v => f k v + g k v) = s.sum f + s.sum g := by
  simp [sum, List.sum_map_add]

theorem sum_nonneg {g : κ → α → Int} {s : Store κ α}
    (hg : ∀ row ∈ s.rows, 0 ≤ g row.1 row.2) : 0 ≤ s.sum g := by
  rw [← rows_sum]
  apply List.sum_nonneg
  rintro _ hmem
  obtain ⟨row, hrow, rfl⟩ := List.mem_map.mp hmem
  exact hg row hrow

theorem rows_nodup (s : Store κ α) : (s.rows.map Prod.fst).Nodup := by
  have hkeys : s.rows.map Prod.fst = s.entries.keys := by
    simp [rows, List.keys, Function.comp_def]
  rw [hkeys]
  exact s.nodupKeys

theorem ordered_nodup (le : κ × α → κ × α → Prop) [DecidableRel le] (keep : κ → α → Bool)
    (s : Store κ α) : ((s.ordered le keep).map Prod.fst).Nodup := by
  have hperm : ((s.ordered le keep).map Prod.fst).Perm
      ((s.rows.filter fun row => keep row.1 row.2).map Prod.fst) :=
    (List.perm_insertionSort le _).map _
  exact hperm.nodup_iff.mpr (s.rows_nodup.sublist (List.filter_sublist.map _))

theorem takeWhile_eq_filter {β : Type*} {le : β → β → Prop} {keep : β → Bool}
    (hclosed : ∀ x y, le x y → keep y → keep x) {rows : List β} (hrows : rows.Pairwise le) :
    rows.takeWhile keep = rows.filter keep := by
  induction rows with
  | nil => rfl
  | cons row rest ih =>
      obtain ⟨hrow, hrest⟩ := List.pairwise_cons.mp hrows
      by_cases hkeep : keep row
      · simp [hkeep, ih hrest]
      · have hnone : rest.filter keep = [] := by
          rw [List.filter_eq_nil_iff]
          intro later hlater hdue
          exact hkeep (hclosed row later (hrow later hlater) hdue)
        simp [hkeep, hnone]

/-- Where being due only depends on the order, the objects at the front are all that
are due. -/
theorem due_eq_filter {le : κ × α → κ × α → Prop} [DecidableRel le] [Std.Total le] [IsTrans _ le]
    {isDue : κ × α → Bool} (hclosed : ∀ x y, le x y → isDue y → isDue x) (s : Store κ α) :
    s.due le isDue = (s.ordered le fun _ _ => true).filter isDue :=
  takeWhile_eq_filter hclosed (List.pairwise_insertionSort _ _)

/-- Objects can be ordered by a time, and by their keys at the same time. -/
theorem total_lex [LinearOrder κ] (time : κ × α → Nat) :
    Std.Total fun x y : κ × α => time x < time y ∨ time x = time y ∧ x.1 ≤ y.1 :=
  ⟨fun x y => by
    rcases lt_trichotomy (time x) (time y) with h | h | h
    · exact .inl (.inl h)
    · exact (le_total x.1 y.1).imp (fun hle => .inr ⟨h, hle⟩) fun hle => .inr ⟨h.symm, hle⟩
    · exact .inr (.inl h)⟩

theorem isTrans_lex [LinearOrder κ] (time : κ × α → Nat) :
    IsTrans (κ × α) fun x y => time x < time y ∨ time x = time y ∧ x.1 ≤ y.1 :=
  ⟨fun x y z hxy hyz => by
    rcases hxy with hxy | ⟨hxy, hkey⟩
    · exact .inl (by omega)
    · rcases hyz with hyz | ⟨hyz, hkey'⟩
      · exact .inl (by omega)
      · exact .inr ⟨hxy.trans hyz, hkey.trans hkey'⟩⟩

variable [DecidableEq κ]

/-- The object under `k`. -/
def find? (k : κ) (s : Store κ α) : Option α := s.lookup k

/-- `v` under `k`, in place of what was there. -/
def set (k : κ) (v : α) (s : Store κ α) : Store κ α := s.insert k v

def remove (k : κ) (s : Store κ α) : Store κ α := s.erase k

@[simp] theorem find?_empty (k : κ) : find? k (∅ : Store κ α) = none := rfl

theorem eq_empty_iff {s : Store κ α} : s = ∅ ↔ ∀ k, s.find? k = none := by
  constructor
  · rintro rfl k
    rfl
  · intro hnone
    have hkeys : s.keys = [] := by
      rw [List.eq_nil_iff_forall_not_mem]
      intro k hk
      exact AList.lookup_eq_none.mp (hnone k) hk
    exact AList.ext (List.map_eq_nil_iff.mp hkeys)

theorem find?_set (k key : κ) (v : α) (s : Store κ α) :
    (s.set key v).find? k = if k = key then some v else s.find? k := by
  by_cases hkey : k = key
  · subst hkey
    simp [find?, set]
  · simp [find?, set, hkey]

@[simp] theorem find?_set_self (k : κ) (v : α) (s : Store κ α) :
    (s.set k v).find? k = some v := by
  simp [find?_set]

theorem find?_set_of_ne {k key : κ} (hne : k ≠ key) (v : α) (s : Store κ α) :
    (s.set key v).find? k = s.find? k := by
  simp [find?_set, hne]

theorem find?_remove (k key : κ) (s : Store κ α) :
    (s.remove key).find? k = if k = key then none else s.find? k := by
  by_cases hkey : k = key
  · subst hkey
    simp [find?, remove]
  · simp [find?, remove, hkey]

theorem mem_rows_iff {s : Store κ α} {k : κ} {v : α} :
    (k, v) ∈ s.rows ↔ s.find? k = some v := by
  have hentry : s.find? k = some v ↔ (⟨k, v⟩ : Sigma fun _ : κ => α) ∈ s.entries :=
    AList.mem_lookup_iff
  rw [hentry, rows, List.mem_map]
  constructor
  · rintro ⟨⟨key, value⟩, hmem, hrow⟩
    cases hrow
    exact hmem
  · intro hmem
    exact ⟨_, hmem, rfl⟩

/-- A loop over the objects whose turn for a key only changes what is seen at that key. -/
theorem view_foldl_rows {σ ω : Type*} (view : σ → κ → ω) (body : σ → κ × α → σ)
    (change : α → ω → ω)
    (hbody : ∀ state row k, view (body state row) k =
      if k = row.1 then change row.2 (view state k) else view state k)
    (s : Store κ α) (state : σ) (k : κ) :
    view (s.rows.foldl body state) k =
      match s.find? k with
      | some v => change v (view state k)
      | none => view state k := by
  have hloop : ∀ (rows : List (κ × α)) (state : σ), (rows.map Prod.fst).Nodup →
      (∀ v, (k, v) ∈ rows → view (rows.foldl body state) k = change v (view state k)) ∧
        (k ∉ rows.map Prod.fst → view (rows.foldl body state) k = view state k) := by
    intro rows
    induction rows with
    | nil =>
        intro state _
        simp
    | cons row rest ih =>
        intro state hnodup
        obtain ⟨hrow, hrest⟩ := List.nodup_cons.mp hnodup
        obtain ⟨hmem, hout⟩ := ih (body state row) hrest
        rw [List.foldl_cons]
        constructor
        · intro v hv
          rcases List.mem_cons.mp hv with rfl | hv
          · rw [hout hrow, hbody, if_pos rfl]
          · have hne : k ≠ row.1 := by
              rintro rfl
              exact hrow (List.mem_map.mpr ⟨_, hv, rfl⟩)
            rw [hmem v hv, hbody, if_neg hne]
        · intro hk
          rw [List.map_cons, List.mem_cons, not_or] at hk
          rw [hout hk.2, hbody, if_neg hk.1]
  obtain ⟨hmem, hout⟩ := hloop s.rows state s.rows_nodup
  split
  · rename_i v hv
    exact hmem v (mem_rows_iff.mpr hv)
  · rename_i hnone
    apply hout
    intro hk
    obtain ⟨⟨key, v⟩, hrow, rfl⟩ := List.mem_map.mp hk
    rw [mem_rows_iff.mp hrow] at hnone
    cases hnone

theorem mem_ordered_iff {le : κ × α → κ × α → Prop} [DecidableRel le] {keep : κ → α → Bool}
    {s : Store κ α} {k : κ} {v : α} :
    (k, v) ∈ s.ordered le keep ↔ s.find? k = some v ∧ keep k v := by
  simp [ordered, mem_rows_iff]

theorem mem_due_iff {le : κ × α → κ × α → Prop} [DecidableRel le] [Std.Total le] [IsTrans _ le]
    {isDue : κ × α → Bool} (hclosed : ∀ x y, le x y → isDue y → isDue x) {s : Store κ α} {k : κ}
    {v : α} : (k, v) ∈ s.due le isDue ↔ s.find? k = some v ∧ isDue (k, v) := by
  rw [due_eq_filter hclosed, List.mem_filter, mem_ordered_iff]
  simp

/-- The first object that is due. -/
theorem find?_of_head?_due {le : κ × α → κ × α → Prop} [DecidableRel le] {isDue : κ × α → Bool}
    {s : Store κ α} {k : κ} {v : α} (h : (s.due le isDue).head? = some (k, v)) :
    s.find? k = some v ∧ isDue (k, v) := by
  have hmem : (k, v) ∈ s.due le isDue := List.mem_of_head? h
  have hdue : isDue (k, v) := List.all_eq_true.mp List.all_takeWhile _ hmem
  exact ⟨(mem_ordered_iff.mp ((List.takeWhile_sublist _).mem hmem)).1, hdue⟩

/-- Where nothing at the front is due, every object comes after one that is not. -/
theorem exists_first {le : κ × α → κ × α → Prop} [DecidableRel le] [Std.Total le] [IsTrans _ le]
    {isDue : κ × α → Bool} {s : Store κ α} (hnone : (s.due le isDue).head? = none)
    {k : κ} {v : α} (hrow : s.find? k = some v) :
    ∃ first w, s.find? first = some w ∧ isDue (first, w) = false ∧ le (first, w) (k, v) := by
  have hmem : (k, v) ∈ s.ordered le fun _ _ => true := mem_ordered_iff.mpr ⟨hrow, rfl⟩
  have hsorted : (s.ordered le fun _ _ => true).Pairwise le := List.pairwise_insertionSort _ _
  unfold due at hnone
  cases hrows : s.ordered le fun _ _ => true with
  | nil =>
      rw [hrows] at hmem
      cases hmem
  | cons first rest =>
      rw [hrows] at hmem hsorted hnone
      have hfirst : isDue first = false := by
        by_contra hdue
        rw [List.takeWhile_cons_of_pos (by simpa using hdue)] at hnone
        cases hnone
      have hfound : first ∈ s.ordered le fun _ _ => true := hrows ▸ List.mem_cons_self
      refine ⟨first.1, first.2, (mem_ordered_iff.mp hfound).1, hfirst, ?_⟩
      rcases List.mem_cons.mp hmem with rfl | hrest
      · exact (Std.Total.total (r := le) (k, v) (k, v)).elim id id
      · exact (List.pairwise_cons.mp hsorted).1 _ hrest

theorem find?_foldl_remove {β : Type*} (rows : List (κ × β)) (s : Store κ α) (k : κ) :
    (rows.foldl (fun index row => index.remove row.1) s).find? k =
      if k ∈ rows.map Prod.fst then none else s.find? k := by
  induction rows generalizing s with
  | nil => simp
  | cons row rest ih =>
      rw [List.foldl_cons, ih, find?_remove]
      by_cases hrest : k ∈ rest.map Prod.fst
      · simp [hrest]
      · by_cases hrow : k = row.1 <;> simp [hrest, hrow]

/-- What the object under `k`, if there is one, contributes to a sum. -/
def share (g : κ → α → Int) (k : κ) (s : Store κ α) : Int :=
  ((s.find? k).map (g k)).getD 0

@[simp] theorem share_of_found {g : κ → α → Int} {k : κ} {v : α} {s : Store κ α}
    (hv : s.find? k = some v) : s.share g k = g k v := by
  simp [share, hv]

@[simp] theorem share_of_absent {g : κ → α → Int} {k : κ} {s : Store κ α}
    (hk : s.find? k = none) : s.share g k = 0 := by
  simp [share, hk]

theorem sum_remove (g : κ → α → Int) (k : κ) (s : Store κ α) :
    (s.remove k).sum g = s.sum g - s.share g k := by
  obtain ⟨entries, hnodup⟩ := s
  simp only [sum, share, find?, remove, AList.erase, AList.lookup]
  induction entries with
  | nil => simp
  | cons entry rest ih =>
      have hrest := ih (List.nodupKeys_cons.mp hnodup).2
      by_cases hkey : k = entry.1
      · subst hkey
        have hlookup : List.dlookup entry.1 (entry :: rest) = some entry.2 :=
          List.dlookup_cons_eq rest entry.1 entry.2
        simp [hlookup]
      · have herase : List.kerase k (entry :: rest) = entry :: List.kerase k rest :=
          List.kerase_cons_ne hkey
        have hlookup : List.dlookup k (entry :: rest) = List.dlookup k rest :=
          List.dlookup_cons_ne rest entry hkey
        rw [herase, hlookup]
        simp only [List.map_cons, List.sum_cons, hrest]
        omega

theorem sum_set (g : κ → α → Int) (k : κ) (w : α) (s : Store κ α) :
    (s.set k w).sum g = s.sum g + (g k w - s.share g k) := by
  have hremove := sum_remove g k s
  simp only [sum, remove, AList.erase] at hremove
  simp only [sum, set, AList.entries_insert, List.map_cons, List.sum_cons, hremove]
  omega

end Store
