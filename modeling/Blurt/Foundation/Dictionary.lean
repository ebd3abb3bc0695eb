import Mathlib.Data.List.Induction
import Mathlib.Data.List.Nodup

/-! # Dictionaries from pairs

A dictionary is a list of entries under distinct keys. Filling one from a list of pairs keeps, for
each key, the value of its last pair.
-/

namespace List

variable {α β κ : Type*}

/-! ## The last of each key -/

/-- An item that no later one of its key follows. -/
def IsLastOf (key : α → κ) (xs : List α) (x : α) : Prop :=
  ∃ before after, xs = before ++ x :: after ∧ ∀ y ∈ after, key y ≠ key x

section

variable {key : α → κ} {xs : List α} {x y last : α}

theorem IsLastOf.mem (h : xs.IsLastOf key x) : x ∈ xs := by
  obtain ⟨before, after, rfl, -⟩ := h
  simp

theorem isLastOf_nil : ¬ ([] : List α).IsLastOf key x := fun h => not_mem_nil h.mem

theorem isLastOf_concat :
    (xs ++ [last]).IsLastOf key x ↔ x = last ∨ (key x ≠ key last ∧ xs.IsLastOf key x) := by
  constructor
  · rintro ⟨before, after, hxs, hafter⟩
    rcases eq_nil_or_concat after with rfl | ⟨init, other, rfl⟩
    · obtain ⟨rfl, rfl⟩ := append_singleton_inj.mp hxs
      exact .inl rfl
    · rw [concat_eq_append] at hxs hafter
      rw [← cons_append, ← append_assoc] at hxs
      obtain ⟨rfl, rfl⟩ := append_singleton_inj.mp hxs
      refine .inr ⟨(hafter last (by simp)).symm, before, init, rfl, ?_⟩
      exact fun y hy => hafter y (mem_append_left _ hy)
  · rintro (rfl | ⟨hne, before, after, rfl, hafter⟩)
    · exact ⟨xs, [], rfl, by simp⟩
    · refine ⟨before, after ++ [last], by simp, ?_⟩
      intro y hy
      rcases mem_append.mp hy with hy | hy
      · exact hafter y hy
      · exact mem_singleton.mp hy ▸ hne.symm

/-- The last one of the key of an item. -/
theorem exists_isLastOf (key : α → κ) (h : x ∈ xs) : ∃ y, xs.IsLastOf key y ∧ key y = key x := by
  induction xs using reverseRecOn with
  | nil => cases h
  | append_singleton xs last ih =>
    by_cases hkey : key x = key last
    · exact ⟨last, isLastOf_concat.mpr (.inl rfl), hkey.symm⟩
    · have hne : x ≠ last := fun h => hkey (congrArg key h)
      obtain ⟨y, hy, hyx⟩ := ih ((mem_append.mp h).resolve_right (by simpa using hne))
      exact ⟨y, isLastOf_concat.mpr (.inr ⟨hyx ▸ hkey, hy⟩), hyx⟩

theorem IsLastOf.eq (hx : xs.IsLastOf key x) (hy : xs.IsLastOf key y) (hkey : key x = key y) :
    x = y := by
  induction xs using reverseRecOn with
  | nil => exact absurd hx isLastOf_nil
  | append_singleton xs last ih =>
    rcases isLastOf_concat.mp hx with rfl | ⟨hxl, hx⟩ <;>
      rcases isLastOf_concat.mp hy with rfl | ⟨hyl, hy⟩
    · rfl
    · exact absurd hkey.symm hyl
    · exact absurd hkey hxl
    · exact ih hx hy

theorem isLastOf_map {f : β → α} {ys : List β} :
    (ys.map f).IsLastOf key x ↔ ∃ y, ys.IsLastOf (fun y => key (f y)) y ∧ f y = x := by
  induction ys using reverseRecOn with
  | nil => simp [isLastOf_nil]
  | append_singleton ys last ih =>
    rw [map_append, map_singleton, isLastOf_concat, ih]
    constructor
    · rintro (rfl | ⟨hne, y, hy, rfl⟩)
      · exact ⟨last, isLastOf_concat.mpr (.inl rfl), rfl⟩
      · exact ⟨y, isLastOf_concat.mpr (.inr ⟨hne, hy⟩), rfl⟩
    · rintro ⟨y, hy, rfl⟩
      rcases isLastOf_concat.mp hy with rfl | ⟨hne, hy⟩
      · exact .inl rfl
      · exact .inr ⟨hne, y, hy, rfl⟩

/-- Keeping the items of some keys keeps the last ones of these keys. -/
theorem isLastOf_filter {p : κ → Bool} :
    (xs.filter fun x => p (key x)).IsLastOf key x ↔ p (key x) = true ∧ xs.IsLastOf key x := by
  induction xs using reverseRecOn with
  | nil => simp [isLastOf_nil]
  | append_singleton xs last ih =>
    rw [filter_append]
    cases hlast : p (key last) with
    | true =>
      have hfilter : [last].filter (fun x => p (key x)) = [last] := filter_cons_of_pos hlast
      rw [hfilter, isLastOf_concat, isLastOf_concat, ih]
      constructor
      · rintro (rfl | ⟨hne, hp, hx⟩)
        · exact ⟨hlast, .inl rfl⟩
        · exact ⟨hp, .inr ⟨hne, hx⟩⟩
      · rintro ⟨hp, rfl | ⟨hne, hx⟩⟩
        · exact .inl rfl
        · exact .inr ⟨hne, hp, hx⟩
    | false =>
      have hfilter : [last].filter (fun x => p (key x)) = [] := filter_cons_of_neg (by simp [hlast])
      rw [hfilter, append_nil, isLastOf_concat, ih]
      constructor
      · rintro ⟨hp, hx⟩
        refine ⟨hp, .inr ⟨fun hkey => ?_, hx⟩⟩
        rw [hkey, hlast] at hp
        cases hp
      · rintro ⟨hp, rfl | ⟨-, hx⟩⟩
        · exact absurd (hlast.symm.trans hp) Bool.false_ne_true
        · exact ⟨hp, hx⟩

end

/-! ## Dictionaries -/

variable [DecidableEq κ]

/-- Set a key. A key that is there keeps its place. -/
def setKey (dict : List (κ × β)) (entry : κ × β) : List (κ × β) :=
  if entry.1 ∈ dict.map Prod.fst then dict.map fun old => if old.1 = entry.1 then entry else old
  else dict ++ [entry]

/-- Delete a key. -/
def dropKey (dict : List (κ × β)) (key : κ) : List (κ × β) := dict.filter fun entry => entry.1 ≠ key

/-- The dictionary of the pairs, set one after the other. -/
def toDict (pairs : List (κ × β)) : List (κ × β) := pairs.foldl setKey []

variable {dict pairs : List (κ × β)} {entry last : κ × β}

theorem mem_setKey :
    entry ∈ dict.setKey last ↔ entry = last ∨ (entry.1 ≠ last.1 ∧ entry ∈ dict) := by
  unfold setKey
  split
  · rename_i hmem
    obtain ⟨old, hold, hkey⟩ := mem_map.mp hmem
    constructor
    · intro h
      obtain ⟨other, hother, rfl⟩ := mem_map.mp h
      split
      · exact .inl rfl
      · exact .inr ⟨by assumption, hother⟩
    · rintro (rfl | ⟨hne, hentry⟩)
      · exact mem_map.mpr ⟨old, hold, if_pos hkey⟩
      · exact mem_map.mpr ⟨entry, hentry, if_neg hne⟩
  · rename_i hmem
    have hne : entry ∈ dict → entry.1 ≠ last.1 := by
      intro hentry hkey
      exact hmem (hkey ▸ mem_map_of_mem hentry)
    rw [mem_append, mem_singleton]
    tauto

theorem mem_dropKey {key : κ} : entry ∈ dict.dropKey key ↔ entry ∈ dict ∧ entry.1 ≠ key := by
  simp [dropKey]

theorem map_fst_dropKey (dict : List (κ × β)) (key : κ) :
    (dict.dropKey key).map Prod.fst = (dict.map Prod.fst).filter fun k => k ≠ key := by
  rw [filter_map]
  rfl

theorem map_fst_setKey (dict : List (κ × β)) (entry : κ × β) :
    (dict.setKey entry).map Prod.fst =
      if entry.1 ∈ dict.map Prod.fst then dict.map Prod.fst else dict.map Prod.fst ++ [entry.1] := by
  unfold setKey
  split
  · rw [map_map]
    apply map_congr_left
    intro old _
    simp only [Function.comp_apply]
    split
    next heq => exact heq.symm
    next => rfl
  · rw [map_append, map_singleton]

theorem nodup_dropKey (h : (dict.map Prod.fst).Nodup) (key : κ) :
    ((dict.dropKey key).map Prod.fst).Nodup := by
  rw [map_fst_dropKey]
  exact h.filter _

theorem nodup_setKey (h : (dict.map Prod.fst).Nodup) (entry : κ × β) :
    ((dict.setKey entry).map Prod.fst).Nodup := by
  rw [map_fst_setKey]
  split
  · exact h
  next hnew => exact h.append (nodup_singleton _) (disjoint_singleton.mpr hnew)

theorem length_setKey_le (dict : List (κ × β)) (entry : κ × β) :
    (dict.setKey entry).length ≤ dict.length + 1 := by
  rw [← length_map (f := Prod.fst), map_fst_setKey]
  split <;> simp

theorem length_setKey_of_notMem (h : entry.1 ∉ dict.map Prod.fst) :
    (dict.setKey entry).length = dict.length + 1 := by
  rw [← length_map (f := Prod.fst), map_fst_setKey, if_neg h]
  simp

theorem length_dropKey_lt {key : κ} (h : key ∈ dict.map Prod.fst) :
    (dict.dropKey key).length < dict.length := by
  obtain ⟨old, hold, rfl⟩ := mem_map.mp h
  exact length_filter_lt_length_iff_exists.mpr ⟨old, hold, by simp⟩

theorem length_dropKey_le (dict : List (κ × β)) (key : κ) : (dict.dropKey key).length ≤ dict.length :=
  length_filter_le _ _

/-- The entry that is looked up under a key. -/
theorem find?_key (h : (dict.map Prod.fst).Nodup) {key : κ} :
    (dict.find? fun old => old.1 = key) = some entry ↔ entry ∈ dict ∧ entry.1 = key := by
  constructor
  · intro hfind
    exact ⟨mem_of_find?_eq_some hfind, by simpa using find?_some hfind⟩
  · rintro ⟨hmem, rfl⟩
    have hsome : (dict.find? fun old => old.1 = entry.1).isSome := by
      rw [find?_isSome]
      exact ⟨entry, hmem, by simp⟩
    obtain ⟨old, hold⟩ := Option.isSome_iff_exists.mp hsome
    have hkey := find?_some hold
    rw [hold, inj_on_of_nodup_map h (mem_of_find?_eq_some hold) hmem (by simpa using hkey)]

/-- The entries of the dictionary are the last pairs of the keys. -/
theorem mem_toDict : entry ∈ pairs.toDict ↔ pairs.IsLastOf Prod.fst entry := by
  induction pairs using reverseRecOn with
  | nil => simp [toDict, isLastOf_nil]
  | append_singleton pairs last ih =>
    rw [isLastOf_concat, ← ih, toDict, foldl_append, foldl_cons, foldl_nil, mem_setKey]
    rfl

end List
