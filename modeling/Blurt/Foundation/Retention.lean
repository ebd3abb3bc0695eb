import Mathlib.Data.List.Sort

/-! # Logs of which the front is dropped

Items of a log are stored under consecutive numbers. Old items at the front may be dropped, but the
newest ones are kept whatever their age.
-/

namespace Retention

universe u

variable {α : Type u}

/-- What is stored under the numbers from `base` on is the log without its first `dropped` items. The
dropped items are old, and at least `keep` items came after each. -/
structure Retained (stored : Nat → Option α) (base keep : Nat) (old : α → Prop) (log : List α)
    (dropped : Nat) : Prop where
  stored : ∀ s, stored s = if base + dropped ≤ s then log[s - base]? else none
  le : dropped ≤ log.length
  due : ∀ i x, i < dropped → log[i]? = some x → i + keep < log.length ∧ old x

variable {stored stored' : Nat → Option α} {base keep dropped : Nat} {old old' : α → Prop}
  {log : List α}

namespace Retained

/-- The stored numbers are consecutive, and the last is that of the newest item. -/
theorem isSome_iff (h : Retained stored base keep old log dropped) (s : Nat) :
    (stored s).isSome ↔ base + dropped ≤ s ∧ s < base + log.length := by
  rw [h.stored]
  split
  · rw [Option.isSome_iff_ne_none, Ne, List.getElem?_eq_none_iff]
    omega
  · simp only [Option.isSome_none, Bool.false_eq_true, false_iff]
    omega

/-- An item that is among the newest or not old is stored. -/
theorem kept (h : Retained stored base keep old log dropped) {i : Nat} {x : α}
    (hx : log[i]? = some x) (hkeep : log.length ≤ i + keep ∨ ¬ old x) :
    stored (base + i) = some x := by
  have hlater : dropped ≤ i := by
    by_contra hearlier
    obtain ⟨hcount, hold⟩ := h.due i x (by omega) hx
    rcases hkeep with hnew | hyoung
    · omega
    · exact hyoung hold
  rw [h.stored, if_pos (by omega), Nat.add_sub_cancel_left, hx]

/-- The newest item is not dropped. -/
theorem lt (h : Retained stored base keep old log dropped) (hkeep : 0 < keep) :
    dropped < log.length ∨ log = [] := by
  cases dropped with
  | zero => exact (Nat.eq_zero_or_pos log.length).symm.imp_right List.eq_nil_of_length_eq_zero
  | succ dropped =>
    have hle := h.le
    have hdue := (h.due dropped log[dropped] (by omega) (List.getElem?_eq_getElem (by omega))).1
    omega

theorem empty (base keep : Nat) (old : α → Prop) :
    Retained (fun _ => none) base keep old [] 0 where
  stored s := by simp
  le := Nat.le_refl _
  due i x hi := absurd hi (Nat.not_lt_zero i)

theorem mono (h : Retained stored base keep old log dropped) (hold : ∀ x, old x → old' x) :
    Retained stored base keep old' log dropped where
  stored := h.stored
  le := h.le
  due i x hi hx := ⟨(h.due i x hi hx).1, hold x (h.due i x hi hx).2⟩

/-- A new item gets the number after the newest. -/
theorem append (h : Retained stored base keep old log dropped) {x : α}
    (hstored : ∀ s, stored' s = if s = base + log.length then some x else stored s) :
    Retained stored' base keep old (log ++ [x]) dropped where
  stored s := by
    have hle := h.le
    rw [hstored, h.stored]
    by_cases hs : s = base + log.length
    · rw [if_pos hs, if_pos (by omega), hs, Nat.add_sub_cancel_left, List.getElem?_concat_length]
    · rw [if_neg hs]
      split
      · by_cases hlater : s < base + log.length
        · rw [List.getElem?_append_left (by omega)]
        · rw [List.getElem?_eq_none (by omega), List.getElem?_eq_none (by
            rw [List.length_append, List.length_singleton]
            omega)]
      · rfl
  le := by
    have hle := h.le
    rw [List.length_append]
    omega
  due i y hi hy := by
    have hle := h.le
    rw [List.getElem?_append_left (by omega)] at hy
    rw [List.length_append]
    have hdue := h.due i y hi hy
    exact ⟨by omega, hdue.2⟩

/-- More items are dropped from the front. -/
theorem drop (h : Retained stored base keep old log dropped) (count : Nat)
    (hcount : dropped + count ≤ log.length)
    (hstored : ∀ s, stored' s =
      if base + dropped ≤ s ∧ s < base + dropped + count then none else stored s)
    (hdue : ∀ i x, dropped ≤ i → i < dropped + count → log[i]? = some x →
      i + keep < log.length ∧ old x) :
    Retained stored' base keep old log (dropped + count) where
  stored s := by
    rw [hstored, h.stored]
    by_cases hs : base + dropped ≤ s ∧ s < base + dropped + count
    · rw [if_pos hs, if_neg (by omega)]
    · rw [if_neg hs]
      by_cases hlater : base + dropped ≤ s
      · rw [if_pos hlater, if_pos (by omega)]
      · rw [if_neg hlater, if_neg (by omega)]
  le := hcount
  due i x hi hx := by
    by_cases hearlier : i < dropped
    · exact h.due i x hearlier hx
    · exact hdue i x (by omega) hi hx

end Retained

/-! ## Rows in the order of their numbers -/

/-- Increasing numbers that fill an interval are its numbers in order. -/
theorem eq_range' {numbers : List Nat} (hsorted : numbers.Pairwise (· < ·)) {first count : Nat}
    (hmem : ∀ s, s ∈ numbers ↔ first ≤ s ∧ s < first + count) :
    numbers = List.range' first count := by
  have hrange : (List.range' first count).Pairwise (· < ·) := List.pairwise_lt_range'
  have hnodup : numbers.Nodup := hsorted.imp Nat.ne_of_lt
  have hperm : numbers.Perm (List.range' first count) := by
    rw [List.perm_ext_iff_of_nodup hnodup (hrange.imp Nat.ne_of_lt)]
    intro s
    rw [hmem, List.mem_range'_1]
  exact hperm.eq_of_pairwise (fun _ _ _ _ hab hba => absurd hab (Nat.lt_asymm hba)) hsorted hrange

/-- A front part of rows whose numbers fill an interval is numbered by the start of the interval. -/
theorem mem_take_range' {β : Type u} {rows front : List (Nat × β)} {first count : Nat}
    (hrows : rows.map Prod.fst = List.range' first count) (hfront : front <+: rows) (s : Nat) :
    s ∈ front.map Prod.fst ↔ first ≤ s ∧ s < first + front.length := by
  obtain ⟨rest, rfl⟩ := hfront
  have htake : front.map Prod.fst = List.range' first front.length := by
    have hlength := congrArg List.length hrows
    rw [List.length_map, List.length_append, List.length_range'] at hlength
    have hprefix := congrArg (List.take front.length) hrows
    rw [List.map_append, List.take_left' (by rw [List.length_map]), ← hlength,
      ← List.range'_append_1, List.take_left' (List.length_range' ..)] at hprefix
    exact hprefix
  rw [htake, List.mem_range'_1]

/-- The least of the rows is the first. -/
theorem eq_cons_of_least {β : Type u} {le : β → β → Prop} {rows : List β} {row : β}
    (hsorted : rows.Pairwise le) (hrow : row ∈ rows) (hleast : ∀ other ∈ rows, le row other)
    (hanti : ∀ other ∈ rows, le other row → le row other → other = row) :
    ∃ rest, rows = row :: rest := by
  cases rows with
  | nil => cases hrow
  | cons first rest =>
    rcases List.mem_cons.mp hrow with rfl | hlater
    · exact ⟨rest, rfl⟩
    · have hfirst := (List.pairwise_cons.mp hsorted).1 row hlater
      exact ⟨rest, by rw [hanti first List.mem_cons_self hfirst (hleast first List.mem_cons_self)]⟩

end Retention
