import Mathlib.Data.List.Count

/-! # Texts with separators

A text is cut at a separator into parts that do not hold it. Two texts that go on after a first part
have the same first part once these hold equally many separators.
-/

namespace List

variable {α : Type*} [DecidableEq α] {sep : α}

/-- The parts of a text do not hold the separator. -/
theorem not_mem_of_mem_splitOn {xs part : List α} (h : part ∈ xs.splitOn sep) : sep ∉ part := by
  induction xs generalizing part with
  | nil => simp_all
  | cons x xs ih =>
    rw [splitOn_cons_eq_if_modifyHead] at h
    split at h
    · rcases mem_cons.mp h with rfl | htail
      · simp
      · exact ih htail
    · rename_i hsep
      obtain ⟨first, rest, hsplit⟩ := exists_cons_of_ne_nil (splitOn_ne_nil sep xs)
      rw [hsplit] at h ih
      rcases mem_cons.mp h with rfl | htail
      · have hne : x ≠ sep := by simpa using hsep
        exact not_mem_cons_of_ne_of_not_mem hne.symm (ih mem_cons_self)
      · exact ih (mem_cons_of_mem _ htail)

/-- The first parts of one text are the same when they hold equally many separators. -/
theorem append_cons_inj_of_count_eq {a b x y : List α} (hcount : a.count sep = b.count sep)
    (h : a ++ sep :: x = b ++ sep :: y) : a = b ∧ x = y := by
  induction a generalizing b with
  | nil =>
    cases b with
    | nil => exact ⟨rfl, (cons.inj h).2⟩
    | cons c b =>
      -- the other part starts with the separator, which this one does not hold
      obtain ⟨rfl, -⟩ := cons.inj h
      simp at hcount
  | cons c a ih =>
    cases b with
    | nil =>
      obtain ⟨rfl, -⟩ := cons.inj h
      simp at hcount
    | cons d b =>
      obtain ⟨rfl, htail⟩ := cons.inj h
      rw [count_cons, count_cons] at hcount
      obtain ⟨rfl, rfl⟩ := ih (by omega) htail
      exact ⟨rfl, rfl⟩

end List
