import Blurt.Protocol.Authority
import Mathlib.Data.List.Basic

/-! # Characters of account names -/

namespace Blurt

/-- The characters of account names. -/
def IsNameChar (c : Char) : Prop := isLetterOrDigit c = true ∨ c = '-' ∨ c = '.'

theorem isLetterOrDigit_of_isLowerLetter {c : Char} (h : isLowerLetter c = true) :
    isLetterOrDigit c = true := by
  simp [isLetterOrDigit, h]

theorem isNameChar_of_isValidLabel {label : List Char} (h : isValidLabel label = true) :
    ∀ c ∈ label, IsNameChar c := by
  simp only [isValidLabel, Bool.and_eq_true, decide_eq_true_eq, List.all_eq_true,
    Bool.or_eq_true] at h
  obtain ⟨⟨⟨hlength, hhead⟩, hlast⟩, hmiddle⟩ := h
  intro c hc
  cases label with
  | nil => cases hc
  | cons first rest =>
      rcases List.mem_cons.mp hc with rfl | hc
      · exact .inl (isLetterOrDigit_of_isLowerLetter (by simpa using hhead))
      · have hnil : rest ≠ [] := List.ne_nil_of_mem hc
        rw [← List.dropLast_append_getLast hnil] at hc
        rcases List.mem_append.mp hc with hc | hc
        · rcases hmiddle c hc with hletter | hdash
          · exact .inl hletter
          · exact .inr (.inl hdash)
        · rw [List.mem_singleton.mp hc]
          rw [List.getLast?_cons_of_ne_nil hnil, List.getLast?_eq_some_getLast hnil] at hlast
          exact .inl (by simpa using hlast)

theorem isNameChar_of_scanLabels {turns : Nat} {rest : List Char}
    (h : scanLabels turns rest = true) : ∀ c ∈ rest, IsNameChar c := by
  induction turns generalizing rest with
  | zero => cases h
  | succ turns ih =>
      simp only [scanLabels, Bool.and_eq_true, Bool.or_eq_true, decide_eq_true_eq] at h
      obtain ⟨hlabel, hrest⟩ := h
      have hchars := isNameChar_of_isValidLabel hlabel
      intro c hc
      rw [← List.takeWhile_append_dropWhile (p := (· ≠ '.')) (l := rest)] at hc
      rcases List.mem_append.mp hc with hc | hc
      · exact hchars c hc
      · rcases hrest with hlength | hrest
        · -- the label reaches the end
          have hdrop : (rest.dropWhile (· ≠ '.')).length = 0 := by
            have := congrArg List.length
              (List.takeWhile_append_dropWhile (p := (· ≠ '.')) (l := rest))
            rw [List.length_append] at this
            simp only [ne_eq] at hlength this ⊢
            omega
          rw [List.length_eq_zero_iff.mp hdrop] at hc
          cases hc
        · cases hdrop : rest.dropWhile (· ≠ '.') with
          | nil =>
              rw [hdrop] at hc
              cases hc
          | cons stop tail =>
              rw [hdrop] at hc
              have hstop : stop = '.' := by
                have := List.head?_dropWhile_not (· ≠ '.') rest
                rw [hdrop] at this
                simpa using this
              rcases List.mem_cons.mp hc with rfl | hc
              · exact .inr (.inr hstop)
              · apply ih hrest
                have hsplit : rest.drop ((rest.takeWhile (· ≠ '.')).length + 1) = tail := by
                  have hdropped := congrArg (List.drop (rest.takeWhile (· ≠ '.')).length)
                    (List.takeWhile_append_dropWhile (p := (· ≠ '.')) (l := rest))
                  rw [List.drop_left, hdrop] at hdropped
                  rw [← List.drop_drop, ← hdropped]
                  rfl
                rw [hsplit]
                exact hc

theorem isNameChar_of_isValidAccountName {name : AccountName}
    (h : isValidAccountName name = true) : ∀ c ∈ name.toList, IsNameChar c := by
  simp only [isValidAccountName, Bool.and_eq_true] at h
  exact isNameChar_of_scanLabels h.2

theorem length_of_isValidAccountName {name : AccountName} (h : isValidAccountName name = true) :
    3 ≤ name.length ∧ name.length ≤ 16 := by
  simp only [isValidAccountName, Bool.and_eq_true, decide_eq_true_eq] at h
  exact h.1

/-- Names are of visible characters below the letters with accents. -/
theorem toNat_of_isNameChar {c : Char} (h : IsNameChar c) : 45 ≤ c.toNat ∧ c.toNat < 128 := by
  rcases h with h | rfl | rfl
  · simp only [isLetterOrDigit, isLowerLetter, Bool.or_eq_true, Bool.and_eq_true,
      decide_eq_true_eq] at h
    rcases h with ⟨hlow, hhigh⟩ | ⟨hlow, hhigh⟩
    · have hlow : 97 ≤ c.toNat := hlow
      have hhigh : c.toNat ≤ 122 := hhigh
      omega
    · have hlow : 48 ≤ c.toNat := hlow
      have hhigh : c.toNat ≤ 57 := hhigh
      omega
  · decide
  · decide

/-- No name has an upper-case letter. -/
theorem not_isNameChar_upper {c : Char} (hlow : 65 ≤ c.toNat) (hhigh : c.toNat ≤ 90) :
    ¬ IsNameChar c := by
  rintro (h | rfl | rfl)
  · simp only [isLetterOrDigit, isLowerLetter, Bool.or_eq_true, Bool.and_eq_true,
      decide_eq_true_eq] at h
    rcases h with ⟨hletter, -⟩ | ⟨-, hdigit⟩
    · have hletter : 97 ≤ c.toNat := hletter
      omega
    · have hdigit : c.toNat ≤ 57 := hdigit
      omega
  · exact absurd hlow (by decide)
  · exact absurd hlow (by decide)

end Blurt
