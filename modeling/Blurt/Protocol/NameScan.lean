import Blurt.Protocol.AccountName
import Mathlib.Data.List.TakeWhile
import Mathlib.Algebra.Group.Nat.Defs

/-! # The scan of account names

`is_valid_account_name` reads characters at computed indexes. Its reads are inside of the name, and
what it accepts are the names whose labels between the dots are valid.
-/

namespace Blurt

namespace NameScan

/-- `find_first_of( '.', begin )`, or the length of the name. -/
def findDot (name : List Char) (start : Nat) : Nat :=
  start + ((name.drop start).takeWhile (· ≠ '.')).length

/-- The `for` loop over `count` characters from an index on. A read outside of the name is `none`. -/
def scanMiddle (name : List Char) : (count i : Nat) → Option Bool
  | 0, _ => some true
  | count + 1, i => do
    let c ← name[i]?
    if isLetterOrDigit c || c = '-' then scanMiddle name count (i + 1) else some false

/-- The `while` loop. Differences are those of `size_t`. -/
def scan (name : List Char) : (turns start : Nat) → Option Bool
  | 0, _ => none
  | turns + 1, start => do
    let stop := findDot name start
    if (stop + 2 ^ 64 - start) % 2 ^ 64 < 3 then
      some false
    else
      let first ← name[start]?
      if !isLowerLetter first then
        some false
      else
        let last ← name[stop - 1]?
        if !isLetterOrDigit last then
          some false
        else
          let middle ← scanMiddle name (stop - 1 - (start + 1)) (start + 1)
          if !middle then some false
          else if stop = name.length then some true
          else scan name turns (stop + 1)

/-- `is_valid_account_name`, with its reads. -/
def isValidAccountName (name : List Char) : Option Bool :=
  if name.length < blurtMinAccountNameLength then some false
  else if blurtMaxAccountNameLength < name.length then some false
  else scan name (name.length + 1) 0

variable {name : List Char}

/-! ## Reads -/

theorem scanMiddle_eq (count i : Nat) (h : i + count ≤ name.length) :
    scanMiddle name count i =
      some (((name.drop i).take count).all fun c => isLetterOrDigit c || c = '-') := by
  induction count generalizing i with
  | zero => rfl
  | succ count ih =>
    have hlt : i < name.length := by omega
    unfold scanMiddle
    rw [List.getElem?_eq_getElem hlt, List.drop_eq_getElem_cons hlt, List.take_succ_cons,
      List.all_cons]
    dsimp only [Option.bind_eq_bind, Option.bind_some]
    split
    · rename_i hchar
      rw [ih (i + 1) (by omega), hchar, Bool.true_and]
    · rename_i hchar
      rw [Bool.not_eq_true] at hchar
      rw [hchar, Bool.false_and]

/-- The label from an index on. -/
def labelAt (name : List Char) (start : Nat) : List Char := (name.drop start).takeWhile (· ≠ '.')

theorem length_labelAt_le (name : List Char) (start : Nat) :
    (labelAt name start).length ≤ name.length - start := by
  have hle := (List.takeWhile_prefix (l := name.drop start) (· ≠ '.')).length_le
  rwa [List.length_drop] at hle

/-- What is left of a name at an index starts with the label. -/
theorem drop_eq_labelAt_append (name : List Char) (start : Nat) :
    ∃ rest, name.drop start = labelAt name start ++ rest := by
  obtain ⟨rest, hrest⟩ : labelAt name start <+: name.drop start := List.takeWhile_prefix _
  exact ⟨rest, hrest.symm⟩

theorem getElem?_labelAt {start i : Nat} (h : i < (labelAt name start).length) :
    name[start + i]? = (labelAt name start)[i]? := by
  obtain ⟨rest, hrest⟩ := drop_eq_labelAt_append name start
  rw [← List.getElem?_drop, hrest, List.getElem?_append_left h]

/-- The inside of a label. -/
theorem take_drop_eq_inside (name : List Char) (start : Nat) :
    (name.drop (start + 1)).take ((labelAt name start).length - 2) =
      (labelAt name start).tail.dropLast := by
  obtain ⟨rest, hrest⟩ := drop_eq_labelAt_append name start
  rw [← List.tail_drop, hrest, List.dropLast_eq_take, List.length_tail]
  cases labelAt name start with
  | nil => rfl
  | cons first label =>
    rw [List.cons_append, List.tail_cons, List.tail_cons, List.length_cons, List.take_append_of_le_length
      (by omega)]
    rfl

/-! ## The scan -/

/-- The scan goes like the one over what is left of the name. -/
theorem scan_eq (turns start : Nat) (hroom : name.length < 2 ^ 64) (hstart : start ≤ name.length)
    (hturns : name.length - start < turns) :
    scan name turns start = some (scanLabels turns (name.drop start)) := by
  induction turns generalizing start with
  | zero => exact absurd hturns (Nat.not_lt_zero _)
  | succ turns ih =>
    have hle := length_labelAt_le name start
    have hstop : findDot name start = start + (labelAt name start).length := rfl
    have hdifference : (findDot name start + 2 ^ 64 - start) % 2 ^ 64 =
        (labelAt name start).length := by
      rw [hstop]
      omega
    have hlabel : (name.drop start).takeWhile (· ≠ '.') = labelAt name start := rfl
    unfold scan scanLabels
    dsimp only
    rw [hdifference, hlabel]
    by_cases hshort : (labelAt name start).length < 3
    · have hinvalid : isValidLabel (labelAt name start) = false := by
        unfold isValidLabel
        rw [decide_eq_false (by omega), Bool.false_and, Bool.false_and, Bool.false_and]
      rw [if_pos hshort, hinvalid, Bool.false_and]
    · obtain ⟨first, hfirst⟩ : ∃ first, (labelAt name start)[0]? = some first :=
        ⟨_, List.getElem?_eq_getElem (by omega)⟩
      obtain ⟨last, hlast⟩ : ∃ last,
          (labelAt name start)[(labelAt name start).length - 1]? = some last :=
        ⟨_, List.getElem?_eq_getElem (by omega)⟩
      have hreadFirst : name[start]? = some first := by
        rw [← hfirst, ← getElem?_labelAt (by omega), Nat.add_zero]
      have hreadLast : name[findDot name start - 1]? = some last := by
        rw [← hlast, ← getElem?_labelAt (by omega), hstop, Nat.add_sub_assoc (by omega)]
      have hreadMiddle : scanMiddle name (findDot name start - 1 - (start + 1)) (start + 1) =
          some ((labelAt name start).tail.dropLast.all fun c => isLetterOrDigit c || c = '-') := by
        rw [scanMiddle_eq _ _ (by omega), ← take_drop_eq_inside, hstop]
        congr 3
        omega
      have hvalid : isValidLabel (labelAt name start) = (isLowerLetter first &&
          isLetterOrDigit last && (labelAt name start).tail.dropLast.all fun c =>
            isLetterOrDigit c || c = '-') := by
        unfold isValidLabel
        rw [decide_eq_true (by omega), List.head?_eq_getElem?, hfirst, List.getLast?_eq_getElem?,
          hlast, Bool.true_and, Option.any_some, Option.any_some]
      rw [if_neg hshort, hreadFirst, hreadLast, hreadMiddle, hvalid]
      dsimp only [Option.bind_eq_bind, Option.bind_some]
      cases isLowerLetter first with
      | false => rfl
      | true =>
        cases isLetterOrDigit last with
        | false => rfl
        | true =>
          cases (labelAt name start).tail.dropLast.all fun c => isLetterOrDigit c || c = '-' with
          | false => rfl
          | true =>
            -- the label is valid, and the scan goes on unless it reaches the end
            have hreaches : findDot name start = name.length ↔
                (labelAt name start).length = (name.drop start).length := by
              rw [hstop, List.length_drop]
              omega
            by_cases hend : findDot name start = name.length
            · rw [if_neg (by decide), if_pos hend, decide_eq_true (hreaches.mp hend)]
              rfl
            · rw [if_neg (by decide), if_neg hend, decide_eq_false (mt hreaches.mpr hend),
                ih _ (by omega) (by omega), List.drop_drop, hstop]
              rfl

theorem isValidAccountName_eq (name : AccountName) :
    isValidAccountName name.toList = some (Blurt.isValidAccountName name) := by
  unfold isValidAccountName Blurt.isValidAccountName
  rw [String.length_toList]
  by_cases hmin : name.length < blurtMinAccountNameLength
  · rw [if_pos hmin, decide_eq_false (by omega), Bool.false_and, Bool.false_and]
  · rw [if_neg hmin, decide_eq_true (by omega), Bool.true_and]
    by_cases hmax : blurtMaxAccountNameLength < name.length
    · rw [if_pos hmax, decide_eq_false (by omega), Bool.false_and]
    · have hroom : name.toList.length < 2 ^ 64 := by
        unfold blurtMaxAccountNameLength at hmax
        rw [String.length_toList]
        omega
      rw [if_neg hmax, decide_eq_true (by omega), Bool.true_and, scan_eq _ _ hroom (Nat.zero_le _)
        (by rw [String.length_toList]; omega), List.drop_zero]

/-! ## The accepted names -/

/-- A label: a letter, then letters, digits and hyphens, and a letter or a digit at the end. -/
structure IsLabel (label : List Char) : Prop where
  length : 3 ≤ label.length
  first : ∀ c ∈ label.head?, isLowerLetter c
  last : ∀ c ∈ label.getLast?, isLetterOrDigit c
  inside : ∀ c ∈ label.tail.dropLast, isLetterOrDigit c ∨ c = '-'

theorem isValidLabel_iff (label : List Char) : isValidLabel label = true ↔ IsLabel label := by
  unfold isValidLabel
  simp only [Bool.and_eq_true, decide_eq_true_eq, List.all_eq_true, Bool.or_eq_true]
  constructor
  · rintro ⟨⟨⟨hlength, hfirst⟩, hlast⟩, hinside⟩
    refine ⟨hlength, fun c hc => ?_, fun c hc => ?_, hinside⟩
    · rw [Option.mem_def.mp hc] at hfirst
      exact hfirst
    · rw [Option.mem_def.mp hc] at hlast
      exact hlast
  · rintro ⟨hlength, hfirst, hlast, hinside⟩
    have hnil : label ≠ [] := List.ne_nil_of_length_pos (by omega)
    rw [List.head?_eq_some_head hnil] at hfirst ⊢
    rw [List.getLast?_eq_some_getLast hnil] at hlast ⊢
    exact ⟨⟨⟨hlength, hfirst _ rfl⟩, hlast _ rfl⟩, hinside⟩

theorem scanLabels_iff (turns : Nat) (rest : List Char) (hturns : rest.length < turns) :
    scanLabels turns rest = true ↔ ∀ label ∈ rest.splitOn '.', IsLabel label := by
  induction turns generalizing rest with
  | zero => exact absurd hturns (Nat.not_lt_zero _)
  | succ turns ih =>
    unfold scanLabels
    dsimp only
    have hnodot : '.' ∉ rest.takeWhile (· ≠ '.') := fun hin => by
      simpa using List.mem_takeWhile_imp hin
    have hjoin : rest.takeWhile (· ≠ '.') ++ rest.dropWhile (· ≠ '.') = rest :=
      List.takeWhile_append_dropWhile
    generalize rest.takeWhile (· ≠ '.') = label at hnodot hjoin ⊢
    have hstop : ∀ c ∈ (rest.dropWhile (· ≠ '.')).head?, c = '.' := fun c hc => by
      have hhead := List.head?_dropWhile_not (· ≠ '.') rest
      rw [Option.mem_def.mp hc] at hhead
      simpa using hhead
    rw [Bool.and_eq_true, isValidLabel_iff, Bool.or_eq_true, decide_eq_true_eq]
    cases hrest : rest.dropWhile (· ≠ '.') with
    | nil =>
      rw [hrest, List.append_nil] at hjoin
      rw [← hjoin, List.splitOn_eq_singleton hnodot]
      simp
    | cons dot tail =>
      obtain rfl : dot = '.' := hstop dot (by rw [hrest]; rfl)
      rw [hrest] at hjoin
      have hlength := congrArg List.length hjoin
      rw [List.length_append, List.length_cons] at hlength
      have hdrop : rest.drop (label.length + 1) = tail := by
        rw [← hjoin, ← List.drop_drop, List.drop_left]
        rfl
      rw [hdrop, ih tail (by omega), ← hjoin,
        List.splitOn_append_cons_self_of_not_mem hnodot, List.forall_mem_cons,
        or_iff_right (by rw [List.length_append, List.length_cons]; omega)]

theorem accepts_iff (name : AccountName) : Blurt.isValidAccountName name = true ↔
    3 ≤ name.length ∧ name.length ≤ 16 ∧ ∀ label ∈ name.toList.splitOn '.', IsLabel label := by
  unfold Blurt.isValidAccountName
  rw [Bool.and_eq_true, Bool.and_eq_true, decide_eq_true_eq, decide_eq_true_eq,
    scanLabels_iff _ _ (by rw [String.length_toList]; omega), and_assoc]
  rfl

/-- The reads of `is_valid_account_name` are inside of the name, and it accepts the names of 3 to 16
characters whose labels between the dots are valid. -/
theorem isValidAccountName_spec (name : AccountName) :
    (isValidAccountName name.toList).isSome ∧
      (isValidAccountName name.toList = some true ↔
        3 ≤ name.length ∧ name.length ≤ 16 ∧ ∀ label ∈ name.toList.splitOn '.', IsLabel label) := by
  rw [isValidAccountName_eq name]
  refine ⟨rfl, ?_⟩
  rw [Option.some.injEq, accepts_iff]

theorem IsLabel.no_dot {label : List Char} (h : IsLabel label) : '.' ∉ label := by
  obtain ⟨hlength, hfirst, hlast, hinside⟩ := h
  cases label with
  | nil => exact List.not_mem_nil
  | cons first rest =>
    have hrest : rest ≠ [] := List.ne_nil_of_length_pos (by rw [List.length_cons] at hlength; omega)
    rw [List.getLast?_cons_of_ne_nil hrest, List.getLast?_eq_some_getLast hrest] at hlast
    rw [← List.dropLast_append_getLast hrest, List.mem_cons, List.mem_append, List.mem_singleton]
    rintro (hdot | hdot | hdot)
    · have hletter := hfirst first rfl
      rw [← hdot] at hletter
      exact absurd hletter (by decide)
    · exact absurd (hinside '.' hdot) (by decide)
    · have hend := hlast _ rfl
      rw [← hdot] at hend
      exact absurd hend (by decide)

/-- A name is accepted if it is one label, or several with a dot between two of them, and has 3 to
16 characters. -/
theorem accepts_iff_joined (name : List Char) :
    ∃ answer, isValidAccountName name = some answer ∧ (answer = true ↔
      3 ≤ name.length ∧ name.length ≤ 16 ∧
        ∃ labels, labels ≠ [] ∧ name = ['.'].intercalate labels ∧ ∀ label ∈ labels, IsLabel label) := by
  have hscan := isValidAccountName_eq (String.ofList name)
  have haccepts := accepts_iff (String.ofList name)
  rw [String.toList_ofList] at hscan haccepts
  rw [String.length_ofList] at haccepts
  refine ⟨_, hscan, haccepts.trans (and_congr_right fun _ => and_congr_right fun _ => ?_)⟩
  constructor
  · intro hlabels
    exact ⟨name.splitOn '.', List.splitOn_ne_nil _ _, (List.intercalate_splitOn '.').symm, hlabels⟩
  · rintro ⟨labels, hne, rfl, hlabels⟩
    rwa [List.splitOn_intercalate '.' (fun label hlabel => (hlabels label hlabel).no_dot) hne]

end NameScan

end Blurt
