import Mathlib.Data.List.Pairwise

/-! # Pages of descending numbers

A client reads numbered items from the greatest number down: a page is the first items at or below a
start, and the next page starts below the least number of the last one.
-/

namespace Descending

/-- The numbers at or below a start. -/
def below (numbers : List Nat) (start : Nat) : List Nat := numbers.filter fun s => s ≤ start

/-- The greatest `limit` numbers at or below a start. -/
def page (numbers : List Nat) (start limit : Nat) : List Nat := (below numbers start).take limit

variable {numbers : List Nat} {start limit : Nat}

theorem mem_below {s : Nat} : s ∈ below numbers start ↔ s ∈ numbers ∧ s ≤ start := by
  simp [below]

theorem below_sorted (h : numbers.Pairwise (· > ·)) (start : Nat) :
    (below numbers start).Pairwise (· > ·) :=
  h.filter _

theorem below_eq_self (h : ∀ s ∈ numbers, s ≤ start) : below numbers start = numbers :=
  List.filter_eq_self.mpr fun s hs => decide_eq_true (h s hs)

theorem below_eq_nil_iff : below numbers start = [] ↔ ∀ s ∈ numbers, start < s := by
  simp [below, List.filter_eq_nil_iff]

/-- The numbers down from a lower start. -/
theorem below_below {lower : Nat} (h : lower ≤ start) :
    below (below numbers start) lower = below numbers lower := by
  unfold below
  rw [List.filter_filter]
  congr 1
  funext s
  by_cases hs : s ≤ lower
  · simp [hs, Nat.le_trans hs h]
  · simp [hs]

theorem below_append (front rest : List Nat) :
    below (front ++ rest) start = below front start ++ below rest start :=
  List.filter_append ..

/-- Descending numbers are those above a bound and then those at or below it. -/
theorem above_append_below (h : numbers.Pairwise (· > ·)) (bound : Nat) :
    (numbers.filter fun s => bound < s) ++ below numbers bound = numbers := by
  induction numbers with
  | nil => rfl
  | cons first rest ih =>
    obtain ⟨hfirst, hrest⟩ := List.pairwise_cons.mp h
    by_cases hs : bound < first
    · have hbelow : below (first :: rest) bound = below rest bound :=
        List.filter_cons_of_neg (by simpa using hs)
      rw [List.filter_cons_of_pos (by simpa using hs), hbelow, List.cons_append, ih hrest]
    · have hnone : (first :: rest).filter (fun s => bound < s) = [] := by
        rw [List.filter_eq_nil_iff]
        intro s hin
        have hle : s ≤ first := by
          rcases List.mem_cons.mp hin with rfl | hin
          · exact Nat.le_refl _
          · exact Nat.le_of_lt (hfirst s hin)
        simp only [decide_eq_true_eq]
        omega
      have hall : ∀ s ∈ first :: rest, s ≤ bound := fun s hin => by
        have hs := List.filter_eq_nil_iff.mp hnone s hin
        simp only [decide_eq_true_eq] at hs
        omega
      rw [hnone, below_eq_self hall, List.nil_append]

/-! ## Walking back -/

/-- What is left when a page has been read, from below its least number on. -/
theorem page_append_below (h : numbers.Pairwise (· > ·)) {least : Nat}
    (hleast : (page numbers start limit).getLast? = some (least + 1)) :
    page numbers start limit ++ below numbers least = below numbers start := by
  have hmem : least + 1 ∈ page numbers start limit := List.mem_of_getLast? hleast
  have hsplit : page numbers start limit ++ (below numbers start).drop limit =
      below numbers start := List.take_append_drop limit _
  have hstart : least ≤ start :=
    Nat.le_of_succ_le (mem_below.mp ((List.take_subset _ _) hmem)).2
  have hsorted := below_sorted h start
  rw [← hsplit, List.pairwise_append] at hsorted
  -- a page does not go below its last number, and what follows does
  have hpage : below (page numbers start limit) least = [] := by
    rw [below_eq_nil_iff]
    intro s hs
    obtain ⟨front, hfront⟩ := List.getLast?_eq_some_iff.mp hleast
    rw [hfront] at hs
    have hdescending := hsorted.1
    rw [hfront, List.pairwise_append] at hdescending
    rcases List.mem_append.mp hs with hin | hin
    · have hgt := hdescending.2.2 s hin (least + 1) (List.mem_singleton_self _)
      omega
    · rw [List.mem_singleton.mp hin]
      exact Nat.lt_succ_self _
  have hrest : below ((below numbers start).drop limit) least = (below numbers start).drop limit :=
    below_eq_self fun s hs => Nat.le_of_lt_succ (hsorted.2.2 _ hmem s hs)
  rw [← below_below hstart, ← hsplit]
  rw [below_append, hpage, hrest, List.nil_append]

/-- The last page goes down to zero. -/
theorem page_eq_below (h : numbers.Pairwise (· > ·))
    (hleast : (page numbers start limit).getLast? = some 0) :
    page numbers start limit = below numbers start := by
  have hsplit : page numbers start limit ++ (below numbers start).drop limit =
      below numbers start := List.take_append_drop limit _
  have hsorted := below_sorted h start
  rw [← hsplit, List.pairwise_append] at hsorted
  have hnone : (below numbers start).drop limit = [] :=
    List.eq_nil_iff_forall_not_mem.mpr fun s hs =>
      Nat.not_lt_zero s (hsorted.2.2 0 (List.mem_of_getLast? hleast) s hs)
  rw [← hsplit, hnone, List.append_nil]

/-- Calls back from a start, with their limits: each page starts below the least number of the one
before. The last start is left, if the last number was not zero. -/
inductive Walk {α : Type*} (get : (start limit : Nat) → Except String (List (Nat × α)))
    (meets : (start limit : Nat) → Prop) :
    Nat → List (Nat × List (Nat × α)) → Option Nat → Prop
  | done (start : Nat) : Walk get meets start [] (some start)
  | last {start limit : Nat} {items : List (Nat × α)} (hget : get start limit = .ok items)
      (hmeets : meets start limit) (hleast : (items.map Prod.fst).getLast? = some 0) :
      Walk get meets start [(limit, items)] none
  | next {start limit least : Nat} {last : Option Nat} {items : List (Nat × α)}
      {pages : List (Nat × List (Nat × α))} (hget : get start limit = .ok items)
      (hmeets : meets start limit) (hleast : (items.map Prod.fst).getLast? = some (least + 1))
      (hrest : Walk get meets least pages last) : Walk get meets start ((limit, items) :: pages) last

/-- The numbers that a walk has not come to. -/
def left (numbers : List Nat) : Option Nat → List Nat
  | some start => below numbers start
  | none => []

/-- If every call gives a page, a walk back sees every number once. -/
theorem pages_of_walk {α : Type*} {get : (start limit : Nat) → Except String (List (Nat × α))}
    {meets : (start limit : Nat) → Prop} (hsorted : numbers.Pairwise (· > ·))
    (hpage : ∀ start limit items, get start limit = .ok items → meets start limit →
      items.map Prod.fst = page numbers start limit) {last : Option Nat}
    {pages : List (Nat × List (Nat × α))} (h : Walk get meets start pages last) :
    (pages.flatMap fun page => page.2.map Prod.fst) ++ left numbers last = below numbers start ∧
      ∀ page ∈ pages, page.2.length ≤ page.1 := by
  have hlength : ∀ start limit items, get start limit = .ok items → meets start limit →
      items.length ≤ limit := by
    intro start limit items hget hmeets
    have hcount := congrArg List.length (hpage start limit items hget hmeets)
    rw [List.length_map] at hcount
    rw [hcount]
    exact List.length_take_le _ _
  induction h with
  | done start => exact ⟨rfl, fun page hin => absurd hin List.not_mem_nil⟩
  | last hget hmeets hleast =>
    have hitems := hpage _ _ _ hget hmeets
    rw [hitems] at hleast
    constructor
    · rw [List.flatMap_singleton, hitems, page_eq_below hsorted hleast]
      exact List.append_nil _
    · intro page hin
      rw [List.mem_singleton.mp hin]
      exact hlength _ _ _ hget hmeets
  | next hget hmeets hleast hrest ih =>
    have hitems := hpage _ _ _ hget hmeets
    rw [hitems] at hleast
    constructor
    · rw [List.flatMap_cons, List.append_assoc, ih.1, hitems, page_append_below hsorted hleast]
    · intro page hin
      rcases List.mem_cons.mp hin with rfl | hin
      · exact hlength _ _ _ hget hmeets
      · exact ih.2 page hin

/-! ## Other pages -/

/-- The first numbers of a rest are a page of all only if nothing comes before the rest. -/
theorem take_eq_take_append_iff {skipped rest : List Nat} {count : Nat}
    (h : (skipped ++ rest).Pairwise (· > ·)) (hlimit : 0 < limit) (hcount : rest ≠ [] → 0 < count) :
    rest.take count = (skipped ++ rest).take limit ↔
      skipped = [] ∧ min count rest.length = min limit rest.length := by
  cases skipped with
  | nil => rw [List.nil_append, List.take_eq_take_iff, and_iff_right rfl]
  | cons first skipped =>
    refine iff_of_false (fun heq => ?_) fun hboth => List.cons_ne_nil _ _ hboth.1
    have hhead := congrArg List.head? heq
    rw [List.head?_take, List.head?_take, if_neg (Nat.ne_of_gt hlimit), List.cons_append,
      List.head?_cons] at hhead
    cases rest with
    | nil => simp at hhead
    | cons next rest =>
      rw [if_neg (Nat.ne_of_gt (hcount (List.cons_ne_nil _ _))), List.head?_cons] at hhead
      have hgt := (List.pairwise_append.mp h).2.2 first List.mem_cons_self next List.mem_cons_self
      exact Nat.ne_of_gt hgt (Option.some.inj hhead).symm

/-- The numbers at or below a start that are above a lower one, and the others. -/
theorem between_append_below (h : numbers.Pairwise (· > ·)) {lower : Nat} (hlower : lower ≤ start) :
    ((below numbers start).filter fun s => lower < s) ++ below numbers lower =
      below numbers start := by
  have hsplit := above_append_below (below_sorted h start) lower
  rwa [below_below hlower] at hsplit

theorem between_eq_nil_iff {lower : Nat} :
    (below numbers start).filter (fun s => lower < s) = [] ↔
      ∀ s ∈ numbers, s ≤ start → s ≤ lower := by
  rw [List.filter_eq_nil_iff]
  constructor
  · intro h s hs hle
    simpa using h s (mem_below.mpr ⟨hs, hle⟩)
  · intro h s hs
    obtain ⟨hin, hle⟩ := mem_below.mp hs
    simpa using h s hin hle

/-- A page from a lower start is the page of the start if both have the same numbers below. -/
theorem page_eq_page_iff (h : numbers.Pairwise (· > ·)) {lower : Nat} (hlower : lower ≤ start) :
    page numbers lower limit = page numbers start limit ↔
      limit = 0 ∨ ∀ s ∈ numbers, s ≤ start → s ≤ lower := by
  rcases Nat.eq_zero_or_pos limit with rfl | hlimit
  · simp [page]
  · have hsorted := below_sorted h start
    rw [← between_append_below h hlower] at hsorted
    unfold page
    rw [← between_append_below h hlower,
      take_eq_take_append_iff hsorted hlimit fun _ => hlimit, between_eq_nil_iff]
    simp only [and_true]
    exact ⟨Or.inr, fun hor => hor.resolve_left (Nat.ne_of_gt hlimit)⟩

/-- The numbers above a bound, and the first one at or below it. -/
def walkedTo (numbers : List Nat) (bound : Nat) : List Nat :=
  (numbers.filter fun s => bound < s) ++ (below numbers bound).take 1

theorem walkedTo_eq_take (h : numbers.Pairwise (· > ·)) (bound : Nat) :
    walkedTo numbers bound = numbers.take ((numbers.filter fun s => bound < s).length + 1) :=
  calc walkedTo numbers bound
      = ((numbers.filter fun s => bound < s) ++ below numbers bound).take
          ((numbers.filter fun s => bound < s).length + 1) := by
        rw [List.take_length_add_append]
        rfl
    _ = numbers.take ((numbers.filter fun s => bound < s).length + 1) := by
        rw [above_append_below h]

/-- The limit allows one number more than those above the greatest one less the limit, or there is
no more number. -/
def OneMore (numbers : List Nat) (limit : Nat) : Prop :=
  min ((numbers.filter fun s => numbers.headD 0 - limit < s).length + 1) numbers.length =
    min limit numbers.length

theorem oneMore_nil (limit : Nat) : OneMore [] limit := by
  simp [OneMore]

/-- A walk from a lower start that gives one more number is the page of the start only if both have
the same numbers below and the limit allows it. -/
theorem walk_eq_page_iff (h : numbers.Pairwise (· > ·)) {lower : Nat} (hlower : lower ≤ start) :
    (below numbers lower).take (((below numbers lower).filter fun s =>
      (below numbers lower).headD 0 - limit < s).length + 1) = page numbers start limit ↔
    if limit = 0 then below numbers lower = []
    else (∀ s ∈ numbers, s ≤ start → s ≤ lower) ∧ OneMore (below numbers start) limit := by
  split
  · rename_i hlimit
    rw [hlimit]
    simp [page, List.take_eq_nil_iff]
  · rename_i hlimit
    have hsorted := below_sorted h start
    have hsplit := between_append_below h hlower
    rw [← hsplit] at hsorted
    unfold page
    rw [← hsplit, take_eq_take_append_iff hsorted (Nat.pos_of_ne_zero hlimit)
      fun _ => Nat.succ_pos _, between_eq_nil_iff]
    refine and_congr_right fun hsame => ?_
    rw [between_eq_nil_iff.mpr hsame, List.nil_append]
    rfl

end Descending
