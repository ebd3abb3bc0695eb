import Blurt.Foundation.Outcome

/-! # Paging

A client enumerates items block by block: each call takes a range of blocks and says where the next
range with items begins, or that there is none, which is zero. If every answer is the first block
with an item from the end of the range on, the pages are all items from the first block on.
-/

namespace Paging

universe u

variable {α : Type u}

section Calls

variable (call : (rangeBegin rangeEnd : Nat) → Except String (List α × Nat)) (length : Nat)

/-- The calls from a block on until the answer is zero, and the items of all of them. -/
inductive Pages : Nat → List α → Prop
  | last {rangeBegin : Nat} {items : List α}
      (hcall : call rangeBegin (rangeBegin + length) = .ok (items, 0)) : Pages rangeBegin items
  | next {rangeBegin following : Nat} {items rest : List α}
      (hcall : call rangeBegin (rangeBegin + length) = .ok (items, following))
      (hfollowing : following ≠ 0) (hrest : Pages following rest) :
      Pages rangeBegin (items ++ rest)

/-- A call from a block is made when the paging starts at another. -/
inductive Called (start : Nat) : Nat → Prop
  | start : Called start start
  | next {rangeBegin following : Nat} {items : List α} (hcalled : Called start rangeBegin)
      (hcall : call rangeBegin (rangeBegin + length) = .ok (items, following))
      (hfollowing : following ≠ 0) : Called start following

end Calls

section Items

variable (block : α → Nat) (items : List α)

/-- The items from one block on. -/
def itemsFrom (rangeBegin : Nat) : List α := items.filter fun x => rangeBegin ≤ block x

/-- The items of a range. -/
def page (rangeBegin rangeEnd : Nat) : List α :=
  items.filter fun x => rangeBegin ≤ block x ∧ block x < rangeEnd

/-- The least block with an item from `rangeEnd` on, or zero. -/
def nextBlock (rangeEnd : Nat) : Nat := (((itemsFrom block items rangeEnd).head?).map block).getD 0

variable {block items} {rangeBegin rangeEnd length : Nat}

theorem mem_itemsFrom {x : α} :
    x ∈ itemsFrom block items rangeBegin ↔ x ∈ items ∧ rangeBegin ≤ block x := by
  simp [itemsFrom]

theorem nextBlock_eq_zero (h : itemsFrom block items rangeEnd = []) :
    nextBlock block items rangeEnd = 0 := by
  rw [nextBlock, h]
  rfl

/-- The answer is the least block from the end of the range on that has an item. -/
theorem nextBlock_spec (hsorted : items.Pairwise fun x y => block x ≤ block y)
    (h : itemsFrom block items rangeEnd ≠ []) :
    (∃ x ∈ items, block x = nextBlock block items rangeEnd) ∧
      rangeEnd ≤ nextBlock block items rangeEnd ∧
        ∀ x ∈ items, rangeEnd ≤ block x → nextBlock block items rangeEnd ≤ block x := by
  obtain ⟨first, rest, hfirst⟩ := List.exists_cons_of_ne_nil h
  have hnext : nextBlock block items rangeEnd = block first := by
    rw [nextBlock, hfirst]
    rfl
  obtain ⟨hmem, hge⟩ := mem_itemsFrom.mp (hfirst ▸ List.mem_cons_self)
  rw [hnext]
  refine ⟨⟨first, hmem, rfl⟩, hge, fun x hx hxge => ?_⟩
  have hpairs : (first :: rest).Pairwise fun x y => block x ≤ block y :=
    hfirst ▸ hsorted.sublist List.filter_sublist
  rcases List.mem_cons.mp (hfirst ▸ mem_itemsFrom.mpr ⟨hx, hxge⟩) with rfl | hrest
  · exact Nat.le_refl _
  · exact (List.pairwise_cons.mp hpairs).1 x hrest

/-- The items from a block on are a page and what follows it. -/
theorem itemsFrom_eq_page_append (hsorted : items.Pairwise fun x y => block x ≤ block y)
    (hrange : rangeBegin ≤ rangeEnd) :
    itemsFrom block items rangeBegin =
      page block items rangeBegin rangeEnd ++ itemsFrom block items rangeEnd := by
  unfold itemsFrom page
  induction items with
  | nil => rfl
  | cons x rest ih =>
      obtain ⟨hfirst, hrest⟩ := List.pairwise_cons.mp hsorted
      have ih := ih hrest
      by_cases hbegin : rangeBegin ≤ block x
      · by_cases hend : block x < rangeEnd
        · simp [hbegin, hend, ih, Nat.not_le.mpr hend]
        · have hempty : rest.filter (fun y => rangeBegin ≤ block y ∧ block y < rangeEnd) = [] := by
            rw [List.filter_eq_nil_iff]
            intro y hy hpage
            have hlater := hfirst y hy
            simp only [decide_eq_true_eq] at hpage
            omega
          rw [hempty, List.nil_append] at ih
          rw [List.filter_cons_of_pos (by simpa using hbegin), List.filter_cons_of_neg (by simp [hend]),
            List.filter_cons_of_pos (by simpa using hend), hempty, List.nil_append, ih]
      · have hend : ¬ rangeEnd ≤ block x := by omega
        simp [hbegin, hend, ih]

theorem itemsFrom_nextBlock (hsorted : items.Pairwise fun x y => block x ≤ block y)
    (h : itemsFrom block items rangeEnd ≠ []) :
    itemsFrom block items (nextBlock block items rangeEnd) = itemsFrom block items rangeEnd := by
  obtain ⟨-, hge, hleast⟩ := nextBlock_spec hsorted h
  unfold itemsFrom
  apply List.filter_congr
  intro x hx
  rw [decide_eq_decide]
  exact ⟨fun hnext => Nat.le_trans hge hnext, hleast x hx⟩

variable {call : (rangeBegin rangeEnd : Nat) → Except String (List α × Nat)}

/-- Exact answers page through all items from the first block on. -/
theorem pages_of_calls (hsorted : items.Pairwise fun x y => block x ≤ block y)
    (hlength : 0 < length) (hfirst : call rangeBegin (rangeBegin + length) =
      .ok (page block items rangeBegin (rangeBegin + length),
        nextBlock block items (rangeBegin + length)))
    (hlater : ∀ x ∈ items, call (block x) (block x + length) =
      .ok (page block items (block x) (block x + length), nextBlock block items (block x + length))) :
    Pages call length rangeBegin (itemsFrom block items rangeBegin) := by
  induction hcount : (itemsFrom block items (rangeBegin + length)).length
    using Nat.strongRecOn generalizing rangeBegin with
  | ind count ih =>
      rw [itemsFrom_eq_page_append hsorted (Nat.le_add_right rangeBegin length)]
      by_cases hempty : itemsFrom block items (rangeBegin + length) = []
      · rw [nextBlock_eq_zero hempty] at hfirst
        rw [hempty, List.append_nil]
        exact .last hfirst
      · obtain ⟨⟨x, hx, hnext⟩, hge, -⟩ := nextBlock_spec hsorted hempty
        rw [← itemsFrom_nextBlock hsorted hempty] at hcount ⊢
        refine .next hfirst (by omega) ?_
        rw [← hnext] at hcount ⊢
        refine ih _ ?_ (hlater x hx) rfl
        -- the page that begins at `x` has `x`
        have hsplit := congrArg List.length
          (itemsFrom_eq_page_append hsorted (Nat.le_add_right (block x) length))
        have hpage : x ∈ page block items (block x) (block x + length) := by
          simp [page, hx, hlength]
        have hpositive := List.length_pos_of_mem hpage
        rw [List.length_append] at hsplit
        omega

/-- Every call of such a paging is answered exactly. -/
theorem called_cases (hsorted : items.Pairwise fun x y => block x ≤ block y)
    (hfirst : call rangeBegin (rangeBegin + length) =
      .ok (page block items rangeBegin (rangeBegin + length),
        nextBlock block items (rangeBegin + length)))
    (hlater : ∀ x ∈ items, call (block x) (block x + length) =
      .ok (page block items (block x) (block x + length), nextBlock block items (block x + length)))
    {later : Nat} (hcalled : Called call length rangeBegin later) :
    call later (later + length) =
      .ok (page block items later (later + length), nextBlock block items (later + length)) := by
  induction hcalled with
  | start => exact hfirst
  | next hcalled hcall hfollowing ih =>
      rw [ih, Except.ok.injEq, Prod.mk.injEq] at hcall
      obtain ⟨-, rfl⟩ := hcall
      have hsome : itemsFrom block items (_ + length) ≠ [] :=
        fun hempty => hfollowing (nextBlock_eq_zero hempty)
      obtain ⟨⟨x, hx, hnext⟩, -⟩ := nextBlock_spec hsorted hsome
      rw [← hnext]
      exact hlater x hx

end Items

end Paging
