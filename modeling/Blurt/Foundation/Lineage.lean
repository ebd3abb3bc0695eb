import Mathlib.Data.Finset.Card
import Mathlib.Logic.Relation

/-! # Lineages

A relation between parents and children under which leaves come and go. A leaf that is added
or taken away is one descendant more or less for the nodes on the line above it, and for no
others.
-/

universe u

namespace Lineage

open Relation

variable {ι : Type u}

/-- `s` is `r` with the leaf `x` under the nodes that satisfy `above`. -/
structure Grafts (above : ι → Prop) (x : ι) (r s : ι → ι → Prop) : Prop where
  edge : ∀ a i, s a i ↔ r a i ∨ (above a ∧ i = x)
  childless : ∀ i, ¬ s x i
  unplaced : ∀ a, ¬ r a x

/-- A node without children has no descendants. -/
theorem not_ancestor_of_childless {r : ι → ι → Prop} {x : ι} (h : ∀ i, ¬ r x i) (i : ι) :
    ¬ TransGen r x i := by
  intro hdescends
  obtain ⟨child, hchild, -⟩ := TransGen.head'_iff.mp hdescends
  exact h child hchild

/-- A node below which nothing is put keeps its depth: an ancestor is less deep. -/
theorem ancestor_lt {r : ι → ι → Prop} {depth : ι → Nat}
    (hdepth : ∀ a i, r a i → depth i = depth a + 1) {a i : ι} (h : TransGen r a i) :
    depth a < depth i := by
  induction h with
  | single hedge =>
      rw [hdepth _ _ hedge]
      exact Nat.lt_succ_self _
  | tail _ hedge ih =>
      rw [hdepth _ _ hedge]
      exact Nat.lt_succ_of_lt ih

namespace Grafts

variable {above : ι → Prop} {x : ι} {r s : ι → ι → Prop}

theorem ancestor_of_old (h : Grafts above x r s) {a i : ι} (hi : i ≠ x) :
    TransGen s a i ↔ TransGen r a i := by
  constructor
  · intro hdescends
    induction hdescends with
    | single hedge =>
        rcases (h.edge _ _).mp hedge with hold | hnew
        · exact .single hold
        · exact absurd hnew.2 hi
    | @tail middle child _ hedge ih =>
        -- the last edge starts at an old node, since nothing is below the leaf
        have hmiddle : middle ≠ x := by
          rintro rfl
          exact h.childless _ hedge
        rcases (h.edge _ _).mp hedge with hold | hnew
        · exact (ih hmiddle).tail hold
        · exact absurd hnew.2 hi
  · intro hdescends
    exact TransGen.mono (fun _ _ hold => (h.edge _ _).mpr (Or.inl hold)) _ _ hdescends

theorem ancestor_of_leaf (h : Grafts above x r s) {a : ι} :
    TransGen s a x ↔ ∃ p, above p ∧ ReflTransGen r a p := by
  constructor
  · intro hdescends
    obtain ⟨p, hline, hedge⟩ := TransGen.tail'_iff.mp hdescends
    rcases (h.edge _ _).mp hedge with hold | hnew
    · exact absurd hold (h.unplaced p)
    · refine ⟨p, hnew.1, ?_⟩
      have hp : p ≠ x := by
        rintro rfl
        exact h.childless _ hedge
      rcases reflTransGen_iff_eq_or_transGen.mp hline with heq | hproper
      · exact heq ▸ .refl
      · exact ((h.ancestor_of_old hp).mp hproper).to_reflTransGen
  · rintro ⟨p, habove, hline⟩
    apply TransGen.tail' (b := p)
    · exact ReflTransGen.mono (fun _ _ hold => (h.edge _ _).mpr (Or.inl hold)) _ _ hline
    · exact (h.edge _ _).mpr (Or.inr ⟨habove, rfl⟩)

/-- The line above an old node stays. -/
theorem line_of_old (h : Grafts above x r s) {a i : ι} (hi : i ≠ x) :
    ReflTransGen s a i ↔ ReflTransGen r a i := by
  rw [reflTransGen_iff_eq_or_transGen, reflTransGen_iff_eq_or_transGen, h.ancestor_of_old hi]

end Grafts

section Count

open Classical

/-- The descendants of `a` among `nodes`. -/
noncomputable def descendants (r : ι → ι → Prop) (nodes : Finset ι) (a : ι) : Finset ι :=
  {i ∈ nodes | TransGen r a i}

variable {r s : ι → ι → Prop} {nodes : Finset ι} {a i x : ι}

theorem mem_descendants : i ∈ descendants r nodes a ↔ i ∈ nodes ∧ TransGen r a i := by
  rw [descendants, Finset.mem_filter]

theorem descendants_childless (h : ∀ i, ¬ r x i) : descendants r nodes x = ∅ := by
  apply Finset.eq_empty_of_forall_notMem
  intro i hi
  exact not_ancestor_of_childless h i (mem_descendants.mp hi).2

/-- A node is not among its own descendants, so it has fewer than there are nodes. -/
theorem card_descendants_lt {depth : ι → Nat} (hdepth : ∀ a i, r a i → depth i = depth a + 1)
    (ha : a ∈ nodes) : (descendants r nodes a).card < nodes.card := by
  apply Finset.card_lt_card
  unfold descendants
  rw [Finset.ssubset_iff_of_subset (Finset.filter_subset _ _)]
  refine ⟨a, ha, ?_⟩
  intro hself
  exact lt_irrefl _ (ancestor_lt hdepth (Finset.mem_filter.mp hself).2)

/-- With a leaf, the line above it has one descendant more. -/
theorem Grafts.card_descendants [DecidableEq ι] {above : ι → Prop} (h : Grafts above x r s)
    (hx : x ∉ nodes) (a : ι) : (descendants s (insert x nodes) a).card =
      (descendants r nodes a).card + if ∃ p, above p ∧ ReflTransGen r a p then 1 else 0 := by
  have hold : ∀ i ∈ nodes, (TransGen s a i ↔ TransGen r a i) := by
    intro i hi
    apply h.ancestor_of_old
    rintro rfl
    exact hx hi
  rw [descendants, descendants, Finset.filter_insert, Finset.filter_congr hold]
  by_cases hline : ∃ p, above p ∧ ReflTransGen r a p
  · rw [if_pos (h.ancestor_of_leaf.mpr hline), if_pos hline]
    apply Finset.card_insert_of_notMem
    exact fun hmem => hx (Finset.mem_filter.mp hmem).1
  · rw [if_neg (mt h.ancestor_of_leaf.mp hline), if_neg hline, Nat.add_zero]

end Count

end Lineage
