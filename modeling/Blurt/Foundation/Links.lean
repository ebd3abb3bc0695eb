import Mathlib.Algebra.BigOperators.Group.Finset.Basic
import Mathlib.Algebra.BigOperators.Intervals
import Mathlib.Data.Int.Init

/-! # Chains of links

Every point has at most one link to another point. `climb` follows the links; what
matters about a link is which chains lead through it.
-/

universe u

namespace Links

variable {α : Type u} {link link' : α → Option α} {a b p q x : α} {m n d : Nat}

/-- The point that a chain of `n` links leads to. -/
def climb (link : α → Option α) : (n : Nat) → α → Option α
  | 0, a => some a
  | n + 1, a => (link a).bind (climb link n)

@[simp] theorem climb_zero : climb link 0 a = some a := rfl

theorem climb_succ : climb link (n + 1) a = (link a).bind (climb link n) := rfl

theorem climb_one : climb link 1 a = link a := by
  rw [climb_succ]
  cases link a <;> rfl

theorem climb_of_link (h : link a = some b) : climb link (n + 1) a = climb link n b := by
  rw [climb_succ, h, Option.bind_some]

theorem climb_of_root (h : link a = none) : climb link (n + 1) a = none := by
  rw [climb_succ, h, Option.bind_none]

theorem climb_add (link : α → Option α) (m n : Nat) (a : α) :
    climb link (m + n) a = (climb link m a).bind (climb link n) := by
  induction m generalizing a with
  | zero => rw [Nat.zero_add, climb_zero, Option.bind_some]
  | succ m ih =>
      rw [Nat.add_right_comm, climb_succ, climb_succ]
      cases link a with
      | none => rfl
      | some b => exact ih b

theorem climb_succ_last : climb link (n + 1) a = (climb link n a).bind link := by
  rw [climb_add]
  congr 1
  funext b
  exact climb_one

/-- No chain returns to where it starts. -/
def Acyclic (link : α → Option α) : Prop := ∀ a n, climb link (n + 1) a ≠ some a

/-- No chain of at most `m` links returns to where it starts. -/
def AcyclicWithin (m : Nat) (link : α → Option α) : Prop :=
  ∀ a, ∀ n < m, climb link (n + 1) a ≠ some a

theorem Acyclic.within (hlink : Acyclic link) (m : Nat) : AcyclicWithin m link :=
  fun a n _ => hlink a n

theorem acyclic_of_within (hlink : ∀ m, AcyclicWithin m link) : Acyclic link :=
  fun a n => hlink (n + 1) a n n.lt_succ_self

/-- A chain without loops visits every point once. -/
theorem Acyclic.climb_injective (hlink : Acyclic link) (hm : climb link m a = some b)
    (hn : climb link n a = some b) : m = n := by
  have hle : ∀ {m n : Nat}, climb link m a = some b → climb link n a = some b → ¬ m < n := by
    intro m n hm hn hlt
    obtain ⟨k, rfl⟩ : ∃ k, n = m + (k + 1) := ⟨n - m - 1, by omega⟩
    rw [climb_add, hm, Option.bind_some] at hn
    exact hlink b k hn
  have hmn := hle hm hn
  have hnm := hle hn hm
  omega

/-- Where the linked points are finitely many, a chain without loops ends. -/
theorem Acyclic.exists_root (hlink : Acyclic link) (s : Finset α)
    (hs : ∀ a b, link a = some b → b ∈ s) (a : α) :
    ∃ n root, climb link n a = some root ∧ link root = none := by
  by_contra hnever
  push Not at hnever
  have hclimb : ∀ n, ∃ b, climb link n a = some b := by
    intro n
    induction n with
    | zero => exact ⟨a, rfl⟩
    | succ n ih =>
        obtain ⟨b, hb⟩ := ih
        obtain ⟨c, hc⟩ := Option.ne_none_iff_exists'.mp (hnever n b hb)
        exact ⟨c, by rw [climb_succ_last, hb, Option.bind_some, hc]⟩
  choose point hpoint using hclimb
  -- the chain would visit more points than there are
  have hmaps : ∀ n ∈ Finset.range (s.card + 1), point (n + 1) ∈ s := by
    intro n _
    have hlast := hpoint (n + 1)
    rw [climb_succ_last, hpoint n, Option.bind_some] at hlast
    exact hs _ _ hlast
  have hinjective : Set.InjOn (fun n => point (n + 1)) (Finset.range (s.card + 1)) := by
    intro m _ n _ heq
    have hm := hpoint (m + 1)
    have heq : point (m + 1) = point (n + 1) := heq
    rw [heq] at hm
    exact Nat.succ_injective (hlink.climb_injective hm (hpoint (n + 1)))
  have hcard := Finset.card_le_card_of_injOn _ hmaps hinjective
  rw [Finset.card_range] at hcard
  omega

/-- Chains that avoid a point do not see its link. -/
theorem climb_congr (hlink : ∀ y, y ≠ a → link' y = link y)
    (havoids : ∀ n, climb link n x ≠ some a) : climb link' n x = climb link n x := by
  induction n generalizing x with
  | zero => rfl
  | succ n ih =>
      have hx : x ≠ a := by
        rintro rfl
        exact havoids 0 rfl
      rw [climb_succ, climb_succ, hlink x hx]
      cases hy : link x with
      | none => rfl
      | some y =>
          refine ih fun k => ?_
          rw [← climb_of_link hy]
          exact havoids (k + 1)

section Relink

variable (hlink : ∀ y, y ≠ a → link' y = link y) (hnew : link' a = some p)
  (havoids : ∀ n, climb link n p ≠ some a)

include hlink hnew havoids

theorem climb_relinked : climb link' (n + 1) a = climb link n p := by
  rw [climb_of_link hnew]
  exact climb_congr hlink havoids

/-- A link from a root to a point whose chain avoids it closes no loop. -/
theorem AcyclicWithin.relink (hacyclic : AcyclicWithin d link) : AcyclicWithin d link' := by
  intro x n hn hloop
  -- a loop of the new links leads through the new link, or is a loop of the old ones
  by_cases hx : ∃ m, climb link' m x = some a
  · obtain ⟨m, hm⟩ := hx
    have hback : climb link' (n + 1) a = some a := by
      have hcomm := climb_add link' (n + 1) m x
      rw [Nat.add_comm, climb_add, hm, hloop, Option.bind_some, Option.bind_some] at hcomm
      rw [hcomm, hm]
    rw [climb_relinked hlink hnew havoids] at hback
    exact havoids n hback
  · push Not at hx
    have hold : climb link (n + 1) x = climb link' (n + 1) x :=
      climb_congr (fun y hy => (hlink y hy).symm) hx
    exact hacyclic x n hn (hold.trans hloop)

theorem Acyclic.relink (hacyclic : Acyclic link) : Acyclic link' :=
  acyclic_of_within fun m => (hacyclic.within m).relink hlink hnew havoids

end Relink

end Links
