import Mathlib.Data.List.Basic
import Mathlib.Data.Set.Lattice
import Mathlib.Order.FixedPoints
import Mathlib.Algebra.GroupWithZero.Nat
import Mathlib.Order.CompletePartialOrder

/-! # Weighted thresholds over keys and names

A rule grants something once the weights of those of its members that count reach its
threshold. Its members are keys, which count when they are held, and names, which count
when they are granted themselves. The names granted by a graph of rules, which may be
cyclic, are the least set closed under it.
-/

universe u v

namespace Threshold

/-- A threshold with the keys and the names that carry weight. -/
structure Rule (κ : Type u) (ν : Type v) where
  threshold : Nat
  keys : List (κ × Nat)
  names : List (ν × Nat)

open Classical in
/-- The weight of the members that `counted` contains. -/
noncomputable def weight {α : Type u} (counted : Set α) (members : List (α × Nat)) : Nat :=
  ((members.filter fun item => item.1 ∈ counted).map Prod.snd).sum

section Weight

variable {α : Type u} {counted larger : Set α} {item : α × Nat} {rest : List (α × Nat)}

@[simp] theorem weight_nil (counted : Set α) : weight counted [] = 0 := rfl

theorem weight_cons_of_mem (hitem : item.1 ∈ counted) :
    weight counted (item :: rest) = item.2 + weight counted rest := by
  simp [weight, hitem]

theorem weight_cons_of_notMem (hitem : item.1 ∉ counted) :
    weight counted (item :: rest) = weight counted rest := by
  simp [weight, hitem]

theorem weight_le_cons : weight counted rest ≤ weight counted (item :: rest) := by
  by_cases hitem : item.1 ∈ counted
  · rw [weight_cons_of_mem hitem]
    omega
  · rw [weight_cons_of_notMem hitem]

theorem weight_mono (hle : counted ⊆ larger) (members : List (α × Nat)) :
    weight counted members ≤ weight larger members := by
  induction members with
  | nil => rfl
  | cons item rest ih =>
      by_cases hitem : item.1 ∈ counted
      · rw [weight_cons_of_mem hitem, weight_cons_of_mem (hle hitem)]
        omega
      · rw [weight_cons_of_notMem hitem]
        exact ih.trans weight_le_cons

theorem weight_le_sum (members : List (α × Nat)) :
    weight counted members ≤ (members.map Prod.snd).sum := by
  induction members with
  | nil => rfl
  | cons item rest ih =>
      rw [List.map_cons, List.sum_cons]
      by_cases hitem : item.1 ∈ counted
      · rw [weight_cons_of_mem hitem]
        omega
      · rw [weight_cons_of_notMem hitem]
        omega

end Weight

variable {κ : Type u} {ν : Type v}

namespace Rule

/-- The weights of the keys held and of the names granted reach the threshold. -/
def Met (rule : Rule κ ν) (held : Set κ) (granted : Set ν) : Prop :=
  rule.threshold ≤ weight held rule.keys + weight granted rule.names

theorem Met.mono {rule : Rule κ ν} {held held' : Set κ} {granted granted' : Set ν}
    (hmet : rule.Met held granted) (hheld : held ⊆ held') (hgranted : granted ⊆ granted') :
    rule.Met held' granted' :=
  calc
    rule.threshold ≤ weight held rule.keys + weight granted rule.names := hmet
    _ ≤ weight held' rule.keys + weight granted' rule.names :=
      Nat.add_le_add (weight_mono hheld _) (weight_mono hgranted _)

end Rule

variable (rules : ν → Option (Rule κ ν)) (trusted : Set ν) (held : Set κ)

/-- The names whose rule is met by `granted`, with those that need no rule. -/
def grants : Set ν →o Set ν where
  toFun granted := {name | name ∈ trusted ∨ ∃ rule, rules name = some rule ∧ rule.Met held granted}
  monotone' := by
    intro granted granted' hle name hname
    rcases hname with htrusted | ⟨rule, hrule, hmet⟩
    · exact .inl htrusted
    · exact .inr ⟨rule, hrule, hmet.mono subset_rfl hle⟩

/-- The least set of names that is closed under the rules. -/
def granted : Set ν := (grants rules trusted held).lfp

theorem mem_granted_iff {name : ν} :
    name ∈ granted rules trusted held ↔
      name ∈ trusted ∨ ∃ rule, rules name = some rule ∧ rule.Met held (granted rules trusted held) := by
  have hfixed : grants rules trusted held (granted rules trusted held) =
      granted rules trusted held :=
    (grants rules trusted held).map_lfp
  conv_lhs => rw [← hfixed]
  rfl

variable {rules trusted held}

/-! ## Loops over members

A loop adds up the weights of the members that count, accepts as soon as they reach the
threshold, and gives up after as many members as `cut` says.
-/

section Reaches

variable {α : Type u} (cut : Nat → Prop) (threshold : Nat) {counted larger : Set α}

/-- A loop over `members` accepts, after `seen` other members with the weight `total`. -/
def Reaches (counted : Set α) : (members : List (α × Nat)) → (total seen : Nat) → Prop
  | [], total, _ => threshold ≤ total
  | item :: rest, total, seen =>
      item.1 ∈ counted ∧ (threshold ≤ total + item.2 ∨
        ¬ cut (seen + 1) ∧ Reaches counted rest (total + item.2) (seen + 1)) ∨
      item.1 ∉ counted ∧ ¬ cut (seen + 1) ∧ Reaches counted rest total (seen + 1)

variable {cut threshold}

theorem reaches_cons_of_mem {item : α × Nat} {rest : List (α × Nat)} {total seen : Nat}
    (hitem : item.1 ∈ counted) : Reaches cut threshold counted (item :: rest) total seen ↔
      threshold ≤ total + item.2 ∨
        ¬ cut (seen + 1) ∧ Reaches cut threshold counted rest (total + item.2) (seen + 1) := by
  rw [Reaches, and_iff_right hitem, or_iff_left fun h => h.1 hitem]

theorem reaches_cons_of_notMem {item : α × Nat} {rest : List (α × Nat)} {total seen : Nat}
    (hitem : item.1 ∉ counted) : Reaches cut threshold counted (item :: rest) total seen ↔
      ¬ cut (seen + 1) ∧ Reaches cut threshold counted rest total (seen + 1) := by
  rw [Reaches, and_iff_right hitem, or_iff_right fun h => hitem h.1]

/-- A loop that counts more members accepts no less. -/
theorem Reaches.mono (hle : counted ⊆ larger) {members : List (α × Nat)}
    {total total' seen : Nat} (htotal : total ≤ total')
    (h : Reaches cut threshold counted members total seen) :
    Reaches cut threshold larger members total' seen := by
  induction members generalizing total total' seen with
  | nil => exact le_trans h htotal
  | cons item rest ih =>
      by_cases hlarger : item.1 ∈ larger
      · rw [reaches_cons_of_mem hlarger]
        by_cases hitem : item.1 ∈ counted
        · rcases (reaches_cons_of_mem hitem).mp h with hreached | ⟨hcut, hrest⟩
          · exact .inl (hreached.trans (Nat.add_le_add_right htotal _))
          · exact .inr ⟨hcut, ih (Nat.add_le_add_right htotal _) hrest⟩
        · obtain ⟨hcut, hrest⟩ := (reaches_cons_of_notMem hitem).mp h
          exact .inr ⟨hcut, ih (htotal.trans (Nat.le_add_right _ _)) hrest⟩
      · obtain ⟨hcut, hrest⟩ := (reaches_cons_of_notMem fun hitem => hlarger (hle hitem)).mp h
        exact (reaches_cons_of_notMem hlarger).mpr ⟨hcut, ih htotal hrest⟩

end Reaches

end Threshold
