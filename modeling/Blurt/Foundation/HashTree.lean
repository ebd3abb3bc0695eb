import Mathlib.Data.List.Basic
import Mathlib.Data.Set.Function

/-! # Trees of hashes

A tree is hashed from its leaves up, a node by the message that its two digests make. A digest binds
the whole tree if the hashed messages do not collide and no leaf is a message of two digests. A list
becomes a tree by joining neighbours until one tree is left.
-/

universe u v

/-- A binary tree with messages at its leaves. -/
inductive HashTree (M : Type u) where
  | leaf (message : M)
  | node (left right : HashTree M)

namespace HashTree

variable {M : Type u} {D : Type v}

/-- The messages of the leaves from left to right. -/
def leaves : HashTree M → List M
  | leaf message => [message]
  | node left right => left.leaves ++ right.leaves

section Digest

variable (hash : M → D) (pair : D → D → M)

def digest : HashTree M → D
  | leaf message => hash message
  | node left right => hash (pair left.digest right.digest)

/-- All messages that are hashed for the digest of a tree. -/
def messages : HashTree M → List M
  | leaf message => [message]
  | node left right =>
      pair (left.digest hash pair) (right.digest hash pair) :: (left.messages ++ right.messages)

variable {hash pair}

/-- Trees of one digest are one tree. -/
theorem eq_of_digest_eq (hpair : ∀ a b c d, pair a b = pair c d → a = c ∧ b = d)
    {s t : HashTree M} (hs : ∀ m ∈ s.leaves, ∀ a b, m ≠ pair a b)
    (ht : ∀ m ∈ t.leaves, ∀ a b, m ≠ pair a b)
    (hhash : ∀ x ∈ s.messages hash pair, ∀ y ∈ t.messages hash pair, hash x = hash y → x = y)
    (h : s.digest hash pair = t.digest hash pair) : s = t := by
  induction s generalizing t with
  | leaf x =>
      cases t with
      | leaf y => exact congrArg leaf (hhash x List.mem_cons_self y List.mem_cons_self h)
      | node left right =>
          exact absurd (hhash x List.mem_cons_self _ List.mem_cons_self h)
            (hs x List.mem_cons_self _ _)
  | node left right ihLeft ihRight =>
      cases t with
      | leaf y =>
          exact absurd (hhash _ List.mem_cons_self y List.mem_cons_self h).symm
            (ht y List.mem_cons_self _ _)
      | node left' right' =>
          simp only [leaves, List.mem_append] at hs ht
          have hmessages : pair _ _ = pair _ _ :=
            hhash _ List.mem_cons_self _ List.mem_cons_self h
          obtain ⟨hleft, hright⟩ := hpair _ _ _ _ hmessages
          have hsub : ∀ x ∈ left.messages hash pair ++ right.messages hash pair,
              ∀ y ∈ left'.messages hash pair ++ right'.messages hash pair,
                hash x = hash y → x = y := fun x hx y hy =>
            hhash x (List.mem_cons_of_mem _ hx) y (List.mem_cons_of_mem _ hy)
          rw [ihLeft (fun m hm => hs m (.inl hm)) (fun m hm => ht m (.inl hm))
              (fun x hx y hy => hsub x (List.mem_append_left _ hx) y (List.mem_append_left _ hy))
              hleft,
            ihRight (fun m hm => hs m (.inr hm)) (fun m hm => ht m (.inr hm))
              (fun x hx y hy => hsub x (List.mem_append_right _ hx) y (List.mem_append_right _ hy))
              hright]

end Digest

/-! ## Trees of lists -/

/-- Neighbours are joined, and the last tree of an odd number stays as it is. -/
def joinPairs : List (HashTree M) → List (HashTree M)
  | [] => []
  | [last] => [last]
  | left :: right :: rest => node left right :: joinPairs rest

theorem length_joinPairs (trees : List (HashTree M)) :
    (joinPairs trees).length = (trees.length + 1) / 2 := by
  induction trees using joinPairs.induct with
  | case1 => simp [joinPairs]
  | case2 last => simp [joinPairs]
  | case3 left right rest ih =>
      simp only [joinPairs, List.length_cons, ih]
      omega

theorem leaves_joinPairs (trees : List (HashTree M)) :
    (joinPairs trees).flatMap leaves = trees.flatMap leaves := by
  induction trees using joinPairs.induct with
  | case1 => rfl
  | case2 last => rfl
  | case3 left right rest ih =>
      simp only [joinPairs, List.flatMap_cons, leaves, ih, List.append_assoc]

/-- Joining goes from the left, so it may stop after any pairs. -/
theorem joinPairs_append {first : List (HashTree M)} (heven : first.length % 2 = 0)
    (rest : List (HashTree M)) : joinPairs (first ++ rest) = joinPairs first ++ joinPairs rest := by
  induction first using joinPairs.induct with
  | case1 => rfl
  | case2 last => simp at heven
  | case3 left right first ih =>
      rw [List.length_cons, List.length_cons] at heven
      simp only [List.cons_append, joinPairs, ih (by omega)]

/-- The tree of a list, which is built level by level. -/
def combine (trees : List (HashTree M)) : Option (HashTree M) :=
  if trees.length ≤ 1 then trees.head?
  else combine (joinPairs trees)
termination_by trees.length
decreasing_by
  rw [length_joinPairs]
  omega

theorem leaves_combine {trees : List (HashTree M)} {tree : HashTree M}
    (h : combine trees = some tree) : tree.leaves = trees.flatMap leaves := by
  induction trees using combine.induct with
  | case1 trees hshort =>
      rw [combine, if_pos hshort] at h
      match trees, hshort with
      | [_], _ =>
          cases h
          simp
  | case2 trees hlong ih =>
      rw [combine, if_neg hlong] at h
      rw [ih h, leaves_joinPairs]

theorem exists_combine {trees : List (HashTree M)} (h : trees ≠ []) :
    ∃ tree, combine trees = some tree := by
  induction trees using combine.induct with
  | case1 trees hshort =>
      rw [combine, if_pos hshort]
      exact ⟨_, List.head?_eq_some_head h⟩
  | case2 trees hlong ih =>
      rw [combine, if_neg hlong]
      refine ih fun hempty => ?_
      have hlength := length_joinPairs trees
      rw [hempty, List.length_nil] at hlength
      omega

end HashTree
