import Blurt.Protocol.Types
import Mathlib.Data.List.Infix
import Mathlib.Logic.Function.Iterate

/-! # Blocks and block ids

A block id hashes the signed header, and carries the block number in its first
four bytes. The hash is idealized as injective: an id is the header it
was computed from together with the previous id. The transactions enter an id
only through the merkle root that the header states.
-/

namespace Blurt

/-- `signed_block_header` without `previous`. The witness signature is
represented by the key it recovers to. -/
structure BlockHeader where
  timestamp : Nat
  witness : AccountName
  transactionMerkleRoot : Checksum := 0
  extensions : List BlockHeaderExtension := []
  signee : PublicKey := 0
  deriving DecidableEq, Repr

/-- `block_id_type`; `zero` is the default value, the id before the first block. -/
inductive BlockId
  | zero
  | hash (previous : BlockId) (header : BlockHeader)
  deriving DecidableEq, Repr

namespace BlockId

/-- `block_header::num_from_id` -/
def num : BlockId → Nat
  | zero => 0
  | hash previous _ => previous.num + 1

def previous : BlockId → BlockId
  | zero => zero
  | hash previous _ => previous

@[simp] theorem num_zero : num zero = 0 := rfl
@[simp] theorem num_hash (previous : BlockId) (header : BlockHeader) :
    (hash previous header).num = previous.num + 1 := rfl
@[simp] theorem previous_hash (previous : BlockId) (header : BlockHeader) :
    (hash previous header).previous = previous := rfl

theorem num_eq_zero {id : BlockId} : id.num = 0 ↔ id = zero := by
  cases id <;> simp

theorem num_previous (id : BlockId) : id.previous.num = id.num - 1 := by
  cases id <;> simp [previous]

/-- The ids of the chain that ends in an id, oldest first. -/
def ancestry : BlockId → List BlockId
  | zero => []
  | hash previous header => previous.ancestry ++ [hash previous header]

@[simp] theorem length_ancestry (id : BlockId) : id.ancestry.length = id.num := by
  induction id with
  | zero => rfl
  | hash previous header ih => simp [ancestry, ih]

/-- `id.Descends ancestor`: `ancestor` lies on the chain that ends in `id`. -/
def Descends : BlockId → BlockId → Prop
  | zero, ancestor => ancestor = zero
  | hash previous header, ancestor =>
      ancestor = hash previous header ∨ previous.Descends ancestor

namespace Descends

theorem refl (id : BlockId) : id.Descends id := by
  cases id with
  | zero => rfl
  | hash previous header => exact Or.inl rfl

theorem step {id ancestor : BlockId} (header : BlockHeader) (h : id.Descends ancestor) :
    (hash id header).Descends ancestor := Or.inr h

theorem num_le {id ancestor : BlockId} (h : id.Descends ancestor) : ancestor.num ≤ id.num := by
  induction id with
  | zero => exact le_of_eq (congrArg num h)
  | hash previous header ih =>
      rcases h with rfl | h
      · exact le_rfl
      · exact Nat.le_succ_of_le (ih h)

theorem eq_of_num_le {id ancestor : BlockId} (h : id.Descends ancestor)
    (hnum : id.num ≤ ancestor.num) : ancestor = id := by
  cases id with
  | zero => exact h
  | hash previous header =>
      rcases h with rfl | h
      · rfl
      · have hle := h.num_le
        simp only [num_hash] at hnum
        omega

theorem trans {id middle ancestor : BlockId} (h : id.Descends middle)
    (h' : middle.Descends ancestor) : id.Descends ancestor := by
  induction id with
  | zero =>
      cases h
      exact h'
  | hash previous header ih =>
      rcases h with rfl | h
      · exact h'
      · exact Or.inr (ih h)

theorem of_hash {previous ancestor : BlockId} {header : BlockHeader}
    (h : (hash previous header).Descends ancestor) (hnum : ancestor.num ≤ previous.num) :
    previous.Descends ancestor := by
  rcases h with rfl | h
  · simp only [num_hash] at hnum
    omega
  · exact h

/-- Of two ancestors of one block, the lower is an ancestor of the higher. -/
theorem total {id first second : BlockId} (hfirst : id.Descends first)
    (hsecond : id.Descends second) (hnum : second.num ≤ first.num) : first.Descends second := by
  induction id with
  | zero =>
      cases hfirst
      exact hsecond
  | hash previous header ih =>
      rcases hfirst with rfl | hfirst
      · exact hsecond
      · exact ih hfirst (hsecond.of_hash (hnum.trans hfirst.num_le))

theorem ancestry_prefix {id ancestor : BlockId} (h : id.Descends ancestor) :
    ancestor.ancestry <+: id.ancestry := by
  induction id with
  | zero =>
      cases h
      exact List.prefix_rfl
  | hash previous header ih =>
      rcases h with rfl | h
      · exact List.prefix_rfl
      · exact (ih h).trans (List.prefix_append _ _)

theorem take_ancestry {id ancestor : BlockId} (h : id.Descends ancestor) :
    id.ancestry.take ancestor.num = ancestor.ancestry := by
  rw [← length_ancestry ancestor]
  exact (List.prefix_iff_eq_take.mp h.ancestry_prefix).symm

end Descends

/-- The chain below an id is walked with `previous`. -/
theorem descends_iterate (id : BlockId) (count : Nat) : id.Descends (previous^[count] id) := by
  induction count generalizing id with
  | zero => exact Descends.refl id
  | succ count ih =>
      cases id with
      | zero => exact ih zero
      | hash previous header => exact Or.inr (ih previous)

theorem num_iterate (id : BlockId) (count : Nat) :
    (previous^[count] id).num = id.num - count := by
  induction count generalizing id with
  | zero => rfl
  | succ count ih =>
      rw [Function.iterate_succ_apply, ih, num_previous]
      omega

theorem Descends.eq_iterate {id ancestor : BlockId} (h : id.Descends ancestor) :
    ancestor = previous^[id.num - ancestor.num] id := by
  have hle := h.num_le
  have hnum := num_iterate id (id.num - ancestor.num)
  have hsame := h.total (descends_iterate id (id.num - ancestor.num)) (by omega)
  exact (hsame.eq_of_num_le (by omega)).symm

end BlockId

/-- `signed_block`: the header fields and the transactions. -/
structure SignedBlock (T : Type) where
  previous : BlockId
  header : BlockHeader
  transactions : T
  deriving DecidableEq, Repr

namespace SignedBlock

variable {T : Type}

/-- `block_header::block_num` -/
def blockNum (b : SignedBlock T) : Nat := b.previous.num + 1

/-- `signed_block_header::id` -/
def id (b : SignedBlock T) : BlockId := .hash b.previous b.header

@[simp] theorem num_id (b : SignedBlock T) : b.id.num = b.blockNum := rfl
@[simp] theorem previous_id (b : SignedBlock T) : b.id.previous = b.previous := rfl

theorem id_ne_zero (b : SignedBlock T) : b.id ≠ .zero := by
  intro h
  cases h

end SignedBlock

end Blurt
