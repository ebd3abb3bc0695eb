import Blurt.Foundation.LittleEndian
import Blurt.Foundation.Outcome
import Mathlib.Data.List.Sort

/-! # Byte strings that are written piece by piece

Varints, and the comparison of two writers: one that always produces its bytes and one
that may throw, may write its items in another order, or may write something else.
-/

namespace Wire

abbrev Bytes := List UInt8

/-! ## Varints -/

/-- The loop that writes a number in groups of seven bits, lowest group first, for at most
`turns` groups. -/
def varint : (turns : Nat) → Nat → Bytes
  | 0, _ => []
  | turns + 1, n =>
      if n / 128 = 0 then [UInt8.ofNat n] else UInt8.ofNat (128 + n % 128) :: varint turns (n / 128)

/-- What follows two varints starts where they end: no varint is a prefix of another. -/
theorem varint_append_inj {turns m n : Nat} (hm : m < 128 ^ turns) (hn : n < 128 ^ turns)
    (hturns : 0 < turns) {x y : Bytes} (h : varint turns m ++ x = varint turns n ++ y) :
    m = n ∧ x = y := by
  induction turns generalizing m n with
  | zero => cases hturns
  | succ turns ih =>
      have byte {a b : Nat} (ha : a < 256) (hb : b < 256) (hab : UInt8.ofNat a = UInt8.ofNat b) :
          a = b := by
        have := congrArg UInt8.toNat hab
        rw [UInt8.toNat_ofNat', UInt8.toNat_ofNat'] at this
        omega
      have hshift {a : Nat} (ha : a < 128 ^ (turns + 1)) : a / 128 < 128 ^ turns := by
        rw [Nat.div_lt_iff_lt_mul (by decide)]
        rwa [Nat.pow_succ] at ha
      rw [varint, varint] at h
      split at h <;> split at h <;> rename_i hm0 hn0 <;>
        simp only [List.cons_append, List.nil_append, List.cons.injEq] at h
      · exact ⟨byte (by omega) (by omega) h.1, h.2⟩
      · exact absurd (byte (by omega) (by omega) h.1) (by omega)
      · exact absurd (byte (by omega) (by omega) h.1) (by omega)
      · have hlow := byte (by omega) (by omega) h.1
        have hpos : 0 < turns := by
          apply Nat.pos_of_ne_zero
          rintro rfl
          exact hm0 (by simpa using hshift hm)
        obtain ⟨hhigh, hrest⟩ := ih (hshift hm) (hshift hn) hpos h.2
        exact ⟨by omega, hrest⟩

/-! ## Writers that may throw -/

/-- A writer that may throw produces `bytes` exactly when `condition` holds, and never
produces another number of bytes. -/
structure Writes (out : Except String Bytes) (bytes : Bytes) (condition : Prop) : Prop where
  iff : out = .ok bytes ↔ condition
  length : ∀ {b}, out = .ok b → b.length = bytes.length

namespace Writes

variable {out : Except String Bytes} {bytes : Bytes} {condition : Prop}

theorem ok (bytes : Bytes) : Writes (.ok bytes) bytes True where
  iff := by simp
  length := by
    rintro b ⟨⟩
    rfl

theorem of_eq (h : out = .ok bytes) : Writes out bytes True := h ▸ ok bytes

theorem error {message : String} (h : ¬ condition) : Writes (.error message) bytes condition where
  iff := by simp [h]
  length := by
    rintro b ⟨⟩

theorem congr {condition' : Prop} (h : Writes out bytes condition)
    (hiff : condition ↔ condition') : Writes out bytes condition' :=
  ⟨h.iff.trans hiff, h.length⟩

/-- Two writers in a row. -/
theorem seq {second : Except String Bytes} {bytes₂ : Bytes} {condition₂ : Prop}
    (h : Writes out bytes condition) (h₂ : Writes second bytes₂ condition₂) :
    Writes (do
        let a ← out
        let b ← second
        return a ++ b) (bytes ++ bytes₂) (condition ∧ condition₂) where
  iff := by
    simp only [Outcome.bind_eq_ok, Outcome.pure_eq_ok]
    constructor
    · rintro ⟨a, ha, b, hb, hab⟩
      obtain ⟨rfl, rfl⟩ := List.append_inj hab (h.length ha)
      exact ⟨h.iff.mp ha, h₂.iff.mp hb⟩
    · rintro ⟨hc, hc₂⟩
      exact ⟨bytes, h.iff.mpr hc, bytes₂, h₂.iff.mpr hc₂, rfl⟩
  length := by
    intro b hb
    simp only [Outcome.bind_eq_ok, Outcome.pure_eq_ok] at hb
    obtain ⟨a, ha, b, hb, rfl⟩ := hb
    rw [List.length_append, List.length_append, h.length ha, h₂.length hb]

/-- A check before a writer. -/
theorem check {β : Type} {first : Except String β} {guard : Prop}
    (hfirst : (∃ u, first = .ok u) ↔ guard) (h : Writes out bytes condition) :
    Writes (first >>= fun _ => out) bytes (guard ∧ condition) where
  iff := by
    cases first with
    | ok u => simpa [← hfirst] using h.iff
    | error message => simp [← hfirst]
  length := by
    intro b hb
    cases first with
    | ok u => exact h.length hb
    | error message => cases hb

theorem ensure {guard : Prop} [Decidable guard] {message : String}
    (h : Writes out bytes condition) :
    Writes (Outcome.ensure guard message >>= fun _ => out) bytes (guard ∧ condition) :=
  h.check (by simp)

end Writes

/-! ## Sequences -/

variable {ι α : Type}

/-- One item after the other. -/
def writeAll (write : ι → Except String Bytes) : List ι → Except String Bytes
  | [] => .ok []
  | item :: rest => do
      let a ← write item
      let b ← writeAll write rest
      return a ++ b

variable {write : ι → Except String Bytes} {item : α → ι} {bytes : α → Bytes}
  {condition : α → Prop} {l : List α}

theorem Writes.all (h : ∀ x ∈ l, Writes (write (item x)) (bytes x) (condition x)) :
    Writes (writeAll write (l.map item)) (l.flatMap bytes) (∀ x ∈ l, condition x) := by
  induction l with
  | nil =>
      apply (Writes.ok []).congr
      simp
  | cons x l ih =>
      have hrest := ih fun y hy => h y (List.mem_cons_of_mem _ hy)
      apply ((h x List.mem_cons_self).seq hrest).congr
      simp

section Sorted

variable {β : Type} [LinearOrder β] {key : α → β} {r : ι → ι → Prop} [DecidableRel r]

/-- Items are sorted as their keys are. -/
theorem map_insertionSort (hr : ∀ x ∈ l, ∀ y ∈ l, r (item x) (item y) ↔ key x ≤ key y) :
    (l.map item).insertionSort r = (l.insertionSort fun x y => key x ≤ key y).map item := by
  symm
  apply List.map_insertionSort
  intro x hx y hy
  exact (hr x hx y hy).symm

/-- Items that a writer sorts by a key first. Where the bytes of an item tell its key, the
writer keeps the given order or writes something else. -/
theorem Writes.sorted (hr : ∀ x ∈ l, ∀ y ∈ l, r (item x) (item y) ↔ key x ≤ key y)
    (h : ∀ x ∈ l, Writes (write (item x)) (bytes x) (condition x))
    (hhead : ∀ x ∈ l, ∀ y ∈ l, ∀ b rest rest', write (item x) = .ok b →
      b ++ rest = bytes y ++ rest' → key x = key y) :
    Writes (writeAll write ((l.map item).insertionSort r)) (l.flatMap bytes)
      (l.Pairwise (fun x y => key x ≤ key y) ∧ ∀ x ∈ l, condition x) := by
  rw [map_insertionSort hr]
  have hperm (l : List α) : (l.insertionSort fun x y => key x ≤ key y).Perm l :=
    List.perm_insertionSort _ l
  constructor
  case length =>
    intro b hb
    rw [(Writes.all fun x hx => h x ((hperm l).mem_iff.mp hx)).length hb]
    exact ((hperm l).flatMap_right bytes).length_eq
  case iff =>
    constructor
    · intro hout
      -- the first item of the output has the key of the first item given
      induction l with
      | nil => exact ⟨List.Pairwise.nil, by simp⟩
      | cons x l ih =>
          have ih := ih (fun y hy z hz => hr y (List.mem_cons_of_mem _ hy) z
              (List.mem_cons_of_mem _ hz)) (fun y hy => h y (List.mem_cons_of_mem _ hy))
            fun y hy z hz => hhead y (List.mem_cons_of_mem _ hy) z (List.mem_cons_of_mem _ hz)
          have hkept : ∀ y ∈ l.insertionSort (fun x y => key x ≤ key y),
              y ∈ l := fun y hy => (hperm l).mem_iff.mp hy
          rw [List.insertionSort_cons] at hout
          have first (y : α) (rest : List α) (hy : y ∈ x :: l)
              (hfirst : writeAll write ((y :: rest).map item) = .ok ((x :: l).flatMap bytes)) :
              key y = key x := by
            simp only [List.map_cons, writeAll, Outcome.bind_eq_ok, Outcome.pure_eq_ok] at hfirst
            obtain ⟨a, ha, b, -, hab⟩ := hfirst
            exact hhead y hy x List.mem_cons_self a b _ ha hab
          have stays (rest : List α)
              (hfirst : writeAll write ((x :: rest).map item) = .ok ((x :: l).flatMap bytes)) :
              condition x ∧ writeAll write (rest.map item) = .ok (l.flatMap bytes) := by
            simp only [List.map_cons, writeAll, Outcome.bind_eq_ok, Outcome.pure_eq_ok] at hfirst
            obtain ⟨a, ha, b, hb, hab⟩ := hfirst
            have hx := h x List.mem_cons_self
            obtain ⟨rfl, rfl⟩ := List.append_inj hab (hx.length ha)
            exact ⟨hx.iff.mp ha, hb⟩
          cases hsort : l.insertionSort (fun x y => key x ≤ key y) with
          | nil =>
              have hnil : l = [] := by
                rw [← List.length_eq_zero_iff, ← (hperm l).length_eq, hsort, List.length_nil]
              subst hnil
              rw [hsort] at hout
              exact ⟨List.pairwise_singleton _ x, by simpa using (stays [] hout).1⟩
          | cons y rest =>
              rw [hsort, List.orderedInsert] at hout
              split at hout
              · rename_i hle
                obtain ⟨hcx, hrest⟩ := stays _ hout
                obtain ⟨hpairwise, hcl⟩ := ih (by rwa [hsort])
                rw [List.Pairwise.insertionSort_eq hpairwise] at hsort
                subst hsort
                refine ⟨List.pairwise_cons.mpr ⟨?_, hpairwise⟩, ?_⟩
                · intro z hz
                  rcases List.mem_cons.mp hz with rfl | hz
                  · exact hle
                  · exact le_trans hle (List.rel_of_pairwise_cons hpairwise hz)
                · intro z hz
                  rcases List.mem_cons.mp hz with rfl | hz
                  · exact hcx
                  · exact hcl z hz
              · rename_i hlt
                have hy : y ∈ l := hkept y (by rw [hsort]; exact List.mem_cons_self)
                exact absurd (first y _ (List.mem_cons_of_mem _ hy) hout).ge hlt
    · rintro ⟨hpairwise, hconditions⟩
      rw [List.Pairwise.insertionSort_eq hpairwise]
      exact (Writes.all h).iff.mpr hconditions

end Sorted

end Wire
