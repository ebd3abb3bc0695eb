import Blurt.Foundation.Dictionary
import Mathlib

/-! # Bounded expiring maps

Values are set under keys until a time, and can be looked up until then. The map has room for so
many keys, and may forget one that has not expired only where a key is set while it is full.
-/

/-- The value that was last set under each key, with the time at which it expires. -/
def ExpiringMap (κ τ β : Type*) := κ → Option (τ × β)

namespace ExpiringMap

variable {κ τ β : Type*} [DecidableEq κ] [LinearOrder τ]

def empty : ExpiringMap κ τ β := fun _ => none

def get (m : ExpiringMap κ τ β) (now : τ) (key : κ) : Option β :=
  (m key).bind fun entry => if now < entry.1 then some entry.2 else none

def put (m : ExpiringMap κ τ β) (key : κ) (expiry : τ) (value : β) : ExpiringMap κ τ β :=
  fun other => if other = key then some (expiry, value) else m other

def drop (m : ExpiringMap κ τ β) (key : κ) : ExpiringMap κ τ β :=
  fun other => if other = key then none else m other

/-- As many keys as there is room for are there and have not expired. -/
def Full (m : ExpiringMap κ τ β) (size : Nat) (now : τ) : Prop :=
  ∃ keys : List κ, keys.Nodup ∧ size ≤ keys.length ∧
    ∀ key ∈ keys, ∃ entry, m key = some entry ∧ now ≤ entry.1

/-- What is done to a map. An entry is set with the time it has, as a function of the moment. -/
inductive Act (κ τ β : Type*)
  | get (key : κ)
  | set (key : κ) (expiry : τ → τ) (value : β)
  | drop (key : κ)
  | clear

/-- A run over a map with room for `size` keys from a time on, with the values looked up. -/
inductive Runs (size : Nat) :
    τ → ExpiringMap κ τ β → List (Act κ τ β) → List (Option β) → τ → ExpiringMap κ τ β → Prop
  | done {time last : τ} {m : ExpiringMap κ τ β} (hlast : time ≤ last) : Runs size time m [] [] last m
  | get {time now last : τ} {m m' : ExpiringMap κ τ β} {key : κ} {acts : List (Act κ τ β)}
      {results : List (Option β)} (hnow : time ≤ now) (hrest : Runs size now m acts results last m') :
      Runs size time m (.get key :: acts) (m.get now key :: results) last m'
  | set {time now later last : τ} {m room m' : ExpiringMap κ τ β} {key : κ} {expiry : τ → τ}
      {value : β} {acts : List (Act κ τ β)} {results : List (Option β)} (hnow : time ≤ now)
      (hlater : now ≤ later) (hroom : room = m ∨ m.Full size now ∧ ∃ victim, room = m.drop victim)
      (hrest : Runs size later (room.put key (expiry later) value) acts results last m') :
      Runs size time m (.set key expiry value :: acts) results last m'
  | drop {time last : τ} {m m' : ExpiringMap κ τ β} {key : κ} {acts : List (Act κ τ β)}
      {results : List (Option β)} (hrest : Runs size time (m.drop key) acts results last m') :
      Runs size time m (.drop key :: acts) results last m'
  | clear {time last : τ} {m m' : ExpiringMap κ τ β} {acts : List (Act κ τ β)}
      {results : List (Option β)} (hrest : Runs size time empty acts results last m') :
      Runs size time m (.clear :: acts) results last m'

theorem Runs.earlier {size : Nat} {time time' last : τ} {m m' : ExpiringMap κ τ β}
    {acts : List (Act κ τ β)} {results : List (Option β)} (hle : time' ≤ time)
    (h : Runs size time m acts results last m') : Runs size time' m acts results last m' := by
  induction h generalizing time' with
  | done hlast => exact .done (le_trans hle hlast)
  | get hnow hrest _ => exact .get (le_trans hle hnow) hrest
  | set hnow hlater hroom hrest _ => exact .set (le_trans hle hnow) hlater hroom hrest
  | drop _ ih => exact .drop (ih hle)
  | clear _ ih => exact .clear (ih hle)

theorem Runs.append {size : Nat} {time middle last : τ} {m n m' : ExpiringMap κ τ β}
    {acts acts' : List (Act κ τ β)} {results results' : List (Option β)}
    (h : Runs size time m acts results middle n) (h' : Runs size middle n acts' results' last m') :
    Runs size time m (acts ++ acts') (results ++ results') last m' := by
  induction h with
  | done hlast => exact h'.earlier hlast
  | get hnow _ ih => exact .get hnow (ih h')
  | set hnow hlater hroom _ ih => exact .set hnow hlater hroom (ih h')
  | drop _ ih => exact .drop (ih h')
  | clear _ ih => exact .clear (ih h')

/-- A dictionary has what a map still gives at a time, and nothing that the map does not have. -/
structure Held (m : ExpiringMap κ τ β) (now : τ) (dict : List (κ × τ × β)) : Prop where
  nodup : (dict.map Prod.fst).Nodup
  sound : ∀ entry ∈ dict, m entry.1 = some entry.2
  complete : ∀ key entry, m key = some entry → now < entry.1 → (key, entry) ∈ dict

namespace Held

variable {m : ExpiringMap κ τ β} {now later : τ} {dict : List (κ × τ × β)} {key : κ}

omit [DecidableEq κ] in
theorem empty : Held (ExpiringMap.empty : ExpiringMap κ τ β) now [] where
  nodup := List.nodup_nil
  sound := by simp
  complete := by simp [ExpiringMap.empty]

omit [DecidableEq κ] in
theorem mono (h : m.Held now dict) (hle : now ≤ later) : m.Held later dict where
  nodup := h.nodup
  sound := h.sound
  complete := fun key entry hm hlt => h.complete key entry hm (lt_of_le_of_lt hle hlt)

/-- What is looked up is what the dictionary has, unless it has expired. -/
theorem get_eq (h : m.Held now dict) (key : κ) : m.get now key =
    (dict.find? fun old => old.1 = key).bind fun old =>
      if now < old.2.1 then some old.2.2 else none := by
  cases hfind : dict.find? fun old => old.1 = key with
  | some old =>
      obtain ⟨hmem, rfl⟩ := (List.find?_key h.nodup).mp hfind
      simp [get, h.sound old hmem]
  | none =>
      cases hm : m key with
      | none => simp [get, hm]
      | some entry =>
          have hexpired : ¬ now < entry.1 := by
            intro hlt
            have hmem := h.complete key entry hm hlt
            exact List.find?_eq_none.mp hfind _ hmem (by simp)
          simp [get, hm, hexpired]

omit [DecidableEq κ] in
/-- Entries that have expired need not be kept. -/
theorem filter (h : m.Held now dict) {p : κ × τ × β → Bool}
    (hexpired : ∀ entry ∈ dict, ¬ p entry → entry.2.1 ≤ now) : m.Held now (dict.filter p) where
  nodup := h.nodup.sublist (List.filter_sublist.map _)
  sound := fun entry hentry => h.sound entry (List.mem_filter.mp hentry).1
  complete := by
    intro key entry hm hlt
    have hmem := h.complete key entry hm hlt
    refine List.mem_filter.mpr ⟨hmem, ?_⟩
    by_contra hp
    exact absurd (hexpired _ hmem hp) (not_le.mpr hlt)

theorem drop (h : m.Held now dict) (key : κ) : (m.drop key).Held now (dict.dropKey key) where
  nodup := List.nodup_dropKey h.nodup key
  sound := by
    intro entry hentry
    obtain ⟨hmem, hne⟩ := List.mem_dropKey.mp hentry
    rw [ExpiringMap.drop, if_neg hne]
    exact h.sound entry hmem
  complete := by
    intro other entry hm hlt
    by_cases heq : other = key
    · simp [ExpiringMap.drop, heq] at hm
    · rw [ExpiringMap.drop, if_neg heq] at hm
      exact List.mem_dropKey.mpr ⟨h.complete other entry hm hlt, heq⟩

theorem put (h : m.Held now dict) (key : κ) (expiry : τ) (value : β) :
    (m.put key expiry value).Held now (dict.setKey (key, expiry, value)) where
  nodup := List.nodup_setKey h.nodup _
  sound := by
    intro entry hentry
    rcases List.mem_setKey.mp hentry with rfl | ⟨hne, hmem⟩
    · simp [ExpiringMap.put]
    · rw [ExpiringMap.put, if_neg hne]
      exact h.sound entry hmem
  complete := by
    intro other entry hm hlt
    by_cases heq : other = key
    · subst heq
      simp only [ExpiringMap.put, if_true, Option.some.injEq] at hm
      exact List.mem_setKey.mpr (.inl (by rw [hm]))
    · rw [ExpiringMap.put, if_neg heq] at hm
      exact List.mem_setKey.mpr (.inr ⟨heq, h.complete other entry hm hlt⟩)

omit [DecidableEq κ] in
theorem full (h : m.Held now dict) {size : Nat} (hsize : size ≤ dict.length)
    (hkept : ∀ entry ∈ dict, later ≤ entry.2.1) : m.Full size later := by
  refine ⟨dict.map Prod.fst, h.nodup, by rwa [List.length_map], ?_⟩
  intro key hkey
  obtain ⟨entry, hentry, rfl⟩ := List.mem_map.mp hkey
  exact ⟨entry.2, h.sound entry hentry, hkept entry hentry⟩

end Held

end ExpiringMap
