import Mathlib.Data.List.DropRight

/-! # A stack of snapshots

A state with nested sessions. A session saves the whole state when it starts; undoing
it puts the saved state back, and squashing it merges it into the session around it.
-/

universe u

/-- A state, its revision, and the state at the start of each open session with the
revision of the session, innermost first. -/
structure SnapshotStack (S : Type u) where
  current : S
  revision : Int
  saved : List (Int × S) := []

namespace SnapshotStack

variable {S : Type u}

/-- Start a session. -/
def save (a : SnapshotStack S) : SnapshotStack S :=
  { a with
    revision := a.revision + 1
    saved := (a.revision + 1, a.current) :: a.saved }

/-- Change the state within the innermost session. -/
def update (f : S → S) (a : SnapshotStack S) : SnapshotStack S :=
  { a with current := f a.current }

/-- Return to the start of the innermost session. -/
def undo (a : SnapshotStack S) : SnapshotStack S :=
  match a.saved with
  | [] => a
  | (_, start) :: rest => { current := start, revision := a.revision - 1, saved := rest }

/-- Merge the innermost session into the one around it. -/
def squash (a : SnapshotStack S) : SnapshotStack S :=
  match a.saved with
  | [] => a
  | _ :: rest => { a with revision := a.revision - 1, saved := rest }

/-- Give up the sessions up to `revision`, outermost first. -/
def commit (revision : Int) (a : SnapshotStack S) : SnapshotStack S :=
  { a with saved := a.saved.rdropWhile fun session => decide (session.1 ≤ revision) }

/-! ## What holds of every snapshot -/

/-- The current state and all that the sessions can go back to satisfy `holds`. -/
structure All (holds : S → Prop) (a : SnapshotStack S) : Prop where
  current : holds a.current
  saved : ∀ session ∈ a.saved, holds session.2

variable {holds : S → Prop} {a : SnapshotStack S}

theorem All.save (h : a.All holds) : a.save.All holds := by
  refine ⟨h.current, fun session hsession => ?_⟩
  rcases List.mem_cons.mp hsession with rfl | hsession
  · exact h.current
  · exact h.saved session hsession

theorem All.update {f : S → S} (h : a.All holds) (hf : holds (f a.current)) :
    (a.update f).All holds := ⟨hf, h.saved⟩

theorem All.undo (h : a.All holds) : a.undo.All holds := by
  obtain ⟨current, revision, _ | ⟨start, rest⟩⟩ := a
  · exact h
  · refine ⟨h.saved start List.mem_cons_self, fun session hsession => ?_⟩
    exact h.saved session (List.mem_cons_of_mem _ hsession)

theorem All.squash (h : a.All holds) : a.squash.All holds := by
  obtain ⟨current, revision, _ | ⟨start, rest⟩⟩ := a
  · exact h
  · exact ⟨h.current, fun session hsession => h.saved session (List.mem_cons_of_mem _ hsession)⟩

theorem All.commit (h : a.All holds) (revision : Int) : (a.commit revision).All holds :=
  ⟨h.current, fun session hsession => h.saved session
    ((List.rdropWhile_prefix _ _).subset hsession)⟩

end SnapshotStack
