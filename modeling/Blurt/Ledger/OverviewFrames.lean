import Blurt.Ledger.Frame

/-! # Quiet updates

The updates that the evaluators and the maintenance are made of keep the overview, so that the
steps within a frame do.
-/

namespace Blurt

namespace Ledger

open Outcome

namespace Database

variable {db : Database}

/-! ## Rows -/

/-- A changed account with its recovery account. -/
theorem setAccount_quiet {name : AccountName} {a b : Account} (ha : db.accounts.find? name = some a)
    (hkeep : a.Kept b) : Quiet db { db with accounts := db.accounts.set name b } := by
  apply Quiet.of_eq
  · simp only [overview, Table.view_quiet ha hkeep.recovery]
  · rfl

theorem Ready.set {name : AccountName} {w v : Witness} (hready : db.Ready)
    (hw : db.witnesses.find? name = some w) (hstill : w.Ready → v.Ready) :
    Ready { db with witnesses := db.witnesses.set name v } := by
  intro other u hu
  rw [Store.find?_set] at hu
  split at hu
  · cases hu
    exact hstill (hready name w hw)
  · exact hready other u hu

/-- A changed witness with what it publishes, still ready. -/
theorem setWitness_quiet {name : AccountName} {w v : Witness} (hw : db.witnesses.find? name = some w)
    (hkeep : v.published = w.published) (hstill : w.Ready → v.Ready) :
    Quiet db { db with witnesses := db.witnesses.set name v } := by
  refine ⟨?_, fun hready => hready.set hw hstill⟩
  simp only [overview, Table.view_quiet hw hkeep]

theorem modifyWitness_quiet {name : AccountName} {f : Witness → Witness}
    (hkeep : ∀ w, (f w).published = w.published) (hstill : ∀ w, w.Ready → (f w).Ready) :
    Quiet db (db.modifyWitness name f) := by
  unfold modifyWitness
  split
  · rename_i w hw
    exact setWitness_quiet hw (hkeep w) (hstill w)
  · exact Keeps.refl _ _

/-- A change of a witness other than of its votes, for those who do not see the witnesses. -/
theorem modifyWitness_keeps {ω : Type} {see : Overview → ω}
    (hsee : ∀ v witnesses, see { v with witnesses } = see v) (name : AccountName)
    {f : Witness → Witness} (hstill : ∀ w, w.Ready → (f w).Ready) :
    Keeps see db (db.modifyWitness name f) := by
  unfold modifyWitness
  split
  · rename_i w hw
    exact ⟨hsee db.overview _, fun hready => hready.set hw (hstill w)⟩
  · exact Keeps.refl _ _

/-- A changed comment at its place. -/
theorem setComment_quiet {id : Nat} {c d : Comment} (hc : db.comments.find? id = some c)
    (hkeep : d.place = c.place) : Quiet db (db.setComment id d) := by
  apply Quiet.of_eq
  · simp only [overview, setComment, Table.view_quiet hc hkeep]
  · rfl

theorem adjustWitnessVote_quiet (witness : AccountName) (delta : Int) :
    Always (db.adjustWitnessVote witness delta) (Quiet db) := by
  intro db' h
  have hupdate : ∃ w v, db.witnesses.find? witness = some w ∧ v.published = w.published ∧
      (w.Ready → v.Ready) ∧ { db with witnesses := db.witnesses.set witness v } = db' := by
    simp only [adjustWitnessVote, getWitness, bind_eq_ok, require_eq_ok] at h
    obtain ⟨w, hw, votes, -, h⟩ := h
    split at h
    · simp only [bind_eq_ok, UInt128.div_eq_ok, pure_eq_ok] at h
      obtain ⟨_, -, _, -, _, ⟨hne, -⟩, h⟩ := h
      refine ⟨w, _, hw, ?_, ?_, h⟩
      · rfl
      · exact fun hready => ⟨fun hzero => hne (congrArg UInt128.ofInt hzero), hready.2⟩
    · simp only [bind_eq_ok, UInt128.div_eq_ok, pure_eq_ok] at h
      obtain ⟨_, -, _, ⟨hne, -⟩, h⟩ := h
      refine ⟨w, _, hw, ?_, ?_, h⟩
      · rfl
      · exact fun hready => ⟨fun hzero => hne (congrArg UInt128.ofInt hzero), hready.2⟩
  obtain ⟨w, v, hw, hkeep, hstill, rfl⟩ := hupdate
  exact setWitness_quiet hw hkeep hstill

/-- The steps that keep the overview are a frame. -/
theorem quiet_frame : Frame Quiet where
  refl db := Keeps.refl _ db
  trans h h' := h.trans h'
  beside := by
    intro db db' h
    simp only [outlook, Outlook.mk.injEq] at h
    obtain ⟨htime, hhead, hwitness, hsize, -, hwso, hprocessed, hhardforks, haccounts, hauth,
      howner, hrequests, hchanges, -, hcomments, -, hwitnesses, -, hnextWitness, hnextComment,
      hnextOwner⟩ := h
    apply Quiet.of_eq
    · simp only [overview, htime, hhead, hwitness, hsize, hwso, hprocessed, hhardforks, haccounts,
        hauth, howner, hrequests, hchanges, hcomments, hwitnesses, hnextWitness, hnextComment,
        hnextOwner]
    · exact hwitnesses
  account ha hkeep := setAccount_quiet ha hkeep
  witness hw hkeep _ hstill := setWitness_quiet hw hkeep hstill
  comment hc hplace _ := setComment_quiet hc hplace
  funds := by
    rintro db db' ⟨⟨funds, rfl⟩, -⟩
    exact Quiet.of_eq rfl rfl
  escrow := Quiet.of_eq rfl rfl
  witnessVote h := adjustWitnessVote_quiet _ _ _ h

end Database

end Ledger

end Blurt
