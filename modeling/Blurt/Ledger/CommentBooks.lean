import Blurt.Ledger.BooksLaws
import Blurt.Ledger.CommentEvaluators

/-! # The books of comments and votes on comments

Nothing that an author or a voter does is seen in the books.
-/

namespace Blurt

namespace Ledger

namespace Database

variable {db db' : Database}

@[simp] theorem books_setComment (db : Database) (id : Nat) (c : Comment) :
    (db.setComment id c).books = db.books := rfl

theorem updateAncestors_books {change : Nat → Nat} {id turns : Nat}
    (h : db.updateAncestors change id turns = .ok db') : db'.books = db.books := by
  induction turns generalizing db id with
  | zero => cases h
  | succ turns ih =>
      simp only [updateAncestors, Outcome.bind_eq_ok] at h
      obtain ⟨parent, -, h⟩ := h
      split at h
      · simp only [Outcome.bind_eq_ok] at h
        obtain ⟨next, -, h⟩ := h
        rw [ih h, books_setComment]
      · cases h
        rfl

theorem createComment_books {parent : Option (Nat × Comment)} {o : CommentOperation}
    (h : db.createComment parent o = .ok db') : db'.books = db.books := by
  simp only [createComment, Outcome.bind_eq_ok] at h
  obtain ⟨_, -, h⟩ := h
  cases parent with
  | some parent =>
      simp only [Outcome.bind_eq_ok, Outcome.ensure_eq_ok] at h
      obtain ⟨_, -, _, -, _, -, posted, hposted, _, -, _, -, h⟩ := h
      obtain ⟨hquiet, -⟩ := modifyAccount_quiet hposted fun a b hb => by cases hb; rfl
      rw [updateAncestors_books h, ← hquiet]
      rfl
  | none =>
      simp only [Outcome.bind_eq_ok, Outcome.ensure_eq_ok, Outcome.pure_eq_ok] at h
      obtain ⟨_, -, posted, hposted, _, -, _, -, rfl⟩ := h
      obtain ⟨hquiet, -⟩ := modifyAccount_quiet hposted fun a b hb => by cases hb; rfl
      rw [← hquiet]
      rfl

theorem comment_books {rules : TextRules} {o : CommentOperation}
    (h : comment rules db o = .ok db') : db'.books = db.books := by
  simp only [comment, Outcome.bind_eq_ok, Outcome.ensure_eq_ok] at h
  obtain ⟨_, -, _, -, parent, -, _, -, h⟩ := h
  split at h
  · exact createComment_books h
  · simp only [editComment, Outcome.bind_eq_ok, Outcome.ensure_eq_ok] at h
    obtain ⟨_, -, _, -, _, -, _, -, h⟩ := h
    obtain ⟨hquiet, -⟩ := modifyAccount_quiet h fun a b hb => by cases hb; rfl
    rw [hquiet, books_setComment]

theorem commentOptions_books {o : CommentOptionsOperation} (h : db.commentOptions o = .ok db') :
    db'.books = db.books := by
  simp only [commentOptions, Outcome.bind_eq_ok, Outcome.ensure_eq_ok] at h
  obtain ⟨row, -, _, -, _, -, _, -, _, -, _, -, h⟩ := h
  apply Outcome.forEach_invariant (fun state => state.books = db.books) _ _ h
  · intro state extension next _ hstate hnext
    rw [← hstate]
    simp only [applyOptionsExtension, Outcome.bind_eq_ok] at hnext
    obtain ⟨c, -, hnext⟩ := hnext
    split at hnext <;>
      · simp only [Outcome.bind_eq_ok, Outcome.ensure_eq_ok, Outcome.pure_eq_ok] at hnext
        aesop
  · exact books_setComment _ _ _

theorem deleteComment_books {o : DeleteCommentOperation} (h : db.deleteComment o = .ok db') :
    db'.books = db.books := by
  simp only [deleteComment, Outcome.bind_eq_ok, Outcome.ensure_eq_ok] at h
  obtain ⟨row, -, _, -, _, -, _, -, h⟩ := h
  split at h <;> simp only [Outcome.bind_eq_ok, Outcome.pure_eq_ok] at h
  · obtain ⟨_, -, orphaned, horphaned, rfl⟩ := h
    have hancestors := updateAncestors_books horphaned
    exact hancestors
  · obtain ⟨orphaned, horphaned, rfl⟩ := h
    cases horphaned
    rfl

theorem recordVote_books {voter : AccountName} {used absRshares : Int} {root : Nat}
    (h : db.recordVote voter used absRshares root = .ok db') : db'.books = db.books := by
  simp only [recordVote, Outcome.bind_eq_ok, Outcome.pure_eq_ok] at h
  obtain ⟨charged, hcharged, _, -, _, -, rfl⟩ := h
  obtain ⟨hquiet, -⟩ := modifyAccount_quiet hcharged fun a b hb => by cases hb; rfl
  rw [books_setComment, hquiet]

theorem vote_books {clearVotes : Bool} {o : VoteOperation} (h : db.vote clearVotes o = .ok db') :
    db'.books = db.books := by
  simp only [vote, Outcome.bind_eq_ok, Outcome.ensure_eq_ok] at h
  obtain ⟨⟨id, comment⟩, -, _, -, _, -, _, -, _, -, h⟩ := h
  split at h
  · cases h
    rw [voteAfterPayout]
    split <;> rfl
  · simp only [Outcome.bind_eq_ok, Outcome.ensure_eq_ok] at h
    obtain ⟨_, -, _, -, _, -, charged, hcharged, _, -, _, -, _, -, _, -, h⟩ := h
    obtain ⟨hcharge, -⟩ :=
      modifyAccount_quiet hcharged fun _ _ => Account.holder_updateManabar
    rw [← hcharge]
    split at h
    · simp only [castVote, Outcome.bind_eq_ok, Outcome.ensure_eq_ok, Outcome.pure_eq_ok] at h
      obtain ⟨_, -, _, -, _, -, recorded, hrecorded, _, -, _, -, rfl⟩ := h
      have hrecord := recordVote_books hrecorded
      exact hrecord
    · simp only [recastVote, Outcome.bind_eq_ok, Outcome.ensure_eq_ok, Outcome.pure_eq_ok] at h
      obtain ⟨_, -, _, -, _, -, _, -, recorded, hrecorded, _, -, rfl⟩ := h
      have hrecord := recordVote_books hrecorded
      exact hrecord

end Database

end Ledger

end Blurt
