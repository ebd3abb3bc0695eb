import Blurt.Foundation.Lineage
import Blurt.Ledger.BlockInvariants

/-! # The forest of comments

A comment names its parent by author and permlink. The evaluators climb from a new or a
deleted comment to the root of its discussion and count its descendants on the way, and
`retally_comment_children` counts them anew.
-/

namespace Blurt

namespace Ledger

open Outcome Relation

namespace Database

/-- The loop that climbs from the comment under `id` to the root of its discussion. -/
def climb (change : Comment → Comment) (db : Database) (id : Nat) :
    (turns : Nat) → Except String Database
  | 0 => .error "the parents of a comment form a cycle"
  | turns + 1 => do
      let parent ← db.getCommentById id
      let updated := db.setComment id (change parent)
      if parent.parentAuthor ≠ blurtRootPostParent then
        let (next, _) ← updated.getComment parent.parentAuthor parent.parentPermlink
        updated.climb change next turns
      else
        return updated

/-- The turn of `retally_comment_children` for the comment under `id`. -/
def tallyAncestors (db : Database) (id : Nat) : Except String Database := do
  let c ← db.getCommentById id
  if c.parentAuthor ≠ blurtRootPostParent then
    let (parent, _) ← db.getComment c.parentAuthor c.parentPermlink
    db.climb (fun c => { c with children := increment 32 c.children }) parent
      (db.comments.rows.length + 1)
  else
    return db

/-- The first loop of `retally_comment_children`. -/
def clearChildren (db : Database) (ids : List Nat) : Database :=
  ids.foldl (fun db id =>
    match db.comments.find? id with
    | some c => db.setComment id { c with children := 0 }
    | none => db) db

/-- The comments in the order of their ids. -/
def commentIds (db : Database) : List Nat :=
  (db.comments.ordered (fun x y => x.1 ≤ y.1) fun _ _ => true).map Prod.fst

/-- `retally_comment_children` of a node that keeps all data. -/
def retallyCommentChildren (db : Database) : Except String Database :=
  Outcome.forEach tallyAncestors (db.clearChildren db.commentIds) db.commentIds

end Database

/-! ## Parents -/

/-- A place without its count. -/
def Place.frame (p : Place) : Place := { p with children := 0 }

/-- The comment under `a` is the one that the comment under `i` names as its parent. -/
def IsParent (t : Table Nat Place) (a i : Nat) : Prop :=
  ∃ p q, t.find? i = some p ∧ t.find? a = some q ∧ p.parentAuthor ≠ blurtRootPostParent ∧
    q.author = p.parentAuthor ∧ q.permlink = p.parentPermlink

/-- The forest up to its counts: names are unique, and a reply takes its place from its
parent. -/
structure Shaped (t : Table Nat Place) (next : Nat) : Prop where
  fresh : ∀ {i p}, t.find? i = some p → i < next
  unique : ∀ {i j p q}, t.find? i = some p → t.find? j = some q → p.author = q.author →
    p.permlink = q.permlink → i = j
  root : ∀ {i p}, t.find? i = some p → p.parentAuthor = blurtRootPostParent →
    p.depth = 0 ∧ p.rootComment = i
  reply : ∀ {i p}, t.find? i = some p → p.parentAuthor ≠ blurtRootPostParent →
    ∃ a q, t.find? a = some q ∧ q.author = p.parentAuthor ∧ q.permlink = p.parentPermlink ∧
      p.depth = q.depth + 1 ∧ p.depth < 2 ^ 16 ∧ p.rootComment = q.rootComment ∧
      p.category = q.category

/-- Every comment counts its descendants. -/
def Counted (t : Table Nat Place) : Prop :=
  ∀ a p, t.find? a = some p → p.children = (Lineage.descendants (IsParent t) t.keys a).card

/-- Tables that differ in counts only. -/
def SameFrames (t t' : Table Nat Place) : Prop :=
  ∀ k, (t.find? k).map Place.frame = (t'.find? k).map Place.frame

section Frames

variable {t t' : Table Nat Place}

theorem SameFrames.symm (h : SameFrames t t') : SameFrames t' t := fun k => (h k).symm

theorem SameFrames.found (h : SameFrames t t') {k : Nat} {p : Place} (hp : t.find? k = some p) :
    ∃ p', t'.find? k = some p' ∧ p'.frame = p.frame := by
  have hk := h k
  rw [hp, Option.map_some] at hk
  exact Option.map_eq_some_iff.mp hk.symm

theorem SameFrames.isParent_of (h : SameFrames t t') {a i : Nat} (hparent : IsParent t a i) :
    IsParent t' a i := by
  obtain ⟨p, q, hp, hq, hreply, hauthor, hpermlink⟩ := hparent
  obtain ⟨p', hp', hframe⟩ := h.found hp
  obtain ⟨q', hq', hframe'⟩ := h.found hq
  simp only [Place.frame, Place.mk.injEq] at hframe hframe'
  exact ⟨p', q', hp', hq', by simp_all, by simp_all, by simp_all⟩

theorem SameFrames.isParent (h : SameFrames t t') (a i : Nat) : IsParent t a i ↔ IsParent t' a i :=
  ⟨h.isParent_of, h.symm.isParent_of⟩

theorem SameFrames.shaped (h : SameFrames t t') {next : Nat} (hshaped : Shaped t next) :
    Shaped t' next where
  fresh := by
    intro i p hp
    obtain ⟨p', hp', -⟩ := h.symm.found hp
    exact hshaped.fresh hp'
  unique := by
    intro i j p q hp hq hauthor hpermlink
    obtain ⟨p', hp', hframe⟩ := h.symm.found hp
    obtain ⟨q', hq', hframe'⟩ := h.symm.found hq
    simp only [Place.frame, Place.mk.injEq] at hframe hframe'
    apply hshaped.unique hp' hq'
    · simp_all
    · simp_all
  root := by
    intro i p hp hroot
    obtain ⟨p', hp', hframe⟩ := h.symm.found hp
    simp only [Place.frame, Place.mk.injEq] at hframe
    have := hshaped.root hp' (by simp_all)
    simp_all
  reply := by
    intro i p hp hreply
    obtain ⟨p', hp', hframe⟩ := h.symm.found hp
    simp only [Place.frame, Place.mk.injEq] at hframe
    obtain ⟨hcategory, hparentAuthor, hparentPermlink, -, -, hdepth, -, hroot⟩ := hframe
    obtain ⟨a, q, hq, hplace⟩ := hshaped.reply hp' (hparentAuthor ▸ hreply)
    obtain ⟨q', hq', hframe'⟩ := h.found hq
    simp only [Place.frame, Place.mk.injEq] at hframe'
    obtain ⟨hcategory', -, -, hauthor', hpermlink', hdepth', -, hroot'⟩ := hframe'
    refine ⟨a, q', hq', ?_⟩
    rw [hauthor', hpermlink', hdepth', hroot', hcategory', ← hparentAuthor, ← hparentPermlink,
      ← hdepth, ← hroot, ← hcategory]
    exact hplace

end Frames

namespace Shaped

variable {t : Table Nat Place} {next : Nat}

/-- A comment names one parent. -/
theorem parent_unique (h : Shaped t next) {a b i : Nat} (ha : IsParent t a i)
    (hb : IsParent t b i) : a = b := by
  obtain ⟨p, q, hp, hq, -, hauthor, hpermlink⟩ := ha
  obtain ⟨p', q', hp', hq', -, hauthor', hpermlink'⟩ := hb
  rw [hp, Option.some.injEq] at hp'
  subst hp'
  exact h.unique hq hq' (hauthor.trans hauthor'.symm) (hpermlink.trans hpermlink'.symm)

/-- How deep the comment under `i` is. -/
def depthOf (t : Table Nat Place) (i : Nat) : Nat := ((t.find? i).map (·.depth)).getD 0

theorem depthOf_found {i : Nat} {p : Place} (hp : t.find? i = some p) : depthOf t i = p.depth := by
  simp [depthOf, hp]

theorem depthOf_child (h : Shaped t next) (a i : Nat) (hparent : IsParent t a i) :
    depthOf t i = depthOf t a + 1 := by
  obtain ⟨p, q, hp, hq, hreply, hauthor, hpermlink⟩ := hparent
  obtain ⟨b, q', hq', hauthor', hpermlink', hdepth, -⟩ := h.reply hp hreply
  have hb : a = b :=
    h.unique hq hq' (hauthor.trans hauthor'.symm) (hpermlink.trans hpermlink'.symm)
  subst hb
  rw [hq, Option.some.injEq] at hq'
  subst hq'
  rw [depthOf_found hp, depthOf_found hq, hdepth]

theorem not_self_ancestor (h : Shaped t next) (i : Nat) : ¬ TransGen (IsParent t) i i :=
  fun hself => lt_irrefl _ (Lineage.ancestor_lt h.depthOf_child hself)

/-- The line above a reply is the reply and the line above its parent. -/
theorem line_reply (h : Shaped t next) {a i : Nat} (hparent : IsParent t a i) (k : Nat) :
    ReflTransGen (IsParent t) k i ↔ k = i ∨ ReflTransGen (IsParent t) k a := by
  constructor
  · intro hline
    rcases ReflTransGen.cases_tail hline with heq | ⟨b, hb, hedge⟩
    · exact Or.inl heq.symm
    · rw [h.parent_unique hparent hedge]
      exact Or.inr hb
  · rintro (rfl | hline)
    · exact .refl
    · exact hline.tail hparent

/-- The line above a root is the root. -/
theorem line_root {i : Nat} (hroot : ∀ a, ¬ IsParent t a i) (k : Nat) :
    ReflTransGen (IsParent t) k i ↔ k = i := by
  constructor
  · intro hline
    rcases ReflTransGen.cases_tail hline with heq | ⟨b, -, hedge⟩
    · exact heq.symm
    · exact absurd hedge (hroot b)
  · rintro rfl
    exact .refl

/-- The comments above a comment have all smaller depths. -/
theorem exists_depth (h : Shaped t next) {i : Nat} {p : Place} (hp : t.find? i = some p) {d : Nat}
    (hd : d ≤ p.depth) : ∃ a ∈ t.keys, depthOf t a = d := by
  obtain heq | hlt := Nat.eq_or_lt_of_le hd
  · refine ⟨i, ?_, ?_⟩
    · exact Finmap.mem_keys.mpr (Finmap.mem_of_lookup_eq_some hp)
    · rw [depthOf_found hp, heq]
  · have hreply : p.parentAuthor ≠ blurtRootPostParent := by
      intro hroot
      have := (h.root hp hroot).1
      omega
    obtain ⟨a, q, hq, -, -, hdepth, -⟩ := h.reply hp hreply
    exact h.exists_depth hq (by omega)
termination_by p.depth

/-- A comment is less deep than there are comments. -/
theorem depth_lt_card (h : Shaped t next) {i : Nat} {p : Place} (hp : t.find? i = some p) :
    p.depth < t.keys.card := by
  have hsub : Finset.range (p.depth + 1) ⊆ t.keys.image (depthOf t) := by
    intro d hd
    obtain ⟨a, ha, hdepth⟩ := h.exists_depth hp (Nat.lt_succ_iff.mp (Finset.mem_range.mp hd))
    exact Finset.mem_image.mpr ⟨a, ha, hdepth⟩
  have hcard := (Finset.card_le_card hsub).trans Finset.card_image_le
  rw [Finset.card_range] at hcard
  exact hcard

/-- There are no more comments than ids. -/
theorem card_le (h : Shaped t next) : t.keys.card ≤ next := by
  have hsub : t.keys ⊆ Finset.range next := by
    intro i hi
    obtain ⟨p, hp⟩ := Finmap.mem_iff.mp (Finmap.mem_keys.mp hi)
    exact Finset.mem_range.mpr (h.fresh hp)
  simpa using Finset.card_le_card hsub

end Shaped

/-! ## Climbing -/

namespace Database

variable {db : Database}

/-- The forest of the comments of a database. -/
def forest (db : Database) : Table Nat Place := db.comments.view Comment.place

theorem find?_forest (k : Nat) : db.forest.find? k = (db.comments.find? k).map Comment.place := by
  rw [forest, Table.find?_view]

theorem getComment_named (author : AccountName) (permlink : Text) :
    Always (db.getComment author permlink) fun row => db.comments.find? row.1 = some row.2 ∧
      row.2.author = author ∧ row.2.permlink = permlink := by
  intro row h
  refine ⟨getComment_found author permlink row h, ?_⟩
  rw [getComment, require_eq_ok, findComment] at h
  simpa using List.find?_some h

/-- Where names are unique a comment is found by its name. -/
theorem getComment_of_found {next : Nat} (hshaped : Shaped db.forest next) {a : Nat} {q : Comment}
    (hq : db.comments.find? a = some q) : db.getComment q.author q.permlink = .ok (a, q) := by
  have hfound : (db.findComment q.author q.permlink).isSome := by
    rw [findComment, List.find?_isSome]
    exact ⟨(a, q), Store.mem_rows_iff.mpr hq, by simp⟩
  obtain ⟨⟨b, q'⟩, hrow⟩ := Option.isSome_iff_exists.mp hfound
  have hget : db.getComment q.author q.permlink = .ok (b, q') := by
    rw [getComment, hrow]
    rfl
  obtain ⟨hq', hauthor, hpermlink⟩ := getComment_named _ _ _ hget
  have hb : b = a := by
    apply hshaped.unique (p := q'.place) (q := q.place)
    · rw [find?_forest, hq', Option.map_some]
    · rw [find?_forest, hq, Option.map_some]
    · exact hauthor
    · exact hpermlink
  subst hb
  cases hq'.symm.trans hq
  exact hget

theorem isParent_of_named {a i : Nat} {c q : Comment} (hc : db.comments.find? i = some c)
    (hq : db.comments.find? a = some q) (hreply : c.parentAuthor ≠ blurtRootPostParent)
    (hauthor : q.author = c.parentAuthor) (hpermlink : q.permlink = c.parentPermlink) :
    IsParent db.forest a i := by
  refine ⟨c.place, q.place, ?_, ?_, hreply, hauthor, hpermlink⟩
  · rw [find?_forest, hc, Option.map_some]
  · rw [find?_forest, hq, Option.map_some]

theorem not_isParent_root {a i : Nat} {c : Comment} (hc : db.comments.find? i = some c)
    (hroot : c.parentAuthor = blurtRootPostParent) : ¬ IsParent db.forest a i := by
  rintro ⟨p, -, hp, -, hreply, -⟩
  rw [find?_forest, hc, Option.map_some, Option.some.injEq] at hp
  subst hp
  exact hreply hroot

theorem setComment_sameFrames {id : Nat} {c d : Comment} (hc : db.comments.find? id = some c)
    (hd : d.place.frame = c.place.frame) : SameFrames db.forest (db.setComment id d).forest := by
  intro k
  rw [find?_forest, find?_forest, setComment, Store.find?_set]
  by_cases hk : k = id
  · rw [if_pos hk, hk, hc, Option.map_some, Option.map_some, Option.map_some, Option.map_some, hd]
  · rw [if_neg hk]

/-- A climb changes nothing but comments. -/
theorem climb_rest (change : Comment → Comment) (id turns : Nat) :
    Always (db.climb change id turns) fun db' => db' = { db with comments := db'.comments } := by
  induction turns generalizing db id with
  | zero => exact .error _
  | succ turns ih =>
      refine .skip fun parent => ?_
      dsimp only
      split
      · exact .skip fun next => (ih _).mono fun _ h => h
      · exact .pure rfl

open Classical in
/-- What is seen of the comments when the line above `id` has been changed. -/
theorem climb_spec {change : Comment → Comment}
    (hchange : ∀ c, (change c).place.frame = c.place.frame) {next : Nat}
    (hshaped : Shaped db.forest next) {id turns : Nat} :
    Always (db.climb change id turns) fun db' =>
      ∀ k, db'.comments.find? k = if ReflTransGen (IsParent db.forest) k id
        then (db.comments.find? k).map change else db.comments.find? k := by
  induction turns generalizing db id with
  | zero => exact .error _
  | succ turns ih =>
      refine (getCommentById_found id).bind fun c hc => ?_
      have hframes := setComment_sameFrames hc (hchange c)
      have hset : ∀ k, (db.setComment id (change c)).comments.find? k =
          if k = id then some (change c) else db.comments.find? k := fun k => Store.find?_set _ _ _ _
      dsimp only
      split
      · rename_i hreply
        refine (getComment_named _ _).bind fun row hrow => ?_
        obtain ⟨hrow, hauthor, hpermlink⟩ := hrow
        refine (ih (hframes.shaped hshaped)).mono fun db' h k => ?_
        -- the parent is the same comment before and after the change of its reply
        have hparent : IsParent db.forest row.1 id := by
          apply (hframes.isParent _ _).mpr
          apply isParent_of_named (c := change c) (hset id ▸ if_pos rfl) hrow
          all_goals
            have hplace := hchange c
            simp only [Comment.place, Place.frame, Place.mk.injEq] at hplace
            simp_all
        have hline : IsParent (db.setComment id (change c)).forest = IsParent db.forest :=
          funext fun a => funext fun i => propext (hframes.isParent a i).symm
        rw [h k, hset k, hline]
        by_cases hk : k = id
        · subst hk
          have habove : ¬ ReflTransGen (IsParent db.forest) k row.1 := fun hline =>
            hshaped.not_self_ancestor k (TransGen.tail' hline hparent)
          rw [if_neg habove, if_pos rfl, if_pos .refl, hc, Option.map_some]
        · have habove := hshaped.line_reply hparent k
          rw [or_iff_right hk] at habove
          simp only [habove, if_neg hk]
      · rename_i hroot
        refine .pure fun k => ?_
        have habove := Shaped.line_root (fun a => not_isParent_root (a := a) hc (not_not.mp hroot)) k
        rw [hset k]
        by_cases hk : k = id
        · rw [if_pos hk, if_pos (habove.mpr hk), hk, hc, Option.map_some]
        · rw [if_neg hk, if_neg (mt habove.mp hk)]

/-- A climb with more turns than the comment is deep comes to the root. -/
theorem climb_ok {change : Comment → Comment}
    (hchange : ∀ c, (change c).place.frame = c.place.frame) {next : Nat}
    (hshaped : Shaped db.forest next) {id turns : Nat} {c : Comment}
    (hc : db.comments.find? id = some c) (hturns : c.depth < turns) :
    ∃ db', db.climb change id turns = .ok db' := by
  induction turns generalizing db id c with
  | zero => exact absurd hturns (Nat.not_lt_zero _)
  | succ turns ih =>
      have hframes := setComment_sameFrames hc (hchange c)
      have hshaped' := hframes.shaped hshaped
      have hget : db.getCommentById id = .ok c := require_eq_ok.mpr hc
      rw [climb, hget, ok_bind]
      dsimp only
      split
      · rename_i hreply
        have hplace : (db.setComment id (change c)).forest.find? id = some (change c).place := by
          rw [find?_forest, setComment, Store.find?_set_self, Option.map_some]
        have hsame := hchange c
        simp only [Comment.place, Place.frame, Place.mk.injEq] at hsame
        obtain ⟨-, hparentAuthor, hparentPermlink, -, -, hdepth, -⟩ := hsame
        have hreply' : (change c).parentAuthor ≠ blurtRootPostParent := hparentAuthor ▸ hreply
        obtain ⟨a, q, hq, hauthor, hpermlink, hdepthParent, -⟩ := hshaped'.reply hplace hreply'
        rw [find?_forest, Option.map_eq_some_iff] at hq
        obtain ⟨parent, hfound, rfl⟩ := hq
        have hparent := getComment_of_found hshaped' hfound
        simp only [Comment.place] at hauthor hpermlink hdepthParent
        rw [hauthor, hpermlink, hparentAuthor, hparentPermlink] at hparent
        rw [hparent, ok_bind]
        apply ih hshaped' hfound
        omega
      · exact ⟨_, rfl⟩

/-! ## The count of `retally_comment_children` -/

theorem card_keys_forest : db.forest.keys.card = db.comments.rows.length := by
  simp [forest, Store.view, Store.mapRows, Store.rows, Finmap.keys, List.keys]

theorem find?_clearChildren (ids : List Nat) (k : Nat) :
    (db.clearChildren ids).comments.find? k = if k ∈ ids
      then (db.comments.find? k).map fun c => { c with children := 0 }
      else db.comments.find? k := by
  induction ids generalizing db with
  | nil => simp [clearChildren]
  | cons id rest ih =>
      rw [clearChildren, List.foldl_cons, ← clearChildren, ih]
      by_cases hk : k = id
      · subst hk
        cases hc : db.comments.find? k with
        | none => simp [hc]
        | some c =>
            by_cases hmem : k ∈ rest <;> simp [setComment, hmem]
      · have hfind : ∀ c, (db.setComment id c).comments.find? k = db.comments.find? k :=
          fun c => Store.find?_set_of_ne hk c db.comments
        cases hc : db.comments.find? id with
        | none => simp [hk]
        | some c => simp [hk, hfind]

/-- The comment under `k` when it has been counted `n` times. -/
def countUp (n : Nat) (c : Comment) : Comment :=
  { c with children := (increment 32)^[n] c.children }

theorem map_countUp_zero {c : Option Comment} : c.map (countUp 0) = c := by
  cases c <;> rfl

theorem iterate_increment (n : Nat) : (increment 32)^[n] 0 = n % 2 ^ 32 := by
  induction n with
  | zero => rfl
  | succ n ih =>
      rw [Function.iterate_succ_apply', ih, increment]
      omega

theorem sameFrames_of_find? {db' : Database} (f : Nat → Comment → Comment)
    (hf : ∀ k c, (f k c).place.frame = c.place.frame)
    (h : ∀ k, db'.comments.find? k = (db.comments.find? k).map (f k)) :
    SameFrames db.forest db'.forest := by
  intro k
  rw [find?_forest, find?_forest, h k]
  cases db.comments.find? k with
  | none => rfl
  | some c => simp [hf]

open Classical in
/-- One turn counts the comment at every comment above it. -/
theorem tallyAncestors_spec {next : Nat} (hshaped : Shaped db.forest next) {id : Nat} {c : Comment}
    (hc : db.comments.find? id = some c) : ∃ db', db.tallyAncestors id = .ok db' ∧
      db' = { db with comments := db'.comments } ∧
      ∀ k, db'.comments.find? k = (db.comments.find? k).map
        (countUp (if TransGen (IsParent db.forest) k id then 1 else 0)) := by
  have hget : db.getCommentById id = .ok c := require_eq_ok.mpr hc
  have hfound : db.forest.find? id = some c.place := by
    rw [find?_forest, hc, Option.map_some]
  rw [tallyAncestors, hget, ok_bind]
  split
  · rename_i hreply
    obtain ⟨a, q, hq, hauthor, hpermlink, -⟩ := hshaped.reply hfound hreply
    rw [find?_forest, Option.map_eq_some_iff] at hq
    obtain ⟨parent, hparent, rfl⟩ := hq
    have hedge := isParent_of_named hc hparent hreply hauthor hpermlink
    have hnamed := getComment_of_found hshaped hparent
    simp only [Comment.place] at hauthor hpermlink
    rw [hauthor, hpermlink] at hnamed
    have hdepth : parent.depth < db.comments.rows.length + 1 := by
      have hlt := hshaped.depth_lt_card (i := a) (p := parent.place) (by
        rw [find?_forest, hparent, Option.map_some])
      rw [card_keys_forest] at hlt
      exact Nat.lt_succ_of_lt hlt
    have hchange : ∀ c : Comment,
        ({ c with children := increment 32 c.children } : Comment).place.frame = c.place.frame :=
      fun _ => rfl
    obtain ⟨db', hclimb⟩ := climb_ok hchange hshaped hparent hdepth
    have hfind := climb_spec hchange hshaped db' hclimb
    rw [hnamed, ok_bind]
    refine ⟨db', hclimb, climb_rest _ _ _ db' hclimb, fun k => ?_⟩
    have habove : TransGen (IsParent db.forest) k id ↔ ReflTransGen (IsParent db.forest) k a := by
      rw [TransGen.tail'_iff]
      constructor
      · rintro ⟨b, hline, hparent⟩
        rw [hshaped.parent_unique hedge hparent]
        exact hline
      · exact fun hline => ⟨a, hline, hedge⟩
    rw [hfind k]
    by_cases hline : ReflTransGen (IsParent db.forest) k a
    · rw [if_pos hline, if_pos (habove.mpr hline)]
      rfl
    · rw [if_neg hline, if_neg (mt habove.mp hline)]
      exact map_countUp_zero.symm
  · rename_i hroot
    refine ⟨db, rfl, rfl, fun k => ?_⟩
    have hnone : ¬ TransGen (IsParent db.forest) k id := by
      intro hdescends
      obtain ⟨a, -, hedge⟩ := TransGen.tail'_iff.mp hdescends
      exact not_isParent_root hc (not_not.mp hroot) hedge
    rw [if_neg hnone]
    exact map_countUp_zero.symm

open Classical in
/-- The second loop of `retally_comment_children` counts descendants. -/
theorem tally_spec {next : Nat} (hshaped : Shaped db.forest next) {ids : List Nat}
    (hids : ∀ id ∈ ids, (db.comments.find? id).isSome) :
    ∃ db', Outcome.forEach tallyAncestors db ids = .ok db' ∧
      db' = { db with comments := db'.comments } ∧
      ∀ k, db'.comments.find? k = (db.comments.find? k).map
        (countUp (ids.filter fun id => TransGen (IsParent db.forest) k id).length) := by
  induction ids generalizing db with
  | nil => exact ⟨db, rfl, rfl, fun k => map_countUp_zero.symm⟩
  | cons id rest ih =>
      obtain ⟨c, hc⟩ := Option.isSome_iff_exists.mp (hids id List.mem_cons_self)
      obtain ⟨counted, hcounted, hrest, hfind⟩ := tallyAncestors_spec hshaped hc
      have hframes : SameFrames db.forest counted.forest :=
        sameFrames_of_find? (fun k => countUp (if TransGen (IsParent db.forest) k id then 1 else 0))
          (fun _ _ => rfl) hfind
      have hline : IsParent counted.forest = IsParent db.forest :=
        funext fun a => funext fun i => propext (hframes.isParent a i).symm
      have hids' : ∀ id ∈ rest, (counted.comments.find? id).isSome := by
        intro id hid
        rw [hfind, Option.isSome_map]
        exact hids id (List.mem_cons_of_mem _ hid)
      obtain ⟨db', hdb', hrest', hfind'⟩ := ih (hframes.shaped hshaped) hids'
      refine ⟨db', forEach_cons_eq_ok.mpr ⟨counted, hcounted, hdb'⟩, ?_, fun k => ?_⟩
      · rw [hrest', hrest]
      · rw [hfind', hfind, hline, Option.map_map]
        congr 1
        funext c
        by_cases habove : TransGen (IsParent db.forest) k id
        · simp [countUp, habove]
        · simp [countUp, habove]

end Database

end Ledger

end Blurt
