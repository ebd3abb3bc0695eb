import Blurt.Ledger.CommentForest
import Blurt.Ledger.GenesisLaws
import Blurt.Ledger.ScheduleLaws

/-! # Laws of the forest of comments

A new comment is a leaf, and only a leaf is deleted. Each changes the counts of the line
above it by one, so every count stays the number of descendants as long as it has room for
it: a count is a number of 32 bits.
-/

namespace Blurt

namespace Ledger

open Outcome Relation

/-! ## Leaves -/

/-- `place` is that of a leaf under `parent`, or of a root, that is not in `t`. -/
structure Placed (t : Table Nat Place) (parent : Option Nat) (id : Nat) (place : Place) : Prop where
  unnamed : ∀ i p, t.find? i = some p → ¬ (p.author = place.author ∧ p.permlink = place.permlink)
  root : parent = none → place.parentAuthor = blurtRootPostParent ∧ place.depth = 0 ∧
    place.rootComment = id
  reply : ∀ a, parent = some a → place.parentAuthor ≠ blurtRootPostParent ∧
    ∃ q, t.find? a = some q ∧ q.author = place.parentAuthor ∧ q.permlink = place.parentPermlink ∧
      place.depth = q.depth + 1 ∧ place.depth < 2 ^ 16 ∧ place.rootComment = q.rootComment ∧
      place.category = q.category

theorem mem_keys {t : Table Nat Place} {k : Nat} : k ∈ t.keys ↔ (t.find? k).isSome := by
  rw [Finmap.mem_keys, Table.find?, Finmap.lookup_isSome]

theorem keys_set (t : Table Nat Place) (k : Nat) (p : Place) :
    (t.set k p).keys = insert k t.keys := by
  ext key
  rw [mem_keys, Table.find?_set, Finset.mem_insert, mem_keys]
  by_cases hkey : key = k <;> simp [hkey]

theorem set_remove {t : Table Nat Place} {k : Nat} {p : Place} (hp : t.find? k = some p) :
    (t.remove k).set k p = t := by
  apply Table.ext_find?
  intro key
  rw [Table.find?_set, Table.find?_remove]
  by_cases hkey : key = k
  · rw [if_pos hkey, hkey, hp]
  · rw [if_neg hkey, if_neg hkey]

namespace Placed

variable {t : Table Nat Place} {next id : Nat} {parent : Option Nat} {place : Place}

/-- The only new edge is the one above the leaf. -/
theorem grafts (h : Placed t parent id place) (hshaped : Shaped t next) (hid : t.find? id = none) :
    Lineage.Grafts (fun a => parent = some a) id (IsParent t) (IsParent (t.set id place)) := by
  have hne : ∀ {k p}, t.find? k = some p → k ≠ id := by
    rintro k p hp rfl
    rw [hid] at hp
    cases hp
  have hedge : ∀ a i, IsParent (t.set id place) a i ↔
      IsParent t a i ∨ (parent = some a ∧ i = id) := by
    intro a i
    constructor
    · rintro ⟨p, q, hp, hq, hreply, hauthor, hpermlink⟩
      rw [Table.find?_set] at hp hq
      by_cases hi : i = id
      · -- the edge ends at the leaf
        rw [if_pos hi, Option.some.injEq] at hp
        subst hp
        cases hparent : parent with
        | none => exact absurd (h.root hparent).1 hreply
        | some b =>
            obtain ⟨-, q', hq', hauthor', hpermlink', -⟩ := h.reply b hparent
            by_cases ha : a = id
            · rw [if_pos ha, Option.some.injEq] at hq
              subst hq
              exact absurd ⟨hauthor'.trans hauthor.symm, hpermlink'.trans hpermlink.symm⟩
                (h.unnamed b q' hq')
            · rw [if_neg ha] at hq
              have hab := hshaped.unique hq hq' (hauthor.trans hauthor'.symm)
                (hpermlink.trans hpermlink'.symm)
              exact Or.inr ⟨congrArg some hab.symm, hi⟩
      · rw [if_neg hi] at hp
        by_cases ha : a = id
        · -- no old reply names the leaf
          rw [if_pos ha, Option.some.injEq] at hq
          subst hq
          obtain ⟨b, q', hq', hauthor', hpermlink', -⟩ := hshaped.reply hp hreply
          exact absurd ⟨hauthor'.trans hauthor.symm, hpermlink'.trans hpermlink.symm⟩
            (h.unnamed b q' hq')
        · rw [if_neg ha] at hq
          exact Or.inl ⟨p, q, hp, hq, hreply, hauthor, hpermlink⟩
    · rintro (⟨p, q, hp, hq, hedge⟩ | ⟨hparent, rfl⟩)
      · refine ⟨p, q, ?_, ?_, hedge⟩
        · rw [Table.find?_set, if_neg (hne hp), hp]
        · rw [Table.find?_set, if_neg (hne hq), hq]
      · obtain ⟨hreply, q, hq, hauthor, hpermlink, -⟩ := h.reply a hparent
        refine ⟨place, q, ?_, ?_, hreply, hauthor, hpermlink⟩
        · rw [Table.find?_set, if_pos rfl]
        · rw [Table.find?_set, if_neg (hne hq), hq]
  refine ⟨hedge, ?_, ?_⟩
  · intro i hi
    rcases (hedge id i).mp hi with ⟨-, q, -, hq, -⟩ | ⟨hparent, -⟩
    · exact hne hq rfl
    · obtain ⟨-, q, hq, -⟩ := h.reply id hparent
      exact hne hq rfl
  · rintro a ⟨p, -, hp, -⟩
    exact hne hp rfl

/-- With the leaf the forest is well shaped. -/
theorem shaped (h : Placed t parent next place) (hshaped : Shaped t next) :
    Shaped (t.set next place) (next + 1) := by
  have hfind : ∀ k, (t.set next place).find? k = if k = next then some place else t.find? k :=
    fun k => Table.find?_set k next place t
  have hold : ∀ {k p}, t.find? k = some p → (t.set next place).find? k = some p := by
    intro k p hp
    rw [hfind, if_neg (Nat.ne_of_lt (hshaped.fresh hp)), hp]
  have hcases : ∀ {k p}, (t.set next place).find? k = some p →
      (k = next ∧ p = place) ∨ t.find? k = some p := by
    intro k p hp
    rw [hfind] at hp
    split at hp
    · rename_i hk
      exact Or.inl ⟨hk, (Option.some.inj hp).symm⟩
    · exact Or.inr hp
  refine ⟨?_, ?_, ?_, ?_⟩
  · intro i p hp
    rcases hcases hp with ⟨rfl, -⟩ | hp
    · exact Nat.lt_succ_self _
    · exact Nat.lt_succ_of_lt (hshaped.fresh hp)
  · intro i j p q hp hq hauthor hpermlink
    rcases hcases hp with ⟨hi, rfl⟩ | hp'
    · rcases hcases hq with ⟨hj, -⟩ | hq'
      · rw [hi, hj]
      · exact absurd ⟨hauthor.symm, hpermlink.symm⟩ (h.unnamed j q hq')
    · rcases hcases hq with ⟨-, rfl⟩ | hq'
      · exact absurd ⟨hauthor, hpermlink⟩ (h.unnamed i p hp')
      · exact hshaped.unique hp' hq' hauthor hpermlink
  · intro i p hp hroot
    rcases hcases hp with ⟨rfl, rfl⟩ | hp
    · cases hparent : parent with
      | none => exact (h.root hparent).2
      | some a => exact absurd hroot (h.reply a hparent).1
    · exact hshaped.root hp hroot
  · intro i p hp hreply
    rcases hcases hp with ⟨rfl, rfl⟩ | hp
    · cases hparent : parent with
      | none => exact absurd (h.root hparent).1 hreply
      | some a =>
          obtain ⟨-, q, hq, hplace⟩ := h.reply a hparent
          exact ⟨a, q, hold hq, hplace⟩
    · obtain ⟨a, q, hq, hplace⟩ := hshaped.reply hp hreply
      exact ⟨a, q, hold hq, hplace⟩

end Placed

namespace Shaped

variable {t : Table Nat Place} {next id : Nat} {place : Place}

/-- Without a leaf the forest is well shaped. -/
theorem remove (h : Shaped t next) (hchildless : ∀ i, ¬ IsParent t id i) :
    Shaped (t.remove id) next := by
  have hold : ∀ {k p}, (t.remove id).find? k = some p → t.find? k = some p := by
    intro k p hp
    rw [Table.find?_remove] at hp
    split at hp
    · cases hp
    · exact hp
  refine ⟨fun hp => h.fresh (hold hp), fun hp hq => h.unique (hold hp) (hold hq),
    fun hp => h.root (hold hp), ?_⟩
  intro i p hp hreply
  obtain ⟨a, q, hq, hauthor, hpermlink, hplace⟩ := h.reply (hold hp) hreply
  have ha : a ≠ id := by
    rintro rfl
    exact hchildless i ⟨p, q, hold hp, hq, hreply, hauthor, hpermlink⟩
  refine ⟨a, q, ?_, hauthor, hpermlink, hplace⟩
  rw [Table.find?_remove, if_neg ha, hq]

/-- A comment is a leaf of the forest without it, if nothing replies to it. -/
theorem placed (h : Shaped t next) (hplace : t.find? id = some place)
    (hchildless : ∀ i, ¬ IsParent t id i) : ∃ parent, Placed (t.remove id) parent id place ∧
      ∀ a, parent = some a ↔ IsParent t a id := by
  have hfind : ∀ k, (t.remove id).find? k = if k = id then none else t.find? k :=
    fun k => Table.find?_remove k id t
  have hunnamed : ∀ i p, (t.remove id).find? i = some p →
      ¬ (p.author = place.author ∧ p.permlink = place.permlink) := by
    rintro i p hp ⟨hauthor, hpermlink⟩
    rw [hfind] at hp
    split at hp
    · cases hp
    · rename_i hi
      exact hi (h.unique hp hplace hauthor hpermlink)
  by_cases hreply : place.parentAuthor = blurtRootPostParent
  · refine ⟨none, ⟨hunnamed, fun _ => ⟨hreply, h.root hplace hreply⟩, ?_⟩, ?_⟩
    · rintro a ⟨⟩
    · intro a
      constructor
      · rintro ⟨⟩
      · rintro ⟨p, -, hp, -, hreply', -⟩
        rw [hplace, Option.some.injEq] at hp
        subst hp
        exact absurd hreply hreply'
  · obtain ⟨a, q, hq, hauthor, hpermlink, hrest⟩ := h.reply hplace hreply
    have hedge : IsParent t a id := ⟨place, q, hplace, hq, hreply, hauthor, hpermlink⟩
    refine ⟨some a, ⟨hunnamed, ?_, ?_⟩, ?_⟩
    · rintro ⟨⟩
    · rintro b ⟨⟩
      refine ⟨hreply, q, ?_, hauthor, hpermlink, hrest⟩
      rw [hfind, if_neg, hq]
      rintro rfl
      exact hchildless a hedge
    · intro b
      constructor
      · rintro ⟨⟩
        exact hedge
      · exact fun hb => congrArg some (h.parent_unique hedge hb)

end Shaped

/-! ## Counts -/

section Counts

open Classical

/-- The counts of the line from `parent` to the root changed. -/
noncomputable def recount (t : Table Nat Place) (parent : Option Nat) (change : Nat → Nat) :
    Table Nat Place :=
  t.mapRows fun k p => if ∃ a, parent = some a ∧ ReflTransGen (IsParent t) k a
    then { p with children := change p.children } else p

variable {t : Table Nat Place} {next id : Nat} {parent : Option Nat} {place : Place}

theorem recount_sameFrames (change : Nat → Nat) : SameFrames t (recount t parent change) := by
  intro k
  rw [recount, Table.find?_mapRows]
  cases t.find? k with
  | none => rfl
  | some p => by_cases hline : ∃ a, parent = some a ∧ ReflTransGen (IsParent t) k a <;>
      simp [hline, Place.frame]

theorem remove_recount_sameFrames (change : Nat → Nat) :
    SameFrames (t.remove id) ((recount t parent change).remove id) := by
  intro k
  rw [Table.find?_remove, Table.find?_remove]
  by_cases hk : k = id
  · rw [if_pos hk, if_pos hk]
  · rw [if_neg hk, if_neg hk, ← recount_sameFrames]

/-- A comment that counts nothing has no replies. -/
theorem Counted.childless (h : Counted t) (hplace : t.find? id = some place)
    (hchildren : place.children = 0) (i : Nat) : ¬ IsParent t id i := by
  intro hedge
  have ⟨p, _, hp, _⟩ := hedge
  rw [h id place hplace, Finset.card_eq_zero] at hchildren
  have hmem : i ∈ Lineage.descendants (IsParent t) t.keys id := by
    apply Lineage.mem_descendants.mpr
    exact ⟨mem_keys.mpr (hp ▸ rfl), .single hedge⟩
  rw [hchildren] at hmem
  exact Finset.notMem_empty i hmem

theorem recount_none (change : Nat → Nat) : recount t none change = t := by
  apply Table.ext_find?
  intro k
  rw [recount, Table.find?_mapRows]
  simp

theorem keys_recount (change : Nat → Nat) : (recount t parent change).keys = t.keys := by
  ext k
  rw [mem_keys, mem_keys, recount, Table.find?_mapRows, Option.isSome_map]

theorem isParent_recount (change : Nat → Nat) :
    IsParent (recount t parent change) = IsParent t :=
  funext fun a => funext fun i => propext ((recount_sameFrames change).isParent a i).symm

theorem find?_recount {change : Nat → Nat} {k : Nat} {p : Place}
    (hp : (recount t parent change).find? k = some p) : ∃ q, t.find? k = some q ∧
      p.children = if ∃ a, parent = some a ∧ ReflTransGen (IsParent t) k a
        then change q.children else q.children := by
  rw [recount, Table.find?_mapRows, Option.map_eq_some_iff] at hp
  obtain ⟨q, hq, rfl⟩ := hp
  refine ⟨q, hq, ?_⟩
  split <;> rfl

/-- What the leaf adds to the counts. -/
theorem Placed.card_descendants (h : Placed t parent id place) (hshaped : Shaped t next)
    (hid : t.find? id = none) {k : Nat} (hk : k ≠ id) :
    (Lineage.descendants (IsParent (t.set id place)) (t.set id place).keys k).card =
      (Lineage.descendants (IsParent t) t.keys k).card +
        if ∃ a, parent = some a ∧ ReflTransGen (IsParent (t.set id place)) k a then 1 else 0 := by
  have hgrafts := h.grafts hshaped hid
  have hmem : id ∉ t.keys := by
    rw [mem_keys, hid]
    exact Bool.false_ne_true
  have hline : (∃ a, parent = some a ∧ ReflTransGen (IsParent (t.set id place)) k a) ↔
      ∃ a, parent = some a ∧ ReflTransGen (IsParent t) k a := by
    apply exists_congr
    intro a
    apply and_congr_right
    intro hparent
    apply hgrafts.line_of_old
    obtain ⟨-, q, hq, -⟩ := h.reply a hparent
    rintro rfl
    rw [hid] at hq
    cases hq
  rw [keys_set, hgrafts.card_descendants hmem]
  simp only [hline]
  congr

/-- With the leaf counted on the line above it, every comment counts its descendants. -/
theorem Placed.counted (h : Placed t parent id place) (hshaped : Shaped t next)
    (hshaped' : Shaped (t.set id place) (next + 1)) (hid : t.find? id = none)
    (hcounted : Counted t) (hplace : place.children = 0) (hroom : next + 1 ≤ 2 ^ 32) :
    Counted (recount (t.set id place) parent (increment 32)) := by
  have hgrafts := h.grafts hshaped hid
  intro k p hp
  obtain ⟨q, hq, hchildren⟩ := find?_recount hp
  rw [hchildren, isParent_recount, keys_recount]
  rw [Table.find?_set] at hq
  by_cases hk : k = id
  · -- the leaf itself: nothing is below it
    rw [if_pos hk, Option.some.injEq] at hq
    subst hq hk
    rw [Lineage.descendants_childless hgrafts.childless, Finset.card_empty, if_neg, hplace]
    rintro ⟨a, hparent, hline⟩
    obtain ⟨-, b, hb, -⟩ := h.reply a hparent
    rcases reflTransGen_iff_eq_or_transGen.mp hline with rfl | hdescends
    · rw [hid] at hb
      cases hb
    · exact Lineage.not_ancestor_of_childless hgrafts.childless a hdescends
  · rw [if_neg hk] at hq
    have hmem : k ∈ (t.set id place).keys := by
      rw [mem_keys, Table.find?_set, if_neg hk, hq]
      rfl
    have hlt := Lineage.card_descendants_lt hshaped'.depthOf_child hmem
    have hroom' := hshaped'.card_le
    rw [h.card_descendants hshaped hid hk, ← hcounted k q hq] at hlt ⊢
    split
    · rename_i hline
      rw [if_pos hline] at hlt
      rw [increment, Nat.mod_eq_of_lt]
      omega
    · rfl

/-- Without a leaf, taken off the counts of the line above it, every comment counts its
descendants. -/
theorem Placed.uncounted (hplaced : Placed (t.remove id) parent id place) (hshaped : Shaped t next)
    (hshaped' : Shaped (t.remove id) next) (hplace : t.find? id = some place)
    (hcounted : Counted t) (hroom : next ≤ 2 ^ 32) :
    Counted ((recount t parent (decrement 32)).remove id) := by
  have hid : (t.remove id).find? id = none := by
    rw [Table.find?_remove, if_pos rfl]
  have hframes : SameFrames (t.remove id) ((recount t parent (decrement 32)).remove id) :=
    remove_recount_sameFrames (decrement 32)
  have hkeys : ((recount t parent (decrement 32)).remove id).keys = (t.remove id).keys := by
    ext k
    rw [mem_keys, mem_keys, ← Option.isSome_map (f := Place.frame), ← hframes k, Option.isSome_map]
  have hsame : IsParent ((recount t parent (decrement 32)).remove id) = IsParent (t.remove id) :=
    funext fun a => funext fun i => propext (hframes.isParent a i).symm
  intro k p hp
  rw [Table.find?_remove] at hp
  by_cases hk : k = id
  · rw [if_pos hk] at hp
    cases hp
  · rw [if_neg hk] at hp
    obtain ⟨q, hq, hchildren⟩ := find?_recount hp
    have hmem : k ∈ t.keys := by
      rw [mem_keys, hq]
      rfl
    have hcount := hcounted k q hq
    have hlt := Lineage.card_descendants_lt hshaped.depthOf_child hmem
    have hroom' := hshaped.card_le
    have hcard := hplaced.card_descendants hshaped' hid hk
    rw [set_remove hplace] at hcard
    rw [hchildren, hkeys, hsame]
    rw [hcard] at hcount hlt
    split
    · rename_i hline
      rw [if_pos hline] at hcount hlt
      rw [hcount, decrement]
      omega
    · rename_i hline
      rw [hcount, if_neg hline, Nat.add_zero]

end Counts

/-- The forest is well shaped and counted, as long as every count has room. -/
def Overview.Forested (v : Overview) : Prop :=
  v.nextComment ≤ 2 ^ 32 → Shaped v.comments v.nextComment ∧ Counted v.comments

/-- What the forest depends on. -/
def Overview.growth (v : Overview) : Table Nat Place × Nat := (v.comments, v.nextComment)

theorem Overview.Forested.congr {v w : Overview} (h : v.Forested) (hsame : w.growth = v.growth) :
    w.Forested := by
  simp only [Overview.growth, Prod.mk.injEq] at hsame
  rw [Overview.Forested, hsame.1, hsame.2]
  exact h

namespace Database

variable {db : Database}

/-! ## The evaluators of comments -/

theorem updateAncestors_eq_climb (change : Nat → Nat) (turns id : Nat) :
    db.updateAncestors change id turns = db.climb
      (fun c => { c with children := change c.children, active := db.dgp.time }) id turns := by
  induction turns generalizing db id with
  | zero => rfl
  | succ turns ih =>
      unfold updateAncestors climb
      simp only [ih]
      rfl

/-- The evaluators recount the line above a comment. -/
theorem updateAncestors_forest {next : Nat} (hshaped : Shaped db.forest next) (change : Nat → Nat)
    (id turns : Nat) : Always (db.updateAncestors change id turns) fun db' =>
      db'.forest = recount db.forest (some id) change := by
  rw [updateAncestors_eq_climb]
  refine Always.mono (climb_spec ?_ hshaped) fun db' h => ?_
  · exact fun _ => rfl
  · apply Table.ext_find?
    intro k
    rw [find?_forest, h, recount, Table.find?_mapRows, find?_forest]
    by_cases hline : ReflTransGen (IsParent db.forest) k id
    · simp only [hline, Option.some.injEq, exists_eq_left', if_true, Option.map_map]
      rfl
    · simp only [hline, Option.some.injEq, exists_eq_left', if_false]
      exact congrFun Option.map_id.symm _

theorem updateAncestors_nextIds (change : Nat → Nat) (id turns : Nat) :
    Always (db.updateAncestors change id turns) fun db' => db'.nextIds = db.nextIds := by
  rw [updateAncestors_eq_climb]
  refine (climb_rest _ _ _).mono fun db' h => ?_
  rw [h]

theorem findParent_spec (o : CommentOperation) : Always (db.findParent o) fun parent =>
    (parent = none ∧ o.parentAuthor = blurtRootPostParent) ∨
      ∃ a q, parent = some (a, q) ∧ o.parentAuthor ≠ blurtRootPostParent ∧
        db.comments.find? a = some q ∧ q.author = o.parentAuthor ∧ q.permlink = o.parentPermlink ∧
        q.depth < blurtMaxCommentDepth := by
  unfold findParent
  split
  · rename_i hroot
    exact .pure (Or.inl ⟨rfl, hroot⟩)
  · rename_i hreply
    refine (getComment_named _ _).bind fun row hrow => .ensure fun hdepth => .pure (Or.inr ?_)
    exact ⟨row.1, row.2, rfl, hreply, hrow.1, hrow.2.1, hrow.2.2, hdepth⟩

/-- A comment that no other replies to names, posted as a leaf. -/
theorem newComment_placed {posted : Database} {id : Nat} {parent : Option (Nat × Comment)}
    {o : CommentOperation}
    (hparent : (parent = none ∧ o.parentAuthor = blurtRootPostParent) ∨
      ∃ a q, parent = some (a, q) ∧ o.parentAuthor ≠ blurtRootPostParent ∧
        db.comments.find? a = some q ∧ q.author = o.parentAuthor ∧ q.permlink = o.parentPermlink ∧
        q.depth < blurtMaxCommentDepth)
    (hnew : db.findComment o.author o.permlink = none) :
    Placed db.forest (parent.map (·.1)) id
      (posted.newComment id (parent.map (·.2)) o).place where
  unnamed := by
    rintro i p hp ⟨hauthor, hpermlink⟩
    rw [find?_forest, Option.map_eq_some_iff] at hp
    obtain ⟨c, hc, rfl⟩ := hp
    have hrow := List.find?_eq_none.mp hnew (i, c) (Store.mem_rows_iff.mpr hc)
    apply hrow
    simpa using ⟨hauthor, hpermlink⟩
  root := by
    intro hnone
    rw [Option.map_eq_none_iff] at hnone
    subst hnone
    exact ⟨rfl, rfl, rfl⟩
  reply := by
    intro a ha
    obtain ⟨row, rfl, rfl⟩ := Option.map_eq_some_iff.mp ha
    rcases hparent with ⟨⟨⟩, -⟩ | ⟨a, q, hrow, hreply, hq, hauthor, hpermlink, hdepth⟩
    cases hrow
    have hdepth' : q.depth + 1 < 2 ^ 16 := by
      unfold blurtMaxCommentDepth at hdepth
      omega
    have hplace : (posted.newComment id (some q) o).place.depth = q.depth + 1 :=
      Nat.mod_eq_of_lt hdepth'
    refine ⟨?_, q.place, ?_, rfl, rfl, hplace, ?_, rfl, rfl⟩
    · exact fun hroot => hreply (hauthor.symm.trans hroot)
    · rw [find?_forest, hq, Option.map_some]
    · exact hplace ▸ hdepth'

/-- The database with the comment that `comment_evaluator` creates. -/
def plantComment (posted : Database) (parent : Option (Nat × Comment)) (o : CommentOperation) :
    Database :=
  { posted with
    comments := posted.comments.set posted.nextIds.comment
      (posted.newComment posted.nextIds.comment (parent.map (·.2)) o)
    nextIds := { posted.nextIds with comment := posted.nextIds.comment + 1 } }

theorem createComment_spec (parent : Option (Nat × Comment)) (o : CommentOperation) :
    Always (db.createComment parent o) fun db' => ∃ posted, Quiet db posted ∧
      match parent with
      | none => db' = posted.plantComment none o
      | some (a, q) => ∃ turns,
          (posted.plantComment (some (a, q)) o).updateAncestors (increment 32) a turns = .ok db' := by
  have hquiet : ∀ {lastRootPost : Account → Nat}, Always (db.modifyAccount o.author fun a => .ok
      { a with
        lastRootPost := lastRootPost a
        lastPost := db.dgp.time
        lastPostEdit := db.dgp.time
        postCount := increment 32 a.postCount }) (Quiet db) :=
    modifyAccount_framed quiet_frame fun _ => .ok ⟨rfl, fun h => h⟩
  cases parent with
  | none =>
      refine .skip fun auth => .ensure fun _ => hquiet.bind fun posted hposted => ?_
      exact .skip fun _ => .skip fun _ => .pure ⟨posted, hposted, rfl⟩
  | some row =>
      refine .skip fun auth => .skip fun root => .ensure fun _ => .ensure fun _ => ?_
      refine hquiet.bind fun posted hposted => .skip fun _ => .skip fun _ => ?_
      exact fun db' h => ⟨posted, hposted, _, h⟩

/-- A new comment keeps the forest. -/
theorem createComment_forested {parent : Option (Nat × Comment)} {o : CommentOperation}
    (hparent : (parent = none ∧ o.parentAuthor = blurtRootPostParent) ∨
      ∃ a q, parent = some (a, q) ∧ o.parentAuthor ≠ blurtRootPostParent ∧
        db.comments.find? a = some q ∧ q.author = o.parentAuthor ∧ q.permlink = o.parentPermlink ∧
        q.depth < blurtMaxCommentDepth)
    (hnew : db.findComment o.author o.permlink = none) (hforest : db.overview.Forested) :
    Always (db.createComment parent o) fun db' => db'.overview.Forested := by
  refine (createComment_spec parent o).mono fun db' h hroom => ?_
  obtain ⟨posted, hquiet, hdb'⟩ := h
  have hsame : posted.forest = db.forest := congrArg Overview.comments hquiet.seen
  have hnext : posted.nextIds.comment = db.nextIds.comment :=
    congrArg Overview.nextComment hquiet.seen
  have hplaced : Placed db.forest (parent.map (·.1)) db.nextIds.comment
      (posted.newComment db.nextIds.comment (parent.map (·.2)) o).place :=
    newComment_placed hparent hnew
  have hplanted : (posted.plantComment parent o).forest = db.forest.set db.nextIds.comment
      (posted.newComment db.nextIds.comment (parent.map (·.2)) o).place := by
    rw [← hsame, ← hnext]
    exact Table.view_set _ _ _ _
  have hnextPlanted : (posted.plantComment parent o).nextIds.comment = db.nextIds.comment + 1 :=
    congrArg (· + 1) hnext
  have hnext' : db'.nextIds.comment = db.nextIds.comment + 1 := by
    cases parent with
    | none => rw [hdb', hnextPlanted]
    | some row =>
        obtain ⟨turns, hdb'⟩ := hdb'
        rw [updateAncestors_nextIds _ _ _ db' hdb', hnextPlanted]
  have hroom' : db.nextIds.comment + 1 ≤ 2 ^ 32 := hnext' ▸ hroom
  obtain ⟨hshaped, hcounted⟩ := hforest (Nat.le_of_succ_le hroom')
  have hid : db.forest.find? db.nextIds.comment = none := by
    cases hfind : db.forest.find? db.nextIds.comment with
    | none => rfl
    | some p => exact absurd (hshaped.fresh hfind) (lt_irrefl _)
  have hshaped' := hplaced.shaped hshaped
  have hforest' : db'.forest = recount (db.forest.set db.nextIds.comment
      (posted.newComment db.nextIds.comment (parent.map (·.2)) o).place) (parent.map (·.1))
      (increment 32) := by
    rw [← hplanted] at hshaped' ⊢
    cases parent with
    | none => rw [hdb', Option.map_none, recount_none]
    | some row =>
        obtain ⟨turns, hdb'⟩ := hdb'
        exact updateAncestors_forest hshaped' _ _ _ db' hdb'
  have hcounted' := hplaced.counted hshaped hshaped' hid hcounted rfl hroom'
  change Shaped db'.forest db'.nextIds.comment ∧ Counted db'.forest
  rw [hforest', hnext']
  exact ⟨(recount_sameFrames _).shaped hshaped', hcounted'⟩

theorem comment_forested (rules : TextRules) (o : CommentOperation)
    (hforest : db.overview.Forested) :
    Always (comment rules db o) fun db' => db'.overview.Forested := by
  refine .ensure fun _ => .skip fun _ => ?_
  refine (findParent_spec o).bind fun parent hparent => .ensure fun _ => ?_
  split
  · rename_i hnew
    exact createComment_forested hparent hnew hforest
  · rename_i id existing hfind
    have hc : db.comments.find? id = some existing :=
      Store.mem_rows_iff.mp (List.mem_of_find?_eq_some hfind)
    refine (editComment_framed quiet_frame parent hc o).mono fun _ h => hforest.congr ?_
    exact congrArg Overview.growth h.seen

theorem deleteComment_spec (o : DeleteCommentOperation) :
    Always (db.deleteComment o) fun db' => db'.nextIds = db.nextIds ∧
      ∃ id c, db.comments.find? id = some c ∧ c.children = 0 ∧
        (c.parentAuthor = blurtRootPostParent ∧ db'.comments = db.comments.remove id ∨
          ∃ a q turns cleared orphaned, db.comments.find? a = some q ∧
            c.parentAuthor ≠ blurtRootPostParent ∧ q.author = c.parentAuthor ∧
            q.permlink = c.parentPermlink ∧ Database.comments cleared = db.comments ∧
            cleared.updateAncestors (decrement 32) a turns = .ok orphaned ∧
            db'.comments = orphaned.comments.remove id) := by
  refine (getComment_found _ _).bind fun row hrow => .ensure fun hchildren => .ensure fun _ => ?_
  refine .ensure fun _ => ?_
  dsimp only
  split
  · rename_i hreply
    refine (getComment_named _ _).bind fun parent hparent => ?_
    intro db' h
    obtain ⟨orphaned, horphaned, h⟩ := bind_eq_ok.mp h
    cases h
    have hnextIds := updateAncestors_nextIds _ _ _ _ horphaned
    refine ⟨hnextIds, row.1, row.2, hrow, hchildren, ?_⟩
    refine Or.inr ⟨parent.1, parent.2, _, _, orphaned, hparent.1, hreply, hparent.2.1,
      hparent.2.2, ?_, horphaned, rfl⟩
    rfl
  · rename_i hroot
    exact .pure ⟨rfl, row.1, row.2, hrow, hchildren, Or.inl ⟨not_not.mp hroot, rfl⟩⟩

/-- Only a leaf is deleted, so the forest stays. -/
theorem deleteComment_forested (o : DeleteCommentOperation) (hforest : db.overview.Forested) :
    Always (db.deleteComment o) fun db' => db'.overview.Forested := by
  refine (deleteComment_spec o).mono fun db' h hroom => ?_
  obtain ⟨hnextIds, id, c, hc, hchildren, hdb'⟩ := h
  have hnext : db'.nextIds.comment = db.nextIds.comment := by rw [hnextIds]
  have hroom' : db.nextIds.comment ≤ 2 ^ 32 := hnext ▸ hroom
  obtain ⟨hshaped, hcounted⟩ := hforest hroom'
  have hplace : db.forest.find? id = some c.place := by
    rw [find?_forest, hc, Option.map_some]
  have hchildless := hcounted.childless hplace hchildren
  obtain ⟨parent, hplaced, hparent⟩ := hshaped.placed hplace hchildless
  have hforest' : db'.forest = (recount db.forest parent (decrement 32)).remove id := by
    rcases hdb' with ⟨hroot, hcomments⟩ |
      ⟨a, q, turns, cleared, orphaned, hq, hreply, hauthor, hpermlink, hcleared, hclimb, hcomments⟩
    · have hnone : parent = none := by
        cases hsome : parent with
        | none => rfl
        | some a => exact absurd ((hparent a).mp hsome) (not_isParent_root hc hroot)
      rw [hnone, recount_none, forest, hcomments, Table.view_remove]
      rfl
    · have hsome : parent = some a :=
        (hparent a).mpr (isParent_of_named hc hq hreply hauthor hpermlink)
      have hsame : cleared.forest = db.forest := by rw [forest, hcleared, forest]
      have hclearedShaped : Shaped cleared.forest db.nextIds.comment := by
        rw [hsame]
        exact hshaped
      have hcounts := updateAncestors_forest hclearedShaped _ _ _ orphaned hclimb
      rw [hsome, ← hsame, ← hcounts, forest, hcomments, Table.view_remove]
      rfl
  have hshaped' := hshaped.remove hchildless
  change Shaped db'.forest db'.nextIds.comment ∧ Counted db'.forest
  rw [hforest', hnext]
  exact ⟨(remove_recount_sameFrames _).shaped hshaped',
    hplaced.uncounted hshaped hshaped' hplace hcounted hroom'⟩

/-! ## Reachable states -/

theorem mem_commentIds (k : Nat) : k ∈ db.commentIds ↔ (db.comments.find? k).isSome := by
  rw [commentIds, List.mem_map, Option.isSome_iff_exists]
  constructor
  · rintro ⟨row, hrow, rfl⟩
    exact ⟨row.2, (Store.mem_ordered_iff.mp hrow).1⟩
  · rintro ⟨c, hc⟩
    exact ⟨(k, c), Store.mem_ordered_iff.mpr ⟨hc, rfl⟩, rfl⟩

open Classical in
/-- Among all comments are as many descendants as are counted. -/
theorem length_filter_commentIds (k : Nat) :
    (db.commentIds.filter fun id => TransGen (IsParent db.forest) k id).length =
      (Lineage.descendants (IsParent db.forest) db.forest.keys k).card := by
  have hnodup : (db.commentIds.filter fun id => TransGen (IsParent db.forest) k id).Nodup :=
    (Store.ordered_nodup _ _ _).filter _
  rw [← List.toFinset_card_of_nodup hnodup]
  congr 1
  ext i
  rw [List.mem_toFinset, List.mem_filter, mem_commentIds, Lineage.mem_descendants, mem_keys,
    find?_forest, Option.isSome_map, decide_eq_true_iff]

theorem find?_cleared (k : Nat) : (db.clearChildren db.commentIds).comments.find? k =
    (db.comments.find? k).map fun c => { c with children := 0 } := by
  rw [find?_clearChildren]
  split
  · rfl
  · rename_i hk
    rw [mem_commentIds, Option.not_isSome_iff_eq_none] at hk
    rw [hk, Option.map_none]

/-- `retally_comment_children` finds every count as it is. -/
theorem retally_spec {next : Nat} (hshaped : Shaped db.forest next) (hcounted : Counted db.forest)
    (hroom : next ≤ 2 ^ 32) : ∃ db', db.retallyCommentChildren = .ok db' ∧
      ∀ k, db'.comments.find? k = db.comments.find? k := by
  have hframes : SameFrames db.forest (db.clearChildren db.commentIds).forest :=
    sameFrames_of_find? (fun _ c => { c with children := 0 }) (fun _ _ => rfl) find?_cleared
  have hline : IsParent (db.clearChildren db.commentIds).forest = IsParent db.forest :=
    funext fun a => funext fun i => propext (hframes.isParent a i).symm
  have hfound : ∀ id ∈ db.commentIds,
      ((db.clearChildren db.commentIds).comments.find? id).isSome := by
    intro id hid
    rw [find?_cleared, Option.isSome_map]
    exact (mem_commentIds id).mp hid
  obtain ⟨db', hdb', -, hfind⟩ := tally_spec (hframes.shaped hshaped) hfound
  refine ⟨db', hdb', fun k => ?_⟩
  rw [hfind, find?_cleared, hline, length_filter_commentIds]
  cases hc : db.comments.find? k with
  | none => rfl
  | some c =>
      have hplace : db.forest.find? k = some c.place := by rw [find?_forest, hc, Option.map_some]
      have hcount : c.children = _ := hcounted k c.place hplace
      have hmem : k ∈ db.forest.keys := mem_keys.mpr (hplace ▸ rfl)
      have hlt := Lineage.card_descendants_lt hshaped.depthOf_child hmem
      have hcard := hshaped.card_le
      rw [← hcount] at hlt ⊢
      rw [Option.map_some, Option.map_some, countUp, iterate_increment, Nat.mod_eq_of_lt]
      omega

theorem beyond_growth (op : Operation) (v w : Overview)
    (hop : (∀ o, op ≠ .comment o) ∧ ∀ o, op ≠ .deleteComment o)
    (h : v.beyond op = w.beyond op) : v.growth = w.growth := by
  have hgrowth : ∀ u : Overview, (u.beyond op).growth = u.growth := by
    intro u
    cases op
    case comment o => exact absurd rfl (hop.1 o)
    case deleteComment o => exact absurd rfl (hop.2 o)
    all_goals rfl
  rw [← hgrowth v, ← hgrowth w, h]

theorem operation_forested (host : Host) (op : Operation) (hforest : db.overview.Forested) :
    Always (applyOperation host db op) fun db' => db'.overview.Forested := by
  by_cases hop : (∀ o, op ≠ .comment o) ∧ ∀ o, op ≠ .deleteComment o
  · refine (applyOperation_keeps host op).mono fun db' h => hforest.congr ?_
    exact beyond_growth op _ _ hop h.seen
  · rw [not_and_or] at hop
    rcases hop with hop | hop
    · obtain ⟨o, ho⟩ := not_forall.mp hop
      rw [not_not.mp ho]
      exact comment_forested host.rules o hforest
    · obtain ⟨o, ho⟩ := not_forall.mp hop
      rw [not_not.mp ho]
      exact deleteComment_forested o hforest

theorem forest_blockInvariant (host : Host) :
    BlockInvariant host anyOperation fun db => db.overview.Forested where
  quiet db db' hquiet h := h.congr (congrArg Overview.growth hquiet.seen)
  start db timestamp _ h := by
    refine (startHardforks_keeps timestamp).mono fun _ hkeeps => h.congr ?_
    have hseen := congrArg Overview.growth hkeeps.seen
    exact hseen
  signer db name h := h
  extension db name extension h := by
    refine (visitExtension_keeps name extension).mono fun _ hkeeps => h.congr ?_
    have hseen := congrArg Overview.growth hkeeps.seen
    exact hseen
  operation db op _ _ h := operation_forested host op h
  clock db b _ h := h
  schedule db h := by
    refine updateWitnessSchedule_keeps.mono fun db' hkeeps => h.congr ?_
    have hseen := congrArg Overview.growth hkeeps.seen
    exact hseen
  recovery db h := by
    refine accountRecoveryProcessing_keeps.mono fun db' hkeeps => h.congr ?_
    have hseen := congrArg Overview.growth hkeeps.seen
    exact hseen
  hardforks db h := by
    refine processHardforks_keeps.mono fun db' hkeeps => h.congr ?_
    have hseen := congrArg Overview.growth hkeeps.seen
    exact hseen

/-- A chain starts without a comment. -/
theorem initGenesis_forested (args : GenesisArgs) :
    Always (initGenesis args) fun db => db.overview.Forested := by
  refine (initGenesis_initial args).mono fun db hinitial _ => ?_
  rw [hinitial.1.1.comments]
  have hnone : ∀ {i p}, ¬ Table.find? i (∅ : Table Nat Place) = some p := by
    rintro i p ⟨⟩
  exact ⟨⟨fun h => absurd h hnone, fun h => absurd h hnone, fun h => absurd h hnone,
    fun h => absurd h hnone⟩, fun _ _ h => absurd h hnone⟩

/-- The comments form forests: a reply takes its place from its parent, and every comment
counts its descendants. -/
structure ForestWellFormed (db : Database) : Prop where
  reply : ∀ id c, db.comments.find? id = some c → c.parentAuthor ≠ blurtRootPostParent →
    ∃ a parent, db.getComment c.parentAuthor c.parentPermlink = .ok (a, parent) ∧
      c.depth = parent.depth + 1 ∧ c.depth < 2 ^ 16 ∧ c.rootComment = parent.rootComment ∧
      c.category = parent.category
  children : ∀ id c, db.comments.find? id = some c →
    c.children = (Lineage.descendants (IsParent db.forest) db.forest.keys id).card
  retally : ∃ db', db.retallyCommentChildren = .ok db' ∧
    ∀ id, db'.comments.find? id = db.comments.find? id

theorem forestWellFormed_of {next : Nat} (hshaped : Shaped db.forest next)
    (hcounted : Counted db.forest) (hroom : next ≤ 2 ^ 32) : db.ForestWellFormed where
  reply id c hc hreply := by
    have hplace : db.forest.find? id = some c.place := by rw [find?_forest, hc, Option.map_some]
    obtain ⟨a, q, hq, hauthor, hpermlink, hrest⟩ := hshaped.reply hplace hreply
    rw [find?_forest, Option.map_eq_some_iff] at hq
    obtain ⟨parent, hparent, rfl⟩ := hq
    have hget := getComment_of_found hshaped hparent
    simp only [Comment.place] at hauthor hpermlink
    rw [hauthor, hpermlink] at hget
    exact ⟨a, parent, hget, hrest⟩
  children id c hc := hcounted id c.place (by rw [find?_forest, hc, Option.map_some])
  retally := retally_spec hshaped hcounted hroom

/-- The forests of a chain on which at most 2³² comments were created are well formed. -/
theorem reachable_forestWellFormed {host : Host}
    (h : Reachable host db) (hroom : db.nextIds.comment ≤ 2 ^ 32) :
    db.ForestWellFormed := by
  have hforest := (forest_blockInvariant host).reachable
    (fun args db h => initGenesis_forested args db h) h.by_any
  obtain ⟨hshaped, hcounted⟩ := hforest hroom
  exact forestWellFormed_of hshaped hcounted hroom

end Database

namespace Sample

open Database

/-- A block in which the first initial witness posts, and the second one answers. -/
def answerBlock : LedgerBlock where
  timestamp := blurtGenesisTime + 3
  witness := blurtInitMinerName
  transactions := [
    { trx :=
        { operations := [
            .comment
              { parentAuthor := blurtRootPostParent, parentPermlink := "tag"
                author := initMinerName 0, permlink := "post", title := "title", body := "body"
                jsonMetadata := "" },
            .comment
              { parentAuthor := initMinerName 0, parentPermlink := "post", author := initMinerName 1
                permlink := "answer", title := "", body := "body", jsonMetadata := "" }]
          packSize := 200 }
      sigs := [1] }]
  packSize := 400

/-- The post has one descendant, the answer. -/
theorem answerBlock_forest : ∃ (db : Database) (c : Comment), db.comments.find? 0 = some c ∧
    c.children = 1 ∧ (Lineage.descendants (IsParent db.forest) db.forest.keys 0).card = 1 ∧
      db.ForestWellFormed := by
  have hruns : (initGenesis freshChain >>= fun db =>
      applyBlock plainHost db answerBlock).toOption.any fun db =>
        db.nextIds.comment ≤ 2 ^ 32 ∧ (db.comments.find? 0).any fun c => c.children = 1 := by
    decide +kernel
  rw [Option.any_eq_true] at hruns
  obtain ⟨db', hrun, hfacts⟩ := hruns
  obtain ⟨hroom, hfacts⟩ := of_decide_eq_true hfacts
  obtain ⟨c, hc, hchildren⟩ := (Option.any_eq_true _ _).mp hfacts
  have hchildren := of_decide_eq_true hchildren
  obtain ⟨db, hdb, happly⟩ := bind_eq_ok.mp (eq_ok_of_toOption hrun)
  have hforest := reachable_forestWellFormed (.block (.genesis hdb) happly) hroom
  exact ⟨db', c, hc, hchildren, (hforest.children 0 c hc).symm.trans hchildren, hforest⟩

end Sample

end Ledger

end Blurt
