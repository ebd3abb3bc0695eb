import Blurt.Plugins.Follow

/-! # Feeds in order and in size

A comment enters every feed under the next number, a reblog under the number 0. A feed stays in order
and within its size as long as reblogs only reach feeds that are empty or have an old entry to
overwrite, and a feed with all of its recent entries has room for one more.
-/

namespace Blurt

namespace Follow

open Ledger Outcome

/-! ## Numbered objects -/

section Numbered

variable {α : Type} {objects objects' : Numbered α} {account other : AccountName} {number : Nat}

theorem mem_objectsOf {object : α} :
    (number, object) ∈ objectsOf objects account ↔ objects.find? (account, number) = some object := by
  rw [objectsOf, List.mem_map]
  constructor
  · rintro ⟨⟨⟨name, n⟩, o⟩, hrow, heq⟩
    obtain ⟨hfind, hname⟩ := Store.mem_ordered_iff.mp hrow
    cases heq
    rw [← of_decide_eq_true hname]
    exact hfind
  · intro hfind
    exact ⟨((account, number), object), Store.mem_ordered_iff.mpr ⟨hfind, decide_eq_true rfl⟩, rfl⟩

theorem mem_numbers : number ∈ (objectsOf objects account).map Prod.fst ↔
    (objects.find? (account, number)).isSome := by
  simp only [List.mem_map, Prod.exists, exists_and_right, exists_eq_right, mem_objectsOf,
    Option.isSome_iff_exists]

theorem objectsOf_pairwise :
    (objectsOf objects account).Pairwise fun x y => x.1 < y.1 := by
  let le : (AccountName × Nat) × α → (AccountName × Nat) × α → Prop := fun x y => x.1.2 ≤ y.1.2
  have htotal : Std.Total le := ⟨fun x y => Nat.le_total x.1.2 y.1.2⟩
  have htrans : IsTrans _ le := ⟨fun x y z hxy hyz => Nat.le_trans hxy hyz⟩
  let rows := objects.ordered le fun key _ => decide (key.1 = account)
  have hsorted : rows.Pairwise le := List.pairwise_insertionSort _ _
  have hkeys : rows.Pairwise fun x y => x.1 ≠ y.1 :=
    List.pairwise_map.mp (Store.ordered_nodup le _ objects)
  have hnames : ∀ row ∈ rows, row.1.1 = account := fun row hrow =>
    of_decide_eq_true (Store.mem_ordered_iff.mp hrow).2
  refine List.pairwise_map.mpr ((hsorted.and hkeys).imp_of_mem ?_)
  rintro x y hx hy ⟨hle, hne⟩
  refine Nat.lt_of_le_of_ne hle fun heq => hne ?_
  exact Prod.ext ((hnames x hx).trans (hnames y hy).symm) heq

theorem numbers_nodup : ((objectsOf objects account).map Prod.fst).Nodup :=
  List.pairwise_map.mpr (objectsOf_pairwise.imp fun h => h.ne)

/-- Changes of other accounts leave the objects of an account as they are. -/
theorem objectsOf_congr
    (h : ∀ number, objects'.find? (account, number) = objects.find? (account, number)) :
    objectsOf objects' account = objectsOf objects account := by
  have hnodup : ∀ o : Numbered α, (objectsOf o account).Nodup := fun _ => numbers_nodup.of_map _
  have hperm : (objectsOf objects' account).Perm (objectsOf objects account) :=
    (List.perm_ext_iff_of_nodup (hnodup _) (hnodup _)).mpr fun row => by
      rw [mem_objectsOf, mem_objectsOf, h]
  refine hperm.eq_of_pairwise ?_ objectsOf_pairwise objectsOf_pairwise
  intro x y _ _ hxy hyx
  exact absurd hxy (Nat.lt_asymm hyx)

theorem find?_removeAll (old : List (Nat × α)) (key : AccountName × Nat) :
    (removeAll objects account old).find? key =
      if key.1 = account ∧ key.2 ∈ old.map Prod.fst then none else objects.find? key := by
  have hkeyed : removeAll objects account old =
      (old.map fun row => ((account, row.1), row.2)).foldl (fun index row => index.remove row.1)
        objects := by
    rw [removeAll, List.foldl_map]
  rw [hkeyed, Store.find?_foldl_remove]
  obtain ⟨name, n⟩ := key
  congr 1
  simp only [List.map_map, List.mem_map, Function.comp_apply, Prod.mk.injEq, eq_iff_iff]
  constructor
  · rintro ⟨row, hrow, rfl, rfl⟩
    exact ⟨rfl, row, hrow, rfl⟩
  · rintro ⟨rfl, row, hrow, rfl⟩
    exact ⟨row, hrow, rfl, rfl⟩

/-- The numbers of an account are far from the end of their range. -/
def Numberable (rows : List (Nat × α)) : Prop := ∀ row ∈ rows, row.1 + 1 < 2 ^ 32

instance (rows : List (Nat × α)) : Decidable (Numberable rows) :=
  inferInstanceAs (Decidable (∀ row ∈ rows, row.1 + 1 < 2 ^ 32))

/-- The objects that are not more than `maxSize` numbers behind the next one. -/
def recent (maxSize : Nat) (rows : List (Nat × α)) : List (Nat × α) :=
  rows.filter fun row => decide (nextNumber rows ≤ row.1 + maxSize)

theorem nextNumber_lt (rows : List (Nat × α)) : nextNumber rows < 2 ^ 32 := by
  unfold nextNumber
  split
  · decide
  · exact Nat.mod_lt _ (by decide)

theorem lt_nextNumber {rows : List (Nat × α)} (hsorted : rows.Pairwise fun x y => x.1 < y.1)
    (hfits : Numberable rows) {row : Nat × α} (hrow : row ∈ rows) : row.1 < nextNumber rows := by
  obtain ⟨before, newest, rfl⟩ := (List.eq_nil_or_concat' rows).resolve_left
    (List.ne_nil_of_mem hrow)
  have hnext : nextNumber (before ++ [newest]) = newest.1 + 1 := by
    rw [nextNumber, List.getLast?_concat]
    exact Nat.mod_eq_of_lt (hfits newest (by simp))
  rw [hnext]
  rcases List.mem_append.mp hrow with hbefore | hlast
  · have hlt := (List.pairwise_append.mp hsorted).2.2 row hbefore newest (by simp)
    omega
  · rw [List.mem_singleton.mp hlast]
    exact Nat.lt_succ_self _

theorem subSeconds_eq {next n : Nat} (hnext : next < 2 ^ 32) (hle : n ≤ next) :
    subSeconds next n = next - n := by
  unfold subSeconds
  omega

/-- The loop stops at the first object that is not too old, and none behind it is. -/
theorem tooOld_eq_filter {maxSize : Nat} {rows : List (Nat × α)}
    (hsorted : rows.Pairwise fun x y => x.1 < y.1) (hfits : Numberable rows) :
    tooOld maxSize rows = rows.filter fun row => ! decide (nextNumber rows ≤ row.1 + maxSize) := by
  have hlt : ∀ row ∈ rows, row.1 < nextNumber rows := fun row => lt_nextNumber hsorted hfits
  have hage : ∀ row : Nat × α, row.1 < nextNumber rows →
      subSeconds (nextNumber rows) row.1 = nextNumber rows - row.1 := fun row hrow =>
    subSeconds_eq (nextNumber_lt rows) hrow.le
  have hordered : rows.Pairwise fun x y => x.1 < y.1 ∧ y.1 < nextNumber rows :=
    hsorted.imp_of_mem fun _ hy h => ⟨h, hlt _ hy⟩
  rw [tooOld, Store.takeWhile_eq_filter ?_ hordered]
  · refine List.filter_congr fun row hrow => ?_
    rw [hage row (hlt row hrow), ← decide_not, decide_eq_decide]
    have hbehind := hlt row hrow
    omega
  · rintro x y ⟨hxy, hy⟩ hkeep
    rw [decide_eq_true_eq, hage y hy] at hkeep
    rw [decide_eq_true_eq, hage x (hxy.trans hy)]
    omega

theorem nextNumber_free (hfits : Numberable (objectsOf objects account)) :
    objects.find? (account, nextNumber (objectsOf objects account)) = none := by
  rw [Option.eq_none_iff_forall_ne_some]
  intro object hobject
  exact Nat.lt_irrefl _ (lt_nextNumber objectsOf_pairwise hfits (mem_objectsOf.mpr hobject))

/-- Without an old object nothing is removed. -/
theorem deleteOldObjects_of_none {isEmpty allowDelete : Bool} {oldId maxSize : Nat}
    {overwrite : α → α}
    (hold : allowDelete = true → tooOld maxSize (objectsOf objects account) = []) :
    deleteOldObjects isEmpty allowDelete oldId maxSize overwrite objects account =
      .ok { objects, nextId := nextNumber (objectsOf objects account) } := by
  have hnone : (if allowDelete then tooOld maxSize (objectsOf objects account) else []) = [] := by
    split
    · rename_i hallow
      exact hold hallow
    · rfl
  simp only [deleteOldObjects, hnone]
  split
  · rename_i hrows
    rw [hrows]
    rfl
  · cases isEmpty <;> simp [removeAll]

/-- A comment that is new to the account takes the place of an old object. -/
theorem deleteOldObjects_of_some {maxSize : Nat} (oldId : Nat) (overwrite : α → α)
    (hfits : Numberable (objectsOf objects account))
    (hold : tooOld maxSize (objectsOf objects account) ≠ []) :
    ∃ last, deleteOldObjects true true oldId maxSize overwrite objects account =
      .ok { objects := (removeAll objects account (tooOld maxSize (objectsOf objects account))).set
              (account, nextNumber (objectsOf objects account)) (overwrite last)
            nextId := nextNumber (objectsOf objects account)
            creation := false } := by
  have hrows : objectsOf objects account ≠ [] := by
    intro hnil
    rw [hnil] at hold
    exact hold rfl
  obtain ⟨last, hlast⟩ := Option.isSome_iff_exists.mp (List.getLast?_isSome.mpr hold)
  have hfree : (removeAll objects account (tooOld maxSize (objectsOf objects account))).find?
      (account, nextNumber (objectsOf objects account)) = none := by
    rw [find?_removeAll, nextNumber_free hfits, ite_self]
  refine ⟨last.2, ?_⟩
  simp only [deleteOldObjects, if_neg hrows, if_true, hlast, insertUnique, hfree, ensure,
    Option.isNone_none]
  rfl

theorem enterComment_of_new (maxSize : Nat) (hfits : Numberable (objectsOf objects account))
    (object : α) : enterComment true maxSize object objects account =
      .ok ((removeAll objects account (tooOld maxSize (objectsOf objects account))).set
        (account, nextNumber (objectsOf objects account)) object) := by
  unfold enterComment
  by_cases hold : tooOld maxSize (objectsOf objects account) = []
  · rw [deleteOldObjects_of_none (fun _ => hold), hold]
    simp [insertUnique, ensure, nextNumber_free hfits, removeAll]
  · obtain ⟨last, hdelete⟩ := deleteOldObjects_of_some 0 (fun _ => object) hfits hold
    rw [hdelete]
    rfl

theorem enterComment_of_found {maxSize : Nat} (object : α) :
    enterComment false maxSize object objects account = .ok objects := by
  rw [enterComment, deleteOldObjects_of_none (by simp)]
  rfl

theorem tooOld_eq_nil_iff (maxSize : Nat) {rows : List (Nat × α)}
    (hsorted : rows.Pairwise fun x y => x.1 < y.1) (hfits : Numberable rows) :
    tooOld maxSize rows = [] ↔ recent maxSize rows = rows := by
  rw [tooOld_eq_filter hsorted hfits, recent, List.filter_eq_nil_iff, List.filter_eq_self]
  simp

end Numbered

/-! ## One feed -/

/-- The feed of an account is in order and in size: every entry that is new is above all others,
and there are at most `maxSize` entries. -/
structure Fed (maxSize : Nat) (feeds feeds' : Numbered Feed) (account : AccountName) : Prop where
  increasing : ∀ number entry, feeds'.find? (account, number) = some entry →
    (∀ before, feeds.find? (account, number) = some before → before.comment ≠ entry.comment) →
    ∀ older, (feeds'.find? (account, older)).isSome → older ≤ number
  size : (objectsOf feeds' account).length ≤ maxSize

section Feed

variable {feeds feeds' : Numbered Feed} {account : AccountName} {maxSize : Nat}

/-- Nothing changes in the feeds of other accounts. -/
def Spares (feeds feeds' : Numbered Feed) (account : AccountName) : Prop :=
  ∀ name number, name ≠ account → feeds'.find? (name, number) = feeds.find? (name, number)

/-- A new entry under the next number, in the place of those that are too old. -/
theorem Fed.of_set (hfits : Numberable (objectsOf feeds account))
    (hroom : (recent maxSize (objectsOf feeds account)).length < maxSize) (entry : Feed) :
    let feeds' := (removeAll feeds account (tooOld maxSize (objectsOf feeds account))).set
      (account, nextNumber (objectsOf feeds account)) entry
    Spares feeds feeds' account ∧ Fed maxSize feeds feeds' account := by
  intro feeds'
  have hfind : ∀ number, number ≠ nextNumber (objectsOf feeds account) →
      feeds'.find? (account, number) =
        if number ∈ (tooOld maxSize (objectsOf feeds account)).map Prod.fst then none
        else feeds.find? (account, number) := by
    intro number hne
    change (Store.set _ _ _).find? _ = _
    rw [Store.find?_set_of_ne (fun h => hne (congrArg Prod.snd h)), find?_removeAll]
    exact if_congr (and_iff_right rfl) rfl rfl
  refine ⟨?_, ?_, ?_⟩
  · intro name number hname
    change (Store.set _ _ _).find? _ = _
    rw [Store.find?_set_of_ne (by simp [hname]), find?_removeAll, if_neg (fun h => hname h.1)]
  · intro number added hadded hnew older holder
    have hnumber : number = nextNumber (objectsOf feeds account) := by
      by_contra hne
      rw [hfind number hne] at hadded
      split at hadded
      · cases hadded
      · exact hnew added hadded rfl
    by_cases holderNext : older = nextNumber (objectsOf feeds account)
    · exact (holderNext.trans hnumber.symm).le
    · rw [hfind older holderNext] at holder
      split at holder
      · cases holder
      · obtain ⟨object, hobject⟩ := Option.isSome_iff_exists.mp holder
        rw [hnumber]
        exact (lt_nextNumber objectsOf_pairwise hfits (mem_objectsOf.mpr hobject)).le
  · -- every number that is left is the next one or a recent one
    have hsub : (objectsOf feeds' account).map Prod.fst ⊆
        nextNumber (objectsOf feeds account) ::
          (recent maxSize (objectsOf feeds account)).map Prod.fst := by
      intro number hnumber
      rw [mem_numbers] at hnumber
      by_cases hnext : number = nextNumber (objectsOf feeds account)
      · rw [hnext]
        exact List.mem_cons_self
      · rw [hfind number hnext] at hnumber
        split at hnumber
        · cases hnumber
        · rename_i hkept
          obtain ⟨object, hobject⟩ := Option.isSome_iff_exists.mp hnumber
          have hrow := mem_objectsOf.mpr hobject
          refine List.mem_cons_of_mem _ (List.mem_map.mpr ⟨(number, object), ?_, rfl⟩)
          refine List.mem_filter.mpr ⟨hrow, ?_⟩
          by_contra hstale
          refine hkept (List.mem_map.mpr ⟨(number, object), ?_, rfl⟩)
          rw [tooOld_eq_filter objectsOf_pairwise hfits]
          exact List.mem_filter.mpr ⟨hrow, by simpa using hstale⟩
    have hlength := (numbers_nodup.subperm hsub).length_le
    simp only [List.length_map, List.length_cons] at hlength
    omega

/-- An entry that is found again stays where it is. -/
theorem Fed.of_same (hsame : ∀ number, (feeds'.find? (account, number)).map Feed.comment =
      (feeds.find? (account, number)).map Feed.comment)
    (hsize : (objectsOf feeds account).length ≤ maxSize) : Fed maxSize feeds feeds' account where
  increasing := by
    intro number entry hentry hnew
    have hcomment := hsame number
    rw [hentry, Option.map_some] at hcomment
    obtain ⟨before, hbefore, heq⟩ := Option.map_eq_some_iff.mp hcomment.symm
    exact absurd heq (hnew before hbefore)
  size := by
    have hsub : (objectsOf feeds' account).map Prod.fst ⊆ (objectsOf feeds account).map Prod.fst := by
      intro number hnumber
      rw [mem_numbers] at hnumber ⊢
      have hcomment := congrArg Option.isSome (hsame number)
      rwa [Option.isSome_map, Option.isSome_map, hnumber, eq_comm] at hcomment
    have hlength := (numbers_nodup.subperm hsub).length_le
    simp only [List.length_map] at hlength
    omega

theorem Fed.congr {first last : Numbered Feed} (h : Fed maxSize feeds feeds' account)
    (hfirst : ∀ number, first.find? (account, number) = feeds.find? (account, number))
    (hlast : ∀ number, last.find? (account, number) = feeds'.find? (account, number)) :
    Fed maxSize first last account where
  increasing := by
    simp only [hfirst, hlast]
    exact h.increasing
  size := by
    rw [objectsOf_congr hlast]
    exact h.size

end Feed

/-! ## One turn -/

namespace FollowIndex

variable {view : ChainView} {s s' : FollowIndex} {comment : Nat} {account follower : AccountName}

/-- A feed that can take the comment: its numbers are far from the end of their range, and its
recent entries leave room for a new one, or all of them fit if there is one already. -/
structure Room (maxSize : Nat) (comment : Nat) (s : FollowIndex) (follower : AccountName) : Prop where
  fits : Numberable (objectsOf s.feeds follower)
  absent : s.feedEntry comment follower = none →
    (recent maxSize (objectsOf s.feeds follower)).length < maxSize
  present : s.feedEntry comment follower ≠ none → (objectsOf s.feeds follower).length ≤ maxSize

/-- A feed that can take a reblog: if the comment is new to it, it is empty or has an entry that is
too old, and if not, it has none. -/
structure ReblogRoom (maxSize : Nat) (comment : Nat) (s : FollowIndex) (follower : AccountName) :
    Prop extends Room maxSize comment s follower where
  new : s.feedEntry comment follower = none → objectsOf s.feeds follower = [] ∨
    recent maxSize (objectsOf s.feeds follower) ≠ objectsOf s.feeds follower
  again : s.feedEntry comment follower ≠ none →
    recent maxSize (objectsOf s.feeds follower) = objectsOf s.feeds follower

instance (maxSize comment : Nat) (s : FollowIndex) (follower : AccountName) :
    Decidable (Room maxSize comment s follower) :=
  decidable_of_iff (Numberable (objectsOf s.feeds follower) ∧
      (s.feedEntry comment follower = none →
        (recent maxSize (objectsOf s.feeds follower)).length < maxSize) ∧
      (s.feedEntry comment follower ≠ none → (objectsOf s.feeds follower).length ≤ maxSize))
    ⟨fun h => ⟨h.1, h.2.1, h.2.2⟩, fun h => ⟨h.fits, h.absent, h.present⟩⟩

instance (maxSize comment : Nat) (s : FollowIndex) (follower : AccountName) :
    Decidable (ReblogRoom maxSize comment s follower) :=
  decidable_of_iff (Room maxSize comment s follower ∧
      (s.feedEntry comment follower = none → objectsOf s.feeds follower = [] ∨
        recent maxSize (objectsOf s.feeds follower) ≠ objectsOf s.feeds follower) ∧
      (s.feedEntry comment follower ≠ none →
        recent maxSize (objectsOf s.feeds follower) = objectsOf s.feeds follower))
    ⟨fun h => ⟨h.1, h.2.1, h.2.2⟩, fun h => ⟨h.toRoom, h.new, h.again⟩⟩

theorem feedEntry_eq_some {number : Nat} {entry : Feed}
    (h : s.feedEntry comment follower = some (number, entry)) :
    s.feeds.find? (follower, number) = some entry ∧ entry.comment = comment :=
  ⟨mem_objectsOf.mp (List.mem_of_find?_eq_some h), by simpa using List.find?_some h⟩

theorem feedComment_ok (h : Room view.maxFeedSize comment s follower) :
    ∃ feeds, feedComment view comment s follower = .ok { s with feeds } ∧
      Spares s.feeds feeds follower ∧ Fed view.maxFeedSize s.feeds feeds follower := by
  cases hentry : s.feedEntry comment follower with
  | some row =>
      refine ⟨s.feeds, ?_, fun _ _ _ => rfl, .of_same (fun _ => rfl) (h.present (by simp [hentry]))⟩
      rw [feedComment, hentry, Option.isNone_some, enterComment_of_found]
      rfl
  | none =>
      refine ⟨_, ?_, Fed.of_set h.fits (h.absent hentry) { comment }⟩
      rw [feedComment, hentry, Option.isNone_none, enterComment_of_new _ h.fits]
      rfl

theorem blogComment_ok (view : ChainView) (comment : Nat) {author : AccountName}
    (h : Numberable (objectsOf s.blogs author)) :
    ∃ blogs, blogComment view comment author s = .ok { s with blogs } := by
  cases hblog : s.inBlog comment author with
  | true =>
      refine ⟨s.blogs, ?_⟩
      rw [blogComment, hblog, Bool.not_true, enterComment_of_found]
      rfl
  | false =>
      have henter := enterComment_of_new view.maxFeedSize h { comment }
      exact ⟨_, by rw [blogComment, hblog, Bool.not_false, henter]; rfl⟩

theorem feedReblog_ok (h : ReblogRoom view.maxFeedSize comment s follower) :
    ∃ feeds, feedReblog view account comment s follower = .ok { s with feeds } ∧
      Spares s.feeds feeds follower ∧ Fed view.maxFeedSize s.feeds feeds follower := by
  have holds := tooOld_eq_nil_iff view.maxFeedSize objectsOf_pairwise h.fits
  cases hentry : s.feedEntry comment follower with
  | some row =>
      obtain ⟨number, found⟩ := row
      have hpresent : s.feedEntry comment follower ≠ none := by simp [hentry]
      have hfound := (feedEntry_eq_some hentry).1
      refine ⟨s.feeds.set (follower, number)
        { found with rebloggedBy := found.rebloggedBy ++ [account] }, ?_, ?_, .of_same ?_
          (h.present hpresent)⟩
      · simp only [feedReblog, hentry, Option.isNone_some]
        rw [deleteOldObjects_of_none (fun _ => holds.mpr (h.again hpresent))]
        rfl
      · intro name n hname
        exact Store.find?_set_of_ne (by simp [hname]) _ _
      · intro n
        by_cases hn : n = number
        · rw [hn, Store.find?_set_self, hfound]
          rfl
        · rw [Store.find?_set_of_ne (by simp [hn])]
  | none =>
      have hfed := Fed.of_set h.fits (h.absent hentry)
      rcases h.new hentry with hempty | hold
      · have hnext : nextNumber (objectsOf s.feeds follower) = 0 := by
          rw [hempty]
          rfl
        have hnone : tooOld view.maxFeedSize (objectsOf s.feeds follower) = [] := by
          rw [hempty]
          rfl
        have hset := hfed (rebloggedEntry view account comment)
        have hfree := nextNumber_free h.fits
        rw [hnone, hnext] at hset
        rw [hnext] at hfree
        refine ⟨_, ?_, hset⟩
        simp only [feedReblog, hentry, Option.isNone_none]
        rw [deleteOldObjects_of_none (fun _ => hnone)]
        simp [insertUnique, ensure, hfree, removeAll]
      · obtain ⟨last, hdelete⟩ := deleteOldObjects_of_some 0
          (fun _ => rebloggedEntry view account comment) h.fits (mt holds.mp hold)
        refine ⟨_, ?_, hfed (rebloggedEntry view account comment)⟩
        simp only [feedReblog, hentry, Option.isNone_none, Option.map_none, Option.getD_none]
        rw [hdelete]
        rfl

/-! ## All followers -/

/-- What the turns for some followers leave: their feeds are in order and in size, and all other
feeds are as they were. -/
structure Served (maxSize : Nat) (feeds feeds' : Numbered Feed) (followers : List AccountName) :
    Prop where
  others : ∀ name number, name ∉ followers →
    feeds'.find? (name, number) = feeds.find? (name, number)
  fed : ∀ name ∈ followers, Fed maxSize feeds feeds' name

theorem feedEntry_congr (comment : Nat)
    (h : ∀ number, s'.feeds.find? (follower, number) = s.feeds.find? (follower, number)) :
    s'.feedEntry comment follower = s.feedEntry comment follower := by
  rw [feedEntry, feedEntry, objectsOf_congr h]

/-- Turns that each serve the feed of one follower serve the feeds of all. -/
theorem forEach_served {turn : FollowIndex → AccountName → Except String FollowIndex}
    {room : FollowIndex → AccountName → Prop} {maxSize : Nat}
    (hturn : ∀ s follower, room s follower → ∃ feeds, turn s follower = .ok { s with feeds } ∧
      Spares s.feeds feeds follower ∧ Fed maxSize s.feeds feeds follower)
    (hroom : ∀ s feeds follower, (∀ number, feeds.find? (follower, number) =
      s.feeds.find? (follower, number)) → room s follower → room { s with feeds } follower)
    {followers : List AccountName} (hnodup : followers.Nodup)
    (h : ∀ follower ∈ followers, room s follower) :
    ∃ feeds, forEach turn s followers = .ok { s with feeds } ∧
      Served maxSize s.feeds feeds followers := by
  induction followers generalizing s with
  | nil => exact ⟨s.feeds, rfl, fun _ _ _ => rfl, by simp⟩
  | cons follower rest ih =>
      obtain ⟨hnew, hrest⟩ := List.nodup_cons.mp hnodup
      obtain ⟨feeds, hfeeds, hspares, hfed⟩ := hturn s follower (h follower List.mem_cons_self)
      have hothers : ∀ name ∈ rest, ∀ number, feeds.find? (name, number) =
          s.feeds.find? (name, number) := fun name hname number =>
        hspares name number fun heq => hnew (heq ▸ hname)
      obtain ⟨last, hlast, hserved⟩ := ih (s := { s with feeds }) hrest fun name hname =>
        hroom s feeds name (hothers name hname) (h name (List.mem_cons_of_mem _ hname))
      refine ⟨last, forEach_cons_eq_ok.mpr ⟨_, hfeeds, hlast⟩, ?_, ?_⟩
      · intro name number hname
        rw [List.mem_cons, not_or] at hname
        rw [hserved.others name number hname.2]
        exact hspares name number hname.1
      · intro name hname
        rcases List.mem_cons.mp hname with rfl | hname
        · exact hfed.congr (fun _ => rfl) fun number => hserved.others name number hnew
        · exact (hserved.fed name hname).congr (fun number => (hothers name hname number).symm)
            fun _ => rfl

theorem followersOf_nodup (s : FollowIndex) (account : AccountName) :
    (s.followersOf account).Nodup := by
  unfold followersOf
  let rows := s.follows.ordered (fun x y => x.1.2 ≤ y.1.2) fun key what =>
    key.1 = account && followsBlog what
  have hkeys : rows.Pairwise fun x y => x.1 ≠ y.1 :=
    List.pairwise_map.mp (Store.ordered_nodup _ _ s.follows)
  refine List.pairwise_map.mpr (hkeys.imp_of_mem ?_)
  intro x y hx hy hne heq
  obtain ⟨hxName, -⟩ := Bool.and_eq_true_iff.mp (Store.mem_ordered_iff.mp hx).2
  obtain ⟨hyName, -⟩ := Bool.and_eq_true_iff.mp (Store.mem_ordered_iff.mp hy).2
  exact hne (Prod.ext ((of_decide_eq_true hxName).trans (of_decide_eq_true hyName).symm) heq)

theorem Room.congr {maxSize : Nat} (h : Room maxSize comment s follower)
    (hsame : ∀ number, s'.feeds.find? (follower, number) = s.feeds.find? (follower, number)) :
    Room maxSize comment s' follower := by
  have hrows := objectsOf_congr hsame
  have hentry := feedEntry_congr comment hsame
  refine ⟨?_, ?_, ?_⟩
  · rw [hrows]
    exact h.fits
  · rw [hentry, hrows]
    exact h.absent
  · rw [hentry, hrows]
    exact h.present

theorem ReblogRoom.congr {maxSize : Nat} (h : ReblogRoom maxSize comment s follower)
    (hsame : ∀ number, s'.feeds.find? (follower, number) = s.feeds.find? (follower, number)) :
    ReblogRoom maxSize comment s' follower := by
  have hrows := objectsOf_congr hsame
  have hentry := feedEntry_congr comment hsame
  refine ⟨h.toRoom.congr hsame, ?_, ?_⟩
  · rw [hentry, hrows]
    exact h.new
  · rw [hentry, hrows]
    exact h.again

end FollowIndex

end Follow

end Blurt
