import Blurt.Plugins.Tags

/-! # Whether the statistics of a tag are those of its objects

The statistics follow the tag objects through updates and creations, and through removals of comments
that are paid out. They do not follow when a tag is dropped in an edit or with its comment.
-/

namespace Blurt

namespace Tags

open Ledger

/-! ## Names -/

theorem takeWhile_of_not_mem {text : List Char} (h : nul ∉ text) :
    text.takeWhile (· != nul) = text := by
  rw [List.takeWhile_eq_self_iff]
  intro c hc
  exact bne_iff_ne.mpr fun hnul => h (hnul ▸ hc)

/-- A text without zeros is kept, up to its length. -/
theorem fixedString_of_not_mem {text : List Char} (h : nul ∉ text) :
    fixedString text = text.take 32 := by
  rw [fixedString, List.rdropWhile_eq_self_iff]
  intro hne
  have hlast : (text.take 32).getLast hne ∈ text := List.mem_of_mem_take (List.getLast_mem hne)
  intro heq
  exact h (beq_iff_eq.mp heq ▸ hlast)

/-- A name that is its own text's name. -/
def Plain (tag : TagName) : Prop := fixedString tag.str = tag

theorem plain_fixedString {text : List Char} (h : nul ∉ text) : Plain (fixedString text) := by
  have hcut : nul ∉ text.take 32 := fun hmem => h (List.mem_of_mem_take hmem)
  rw [Plain, fixedString_of_not_mem h, TagName.str, takeWhile_of_not_mem hcut,
    fixedString_of_not_mem hcut, List.take_take, Nat.min_self]

/-! ## Counters -/

def postWeight (tag : TagObject) : Int := if tag.parent = 0 then 1 else 0
def replyWeight (tag : TagObject) : Int := if tag.parent = 0 then 0 else 1

/-- A counter of the statistics, and what each tag object counts in it. -/
structure Counter (counter : TagStats → BitVec 32) (weight : TagObject → Int) : Prop where
  empty : counter {} = 0
  add : ∀ tag stats, counter (TagStats.add tag stats) =
    counter stats + BitVec.ofInt 32 (weight tag)
  remove : ∀ tag stats, counter (TagStats.remove tag stats) =
    counter stats - BitVec.ofInt 32 (weight tag)
  payout : ∀ stats payout, counter { stats with totalPayout := payout } = counter stats

theorem counter_topPosts : Counter TagStats.topPosts postWeight where
  empty := rfl
  add tag stats := by by_cases h : tag.parent = 0 <;> simp [TagStats.add, postWeight, h]
  remove tag stats := by by_cases h : tag.parent = 0 <;> simp [TagStats.remove, postWeight, h]
  payout _ _ := rfl

theorem counter_comments : Counter TagStats.comments replyWeight where
  empty := rfl
  add tag stats := by by_cases h : tag.parent = 0 <;> simp [TagStats.add, replyWeight, h]
  remove tag stats := by by_cases h : tag.parent = 0 <;> simp [TagStats.remove, replyWeight, h]
  payout _ _ := rfl

theorem counter_netVotes : Counter TagStats.netVotes TagObject.netVotes where
  empty := rfl
  add _ _ := rfl
  remove _ _ := rfl
  payout _ _ := rfl

theorem sub_ofInt (b : BitVec 32) (x : Int) :
    b - BitVec.ofInt 32 x = b + BitVec.ofInt 32 (-x) := by
  rw [BitVec.sub_eq_add_neg, BitVec.ofInt_neg]

/-- What a tag object becomes when its comment has changed. -/
def TagObject.refreshed (view : ChainView) (c : Comment) (tag : TagObject) : TagObject :=
  { tag with netVotes := c.netVotes, trending := view.trending c.netRshares c.created }

namespace TagsIndex

variable {s : TagsIndex} {view : ChainView} {counter : TagStats → BitVec 32}
  {weight : TagObject → Int} {root : Nat → Prop}

/-- The statistics of a tag. -/
def statsOf (s : TagsIndex) (tag : TagName) : TagStats := (s.stats.find? tag).getD {}

theorem statsOf_modifyStats (s : TagsIndex) (text : List Char) (change : TagStats → TagStats)
    (tag : TagName) : (s.modifyStats text change).statsOf tag =
      if tag = fixedString text then change (s.statsOf tag) else s.statsOf tag := by
  unfold statsOf modifyStats getStats
  rw [Store.find?_set]
  split
  · rename_i htag
    rw [htag]
    rfl
  · rfl

/-- What the objects of a tag count together. -/
def total (s : TagsIndex) (weight : TagObject → Int) (tag : TagName) : Int :=
  s.tags.sum fun _ object => if object.tag = tag then weight object else 0

/-- A counter holds what the objects of each tag count, in 32 bits. -/
def Agrees (s : TagsIndex) (counter : TagStats → BitVec 32) (weight : TagObject → Int) : Prop :=
  ∀ tag, counter (s.statsOf tag) = BitVec.ofInt 32 (s.total weight tag)

/-- Names are plain, the next id is a new one, and the objects of root posts have no parent. -/
structure WellFormed (s : TagsIndex) (root : Nat → Prop) : Prop where
  plain : ∀ id object, s.tags.find? id = some object → Plain object.tag
  fresh : ∀ id, s.nextTagId ≤ id → s.tags.find? id = none
  roots : ∀ id object, s.tags.find? id = some object → (object.parent = 0 ↔ root object.comment)

/-- The objects are well formed and each counter agrees with them. -/
structure Sound (s : TagsIndex) (root : Nat → Prop) : Prop extends WellFormed s root where
  topPosts : s.Agrees TagStats.topPosts postWeight
  comments : s.Agrees TagStats.comments replyWeight
  netVotes : s.Agrees TagStats.netVotes TagObject.netVotes

/-- A change of the tags and of one tag's statistics that match. -/
theorem Agrees.change {next : TagsIndex} (h : s.Agrees counter weight) (name : TagName)
    (delta : Int)
    (hstats : ∀ tag, counter (next.statsOf tag) =
      if tag = name then counter (s.statsOf tag) + BitVec.ofInt 32 delta
      else counter (s.statsOf tag))
    (htotal : ∀ tag, next.total weight tag =
      if tag = name then s.total weight tag + delta else s.total weight tag) :
    next.Agrees counter weight := by
  intro tag
  rw [hstats, htotal]
  split
  · rw [h tag, BitVec.ofInt_add]
  · exact h tag

/-! ## One tag -/

section UpdateTag

variable {id : Nat} {current : TagObject} (hfind : s.tags.find? id = some current)

include hfind

theorem tags_updateTag (c : Comment) : (s.updateTag view c id).tags =
    if c.cashoutTime ≠ maximumTime then s.tags.set id (current.refreshed view c)
    else s.tags.remove id := by
  unfold updateTag
  rw [hfind]
  dsimp only
  split <;> rfl

theorem nextTagId_updateTag (c : Comment) :
    (s.updateTag view c id).nextTagId = s.nextTagId := by
  unfold updateTag
  rw [hfind]
  dsimp only
  split <;> rfl

theorem statsOf_updateTag (hname : Plain current.tag) (c : Comment) (tag : TagName) :
    (s.updateTag view c id).statsOf tag =
      if tag = current.tag then
        if c.cashoutTime ≠ maximumTime then
          TagStats.add (current.refreshed view c) (TagStats.remove current (s.statsOf tag))
        else TagStats.remove current (s.statsOf tag)
      else s.statsOf tag := by
  have hremoved := statsOf_modifyStats s current.tag.str (TagStats.remove current) tag
  rw [show fixedString current.tag.str = current.tag from hname] at hremoved
  unfold updateTag
  rw [hfind]
  dsimp only
  by_cases hpaid : c.cashoutTime ≠ maximumTime
  · rw [if_pos hpaid, if_pos hpaid, statsOf_modifyStats,
      show fixedString current.tag.str = current.tag from hname]
    by_cases htag : tag = current.tag
    · rw [if_pos htag] at hremoved ⊢
      rw [if_pos htag, ← hremoved]
      rfl
    · rw [if_neg htag] at hremoved ⊢
      rw [if_neg htag, ← hremoved]
      rfl
  · rw [if_neg hpaid, if_neg hpaid, ← hremoved]
    rfl

end UpdateTag

theorem updateTag_of_none {id : Nat} (hfind : s.tags.find? id = none) (c : Comment) :
    s.updateTag view c id = s := by
  unfold updateTag
  rw [hfind]

theorem Agrees.updateTag (hcounter : Counter counter weight) (h : s.Agrees counter weight)
    (hs : s.WellFormed root) (c : Comment) (id : Nat) :
    (s.updateTag view c id).Agrees counter weight := by
  cases hfind : s.tags.find? id with
  | none => rwa [updateTag_of_none hfind]
  | some current =>
    have hname := hs.plain id current hfind
    by_cases hpaid : c.cashoutTime ≠ maximumTime
    · refine h.change current.tag (weight (current.refreshed view c) - weight current) ?_ ?_
      · intro tag
        rw [statsOf_updateTag hfind hname, if_pos hpaid]
        split
        · rw [hcounter.add, hcounter.remove, sub_ofInt, BitVec.add_assoc, ← BitVec.ofInt_add,
            Int.add_comm, ← Int.sub_eq_add_neg]
        · rfl
      · intro tag
        unfold total
        rw [tags_updateTag hfind, if_pos hpaid, Store.sum_set, Store.share_of_found hfind]
        by_cases htag : tag = current.tag
        · simp [htag, TagObject.refreshed]
        · simp [htag, Ne.symm htag, TagObject.refreshed]
    · refine h.change current.tag (-weight current) ?_ ?_
      · intro tag
        rw [statsOf_updateTag hfind hname, if_neg hpaid]
        split
        · rw [hcounter.remove, sub_ofInt]
        · rfl
      · intro tag
        unfold total
        rw [tags_updateTag hfind, if_neg hpaid, Store.sum_remove, Store.share_of_found hfind]
        by_cases htag : tag = current.tag
        · simp [htag, Int.sub_eq_add_neg]
        · simp [htag, Ne.symm htag]

theorem WellFormed.updateTag (hs : s.WellFormed root) (c : Comment) (id : Nat) :
    (s.updateTag view c id).WellFormed root := by
  cases hfind : s.tags.find? id with
  | none => rwa [updateTag_of_none hfind]
  | some current =>
    -- every object of the new index is like one of the old
    have hfrom : ∀ key object, (s.updateTag view c id).tags.find? key = some object →
        ∃ old, s.tags.find? key = some old ∧ object.tag = old.tag ∧
          object.parent = old.parent ∧ object.comment = old.comment := by
      intro key object hobject
      rw [tags_updateTag hfind] at hobject
      split at hobject
      · rw [Store.find?_set] at hobject
        split at hobject
        · rename_i hkey
          cases hobject
          exact ⟨current, by rw [hkey, hfind], rfl, rfl, rfl⟩
        · exact ⟨object, hobject, rfl, rfl, rfl⟩
      · rw [Store.find?_remove] at hobject
        split at hobject
        · cases hobject
        · exact ⟨object, hobject, rfl, rfl, rfl⟩
    refine ⟨?_, ?_, ?_⟩
    · intro key object hobject
      obtain ⟨old, hold, htag, _, _⟩ := hfrom key object hobject
      exact htag ▸ hs.plain key old hold
    · intro key hkey
      rw [nextTagId_updateTag hfind] at hkey
      cases hobject : (s.updateTag view c id).tags.find? key with
      | none => rfl
      | some object =>
        obtain ⟨old, hold, _⟩ := hfrom key object hobject
        rw [hs.fresh key hkey] at hold
        cases hold
    · intro key object hobject
      obtain ⟨old, hold, _, hparent, hcomment⟩ := hfrom key object hobject
      rw [hparent, hcomment]
      exact hs.roots key old hold

theorem Sound.updateTag (h : s.Sound root) (c : Comment) (id : Nat) :
    (s.updateTag view c id).Sound root where
  toWellFormed := h.toWellFormed.updateTag c id
  topPosts := h.topPosts.updateTag counter_topPosts h.toWellFormed c id
  comments := h.comments.updateTag counter_comments h.toWellFormed c id
  netVotes := h.netVotes.updateTag counter_netVotes h.toWellFormed c id

/-! ## A new tag -/

/-- The object that `create_tag` makes. -/
def newTag (view : ChainView) (id : Nat) (c : Comment) (tag : List Char) : TagObject where
  tag := fixedString tag
  netVotes := c.netVotes
  trending := view.trending c.netRshares c.created
  author := c.author
  parent := if c.parentAuthor ≠ "" then
      ((view.db.findComment c.parentAuthor c.parentPermlink).map Prod.fst).getD 0
    else 0
  comment := id

theorem modifyAuthorStats_same (s : TagsIndex) (author : AccountName) (tag : TagName)
    (change : Option (BitVec 32) → Option (BitVec 32)) :
    (s.modifyAuthorStats author tag change).tags = s.tags ∧
      (s.modifyAuthorStats author tag change).nextTagId = s.nextTagId ∧
      (s.modifyAuthorStats author tag change).stats = s.stats := by
  unfold modifyAuthorStats
  split <;> exact ⟨rfl, rfl, rfl⟩

theorem tags_createTag (id : Nat) (c : Comment) (tag : List Char) :
    (s.createTag view id c tag).tags = s.tags.set s.nextTagId (newTag view id c tag) :=
  (modifyAuthorStats_same _ _ _ _).1

theorem nextTagId_createTag (id : Nat) (c : Comment) (tag : List Char) :
    (s.createTag view id c tag).nextTagId = s.nextTagId + 1 :=
  (modifyAuthorStats_same _ _ _ _).2.1

theorem statsOf_createTag (id : Nat) (c : Comment) (text : List Char) (tag : TagName) :
    (s.createTag view id c text).statsOf tag =
      if tag = fixedString text then TagStats.add (newTag view id c text) (s.statsOf tag)
      else s.statsOf tag := by
  have hstats : (s.createTag view id c text).statsOf tag =
      (s.modifyStats text (TagStats.add (newTag view id c text))).statsOf tag :=
    congrArg (fun stats : Store TagName TagStats => (stats.find? tag).getD {})
      (modifyAuthorStats_same _ _ _ _).2.2
  rw [hstats, statsOf_modifyStats]

/-- What a comment and a tag of it must be like for the tag to be counted where it belongs. -/
structure Countable (view : ChainView) (root : Nat → Prop) (id : Nat) (c : Comment) : Prop where
  root : c.parentAuthor = "" ↔ root id
  parent : c.parentAuthor ≠ "" →
    ∃ row, view.db.findComment c.parentAuthor c.parentPermlink = some row ∧ row.1 ≠ 0

theorem Agrees.createTag (hcounter : Counter counter weight) (h : s.Agrees counter weight)
    (hs : s.WellFormed root) (id : Nat) (c : Comment) (text : List Char) :
    (s.createTag view id c text).Agrees counter weight := by
  refine h.change (fixedString text) (weight (newTag view id c text)) ?_ ?_
  · intro tag
    rw [statsOf_createTag]
    split
    · exact hcounter.add _ _
    · rfl
  · intro tag
    unfold total
    rw [tags_createTag, Store.sum_set, Store.share_of_absent (hs.fresh _ (Nat.le_refl _))]
    by_cases htag : tag = fixedString text
    · simp [htag, newTag]
    · simp [htag, Ne.symm htag, newTag]

theorem Countable.newTag_parent {id : Nat} {c : Comment} (hc : Countable view root id c)
    (tag : List Char) : (newTag view id c tag).parent = 0 ↔ root id := by
  rw [← hc.root]
  by_cases hroot : c.parentAuthor = ""
  · simp [newTag, hroot]
  · obtain ⟨row, hrow, hne⟩ := hc.parent hroot
    simp [newTag, hroot, hrow, hne]

theorem WellFormed.createTag (hs : s.WellFormed root) {id : Nat} {c : Comment}
    (hc : Countable view root id c) {text : List Char} (htext : nul ∉ text) :
    (s.createTag view id c text).WellFormed root := by
  have hfrom : ∀ key object, (s.createTag view id c text).tags.find? key = some object →
      object = newTag view id c text ∨ s.tags.find? key = some object := by
    intro key object hobject
    rw [tags_createTag, Store.find?_set] at hobject
    split at hobject
    · exact .inl (Option.some.inj hobject).symm
    · exact .inr hobject
  refine ⟨?_, ?_, ?_⟩
  · intro key object hobject
    rcases hfrom key object hobject with rfl | hold
    · exact plain_fixedString htext
    · exact hs.plain key object hold
  · intro key hkey
    rw [nextTagId_createTag] at hkey
    rw [tags_createTag, Store.find?_set_of_ne (by omega)]
    exact hs.fresh key (by omega)
  · intro key object hobject
    rcases hfrom key object hobject with rfl | hold
    · exact hc.newTag_parent text
    · exact hs.roots key object hold

theorem Sound.createTag (h : s.Sound root) {id : Nat} {c : Comment}
    (hc : Countable view root id c) {text : List Char} (htext : nul ∉ text) :
    (s.createTag view id c text).Sound root where
  toWellFormed := h.toWellFormed.createTag hc htext
  topPosts := h.topPosts.createTag counter_topPosts h.toWellFormed id c text
  comments := h.comments.createTag counter_comments h.toWellFormed id c text
  netVotes := h.netVotes.createTag counter_netVotes h.toWellFormed id c text

/-! ## A comment -/

/-- Nothing is wrong with an update of a comment's tags from its metadata: no tag is dropped, and
each new one has a name and a place that the statistics can tell. -/
structure Parses (view : ChainView) (root : Nat → Prop) (s : TagsIndex) (id : Nat) (c : Comment) :
    Prop where
  kept : s.removeQueue view id c = []
  named : ∀ tag ∈ filterTags view id c, nul ∉ tag
  countable : Countable view root id c

theorem Sound.updateParsed (h : s.Sound root) {id : Nat} {c : Comment}
    (hc : Parses view root s id c) : (s.updateParsed view id c).Sound root := by
  unfold TagsIndex.updateParsed
  dsimp only
  rw [hc.kept, List.foldl_nil]
  refine List.foldlRecOn (motive := fun s : TagsIndex => s.Sound root) _ _ h ?_
  intro updated hupdated tag htag
  split
  · exact hupdated.createTag hc.countable (hc.named tag htag)
  · exact hupdated.updateTag c _

theorem Sound.updateKnown (h : s.Sound root) (id : Nat) (c : Comment) :
    (s.updateKnown view id c).Sound root :=
  List.foldlRecOn (motive := fun s : TagsIndex => s.Sound root) _ _ h
    fun _ hupdated row _ => hupdated.updateTag c row.1

theorem Sound.updateTags (h : s.Sound root) {id : Nat} {c : Comment} {parseTags : Bool}
    (hc : parseTags = true → Parses view root s id c) (turns : Nat) :
    (s.updateTags view id c parseTags turns).Sound root := by
  induction turns generalizing s id c parseTags with
  | zero => exact h
  | succ turns ih =>
    have hown : (if parseTags then s.updateParsed view id c
        else s.updateKnown view id c).Sound root := by
      cases parseTags with
      | true => exact h.updateParsed (hc rfl)
      | false => exact h.updateKnown id c
    unfold TagsIndex.updateTags
    dsimp only
    split
    · split
      · exact ih hown nofun
      · exact hown
    · exact hown

/-- A loop over comments never drops a tag or makes one that the statistics cannot tell. -/
def ParsesAll (view : ChainView) (root : Nat → Prop) (turns : Nat) :
    TagsIndex → List (Nat × Comment) → Prop
  | _, [] => True
  | s, row :: rows => Parses view root s row.1 row.2 ∧
      ParsesAll view root turns (s.updateTags view row.1 row.2 true turns) rows

theorem Sound.updateAll (turns : Nat) (rows : List (Nat × Comment)) (h : s.Sound root)
    (hrows : ParsesAll view root turns s rows) :
    (rows.foldl (fun s row => s.updateTags view row.1 row.2 true turns) s).Sound root := by
  induction rows generalizing s with
  | nil => exact h
  | cons row rows ih => exact ih (h.updateTags (fun _ => hrows.1) turns) hrows.2

theorem Sound.updateTagsAt (h : s.Sound root) {author : AccountName} {permlink : Text}
    {parseTags : Bool}
    (hc : parseTags = true → ∀ id c, view.db.findComment author permlink = some (id, c) →
      Parses view root s id c) :
    (s.updateTagsAt view author permlink parseTags).Sound root := by
  unfold TagsIndex.updateTagsAt
  split
  · rename_i id c hfind
    exact h.updateTags (fun hparse => hc hparse id c hfind) _
  · exact h

theorem Agrees.addPayout (hcounter : Counter counter weight) (h : s.Agrees counter weight)
    (tag : List Char) (payout : Int) :
    (s.modifyStats tag fun stats =>
      { stats with totalPayout := stats.totalPayout + payout }).Agrees counter weight := by
  refine h.change (fixedString tag) 0 ?_ ?_
  · intro name
    rw [statsOf_modifyStats]
    split
    · simp [hcounter.payout]
    · rfl
  · intro name
    simp only [Int.add_zero, ite_self]
    rfl

theorem Sound.addPayout (h : s.Sound root) (tag : List Char) (payout : Int) :
    (s.modifyStats tag fun stats =>
      { stats with totalPayout := stats.totalPayout + payout }).Sound root where
  toWellFormed := ⟨h.plain, h.fresh, h.roots⟩
  topPosts := h.topPosts.addPayout counter_topPosts tag payout
  comments := h.comments.addPayout counter_comments tag payout
  netVotes := h.netVotes.addPayout counter_netVotes tag payout

/-! ## Runs -/

/-- What a notification must not ask for: dropping a tag in an edit or with its comment, or a tag
that the statistics cannot tell. -/
def Meets (root : Nat → Prop) (view : ChainView) (s : TagsIndex) : Notification → Prop
  | .deleteComment author permlink =>
    ∀ id c, view.db.findComment author permlink = some (id, c) → s.tagsToRemove author id = []
  | .comment author permlink jsonMetadata =>
    view.started → ¬ view.spamAccounts.contains author → jsonMetadata ≠ "" →
      ∀ id c, view.db.findComment author permlink = some (id, c) → Parses view root s id c
  | .vote _ _ => True
  | .commentReward _ _ _ => True
  | .commentPayoutUpdate author permlink =>
    ¬ view.started →
      ∀ id c, view.db.findComment author permlink = some (id, c) → Parses view root s id c
  | .sync => ParsesAll view root (view.db.comments.rows.length + 1) s
      (view.db.comments.ordered (fun x y => x.2.cashoutTime ≤ y.2.cashoutTime) fun _ c =>
        c.cashoutTime ≠ maximumTime)

/-- One notification keeps the statistics at what the objects count. -/
theorem Sound.notify (h : s.Sound root) {note : Notification} (hmeets : Meets root view s note) :
    (s.notify view note).Sound root := by
  cases note with
  | deleteComment author permlink =>
    dsimp only [TagsIndex.notify]
    split
    · exact h
    · rename_i id c hfind
      rw [hmeets id c hfind]
      exact h
  | comment author permlink jsonMetadata =>
    dsimp only [TagsIndex.notify]
    split
    · exact h
    · rename_i hon
      simp only [Bool.or_eq_true, Bool.not_eq_true', not_or, Bool.not_eq_false] at hon
      exact h.updateTagsAt fun hjson => hmeets hon.1 hon.2 (of_decide_eq_true hjson)
  | vote author permlink =>
    dsimp only [TagsIndex.notify]
    split
    · exact h.updateTagsAt nofun
    · exact h
  | commentReward author permlink payout =>
    have hupdated : (s.updateTagsAt view author permlink false).Sound root := h.updateTagsAt nofun
    dsimp only [TagsIndex.notify]
    split
    · exact hupdated
    · exact List.foldlRecOn (motive := fun s : TagsIndex => s.Sound root) _ _ hupdated
        fun _ hs tag _ => hs.addPayout tag payout
  | commentPayoutUpdate author permlink =>
    exact h.updateTagsAt fun hstarted => hmeets (by simpa using hstarted)
  | sync => exact h.updateAll _ _ hmeets

/-- The states that a run of notifications goes through. -/
def states (s : TagsIndex) : List (ChainView × Notification) → List TagsIndex
  | [] => [s]
  | (view, note) :: run => s :: states (s.notify view note) run

/-- No notification of the run asks for what it must not. -/
def MeetsRun (root : Nat → Prop) (s : TagsIndex) : List (ChainView × Notification) → Prop
  | [] => True
  | (view, note) :: run => Meets root view s note ∧ MeetsRun root (s.notify view note) run

theorem sound_empty (root : Nat → Prop) : Sound {} root where
  plain _ _ h := nomatch h
  fresh _ _ := rfl
  roots _ _ h := nomatch h
  topPosts _ := rfl
  comments _ := rfl
  netVotes _ := rfl

theorem Sound.states (h : s.Sound root) (run : List (ChainView × Notification))
    (hrun : MeetsRun root s run) : ∀ reached ∈ s.states run, reached.Sound root := by
  induction run generalizing s with
  | nil =>
    intro reached hreached
    cases List.mem_singleton.mp hreached
    exact h
  | cons step run ih =>
    intro reached hreached
    rcases List.mem_cons.mp hreached with rfl | hlater
    · exact h
    · exact ih (h.notify hrun.1) hrun.2 reached hlater

/-! ## What the statistics say -/

/-- The root posts, the replies and the votes of the objects that carry a tag. -/
def postsUnder (s : TagsIndex) (root : Nat → Prop) [DecidablePred root] (tag : TagName) : Nat :=
  (s.tags.rows.filter fun row => row.2.tag = tag && root row.2.comment).length

def repliesUnder (s : TagsIndex) (root : Nat → Prop) [DecidablePred root] (tag : TagName) : Nat :=
  (s.tags.rows.filter fun row => row.2.tag = tag && ! root row.2.comment).length

def votesUnder (s : TagsIndex) (tag : TagName) : Int :=
  ((s.tags.rows.filter fun row => row.2.tag = tag).map fun row => row.2.netVotes).sum

/-- The statistics of every tag are those of the objects that carry it. -/
def StatsExact (s : TagsIndex) (root : Nat → Prop) [DecidablePred root] : Prop :=
  ∀ tag, (s.statsOf tag).topPosts.toNat = s.postsUnder root tag ∧
    (s.statsOf tag).comments.toNat = s.repliesUnder root tag ∧
    (s.statsOf tag).netVotes.toInt = s.votesUnder tag

/-- The objects and their votes are few enough for counters of 32 bits. -/
structure Fits (s : TagsIndex) : Prop where
  objects : s.tags.rows.length < 2 ^ 32
  votes : ∀ tag, -2 ^ 31 ≤ s.votesUnder tag ∧ s.votesUnder tag < 2 ^ 31

theorem sum_eq_sum_filter {α : Type} (weight : α → Int) (keep : α → Bool) (rows : List α) :
    (rows.map fun row => if keep row then weight row else 0).sum =
      ((rows.filter keep).map weight).sum := by
  induction rows with
  | nil => rfl
  | cons row rows ih =>
    by_cases hrow : keep row
    · simp [hrow, ih]
    · simp [hrow, ih]

theorem toNat_ofInt_of_lt {n : Nat} (h : n < 2 ^ 32) : (BitVec.ofInt 32 n).toNat = n := by
  rw [BitVec.ofInt_natCast, BitVec.toNat_ofNat, Nat.mod_eq_of_lt h]

/-- In a sound state the statistics are exact as far as the counters can hold them. -/
theorem Sound.statsExact [DecidablePred root] (h : s.Sound root) (hfits : s.Fits) :
    s.StatsExact root := by
  intro tag
  have hrow : ∀ row ∈ s.tags.rows, (row.2.parent = 0 ↔ root row.2.comment) := fun row hrow =>
    h.roots row.1 row.2 (Store.mem_rows_iff.mp hrow)
  have hposts : s.total postWeight tag = (s.postsUnder root tag : Int) := by
    unfold total postsUnder
    rw [← Store.rows_sum]
    refine Store.sum_eq_length_filter _ _ _ fun row hmem => ?_
    simp [postWeight, hrow row hmem, ← ite_and]
  have hreplies : s.total replyWeight tag = (s.repliesUnder root tag : Int) := by
    unfold total repliesUnder
    rw [← Store.rows_sum]
    refine Store.sum_eq_length_filter _ _ _ fun row hmem => ?_
    by_cases hroot : root row.2.comment <;> simp [replyWeight, hrow row hmem, hroot]
  have hvotes : s.total TagObject.netVotes tag = s.votesUnder tag := by
    unfold total votesUnder
    rw [← Store.rows_sum, ← sum_eq_sum_filter]
    simp
  refine ⟨?_, ?_, ?_⟩
  · rw [h.topPosts tag, hposts]
    exact toNat_ofInt_of_lt (Nat.lt_of_le_of_lt (List.length_filter_le _ _) hfits.objects)
  · rw [h.comments tag, hreplies]
    exact toNat_ofInt_of_lt (Nat.lt_of_le_of_lt (List.length_filter_le _ _) hfits.objects)
  · rw [h.netVotes tag, hvotes]
    have hbounds := hfits.votes tag
    exact BitVec.toInt_ofInt_eq_self (by decide) hbounds.1 hbounds.2

/-- From the empty indexes on, as long as no tag is dropped and every tag can be told, the
statistics are exact in every state whose numbers the counters hold. -/
theorem statsExact_of_meetsRun (root : Nat → Prop) [DecidablePred root]
    (run : List (ChainView × Notification)) (hrun : MeetsRun root {} run) :
    ∀ reached ∈ states {} run, reached.Fits → reached.StatsExact root :=
  fun reached hreached hfits => ((sound_empty root).states run hrun reached hreached).statsExact hfits

end TagsIndex

end Tags

namespace Sample

open Ledger Tags TagsIndex

def painting : Comment :=
  { category := "art", parentAuthor := "", parentPermlink := "art", author := "alice"
    permlink := "painting", cashoutTime := 1000000, rootComment := 0 }

/-- What the plugin sees when the post's metadata names the tags. -/
def tagged (metadata : List (List Char)) : ChainView where
  db := { dgp := { time := 1000, currentWitness := "initminer" }
          processedHardforks := [0]
          comments := (∅ : Store Nat Comment).set 0 painting }
  metadata _ := metadata
  started := true
  spamAccounts := []
  trending _ _ := 0
  reached _ := false

def posting : ChainView × Notification :=
  (tagged ["art".toList], .comment "alice" "painting" "\x7b\"tags\":[\"art\"]\x7d")

def editing : ChainView × Notification :=
  (tagged [], .comment "alice" "painting" "\x7b\"tags\":[]\x7d")

/-- The indexes after the post and the edit. -/
def edited : TagsIndex := (posting :: [editing]).foldl (fun s step => s.notify step.1 step.2) {}

/-- The indexes after the post. -/
def posted : TagsIndex := TagsIndex.notify posting.1 {} posting.2

theorem fits_of_unvoted {s : TagsIndex} (hobjects : s.tags.rows.length < 2 ^ 32)
    (hvotes : ∀ row ∈ s.tags.rows, row.2.netVotes = 0) : s.Fits where
  objects := hobjects
  votes tag := by
    have hzero : s.votesUnder tag = 0 := by
      refine List.sum_eq_zero fun vote hvote => ?_
      obtain ⟨row, hrow, rfl⟩ := List.mem_map.mp hvote
      exact hvotes row (List.mem_of_mem_filter hrow)
    omega

/-- An edit that drops a tag leaves its post counted. -/
theorem edited_counts : edited ∈ states {} [posting, editing] ∧ edited.Fits ∧
    (edited.statsOf "art".toList).topPosts.toNat = 1 ∧
    edited.postsUnder (· = 0) "art".toList = 0 ∧ ¬ edited.StatsExact (· = 0) := by
  have hcounted : (edited.statsOf "art".toList).topPosts.toNat = 1 := by decide +kernel
  have hnone : edited.postsUnder (· = 0) "art".toList = 0 := by decide +kernel
  refine ⟨.tail _ (.tail _ (.head _)), fits_of_unvoted (by decide +kernel) (by decide +kernel),
    hcounted, hnone, fun hexact => ?_⟩
  have hequal := (hexact "art".toList).1
  rw [hcounted, hnone] at hequal
  cases hequal

theorem posted_statsExact : posted.StatsExact (· = 0) :=
  statsExact_of_meetsRun (· = 0) [posting]
    ⟨fun _ _ _ id c hfind => by
      have hrow : (0, painting) = (id, c) := Option.some.inj hfind
      cases hrow
      exact ⟨by decide +kernel, by decide +kernel, ⟨by decide, fun hreply => absurd rfl hreply⟩⟩,
      trivial⟩
    posted (.tail _ (.head _)) (fits_of_unvoted (by decide +kernel) (by decide +kernel))

end Sample

end Blurt
