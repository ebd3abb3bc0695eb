import Blurt.Plugins.FollowFeeds

/-! # Runs of the follow plugin

The counters of an account are the numbers of its follow objects after every operation. Together with
the feeds that comments and reblogs serve, this is kept through whole runs.
-/

namespace Blurt

namespace Follow

open Ledger Outcome

namespace FollowIndex

variable {view : ChainView} {s s' : FollowIndex} {comment : Nat} {account follower : AccountName}

/-! ## Who follows whom -/

theorem followsBlog_addBit (bits : BitVec 16) (target : Text) :
    followsBlog (addBit bits target) = (followsBlog bits || decide (followType target = .blog)) := by
  unfold addBit
  cases followType target <;> simp [followsBlog]

theorem followsBlog_whatBits (what : List Text) :
    followsBlog (whatBits what) = what.any fun target => followType target = .blog := by
  have hfold : ∀ bits : BitVec 16, followsBlog (what.foldl addBit bits) =
      (followsBlog bits || what.any fun target => followType target = .blog) := by
    induction what with
    | nil => simp
    | cons target rest ih =>
        intro bits
        rw [List.foldl_cons, ih, followsBlog_addBit, List.any_cons, Bool.or_assoc]
  rw [whatBits, hfold]
  rfl

/-- How many follow objects have the blog bit and the account on one of their two sides. -/
def blogFollows (s : FollowIndex) (side : AccountName × AccountName → AccountName)
    (account : AccountName) : Nat :=
  (s.follows.rows.filter fun row => side row.1 = account && followsBlog row.2).length

/-- The same number, as a sum over the follow objects. -/
def followSum (follows : Store (AccountName × AccountName) (BitVec 16))
    (side : AccountName × AccountName → AccountName) (account : AccountName) : Int :=
  follows.sum fun key what => if side key = account ∧ followsBlog what then 1 else 0

/-- The count object of an account. -/
def countOf (counts : Store AccountName FollowCount) (account : AccountName) : FollowCount :=
  (counts.find? account).getD {}

/-- The counters are the numbers of follow objects in 32 bits, and no follow object is without the
counters of its two accounts. -/
structure Counted (s : FollowIndex) : Prop where
  known : ∀ key what, s.follows.find? key = some what →
    s.counts.find? key.1 ≠ none ∧ s.counts.find? key.2 ≠ none
  follower : ∀ account, (countOf s.counts account).followerCount =
    BitVec.ofInt 32 (followSum s.follows Prod.fst account)
  following : ∀ account, (countOf s.counts account).followingCount =
    BitVec.ofInt 32 (followSum s.follows Prod.snd account)
  few : s.follows.rows.length < 2 ^ 32

theorem counted_empty : Counted {} where
  known _ _ h := by cases h
  follower _ := rfl
  following _ := rfl
  few := by decide

theorem recount_ofInt (wasFollowed isFollowing : Bool) (n : Int) :
    recount wasFollowed isFollowing (BitVec.ofInt 32 n) =
      BitVec.ofInt 32 (n + ((if isFollowing then 1 else 0) - (if wasFollowed then 1 else 0))) := by
  have hone : BitVec.ofInt 32 (-1) = -1 := by decide
  cases wasFollowed
  · cases isFollowing <;> simp [recount, BitVec.ofInt_add]
  · cases isFollowing
    · simp [recount, BitVec.ofInt_add, hone, BitVec.sub_eq_add_neg]
    · simp [recount, BitVec.sub_add_cancel]

theorem countOf_set (counts : Store AccountName FollowCount) (name account : AccountName)
    (count : FollowCount) : countOf (counts.set name count) account =
      if account = name then count else countOf counts account := by
  unfold countOf
  rw [Store.find?_set]
  split <;> rfl

/-- The two updates of the counters, of which either may have created its object. -/
theorem countFollowing_eq {wasFollowed : Bool} (isFollowing : Bool) {count : Option FollowCount}
    (hknown : count = none → wasFollowed = false) :
    countFollowing wasFollowed isFollowing count =
      { count.getD {} with
        followingCount := recount wasFollowed isFollowing (count.getD {}).followingCount } := by
  cases count with
  | none =>
      rw [hknown rfl]
      cases isFollowing <;> rfl
  | some count => rfl

theorem countFollower_eq {wasFollowed : Bool} (isFollowing : Bool) {count : Option FollowCount}
    (hknown : count = none → wasFollowed = false) :
    countFollower wasFollowed isFollowing count =
      { count.getD {} with
        followerCount := recount wasFollowed isFollowing (count.getD {}).followerCount } := by
  cases count with
  | none =>
      rw [hknown rfl]
      cases isFollowing <;> rfl
  | some count => rfl

section CountFollow

variable {counts : Store AccountName FollowCount} {name following : AccountName}
  {wasFollowed : Bool}

/-- Both counters are adjusted, also when they are those of one account. -/
theorem countOf_countFollow (isFollowing : Bool)
    (hknown : ∀ account, account = following ∨ account = name → counts.find? account = none →
      wasFollowed = false) (account : AccountName) :
    countOf (countFollow wasFollowed isFollowing name following counts) account =
      { followerCount := if account = following then
          recount wasFollowed isFollowing (countOf counts account).followerCount
          else (countOf counts account).followerCount
        followingCount := if account = name then
          recount wasFollowed isFollowing (countOf counts account).followingCount
          else (countOf counts account).followingCount } := by
  have hfirst := countFollowing_eq isFollowing (hknown name (.inr rfl))
  have hcounted : ∀ account, countOf (counts.set name
      (countFollowing wasFollowed isFollowing (counts.find? name))) account =
      { countOf counts account with
        followingCount := if account = name then
          recount wasFollowed isFollowing (countOf counts account).followingCount
          else (countOf counts account).followingCount } := by
    intro account
    rw [countOf_set]
    split
    · rename_i haccount
      rw [hfirst, haccount]
      rfl
    · rfl
  have hfound : (counts.set name (countFollowing wasFollowed isFollowing
      (counts.find? name))).find? following = none → wasFollowed = false := by
    intro hnone
    rw [Store.find?_set] at hnone
    split at hnone
    · cases hnone
    · exact hknown following (.inl rfl) hnone
  have hsecond := countFollower_eq isFollowing hfound
  rw [countFollow, countOf_set]
  split
  · rename_i haccount
    subst haccount
    have hfollowing := hcounted account
    rw [countOf] at hfollowing
    rw [hsecond, hfollowing]
  · exact hcounted account

theorem find?_countFollow {isFollowing : Bool} {account : AccountName}
    (h : account = following ∨ account = name ∨ counts.find? account ≠ none) :
    (countFollow wasFollowed isFollowing name following counts).find? account ≠ none := by
  rw [countFollow, Store.find?_set]
  by_cases hfollowing : account = following
  · simp [hfollowing]
  · rw [if_neg hfollowing, Store.find?_set]
    by_cases hname : account = name
    · simp [hname]
    · rw [if_neg hname]
      exact (h.resolve_left hfollowing).resolve_left hname

end CountFollow

theorem followSum_set (follows : Store (AccountName × AccountName) (BitVec 16))
    (side : AccountName × AccountName → AccountName) (key : AccountName × AccountName)
    (what : BitVec 16) (account : AccountName) :
    followSum (follows.set key what) side account = followSum follows side account +
      if account = side key then
        (if followsBlog what then 1 else 0) -
          (if ((follows.find? key).map followsBlog).getD false then 1 else 0)
      else 0 := by
  unfold followSum
  rw [Store.sum_set]
  congr 1
  by_cases haccount : account = side key
  · cases hfind : follows.find? key with
    | none => simp [Store.share, hfind, haccount]
    | some before => simp [Store.share, hfind, haccount]
  · cases hfind : follows.find? key with
    | none => simp [Store.share, hfind, haccount, Ne.symm haccount]
    | some before => simp [Store.share, hfind, haccount, Ne.symm haccount]

/-- A follow operation, on oneself too, keeps the counters right. -/
theorem Counted.follow (h : s.Counted) {o : FollowOperation}
    (hroom : s.follows.rows.length + 1 < 2 ^ 32) (ho : s.follow o = .ok s') : s'.Counted := by
  simp only [FollowIndex.follow, bind_eq_ok, pure_eq_ok] at ho
  obtain ⟨_, -, rfl⟩ := ho
  rw [← followsBlog_whatBits]
  generalize whatBits o.what = what
  generalize hwas : ((s.follows.find? (o.following, o.follower)).map followsBlog).getD false =
    wasFollowed
  have hknown : ∀ name, name = o.following ∨ name = o.follower → s.counts.find? name = none →
      wasFollowed = false := by
    intro name hname hnone
    cases hfind : s.follows.find? (o.following, o.follower) with
    | none =>
        rw [← hwas, hfind]
        rfl
    | some before =>
        obtain ⟨hfollowing, hfollower⟩ := h.known _ before hfind
        rcases hname with rfl | rfl
        · exact absurd hnone hfollowing
        · exact absurd hnone hfollower
  have hcount := countOf_countFollow (followsBlog what) hknown
  constructor
  · intro key bits hbits
    simp only [Store.find?_set] at hbits
    split at hbits
    · rename_i hkey
      subst hkey
      exact ⟨find?_countFollow (.inl rfl), find?_countFollow (.inr (.inl rfl))⟩
    · obtain ⟨hfollowing, hfollower⟩ := h.known key bits hbits
      exact ⟨find?_countFollow (.inr (.inr hfollowing)), find?_countFollow (.inr (.inr hfollower))⟩
  · intro account
    rw [followSum_set, hwas, congrArg FollowCount.followerCount (hcount account), h.follower]
    dsimp only
    split
    · rw [recount_ofInt]
    · rw [add_zero]
  · intro account
    rw [followSum_set, hwas, congrArg FollowCount.followingCount (hcount account), h.following]
    dsimp only
    split
    · rw [recount_ofInt]
    · rw [add_zero]
  · have hlength : ∀ follows : Store (AccountName × AccountName) (BitVec 16),
        follows.sum (fun _ _ => 1) = follows.rows.length := by
      intro follows
      rw [← Store.rows_sum]
      simp
    have hset := Store.sum_set (fun _ _ => 1) (o.following, o.follower) what s.follows
    have hshare : 0 ≤ s.follows.share (fun _ _ => 1) (o.following, o.follower) := by
      cases hfind : s.follows.find? (o.following, o.follower) <;> simp [Store.share, hfind]
    rw [hlength, hlength] at hset
    change (Store.set _ _ _).rows.length < _
    omega

/-- Where the counters are right, they are the numbers of follow objects. -/
theorem Counted.exact (h : s.Counted) (account : AccountName) :
    (countOf s.counts account).followerCount.toNat = s.blogFollows Prod.fst account ∧
      (countOf s.counts account).followingCount.toNat = s.blogFollows Prod.snd account := by
  have hnumber : ∀ side : AccountName × AccountName → AccountName,
      (BitVec.ofInt 32 (followSum s.follows side account)).toNat = s.blogFollows side account := by
    intro side
    have hsum : followSum s.follows side account = s.blogFollows side account := by
      unfold followSum blogFollows
      rw [← Store.rows_sum]
      exact Store.sum_eq_length_filter _ _ _ fun row _ => by simp
    rw [hsum, BitVec.ofInt_natCast, BitVec.toNat_ofNat, Nat.mod_eq_of_lt]
    exact Nat.lt_of_le_of_lt (List.length_filter_le _ _) h.few
  rw [h.follower, h.following]
  exact ⟨hnumber _, hnumber _⟩

/-! ## Events -/

/-- The comment that a comment operation has just created, if the hook goes on with it. -/
def newComment (view : ChainView) (author : AccountName) (permlink : Text)
    (parentAuthor : AccountName) : Option Nat :=
  if parentAuthor ≠ "" ∨ view.spamAccounts.contains author then none
  else match view.db.findComment author permlink with
    | some (comment, c) => if c.created ≠ view.db.dgp.time then none else some comment
    | none => none

/-- The followers whose feeds are gone through. -/
def served (view : ChainView) (s : FollowIndex) (account : AccountName) : List AccountName :=
  if view.startFeeds ≤ view.db.dgp.time then s.followersOf account else []

/-- The accounts whose feeds an event touches. -/
def touched (view : ChainView) (s : FollowIndex) : Event → List AccountName
  | .comment author permlink parentAuthor =>
      if (newComment view author permlink parentAuthor).isSome then served view s author else []
  | .reblog o =>
      if o.account ≠ o.author ∧ (s.checkReblog view o).toOption.isSome then
        served view s o.account
      else []
  | .follow _ | .deleteComment _ _ => []

/-- What an event may find. A follow operation: fewer than 2^32 follow objects. A comment or a
reblog: a blog whose numbers are far from the end of their range, and feeds that can take it. -/
def Meets (view : ChainView) (s : FollowIndex) : Event → Prop
  | .follow _ => s.follows.rows.length + 1 < 2 ^ 32
  | .comment author permlink parentAuthor =>
      ∀ comment, newComment view author permlink parentAuthor = some comment →
        Numberable (objectsOf s.blogs author) ∧
        ∀ follower ∈ served view s author, Room view.maxFeedSize comment s follower
  | .reblog o => o.account ≠ o.author →
      ∀ comment, s.checkReblog view o = .ok comment →
        Numberable (objectsOf s.blogs o.account) ∧
        ∀ follower ∈ served view s o.account, ReblogRoom view.maxFeedSize comment s follower
  | .deleteComment _ _ => True

instance (view : ChainView) (s : FollowIndex) : (event : Event) → Decidable (Meets view s event)
  | .follow _ => inferInstanceAs (Decidable (_ < _))
  | .comment author permlink parentAuthor =>
      inferInstanceAs (Decidable (∀ comment ∈ newComment view author permlink parentAuthor,
        Numberable (objectsOf s.blogs author) ∧
        ∀ follower ∈ served view s author, Room view.maxFeedSize comment s follower))
  | .reblog o =>
      decidable_of_iff (o.account ≠ o.author →
          ∀ comment ∈ (s.checkReblog view o).toOption, Numberable (objectsOf s.blogs o.account) ∧
            ∀ follower ∈ served view s o.account, ReblogRoom view.maxFeedSize comment s follower)
        (by cases h : s.checkReblog view o <;> simp [Meets, h, Except.toOption])
  | .deleteComment _ _ => inferInstanceAs (Decidable True)

/-- A new entry is above all others of its feed. -/
def Increasing (feeds feeds' : Numbered Feed) : Prop :=
  ∀ account number entry, feeds'.find? (account, number) = some entry →
    (∀ before, feeds.find? (account, number) = some before → before.comment ≠ entry.comment) →
    ∀ older, (feeds'.find? (account, older)).isSome → older ≤ number

/-- What an event makes of the feeds: new entries are above all others, the feeds that it touches
are in size, and the others do not grow. -/
structure Ordered (view : ChainView) (s s' : FollowIndex) (event : Event) : Prop where
  increasing : Increasing s.feeds s'.feeds
  size : ∀ account ∈ touched view s event,
    (objectsOf s'.feeds account).length ≤ view.maxFeedSize
  spared : ∀ account, account ∉ touched view s event →
    (objectsOf s'.feeds account).length ≤ (objectsOf s.feeds account).length

/-- An event that takes entries away at most. -/
theorem Ordered.of_kept {event : Event}
    (h : ∀ key entry, s'.feeds.find? key = some entry → s.feeds.find? key = some entry)
    (htouched : touched view s event = []) : Ordered view s s' event where
  increasing _ _ entry hentry hnew := absurd rfl (hnew entry (h _ _ hentry))
  size := by simp [htouched]
  spared account _ := by
    have hsub : (objectsOf s'.feeds account).map Prod.fst ⊆
        (objectsOf s.feeds account).map Prod.fst := by
      intro number hnumber
      rw [mem_numbers, Option.isSome_iff_exists] at hnumber ⊢
      obtain ⟨entry, hentry⟩ := hnumber
      exact ⟨entry, h _ _ hentry⟩
    have hlength := (numbers_nodup.subperm hsub).length_le
    rwa [List.length_map, List.length_map] at hlength

theorem Ordered.of_served {event : Event}
    (h : Served view.maxFeedSize s.feeds s'.feeds (touched view s event)) :
    Ordered view s s' event where
  increasing account number entry hentry hnew older holder := by
    by_cases hserved : account ∈ touched view s event
    · exact (h.fed account hserved).increasing number entry hentry hnew older holder
    · rw [h.others account number hserved] at hentry
      exact absurd rfl (hnew entry hentry)
  size account haccount := (h.fed account haccount).size
  spared account haccount := by
    rw [objectsOf_congr fun number => h.others account number haccount]

theorem newComment_eq_some {author : AccountName} {permlink : Text} {parentAuthor : AccountName}
    {comment : Nat} (h : newComment view author permlink parentAuthor = some comment) :
    parentAuthor = "" ∧ view.spamAccounts.contains author = false ∧
      ∃ c, view.db.findComment author permlink = some (comment, c) ∧
        c.created = view.db.dgp.time := by
  unfold newComment at h
  split at h
  · cases h
  · rename_i hskip
    obtain ⟨hparent, hspam⟩ := not_or.mp hskip
    split at h
    · rename_i found c hfind
      split at h
      · cases h
      · rename_i hcreated
        cases h
        exact ⟨not_not.mp hparent, by simpa using hspam, c, hfind, not_not.mp hcreated⟩
    · cases h

/-- A comment that is not entered changes nothing. -/
theorem postComment_of_none {author : AccountName} {permlink : Text} {parentAuthor : AccountName}
    (h : newComment view author permlink parentAuthor = none)
    (hok : s.postComment view author permlink parentAuthor = .ok s') : s' = s := by
  unfold postComment at hok
  split at hok
  · exact (Except.ok.inj hok).symm
  · rename_i hparent
    split at hok
    · exact (Except.ok.inj hok).symm
    · rename_i hspam
      simp only [Database.getComment, bind_eq_ok, require_eq_ok] at hok
      obtain ⟨⟨comment, c⟩, hfind, hok⟩ := hok
      rw [newComment, if_neg (not_or.mpr ⟨hparent, hspam⟩), hfind] at h
      split at hok
      · exact (pure_eq_ok.mp hok).symm
      · rename_i hcreated
        dsimp only at h
        rw [if_neg hcreated] at h
        cases h

/-- The loop over the followers, which only runs once feeds have started. -/
theorem served_forEach (turn : FollowIndex → AccountName → Except String FollowIndex)
    {room : FollowIndex → AccountName → Prop} (follows : FollowIndex) (account : AccountName)
    (hturn : ∀ s follower, room s follower → ∃ feeds, turn s follower = .ok { s with feeds } ∧
      Spares s.feeds feeds follower ∧ Fed view.maxFeedSize s.feeds feeds follower)
    (hroom : ∀ s feeds follower, (∀ number, feeds.find? (follower, number) =
      s.feeds.find? (follower, number)) → room s follower → room { s with feeds } follower)
    (h : ∀ follower ∈ served view follows account, room s follower) :
    ∃ feeds, (if view.startFeeds ≤ view.db.dgp.time then
        forEach turn s (follows.followersOf account) else .ok s) = .ok { s with feeds } ∧
      Served view.maxFeedSize s.feeds feeds (served view follows account) := by
  unfold served at h ⊢
  split
  · rename_i hstarted
    rw [if_pos hstarted] at h
    exact forEach_served hturn hroom (follows.followersOf_nodup account) h
  · exact ⟨s.feeds, rfl, fun _ _ _ => rfl, by simp⟩

/-- A comment is entered in all feeds and in the blog. -/
theorem postComment_ok {author : AccountName} {permlink : Text} {parentAuthor : AccountName}
    {comment : Nat} (hnew : newComment view author permlink parentAuthor = some comment)
    (hmeets : Meets view s (.comment author permlink parentAuthor)) :
    ∃ feeds blogs, s.postComment view author permlink parentAuthor = .ok { s with feeds, blogs } ∧
      Served view.maxFeedSize s.feeds feeds (served view s author) := by
  obtain ⟨hparent, hspam, c, hfind, hcreated⟩ := newComment_eq_some hnew
  obtain ⟨hblog, hfeeds⟩ := hmeets comment hnew
  obtain ⟨feeds, hfed, hserved⟩ := served_forEach (feedComment view comment) s author
    (fun _ _ => feedComment_ok) (fun _ _ _ hsame h => h.congr hsame) hfeeds
  obtain ⟨blogs, hblogs⟩ := blogComment_ok view comment (s := { s with feeds }) hblog
  refine ⟨feeds, blogs, ?_, hserved⟩
  rw [postComment, if_neg (not_not.mpr hparent), hspam, if_neg Bool.false_ne_true,
    Database.getComment, hfind]
  simp only [Outcome.require, ok_bind, hcreated, ne_eq, not_true, if_false]
  split at hfed
  · rename_i hstarted
    rw [if_pos hstarted, hfed]
    exact hblogs
  · rename_i hstarted
    have hsame : s.feeds = feeds := congrArg FollowIndex.feeds (Except.ok.inj hfed)
    rw [if_neg hstarted, ← hsame]
    rw [← hsame] at hblogs
    exact hblogs

/-- A reblog that passes the checks is entered in all feeds. -/
theorem reblog_ok {o : ReblogOperation} {comment : Nat} (hown : o.account ≠ o.author)
    (hcheck : s.checkReblog view o = .ok comment) (hmeets : Meets view s (.reblog o)) :
    ∃ feeds blogs, s.reblog view o = .ok { s with feeds, blogs } ∧
      Served view.maxFeedSize s.feeds feeds (served view s o.account) := by
  obtain ⟨hblog, hfeeds⟩ := hmeets hown comment hcheck
  let blogs := s.blogs.set (o.account, nextNumber (objectsOf s.blogs o.account))
    { comment, rebloggedOn := view.db.dgp.time }
  obtain ⟨feeds, hfed, hserved⟩ := served_forEach (feedReblog view o.account comment)
    (s := { s with blogs }) s o.account
    (fun _ _ => feedReblog_ok) (fun _ _ _ hsame h => h.congr hsame)
    (fun follower hfollower => (hfeeds follower hfollower).congr fun _ => rfl)
  refine ⟨feeds, blogs, ?_, hserved⟩
  rw [reblog, hcheck]
  simp only [ok_bind, insertUnique, nextNumber_free hblog, Option.isNone_none, ensure, if_true]
  exact hfed

/-! ## Runs -/

theorem step_of_ok {event : Event} (h : s.handle view event = .ok s') : s.step view event = s' := by
  rw [step, h]

theorem step_of_error {event : Event} {message : String}
    (h : s.handle view event = .error message) : s.step view event = s := by
  rw [step, h]

/-- An event without followers that may only take entries away. -/
theorem deleteComment_kept (view : ChainView) (s : FollowIndex) (author : AccountName)
    (permlink : Text) :
    (∀ key entry, (s.deleteComment view author permlink).feeds.find? key = some entry →
      s.feeds.find? key = some entry) ∧
    (s.deleteComment view author permlink).follows = s.follows ∧
    (s.deleteComment view author permlink).counts = s.counts := by
  unfold deleteComment
  split
  · exact ⟨fun _ _ h => h, rfl, rfl⟩
  · split
    · exact ⟨fun _ _ h => h, rfl, rfl⟩
    · refine ⟨fun key entry h => ?_, rfl, rfl⟩
      rw [Store.find?_foldl_remove] at h
      split at h
      · cases h
      · exact h

theorem Counted.congr (h : s.Counted) (hfollows : s'.follows = s.follows)
    (hcounts : s'.counts = s.counts) : s'.Counted where
  known := by
    rw [hfollows, hcounts]
    exact h.known
  follower := by
    rw [hfollows, hcounts]
    exact h.follower
  following := by
    rw [hfollows, hcounts]
    exact h.following
  few := by
    rw [hfollows]
    exact h.few

/-- An event that meets its condition keeps the counters right and the feeds in order. -/
theorem step_keeps (h : s.Counted) {event : Event} (hmeets : Meets view s event) :
    (s.step view event).Counted ∧ Ordered view s (s.step view event) event := by
  have hsame : touched view s event = [] → Ordered view s s event := .of_kept fun _ _ h => h
  cases hhandle : s.handle view event with
  | error message =>
      rw [step_of_error hhandle]
      refine ⟨h, hsame ?_⟩
      cases event with
      | follow o => rfl
      | deleteComment author permlink => cases hhandle
      | comment author permlink parentAuthor =>
          cases hnew : newComment view author permlink parentAuthor with
          | none => simp [touched, hnew]
          | some comment =>
              obtain ⟨feeds, blogs, hok, -⟩ := postComment_ok hnew hmeets
              rw [handle, hok] at hhandle
              cases hhandle
      | reblog o =>
          refine if_neg fun ⟨hown, hcheck⟩ => ?_
          cases hfound : s.checkReblog view o with
          | error message =>
              rw [hfound] at hcheck
              cases hcheck
          | ok comment =>
              obtain ⟨feeds, blogs, hok, -⟩ := reblog_ok hown hfound hmeets
              simp [handle, ensure, hown, hok] at hhandle
  | ok next =>
      rw [step_of_ok hhandle]
      cases event with
      | follow o =>
          simp only [handle, bind_eq_ok] at hhandle
          obtain ⟨_, -, hfollow⟩ := hhandle
          refine ⟨h.follow hmeets hfollow, .of_kept ?_ rfl⟩
          simp only [FollowIndex.follow, bind_eq_ok, pure_eq_ok] at hfollow
          obtain ⟨_, -, rfl⟩ := hfollow
          exact fun _ _ h => h
      | deleteComment author permlink =>
          cases hhandle
          obtain ⟨hkept, hfollows, hcounts⟩ := deleteComment_kept view s author permlink
          exact ⟨h.congr hfollows hcounts, .of_kept hkept rfl⟩
      | comment author permlink parentAuthor =>
          cases hnew : newComment view author permlink parentAuthor with
          | none =>
              rw [postComment_of_none hnew hhandle]
              exact ⟨h, hsame (by simp [touched, hnew])⟩
          | some comment =>
              obtain ⟨feeds, blogs, hok, hserved⟩ := postComment_ok hnew hmeets
              rw [handle, hok] at hhandle
              cases hhandle
              refine ⟨h.congr rfl rfl, .of_served ?_⟩
              simpa [touched, hnew] using hserved
      | reblog o =>
          simp only [handle, bind_eq_ok, ensure_eq_ok] at hhandle
          obtain ⟨_, hown, hreblog⟩ := hhandle
          cases hcheck : s.checkReblog view o with
          | error message =>
              rw [reblog, hcheck] at hreblog
              cases hreblog
          | ok comment =>
              obtain ⟨feeds, blogs, hok, hserved⟩ := reblog_ok hown hcheck hmeets
              rw [hok] at hreblog
              cases hreblog
              refine ⟨h.congr rfl rfl, .of_served ?_⟩
              simpa [touched, hcheck, hown, Except.toOption] using hserved

/-- Every event of a run meets its condition. -/
def MeetsRun (s : FollowIndex) : List (ChainView × Event) → Prop
  | [] => True
  | (view, event) :: rest => Meets view s event ∧ MeetsRun (s.step view event) rest

instance decidableMeetsRun (s : FollowIndex) :
    (events : List (ChainView × Event)) → Decidable (MeetsRun s events)
  | [] => inferInstanceAs (Decidable True)
  | (view, event) :: rest =>
      let _ := decidableMeetsRun (s.step view event) rest
      inferInstanceAs (Decidable (Meets view s event ∧ MeetsRun (s.step view event) rest))

theorem meetsRun_append {events later : List (ChainView × Event)} :
    MeetsRun s (events ++ later) ↔ MeetsRun s events ∧ MeetsRun (s.run events) later := by
  induction events generalizing s with
  | nil => simp [MeetsRun, run]
  | cons event events ih => simp [MeetsRun, run, ih, and_assoc]

theorem run_counted (h : s.Counted) {events : List (ChainView × Event)}
    (hmeets : MeetsRun s events) : (s.run events).Counted := by
  induction events generalizing s with
  | nil => exact h
  | cons event events ih => exact ih (step_keeps h hmeets.1).1 hmeets.2

/-- The feeds of a run are in size if those at its start are. -/
theorem run_size {maxFeedSize : Nat} (h : s.Counted) {events : List (ChainView × Event)}
    (hsize : ∀ account, (objectsOf s.feeds account).length ≤ maxFeedSize)
    (hsettings : ∀ event ∈ events, event.1.maxFeedSize ≤ maxFeedSize) (hmeets : MeetsRun s events)
    (account : AccountName) : (objectsOf (s.run events).feeds account).length ≤ maxFeedSize := by
  induction events generalizing s with
  | nil => exact hsize account
  | cons event events ih =>
      obtain ⟨hcounted, hordered⟩ := step_keeps h hmeets.1
      refine ih hcounted (fun account => ?_)
        (fun later hlater => hsettings later (List.mem_cons_of_mem _ hlater)) hmeets.2
      by_cases htouched : account ∈ touched event.1 s event.2
      · exact (hordered.size account htouched).trans (hsettings event List.mem_cons_self)
      · exact (hordered.spared account htouched).trans (hsize account)

/-- In every run whose events meet their conditions, the numbers of each feed are distinct, new
entries are above all others, feeds are in size, counters are the numbers of follow objects, and no
reblog that passes its checks fails. -/
theorem run_feeds (events : List (ChainView × Event)) (hmeets : MeetsRun {} events) :
    let s := run {} events
    (∀ account, ((objectsOf s.feeds account).map Prod.fst).Nodup ∧
      (countOf s.counts account).followerCount.toNat = s.blogFollows Prod.fst account ∧
      (countOf s.counts account).followingCount.toNat = s.blogFollows Prod.snd account) ∧
    (∀ maxFeedSize, (∀ event ∈ events, event.1.maxFeedSize ≤ maxFeedSize) →
      ∀ account, (objectsOf s.feeds account).length ≤ maxFeedSize) ∧
    ∀ before view event after, events = before ++ (view, event) :: after →
      Ordered view (run {} before) (run {} (before ++ [(view, event)])) event ∧
      ∀ o comment, event = .reblog o → o.account ≠ o.author →
        (run {} before).checkReblog view o = .ok comment →
        ∃ next, (run {} before).reblog view o = .ok next := by
  intro s
  refine ⟨fun account => ⟨numbers_nodup, (run_counted counted_empty hmeets).exact account⟩,
    fun maxFeedSize hsettings => run_size counted_empty (fun _ => Nat.zero_le _) hsettings hmeets,
    ?_⟩
  rintro before view event after rfl
  obtain ⟨hbefore, hevent, -⟩ := meetsRun_append.mp hmeets
  have hcounted := run_counted counted_empty hbefore
  have hlast : run {} (before ++ [(view, event)]) = (run {} before).step view event := by
    rw [run, List.foldl_append]
    rfl
  refine ⟨hlast ▸ (step_keeps hcounted hevent).2, ?_⟩
  rintro o comment rfl hown hcheck
  obtain ⟨feeds, blogs, hok, -⟩ := reblog_ok hown hcheck hevent
  exact ⟨_, hok⟩

end FollowIndex

end Follow

namespace Sample

open Ledger Follow FollowIndex

/-- A top level post, created at the time that is its number. -/
def article (author : AccountName) (permlink : Text) (number : Nat) : Comment :=
  { category := "art", parentAuthor := "", parentPermlink := "art", author, permlink
    created := number, cashoutTime := 1000000, rootComment := number }

def articles : List Comment :=
  [article "bob" "one" 0, article "bob" "two" 1, article "bob" "three" 2, article "bob" "four" 3,
    article "eve" "five" 4]

/-- What the plugin sees at a time. -/
def seenAt (maxFeedSize time : Nat) : ChainView where
  db :=
    { dgp := { time, currentWitness := "initminer" }
      processedHardforks := [0]
      comments := (articles.filter (·.created ≤ time)).foldl
        (fun comments c => comments.set c.created c) (∅ : Store Nat Comment) }
  maxFeedSize

def follows (follower following : AccountName) : Event :=
  .follow { follower, following, what := ["blog"] }

/-- Bob's first three posts with the second deleted, before and after which carol reblogs. A last
reblog takes the place of the oldest entry of alice's feed. -/
def readers : List (ChainView × Event) :=
  [(seenAt 3 0, follows "alice" "bob"), (seenAt 3 0, follows "alice" "carol"),
    (seenAt 3 0, follows "dave" "carol"),
    (seenAt 3 0, .comment "bob" "one" ""),
    (seenAt 3 0, .reblog { account := "carol", author := "bob", permlink := "one" }),
    (seenAt 3 1, .comment "bob" "two" ""), (seenAt 3 2, .comment "bob" "three" ""),
    (seenAt 3 2, .deleteComment "bob" "two"), (seenAt 3 3, .comment "bob" "four" ""),
    (seenAt 3 3, .follow { follower := "dave", following := "carol", what := [] }),
    (seenAt 3 4, .comment "eve" "five" ""),
    (seenAt 3 4, .reblog { account := "carol", author := "eve", permlink := "five" })]

theorem readers_feeds :
    let s := run {} readers
    (objectsOf s.feeds "alice").map (fun row => (row.1, row.2.comment)) = [(2, 2), (3, 3), (4, 4)] ∧
    (objectsOf s.feeds "dave").map (fun row => (row.1, row.2.rebloggedBy)) = [(0, ["carol"])] ∧
    s.blogFollows Prod.fst "carol" = 1 ∧
    (∀ account, ((objectsOf s.feeds account).map Prod.fst).Nodup ∧
      (countOf s.counts account).followerCount.toNat = s.blogFollows Prod.fst account ∧
      (countOf s.counts account).followingCount.toNat = s.blogFollows Prod.snd account) ∧
    (∀ account, (objectsOf s.feeds account).length ≤ 3) := by
  obtain ⟨hstate, hsize, -⟩ := run_feeds readers (by decide +kernel)
  exact ⟨by decide +kernel, by decide +kernel, by decide +kernel, hstate,
    hsize 3 (by decide +kernel)⟩

def fiveByCarol : ReblogOperation := { account := "carol", author := "eve", permlink := "five" }

/-- Alice follows both, and bob writes two posts. -/
def aliceReads (maxFeedSize : Nat) : FollowIndex :=
  run {} [(seenAt maxFeedSize 0, follows "alice" "bob"),
    (seenAt maxFeedSize 0, follows "alice" "carol"),
    (seenAt maxFeedSize 0, .comment "bob" "one" ""),
    (seenAt maxFeedSize 1, .comment "bob" "two" "")]

def secondOnly : FollowIndex := (aliceReads 5).step (seenAt 5 1) (.deleteComment "bob" "one")

/-- A reblog fails in a feed that has entry 0. Without that entry it goes below the others. A feed
of one entry takes a second. -/
theorem aliceReads_feeds :
    (aliceReads 5).checkReblog (seenAt 5 4) fiveByCarol = .ok 4 ∧
    ((aliceReads 5).reblog (seenAt 5 4) fiveByCarol).toOption.isNone ∧
    ¬ Ordered (seenAt 5 4) secondOnly (secondOnly.step (seenAt 5 4) (.reblog fiveByCarol))
      (.reblog fiveByCarol) ∧
    (objectsOf (aliceReads 1).feeds "alice").length = 2 := by
  refine ⟨by decide +kernel, by decide +kernel, fun hordered => ?_, by decide +kernel⟩
  -- the reblog has number 0, and the second post keeps number 1
  have hbelow := hordered.increasing "alice" 0 (rebloggedEntry (seenAt 5 4) "carol" 4)
    (by decide +kernel) (by decide +kernel) 1 (by decide +kernel)
  exact absurd hbelow (by decide)

end Sample

end Blurt
