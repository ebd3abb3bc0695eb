import Blurt.Ledger.Database

/-! # Followers, feeds and blogs

The follow plugin counts who follows whom. It keeps a feed of the posts of those that an account
follows, and a blog of what an account has posted itself, each under increasing numbers; old entries
of either give way to new ones.
-/

namespace Blurt

namespace Follow

open Ledger Outcome

/-- `feed_object`, under its key in `by_feed` -/
structure Feed where
  rebloggedBy : List AccountName := []
  firstRebloggedBy : AccountName := ""
  firstRebloggedOn : Nat := 0
  comment : Nat
  deriving DecidableEq

/-- `blog_object`, under its key in `by_blog` -/
structure Blog where
  comment : Nat
  rebloggedOn : Nat := 0
  deriving DecidableEq

/-- `follow_count_object` -/
structure FollowCount where
  followerCount : BitVec 32 := 0
  followingCount : BitVec 32 := 0
  deriving DecidableEq

/-- The objects of accounts, numbered for each account. -/
abbrev Numbered (α : Type) := Store (AccountName × Nat) α

/-- The indexes of the plugin. -/
structure FollowIndex where
  -- `what` of the `follow_object`s, under whom they follow and who follows
  follows : Store (AccountName × AccountName) (BitVec 16) := ∅
  counts : Store AccountName FollowCount := ∅
  feeds : Numbered Feed := ∅
  blogs : Numbered Blog := ∅

/-- What an operation finds in the chain and in the plugin's settings. -/
structure ChainView where
  db : Database
  spamAccounts : List AccountName := []
  maxFeedSize : Nat
  startFeeds : Nat := 0

/-! ## Follow operations -/

structure FollowOperation where
  follower : AccountName
  following : AccountName
  what : List Text

inductive FollowType where
  | undefined
  | blog
  | ignore
  deriving DecidableEq

/-- `follow_type_map` -/
def followType (target : Text) : FollowType :=
  if target = "blog" then .blog else if target = "ignore" then .ignore else .undefined

/-- The turn of the loop that sets the bits of `what`. -/
def addBit (bits : BitVec 16) (target : Text) : BitVec 16 :=
  match followType target with
  | .blog => bits ||| 1#16 <<< 1
  | .ignore => bits ||| 1#16 <<< 2
  | .undefined => bits

def whatBits (what : List Text) : BitVec 16 := what.foldl addBit 0

def followsBlog (what : BitVec 16) : Bool := what.getLsbD 1
def ignores (what : BitVec 16) : Bool := what.getLsbD 2

/-- What a follow operation makes of a counter of the objects of its kind. -/
def recount (wasFollowed isFollowing : Bool) (count : BitVec 32) : BitVec 32 :=
  count - (if wasFollowed then 1 else 0) + (if isFollowing then 1 else 0)

/-- The count object of the account that follows. -/
def countFollowing (wasFollowed isFollowing : Bool) : Option FollowCount → FollowCount
  | none => { followingCount := if isFollowing then 1 else 0 }
  | some count => { count with followingCount := recount wasFollowed isFollowing count.followingCount }

/-- The count object of the account that is followed. -/
def countFollower (wasFollowed isFollowing : Bool) : Option FollowCount → FollowCount
  | none => { followerCount := if isFollowing then 1 else 0 }
  | some count => { count with followerCount := recount wasFollowed isFollowing count.followerCount }

/-- The counters after a follow operation, first of who follows and then of who is followed. -/
def countFollow (wasFollowed isFollowing : Bool) (follower following : AccountName)
    (counts : Store AccountName FollowCount) : Store AccountName FollowCount :=
  let counted := counts.set follower
    (countFollowing wasFollowed isFollowing (counts.find? follower))
  counted.set following (countFollower wasFollowed isFollowing (counted.find? following))

namespace FollowIndex

/-- `follow_evaluator::do_apply` -/
def follow (s : FollowIndex) (o : FollowOperation) : Except String FollowIndex := do
  let what := whatBits o.what
  let isFollowing := o.what.any fun target => followType target = .blog
  ensure (¬ (ignores what ∧ followsBlog what))
    "Cannot follow blog and ignore author at the same time"
  let wasFollowed := ((s.follows.find? (o.following, o.follower)).map followsBlog).getD false
  return { s with
    follows := s.follows.set (o.following, o.follower) what
    counts := countFollow wasFollowed isFollowing o.follower o.following s.counts }

/-- Who follows the blog of an account, in the order of `by_following_follower`. -/
def followersOf (s : FollowIndex) (account : AccountName) : List AccountName :=
  (s.follows.ordered (fun x y => x.1.2 ≤ y.1.2) fun key what =>
    key.1 = account && followsBlog what).map (·.1.2)

end FollowIndex

/-! ## The trimming of feeds and blogs -/

section Numbered

variable {α : Type}

/-- The objects of an account, oldest first: `by_feed` and `by_blog` order them the other way. -/
def objectsOf (objects : Numbered α) (account : AccountName) : List (Nat × α) :=
  (objects.ordered (fun x y => x.1.2 ≤ y.1.2) fun key _ => key.1 = account).map
    fun row => (row.1.2, row.2)

/-- A new key of an object, which no other object may have. -/
def insertUnique (objects : Numbered α) (key : AccountName × Nat) (object : α) :
    Except String (Numbered α) := do
  ensure (objects.find? key).isNone "could not insert object, most likely a uniqueness constraint"
  return objects.set key object

def removeAll (objects : Numbered α) (account : AccountName) (old : List (Nat × α)) : Numbered α :=
  old.foldl (fun objects row => objects.remove (account, row.1)) objects

/-- What `delete_old_objects` returns and what it leaves in `performance_data`. -/
structure Trim (α : Type) where
  objects : Numbered α
  nextId : Nat := 0
  creation : Bool := true
  allowModify : Bool := true

/-- The number after that of the newest object. -/
def nextNumber (rows : List (Nat × α)) : Nat :=
  match rows.getLast? with
  | none => 0
  | some newest => (newest.1 + 1) % 2 ^ 32

/-- The objects at the end that are `maxSize` numbers behind. -/
def tooOld (maxSize : Nat) (rows : List (Nat × α)) : List (Nat × α) :=
  rows.takeWhile fun row => decide (maxSize < subSeconds (nextNumber rows) row.1)

/-- `delete_old_objects` and the `modify` of its template argument, `overwrite`. If the comment has
no object yet, the removal of old objects lags behind by one, and the last of them is overwritten.
Otherwise all are removed; the iterator then stands on a removed object, and is taken to go on. -/
def deleteOldObjects (isEmpty allowDelete : Bool) (oldId maxSize : Nat) (overwrite : α → α)
    (objects : Numbered α) (account : AccountName) : Except String (Trim α) :=
  let rows := objectsOf objects account
  if rows = [] then .ok { objects }
  else
    let nextId := nextNumber rows
    let old := if allowDelete then tooOld maxSize rows else []
    let trimmed := removeAll objects account old
    match isEmpty, old.getLast? with
    | true, some last => do
        let objects ← insertUnique trimmed (account, nextId) (overwrite last.2)
        return { objects, nextId, creation := false }
    | _, _ => .ok { objects := trimmed, nextId, allowModify := oldId ∉ old.map Prod.fst }

/-- What the comment hook does with the feed of a follower and with the blog of the author. -/
def enterComment (isEmpty : Bool) (maxSize : Nat) (object : α) (objects : Numbered α)
    (account : AccountName) : Except String (Numbered α) := do
  let trim ← deleteOldObjects isEmpty isEmpty 0 maxSize (fun _ => object) objects account
  if trim.creation && isEmpty then insertUnique trim.objects (account, trim.nextId) object
  else return trim.objects

end Numbered

/-! ## Comments and reblogs -/

structure ReblogOperation where
  account : AccountName
  author : AccountName
  permlink : Text

namespace FollowIndex

variable (view : ChainView)

/-- The entry of a comment in the feed of an account. A feed has at most one: an entry is only
made where there is none. -/
def feedEntry (s : FollowIndex) (comment : Nat) (account : AccountName) : Option (Nat × Feed) :=
  (objectsOf s.feeds account).find? fun row => row.2.comment = comment

/-- Whether the comment is in the blog of an account. -/
def inBlog (s : FollowIndex) (comment : Nat) (account : AccountName) : Bool :=
  (objectsOf s.blogs account).any fun row => row.2.comment = comment

/-- The turn of the loop of the comment hook for one follower. -/
def feedComment (comment : Nat) (s : FollowIndex) (follower : AccountName) :
    Except String FollowIndex := do
  let feeds ← enterComment (s.feedEntry comment follower).isNone view.maxFeedSize { comment }
    s.feeds follower
  return { s with feeds }

/-- The entry of a comment in the blog of its author. -/
def blogComment (comment : Nat) (author : AccountName) (s : FollowIndex) :
    Except String FollowIndex := do
  let blogs ← enterComment (!s.inBlog comment author) view.maxFeedSize { comment } s.blogs author
  return { s with blogs }

/-- `post_operation_visitor` of a `comment_operation`. -/
def postComment (s : FollowIndex) (author : AccountName) (permlink : Text)
    (parentAuthor : AccountName) : Except String FollowIndex :=
  if parentAuthor ≠ "" then .ok s
  else if view.spamAccounts.contains author then .ok s
  else do
    let (comment, c) ← view.db.getComment author permlink
    if c.created ≠ view.db.dgp.time then return s
    let fed ← if view.startFeeds ≤ view.db.dgp.time then
        forEach (feedComment view comment) s (s.followersOf author)
      else .ok s
    fed.blogComment view comment author

/-- The entry of a reblog that is new to a feed. -/
def rebloggedEntry (account : AccountName) (comment : Nat) : Feed :=
  { rebloggedBy := [account]
    firstRebloggedBy := account
    firstRebloggedOn := view.db.dgp.time
    comment }

/-- The turn of the loop of `reblog_evaluator` for one follower. What `delete_old_objects` returns
is not used: a new entry always has number 0. -/
def feedReblog (account : AccountName) (comment : Nat) (s : FollowIndex) (follower : AccountName) :
    Except String FollowIndex := do
  let present := s.feedEntry comment follower
  let entry := rebloggedEntry view account comment
  let trim ← deleteOldObjects present.isNone true ((present.map Prod.fst).getD 0) view.maxFeedSize
    (fun _ => entry) s.feeds follower
  let nextId := 0
  match trim.creation, present with
  | true, none =>
      let feeds ← insertUnique trim.objects (follower, nextId) entry
      return { s with feeds }
  | true, some (number, found) =>
      if trim.allowModify then
        let again := { found with rebloggedBy := found.rebloggedBy ++ [account] }
        return { s with feeds := trim.objects.set (follower, number) again }
      else return { s with feeds := trim.objects }
  | false, _ => return { s with feeds := trim.objects }

/-- The checks at the top of `reblog_evaluator`, and what it finds. -/
def checkReblog (s : FollowIndex) (o : ReblogOperation) : Except String Nat := do
  let (comment, c) ← view.db.getComment o.author o.permlink
  ensure (c.parentAuthor = "") "Only top level posts can be reblogged"
  ensure (s.inBlog comment o.account = false) "Account has already reblogged this post"
  return comment

/-- `reblog_evaluator::do_apply` -/
def reblog (s : FollowIndex) (o : ReblogOperation) : Except String FollowIndex := do
  let comment ← s.checkReblog view o
  let nextBlogId := nextNumber (objectsOf s.blogs o.account)
  let blogs ← insertUnique s.blogs (o.account, nextBlogId)
    { comment, rebloggedOn := view.db.dgp.time }
  let blogged := { s with blogs }
  if view.startFeeds ≤ view.db.dgp.time then
    forEach (feedReblog view o.account comment) blogged (s.followersOf o.account)
  else return blogged

/-- `pre_operation_visitor` of a `delete_comment_operation`. -/
def deleteComment (s : FollowIndex) (author : AccountName) (permlink : Text) : FollowIndex :=
  match view.db.findComment author permlink with
  | none => s
  | some (comment, c) =>
      if c.parentAuthor ≠ "" then s
      else
        { s with
          feeds := (s.feeds.rows.filter fun row => row.2.comment = comment).foldl
            (fun feeds row => feeds.remove row.1) s.feeds
          blogs := (s.blogs.rows.filter fun row => row.2.comment = comment).foldl
            (fun blogs row => blogs.remove row.1) s.blogs }

/-- What the plugin is told of, or asked to apply. -/
inductive Event where
  | follow (o : FollowOperation)
  | reblog (o : ReblogOperation)
  | comment (author : AccountName) (permlink : Text) (parentAuthor : AccountName)
  | deleteComment (author : AccountName) (permlink : Text)

/-- The operations of the plugin are validated first. -/
def handle (s : FollowIndex) : Event → Except String FollowIndex
  | .follow o => do
      ensure (o.follower ≠ o.following) "You cannot follow yourself"
      s.follow o
  | .reblog o => do
      ensure (o.account ≠ o.author) "You cannot reblog your own content"
      s.reblog view o
  | .comment author permlink parentAuthor => s.postComment view author permlink parentAuthor
  | .deleteComment author permlink => .ok (s.deleteComment view author permlink)

/-- The indexes after an event. An exception undoes what it interrupts. -/
def step (s : FollowIndex) (event : Event) : FollowIndex :=
  match s.handle view event with
  | .ok next => next
  | .error _ => s

/-- A run of events, each with what it finds. -/
def run (s : FollowIndex) (events : List (ChainView × Event)) : FollowIndex :=
  events.foldl (fun s event => s.step event.1 event.2) s

end FollowIndex

end Follow

end Blurt
