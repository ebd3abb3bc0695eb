import Blurt.Ledger.Database
import Mathlib.Data.List.DropRight

/-! # The tags of comments

The tags plugin keeps a tag object for each tag of a comment, and for each tag how many posts and
replies carry it and the sum of their votes. It is told of operations after they are applied, and of
deletions before.
-/

namespace Blurt

namespace Tags

open Ledger

/-- `tag_name_type`: 32 bytes, without the zeros at their end. -/
abbrev TagName := List Char

local instance : LawfulBEq TagName := inferInstance

def nul : Char := Char.ofNat 0

/-- The fixed string of a text, which is cut off after 32 bytes. -/
def fixedString (text : List Char) : TagName := (text.take 32).rdropWhile (· == nul)

/-- The text of a fixed string, which ends at the first zero. -/
def TagName.str (tag : TagName) : List Char := tag.takeWhile (· != nul)

/-- `tag_object`, under its id -/
structure TagObject where
  tag : TagName
  netVotes : Int := 0
  -- `trending`, cast to `uint32_t`
  trending : Nat := 0
  author : AccountName
  parent : Nat
  comment : Nat
  deriving DecidableEq

/-- `tag_stats_object`, under its tag -/
structure TagStats where
  totalPayout : Int := 0
  netVotes : BitVec 32 := 0
  topPosts : BitVec 32 := 0
  comments : BitVec 32 := 0
  totalTrending : BitVec 128 := 0
  deriving DecidableEq

/-- The indexes of the plugin. -/
structure TagsIndex where
  tags : Store Nat TagObject := ∅
  nextTagId : Nat := 0
  stats : Store TagName TagStats := ∅
  -- the `total_posts` of the `author_tag_stats_object`s
  authorStats : Store (AccountName × TagName) (BitVec 32) := ∅

/-- What a hook finds in the chain and in the plugin's settings. -/
structure ChainView where
  db : Database
  -- the tags in the stored metadata of a comment, none if it is malformed
  metadata : Nat → List (List Char)
  started : Bool
  spamAccounts : List AccountName
  -- `calculate_trending`, cast to `uint32_t`
  trending : (netRshares : Int) → (created : Nat) → Nat
  -- where a loop goes on whose iterator was at an object that is removed
  reached : Nat → Bool

namespace TagStats

def remove (tag : TagObject) (s : TagStats) : TagStats :=
  { s with
    topPosts := if tag.parent = 0 then s.topPosts - 1 else s.topPosts
    comments := if tag.parent = 0 then s.comments else s.comments - 1
    totalTrending := s.totalTrending - BitVec.ofNat 128 tag.trending
    netVotes := s.netVotes - BitVec.ofInt 32 tag.netVotes }

def add (tag : TagObject) (s : TagStats) : TagStats :=
  { s with
    topPosts := if tag.parent = 0 then s.topPosts + 1 else s.topPosts
    comments := if tag.parent = 0 then s.comments else s.comments + 1
    totalTrending := s.totalTrending + BitVec.ofNat 128 tag.trending
    netVotes := s.netVotes + BitVec.ofInt 32 tag.netVotes }

end TagStats

/-- The tags that a comment is to have. -/
def filterTags (view : ChainView) (id : Nat) (c : Comment) : List (List Char) :=
  let insert := fun (tags : List (List Char)) (tag : List Char) =>
    if tag ∈ tags then tags else tags.orderedInsert (· ≤ ·) tag
  let lowerTags := (((view.metadata id).take 5).filter (· ≠ [])).foldl
    (fun tags tag => insert tags (tag.map Char.toLower)) []
  -- the universal tag
  if 0 ≤ c.netRshares then insert lowerTags [] else lowerTags

namespace TagsIndex

/-- `get_stats`. Stats that are not there are created empty. -/
def getStats (s : TagsIndex) (tag : List Char) : TagStats :=
  (s.stats.find? (fixedString tag)).getD {}

def modifyStats (s : TagsIndex) (tag : List Char) (change : TagStats → TagStats) : TagsIndex :=
  { s with stats := s.stats.set (fixedString tag) (change (s.getStats tag)) }

/-- The tags of a comment in the order of `by_comment`. -/
def tagsOf (s : TagsIndex) (comment : Nat) : List (Nat × TagObject) :=
  s.tags.ordered (fun x y => x.1 ≤ y.1) fun _ tag => tag.comment = comment

def modifyAuthorStats (s : TagsIndex) (author : AccountName) (tag : TagName)
    (change : Option (BitVec 32) → Option (BitVec 32)) : TagsIndex :=
  match change (s.authorStats.find? (author, tag)) with
  | some posts => { s with authorStats := s.authorStats.set (author, tag) posts }
  | none => s

/-- `remove_tag`, which leaves the stats of the tag as they are. -/
def removeTag (s : TagsIndex) (tagId : Nat) (tag : TagObject) : TagsIndex :=
  let s := s.modifyAuthorStats tag.author tag.tag fun posts => posts.map (· - 1)
  { s with tags := s.tags.remove tagId }

variable (view : ChainView)

def updateTag (s : TagsIndex) (c : Comment) (tagId : Nat) : TagsIndex :=
  match s.tags.find? tagId with
  | none => s
  | some current =>
    let s := s.modifyStats current.tag.str (TagStats.remove current)
    if c.cashoutTime ≠ maximumTime then
      let updated := { current with
        netVotes := c.netVotes
        trending := view.trending c.netRshares c.created }
      let s := { s with tags := s.tags.set tagId updated }
      s.modifyStats current.tag.str (TagStats.add updated)
    else { s with tags := s.tags.remove tagId }

def createTag (s : TagsIndex) (id : Nat) (c : Comment) (tag : List Char) : TagsIndex :=
  let parent := if c.parentAuthor ≠ "" then
      -- a comment with replies is not deleted, so the parent is there
      ((view.db.findComment c.parentAuthor c.parentPermlink).map Prod.fst).getD 0
    else 0
  let object : TagObject :=
    { tag := fixedString tag
      netVotes := c.netVotes
      trending := view.trending c.netRshares c.created
      author := c.author
      parent
      comment := id }
  let s := { s with tags := s.tags.set s.nextTagId object, nextTagId := s.nextTagId + 1 }
  let s := s.modifyStats tag (TagStats.add object)
  s.modifyAuthorStats c.author object.tag fun posts => some (posts.elim 1 (· + 1))

/-- The tags of a comment that its metadata no longer names. -/
def removeQueue (s : TagsIndex) (id : Nat) (c : Comment) : List (Nat × TagObject) :=
  (s.tagsOf id).filter fun row => row.2.tag.str ∉ filterTags view id c

/-- `update_tags` for one comment whose metadata is parsed. -/
def updateParsed (s : TagsIndex) (id : Nat) (c : Comment) : TagsIndex :=
  let rows := s.tagsOf id
  let updated := (filterTags view id c).foldl (fun updated tag =>
    match (rows.filter fun row => row.2.tag.str = tag).getLast? with
    | none => updated.createTag view id c tag
    | some existing => updated.updateTag view c existing.1) s
  (s.removeQueue view id c).foldl (fun s row => s.removeTag row.1 row.2) updated

/-- `update_tags` for one comment whose metadata is not parsed. -/
def updateKnown (s : TagsIndex) (id : Nat) (c : Comment) : TagsIndex :=
  let rows := (s.tagsOf id).filter fun row => c.cashoutTime ≠ maximumTime || view.reached row.1
  rows.foldl (fun s row => s.updateTag view c row.1) s

/-- `update_tags`: a comment, and then what it replies to. -/
def updateTags (s : TagsIndex) (id : Nat) (c : Comment) (parseTags : Bool) :
    (turns : Nat) → TagsIndex
  | 0 => s
  | turns + 1 =>
    let s := if parseTags then s.updateParsed view id c else s.updateKnown view id c
    if c.parentAuthor ≠ "" then
      match view.db.findComment c.parentAuthor c.parentPermlink with
      | some (parentId, parent) => s.updateTags parentId parent false turns
      | none => s
    else s

/-- `update_tags` for the comment under a permlink. -/
def updateTagsAt (s : TagsIndex) (author : AccountName) (permlink : Text) (parseTags : Bool) :
    TagsIndex :=
  match view.db.findComment author permlink with
  | some (id, c) => s.updateTags view id c parseTags (view.db.comments.rows.length + 1)
  | none => s

/-- What the plugin is told of. -/
inductive Notification where
  -- before the operation is applied
  | deleteComment (author : AccountName) (permlink : Text)
  -- after it is
  | comment (author : AccountName) (permlink jsonMetadata : Text)
  | vote (author : AccountName) (permlink : Text)
  | commentReward (author : AccountName) (permlink : Text) (payout : Int)
  | commentPayoutUpdate (author : AccountName) (permlink : Text)
  -- the node is in sync: all comments that are not paid out
  | sync

/-- The tags of a comment that is deleted, by `by_author_comment`. -/
def tagsToRemove (s : TagsIndex) (author : AccountName) (id : Nat) : List (Nat × TagObject) :=
  (s.tagsOf id).filter fun row => row.2.author = author

def notify (s : TagsIndex) : Notification → TagsIndex
  | .deleteComment author permlink =>
    match view.db.findComment author permlink with
    | none => s
    | some (id, _) => (s.tagsToRemove author id).foldl
        (fun s row => { s with tags := s.tags.remove row.1 }) s
  | .comment author permlink jsonMetadata =>
    if !view.started || view.spamAccounts.contains author then s
    else s.updateTagsAt view author permlink (jsonMetadata ≠ "")
  | .vote author permlink => if view.started then s.updateTagsAt view author permlink false else s
  | .commentReward author permlink payout =>
    let s := s.updateTagsAt view author permlink false
    match view.db.findComment author permlink with
    | none => s
    | some (id, c) => (filterTags view id c).foldl (fun s tag => s.modifyStats tag fun stats =>
        { stats with totalPayout := stats.totalPayout + payout }) s
  | .commentPayoutUpdate author permlink =>
    s.updateTagsAt view author permlink (!view.started)
  | .sync =>
    (view.db.comments.ordered (fun x y => x.2.cashoutTime ≤ y.2.cashoutTime) fun _ c =>
        c.cashoutTime ≠ maximumTime).foldl
      (fun s row => s.updateTags view row.1 row.2 true (view.db.comments.rows.length + 1)) s

end TagsIndex

end Tags

end Blurt
