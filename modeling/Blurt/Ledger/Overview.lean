import Blurt.Foundation.Table
import Blurt.Ledger.Genesis

/-! # What most steps leave alone

The overview of a database is what hardforks, the schedule, the recovery of accounts and the
forest of comments depend on. Most evaluators and most of the maintenance keep all of it.
-/

namespace Blurt

namespace Ledger

/-- What a witness publishes: its keys, its properties and its votes for hardforks. -/
structure Published where
  id : Nat
  signingKey : PublicKey
  props : ChainProperties
  runningVersion : Nat
  hardforkVote : Nat × Nat
  deriving DecidableEq, Repr

def Witness.published (w : Witness) : Published :=
  { id := w.id
    signingKey := w.signingKey
    props := w.props
    runningVersion := w.runningVersion
    hardforkVote := w.hardforkVote }

/-- Where a comment stands in the forest. -/
structure Place where
  category : Text
  parentAuthor : AccountName
  parentPermlink : Text
  author : AccountName
  permlink : Text
  depth : Nat
  children : Nat
  rootComment : Nat
  deriving DecidableEq, Repr

def Comment.place (c : Comment) : Place :=
  { category := c.category
    parentAuthor := c.parentAuthor
    parentPermlink := c.parentPermlink
    author := c.author
    permlink := c.permlink
    depth := c.depth
    children := c.children
    rootComment := c.rootComment }

/-- What the rules of hardforks, schedules, recovery and comments look at. -/
structure Overview where
  processedHardforks : List Nat
  hardforks : HardforkProperty
  wso : WitnessSchedule
  maximumBlockSize : Nat
  witnesses : Table AccountName Published
  nextWitness : Nat
  comments : Table Nat Place
  nextComment : Nat
  authorities : Store AccountName AccountAuthority
  ownerHistory : Store Nat OwnerAuthorityHistory
  nextOwnerHistory : Nat
  recoveryRequests : Store AccountName AccountRecoveryRequest
  changeRecoveryRequests : Store AccountName ChangeRecoveryAccountRequest
  recoveryAccounts : Table AccountName AccountName
  time : Nat
  headBlockNumber : Nat
  currentWitness : AccountName

/-- A witness that a schedule can process: there is a lap for its votes, to which one is added
before the division, and its pool of free accounts is an `int64_t` that is not negative. -/
def Witness.Ready (w : Witness) : Prop :=
  wrapInt64 (w.votes + 1) ≠ 0 ∧ 0 ≤ w.availableWitnessAccountSubsidies ∧
    w.availableWitnessAccountSubsidies < 2 ^ 63

namespace Database

def overview (db : Database) : Overview :=
  { processedHardforks := db.processedHardforks
    hardforks := db.hardforks
    wso := db.wso
    maximumBlockSize := db.dgp.maximumBlockSize
    witnesses := db.witnesses.view Witness.published
    nextWitness := db.nextIds.witness
    comments := db.comments.view Comment.place
    nextComment := db.nextIds.comment
    authorities := db.authorities
    ownerHistory := db.ownerHistory
    nextOwnerHistory := db.nextIds.ownerHistory
    recoveryRequests := db.recoveryRequests
    changeRecoveryRequests := db.changeRecoveryRequests
    recoveryAccounts := db.accounts.view Account.recoveryAccount
    time := db.dgp.time
    headBlockNumber := db.dgp.headBlockNumber
    currentWitness := db.dgp.currentWitness }

/-- A schedule can process every witness. -/
def Ready (db : Database) : Prop := ∀ name w, db.witnesses.find? name = some w → w.Ready

/-- A step that keeps what `see` sees of the overview, and every witness ready for a schedule. -/
structure Keeps {ω : Type} (see : Overview → ω) (db db' : Database) : Prop where
  seen : see db'.overview = see db.overview
  ready : db.Ready → db'.Ready

/-- A step that keeps the overview. -/
abbrev Quiet (db db' : Database) : Prop := Keeps id db db'

section Keeps

variable {ω : Type} {see : Overview → ω} {db db' db'' : Database}

theorem Keeps.refl (see : Overview → ω) (db : Database) : Keeps see db db := ⟨rfl, id⟩

theorem Keeps.trans (h : Keeps see db db') (h' : Keeps see db' db'') : Keeps see db db'' :=
  ⟨h'.seen.trans h.seen, fun hready => h'.ready (h.ready hready)⟩

theorem Keeps.seenBy (h : Quiet db db') (see : Overview → ω) : Keeps see db db' :=
  ⟨congrArg see h.seen, h.ready⟩

/-- A change of the overview in parts that `see` does not see. -/
theorem Keeps.of_see (hsee : see db'.overview = see db.overview)
    (hwitnesses : db'.witnesses = db.witnesses) : Keeps see db db' :=
  ⟨hsee, fun hready name w hw => hready name w (hwitnesses ▸ hw)⟩

/-- A change that the overview does not see. -/
theorem Quiet.of_eq (hoverview : db'.overview = db.overview) (hwitnesses : db'.witnesses = db.witnesses) :
    Quiet db db' :=
  Keeps.of_see hoverview hwitnesses

/-- A step after a change that `see` does not see. -/
theorem Keeps.after (h : Keeps see db' db'') (hsee : see db'.overview = see db.overview)
    (hwitnesses : db'.witnesses = db.witnesses) : Keeps see db db'' :=
  (Keeps.of_see hsee hwitnesses).trans h

end Keeps

end Database

end Ledger

end Blurt
