import Blurt.Foundation.Store
import Blurt.Protocol.Operations

/-! # Signature checking

`sign_state` and `verify_authority`. An authority is looked up by name; the lookup
throws when there is no such account. The signing keys are the ones recovered from the
signatures.
-/

namespace Blurt

/-- `BLURT_MAX_SIG_CHECK_DEPTH` -/
def blurtMaxSigCheckDepth : Nat := 2

/-- `BLURT_MAX_SIG_CHECK_ACCOUNTS` -/
def blurtMaxSigCheckAccounts : Nat := 125

/-- `authority_getter` -/
abbrev AuthorityGetter := AccountName → Except String Authority

/-- The limits of a `sign_state`; a membership or an account limit of zero is none. -/
structure SignLimits where
  maxRecursion : Nat := blurtMaxSigCheckDepth
  maxMembership : Nat := blurtMaxAuthorityMembership
  maxAccountAuths : Nat := blurtMaxSigCheckAccounts
  deriving DecidableEq, Repr

namespace SignLimits

/-- `max_membership > 0 && membership >= max_membership` -/
def cutsMembership (limits : SignLimits) (membership : Nat) : Prop :=
  0 < limits.maxMembership ∧ limits.maxMembership ≤ membership

/-- `max_account_auths > 0 && *account_auth_count >= max_account_auths` -/
def cutsAccounts (limits : SignLimits) (accountAuthCount : Nat) : Prop :=
  0 < limits.maxAccountAuths ∧ limits.maxAccountAuths ≤ accountAuthCount

instance (limits : SignLimits) (membership : Nat) : Decidable (limits.cutsMembership membership) :=
  inferInstanceAs (Decidable (_ ∧ _))

instance (limits : SignLimits) (count : Nat) : Decidable (limits.cutsAccounts count) :=
  inferInstanceAs (Decidable (_ ∧ _))

end SignLimits

/-- `sign_state`; its getter and its limits are arguments of the checks. -/
structure SignState where
  availableKeys : List PublicKey
  /-- The signing keys, with whether each was of use. -/
  providedSignatures : Store PublicKey Bool
  approvedBy : List AccountName

/-- The result of a check of one authority. -/
structure AuthorityCheck where
  answer : Bool
  accountAuthCount : Nat
  state : SignState

/-- How the loop over the keys of an authority ends. -/
inductive KeyLoop
  | returned (answer : Bool)
  | finished (totalWeight membership : Nat)

/-- What a turn of the loop over the accounts of an authority comes to. -/
inductive AccountTurn
  | skipped
  | cut
  | checked (result : AuthorityCheck)

/-- `total_weight += weight`, of 32 bits. -/
def addWeight (totalWeight weight : Nat) : Nat := (totalWeight + weight) % 2 ^ 32

namespace SignState

/-- The constructor of `sign_state`. -/
def create (sigs : List PublicKey) (keys : List PublicKey) : SignState where
  availableKeys := keys
  providedSignatures := sigs.foldl (fun provided key => provided.set key false) ∅
  approvedBy := [blurtTempAccount]

def approve (s : SignState) (id : AccountName) : SignState :=
  { s with approvedBy := id :: s.approvedBy }

/-- `provided_signatures[k] = true` -/
def markUsed (s : SignState) (k : PublicKey) : SignState :=
  { s with providedSignatures := s.providedSignatures.set k true }

def signedBy (s : SignState) (k : PublicKey) : Bool × SignState :=
  match s.providedSignatures.find? k with
  | none => if k ∈ s.availableKeys then (true, s.markUsed k) else (false, s)
  | some _ => (true, s.markUsed k)

variable (limits : SignLimits) (getActive : AuthorityGetter)

/-- The loop over `auth.key_auths` in `check_authority_impl`. -/
def checkKeys (threshold : Nat) :
    List (PublicKey × Nat) → Nat → Nat → SignState → KeyLoop × SignState
  | [], totalWeight, membership, s => (.finished totalWeight membership, s)
  | (k, weight) :: rest, totalWeight, membership, s =>
      let (signed, s) := s.signedBy k
      let totalWeight := if signed then addWeight totalWeight weight else totalWeight
      if signed ∧ threshold ≤ totalWeight then (.returned true, s)
      else if limits.cutsMembership (membership + 1) then (.returned false, s)
      else checkKeys threshold rest totalWeight (membership + 1) s

/-- A turn of the loop over `auth.account_auths`; `deeper` checks the authority of the
account, and is missing at the maximal depth. -/
def checkAccount (deeper : Option (Authority → Nat → SignState → Except String AuthorityCheck))
    (a : AccountName) (accountAuthCount : Nat) (s : SignState) : Except String AccountTurn :=
  if a ∈ s.approvedBy then .ok (.checked ⟨true, accountAuthCount, s⟩)
  else
    match deeper with
    | none => .ok .skipped
    | some check =>
        if limits.cutsAccounts accountAuthCount then .ok .cut
        else do
          let auth ← getActive a
          let nested ← check auth ((accountAuthCount + 1) % 2 ^ 32) s
          .ok (.checked
            { nested with state := if nested.answer then nested.state.approve a else nested.state })

/-- The loop over `auth.account_auths` in `check_authority_impl`. -/
def checkAccounts
    (deeper : Option (Authority → Nat → SignState → Except String AuthorityCheck))
    (threshold : Nat) :
    List (AccountName × Nat) → Nat → Nat → Nat → SignState → Except String AuthorityCheck
  | [], totalWeight, _, count, s => .ok ⟨threshold ≤ totalWeight, count, s⟩
  | (a, weight) :: rest, totalWeight, membership, count, s => do
      match ← checkAccount limits getActive deeper a count s with
      | .skipped => checkAccounts deeper threshold rest totalWeight membership count s
      | .cut => .ok ⟨false, count, s⟩
      | .checked result =>
          let totalWeight := if result.answer then addWeight totalWeight weight else totalWeight
          if result.answer ∧ threshold ≤ totalWeight then .ok result
          else if limits.cutsMembership (membership + 1) then .ok { result with answer := false }
          else
            checkAccounts deeper threshold rest totalWeight (membership + 1)
              result.accountAuthCount result.state

/-- The two loops of `check_authority_impl`, in their order. -/
def checkMembers (deeper : Option (Authority → Nat → SignState → Except String AuthorityCheck))
    (auth : Authority) (count : Nat) (s : SignState) : Except String AuthorityCheck :=
  match checkKeys limits auth.weightThreshold auth.keyAuths 0 0 s with
  | (.returned answer, s) => .ok ⟨answer, count, s⟩
  | (.finished totalWeight membership, s) =>
      checkAccounts limits getActive deeper auth.weightThreshold auth.accountAuths totalWeight
        membership count s

/-- `check_authority_impl`, by how many levels are left until `max_recursion`. -/
def checkAuthorityImpl : Nat → Authority → Nat → SignState → Except String AuthorityCheck
  | 0 => checkMembers limits getActive none
  | levels + 1 => checkMembers limits getActive (some (checkAuthorityImpl levels))

/-- A check that may be tried, with its answer and the state it leaves. -/
abbrev Check := SignState → Except String (Bool × SignState)

/-- `check_authority( auth )` -/
def checkAuthority (auth : Authority) : Check := fun s => do
  let result ← checkAuthorityImpl limits getActive limits.maxRecursion auth 0 s
  .ok (result.answer, result.state)

/-- `check_authority( id )` -/
def checkAuthorityOf (id : AccountName) : Check := fun s =>
  if id ∈ s.approvedBy then .ok (true, s)
  else do
    let result ← checkAuthorityImpl limits getActive limits.maxRecursion (← getActive id) 1 s
    .ok (result.answer, result.state)

/-- `check_authority( get( id ) )` -/
def checkAuthorityBy (get : AuthorityGetter) (id : AccountName) : Check := fun s => do
  checkAuthority limits getActive (← get id) s

/-- `first || second` -/
def either (first second : Check) : Check := fun s => do
  let (answer, s) ← first s
  if answer then .ok (true, s) else second s

def removeUnusedSignatures (s : SignState) : Bool × SignState :=
  let removeSigs := s.providedSignatures.rows.filter fun sig => !sig.2
  (removeSigs.length ≠ 0,
    { s with
      providedSignatures :=
        removeSigs.foldl (fun provided sig => provided.remove sig.1) s.providedSignatures })

/-- A check that has to answer `true`. -/
def assertCheck (check : Check) (message : String) (s : SignState) : Except String SignState := do
  let (answer, s) ← check s
  Outcome.ensure (answer = true) message
  .ok s

/-- The assertion that no signature was unnecessary. -/
def assertAllUsed (s : SignState) : Except String Unit :=
  Outcome.ensure (s.removeUnusedSignatures.1 = false) "Unnecessary signature(s) detected"

end SignState

/-- The authorities of the accounts. -/
structure AuthorityGetters where
  getActive : AuthorityGetter
  getOwner : AuthorityGetter
  getPosting : AuthorityGetter

/-- The accounts whose approval is taken for granted; no caller names any. -/
structure Approvals where
  active : List AccountName := []
  owner : List AccountName := []
  posting : List AccountName := []

/-- The elements of a `flat_set` of account names. -/
def flatSet (names : List AccountName) : List AccountName :=
  names.dedup.insertionSort (· ≤ ·)

@[simp] theorem mem_flatSet {names : List AccountName} {name : AccountName} :
    name ∈ flatSet names ↔ name ∈ names := by
  simp [flatSet]

open SignState in
/-- The signing state after the loop of `verify_authority` over the accounts whose posting
authority is required. -/
def checkPosting (getters : AuthorityGetters) (limits : SignLimits) (approvals : Approvals)
    (requiredPosting : List AccountName) (sigs : List PublicKey) : Except String SignState :=
  let check := fun id =>
    either (checkAuthorityOf limits getters.getPosting id)
      (either (checkAuthorityBy limits getters.getPosting getters.getActive id)
        (checkAuthorityBy limits getters.getPosting getters.getOwner id))
  Outcome.forEach (fun s id => assertCheck (check id) "Missing Posting Authority ${id}" s)
    (approvals.posting.foldl approve (create sigs [])) requiredPosting

open SignState in
/-- The signing state after the loops of `verify_authority` where no posting authority is
required. -/
def checkActive (getters : AuthorityGetters) (limits : SignLimits) (approvals : Approvals)
    (other : List Authority) (requiredActive requiredOwner : List AccountName)
    (sigs : List PublicKey) : Except String SignState := do
  let active := fun id =>
    either (checkAuthorityOf limits getters.getActive id)
      (checkAuthorityBy limits getters.getActive getters.getOwner id)
  let owner := fun id =>
    either (fun s => .ok (decide (id ∈ approvals.owner), s))
      (checkAuthorityBy limits getters.getActive getters.getOwner id)
  let s := (approvals.active ++ approvals.owner).foldl approve (create sigs [])
  let s ← Outcome.forEach
    (fun s auth => assertCheck (checkAuthority limits getters.getActive auth) "Missing Authority" s)
    s other
  let s ← Outcome.forEach
    (fun s id => assertCheck (active id) "Missing Active Authority ${id}" s) s requiredActive
  Outcome.forEach
    (fun s id => assertCheck (owner id) "Missing Owner Authority ${id}" s) s requiredOwner

/-- `verify_authority` up to the assertion that ends both of its branches. -/
def checkRequired (getters : AuthorityGetters) (limits : SignLimits) (approvals : Approvals)
    (operations : List Operation) (sigs : List PublicKey) : Except String SignState :=
  let requiredActive := flatSet (operations.flatMap Operation.requiredActive)
  let requiredOwner := flatSet (operations.flatMap Operation.requiredOwner)
  let requiredPosting := flatSet (operations.flatMap Operation.requiredPosting)
  let other := operations.flatMap Operation.requiredAuthorities
  if requiredPosting.length ≠ 0 then do
    -- posting authority cannot be mixed with active or owner authority
    Outcome.ensure (requiredActive.length = 0) "required_active.size() == 0"
    Outcome.ensure (requiredOwner.length = 0) "required_owner.size() == 0"
    Outcome.ensure (other.length = 0) "other.size() == 0"
    checkPosting getters limits approvals requiredPosting sigs
  else checkActive getters limits approvals other requiredActive requiredOwner sigs

/-- `verify_authority` -/
def verifyAuthority (getters : AuthorityGetters) (limits : SignLimits) (approvals : Approvals)
    (operations : List Operation) (sigs : List PublicKey) : Except String Unit := do
  let s ← checkRequired getters limits approvals operations sigs
  s.assertAllUsed

end Blurt
