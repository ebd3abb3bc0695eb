import Blurt.Foundation.Outcome
import Blurt.Protocol.Types

/-! # Account names and authorities -/

namespace Blurt

/-- A `std::string`, one character for each of its bytes. -/
abbrev Text := String

/-- `BLURT_MIN_ACCOUNT_NAME_LENGTH` -/
def blurtMinAccountNameLength : Nat := 3

/-- `BLURT_MAX_ACCOUNT_NAME_LENGTH` -/
def blurtMaxAccountNameLength : Nat := 16

/-- `BLURT_MAX_AUTHORITY_MEMBERSHIP` -/
def blurtMaxAuthorityMembership : Nat := 40

/-- `BLURT_MAX_PERMLINK_LENGTH` -/
def blurtMaxPermlinkLength : Nat := 256

def isLowerLetter (c : Char) : Bool := 'a' ≤ c && c ≤ 'z'

def isLetterOrDigit (c : Char) : Bool := isLowerLetter c || ('0' ≤ c && c ≤ '9')

/-- What `is_valid_account_name` asks of the characters between two dots. -/
def isValidLabel (label : List Char) : Bool :=
  3 ≤ label.length && label.head?.any isLowerLetter && label.getLast?.any isLetterOrDigit &&
    label.tail.dropLast.all fun c => isLetterOrDigit c || c = '-'

/-- The `while` loop of `is_valid_account_name`, from the character after a dot. -/
def scanLabels (turns : Nat) (rest : List Char) : Bool :=
  match turns with
  | 0 => false
  | turns + 1 =>
      let label := rest.takeWhile (· ≠ '.')
      isValidLabel label &&
        (label.length = rest.length || scanLabels turns (rest.drop (label.length + 1)))

/-- `is_valid_account_name` -/
def isValidAccountName (name : AccountName) : Bool :=
  blurtMinAccountNameLength ≤ name.length && name.length ≤ blurtMaxAccountNameLength &&
    scanLabels (name.length + 1) name.toList

/-- `validate_account_name` -/
def validateAccountName (name : AccountName) : Except String Unit :=
  Outcome.ensure (isValidAccountName name) "Account name ${n} is invalid"

/-- `authority` -/
structure Authority where
  weightThreshold : Nat := 0
  accountAuths : List (AccountName × Nat) := []
  keyAuths : List (PublicKey × Nat) := []
  deriving DecidableEq, Repr

namespace Authority

def isImpossible (a : Authority) : Bool :=
  (a.accountAuths.map Prod.snd).sum + (a.keyAuths.map Prod.snd).sum < a.weightThreshold

def validate (a : Authority) : Except String Unit :=
  Outcome.ensure (∀ item ∈ a.accountAuths, isValidAccountName item.1)
    "is_valid_account_name( item.first )"

end Authority

/-- `validate_auth_size` -/
def validateAuthSize (a : Authority) : Except String Unit :=
  Outcome.ensure (a.accountAuths.length + a.keyAuths.length ≤ blurtMaxAuthorityMembership)
    "Authority membership exceeded. Max: ${max} Current: ${n}"

end Blurt
