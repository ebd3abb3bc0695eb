import Blurt.Ledger.Objects

/-! # Reward curves

The curves of `util/reward.cpp` and the part of a reward fund that a comment is
entitled to.
-/

namespace Blurt

namespace Ledger

/-- `find_msb` -/
def findMsb (u : Nat) : Nat := u.log2

/-- `approx_sqrt` -/
def approxSqrt (x : Nat) : Nat :=
  if x = 0 then 0
  else
    let msbX := findMsb x
    let msbZ := msbX / 2
    let msbZBit := 2 ^ msbZ
    let mantissaX := x % 2 ^ msbX
    let mantissaZHi := if msbX % 2 = 1 then msbZBit else 0
    let mantissaZLo := mantissaX / 2 ^ (msbX - msbZ)
    let mantissaZ := (mantissaZHi ||| mantissaZLo) / 2
    msbZBit ||| mantissaZ

/-- `evaluate_reward_curve` -/
def evaluateRewardCurve (rshares : Nat) (curve : CurveId) (var1 : Nat) : Except String Nat :=
  match curve with
  | .quadratic =>
      let rsharesPlusS := UInt128.wrap (rshares + var1)
      .ok (UInt128.sub (UInt128.wrap (rsharesPlusS * rsharesPlusS)) (UInt128.wrap (var1 * var1)))
  | .boundedCuration =>
      let twoAlpha := UInt128.wrap (var1 * 2)
      UInt128.div (rshares % 2 ^ 64 * 2 ^ 64) (UInt128.wrap (twoAlpha + rshares))
  | .linear => .ok rshares
  | .squareRoot => .ok (approxSqrt rshares)
  | .convergentLinear =>
      let rsharesPlusS := UInt128.wrap (rshares + var1)
      UInt128.div
        (UInt128.sub (UInt128.wrap (rsharesPlusS * rsharesPlusS)) (UInt128.wrap (var1 * var1)))
        (UInt128.wrap (rshares + UInt128.wrap (4 * var1)))
  | .convergentSquareRoot =>
      UInt128.div rshares (approxSqrt (UInt128.wrap (rshares + UInt128.wrap (2 * var1))))

/-- `comment_reward_context` -/
structure CommentRewardContext where
  rshares : Int
  rewardWeight : Nat
  maxPayout : Asset
  totalRewardShares2 : Nat
  totalRewardFundBlurt : Int
  rewardCurve : CurveId
  contentConstant : Nat
  deriving DecidableEq, Repr

namespace UInt256

/-- The low 256 bits of an integer. -/
def ofInt (value : Int) : Nat := (value % 2 ^ 256).toNat

def mul (a b : Nat) : Nat := a * b % 2 ^ 256

def div (a b : Nat) : Except String Nat :=
  if b = 0 then .error "Division by zero." else .ok (a / b)

@[simp] theorem div_eq_ok {a b result : Nat} :
    div a b = .ok result ↔ b ≠ 0 ∧ a / b = result := by
  unfold div
  split <;> simp_all

end UInt256

/-- How `get_rshare_reward` scales a payout by the part of the supply that is staked. -/
def scaleByStake (payout stakedSupply currentSupply hardfork : Nat) : Except String Nat :=
  if 5 ≤ hardfork then
    UInt256.div (UInt256.mul payout stakedSupply) currentSupply
  else if 4 ≤ hardfork then do
    let ratio ← UInt256.div stakedSupply currentSupply
    return UInt256.mul payout ratio
  else
    .ok payout

/-- `is_comment_payout_dust` -/
def isCommentPayoutDust (payout : Nat) : Bool := wrapInt64 payout < blurtMinPayout

/-- `get_rshare_reward` -/
def getRshareReward (ctx : CommentRewardContext) (dgp : GlobalProperties) (hardfork : Nat) :
    Except String Nat := do
  Outcome.ensure (0 < ctx.rshares) "ctx.rshares > 0"
  Outcome.ensure (0 < ctx.totalRewardShares2) "ctx.total_reward_shares2 > 0"
  let fund := UInt256.ofInt ctx.totalRewardFundBlurt
  let stakedSupply := UInt256.ofInt dgp.totalVestingFundBlurt
  let currentSupply := UInt256.ofInt dgp.currentSupply
  let curve ← evaluateRewardCurve (UInt128.ofInt ctx.rshares) ctx.rewardCurve ctx.contentConstant
  let claim := UInt256.mul curve ctx.rewardWeight / blurt100Percent
  let share ← UInt256.div (UInt256.mul fund claim) ctx.totalRewardShares2
  let scaled ← scaleByStake share stakedSupply currentSupply hardfork
  Outcome.ensure (scaled < 2 ^ 63) "payout_u256 <= std::numeric_limits<int64_t>::max()"
  let payout := if isCommentPayoutDust scaled then 0 else scaled
  return min payout (ctx.maxPayout.amount % 2 ^ 64).toNat

end Ledger

end Blurt
