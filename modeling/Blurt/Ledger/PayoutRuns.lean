import Blurt.Ledger.PercentMaintenance
import Blurt.Ledger.WithdrawalRuns

/-! # Payouts as runs of entries

A payout hands out at most what the comment has claimed from the reward fund. What it does not
hand out leaves the supply without being counted in it.
-/

namespace Blurt

namespace Ledger

open Outcome

/-- A price whose sides fit an `int64_t` is no price of a debt. -/
theorem nonneg_of_convert {amount same other converted : Int} (hamount : InInt64 amount)
    (hsame : same < 2 ^ 63) (hother : 0 < other ∧ other < 2 ^ 63)
    (h : Price.convert amount same other = .ok converted) : 0 ≤ amount := by
  by_contra hdebt
  simp only [Price.convert, bind_eq_ok, ensure_eq_ok, UInt128.div_eq_ok, UInt128.toUInt64_eq_ok] at h
  obtain ⟨_, hpositive, _, ⟨-, rfl⟩, _, ⟨hfits, -⟩, -⟩ := h
  obtain ⟨debt, hdebt⟩ : ∃ debt : Nat, amount = -(debt : Int) := ⟨amount.natAbs, by omega⟩
  have hrange : 0 < debt ∧ debt ≤ 2 ^ 63 := by
    rw [InInt64, hdebt] at hamount
    omega
  obtain ⟨rate, rfl⟩ : ∃ rate : Nat, other = rate := ⟨other.toNat, by omega⟩
  have hrate : 0 < rate ∧ rate < 2 ^ 63 := by omega
  -- the product of a debt wraps to the upper end of 128 bits
  have hproduct : debt * rate ≤ 2 ^ 63 * 2 ^ 63 := Nat.mul_le_mul hrange.2 hrate.2.le
  have hpaid : 0 < debt * rate := Nat.mul_pos hrange.1 hrate.1
  have hwrap : UInt128.wrap (UInt128.ofInt amount * UInt128.ofInt rate) = 2 ^ 128 - debt * rate := by
    have hleft : UInt128.ofInt amount = 2 ^ 128 - debt := by
      rw [UInt128.ofInt, hdebt]
      omega
    rw [hleft, UInt128.ofInt_natCast (by omega), UInt128.wrap, Nat.sub_mul]
    have hshift : 2 ^ 128 * rate - debt * rate = (2 ^ 128 - debt * rate) + 2 ^ 128 * (rate - 1) := by
      obtain ⟨rest, rfl⟩ : ∃ rest, rate = rest + 1 := ⟨rate - 1, by omega⟩
      rw [Nat.add_sub_cancel, Nat.mul_add, Nat.mul_one]
      omega
    rw [hshift, Nat.add_mul_mod_self_left]
    omega
  rw [hwrap, UInt128.ofInt_of_nonneg hpositive.le hsame] at hfits
  have hquotient := (Nat.div_lt_iff_lt_mul (by omega)).mp hfits
  have hbound : 2 ^ 64 * same.toNat ≤ 2 ^ 64 * 2 ^ 63 := Nat.mul_le_mul_left _ (by omega)
  omega

namespace Database

variable {may : AccountName → Prop} {db db' db'' : Database} {name : AccountName} {host : Host}

/-- A run that pays `amount`. What it pays out in rewards may be counted as pending no more. -/
def PaysOut (may : AccountName → Prop) (db : Database) (amount : Int) (db' : Database) : Prop :=
  ∃ rewards, Enters may db (.of (amount - rewards) 0 0 0 rewards) db'

namespace PaysOut

variable {amount amount' : Int}

theorem of_enters (h : Enters may db (.of amount 0 0 0 0) db') : PaysOut may db amount db' :=
  ⟨0, by rwa [sub_zero]⟩

theorem refl (db : Database) : PaysOut may db 0 db :=
  of_enters (by rw [Drift.of_zero]; exact .refl db)

theorem trans (h : PaysOut may db amount db') (h' : PaysOut may db' amount' db'') :
    PaysOut may db (amount + amount') db'' := by
  obtain ⟨rewards, h⟩ := h
  obtain ⟨rewards', h'⟩ := h'
  refine ⟨rewards + rewards', (h.trans h').relabel ?_⟩
  rw [Drift.of_add]
  congr 1
  omega

theorem relabel (h : PaysOut may db amount db') (heq : amount = amount') : PaysOut may db amount' db' :=
  heq ▸ h

/-- A step that is not seen in the books. -/
theorem quiet (h : PaysOut may db amount db') (hquiet : db''.books = db'.books) :
    PaysOut may db amount db'' := by
  obtain ⟨rewards, h⟩ := h
  exact ⟨rewards, by rwa [Enters, hquiet]⟩

theorem upheld (h : PaysOut may db amount db') (hb : db.books.Upheld) : db'.books.Upheld := by
  obtain ⟨_, h⟩ := h
  exact hb.run h

end PaysOut

/-! ## Rewards in shares -/

theorem rewardPrice_range {dgp : GlobalProperties} {price : Price} (hrange : dgp.totals.InRange)
    (h : dgp.getRewardVestingSharePrice = .ok price) :
    (0 < price.vests ∧ price.vests < 2 ^ 63) ∧ price.blurt < 2 ^ 63 := by
  simp only [GlobalProperties.getRewardVestingSharePrice, GlobalProperties.getVestingSharePrice,
    Price.make] at h
  split at h
  · split at h
    · cases h
      decide
    · simp only [bind_eq_ok, ensure_eq_ok, pure_eq_ok] at h
      obtain ⟨_, hvests, _, -, rfl⟩ := h
      exact ⟨⟨hvests, hrange.shares.2⟩, hrange.fund.2⟩
  · simp only [bind_eq_ok, shareType_eq_ok, ensure_eq_ok, pure_eq_ok] at h
    obtain ⟨_, ⟨hshares, rfl⟩, _, ⟨hfund, rfl⟩, _, hvests, _, -, rfl⟩ := h
    exact ⟨⟨hvests, hshares.2⟩, hfund.2⟩

/-- A reward in shares pays its value. A reward that is worth no share is paid in liquid, and
the value is counted as pending all the same. -/
theorem createRewardVesting_pays {liquid : Asset} (hb : db.books.Upheld)
    (hliquid : InInt64 liquid.amount) :
    Always (db.createRewardVesting name liquid) fun result =>
      0 ≤ liquid.amount ∧ PaysOut may db liquid.amount result.1 := by
  intro result h
  simp only [createRewardVesting, adjustRewardBalance, bind_eq_ok, ensure_eq_ok, shareType_eq_ok,
    pure_eq_ok] at h
  obtain ⟨_, -, price, hprice, newVesting, hvesting, rewarded, ⟨_, -, _, -, hrewarded⟩, _,
    ⟨-, rfl⟩, _, ⟨-, rfl⟩, rfl⟩ := h
  obtain ⟨hvests, hblurt⟩ := rewardPrice_range hb.range hprice
  have hnonneg := nonneg_of_convert hliquid hblurt hvests hvesting
  refine ⟨hnonneg, ?_⟩
  obtain ⟨a, b, ha, hchecked, -⟩ := modifyAccount_eq_ok.mp hrewarded
  have hh := find?_holders_some ha
  have hpending : Books.Step may rewarded.books _
      (rewarded.books.setTotals (Totals.addPending liquid.amount newVesting)) :=
    Books.Step.setTotals may rfl fun hrange => ⟨hrange.fund, hrange.shares⟩
  have hbooks : ({ rewarded with dgp := { rewarded.dgp with
      pendingRewardedVestingShares := rewarded.dgp.pendingRewardedVestingShares + newVesting
      pendingRewardedVestingBlurt := rewarded.dgp.pendingRewardedVestingBlurt + liquid.amount
      } } : Database).books = rewarded.books.setTotals (Totals.addPending liquid.amount newVesting) :=
    books_setDgp rewarded rfl
  by_cases hzero : newVesting = 0
  · subst hzero
    obtain ⟨hcredit, -⟩ := modifyRewardBalance_liquid hrewarded
    have hpay : Books.Step may db.books (.of liquid.amount 0 0 0 0) rewarded.books := by
      rw [hcredit]
      exact .credit hh rfl (.inl hnonneg)
    refine ⟨-liquid.amount, ?_⟩
    rw [Enters, hbooks]
    refine ((Run.single hpay).tail hpending).relabel ?_
    funext column
    cases column <;> simp [Totals.columns, Totals.addPending, Drift.of]
  · obtain ⟨hcredit, -⟩ := modifyRewardBalance_shares hzero hrewarded
    simp only [if_neg hzero, bind_eq_ok, shareType_eq_ok, ensure_eq_ok, pure_eq_ok] at hchecked
    obtain ⟨_, -, _, ⟨hfits, rfl⟩, _, hshares, -⟩ := hchecked
    obtain ⟨howed, -, -⟩ := hb.rewards _ _ hh
    have hpay : Books.Step may db.books (.of 0 newVesting 0 0 liquid.amount) rewarded.books := by
      rw [hcredit]
      exact .rewardShares hh (add_nonneg howed hnonneg) hshares hfits
    apply PaysOut.of_enters
    rw [Enters, hbooks]
    refine ((Run.single hpay).tail hpending).relabel ?_
    funext column
    cases column <;> simp [Totals.columns, Totals.addPending, Drift.of]

/-! ## Curators -/

theorem payCurator_pays {maxRewards : Int} {totalWeight : Nat} {state : Database × Int}
    {item : AccountName × CommentVote} (hb : state.1.books.Upheld) :
    Always (payCurator maxRewards totalWeight state item) fun next =>
      PaysOut may state.1 (state.2 - next.2) next.1 := by
  intro next h
  simp only [payCurator, bind_eq_ok] at h
  obtain ⟨claim, hclaim, h⟩ := h
  have hrange : InInt64 claim := by
    simp only [curationClaim, bind_eq_ok, pure_eq_ok] at hclaim
    obtain ⟨_, -, share, -, rfl⟩ := hclaim
    exact ⟨wrapInt64_ge share, wrapInt64_lt share⟩
  split at h
  · simp only [bind_eq_ok, shareType_eq_ok, Prod.exists, pure_eq_ok] at h
    obtain ⟨_, ⟨-, rfl⟩, _, -, paid, newVesting, hpaid, counted, hcounted, rfl⟩ := h
    have hpay : PaysOut may state.1 claim paid := (createRewardVesting_pays hb hrange _ hpaid).2
    obtain ⟨hquiet, -⟩ := modifyAccount_quiet hcounted fun a b hb => by
      simp only [bind_eq_ok, shareType_eq_ok, pure_eq_ok] at hb
      obtain ⟨_, -, rfl⟩ := hb
      rfl
    refine (hpay.quiet hquiet).relabel ?_
    exact (sub_sub_cancel _ _).symm
  · cases h
    exact (PaysOut.refl state.1).relabel (sub_self _).symm

/-- The voters are paid what `pay_curators` says it has claimed. -/
theorem payCurators_pays {id : Nat} {c : Comment} {maxRewards : Int} (hb : db.books.Upheld) :
    Always (db.payCurators id c maxRewards) fun result => PaysOut may db result.2.1 result.1 := by
  have hloop : Always (Outcome.forEach (payCurator maxRewards c.totalVoteWeight) (db, maxRewards)
      (db.curatorsOf id)) fun result => PaysOut may db (maxRewards - result.2) result.1 := by
    refine .forEach ((PaysOut.refl db).relabel (sub_self _).symm) fun state item _ h => ?_
    refine (payCurator_pays (h.upheld hb)).mono fun next hnext => (h.trans hnext).relabel ?_
    omega
  unfold payCurators
  split
  · exact .pure (.refl db)
  · dsimp only
    refine .branch hloop (.ok ((PaysOut.refl db).relabel (sub_self _).symm)) fun result hresult => ?_
    intro final h
    simp only [bind_eq_ok, shareType_eq_ok, pure_eq_ok] at h
    obtain ⟨_, ⟨-, rfl⟩, rfl⟩ := h
    exact hresult

/-! ## Beneficiaries and the author -/

/-- A quotient of an `int64_t`. -/
theorem inInt64_tdiv {value : Int} (hvalue : InInt64 value) {divisor : Int} (hdivisor : 0 < divisor) :
    InInt64 (value.tdiv divisor) := by
  have hle := Int.natAbs_tdiv_le_natAbs value divisor
  obtain ⟨hlow, hhigh⟩ := hvalue
  rcases le_total 0 value with hnonneg | hnonpos
  · have hquotient := Int.tdiv_nonneg hnonneg hdivisor.le
    exact ⟨by omega, by omega⟩
  · have hquotient := Int.tdiv_nonneg (neg_nonneg.mpr hnonpos) hdivisor.le
    rw [Int.neg_tdiv] at hquotient
    exact ⟨by omega, by omega⟩

theorem payBeneficiary_pays {authorTokens : Int} {state : Database × Int} {b : BeneficiaryRoute}
    (hb : state.1.books.Upheld) :
    Always (payBeneficiary authorTokens state b) fun next =>
      PaysOut may state.1 (next.2 - state.2) next.1 := by
  intro next h
  simp only [payBeneficiary, bind_eq_ok, shareType_eq_ok, safeDiv_eq_ok] at h
  obtain ⟨_, ⟨hproduct, rfl⟩, tokens, ⟨-, htokens⟩, h⟩ := h
  have hrange : InInt64 tokens := htokens ▸ inInt64_tdiv hproduct (by decide)
  split at h
  all_goals
    simp only [bind_eq_ok, shareType_eq_ok, Prod.exists, pure_eq_ok] at h
    obtain ⟨treasured, htreasured, _, -, paid, newVesting, hpaid, _, ⟨-, rfl⟩, rfl⟩ := h
  · have htreasure : PaysOut may state.1 tokens treasured :=
      .of_enters (Run.single (adjustBalance_entry may htreasured rfl))
    have hpay : PaysOut may treasured 0 paid :=
      (createRewardVesting_pays (htreasure.upheld hb) (by decide) _ hpaid).2
    refine (htreasure.trans hpay).relabel ?_
    simp
  · cases htreasured
    have hpay : PaysOut may state.1 tokens paid := (createRewardVesting_pays hb hrange _ hpaid).2
    refine hpay.relabel ?_
    simp

/-- If the vested part of a payout is no debt, its liquid part is none either. -/
theorem liquidPart_nonneg {own : Int} {percent : Nat} (hpercent : percent ≤ blurt100Percent)
    (hvested : 0 ≤ own - (own * percent).tdiv (4 * blurt100Percent)) :
    0 ≤ (own * percent).tdiv (4 * blurt100Percent) := by
  rcases le_or_gt 0 own with hnonneg | hdebt
  · exact Int.tdiv_nonneg (Int.mul_nonneg hnonneg (Int.natCast_nonneg _)) (by decide)
  · -- less than a quarter of a debt is taken from it
    have hlow : own * blurt100Percent ≤ own * percent :=
      Int.mul_le_mul_of_nonpos_left hdebt.le (by exact_mod_cast hpercent)
    have hhigh : own * percent ≤ 0 := Int.mul_nonpos_of_nonpos_of_nonneg hdebt.le (Int.natCast_nonneg _)
    have hquotient := Int.tdiv_eq_ediv_of_nonneg (b := 4 * blurt100Percent) (neg_nonneg.mpr hhigh)
    rw [Int.neg_tdiv] at hquotient
    simp only [blurt100Percent] at hlow hquotient hvested ⊢
    omega

/-- The author is paid at most what the beneficiaries have left. -/
theorem payAuthor_pays {id : Nat} {c : Comment} {authorTokens curationTokens total : Int}
    (hb : db.books.Upheld) (hpercent : c.percentBlurt ≤ blurt100Percent) :
    Always (db.payAuthor id c authorTokens curationTokens total) fun db' =>
      ∃ paid, paid ≤ authorTokens - total ∧ PaysOut may db paid db' := by
  intro db' h
  simp only [payAuthor, bind_eq_ok, shareType_eq_ok, safeDiv_eq_ok, Prod.exists] at h
  obtain ⟨_, ⟨-, rfl⟩, _, ⟨-, rfl⟩, _, ⟨-, rfl⟩, _, ⟨hvesting, rfl⟩, _, -, paid, newVesting, hpaid,
    current, hcurrent, _, -, _, -, _, -, _, -, hcounted⟩ := h
  obtain ⟨hnonneg, hpay⟩ : _ ∧ PaysOut may db _ paid := createRewardVesting_pays hb hvesting _ hpaid
  obtain ⟨hquiet, -⟩ := modifyAccount_quiet hcounted fun a b hb => by
    simp only [bind_eq_ok, shareType_eq_ok, pure_eq_ok] at hb
    obtain ⟨_, -, rfl⟩ := hb
    rfl
  refine ⟨_, ?_, hpay.quiet hquiet⟩
  change 0 ≤ authorTokens - total - _ at hnonneg
  have hliquid := liquidPart_nonneg hpercent hnonneg
  change authorTokens - total - _ ≤ authorTokens - total
  omega

/-! ## Comments -/

/-- A payout pays at most what it claims. -/
theorem payReward_pays {id : Nat} {c : Comment} {reward : Int} (hb : db.books.Upheld)
    (hpercent : c.percentBlurt ≤ blurt100Percent) :
    Always (db.payReward id c reward) fun result =>
      ∃ paid, paid ≤ result.2 ∧ PaysOut may db paid result.1 := by
  intro result h
  simp only [payReward, bind_eq_ok, shareType_eq_ok, Prod.exists, pure_eq_ok] at h
  obtain ⟨_, rf, -, curation, -, tokens, -, authorTokens, -, curated, curationTokens, unclaimed,
    hcurated, _, ⟨-, rfl⟩, benefited, total, hbenefited, paid, hpaid, rfl⟩ := h
  have hcurate : PaysOut may db curationTokens curated := payCurators_pays hb _ hcurated
  have hloop : Always (Outcome.forEach (payBeneficiary authorTokens) (curated, 0) c.beneficiaries)
      fun result => PaysOut may db (curationTokens + result.2) result.1 := by
    refine .forEach (hcurate.relabel (add_zero _).symm) fun state b _ h => ?_
    refine (payBeneficiary_pays (h.upheld hb)).mono fun next hnext => (h.trans hnext).relabel ?_
    omega
  have hbenefit := hloop _ hbenefited
  obtain ⟨own, hle, hown⟩ : ∃ own, own ≤ _ ∧ PaysOut may benefited own paid :=
    payAuthor_pays (hbenefit.upheld hb) hpercent _ hpaid
  refine ⟨_, ?_, hbenefit.trans hown⟩
  dsimp only
  omega

theorem cashoutCommentHelper_pays {clearVotes : Bool} {fund : FundContext} {id : Nat} {c : Comment}
    (hb : db.books.Upheld) (hpercent : c.percentBlurt ≤ blurt100Percent) :
    Always (cashoutCommentHelper clearVotes db fund id c) fun result =>
      ∃ paid, paid ≤ result.2 ∧ PaysOut may db paid result.1 := by
  have hnothing : ∃ paid, paid ≤ (0 : Int) ∧ PaysOut may db paid db := ⟨0, le_rfl, .refl db⟩
  have hrest : ∀ (state : Database) (claimedReward : Int),
      (∃ paid, paid ≤ claimedReward ∧ PaysOut may db paid state) → Always (do
        let c ← state.getCommentById id
        let updated := state.setComment id (Comment.cashedOut db.dgp.time c)
        let commentVotes :=
          if clearVotes then
            (updated.votersOf id).foldl (fun votes voter => votes.remove (id, voter))
              updated.commentVotes
          else updated.commentVotes
        return ({ updated with commentVotes }, claimedReward)) fun result =>
          ∃ paid, paid ≤ result.2 ∧ PaysOut may db paid result.1 := by
    intro state claimedReward h
    obtain ⟨paid, hle, hpay⟩ := h
    exact .skip fun current => .pure ⟨paid, hle, hpay.quiet rfl⟩
  unfold cashoutCommentHelper
  dsimp only
  split
  · refine .skip fun reward => ?_
    exact .branch (payReward_pays hb hpercent) (.ok hnothing) fun result => hrest result.1 result.2
  · exact hrest db 0 hnothing

/-! ## Reward funds -/

/-- What was awarded from the reward funds so far. -/
def awarded (funds : List FundContext) : Int := (funds.map (·.blurtAwarded)).sum

theorem awarded_set {funds : List FundContext} {i : Nat} {old : FundContext}
    (hold : funds[i]? = some old) (new : FundContext) :
    awarded (funds.set i new) = awarded funds + (new.blurtAwarded - old.blurtAwarded) := by
  obtain ⟨hi, rfl⟩ := List.getElem?_eq_some_iff.mp hold
  have hi' : i < (funds.map (·.blurtAwarded)).length := by rwa [List.length_map]
  rw [awarded, List.map_set, List.sum_set', dif_pos hi', List.getElem_map, awarded]
  omega

/-- The first loop over the reward funds awards nothing. -/
theorem openFunds_unbooked : Always db.openFunds fun result =>
    Unbooked db result.1 ∧ awarded result.2 = 0 := by
  have hloop : ∀ {rows : List (Nat × RewardFund)} {state : Database × List FundContext},
      (rows.map Prod.fst).Nodup →
      (∀ row ∈ rows, state.1.rewardFunds.find? row.1 = some row.2) → awarded state.2 = 0 →
      Always (Outcome.forEach (fun (state : Database × List FundContext) row => do
          let decayed ← RewardFund.decayClaims db.dgp.time row.2
          let context : FundContext :=
            { recentClaims := decayed.recentClaims, rewardBalance := decayed.rewardBalance }
          return ({ state.1 with rewardFunds := state.1.rewardFunds.set row.1 decayed },
            state.2 ++ [context])) state rows) fun result =>
        Unbooked state.1 result.1 ∧ awarded result.2 = 0 := by
    intro rows
    induction rows with
    | nil => exact fun _ _ hnothing => .ok ⟨.refl _, hnothing⟩
    | cons row rest ih =>
        intro state hnodup hfound hnothing result h
        obtain ⟨hrow, hrest⟩ := List.nodup_cons.mp hnodup
        obtain ⟨next, hnext, h⟩ := forEach_cons_eq_ok.mp h
        simp only [bind_eq_ok, pure_eq_ok] at hnext
        obtain ⟨decayed, hdecayed, rfl⟩ := hnext
        have hbalance : decayed.rewardBalance = row.2.rewardBalance := by
          have hkeep : Always (RewardFund.decayClaims db.dgp.time row.2) fun f =>
              f.rewardBalance = row.2.rewardBalance := by
            unfold RewardFund.decayClaims
            dsimp only
            split
            · exact .skip fun _ => .skip fun _ => .pure rfl
            · exact .skip fun _ => .pure rfl
          exact hkeep _ hdecayed
        have hset := setRewardFund_unbooked state.1 decayed (hfound row List.mem_cons_self) hbalance
        have hothers : ∀ other ∈ rest,
            (state.1.rewardFunds.set row.1 decayed).find? other.1 = some other.2 := by
          intro other hother
          rw [Store.find?_set, if_neg]
          · exact hfound other (List.mem_cons_of_mem _ hother)
          · exact fun heq => hrow (List.mem_map.mpr ⟨other, hother, heq⟩)
        have hstill : awarded (state.2 ++ [{
            recentClaims := decayed.recentClaims, rewardBalance := decayed.rewardBalance }]) = 0 := by
          rw [awarded] at hnothing ⊢
          simpa using hnothing
        obtain ⟨hunbooked, hend⟩ := ih hrest hothers hstill result h
        exact ⟨hset.trans hunbooked, hend⟩
  refine hloop (db.rewardFunds.ordered_nodup _ _) (fun row hrow => ?_) rfl
  exact (Store.mem_ordered_iff.mp hrow).1

theorem addClaim_awarded {funds : List FundContext} (row : Nat × Comment) :
    Always (db.addClaim funds row) fun next => awarded next = awarded funds := by
  intro next h
  unfold addClaim at h
  split at h
  · simp only [bind_eq_ok, require_eq_ok, Prod.exists, pure_eq_ok] at h
    obtain ⟨fundId, rf, -, fund, hfund, curve, -, rfl⟩ := h
    rw [awarded_set hfund, sub_self, add_zero]
  · cases h
    rfl

theorem cashoutComment_pays {clearVotes : Bool} {state : Database × List FundContext}
    {row : Nat × Comment} (hb : state.1.books.Upheld)
    (hpercent : row.2.percentBlurt ≤ blurt100Percent) :
    Always (cashoutComment clearVotes state row) fun next =>
      ∃ paid, paid ≤ awarded next.2 - awarded state.2 ∧ PaysOut may state.1 paid next.1 := by
  intro next h
  simp only [cashoutComment, bind_eq_ok, require_eq_ok, shareType_eq_ok, Prod.exists,
    pure_eq_ok] at h
  obtain ⟨fundId, _, -, fund, hfund, paid, claimed, hpaid, _, ⟨-, rfl⟩, rfl⟩ := h
  obtain ⟨amount, hle, hpay⟩ : ∃ amount, amount ≤ claimed ∧ PaysOut may state.1 amount paid :=
    cashoutCommentHelper_pays hb hpercent _ hpaid
  refine ⟨amount, ?_, hpay⟩
  rw [awarded_set hfund]
  dsimp only at hle ⊢
  omega

/-- The reward funds give what was awarded. -/
theorem closeFunds_enters (items : List (FundContext × Nat)) :
    Always (Outcome.forEach closeFund db items)
      (Enters may db (.of (-awarded (items.map Prod.fst)) 0 0 0 0)) := by
  induction items generalizing db with
  | nil =>
      refine .ok ?_
      exact Run.relabel (Run.refl _) Drift.of_zero.symm
  | cons item rest ih =>
      intro final h
      obtain ⟨closed, hclosed, h⟩ := forEach_cons_eq_ok.mp h
      simp only [closeFund, bind_eq_ok, require_eq_ok, shareType_eq_ok, pure_eq_ok] at hclosed
      obtain ⟨rfo, hrfo, _, ⟨-, rfl⟩, rfl⟩ := hclosed
      have hentry : Books.Step may db.books (.of (-item.1.blurtAwarded) 0 0 0 0) _ :=
        rewardFund_entry may hrfo (g := { rfo with
          recentClaims := item.1.recentClaims
          rewardBalance := rfo.rewardBalance - item.1.blurtAwarded }) (Int.sub_eq_add_neg ..)
      refine ((Run.single hentry).trans (ih _ h)).relabel ?_
      rw [Drift.of_add]
      simp only [awarded, List.map_cons, List.sum_cons, neg_add]
      rfl

/-- The payouts of a block take from the reward funds at least what they pay. -/
theorem processCommentCashout_pays {clearVotes : Bool} (hb : db.books.Upheld)
    (hpercents : db.Percents) :
    Always (processCommentCashout clearVotes db) fun db' =>
      ∃ paid, paid ≤ 0 ∧ PaysOut may db paid db' := by
  intro db' h
  simp only [processCommentCashout, bind_eq_ok, Prod.exists] at h
  obtain ⟨opened, contexts, hopened, funds, hfunds, paid, totals, hpaid, h⟩ := h
  obtain ⟨hunbooked, hnothing⟩ := openFunds_unbooked _ hopened
  have hstart : opened.Percents := openFunds_percents _ hopened hpercents
  have hclaims : awarded funds = 0 := by
    have hloop : Always (Outcome.forEach opened.addClaim contexts opened.dueComments) fun funds =>
        awarded funds = awarded contexts :=
      .forEach rfl fun state row _ h => (addClaim_awarded row).mono fun _ hnext => hnext.trans h
    exact (hloop _ hfunds).trans hnothing
  have hloop : Always (Outcome.drain (fun state => state.1.dueComments.head?)
      (cashoutComment clearVotes) (opened.comments.rows.length + 1) (opened, funds)) fun state =>
        state.1.Percents ∧ ∃ amount, amount ≤ awarded state.2 ∧ PaysOut may db amount state.1 := by
    refine .drain ⟨hstart, 0, hclaims.ge, (PaysOut.refl db).quiet hunbooked⟩
      fun state row hstate hrow => ?_
    obtain ⟨hkept, amount, hle, hpay⟩ := hstate
    have hfound := (Store.find?_of_head?_due hrow).1
    intro next hnext
    obtain ⟨more, hmore, hmorePay⟩ : ∃ more, more ≤ _ ∧ PaysOut may state.1 more next.1 :=
      cashoutComment_pays (hpay.upheld hb) (hkept.comments _ _ hfound) next hnext
    exact ⟨cashoutComment_percents _ _ _ _ hnext hkept, _, by omega, hpay.trans hmorePay⟩
  obtain ⟨-, amount, hle, hpay⟩ := hloop _ hpaid
  have hclose : Enters may paid _ db' := closeFunds_enters totals.zipIdx _ h
  rw [List.zipIdx_map_fst] at hclose
  refine ⟨_, ?_, hpay.trans (.of_enters hclose)⟩
  dsimp only at hle
  omega

end Database

end Ledger

end Blurt
