import Blurt.Foundation.RefillBucket
import Blurt.Ledger.Frame
import Blurt.Ledger.VoteWeights

/-! # The mana of votes

The voting mana of an account is a bucket that refills, and every vote takes a part of it.
-/

namespace Blurt

namespace Ledger

open Outcome

/-! ## Mana bars -/

namespace Manabar

variable {bar filled : Manabar} {shares period now : Nat}

/-- The regeneration of a bar without debt is the refill of a bucket. -/
theorem regenerateMana_spec (hmana : 0 ≤ bar.currentMana) (hshares : shares < 2 ^ 63)
    (hperiod : 0 < period) (h : bar.regenerateMana shares period now = .ok filled) :
    bar.lastUpdateTime ≤ now ∧ filled.lastUpdateTime = now ∧ filled.currentMana =
      RefillBucket.refill shares period bar.currentMana.toNat (now - bar.lastUpdateTime) := by
  simp only [regenerateMana, bind_eq_ok, ensure_eq_ok] at h
  obtain ⟨_, -, _, hlast, h⟩ := h
  obtain ⟨held, hheld⟩ := Int.eq_ofNat_of_zero_le hmana
  rw [← RefillBucket.refill_min hperiod, RefillBucket.refill, hheld, Int.toNat_natCast]
  split at h
  · rename_i hfull
    cases h
    refine ⟨hlast, rfl, ?_⟩
    rw [hheld] at hfull
    rw [min_eq_left ((Nat.cast_le.mp hfull).trans (Nat.le_add_right _ _))]
  · rename_i hopen
    simp only [bind_eq_ok, ensure_eq_ok, pure_eq_ok] at h
    obtain ⟨_, -, rfl⟩ := h
    refine ⟨hlast, rfl, ?_⟩
    have hregen : (shares : Int) * (min (now - bar.lastUpdateTime) period : Nat) / period =
        (shares * min (now - bar.lastUpdateTime) period / period : Nat) := by
      push_cast
      rfl
    dsimp only
    rw [hregen, hheld]
    generalize shares * min (now - bar.lastUpdateTime) period / period = regen
    rw [hheld, not_le, Int.ofNat_lt] at hopen
    unfold signedSatAdd
    push_cast
    omega

/-- Using no more mana than there is. -/
theorem useMana_spec {used : Nat} (hmana : 0 ≤ bar.currentMana) (hrange : bar.currentMana < 2 ^ 63)
    (hused : (used : Int) ≤ bar.currentMana) :
    (bar.useMana used).currentMana = bar.currentMana - used := by
  change max (signedSatSub bar.currentMana used) 0 = bar.currentMana - used
  unfold signedSatSub
  omega

end Manabar

/-! ## The mana that a vote uses -/

/-- A day of a rate of at least one vote a day is less than the mana. -/
theorem usedMana_le {dgp : GlobalProperties} {mana weight used : Int}
    (hrate : dgp.votePowerReserveRate = 10) (hmana : 0 ≤ mana) (hrange : mana < 2 ^ 63)
    (hweight : weight.natAbs ≤ blurt100Percent) (h : Database.usedMana dgp mana weight = .ok used) :
    0 ≤ used ∧ used ≤ mana := by
  obtain ⟨held, rfl⟩ := Int.eq_ofNat_of_zero_le hmana
  simp only [Database.usedMana, bind_eq_ok, ensure_eq_ok, UInt128.div_eq_ok] at h
  obtain ⟨_, -, share, ⟨-, rfl⟩, _, ⟨-, rfl⟩, h⟩ := h
  have hproduct : held * weight.natAbs ≤ held * 10000 := Nat.mul_le_mul_left held hweight
  have hscaled : held * weight.natAbs * (60 * 60 * 24) ≤ held * 10000 * 86400 :=
    Nat.mul_le_mul_right 86400 hproduct
  have hshare : held * weight.natAbs * (60 * 60 * 24) / blurt100Percent ≤ held * 86400 := by
    unfold blurt100Percent
    omega
  have hheld : held < 2 ^ 63 := by exact_mod_cast hrange
  have hwrap : UInt128.wrap (held * weight.natAbs * (60 * 60 * 24)) =
      held * weight.natAbs * (60 * 60 * 24) := Nat.mod_eq_of_lt (by omega)
  have hdenom : dgp.votePowerReserveRate * blurtVotingManaRegenerationSeconds % 2 ^ 32 = 4320000 := by
    rw [hrate]
    rfl
  rw [UInt128.ofInt_natCast (by omega), hwrap, hdenom] at h
  generalize held * weight.natAbs * (60 * 60 * 24) / blurt100Percent = share at hshare h
  rw [UInt128.wrap, Nat.mod_eq_of_lt (by omega)] at h
  obtain ⟨-, rfl⟩ := UInt128.toInt64_eq_ok.mp h
  constructor
  · exact Int.natCast_nonneg _
  · omega

namespace Database

variable {db db' recorded : Database} {o : VoteOperation}

/-- The voter of a vote that used `used` of the mana that is left at the time of the vote. -/
structure Charged (db db' : Database) (o : VoteOperation) (filled : Account) (used : Int) : Prop where
  regenerated : ∃ a, db.accounts.find? o.voter = some a ∧ updateManabar db.dgp a 0 = .ok filled
  enough : 0 ≤ filled.votingManabar.currentMana
  uses : usedMana db.dgp filled.votingManabar.currentMana o.weight = .ok used
  accounts : db'.accounts = db.accounts.set o.voter { filled with
    votingManabar := filled.votingManabar.useMana used
    lastVoteTime := db.dgp.time }
  dgp : db'.dgp = db.dgp

theorem recordVote_accounts {voter : AccountName} {used absRshares : Int} {root : Nat} {a : Account}
    (ha : db.accounts.find? voter = some a)
    (h : db.recordVote voter used absRshares root = .ok recorded) :
    recorded.accounts = db.accounts.set voter { a with
      votingManabar := a.votingManabar.useMana used
      lastVoteTime := db.dgp.time } ∧ recorded.dgp = db.dgp := by
  simp only [recordVote, bind_eq_ok, pure_eq_ok] at h
  obtain ⟨charged, hcharged, c, -, children, -, rfl⟩ := h
  obtain ⟨b, _, hb, hupdated, rfl⟩ := modifyAccount_spec hcharged
  cases ha.symm.trans hb
  cases hupdated
  exact ⟨rfl, rfl⟩

/-- A vote for a comment that is not paid uses mana. -/
theorem vote_charged {clearVotes : Bool} (h : db.vote clearVotes o = .ok db') :
    db'.accounts = db.accounts ∨ ∃ filled used, db.Charged db' o filled used := by
  simp only [vote, bind_eq_ok, ensure_eq_ok] at h
  obtain ⟨⟨id, c⟩, -, _, -, _, -, _, -, _, -, h⟩ := h
  split at h
  · cases h
    rw [voteAfterPayout]
    split <;> exact .inl rfl
  · simp only [bind_eq_ok, ensure_eq_ok] at h
    obtain ⟨_, -, _, -, _, -, charged, hcharged, filled, hfilled, _, henough, used, hused,
      absRshares, -, h⟩ := h
    obtain ⟨a, b, ha, hb, rfl⟩ := modifyAccount_spec hcharged
    rw [getAccount, require_eq_ok, Store.find?_set_self] at hfilled
    cases hfilled
    have hrecorded : ∀ {voted : Comment} {absRshares : Int} {root : Nat} {recorded : Database},
        (({ db with accounts := db.accounts.set o.voter filled } : Database).setComment id
          voted).recordVote o.voter used absRshares root = .ok recorded →
        recorded.accounts = db.accounts.set o.voter { filled with
          votingManabar := filled.votingManabar.useMana used
          lastVoteTime := db.dgp.time } ∧ recorded.dgp = db.dgp := by
      intro voted absRshares root recorded hrecorded
      have haccounts := recordVote_accounts (Store.find?_set_self o.voter filled db.accounts) hrecorded
      exact ⟨haccounts.1.trans (AList.insert_insert _), haccounts.2⟩
    refine .inr ⟨filled, used, ?_⟩
    have hregenerated : ∃ a, db.accounts.find? o.voter = some a ∧ updateManabar db.dgp a 0 = .ok filled :=
      ⟨a, ha, hb⟩
    split at h
    · simp only [castVote, bind_eq_ok, ensure_eq_ok, pure_eq_ok] at h
      obtain ⟨_, -, c, -, voted, -, recorded, hrecord, current, -, _, -, rfl⟩ := h
      obtain ⟨haccounts, hdgp⟩ := hrecorded hrecord
      exact ⟨hregenerated, henough, hused, haccounts, hdgp⟩
    · simp only [recastVote, bind_eq_ok, ensure_eq_ok, pure_eq_ok] at h
      obtain ⟨_, -, _, -, c, -, voted, -, recorded, hrecord, current, -, rfl⟩ := h
      obtain ⟨haccounts, hdgp⟩ := hrecorded hrecord
      exact ⟨hregenerated, henough, hused, haccounts, hdgp⟩

/-! ## Windows -/

/-- The mana of a voter at a time, before it is rounded, times the time of a regeneration. -/
def manaLevel (a : Account) (shares now : Nat) : Nat :=
  RefillBucket.level shares blurtVotingManaRegenerationSeconds a.votingManabar.currentMana.toNat
    (now - a.votingManabar.lastUpdateTime)

/-- A stretch of a chain during which the effective vesting shares of `voter` are `shares`, with
the mana that the votes of `voter` have used in it. -/
inductive Window (voter : AccountName) (shares : Nat) (start : Database) : Database → Int → Prop
  | start {a : Account} (ha : start.accounts.find? voter = some a)
      (hshares : getEffectiveVestingShares a = shares) : Window voter shares start start 0
  /-- A vote of any weight. -/
  | vote {db db' : Database} {used spent : Int} {clearVotes : Bool} {o : VoteOperation}
      {rules : TextRules} {filled b : Account} (h : Window voter shares start db used)
      (hvoter : o.voter = voter) (hvalid : o.validate rules = .ok ())
      (hvote : db.vote clearVotes o = .ok db') (hcharged : db.Charged db' o filled spent)
      (hb : db'.accounts.find? voter = some b)
      (hshares : getEffectiveVestingShares b = shares) : Window voter shares start db' (used + spent)
  /-- An update of the mana of `voter`. -/
  | update {db db' : Database} {used : Int} {a b : Account} (h : Window voter shares start db used)
      (ha : db.accounts.find? voter = some a) (hupdate : updateManabar db.dgp a 0 = .ok b)
      (hb : db'.accounts.find? voter = some b) (hdgp : db'.dgp = db.dgp) :
      Window voter shares start db' used
  /-- Anything else, such as the start of the next block. -/
  | other {db db' : Database} {used : Int} {a b : Account} (h : Window voter shares start db used)
      (ha : db.accounts.find? voter = some a) (hb : db'.accounts.find? voter = some b)
      (hmana : b.votingManabar = a.votingManabar) (htime : db.dgp.time ≤ db'.dgp.time)
      (hrate : db'.dgp.votePowerReserveRate = db.dgp.votePowerReserveRate)
      (hshares : getEffectiveVestingShares b = shares) : Window voter shares start db' used

/-- Mana of a voter whose window has lasted until `db`. -/
structure Within (voter : AccountName) (shares : Nat) (start : Database) (a₀ : Account)
    (db : Database) (used : Int) (a : Account) : Prop where
  found : db.accounts.find? voter = some a
  effective : getEffectiveVestingShares a = shares
  solvent : 0 ≤ a.votingManabar.currentMana
  rate : db.dgp.votePowerReserveRate = 10
  time : start.dgp.time ≤ db.dgp.time
  spent : 0 ≤ used
  bound : blurtVotingManaRegenerationSeconds * used.toNat + manaLevel a shares db.dgp.time ≤
    manaLevel a₀ shares start.dgp.time + shares * (db.dgp.time - start.dgp.time)

theorem getEffectiveVestingShares_lt (a : Account) : getEffectiveVestingShares a < 2 ^ 63 := by
  unfold getEffectiveVestingShares
  dsimp only
  split
  · exact wrapInt64_lt _
  · exact wrapInt64_lt _

/-- An update refills the mana of an account up to the time of the head block. -/
theorem updateManabar_refill {dgp : GlobalProperties} {a b : Account} {shares : Nat}
    (hshares : getEffectiveVestingShares a = shares) (hmana : 0 ≤ a.votingManabar.currentMana)
    (h : updateManabar dgp a 0 = .ok b) :
    getEffectiveVestingShares b = shares ∧ b.votingManabar.lastUpdateTime = dgp.time ∧
      a.votingManabar.lastUpdateTime ≤ dgp.time ∧ b.votingManabar.currentMana =
        RefillBucket.refill shares blurtVotingManaRegenerationSeconds
          a.votingManabar.currentMana.toNat (dgp.time - a.votingManabar.lastUpdateTime) := by
  have hrange : shares < 2 ^ 63 := by
    have hlt := getEffectiveVestingShares_lt a
    rw [hshares] at hlt
    exact_mod_cast hlt
  simp only [updateManabar, bind_eq_ok, pure_eq_ok] at h
  obtain ⟨bar, hbar, rfl⟩ := h
  rw [hshares] at hbar
  obtain ⟨hlast, htime, hfilled⟩ := Manabar.regenerateMana_spec hmana hrange (by decide) hbar
  refine ⟨hshares, htime, hlast, ?_⟩
  have hle := RefillBucket.refill_le shares blurtVotingManaRegenerationSeconds
    a.votingManabar.currentMana.toNat (dgp.time - a.votingManabar.lastUpdateTime)
  have hsame := @Manabar.useMana_spec bar 0 (by omega) (by omega) (by omega)
  rw [← hfilled]
  exact hsame.trans (Int.sub_zero _)

/-- A vote of a voter whose effective vesting shares are `shares`. -/
structure Spends (shares : Nat) (filled : Account) (spent : Int) : Prop where
  within : 0 ≤ spent ∧ spent ≤ filled.votingManabar.currentMana
  range : 0 ≤ filled.votingManabar.currentMana ∧ filled.votingManabar.currentMana ≤ shares
  left : (filled.votingManabar.useMana spent).currentMana = filled.votingManabar.currentMana - spent

theorem Charged.spends {rules : TextRules} {a filled : Account} {shares : Nat} {spent : Int}
    (h : db.Charged db' o filled spent) (hvalid : o.validate rules = .ok ())
    (hrate : db.dgp.votePowerReserveRate = 10) (ha : db.accounts.find? o.voter = some a)
    (hshares : getEffectiveVestingShares a = shares) (hmana : 0 ≤ a.votingManabar.currentMana) :
    Spends shares filled spent := by
  obtain ⟨a', ha', hfilled⟩ := h.regenerated
  cases ha.symm.trans ha'
  obtain ⟨-, -, -, hrefill⟩ := updateManabar_refill hshares hmana hfilled
  have hle := RefillBucket.refill_le shares blurtVotingManaRegenerationSeconds
    a.votingManabar.currentMana.toNat (db.dgp.time - a.votingManabar.lastUpdateTime)
  have hlt := getEffectiveVestingShares_lt a
  have hweight : o.weight.natAbs ≤ blurt100Percent := by
    simp only [VoteOperation.validate, bind_eq_ok, ensure_eq_ok] at hvalid
    obtain ⟨_, -, _, -, _, hweight, -⟩ := hvalid
    exact hweight
  obtain ⟨hspent, hspentLe⟩ := usedMana_le hrate h.enough (by omega) hweight h.uses
  obtain ⟨spent, rfl⟩ := Int.eq_ofNat_of_zero_le hspent
  refine ⟨⟨hspent, hspentLe⟩, ⟨h.enough, by omega⟩, ?_⟩
  exact Manabar.useMana_spec h.enough (by omega) hspentLe

/-- A window that starts without a debt stays within what the mana allows. -/
theorem Window.within {voter : AccountName} {shares : Nat} {start : Database} {a₀ : Account}
    {used : Int} (hstart : start.accounts.find? voter = some a₀)
    (hrate : start.dgp.votePowerReserveRate = 10) (hmana : 0 ≤ a₀.votingManabar.currentMana)
    (h : Window voter shares start db used) : ∃ a, Within voter shares start a₀ db used a := by
  induction h with
  | start ha hshares =>
      cases ha.symm.trans hstart
      refine ⟨a₀, hstart, hshares, hmana, hrate, le_rfl, le_rfl, ?_⟩
      rw [Int.toNat_zero, Nat.mul_zero, Nat.zero_add]
      exact Nat.le_add_right _ _
  | @vote db db' used spent clearVotes o rules filled b _ hvoter hvalid hvote hcharged hb hshares ih =>
      obtain ⟨a, hwithin⟩ := ih
      subst hvoter
      have hspends := hcharged.spends hvalid hwithin.rate hwithin.found hwithin.effective hwithin.solvent
      obtain ⟨a', ha', hfilled⟩ := hcharged.regenerated
      cases hwithin.found.symm.trans ha'
      obtain ⟨-, htime, -, hrefill⟩ := updateManabar_refill hwithin.effective hwithin.solvent hfilled
      obtain ⟨hspent, hle⟩ := hspends.within
      have hleft := hspends.left
      rw [hcharged.accounts, Store.find?_set_self] at hb
      obtain rfl := Option.some.inj hb
      obtain ⟨spent, rfl⟩ := Int.eq_ofNat_of_zero_le hspent
      refine ⟨_, by rw [hcharged.accounts, Store.find?_set_self], hshares, ?_, ?_, ?_, ?_, ?_⟩
      · exact Manabar.useMana_nonneg _ _
      · rw [hcharged.dgp, hwithin.rate]
      · rw [hcharged.dgp]
        exact hwithin.time
      · have hused := hwithin.spent
        omega
      · have hmana : (filled.votingManabar.useMana spent).currentMana.toNat =
            RefillBucket.refill shares blurtVotingManaRegenerationSeconds
              a.votingManabar.currentMana.toNat (db.dgp.time - a.votingManabar.lastUpdateTime) -
                spent := by
          omega
        have hlevel : blurtVotingManaRegenerationSeconds * spent +
            manaLevel { filled with
              votingManabar := filled.votingManabar.useMana spent
              lastVoteTime := db.dgp.time } shares db.dgp.time ≤ manaLevel a shares db.dgp.time := by
          change _ + RefillBucket.level _ _ (filled.votingManabar.useMana spent).currentMana.toNat
            (db.dgp.time - filled.votingManabar.lastUpdateTime) ≤ _
          rw [hmana, htime, Nat.sub_self]
          exact RefillBucket.level_spent (by omega)
        have hused : (used + (spent : Int)).toNat = used.toNat + spent :=
          Int.toNat_add_nat hwithin.spent spent
        have hbound := hwithin.bound
        rw [hcharged.dgp, hused, Nat.mul_add]
        omega
  | @update db db' used a b _ ha hupdate hb hdgp ih =>
      obtain ⟨a', hwithin⟩ := ih
      cases ha.symm.trans hwithin.found
      obtain ⟨hshares, htime, hlast, hrefill⟩ :=
        updateManabar_refill hwithin.effective hwithin.solvent hupdate
      refine ⟨b, hb, hshares, ?_, by rw [hdgp, hwithin.rate], by rw [hdgp]; exact hwithin.time,
        hwithin.spent, ?_⟩
      · rw [hrefill]
        exact Int.natCast_nonneg _
      · refine le_trans (Nat.add_le_add_left ?_ _) (hdgp ▸ hwithin.bound)
        have hlevel := RefillBucket.level_spent (Nat.zero_le (RefillBucket.refill shares
          blurtVotingManaRegenerationSeconds a.votingManabar.currentMana.toNat
          (db.dgp.time - a.votingManabar.lastUpdateTime)))
        rw [manaLevel, hrefill, htime, hdgp, Nat.sub_self, Int.toNat_natCast]
        rwa [Nat.mul_zero, Nat.zero_add, Nat.sub_zero] at hlevel
  | @other db db' used a b _ ha hb hmana htime hrate hshares ih =>
      obtain ⟨a', hwithin⟩ := ih
      cases ha.symm.trans hwithin.found
      refine ⟨b, hb, hshares, hmana ▸ hwithin.solvent, hrate.trans hwithin.rate,
        hwithin.time.trans htime, hwithin.spent, ?_⟩
      have hmore : manaLevel b shares db'.dgp.time ≤
          manaLevel a shares db.dgp.time + shares * (db'.dgp.time - db.dgp.time) := by
        rw [manaLevel, manaLevel, hmana]
        refine le_trans (RefillBucket.level_mono _ ?_) (RefillBucket.level_add_le _ _ _)
        omega
      have hlonger : shares * (db'.dgp.time - start.dgp.time) =
          shares * (db.dgp.time - start.dgp.time) + shares * (db'.dgp.time - db.dgp.time) := by
        have htime₀ := hwithin.time
        rw [← Nat.mul_add]
        congr 1
        omega
      have hbound := hwithin.bound
      omega

end Database

end Ledger

end Blurt
