import Blurt.Foundation.Table
import Blurt.Ledger.Frame
import Mathlib.Logic.Relation
import Mathlib.Tactic.Linarith

/-! # Votes for witnesses and comments

A machine of the two counts that votes enter: the clocks of the witnesses, which their votes
speed up, and the tallies of the comments, which the weights of the votes share.
-/

namespace Blurt

namespace Ledger

open Outcome

/-! ## Clocks -/

namespace Clock

/-- The position of a witness after the time since its last update. -/
def moved (now : Nat) (c : Clock) : Nat :=
  UInt128.wrap (c.position +
    UInt128.wrap (UInt128.ofInt c.votes * UInt128.sub now c.lastUpdate))

/-- The time at which a witness with `votes` has covered what is left of a lap. -/
def arrival (now lap : Nat) : Nat :=
  if UInt128.wrap (now + lap) < now then UInt128.maxValue else UInt128.wrap (now + lap)

/-- A clock after a change of the votes. -/
def Adjusted (now : Nat) (votes : Int) (c d : Clock) : Prop :=
  InInt64 votes ∧ ∃ lap, UInt128.div (UInt128.sub UInt128.maxValue (c.moved now))
      (UInt128.ofInt (wrapInt64 (votes + 1))) = .ok lap ∧
    d = ⟨votes, c.moved now, now, arrival now lap⟩

/-- A clock at the start of a lap. -/
def StartsLap (now : Nat) (c d : Clock) : Prop :=
  ∃ lap, UInt128.div UInt128.maxValue (UInt128.ofInt (wrapInt64 (c.votes + 1))) = .ok lap ∧
    now ≤ UInt128.wrap (now + lap) ∧ d = ⟨c.votes, 0, now, UInt128.wrap (now + lap)⟩

/-- The clock of a new witness. -/
def new : Clock := ⟨0, 0, 0, UInt128.maxValue⟩

/-- A clock that the virtual time has not passed. Until it is due, nothing wraps. -/
structure Paced (now : Nat) (c : Clock) : Prop where
  range : InInt64 c.votes
  last : c.lastUpdate ≤ now
  due : now ≤ c.scheduledTime
  scheduled : c.scheduledTime ≤ UInt128.maxValue
  position : c.position ≤ UInt128.maxValue
  lap : 0 ≤ c.votes →
    c.position + c.votes.toNat * (c.scheduledTime - c.lastUpdate) ≤ UInt128.maxValue

end Clock

namespace Clock

variable {now later : Nat} {votes : Int} {c d : Clock}

/-- Nothing wraps where a witness has moved since its last update. -/
theorem Paced.moved_eq (h : c.Paced now) (hvotes : 0 ≤ c.votes) :
    c.position + c.votes.toNat * (now - c.lastUpdate) ≤ UInt128.maxValue ∧
      c.moved now = c.position + c.votes.toNat * (now - c.lastUpdate) := by
  have hlap := h.lap hvotes
  have hscheduled := h.scheduled
  have hlast := h.last
  have hdue := h.due
  have hmore : c.votes.toNat * (now - c.lastUpdate) ≤
      c.votes.toNat * (c.scheduledTime - c.lastUpdate) := Nat.mul_le_mul_left _ (by omega)
  have hsub : UInt128.sub now c.lastUpdate = now - c.lastUpdate := by
    unfold UInt128.sub UInt128.wrap
    unfold UInt128.maxValue at hscheduled
    omega
  refine ⟨by omega, ?_⟩
  rw [moved, hsub, UInt128.ofInt_of_nonneg hvotes h.range.2]
  unfold UInt128.wrap
  unfold UInt128.maxValue at hlap
  rw [Nat.mod_eq_of_lt (by omega), Nat.mod_eq_of_lt (by omega)]

theorem Paced.mono (h : c.Paced now) (hle : now ≤ later) (hdue : later ≤ c.scheduledTime) :
    c.Paced later :=
  { h with
    last := h.last.trans hle
    due := hdue }

/-- The divisor of a lap is at least the votes. -/
theorem toNat_le_divisor (hvotes : 0 ≤ votes) (hrange : InInt64 votes) :
    votes.toNat ≤ UInt128.ofInt (wrapInt64 (votes + 1)) := by
  obtain hlt | heq := lt_or_eq_of_le (Int.add_one_le_of_lt hrange.2)
  · rw [wrapInt64_of_lt (by omega) hlt, UInt128.ofInt_of_nonneg (by omega) hlt]
    omega
  · have hmax : votes = 2 ^ 63 - 1 := by omega
    rw [hmax]
    decide

/-- What is left of a lap is enough for the votes until its end. -/
theorem votes_mul_lap_le {left lap : Nat} (hvotes : 0 ≤ votes) (hrange : InInt64 votes)
    (hlap : UInt128.div left (UInt128.ofInt (wrapInt64 (votes + 1))) = .ok lap) :
    votes.toNat * lap ≤ left := by
  obtain ⟨-, rfl⟩ := UInt128.div_eq_ok.mp hlap
  refine (Nat.mul_le_mul_right _ (toNat_le_divisor hvotes hrange)).trans ?_
  exact Nat.mul_div_le _ _

theorem Adjusted.paced (hnow : now ≤ UInt128.maxValue) (h : c.Adjusted now votes d) :
    d.Paced now := by
  obtain ⟨hrange, lap, hlap, rfl⟩ := h
  have hposition : c.moved now < 2 ^ 128 := Nat.mod_lt _ (by decide)
  have hleft : UInt128.sub UInt128.maxValue (c.moved now) = UInt128.maxValue - c.moved now := by
    unfold UInt128.sub UInt128.wrap UInt128.maxValue
    omega
  rw [hleft] at hlap
  have hlapLt : lap ≤ UInt128.maxValue := by
    obtain ⟨-, rfl⟩ := UInt128.div_eq_ok.mp hlap
    exact (Nat.div_le_self _ _).trans (Nat.sub_le _ _)
  have harrival : now ≤ arrival now lap ∧ arrival now lap ≤ UInt128.maxValue ∧
      arrival now lap - now ≤ lap := by
    unfold arrival UInt128.wrap
    unfold UInt128.maxValue at *
    split <;> omega
  refine ⟨hrange, le_rfl, harrival.1, harrival.2.1, ?_, fun hvotes => ?_⟩
  · change c.moved now ≤ UInt128.maxValue
    unfold UInt128.maxValue
    omega
  · have hcovered : votes.toNat * lap ≤ UInt128.maxValue - c.moved now :=
      votes_mul_lap_le hvotes hrange hlap
    have hpart := Nat.mul_le_mul_left votes.toNat harrival.2.2
    change c.moved now + votes.toNat * (arrival now lap - now) ≤ UInt128.maxValue
    unfold UInt128.maxValue at *
    omega

theorem StartsLap.paced (hnow : now ≤ UInt128.maxValue) (hrange : InInt64 c.votes)
    (h : c.StartsLap now d) : d.Paced now := by
  obtain ⟨lap, hlap, hdue, rfl⟩ := h
  have hlapLt : lap ≤ UInt128.maxValue := by
    obtain ⟨-, rfl⟩ := UInt128.div_eq_ok.mp hlap
    exact Nat.div_le_self _ _
  have harrival : UInt128.wrap (now + lap) ≤ UInt128.maxValue ∧
      UInt128.wrap (now + lap) - now ≤ lap := by
    unfold UInt128.wrap at *
    unfold UInt128.maxValue at *
    omega
  refine ⟨hrange, le_rfl, hdue, harrival.1, Nat.zero_le _, fun hvotes => ?_⟩
  have hcovered : c.votes.toNat * lap ≤ UInt128.maxValue := votes_mul_lap_le hvotes hrange hlap
  have hpart := Nat.mul_le_mul_left c.votes.toNat harrival.2
  change 0 + c.votes.toNat * (UInt128.wrap (now + lap) - now) ≤ UInt128.maxValue
  omega

theorem new_paced (hnow : now ≤ UInt128.maxValue) : new.Paced now where
  range := by decide
  last := Nat.zero_le _
  due := hnow
  scheduled := le_rfl
  position := Nat.zero_le _
  lap _ := by simp [new]

end Clock

/-! ## The machine -/

/-- The votes for witnesses and comments. -/
structure Polls where
  virtualTime : Nat
  clocks : Table AccountName Clock
  tallies : Table Nat Tally
  nextComment : Nat
  weights : Table (Nat × AccountName) Nat

namespace Polls

/-- The weights without those of the votes for one comment. -/
def forget (id : Nat) (weights : Table (Nat × AccountName) Nat) : Table (Nat × AccountName) Nat :=
  weights.filterKeys fun key => key.1 ≠ id

/-- A step of the machine. -/
inductive Step : Polls → Polls → Prop
  | adjust {p : Polls} {name : AccountName} {votes : Int} {c d : Clock}
      (hc : p.clocks.find? name = some c) (hd : c.Adjusted p.virtualTime votes d) :
      Step p { p with clocks := p.clocks.set name d }
  | register {p : Polls} {name : AccountName} (hnew : p.clocks.find? name = none) :
      Step p { p with clocks := p.clocks.set name .new }
  /-- Every witness whose lap ended before `now` starts a new lap. -/
  | advance {p : Polls} {now : Nat} {clocks : Table AccountName Clock}
      (hnow : now = p.virtualTime ∨
        ∃ name c, p.clocks.find? name = some c ∧ now = c.scheduledTime)
      (hlaps : ∀ name d, clocks.find? name = some d → ∃ c, p.clocks.find? name = some c ∧
        (d = c ∧ (p.virtualTime < now → now ≤ c.scheduledTime) ∨ c.StartsLap now d)) :
      Step p { p with clocks, virtualTime := now }
  /-- After an overflow every witness starts a lap at time 0. -/
  | restart {p : Polls} {clocks : Table AccountName Clock}
      (hlaps : ∀ name d, clocks.find? name = some d →
        ∃ c, p.clocks.find? name = some c ∧ c.StartsLap 0 d) :
      Step p { p with clocks, virtualTime := 0 }
  | post {p : Polls} {t : Tally} (hnew : t.voteRshares = 0 ∧ t.totalVoteWeight = 0) :
      Step p { p with
        tallies := p.tallies.set p.nextComment t
        nextComment := p.nextComment + 1 }
  | delete {p : Polls} (id : Nat) :
      Step p { p with tallies := p.tallies.remove id, weights := forget id p.weights }
  | cast {p : Polls} {id : Nat} {voter : AccountName} {t : Tally} {absRshares : Int}
      {gain weight : Nat} (ht : p.tallies.find? id = some t) (hopen : t.cashoutTime ≠ maximumTime)
      (hfirst : p.weights.find? (id, voter) = none) (habs : 0 ≤ absRshares)
      (hrange : t.voteRshares + absRshares < 2 ^ 63)
      (hgain : 0 ≤ t.voteRshares → (gain : Int) ≤ absRshares) (hweight : weight ≤ gain) :
      Step p { p with
        tallies := p.tallies.set id { t with
          voteRshares := t.voteRshares + absRshares
          totalVoteWeight := (t.totalVoteWeight + gain) % 2 ^ 64 }
        weights := p.weights.set (id, voter) weight }
  | recast {p : Polls} {id : Nat} {voter : AccountName} {t : Tally} {weight : Nat}
      (ht : p.tallies.find? id = some t) (hopen : t.cashoutTime ≠ maximumTime)
      (hprevious : p.weights.find? (id, voter) = some weight) :
      Step p { p with
        tallies := p.tallies.set id { t with
          totalVoteWeight := (t.totalVoteWeight + (2 ^ 64 - weight)) % 2 ^ 64 }
        weights := p.weights.set (id, voter) 0 }
  /-- A vote for a comment that has been paid. -/
  | late {p : Polls} {id : Nat} {voter : AccountName} {t : Tally} {weight : Nat}
      (ht : p.tallies.find? id = some t) (hpaid : t.cashoutTime = maximumTime) :
      Step p { p with weights := p.weights.set (id, voter) weight }
  | payout {p : Polls} {id : Nat} {t : Tally} {weights : Table (Nat × AccountName) Nat}
      (ht : p.tallies.find? id = some t)
      (hweights : weights = p.weights ∨ weights = forget id p.weights) :
      Step p { p with tallies := p.tallies.set id ⟨0, 0, maximumTime⟩, weights }

/-- A run of the machine. -/
abbrev Runs : Polls → Polls → Prop := Relation.ReflTransGen Step

variable {p q : Polls}

/-- What each step preserves, a run preserves. -/
theorem Runs.invariant {holds : Polls → Prop} (hstep : ∀ p q, Step p q → holds p → holds q)
    (h : Runs p q) (hp : holds p) : holds q := by
  induction h with
  | refl => exact hp
  | tail _ hlast ih => exact hstep _ _ hlast ih

/-! ## The virtual time -/

/-- The virtual time has passed no witness. -/
structure Paced (p : Polls) : Prop where
  time : p.virtualTime ≤ UInt128.maxValue
  clocks : ∀ name c, p.clocks.find? name = some c → c.Paced p.virtualTime

theorem Paced.set {name : AccountName} {c : Clock} (h : p.Paced) (hc : c.Paced p.virtualTime) :
    ∀ other d, (p.clocks.set name c).find? other = some d → d.Paced p.virtualTime := by
  intro other d hd
  rw [Table.find?_set] at hd
  split at hd
  · cases hd
    exact hc
  · exact h.clocks other d hd

theorem Step.paced (hstep : Step p q) (h : p.Paced) : q.Paced := by
  cases hstep with
  | adjust hc hd => exact ⟨h.time, h.set (hd.paced h.time)⟩
  | register hnew => exact ⟨h.time, h.set (Clock.new_paced h.time)⟩
  | @advance now clocks hnow hlaps =>
      have htime : p.virtualTime ≤ now ∧ now ≤ UInt128.maxValue := by
        rcases hnow with rfl | ⟨name, c, hc, rfl⟩
        · exact ⟨le_rfl, h.time⟩
        · exact ⟨(h.clocks name c hc).due, (h.clocks name c hc).scheduled⟩
      refine ⟨htime.2, fun name d hd => ?_⟩
      obtain ⟨c, hc, ⟨rfl, hlater⟩ | hlap⟩ := hlaps name d hd
      · have hpaced := h.clocks name d hc
        rcases htime.1.eq_or_lt with rfl | hlt
        · exact hpaced
        · exact hpaced.mono htime.1 (hlater hlt)
      · exact hlap.paced htime.2 (h.clocks name c hc).range
  | restart hlaps =>
      refine ⟨Nat.zero_le _, fun name d hd => ?_⟩
      obtain ⟨c, hc, hlap⟩ := hlaps name d hd
      exact hlap.paced (Nat.zero_le _) (h.clocks name c hc).range
  | post => exact ⟨h.time, h.clocks⟩
  | delete => exact ⟨h.time, h.clocks⟩
  | cast => exact ⟨h.time, h.clocks⟩
  | recast => exact ⟨h.time, h.clocks⟩
  | late => exact ⟨h.time, h.clocks⟩
  | payout => exact ⟨h.time, h.clocks⟩

/-- However votes, schedules and restarts follow on each other, the virtual time passes no
witness. -/
theorem Runs.paced (hruns : Runs p q) (h : p.Paced) : q.Paced :=
  hruns.invariant (fun _ _ hstep => hstep.paced) h

/-! ## The weights of the votes -/

/-- The weights of the votes for one comment. -/
def weightFor (id : Nat) (weights : Table (Nat × AccountName) Nat) : Int :=
  weights.sum fun key (weight : Nat) => if key.1 = id then (weight : Int) else 0

/-- A comment that is not paid out shares at least the weights of its votes. -/
structure Covered (p : Polls) : Prop where
  shared : ∀ id t, p.tallies.find? id = some t → t.cashoutTime ≠ maximumTime →
    0 ≤ t.voteRshares ∧ t.voteRshares < 2 ^ 63 ∧ (t.totalVoteWeight : Int) ≤ t.voteRshares ∧
      weightFor id p.weights ≤ t.totalVoteWeight
  votes : ∀ key weight, p.weights.find? key = some weight → key.1 < p.nextComment
  posted : ∀ id t, p.tallies.find? id = some t → id < p.nextComment

theorem weightFor_nonneg (id : Nat) (weights : Table (Nat × AccountName) Nat) :
    0 ≤ weightFor id weights := by
  apply Table.sum_nonneg
  intro key weight _
  split
  · exact Int.natCast_nonneg _
  · exact le_rfl

theorem weightFor_set (id : Nat) (key : Nat × AccountName) (weight : Nat)
    (weights : Table (Nat × AccountName) Nat) :
    weightFor id (weights.set key weight) = weightFor id weights +
      if key.1 = id then (weight : Int) - (weights.find? key).getD 0 else 0 := by
  rw [weightFor, Table.sum_set, weightFor]
  split
  · rename_i hid
    unfold Table.share
    cases weights.find? key <;> simp [hid]
  · rename_i hid
    unfold Table.share
    cases weights.find? key <;> simp [hid]

/-- No vote is left for a comment that is forgotten. -/
theorem weightFor_forget (id other : Nat) (weights : Table (Nat × AccountName) Nat) :
    weightFor other (forget id weights) ≤ weightFor other weights := by
  rw [weightFor, forget, Table.sum_filterKeys, weightFor]
  apply Table.sum_le_sum
  intro key weight _
  split
  · exact le_rfl
  · split
    · exact Int.natCast_nonneg _
    · exact le_rfl

theorem weightFor_of_none {id : Nat} {weights : Table (Nat × AccountName) Nat}
    (hnone : ∀ key weight, weights.find? key = some weight → key.1 ≠ id) :
    weightFor id weights = 0 := by
  rw [weightFor, Table.sum_congr (g := fun _ _ => 0)]
  · simp [Table.sum]
  · intro key weight hweight
    rw [if_neg (hnone key weight hweight)]

/-- A comment other than the one that a step is about. -/
theorem Covered.other {weights : Table (Nat × AccountName) Nat} (h : p.Covered) {id : Nat} {t : Tally}
    (ht : p.tallies.find? id = some t) (hopen : t.cashoutTime ≠ maximumTime)
    (hweights : weightFor id weights ≤ weightFor id p.weights) :
    0 ≤ t.voteRshares ∧ t.voteRshares < 2 ^ 63 ∧ (t.totalVoteWeight : Int) ≤ t.voteRshares ∧
      weightFor id weights ≤ t.totalVoteWeight := by
  obtain ⟨hlow, hhigh, htotal, hshared⟩ := h.shared id t ht hopen
  exact ⟨hlow, hhigh, htotal, hweights.trans hshared⟩

theorem Covered.votes_set (h : p.Covered) {id : Nat} {voter : AccountName} {t : Tally} {weight : Nat}
    (ht : p.tallies.find? id = some t) : ∀ key w,
      (p.weights.set (id, voter) weight).find? key = some w → key.1 < p.nextComment := by
  intro key w hw
  rw [Table.find?_set] at hw
  split at hw
  · rename_i hkey
    rw [hkey]
    exact h.posted id t ht
  · exact h.votes key w hw

theorem Covered.posted_set (h : p.Covered) {id : Nat} {t u : Tally}
    (ht : p.tallies.find? id = some t) : ∀ other v,
      (p.tallies.set id u).find? other = some v → other < p.nextComment := by
  intro other v hv
  rw [Table.find?_set] at hv
  split at hv
  · rename_i hother
    exact hother ▸ h.posted id t ht
  · exact h.posted other v hv

theorem Covered.votes_forget (h : p.Covered) {id : Nat} {key : Nat × AccountName} {weight : Nat}
    (hweight : (forget id p.weights).find? key = some weight) : key.1 < p.nextComment := by
  rw [forget, Table.find?_filterKeys] at hweight
  split at hweight
  · exact h.votes key weight hweight
  · cases hweight

theorem Step.covered (hstep : Step p q) (h : p.Covered) : q.Covered := by
  cases hstep with
  | adjust => exact ⟨h.shared, h.votes, h.posted⟩
  | register => exact ⟨h.shared, h.votes, h.posted⟩
  | advance => exact ⟨h.shared, h.votes, h.posted⟩
  | restart => exact ⟨h.shared, h.votes, h.posted⟩
  | @post t hnew =>
      constructor
      · intro id u hu hopen
        rw [Table.find?_set] at hu
        split at hu
        · rename_i hid
          cases hu
          have hnone : weightFor id p.weights = 0 := by
            apply weightFor_of_none
            intro key weight hweight hkey
            have hlt := h.votes key weight hweight
            omega
          change 0 ≤ t.voteRshares ∧ t.voteRshares < 2 ^ 63 ∧
            (t.totalVoteWeight : Int) ≤ t.voteRshares ∧ weightFor id p.weights ≤ t.totalVoteWeight
          rw [hnew.1, hnew.2, hnone]
          decide
        · exact h.shared id u hu hopen
      · exact fun key weight hweight => (h.votes key weight hweight).trans (Nat.lt_succ_self _)
      · intro id u hu
        rw [Table.find?_set] at hu
        split at hu
        · rename_i hid
          exact hid ▸ Nat.lt_succ_self _
        · exact (h.posted id u hu).trans (Nat.lt_succ_self _)
  | delete id =>
      constructor
      · intro other t ht hopen
        rw [Table.find?_remove] at ht
        split at ht
        · cases ht
        · exact h.other ht hopen (weightFor_forget id other p.weights)
      · exact fun key weight hweight => h.votes_forget hweight
      · intro other t ht
        rw [Table.find?_remove] at ht
        split at ht
        · cases ht
        · exact h.posted other t ht
  | @cast id voter t absRshares gain weight ht hopen hfirst habs hrange hgain hweight =>
      obtain ⟨hlow, hhigh, htotal, hshared⟩ := h.shared id t ht hopen
      have hgain := hgain hlow
      constructor
      · intro other u hu hu'
        rw [Table.find?_set] at hu
        split at hu
        · rename_i hother
          cases hu
          rw [weightFor_set, if_pos hother.symm, hfirst, hother]
          dsimp only
          rw [Nat.mod_eq_of_lt (by omega)]
          simp only [Option.getD_none]
          omega
        · rename_i hother
          refine h.other hu hu' ?_
          rw [weightFor_set, if_neg (Ne.symm hother), Int.add_zero]
      · exact h.votes_set ht
      · exact h.posted_set ht
  | @recast id voter t weight ht hopen hprevious =>
      obtain ⟨hlow, hhigh, htotal, hshared⟩ := h.shared id t ht hopen
      have hown : (weight : Int) ≤ weightFor id p.weights := by
        have hrest := weightFor_nonneg id (p.weights.set (id, voter) 0)
        rw [weightFor_set, if_pos rfl, hprevious] at hrest
        simp only [Option.getD_some] at hrest
        omega
      have hnew : (t.totalVoteWeight + (2 ^ 64 - weight)) % 2 ^ 64 = t.totalVoteWeight - weight := by
        omega
      constructor
      · intro other u hu hu'
        rw [Table.find?_set] at hu
        split at hu
        · rename_i hother
          cases hu
          rw [weightFor_set, if_pos hother.symm, hprevious, hother]
          dsimp only
          rw [hnew]
          simp only [Option.getD_some]
          omega
        · rename_i hother
          refine h.other hu hu' ?_
          rw [weightFor_set, if_neg (Ne.symm hother), Int.add_zero]
      · exact h.votes_set ht
      · exact h.posted_set ht
  | @late id voter t weight ht hpaid =>
      constructor
      · intro other u hu hopen
        refine h.other hu hopen ?_
        rw [weightFor_set, if_neg, Int.add_zero]
        rintro rfl
        rw [ht] at hu
        cases hu
        exact hopen hpaid
      · exact h.votes_set ht
      · exact h.posted
  | @payout id t weights ht hweights =>
      constructor
      · intro other u hu hopen
        rw [Table.find?_set] at hu
        split at hu
        · cases hu
          exact absurd rfl hopen
        · refine h.other hu hopen ?_
          rcases hweights with rfl | rfl
          · exact le_rfl
          · exact weightFor_forget id other p.weights
      · intro key weight hweight
        rcases hweights with rfl | rfl
        · exact h.votes key weight hweight
        · exact h.votes_forget hweight
      · exact h.posted_set ht

/-- Whatever votes follow on each other, the weight of a comment covers those of its votes. -/
theorem Runs.covered (hruns : Runs p q) (h : p.Covered) : q.Covered :=
  hruns.invariant (fun _ _ hstep => hstep.covered) h

end Polls

end Ledger

end Blurt
