import Blurt.Ledger.Lending

/-! # Runs of entries

What every entry keeps, every run of entries keeps: the links, the loans, the idle null
account, the papers, the rewards and the range of the totals. The columns change by the
label of the run.
-/

namespace Blurt

namespace Ledger

theorem Holder.credit_comm (h : Holder) (fund fund' : Fund) (amount amount' : Int) :
    (h.credit fund amount).credit fund' amount' = (h.credit fund' amount').credit fund amount := by
  ext f <;> simp only [credit]
  split <;> split <;> omega

/-- The funds of an account that are shares, or loans of them. -/
def Fund.isStake : Fund → Bool
  | .vestingShares | .delegatedVestingShares | .receivedVestingShares => true
  | _ => false

namespace Books

variable {b b' : Books} {may : AccountName → Prop} {d : Drift}

/-! ## Entries on one account -/

theorem credit_comm (b : Books) (name other : AccountName) (fund fund' : Fund)
    (amount amount' : Int) : (b.credit name fund amount).credit other fund' amount' =
      (b.credit other fund' amount').credit name fund amount := by
  simp only [credit, adjust]
  congr 1
  apply Table.ext_find?
  intro k
  simp only [Table.find?_adjust]
  by_cases hk : k = name <;> by_cases hk' : k = other
  · subst hk
    subst hk'
    cases b.holders.find? k with
    | none => simp
    | some h => simp [h.credit_comm fund fund']
  · simp [hk, ne_of_eq_of_ne hk.symm hk']
  · simp [hk', ne_of_eq_of_ne hk'.symm hk]
  · simp [hk, hk']

@[simp] theorem totals_shiftVotes (account : AccountName) (delta : VoteDelta) (levels : Nat) :
    (b.shiftVotes account delta levels).totals = b.totals := by
  rw [shiftVotes_frame]

theorem find?_credit_some {name : AccountName} {h : Holder} (hh : b.holders.find? name = some h)
    (fund : Fund) (amount : Int) :
    (b.credit name fund amount).holders.find? name = some (h.credit fund amount) := by
  rw [find?_credit, if_pos rfl, hh, Option.map_some]

/-- A change of the totals, as an entry. -/
theorem Step.setTotals (may : AccountName → Prop) {f : Totals → Totals}
    (hregent : (f b.totals).regentVestingShares = b.totals.regentVestingShares)
    (hrange : b.totals.InRange → (f b.totals).InRange) :
    Step may b (b.totals.columns - (f b.totals).columns) (b.setTotals f) :=
  .totals hregent hrange

/-! ## Papers -/

/-- The escrows and the savings withdrawals are ones that an operation has left. -/
structure Papers (b : Books) : Prop where
  escrows : ∀ key e, b.escrows.find? key = some e → e.Sound
  savings : ∀ key w, b.savingsWithdraws.find? key = some w →
    w.amount.symbol = .blurt ∧ 0 ≤ w.amount.amount

theorem Papers.congr {c : Books} (hb : b.Papers) (hescrows : c.escrows = b.escrows)
    (hsavings : c.savingsWithdraws = b.savingsWithdraws) : c.Papers :=
  ⟨hescrows ▸ hb.escrows, hsavings ▸ hb.savings⟩

theorem Papers.shiftVotes (hb : b.Papers) (account : AccountName) (delta : VoteDelta)
    (levels : Nat) : (b.shiftVotes account delta levels).Papers := by
  rw [shiftVotes_frame]
  exact hb.congr rfl rfl

theorem Papers.setEscrow (hb : b.Papers) (key : AccountName × Nat) {e : Escrow}
    (hsound : e.Sound) : (b.setEscrow key e).Papers := by
  refine ⟨fun other f hf => ?_, hb.savings⟩
  rw [Books.setEscrow, Table.find?_set] at hf
  split at hf
  · cases hf
    exact hsound
  · exact hb.escrows other f hf

theorem Step.papers (hstep : Step may b d b') (hb : b.Papers) : b'.Papers := by
  cases hstep with
  | openEscrow _ hsound => exact hb.setEscrow _ hsound
  | setEscrow _ hsound => exact hb.setEscrow _ hsound
  | closeEscrow =>
      refine ⟨fun other f hf => ?_, hb.savings⟩
      rw [Books.closeEscrow, Table.find?_remove] at hf
      split at hf
      · cases hf
      · exact hb.escrows other f hf
  | openSavingsWithdraw _ hblurt hamount =>
      refine ⟨hb.escrows, fun other v hv => ?_⟩
      rw [setSavingsWithdraw, Table.find?_set] at hv
      split at hv
      · cases hv
        exact ⟨hblurt, hamount⟩
      · exact hb.savings other v hv
  | closeSavingsWithdraw =>
      refine ⟨hb.escrows, fun other v hv => ?_⟩
      rw [Books.closeSavingsWithdraw, Table.find?_remove] at hv
      split at hv
      · cases hv
      · exact hb.savings other v hv
  | vest =>
      apply Papers.shiftVotes
      exact hb.congr rfl rfl
  | withdraw =>
      apply Papers.shiftVotes
      exact hb.congr rfl rfl
  | setProxy =>
      apply Papers.shiftVotes
      exact (hb.shiftVotes _ _ _).congr rfl rfl
  | clearProxy => exact (hb.shiftVotes _ _ _).congr rfl rfl
  | decline => exact (hb.shiftVotes _ _ _).congr rfl rfl
  | shrinkRegent =>
      apply Papers.shiftVotes
      exact hb.congr rfl rfl
  | _ => exact hb.congr rfl rfl

/-! ## Wallets -/

/-- The accounts of `c` had the same funds before, but for shares and loans of shares. -/
def KeepsWallets (b c : Books) : Prop :=
  ∀ name k, c.holders.find? name = some k → ∃ h, b.holders.find? name = some h ∧
    ∀ fund, fund.isStake = false → k.funds fund = h.funds fund

theorem KeepsWallets.of_holders {c : Books} (h : c.holders = b.holders) : b.KeepsWallets c :=
  fun _ k hk => ⟨k, h ▸ hk, fun _ _ => rfl⟩

theorem KeepsWallets.trans {c e : Books} (hc : b.KeepsWallets c) (he : c.KeepsWallets e) :
    b.KeepsWallets e := by
  intro name l hl
  obtain ⟨k, hk, hsame⟩ := he name l hl
  obtain ⟨h, hh, hsame'⟩ := hc name k hk
  exact ⟨h, hh, fun fund hfund => (hsame fund hfund).trans (hsame' fund hfund)⟩

theorem keepsWallets_adjust (other : AccountName) {f : Holder → Holder}
    (hf : ∀ h fund, fund.isStake = false → (f h).funds fund = h.funds fund) :
    b.KeepsWallets (b.adjust other f) := by
  intro name k hk
  rw [find?_adjust] at hk
  split at hk
  · obtain ⟨h, hh, rfl⟩ := Option.map_eq_some_iff.mp hk
    exact ⟨h, hh, hf h⟩
  · exact ⟨k, hk, fun _ _ => rfl⟩

theorem keepsWallets_credit (other : AccountName) {fund : Fund} (amount : Int)
    (hstake : fund.isStake) : b.KeepsWallets (b.credit other fund amount) :=
  keepsWallets_adjust other fun h f hf => by
    rw [Holder.credit_funds, if_neg]
    rintro rfl
    rw [hstake] at hf
    cases hf

theorem keepsWallets_shiftVotes (account : AccountName) (delta : VoteDelta) (levels : Nat) :
    b.KeepsWallets (b.shiftVotes account delta levels) := by
  intro name k hk
  obtain ⟨votes, hvotes⟩ := find?_shiftVotes (b := b) name account delta levels
  rw [hvotes] at hk
  obtain ⟨h, hh, rfl⟩ := Option.map_eq_some_iff.mp hk
  exact ⟨h, hh, fun _ _ => rfl⟩

/-- Only three kinds of entries change the wallet of an account. -/
theorem Step.wallets (hstep : Step may b d b') :
    (∃ name fund amount h, b.holders.find? name = some h ∧ fund.isLiquid ∧
        (0 ≤ amount ∨ 0 ≤ h.funds fund + amount) ∧ b' = b.credit name fund amount) ∨
      (∃ name blurt shares h, b.holders.find? name = some h ∧
        0 ≤ h.funds .rewardVestingBlurt + blurt ∧ 0 ≤ h.funds .rewardVestingBalance + shares ∧
        InInt64 (h.funds .rewardVestingBalance + shares) ∧
        b' = (b.credit name .rewardVestingBlurt blurt).credit name .rewardVestingBalance shares) ∨
      (∃ name auth, b' = b.openAccount name auth) ∨ b.KeepsWallets b' := by
  have hshift := fun (c : Books) => c.keepsWallets_shiftVotes
  cases hstep with
  | credit hh hfund hsafe => exact .inl ⟨_, _, _, _, hh, hfund, hsafe, rfl⟩
  | rewardShares hh hblurt hshares hrange =>
      exact .inr (.inl ⟨_, _, _, _, hh, hblurt, hshares, hrange, rfl⟩)
  | openAccount => exact .inr (.inr (.inl ⟨_, _, rfl⟩))
  | vest =>
      refine .inr (.inr (.inr (.trans ?_ (hshift _ _ _ _))))
      exact keepsWallets_credit _ _ rfl
  | setPowerDown => exact .inr (.inr (.inr (keepsWallets_adjust _ fun _ _ _ => rfl)))
  | withdraw =>
      refine .inr (.inr (.inr (.trans ?_ (hshift _ _ _ _))))
      refine .trans ?_ (keepsWallets_credit _ _ rfl)
      exact keepsWallets_adjust _ fun _ _ _ => rfl
  | lend =>
      refine .inr (.inr (.inr (.trans ?_ (keepsWallets_credit _ _ rfl))))
      refine .trans ?_ (keepsWallets_credit _ _ rfl)
      exact .of_holders rfl
  | @giveBack delegator delegatee old amount k delegations =>
      have hcredit : (b.openReturn delegator amount).KeepsWallets
          ((b.openReturn delegator amount).credit delegatee .receivedVestingShares (-amount)) :=
        keepsWallets_credit _ _ rfl
      exact .inr (.inr (.inr (.trans hcredit (.of_holders rfl))))
  | @closeReturn id delegator amount =>
      have hcredit : b.KeepsWallets (b.credit delegator .delegatedVestingShares (-amount)) :=
        keepsWallets_credit _ _ rfl
      exact .inr (.inr (.inr (.trans hcredit (.of_holders rfl))))
  | setProxy =>
      refine .inr (.inr (.inr (.trans ?_ (hshift _ _ _ _))))
      refine .trans ?_ (keepsWallets_adjust _ fun _ _ _ => rfl)
      exact .trans (hshift _ _ _ _) (.of_holders rfl)
  | clearProxy =>
      refine .inr (.inr (.inr (.trans ?_ (keepsWallets_adjust _ fun _ _ _ => rfl))))
      exact hshift _ _ _ _
  | decline =>
      refine .inr (.inr (.inr (.trans ?_ (keepsWallets_adjust _ fun _ _ _ => rfl))))
      exact .trans (hshift _ _ _ _) (.of_holders rfl)
  | burnShares => exact .inr (.inr (.inr (keepsWallets_credit _ _ rfl)))
  | shrinkRegent =>
      refine .inr (.inr (.inr (.trans ?_ (hshift _ _ _ _))))
      exact .of_holders rfl
  | _ => exact .inr (.inr (.inr (.of_holders rfl)))

/-- No account owes liquid. -/
def Solvent (b : Books) : Prop :=
  ∀ name h, b.holders.find? name = some h → ∀ fund, fund.isLiquid → 0 ≤ h.funds fund

/-- No account owes rewards, and those in shares fit an `int64_t`. -/
def Rewards (b : Books) : Prop :=
  ∀ name h, b.holders.find? name = some h → 0 ≤ h.funds .rewardVestingBlurt ∧
    0 ≤ h.funds .rewardVestingBalance ∧ InInt64 (h.funds .rewardVestingBalance)

theorem find?_openAccount {name other : AccountName} {auth : AccountAuthority} {k : Holder}
    (hk : (b.openAccount name auth).holders.find? other = some k) :
    k = .opened ∨ b.holders.find? other = some k := by
  rw [Books.openAccount, Table.find?_set] at hk
  split at hk
  · cases hk
    exact .inl rfl
  · exact .inr hk

theorem Step.solvent (hstep : Step may b d b') (hb : b.Solvent) : b'.Solvent := by
  obtain ⟨name, fund, amount, h, hh, -, hsafe, rfl⟩ | ⟨name, blurt, shares, h, hh, -, -, -, rfl⟩ |
    ⟨name, auth, rfl⟩ | hkeeps := hstep.wallets
  · intro other k hk f hf
    rw [find?_credit] at hk
    split at hk
    · rename_i hother
      rw [hother, hh] at hk
      cases hk
      have howed := hb name h hh f hf
      rw [Holder.credit_funds]
      split
      · rename_i hfund
        subst hfund
        omega
      · exact howed
    · exact hb other k hk f hf
  · intro other k hk f hf
    rw [find?_credit, find?_credit] at hk
    split at hk
    · rename_i hother
      rw [hother, hh] at hk
      cases hk
      rw [Holder.credit_funds, Holder.credit_funds, if_neg, if_neg]
      · exact hb name h hh f hf
      · rintro rfl
        cases hf
      · rintro rfl
        cases hf
    · exact hb other k hk f hf
  · intro other k hk f hf
    obtain rfl | hk := find?_openAccount hk
    · cases f <;> exact le_rfl
    · exact hb other k hk f hf
  · intro name k hk f hf
    obtain ⟨h, hh, hsame⟩ := hkeeps name k hk
    rw [hsame f (by cases f <;> first | rfl | cases hf)]
    exact hb name h hh f hf

theorem Step.rewards (hstep : Step may b d b') (hb : b.Rewards) : b'.Rewards := by
  obtain ⟨name, fund, amount, h, hh, hliquid, -, rfl⟩ |
    ⟨name, blurt, shares, h, hh, hblurt, hshares, hrange, rfl⟩ | ⟨name, auth, rfl⟩ | hkeeps :=
      hstep.wallets
  · intro other k hk
    rw [find?_credit] at hk
    split at hk
    · obtain ⟨g, hg, rfl⟩ := Option.map_eq_some_iff.mp hk
      rw [Holder.credit_funds, Holder.credit_funds, if_neg, if_neg]
      · exact hb other g hg
      · rintro rfl
        cases hliquid
      · rintro rfl
        cases hliquid
    · exact hb other k hk
  · intro other k hk
    rw [find?_credit, find?_credit] at hk
    split at hk
    · rename_i hother
      rw [hother, hh] at hk
      cases hk
      simpa [Holder.credit_funds] using ⟨hblurt, hshares, hrange⟩
    · exact hb other k hk
  · intro other k hk
    obtain rfl | hk := find?_openAccount hk
    · exact ⟨le_rfl, le_rfl, by decide⟩
    · exact hb other k hk
  · intro name k hk
    obtain ⟨h, hh, hsame⟩ := hkeeps name k hk
    rw [hsame .rewardVestingBlurt rfl, hsame .rewardVestingBalance rfl]
    exact hb name h hh

/-! ## Runs -/

/-- What every run of entries keeps. -/
structure Upheld (b : Books) : Prop where
  proxies : b.Proxies
  lending : b.Lending
  null : b.NullIdle
  papers : b.Papers
  solvent : b.Solvent
  rewards : b.Rewards
  range : b.totals.InRange

theorem Step.range (hstep : Step may b d b') (hb : b.totals.InRange) : b'.totals.InRange := by
  cases hstep with
  | totals _ hrange => exact hrange hb
  | vest => rwa [totals_shiftVotes]
  | withdraw => rwa [totals_shiftVotes]
  | setProxy => rwa [totals_shiftVotes, Books.setProxy, Books.clearVotes, adjust, totals_shiftVotes]
  | clearProxy => rwa [Books.setProxy, adjust, totals_shiftVotes]
  | decline => rwa [Books.decline, Books.clearVotes, adjust, totals_shiftVotes]
  | shrinkRegent =>
      rw [totals_shiftVotes]
      exact ⟨hb.fund, hb.shares⟩
  | _ => exact hb

theorem Step.upheld (hstep : Step may b d b') (hb : b.Upheld) : b'.Upheld where
  proxies := hstep.proxies hb.proxies
  lending := hstep.lending hb.lending hb.null
  null := hstep.nullIdle hb.null
  papers := hstep.papers hb.papers
  solvent := hstep.solvent hb.solvent
  rewards := hstep.rewards hb.rewards
  range := hstep.range hb.range

theorem Upheld.run (hb : b.Upheld) (h : Run (Step may) b d b') : b'.Upheld :=
  h.invariant Upheld (fun _ _ _ hs hstep => hstep.upheld hs) hb

/-- A run changes the columns by its label. -/
theorem Upheld.drift_run (hb : b.Upheld) (h : Run (Step may) b d b') : b'.drift = b.drift + d :=
  h.measure drift Upheld (fun _ _ _ hs hstep => hstep.upheld hs)
    (fun _ _ _ hs hstep => hstep.drift hs.proxies) hb

/-- The books before an operation. Its evaluator relies on the sum of all shares as well. -/
structure Sound (b : Books) : Prop extends Upheld b where
  shares : b.drift .vesting = 0

/-- A run that leaves the column of the shares as it was. -/
theorem Sound.run (hb : b.Sound) (h : Run (Step may) b d b') (hd : d .vesting = 0) : b'.Sound := by
  refine ⟨hb.toUpheld.run h, ?_⟩
  rw [hb.drift_run h, Pi.add_apply, hb.shares, hd, add_zero]

/-- The shares of all accounts are the total. -/
theorem Sound.sum_shares (hb : b.Sound) :
    (b.holders.sum fun _ h => h.funds .vestingShares) = b.totals.totalVestingShares := by
  have hdrift := hb.shares
  simp only [drift, Holder.columns, Totals.columns, Drift.of] at hdrift
  omega

theorem delegated_nonneg (hb : b.Lending) {name : AccountName} {h : Holder}
    (hh : b.holders.find? name = some h) : 0 ≤ h.funds .delegatedVestingShares := by
  rw [hb.delegated name h hh]
  exact add_nonneg (lent_nonneg hb name) (returning_nonneg hb name)

/-- No account has more shares than there are. -/
theorem Sound.shares_le (hb : b.Sound) {name : AccountName} {h : Holder}
    (hh : b.holders.find? name = some h) :
    h.funds .vestingShares ≤ b.totals.totalVestingShares := by
  have hle := shares_add_borrowed_le hb.lending hh
  have hborrowed := borrowed_nonneg hb.lending name
  rw [hb.sum_shares] at hle
  omega

/-- What an account has and is lent fits an `int64_t`. -/
theorem Sound.shares_add_received (hb : b.Sound) {name : AccountName} {h : Holder}
    (hh : b.holders.find? name = some h) : 0 ≤ h.funds .receivedVestingShares ∧
      h.funds .vestingShares + h.funds .receivedVestingShares < 2 ^ 63 := by
  have hborrowed := hb.lending.received name h hh
  have hnonneg := borrowed_nonneg hb.lending name
  have hle := shares_add_borrowed_le hb.lending hh
  have hrange := hb.range.shares.2
  rw [hb.sum_shares] at hle
  rw [hborrowed]
  omega

end Books

/-- A run of entries from the books of one database to the books of another. -/
abbrev Database.Enters (may : AccountName → Prop) (db : Database) (d : Drift) (db' : Database) :
    Prop :=
  Run (Books.Step may) db.books d db'.books

namespace Database

variable {may : AccountName → Prop} {db db' : Database} {d : Drift}

theorem Enters.refl (db : Database) : Enters may db 0 db := Run.refl _

/-- A change that is not seen in the books. -/
theorem Enters.of_eq (h : db'.books = db.books) : Enters may db 0 db' := by
  rw [Enters, h]
  exact Run.refl _

/-- What follows a run that balances. -/
theorem Enters.append {db'' : Database} (h : Enters may db 0 db') (h' : Enters may db' d db'') :
    Enters may db d db'' :=
  (h.trans h').relabel (zero_add d)

/-- What one entry takes from a fund, the next one puts elsewhere. -/
theorem Enters.move {middle : Database} {amount back : Int}
    (hout : Books.Step may db.books (.of back 0 0 0 0) middle.books)
    (hin : Books.Step may middle.books (.of amount 0 0 0 0) db'.books) (hback : back = -amount) :
    Enters may db 0 db' := by
  refine ((Run.single hout).tail hin).relabel ?_
  rw [Drift.of_add, hback]
  simp

end Database

end Ledger

end Blurt
