import Blurt.Ledger.ProxyLinks

/-! # The books of lent shares

What an account has lent is in its delegations and in the returns of closed ones, and what
is left covers the rest of its power-down. The null account lends nothing and powers
nothing down, so its shares can be destroyed.
-/

namespace Blurt

namespace Ledger

namespace PowerDown

theorem Within.mono {p : PowerDown} {available available' : Int} (h : p.Within available)
    (hle : available ≤ available') : p.Within available' := by
  refine ⟨h.nonneg.trans hle, h.due, fun hactive => ?_⟩
  obtain ⟨hrate, hwithdrawn, hleft, hdvd, hcovered⟩ := h.covered hactive
  exact ⟨hrate, hwithdrawn, hleft, hdvd, hcovered.trans hle⟩

/-- A power-down that is not active only needs that no more is lent than there is. -/
theorem Within.of_inactive {p : PowerDown} {available : Int} (havailable : 0 ≤ available)
    (hinactive : p.nextVestingWithdrawal = maximumTime) : p.Within available :=
  ⟨havailable, hinactive.le, fun hactive => absurd hinactive hactive⟩

end PowerDown

namespace Books

variable {b b' c : Books} {may : AccountName → Prop} {d : Drift} {name : AccountName}

/-! ## Sums of loans -/

/-- What an account lends in its delegations. -/
def lent (b : Books) (name : AccountName) : Int :=
  b.delegations.sum fun key shares => if key.1 = name then shares else 0

/-- What is on its way back to an account. -/
def returning (b : Books) (name : AccountName) : Int :=
  b.returns.sum fun _ row => if row.1 = name then row.2 else 0

/-- What an account is lent. -/
def borrowed (b : Books) (name : AccountName) : Int :=
  b.delegations.sum fun key shares => if key.2 = name then shares else 0

structure Lending (b : Books) : Prop where
  delegated : ∀ name h, b.holders.find? name = some h →
    h.funds .delegatedVestingShares = b.lent name + b.returning name
  received : ∀ name h, b.holders.find? name = some h →
    h.funds .receivedVestingShares = b.borrowed name
  within : ∀ name h, b.holders.find? name = some h → h.powerDown.Within h.unlent
  loans : ∀ delegator delegatee shares, b.delegations.find? (delegator, delegatee) = some shares →
    0 ≤ shares ∧ delegator ≠ delegatee ∧ (b.holders.find? delegator).isSome ∧
      (b.holders.find? delegatee).isSome
  returns : ∀ id delegator shares, b.returns.find? id = some (delegator, shares) →
    0 ≤ shares ∧ (b.holders.find? delegator).isSome
  nextReturn : ∀ id, b.nextReturn ≤ id → b.returns.find? id = none

/-- The null account lends nothing and votes for nobody, and nobody can act for it. -/
structure NullPapers (b : Books) : Prop where
  loans : ∀ delegatee, b.delegations.find? (blurtNullAccount, delegatee) = none
  returns : ∀ id row, b.returns.find? id = some row → row.1 ≠ blurtNullAccount
  votes : ∀ witness, b.witnessVotes.find? (blurtNullAccount, witness) = none
  authority : ∀ auth, b.authorities.find? blurtNullAccount = some auth →
    auth.owner.isImpossible ∧ auth.active.isImpossible ∧ auth.posting.isImpossible
  history : ∀ id hist, b.ownerHistory.find? id = some hist → hist.account ≠ blurtNullAccount

/-- The null account does nothing. -/
structure NullIdle (b : Books) : Prop where
  exist : (b.holders.find? blurtNullAccount).isSome
  proxy : b.link blurtNullAccount = none
  powerDown : ∀ h, b.holders.find? blurtNullAccount = some h →
    h.powerDown.nextVestingWithdrawal = maximumTime
  papers : b.NullPapers

end Books

/-- The same loans and power-down, and at least as many shares. -/
structure Holder.SameLoans (h k : Holder) : Prop where
  delegated : k.funds .delegatedVestingShares = h.funds .delegatedVestingShares
  received : k.funds .receivedVestingShares = h.funds .receivedVestingShares
  powerDown : k.powerDown = h.powerDown
  shares : h.funds .vestingShares ≤ k.funds .vestingShares

theorem Holder.SameLoans.refl (h : Holder) : h.SameLoans h := ⟨rfl, rfl, rfl, le_rfl⟩

theorem Holder.SameLoans.trans {h k l : Holder} (hk : h.SameLoans k) (hl : k.SameLoans l) :
    h.SameLoans l :=
  ⟨hl.delegated.trans hk.delegated, hl.received.trans hk.received,
    hl.powerDown.trans hk.powerDown, hk.shares.trans hl.shares⟩

theorem Holder.sameLoans_credit (h : Holder) {fund : Fund} {amount : Int}
    (hdelegated : fund ≠ .delegatedVestingShares) (hreceived : fund ≠ .receivedVestingShares)
    (hshares : fund = .vestingShares → 0 ≤ amount) : h.SameLoans (h.credit fund amount) := by
  refine ⟨?_, ?_, rfl, ?_⟩
  · rw [credit_funds, if_neg hdelegated.symm]
  · rw [credit_funds, if_neg hreceived.symm]
  · rw [credit_funds]
    split
    · rename_i hfund
      have hamount := hshares hfund.symm
      omega
    · rfl

namespace Books

variable {b b' c : Books} {may : AccountName → Prop} {d : Drift} {name : AccountName}

/-! ## Entries that change no loan -/

/-- The same loans, and no account has less shares or another power-down. -/
structure SameLoans (b c : Books) : Prop where
  delegations : c.delegations = b.delegations
  returns : c.returns = b.returns
  nextReturn : c.nextReturn = b.nextReturn
  rows : ∀ name k, c.holders.find? name = some k →
    ∃ h, b.holders.find? name = some h ∧ h.SameLoans k
  stay : ∀ name, (b.holders.find? name).isSome → (c.holders.find? name).isSome

theorem SameLoans.of_holders (hholders : c.holders = b.holders)
    (hdelegations : c.delegations = b.delegations) (hreturns : c.returns = b.returns)
    (hnext : c.nextReturn = b.nextReturn) : b.SameLoans c :=
  ⟨hdelegations, hreturns, hnext, fun _ k hk => ⟨k, hholders ▸ hk, .refl k⟩,
    fun _ h => hholders ▸ h⟩

theorem SameLoans.trans {e : Books} (hc : b.SameLoans c) (he : c.SameLoans e) : b.SameLoans e := by
  refine ⟨he.delegations.trans hc.delegations, he.returns.trans hc.returns,
    he.nextReturn.trans hc.nextReturn, fun name l hl => ?_, fun name h => he.stay _ (hc.stay _ h)⟩
  obtain ⟨k, hk, hkl⟩ := he.rows name l hl
  obtain ⟨h, hh, hhk⟩ := hc.rows name k hk
  exact ⟨h, hh, hhk.trans hkl⟩

theorem sameLoans_adjust {f : Holder → Holder} (hf : ∀ h, Holder.SameLoans h (f h)) :
    b.SameLoans (b.adjust name f) := by
  refine ⟨rfl, rfl, rfl, fun other k hk => ?_, fun other h => by rwa [isSome_adjust]⟩
  rw [find?_adjust] at hk
  split at hk
  · obtain ⟨h, hh, rfl⟩ := Option.map_eq_some_iff.mp hk
    exact ⟨h, hh, hf h⟩
  · exact ⟨k, hk, .refl k⟩

theorem sameLoans_credit {fund : Fund} {amount : Int} (hdelegated : fund ≠ .delegatedVestingShares)
    (hreceived : fund ≠ .receivedVestingShares) (hshares : fund = .vestingShares → 0 ≤ amount) :
    b.SameLoans (b.credit name fund amount) :=
  sameLoans_adjust fun h => h.sameLoans_credit hdelegated hreceived hshares

theorem sameLoans_shiftVotes (delta : VoteDelta) (levels : Nat) :
    b.SameLoans (b.shiftVotes name delta levels) := by
  refine ⟨by rw [shiftVotes_frame], by rw [shiftVotes_frame], by rw [shiftVotes_frame],
    fun other k hk => ?_, fun other h => by rwa [isSome_shiftVotes]⟩
  obtain ⟨votes, hvotes⟩ := find?_shiftVotes (b := b) other name delta levels
  rw [hvotes] at hk
  obtain ⟨h, hh, rfl⟩ := Option.map_eq_some_iff.mp hk
  exact ⟨h, hh, rfl, rfl, rfl, le_rfl⟩

theorem sameLoans_clearVotes : b.SameLoans (b.clearVotes name) :=
  .of_holders rfl rfl rfl rfl

theorem sameLoans_setProxy {proxy : AccountName} : b.SameLoans (b.setProxy name proxy) :=
  sameLoans_adjust fun _ => ⟨rfl, rfl, rfl, le_rfl⟩

theorem Lending.of_sameLoans (hb : b.Lending) (hsame : b.SameLoans c) : c.Lending := by
  have hlent : ∀ name, c.lent name = b.lent name := fun name => by rw [lent, lent, hsame.delegations]
  have hborrowed : ∀ name, c.borrowed name = b.borrowed name := fun name => by
    rw [borrowed, borrowed, hsame.delegations]
  have hreturning : ∀ name, c.returning name = b.returning name := fun name => by
    rw [returning, returning, hsame.returns]
  constructor
  case delegated =>
    intro name k hk
    obtain ⟨h, hh, hhk⟩ := hsame.rows name k hk
    rw [hhk.delegated, hlent, hreturning, hb.delegated name h hh]
  case received =>
    intro name k hk
    obtain ⟨h, hh, hhk⟩ := hsame.rows name k hk
    rw [hhk.received, hborrowed, hb.received name h hh]
  case within =>
    intro name k hk
    obtain ⟨h, hh, hhk⟩ := hsame.rows name k hk
    rw [hhk.powerDown]
    apply (hb.within name h hh).mono
    have hdelegated := hhk.delegated
    have hshares := hhk.shares
    unfold Holder.unlent
    omega
  case loans =>
    intro delegator delegatee shares hfound
    rw [hsame.delegations] at hfound
    obtain ⟨hshares, hother, hdelegator, hdelegatee⟩ := hb.loans _ _ _ hfound
    exact ⟨hshares, hother, hsame.stay _ hdelegator, hsame.stay _ hdelegatee⟩
  case returns =>
    intro id delegator shares hfound
    rw [hsame.returns] at hfound
    exact ⟨(hb.returns _ _ _ hfound).1, hsame.stay _ (hb.returns _ _ _ hfound).2⟩
  case nextReturn =>
    rw [hsame.nextReturn, hsame.returns]
    exact hb.nextReturn

/-! ## The other entries -/

theorem lent_eq_zero (hb : b.Lending) (hnew : b.holders.find? name = none) : b.lent name = 0 := by
  rw [lent, Table.sum_congr (g := fun _ _ => 0)]
  · simp [Table.sum]
  · rintro ⟨delegator, delegatee⟩ shares hfound
    rw [if_neg]
    rintro rfl
    have hdelegator := (hb.loans _ _ _ hfound).2.2.1
    rw [hnew] at hdelegator
    cases hdelegator

theorem borrowed_eq_zero (hb : b.Lending) (hnew : b.holders.find? name = none) :
    b.borrowed name = 0 := by
  rw [borrowed, Table.sum_congr (g := fun _ _ => 0)]
  · simp [Table.sum]
  · rintro ⟨delegator, delegatee⟩ shares hfound
    rw [if_neg]
    rintro rfl
    have hdelegatee := (hb.loans _ _ _ hfound).2.2.2
    rw [hnew] at hdelegatee
    cases hdelegatee

theorem returning_eq_zero (hb : b.Lending) (hnew : b.holders.find? name = none) :
    b.returning name = 0 := by
  rw [returning, Table.sum_congr (g := fun _ _ => 0)]
  · simp [Table.sum]
  · rintro id ⟨delegator, shares⟩ hfound
    rw [if_neg]
    rintro rfl
    have hdelegator := (hb.returns _ _ _ hfound).2
    rw [hnew] at hdelegator
    cases hdelegator

theorem Lending.openAccount (hb : b.Lending) {auth : AccountAuthority}
    (hnew : b.holders.find? name = none) : (b.openAccount name auth).Lending := by
  have hrows : ∀ other k, (b.openAccount name auth).holders.find? other = some k →
      other = name ∧ k = .opened ∨ b.holders.find? other = some k := by
    intro other k hk
    rw [Books.openAccount, Table.find?_set] at hk
    split at hk
    · rename_i hother
      cases hk
      exact .inl ⟨hother, rfl⟩
    · exact .inr hk
  have hstay : ∀ other, (b.holders.find? other).isSome →
      ((b.openAccount name auth).holders.find? other).isSome := by
    intro other hother
    rw [Books.openAccount, Table.find?_set]
    split
    · rfl
    · exact hother
  constructor
  case delegated =>
    intro other k hk
    rcases hrows other k hk with ⟨rfl, rfl⟩ | hk
    · have hlent := lent_eq_zero hb hnew
      have hreturning := returning_eq_zero hb hnew
      change (0 : Int) = b.lent other + b.returning other
      omega
    · exact hb.delegated other k hk
  case received =>
    intro other k hk
    rcases hrows other k hk with ⟨rfl, rfl⟩ | hk
    · exact (borrowed_eq_zero hb hnew).symm
    · exact hb.received other k hk
  case within =>
    intro other k hk
    rcases hrows other k hk with ⟨rfl, rfl⟩ | hk
    · exact .of_inactive le_rfl rfl
    · exact hb.within other k hk
  case loans =>
    intro delegator delegatee shares hfound
    obtain ⟨hshares, hother, hdelegator, hdelegatee⟩ := hb.loans _ _ _ hfound
    exact ⟨hshares, hother, hstay _ hdelegator, hstay _ hdelegatee⟩
  case returns =>
    intro id delegator shares hfound
    exact ⟨(hb.returns _ _ _ hfound).1, hstay _ (hb.returns _ _ _ hfound).2⟩
  case nextReturn => exact hb.nextReturn

/-- A change of the shares or of the power-down of one account. -/
theorem Lending.adjust (hb : b.Lending) {h : Holder} (hh : b.holders.find? name = some h)
    {f : Holder → Holder}
    (hdelegated : (f h).funds .delegatedVestingShares = h.funds .delegatedVestingShares)
    (hreceived : (f h).funds .receivedVestingShares = h.funds .receivedVestingShares)
    (hwithin : (f h).powerDown.Within (f h).unlent) : (b.adjust name f).Lending := by
  have hrows : ∀ other k, (b.adjust name f).holders.find? other = some k →
      other = name ∧ k = f h ∨ b.holders.find? other = some k := by
    intro other k hk
    rw [find?_adjust] at hk
    split at hk
    · rename_i hother
      rw [hother, hh, Option.map_some] at hk
      cases hk
      exact .inl ⟨hother, rfl⟩
    · exact .inr hk
  constructor
  case delegated =>
    intro other k hk
    rcases hrows other k hk with ⟨rfl, rfl⟩ | hk
    · exact hdelegated.trans (hb.delegated other h hh)
    · exact hb.delegated other k hk
  case received =>
    intro other k hk
    rcases hrows other k hk with ⟨rfl, rfl⟩ | hk
    · exact hreceived.trans (hb.received other h hh)
    · exact hb.received other k hk
  case within =>
    intro other k hk
    rcases hrows other k hk with ⟨rfl, rfl⟩ | hk
    · exact hwithin
    · exact hb.within other k hk
  case loans =>
    intro delegator delegatee shares hfound
    rw [isSome_adjust, isSome_adjust]
    exact hb.loans _ _ _ hfound
  case returns =>
    intro id delegator shares hfound
    rw [isSome_adjust]
    exact hb.returns _ _ _ hfound
  case nextReturn => exact hb.nextReturn

/-- What a change of one delegation does to a sum of loans. -/
theorem sum_setDelegation (key : AccountName × AccountName) (shares : Int)
    (chosen : AccountName × AccountName → Bool) :
    (b.delegations.set key shares).sum (fun key shares => if chosen key then shares else 0) =
      b.delegations.sum (fun key shares => if chosen key then shares else 0) +
        if chosen key then shares - (b.delegations.find? key).getD 0 else 0 := by
  rw [Table.sum_set, Table.share]
  cases b.delegations.find? key <;> split <;> simp [*]

theorem sum_closeDelegation (key : AccountName × AccountName)
    (chosen : AccountName × AccountName → Bool) :
    (b.delegations.remove key).sum (fun key shares => if chosen key then shares else 0) =
      b.delegations.sum (fun key shares => if chosen key then shares else 0) -
        if chosen key then (b.delegations.find? key).getD 0 else 0 := by
  rw [Table.sum_remove, Table.share]
  cases b.delegations.find? key <;> split <;> simp [*]

/-- More is lent than before, out of what is not needed for the power-down. -/
theorem Lending.lend (hb : b.Lending) {delegator delegatee : AccountName} {amount : Int}
    {h k : Holder} (hh : b.holders.find? delegator = some h)
    (hk : b.holders.find? delegatee = some k) (hother : delegator ≠ delegatee) (hamount : 0 ≤ amount)
    (hwithin : h.powerDown.Within (h.unlent - amount)) :
    (((b.setDelegation (delegator, delegatee)
      ((b.delegations.find? (delegator, delegatee)).getD 0 + amount)).credit delegator
        .delegatedVestingShares amount).credit delegatee .receivedVestingShares amount).Lending := by
  have hsum := b.sum_setDelegation (delegator, delegatee)
    ((b.delegations.find? (delegator, delegatee)).getD 0 + amount)
  simp only [add_sub_cancel_left] at hsum
  have hrow : ∀ other, (((b.setDelegation (delegator, delegatee)
      ((b.delegations.find? (delegator, delegatee)).getD 0 + amount)).credit delegator
        .delegatedVestingShares amount).credit delegatee .receivedVestingShares
          amount).holders.find? other =
      if other = delegatee then some (k.credit .receivedVestingShares amount)
      else if other = delegator then some (h.credit .delegatedVestingShares amount)
      else b.holders.find? other := by
    intro other
    rw [find?_credit, find?_credit]
    by_cases hdelegatee : other = delegatee
    · subst hdelegatee
      rw [if_pos rfl, if_pos rfl, if_neg hother.symm]
      exact congrArg (Option.map _) hk
    · rw [if_neg hdelegatee, if_neg hdelegatee]
      split
      · rename_i hdelegator
        subst hdelegator
        exact congrArg (Option.map _) hh
      · rfl
  constructor
  case delegated =>
    intro other l hl
    have hlent := hsum fun key => key.1 = other
    simp only [decide_eq_true_eq] at hlent
    change _ = (b.delegations.set _ _).sum _ + b.returning other
    rw [hlent]
    rw [hrow] at hl
    split at hl
    · rename_i hdelegatee
      cases hl
      have hold := hb.delegated other k (hdelegatee ▸ hk)
      rw [if_neg (fun heq => hother (heq.trans hdelegatee)), add_zero]
      exact hold
    · split at hl
      · rename_i hdelegator
        cases hl
        have hold := hb.delegated other h (hdelegator ▸ hh)
        rw [if_pos hdelegator.symm, Holder.credit_funds, if_pos rfl, hold, lent]
        omega
      · rename_i hdelegator
        rw [if_neg (Ne.symm hdelegator), add_zero]
        exact hb.delegated other l hl
  case received =>
    intro other l hl
    have hborrowed := hsum fun key => key.2 = other
    simp only [decide_eq_true_eq] at hborrowed
    change _ = (b.delegations.set _ _).sum _
    rw [hborrowed]
    rw [hrow] at hl
    split at hl
    · rename_i hdelegatee
      cases hl
      have hold := hb.received other k (hdelegatee ▸ hk)
      rw [if_pos hdelegatee.symm, Holder.credit_funds, if_pos rfl, hold, borrowed]
    · rename_i hdelegatee
      rw [if_neg (Ne.symm hdelegatee), add_zero]
      split at hl
      · rename_i hdelegator
        cases hl
        exact hb.received other h (hdelegator ▸ hh)
      · exact hb.received other l hl
  case within =>
    intro other l hl
    rw [hrow] at hl
    split at hl
    · rename_i hdelegatee
      cases hl
      exact hb.within other k (hdelegatee ▸ hk)
    · split at hl
      · cases hl
        have hunlent : (h.credit .delegatedVestingShares amount).unlent = h.unlent - amount := by
          simp [Holder.unlent, Holder.credit]
          omega
        rw [hunlent]
        exact hwithin
      · exact hb.within other l hl
  case loans =>
    intro x y shares hfound
    rw [Books.credit, isSome_adjust, isSome_adjust, Books.credit, isSome_adjust, isSome_adjust]
    change (b.delegations.set _ _).find? (x, y) = some shares at hfound
    rw [Table.find?_set] at hfound
    split at hfound
    · rename_i hkey
      obtain ⟨rfl, rfl⟩ := Prod.mk.injEq .. ▸ hkey
      cases hfound
      refine ⟨?_, hother, by rw [setDelegation, hh]; rfl, by rw [setDelegation, hk]; rfl⟩
      cases hold : b.delegations.find? (x, y) with
      | none => simpa using hamount
      | some old =>
          have hnonneg := (hb.loans x y old hold).1
          simp only [Option.getD_some]
          omega
    · exact hb.loans x y shares hfound
  case returns =>
    intro id x shares hfound
    rw [Books.credit, isSome_adjust, Books.credit, isSome_adjust]
    exact hb.returns id x shares hfound
  case nextReturn => exact hb.nextReturn

theorem returning_openReturn (hb : b.Lending) (delegator : AccountName) (amount : Int)
    (other : AccountName) : (b.openReturn delegator amount).returning other =
      b.returning other + if delegator = other then amount else 0 := by
  have hnew := hb.nextReturn b.nextReturn le_rfl
  rw [returning, openReturn, Table.sum_set, Table.share_of_absent hnew, sub_zero, returning]

/-- Less is lent than before; the rest is returned later. -/
theorem Lending.giveBack (hb : b.Lending) {delegator delegatee : AccountName} {old amount : Int}
    {k : Holder} {delegations : Table (AccountName × AccountName) Int}
    (hold : b.delegations.find? (delegator, delegatee) = some old)
    (hk : b.holders.find? delegatee = some k) (hamount : 0 ≤ amount) (hrest : amount ≤ old)
    (hleft : delegations = b.delegations.set (delegator, delegatee) (old - amount) ∨
      old = amount ∧ delegations = b.delegations.remove (delegator, delegatee)) :
    Lending { (b.openReturn delegator amount).credit delegatee .receivedVestingShares
      (-amount) with delegations } := by
  obtain ⟨hnonneg, hother, hdelegator, hdelegatee⟩ := hb.loans _ _ _ hold
  have hsum : ∀ chosen : AccountName × AccountName → Bool,
      delegations.sum (fun key shares => if chosen key then shares else 0) =
        b.delegations.sum (fun key shares => if chosen key then shares else 0) +
          if chosen (delegator, delegatee) then -amount else 0 := by
    intro chosen
    rcases hleft with rfl | ⟨rfl, rfl⟩
    · rw [sum_setDelegation, hold, Option.getD_some]
      split <;> omega
    · rw [sum_closeDelegation, hold, Option.getD_some]
      split <;> omega
  have hfind : ∀ key shares, delegations.find? key = some shares →
      key = (delegator, delegatee) ∧ shares = old - amount ∨
        b.delegations.find? key = some shares := by
    intro key shares hfound
    rcases hleft with rfl | ⟨-, rfl⟩
    · rw [Table.find?_set] at hfound
      split at hfound
      · rename_i hkey
        cases hfound
        exact .inl ⟨hkey, rfl⟩
      · exact .inr hfound
    · rw [Table.find?_remove] at hfound
      split at hfound
      · cases hfound
      · exact .inr hfound
  have hreturning := returning_openReturn hb delegator amount
  have hrow : ∀ other, ((b.openReturn delegator amount).credit delegatee .receivedVestingShares
      (-amount)).holders.find? other =
        if other = delegatee then some (k.credit .receivedVestingShares (-amount))
        else b.holders.find? other := by
    intro other
    rw [find?_credit]
    split
    · rename_i hdelegatee
      subst hdelegatee
      exact congrArg (Option.map _) hk
    · rfl
  have hstay : ∀ other, (((b.openReturn delegator amount).credit delegatee .receivedVestingShares
      (-amount)).holders.find? other).isSome = (b.holders.find? other).isSome := by
    intro other
    rw [Books.credit, isSome_adjust]
    rfl
  constructor
  case delegated =>
    intro other l hl
    have hlent := hsum fun key => key.1 = other
    simp only [decide_eq_true_eq] at hlent
    have hreturns := hreturning other
    change _ = delegations.sum _ + (b.openReturn delegator amount).returning other
    rw [hlent, hreturns]
    rw [hrow] at hl
    have hrow' : l.funds .delegatedVestingShares = b.lent other + b.returning other := by
      split at hl
      · rename_i hdelegatee
        cases hl
        exact hb.delegated other k (hdelegatee ▸ hk)
      · exact hb.delegated other l hl
    rw [hrow', lent]
    split <;> omega
  case received =>
    intro other l hl
    have hborrowed := hsum fun key => key.2 = other
    simp only [decide_eq_true_eq] at hborrowed
    change _ = delegations.sum _
    rw [hborrowed]
    rw [hrow] at hl
    split at hl
    · rename_i hdelegatee
      cases hl
      have hreceived := hb.received other k (hdelegatee ▸ hk)
      rw [if_pos hdelegatee.symm, Holder.credit_funds, if_pos rfl, hreceived, borrowed]
    · rename_i hdelegatee
      rw [if_neg (Ne.symm hdelegatee), add_zero]
      exact hb.received other l hl
  case within =>
    intro other l hl
    rw [hrow] at hl
    split at hl
    · rename_i hdelegatee
      cases hl
      exact hb.within other k (hdelegatee ▸ hk)
    · exact hb.within other l hl
  case loans =>
    intro x y shares hfound
    rcases hfind _ _ hfound with ⟨hkey, rfl⟩ | hfound
    · cases hkey
      exact ⟨by omega, hother, (hstay _).trans hdelegator, (hstay _).trans hdelegatee⟩
    · obtain ⟨hshares, hxy, hx, hy⟩ := hb.loans x y shares hfound
      exact ⟨hshares, hxy, (hstay _).trans hx, (hstay _).trans hy⟩
  case returns =>
    intro id x shares hfound
    change (b.returns.set b.nextReturn (delegator, amount)).find? id = some (x, shares) at hfound
    rw [Table.find?_set] at hfound
    split at hfound
    · cases hfound
      exact ⟨hamount, (hstay _).trans hdelegator⟩
    · exact (hb.returns id x shares hfound).imp_right (hstay _).trans
  case nextReturn =>
    intro id hid
    change b.nextReturn + 1 ≤ id at hid
    change (b.returns.set b.nextReturn (delegator, amount)).find? id = none
    rw [Table.find?_set, if_neg (by omega)]
    exact hb.nextReturn id (by omega)

/-- What was lent is back. -/
theorem Lending.closeReturn (hb : b.Lending) {id : Nat} {delegator : AccountName} {amount : Int}
    {h : Holder} (hold : b.returns.find? id = some (delegator, amount))
    (hh : b.holders.find? delegator = some h) :
    ((b.credit delegator .delegatedVestingShares (-amount)).closeReturn id).Lending := by
  have hamount := (hb.returns _ _ _ hold).1
  have hrow : ∀ other, (b.credit delegator .delegatedVestingShares (-amount)).holders.find? other =
      if other = delegator then some (h.credit .delegatedVestingShares (-amount))
      else b.holders.find? other := by
    intro other
    rw [find?_credit]
    split
    · rename_i hdelegator
      subst hdelegator
      rw [hh, Option.map_some]
    · rfl
  have hreturning : ∀ other, (b.returns.remove id).sum
      (fun _ row => if row.1 = other then row.2 else 0) =
        b.returning other - if delegator = other then amount else 0 := by
    intro other
    rw [Table.sum_remove, Table.share_of_found hold, returning]
  constructor
  case delegated =>
    intro other l hl
    change _ = b.lent other + (b.returns.remove id).sum _
    rw [hreturning]
    rw [Books.closeReturn] at hl
    rw [hrow] at hl
    split at hl
    · rename_i hdelegator
      cases hl
      have hdelegated := hb.delegated other h (hdelegator ▸ hh)
      rw [if_pos hdelegator.symm, Holder.credit_funds, if_pos rfl, hdelegated]
      omega
    · rename_i hdelegator
      rw [if_neg (Ne.symm hdelegator), sub_zero]
      exact hb.delegated other l hl
  case received =>
    intro other l hl
    rw [Books.closeReturn, hrow] at hl
    split at hl
    · rename_i hdelegator
      cases hl
      exact hb.received other h (hdelegator ▸ hh)
    · exact hb.received other l hl
  case within =>
    intro other l hl
    rw [Books.closeReturn, hrow] at hl
    split at hl
    · rename_i hdelegator
      cases hl
      apply (hb.within other h (hdelegator ▸ hh)).mono
      simp [Holder.unlent, Holder.credit]
      omega
    · exact hb.within other l hl
  case loans =>
    intro x y shares hfound
    rw [Books.closeReturn, Books.credit, isSome_adjust, isSome_adjust]
    exact hb.loans x y shares hfound
  case returns =>
    intro other x shares hfound
    rw [Books.closeReturn, Books.credit, isSome_adjust]
    change (b.returns.remove id).find? other = some (x, shares) at hfound
    rw [Table.find?_remove] at hfound
    split at hfound
    · cases hfound
    · exact hb.returns other x shares hfound
  case nextReturn =>
    intro other hother
    change (b.returns.remove id).find? other = none
    rw [Table.find?_remove]
    split
    · rfl
    · exact hb.nextReturn other hother

theorem Step.lending (hstep : Step may b d b') (hb : b.Lending) (hnull : b.NullIdle) :
    b'.Lending := by
  cases hstep with
  | @credit name fund amount h hh hfund =>
      apply hb.of_sameLoans
      cases fund <;> simp only [Fund.isLiquid, Bool.false_eq_true] at hfund
      all_goals exact sameLoans_credit (by decide) (by decide) (by simp)
  | rewardShares =>
      apply hb.of_sameLoans
      exact (sameLoans_credit (by decide) (by decide) (by simp)).trans
        (sameLoans_credit (by decide) (by decide) (by simp))
  | openAccount hnew => exact hb.openAccount hnew
  | vest hh hamount =>
      apply hb.of_sameLoans
      exact (sameLoans_credit (by decide) (by decide) fun _ => hamount).trans
        (sameLoans_shiftVotes _ _)
  | setPowerDown hh hwithin => exact hb.adjust hh rfl rfl hwithin
  | @withdraw name week powerDown h hh hweek hwithin =>
      refine Lending.of_sameLoans ?_ (sameLoans_shiftVotes _ _)
      rw [Books.credit, Books.setPowerDown, adjust_adjust]
      refine hb.adjust hh rfl rfl ?_
      have hunlent : (Holder.credit .vestingShares (-week) { h with powerDown }).unlent =
          h.unlent - week := by
        simp [Holder.unlent, Holder.credit]
        omega
      rw [hunlent]
      exact hwithin
  | lend hh hk hother hnull hamount hwithin => exact hb.lend hh hk hother hamount hwithin
  | giveBack hold hk hamount hrest hleft => exact hb.giveBack hold hk hamount hrest hleft
  | closeReturn hold hh => exact hb.closeReturn hold hh
  | setProxy =>
      apply hb.of_sameLoans
      apply ((sameLoans_shiftVotes _ _).trans sameLoans_clearVotes).trans
      exact sameLoans_setProxy.trans (sameLoans_shiftVotes _ _)
  | clearProxy =>
      apply hb.of_sameLoans
      exact (sameLoans_shiftVotes _ _).trans sameLoans_setProxy
  | decline =>
      apply hb.of_sameLoans
      apply ((sameLoans_shiftVotes _ _).trans sameLoans_clearVotes).trans
      exact sameLoans_adjust fun h => ⟨rfl, rfl, rfl, le_rfl⟩
  | @burnShares h hh =>
      have hlent : b.lent blurtNullAccount = 0 := by
        rw [lent, Table.sum_congr (g := fun _ _ => 0)]
        · simp [Table.sum]
        · rintro ⟨delegator, delegatee⟩ shares hfound
          rw [if_neg]
          rintro rfl
          rw [hnull.papers.loans delegatee] at hfound
          cases hfound
      have hreturning : b.returning blurtNullAccount = 0 := by
        rw [returning, Table.sum_congr (g := fun _ _ => 0)]
        · simp [Table.sum]
        · intro id row hfound
          rw [if_neg (hnull.papers.returns id row hfound)]
      have hdelegated := hb.delegated _ h hh
      refine hb.adjust hh rfl rfl (.of_inactive ?_ (hnull.powerDown h hh))
      simp [Holder.unlent, Holder.credit]
      omega
  | shrinkRegent =>
      apply hb.of_sameLoans
      exact SameLoans.trans (c := b.setTotals _) (.of_holders rfl rfl rfl rfl)
        (sameLoans_shiftVotes _ _)
  | _ => exact hb.of_sameLoans (.of_holders rfl rfl rfl rfl)

/-! ## The null account -/

/-- Every power-down is one that was there. -/
def KeepsPowerDowns (b c : Books) : Prop :=
  ∀ name k, c.holders.find? name = some k →
    ∃ h, b.holders.find? name = some h ∧ k.powerDown = h.powerDown

theorem SameLoans.keepsPowerDowns (hsame : b.SameLoans c) : b.KeepsPowerDowns c := by
  intro name k hk
  obtain ⟨h, hh, hhk⟩ := hsame.rows name k hk
  exact ⟨h, hh, hhk.powerDown⟩

theorem KeepsPowerDowns.credit (hbc : b.KeepsPowerDowns c) (other : AccountName) (fund : Fund)
    (amount : Int) : b.KeepsPowerDowns (c.credit other fund amount) := by
  intro name k hk
  rw [find?_credit] at hk
  split at hk
  · obtain ⟨h, hh, rfl⟩ := Option.map_eq_some_iff.mp hk
    exact hbc name h hh
  · exact hbc name k hk

/-- Only an entry about the null account would start a power-down of it. -/
theorem Step.nullInactive (hstep : Step may b d b') (hb : b.NullIdle) :
    ∀ k, b'.holders.find? blurtNullAccount = some k →
      k.powerDown.nextVestingWithdrawal = maximumTime := by
  have hkept : ∀ {c : Books}, b.KeepsPowerDowns c → ∀ k,
      c.holders.find? blurtNullAccount = some k →
        k.powerDown.nextVestingWithdrawal = maximumTime := by
    intro c hc k hk
    obtain ⟨h, hh, hsame⟩ := hc _ k hk
    rw [hsame]
    exact hb.powerDown h hh
  have hset : ∀ {name : AccountName} {powerDown : PowerDown},
      (name = blurtNullAccount → powerDown.nextVestingWithdrawal = maximumTime) → ∀ k,
        (b.setPowerDown name powerDown).holders.find? blurtNullAccount = some k →
          k.powerDown.nextVestingWithdrawal = maximumTime := by
    intro name powerDown hnull k hk
    rw [Books.setPowerDown, find?_adjust] at hk
    split at hk
    · rename_i hname
      obtain ⟨h, -, rfl⟩ := Option.map_eq_some_iff.mp hk
      exact hnull hname.symm
    · exact hb.powerDown k hk
  have hsame : ∀ {c : Books}, c.holders = b.holders → b.KeepsPowerDowns c := by
    intro c hc name k hk
    exact ⟨k, hc ▸ hk, rfl⟩
  cases hstep with
  | credit => exact hkept (KeepsPowerDowns.credit (hsame rfl) _ _ _)
  | rewardShares => exact hkept (((hsame rfl).credit _ _ _).credit _ _ _)
  | @openAccount name auth hnew =>
      intro k hk
      rw [Books.openAccount, Table.find?_set] at hk
      split at hk
      · cases hk
        rfl
      · exact hb.powerDown k hk
  | vest =>
      intro k hk
      obtain ⟨h, hh, hsame'⟩ := (sameLoans_shiftVotes _ _).keepsPowerDowns _ k hk
      rw [hsame']
      exact hkept (KeepsPowerDowns.credit (hsame rfl) _ _ _) h hh
  | setPowerDown hh hwithin hnull => exact hset hnull
  | withdraw hh hweek hwithin hnull =>
      intro k hk
      obtain ⟨h, hh, hsame'⟩ := (sameLoans_shiftVotes _ _).keepsPowerDowns _ k hk
      rw [hsame', ]
      rw [find?_credit] at hh
      split at hh
      · obtain ⟨l, hl, rfl⟩ := Option.map_eq_some_iff.mp hh
        exact hset hnull l hl
      · exact hset hnull h hh
  | lend =>
      exact hkept ((KeepsPowerDowns.credit (c := b.setDelegation _ _) (hsame rfl) _ _ _).credit _ _ _)
  | giveBack =>
      exact hkept (KeepsPowerDowns.credit (c := b.openReturn _ _) (hsame rfl) _ _ _)
  | closeReturn => exact hkept (KeepsPowerDowns.credit (hsame rfl) _ _ _)
  | setProxy =>
      refine hkept (SameLoans.keepsPowerDowns ?_)
      apply ((sameLoans_shiftVotes _ _).trans sameLoans_clearVotes).trans
      exact sameLoans_setProxy.trans (sameLoans_shiftVotes _ _)
  | clearProxy =>
      exact hkept ((sameLoans_shiftVotes _ _).trans sameLoans_setProxy).keepsPowerDowns
  | decline =>
      refine hkept (SameLoans.keepsPowerDowns ?_)
      apply ((sameLoans_shiftVotes _ _).trans sameLoans_clearVotes).trans
      exact sameLoans_adjust fun h => ⟨rfl, rfl, rfl, le_rfl⟩
  | burnShares => exact hkept (KeepsPowerDowns.credit (hsame rfl) _ _ _)
  | shrinkRegent =>
      exact hkept (SameLoans.keepsPowerDowns
        (.trans (c := b.setTotals _) (.of_holders rfl rfl rfl rfl) (sameLoans_shiftVotes _ _)))
  | _ => exact hkept (hsame rfl)

theorem nullPapers_shiftVotes {delta : VoteDelta} {levels : Nat} (hb : b.NullPapers) :
    (b.shiftVotes name delta levels).NullPapers := by
  rw [shiftVotes_frame]
  exact ⟨hb.loans, hb.returns, hb.votes, hb.authority, hb.history⟩

theorem nullPapers_adjust {f : Holder → Holder} (hb : b.NullPapers) :
    (b.adjust name f).NullPapers :=
  ⟨hb.loans, hb.returns, hb.votes, hb.authority, hb.history⟩

theorem nullPapers_setTotals {f : Totals → Totals} (hb : b.NullPapers) :
    (b.setTotals f).NullPapers :=
  ⟨hb.loans, hb.returns, hb.votes, hb.authority, hb.history⟩

theorem nullPapers_clearVotes (hb : b.NullPapers) : (b.clearVotes name).NullPapers := by
  refine ⟨hb.loans, hb.returns, fun witness => ?_, hb.authority, hb.history⟩
  rw [clearVotes, Table.find?_filterKeys]
  split
  · exact hb.votes witness
  · rfl

theorem Step.nullPapers (hstep : Step may b d b') (hb : b.NullIdle) : b'.NullPapers := by
  obtain ⟨hexist, -, -, hloans, hreturns, hvotes, hauthority, hhistory⟩ := hb
  have hpapers : b.NullPapers := ⟨hloans, hreturns, hvotes, hauthority, hhistory⟩
  cases hstep with
  | @openAccount name auth hnew =>
      refine ⟨hloans, hreturns, hvotes, fun other hother => ?_, hhistory⟩
      have hname : name ≠ blurtNullAccount := by
        rintro rfl
        rw [hnew] at hexist
        cases hexist
      rw [Books.openAccount, Books.setAuthority, Table.find?_set, if_neg hname.symm] at hother
      exact hauthority other hother
  | @setAuthority name auth hname =>
      refine ⟨hloans, hreturns, hvotes, fun other hother => ?_, hhistory⟩
      rw [Books.setAuthority, Table.find?_set, if_neg hname.symm] at hother
      exact hauthority other hother
  | @recordOwner hist haccount =>
      refine ⟨hloans, hreturns, hvotes, hauthority, fun id other hother => ?_⟩
      rw [Books.recordOwner, Table.find?_set] at hother
      split at hother
      · cases hother
        exact haccount
      · exact hhistory id other hother
  | forgetOwners hless =>
      exact ⟨hloans, hreturns, hvotes, hauthority, fun id other hother =>
        hhistory id other (hless id other hother)⟩
  | vest => exact nullPapers_shiftVotes (nullPapers_adjust hpapers)
  | withdraw => exact nullPapers_shiftVotes (nullPapers_adjust (nullPapers_adjust hpapers))
  | lend hh hk hother hnull =>
      refine ⟨fun delegatee => ?_, hreturns, hvotes, hauthority, hhistory⟩
      exact (Table.find?_set ..).trans ((if_neg (by simp [hnull.symm])).trans (hloans delegatee))
  | @giveBack delegator delegatee old amount k delegations hold hk hamount hrest hleft =>
      have hdelegator : delegator ≠ blurtNullAccount := by
        rintro rfl
        rw [hloans] at hold
        cases hold
      refine ⟨fun other => ?_, fun id row hrow => ?_, hvotes, hauthority, hhistory⟩
      · rcases hleft with rfl | ⟨-, rfl⟩
        · exact (Table.find?_set ..).trans
            ((if_neg (by simp [hdelegator.symm])).trans (hloans other))
        · exact (Table.find?_remove ..).trans
            ((if_neg (by simp [hdelegator.symm])).trans (hloans other))
      · change (b.returns.set b.nextReturn (delegator, amount)).find? id = some row at hrow
        rw [Table.find?_set] at hrow
        split at hrow
        · cases hrow
          exact hdelegator
        · exact hreturns id row hrow
  | @closeReturn id delegator amount h hold hh =>
      refine ⟨hloans, fun other row hrow => ?_, hvotes, hauthority, hhistory⟩
      change (b.returns.remove id).find? other = some row at hrow
      rw [Table.find?_remove] at hrow
      split at hrow
      · cases hrow
      · exact hreturns other row hrow
  | @castVote account witness votes h hh hproxy hcanVote hwitness hnew hnull =>
      refine ⟨hloans, hreturns, fun other => ?_, hauthority, hhistory⟩
      exact (Table.find?_set ..).trans ((if_neg (by simp [hnull.symm])).trans (hvotes other))
  | @retractVote account witness h hh hproxy hold =>
      refine ⟨hloans, hreturns, fun other => ?_, hauthority, hhistory⟩
      refine (Table.find?_remove ..).trans ?_
      split
      · rfl
      · exact hvotes other
  | setProxy =>
      apply nullPapers_shiftVotes
      exact nullPapers_adjust (nullPapers_clearVotes (nullPapers_shiftVotes hpapers))
  | clearProxy => exact nullPapers_adjust (nullPapers_shiftVotes hpapers)
  | decline => exact nullPapers_adjust (nullPapers_clearVotes (nullPapers_shiftVotes hpapers))
  | shrinkRegent => exact nullPapers_shiftVotes (nullPapers_setTotals hpapers)
  | _ => exact ⟨hloans, hreturns, hvotes, hauthority, hhistory⟩

theorem Step.nullIdle (hstep : Step may b d b') (hb : b.NullIdle) : b'.NullIdle := by
  refine ⟨hstep.accounts_stay hb.exist, ?_, hstep.nullInactive hb, hstep.nullPapers hb⟩
  rcases hstep.link with hlink | ⟨name, proxy, -, hname, -, -, -, hlink⟩ | ⟨name, hlink⟩
  · rw [hlink, hb.proxy]
  · rw [hlink, Function.update_of_ne hname.symm, hb.proxy]
  · rw [hlink, Function.update_apply]
    split
    · rfl
    · exact hb.proxy

/-! ## What an account can use -/

theorem lent_nonneg (hb : b.Lending) (name : AccountName) : 0 ≤ b.lent name := by
  apply Table.sum_nonneg
  rintro ⟨delegator, delegatee⟩ shares hfound
  have hshares := (hb.loans _ _ _ hfound).1
  split <;> omega

theorem returning_nonneg (hb : b.Lending) (name : AccountName) : 0 ≤ b.returning name := by
  apply Table.sum_nonneg
  rintro id ⟨delegator, shares⟩ hfound
  have hshares := (hb.returns _ _ _ hfound).1
  split <;> omega

theorem borrowed_nonneg (hb : b.Lending) (name : AccountName) : 0 ≤ b.borrowed name := by
  apply Table.sum_nonneg
  rintro ⟨delegator, delegatee⟩ shares hfound
  have hshares := (hb.loans _ _ _ hfound).1
  split <;> omega

/-- Nobody lends more than there is. -/
theorem lent_le_shares (hb : b.Lending) {h : Holder} (hh : b.holders.find? name = some h) :
    b.lent name ≤ h.funds .vestingShares := by
  have hdelegated := hb.delegated name h hh
  have hreturning := returning_nonneg hb name
  have hwithin := (hb.within name h hh).nonneg
  unfold Holder.unlent at hwithin
  omega

/-- What an account is lent is lent by the others, out of their shares. -/
theorem shares_add_borrowed_le (hb : b.Lending) {h : Holder}
    (hh : b.holders.find? name = some h) : h.funds .vestingShares + b.borrowed name ≤
      b.holders.sum fun _ k => k.funds .vestingShares := by
  have hsplit : b.holders.sum (fun other k => (if name = other then k.funds .vestingShares else 0) +
      b.delegations.sum fun key shares =>
        if key.1 = other then (if key.2 = name then shares else 0) else 0) =
      h.funds .vestingShares + b.borrowed name := by
    rw [Table.sum_add, Table.sum_single, Table.share_of_found hh, Table.sum_comm, borrowed]
    congr 1
    apply Table.sum_congr
    rintro ⟨delegator, delegatee⟩ shares hfound
    obtain ⟨-, -, hdelegator, -⟩ := hb.loans _ _ _ hfound
    obtain ⟨k, hk⟩ := Option.isSome_iff_exists.mp hdelegator
    rw [Table.sum_single, Table.share_of_found hk]
  rw [← hsplit]
  apply Table.sum_le_sum
  intro other k hk
  by_cases hother : name = other
  · subst hother
    rw [if_pos rfl, Table.sum_congr (g := fun _ _ => 0)]
    · simp [Table.sum]
    · rintro ⟨delegator, delegatee⟩ shares hfound
      have hdifferent := (hb.loans _ _ _ hfound).2.1
      split
      · rename_i hdelegator
        rw [if_neg fun hdelegatee => hdifferent (hdelegator.trans hdelegatee.symm)]
      · rfl
  · rw [if_neg hother, zero_add]
    refine le_trans ?_ (lent_le_shares hb hk)
    apply Table.sum_le_sum
    rintro ⟨delegator, delegatee⟩ shares hfound
    have hshares := (hb.loans _ _ _ hfound).1
    split
    · split <;> omega
    · rfl

end Books

end Ledger

end Blurt
