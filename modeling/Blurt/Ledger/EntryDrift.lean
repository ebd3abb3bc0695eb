import Blurt.Ledger.Entries

/-! # What entries add to the columns

Every entry changes each column of the books by its label. A shift of votes moves what
`validate_invariants` counts from the origin of a chain to its end, whether the end is a
root or lies deeper than the votes are followed.
-/

namespace Blurt

namespace Ledger

/-! ## Columns -/

theorem Drift.of_add (m s v w r m' s' v' w' r' : Int) :
    Drift.of m s v w r + Drift.of m' s' v' w' r' =
      Drift.of (m + m') (s + s') (v + v') (w + w') (r + r') := by
  funext column
  cases column <;> rfl

@[simp] theorem Drift.of_zero : Drift.of 0 0 0 0 0 = 0 := by
  funext column
  cases column <;> rfl

namespace Holder

variable (h : Holder) (fund : Fund) (amount : Int)

theorem columns_credit_liquid (hfund : fund.isLiquid) :
    (h.credit fund amount).columns = h.columns + .of amount 0 0 0 0 := by
  funext column
  cases fund <;> simp only [Fund.isLiquid, Bool.false_eq_true] at hfund <;>
    cases column <;> simp [columns, Drift.of, countedVotes, credit] <;> omega

theorem countedVotes_credit_vestingShares : (h.credit .vestingShares amount).countedVotes =
    h.countedVotes + if h.proxy = blurtProxyToSelfAccount then amount else 0 := by
  simp only [countedVotes, credit_proxy, credit_proxiedVsfVotes, credit_funds, if_true]
  split <;> omega

theorem columns_credit_vestingShares : (h.credit .vestingShares amount).columns =
    h.columns + .of 0 amount amount
      (if h.proxy = blurtProxyToSelfAccount then amount else 0) 0 := by
  have hvotes := h.countedVotes_credit_vestingShares amount
  funext column
  cases column <;> simp [columns, Drift.of, hvotes, credit_funds]
  omega

theorem columns_credit_rewardVestingBlurt :
    (h.credit .rewardVestingBlurt amount).columns = h.columns + .of 0 0 0 0 amount := by
  funext column
  cases column <;> simp [columns, Drift.of, countedVotes, credit]

theorem columns_credit_rewardVestingBalance :
    (h.credit .rewardVestingBalance amount).columns = h.columns + .of 0 amount 0 0 0 := by
  funext column
  cases column <;> simp [columns, Drift.of, countedVotes, credit]
  omega

theorem columns_credit_delegatedVestingShares :
    (h.credit .delegatedVestingShares amount).columns = h.columns := by
  funext column
  cases column <;> simp [columns, Drift.of, countedVotes, credit]

theorem columns_credit_receivedVestingShares :
    (h.credit .receivedVestingShares amount).columns = h.columns := by
  funext column
  cases column <;> simp [columns, Drift.of, countedVotes, credit]

/-- What is proxied at a depth counts where the chain ends or where it is cut. -/
theorem countedVotes_addProxied {levels : Nat} (hlevels : levels < blurtMaxProxyRecursionDepth)
    (delta : VoteDelta) :
    (h.addProxied (blurtMaxProxyRecursionDepth - (levels + 1)) delta).countedVotes =
      h.countedVotes + if h.proxy = blurtProxyToSelfAccount
        then ∑ j ∈ Finset.range (levels + 1), delta j else delta levels := by
  have hproxy : (h.addProxied (blurtMaxProxyRecursionDepth - (levels + 1)) delta).proxy = h.proxy :=
    rfl
  have hcases : levels = 0 ∨ levels = 1 ∨ levels = 2 ∨ levels = 3 := by
    have hfour : levels < 4 := hlevels
    omega
  unfold countedVotes
  rw [hproxy]
  split
  · rcases hcases with rfl | rfl | rfl | rfl <;>
      simp [addProxied, blurtMaxProxyRecursionDepth, Fin.sum_univ_four,
        Finset.sum_range_succ] <;> omega
  · rcases hcases with rfl | rfl | rfl | rfl <;>
      simp [addProxied, blurtMaxProxyRecursionDepth, Fin.last]

theorem columns_addProxied {levels : Nat} (hlevels : levels < blurtMaxProxyRecursionDepth)
    (delta : VoteDelta) :
    (h.addProxied (blurtMaxProxyRecursionDepth - (levels + 1)) delta).columns =
      h.columns + .of 0 0 0 (if h.proxy = blurtProxyToSelfAccount
        then ∑ j ∈ Finset.range (levels + 1), delta j else delta levels) 0 := by
  have hvotes := h.countedVotes_addProxied hlevels delta
  funext column
  cases column <;> simp [columns, Drift.of, hvotes] <;> rfl

end Holder

namespace Books

variable {b : Books} {name : AccountName} {h : Holder}

theorem drift_adjust (hh : b.holders.find? name = some h) (f : Holder → Holder) :
    (b.adjust name f).drift = b.drift + ((f h).columns - h.columns) := by
  funext column
  simp only [drift, adjust, Pi.add_apply, Pi.sub_apply, Table.sum_adjust hh]
  have hheld : Books.held { b with holders := b.holders.adjust name f } = b.held := rfl
  rw [hheld]
  omega

theorem drift_setTotals (f : Totals → Totals) :
    (b.setTotals f).drift = b.drift + (b.totals.columns - (f b.totals).columns) := by
  funext column
  simp only [drift, setTotals, Pi.add_apply, Pi.sub_apply]
  have hheld : Books.held { b with totals := f b.totals } = b.held := rfl
  rw [hheld]
  omega

/-- Every proxy is an account. -/
def ProxiesExist (b : Books) : Prop :=
  ∀ name proxy, b.link name = some proxy → (b.holders.find? proxy).isSome

theorem ProxiesExist.congr {c : Books} (hb : b.ProxiesExist) (hlink : c.link = b.link)
    (hholders : ∀ name, (b.holders.find? name).isSome → (c.holders.find? name).isSome) :
    c.ProxiesExist := by
  intro name proxy hproxy
  rw [hlink] at hproxy
  exact hholders _ (hb name proxy hproxy)

theorem isSome_adjust (f : Holder → Holder) (other : AccountName) :
    ((b.adjust name f).holders.find? other).isSome = (b.holders.find? other).isSome := by
  rw [find?_adjust]
  split <;> simp

theorem ProxiesExist.adjust (hb : b.ProxiesExist) (name : AccountName) {f : Holder → Holder}
    (hf : ∀ h, (f h).proxy = h.proxy) : (b.adjust name f).ProxiesExist :=
  hb.congr (link_adjust hf) fun other hother => by rwa [isSome_adjust]

/-- A shift of votes finds every account on its way. -/
def Reaches (b : Books) (account : AccountName) (levels : Nat) : Prop :=
  ∀ n < levels, ∀ name, Links.climb b.link (n + 1) account = some name →
    (b.holders.find? name).isSome

theorem ProxiesExist.reaches (hb : b.ProxiesExist) (account : AccountName) (levels : Nat) :
    b.Reaches account levels := by
  intro n _ name hclimb
  rw [Links.climb_succ_last] at hclimb
  obtain ⟨last, -, hlink⟩ := Option.bind_eq_some_iff.mp hclimb
  exact hb last name hlink

theorem Reaches.congr {c : Books} {account : AccountName} {levels : Nat}
    (hb : b.Reaches account levels) (hlink : c.link = b.link)
    (hholders : ∀ name, (b.holders.find? name).isSome → (c.holders.find? name).isSome) :
    c.Reaches account levels := by
  intro n hn name hclimb
  rw [hlink] at hclimb
  exact hholders _ (hb n hn name hclimb)

theorem Reaches.adjust {account : AccountName} {levels : Nat} (hb : b.Reaches account levels)
    (name : AccountName) {f : Holder → Holder} (hf : ∀ h, (f h).proxy = h.proxy) :
    (b.adjust name f).Reaches account levels :=
  hb.congr (link_adjust hf) fun other hother => by rwa [isSome_adjust]

/-- The first account on the way, and the rest of it. -/
theorem Reaches.next {account proxy : AccountName} {levels : Nat}
    (hb : b.Reaches account (levels + 1)) (hlink : b.link account = some proxy) :
    (b.holders.find? proxy).isSome ∧ b.Reaches proxy levels := by
  refine ⟨hb 0 (Nat.succ_pos levels) proxy ?_, fun n hn name hclimb => ?_⟩
  · rw [Links.climb_one, hlink]
  · exact hb (n + 1) (Nat.succ_lt_succ hn) name (by rwa [Links.climb_of_link hlink])

/-- A shift of votes adds to the count what the origin of the chain passes on. -/
theorem drift_shiftVotes (account : AccountName) (delta : VoteDelta) {levels : Nat}
    (hlevels : levels ≤ blurtMaxProxyRecursionDepth) (hb : b.Reaches account levels) :
    (b.shiftVotes account delta levels).drift = b.drift +
      .of 0 0 0 (if b.link account = none then 0 else ∑ j ∈ Finset.range levels, delta j) 0 := by
  induction levels generalizing b account with
  | zero =>
      rw [shiftVotes]
      split
      · simp
      · simp [creditVoted, creditWitnesses]
        rfl
  | succ levels ih =>
      have hlevels' : levels < blurtMaxProxyRecursionDepth := hlevels
      by_cases hproxy : b.proxyOf account = blurtProxyToSelfAccount
      · rw [shiftVotes, if_neg (not_not.mpr hproxy), link, if_pos hproxy, if_pos rfl, Drift.of_zero,
          add_zero]
        rfl
      · have hlink : b.link account = some (b.proxyOf account) := by
          rw [link, if_neg hproxy]
        obtain ⟨hfound, hrest⟩ := hb.next hlink
        obtain ⟨k, hk⟩ := Option.isSome_iff_exists.mp hfound
        have hadd := b.drift_adjust hk
          (Holder.addProxied (blurtMaxProxyRecursionDepth - (levels + 1)) delta)
        have hsame : (b.adjust (b.proxyOf account) (Holder.addProxied
            (blurtMaxProxyRecursionDepth - (levels + 1)) delta)).link = b.link :=
          link_adjust fun _ => rfl
        have hcounted := k.columns_addProxied hlevels' delta
        have hreaches := hrest.adjust (b.proxyOf account) (f := Holder.addProxied
          (blurtMaxProxyRecursionDepth - (levels + 1)) delta) fun _ => rfl
        rw [shiftVotes, if_pos hproxy, ih _ hlevels'.le hreaches, hadd, hcounted,
          hsame, add_sub_cancel_left, add_assoc, Drift.of_add, hlink,
          if_neg (Option.some_ne_none _)]
        -- the next account either counts everything that reaches it or passes on all but the last
        rw [link_of_found hk]
        by_cases hend : k.proxy = blurtProxyToSelfAccount
        · simp [hend]
        · simp [hend, Finset.sum_range_succ, add_comm]

end Books

end Ledger

end Blurt
