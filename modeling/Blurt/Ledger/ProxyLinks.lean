import Blurt.Ledger.EntryDrift

/-! # The links between accounts and their proxies

No entry opens a loop of proxies, and every proxy is an account. So the votes of an
account do not come back to it, and every entry adds its label to the columns.
-/

namespace Blurt

namespace Ledger

namespace Books

variable {b b' : Books} {may : AccountName → Prop} {d : Drift} {name : AccountName}

/-! ## What an entry does to the links -/

theorem link_credit (name : AccountName) (fund : Fund) (amount : Int) :
    (b.credit name fund amount).link = b.link :=
  link_adjust (Holder.credit_proxy · fund amount)

theorem link_setPowerDown (name : AccountName) (powerDown : PowerDown) :
    (b.setPowerDown name powerDown).link = b.link := by
  unfold setPowerDown
  exact link_adjust fun _ => rfl

theorem find?_credit (name : AccountName) (fund : Fund) (amount : Int) (other : AccountName) :
    (b.credit name fund amount).holders.find? other =
      if other = name then (b.holders.find? other).map (Holder.credit fund amount)
      else b.holders.find? other :=
  find?_adjust other _ name

theorem link_setProxy {h : Holder} (hh : b.holders.find? name = some h) (proxy : AccountName) :
    (b.setProxy name proxy).link = Function.update b.link name
      (if proxy = blurtProxyToSelfAccount then none else some proxy) := by
  funext other
  by_cases hother : other = name
  · subst hother
    rw [Function.update_self, setProxy, link, proxyOf, find?_adjust, if_pos rfl, hh]
    rfl
  · rw [Function.update_of_ne hother, setProxy, link, link, proxyOf, proxyOf, find?_adjust,
      if_neg hother]

theorem find?_clearVotes (account other : AccountName) :
    (b.clearVotes account).holders.find? other = b.holders.find? other := rfl

/-- An account that takes its votes from one proxy and passes them to another is linked to
the new one. -/
theorem link_passVotes {h : Holder} (hh : b.holders.find? name = some h) {proxy : AccountName}
    (hproxy : proxy ≠ blurtProxyToSelfAccount) {taken given : VoteDelta} :
    ((((b.shiftVotes name taken blurtMaxProxyRecursionDepth).clearVotes name).setProxy name
      proxy).shiftVotes name given blurtMaxProxyRecursionDepth).link =
        Function.update b.link name (some proxy) := by
  obtain ⟨votes, hvotes⟩ := find?_shiftVotes (b := b) name name taken blurtMaxProxyRecursionDepth
  rw [hh] at hvotes
  have hcleared := (find?_clearVotes name name).trans hvotes
  rw [link_shiftVotes, link_setProxy hcleared, if_neg hproxy]
  congr 1
  exact link_shiftVotes _ _ _

theorem link_keepVotes {h : Holder} (hh : b.holders.find? name = some h) {taken : VoteDelta} :
    ((b.shiftVotes name taken blurtMaxProxyRecursionDepth).setProxy name
      blurtProxyToSelfAccount).link = Function.update b.link name none := by
  obtain ⟨votes, hvotes⟩ := find?_shiftVotes (b := b) name name taken blurtMaxProxyRecursionDepth
  rw [hh] at hvotes
  rw [link_setProxy hvotes, if_pos rfl, link_shiftVotes]

theorem link_decline {h : Holder} (hh : b.holders.find? name = some h) :
    (b.decline name).link = Function.update b.link name none := by
  have hset := link_setProxy hh blurtProxyToSelfAccount
  rw [if_pos rfl] at hset
  rw [← hset]
  apply link_congr
  intro other
  rw [decline, setProxy, find?_adjust, find?_adjust]
  split
  · cases b.holders.find? other <;> rfl
  · rfl

theorem link_openAccount {auth : AccountAuthority} (hnew : b.holders.find? name = none) :
    (b.openAccount name auth).link = b.link := by
  funext other
  by_cases hother : other = name
  · subst hother
    rw [link_of_absent hnew, link, proxyOf, openAccount, Table.find?_set, if_pos rfl]
    rfl
  · rw [link, link, proxyOf, proxyOf, openAccount, Table.find?_set, if_neg hother]

/-- Only three entries change a link, and each of them changes one. -/
theorem Step.link (hstep : Step may b d b') : b'.link = b.link ∨
    (∃ name proxy, may name ∧ name ≠ blurtNullAccount ∧ (b.holders.find? name).isSome ∧
      (b.holders.find? proxy).isSome ∧ (∀ n, Links.climb b.link n proxy ≠ some name) ∧
      b'.link = Function.update b.link name (some proxy)) ∨
    ∃ name, b'.link = Function.update b.link name none := by
  cases hstep with
  | credit => exact .inl (link_credit _ _ _)
  | rewardShares => exact .inl ((link_credit _ _ _).trans (link_credit _ _ _))
  | openAccount hnew => exact .inl (link_openAccount hnew)
  | vest => exact .inl ((link_shiftVotes _ _ _).trans (link_credit _ _ _))
  | setPowerDown => exact .inl (link_setPowerDown _ _)
  | withdraw =>
      refine .inl ((link_shiftVotes _ _ _).trans ?_)
      exact (link_credit _ _ _).trans (link_setPowerDown _ _)
  | lend => exact .inl ((link_credit _ _ _).trans (link_credit (b := b.setDelegation _ _) _ _ _))
  | giveBack => exact .inl (link_credit (b := b.openReturn _ _) _ _ _)
  | closeReturn => exact .inl (link_credit _ _ _)
  | @setProxy name proxy h k hmay hh hk hproxy hcanVote havoids hnull =>
      refine .inr (.inl ⟨name, proxy, hmay, hnull, by rw [hh]; rfl, by rw [hk]; rfl, havoids, ?_⟩)
      exact link_passVotes hh hproxy
  | @clearProxy name h hh => exact .inr (.inr ⟨name, link_keepVotes hh⟩)
  | @decline name h hh =>
      refine .inr (.inr ⟨name, ?_⟩)
      obtain ⟨votes, hvotes⟩ := find?_shiftVotes (b := b) name name (fun i => -h.voteDelta i)
        blurtMaxProxyRecursionDepth
      rw [hh] at hvotes
      have hcleared := (find?_clearVotes name name).trans hvotes
      rw [link_decline hcleared]
      congr 1
      exact link_shiftVotes _ _ _
  | burnShares => exact .inl (link_credit _ _ _)
  | shrinkRegent => exact .inl (link_shiftVotes (b := b.setTotals _) _ _ _)
  | _ => exact .inl rfl

/-! ## Accounts stay -/

theorem isSome_shiftVotes (account : AccountName) (delta : VoteDelta) (levels : Nat) :
    ((b.shiftVotes account delta levels).holders.find? name).isSome =
      (b.holders.find? name).isSome := by
  obtain ⟨votes, hvotes⟩ := find?_shiftVotes (b := b) name account delta levels
  rw [hvotes, Option.isSome_map]

/-- An account is never removed. -/
theorem Step.accounts_stay (hstep : Step may b d b') {name : AccountName}
    (hname : (b.holders.find? name).isSome) :
    (b'.holders.find? name).isSome := by
  have hcredit : ∀ (c : Books) other fund amount, (c.holders.find? name).isSome →
      ((c.credit other fund amount).holders.find? name).isSome := fun c other fund amount hc => by
    rwa [Books.credit, isSome_adjust]
  have hadjust : ∀ (c : Books) other f, (c.holders.find? name).isSome →
      ((c.adjust other f).holders.find? name).isSome := fun c other f hc => by
    rwa [isSome_adjust]
  have hshift : ∀ (c : Books) account delta levels, (c.holders.find? name).isSome →
      ((c.shiftVotes account delta levels).holders.find? name).isSome :=
    fun c account delta levels hc => by
      rwa [isSome_shiftVotes]
  cases hstep with
  | credit => exact hcredit _ _ _ _ hname
  | rewardShares => exact hcredit _ _ _ _ (hcredit _ _ _ _ hname)
  | openAccount =>
      rw [Books.openAccount, Table.find?_set]
      split
      · rfl
      · exact hname
  | vest => exact hshift _ _ _ _ (hcredit _ _ _ _ hname)
  | setPowerDown => exact hadjust _ _ _ hname
  | withdraw => exact hshift _ _ _ _ (hcredit _ _ _ _ (hadjust _ _ _ hname))
  | lend => exact hcredit (b.setDelegation _ _ |>.credit _ _ _) _ _ _ (hcredit _ _ _ _ hname)
  | giveBack => exact hcredit (b.openReturn _ _) _ _ _ hname
  | closeReturn => exact hcredit _ _ _ _ hname
  | setProxy =>
      exact hshift _ _ _ _ (hadjust (clearVotes _ _) _ _ (hshift _ _ _ _ hname))
  | clearProxy => exact hadjust _ _ _ (hshift _ _ _ _ hname)
  | decline => exact hadjust (clearVotes _ _) _ _ (hshift _ _ _ _ hname)
  | burnShares => exact hcredit _ _ _ _ hname
  | shrinkRegent => exact hshift (b.setTotals _) _ _ _ hname
  | _ => exact hname

/-! ## The invariant -/

/-- Proxies are accounts, and following them never leads back. -/
structure Proxies (b : Books) : Prop where
  acyclic : Links.Acyclic b.link
  exist : b.ProxiesExist

theorem acyclicWithin_update_none {link : AccountName → Option AccountName} {m : Nat}
    (name : AccountName) (hacyclic : Links.AcyclicWithin m link) :
    Links.AcyclicWithin m (Function.update link name none) := by
  -- a chain of the links that are left is a chain of all links
  have hclimb : ∀ n x y, Links.climb (Function.update link name none) n x = some y →
      Links.climb link n x = some y := by
    intro n
    induction n with
    | zero => exact fun _ _ h => h
    | succ n ih =>
        intro x y h
        by_cases hx : x = name
        · rw [hx, Links.climb_of_root (Function.update_self ..)] at h
          cases h
        · rw [Links.climb_succ, Function.update_of_ne hx] at h
          rw [Links.climb_succ]
          obtain ⟨z, hz, hzy⟩ := Option.bind_eq_some_iff.mp h
          rw [hz, Option.bind_some]
          exact ih z y hzy
  exact fun x n hn h => hacyclic x n hn (hclimb _ _ _ h)

theorem acyclicWithin_update_some {link : AccountName → Option AccountName} {proxy : AccountName}
    {m : Nat} (hacyclic : Links.AcyclicWithin m link)
    (havoids : ∀ n, Links.climb link n proxy ≠ some name) :
    Links.AcyclicWithin m (Function.update link name (some proxy)) :=
  hacyclic.relink (fun _ hy => Function.update_of_ne hy _ _) (Function.update_self ..) havoids

theorem Step.proxies (hstep : Step may b d b') (hb : b.Proxies) : b'.Proxies := by
  have hstay : ∀ name, (b.holders.find? name).isSome → (b'.holders.find? name).isSome :=
    fun _ => hstep.accounts_stay
  rcases hstep.link with hlink | ⟨name, proxy, -, -, -, hproxy, havoids, hlink⟩ | ⟨name, hlink⟩
  · exact ⟨hlink ▸ hb.acyclic, hb.exist.congr hlink hstay⟩
  · refine ⟨hlink ▸ Links.acyclic_of_within fun m =>
      acyclicWithin_update_some (hb.acyclic.within m) havoids, ?_⟩
    intro other target htarget
    rw [hlink] at htarget
    by_cases hother : other = name
    · rw [hother, Function.update_self] at htarget
      cases htarget
      exact hstay _ hproxy
    · rw [Function.update_of_ne hother] at htarget
      exact hstay _ (hb.exist other target htarget)
  · refine ⟨hlink ▸ Links.acyclic_of_within fun m =>
      acyclicWithin_update_none name (hb.acyclic.within m), ?_⟩
    intro other target htarget
    rw [hlink] at htarget
    by_cases hother : other = name
    · rw [hother, Function.update_self] at htarget
      cases htarget
    · rw [Function.update_of_ne hother] at htarget
      exact hstay _ (hb.exist other target htarget)

/-! ## The columns -/

/-- A shift of votes does not come back to where it starts. -/
theorem find?_shiftVotes_self (hacyclic : Links.AcyclicWithin blurtMaxProxyRecursionDepth b.link)
    (name : AccountName) (delta : VoteDelta) :
    (b.shiftVotes name delta blurtMaxProxyRecursionDepth).holders.find? name =
      b.holders.find? name := by
  have hzero : ∀ i, b.shifted name delta blurtMaxProxyRecursionDepth name i = 0 := by
    intro i
    apply Finset.sum_eq_zero
    intro k hk
    rw [if_neg fun hback => hacyclic name k (Finset.mem_range.mp hk) hback.1]
  rw [find?_shiftVotes_eq le_rfl]
  simp [hzero]

end Books

/-- The votes that an account passes on to its proxy. -/
def Holder.passed (h : Holder) : Int :=
  ∑ j ∈ Finset.range blurtMaxProxyRecursionDepth, h.voteDelta j

/-- What a root counts beyond what every account counts is what it would pass on. -/
theorem Holder.countedVotes_eq (h : Holder) : h.countedVotes =
    h.proxiedVsfVotes (Fin.last (blurtMaxProxyRecursionDepth - 1)) +
      if h.proxy = blurtProxyToSelfAccount then h.passed else 0 := by
  have hsum : h.funds .vestingShares + ∑ depth, h.proxiedVsfVotes depth =
      h.proxiedVsfVotes (Fin.last (blurtMaxProxyRecursionDepth - 1)) + h.passed := by
    simp [passed, blurtMaxProxyRecursionDepth, Finset.sum_range_succ, Holder.voteDelta,
      Fin.sum_univ_four, Fin.last]
    omega
  rw [countedVotes, hsum]
  split <;> simp

/-- A change of the proxy only changes what is counted. -/
theorem Holder.columns_setProxy (h : Holder) (proxy : AccountName) (canVote : Bool) :
    ({ h with proxy, canVote } : Holder).columns - h.columns =
      .of 0 0 0 ((if proxy = blurtProxyToSelfAccount then h.passed else 0) -
        if h.proxy = blurtProxyToSelfAccount then h.passed else 0) 0 := by
  have hcounted := h.countedVotes_eq
  have hcounted' := ({ h with proxy, canVote } : Holder).countedVotes_eq
  have hpassed : ({ h with proxy, canVote } : Holder).passed = h.passed := by
    apply Finset.sum_congr rfl
    intro j _
    cases j <;> rfl
  rw [hpassed] at hcounted'
  funext column
  cases column <;> simp only [columns, Drift.of, Pi.sub_apply, sub_self, hcounted, hcounted']
  omega

namespace Books

variable {b b' : Books} {may : AccountName → Prop} {d : Drift} {name : AccountName}

theorem link_eq_none {h : Holder} (hh : b.holders.find? name = some h) :
    b.link name = none ↔ h.proxy = blurtProxyToSelfAccount := by
  rw [link_of_found hh]
  split <;> simp_all

/-- The votes of an account are taken from its chain. -/
theorem drift_withdrawVotes (hb : b.Reaches name blurtMaxProxyRecursionDepth) {h : Holder}
    (hh : b.holders.find? name = some h) :
    (b.shiftVotes name (fun i => -h.voteDelta i) blurtMaxProxyRecursionDepth).drift = b.drift +
      .of 0 0 0 (if h.proxy = blurtProxyToSelfAccount then 0 else -h.passed) 0 := by
  rw [drift_shiftVotes _ _ le_rfl hb, Finset.sum_neg_distrib]
  simp only [link_eq_none hh]
  rfl

theorem drift_single (hb : b.Reaches name blurtMaxProxyRecursionDepth) {h : Holder}
    (hh : b.holders.find? name = some h) (amount : Int) :
    (b.shiftVotes name (.single amount) blurtMaxProxyRecursionDepth).drift = b.drift +
      .of 0 0 0 (if h.proxy = blurtProxyToSelfAccount then 0 else amount) 0 := by
  rw [drift_shiftVotes _ _ le_rfl hb]
  simp only [link_eq_none hh]
  simp [VoteDelta.single]

theorem drift_credit {h : Holder} (hh : b.holders.find? name = some h) (fund : Fund)
    (amount : Int) :
    (b.credit name fund amount).drift = b.drift + ((h.credit fund amount).columns - h.columns) :=
  drift_adjust hh _

/-- What is held elsewhere only counts as money. -/
theorem drift_held {c : Books} {amount : Int} (hholders : c.holders = b.holders)
    (htotals : c.totals = b.totals) (hheld : c.held = b.held + amount) :
    c.drift = b.drift + .of amount 0 0 0 0 := by
  funext column
  simp only [drift, hholders, htotals, hheld, Pi.add_apply]
  cases column <;> simp only [Drift.of] <;> omega

/-! ## What each entry adds -/

theorem drift_rewardShares {h : Holder} (hh : b.holders.find? name = some h)
    (blurt shares : Int) :
    ((b.credit name .rewardVestingBlurt blurt).credit name .rewardVestingBalance shares).drift =
      b.drift + .of 0 shares 0 0 blurt := by
  have hh' : (b.credit name .rewardVestingBlurt blurt).holders.find? name =
      some (h.credit .rewardVestingBlurt blurt) := by
    rw [find?_credit, if_pos rfl, hh, Option.map_some]
  rw [drift_credit hh', drift_credit hh, Holder.columns_credit_rewardVestingBalance,
    Holder.columns_credit_rewardVestingBlurt, add_sub_cancel_left, add_sub_cancel_left,
    add_assoc, Drift.of_add]
  simp

theorem drift_creditRewardFund {id : Nat} {balance : Int}
    (hfund : b.rewardFunds.find? id = some balance) (amount : Int) :
    (b.creditRewardFund id amount).drift = b.drift + .of amount 0 0 0 0 := by
  have hheld : (b.creditRewardFund id amount).held = b.held + amount := by
    have hsum := Table.sum_adjust (g := fun _ balance => balance) hfund (· + amount)
    simp only [held, creditRewardFund, hsum]
    omega
  exact drift_held rfl rfl hheld

/-- What an escrow holds now counts in place of what it held. -/
theorem drift_setEscrow (key : AccountName × Nat) (e : Escrow) :
    (b.setEscrow key e).drift =
      b.drift + .of (e.content - b.escrows.share (fun _ e => e.content) key) 0 0 0 0 := by
  have hheld : (b.setEscrow key e).held =
      b.held + (e.content - b.escrows.share (fun _ e => e.content) key) := by
    simp only [held, setEscrow, Table.sum_set]
    omega
  exact drift_held rfl rfl hheld

theorem drift_closeEscrow {key : AccountName × Nat} {old : Escrow}
    (hold : b.escrows.find? key = some old) :
    (b.closeEscrow key).drift = b.drift + .of (-old.content) 0 0 0 0 := by
  have hheld : (b.closeEscrow key).held = b.held + -old.content := by
    simp only [held, closeEscrow, Table.sum_remove, Table.share_of_found hold]
    omega
  exact drift_held rfl rfl hheld

theorem drift_openSavingsWithdraw {key : AccountName × Nat} {w : SavingsWithdraw}
    (hnew : b.savingsWithdraws.find? key = none) :
    (b.setSavingsWithdraw key w).drift = b.drift + .of w.amount.amount 0 0 0 0 := by
  have hheld : (b.setSavingsWithdraw key w).held = b.held + w.amount.amount := by
    simp only [held, setSavingsWithdraw, Table.sum_set, Table.share_of_absent hnew]
    omega
  exact drift_held rfl rfl hheld

theorem drift_closeSavingsWithdraw {key : AccountName × Nat} {w : SavingsWithdraw}
    (hold : b.savingsWithdraws.find? key = some w) :
    (b.closeSavingsWithdraw key).drift = b.drift + .of (-w.amount.amount) 0 0 0 0 := by
  have hheld : (b.closeSavingsWithdraw key).held = b.held + -w.amount.amount := by
    simp only [held, closeSavingsWithdraw, Table.sum_remove, Table.share_of_found hold]
    omega
  exact drift_held rfl rfl hheld

theorem drift_openAccount {auth : AccountAuthority} (hnew : b.holders.find? name = none) :
    (b.openAccount name auth).drift = b.drift := by
  funext column
  have hopened : Holder.opened.columns column = 0 := by
    cases column <;> rfl
  simp only [drift, openAccount, Table.sum_set, Table.share_of_absent hnew, hopened]
  simp
  rfl

/-- A power down that is planned moves nothing yet. -/
theorem drift_setPowerDown {h : Holder} (hh : b.holders.find? name = some h)
    (powerDown : PowerDown) : (b.setPowerDown name powerDown).drift = b.drift := by
  rw [setPowerDown, drift_adjust hh]
  exact add_eq_left.mpr (sub_self _)

/-- Shares that an account gains are counted at the end of its chain of proxies. -/
theorem drift_vest (hb : b.Reaches name blurtMaxProxyRecursionDepth) {h : Holder}
    (hh : b.holders.find? name = some h) (amount : Int) :
    ((b.credit name .vestingShares amount).shiftVotes name (.single amount)
      blurtMaxProxyRecursionDepth).drift = b.drift + .of 0 amount amount amount 0 := by
  have hh' : (b.credit name .vestingShares amount).holders.find? name =
      some (h.credit .vestingShares amount) := by
    rw [find?_credit, if_pos rfl, hh, Option.map_some]
  have hreaches : (b.credit name .vestingShares amount).Reaches name blurtMaxProxyRecursionDepth :=
    hb.adjust name (Holder.credit_proxy · .vestingShares amount)
  rw [drift_single hreaches hh', drift_credit hh, Holder.columns_credit_vestingShares,
    add_sub_cancel_left, add_assoc, Drift.of_add, Holder.credit_proxy]
  -- a root counts the shares itself, and any other account at the end of its chain
  by_cases hroot : h.proxy = blurtProxyToSelfAccount <;> simp [hroot]

/-- What one account lends the other receives, and both still own their shares. -/
theorem drift_lend {delegator delegatee : AccountName} {h k : Holder}
    (hh : b.holders.find? delegator = some h) (hk : b.holders.find? delegatee = some k)
    (hother : delegator ≠ delegatee) (lent amount : Int) :
    (((b.setDelegation (delegator, delegatee) lent).credit delegator
      .delegatedVestingShares amount).credit delegatee .receivedVestingShares amount).drift =
        b.drift := by
  have hk' : ((b.setDelegation (delegator, delegatee) lent).credit delegator
      .delegatedVestingShares amount).holders.find? delegatee = some k := by
    rw [find?_credit, if_neg hother.symm]
    exact hk
  have hh' : (b.setDelegation (delegator, delegatee) lent).holders.find? delegator = some h := hh
  rw [drift_credit hk', drift_credit hh', Holder.columns_credit_receivedVestingShares,
    Holder.columns_credit_delegatedVestingShares, sub_self, sub_self, add_zero, add_zero]
  rfl

/-- A new proxy passes on what the old end of the chain no longer counts. -/
theorem drift_setProxy (hacyclic : Links.AcyclicWithin blurtMaxProxyRecursionDepth b.link)
    (hb : b.Reaches name blurtMaxProxyRecursionDepth) {h : Holder} {proxy : AccountName}
    (hh : b.holders.find? name = some h) (hproxy : proxy ≠ blurtProxyToSelfAccount)
    (hb' : (((b.shiftVotes name (fun i => -h.voteDelta i)
      blurtMaxProxyRecursionDepth).clearVotes name).setProxy name proxy).Reaches name
        blurtMaxProxyRecursionDepth) :
    ((((b.shiftVotes name (fun i => -h.voteDelta i)
      blurtMaxProxyRecursionDepth).clearVotes name).setProxy name proxy).shiftVotes name
        h.voteDelta blurtMaxProxyRecursionDepth).drift = b.drift := by
  have hrow := find?_shiftVotes_self hacyclic name fun i => -h.voteDelta i
  rw [hh] at hrow
  have hset : (((b.shiftVotes name (fun i => -h.voteDelta i)
      blurtMaxProxyRecursionDepth).clearVotes name).setProxy name proxy).holders.find? name =
        some { h with proxy } := by
    rw [setProxy, find?_adjust, if_pos rfl, find?_clearVotes, hrow, Option.map_some]
  have hmoved : (((b.shiftVotes name (fun i => -h.voteDelta i)
      blurtMaxProxyRecursionDepth).clearVotes name).setProxy name proxy).drift =
        (b.shiftVotes name (fun i => -h.voteDelta i) blurtMaxProxyRecursionDepth).drift +
          (({ h with proxy } : Holder).columns - h.columns) := by
    rw [setProxy, drift_adjust ((find?_clearVotes name name).trans hrow)]
    rfl
  -- what was counted at the old end of the chain is counted at the new one
  rw [drift_shiftVotes _ _ le_rfl hb', hmoved, h.columns_setProxy _ h.canVote,
    drift_withdrawVotes hb hh]
  simp only [link_eq_none hset, if_neg hproxy, add_assoc, Drift.of_add]
  apply add_eq_left.mpr
  funext column
  cases column <;> simp only [Drift.of, Pi.zero_apply, add_zero]
  rw [← Holder.passed]
  split <;> omega

theorem drift_clearProxy (hacyclic : Links.AcyclicWithin blurtMaxProxyRecursionDepth b.link)
    (hb : b.Reaches name blurtMaxProxyRecursionDepth) {h : Holder}
    (hh : b.holders.find? name = some h) (hproxy : h.proxy ≠ blurtProxyToSelfAccount) :
    ((b.shiftVotes name (fun i => -h.voteDelta i) blurtMaxProxyRecursionDepth).setProxy name
      blurtProxyToSelfAccount).drift = b.drift := by
  have hrow := find?_shiftVotes_self hacyclic name fun i => -h.voteDelta i
  rw [hh] at hrow
  rw [setProxy, drift_adjust hrow, h.columns_setProxy _ h.canVote, drift_withdrawVotes hb hh,
    add_assoc, Drift.of_add]
  simp [hproxy]

/-- An account that declines to vote counts as a root from then on. -/
theorem drift_decline (hb : b.Proxies) {h : Holder} (hh : b.holders.find? name = some h) :
    (((b.shiftVotes name (fun i => -h.voteDelta i) blurtMaxProxyRecursionDepth).clearVotes
      name).decline name).drift = b.drift := by
  have hrow := find?_shiftVotes_self (hb.acyclic.within _) name fun i => -h.voteDelta i
  rw [hh] at hrow
  have hcleared : ((b.shiftVotes name (fun i => -h.voteDelta i)
      blurtMaxProxyRecursionDepth).clearVotes name).drift =
        (b.shiftVotes name (fun i => -h.voteDelta i) blurtMaxProxyRecursionDepth).drift := rfl
  rw [decline, drift_adjust ((find?_clearVotes name name).trans hrow), h.columns_setProxy _ false,
    hcleared, drift_withdrawVotes (hb.exist.reaches name _) hh, add_assoc, Drift.of_add]
  apply add_eq_left.mpr
  funext column
  cases column <;> simp only [Drift.of, Pi.zero_apply, add_zero, if_true]
  split <;> omega

/-- The regent's shares shrink in the totals, and in the votes where they are passed on. -/
theorem drift_shrinkRegent (hb : b.Reaches blurtRegentAccount blurtMaxProxyRecursionDepth)
    {h : Holder} (hh : b.holders.find? blurtRegentAccount = some h) (amount : Int) :
    ((b.setTotals fun t => { t with regentVestingShares := t.regentVestingShares - amount
      }).shiftVotes blurtRegentAccount (.single (-amount)) blurtMaxProxyRecursionDepth).drift =
        b.drift + .of 0 0 0 (if h.proxy = blurtProxyToSelfAccount then 0 else -amount) 0 := by
  have hreaches : (b.setTotals fun t =>
      { t with regentVestingShares := t.regentVestingShares - amount }).Reaches blurtRegentAccount
        blurtMaxProxyRecursionDepth := hb
  have htotals : (b.setTotals fun t =>
      { t with regentVestingShares := t.regentVestingShares - amount }).drift = b.drift := by
    rw [drift_setTotals]
    exact add_eq_left.mpr (sub_self _)
  rw [drift_single hreaches (h := h) hh, htotals]

/-- Every entry adds its label to the columns. -/
theorem Step.drift (hstep : Step may b d b') (hb : b.Proxies) : b'.drift = b.drift + d := by
  cases hstep with
  | @credit name fund amount h hh hfund =>
      rw [drift_credit hh, h.columns_credit_liquid fund amount hfund, add_sub_cancel_left]
  | rewardShares hh => exact drift_rewardShares hh _ _
  | rewardFund hfund => exact drift_creditRewardFund hfund _
  | @totals totals => exact drift_setTotals fun _ => totals
  | openEscrow hnew => rw [drift_setEscrow, Table.share_of_absent hnew, sub_zero]
  | setEscrow hold => rw [drift_setEscrow, Table.share_of_found hold]
  | closeEscrow hold => exact drift_closeEscrow hold
  | openSavingsWithdraw hnew => exact drift_openSavingsWithdraw hnew
  | closeSavingsWithdraw hold => exact drift_closeSavingsWithdraw hold
  | openAccount hnew => rw [drift_openAccount hnew, add_zero]
  | vest hh => exact drift_vest (hb.exist.reaches _ _) hh _
  | setPowerDown hh => rw [drift_setPowerDown hh, add_zero]
  | @withdraw name week powerDown h hh =>
      have hset : (b.setPowerDown name powerDown).holders.find? name =
          some { h with powerDown } := by
        rw [Books.setPowerDown, find?_adjust, if_pos rfl, hh, Option.map_some]
      have hexist : (b.setPowerDown name powerDown).ProxiesExist := hb.exist.adjust name fun _ => rfl
      rw [drift_vest (hexist.reaches name _) hset, drift_setPowerDown hh]
  | lend hh hk hother => rw [drift_lend hh hk hother, add_zero]
  | @giveBack delegator delegatee old amount k delegations hold hk =>
      have hk' : (b.openReturn delegator amount).holders.find? delegatee = some k := hk
      have hcredit := drift_credit hk' .receivedVestingShares (-amount)
      rw [Holder.columns_credit_receivedVestingShares, sub_self, add_zero] at hcredit
      rw [add_zero]
      exact hcredit
  | @closeReturn id delegator amount h hold hh =>
      have hcredit := drift_credit hh .delegatedVestingShares (-amount)
      rw [Holder.columns_credit_delegatedVestingShares, sub_self, add_zero] at hcredit
      rw [add_zero]
      exact hcredit
  | @setProxy name proxy h k hmay hh hk hproxy hcanVote havoids hnull =>
      have hproxies := Step.proxies (.setProxy hmay hh hk hproxy hcanVote havoids hnull) hb
      have hreaches := (hproxies.exist.reaches name blurtMaxProxyRecursionDepth).congr
        (link_shiftVotes _ _ _).symm fun _ hother => by rwa [isSome_shiftVotes] at hother
      rw [drift_setProxy (hb.acyclic.within _) (hb.exist.reaches _ _) hh hproxy hreaches, add_zero]
  | clearProxy hh hproxy =>
      rw [drift_clearProxy (hb.acyclic.within _) (hb.exist.reaches _ _) hh hproxy, add_zero]
  | decline hh => rw [drift_decline hb hh, add_zero]
  | burnShares hh =>
      rw [drift_credit hh, Holder.columns_credit_vestingShares, add_sub_cancel_left]
  | shrinkRegent hh => exact drift_shrinkRegent (hb.exist.reaches _ _) hh _
  | _ => exact (add_zero _).symm

end Books

end Ledger

end Blurt
