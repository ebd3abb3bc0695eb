import Blurt.Ledger.OperationRuns

/-! # What every operation conserves

An operation leaves the columns of the books as they were, whoever acts and whatever else is
in the books, as long as votes do not return to where they are shifted from, and every escrow
is in BLURT and has paid its fee once it is approved. Where an account on the way of the votes
is missing, the operation fails.
-/

namespace Blurt

namespace Ledger

open Outcome

theorem Holder.addProxied_proxy (depth : Nat) (delta : VoteDelta) (h : Holder) :
    (h.addProxied depth delta).proxy = h.proxy := rfl

namespace Books

variable {b c e : Books} {d d' : Drift} {name : AccountName} {h : Holder}

/-- What the columns rely on. -/
structure Coherent (b : Books) : Prop where
  acyclic : Links.AcyclicWithin blurtMaxProxyRecursionDepth b.link
  escrows : ∀ key e, b.escrows.find? key = some e →
    e.blurtBalance.symbol = .blurt ∧ e.pendingFee.symbol = .blurt ∧
      (e.isApproved → e.pendingFee.amount = 0)
  savings : ∀ key w, b.savingsWithdraws.find? key = some w → w.amount.symbol = .blurt

theorem escrows_shiftVotes (account : AccountName) (delta : VoteDelta) (levels : Nat) :
    (b.shiftVotes account delta levels).escrows = b.escrows := by
  rw [shiftVotes_frame]

theorem savingsWithdraws_shiftVotes (account : AccountName) (delta : VoteDelta) (levels : Nat) :
    (b.shiftVotes account delta levels).savingsWithdraws = b.savingsWithdraws := by
  rw [shiftVotes_frame]

theorem Coherent.relink (hb : b.Coherent)
    (hacyclic : Links.AcyclicWithin blurtMaxProxyRecursionDepth c.link)
    (hescrows : c.escrows = b.escrows) (hsavings : c.savingsWithdraws = b.savingsWithdraws) :
    c.Coherent :=
  ⟨hacyclic, hescrows ▸ hb.escrows, hsavings ▸ hb.savings⟩

theorem Coherent.congr (hb : b.Coherent) (hlink : c.link = b.link) (hescrows : c.escrows = b.escrows)
    (hsavings : c.savingsWithdraws = b.savingsWithdraws) : c.Coherent :=
  hb.relink (hlink ▸ hb.acyclic) hescrows hsavings

/-- Coherent books grow by `d` in each column and stay coherent. -/
def Moves (b : Books) (d : Drift) (c : Books) : Prop :=
  b.Coherent → c.drift = b.drift + d ∧ c.Coherent

theorem Moves.refl : b.Moves 0 b := fun hb => ⟨(add_zero _).symm, hb⟩

theorem Moves.append (hfirst : b.Moves d c) (hsecond : c.Moves d' e) : b.Moves (d + d') e := by
  intro hb
  obtain ⟨hdrift, hc⟩ := hfirst hb
  obtain ⟨hdrift', he⟩ := hsecond hc
  exact ⟨by rw [hdrift', hdrift, add_assoc], he⟩

theorem Moves.relabel (hmoves : b.Moves d c) (hlabel : d = d') : b.Moves d' c := hlabel ▸ hmoves

/-- What one entry takes the next one gives. -/
theorem Moves.settle {taken given : Int} (hfirst : b.Moves (.of taken 0 0 0 0) c)
    (hsecond : c.Moves (.of given 0 0 0 0) e) (hsum : taken + given = 0) : b.Moves 0 e := by
  refine (hfirst.append hsecond).relabel ?_
  rw [Drift.of_add, hsum]
  simp

/-! ## Entries -/

/-- What neither moves money nor changes a proxy. -/
theorem Moves.quiet (hdrift : c.drift = b.drift) (hlink : c.link = b.link)
    (hescrows : c.escrows = b.escrows) (hsavings : c.savingsWithdraws = b.savingsWithdraws) :
    b.Moves 0 c :=
  fun hb => ⟨by rw [hdrift, add_zero], hb.congr hlink hescrows hsavings⟩

theorem Moves.credit (hh : b.holders.find? name = some h) {fund : Fund} (hfund : fund.isLiquid)
    (amount : Int) : b.Moves (.of amount 0 0 0 0) (b.credit name fund amount) := by
  refine fun hb => ⟨?_, hb.congr (link_credit _ _ _) rfl rfl⟩
  rw [drift_credit hh, h.columns_credit_liquid fund amount hfund, add_sub_cancel_left]

/-- What is lent stays with its owner. -/
theorem Moves.creditLoan {fund : Fund}
    (hfund : fund = .delegatedVestingShares ∨ fund = .receivedVestingShares) (amount : Int) :
    b.Moves 0 (b.credit name fund amount) := by
  refine .quiet ?_ (link_credit _ _ _) rfl rfl
  cases hname : b.holders.find? name with
  | none => rw [Books.credit, Books.adjust, Table.adjust, hname]
  | some h =>
      rw [drift_credit hname]
      rcases hfund with rfl | rfl
      · rw [h.columns_credit_delegatedVestingShares, sub_self, add_zero]
      · rw [h.columns_credit_receivedVestingShares, sub_self, add_zero]

theorem Moves.setTotals (f : Totals → Totals) :
    b.Moves (b.totals.columns - (f b.totals).columns) (b.setTotals f) :=
  fun hb => ⟨drift_setTotals f, hb.congr rfl rfl rfl⟩

theorem Moves.openAccount {auth : AccountAuthority} (hnew : b.holders.find? name = none) :
    b.Moves 0 (b.openAccount name auth) :=
  .quiet (drift_openAccount hnew) (link_openAccount hnew) rfl rfl

theorem Moves.vest (hreaches : b.Reaches name blurtMaxProxyRecursionDepth)
    (hh : b.holders.find? name = some h) (amount : Int) :
    b.Moves (.of 0 amount amount amount 0) ((b.credit name .vestingShares amount).shiftVotes name
      (.single amount) blurtMaxProxyRecursionDepth) :=
  fun hb => ⟨drift_vest hreaches hh amount,
    hb.congr ((link_shiftVotes _ _ _).trans (link_credit _ _ _)) (escrows_shiftVotes _ _ _)
      (savingsWithdraws_shiftVotes _ _ _)⟩

theorem Moves.setProxy {proxy : AccountName} (hreaches : b.Reaches name blurtMaxProxyRecursionDepth)
    (hh : b.holders.find? name = some h) (hproxy : proxy ≠ blurtProxyToSelfAccount)
    (havoids : ∀ n, Links.climb b.link n proxy ≠ some name)
    (hreaches' : (((b.shiftVotes name (fun i => -h.voteDelta i)
      blurtMaxProxyRecursionDepth).clearVotes name).setProxy name proxy).Reaches name
        blurtMaxProxyRecursionDepth) :
    b.Moves 0 ((((b.shiftVotes name (fun i => -h.voteDelta i)
      blurtMaxProxyRecursionDepth).clearVotes name).setProxy name proxy).shiftVotes name
        h.voteDelta blurtMaxProxyRecursionDepth) := by
  intro hb
  refine ⟨?_, hb.relink ?_ ?_ ?_⟩
  · rw [drift_setProxy hb.acyclic hreaches hh hproxy hreaches', add_zero]
  · rw [link_passVotes hh hproxy]
    exact acyclicWithin_update_some hb.acyclic havoids
  · exact (escrows_shiftVotes _ _ _).trans (escrows_shiftVotes (b := b) _ _ _)
  · exact (savingsWithdraws_shiftVotes _ _ _).trans (savingsWithdraws_shiftVotes (b := b) _ _ _)

theorem Moves.clearProxy (hreaches : b.Reaches name blurtMaxProxyRecursionDepth)
    (hh : b.holders.find? name = some h) (hproxy : h.proxy ≠ blurtProxyToSelfAccount) :
    b.Moves 0 ((b.shiftVotes name (fun i => -h.voteDelta i)
      blurtMaxProxyRecursionDepth).setProxy name blurtProxyToSelfAccount) := by
  intro hb
  refine ⟨?_, hb.relink ?_ (escrows_shiftVotes (b := b) _ _ _)
    (savingsWithdraws_shiftVotes (b := b) _ _ _)⟩
  · rw [drift_clearProxy hb.acyclic hreaches hh hproxy, add_zero]
  · rw [link_keepVotes hh]
    exact acyclicWithin_update_none name hb.acyclic

theorem Moves.rewardShares (hh : b.holders.find? name = some h) (blurt shares : Int) :
    b.Moves (.of 0 shares 0 0 blurt)
      ((b.credit name .rewardVestingBlurt blurt).credit name .rewardVestingBalance shares) :=
  fun hb => ⟨drift_rewardShares hh blurt shares,
    hb.congr ((link_credit _ _ _).trans (link_credit _ _ _)) rfl rfl⟩

theorem Moves.setEscrow {key : AccountName × Nat} {escrow : Escrow}
    (hescrow : b.Coherent → escrow.blurtBalance.symbol = .blurt ∧ escrow.pendingFee.symbol = .blurt ∧
      (escrow.isApproved → escrow.pendingFee.amount = 0)) :
    b.Moves (.of (escrow.content - b.escrows.share (fun _ e => e.content) key) 0 0 0 0)
      (b.setEscrow key escrow) := by
  refine fun hb => ⟨drift_setEscrow key escrow, hb.acyclic, fun other f hf => ?_, hb.savings⟩
  rw [Books.setEscrow, Table.find?_set] at hf
  split at hf
  · cases hf
    exact hescrow hb
  · exact hb.escrows other f hf

theorem Moves.openEscrow {key : AccountName × Nat} {escrow : Escrow}
    (hnew : b.escrows.find? key = none) (hbalance : escrow.blurtBalance.symbol = .blurt)
    (hfee : escrow.pendingFee.symbol = .blurt) (hopen : ¬ escrow.isApproved) :
    b.Moves (.of escrow.content 0 0 0 0) (b.setEscrow key escrow) := by
  refine (Moves.setEscrow fun _ => ⟨hbalance, hfee, fun hall => absurd hall hopen⟩).relabel ?_
  rw [Table.share_of_absent hnew, sub_zero]

theorem Moves.closeEscrow {key : AccountName × Nat} {old : Escrow}
    (hold : b.escrows.find? key = some old) :
    b.Moves (.of (-old.content) 0 0 0 0) (b.closeEscrow key) := by
  refine fun hb => ⟨drift_closeEscrow hold, hb.acyclic, fun other f hf => ?_, hb.savings⟩
  rw [Books.closeEscrow, Table.find?_remove] at hf
  split at hf
  · cases hf
  · exact hb.escrows other f hf

theorem Moves.openSavingsWithdraw {key : AccountName × Nat} {w : SavingsWithdraw}
    (hnew : b.savingsWithdraws.find? key = none) (hblurt : w.amount.symbol = .blurt) :
    b.Moves (.of w.amount.amount 0 0 0 0) (b.setSavingsWithdraw key w) := by
  refine fun hb => ⟨drift_openSavingsWithdraw hnew, hb.acyclic, hb.escrows, fun other v hv => ?_⟩
  rw [setSavingsWithdraw, Table.find?_set] at hv
  split at hv
  · cases hv
    exact hblurt
  · exact hb.savings other v hv

theorem Moves.closeSavingsWithdraw {key : AccountName × Nat} {w : SavingsWithdraw}
    (hold : b.savingsWithdraws.find? key = some w) :
    b.Moves (.of (-w.amount.amount) 0 0 0 0) (b.closeSavingsWithdraw key) := by
  refine fun hb => ⟨drift_closeSavingsWithdraw hold, hb.acyclic, hb.escrows, fun other v hv => ?_⟩
  rw [Books.closeSavingsWithdraw, Table.find?_remove] at hv
  split at hv
  · cases hv
  · exact hb.savings other v hv

/-! ## The way of the votes -/

theorem Reaches.of_root {levels : Nat} (hlink : b.link name = none) : b.Reaches name levels := by
  intro n _ last hclimb
  rw [Links.climb_of_root hlink] at hclimb
  cases hclimb

theorem Reaches.of_next {proxy : AccountName} {levels : Nat} (hlink : b.link name = some proxy)
    (hproxy : (b.holders.find? proxy).isSome) (hrest : b.Reaches proxy levels) :
    b.Reaches name (levels + 1) := by
  intro n hn last hclimb
  rw [Links.climb_of_link hlink] at hclimb
  cases n with
  | zero =>
      cases hclimb
      exact hproxy
  | succ n => exact hrest n (Nat.lt_of_succ_lt_succ hn) last hclimb

/-- A change of one account that keeps its proxy leaves the way as it was. -/
theorem Reaches.of_adjust {account : AccountName} {levels : Nat} {f : Holder → Holder}
    (hf : ∀ h, (f h).proxy = h.proxy) (hb : (b.adjust name f).Reaches account levels) :
    b.Reaches account levels :=
  hb.congr (link_adjust hf).symm fun other hother => by rwa [isSome_adjust] at hother

theorem reaches_credit {account : AccountName} {levels : Nat} {fund : Fund} {amount : Int} :
    (b.credit name fund amount).Reaches account levels ↔ b.Reaches account levels :=
  ⟨fun hb => hb.of_adjust (Holder.credit_proxy · fund amount),
    fun hb => hb.adjust name (Holder.credit_proxy · fund amount)⟩

theorem reaches_setTotals {account : AccountName} {levels : Nat} {f : Totals → Totals} :
    (b.setTotals f).Reaches account levels ↔ b.Reaches account levels := Iff.rfl

/-- A claim moves liquid rewards to the balance, and rewards in shares to the shares. -/
theorem Moves.claim (hreaches : b.Reaches name blurtMaxProxyRecursionDepth)
    (hh : b.holders.find? name = some h) (blurt moved shares : Int) :
    b.Moves 0 (((((((b.credit name .rewardBlurtBalance (-blurt)).credit name .balance
      blurt).credit name .vestingShares shares).credit name .rewardVestingBalance (-shares)).credit
        name .rewardVestingBlurt (-moved)).setTotals fun t =>
          (t.addVesting moved shares).addPending (-moved) (-shares)).shiftVotes name
            (.single shares) blurtMaxProxyRecursionDepth) := by
  -- the shares come last, where the votes for them are shifted
  let spent := b.credit name .rewardBlurtBalance (-blurt)
  let paid := spent.credit name .balance blurt
  let claimed := (paid.credit name .rewardVestingBlurt (-moved)).credit name .rewardVestingBalance
    (-shares)
  let f : Totals → Totals := fun t => (t.addVesting moved shares).addPending (-moved) (-shares)
  have hspent := find?_credit_some hh .rewardBlurtBalance (-blurt)
  have hpaid := find?_credit_some hspent .balance blurt
  have hclaimed := find?_credit_some (find?_credit_some hpaid .rewardVestingBlurt (-moved))
    .rewardVestingBalance (-shares)
  have hway : (claimed.setTotals f).Reaches name blurtMaxProxyRecursionDepth := by
    simpa only [claimed, paid, spent, reaches_setTotals, reaches_credit] using hreaches
  have hspend : b.Moves _ spent := .credit hh rfl _
  have hpay : spent.Moves _ paid := .credit hspent rfl _
  have hpending : paid.Moves _ claimed := .rewardShares hpaid _ _
  have htotals : claimed.Moves _ (claimed.setTotals f) := .setTotals f
  have hvest : (claimed.setTotals f).Moves _ _ := .vest hway hclaimed shares
  rw [credit_comm _ _ _ .vestingShares .rewardVestingBalance, credit_comm _ _ _ .vestingShares
    .rewardVestingBlurt, credit_comm _ _ _ .rewardVestingBalance .rewardVestingBlurt]
  refine ((((hspend.append hpay).append hpending).append htotals).append hvest).relabel ?_
  funext column
  cases column <;> simp [claimed, paid, spent, f, Totals.columns, Totals.addVesting,
    Totals.addPending, Drift.of]
  all_goals omega

end Books

namespace Database

variable {db db' : Database} {name : AccountName} {host : Host}

theorem link_of_account {a : Account} (ha : db.accounts.find? name = some a) :
    db.books.link name = if a.proxy = blurtProxyToSelfAccount then none else some a.proxy := by
  rw [Books.link_of_found (find?_holders_some ha), Account.holder_proxy]

/-- The next account on the way has been found where votes were added to it. -/
theorem reaches_of_addProxied {a : Account} {depth levels : Nat} {delta : VoteDelta}
    {updated : Database} (ha : db.accounts.find? name = some a)
    (hproxy : a.proxy ≠ blurtProxyToSelfAccount)
    (hupdated : (db.modifyAccount a.proxy fun p => p.addProxied depth delta) = .ok updated)
    (hrest : updated.books.Reaches a.proxy levels) : db.books.Reaches name (levels + 1) := by
  have hlink := link_of_account ha
  rw [if_neg hproxy] at hlink
  obtain ⟨p, -, hp, -⟩ := modifyAccount_eq_ok.mp hupdated
  obtain ⟨hbooks, -⟩ := modifyAccount_books hupdated fun _ _ => holder_addProxied
  rw [hbooks] at hrest
  refine .of_next hlink ?_ (.of_adjust (Holder.addProxied_proxy _ _) hrest)
  rw [find?_holders_some hp]
  rfl

theorem reaches_of_root {a : Account} {levels : Nat} (ha : db.accounts.find? name = some a)
    (hself : ¬ a.proxy ≠ blurtProxyToSelfAccount) : db.books.Reaches name levels := by
  have hlink := link_of_account ha
  rw [if_pos (not_not.mp hself)] at hlink
  exact .of_root hlink

/-- Votes that were shifted have found every account on their way. -/
theorem adjustProxiedShare_reaches {delta : Int} {levels : Nat}
    (h : db.adjustProxiedShare name delta levels = .ok db') : db.books.Reaches name levels := by
  induction levels generalizing db name with
  | zero => exact fun n hn => absurd hn n.not_lt_zero
  | succ levels ih =>
      simp only [adjustProxiedShare, bind_eq_ok, getAccount_eq_ok] at h
      obtain ⟨a, ha, h⟩ := h
      split at h
      · rename_i hproxy
        obtain ⟨updated, hupdated, h⟩ := bind_eq_ok.mp h
        exact reaches_of_addProxied ha hproxy hupdated (ih h)
      · rename_i hself
        exact reaches_of_root ha hself

theorem adjustProxiedArray_reaches {delta : VoteDelta} {levels : Nat}
    (h : db.adjustProxiedArray name delta levels = .ok db') : db.books.Reaches name levels := by
  induction levels generalizing db name with
  | zero => exact fun n hn => absurd hn n.not_lt_zero
  | succ levels ih =>
      simp only [adjustProxiedArray, bind_eq_ok, getAccount_eq_ok] at h
      obtain ⟨a, ha, h⟩ := h
      split at h
      · rename_i hproxy
        obtain ⟨updated, hupdated, h⟩ := bind_eq_ok.mp h
        exact reaches_of_addProxied ha hproxy hupdated (ih h)
      · rename_i hself
        exact reaches_of_root ha hself

/-! ## Balances and fees -/

theorem adjustBalance_moves {delta : Asset} (h : db.adjustBalance name delta = .ok db')
    (hblurt : delta.symbol = .blurt) : db.books.Moves (.of delta.amount 0 0 0 0) db'.books := by
  obtain ⟨a, ha⟩ := adjustBalance_found h
  obtain ⟨hbooks, -⟩ := adjustBalance_blurt h hblurt
  rw [hbooks]
  exact .credit (find?_holders_some ha) rfl _

theorem adjustSavingsBalance_moves {delta : Asset}
    (h : db.adjustSavingsBalance name delta = .ok db') :
    db.books.Moves (.of delta.amount 0 0 0 0) db'.books := by
  obtain ⟨-, hbooks, -⟩ := adjustSavingsBalance_books h
  obtain ⟨a, -, ha, -⟩ := modifyAccount_eq_ok.mp h
  rw [hbooks]
  exact .credit (find?_holders_some ha) rfl _

theorem payFee_moves {payer : AccountName} {fee : Int} (h : db.payFee payer fee = .ok db') :
    db.books.Moves 0 db'.books := by
  simp only [payFee, bind_eq_ok, ensure_eq_ok] at h
  obtain ⟨_, -, _, -, debited, hdebited, h⟩ := h
  exact (adjustBalance_moves hdebited rfl).settle (adjustBalance_moves h rfl) (neg_add_cancel _)

theorem processTxFee_moves {trx : SignedTransaction} (h : db.processTxFee trx = .ok db') :
    db.books.Moves 0 db'.books := by
  unfold processTxFee at h
  split at h
  · obtain ⟨fee, -, h⟩ := bind_eq_ok.mp h
    apply forEach_invariant (fun state => db.books.Moves 0 state.books) _ .refl h
    intro state auth next _ hstate hnext
    exact hstate.append (payFee_moves hnext)
  · cases h
    exact .refl

/-! ## Transfers and savings -/

theorem transfer_moves {o : TransferOperation} (h : db.transfer o = .ok db') :
    db.books.Moves 0 db'.books := by
  simp only [transfer, bind_eq_ok, ensure_eq_ok] at h
  obtain ⟨_, hblurt, debited, hdebited, h⟩ := h
  exact (adjustBalance_moves hdebited hblurt).settle (adjustBalance_moves h hblurt)
    (neg_add_cancel _)

theorem transferToSavings_moves {op : TransferToSavingsOperation}
    (hblurt : op.amount.symbol = .blurt) (h : db.transferToSavings op = .ok db') :
    db.books.Moves 0 db'.books := by
  simp only [transferToSavings, bind_eq_ok, ensure_eq_ok] at h
  obtain ⟨_, -, _, -, _, -, debited, hdebited, h⟩ := h
  exact (adjustBalance_moves hdebited hblurt).settle (adjustSavingsBalance_moves h)
    (neg_add_cancel _)

theorem transferFromSavings_moves {op : TransferFromSavingsOperation}
    (h : db.transferFromSavings op = .ok db') : db.books.Moves 0 db'.books := by
  obtain ⟨hblurt, hnew, hbooks⟩ := transferFromSavings_books h
  simp only [transferFromSavings, bind_eq_ok, ensure_eq_ok] at h
  obtain ⟨_, -, _, -, _, -, _, -, _, -, _, -, debited, hdebited, -⟩ := h
  have hdebit := adjustSavingsBalance_moves hdebited
  obtain ⟨-, hdebitBooks, -⟩ := adjustSavingsBalance_books hdebited
  rw [hdebitBooks] at hdebit
  rw [hbooks]
  exact hdebit.settle (.openSavingsWithdraw hnew hblurt) (neg_add_cancel _)

theorem cancelTransferFromSavings_moves {op : CancelTransferFromSavingsOperation}
    (h : db.cancelTransferFromSavings op = .ok db') : db.books.Moves 0 db'.books := by
  obtain ⟨swo, hswo, -, hbooks⟩ := cancelTransferFromSavings_books h
  simp only [cancelTransferFromSavings, getSavingsWithdraw, bind_eq_ok, require_eq_ok] at h
  obtain ⟨found, hfound, credited, hcredited, -⟩ := h
  have hsame : found = swo := by
    rw [find?_savingsWithdraws, hfound] at hswo
    exact Option.some.inj hswo
  subst hsame
  have hcredit := adjustSavingsBalance_moves hcredited
  obtain ⟨-, hcreditBooks, -⟩ := adjustSavingsBalance_books hcredited
  rw [hcreditBooks] at hcredit
  rw [hbooks]
  exact hcredit.settle (.closeSavingsWithdraw hswo) (add_neg_cancel _)

/-! ## Escrows -/

theorem escrowTransfer_moves {o : EscrowTransferOperation} (hfee : o.fee.symbol = .blurt)
    (h : db.escrowTransfer o = .ok db') : db.books.Moves 0 db'.books := by
  obtain ⟨hblurt, hnew, hbooks⟩ := escrowTransfer_books hfee h
  simp only [escrowTransfer, bind_eq_ok, ensure_eq_ok, shareType_eq_ok, if_pos hfee] at h
  obtain ⟨_, -, _, -, _, -, _, -, _, -, _, -, _, ⟨-, rfl⟩, debited, hdebited, -⟩ := h
  have hdebit := adjustBalance_moves hdebited hblurt
  obtain ⟨hdebitBooks, -⟩ := adjustBalance_blurt hdebited hblurt
  rw [hdebitBooks] at hdebit
  rw [hbooks]
  refine hdebit.settle (.openEscrow hnew hblurt hfee (by simp [Escrow.isApproved])) ?_
  simp [Escrow.content, Asset.neg_amount]

/-- An escrow keeps its BLURT until it is closed. -/
theorem escrowApprove_moves {o : EscrowApproveOperation} (hb : db.books.Coherent)
    (h : db.escrowApprove o = .ok db') : db.books.Moves 0 db'.books := by
  simp only [escrowApprove, getEscrow, bind_eq_ok, ensure_eq_ok, require_eq_ok] at h
  obtain ⟨escrow, hfound, _, -, _, hagent, _, -, approved, happroved, h⟩ := h
  have hescrow : db.books.escrows.find? (o.fromAccount, o.escrowId) = some escrow := by
    rw [find?_escrows, hfound]
  obtain ⟨hbalance, hfee, hsettled⟩ := hb.escrows _ _ hescrow
  have happroved := approveEscrow_eq_ok happroved
  split at h
  · simp only [bind_eq_ok, pure_eq_ok] at h
    obtain ⟨refunded, hrefunded, returned, hreturned, rfl⟩ := h
    have hrefund := adjustBalance_moves hrefunded hbalance
    have hreturn := adjustBalance_moves hreturned hfee
    have hold : returned.books.escrows.find? (o.fromAccount, o.escrowId) = some escrow := by
      rw [(adjustBalance_blurt hreturned hfee).1, (adjustBalance_blurt hrefunded hbalance).1]
      exact hescrow
    rw [books_closeEscrow]
    refine ((hrefund.append hreturn).append (.closeEscrow hold)).relabel ?_
    rw [Drift.of_add, Drift.of_add]
    simp [Escrow.content]
  · split at h
    · simp only [bind_eq_ok, pure_eq_ok] at h
      obtain ⟨paid, hpaid, rfl⟩ := h
      have hpay := adjustBalance_moves hpaid (by rw [happroved]; exact hfee)
      have hold : paid.books.escrows.find? (o.fromAccount, o.escrowId) = some escrow := by
        rw [(adjustBalance_blurt hpaid (by rw [happroved]; exact hfee)).1]
        exact hescrow
      rw [books_setEscrow]
      refine hpay.settle (.setEscrow fun _ => ?_) ?_
      · rw [happroved]
        exact ⟨hbalance, hfee, fun _ => rfl⟩
      · rw [Table.share_of_found hold, happroved]
        simp [Escrow.content]
    · rename_i hopen
      cases h
      rw [books_setEscrow]
      refine (Books.Moves.setEscrow fun _ => ?_).relabel ?_
      · refine ⟨?_, ?_, fun hall => absurd hall hopen⟩ <;> rw [happroved]
        · exact hbalance
        · exact hfee
      · rw [Table.share_of_found hescrow, happroved]
        simp [Escrow.content]

theorem escrowDispute_moves {o : EscrowDisputeOperation} (hb : db.books.Coherent)
    (h : db.escrowDispute o = .ok db') : db.books.Moves 0 db'.books := by
  obtain ⟨escrow, hescrow, hbooks⟩ := escrowDispute_books h
  obtain ⟨hbalance, hfee, hsettled⟩ := hb.escrows _ _ hescrow
  rw [hbooks]
  refine (Books.Moves.setEscrow fun _ => ?_).relabel ?_
  · exact ⟨hbalance, hfee, hsettled⟩
  · rw [Table.share_of_found hescrow]
    simp [Escrow.content]

/-- What is released leaves the escrow, which has no fee left. -/
theorem escrowRelease_moves {o : EscrowReleaseOperation} (hb : db.books.Coherent)
    (h : db.escrowRelease o = .ok db') : db.books.Moves 0 db'.books := by
  simp only [escrowRelease, getEscrow, bind_eq_ok, ensure_eq_ok, require_eq_ok,
    shareType_eq_ok] at h
  obtain ⟨_, -, e, hfound, _, hsymbol, _, -, _, -, _, -, _, -, _, happroved, _, -, paid, hpaid,
    _, ⟨-, rfl⟩, h⟩ := h
  have he : db.books.escrows.find? (o.fromAccount, o.escrowId) = some e := by
    rw [find?_escrows, hfound]
  obtain ⟨hbalance, hfee, hsettled⟩ := hb.escrows _ _ he
  have hblurt : o.blurtAmount.symbol = .blurt := hsymbol.symm.trans hbalance
  have hpay := adjustBalance_moves hpaid hblurt
  have hold : paid.books.escrows.find? (o.fromAccount, o.escrowId) = some e := by
    rw [(adjustBalance_blurt hpaid hblurt).1]
    exact he
  have hfree := hsettled happroved
  split at h
  · cases h
    rw [books_closeEscrow]
    refine hpay.settle (.closeEscrow hold) ?_
    rw [Escrow.content]
    omega
  · cases h
    rw [books_setEscrow]
    refine hpay.settle (.setEscrow fun _ => ⟨hbalance, hfee, hsettled⟩) ?_
    rw [Table.share_of_found hold]
    simp [Escrow.content]

/-! ## Vesting shares -/

theorem createVesting_moves {liquid : Asset} {newVesting : Int}
    (h : db.createVesting name liquid = .ok (db', newVesting)) :
    db.books.Moves (.of liquid.amount 0 0 0 0) db'.books := by
  obtain ⟨-, hbooks, -⟩ := createVesting_books h
  simp only [createVesting, bind_eq_ok, pure_eq_ok, shareType_eq_ok, Prod.mk.injEq] at h
  obtain ⟨_, -, price, -, v, -, charged, hcharged, credited, hcredited, _, ⟨-, rfl⟩, _, ⟨-, rfl⟩,
    voted, hvoted, rfl, rfl⟩ := h
  obtain ⟨a, -, ha, -⟩ := modifyAccount_eq_ok.mp hcharged
  obtain ⟨hmana, -⟩ := modifyAccount_quiet hcharged fun _ _ => Account.holder_updateManabar
  obtain ⟨-, hcredit, -⟩ := adjustBalance_vests hcredited rfl
  have hreaches := adjustProxiedShare_reaches hvoted
  rw [books_setDgp (f := Totals.addVesting liquid.amount v) credited rfl, hcredit, hmana] at hreaches
  have hway : (db.books.setTotals (Totals.addVesting liquid.amount v)).Reaches name
      blurtMaxProxyRecursionDepth := Books.reaches_credit.mp hreaches
  rw [hbooks]
  refine ((Books.Moves.setTotals (Totals.addVesting liquid.amount v)).append
    (.vest hway (find?_holders_some ha) v)).relabel ?_
  funext column
  cases column <;> simp [Totals.columns, Totals.addVesting, Drift.of]

theorem transferToVesting_moves {o : TransferToVestingOperation}
    (h : db.transferToVesting o = .ok db') : db.books.Moves 0 db'.books := by
  simp only [transferToVesting, bind_eq_ok, ensure_eq_ok, pure_eq_ok, Prod.exists] at h
  obtain ⟨_, -, _, -, _, hblurt, debited, hdebited, vested, newVesting, hvested, rfl⟩ := h
  exact (adjustBalance_moves hdebited hblurt).settle (createVesting_moves hvested) (neg_add_cancel _)

theorem withdrawVesting_moves {o : WithdrawVestingOperation} (h : db.withdrawVesting o = .ok db') :
    db.books.Moves 0 db'.books := by
  obtain ⟨account, haccount, -, -, hbooks⟩ := withdrawVesting_books h
  rw [hbooks]
  exact .quiet (Books.drift_setPowerDown (find?_holders_some haccount) _)
    (Books.link_setPowerDown _ _) rfl rfl

theorem claimRewardBalance_moves {op : ClaimRewardBalanceOperation}
    (h : db.claimRewardBalance op = .ok db') : db.books.Moves 0 db'.books := by
  obtain ⟨acnt, -, hacnt, -⟩ := claimRewardBalance_checks h
  obtain ⟨moved, claimed, -, hclaimed, hvoted⟩ := claimRewardBalance_steps h
  obtain ⟨hshift, -⟩ := adjustProxiedShare_books hvoted
  have hway := adjustProxiedShare_reaches hvoted
  rw [hclaimed] at hway hshift
  simp only [Books.reaches_setTotals, Books.reaches_credit] at hway
  rw [hshift]
  exact .claim hway (find?_holders_some hacnt) _ _ _

/-- A delegation moves no shares. -/
theorem delegateVestingShares_moves {op : DelegateVestingSharesOperation}
    (h : db.delegateVestingShares op = .ok db') : db.books.Moves 0 db'.books := by
  have hset : ∀ (b : Books) key shares, b.Moves 0 (b.setDelegation key shares) :=
    fun _ _ _ => .quiet rfl rfl rfl rfl
  have hreturn : ∀ (b : Books) delegator shares, b.Moves 0 (b.openReturn delegator shares) :=
    fun _ _ _ => .quiet rfl rfl rfl rfl
  have hclose : ∀ (b : Books) key, b.Moves 0 (b.closeDelegation key) :=
    fun _ _ => .quiet rfl rfl rfl rfl
  obtain ⟨delegator, updated, -, -, ⟨-, -, hbooks⟩ | ⟨old, -, ⟨-, -, hbooks⟩ | ⟨-, hbooks⟩⟩⟩ :=
    delegateVestingShares_books h
  · rw [hbooks]
    exact ((hset _ _ _).append (.creditLoan (.inl rfl) _)).append (.creditLoan (.inr rfl) _)
  · rw [hbooks]
    exact (Books.Moves.append (.creditLoan (.inl rfl) _) (.creditLoan (.inr rfl) _)).append
      (hset _ _ _)
  · rw [hbooks]
    split
    · exact ((hreturn _ _ _).append (.creditLoan (.inr rfl) _)).append (hset _ _ _)
    · exact ((hreturn _ _ _).append (.creditLoan (.inr rfl) _)).append (hclose _ _)

/-! ## Accounts -/

theorem accountCreate_moves {o : AccountCreateOperation} (hblurt : o.fee.symbol = .blurt)
    (h : db.accountCreate o = .ok db') : db.books.Moves 0 db'.books := by
  simp only [accountCreate, bind_eq_ok, ensure_eq_ok] at h
  obtain ⟨_, -, _, -, _, -, _, -, _, -, debited, hdebited, burned, hburned, h⟩ := h
  obtain ⟨hnew, hbooks⟩ := createAccount_books h
  have hpaid : db.books.Moves 0 burned.books :=
    (adjustBalance_moves hdebited hblurt).settle (adjustBalance_moves hburned hblurt)
      (neg_add_cancel _)
  rw [hbooks]
  exact hpaid.append (.openAccount hnew)

theorem claimAccount_moves {o : ClaimAccountOperation} (h : claimAccount host db o = .ok db') :
    db.books.Moves 0 db'.books := by
  obtain ⟨hnull, hbooks⟩ := claimAccount_books h
  simp only [claimAccount, bind_eq_ok, ensure_eq_ok, getAccount_eq_ok] at h
  obtain ⟨_, -, creator, hcreator, -⟩ := h
  obtain ⟨null, hnull⟩ := Option.isSome_iff_exists.mp hnull
  have hexist : ((db.books.credit blurtNullAccount .balance o.fee.amount).holders.find?
      o.creator).isSome := by
    rw [Books.credit, Books.isSome_adjust, find?_holders_some hcreator]
    rfl
  obtain ⟨payer, hpayer⟩ := Option.isSome_iff_exists.mp hexist
  rw [hbooks]
  exact (Books.Moves.credit hnull rfl _).settle (.credit hpayer rfl _) (add_neg_cancel _)

theorem createClaimedAccount_moves {o : CreateClaimedAccountOperation}
    (h : db.createClaimedAccount o = .ok db') : db.books.Moves 0 db'.books := by
  obtain ⟨hnew, hbooks⟩ := createClaimedAccount_books h
  rw [hbooks]
  exact .openAccount hnew

theorem accountUpdate_moves {o : AccountUpdateOperation} (h : db.accountUpdate o = .ok db') :
    db.books.Moves 0 db'.books := by
  obtain ⟨owned, auth, howned, hbooks⟩ := accountUpdate_books h
  rw [hbooks]
  rcases howned with rfl | ⟨previous, updated, rfl⟩
  · exact .quiet rfl rfl rfl rfl
  · exact .quiet rfl rfl rfl rfl

theorem recoverAccount_moves {o : RecoverAccountOperation} (h : db.recoverAccount o = .ok db') :
    db.books.Moves 0 db'.books := by
  obtain ⟨-, auth, -, hbooks⟩ := recoverAccount_books h
  rw [hbooks]
  exact .quiet rfl rfl rfl rfl

/-! ## Witnesses and proxies -/

theorem witnessUpdate_moves {o : WitnessUpdateOperation} (h : db.witnessUpdate o = .ok db') :
    db.books.Moves 0 db'.books := by
  rw [witnessUpdate_books h]
  exact .quiet rfl rfl rfl rfl

theorem witnessSetProperties_moves {o : WitnessSetPropertiesOperation}
    (h : witnessSetProperties host db o = .ok db') : db.books.Moves 0 db'.books := by
  simp only [witnessSetProperties, getWitness, ensureEntry, bind_eq_ok, ensure_eq_ok,
    require_eq_ok] at h
  obtain ⟨witness, hwitness, _, -, _, -, _, -, _, -, h⟩ := h
  have hquiet := books_setWitness_quiet db (Witness.setProperties witness o.props) hwitness rfl
  split at h
  · obtain ⟨fee, -, h⟩ := bind_eq_ok.mp h
    have hpaid := payFee_moves h
    rwa [hquiet] at hpaid
  · cases h
    rw [hquiet]
    exact .refl

theorem accountWitnessVote_moves {o : AccountWitnessVoteOperation}
    (h : db.accountWitnessVote o = .ok db') : db.books.Moves 0 db'.books := by
  obtain ⟨voter, -, -, -, ⟨-, -, -, hbooks⟩ | ⟨-, -, hbooks⟩⟩ := accountWitnessVote_books h
  · rw [hbooks]
    exact .quiet rfl rfl rfl rfl
  · rw [hbooks]
    exact .quiet rfl rfl rfl rfl

theorem accountWitnessProxy_moves {o : AccountWitnessProxyOperation} (hother : o.proxy ≠ o.account)
    (h : db.accountWitnessProxy o = .ok db') : db.books.Moves 0 db'.books := by
  simp only [accountWitnessProxy, bind_eq_ok, ensure_eq_ok, getAccount_eq_ok] at h
  obtain ⟨account, haccount, _, hchange, _, -, withdrawn, hwithdrawn, h⟩ := h
  have hway := adjustProxiedArray_reaches hwithdrawn
  have hholder := find?_holders_some haccount
  have hdelta : account.voteDelta = account.holder.voteDelta := account.holder_voteDelta.symm
  obtain ⟨hwithdraw, -⟩ := adjustProxiedArray_books hwithdrawn
  rw [hdelta] at hwithdraw
  split at h
  · rename_i hproxy
    simp only [bind_eq_ok, getAccount_eq_ok] at h
    obtain ⟨_, -, ⟨⟩, hchain, cleared, hcleared, proxied, hproxied, h⟩ := h
    obtain ⟨hclear, -⟩ := clearWitnessVotes_books hcleared
    obtain ⟨hset, -⟩ := modifyAccount_books (f := fun holder => { holder with proxy := o.proxy })
      hproxied fun a b hb => by cases hb; rfl
    have hway' := adjustProxiedArray_reaches h
    obtain ⟨hshift, -⟩ := adjustProxiedArray_books h
    rw [hset, hclear, hwithdraw] at hway' hshift
    have havoids : ∀ n, Links.climb db.books.link n o.proxy ≠ some o.account := by
      intro n
      have hlink : withdrawn.books.link = db.books.link := by
        rw [hwithdraw, Books.link_shiftVotes]
      rw [← hlink]
      exact checkProxyChain_avoids hchain (by simp) hother n
    rw [hshift, hdelta]
    exact .setProxy hway hholder hproxy havoids hway'
  · rename_i hself
    have hself : o.proxy = blurtProxyToSelfAccount := not_not.mp hself
    obtain ⟨hset, -⟩ := modifyAccount_books (f := fun holder => { holder with proxy := o.proxy })
      h fun a b hb => by cases hb; rfl
    have hproxied : account.holder.proxy ≠ blurtProxyToSelfAccount := by
      rw [hself] at hchange
      exact hchange
    rw [hset, hwithdraw, hself]
    exact .clearProxy hway hholder hproxied

theorem createProposal_moves {o : CreateProposalOperation} (h : db.createProposal o = .ok db') :
    db.books.Moves 0 db'.books := by
  simp only [createProposal, bind_eq_ok, ensure_eq_ok] at h
  obtain ⟨_, -, _, -, _, -, _, -, _, -, debited, hdebited, h⟩ := h
  exact (adjustBalance_moves hdebited rfl).settle (adjustBalance_moves h rfl) (neg_add_cancel _)

/-! ## All operations -/

theorem applyOperation_moves {op : Operation} (hvalid : op.validate host.rules = .ok ())
    (happly : applyOperation host db op = .ok db') : db.books.Moves 0 db'.books := by
  have hsame : db'.books = db.books → db.books.Moves 0 db'.books := fun hbooks => hbooks ▸ .refl
  cases op with
  | vote o => exact hsame (vote_books happly)
  | comment o => exact hsame (comment_books happly)
  | transfer o => exact transfer_moves happly
  | transferToVesting o => exact transferToVesting_moves happly
  | withdrawVesting o => exact withdrawVesting_moves happly
  | accountCreate o =>
      simp only [Operation.validate, AccountCreateOperation.validate, bind_eq_ok,
        ensure_eq_ok] at hvalid
      obtain ⟨_, -, _, hblurt, -⟩ := hvalid
      exact accountCreate_moves hblurt happly
  | accountUpdate o => exact accountUpdate_moves happly
  | witnessUpdate o => exact witnessUpdate_moves happly
  | accountWitnessVote o => exact accountWitnessVote_moves happly
  | accountWitnessProxy o => exact accountWitnessProxy_moves (proxy_ne_account hvalid) happly
  | custom o =>
      simp only [applyOperation, custom, bind_eq_ok, ensure_eq_ok, pure_eq_ok] at happly
      obtain ⟨_, -, _, -, rfl⟩ := happly
      exact .refl
  | deleteComment o => exact hsame (deleteComment_books happly)
  | customJson o =>
      simp only [applyOperation, customJson, bind_eq_ok, ensure_eq_ok, pure_eq_ok] at happly
      obtain ⟨_, -, _, -, rfl⟩ := happly
      exact .refl
  | commentOptions o => exact hsame (commentOptions_books happly)
  | setWithdrawVestingRoute o => exact hsame (setWithdrawVestingRoute_books happly)
  | claimAccount o => exact claimAccount_moves happly
  | createClaimedAccount o => exact createClaimedAccount_moves happly
  | requestAccountRecovery o => exact hsame (requestAccountRecovery_books happly)
  | recoverAccount o => exact recoverAccount_moves happly
  | changeRecoveryAccount o => exact hsame (changeRecoveryAccount_books happly)
  | escrowTransfer o =>
      simp only [Operation.validate, EscrowTransferOperation.validate, bind_eq_ok,
        ensure_eq_ok] at hvalid
      obtain ⟨_, -, _, -, _, -, _, -, _, -, _, -, _, hblurt, -⟩ := hvalid
      exact escrowTransfer_moves hblurt happly
  | escrowDispute o => exact fun hb => escrowDispute_moves hb happly hb
  | escrowRelease o => exact fun hb => escrowRelease_moves hb happly hb
  | escrowApprove o => exact fun hb => escrowApprove_moves hb happly hb
  | transferToSavings o =>
      simp only [Operation.validate, TransferToSavingsOperation.validate, bind_eq_ok,
        ensure_eq_ok] at hvalid
      obtain ⟨_, -, _, -, _, -, _, hblurt, -⟩ := hvalid
      exact transferToSavings_moves hblurt happly
  | transferFromSavings o => exact transferFromSavings_moves happly
  | cancelTransferFromSavings o => exact cancelTransferFromSavings_moves happly
  | customBinary o =>
      simp only [applyOperation, customBinary, bind_eq_ok, ensure_eq_ok, pure_eq_ok] at happly
      obtain ⟨_, -, _, -, rfl⟩ := happly
      exact .refl
  | declineVotingRights o => exact hsame (declineVotingRights_books happly)
  | resetAccount o => cases happly
  | setResetAccount o => cases happly
  | claimRewardBalance o => exact claimRewardBalance_moves happly
  | delegateVestingShares o => exact delegateVestingShares_moves happly
  | witnessSetProperties o => exact witnessSetProperties_moves happly
  | createProposal o => exact createProposal_moves happly
  | updateProposalVotes o =>
      cases happly
      exact hsame (updateProposalVotes_books db o)
  | removeProposal o => exact hsame (removeProposal_books happly)

/-- The fee and the operations in their order. -/
theorem applyTransaction_moves {trx : SignedTransaction}
    (hvalid : ∀ op ∈ trx.operations, op.validate host.rules = .ok ())
    (h : applyTransaction host db trx = .ok db') : db.books.Moves 0 db'.books := by
  obtain ⟨paid, hpaid, h⟩ := bind_eq_ok.mp h
  apply forEach_invariant (fun state => db.books.Moves 0 state.books) _ (processTxFee_moves hpaid) h
  intro state op next hop hstate hnext
  exact hstate.append (applyOperation_moves (hvalid op hop) hnext)

end Database

end Ledger

end Blurt
