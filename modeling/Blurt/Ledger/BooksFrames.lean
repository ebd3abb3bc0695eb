import Blurt.Foundation.Links
import Blurt.Ledger.Books

/-! # What the entries of the books leave alone

A shift of votes follows the proxies of an account. It changes no proxy on its way, so
it only changes votes.
-/

namespace Blurt

namespace Ledger

/-! ## Holders -/

@[ext] theorem Holder.ext' {h k : Holder} (hfunds : ∀ f, h.funds f = k.funds f)
    (hpowerDown : h.powerDown = k.powerDown) (hproxy : h.proxy = k.proxy)
    (hproxied : h.proxiedVsfVotes = k.proxiedVsfVotes) (hcanVote : h.canVote = k.canVote) :
    h = k := by
  cases h
  cases k
  simp_all [funext_iff]

namespace Holder

variable (h : Holder) (fund : Fund) (amount : Int)

theorem credit_funds (f : Fund) :
    (h.credit fund amount).funds f = if f = fund then h.funds f + amount else h.funds f := rfl

@[simp] theorem credit_powerDown : (h.credit fund amount).powerDown = h.powerDown := rfl

@[simp] theorem credit_proxy : (h.credit fund amount).proxy = h.proxy := rfl

@[simp] theorem credit_proxiedVsfVotes :
    (h.credit fund amount).proxiedVsfVotes = h.proxiedVsfVotes := rfl

@[simp] theorem credit_canVote : (h.credit fund amount).canVote = h.canVote := rfl

@[simp] theorem credit_zero : h.credit fund 0 = h := by
  ext f <;> simp [credit]

end Holder

namespace Books

variable {b : Books}

theorem find?_adjust (name : AccountName) (f : Holder → Holder) (other : AccountName) :
    (b.adjust other f).holders.find? name =
      if name = other then (b.holders.find? name).map f else b.holders.find? name :=
  Table.find?_adjust name other f b.holders

theorem adjust_adjust (b : Books) (name : AccountName) (f g : Holder → Holder) :
    (b.adjust name f).adjust name g = b.adjust name fun h => g (f h) := by
  simp only [adjust]
  congr 1
  apply Table.ext_find?
  intro k
  simp only [Table.find?_adjust]
  by_cases hk : k = name <;> simp [hk, Function.comp_def]

/-- A shift of votes changes the votes of holders and of witnesses. -/
theorem shiftVotes_frame (account : AccountName) (delta : VoteDelta) (levels : Nat) :
    b.shiftVotes account delta levels =
      { b with
        holders := (b.shiftVotes account delta levels).holders
        witnesses := (b.shiftVotes account delta levels).witnesses } := by
  induction levels generalizing b account with
  | zero =>
      rw [shiftVotes]
      split <;> rfl
  | succ levels ih =>
      rw [shiftVotes]
      split
      · exact ih _
      · rfl

/-- Votes only change the votes that are proxied to a holder. -/
theorem find?_shiftVotes (name account : AccountName) (delta : VoteDelta) (levels : Nat) :
    ∃ votes : ProxiedVotes → ProxiedVotes,
      (b.shiftVotes account delta levels).holders.find? name =
        (b.holders.find? name).map fun h =>
          { h with proxiedVsfVotes := votes h.proxiedVsfVotes } := by
  induction levels generalizing b account with
  | zero =>
      refine ⟨id, ?_⟩
      rw [shiftVotes]
      split <;> simp [creditVoted, creditWitnesses]
  | succ levels ih =>
      rw [shiftVotes]
      split
      · obtain ⟨votes, hvotes⟩ := ih (b := b.adjust (b.proxyOf account)
          (Holder.addProxied (blurtMaxProxyRecursionDepth - (levels + 1)) delta)) (b.proxyOf account)
        by_cases hname : name = b.proxyOf account
        · refine ⟨fun proxied => votes fun i =>
            if blurtMaxProxyRecursionDepth - (levels + 1) ≤ i then
              proxied i + delta (i - (blurtMaxProxyRecursionDepth - (levels + 1)))
            else proxied i, ?_⟩
          rw [hvotes, find?_adjust, if_pos hname, Option.map_map]
          rfl
        · refine ⟨votes, ?_⟩
          rw [hvotes, find?_adjust, if_neg hname]
      · refine ⟨id, ?_⟩
        simp [creditVoted, creditWitnesses]

/-! ## Links -/

/-- The link from an account to its proxy. -/
def link (b : Books) (name : AccountName) : Option AccountName :=
  if b.proxyOf name = blurtProxyToSelfAccount then none else some (b.proxyOf name)

theorem link_of_found {name : AccountName} {h : Holder} (hh : b.holders.find? name = some h) :
    b.link name = if h.proxy = blurtProxyToSelfAccount then none else some h.proxy := by
  rw [link, proxyOf, hh, Option.map_some, Option.getD_some]

theorem link_of_absent {name : AccountName} (hname : b.holders.find? name = none) :
    b.link name = none := by
  rw [link, proxyOf, hname, Option.map_none, Option.getD_none, if_pos rfl]

/-- Books whose holders have the same proxies have the same links. -/
theorem link_congr {c : Books} (h : ∀ name, (b.holders.find? name).map Holder.proxy =
    (c.holders.find? name).map Holder.proxy) : b.link = c.link := by
  funext name
  rw [link, link, proxyOf, proxyOf, h name]

theorem link_adjust {name : AccountName} {f : Holder → Holder}
    (hf : ∀ h, (f h).proxy = h.proxy) : (b.adjust name f).link = b.link := by
  apply link_congr
  intro other
  rw [find?_adjust]
  split
  · cases b.holders.find? other with
    | none => rfl
    | some h => exact congrArg some (hf h)
  · rfl

theorem link_shiftVotes (account : AccountName) (delta : VoteDelta) (levels : Nat) :
    (b.shiftVotes account delta levels).link = b.link := by
  apply link_congr
  intro name
  obtain ⟨votes, hvotes⟩ := find?_shiftVotes (b := b) name account delta levels
  rw [hvotes, Option.map_map]
  rfl

/-- What a shift of votes adds to the votes that are proxied to `name`. -/
def shifted (b : Books) (account : AccountName) (delta : VoteDelta) (levels : Nat)
    (name : AccountName) (i : Nat) : Int :=
  ∑ k ∈ Finset.range levels,
    if Links.climb b.link (k + 1) account = some name ∧ blurtMaxProxyRecursionDepth - levels + k ≤ i
    then delta (i - (blurtMaxProxyRecursionDepth - levels + k)) else 0

theorem shifted_of_root {account : AccountName} (hroot : b.link account = none) (delta : VoteDelta)
    (levels : Nat) (name : AccountName) (i : Nat) : b.shifted account delta levels name i = 0 := by
  apply Finset.sum_eq_zero
  intro k _
  rw [Links.climb_of_root hroot]
  simp

/-- The first link of a shift, and the rest of it. -/
theorem shifted_succ {account proxy : AccountName} (hlink : b.link account = some proxy)
    (delta : VoteDelta) {levels : Nat} (hlevels : levels < blurtMaxProxyRecursionDepth)
    (name : AccountName) (i : Nat) :
    b.shifted account delta (levels + 1) name i =
      (if proxy = name ∧ blurtMaxProxyRecursionDepth - (levels + 1) ≤ i
        then delta (i - (blurtMaxProxyRecursionDepth - (levels + 1))) else 0) +
          b.shifted proxy delta levels name i := by
  rw [shifted, Finset.sum_range_succ', add_comm]
  congr 1
  · rw [Links.climb_of_link hlink]
    simp
  · apply Finset.sum_congr rfl
    intro k _
    have hdepth : blurtMaxProxyRecursionDepth - (levels + 1) + (k + 1) =
        blurtMaxProxyRecursionDepth - levels + k := by
      omega
    rw [Links.climb_of_link hlink, hdepth]

/-- A shift of votes adds to what is proxied to each account of the chain, at its depth. -/
theorem find?_shiftVotes_eq {levels : Nat} (hlevels : levels ≤ blurtMaxProxyRecursionDepth)
    (name account : AccountName) (delta : VoteDelta) :
    (b.shiftVotes account delta levels).holders.find? name =
      (b.holders.find? name).map fun h =>
        { h with proxiedVsfVotes := fun i =>
            h.proxiedVsfVotes i + b.shifted account delta levels name i } := by
  induction levels generalizing b account with
  | zero =>
      rw [shiftVotes]
      split <;> simp [creditVoted, creditWitnesses, shifted]
  | succ levels ih =>
      by_cases hproxy : b.proxyOf account = blurtProxyToSelfAccount
      · have hroot : b.link account = none := by
          rw [link, if_pos hproxy]
        rw [shiftVotes, if_neg (not_not.mpr hproxy)]
        simp [creditVoted, creditWitnesses, shifted_of_root hroot]
      · have hlink : b.link account = some (b.proxyOf account) := by
          rw [link, if_neg hproxy]
        have hrest : ∀ i, (b.adjust (b.proxyOf account) (Holder.addProxied
            (blurtMaxProxyRecursionDepth - (levels + 1)) delta)).shifted (b.proxyOf account) delta
              levels name i = b.shifted (b.proxyOf account) delta levels name i := by
          intro i
          have hsame : (b.adjust (b.proxyOf account) (Holder.addProxied
              (blurtMaxProxyRecursionDepth - (levels + 1)) delta)).link = b.link :=
            link_adjust fun _ => rfl
          rw [shifted, hsame, shifted]
        have hfirst := shifted_succ hlink delta (Nat.lt_of_succ_le hlevels) name
        rw [shiftVotes, if_pos hproxy, ih (Nat.le_of_succ_le hlevels), find?_adjust]
        cases hname : b.holders.find? name with
        | none => simp
        | some h =>
            simp only [Option.map_some, hrest, hfirst]
            split <;> rename_i hn
            · simp only [Option.map_some, Holder.addProxied, hn, true_and]
              congr 2
              funext i
              split <;> simp [add_assoc]
            · simp only [Option.map_some, Ne.symm hn, false_and, if_false, zero_add]

end Books

end Ledger

end Blurt
