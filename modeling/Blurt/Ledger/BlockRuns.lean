import Blurt.Ledger.MaintenanceRuns
import Blurt.Ledger.PayoutRuns
import Blurt.Ledger.ScheduleLaws

/-! # Blocks as runs of entries

A block moves what the ledger holds. It pays no more than it takes, and what a payout does
not hand out is all that the supply counts too much.
-/

namespace Blurt

namespace Ledger

open Outcome

namespace Books

variable {b b' : Books} {may : AccountName → Prop} {d : Drift} {name : AccountName}

/-- An account that may not set a proxy has none. -/
theorem link_run (hmay : ¬ may name) (h : Run (Step may) b d b') (hlink : b.link name = none) :
    b'.link name = none := by
  apply h.invariant (fun c => c.link name = none) _ hlink
  intro s e t hs hstep
  rcases hstep.link with hsame | ⟨other, proxy, hother, -, -, -, -, hset⟩ | ⟨other, hset⟩
  · rw [hsame, hs]
  · have hne : name ≠ other := fun heq => hmay (heq ▸ hother)
    rw [hset, Function.update_of_ne hne, hs]
  · rw [hset]
    by_cases heq : name = other
    · rw [heq, Function.update_self]
    · rw [Function.update_of_ne heq, hs]

end Books

/-- A block that the results below are about. Its time is not the last of all, only accounts
that `may` set a proxy set one, and where a missing authority is excused nobody makes use of
it for the null account. -/
structure LedgerBlock.Orderly (may : AccountName → Prop) (db : Database) (b : LedgerBlock) :
    Prop where
  time : b.timestamp < maximumTime
  proxies : ∀ t ∈ b.transactions, t.Proxies may
  excused : db.dgp.headBlockNumber + 1 ∈ sharedDbMerkle →
    ∀ t ∈ b.transactions, ¬ t.ActsFor blurtNullAccount

namespace Database

variable {may : AccountName → Prop} {db db' : Database} {host : Host}

/-- What a part of a block may do to the columns: pay less than it takes, and leave out of the
votes what the regent, with a proxy, has lost. -/
structure Settles (may : AccountName → Prop) (db : Database) (paid votes : Int) (db' : Database) :
    Prop where
  run : ∃ rewards, Enters may db (.of (paid - rewards) 0 0 votes rewards) db'
  nothing : paid ≤ 0
  counted : ¬ may blurtRegentAccount → db.books.link blurtRegentAccount = none → votes = 0

/-- The transactions of a block balance. -/
theorem acceptTransactions_enters {ts : List BlockTransaction} (hb : db.books.Sound)
    (hproxies : ∀ t ∈ ts, t.Proxies may)
    (hexcused : db.dgp.headBlockNumber + 1 ∈ sharedDbMerkle →
      ∀ t ∈ ts, ¬ t.ActsFor blurtNullAccount) :
    Always (Outcome.forEach (acceptTransaction host) db ts) (Enters may db 0) := by
  have hloop : Always (Outcome.forEach (acceptTransaction host) db ts) fun state =>
      Enters may db 0 state ∧ state.overview.clock = db.overview.clock := by
    refine .forEach ⟨.refl db, rfl⟩ fun state t ht hstate next hnext => ?_
    obtain ⟨hrun, hclock⟩ := hstate
    have hhead : state.dgp.headBlockNumber = db.dgp.headBlockNumber := congrArg Prod.snd hclock
    have haccept := acceptTransaction_enters (hb.run hrun rfl)
      (fun hnumber => hexcused (hhead ▸ hnumber) t ht) (hproxies t ht) hnext
    have hkept := transactions_clock [t] next (forEach_cons_eq_ok.mpr ⟨next, hnext, rfl⟩)
    exact ⟨hrun.append haccept, hkept.trans hclock⟩
  exact hloop.mono fun _ h => h.1

/-- The maintenance of a block up to its payouts balances and keeps the clock. -/
theorem fundBlock_enters (hb : db.books.Sound) : Always (do
      let returned ← db.clearExpiredDelegations
      let scheduled ← returned.updateWitnessSchedule
      let burned ← scheduled.clearNullAccountBalance
      burned.processFunds) fun funded =>
    Enters may db 0 funded ∧ funded.dgp.time = db.dgp.time := by
  intro funded h
  simp only [bind_eq_ok] at h
  obtain ⟨returned, hreturned, scheduled, hscheduled, burned, hburned, hfunded⟩ := h
  have hreturn : Enters may db 0 returned := clearExpiredDelegations_enters _ hreturned
  have hschedule : Enters may returned 0 scheduled :=
    .of_eq (updateWitnessSchedule_unbooked _ hscheduled)
  have hstart := hreturn.append hschedule
  have hburn : Enters may scheduled 0 burned :=
    clearNullAccountBalance_enters (hb.run hstart rfl) _ hburned
  have hspent := hstart.append hburn
  have hfund : Enters may burned 0 funded := processFunds_enters (hb.run hspent rfl) _ hfunded
  refine ⟨hspent.append hfund, ?_⟩
  have hreturnTime := congrArg Overview.time
    (clearExpiredDelegations_framed quiet_frame _ hreturned).seen
  have hscheduleTime := congrArg Overview.time (updateWitnessSchedule_keeps _ hscheduled).seen
  have hburnTime := congrArg Overview.time
    (clearNullAccountBalance_framed quiet_frame _ hburned).seen
  have hfundTime := congrArg Overview.time (processFunds_framed quiet_frame _ hfunded).seen
  exact ((hfundTime.trans hburnTime).trans hscheduleTime).trans hreturnTime

/-- The maintenance of a block after its payouts balances, up to the decay of the regent. -/
theorem closeBlock_enters (hb : db.books.Sound) (hroutes : db.RoutesWithin)
    (htime : db.dgp.time < maximumTime) (headTime : Nat) : Always (do
      let withdrawn ← db.processVestingWithdrawals
      let saved ← withdrawn.processSavingsWithdraws
      let subsidized ← saved.processSubsidizedAccounts
      let recovered ← subsidized.accountRecoveryProcessing
      let expired ← recovered.expireEscrowRatification
      let declined ← expired.processDeclineVotingRights
      processProposals host declined headTime) (Enters may db 0) := by
  intro proposed h
  simp only [bind_eq_ok] at h
  obtain ⟨withdrawn, hwithdrawn, saved, hsaved, subsidized, hsubsidized, recovered, hrecovered,
    expired, hexpired, declined, hdeclined, hproposed⟩ := h
  have hwithdraw : Enters may db 0 withdrawn :=
    (processVestingWithdrawals_enters hb hroutes htime _ hwithdrawn).1
  have hsave : Enters may withdrawn 0 saved :=
    processSavingsWithdraws_enters (hb.run hwithdraw rfl) _ hsaved
  have hsubsidize : Enters may saved 0 subsidized :=
    .of_eq (processSubsidizedAccounts_unbooked _ hsubsidized)
  have hrecover : Enters may subsidized 0 recovered := accountRecoveryProcessing_enters _ hrecovered
  have hstart := ((hwithdraw.append hsave).append hsubsidize).append hrecover
  have hexpire : Enters may recovered 0 expired :=
    expireEscrowRatification_enters (hb.run hstart rfl) _ hexpired
  have hdecline : Enters may expired 0 declined := processDeclineVotingRights_enters _ hdeclined
  have hpropose : Enters may declined 0 proposed := processProposals_enters _ _ hproposed
  exact ((hstart.append hexpire).append hdecline).append hpropose

/-- The maintenance of a block pays at most what it takes. -/
theorem maintain_settles (hb : db.books.Sound) (hpercents : db.Percents)
    (htime : db.dgp.time < maximumTime) (headTime : Nat) :
    Always (maintain host db headTime) fun db' =>
      ∃ paid votes, Settles may db paid votes db' := by
  intro db' h
  simp only [maintain, bind_eq_ok] at h
  obtain ⟨returned, hreturned, scheduled, hscheduled, burned, hburned, funded, hfunded, cashed,
    hcashed, withdrawn, hwithdrawn, saved, hsaved, subsidized, hsubsidized, recovered, hrecovered,
    expired, hexpired, declined, hdeclined, proposed, hproposed, decayed, hdecayed, hhardforks⟩ := h
  obtain ⟨hfund, hclock⟩ : Enters may db 0 funded ∧ funded.dgp.time = db.dgp.time := by
    apply fundBlock_enters hb
    simp only [bind_eq_ok]
    exact ⟨returned, hreturned, scheduled, hscheduled, burned, hburned, hfunded⟩
  have hfundedPercents := clearExpiredDelegations_percents _ hreturned hpercents
  have hfundedPercents := updateWitnessSchedule_percents _ hscheduled hfundedPercents
  have hfundedPercents := clearNullAccountBalance_percents _ hburned hfundedPercents
  have hfundedPercents := processFunds_percents _ hfunded hfundedPercents
  -- the payouts, after which the clock is as it was
  obtain ⟨paid, hnothing, rewards, hpay⟩ : ∃ paid, paid ≤ 0 ∧ PaysOut may funded paid cashed :=
    processCommentCashout_pays (hb.run hfund rfl).toUpheld hfundedPercents _ hcashed
  have hpaid := hfund.append hpay
  have hroutes : cashed.RoutesWithin :=
    (processCommentCashout_percents _ _ hcashed hfundedPercents).routes
  have hcashedTime : cashed.dgp.time = funded.dgp.time := congrArg Overview.time
    (processCommentCashout_framed quiet_frame quiet_cashedOut _ _ hcashed).seen
  have hclose : Enters may cashed 0 proposed := by
    apply closeBlock_enters (hb.run hpaid rfl) hroutes (by omega) headTime
    simp only [bind_eq_ok]
    exact ⟨withdrawn, hwithdrawn, saved, hsaved, subsidized, hsubsidized, recovered, hrecovered,
      expired, hexpired, declined, hdeclined, hproposed⟩
  obtain ⟨votes, hdecay, hvotes⟩ : ∃ votes, Enters may proposed (.of 0 0 0 votes 0) decayed ∧
      (proposed.books.link blurtRegentAccount = none → votes = 0) :=
    processRegentAccount_enters _ hdecayed
  have hclosed := hpaid.trans hclose
  have hquiet : db'.books = decayed.books := processHardforks_unbooked _ hhardforks
  refine ⟨paid, votes, ⟨rewards, ?_⟩, hnothing, fun hmay hlink => ?_⟩
  · rw [Enters, hquiet]
    refine (hclosed.trans hdecay).relabel ?_
    rw [add_zero, Drift.of_add]
    simp only [add_zero, zero_add]
  · exact hvotes (Books.link_run hmay hclosed hlink)

/-- A block keeps the books sound, and settles. -/
theorem applyBlock_settles {b : LedgerBlock} (hb : db.books.Sound) (hpercents : db.Percents)
    (horderly : b.Orderly may db) : Always (applyBlock host db b) fun db' =>
      db'.Percents ∧ ∃ paid votes, Settles may db paid votes db' := by
  intro db' h
  simp only [applyBlock, bind_eq_ok] at h
  obtain ⟨opened, hopened, applied, happlied, hmaintained⟩ := h
  have hopen : opened.books = db.books := openBlock_unbooked b _ hopened
  have hhead : opened.dgp.headBlockNumber = db.dgp.headBlockNumber :=
    congrArg Prod.snd (openBlock_clock _ hopened).1
  have hsound : opened.books.Sound := hopen ▸ hb
  have haccept : Enters may opened 0 applied := acceptTransactions_enters hsound horderly.proxies
    (fun hnumber => horderly.excused (hhead ▸ hnumber)) _ happlied
  have hclock : (applied.setClock b).books = applied.books := rfl
  have hstart : Enters may db 0 (applied.setClock b) := by
    rw [Enters, hclock, ← hopen]
    exact haccept
  have hpercents := openBlock_percents b _ hopened hpercents
  have hloop : Always (Outcome.forEach (acceptTransaction host) opened b.transactions)
      (KeepsPercents opened) :=
    .forEach (.refl opened) fun state t _ h => (acceptTransaction_percents host t).mono fun _ => h.trans
  have happliedPercents : applied.Percents := hloop _ happlied hpercents
  have hclocked : KeepsPercents applied (applied.setClock b) := .beside rfl rfl
  have hpercents := hclocked happliedPercents
  refine ⟨maintain_percents _ _ _ hmaintained hpercents, ?_⟩
  obtain ⟨paid, votes, ⟨rewards, hrun⟩, hnothing, hvotes⟩ := maintain_settles
    (hb.run hstart rfl) hpercents horderly.time b.timestamp _ hmaintained
  exact ⟨paid, votes, ⟨rewards, hstart.append hrun⟩, hnothing,
    fun hmay hlink => hvotes hmay (Books.link_run hmay hstart hlink)⟩

end Database

end Ledger

end Blurt
