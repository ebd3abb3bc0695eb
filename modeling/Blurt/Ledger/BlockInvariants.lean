import Blurt.Ledger.OverviewMaintenance

/-! # Invariants of the ledger

What the header of a block, its operations, the clock and the parts of the maintenance that
change the overview preserve, every reachable database satisfies, if it does not depend on
more than the overview and on whether the witnesses are ready for a schedule.
-/

namespace Blurt

namespace Ledger

open Outcome

/-- The time and the number of the head block. -/
def Overview.clock (v : Overview) : Nat × Nat := (v.time, v.headBlockNumber)

/-- The overview without what the witnesses publish. -/
def Overview.besideWitnesses (v : Overview) : Overview := { v with witnesses := ∅ }

/-- The overview without what a header changes. -/
def Overview.besideHeader (v : Overview) : Overview :=
  { v with processedHardforks := [], hardforks := {}, witnesses := ∅, currentWitness := "" }

/-- A block of allowed operations. -/
def LedgerBlock.Only (allowed : Operation → Prop) (b : LedgerBlock) : Prop :=
  ∀ t ∈ b.transactions, ∀ op ∈ t.trx.operations, allowed op

/-- Every operation is allowed. -/
def anyOperation : Operation → Prop := fun _ => True

theorem LedgerBlock.only_any (b : LedgerBlock) : b.Only anyOperation :=
  fun _ _ _ _ => trivial

namespace Database

/-- The states of the ledger after a chain of blocks of allowed operations. -/
inductive ReachableBy (host : Host) (allowed : Operation → Prop) :
    Database → Prop
  | genesis {args : GenesisArgs} {db : Database} (hgenesis : initGenesis args = .ok db) :
      ReachableBy host allowed db
  | block {db db' : Database} {b : LedgerBlock} (hreachable : ReachableBy host allowed db)
      (honly : b.Only allowed) (happly : applyBlock host db b = .ok db') :
      ReachableBy host allowed db'

theorem Reachable.by_any {host : Host} {db : Database}
    (h : Reachable host db) : ReachableBy host anyOperation db := by
  induction h with
  | genesis hgenesis => exact .genesis hgenesis
  | block _ happly ih => exact .block ih (LedgerBlock.only_any _) happly

/-- A property that a block of allowed operations preserves up to the maintenance. -/
structure OpeningInvariant (host : Host) (allowed : Operation → Prop) (holds : Database → Prop) :
    Prop where
  quiet : ∀ db db', Quiet db db' → holds db → holds db'
  start : ∀ db timestamp, db.dgp.headBlockNumber = 0 → holds db →
    Always (db.startHardforks timestamp) holds
  signer : ∀ db name, holds db → holds { db with dgp := { db.dgp with currentWitness := name } }
  extension : ∀ db name extension, holds db → Always (visitExtension name db extension) holds
  operation : ∀ db op, allowed op → op.validate host.rules = .ok () → holds db →
    Always (applyOperation host db op) holds
  clock : ∀ db (b : LedgerBlock), db.dgp.time < b.timestamp → holds db → holds (db.setClock b)

/-- A property that every part of the application of a block preserves. -/
structure BlockInvariant (host : Host) (allowed : Operation → Prop) (holds : Database → Prop) : Prop
    extends OpeningInvariant host allowed holds where
  schedule : ∀ db, holds db → Always db.updateWitnessSchedule holds
  recovery : ∀ db, holds db → Always db.accountRecoveryProcessing holds
  hardforks : ∀ db, holds db → Always db.processHardforks holds

/-! ## The parts of a block -/

/-- `_apply_block` up to `update_witness_schedule`. -/
def beforeSchedule (host : Host) (db : Database) (b : LedgerBlock) : Except String Database := do
  let opened ← db.openBlock b
  let applied ← Outcome.forEach (acceptTransaction host) opened b.transactions
  (applied.setClock b).clearExpiredDelegations

/-- `_apply_block` between `update_witness_schedule` and `account_recovery_processing`. -/
def beforeRecovery (clearVotes : Bool) (scheduled : Database) : Except String Database := do
  let burned ← scheduled.clearNullAccountBalance
  let funded ← burned.processFunds
  let cashed ← processCommentCashout clearVotes funded
  let withdrawn ← cashed.processVestingWithdrawals
  let saved ← withdrawn.processSavingsWithdraws
  saved.processSubsidizedAccounts

/-- `_apply_block` between `account_recovery_processing` and `process_hardforks`. -/
def afterRecovery (host : Host) (recovered : Database) (headTime : Nat) :
    Except String Database := do
  let expired ← recovered.expireEscrowRatification
  let declined ← expired.processDeclineVotingRights
  let proposed ← processProposals host declined headTime
  proposed.processRegentAccount

/-- `_apply_block` up to `process_hardforks`. -/
def beforeHardforks (host : Host) (db : Database) (b : LedgerBlock) :
    Except String Database := do
  let returned ← beforeSchedule host db b
  let scheduled ← returned.updateWitnessSchedule
  let subsidized ← beforeRecovery host.clearVotes scheduled
  let recovered ← subsidized.accountRecoveryProcessing
  afterRecovery host recovered b.timestamp

variable {host : Host} {allowed : Operation → Prop} {holds : Database → Prop}
  {db db' : Database} {b : LedgerBlock}

/-- A block is applied in its parts. -/
theorem applyBlock_eq : applyBlock host db b =
    beforeHardforks host db b >>= processHardforks := by
  simp only [applyBlock, maintain, beforeHardforks, beforeSchedule, beforeRecovery, afterRecovery,
    bind_assoc]

section Frame

variable {R : Database → Database → Prop} (hR : Frame R)

include hR

theorem beforeRecovery_framed {clearVotes : Bool} (hcash : CashedOut R) :
    Always (beforeRecovery clearVotes db) (R db) := by
  refine (clearNullAccountBalance_framed hR).bind fun burned hburned => ?_
  refine (processFunds_framed hR).bind fun funded hfunded => ?_
  refine (processCommentCashout_framed hR hcash _).bind fun cashed hcashed => ?_
  refine (processVestingWithdrawals_framed hR).bind fun withdrawn hwithdrawn => ?_
  refine (processSavingsWithdraws_framed hR).bind fun saved hsaved => ?_
  refine (processSubsidizedAccounts_framed hR).mono fun _ hsubsidized => ?_
  have hpaid := hR.trans (hR.trans hburned hfunded) hcashed
  exact hR.trans (hR.trans (hR.trans hpaid hwithdrawn) hsaved) hsubsidized

theorem afterRecovery_framed (headTime : Nat) :
    Always (afterRecovery host db headTime) (R db) := by
  refine (expireEscrowRatification_framed hR).bind fun expired hexpired => ?_
  refine (processDeclineVotingRights_framed hR).bind fun declined hdeclined => ?_
  refine (processProposals_framed hR _ _).bind fun proposed hproposed => ?_
  refine (processRegentAccount_framed hR).mono fun _ hdecayed => ?_
  exact hR.trans (hR.trans (hR.trans hexpired hdeclined) hproposed) hdecayed

theorem processTxFee_framed (trx : SignedTransaction) : Always (db.processTxFee trx) (R db) := by
  unfold processTxFee
  split
  · refine .skip fun fee => .forEach (hR.refl _) fun state auth _ h => ?_
    exact (payFee_framed hR _ _).mono fun _ => hR.trans h
  · exact .ok (hR.refl _)

end Frame

/-- The operations of a valid transaction are valid. -/
theorem validate_operations {rules : TextRules} {trx : SignedTransaction}
    (h : trx.validate rules = .ok ()) {op : Operation} (hop : op ∈ trx.operations) :
    op.validate rules = .ok () := by
  obtain ⟨_, -, h⟩ := bind_eq_ok.mp h
  revert hop h
  induction trx.operations with
  | nil => exact fun hop => absurd hop List.not_mem_nil
  | cons first rest ih =>
      intro hop h
      obtain ⟨⟨⟩, hfirst, hrest⟩ := forEach_cons_eq_ok.mp h
      rcases List.mem_cons.mp hop with rfl | hop
      · exact hfirst
      · exact ih hop hrest

/-! ## The header -/

theorem beyond_time (op : Operation) (v : Overview) : (v.beyond op).time = v.time := by
  cases op <;> rfl

theorem beyond_headBlockNumber (op : Operation) (v : Overview) :
    (v.beyond op).headBlockNumber = v.headBlockNumber := by
  cases op <;> rfl

theorem applyOperation_clock (op : Operation) :
    Always (applyOperation host db op) (Keeps Overview.clock db) := by
  refine (applyOperation_keeps host op).mono fun db' h => ⟨?_, h.ready⟩
  have htime := congrArg Overview.time h.seen
  have hhead := congrArg Overview.headBlockNumber h.seen
  rw [beyond_time, beyond_time] at htime
  rw [beyond_headBlockNumber, beyond_headBlockNumber] at hhead
  rw [Overview.clock, Overview.clock, htime, hhead]

theorem visitExtension_keeps (witness : AccountName) (extension : BlockHeaderExtension) :
    Always (visitExtension witness db extension) (Keeps Overview.besideWitnesses db) := by
  intro db' h
  unfold visitExtension at h
  split at h
  · simp only [getWitness, bind_eq_ok, require_eq_ok, pure_eq_ok] at h
    obtain ⟨w, hw, rfl⟩ := h
    exact ⟨rfl, fun hready => hready.set hw id⟩
  · simp only [getWitness, bind_eq_ok, require_eq_ok] at h
    obtain ⟨w, hw, h⟩ := h
    split at h
    · cases h
      exact ⟨rfl, fun hready => hready.set hw id⟩
    · cases h
      exact Keeps.refl _ _
  · simp only [bind_eq_ok, pure_eq_ok] at h
    obtain ⟨_, -, _, -, rfl⟩ := h
    exact Keeps.refl _ _

theorem startHardforks_keeps (timestamp : Nat) :
    Always (db.startHardforks timestamp) (Keeps Overview.besideHeader db) := by
  unfold startHardforks
  dsimp only
  split
  · refine (setHardfork_keeps _).bind fun started hstarted => .ensure fun _ => .pure ?_
    have hheader : Keeps Overview.besideHeader db started :=
      ⟨congrArg (fun v : Overview => { v with witnesses := ∅, currentWitness := "" }) hstarted.seen,
        hstarted.ready⟩
    exact List.foldlRecOn (motive := Keeps Overview.besideHeader db) _ _ hheader
      fun first hfirst row _ => hfirst.trans (modifyWitness_keeps (fun _ _ => rfl) _ fun _ => id)
  · exact .pure (Keeps.refl _ _)

/-- What the header of a block changes, and what it checks. -/
theorem openBlock_spec {opened : Database} (h : db.openBlock b = .ok opened) :
    ∃ started w, (db.dgp.headBlockNumber = 0 ∧ db.startHardforks b.timestamp = .ok started ∨
        db.dgp.headBlockNumber ≠ 0 ∧ started = db) ∧
      started.dgp.time < b.timestamp ∧ b.packSize ≤ started.dgp.maximumBlockSize ∧
      Outcome.forEach (visitExtension b.witness)
        { started with dgp := { started.dgp with currentWitness := b.witness } } b.extensions =
          .ok opened ∧
      opened.witnesses.find? b.witness = some w ∧
      opened.hardforks.currentHardforkVersion ≤ w.runningVersion := by
  simp only [openBlock, processHeaderExtensions, getWitness] at h
  split at h
  · rename_i hnew
    simp only [bind_eq_ok, ensure_eq_ok, require_eq_ok, pure_eq_ok] at h
    obtain ⟨started, hstarted, _, htime, _, -, _, hsize, _, hextended, w, hw, _, hversion, rfl⟩ := h
    exact ⟨started, w, .inl ⟨hnew, hstarted⟩, htime, hsize, hextended, hw, hversion⟩
  · rename_i hnew
    simp only [ok_bind, bind_eq_ok, ensure_eq_ok, require_eq_ok, pure_eq_ok] at h
    obtain ⟨_, htime, _, -, _, hsize, _, hextended, w, hw, _, hversion, rfl⟩ := h
    exact ⟨db, w, .inr ⟨hnew, rfl⟩, htime, hsize, hextended, hw, hversion⟩

/-- The header keeps the clock, and its time is later. -/
theorem openBlock_clock :
    Always (db.openBlock b) fun opened =>
      opened.overview.clock = db.overview.clock ∧ opened.dgp.time < b.timestamp := by
  intro opened h
  obtain ⟨started, w, hstarted, htime, -, hextended, -⟩ := openBlock_spec h
  have hstart : started.overview.clock = db.overview.clock := by
    rcases hstarted with ⟨-, hstarted⟩ | ⟨-, rfl⟩
    · have hclock := congrArg Overview.clock (startHardforks_keeps _ _ hstarted).seen
      exact hclock
    · rfl
  have hopened : opened.overview.clock = started.overview.clock := by
    have hloop : Always (Outcome.forEach (visitExtension b.witness)
        { started with dgp := { started.dgp with currentWitness := b.witness } } b.extensions)
        fun d => d.overview.clock = started.overview.clock :=
      .forEach rfl fun state extension _ hstate => by
        refine (visitExtension_keeps _ _).mono fun next hnext => ?_
        have hclock := congrArg Overview.clock hnext.seen
        exact hclock.trans hstate
    exact hloop opened hextended
  have hkept : opened.dgp.time = started.dgp.time := congrArg Prod.fst hopened
  exact ⟨hopened.trans hstart, by omega⟩

theorem transactions_clock (ts : List BlockTransaction) :
    Always (Outcome.forEach (acceptTransaction host) db ts) fun db' =>
      db'.overview.clock = db.overview.clock := by
  refine .forEach rfl fun state t _ h db' haccept => ?_
  simp only [acceptTransaction, applyTransaction, bind_eq_ok] at haccept
  obtain ⟨_, -, _, -, paid, hpaid, hoperations⟩ := haccept
  have hpaid := congrArg Overview.clock (processTxFee_framed quiet_frame _ _ hpaid).seen
  have hloop : Always (Outcome.forEach (applyOperation host) paid t.trx.operations) fun next =>
      next.overview.clock = db.overview.clock :=
    .forEach (hpaid.trans h) fun state op _ hstate =>
      (applyOperation_clock op).mono fun _ hnext => hnext.seen.trans hstate
  exact hloop db' hoperations

/-- A block comes to `update_witness_schedule` with its own time and number. -/
theorem beforeSchedule_clock :
    Always (beforeSchedule host db b) fun returned =>
      returned.overview.clock = (b.timestamp, db.dgp.headBlockNumber + 1) ∧
        db.dgp.time < b.timestamp := by
  refine openBlock_clock.bind fun opened ⟨hopened, htime⟩ => ?_
  refine (transactions_clock b.transactions).bind fun applied happlied => ?_
  refine (clearExpiredDelegations_framed quiet_frame).mono fun returned hreturned => ?_
  have hclock := congrArg Overview.clock hreturned.seen
  have hhead : applied.dgp.headBlockNumber = db.dgp.headBlockNumber :=
    congrArg Prod.snd (happlied.trans hopened)
  have hsame : opened.dgp.time = db.dgp.time := congrArg Prod.fst hopened
  refine ⟨hclock.trans ?_, by omega⟩
  rw [← hhead]
  rfl

/-- A block changes the overview up to its schedule, and then only in what the recovery of
accounts and hardforks change. -/
theorem applyBlock_spec (h : applyBlock host db b = .ok db') :
    ∃ returned scheduled, beforeSchedule host db b = .ok returned ∧
      returned.updateWitnessSchedule = .ok scheduled ∧
      Keeps (fun v => v.besideRecovery.besideHardforks) scheduled db' := by
  rw [applyBlock_eq] at h
  simp only [beforeHardforks, bind_eq_ok] at h
  obtain ⟨decayed, ⟨returned, hreturned, scheduled, hscheduled, subsidized, hsubsidized, recovered,
    hrecovered, hdecayed⟩, hforked⟩ := h
  refine ⟨returned, scheduled, hreturned, hscheduled, ?_⟩
  have hsubsidized := (beforeRecovery_framed quiet_frame quiet_cashedOut _ hsubsidized).seenBy
    fun v => v.besideRecovery.besideHardforks
  have hdecayed := (afterRecovery_framed quiet_frame _ _ hdecayed).seenBy
    fun v => v.besideRecovery.besideHardforks
  have hrecovered := accountRecoveryProcessing_keeps _ hrecovered
  have hforked := processHardforks_keeps _ hforked
  have hrecoveredSeen := congrArg Overview.besideHardforks hrecovered.seen
  have hforkedSeen := congrArg Overview.besideRecovery hforked.seen
  refine (hsubsidized.trans ?_).trans (hdecayed.trans ?_)
  · exact ⟨hrecoveredSeen, hrecovered.ready⟩
  · exact ⟨hforkedSeen, hforked.ready⟩

namespace OpeningInvariant

theorem header (h : OpeningInvariant host allowed holds) (hdb : holds db) :
    Always (db.openBlock b) holds := by
  intro opened hopened
  obtain ⟨started, w, hstarted, -, -, hextended, -⟩ := openBlock_spec hopened
  have hstart : holds started := by
    rcases hstarted with ⟨hnew, hstarted⟩ | ⟨-, rfl⟩
    · exact h.start db _ hnew hdb _ hstarted
    · exact hdb
  refine Always.forEach (h.signer _ _ hstart) ?_ opened hextended
  exact fun state extension _ hstate => h.extension state b.witness extension hstate

theorem transaction (h : OpeningInvariant host allowed holds) (hdb : holds db) (t : BlockTransaction)
    (honly : ∀ op ∈ t.trx.operations, allowed op) : Always (acceptTransaction host db t) holds := by
  intro db' haccept
  simp only [acceptTransaction, applyTransaction, bind_eq_ok] at haccept
  obtain ⟨_, hvalid, _, -, paid, hpaid, hoperations⟩ := haccept
  apply forEach_invariant holds ?_ (h.quiet _ _ (processTxFee_framed quiet_frame _ _ hpaid) hdb) hoperations
  intro state op next hop hstate hnext
  exact h.operation state op (honly op hop) (validate_operations hvalid hop) hstate next hnext

theorem transactions (h : OpeningInvariant host allowed holds) (hdb : holds db)
    (honly : b.Only allowed) :
    Always (Outcome.forEach (acceptTransaction host) db b.transactions) holds :=
  .forEach hdb fun _ t ht hstate => h.transaction hstate t (honly t ht)

/-- The invariant holds when a block comes to `update_witness_schedule`. -/
theorem returned (h : OpeningInvariant host allowed holds) (hdb : holds db) (honly : b.Only allowed) :
    Always (beforeSchedule host db b) holds := by
  refine Always.bind (fun opened hopened => And.intro (h.header hdb opened hopened)
    (openBlock_clock opened hopened)) fun opened ⟨hopened, hclock, htime⟩ => ?_
  refine Always.bind (fun applied happlied => And.intro (h.transactions hopened honly applied happlied)
    (transactions_clock _ applied happlied)) fun applied ⟨happlied, hsame⟩ => ?_
  have hkept : applied.dgp.time = opened.dgp.time := congrArg Prod.fst hsame
  have hset := h.clock applied b (by omega) happlied
  exact (clearExpiredDelegations_framed quiet_frame).mono fun _ hquiet => h.quiet _ _ hquiet hset

end OpeningInvariant

namespace BlockInvariant

/-- The invariant holds when a block comes to `process_hardforks`. -/
theorem decayed (h : BlockInvariant host allowed holds) (hdb : holds db) (honly : b.Only allowed) :
    Always (beforeHardforks host db b) holds := by
  refine Always.bind (h.toOpeningInvariant.returned hdb honly) fun returned hreturned => ?_
  refine Always.bind (h.schedule _ hreturned) fun scheduled hscheduled => ?_
  refine (beforeRecovery_framed quiet_frame quiet_cashedOut).bind fun subsidized hsubsidized => ?_
  refine Always.bind (h.recovery _ (h.quiet _ _ hsubsidized hscheduled)) fun recovered hrecovered => ?_
  exact (afterRecovery_framed quiet_frame _).mono fun _ hquiet => h.quiet _ _ hquiet hrecovered

theorem applyBlock (h : BlockInvariant host allowed holds) (hdb : holds db) (honly : b.Only allowed) :
    Always (applyBlock host db b) holds := by
  rw [applyBlock_eq]
  exact Always.bind (h.decayed hdb honly) h.hardforks

/-- What holds at genesis and is an invariant of blocks holds in every reachable database. -/
theorem reachable (h : BlockInvariant host allowed holds)
    (hgenesis : ∀ args, Always (initGenesis args) holds)
    (hdb : ReachableBy host allowed db) : holds db := by
  induction hdb with
  | genesis hgenesis' => exact hgenesis _ _ hgenesis'
  | block _ honly happly ih => exact h.applyBlock ih honly _ happly

end BlockInvariant

/-! ## Steps -/

/-- A frame in which every part of the application of a block is a step. -/
structure BlockFrame (host : Host) (R : Database → Database → Prop) : Prop extends Frame R where
  cashout : CashedOut R
  signer : ∀ {db name}, R db { db with dgp := { db.dgp with currentWitness := name } }
  clock : ∀ {db b}, R db (db.setClock b)
  hardfork : ∀ {db hardforks processedHardforks}, R db { db with hardforks, processedHardforks }
  publish : ∀ {db name w v}, db.witnesses.find? name = some w → v.clock = w.clock →
    R db { db with witnesses := db.witnesses.set name v }
  operation : ∀ {db op}, op.validate host.rules = .ok () → Always (applyOperation host db op) (R db)
  schedule : ∀ {db}, Always db.updateWitnessSchedule (R db)
  recovery : ∀ {db}, Always db.accountRecoveryProcessing (R db)

namespace BlockFrame

variable {R : Database → Database → Prop} (hR : BlockFrame host R)

include hR

theorem modifyWitness {name : AccountName} {f : Witness → Witness}
    (hclock : ∀ w, (f w).clock = w.clock) : R db (db.modifyWitness name f) := by
  unfold Database.modifyWitness
  split
  · rename_i w hw
    exact hR.publish hw (hclock w)
  · exact hR.refl db

theorem applyHardfork (hardfork : Nat) : Always (db.applyHardfork hardfork) (R db) := by
  refine (hardforkChanges_framed hR.toFrame hardfork).bind fun changed h => ?_
  exact .ensure fun _ => .ensure fun _ => .ensure fun _ => .pure (hR.trans h hR.hardfork)

theorem processHardforks : Always db.processHardforks (R db) := by
  refine .drain (hR.refl db) fun state hardfork h _ => ?_
  unfold processHardfork
  split
  · exact (hR.applyHardfork hardfork).mono fun _ => hR.trans h
  · exact .error _

theorem startHardforks (timestamp : Nat) : Always (db.startHardforks timestamp) (R db) := by
  have hset : ∀ n, Always (db.setHardfork n) (R db) := fun n =>
    .forEach (hR.refl db) fun state i _ h =>
      (hR.applyHardfork i).mono fun _ happly => hR.trans (hR.trans h hR.hardfork) happly
  unfold Database.startHardforks
  dsimp only
  split
  · refine (hset _).bind fun started hstarted => .ensure fun _ => .pure ?_
    refine List.foldlRecOn (motive := R db) _ _ hstarted fun first hfirst row _ => ?_
    exact hR.trans hfirst (hR.modifyWitness fun _ => rfl)
  · exact .pure (hR.refl db)

theorem visitExtension (witness : AccountName) (extension : BlockHeaderExtension) :
    Always (visitExtension witness db extension) (R db) := by
  intro db' h
  unfold Database.visitExtension at h
  split at h
  · simp only [getWitness, bind_eq_ok, require_eq_ok, pure_eq_ok] at h
    obtain ⟨w, hw, rfl⟩ := h
    exact hR.publish hw rfl
  · simp only [getWitness, bind_eq_ok, require_eq_ok] at h
    obtain ⟨w, hw, h⟩ := h
    split at h
    · cases h
      exact hR.publish hw rfl
    · cases h
      exact hR.refl db
  · simp only [bind_eq_ok, pure_eq_ok] at h
    obtain ⟨_, -, _, -, rfl⟩ := h
    exact hR.refl db

theorem openBlock : Always (db.openBlock b) (R db) := by
  intro opened hopened
  obtain ⟨started, w, hstarted, -, -, hextended, -⟩ := openBlock_spec hopened
  have hstart : R db started := by
    rcases hstarted with ⟨-, hstarted⟩ | ⟨-, rfl⟩
    · exact hR.startHardforks _ _ hstarted
    · exact hR.refl _
  refine Always.forEach (hR.trans hstart hR.signer) ?_ opened hextended
  exact fun state extension _ h => (hR.visitExtension b.witness extension).mono fun _ => hR.trans h

theorem acceptTransaction (t : BlockTransaction) : Always (acceptTransaction host db t) (R db) := by
  intro db' haccept
  simp only [Database.acceptTransaction, applyTransaction, bind_eq_ok] at haccept
  obtain ⟨_, hvalid, _, -, paid, hpaid, hoperations⟩ := haccept
  refine Always.forEach (processTxFee_framed hR.toFrame _ _ hpaid) ?_ db' hoperations
  intro state op hop h
  exact (hR.operation (validate_operations hvalid hop)).mono fun _ => hR.trans h

theorem beforeSchedule : Always (beforeSchedule host db b) (R db) := by
  refine hR.openBlock.bind fun opened hopened => ?_
  have happlied : Always (Outcome.forEach (Database.acceptTransaction host) opened b.transactions)
      (R db) :=
    .forEach hopened fun state t _ h => (hR.acceptTransaction t).mono fun _ => hR.trans h
  refine happlied.bind fun applied h => ?_
  exact (clearExpiredDelegations_framed hR.toFrame).mono fun _ => hR.trans (hR.trans h hR.clock)

/-- The application of a block is a step. -/
theorem applyBlock : Always (applyBlock host db b) (R db) := by
  rw [applyBlock_eq]
  have hbefore : Always (beforeHardforks host db b) (R db) := by
    refine hR.beforeSchedule.bind fun returned hreturned => ?_
    refine hR.schedule.bind fun scheduled hscheduled => ?_
    refine (beforeRecovery_framed hR.toFrame hR.cashout).bind fun subsidized hsubsidized => ?_
    refine hR.recovery.bind fun recovered hrecovered => ?_
    refine (afterRecovery_framed hR.toFrame _).mono fun _ hdecayed => ?_
    exact hR.trans (hR.trans (hR.trans (hR.trans hreturned hscheduled) hsubsidized) hrecovered) hdecayed
  exact hbefore.bind fun decayed h => hR.processHardforks.mono fun _ => hR.trans h

end BlockFrame

end Database

end Ledger

end Blurt
