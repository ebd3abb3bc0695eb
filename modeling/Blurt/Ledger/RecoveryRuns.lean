import Blurt.Ledger.ReachableBooks
import Blurt.Ledger.RecoveryTrail

/-! # The recovery of accounts

A run keeps the operations that were applied, each with the database before it. So what an account
is recovered with can be traced to its owner authority of some time ago, to the request of its
recovery account, and the recovery account to the change that was asked for last.
-/

namespace Blurt

namespace Ledger

open Outcome

/-- A step of a run: the header of a block, the fee of a transaction, an operation or what ends a
block. -/
inductive RunStep (host : Host) :
    Option LedgerBlock → Database → List Moment → Option LedgerBlock → Database → Prop
  | opened {db db' : Database} {b : LedgerBlock} (h : db.openBlock b = .ok db') :
      RunStep host none db [] (some b) db'
  | charged {db db' : Database} {b : LedgerBlock} {trx : SignedTransaction}
      (h : db.processTxFee trx = .ok db') : RunStep host (some b) db [] (some b) db'
  | applied {db db' : Database} {b : LedgerBlock} {op : Operation}
      (h : Database.applyOperation host db op = .ok db') :
      RunStep host (some b) db [⟨db, op⟩] (some b) db'
  | closed {db db' : Database} {b : LedgerBlock}
      (h : Database.maintain host (db.setClock b) b.timestamp = .ok db') :
      RunStep host (some b) db [] none db'

/-- The databases of runs from genesis, within a block or between blocks, each with the moments
before it, the last one first. -/
inductive Recorded (host : Host) : Option LedgerBlock → List Moment → Database → Prop
  | genesis {args : GenesisArgs} {db : Database} (hgenesis : Database.initGenesis args = .ok db) :
      Recorded host none [] db
  | step {block block' : Option LedgerBlock} {past new : List Moment} {db db' : Database}
      (h : Recorded host block past db) (hstep : RunStep host block db new block' db') :
      Recorded host block' (new ++ past) db'

/-- What operations of a block, with the fees, add to a run. -/
structure Extends (host : Host) (b : LedgerBlock) (past new : List Moment) (db db' : Database)
    (ops : List Operation) : Prop where
  recorded : Recorded host (some b) past db → Recorded host (some b) (new ++ past) db'
  operations : (new.map Moment.op).reverse = ops
  times : ∀ m ∈ new, m.time = db.dgp.time
  time : db'.dgp.time = db.dgp.time
  recovery : Database.KeepsRecovery db db'

namespace Extends

open Database

variable {host : Host} {b : LedgerBlock} {past new more : List Moment} {db db' db'' : Database}
  {ops rest : List Operation}

theorem refl (host : Host) (b : LedgerBlock) (past : List Moment) (db : Database) :
    Extends host b past [] db db [] where
  recorded := id
  operations := rfl
  times _ hm := absurd hm List.not_mem_nil
  time := rfl
  recovery := fun _ a ha => ⟨a, ha, rfl⟩

theorem trans (h : Extends host b past new db db' ops)
    (h' : Extends host b (new ++ past) more db' db'' rest) :
    Extends host b past (more ++ new) db db'' (ops ++ rest) where
  recorded hdb := by
    rw [List.append_assoc]
    exact h'.recorded (h.recorded hdb)
  operations := by rw [List.map_append, List.reverse_append, h.operations, h'.operations]
  times m hm := by
    rcases List.mem_append.mp hm with hm | hm
    · exact (h'.times m hm).trans h.time
    · exact h.times m hm
  time := h'.time.trans h.time
  recovery := h.recovery.trans h'.recovery

theorem charged {trx : SignedTransaction} (h : db.processTxFee trx = .ok db') :
    Extends host b past [] db db' [] where
  recorded hdb := hdb.step (.charged h)
  operations := rfl
  times _ hm := absurd hm List.not_mem_nil
  time := congrArg Overview.time (processTxFee_framed quiet_frame _ _ h).seen
  recovery := (processTxFee_framed quiet_frame _ _ h).keepsRecovery

theorem applied {op : Operation} (h : applyOperation host db op = .ok db') :
    Extends host b past [⟨db, op⟩] db db' [op] where
  recorded hdb := hdb.step (.applied h)
  operations := rfl
  times m hm := by rw [List.mem_singleton.mp hm, Moment.time]
  time := congrArg Prod.fst (applyOperation_clock op db' h).seen
  recovery := applyOperation_keepsRecovery op db' h

/-- The operations of a transaction are moments of the run, in their order. -/
theorem of_operations (h : Outcome.forEach (applyOperation host) db ops = .ok db') :
    ∃ new, Extends host b past new db db' ops := by
  induction ops generalizing past db with
  | nil =>
      cases h
      exact ⟨[], refl _ _ _ _⟩
  | cons op rest ih =>
      obtain ⟨next, hnext, hrest⟩ := forEach_cons_eq_ok.mp h
      obtain ⟨new, hnew⟩ : ∃ new, Extends host b ([⟨db, op⟩] ++ past) new next db' rest := ih hrest
      exact ⟨_, (applied hnext).trans hnew⟩

theorem of_transactions {ts : List BlockTransaction}
    (h : Outcome.forEach (acceptTransaction host) db ts = .ok db') :
    ∃ new, Extends host b past new db db' (ts.flatMap fun t => t.trx.operations) := by
  induction ts generalizing past db with
  | nil =>
      cases h
      exact ⟨[], refl _ _ _ _⟩
  | cons t rest ih =>
      obtain ⟨next, hnext, hrest⟩ := forEach_cons_eq_ok.mp h
      simp only [acceptTransaction, applyTransaction, bind_eq_ok] at hnext
      obtain ⟨_, -, _, -, paid, hpaid, hoperations⟩ := hnext
      obtain ⟨first, hfirst⟩ : ∃ first, Extends host b ([] ++ past) first paid next t.trx.operations :=
        of_operations hoperations
      obtain ⟨new, hnew⟩ : ∃ new, Extends host b ((first ++ []) ++ past) new next db'
          (rest.flatMap fun t => t.trx.operations) := ih hrest
      exact ⟨_, ((charged hpaid).trans hfirst).trans hnew⟩

end Extends

namespace Recorded

open Database

variable {host : Host} {block : Option LedgerBlock} {past : List Moment} {db db' : Database}

/-- A block that is applied extends the run with the operations of its transactions, at the time of
the block before it. -/
theorem applyBlock {b : LedgerBlock} (h : Recorded host none past db)
    (happly : Database.applyBlock host db b = .ok db') :
    ∃ new applied, Recorded host (some b) (new ++ past) applied ∧
      RunStep host (some b) applied [] none db' ∧
        ((new.map Moment.op).reverse = b.transactions.flatMap fun t => t.trx.operations) ∧
          (∀ m ∈ new, m.time = db.dgp.time) ∧ applied.dgp.time = db.dgp.time ∧
            KeepsRecovery db applied := by
  simp only [Database.applyBlock, bind_eq_ok] at happly
  obtain ⟨opened, hopened, applied, happlied, hmaintained⟩ := happly
  obtain ⟨new, hnew⟩ : ∃ new, Extends host b past new opened applied
      (b.transactions.flatMap fun t => t.trx.operations) := Extends.of_transactions happlied
  have hsame := openBlock_recoverable hopened
  have htime : opened.dgp.time = db.dgp.time := congrArg (fun tables => tables.1.time) hsame
  have hkeeps : KeepsRecovery db opened := .of_see (congrArg Prod.snd hsame)
  exact ⟨new, applied, hnew.recorded (h.step (.opened hopened)), .closed hmaintained, hnew.operations,
    fun m hm => (hnew.times m hm).trans htime, hnew.time.trans htime, hkeeps.trans hnew.recovery⟩

/-- Every reachable database is one of a run. -/
theorem of_reachable (h : Reachable host db) : ∃ past, Recorded host none past db := by
  induction h with
  | genesis hgenesis => exact ⟨[], .genesis hgenesis⟩
  | block _ happly ih =>
      obtain ⟨past, hpast⟩ := ih
      obtain ⟨new, applied, happlied, hclosed, -⟩ := hpast.applyBlock happly
      exact ⟨new ++ past, happlied.step hclosed⟩

/-- What a run keeps of the recovery of accounts. -/
structure Traced (block : Option LedgerBlock) (past : List Moment) (db : Database) : Prop where
  trail : Trail past db.dgp.time db.overview.recovery
  later : ∀ b, block = some b → db.dgp.time < b.timestamp
  pending : block = none → ∀ name r, db.recoveryRequests.find? name = some r →
    db.dgp.time < r.expires

/-- A step within a block that is not about the recovery of accounts. -/
theorem Traced.of_same {b : LedgerBlock} (h : Traced (some b) past db)
    (hsame : db'.recoverable = db.recoverable) : Traced (some b) past db' := by
  have hrecovery : db'.overview.recovery = db.overview.recovery := congrArg Prod.fst hsame
  have htime : db'.dgp.time = db.dgp.time := congrArg RecoveryTables.time hrecovery
  refine ⟨?_, fun c hc => ?_, nofun⟩
  · rw [hrecovery, htime]
    exact h.trail
  · rw [htime]
    exact h.later c hc

theorem Traced.opened {b : LedgerBlock} (h : Traced none past db) (hopened : db.openBlock b = .ok db') :
    Traced (some b) past db' := by
  have hrecovery : db'.overview.recovery = db.overview.recovery :=
    congrArg Prod.fst (openBlock_recoverable hopened)
  have htime : db'.dgp.time = db.dgp.time := congrArg RecoveryTables.time hrecovery
  refine ⟨?_, fun c hc => ?_, nofun⟩
  · rw [hrecovery, htime]
    exact h.trail
  · cases hc
    exact (openBlock_clock _ hopened).2

theorem Traced.applied {b : LedgerBlock} {op : Operation} (h : Traced (some b) past db)
    (happlied : applyOperation host db op = .ok db') : Traced (some b) (⟨db, op⟩ :: past) db' := by
  refine ⟨applyOperation_trail h.trail _ happlied, fun c hc => ?_, nofun⟩
  have htime : db'.dgp.time = db.dgp.time :=
    congrArg Prod.fst (applyOperation_clock op db' happlied).seen
  rw [htime]
  exact h.later c hc

theorem Traced.closed {b : LedgerBlock} (h : Traced (some b) past db)
    (hclosed : maintain host (db.setClock b) b.timestamp = .ok db') : Traced none past db' := by
  obtain ⟨before, after, htrimmed, hsame, hsame'⟩ := maintain_trims hclosed
  have hrecovery : before.overview.recovery = (db.setClock b).overview.recovery :=
    congrArg Prod.fst hsame
  have hrecovery' : db'.overview.recovery = after.overview.recovery := congrArg Prod.fst hsame'
  have htime : db'.dgp.time = after.dgp.time := congrArg RecoveryTables.time hrecovery'
  have hclocked : Trail past db.dgp.time (db.setClock b).overview.recovery :=
    h.trail.later (h.later b rfl).le
  refine ⟨?_, nofun, fun _ name r hr => ?_⟩
  · rw [hrecovery', htime]
    exact htrimmed.trail (hrecovery ▸ hclocked)
  · have hrequests : db'.recoveryRequests = after.recoveryRequests :=
      congrArg RecoveryTables.recoveryRequests hrecovery'
    rw [hrequests] at hr
    rw [htime, htrimmed.time]
    exact (htrimmed.requests name r hr).2

theorem traced (h : Recorded host block past db) : Traced block past db := by
  induction h with
  | genesis hgenesis =>
      obtain ⟨⟨hinitial, -⟩, -⟩ := initGenesis_initial _ _ hgenesis
      refine ⟨.empty hinitial.ownerHistory hinitial.recoveryRequests hinitial.changeRecoveryRequests,
        nofun, fun _ name r hr => ?_⟩
      have hnone := congrArg (Store.find? name) hinitial.recoveryRequests
      rw [Store.find?_empty] at hnone
      cases hr.symm.trans hnone
  | step _ hstep ih =>
      cases hstep with
      | opened hopened => exact ih.opened hopened
      | charged hcharged =>
          exact ih.of_same (processTxFee_framed quiet_frame _ _ hcharged).recoverable
      | applied happlied => exact ih.applied happlied
      | closed hclosed => exact ih.closed hclosed

/-- A step that changes the recovery account of an account ends a block, and makes the change that
was asked for last. -/
theorem changed {new : List Moment} {block' : Option LedgerBlock} {name : AccountName} {a b : Account}
    (h : Recorded host block past db) (hstep : RunStep host block db new block' db')
    (ha : db.accounts.find? name = some a) (hb : db'.accounts.find? name = some b)
    (hchanged : b.recoveryAccount ≠ a.recoveryAccount) :
    ∃ requested, lastChange name past = some (requested, b.recoveryAccount) ∧
      requested ≤ db.dgp.time ∧
        addSeconds requested blurtOwnerAuthRecoveryPeriod ≤ db'.dgp.time := by
  have hkept : ¬ KeepsRecovery db db' := by
    intro hkeeps
    obtain ⟨b', hb', hsame⟩ := hkeeps name a ha
    rw [hb] at hb'
    cases hb'
    exact hchanged hsame
  cases hstep with
  | opened hopened =>
      exact absurd (.of_see (congrArg Prod.snd (openBlock_recoverable hopened))) hkept
  | charged hcharged =>
      exact absurd (processTxFee_framed quiet_frame _ _ hcharged).keepsRecovery hkept
  | applied happlied => exact absurd (applyOperation_keepsRecovery _ _ happlied) hkept
  | closed hclosed =>
      obtain ⟨before, after, htrimmed, hsame, hsame'⟩ := maintain_trims hclosed
      have hfirst : KeepsRecovery db before := .of_see (congrArg Prod.snd hsame)
      have hlast : KeepsRecovery after db' := .of_see (congrArg Prod.snd hsame')
      obtain ⟨a₁, ha₁, hsame₁⟩ := hfirst name a ha
      obtain ⟨b₁, hb₁, hchange⟩ := htrimmed.accounts name a₁ ha₁
      obtain ⟨b₂, hb₂, hsame₂⟩ := hlast name b₁ hb₁
      rw [hb] at hb₂
      cases hb₂
      obtain hnone | ⟨r, hr, hdue, hset⟩ := hchange
      · exact absurd (hsame₂.trans (hnone.trans hsame₁)) hchanged
      · have hrows : before.changeRecoveryRequests = db.changeRecoveryRequests :=
          congrArg (fun tables => tables.1.changeRecoveryRequests) hsame
        have htime : db'.dgp.time = after.dgp.time :=
          congrArg (fun tables => tables.1.time) hsame'
        rw [hrows] at hr
        obtain ⟨requested, hrequested, hpast, heffective⟩ := h.traced.trail.changes name r hr
        refine ⟨requested, ?_, hpast, ?_⟩
        · rw [hrequested, hsame₂, hset]
        · rw [htime, htrimmed.time, ← heffective]
          exact hdue

/-- What an account is recovered with was its owner authority, and was asked for by its recovery
account, not long ago; its recovery account is the one that was asked for last, after the full
delay if the time of that fits into 32 bits; and nothing that is expired survives a block. -/
theorem recovery_traced (h : Recorded host block past db) :
    (∀ o db', db.recoverAccount o = .ok db' →
      (∃ m ∈ past, m.Owns o.accountToRecover o.recentOwnerAuthority ∧
          m.Within blurtOwnerAuthRecoveryPeriod db.dgp.time) ∧
        ∃ m ∈ past, m.Requests o.accountToRecover o.newOwnerAuthority ∧
          m.Within blurtAccountRecoveryRequestExpirationPeriod db.dgp.time) ∧
      (∀ new block' db' name a b, RunStep host block db new block' db' →
        db.accounts.find? name = some a → db'.accounts.find? name = some b →
          b.recoveryAccount ≠ a.recoveryAccount → ∃ requested,
            lastChange name past = some (requested, b.recoveryAccount) ∧
              requested ≤ db.dgp.time ∧ (db'.dgp.time < 2 ^ 32 →
                (requested + blurtOwnerAuthRecoveryPeriod ≤ db'.dgp.time ↔
                  requested + blurtOwnerAuthRecoveryPeriod < 2 ^ 32))) ∧
        (block = none →
          (∀ name r, db.recoveryRequests.find? name = some r → db.dgp.time < r.expires) ∧
            ∀ id hist, db.ownerHistory.find? id = some hist →
              db.dgp.time ≤ hist.lastValidTime + blurtOwnerAuthRecoveryPeriod) := by
  obtain ⟨htrail, -, hpending⟩ := h.traced
  refine ⟨fun o db' hrecover => ?_, fun new block' db' name a b hstep ha hb hchanged => ?_,
    fun hclosed => ⟨hpending hclosed, fun id hist hhist => (htrail.history id hist hhist).1⟩⟩
  · obtain ⟨⟨r, hr, hnew⟩, ⟨id, hist, hhist, haccount, hrecent⟩, -⟩ := recoverAccount_spec hrecover
    obtain ⟨hkept, m, hm, howns, htime⟩ := htrail.history id hist hhist
    obtain ⟨n, hn, hrequests, hpast, -, hunexpired⟩ := htrail.requests _ r hr
    have hlast := (htrail.numbered id hist hhist).2
    rw [haccount, hrecent] at howns
    rw [hnew] at hrequests
    exact ⟨⟨m, hm, howns, htime ▸ hlast, htime ▸ hkept⟩, n, hn, hrequests, hpast, hunexpired⟩
  · obtain ⟨requested, hlast, hpast, hdue⟩ := h.changed hstep ha hb hchanged
    refine ⟨requested, hlast, hpast, fun htime => ?_⟩
    unfold addSeconds at hdue
    omega

end Recorded

namespace Sample

open Database

/-- alice gets another owner authority. -/
def updateTransaction : BlockTransaction where
  trx :=
    { operations := [
        .accountUpdate
          { account := "alice", owner := some (singleKey 3), active := none, posting := none
            memoKey := none, jsonMetadata := "", postingJsonMetadata := "" }]
      packSize := 200 }
  sigs := [2]

/-- The top witness asks for another one. -/
def requestTransaction : BlockTransaction where
  trx :=
    { operations := [
        .requestAccountRecovery
          { recoveryAccount := blurtInitMinerName, accountToRecover := "alice"
            newOwnerAuthority := singleKey 4 }]
      packSize := 200 }
  sigs := [1]

/-- alice asks for a recovery account, with the key that owns her account. -/
def changeTransaction (key : PublicKey) : BlockTransaction where
  trx :=
    { operations := [
        .changeRecoveryAccount
          { accountToRecover := "alice", newRecoveryAccount := blurtInitMinerName }]
      packSize := 200 }
  sigs := [key]

/-- The first owner of alice recovers her account. -/
def recoverAlice : RecoverAccountOperation where
  accountToRecover := "alice"
  newOwnerAuthority := singleKey 4
  recentOwnerAuthority := singleKey 2

/-- The database in which the account of alice can be recovered, and the one thirty days later. -/
def recoveryOutcome : Except String (Database × Database) := do
  let db ← initGenesis loanChain
  let updated ← applyBlock plainHost db (loanBlock (blurtGenesisTime + 3) [updateTransaction])
  let asked ← applyBlock plainHost updated
    (loanBlock (blurtGenesisTime + 6) [requestTransaction, changeTransaction 3])
  let changed ← applyBlock plainHost asked
    (loanBlock (blurtGenesisTime + 6 + blurtOwnerAuthRecoveryPeriod) [])
  return (asked, changed)

/-- The account of alice is recovered, and gets its recovery account. -/
theorem recovery_runs : ∃ past db, Recorded plainHost none past db ∧
    (∃ db', db.recoverAccount recoverAlice = .ok db') ∧
      (∃ m ∈ past, m.Owns "alice" (singleKey 2) ∧
        m.Within blurtOwnerAuthRecoveryPeriod db.dgp.time) ∧
      (∃ m ∈ past, m.Requests "alice" (singleKey 4) ∧
        m.Within blurtAccountRecoveryRequestExpirationPeriod db.dgp.time) ∧
      ∃ requested closed, lastChange "alice" past = some (requested, blurtInitMinerName) ∧
        Reachable plainHost closed ∧ requested + blurtOwnerAuthRecoveryPeriod ≤ closed.dgp.time := by
  have hruns : recoveryOutcome.toOption.any fun pair =>
      (pair.1.recoverAccount recoverAlice).toOption.isSome ∧
        pair.1.dgp.time = blurtGenesisTime + 6 ∧
        pair.2.dgp.time = blurtGenesisTime + 6 + blurtOwnerAuthRecoveryPeriod ∧
          ((pair.1.accounts.find? "alice").any fun a => a.recoveryAccount = "") ∧
            (pair.2.accounts.find? "alice").any fun a => a.recoveryAccount = blurtInitMinerName := by
    decide +kernel
  rw [Option.any_eq_true] at hruns
  obtain ⟨⟨asked, changed⟩, hrun, hfacts⟩ := hruns
  obtain ⟨hrecovers, haskedTime, hchangedTime, halice, halice'⟩ := of_decide_eq_true hfacts
  obtain ⟨db', hdb'⟩ := Option.isSome_iff_exists.mp hrecovers
  have hrecover := eq_ok_of_toOption hdb'
  obtain ⟨a, ha, hnone⟩ := (Option.any_eq_true _ _).mp halice
  obtain ⟨b, hb, hinit⟩ := (Option.any_eq_true _ _).mp halice'
  obtain ⟨db, hdb, hrun⟩ := bind_eq_ok.mp (eq_ok_of_toOption hrun)
  obtain ⟨updated, hupdated, hrun⟩ := bind_eq_ok.mp hrun
  obtain ⟨_, hasked, hrun⟩ := bind_eq_ok.mp hrun
  obtain ⟨_, hchanged, hrun⟩ := bind_eq_ok.mp hrun
  cases pure_eq_ok.mp hrun
  have hreachable : Reachable plainHost asked := .block (.block (.genesis hdb) hupdated) hasked
  obtain ⟨past, hpast⟩ := Recorded.of_reachable hreachable
  obtain ⟨howned, hrequested⟩ := hpast.recovery_traced.1 _ _ hrecover
  obtain ⟨new, applied, happlied, hclosed, hnew, -, htime, hkeeps⟩ := hpast.applyBlock hchanged
  obtain rfl : new = [] := List.map_eq_nil_iff.mp (List.reverse_eq_nil_iff.mp hnew)
  obtain ⟨a', ha', hsame⟩ := hkeeps _ a ha
  have hinit := of_decide_eq_true hinit
  have hother : b.recoveryAccount ≠ a'.recoveryAccount := by
    rw [hsame, of_decide_eq_true hnone, hinit]
    decide
  obtain ⟨requested, hlast, hbefore, hdelay⟩ :=
    happlied.recovery_traced.2.1 _ _ _ _ _ _ hclosed ha' hb hother
  rw [htime, haskedTime] at hbefore
  rw [hchangedTime] at hdelay
  refine ⟨past, asked, hpast, ⟨db', hrecover⟩, howned, hrequested, requested, changed, ?_,
    hreachable.block hchanged, ?_⟩
  · rw [← hinit]
    exact hlast
  · rw [hchangedTime]
    refine (hdelay (by decide)).mpr (lt_of_le_of_lt (Nat.add_le_add_right hbefore _) (by decide))

/-- The last time but seconds from which thirty days fit into 32 bits. -/
def lateTime : Nat := blurtGenesisTime + 3 * 899518166

/-- A first block at the late time, and the one after it, in which alice asks for a recovery
account. -/
def lateOutcome : Except String (Database × Database) := do
  let db ← initGenesis loanChain
  let first ← applyBlock plainHost db (loanBlock lateTime [])
  let second ← applyBlock plainHost first (loanBlock (lateTime + 3) [changeTransaction 2])
  return (first, second)

/-- She gets it at the end of the same block. -/
theorem late_change : ∃ past applied closed a b requested,
    Recorded plainHost (some (loanBlock (lateTime + 3) [changeTransaction 2])) past applied ∧
      RunStep plainHost (some (loanBlock (lateTime + 3) [changeTransaction 2])) applied [] none closed ∧
      Reachable plainHost closed ∧ applied.accounts.find? "alice" = some a ∧
        closed.accounts.find? "alice" = some b ∧ b.recoveryAccount ≠ a.recoveryAccount ∧
          lastChange "alice" past = some (requested, b.recoveryAccount) ∧
            closed.dgp.time < requested + blurtOwnerAuthRecoveryPeriod := by
  have hruns : lateOutcome.toOption.any fun pair =>
      pair.1.dgp.time = lateTime ∧ pair.2.dgp.time = lateTime + 3 ∧
        ((pair.1.accounts.find? "alice").any fun a => a.recoveryAccount = "") ∧
          (pair.2.accounts.find? "alice").any fun a => a.recoveryAccount = blurtInitMinerName := by
    decide +kernel
  rw [Option.any_eq_true] at hruns
  obtain ⟨⟨first, second⟩, hrun, hfacts⟩ := hruns
  obtain ⟨hfirstTime, hsecondTime, halice, halice'⟩ := of_decide_eq_true hfacts
  obtain ⟨a, ha, hnone⟩ := (Option.any_eq_true _ _).mp halice
  obtain ⟨b, hb, hinit⟩ := (Option.any_eq_true _ _).mp halice'
  obtain ⟨db, hdb, hrun⟩ := bind_eq_ok.mp (eq_ok_of_toOption hrun)
  obtain ⟨_, hfirst, hrun⟩ := bind_eq_ok.mp hrun
  obtain ⟨_, hsecond, hrun⟩ := bind_eq_ok.mp hrun
  cases pure_eq_ok.mp hrun
  have hreachable : Reachable plainHost first := .block (.genesis hdb) hfirst
  obtain ⟨past, hpast⟩ := Recorded.of_reachable hreachable
  obtain ⟨new, applied, happlied, hclosed, hnew, htimes, -, hkeeps⟩ := hpast.applyBlock hsecond
  obtain ⟨a', ha', hsame⟩ := hkeeps _ a ha
  have hinit := of_decide_eq_true hinit
  have hother : b.recoveryAccount ≠ a'.recoveryAccount := by
    rw [hsame, of_decide_eq_true hnone, hinit]
    decide
  -- the only operation of the block asks for the change
  obtain ⟨m, rfl, hop⟩ : ∃ m, new = [m] ∧ m.op = .changeRecoveryAccount
      { accountToRecover := "alice", newRecoveryAccount := blurtInitMinerName } := by
    have hops := List.reverse_eq_iff.mp hnew
    obtain ⟨m, rest, rfl, hm, hrest⟩ := List.map_eq_cons_iff.mp hops
    exact ⟨m, by rw [List.map_eq_nil_iff.mp hrest], hm⟩
  have hasked : m.change? "alice" = some b.recoveryAccount := by
    rw [Moment.change?, hop, hinit]
    rfl
  refine ⟨_, applied, second, a', b, m.time, happlied, hclosed, hreachable.block hsecond, ha', hb, hother,
    ?_, ?_⟩
  · rw [List.singleton_append, lastChange, hasked]
  · rw [htimes m List.mem_cons_self, hfirstTime, hsecondTime]
    decide

end Sample

end Ledger

end Blurt
