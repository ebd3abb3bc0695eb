import Blurt.Ledger.BlockInvariants
import Blurt.Ledger.GenesisLaws
import Blurt.Ledger.ScheduleLaws

/-! # Where the recovery of accounts comes from

The owner authorities, requests and changes that are kept for the recovery of accounts can be traced
to the operations that they come from, and what is expired is trimmed at the end of a block.
-/

namespace Blurt

namespace Ledger

open Outcome

/-- An operation that was applied, and the database before it. -/
structure Moment where
  db : Database
  op : Operation

namespace Moment

def time (m : Moment) : Nat := m.db.dgp.time

/-- The moment is not after `now`, and not more than `period` before it. -/
def Within (m : Moment) (period now : Nat) : Prop := m.time ≤ now ∧ now ≤ m.time + period

/-- The account is owned by `owner`. -/
def Owns (m : Moment) (name : AccountName) (owner : Authority) : Prop :=
  ∃ auth, m.db.authorities.find? name = some auth ∧ auth.owner = owner

/-- The recovery account of the account, or the top witness if it has none, asks for `owner`. -/
def Requests (m : Moment) (name : AccountName) (owner : Authority) : Prop :=
  ∃ o a, m.op = .requestAccountRecovery o ∧
    (o.accountToRecover = name ∧ o.newOwnerAuthority = owner ∧ owner.weightThreshold ≠ 0) ∧
      m.db.accounts.find? name = some a ∧
        if a.recoveryAccount = "" then m.db.topWitness = some o.recoveryAccount
        else a.recoveryAccount = o.recoveryAccount

/-- The recovery account that the account asks for. -/
def change? (m : Moment) (name : AccountName) : Option AccountName :=
  match m.op with
  | .changeRecoveryAccount o => if o.accountToRecover = name then some o.newRecoveryAccount else none
  | _ => none

end Moment

/-- When the account asked for a change of its recovery account the last time, and for which. -/
def lastChange (name : AccountName) : List Moment → Option (Nat × AccountName)
  | [] => none
  | m :: past =>
      match m.change? name with
      | some recoveryAccount => some (m.time, recoveryAccount)
      | none => lastChange name past

/-- What the recovery of accounts is about. -/
structure RecoveryTables where
  ownerHistory : Store Nat OwnerAuthorityHistory
  nextOwnerHistory : Nat
  recoveryRequests : Store AccountName AccountRecoveryRequest
  changeRecoveryRequests : Store AccountName ChangeRecoveryAccountRequest
  time : Nat

def Overview.recovery (v : Overview) : RecoveryTables :=
  { ownerHistory := v.ownerHistory
    nextOwnerHistory := v.nextOwnerHistory
    recoveryRequests := v.recoveryRequests
    changeRecoveryRequests := v.changeRecoveryRequests
    time := v.time }

/-- Where the rows come from, of which those before `since` are not expired at `since`. -/
structure Trail (past : List Moment) (since : Nat) (tables : RecoveryTables) : Prop where
  numbered : ∀ id hist, tables.ownerHistory.find? id = some hist →
    id < tables.nextOwnerHistory ∧ hist.lastValidTime ≤ tables.time
  ordered : ∀ i j first second, i ≤ j → tables.ownerHistory.find? i = some first →
    tables.ownerHistory.find? j = some second → first.lastValidTime ≤ second.lastValidTime
  history : ∀ id hist, tables.ownerHistory.find? id = some hist →
    since ≤ hist.lastValidTime + blurtOwnerAuthRecoveryPeriod ∧
      ∃ m ∈ past, m.Owns hist.account hist.previousOwnerAuthority ∧ m.time = hist.lastValidTime
  requests : ∀ name r, tables.recoveryRequests.find? name = some r → ∃ m ∈ past,
    m.Requests name r.newOwnerAuthority ∧ m.time ≤ tables.time ∧
      r.expires = addSeconds m.time blurtAccountRecoveryRequestExpirationPeriod ∧
        since ≤ m.time + blurtAccountRecoveryRequestExpirationPeriod
  changes : ∀ name r, tables.changeRecoveryRequests.find? name = some r → ∃ requested,
    lastChange name past = some (requested, r.recoveryAccount) ∧ requested ≤ tables.time ∧
      r.effectiveOn = addSeconds requested blurtOwnerAuthRecoveryPeriod

namespace Trail

variable {past : List Moment} {since : Nat} {v : RecoveryTables} {m : Moment}

theorem empty (h : v.ownerHistory = ∅) (hrequests : v.recoveryRequests = ∅)
    (hchanges : v.changeRecoveryRequests = ∅) : Trail [] since v := by
  refine ⟨fun id hist hhist => ?_, fun i j first second _ hfirst => ?_, fun id hist hhist => ?_,
    fun name r hr => ?_, fun name r hr => ?_⟩
  · rw [h] at hhist
    cases hhist
  · rw [h] at hfirst
    cases hfirst
  · rw [h] at hhist
    cases hhist
  · rw [hrequests] at hr
    cases hr
  · rw [hchanges] at hr
    cases hr

/-- Time passes. -/
theorem later (h : Trail past since v) {now : Nat} (hnow : v.time ≤ now) :
    Trail past since { v with time := now } where
  numbered id hist hhist :=
    ⟨(h.numbered id hist hhist).1, (h.numbered id hist hhist).2.trans hnow⟩
  ordered := h.ordered
  history := h.history
  requests name r hr := by
    obtain ⟨m, hm, hrequest, hpast, hexpires⟩ := h.requests name r hr
    exact ⟨m, hm, hrequest, hpast.trans hnow, hexpires⟩
  changes name r hr := by
    obtain ⟨requested, hlast, hpast, heffective⟩ := h.changes name r hr
    exact ⟨requested, hlast, hpast.trans hnow, heffective⟩

/-- An operation that asks for no change of a recovery account leaves the rows where they come
from. -/
theorem cons (h : Trail past since v) (hchange : ∀ name, m.change? name = none) :
    Trail (m :: past) since v where
  numbered := h.numbered
  ordered := h.ordered
  history id hist hhist := by
    obtain ⟨hsince, n, hn, howner⟩ := h.history id hist hhist
    exact ⟨hsince, n, List.mem_cons_of_mem m hn, howner⟩
  requests name r hr := by
    obtain ⟨n, hn, hrequest⟩ := h.requests name r hr
    exact ⟨n, List.mem_cons_of_mem m hn, hrequest⟩
  changes name r hr := by
    rw [lastChange, hchange name]
    exact h.changes name r hr

/-- The owner authority of the moment is recorded. -/
theorem record (h : Trail past since v) (hm : m ∈ past) (htime : m.time = v.time)
    (hsince : since ≤ v.time) {name : AccountName} {owner : Authority} (howner : m.Owns name owner) :
    Trail past since { v with
      ownerHistory := v.ownerHistory.set v.nextOwnerHistory
        { account := name, previousOwnerAuthority := owner, lastValidTime := v.time }
      nextOwnerHistory := v.nextOwnerHistory + 1 } where
  numbered id hist hhist := by
    rw [Store.find?_set] at hhist
    split at hhist
    · rename_i heq
      cases hhist
      exact ⟨heq ▸ Nat.lt_succ_self _, le_rfl⟩
    · obtain ⟨hid, hlast⟩ := h.numbered id hist hhist
      exact ⟨hid.trans (Nat.lt_succ_self _), hlast⟩
  ordered i j first second hij hfirst hsecond := by
    rw [Store.find?_set] at hfirst hsecond
    split at hsecond
    · cases hsecond
      split at hfirst
      · cases hfirst
        exact le_rfl
      · exact (h.numbered i first hfirst).2
    · split at hfirst
      · -- the new row has the largest number
        have hless := (h.numbered j second hsecond).1
        omega
      · exact h.ordered i j first second hij hfirst hsecond
  history id hist hhist := by
    rw [Store.find?_set] at hhist
    split at hhist
    · cases hhist
      exact ⟨Nat.le_add_right_of_le hsince, m, hm, howner, htime⟩
    · exact h.history id hist hhist
  requests := h.requests
  changes := h.changes

/-- The request of the moment is placed or renewed. -/
theorem request (h : Trail past since v) (hm : m ∈ past) (htime : m.time = v.time)
    (hsince : since ≤ v.time) {name : AccountName} {owner : Authority}
    (hrequest : m.Requests name owner) :
    Trail past since { v with
      recoveryRequests := v.recoveryRequests.set name
        { newOwnerAuthority := owner
          expires := addSeconds v.time blurtAccountRecoveryRequestExpirationPeriod } } where
  numbered := h.numbered
  ordered := h.ordered
  history := h.history
  requests other r hr := by
    rw [Store.find?_set] at hr
    split at hr
    · rename_i heq
      cases hr
      rw [heq, ← htime]
      exact ⟨m, hm, hrequest, le_rfl, rfl, Nat.le_add_right_of_le (htime ▸ hsince)⟩
    · exact h.requests other r hr
  changes := h.changes

theorem cancel (h : Trail past since v) (name : AccountName) :
    Trail past since { v with recoveryRequests := v.recoveryRequests.remove name } where
  numbered := h.numbered
  ordered := h.ordered
  history := h.history
  requests other r hr := by
    rw [Store.find?_remove] at hr
    split at hr
    · cases hr
    · exact h.requests other r hr
  changes := h.changes

/-- A change of the recovery account of one account: what was asked for last is in the row, if
there is one. -/
theorem change (h : Trail past since v) (htime : m.time = v.time) {name : AccountName}
    (hother : ∀ other, other ≠ name → m.change? other = none)
    {changes : Store AccountName ChangeRecoveryAccountRequest}
    (hkept : ∀ other, other ≠ name → changes.find? other = v.changeRecoveryRequests.find? other)
    (hasked : ∀ r, changes.find? name = some r → m.change? name = some r.recoveryAccount ∧
      r.effectiveOn = addSeconds m.time blurtOwnerAuthRecoveryPeriod) :
    Trail (m :: past) since { v with changeRecoveryRequests := changes } where
  numbered := h.numbered
  ordered := h.ordered
  history id hist hhist := by
    obtain ⟨hsince, n, hn, howner⟩ := h.history id hist hhist
    exact ⟨hsince, n, List.mem_cons_of_mem m hn, howner⟩
  requests other r hr := by
    obtain ⟨n, hn, hrequest⟩ := h.requests other r hr
    exact ⟨n, List.mem_cons_of_mem m hn, hrequest⟩
  changes other r hr := by
    by_cases heq : other = name
    · subst heq
      obtain ⟨hchange, heffective⟩ := hasked r hr
      rw [lastChange, hchange]
      exact ⟨m.time, rfl, htime.le, heffective⟩
    · rw [hkept other heq] at hr
      rw [lastChange, hother other heq]
      exact h.changes other r hr

end Trail

namespace Database

variable {host : Host} {past : List Moment} {since : Nat} {db db' : Database}

/-! ## Operations -/

theorem updateOwnerAuthority_history {name : AccountName} {owner : Authority}
    (h : db.updateOwnerAuthority name owner = .ok db') :
    ∃ auth, db.authorities.find? name = some auth ∧ db'.overview.recovery =
      { db.overview.recovery with
        ownerHistory := db.ownerHistory.set db.nextIds.ownerHistory
          { account := name, previousOwnerAuthority := auth.owner, lastValidTime := db.dgp.time }
        nextOwnerHistory := db.nextIds.ownerHistory + 1 } := by
  simp only [updateOwnerAuthority, bind_eq_ok, require_eq_ok, pure_eq_ok] at h
  obtain ⟨auth, hauth, rfl⟩ := h
  exact ⟨auth, hauth, rfl⟩

theorem modifyAccount_recovery {name : AccountName} {update : Account → Account}
    (h : (db.modifyAccount name fun a => .ok (update a)) = .ok db')
    (hkept : ∀ a : Account, a.Kept (update a)) : db'.overview.recovery = db.overview.recovery :=
  congrArg Overview.recovery (modifyAccount_framed quiet_frame (fun a => .ok (hkept a)) _ h).seen

/-- An account that is updated keeps its owner authority, or it is recorded. -/
theorem accountUpdate_history {o : AccountUpdateOperation} (h : db.accountUpdate o = .ok db') :
    db'.overview.recovery = db.overview.recovery ∨
      ∃ auth, db.authorities.find? o.account = some auth ∧ db'.overview.recovery =
        { db.overview.recovery with
          ownerHistory := db.ownerHistory.set db.nextIds.ownerHistory
            { account := o.account, previousOwnerAuthority := auth.owner
              lastValidTime := db.dgp.time }
          nextOwnerHistory := db.nextIds.ownerHistory + 1 } := by
  simp only [accountUpdate, bind_eq_ok, ensure_eq_ok, require_eq_ok] at h
  obtain ⟨_, -, _, -, _, -, _, -, _, -, _, -, _, -, h⟩ := h
  split at h
  · simp only [bind_eq_ok, ensure_eq_ok, require_eq_ok, pure_eq_ok] at h
    obtain ⟨_, -, _, -, owned, howned, _, -, _, -, updated, hupdated, _, -, rfl⟩ := h
    obtain ⟨auth, hauth, hrecorded⟩ := updateOwnerAuthority_history howned
    have hkept := modifyAccount_recovery hupdated fun _ => ⟨rfl, id⟩
    exact .inr ⟨auth, hauth, hkept.trans hrecorded⟩
  · simp only [bind_eq_ok, require_eq_ok, pure_eq_ok] at h
    obtain ⟨owned, howned, _, -, _, -, updated, hupdated, _, -, rfl⟩ := h
    cases howned
    have hkept := modifyAccount_recovery hupdated fun _ => ⟨rfl, id⟩
    exact .inl hkept

/-- Only its partner asks for the recovery of an account, and the request is placed or renewed, or it
is withdrawn. -/
theorem requestAccountRecovery_spec (o : RequestAccountRecoveryOperation) :
    Always (db.requestAccountRecovery o) fun db' =>
      (∃ a, db.accounts.find? o.accountToRecover = some a ∧
        if a.recoveryAccount = "" then db.topWitness = some o.recoveryAccount
        else a.recoveryAccount = o.recoveryAccount) ∧
      (db'.overview.recovery = { db.overview.recovery with
          recoveryRequests := db.recoveryRequests.remove o.accountToRecover } ∨
        o.newOwnerAuthority.weightThreshold ≠ 0 ∧
          db'.overview.recovery = { db.overview.recovery with
            recoveryRequests := db.recoveryRequests.set o.accountToRecover
              { newOwnerAuthority := o.newOwnerAuthority
                expires := addSeconds db.dgp.time blurtAccountRecoveryRequestExpirationPeriod } }) := by
  have hfound : Always (db.getAccount o.accountToRecover) fun a =>
      db.accounts.find? o.accountToRecover = some a := fun a ha => require_eq_ok.mp ha
  refine hfound.bind fun a ha => ?_
  dsimp only
  have hnamed : a.recoveryAccount ≠ "" → ∀ message, Always
      (Outcome.ensure (a.recoveryAccount = o.recoveryAccount) message) fun _ =>
        if a.recoveryAccount = "" then db.topWitness = some o.recoveryAccount
        else a.recoveryAccount = o.recoveryAccount := by
    intro hnamed message _ hsame
    rw [if_neg hnamed]
    exact ensure_eq_ok.mp hsame
  have htop : ¬ a.recoveryAccount ≠ "" → ∀ message, Always
      (Outcome.ensure (db.topWitness = some o.recoveryAccount) message) fun _ =>
        if a.recoveryAccount = "" then db.topWitness = some o.recoveryAccount
        else a.recoveryAccount = o.recoveryAccount := by
    intro hnone message _ htop
    rw [if_pos (not_not.mp hnone)]
    exact ensure_eq_ok.mp htop
  refine Always.choice (fun h => hnamed h _) (fun h => htop h _) fun _ hpartner => ?_
  split
  · exact .ensure fun _ => .ensure fun hclosed => .skip fun _ => .skip fun _ =>
      .pure ⟨⟨a, ha, hpartner⟩, .inr ⟨hclosed, rfl⟩⟩
  · split
    · exact .pure ⟨⟨a, ha, hpartner⟩, .inl rfl⟩
    · rename_i hclosed
      exact .ensure fun _ => .skip fun _ => .pure ⟨⟨a, ha, hpartner⟩, .inr ⟨hclosed, rfl⟩⟩

/-- What the recovery of an account rests on, and what it leaves. -/
theorem recoverAccount_spec {o : RecoverAccountOperation} (h : db.recoverAccount o = .ok db') :
    (∃ r, db.recoveryRequests.find? o.accountToRecover = some r ∧
        r.newOwnerAuthority = o.newOwnerAuthority) ∧
      (∃ id hist, db.ownerHistory.find? id = some hist ∧ hist.account = o.accountToRecover ∧
        hist.previousOwnerAuthority = o.recentOwnerAuthority) ∧
      ∃ auth, db.authorities.find? o.accountToRecover = some auth ∧ db'.overview.recovery =
        { db.overview.recovery with
          recoveryRequests := db.recoveryRequests.remove o.accountToRecover
          ownerHistory := db.ownerHistory.set db.nextIds.ownerHistory
            { account := o.accountToRecover, previousOwnerAuthority := auth.owner
              lastValidTime := db.dgp.time }
          nextOwnerHistory := db.nextIds.ownerHistory + 1 } := by
  simp only [recoverAccount, bind_eq_ok, ensure_eq_ok, require_eq_ok] at h
  obtain ⟨_, -, _, -, r, hr, _, hsame, _, hhistory, owned, howned, hupdated⟩ := h
  obtain ⟨auth, hauth, hrecorded⟩ := updateOwnerAuthority_history howned
  have hkept := modifyAccount_recovery hupdated fun _ => ⟨rfl, id⟩
  refine ⟨⟨r, hr, hsame⟩, ?_, auth, hauth, hkept.trans hrecorded⟩
  obtain ⟨⟨id, hist⟩, hrow, hmatch⟩ := List.any_eq_true.mp hhistory
  simp only [Bool.and_eq_true, decide_eq_true_eq] at hmatch
  exact ⟨id, hist, Store.mem_rows_iff.mp hrow, hmatch⟩

/-- A change of the recovery account is asked for, or it is withdrawn. -/
theorem changeRecoveryAccount_spec (o : ChangeRecoveryAccountOperation) :
    Always (db.changeRecoveryAccount o) fun db' =>
      db'.overview.recovery = { db.overview.recovery with
          changeRecoveryRequests := db.changeRecoveryRequests.set o.accountToRecover
            { recoveryAccount := o.newRecoveryAccount
              effectiveOn := addSeconds db.dgp.time blurtOwnerAuthRecoveryPeriod } } ∨
        db'.overview.recovery = { db.overview.recovery with
          changeRecoveryRequests := db.changeRecoveryRequests.remove o.accountToRecover } := by
  refine .skip fun _ => .skip fun _ => ?_
  dsimp only
  split
  · exact .pure (.inl rfl)
  · exact .pure (.inr rfl)

/-- An operation leaves all rows where they come from. -/
theorem applyOperation_trail {op : Operation} (h : Trail past db.dgp.time db.overview.recovery) :
    Always (applyOperation host db op) fun db' =>
      Trail (⟨db, op⟩ :: past) db'.dgp.time db'.overview.recovery := by
  intro db' happly
  have htime : db'.dgp.time = db.dgp.time :=
    congrArg Prod.fst (applyOperation_clock op db' happly).seen
  rw [htime]
  have hquiet : (∀ v, (Overview.beyond op v).recovery = v.recovery) →
      (∀ name, Moment.change? ⟨db, op⟩ name = none) →
        Trail (⟨db, op⟩ :: past) db.dgp.time db'.overview.recovery := by
    intro hbeyond hchange
    have hkept := congrArg Overview.recovery (applyOperation_keeps host op db' happly).seen
    rw [hbeyond, hbeyond] at hkept
    rw [hkept]
    exact h.cons hchange
  have hself : (⟨db, op⟩ : Moment) ∈ (⟨db, op⟩ :: past : List Moment) := List.mem_cons_self
  cases op with
  | accountUpdate o =>
      have hcons := h.cons (m := ⟨db, .accountUpdate o⟩) fun _ => rfl
      rcases accountUpdate_history happly with hkept | ⟨auth, hauth, hkept⟩
      · rw [hkept]
        exact hcons
      · rw [hkept]
        exact hcons.record hself rfl le_rfl ⟨auth, hauth, rfl⟩
  | requestAccountRecovery o =>
      have hcons := h.cons (m := ⟨db, .requestAccountRecovery o⟩) fun _ => rfl
      obtain ⟨⟨a, ha, hpartner⟩, hkept | ⟨hclosed, hkept⟩⟩ := requestAccountRecovery_spec o _ happly
      · rw [hkept]
        exact hcons.cancel _
      · rw [hkept]
        exact hcons.request hself rfl le_rfl ⟨o, a, rfl, ⟨rfl, rfl, hclosed⟩, ha, hpartner⟩
  | recoverAccount o =>
      have hcons := h.cons (m := ⟨db, .recoverAccount o⟩) fun _ => rfl
      obtain ⟨-, -, auth, hauth, hkept⟩ := recoverAccount_spec happly
      rw [hkept]
      exact (hcons.cancel _).record hself rfl le_rfl ⟨auth, hauth, rfl⟩
  | changeRecoveryAccount o =>
      have hother : ∀ other, other ≠ o.accountToRecover →
          Moment.change? ⟨db, .changeRecoveryAccount o⟩ other = none := fun other hne =>
        if_neg (Ne.symm hne)
      rcases changeRecoveryAccount_spec o _ happly with hkept | hkept
      · rw [hkept]
        refine h.change rfl hother (fun other hne => Store.find?_set_of_ne hne _ _) fun r hr => ?_
        rw [Store.find?_set_self] at hr
        cases hr
        exact ⟨if_pos rfl, rfl⟩
      · rw [hkept]
        refine h.change rfl hother (fun other hne => ?_) fun r hr => ?_
        · rw [Store.find?_remove, if_neg hne]
          rfl
        · rw [Store.find?_remove, if_pos rfl] at hr
          cases hr
  | _ => exact hquiet (fun _ => rfl) fun _ => rfl

/-- A step in which no account gets another recovery account. -/
def KeepsRecovery (db db' : Database) : Prop :=
  ∀ name a, db.accounts.find? name = some a →
    ∃ b, db'.accounts.find? name = some b ∧ b.recoveryAccount = a.recoveryAccount

theorem KeepsRecovery.of_see (h : db'.overview.recoveryAccounts = db.overview.recoveryAccounts) :
    KeepsRecovery db db' := by
  intro name a ha
  have hsame := congrArg (Table.find? name) h
  change Table.find? name (db'.accounts.view Account.recoveryAccount) =
    Table.find? name (db.accounts.view Account.recoveryAccount) at hsame
  rw [Table.find?_view, Table.find?_view, ha] at hsame
  exact Option.map_eq_some_iff.mp hsame

theorem KeepsRecovery.trans {db'' : Database} (h : KeepsRecovery db db') (h' : KeepsRecovery db' db'') :
    KeepsRecovery db db'' := by
  intro name a ha
  obtain ⟨b, hb, hsame⟩ := h name a ha
  obtain ⟨c, hc, hsame'⟩ := h' name b hb
  exact ⟨c, hc, hsame'.trans hsame⟩

theorem Keeps.keepsRecovery (h : Quiet db db') : KeepsRecovery db db' :=
  .of_see (congrArg Overview.recoveryAccounts h.seen)

/-- A new account is none of those that there were. -/
theorem createAccount_keepsRecovery (creator name : AccountName) (memoKey : PublicKey)
    (owner active posting : Authority) :
    Always (db.createAccount creator name memoKey owner active posting) (KeepsRecovery db) := by
  refine .ensure fun hnew => .pure fun other a ha => ?_
  have hother : other ≠ name := by
    rintro rfl
    rw [ha] at hnew
    cases hnew
  exact ⟨a, (Store.find?_set_of_ne hother _ _).trans ha, rfl⟩

/-- No operation changes the recovery account of an account. -/
theorem applyOperation_keepsRecovery (op : Operation) :
    Always (applyOperation host db op) (KeepsRecovery db) := by
  have hquiet : (∀ v, (Overview.beyond op v).recoveryAccounts = v.recoveryAccounts) →
      Always (applyOperation host db op) (KeepsRecovery db) := by
    intro hbeyond db' happly
    have hkept := congrArg Overview.recoveryAccounts (applyOperation_keeps host op db' happly).seen
    rw [hbeyond, hbeyond] at hkept
    exact .of_see hkept
  cases op with
  | accountCreate o =>
      refine .skip fun _ => .ensure fun _ => .skip fun _ => .skip fun _ => .skip fun _ => ?_
      refine (adjustBalance_framed quiet_frame _ _).bind fun debited hdebited => ?_
      refine (adjustBalance_framed quiet_frame _ _).bind fun burned hburned => ?_
      refine (createAccount_keepsRecovery _ _ _ _ _ _).mono fun _ hcreated => ?_
      exact (hdebited.trans hburned).keepsRecovery.trans hcreated
  | createClaimedAccount o =>
      refine .ensure fun _ => .skip fun _ => .ensure fun _ => .skip fun _ => .skip fun _ => ?_
      refine .skip fun _ => (modifyAccount_framed quiet_frame ?_).bind fun claimed hclaimed => ?_
      · exact fun _ => .ok ⟨rfl, id⟩
      · refine (createAccount_keepsRecovery _ _ _ _ _ _).mono fun _ hcreated => ?_
        exact hclaimed.keepsRecovery.trans hcreated
  | _ => exact hquiet fun _ => rfl

/-! ## The end of a block -/

/-- What is left when the queues of the recovery of accounts have been trimmed. -/
structure Trimmed (db db' : Database) : Prop where
  time : db'.dgp.time = db.dgp.time
  next : db'.nextIds.ownerHistory = db.nextIds.ownerHistory
  requests : ∀ name r, db'.recoveryRequests.find? name = some r →
    db.recoveryRequests.find? name = some r ∧ db.dgp.time < r.expires
  history : ∀ id hist, db'.ownerHistory.find? id = some hist →
    db.ownerHistory.find? id = some hist ∧ ∃ first oldest, first ≤ id ∧
      db.ownerHistory.find? first = some oldest ∧
        db.dgp.time ≤ addSeconds oldest.lastValidTime blurtOwnerAuthRecoveryPeriod
  changes : ∀ name r, db'.changeRecoveryRequests.find? name = some r →
    db.changeRecoveryRequests.find? name = some r ∧ db.dgp.time < r.effectiveOn
  accounts : ∀ name a, db.accounts.find? name = some a → ∃ b, db'.accounts.find? name = some b ∧
    (b.recoveryAccount = a.recoveryAccount ∨ ∃ r, db.changeRecoveryRequests.find? name = some r ∧
      r.effectiveOn ≤ db.dgp.time ∧ b.recoveryAccount = r.recoveryAccount)

theorem drainRequests_spec (turns : Nat) :
    Always (Outcome.drain nextRecoveryRequest
      (fun db row => .ok { db with recoveryRequests := db.recoveryRequests.remove row.1 }) turns db)
      fun db' => ∃ requests, db' = { db with recoveryRequests := requests } ∧
        ∀ name r, requests.find? name = some r →
          db.recoveryRequests.find? name = some r ∧ db.dgp.time < r.expires := by
  intro db' h
  obtain ⟨requests, rfl, hless⟩ : ∃ requests, db' = { db with recoveryRequests := requests } ∧
      ∀ name r, requests.find? name = some r → db.recoveryRequests.find? name = some r := by
    refine drain_invariant (fun state => ∃ requests,
      state = { db with recoveryRequests := requests } ∧ ∀ name r,
        requests.find? name = some r → db.recoveryRequests.find? name = some r)
      (fun state row next hstate _ hnext => ?_) ⟨_, rfl, fun _ _ => id⟩ h
    obtain ⟨requests, rfl, hless⟩ := hstate
    cases hnext
    refine ⟨_, rfl, fun name r hr => hless name r ?_⟩
    rw [Store.find?_remove] at hr
    split at hr
    · cases hr
    · exact hr
  refine ⟨requests, rfl, fun name r hr => ⟨hless name r hr, ?_⟩⟩
  have htotal := Store.total_lex fun row : AccountName × AccountRecoveryRequest => row.2.expires
  have htrans := Store.isTrans_lex fun row : AccountName × AccountRecoveryRequest => row.2.expires
  have hnone := drain_done h
  unfold nextRecoveryRequest at hnone
  obtain ⟨first, earliest, -, hdue, hle⟩ := Store.exists_first hnone hr
  have hlater := of_decide_eq_false hdue
  dsimp only at hle hlater
  omega

theorem drainHistory_spec (turns : Nat) :
    Always (Outcome.drain nextOwnerHistory
      (fun db row => .ok { db with ownerHistory := db.ownerHistory.remove row.1 }) turns db)
      fun db' => ∃ ownerHistory, db' = { db with ownerHistory } ∧
        ∀ id hist, ownerHistory.find? id = some hist → db.ownerHistory.find? id = some hist ∧
          ∃ first oldest, first ≤ id ∧ db.ownerHistory.find? first = some oldest ∧
            db.dgp.time ≤ addSeconds oldest.lastValidTime blurtOwnerAuthRecoveryPeriod := by
  intro db' h
  obtain ⟨ownerHistory, rfl, hless⟩ : ∃ ownerHistory, db' = { db with ownerHistory } ∧
      ∀ id hist, ownerHistory.find? id = some hist → db.ownerHistory.find? id = some hist := by
    refine drain_invariant (fun state => ∃ ownerHistory,
      state = { db with ownerHistory } ∧ ∀ id hist,
        ownerHistory.find? id = some hist → db.ownerHistory.find? id = some hist)
      (fun state row next hstate _ hnext => ?_) ⟨_, rfl, fun _ _ => id⟩ h
    obtain ⟨ownerHistory, rfl, hless⟩ := hstate
    cases hnext
    refine ⟨_, rfl, fun id hist hhist => hless id hist ?_⟩
    rw [Store.find?_remove] at hhist
    split at hhist
    · cases hhist
    · exact hhist
  refine ⟨ownerHistory, rfl, fun id hist hhist => ⟨hless id hist hhist, ?_⟩⟩
  have htotal : Std.Total fun x y : Nat × OwnerAuthorityHistory => x.1 ≤ y.1 :=
    ⟨fun x y => le_total x.1 y.1⟩
  have htrans : IsTrans (Nat × OwnerAuthorityHistory) fun x y => x.1 ≤ y.1 :=
    ⟨fun _ _ _ => le_trans⟩
  have hnone := drain_done h
  unfold nextOwnerHistory at hnone
  obtain ⟨first, oldest, hfirst, hdue, hle⟩ := Store.exists_first hnone hhist
  exact ⟨first, oldest, hle, hless first oldest hfirst, not_lt.mp (of_decide_eq_false hdue)⟩

/-- The changes that are due are made. -/
theorem drainChanges_spec (turns : Nat) :
    Always (Outcome.drain nextRecoveryChange applyRecoveryChange turns db) fun db' =>
      (db'.dgp = db.dgp ∧ db'.nextIds = db.nextIds ∧ db'.recoveryRequests = db.recoveryRequests ∧
        db'.ownerHistory = db.ownerHistory) ∧
      (∀ name r, db'.changeRecoveryRequests.find? name = some r →
        db.changeRecoveryRequests.find? name = some r ∧ db.dgp.time < r.effectiveOn) ∧
      ∀ name a, db.accounts.find? name = some a → ∃ b, db'.accounts.find? name = some b ∧
        (b.recoveryAccount = a.recoveryAccount ∨ ∃ r, db.changeRecoveryRequests.find? name = some r ∧
          r.effectiveOn ≤ db.dgp.time ∧ b.recoveryAccount = r.recoveryAccount) := by
  intro db' h
  obtain ⟨accounts, changes, rfl, hless, haccounts⟩ : ∃ accounts changes,
      db' = { db with accounts, changeRecoveryRequests := changes } ∧
        (∀ name r, changes.find? name = some r → db.changeRecoveryRequests.find? name = some r) ∧
        ∀ name a, db.accounts.find? name = some a → ∃ b, accounts.find? name = some b ∧
          (b.recoveryAccount = a.recoveryAccount ∨ ∃ r,
            db.changeRecoveryRequests.find? name = some r ∧ r.effectiveOn ≤ db.dgp.time ∧
              b.recoveryAccount = r.recoveryAccount) := by
    refine drain_invariant (fun state => ∃ accounts changes,
      state = { db with accounts, changeRecoveryRequests := changes } ∧
        (∀ name r, changes.find? name = some r → db.changeRecoveryRequests.find? name = some r) ∧
        ∀ name a, db.accounts.find? name = some a → ∃ b, accounts.find? name = some b ∧
          (b.recoveryAccount = a.recoveryAccount ∨ ∃ r,
            db.changeRecoveryRequests.find? name = some r ∧ r.effectiveOn ≤ db.dgp.time ∧
              b.recoveryAccount = r.recoveryAccount))
      (fun state row next hstate hnext hrow => ?_)
      ⟨_, _, rfl, fun _ _ => id, fun name a ha => ⟨a, ha, .inl rfl⟩⟩ h
    obtain ⟨accounts, changes, rfl, hless, haccounts⟩ := hstate
    obtain ⟨hfound, hdue⟩ := Store.find?_of_head?_due hnext
    simp only [applyRecoveryChange, modifyAccount, getAccount, bind_eq_ok, require_eq_ok, pure_eq_ok,
      Except.ok.injEq] at hrow
    obtain ⟨_, ⟨a, ha, _, rfl, rfl⟩, rfl⟩ := hrow
    refine ⟨_, _, rfl, fun name r hr => ?_, fun name before hbefore => ?_⟩
    · rw [Store.find?_remove] at hr
      split at hr
      · cases hr
      · exact hless name r hr
    · rw [Store.find?_set]
      split
      · rename_i heq
        subst heq
        exact ⟨_, rfl, .inr ⟨row.2, hless _ _ hfound, of_decide_eq_true hdue, rfl⟩⟩
      · exact haccounts name before hbefore
  refine ⟨⟨rfl, rfl, rfl, rfl⟩, fun name r hr => ⟨hless name r hr, ?_⟩, haccounts⟩
  have htotal := Store.total_lex fun row : AccountName × ChangeRecoveryAccountRequest =>
    row.2.effectiveOn
  have htrans := Store.isTrans_lex fun row : AccountName × ChangeRecoveryAccountRequest =>
    row.2.effectiveOn
  have hnone := drain_done h
  unfold nextRecoveryChange at hnone
  obtain ⟨first, earliest, -, hdue, hle⟩ := Store.exists_first hnone hr
  have hlater := of_decide_eq_false hdue
  dsimp only at hle hlater
  omega

theorem accountRecoveryProcessing_trims : Always db.accountRecoveryProcessing (Trimmed db) := by
  refine (drainRequests_spec _).bind ?_
  rintro _ ⟨requests, rfl, hrequests⟩
  refine (drainHistory_spec _).bind ?_
  rintro _ ⟨ownerHistory, rfl, hhistory⟩
  refine (drainChanges_spec _).mono fun db' ⟨⟨hdgp, hnext, hsame, hsame'⟩, hchanges, haccounts⟩ => ?_
  change db'.recoveryRequests = requests at hsame
  change db'.ownerHistory = ownerHistory at hsame'
  exact
    { time := congrArg GlobalProperties.time hdgp
      next := congrArg NextIds.ownerHistory hnext
      requests := fun name r hr => hrequests name r (hsame ▸ hr)
      history := fun id hist hhist => hhistory id hist (hsame' ▸ hhist)
      changes := hchanges
      accounts := haccounts }

/-- What is left comes from where it came from, and is not expired. -/
theorem Trimmed.trail (h : Trimmed db db') (htrail : Trail past since db.overview.recovery) :
    Trail past db'.dgp.time db'.overview.recovery := by
  have htime := h.time
  refine ⟨fun id hist hhist => ?_, fun i j first second hij hfirst hsecond => ?_,
    fun id hist hhist => ?_, fun name r hr => ?_, fun name r hr => ?_⟩
  · obtain ⟨hless, hlast⟩ := htrail.numbered id hist (h.history id hist hhist).1
    exact ⟨lt_of_lt_of_eq hless h.next.symm, hlast.trans htime.ge⟩
  · exact htrail.ordered i j first second hij (h.history i first hfirst).1
      (h.history j second hsecond).1
  · obtain ⟨hfound, first, oldest, hle, hfirst, hdue⟩ := h.history id hist hhist
    have hlast := htrail.ordered first id oldest hist hle hfirst hfound
    have hwrap : addSeconds oldest.lastValidTime blurtOwnerAuthRecoveryPeriod ≤
        oldest.lastValidTime + blurtOwnerAuthRecoveryPeriod := Nat.mod_le _ _
    exact ⟨by omega, (htrail.history id hist hfound).2⟩
  · obtain ⟨hfound, hdue⟩ := h.requests name r hr
    obtain ⟨m, hm, hrequest, hpast, hexpires, -⟩ := htrail.requests name r hfound
    have hwrap : addSeconds m.time blurtAccountRecoveryRequestExpirationPeriod ≤
        m.time + blurtAccountRecoveryRequestExpirationPeriod := Nat.mod_le _ _
    exact ⟨m, hm, hrequest, hpast.trans htime.ge, hexpires, by omega⟩
  · obtain ⟨requested, hlast, hpast, heffective⟩ := htrail.changes name r (h.changes name r hr).1
    exact ⟨requested, hlast, hpast.trans htime.ge, heffective⟩

/-- What the recovery of accounts is about, and the recovery accounts. -/
def recoverable (db : Database) : RecoveryTables × Table AccountName AccountName :=
  (db.overview.recovery, db.overview.recoveryAccounts)

theorem Keeps.recoverable (h : Quiet db db') : db'.recoverable = db.recoverable :=
  congrArg (fun v : Overview => (v.recovery, v.recoveryAccounts)) h.seen

theorem openBlock_recoverable {b : LedgerBlock} {opened : Database}
    (h : db.openBlock b = .ok opened) : opened.recoverable = db.recoverable := by
  obtain ⟨started, w, hstarted, -, -, hextended, -⟩ := openBlock_spec h
  have hstart : started.recoverable = db.recoverable := by
    rcases hstarted with ⟨-, hstarted⟩ | ⟨-, rfl⟩
    · have hkept := congrArg (fun v : Overview => (v.recovery, v.recoveryAccounts))
        (startHardforks_keeps _ _ hstarted).seen
      exact hkept
    · rfl
  have hloop : Always (Outcome.forEach (visitExtension b.witness)
      { started with dgp := { started.dgp with currentWitness := b.witness } } b.extensions)
      fun d => d.recoverable = started.recoverable :=
    .forEach rfl fun state extension _ hstate => by
      refine (visitExtension_keeps _ _).mono fun next hnext => ?_
      have hkept := congrArg (fun v : Overview => (v.recovery, v.recoveryAccounts)) hnext.seen
      exact hkept.trans hstate
  exact (hloop opened hextended).trans hstart

/-- The maintenance of a block trims the queues once, and leaves them alone before and after. -/
theorem maintain_trims {headTime : Nat} (h : maintain host db headTime = .ok db') :
    ∃ before after, Trimmed before after ∧ before.recoverable = db.recoverable ∧
      db'.recoverable = after.recoverable := by
  simp only [maintain, bind_eq_ok] at h
  obtain ⟨returned, hreturned, scheduled, hscheduled, burned, hburned, funded, hfunded, cashed,
    hcashed, withdrawn, hwithdrawn, saved, hsaved, subsidized, hsubsidized, recovered, hrecovered,
    expired, hexpired, declined, hdeclined, proposed, hproposed, decayed, hdecayed, hforked⟩ := h
  have hbefore : beforeRecovery host.clearVotes scheduled = .ok subsidized := by
    simp only [beforeRecovery, bind_eq_ok]
    exact ⟨burned, hburned, funded, hfunded, cashed, hcashed, withdrawn, hwithdrawn, saved, hsaved,
      hsubsidized⟩
  have hafter : afterRecovery host recovered headTime = .ok decayed := by
    simp only [afterRecovery, bind_eq_ok]
    exact ⟨expired, hexpired, declined, hdeclined, proposed, hproposed, hdecayed⟩
  have hreturn := (clearExpiredDelegations_framed quiet_frame _ hreturned).recoverable
  have hschedule := congrArg (fun v : Overview => (v.recovery, v.recoveryAccounts))
    (updateWitnessSchedule_keeps _ hscheduled).seen
  have hpaid := (beforeRecovery_framed quiet_frame quiet_cashedOut _ hbefore).recoverable
  have hdecay := (afterRecovery_framed quiet_frame _ _ hafter).recoverable
  have hfork := congrArg (fun v : Overview => (v.recovery, v.recoveryAccounts))
    (processHardforks_keeps _ hforked).seen
  refine ⟨subsidized, recovered, accountRecoveryProcessing_trims _ hrecovered, ?_, ?_⟩
  · exact (hpaid.trans hschedule).trans hreturn
  · exact Eq.trans hfork hdecay

end Database

end Ledger

end Blurt
