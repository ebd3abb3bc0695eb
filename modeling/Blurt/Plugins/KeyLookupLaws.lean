import Blurt.Ledger.HardforkVotes
import Blurt.Plugins.AccountByKey

/-! # The key lookup and the authorities

For an account made after genesis the lookup has the keys of its authorities, one each, as long as
no account is created from a claim: the plugin does not listen to that operation. What the plugin
noted before a failed operation does no harm, since every listener clears it first.
-/

namespace Blurt

namespace AccountByKey

open Ledger Database Outcome

/-! ## What changes authorities -/

/-- A step after which every authority is as before, and every account still there. -/
structure SameAuthorities (db db' : Database) : Prop where
  authorities : db'.authorities = db.authorities
  accounts : ∀ name, (db.accounts.find? name).isSome → (db'.accounts.find? name).isSome

/-- A step after which one account has new authorities. -/
structure Reauthorized (name : AccountName) (db db' : Database) : Prop where
  authorities : ∃ a, ∀ other, db'.authorities.find? other =
    if other = name then some a else db.authorities.find? other
  accounts : ∀ other, (db.accounts.find? other).isSome → (db'.accounts.find? other).isSome
  account : (db'.accounts.find? name).isSome

/-- Every account with authorities is there. -/
def Owned (db : Database) : Prop :=
  ∀ name, (db.authorities.find? name).isSome → (db.accounts.find? name).isSome

variable {db db' : Database} {name : AccountName} {host : Host}

theorem SameAuthorities.refl (db : Database) : SameAuthorities db db := ⟨rfl, fun _ => id⟩

theorem SameAuthorities.trans {db'' : Database} (h : SameAuthorities db db')
    (h' : SameAuthorities db' db'') : SameAuthorities db db'' :=
  ⟨h'.authorities.trans h.authorities, fun name hname => h'.accounts name (h.accounts name hname)⟩

theorem SameAuthorities.owned (h : SameAuthorities db db') (howned : Owned db) : Owned db' := by
  intro name hname
  rw [h.authorities] at hname
  exact h.accounts name (howned name hname)

theorem Reauthorized.owned (h : Reauthorized name db db') (howned : Owned db) : Owned db' := by
  intro other hother
  obtain ⟨a, ha⟩ := h.authorities
  rw [ha] at hother
  by_cases hname : other = name
  · exact hname ▸ h.account
  · rw [if_neg hname] at hother
    exact h.accounts other (howned other hother)

theorem Reauthorized.after {db'' : Database} (h : SameAuthorities db db')
    (h' : Reauthorized name db' db'') : Reauthorized name db db'' where
  authorities := by
    obtain ⟨a, ha⟩ := h'.authorities
    exact ⟨a, fun other => by rw [ha, h.authorities]⟩
  accounts other hother := h'.accounts other (h.accounts other hother)
  account := h'.account

theorem Reauthorized.then {db'' : Database} (h : Reauthorized name db db')
    (h' : SameAuthorities db' db'') : Reauthorized name db db'' where
  authorities := by
    obtain ⟨a, ha⟩ := h.authorities
    exact ⟨a, fun other => by rw [h'.authorities, ha]⟩
  accounts other hother := h'.accounts other (h.accounts other hother)
  account := h'.accounts name h.account

/-- Two changes of one account's authorities. -/
theorem Reauthorized.trans {db'' : Database} (h : Reauthorized name db db')
    (h' : Reauthorized name db' db'') : Reauthorized name db db'' where
  authorities := by
    obtain ⟨a, ha⟩ := h.authorities
    obtain ⟨b, hb⟩ := h'.authorities
    refine ⟨b, fun other => ?_⟩
    rw [hb, ha]
    split <;> rfl
  accounts other hother := h'.accounts other (h.accounts other hother)
  account := h'.account

/-- What the overview shows of authorities and of which accounts there are. -/
def holders (v : Overview) : Store AccountName AccountAuthority × Table AccountName AccountName :=
  (v.authorities, v.recoveryAccounts)

theorem Keeps.sameAuthorities {see : Overview → Overview} (h : Keeps see db db')
    (hsee : ∀ v, holders (see v) = holders v) : SameAuthorities db db' := by
  have hseen := congrArg holders h.seen
  rw [hsee, hsee] at hseen
  have hauthorities : db'.authorities = db.authorities := congrArg Prod.fst hseen
  refine ⟨hauthorities, fun name hname => ?_⟩
  rwa [Table.isSome_of_view_eq (congrArg Prod.snd hseen) name]

theorem Quiet.sameAuthorities (h : Quiet db db') : SameAuthorities db db' :=
  Keeps.sameAuthorities h fun _ => rfl

theorem reauthorized_set {a : AccountAuthority} (haccount : (db.accounts.find? name).isSome)
    (hauthorities : db'.authorities = db.authorities.set name a)
    (haccounts : db'.accounts = db.accounts) : Reauthorized name db db' where
  authorities := ⟨a, fun other => by rw [hauthorities, Store.find?_set]⟩
  accounts other hother := by rwa [haccounts]
  account := by rwa [haccounts]

theorem createAccount_reauthorized {creator : AccountName} {memoKey : PublicKey}
    {owner active posting : Authority} :
    Always (db.createAccount creator name memoKey owner active posting) fun db' =>
      Reauthorized name db db' ∧ db.accounts.find? name = none := by
  refine .ensure fun hnew => .pure ⟨⟨⟨_, fun other => Store.find?_set other _ _ _⟩, ?_, ?_⟩, ?_⟩
  · intro other hother
    dsimp only
    rw [Store.find?_set]
    split
    · rfl
    · exact hother
  · rw [Store.find?_set_self]
    rfl
  · exact Option.isNone_iff_eq_none.mp hnew

theorem accountCreate_reauthorized (o : AccountCreateOperation) :
    Always (db.accountCreate o) fun db' =>
      Reauthorized o.newAccountName db db' ∧ ¬ (db.accounts.find? o.newAccountName).isSome := by
  refine .skip fun _ => .ensure fun _ => .skip fun _ => .skip fun _ => .skip fun _ => ?_
  refine (adjustBalance_framed quiet_frame _ _).bind fun debited hdebited => ?_
  refine (adjustBalance_framed quiet_frame _ _).bind fun burned hburned => ?_
  have hsame : SameAuthorities db burned := Quiet.sameAuthorities (hdebited.trans hburned)
  refine createAccount_reauthorized.mono fun db' h => ⟨h.1.after hsame, fun hold => ?_⟩
  have hfound := hsame.accounts _ hold
  rw [h.2] at hfound
  cases hfound

theorem updateOwnerAuthority_reauthorized (owner : Authority)
    (haccount : (db.accounts.find? name).isSome) :
    Always (db.updateOwnerAuthority name owner) (Reauthorized name db) :=
  .skip fun _ => .pure (reauthorized_set haccount rfl rfl)

theorem modifyAccount_sameAuthorities {f : Account → Except String Account}
    (hf : ∀ a, Always (f a) a.Kept) : Always (db.modifyAccount name f) (SameAuthorities db) :=
  (modifyAccount_framed quiet_frame hf).mono fun _ h => Quiet.sameAuthorities h

theorem getAccount_isSome (name : AccountName) :
    Always (db.getAccount name) fun _ => (db.accounts.find? name).isSome := by
  intro a ha
  rw [require_eq_ok.mp ha]
  rfl

theorem accountUpdate_reauthorized (o : AccountUpdateOperation) :
    Always (db.accountUpdate o) (Reauthorized o.account db) := by
  refine .ensure fun _ => .skip fun _ => ?_
  refine (getAccount_isSome o.account).bind fun _ haccount => ?_
  have hrest : ∀ owned, SameAuthorities db owned ∨ Reauthorized o.account db owned →
      Always (do
        forAuthority o.active owned.verifyAuthorityAccountsExist
        forAuthority o.posting owned.verifyAuthorityAccountsExist
        let updated ← owned.modifyAccount o.account fun acc => .ok { acc with
          memoKey := if o.memoKey.all (· = 0) then acc.memoKey else o.memoKey.getD acc.memoKey
          lastAccountUpdate := db.dgp.time }
        let auth ← Outcome.require (updated.authorities.find? o.account) "unknown key"
        return { updated with authorities := updated.authorities.set o.account { auth with
          active := o.active.getD auth.active
          posting := o.posting.getD auth.posting } })
        (Reauthorized o.account db) := by
    intro owned howned
    refine .skip fun _ => .skip fun _ => ?_
    refine (modifyAccount_sameAuthorities ?_).bind fun updated hupdated => ?_
    · exact fun _ => .ok ⟨rfl, fun h => h⟩
    refine .skip fun auth => .pure ?_
    rcases howned with hsame | hnew
    · have hsame := hsame.trans hupdated
      exact Reauthorized.after hsame (reauthorized_set (hsame.accounts _ haccount) rfl rfl)
    · have hnew := hnew.then hupdated
      exact hnew.trans (reauthorized_set hnew.account rfl rfl)
  refine .skip fun _ => .skip fun _ => .skip fun _ => .skip fun _ => ?_
  dsimp only
  split
  · refine .ensure fun _ => .skip fun _ => ?_
    exact (updateOwnerAuthority_reauthorized _ haccount).bind fun owned howned =>
      hrest owned (.inr howned)
  · exact hrest db (.inl (.refl db))

theorem recoverAccount_reauthorized (o : RecoverAccountOperation) :
    Always (db.recoverAccount o) (Reauthorized o.accountToRecover db) := by
  refine (getAccount_isSome o.accountToRecover).bind fun _ haccount => ?_
  refine .ensure fun _ => .skip fun _ => .ensure fun _ => .ensure fun _ => ?_
  let removed := { db with recoveryRequests := db.recoveryRequests.remove o.accountToRecover }
  have hremoved : SameAuthorities db removed := ⟨rfl, fun _ => id⟩
  have howner : Always (removed.updateOwnerAuthority o.accountToRecover o.newOwnerAuthority)
      (Reauthorized o.accountToRecover removed) :=
    updateOwnerAuthority_reauthorized _ haccount
  refine howner.bind fun owned howned => ?_
  refine (modifyAccount_sameAuthorities ?_).mono fun _ h => (Reauthorized.after hremoved howned).then h
  exact fun _ => .ok ⟨rfl, fun h => h⟩

/-- The accounts that an operation changes the authorities of, as the plugin knows them. -/
def listened : Operation → Option AccountName
  | .accountCreate o => some o.newAccountName
  | .accountUpdate o => some o.account
  | .recoverAccount o => some o.accountToRecover
  | _ => none

/-- An operation that makes an account from a claim. -/
def claimed : Operation → Prop
  | .createClaimedAccount _ => True
  | _ => False

/-- Other operations leave all authorities alone. -/
theorem applyOperation_sameAuthorities {op : Operation} (hlistened : listened op = none)
    (hclaimed : ¬ claimed op ∨ db.hasHardfork 2) :
    Always (Database.applyOperation host db op) (SameAuthorities db) := by
  intro db' h
  have hkeeps := applyOperation_keeps host op db' h
  cases op with
  | accountCreate o => cases hlistened
  | accountUpdate o => cases hlistened
  | recoverAccount o => cases hlistened
  | createClaimedAccount o =>
    rcases hclaimed with hclaimed | hfork
    · exact absurd trivial hclaimed
    · simp only [Database.applyOperation, createClaimedAccount, hfork] at h
      cases h
  | _ => exact Keeps.sameAuthorities hkeeps fun _ => rfl

theorem openBlock_sameAuthorities {b : LedgerBlock} :
    Always (db.openBlock b) (SameAuthorities db) := by
  intro opened hopened
  obtain ⟨started, w, hstarted, -, -, hextended, -⟩ := openBlock_spec hopened
  have hstart : SameAuthorities db started := by
    rcases hstarted with ⟨-, hstarted⟩ | ⟨-, rfl⟩
    · exact Keeps.sameAuthorities (startHardforks_keeps _ _ hstarted) fun _ => rfl
    · exact .refl _
  have hsigned : SameAuthorities db
      { started with dgp := { started.dgp with currentWitness := b.witness } } :=
    ⟨hstart.authorities, hstart.accounts⟩
  refine Always.forEach hsigned ?_ opened hextended
  intro state extension _ hstate
  refine (visitExtension_keeps _ _).mono fun next hnext => hstate.trans ?_
  exact Keeps.sameAuthorities hnext fun _ => rfl

theorem accountRecoveryProcessing_sameAuthorities :
    Always db.accountRecoveryProcessing (SameAuthorities db) := by
  refine Always.bind (Always.drain (SameAuthorities.refl db) fun state row h _ =>
    .ok (SameAuthorities.trans h ⟨rfl, fun _ => id⟩)) fun requested hrequested => ?_
  refine Always.bind (Always.drain hrequested fun state row h _ =>
    .ok (SameAuthorities.trans h ⟨rfl, fun _ => id⟩)) fun historic hhistoric => ?_
  refine .drain hhistoric fun state row h _ db' hdb' => ?_
  simp only [applyRecoveryChange, modifyAccount, bind_eq_ok, pure_eq_ok] at hdb'
  obtain ⟨_, ⟨a, -, b, -, rfl⟩, rfl⟩ := hdb'
  refine h.trans ⟨rfl, fun name hname => ?_⟩
  dsimp only
  rw [Store.find?_set]
  split
  · rfl
  · exact hname

theorem maintain_sameAuthorities (headTime : Nat) :
    Always (maintain host db headTime) (SameAuthorities db) := by
  have hparts : maintain host db headTime = (do
      let returned ← db.clearExpiredDelegations
      let scheduled ← returned.updateWitnessSchedule
      let subsidized ← beforeRecovery host.clearVotes scheduled
      let recovered ← subsidized.accountRecoveryProcessing
      let decayed ← afterRecovery host recovered headTime
      decayed.processHardforks) := by
    simp only [maintain, beforeRecovery, afterRecovery, bind_assoc]
  rw [hparts]
  refine (clearExpiredDelegations_framed quiet_frame).bind fun returned hreturned => ?_
  refine updateWitnessSchedule_keeps.bind fun scheduled hscheduled => ?_
  refine (beforeRecovery_framed quiet_frame quiet_cashedOut).bind fun subsidized hsubsidized => ?_
  refine accountRecoveryProcessing_sameAuthorities.bind fun recovered hrecovered => ?_
  refine (afterRecovery_framed quiet_frame _).bind fun decayed hdecayed => ?_
  refine processHardforks_keeps.mono fun db' hforked => ?_
  have hscheduled := Keeps.sameAuthorities hscheduled fun _ => rfl
  have hforked := Keeps.sameAuthorities hforked fun _ => rfl
  have hbefore := (Quiet.sameAuthorities hreturned).trans hscheduled
  have hrecovered := (hbefore.trans (Quiet.sameAuthorities hsubsidized)).trans hrecovered
  exact (hrecovered.trans (Quiet.sameAuthorities hdecayed)).trans hforked

/-! ### At genesis -/

theorem createObject_owned {account : Nat → Account} {auth : AccountAuthority}
    (howned : Owned db) : Always (db.createObject name account auth) Owned := by
  refine .ensure fun _ => .pure fun other hother => ?_
  dsimp only at hother ⊢
  rw [Store.find?_set] at hother ⊢
  split
  · rfl
  · rename_i hne
    rw [if_neg hne] at hother
    exact howned other hother

theorem initGenesis_owned (args : GenesisArgs) : Always (initGenesis args) Owned := by
  have hobjects : Always genesisObjects Owned := by
    refine .skip fun _ => .skip fun _ => .skip fun _ => .skip fun _ => .pure fun name hname => ?_
    cases hname
  refine hobjects.bind fun objects hobjects => ?_
  have hprotocol : Always objects.createProtocolAccounts Owned := by
    refine (createObject_owned hobjects).bind fun miner hminer => ?_
    refine (createObject_owned hminer).bind fun null hnull => ?_
    exact (createObject_owned hnull).bind fun treasury htreasury => createObject_owned htreasury
  refine hprotocol.bind fun protocol hprotocol => ?_
  refine Always.bind (Always.forEach hprotocol fun state i _ hstate => ?_) fun miners hminers => ?_
  · exact (createObject_owned hstate).bind fun created hcreated => .pure hcreated
  refine (createObject_owned hminers).bind fun regent hregent => ?_
  have hsnapshot : Always (regent.importSnapshot args.snapshot) Owned := by
    refine .skip fun price => ?_
    have hloop : Always (Outcome.forEach (importAccount price) (regent, 0, 0, 0) args.snapshot)
        fun result => Owned result.1 := by
      refine .forEach hregent fun state line _ hstate => .skip fun _ => ?_
      refine (createObject_owned hstate).bind fun created hcreated => ?_
      exact .skip fun _ => .skip fun _ => .skip fun _ => .pure hcreated
    refine hloop.bind fun imported himported => .skip fun total => ?_
    refine (modifyAccount_sameAuthorities fun a => ?_).mono fun _ h => h.owned himported
    exact .skip fun _ => .pure ⟨rfl, id⟩
  refine hsnapshot.bind fun imported himported => ?_
  refine resetVirtualScheduleTime_keeps.mono fun _ hreset => ?_
  exact (Keeps.sameAuthorities hreset fun _ => rfl).owned himported

/-! ## What the plugin does with an account -/

/-- The keys of an account, none if it is not there. -/
def keysOf (db : Database) (name : AccountName) : List PublicKey :=
  match db.authorities.find? name with
  | some a => authKeys a
  | none => []

/-- The lookup of an account has exactly the keys of the account. -/
def Exact (db : Database) (keyLookup : KeyLookup) (name : AccountName) : Prop :=
  ∀ key, (keyLookup.find? (key, name)).isSome ↔ key ∈ keysOf db name

theorem Exact.sameAuthorities {keyLookup : KeyLookup} (hsame : SameAuthorities db db')
    (h : Exact db keyLookup name) : Exact db' keyLookup name := by
  unfold Exact keysOf
  rw [hsame.authorities]
  exact h

namespace Lookup

variable {l next : Lookup} {account other : AccountName} {key : PublicKey}

theorem isSome_set (keyLookup : KeyLookup) (row : PublicKey × AccountName) :
    ((keyLookup.set row ()).find? (key, other)).isSome ↔
      (key, other) = row ∨ (keyLookup.find? (key, other)).isSome := by
  rw [Store.find?_set]
  split
  · rename_i hrow
    simp [hrow]
  · rename_i hrow
    simp [hrow]

theorem isSome_remove (keyLookup : KeyLookup) (row : PublicKey × AccountName) :
    ((keyLookup.remove row).find? (key, other)).isSome ↔
      (key, other) ≠ row ∧ (keyLookup.find? (key, other)).isSome := by
  rw [Store.find?_remove]
  split
  · rename_i hrow
    simp [hrow]
  · rename_i hrow
    simp [hrow]

theorem foldl_addKey (account : AccountName) (keys : List PublicKey) (hnodup : keys.Nodup) (l : Lookup) :
    (keys.foldl (addKey account) l).db = l.db ∧
      (∀ key, key ∈ (keys.foldl (addKey account) l).cachedKeys ↔
        key ∈ l.cachedKeys ∧ key ∉ keys) ∧
      ∀ key other, ((keys.foldl (addKey account) l).keyLookup.find? (key, other)).isSome ↔
        (l.keyLookup.find? (key, other)).isSome ∨
          (other = account ∧ key ∈ keys ∧ key ∉ l.cachedKeys) := by
  induction keys generalizing l with
  | nil => simp
  | cons first keys ih =>
    obtain ⟨hfirst, hnodup⟩ := List.nodup_cons.mp hnodup
    obtain ⟨hdb, hcached, hlookup⟩ := ih hnodup (addKey account l first)
    rw [List.foldl_cons]
    by_cases hold : first ∈ l.cachedKeys
    · have hstep : addKey account l first = { l with cachedKeys := l.cachedKeys.erase first } := by
        simp [addKey, hold]
      rw [hstep] at hdb hcached hlookup ⊢
      refine ⟨hdb, fun key => ?_, fun key other => ?_⟩
      · rw [hcached, FlatSet.mem_erase, List.mem_cons]
        tauto
      · rw [hlookup, FlatSet.mem_erase, List.mem_cons]
        by_cases hkey : key = first
        · simp [hkey, hfirst, hold]
        · simp [hkey]
    · have hsame : (addKey account l first).cachedKeys = l.cachedKeys ∧
          (addKey account l first).db = l.db := by
        unfold addKey
        rw [if_pos hold]
        split <;> exact ⟨rfl, rfl⟩
      have hset : ∀ key other, ((addKey account l first).keyLookup.find? (key, other)).isSome ↔
          (l.keyLookup.find? (key, other)).isSome ∨ (other = account ∧ key = first) := by
        intro key other
        unfold addKey
        rw [if_pos hold]
        split
        · rw [isSome_set, Prod.mk.injEq]
          tauto
        · rename_i hsome
          rw [Bool.not_eq_true, Option.isNone_eq_false_iff] at hsome
          refine ⟨.inl, fun h => h.elim id ?_⟩
          rintro ⟨rfl, rfl⟩
          exact hsome
      refine ⟨hdb.trans hsame.2, fun key => ?_, fun key other => ?_⟩
      · rw [hcached, hsame.1, List.mem_cons]
        by_cases hkey : key = first
        · simp [hkey, hold]
        · simp [hkey]
      · rw [hlookup, hset, hsame.1, List.mem_cons]
        by_cases hkey : key = first
        · simp [hkey, hold, hfirst]
        · simp [hkey]

theorem foldl_removeKey (keys : List PublicKey) (keyLookup : KeyLookup) :
    ((keys.foldl (removeKey account) keyLookup).find? (key, other)).isSome ↔
      (keyLookup.find? (key, other)).isSome ∧ ¬ (other = account ∧ key ∈ keys) := by
  induction keys generalizing keyLookup with
  | nil => simp
  | cons first keys ih =>
    have hstep : ((removeKey account keyLookup first).find? (key, other)).isSome ↔
        (keyLookup.find? (key, other)).isSome ∧ ¬ (other = account ∧ key = first) := by
      unfold removeKey
      split
      · rw [isSome_remove, Ne, Prod.mk.injEq]
        tauto
      · rename_i habsent
        constructor
        · refine fun hfound => ⟨hfound, ?_⟩
          rintro ⟨rfl, rfl⟩
          exact habsent hfound
        · exact And.left
    rw [List.foldl_cons, ih, hstep, List.mem_cons]
    tauto

/-- What `update_key_lookup` leaves: the keys of the new authorities, and of the others those that
were not noted. -/
theorem updateKeyLookup_spec (l : Lookup) (account : AccountName) (a : AccountAuthority) :
    (l.updateKeyLookup account a).db = l.db ∧
      ∀ key other, ((l.updateKeyLookup account a).keyLookup.find? (key, other)).isSome ↔
        if other = account then
          (key ∈ authKeys a ∧ key ∉ l.cachedKeys) ∨
            ((l.keyLookup.find? (key, other)).isSome ∧
              ¬ (key ∈ l.cachedKeys ∧ key ∉ authKeys a))
        else (l.keyLookup.find? (key, other)).isSome := by
  have hnew : ∀ key, key ∈ ((∅ : FlatSet PublicKey).insertAll (authKeys a)).elements ↔
      key ∈ authKeys a := by
    intro key
    rw [← FlatSet.mem_def]
    simp
  obtain ⟨hdb, hcached, hlookup⟩ := foldl_addKey account
    ((∅ : FlatSet PublicKey).insertAll (authKeys a)).elements (FlatSet.nodup _) l
  refine ⟨hdb, fun key other => ?_⟩
  unfold updateKeyLookup
  dsimp only
  rw [foldl_removeKey, hlookup, hnew, ← FlatSet.mem_def, hcached, hnew]
  split
  · rename_i hother
    simp only [hother, true_and]
    tauto
  · rename_i hother
    simp [hother]

/-- The plugin after an operation that it listens to, told of the account and of what was noted. -/
theorem updateAccount_exact (hauth : Reauthorized account db l.db)
    (hcached : ∀ key, key ∈ l.cachedKeys ↔ key ∈ keysOf db account)
    (h : Exact db l.keyLookup name) : Exact l.db (l.updateAccount account).keyLookup name := by
  obtain ⟨a, ha⟩ := hauth.authorities
  have hfind : l.db.authorities.find? account = some a := by simp [ha]
  unfold updateAccount
  rw [hfind]
  intro key
  dsimp only
  rw [(updateKeyLookup_spec l account a).2, h key, hcached]
  by_cases hname : name = account
  · subst hname
    have hnew : keysOf l.db name = authKeys a := by rw [keysOf, hfind]
    rw [if_pos rfl, hnew]
    tauto
  · have hother : keysOf l.db name = keysOf db name := by rw [keysOf, keysOf, ha, if_neg hname]
    rw [if_neg hname, hother]

theorem updateAccount_db (l : Lookup) (account : AccountName) : (l.updateAccount account).db = l.db := by
  unfold updateAccount
  split
  · exact (updateKeyLookup_spec l account _).1
  · rfl

theorem mem_cacheAccount (l : Lookup) (account : AccountName) (key : PublicKey) :
    key ∈ (l.cacheAccount account).cachedKeys ↔ key ∈ keysOf l.db account := by
  unfold cacheAccount keysOf
  cases l.db.authorities.find? account with
  | some a => simp [cacheAuths, clearCache]
  | none => simp [clearCache]

theorem preOperation_same (l : Lookup) (op : Operation) :
    (l.preOperation op).db = l.db ∧ (l.preOperation op).keyLookup = l.keyLookup := by
  have hcache : ∀ account, (l.cacheAccount account).db = l.db ∧
      (l.cacheAccount account).keyLookup = l.keyLookup := by
    intro account
    unfold cacheAccount
    split <;> exact ⟨rfl, rfl⟩
  cases op with
  | accountUpdate o => exact hcache o.account
  | recoverAccount o => exact hcache o.accountToRecover
  | _ => exact ⟨rfl, rfl⟩

/-! ## Operations -/

/-- What the lookup keeps: an account with authorities is there, and an account that was not there
at genesis has exactly its keys in the lookup. -/
structure Faithful (genesis : Database) (db : Database) (keyLookup : KeyLookup) : Prop where
  owned : Owned db
  exact : ∀ name, genesis.accounts.find? name = none → Exact db keyLookup name

variable {genesis : Database} {keyLookup : KeyLookup}

theorem Faithful.sameAuthorities (h : Faithful genesis db keyLookup) (hsame : SameAuthorities db db') :
    Faithful genesis db' keyLookup where
  owned := hsame.owned h.owned
  exact name hname := (h.exact name hname).sameAuthorities hsame

/-- An operation keeps the lookup faithful, whatever was noted before. -/
theorem applyOperation_faithful {op : Operation} (h : Faithful genesis l.db l.keyLookup)
    (hclaimed : ¬ claimed op ∨ l.db.hasHardfork 2) (happly : l.applyOperation host op = .ok next) :
    Faithful genesis next.db next.keyLookup := by
  unfold applyOperation at happly
  cases hop : Database.applyOperation host l.db op with
  | error message =>
    rw [hop] at happly
    cases happly
  | ok db' =>
    rw [hop] at happly
    cases happly
    obtain ⟨hpreDb, hpreLookup⟩ := preOperation_same l op
    have hlistener : ∀ account, Reauthorized account l.db db' →
        (∀ key, key ∈ (l.preOperation op).cachedKeys ↔ key ∈ keysOf l.db account) →
        let noted : Lookup := { l.preOperation op with db := db' }
        Faithful genesis (noted.updateAccount account).db (noted.updateAccount account).keyLookup := by
      intro account hauth hcached noted
      rw [updateAccount_db]
      refine ⟨hauth.owned h.owned, fun name hname => ?_⟩
      refine updateAccount_exact hauth hcached ?_
      change Exact l.db (l.preOperation op).keyLookup name
      rw [hpreLookup]
      exact h.exact name hname
    cases op with
    | accountCreate o =>
      obtain ⟨hauth, hnew⟩ := accountCreate_reauthorized o db' hop
      refine hlistener o.newAccountName hauth fun key => ?_
      have hnone : l.db.authorities.find? o.newAccountName = none := by
        cases hfind : l.db.authorities.find? o.newAccountName with
        | none => rfl
        | some a => exact absurd (h.owned _ (by rw [hfind]; rfl)) hnew
      simp [preOperation, clearCache, keysOf, hnone]
    | accountUpdate o =>
      exact hlistener o.account (accountUpdate_reauthorized o db' hop) (mem_cacheAccount l o.account)
    | recoverAccount o =>
      exact hlistener o.accountToRecover (recoverAccount_reauthorized o db' hop)
        (mem_cacheAccount l o.accountToRecover)
    | _ => exact h.sameAuthorities (applyOperation_sameAuthorities rfl hclaimed db' hop)

/-- Accounts are not created from claims: none of the operations does, or hardfork 2 has come. -/
def Unclaimed (db : Database) (ops : List Operation) : Prop :=
  db.hasHardfork 2 ∨ ∀ op ∈ ops, ¬ claimed op

theorem applyOperation_db {op : Operation} (happly : l.applyOperation host op = .ok next) :
    Database.applyOperation host l.db op = .ok next.db := by
  have hpost : ∀ noted : Lookup, (noted.postOperation op).db = noted.db := by
    intro noted
    cases op with
    | accountCreate o => exact updateAccount_db _ _
    | accountUpdate o => exact updateAccount_db _ _
    | recoverAccount o => exact updateAccount_db _ _
    | _ => rfl
  unfold applyOperation at happly
  cases hop : Database.applyOperation host l.db op with
  | error message =>
    rw [hop] at happly
    cases happly
  | ok db' =>
    rw [hop] at happly
    cases happly
    rw [hpost]

theorem applyOperation_hasHardfork {op : Operation} (happly : l.applyOperation host op = .ok next)
    (hfork : l.db.hasHardfork 2) : next.db.hasHardfork 2 := by
  unfold hasHardfork at hfork ⊢
  rw [(applyOperation_hardforks op _ (applyOperation_db happly)).1]
  exact hfork

theorem applyOperations_faithful {ops : List Operation} (h : Faithful genesis l.db l.keyLookup)
    (hclaimed : Unclaimed l.db ops) (happly : l.applyOperations host ops = .ok next) :
    Faithful genesis next.db next.keyLookup ∧ (l.db.hasHardfork 2 → next.db.hasHardfork 2) := by
  induction ops generalizing l with
  | nil =>
    cases happly
    exact ⟨h, id⟩
  | cons op ops ih =>
    unfold applyOperations at happly
    cases hop : l.applyOperation host op with
    | error cachedKeys =>
      rw [hop] at happly
      cases happly
    | ok middle =>
      rw [hop] at happly
      have hfork := applyOperation_hasHardfork hop
      have hfirst : ¬ claimed op ∨ l.db.hasHardfork 2 :=
        hclaimed.symm.imp_left fun hnone => hnone op List.mem_cons_self
      have hrest : Unclaimed middle.db ops :=
        hclaimed.imp hfork fun hnone op hop => hnone op (List.mem_cons_of_mem _ hop)
      obtain ⟨hfaithful, hkept⟩ := ih (applyOperation_faithful h hfirst hop) hrest happly
      exact ⟨hfaithful, fun h => hkept (hfork h)⟩

/-! ## Transactions and blocks -/

theorem bind_ok {ε α β : Type} {first : Except ε α} {rest : α → Except ε β} {b : β} :
    first >>= rest = .ok b ↔ ∃ a, first = .ok a ∧ rest a = .ok b := by
  cases first with
  | error e =>
    constructor
    · intro h
      cases h
    · rintro ⟨a, ha, -⟩
      cases ha
  | ok a =>
    constructor
    · exact fun h => ⟨a, rfl, h⟩
    · rintro ⟨_, ha, h⟩
      cases ha
      exact h

theorem unseen_db {change : Database → Except String Database} (h : l.unseen change = .ok next) :
    change l.db = .ok next.db := by
  unfold unseen at h
  cases hdb : change l.db with
  | error message =>
    rw [hdb] at h
    cases h
  | ok db' =>
    rw [hdb] at h
    cases h
    rfl

theorem applyOperations_db {ops : List Operation} (happly : l.applyOperations host ops = .ok next) :
    Outcome.forEach (Database.applyOperation host) l.db ops = .ok next.db := by
  induction ops generalizing l with
  | nil =>
    cases happly
    rfl
  | cons op ops ih =>
    unfold applyOperations at happly
    cases hop : l.applyOperation host op with
    | error cachedKeys =>
      rw [hop] at happly
      cases happly
    | ok middle =>
      rw [hop] at happly
      exact forEach_cons_eq_ok.mpr ⟨middle.db, applyOperation_db hop, ih happly⟩

/-- The plugin accepts the transactions that the chain accepts, and leaves the ledger to it. -/
theorem applyTransaction_db {t : Ledger.BlockTransaction}
    (happly : l.applyTransaction host t = .ok next) :
    acceptTransaction host l.db t = .ok next.db := by
  obtain ⟨charged, hcharged, hops⟩ := bind_ok.mp happly
  obtain ⟨_, hvalid, hcharge⟩ := bind_ok.mp (unseen_db hcharged)
  obtain ⟨_, hsigned, hfee⟩ := bind_ok.mp hcharge
  simp only [acceptTransaction, hvalid, hsigned, Database.applyTransaction, hfee, ok_bind]
  exact applyOperations_db hops

theorem applyTransactions_db {ts : List Ledger.BlockTransaction}
    (happly : l.applyTransactions host ts = .ok next) :
    Outcome.forEach (acceptTransaction host) l.db ts = .ok next.db := by
  induction ts generalizing l with
  | nil =>
    cases happly
    rfl
  | cons t ts ih =>
    unfold applyTransactions at happly
    cases ht : l.applyTransaction host t with
    | error cachedKeys =>
      rw [ht] at happly
      cases happly
    | ok middle =>
      rw [ht] at happly
      exact forEach_cons_eq_ok.mpr ⟨middle.db, applyTransaction_db ht, ih happly⟩

theorem applyBlock_db {b : LedgerBlock} (happly : l.applyBlock host b = .ok next) :
    Database.applyBlock host l.db b = .ok next.db := by
  obtain ⟨opened, hopened, happly⟩ := bind_ok.mp happly
  obtain ⟨applied, happlied, hmaintained⟩ := bind_ok.mp happly
  simp only [Database.applyBlock, bind_eq_ok]
  exact ⟨opened.db, unseen_db hopened, applied.db, applyTransactions_db happlied,
    unseen_db hmaintained⟩

/-- A step that the plugin is not told of keeps the lookup. -/
theorem unseen_spec {change : Database → Except String Database} {kept : Database → Prop}
    (hchange : Always (change l.db) kept) (h : l.unseen change = .ok next) :
    kept next.db ∧ next.keyLookup = l.keyLookup := by
  unfold unseen at h
  cases hdb : change l.db with
  | error message =>
    rw [hdb] at h
    cases h
  | ok db' =>
    rw [hdb] at h
    cases h
    exact ⟨hchange db' hdb, rfl⟩

theorem charge_spec (t : Ledger.BlockTransaction) :
    Always (charge host t db) fun db' => SameAuthorities db db' ∧
      (db.hasHardfork 2 → db'.hasHardfork 2) := by
  refine .skip fun _ => .skip fun _ => ?_
  refine (processTxFee_framed quiet_frame t.trx).mono fun db' h => ⟨Quiet.sameAuthorities h, ?_⟩
  have hprocessed : db'.processedHardforks = db.processedHardforks :=
    congrArg Overview.processedHardforks h.seen
  unfold hasHardfork
  rw [hprocessed]
  exact id

theorem applyTransaction_faithful {t : Ledger.BlockTransaction} (h : Faithful genesis l.db l.keyLookup)
    (hclaimed : Unclaimed l.db t.trx.operations) (happly : l.applyTransaction host t = .ok next) :
    Faithful genesis next.db next.keyLookup ∧ (l.db.hasHardfork 2 → next.db.hasHardfork 2) := by
  obtain ⟨charged, hcharged, hops⟩ := bind_ok.mp happly
  obtain ⟨⟨hsame, hfork⟩, hlookup⟩ := unseen_spec (charge_spec t) hcharged
  have hfaithful := h.sameAuthorities hsame
  rw [← hlookup] at hfaithful
  obtain ⟨hdone, hkept⟩ := applyOperations_faithful hfaithful (hclaimed.imp_left hfork) hops
  exact ⟨hdone, fun h => hkept (hfork h)⟩

/-- The operations of a list of transactions. -/
def operationsOf (ts : List Ledger.BlockTransaction) : List Operation := ts.flatMap (·.trx.operations)

theorem applyTransactions_faithful {ts : List Ledger.BlockTransaction}
    (h : Faithful genesis l.db l.keyLookup) (hclaimed : Unclaimed l.db (operationsOf ts))
    (happly : l.applyTransactions host ts = .ok next) :
    Faithful genesis next.db next.keyLookup := by
  induction ts generalizing l with
  | nil =>
    cases happly
    exact h
  | cons t ts ih =>
    unfold applyTransactions at happly
    cases ht : l.applyTransaction host t with
    | error cachedKeys =>
      rw [ht] at happly
      cases happly
    | ok middle =>
      rw [ht] at happly
      have hfirst : Unclaimed l.db t.trx.operations := hclaimed.imp_right fun hnone op hop =>
        hnone op (List.mem_append_left _ hop)
      obtain ⟨hfaithful, hfork⟩ := applyTransaction_faithful h hfirst ht
      refine ih hfaithful (hclaimed.imp hfork fun hnone op hop => ?_) happly
      exact hnone op (List.mem_append_right _ hop)

theorem openBlock_hasHardfork (host : Host) {b : LedgerBlock} (hardfork : Nat) :
    Always (db.openBlock b) fun db' => db.hasHardfork hardfork → db'.hasHardfork hardfork := by
  have hstarts := (startsWith_blockInvariant host db.processedHardforks).toOpeningInvariant
  refine (hstarts.header (List.prefix_refl _)).mono fun db' hprefix hfork => ?_
  have hlength := List.IsPrefix.length_le hprefix
  simp only [hasHardfork, decide_eq_true_eq] at hfork ⊢
  omega

theorem applyBlock_faithful {b : LedgerBlock}
    (h : Faithful genesis l.db l.keyLookup) (hclaimed : Unclaimed l.db (operationsOf b.transactions))
    (happly : l.applyBlock host b = .ok next) :
    Faithful genesis next.db next.keyLookup := by
  obtain ⟨opened, hopened, happly⟩ := bind_ok.mp happly
  obtain ⟨applied, happlied, hmaintained⟩ := bind_ok.mp happly
  have hheader : Always (l.db.openBlock b) fun db => SameAuthorities l.db db ∧
      (l.db.hasHardfork 2 → db.hasHardfork 2) :=
    fun db hdb => ⟨openBlock_sameAuthorities db hdb, openBlock_hasHardfork host 2 db hdb⟩
  obtain ⟨⟨hsame, hfork⟩, hlookup⟩ := unseen_spec hheader hopened
  have hfaithful := h.sameAuthorities hsame
  rw [← hlookup] at hfaithful
  have hdone := applyTransactions_faithful hfaithful (hclaimed.imp_left hfork) happlied
  have hmaintenance : Always (maintain host (applied.db.setClock b) b.timestamp)
      (SameAuthorities applied.db) :=
    (maintain_sameAuthorities b.timestamp).mono fun _ => SameAuthorities.trans ⟨rfl, fun _ => id⟩
  obtain ⟨hsame, hlookup⟩ := unseen_spec hmaintenance hmaintained
  have hfaithful := hdone.sameAuthorities hsame
  rwa [← hlookup] at hfaithful

end Lookup

/-! ## Runs -/

namespace Node

variable {genesis : Database} {n : Node}

/-- What an event that the chain accepts must not ask for: an account from a claim, before
hardfork 2. -/
def Meets (host : Host) (n : Node) : Event → Prop
  | .transaction t => ∀ db, acceptTransaction host n.lookup.db t = .ok db →
      Lookup.Unclaimed n.lookup.db t.trx.operations
  | .block b => ∀ db, Database.applyBlock host n.lookup.db b = .ok db →
      Lookup.Unclaimed n.lookup.db (Lookup.operationsOf b.transactions)
  | _ => True

/-- No event of a run asks for what it must not. -/
def MeetsRun (host : Host) (n : Node) : List Event → Prop
  | [] => True
  | e :: events => n.Meets host e ∧ MeetsRun host (n.step host e) events

/-- The objects are faithful now and in all that the sessions go back to. -/
def Sound (genesis : Database) (n : Node) : Prop :=
  n.objects.All fun objects => Lookup.Faithful genesis objects.1 objects.2

theorem Sound.finish (h : n.Sound genesis) {result : Except (FlatSet PublicKey) Lookup}
    (hresult : ∀ l, result = .ok l → Lookup.Faithful genesis l.db l.keyLookup) :
    (n.finish result).Sound genesis := by
  cases result with
  | ok l => exact ⟨hresult l rfl, h.saved⟩
  | error cachedKeys => exact h

/-- One event keeps the objects faithful, whether it succeeds or fails. -/
theorem Sound.step (h : n.Sound genesis) {e : Event} (hmeets : n.Meets host e) :
    (n.step host e).Sound genesis := by
  cases e with
  | startUndoSession => exact h.save
  | undo => exact h.undo
  | squash => exact h.squash
  | commit revision => exact h.commit revision
  | transaction t =>
    refine h.finish fun l hl => ?_
    have hclaimed := hmeets _ (Lookup.applyTransaction_db hl)
    exact (Lookup.applyTransaction_faithful h.current hclaimed hl).1
  | block b =>
    refine h.finish fun l hl => ?_
    exact Lookup.applyBlock_faithful h.current (hmeets _ (Lookup.applyBlock_db hl)) hl

theorem Sound.run (events : List Event) (h : n.Sound genesis)
    (hmeets : MeetsRun host n events) :
    (events.foldl (Node.step host) n).Sound genesis := by
  induction events generalizing n with
  | nil => exact h
  | cons e events ih => exact ih (h.step hmeets.1) hmeets.2

/-- In every run from genesis that makes no accounts from claims, the lookup of every later account has
exactly its keys. -/
theorem run_exact {args : GenesisArgs} (hgenesis : initGenesis args = .ok genesis)
    (events : List Event) (hmeets : MeetsRun host (Node.genesis genesis) events)
    (name : AccountName) (hnew : genesis.accounts.find? name = none) :
    let reached := (events.foldl (Node.step host) (Node.genesis genesis)).lookup
    Exact reached.db reached.keyLookup name := by
  have howned := initGenesis_owned args genesis hgenesis
  have hstart : (Node.genesis genesis).Sound genesis := by
    refine ⟨⟨howned, fun name hname key => ?_⟩, fun _ hsession => absurd hsession List.not_mem_nil⟩
    have hnone : genesis.authorities.find? name = none := by
      cases hfind : genesis.authorities.find? name with
      | none => rfl
      | some a =>
        have hthere := howned name (by rw [hfind]; rfl)
        rw [hname] at hthere
        cases hthere
    change ((∅ : KeyLookup).find? (key, name)).isSome ↔ key ∈ keysOf genesis name
    simp [keysOf, hnone]
  exact (hstart.run events hmeets).current.exact name hnew

end Node

end AccountByKey

namespace Sample

open Ledger Ledger.Sample AccountByKey

def keyed (key : PublicKey) : Authority := { weightThreshold := 1, keyAuths := [(key, 1)] }

/-- The first witness claims an account and makes carol of it, whose keys are 7, 8 and 9. -/
def makeCarol : Ledger.BlockTransaction where
  trx :=
    { operations :=
        [.claimAccount { creator := "initblurt", fee := .blurt blurtMinAccountCreationFee, extensions := [] },
          .createClaimedAccount
            { creator := "initblurt", newAccountName := "carol", owner := keyed 7, active := keyed 8
              posting := keyed 9, memoKey := 7, jsonMetadata := "", extensions := [] }]
      packSize := 200 }
  sigs := [1]

/-- A fresh chain whose first witness makes dave with the fee for an account. -/
def makeDave : Ledger.BlockTransaction where
  trx :=
    { operations :=
        [.accountCreate
          { fee := .blurt blurtMinAccountCreationFee, creator := "initblurt", newAccountName := "dave"
            owner := keyed 7, active := keyed 8, posting := keyed 9, memoKey := 7
            jsonMetadata := "" }]
      packSize := 200 }
  sigs := [1]

/-- The node after a transaction on a chain that starts with `genesis`. -/
def afterwards (genesis : Database) (t : Ledger.BlockTransaction) : Lookup :=
  ([.transaction t].foldl (Node.step plainHost) (Node.genesis genesis)).lookup

/-- What the fresh chain evaluates to. -/
theorem freshChain_evaluates (holds : Database → Bool) {genesis : Database}
    (hgenesis : Database.initGenesis freshChain = .ok genesis)
    (h : (Database.initGenesis freshChain).toOption.all holds) : holds genesis := by
  rwa [hgenesis] at h

/-- An account from a claim has keys, and none of them is in the lookup. -/
theorem carol_unlisted : ∃ genesis, Database.initGenesis freshChain = .ok genesis ∧
    genesis.accounts.find? "carol" = none ∧
    keysOf (afterwards genesis makeCarol).db "carol" = [7, 8, 9] ∧
    (afterwards genesis makeCarol).keyLookup.rows = [] ∧
    ¬ Exact (afterwards genesis makeCarol).db (afterwards genesis makeCarol).keyLookup "carol" := by
  obtain ⟨genesis, hgenesis⟩ := freshChain_starts
  have hnew : genesis.accounts.find? "carol" = none := Option.isNone_iff_eq_none.mp
    (freshChain_evaluates (fun db => (db.accounts.find? "carol").isNone) hgenesis
      (by decide +kernel))
  have hkeys : keysOf (afterwards genesis makeCarol).db "carol" = [7, 8, 9] := of_decide_eq_true
    (freshChain_evaluates (fun db =>
      decide (keysOf (afterwards db makeCarol).db "carol" = [7, 8, 9])) hgenesis (by decide +kernel))
  have hlookup : (afterwards genesis makeCarol).keyLookup.rows = [] := of_decide_eq_true
    (freshChain_evaluates (fun db =>
      decide ((afterwards db makeCarol).keyLookup.rows = [])) hgenesis (by decide +kernel))
  refine ⟨genesis, hgenesis, hnew, hkeys, hlookup, fun hexact => ?_⟩
  have hlisted := (hexact 7).mpr (by rw [hkeys]; decide)
  obtain ⟨row, hrow⟩ := Option.isSome_iff_exists.mp hlisted
  rw [← Store.mem_rows_iff, hlookup] at hrow
  cases hrow

theorem dave_listed : ∃ genesis, Database.initGenesis freshChain = .ok genesis ∧
    keysOf (afterwards genesis makeDave).db "dave" = [7, 8, 9] ∧
    Exact (afterwards genesis makeDave).db (afterwards genesis makeDave).keyLookup "dave" := by
  obtain ⟨genesis, hgenesis⟩ := freshChain_starts
  have hnew : genesis.accounts.find? "dave" = none := Option.isNone_iff_eq_none.mp
    (freshChain_evaluates (fun db => (db.accounts.find? "dave").isNone) hgenesis
      (by decide +kernel))
  have hkeys : keysOf (afterwards genesis makeDave).db "dave" = [7, 8, 9] := of_decide_eq_true
    (freshChain_evaluates (fun db =>
      decide (keysOf (afterwards db makeDave).db "dave" = [7, 8, 9])) hgenesis (by decide +kernel))
  refine ⟨genesis, hgenesis, hkeys, ?_⟩
  refine Node.run_exact hgenesis [.transaction makeDave] ⟨fun _ _ => .inr fun op hop => ?_,
    trivial⟩ "dave" hnew
  rw [List.mem_singleton.mp hop]
  exact id

end Sample

end Blurt
