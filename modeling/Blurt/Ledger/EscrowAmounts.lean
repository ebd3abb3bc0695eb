import Blurt.Ledger.FeeLaws
import Blurt.Ledger.PollsBlocks

/-! # What escrows hold

No block takes more out of an escrow than it holds, so that no escrow of a reachable database
is in debt, and no refund takes anything from the account that opened it.
-/

namespace Blurt

namespace Ledger

open Outcome

namespace Database

variable {host : Host} {db db' : Database}

/-- A step after which no escrow is in debt if none was before. -/
def KeepsEscrows (db db' : Database) : Prop := db.EscrowsNonneg → db'.EscrowsNonneg

theorem KeepsEscrows.of_eq (h : db'.escrows = db.escrows) : KeepsEscrows db db' := by
  intro hdb key e he
  rw [h] at he
  exact hdb key e he

theorem keepsEscrows_frame : Frame KeepsEscrows where
  refl _ := id
  trans h h' := fun hdb => h' (h hdb)
  beside h := .of_eq (congrArg Outlook.escrows h)
  account _ _ := .of_eq rfl
  witness _ _ _ _ := .of_eq rfl
  comment _ _ _ := .of_eq rfl
  funds := by
    rintro db db' ⟨⟨funds, rfl⟩, -⟩
    exact .of_eq rfl
  escrow := by
    intro db key hdb other e he
    rw [Store.find?_remove] at he
    split at he
    · cases he
    · exact hdb other e he
  witnessVote h := by
    obtain ⟨w, v, votes, -, -, rfl⟩ := adjustWitnessVote_spec h
    exact .of_eq rfl

theorem updateWitnessSchedule_keepsEscrows : Always db.updateWitnessSchedule (KeepsEscrows db) := by
  intro db' h
  obtain ⟨-, rfl⟩ | ⟨-, timed, time, scheduled, hlapped, -, -, hmedian⟩ :=
    updateWitnessSchedule_lapped h
  · exact id
  · obtain ⟨_, _, _, _, -, -, rfl⟩ := updateMedianWitnessProps_spec hmedian
    obtain ⟨⟨witnesses, wso, rfl⟩, -⟩ := hlapped.step
    exact .of_eq rfl

theorem accountRecoveryProcessing_keepsEscrows :
    Always db.accountRecoveryProcessing (KeepsEscrows db) := by
  have hrefl : KeepsEscrows db db := id
  refine Always.bind (Always.drain hrefl fun state row h _ => ?_) fun requested hrequested => ?_
  · exact .ok h
  · refine Always.bind (Always.drain hrequested fun state row h _ => ?_) fun historic hhistoric => ?_
    · exact .ok h
    · refine .drain hhistoric fun state row h _ db' hdb' => ?_
      simp only [applyRecoveryChange, bind_eq_ok, pure_eq_ok] at hdb'
      obtain ⟨_, hchanged, rfl⟩ := hdb'
      obtain ⟨a, b, -, -, rfl⟩ := modifyAccount_spec hchanged
      exact h

theorem keepsEscrows_blockFrame (host : Host) : BlockFrame host KeepsEscrows where
  toFrame := keepsEscrows_frame
  cashout _ _ _ _ _ _ := .of_eq rfl
  signer := .of_eq rfl
  clock := .of_eq rfl
  hardfork := .of_eq rfl
  publish _ _ := .of_eq rfl
  operation hvalid := fun _ h hdb => applyOperation_escrowsNonneg hvalid hdb _ h
  schedule := updateWitnessSchedule_keepsEscrows
  recovery := accountRecoveryProcessing_keepsEscrows

/-! ## Genesis -/

theorem createObject_keepsEscrows (name : AccountName) (account : Nat → Account)
    (auth : AccountAuthority) : Always (db.createObject name account auth) (KeepsEscrows db) :=
  .ensure fun _ => .pure (.of_eq rfl)

theorem importSnapshot_keepsEscrows (snapshot : List AccountSnapshot) :
    Always (db.importSnapshot snapshot) (KeepsEscrows db) := by
  refine .skip fun price => ?_
  have hloop : Always (Outcome.forEach (importAccount price) (db, 0, 0, 0) snapshot) fun result =>
      KeepsEscrows db result.1 := by
    refine .forEach id fun state line _ h => .skip fun shares => ?_
    refine (createObject_keepsEscrows _ _ _).bind fun created hcreated => ?_
    exact .skip fun _ => .skip fun _ => .skip fun _ => .pure (hcreated ∘ h)
  refine hloop.bind fun imported himported => .skip fun total => ?_
  refine (modifyAccount_framed keepsEscrows_frame fun a => ?_).mono fun _ h => ?_
  · exact .skip fun _ => .pure ⟨rfl, id⟩
  · exact h ∘ himported

/-- There is no escrow at genesis. -/
theorem initGenesis_escrowsNonneg (args : GenesisArgs) : Always (initGenesis args) EscrowsNonneg := by
  have hobjects : Always genesisObjects EscrowsNonneg := by
    refine .skip fun price => .skip fun shares => .skip fun rd => .skip fun witnessRd => .pure ?_
    rintro key e he
    cases he
  refine hobjects.bind fun objects hobjects => ?_
  have hprotocol : Always objects.createProtocolAccounts EscrowsNonneg := by
    refine (createObject_keepsEscrows _ _ _).bind fun miner hminer => ?_
    refine (createObject_keepsEscrows _ _ _).bind fun null hnull => ?_
    refine (createObject_keepsEscrows _ _ _).bind fun treasury htreasury => ?_
    exact (createObject_keepsEscrows _ _ _).mono fun _ htemp =>
      htemp (htreasury (hnull (hminer hobjects)))
  refine hprotocol.bind fun protocol hprotocol => ?_
  have hminers : Always (Outcome.forEach (createInitMiner args.initPublicKey) protocol
      (List.range blurtMaxWitnesses)) EscrowsNonneg :=
    .forEach hprotocol fun state i _ h =>
      (createObject_keepsEscrows _ _ _).bind fun created hcreated => .pure (hcreated h)
  refine hminers.bind fun miners hminers => ?_
  refine (createObject_keepsEscrows _ _ _).bind fun regent hregent => ?_
  refine (importSnapshot_keepsEscrows _).bind fun imported himported db hreset => ?_
  obtain ⟨⟨witnesses, rfl⟩, -⟩ := resetVirtualScheduleTime_laps hreset
  exact himported (hregent hminers)

/-- No escrow of a reachable database is in debt. -/
theorem reachable_escrowsNonneg (h : Reachable host db) : db.EscrowsNonneg := by
  induction h with
  | genesis hgenesis => exact initGenesis_escrowsNonneg _ _ hgenesis
  | block _ happly ih => exact (keepsEscrows_blockFrame host).applyBlock _ happly ih

/-- In a reachable database only a claim of rewards and the fee of a witness take anything from an
account whose owner and active authorities the operation does not require. -/
theorem reachable_spares {op : Operation} {name : AccountName} {a : Account}
    (h : Reachable host db) (hvalid : op.validate host.rules = .ok ())
    (happly : applyOperation host db op = .ok db') (hclaim : ∀ o, op ≠ .claimRewardBalance o)
    (hprops : ∀ o, op ≠ .witnessSetProperties o) (howner : name ∉ op.requiredOwner)
    (hactive : name ∉ op.requiredActive) (ha : db.accounts.find? name = some a) :
    ∃ b, db'.accounts.find? name = some b ∧ a.Spared b := by
  have hescrows := reachable_escrowsNonneg h
  obtain ⟨b, hb, hspared⟩ :=
    exists_spared (applyOperation_spares hvalid hescrows happly hclaim hprops) ha
  exact ⟨b, hb, hspared.resolve_right (not_or.mpr ⟨howner, hactive⟩)⟩

end Database

end Ledger

end Blurt
