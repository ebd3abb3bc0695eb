import Blurt.Ledger.Consent
import Blurt.Ledger.OverviewMaintenance

/-! # The state of the chain at genesis -/

namespace Blurt

namespace Ledger

open Outcome

/-- The overview without the accounts and the virtual time. -/
def Overview.besideAccounts (v : Overview) : Overview :=
  { v with
    authorities := ∅
    recoveryAccounts := ∅
    wso := { v.wso with currentVirtualTime := 0 } }

/-- What `init_genesis` leaves, beside the accounts. -/
structure Overview.Initial (key : PublicKey) (v : Overview) : Prop where
  processed : v.processedHardforks = [blurtGenesisTime]
  hardforks : v.hardforks = {}
  schedule : ∃ rd witnessRd, { v.wso with currentVirtualTime := 0 } =
    { currentShuffledWitnesses := Database.scheduleEntries [blurtInitMinerName]
      accountSubsidyRd := rd
      accountSubsidyWitnessRd := witnessRd }
  maximumBlockSize : v.maximumBlockSize = blurtMaxBlockSize
  witnesses : ∀ name p, v.witnesses.find? name = some p → p.props = {} ∧ p.signingKey = key
  comments : v.comments = ∅
  ownerHistory : v.ownerHistory = ∅
  recoveryRequests : v.recoveryRequests = ∅
  changeRecoveryRequests : v.changeRecoveryRequests = ∅
  time : v.time = blurtGenesisTime
  headBlockNumber : v.headBlockNumber = 0

theorem Overview.Initial.congr {key : PublicKey} {v w : Overview} (h : v.Initial key)
    (hsame : w.besideAccounts = v.besideAccounts) : w.Initial key where
  processed := (congrArg Overview.processedHardforks hsame).trans h.processed
  hardforks := (congrArg Overview.hardforks hsame).trans h.hardforks
  schedule := by
    obtain ⟨rd, witnessRd, hwso⟩ := h.schedule
    have hkept := congrArg (fun v => { v.wso with currentVirtualTime := 0 }) hsame
    exact ⟨rd, witnessRd, hkept.trans hwso⟩
  maximumBlockSize := (congrArg Overview.maximumBlockSize hsame).trans h.maximumBlockSize
  witnesses name p hp := by
    have hwitnesses := congrArg Overview.witnesses hsame
    change w.witnesses = v.witnesses at hwitnesses
    rw [hwitnesses] at hp
    exact h.witnesses name p hp
  comments := (congrArg Overview.comments hsame).trans h.comments
  ownerHistory := (congrArg Overview.ownerHistory hsame).trans h.ownerHistory
  recoveryRequests := (congrArg Overview.recoveryRequests hsame).trans h.recoveryRequests
  changeRecoveryRequests :=
    (congrArg Overview.changeRecoveryRequests hsame).trans h.changeRecoveryRequests
  time := (congrArg Overview.time hsame).trans h.time
  headBlockNumber := (congrArg Overview.headBlockNumber hsame).trans h.headBlockNumber

namespace Database

variable {db db' : Database} {key : PublicKey}

/-- Accounts are created one after the other. -/
theorem createObject_keeps (name : AccountName) (account : Nat → Account) (auth : AccountAuthority) :
    Always (db.createObject name account auth) (Keeps Overview.besideAccounts db) :=
  .ensure fun _ => .pure (Keeps.of_see rfl rfl)

theorem createProtocolAccounts_keeps :
    Always db.createProtocolAccounts (Keeps Overview.besideAccounts db) := by
  refine (createObject_keeps _ _ _).bind fun miner hminer => ?_
  refine (createObject_keeps _ _ _).bind fun null hnull => ?_
  refine (createObject_keeps _ _ _).bind fun treasury htreasury => ?_
  refine (createObject_keeps _ _ _).mono fun temp htemp => ?_
  exact ((hminer.trans hnull).trans htreasury).trans htemp

theorem importSnapshot_keeps (snapshot : List AccountSnapshot) :
    Always (db.importSnapshot snapshot) (Keeps Overview.besideAccounts db) := by
  refine .skip fun price => ?_
  have hloop : Always (Outcome.forEach (importAccount price) (db, 0, 0, 0) snapshot) fun result =>
      Keeps Overview.besideAccounts db result.1 := by
    refine .forEach (Keeps.refl _ _) fun state line _ h => .skip fun shares => ?_
    refine (createObject_keeps _ _ _).bind fun created hcreated => ?_
    exact .skip fun _ => .skip fun _ => .skip fun _ => .pure (h.trans hcreated)
  refine hloop.bind fun imported himported => .skip fun total => ?_
  refine (modifyAccount_framed quiet_frame fun a => ?_).mono fun _ h => ?_
  · exact .skip fun _ => .pure ⟨rfl, id⟩
  · exact himported.trans ((h.seenBy _).after rfl rfl)

theorem genesisObjects_initial (key : PublicKey) :
    Always genesisObjects fun db => db.overview.Initial key ∧ db.witnesses = ∅ := by
  refine .skip fun price => .skip fun regentShares => .skip fun rd => .skip fun witnessRd => .pure ?_
  refine ⟨?_, rfl⟩
  constructor
  · rfl
  · rfl
  · exact ⟨rd, witnessRd, rfl⟩
  · rfl
  · rintro name p hp
    cases hp
  · rfl
  · rfl
  · rfl
  · rfl
  · rfl
  · rfl

theorem createInitMiner_spec (i : Nat) (h : db.overview.Initial key) (hready : db.Ready) :
    Always (createInitMiner key db i) fun db' => (db'.overview.Initial key ∧ db'.Ready) ∧
      ∀ name, (db.witnesses.find? name).isSome ∨ name = initMinerName i →
        (db'.witnesses.find? name).isSome := by
  refine (createObject_keeps _ _ _).bind fun created hcreated => .pure ?_
  have hinitial := h.congr hcreated.seen
  have hnames := congrArg Overview.witnesses hcreated.seen
  change created.witnesses.view _ = db.witnesses.view _ at hnames
  refine ⟨⟨?_, ?_⟩, ?_⟩
  · refine { hinitial with witnesses := fun name p hp => ?_ }
    simp only [overview, Table.view_set] at hp
    rw [Table.find?_set] at hp
    split at hp
    · cases hp
      exact ⟨rfl, rfl⟩
    · exact hinitial.witnesses name p hp
  · intro name w hw
    rw [Store.find?_set] at hw
    split at hw
    · cases hw
      change wrapInt64 (0 + 1) ≠ 0 ∧ (0 : Int) ≤ 0 ∧ (0 : Int) < 2 ^ 63
      decide
    · exact hcreated.ready hready name w hw
  · intro name hname
    rw [Store.find?_set]
    split
    · rfl
    · rename_i hne
      rw [Table.isSome_of_view_eq hnames name]
      exact hname.resolve_right hne

theorem createInitMiners_spec (is : List Nat) (h : db.overview.Initial key) (hready : db.Ready) :
    Always (Outcome.forEach (createInitMiner key) db is) fun db' =>
      (db'.overview.Initial key ∧ db'.Ready) ∧
        ∀ name, ((db.witnesses.find? name).isSome ∨ ∃ i ∈ is, name = initMinerName i) →
          (db'.witnesses.find? name).isSome := by
  induction is generalizing db with
  | nil => exact .ok ⟨⟨h, hready⟩, by simp⟩
  | cons i rest ih =>
      intro db' hloop
      obtain ⟨first, hfirst, hrest⟩ := forEach_cons_eq_ok.mp hloop
      obtain ⟨⟨hinitial, hready⟩, hnames⟩ := createInitMiner_spec i h hready _ hfirst
      obtain ⟨hdone, hmore⟩ := ih hinitial hready db' hrest
      refine ⟨hdone, fun name hname => hmore name ?_⟩
      rcases hname with hname | ⟨k, hk, rfl⟩
      · exact .inl (hnames name (.inl hname))
      · rcases List.mem_cons.mp hk with rfl | hk
        · exact .inl (hnames _ (.inr rfl))
        · exact .inr ⟨k, hk, rfl⟩

/-- The chain at genesis: the initial witnesses with their defaults, no comment, and nothing
to be recovered. -/
theorem initGenesis_initial (args : GenesisArgs) :
    Always (initGenesis args) fun db => (db.overview.Initial args.initPublicKey ∧ db.Ready) ∧
      ∀ i < blurtMaxWitnesses, (db.witnesses.find? (initMinerName i)).isSome := by
  have hmade := genesisObjects_initial args.initPublicKey
  refine hmade.bind fun objects ⟨hobjects, hnone⟩ => ?_
  refine createProtocolAccounts_keeps.bind fun protocol hprotocol => ?_
  have hready : objects.Ready := by
    intro name w hw
    rw [hnone] at hw
    cases hw
  have hmined := createInitMiners_spec (List.range blurtMaxWitnesses)
    (hobjects.congr hprotocol.seen) (hprotocol.ready hready)
  refine hmined.bind fun miners ⟨⟨hminers, hready⟩, hregistered⟩ => ?_
  refine (createObject_keeps _ _ _).bind fun regent hregent => ?_
  refine (importSnapshot_keeps _).bind fun imported himported => ?_
  have hkept := hregent.trans himported
  have hinitial := hminers.congr hkept.seen
  have hnames := congrArg Overview.witnesses hkept.seen
  refine resetVirtualScheduleTime_keeps.mono fun db hreset => ?_
  have hwitnesses := congrArg Overview.witnesses hreset.seen
  refine ⟨⟨hinitial.congr ?_, hreset.ready (hkept.ready hready)⟩, ?_⟩
  · have hsame := congrArg Overview.besideAccounts hreset.seen
    exact hsame
  · intro i hi
    rw [Table.isSome_of_view_eq hwitnesses, Table.isSome_of_view_eq hnames]
    exact hregistered _ (.inr ⟨i, List.mem_range.mpr hi, rfl⟩)

end Database

namespace Sample

open Database

/-- A chain without a snapshot. -/
def freshChain : GenesisArgs where
  initPublicKey := 1
  initPublicKey_ne_zero := by decide
  snapshot := []

/-- The database of the chain before its first block. -/
theorem freshChain_starts : ∃ db, initGenesis freshChain = .ok db := by
  have hstarts : (initGenesis freshChain).toOption.isSome := by decide +kernel
  cases h : initGenesis freshChain with
  | ok db => exact ⟨db, rfl⟩
  | error message =>
      rw [h] at hstarts
      cases hstarts

/-- The block number `i + 1`, without transactions. -/
def quietBlock (i : Nat) : LedgerBlock where
  timestamp := blurtGenesisTime + 3 * (i + 1)
  witness := blurtInitMinerName
  packSize := 200

/-- The block number `i + 1` with one transaction. -/
def signedBlock (i : Nat) (sigs : List PublicKey) (operations : List Operation) : LedgerBlock :=
  { quietBlock i with
    transactions := [{ trx := { operations, packSize := 200 }, sigs }]
    packSize := 400 }

/-- The database after the first blocks of a chain. -/
def afterBlocks (args : GenesisArgs) (blocks : List LedgerBlock) : Except String Database := do
  let db ← initGenesis args
  Outcome.forEach (applyBlock plainHost) db blocks

theorem afterBlocks_reachable {args : GenesisArgs} {blocks : List LedgerBlock} {db : Database}
    (h : afterBlocks args blocks = .ok db) : Reachable plainHost db := by
  obtain ⟨start, hstart, hblocks⟩ := bind_eq_ok.mp h
  apply forEach_invariant (Reachable plainHost) _ (.genesis hstart) hblocks
  exact fun state b next _ hstate hnext => .block hstate hnext

end Sample

end Ledger

end Blurt
