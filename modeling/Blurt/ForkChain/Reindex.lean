import Blurt.ForkChain.BlockLog
import Blurt.ForkChain.PendingLaws

/-! # Replaying the block log

`reindex` applies the logged blocks to a new object database, with most of the checks
switched off. One of its flags also switches off the insertion into the transaction
index, so a replay leaves the state of the live node with an empty index.
-/

namespace Blurt

open Outcome

variable {σ T O : Type}

/-- `database::validate_block_header` under `skip_witness_signature` and
`skip_witness_schedule_check`. -/
def ChainState.replayHeader (L : LedgerLogic σ T) (s : ChainState σ) (b : SignedBlock T) :
    Except String Unit := do
  ensure (s.dgp.headBlockId = b.previous) "head_block_id() == next_block.previous"
  ensure (s.dgp.time < b.header.timestamp) "head_block_time() < next_block.timestamp"
  let _ ← require (L.signingKey s.ledger b.header.witness) "unknown witness"

namespace Guarded

/-- The expiration checks of `_apply_transaction`, which `skip_tapos_check` leaves on. -/
def checkExpiration (dgp : DynamicGlobalProperties) (trx : BlockTransaction O) :
    Except String Unit :=
  if 0 < dgp.headBlockNumber then do
    ensure (trx.expiration ≤ addSeconds dgp.time blurtMaxTimeUntilExpiration)
      "trx.expiration <= now + fc::seconds(BLURT_MAX_TIME_UNTIL_EXPIRATION)"
    ensure (dgp.time < trx.expiration) "now < trx.expiration"
    ensure (dgp.time ≤ trx.expiration) "now <= trx.expiration"
  else
    .ok ()

/-- `database::_apply_transaction` under the flags of `reindex`. The transaction object is
created only without `skip_transaction_dupe_check`. -/
def replayTransaction (B : BlockLogic σ O) (dgp : DynamicGlobalProperties) (db : Guarded σ O)
    (trx : BlockTransaction O) : Except String (Guarded σ O) := do
  checkExpiration dgp trx
  let rest ← B.evaluate dgp db.rest trx
  return { db with rest }

variable [DecidableEq O]

/-- `database::_apply_block` under the flags of `reindex`. -/
def replayBlock (B : BlockLogic σ O) (s : ChainState (Guarded σ O))
    (b : SignedBlock (List (BlockTransaction O))) : Except String (ChainState (Guarded σ O)) := do
  s.replayHeader (logic B) b
  let rest ← B.openBlock s.dgp s.ledger.rest b
  let ledger ← forEach (replayTransaction B s.dgp) { s.ledger with rest } b.transactions
  let updated ← ({ s with ledger } : ChainState (Guarded σ O)).updateGlobalDynamicData (logic B) b
  let confirmed ← (updated.updateSigningWitness b).updateLastIrreversibleBlock (logic B)
  let ledger ← (logic B).applyMaintenance confirmed b
  return { confirmed with ledger }

/-- The loop of `reindex`, which ends with the block of number `last`. -/
def replayUntil (B : BlockLogic σ O) (last : Nat) : ChainState (Guarded σ O) →
    List (SignedBlock (List (BlockTransaction O))) → Except String (ChainState (Guarded σ O))
  | _, [] => .error "read past the end of the block log"
  | s, b :: rest =>
      if b.blockNum = last then replayBlock B s b
      else do
        let next ← replayBlock B s b
        replayUntil B last next rest

/-- `database::reindex` to the end of the log, from the state that `open` initializes. -/
def reindex (B : BlockLogic σ O) (genesis : ChainState (Guarded σ O))
    (log : List (SignedBlock (List (BlockTransaction O)))) :
    Except String (ChainState (Guarded σ O)) :=
  match log.getLast? with
  | none => .error "No blocks in block log. Cannot reindex an empty chain."
  | some head => replayUntil B head.blockNum genesis log

end Guarded

/-- A state without its recent transactions. -/
def ChainState.forget (s : ChainState (Guarded σ O)) : ChainState (Guarded σ O) :=
  { s with ledger := { s.ledger with transactions := ∅ } }

namespace Guarded

variable [DecidableEq O] {B : BlockLogic σ O}

/-! ## A replay forgets the transactions -/

omit [DecidableEq O] in
theorem checkExpiration_of_checkReference {dgp : DynamicGlobalProperties} {rest : σ}
    {trx : BlockTransaction O} {u : Unit} (h : checkReference B dgp rest trx = .ok u) :
    checkExpiration dgp trx = .ok () := by
  unfold checkReference at h
  unfold checkExpiration
  split
  · rename_i hnum
    simp only [hnum, if_true, bind_eq_ok, ensure_eq_ok, exists_and_left, exists_const] at h ⊢
    exact h.2
  · rfl

theorem replayTransaction_of_applyTransaction {dgp : DynamicGlobalProperties}
    {db next : Guarded σ O} {trx : BlockTransaction O}
    (h : applyTransaction B dgp db trx = .ok next) :
    replayTransaction B dgp { db with transactions := ∅ } trx =
      .ok { next with transactions := ∅ } := by
  simp only [applyTransaction, bind_eq_ok, pure_eq_ok] at h
  obtain ⟨_, -, _, -, _, -, _, hreference, rest, hrest, rfl⟩ := h
  rw [replayTransaction, checkExpiration_of_checkReference hreference, ok_bind, hrest]
  rfl

theorem replayTransactions_of_applyTransactions {dgp : DynamicGlobalProperties}
    {db next : Guarded σ O} {trxs : List (BlockTransaction O)}
    (h : forEach (applyTransaction B dgp) db trxs = .ok next) :
    forEach (replayTransaction B dgp) { db with transactions := ∅ } trxs =
      .ok { next with transactions := ∅ } := by
  induction trxs generalizing db with
  | nil =>
      cases h
      rfl
  | cons trx rest ih =>
      obtain ⟨middle, hmiddle, hrest⟩ := forEach_cons_eq_ok.mp h
      exact forEach_cons_eq_ok.mpr
        ⟨_, replayTransaction_of_applyTransaction hmiddle, ih hrest⟩

theorem updateGlobalDynamicData_forget {s s' : ChainState (Guarded σ O)}
    {b : SignedBlock (List (BlockTransaction O))}
    (h : s.updateGlobalDynamicData (logic B) b = .ok s') :
    s.forget.updateGlobalDynamicData (logic B) b = .ok s'.forget := by
  simp only [ChainState.updateGlobalDynamicData, bind_eq_ok, ensure_eq_ok, exists_and_left,
    exists_const, pure_eq_ok] at h ⊢
  obtain ⟨production, hproduction, henough, rfl⟩ := h
  exact ⟨production, hproduction, henough, rfl⟩

theorem updateLastIrreversibleBlock_forget {s s' : ChainState (Guarded σ O)}
    (h : s.updateLastIrreversibleBlock (logic B) = .ok s') :
    s.forget.updateLastIrreversibleBlock (logic B) = .ok s'.forget := by
  simp only [ChainState.updateLastIrreversibleBlock, bind_eq_ok, ensure_eq_ok, require_eq_ok,
    exists_and_left, exists_const] at h ⊢
  obtain ⟨hknown, confirmed, hconfirmed, h⟩ := h
  refine ⟨hknown, confirmed, hconfirmed, ?_⟩
  change (if s.dgp.lastIrreversibleBlockNum < confirmed then _ else _) = _
  split at h
  · rename_i hlt
    rw [pure_eq_ok] at h
    rw [if_pos hlt, ← h]
    rfl
  · rename_i hge
    rw [pure_eq_ok] at h
    rw [if_neg hge, ← h]
    rfl

theorem applyMaintenance_forget {s : ChainState (Guarded σ O)} {ledger : Guarded σ O}
    {b : SignedBlock (List (BlockTransaction O))}
    (h : (logic B).applyMaintenance s b = .ok ledger) :
    (logic B).applyMaintenance s.forget b = .ok { ledger with transactions := ∅ } := by
  simp only [logic, bind_eq_ok, pure_eq_ok] at h ⊢
  obtain ⟨rest, hrest, rfl⟩ := h
  exact ⟨rest, hrest, rfl⟩

/-- What is skipped never writes anything but the index. -/
theorem replayBlock_of_applyBlock {s s' : ChainState (Guarded σ O)}
    {b : SignedBlock (List (BlockTransaction O))} (h : s.applyBlock (logic B) b = .ok s') :
    replayBlock B s.forget b = .ok s'.forget := by
  simp only [ChainState.applyBlock, bind_eq_ok, pure_eq_ok] at h
  obtain ⟨_, -, _, hheader, ledger, htrxs, updated, hupdated, confirmed, hconfirmed, kept, hkept,
    rfl⟩ := h
  simp only [ChainState.validateBlockHeader, bind_eq_ok, ensure_eq_ok, require_eq_ok,
    exists_and_left, exists_const] at hheader
  obtain ⟨hprevious, htime, key, hkey, -⟩ := hheader
  have hreplay : s.forget.replayHeader (logic B) b = .ok () := by
    simp only [ChainState.replayHeader, bind_eq_ok, ensure_eq_ok, require_eq_ok,
      exists_and_left, exists_const, pure_eq_ok]
    exact ⟨hprevious, htime, key, hkey, trivial⟩
  simp only [logic, bind_eq_ok] at htrxs
  obtain ⟨rest, hopen, htrxs⟩ := htrxs
  have hconfirmed' := updateLastIrreversibleBlock_forget hconfirmed
  simp only [replayBlock, bind_eq_ok, pure_eq_ok]
  exact ⟨(), hreplay, rest, hopen, _, replayTransactions_of_applyTransactions htrxs, _,
    updateGlobalDynamicData_forget hupdated, _, hconfirmed', _, applyMaintenance_forget hkept, rfl⟩

theorem headBlockId_num_applyAll {s s' : ChainState (Guarded σ O)}
    {blocks : List (SignedBlock (List (BlockTransaction O)))}
    (h : s.applyAll (logic B) blocks = .ok s') :
    s'.dgp.headBlockId.num = s.dgp.headBlockId.num + blocks.length := by
  induction blocks generalizing s with
  | nil =>
      cases h
      rfl
  | cons b rest ih =>
      obtain ⟨next, hnext, hrest⟩ := forEach_cons_eq_ok.mp h
      rw [ih hrest, ChainState.applyBlock_headBlockId hnext,
        ChainState.applyBlock_previous hnext, List.length_cons]
      simp only [SignedBlock.id, BlockId.num]
      omega

/-- The loop reads every block of a chain: its end is the first block with its number. -/
theorem replayUntil_of_applyAll {s s' : ChainState (Guarded σ O)}
    {b : SignedBlock (List (BlockTransaction O))}
    {blocks : List (SignedBlock (List (BlockTransaction O)))}
    (h : s.applyAll (logic B) (b :: blocks) = .ok s') :
    replayUntil B s'.dgp.headBlockId.num s.forget (b :: blocks) = .ok s'.forget := by
  induction blocks generalizing s b with
  | nil =>
      obtain ⟨_, hnext, hnil⟩ := forEach_cons_eq_ok.mp h
      cases hnil
      have hnum : b.blockNum = s'.dgp.headBlockId.num := by
        rw [ChainState.applyBlock_headBlockId hnext, SignedBlock.num_id]
      rw [replayUntil, if_pos hnum]
      exact replayBlock_of_applyBlock hnext
  | cons c rest ih =>
      obtain ⟨next, hnext, hrest⟩ := forEach_cons_eq_ok.mp h
      have hlater := headBlockId_num_applyAll hrest
      have hnum : next.dgp.headBlockId.num = b.blockNum := by
        rw [ChainState.applyBlock_headBlockId hnext, SignedBlock.num_id]
      rw [List.length_cons] at hlater
      rw [replayUntil, if_neg (by omega), replayBlock_of_applyBlock hnext]
      exact ih hrest

/-- A chain that is not empty ends with the block at its head. -/
theorem head_of_applyAll {s s' : ChainState (Guarded σ O)}
    {log : List (SignedBlock (List (BlockTransaction O)))} (hlog : log ≠ [])
    (h : s.applyAll (logic B) log = .ok s') :
    ∃ head, log.getLast? = some head ∧ s'.dgp.headBlockId = head.id ∧
      s'.dgp.time = head.header.timestamp := by
  obtain ⟨before, head, rfl⟩ := (List.eq_nil_or_concat' log).resolve_left hlog
  obtain ⟨middle, -, hlast⟩ := forEach_append_eq_ok.mp h
  obtain ⟨_, hhead, hnil⟩ := forEach_cons_eq_ok.mp hlast
  cases hnil
  obtain ⟨-, -, -, htime, -⟩ := ChainState.applyBlock_slots hhead
  exact ⟨head, by simp, ChainState.applyBlock_headBlockId hhead, htime⟩

/-- A replay of a chain always ends, in the state of the chain with an empty index. -/
theorem reindex_of_applyAll {genesis live : ChainState (Guarded σ O)}
    {log : List (SignedBlock (List (BlockTransaction O)))}
    (hempty : genesis.ledger.transactions = ∅) (hlog : log ≠ [])
    (h : genesis.applyAll (logic B) log = .ok live) : reindex B genesis log = .ok live.forget := by
  have hgenesis : genesis.forget = genesis := by
    rw [ChainState.forget, ← hempty]
  obtain ⟨head, hlast, hid, -⟩ := head_of_applyAll hlog h
  obtain ⟨b, blocks, rfl⟩ := List.exists_cons_of_ne_nil hlog
  have hreplay := replayUntil_of_applyAll h
  rw [hgenesis, hid, SignedBlock.num_id] at hreplay
  rw [reindex, hlast]
  exact hreplay

/-! ## What the live node still has in its index -/

/-- The index holds the expiration under each id, and nothing that has expired. -/
def Fresh (s : ChainState (Guarded σ O)) : Prop :=
  ∀ id expiration, s.ledger.transactions.find? id = some expiration →
    expiration = id.expiration ∧ s.dgp.time ≤ expiration

/-- Every expiration in the index is that of its id. -/
def Dated (db : Guarded σ O) : Prop :=
  ∀ id expiration, db.transactions.find? id = some expiration → expiration = id.expiration

theorem Dated.applyTransactions {dgp : DynamicGlobalProperties} {db next : Guarded σ O}
    {trxs : List (BlockTransaction O)} (h : db.Dated)
    (hnext : forEach (applyTransaction B dgp) db trxs = .ok next) : next.Dated := by
  refine forEach_invariant Dated ?_ h hnext
  intro current trx after _ hcurrent hafter id expiration hfind
  simp only [applyTransaction, bind_eq_ok, pure_eq_ok] at hafter
  obtain ⟨_, -, _, -, _, -, _, -, rest, -, rfl⟩ := hafter
  by_cases hid : id = trx.id
  · subst hid
    rw [Store.find?_set_self] at hfind
    exact (Option.some.inj hfind).symm
  · rw [Store.find?_set_of_ne hid] at hfind
    exact hcurrent id expiration hfind

theorem Fresh.applyBlock {s s' : ChainState (Guarded σ O)}
    {b : SignedBlock (List (BlockTransaction O))} (h : Fresh s)
    (hb : s.applyBlock (logic B) b = .ok s') : Fresh s' := by
  obtain ⟨rest, rest', kept, htrxs, hledger⟩ := applyBlock_ledger hb
  have hstart : Dated { s.ledger with rest } := fun id expiration hfind => (h id expiration hfind).1
  intro id expiration hfind
  rw [hledger] at hfind
  obtain ⟨hkept, htime⟩ := find?_clearExpiredTransactions.mp hfind
  exact ⟨hstart.applyTransactions htrxs id expiration hkept, htime⟩

/-- The index of a chain is empty as soon as all of its transactions have expired. -/
theorem transactions_eq_empty_iff {genesis live : ChainState (Guarded σ O)}
    {log : List (SignedBlock (List (BlockTransaction O)))}
    (hgenesis : NoReplay [] genesis) (hempty : genesis.ledger.transactions = ∅)
    (h : genesis.applyAll (logic B) log = .ok live) :
    live.ledger.transactions = ∅ ↔
      ∀ trx ∈ transactionsOf log, trx.expiration < live.dgp.time := by
  have hfresh : Fresh live := by
    refine forEach_invariant Fresh (fun s b s' _ hs hb => hs.applyBlock hb) ?_ h
    intro id expiration hfind
    simp [hempty] at hfind
  have hstart : Indexed (transactionsOf []) genesis.ledger := by
    intro id hid
    simp [hempty] at hid
  have hindexed : Indexed (transactionsOf log) live.ledger := hstart.applyAll h
  constructor
  · intro hnone trx htrx
    by_contra hlive
    have hfind := (hgenesis.applyAll h).recorded.kept trx htrx (not_lt.mp hlive)
    simp [hnone] at hfind
  · intro hexpired
    rw [Store.eq_empty_iff]
    intro id
    by_contra hfind
    obtain ⟨expiration, hsome⟩ := Option.ne_none_iff_exists'.mp hfind
    obtain ⟨hdate, htime⟩ := hfresh id expiration hsome
    obtain ⟨trx, htrx, rfl⟩ := List.mem_map.mp (hindexed id (by rw [hsome]; rfl))
    have hlt := hexpired trx htrx
    rw [hdate] at htime
    exact absurd htime (not_le.mpr hlt)

/-- What a genesis state has to be: no block applied, and no transaction. -/
theorem noReplay_atGenesis {genesisTime : Nat} {production : AccountName → WitnessProduction}
    {rest : σ} : NoReplay ([] : List (SignedBlock (List (BlockTransaction O))))
      (ChainState.atGenesis genesisTime production { rest }) :=
  ⟨⟨List.nodup_nil, by simp [transactionsOf]⟩, fun _ => rfl⟩

/-- In every run whose calls keep the record, the log is that of a chain from genesis. A
replay of it gives the state that the node had at its last logged block if and only if
there is such a block and every transaction of the log had expired before it. -/
theorem run_reindex {genesisTime : Nat} {production : AccountName → WitnessProduction} {rest : σ}
    {log : List (SignedBlock (List (BlockTransaction O)))} {state : ChainState (Guarded σ O)}
    (hstart : (ChainState.atGenesis genesisTime production { rest }).applyAll (logic B) log =
      .ok state)
    (hopens : Node.Opens state log)
    (pushes : List (SignedBlock (List (BlockTransaction O))))
    (hkeeps : ∀ before b after, pushes = before ++ b :: after →
      (Node.run (logic B) (Node.opened state log) before).KeepsRecord (logic B) b) :
    let genesis : ChainState (Guarded σ O) := ChainState.atGenesis genesisTime production { rest }
    let n := Node.run (logic B) (Node.opened state log) pushes
    genesis.applyAll (logic B) n.blockLog = .ok n.committed ∧
      (reindex B genesis n.blockLog = .ok n.committed ↔
        ∃ head, n.blockLog.getLast? = some head ∧
          ∀ trx ∈ transactionsOf n.blockLog, trx.expiration < head.header.timestamp) := by
  intro genesis n
  obtain ⟨_, blocks, -, hrecorded⟩ := Node.run_recorded hopens pushes hkeeps
  obtain ⟨written, hlog, hwritten⟩ := hrecorded.log
  have hchain : genesis.applyAll (logic B) n.blockLog = .ok n.committed := by
    change forEach (ChainState.applyBlock (logic B)) genesis
      (Node.run (logic B) (Node.opened state log) pushes).blockLog = _
    rw [hlog]
    exact forEach_append_eq_ok.mpr ⟨state, hstart, hwritten⟩
  refine ⟨hchain, ?_⟩
  by_cases hnone : n.blockLog = []
  · simp [hnone, reindex]
  · obtain ⟨head, hhead, -, htime⟩ := head_of_applyAll hnone hchain
    rw [reindex_of_applyAll rfl hnone hchain, hhead]
    have hexpired := transactions_eq_empty_iff noReplay_atGenesis rfl hchain
    rw [htime] at hexpired
    constructor
    · intro hsame
      refine ⟨head, rfl, hexpired.mp ?_⟩
      have hforget := Except.ok.inj hsame
      rw [← hforget]
      rfl
    · rintro ⟨_, hlast, hall⟩
      cases hlast
      rw [ChainState.forget, ← hexpired.mpr hall]

end Guarded

/-! ### Replays of two short logs -/

namespace Sample

/-- The genesis of the two witnesses. -/
def idleGenesis : ChainState (Guarded Unit Unit) :=
  ChainState.atGenesis blurtGenesisTime (fun _ => {}) { rest := () }

def idleSecond : SignedBlock (List (BlockTransaction Unit)) := carrying carryFirst.id 2 "alice" []
def idleThird : SignedBlock (List (BlockTransaction Unit)) := carrying idleSecond.id 3 "bob" []
def idleFourth : SignedBlock (List (BlockTransaction Unit)) := carrying idleThird.id 4 "alice" []
def idleFifth : SignedBlock (List (BlockTransaction Unit)) := carrying idleFourth.id 5 "bob" []

theorem idleGenesis_opens :
    Node.Opens idleGenesis ([] : List (SignedBlock (List (BlockTransaction Unit)))) :=
  ⟨⟨rfl, fun _ => le_rfl, le_rfl⟩, rfl, by simp⟩

/-- Block 1 is logged while its transaction can still be repeated: the replayed node applies
a block that repeats it, which the live node rejects. -/
theorem carryFirst_reindex :
    let n := Node.run (Guarded.logic idle) (Node.opened idleGenesis []) [carryFirst, idleSecond]
    n.blockLog = [carryFirst] ∧
      ∃ replayed, Guarded.reindex idle idleGenesis n.blockLog = .ok replayed ∧
        replayed ≠ n.committed ∧
        (replayed.applyBlock (Guarded.logic idle) carrySecond).toOption.isSome ∧
        (n.committed.applyBlock (Guarded.logic idle) carrySecond).toOption.isNone := by
  intro n
  have hlog : n.blockLog = [carryFirst] := by decide
  have hreplay : ∃ replayed, Guarded.reindex idle idleGenesis [carryFirst] = .ok replayed ∧
      replayed.ledger.transactions.find? shortLived.id = none ∧
      (replayed.applyBlock (Guarded.logic idle) carrySecond).toOption.isSome :=
    ⟨_, rfl, by decide, by decide⟩
  obtain ⟨replayed, hok, hnone, haccepts⟩ := hreplay
  refine ⟨hlog, replayed, hlog ▸ hok, ?_, haccepts, by decide⟩
  rintro rfl
  have hsome : n.committed.ledger.transactions.find? shortLived.id = some shortLived.expiration := by
    decide
  rw [hsome] at hnone
  cases hnone

/-- Four blocks later the transaction has expired, and a replay gives the state of the log. -/
theorem idleFifth_reindex :
    let n := Node.run (Guarded.logic idle) (Node.opened idleGenesis [])
      [carryFirst, idleSecond, idleThird, idleFourth, idleFifth]
    n.blockLog = [carryFirst, idleSecond, idleThird, idleFourth] ∧
      Guarded.reindex idle idleGenesis n.blockLog = .ok n.committed := by
  intro n
  have hlog : n.blockLog = [carryFirst, idleSecond, idleThird, idleFourth] := by decide
  have hstart : (ChainState.atGenesis blurtGenesisTime (fun _ => {})
      ({ rest := () } : Guarded Unit Unit)).applyAll (Guarded.logic idle) [] = .ok idleGenesis := rfl
  have hexact := (Guarded.run_reindex hstart idleGenesis_opens
    [carryFirst, idleSecond, idleThird, idleFourth, idleFifth] (by
      intro before b after hsplit
      match before with
      | [] | [_] | [_, _] | [_, _, _] | [_, _, _, _] =>
          cases hsplit
          exact .of_new (by decide) (by decide) (by decide)
      | _ :: _ :: _ :: _ :: _ :: _ => simp at hsplit)).2
  refine ⟨hlog, hexact.mpr ⟨idleFourth, congrArg List.getLast? hlog, ?_⟩⟩
  change ∀ trx ∈ Guarded.transactionsOf n.blockLog, _
  rw [hlog]
  decide

end Sample

end Blurt
