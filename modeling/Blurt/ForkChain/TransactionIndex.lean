import Blurt.Foundation.Store
import Blurt.ForkChain.Finality
import Blurt.ForkChain.SlotAccounting

/-! # The index of recent transactions

`_apply_transaction` keeps the id of every transaction until it has expired, and
rejects an id that it still has. What the operations of a transaction do is a
parameter of this layer.
-/

namespace Blurt

universe u

/-- `transaction`: what the id of a transaction hashes. -/
structure TransactionBody (O : Type u) where
  refBlockNum : Nat
  refBlockPrefix : Nat
  expiration : Nat
  operations : List O
  deriving DecidableEq, Repr

/-- `transaction_id_type`; the hash is idealized as injective. -/
abbrev TransactionId := TransactionBody

/-- A `signed_transaction` of a block. -/
structure BlockTransaction (O : Type u) where
  body : TransactionBody O
  signatures : List Nat := []
  deriving DecidableEq, Repr

namespace BlockTransaction

variable {O : Type u}

/-- `transaction::id`, which leaves the signatures out. -/
def id (trx : BlockTransaction O) : TransactionId O := trx.body

/-- `transaction::expiration` -/
def expiration (trx : BlockTransaction O) : Nat := trx.body.expiration

theorem expiration_eq_of_id_eq {first second : BlockTransaction O} (h : first.id = second.id) :
    first.expiration = second.expiration := congrArg TransactionBody.expiration h

end BlockTransaction

/-- An object database with its `transaction_index`, which holds the expiration under
the id. No other object type refers to the index. -/
structure Guarded (σ : Type) (O : Type) where
  transactions : Store (TransactionId O) Nat := ∅
  rest : σ

/-- What `_apply_block` does to the rest of the database. -/
structure BlockLogic (σ O : Type) where
  signingKey : σ → AccountName → Option PublicKey
  shuffledWitnesses : σ → List AccountName
  calculateMerkleRoot : List (BlockTransaction O) → Checksum
  sharedDbMerkle : Nat → Option Checksum
  /-- The statements from the block size check to the hardfork version check. -/
  openBlock : DynamicGlobalProperties → σ → SignedBlock (List (BlockTransaction O)) →
    Except String σ
  /-- `transaction::validate` -/
  validate : BlockTransaction O → Except String Unit
  /-- `signed_transaction::verify_authority` -/
  verifyAuthority : σ → BlockTransaction O → Except String Unit
  /-- `get< block_summary_object >( ref_block_num ).block_id._hash[1]` -/
  refBlockPrefix : σ → Nat → Option Nat
  /-- `process_tx_fee` and the operations in their order. -/
  evaluate : DynamicGlobalProperties → σ → BlockTransaction O → Except String σ
  /-- `create_block_summary`, and the statements after `clear_expired_transactions` up to
  `process_hardforks`. -/
  maintain : DynamicGlobalProperties → σ → SignedBlock (List (BlockTransaction O)) →
    Except String σ

namespace Guarded

variable {σ O : Type} [DecidableEq O]

/-- The TaPoS and expiration checks of `_apply_transaction`. Block 1 skips them: no block
exists yet that a transaction could refer to. -/
def checkReference (B : BlockLogic σ O) (dgp : DynamicGlobalProperties) (rest : σ)
    (trx : BlockTransaction O) : Except String Unit :=
  if 0 < dgp.headBlockNumber then do
    Outcome.ensure (B.refBlockPrefix rest trx.body.refBlockNum = some trx.body.refBlockPrefix)
      "trx.ref_block_prefix == tapos_block_summary.block_id._hash[1]"
    Outcome.ensure (trx.expiration ≤ addSeconds dgp.time blurtMaxTimeUntilExpiration)
      "trx.expiration <= now + fc::seconds(BLURT_MAX_TIME_UNTIL_EXPIRATION)"
    Outcome.ensure (dgp.time < trx.expiration) "now < trx.expiration"
    Outcome.ensure (dgp.time ≤ trx.expiration) "now <= trx.expiration"
  else
    .ok ()

/-- `database::_apply_transaction` with `skip_nothing`. -/
def applyTransaction (B : BlockLogic σ O) (dgp : DynamicGlobalProperties) (db : Guarded σ O)
    (trx : BlockTransaction O) : Except String (Guarded σ O) := do
  B.validate trx
  Outcome.ensure (db.transactions.find? trx.id).isNone "Duplicate transaction check failed"
  B.verifyAuthority db.rest trx
  checkReference B dgp db.rest trx
  let rest ← B.evaluate dgp db.rest trx
  return { transactions := db.transactions.set trx.id trx.expiration, rest }

/-- `database::clear_expired_transactions`: remove from the front of `by_expiration`. -/
def clearExpiredTransactions (now : Nat) (db : Guarded σ O) : Guarded σ O :=
  let expired := db.transactions.due (fun x y => x.2 ≤ y.2) fun row => decide (row.2 < now)
  { db with transactions := expired.foldl (fun index row => index.remove row.1) db.transactions }

/-- Block application with the transaction index. -/
def logic (B : BlockLogic σ O) : LedgerLogic (Guarded σ O) (List (BlockTransaction O)) where
  signingKey db := B.signingKey db.rest
  shuffledWitnesses db := B.shuffledWitnesses db.rest
  calculateMerkleRoot := B.calculateMerkleRoot
  sharedDbMerkle := B.sharedDbMerkle
  applyTransactions s b := do
    let rest ← B.openBlock s.dgp s.ledger.rest b
    Outcome.forEach (applyTransaction B s.dgp) { s.ledger with rest } b.transactions
  applyMaintenance s b := do
    let cleared := clearExpiredTransactions s.dgp.time s.ledger
    let rest ← B.maintain s.dgp cleared.rest b
    return { cleared with rest }

/-! ## What the clean-up removes -/

instance : Std.Total fun x y : TransactionId O × Nat => x.2 ≤ y.2 :=
  ⟨fun x y => Nat.le_total x.2 y.2⟩

instance : IsTrans (TransactionId O × Nat) fun x y => x.2 ≤ y.2 :=
  ⟨fun _ _ _ => Nat.le_trans⟩

/-- The clean-up keeps an id exactly as long as it has not expired before `now`. -/
theorem find?_clearExpiredTransactions {now : Nat} {db : Guarded σ O} {id : TransactionId O}
    {expiration : Nat} :
    (db.clearExpiredTransactions now).transactions.find? id = some expiration ↔
      db.transactions.find? id = some expiration ∧ now ≤ expiration := by
  have hclosed : ∀ x y : TransactionId O × Nat, x.2 ≤ y.2 → decide (y.2 < now) = true →
      decide (x.2 < now) = true := by
    intro x y hle hy
    rw [decide_eq_true_eq] at hy ⊢
    omega
  have hmem : id ∈ (db.transactions.due (fun x y => x.2 ≤ y.2)
      fun row => decide (row.2 < now)).map Prod.fst ↔
      ∃ e, db.transactions.find? id = some e ∧ e < now := by
    constructor
    · intro hid
      obtain ⟨⟨key, e⟩, hrow, rfl⟩ := List.mem_map.mp hid
      obtain ⟨hfind, hlt⟩ := (Store.mem_due_iff hclosed).mp hrow
      exact ⟨e, hfind, decide_eq_true_eq.mp hlt⟩
    · rintro ⟨e, hfind, hlt⟩
      exact List.mem_map.mpr ⟨(id, e),
        (Store.mem_due_iff hclosed).mpr ⟨hfind, decide_eq_true_eq.mpr hlt⟩, rfl⟩
  simp only [clearExpiredTransactions]
  rw [Store.find?_foldl_remove]
  split
  · rename_i hexpired
    obtain ⟨e, hfind, hlt⟩ := hmem.mp hexpired
    simp only [hfind, reduceCtorEq, Option.some.injEq, false_iff]
    omega
  · rename_i hkept
    constructor
    · intro hfind
      refine ⟨hfind, ?_⟩
      by_contra hlt
      exact hkept (hmem.mpr ⟨expiration, hfind, by omega⟩)
    · exact And.left

/-! ## One transaction, one block -/

/-- What a later transaction could still repeat: everything before the second block, and
what has not expired after it. -/
def Live (dgp : DynamicGlobalProperties) (trx : BlockTransaction O) : Prop :=
  0 < dgp.headBlockNumber → dgp.time ≤ trx.expiration

omit [DecidableEq O] in
theorem live_of_checkReference {B : BlockLogic σ O} {dgp : DynamicGlobalProperties} {rest : σ}
    {trx : BlockTransaction O} {u : Unit} (h : checkReference B dgp rest trx = .ok u) :
    Live dgp trx := by
  intro hnum
  simp only [checkReference, hnum, if_true, Outcome.bind_eq_ok, Outcome.ensure_eq_ok] at h
  obtain ⟨_, -, _, -, _, -, hle⟩ := h
  exact hle

/-- The transactions of a chain have different ids, and the index holds every one that
is `live`. -/
structure Recorded (live : BlockTransaction O → Prop) (applied : List (BlockTransaction O))
    (db : Guarded σ O) : Prop where
  nodup : (applied.map BlockTransaction.id).Nodup
  kept : ∀ trx ∈ applied, live trx → db.transactions.find? trx.id = some trx.expiration

theorem Recorded.applyTransaction {B : BlockLogic σ O} {dgp : DynamicGlobalProperties}
    {applied : List (BlockTransaction O)} {db next : Guarded σ O} {trx : BlockTransaction O}
    (h : Recorded (Live dgp) applied db) (hnext : applyTransaction B dgp db trx = .ok next) :
    Recorded (Live dgp) (applied ++ [trx]) next := by
  simp only [Guarded.applyTransaction, Outcome.bind_eq_ok, Outcome.ensure_eq_ok,
    Outcome.pure_eq_ok] at hnext
  obtain ⟨_, -, _, habsent, _, -, _, hreference, rest, -, rfl⟩ := hnext
  -- a transaction of the chain with the same id has the same expiration, so it is live
  have hnew : trx.id ∉ applied.map BlockTransaction.id := by
    intro hmem
    obtain ⟨earlier, hearlier, hid⟩ := List.mem_map.mp hmem
    have hlive : Live dgp earlier := by
      intro hnum
      rw [BlockTransaction.expiration_eq_of_id_eq hid]
      exact live_of_checkReference hreference hnum
    have hfind := h.kept earlier hearlier hlive
    rw [hid] at hfind
    simp [hfind] at habsent
  constructor
  · rw [List.map_append, List.nodup_append]
    refine ⟨h.nodup, List.nodup_singleton _, ?_⟩
    rintro _ hmem _ hlast rfl
    rw [List.map_singleton, List.mem_singleton] at hlast
    exact hnew (hlast ▸ hmem)
  · intro other hother hlive
    rcases List.mem_append.mp hother with hold | hlast
    · have hne : other.id ≠ trx.id := by
        intro heq
        exact hnew (heq ▸ List.mem_map_of_mem hold)
      rw [Store.find?_set_of_ne hne]
      exact h.kept other hold hlive
    · rw [List.mem_singleton.mp hlast, Store.find?_set_self]

theorem Recorded.applyTransactions {B : BlockLogic σ O} {dgp : DynamicGlobalProperties}
    {applied trxs : List (BlockTransaction O)} {db next : Guarded σ O}
    (h : Recorded (Live dgp) applied db)
    (hnext : Outcome.forEach (Guarded.applyTransaction B dgp) db trxs = .ok next) :
    Recorded (Live dgp) (applied ++ trxs) next := by
  induction trxs generalizing applied db with
  | nil =>
      cases hnext
      simpa using h
  | cons trx rest ih =>
      obtain ⟨middle, hmiddle, hrest⟩ := Outcome.forEach_cons_eq_ok.mp hnext
      have hlast := ih (h.applyTransaction hmiddle) hrest
      simpa using hlast

/-- The transactions of a chain, in their order. -/
def transactionsOf (blocks : List (SignedBlock (List (BlockTransaction O)))) :
    List (BlockTransaction O) :=
  blocks.flatMap fun b => b.transactions

/-- A chain without a replay: the index holds every transaction of the chain that has not
expired at the time of the head. -/
structure NoReplay (blocks : List (SignedBlock (List (BlockTransaction O))))
    (s : ChainState (Guarded σ O)) : Prop where
  recorded : Recorded (fun trx => s.dgp.time ≤ trx.expiration) (transactionsOf blocks) s.ledger
  first : s.dgp.headBlockNumber = 0 → transactionsOf blocks = []

theorem NoReplay.live {blocks : List (SignedBlock (List (BlockTransaction O)))}
    {s : ChainState (Guarded σ O)} (h : NoReplay blocks s) :
    Recorded (Live s.dgp) (transactionsOf blocks) s.ledger := by
  refine ⟨h.recorded.nodup, ?_⟩
  intro trx htrx hlive
  apply h.recorded.kept trx htrx
  apply hlive
  apply Nat.pos_of_ne_zero
  intro hzero
  rw [h.first hzero] at htrx
  simp at htrx

/-- What a block does to the index: its transactions, then the clean-up at its time. -/
theorem applyBlock_ledger {B : BlockLogic σ O} {s s' : ChainState (Guarded σ O)}
    {b : SignedBlock (List (BlockTransaction O))} (hb : s.applyBlock (logic B) b = .ok s') :
    ∃ rest rest' kept, Outcome.forEach (Guarded.applyTransaction B s.dgp) { s.ledger with rest }
        b.transactions = .ok kept ∧
      s'.ledger = { kept.clearExpiredTransactions s'.dgp.time with rest := rest' } := by
  simp only [ChainState.applyBlock, Outcome.bind_eq_ok, Outcome.pure_eq_ok] at hb
  obtain ⟨_, -, _, -, ledger, htrxs, updated, hupdated, confirmed, hconfirmed, kept, hkept, rfl⟩ := hb
  simp only [logic, Outcome.bind_eq_ok] at htrxs
  obtain ⟨rest, -, htrxs⟩ := htrxs
  have hledger : confirmed.ledger = ledger := by
    obtain ⟨_, -, rfl⟩ := ChainState.updateLastIrreversibleBlock_spec hconfirmed
    obtain ⟨-, -, -, hledger, -⟩ := ChainState.updateGlobalDynamicData_spec hupdated
    exact hledger
  simp only [logic, Outcome.bind_eq_ok, Outcome.pure_eq_ok, hledger] at hkept
  obtain ⟨maintained, -, rfl⟩ := hkept
  exact ⟨rest, maintained, ledger, htrxs, rfl⟩

theorem NoReplay.applyBlock {B : BlockLogic σ O}
    {blocks : List (SignedBlock (List (BlockTransaction O)))}
    {s s' : ChainState (Guarded σ O)} {b : SignedBlock (List (BlockTransaction O))}
    (h : NoReplay blocks s) (hb : s.applyBlock (logic B) b = .ok s') :
    NoReplay (blocks ++ [b]) s' := by
  have hnum := ChainState.applyBlock_headBlockNumber hb
  have hlater : s.dgp.time < s'.dgp.time := by
    obtain ⟨htime, -, -, hnow, -⟩ := ChainState.applyBlock_slots hb
    rwa [hnow]
  obtain ⟨rest, rest', kept, htrxs, hledger⟩ := applyBlock_ledger hb
  have hstart : Recorded (Live s.dgp) (transactionsOf blocks) { s.ledger with rest } :=
    ⟨h.live.nodup, h.live.kept⟩
  obtain ⟨hnodup, hlive⟩ := hstart.applyTransactions htrxs
  have happend : transactionsOf (blocks ++ [b]) = transactionsOf blocks ++ b.transactions := by
    simp [transactionsOf]
  constructor
  · rw [happend, hledger]
    refine ⟨hnodup, ?_⟩
    intro trx htrx hfresh
    have hfind := hlive trx htrx fun _ => by omega
    exact find?_clearExpiredTransactions.mpr ⟨hfind, hfresh⟩
  · intro hzero
    rw [hnum] at hzero
    cases hzero

theorem NoReplay.applyAll {B : BlockLogic σ O}
    {before blocks : List (SignedBlock (List (BlockTransaction O)))}
    {s s' : ChainState (Guarded σ O)} (h : NoReplay before s)
    (hblocks : s.applyAll (logic B) blocks = .ok s') : NoReplay (before ++ blocks) s' := by
  induction blocks generalizing before s with
  | nil =>
      cases hblocks
      simpa using h
  | cons b rest ih =>
      obtain ⟨middle, hmiddle, hrest⟩ := Outcome.forEach_cons_eq_ok.mp hblocks
      have hlast := ih (h.applyBlock hmiddle) hrest
      simpa using hlast

/-! ## Runs of a node -/

/-- On the chain of every head of a run, over any forks, no transaction id occurs twice,
and the index holds every id that could still pass the expiration check. -/
theorem run_noReplay {B : BlockLogic σ O} {genesisTime : Nat}
    {production : AccountName → WitnessProduction} {rest : σ}
    {start log : List (SignedBlock (List (BlockTransaction O)))} {state : ChainState (Guarded σ O)}
    (hstart : (ChainState.atGenesis genesisTime production { rest }).applyAll (logic B) start =
      .ok state)
    (hopens : Node.Opens state log)
    (pushes : List (SignedBlock (List (BlockTransaction O)))) :
    let head := (Node.run (logic B) (Node.opened state log) pushes).state
    ∃ blocks, (ChainState.atGenesis genesisTime production { rest }).applyAll (logic B) blocks =
        .ok head ∧
      ((transactionsOf blocks).map BlockTransaction.id).Nodup ∧
      (∀ trx ∈ transactionsOf blocks, head.dgp.time ≤ trx.expiration →
        head.ledger.transactions.find? trx.id = some trx.expiration) ∧
      ∀ now id expiration, head.ledger.transactions.find? id = some expiration →
        now ≤ expiration →
        (head.ledger.clearExpiredTransactions now).transactions.find? id = some expiration := by
  intro head
  obtain ⟨added, hadded⟩ := (Node.run_reached (L := logic B) hopens pushes).exists_applyAll
  have hblocks : (ChainState.atGenesis genesisTime production { rest }).applyAll (logic B)
      (start ++ added) = .ok head := Outcome.forEach_append_eq_ok.mpr ⟨state, hstart, hadded⟩
  have hgenesis : NoReplay ([] : List (SignedBlock (List (BlockTransaction O))))
      (ChainState.atGenesis genesisTime production { rest }) :=
    ⟨⟨List.nodup_nil, by simp [transactionsOf]⟩, fun _ => rfl⟩
  have hchain : NoReplay (start ++ added) head := hgenesis.applyAll hblocks
  refine ⟨start ++ added, hblocks, hchain.recorded.nodup, hchain.recorded.kept, ?_⟩
  intro now id expiration hfind hfresh
  exact find?_clearExpiredTransactions.mpr ⟨hfind, hfresh⟩

end Guarded

namespace Sample

/-- Blocks of two witnesses whose transactions do nothing. -/
def idle : BlockLogic Unit Unit where
  signingKey _ _ := some 0
  shuffledWitnesses _ := ["alice", "bob"]
  calculateMerkleRoot _ := 0
  sharedDbMerkle _ := none
  openBlock _ _ _ := .ok ()
  validate _ := .ok ()
  verifyAuthority _ _ := .ok ()
  refBlockPrefix _ _ := some 0
  evaluate _ _ _ := .ok ()
  maintain _ _ _ := .ok ()

/-- A transaction that expires three seconds after the second block. -/
def shortLived : BlockTransaction Unit where
  body :=
    { refBlockNum := 0
      refBlockPrefix := 0
      expiration := blurtGenesisTime + 9
      operations := [()] }

def carrying (previous : BlockId) (slot : Nat) (witness : AccountName)
    (transactions : List (BlockTransaction Unit)) : SignedBlock (List (BlockTransaction Unit)) where
  previous
  header := { timestamp := blurtGenesisTime + slot * blurtBlockInterval, witness }
  transactions

def carryFirst : SignedBlock (List (BlockTransaction Unit)) := carrying .zero 1 "bob" [shortLived]

/-- The same transaction again, in the next block. -/
def carrySecond : SignedBlock (List (BlockTransaction Unit)) :=
  carrying carryFirst.id 2 "alice" [shortLived]

theorem carrySecond_noReplay :
    ∃ blocks, ((Guarded.transactionsOf blocks).map BlockTransaction.id).Nodup ∧
      (ChainState.atGenesis blurtGenesisTime (fun _ => {}) { rest := () }).applyAll
        (Guarded.logic idle) blocks =
        .ok (Node.run (Guarded.logic idle)
          (Node.opened (ChainState.atGenesis blurtGenesisTime (fun _ => {}) { rest := () }) [])
          [carryFirst, carrySecond]).state := by
  have hopens : Node.Opens (ChainState.atGenesis blurtGenesisTime (fun _ => {})
      ({ rest := () } : Guarded Unit Unit))
      ([] : List (SignedBlock (List (BlockTransaction Unit)))) :=
    ⟨⟨rfl, fun _ => le_rfl, le_rfl⟩, rfl, by simp⟩
  have hstart : (ChainState.atGenesis blurtGenesisTime (fun _ => {})
      ({ rest := () } : Guarded Unit Unit)).applyAll (Guarded.logic idle) [] = .ok _ := rfl
  obtain ⟨blocks, hblocks, hnodup, -⟩ :=
    Guarded.run_noReplay hstart hopens [carryFirst, carrySecond]
  exact ⟨blocks, hnodup, hblocks⟩

end Sample

end Blurt
