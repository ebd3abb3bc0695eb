import Blurt.ForkChain.ChainState

/-! # Laws of block application

What a completed `_apply_block` says about the state before and after it, for
any ledger: it extends the head by one block, never lowers the last irreversible
block number, and keeps that number at or below the head.
-/

namespace Blurt

namespace ChainState

open Outcome

variable {σ T : Type} {L : LedgerLogic σ T}

/-- No witness has confirmed a block above the head. -/
structure Sound (s : ChainState σ) : Prop where
  number : s.dgp.headBlockNumber = s.dgp.headBlockId.num
  confirmed : ∀ witness, (s.production witness).lastConfirmedBlockNum ≤ s.dgp.headBlockNumber
  irreversible : s.dgp.lastIrreversibleBlockNum ≤ s.dgp.headBlockNumber

theorem validateBlockHeader_previous {s : ChainState σ} {b : SignedBlock T} {u : Unit}
    (h : s.validateBlockHeader L b = .ok u) : s.dgp.headBlockId = b.previous := by
  simp only [validateBlockHeader, bind_eq_ok, ensure_eq_ok, exists_and_left, exists_const] at h
  exact h.1

theorem countMissed_confirmed {s : ChainState σ} {producer : AccountName} {slot : Nat}
    {production next : AccountName → WitnessProduction}
    (h : s.countMissed L producer production slot = .ok next) (witness : AccountName) :
    (next witness).lastConfirmedBlockNum = (production witness).lastConfirmedBlockNum := by
  simp only [countMissed, bind_eq_ok, require_eq_ok] at h
  obtain ⟨key, -, h⟩ := h
  split at h
  · rw [pure_eq_ok] at h
    rw [h]
  · rw [pure_eq_ok] at h
    subst h
    by_cases heq : witness = s.getScheduledWitness L (slot + 1)
    · subst heq
      simp
    · simp [Function.update_of_ne heq]

theorem updateGlobalDynamicData_spec {s s' : ChainState σ} {b : SignedBlock T}
    (h : s.updateGlobalDynamicData L b = .ok s') :
    s'.dgp.headBlockId = b.id ∧ s'.dgp.headBlockNumber = b.blockNum ∧
      s'.dgp.lastIrreversibleBlockNum = s.dgp.lastIrreversibleBlockNum ∧
      s'.ledger = s.ledger ∧
      ∀ witness, (s'.production witness).lastConfirmedBlockNum =
        (s.production witness).lastConfirmedBlockNum := by
  simp only [updateGlobalDynamicData, bind_eq_ok, ensure_eq_ok, exists_and_left,
    exists_const, pure_eq_ok] at h
  obtain ⟨production, hproduction, -, rfl⟩ := h
  refine ⟨rfl, rfl, rfl, rfl, ?_⟩
  intro witness
  exact forEach_invariant
    (fun current : AccountName → WitnessProduction =>
      (current witness).lastConfirmedBlockNum = (s.production witness).lastConfirmedBlockNum)
    (fun current slot next _ hcurrent hnext =>
      (countMissed_confirmed hnext witness).trans hcurrent) rfl hproduction

theorem confirmedNum_le {s : ChainState σ} {confirmed bound : Nat}
    (h : s.confirmedNum L = some confirmed)
    (hbound : ∀ witness, (s.production witness).lastConfirmedBlockNum ≤ bound) :
    confirmed ≤ bound := by
  have hmem := List.mem_of_getElem? h
  rw [List.mem_insertionSort, List.mem_map] at hmem
  obtain ⟨witness, -, rfl⟩ := hmem
  exact hbound witness

theorem updateLastIrreversibleBlock_spec {s s' : ChainState σ}
    (h : s.updateLastIrreversibleBlock L = .ok s') :
    ∃ confirmed, s.confirmedNum L = some confirmed ∧
      s' = { s with dgp := { s.dgp with
        lastIrreversibleBlockNum := max s.dgp.lastIrreversibleBlockNum confirmed } } := by
  simp only [updateLastIrreversibleBlock, bind_eq_ok, ensure_eq_ok, require_eq_ok,
    exists_and_left, exists_const] at h
  obtain ⟨-, confirmed, hconfirmed, h⟩ := h
  refine ⟨confirmed, hconfirmed, ?_⟩
  split at h
  next hlt =>
    rw [pure_eq_ok] at h
    rw [← h, max_eq_right hlt.le]
  next hge =>
    rw [pure_eq_ok] at h
    rw [← h, max_eq_left (not_lt.mp hge)]

/-- A completed block moves the head from its previous block to itself, and the
last irreversible number to the maximum of its old value and a number confirmed
by a witness. -/
theorem applyBlock_spec {s s' : ChainState σ} {b : SignedBlock T}
    (h : s.applyBlock L b = .ok s') :
    s.dgp.headBlockId = b.previous ∧ s'.dgp.headBlockId = b.id ∧
      s'.dgp.headBlockNumber = b.blockNum ∧
      s.dgp.lastIrreversibleBlockNum ≤ s'.dgp.lastIrreversibleBlockNum ∧
      (s.Sound → s'.Sound) := by
  simp only [applyBlock, bind_eq_ok, pure_eq_ok] at h
  obtain ⟨_, -, _, hheader, ledger, -, updated, hupdated, confirmed, hconfirmed, ledger', -, rfl⟩ := h
  have hprevious := validateBlockHeader_previous hheader
  obtain ⟨hid, hnum, hirreversible, -, hproduction⟩ := updateGlobalDynamicData_spec hupdated
  obtain ⟨num, hselected, rfl⟩ := updateLastIrreversibleBlock_spec hconfirmed
  refine ⟨hprevious, hid, hnum, ?_, ?_⟩
  · change s.dgp.lastIrreversibleBlockNum ≤ max updated.dgp.lastIrreversibleBlockNum num
    rw [hirreversible]
    exact le_max_left _ _
  · intro hsound
    have hbefore : s.dgp.headBlockNumber ≤ b.blockNum := by
      rw [hsound.number, hprevious]
      exact Nat.le_succ _
    have hbound : ∀ witness,
        ((updated.updateSigningWitness b).production witness).lastConfirmedBlockNum ≤
          b.blockNum := by
      intro witness
      by_cases heq : witness = b.header.witness
      · subst heq
        simp [updateSigningWitness]
      · simp only [updateSigningWitness, Function.update_of_ne heq, hproduction]
        exact (hsound.confirmed witness).trans hbefore
    refine ⟨?_, ?_, ?_⟩
    · change updated.dgp.headBlockNumber = updated.dgp.headBlockId.num
      rw [hnum, hid, SignedBlock.num_id]
    · intro witness
      change _ ≤ updated.dgp.headBlockNumber
      rw [hnum]
      exact hbound witness
    · change max updated.dgp.lastIrreversibleBlockNum num ≤ updated.dgp.headBlockNumber
      rw [hirreversible, hnum]
      exact max_le (hsound.irreversible.trans hbefore) (confirmedNum_le hselected hbound)

theorem applyBlock_previous {s s' : ChainState σ} {b : SignedBlock T}
    (h : s.applyBlock L b = .ok s') : s.dgp.headBlockId = b.previous :=
  (applyBlock_spec h).1

theorem applyBlock_headBlockId {s s' : ChainState σ} {b : SignedBlock T}
    (h : s.applyBlock L b = .ok s') : s'.dgp.headBlockId = b.id :=
  (applyBlock_spec h).2.1

theorem applyBlock_headBlockNumber {s s' : ChainState σ} {b : SignedBlock T}
    (h : s.applyBlock L b = .ok s') : s'.dgp.headBlockNumber = b.blockNum :=
  (applyBlock_spec h).2.2.1

/-- Along one branch the last irreversible block number never falls. -/
theorem applyBlock_irreversible_le {s s' : ChainState σ} {b : SignedBlock T}
    (h : s.applyBlock L b = .ok s') :
    s.dgp.lastIrreversibleBlockNum ≤ s'.dgp.lastIrreversibleBlockNum :=
  (applyBlock_spec h).2.2.2.1

theorem Sound.applyBlock {s s' : ChainState σ} {b : SignedBlock T} (hs : s.Sound)
    (h : s.applyBlock L b = .ok s') : s'.Sound :=
  (applyBlock_spec h).2.2.2.2 hs

/-- The merkle root of a header binds the transactions: of the known blocks with one id
at most one passes the merkle check. -/
def MerkleBinds (L : LedgerLogic σ T) (known : Set (SignedBlock T)) : Prop :=
  ∀ b ∈ known, ∀ c ∈ known, checkMerkle L b = .ok () → checkMerkle L c = .ok () → b.id = c.id →
    b = c

theorem applyBlock_checkMerkle {s s' : ChainState σ} {b : SignedBlock T}
    (h : s.applyBlock L b = .ok s') : checkMerkle L b = .ok () := by
  rw [applyBlock, bind_eq_ok] at h
  obtain ⟨_, hmerkle, -⟩ := h
  exact hmerkle

/-- The states that block application reaches from a starting state with known blocks,
on any branch. -/
inductive Reached (L : LedgerLogic σ T) (known : Set (SignedBlock T)) (start : ChainState σ) :
    ChainState σ → Prop
  | start : Reached L known start start
  | step {s s' : ChainState σ} {b : SignedBlock T} (hs : Reached L known start s) (hb : b ∈ known)
      (h : s.applyBlock L b = .ok s') : Reached L known start s'

namespace Reached

variable {known : Set (SignedBlock T)} {start : ChainState σ}

theorem mono {larger : Set (SignedBlock T)} (hsub : known ⊆ larger) {s : ChainState σ}
    (h : Reached L known start s) : Reached L larger start s := by
  induction h with
  | start => exact .start
  | step _ hb happly ih => exact .step ih (hsub hb) happly

/-- A reached state is at the end of a chain of blocks. -/
theorem exists_applyAll {s : ChainState σ} (h : Reached L known start s) :
    ∃ blocks, start.applyAll L blocks = .ok s := by
  induction h with
  | start => exact ⟨[], rfl⟩
  | @step s s' b _ _ happly ih =>
      obtain ⟨blocks, hblocks⟩ := ih
      exact ⟨blocks ++ [b],
        forEach_append_eq_ok.mpr ⟨s, hblocks, forEach_cons_eq_ok.mpr ⟨s', happly, rfl⟩⟩⟩

theorem descends {s : ChainState σ} (h : Reached L known start s) :
    s.dgp.headBlockId.Descends start.dgp.headBlockId := by
  induction h with
  | start => exact .refl _
  | step _ _ happly ih =>
      rw [applyBlock_headBlockId happly]
      rw [applyBlock_previous happly] at ih
      exact ih.step _

theorem ne_start {s s' : ChainState σ} {b : SignedBlock T} (hs : Reached L known start s)
    (happly : s.applyBlock L b = .ok s') : s'.dgp.headBlockId ≠ start.dgp.headBlockId := by
  intro heq
  have hnum := congrArg BlockId.num ((applyBlock_headBlockId happly).symm.trans heq)
  have hle := hs.descends.num_le
  rw [applyBlock_previous happly] at hle
  simp only [SignedBlock.num_id, SignedBlock.blockNum] at hnum
  omega

/-- Block application is deterministic, so the head id determines the whole state. -/
theorem unique (hbinds : MerkleBinds L known) {s t : ChainState σ} (hs : Reached L known start s)
    (ht : Reached L known start t) (hid : s.dgp.headBlockId = t.dgp.headBlockId) : s = t := by
  induction hs generalizing t with
  | start =>
      cases ht with
      | start => rfl
      | step ht _ happly => exact absurd hid.symm (ht.ne_start happly)
  | @step s s' b hs hb happly ih =>
      cases ht with
      | start => exact absurd hid (hs.ne_start happly)
      | @step u _ c hu hc happly' =>
          rw [applyBlock_headBlockId happly, applyBlock_headBlockId happly'] at hid
          have heq := hbinds b hb c hc (applyBlock_checkMerkle happly)
            (applyBlock_checkMerkle happly') hid
          subst heq
          have hsame := ih hu ((applyBlock_previous happly).trans (applyBlock_previous happly').symm)
          subst hsame
          exact Except.ok.inj (happly.symm.trans happly')

/-- A state on the chain below a head has no higher last irreversible block. -/
theorem irreversible_le (hbinds : MerkleBinds L known) {s t : ChainState σ}
    (hs : Reached L known start s) (ht : Reached L known start t)
    (hdescends : t.dgp.headBlockId.Descends s.dgp.headBlockId) :
    s.dgp.lastIrreversibleBlockNum ≤ t.dgp.lastIrreversibleBlockNum := by
  induction ht with
  | start =>
      have heq := hdescends.eq_of_num_le hs.descends.num_le
      rw [unique hbinds hs .start heq]
  | @step u t b hu hb happly ih =>
      rw [applyBlock_headBlockId happly] at hdescends
      rcases hdescends with heq | hbelow
      · have hsame : s.dgp.headBlockId = t.dgp.headBlockId := by
          rw [applyBlock_headBlockId happly]
          exact heq
        rw [unique hbinds hs (.step hu hb happly) hsame]
      · rw [← applyBlock_previous happly] at hbelow
        exact (ih hbelow).trans (applyBlock_irreversible_le happly)

end Reached

end ChainState

end Blurt
