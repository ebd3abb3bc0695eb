import Blurt.ForkChain.ChainStateLaws
import Blurt.Foundation.ShiftWindow
import Mathlib.Order.Interval.Finset.Nat

/-! # Slots

Slot time, slot number, absolute slot and participation are computed by different
functions of a head whose time need not lie on a slot boundary. On a chain that
starts at an aligned genesis they count the same slots.
-/

namespace Blurt

namespace ChainState

open Outcome

variable {σ T : Type} {L : LedgerLogic σ T}

/-- The slots of `blurtBlockInterval` seconds between the one of `genesisTime` and the
one of `time`. -/
def absoluteSlot (genesisTime time : Nat) : Nat :=
  time / blurtBlockInterval - genesisTime / blurtBlockInterval

/-- The absolute slots of the blocks of a chain. -/
def slotsOf (genesisTime : Nat) (blocks : List (SignedBlock T)) : List Nat :=
  blocks.map fun b => absoluteSlot genesisTime b.header.timestamp

/-- The absolute slots up to `aslot` without a block. -/
def missedSlots (genesisTime : Nat) (blocks : List (SignedBlock T)) (aslot : Nat) : Finset Nat :=
  Finset.Icc 1 aslot \ (slotsOf genesisTime blocks).toFinset

/-- What `init_genesis` leaves of block production at `genesisTime`. -/
def atGenesis (genesisTime : Nat) (production : AccountName → WitnessProduction) (ledger : σ) :
    ChainState σ where
  dgp := { time := genesisTime }
  production
  ledger

/-! ## Slot times of one state -/

/-- The head is the genesis state, at an aligned time, or a block after it. -/
structure Aligned (s : ChainState σ) : Prop where
  genesis : s.dgp.headBlockNumber = 0 → blurtBlockInterval ∣ s.dgp.time

theorem Aligned.getSlotTime {s : ChainState σ} (h : s.Aligned) {slot : Nat} (hslot : 1 ≤ slot)
    (hfits : (s.dgp.time / blurtBlockInterval + slot) * blurtBlockInterval < 2 ^ 32) :
    s.getSlotTime slot = (s.dgp.time / blurtBlockInterval + slot) * blurtBlockInterval := by
  have hzero := h.genesis
  have hne : slot ≠ 0 := by omega
  simp only [ChainState.getSlotTime, hne, if_false, blurtBlockInterval] at hzero hfits ⊢
  split
  · rename_i hnum
    have hdvd := hzero hnum
    rw [Nat.mod_eq_of_lt] <;> omega
  · rw [Nat.mod_eq_of_lt] <;> omega

/-- The slot of a time after the head is the distance of the absolute slots. -/
theorem Aligned.getSlotAtTime {s : ChainState σ} (h : s.Aligned) {time : Nat}
    (hafter : s.dgp.time < time) (hfits : time < 2 ^ 32) :
    s.getSlotAtTime time = time / blurtBlockInterval - s.dgp.time / blurtBlockInterval := by
  have hnext : (s.dgp.time / 3 + 1) * 3 < 2 ^ 32 := by omega
  have hfirst := h.getSlotTime le_rfl hnext
  simp only [ChainState.getSlotAtTime, hfirst, blurtBlockInterval]
  split
  · omega
  · omega

theorem Aligned.getSlotAtTime_getSlotTime {s : ChainState σ} (h : s.Aligned) {slot : Nat}
    (hslot : 1 ≤ slot)
    (hfits : (s.dgp.time / blurtBlockInterval + slot) * blurtBlockInterval < 2 ^ 32) :
    s.getSlotAtTime (s.getSlotTime slot) = slot := by
  have hnext : (s.dgp.time / blurtBlockInterval + 1) * blurtBlockInterval < 2 ^ 32 := by
    apply lt_of_le_of_lt _ hfits
    apply Nat.mul_le_mul_right
    omega
  rw [h.getSlotTime hslot hfits]
  simp only [ChainState.getSlotAtTime, h.getSlotTime le_rfl hnext, blurtBlockInterval]
  split
  · omega
  · omega

/-! ## The participation window -/

/-- The window and the count of its ones. -/
structure CountsOnes (dgp : DynamicGlobalProperties) : Prop where
  width : dgp.recentSlotsFilled < 2 ^ 128
  count : dgp.participationCount = ShiftWindow.oneBits 128 dgp.recentSlotsFilled

theorem shiftSlots_recentSlotsFilled (dgp : DynamicGlobalProperties) (i : Nat) :
    (shiftSlots dgp i).recentSlotsFilled =
      ShiftWindow.push 128 dgp.recentSlotsFilled (i = 0 : Bool) := by
  by_cases hi : i = 0 <;> simp [shiftSlots, ShiftWindow.push, hi]

theorem CountsOnes.shiftSlots {dgp : DynamicGlobalProperties} (h : CountsOnes dgp) (i : Nat) :
    CountsOnes (shiftSlots dgp i) := by
  constructor
  · rw [shiftSlots_recentSlotsFilled]
    exact ShiftWindow.push_lt 127 _ _
  · have hcount : (ChainState.shiftSlots dgp i).participationCount =
        dgp.participationCount - dgp.recentSlotsFilled / 2 ^ 127 + (i = 0 : Bool).toNat := by
      by_cases hi : i = 0 <;> simp [ChainState.shiftSlots, hi]
    rw [hcount, h.count, shiftSlots_recentSlotsFilled, ShiftWindow.oneBits_succ h.width,
      ShiftWindow.oneBits_push, Nat.add_sub_cancel]

theorem CountsOnes.foldl {dgp : DynamicGlobalProperties} (h : CountsOnes dgp)
    (slots : List Nat) : CountsOnes (slots.foldl ChainState.shiftSlots dgp) := by
  induction slots generalizing dgp with
  | nil => exact h
  | cons slot rest ih => exact ih (h.shiftSlots slot)

/-! ## One block -/

/-- What an accepted block says about the slots. -/
theorem applyBlock_slots {s s' : ChainState σ} {b : SignedBlock T}
    (h : s.applyBlock L b = .ok s') :
    s.dgp.time < b.header.timestamp ∧ 0 < s.getSlotAtTime b.header.timestamp ∧
      b.header.witness = s.getScheduledWitness L (s.getSlotAtTime b.header.timestamp) ∧
      s'.dgp.time = b.header.timestamp ∧
      s'.dgp.currentAslot = s.dgp.currentAslot +
        (if s.dgp.time = 0 then 0 else s.getSlotAtTime b.header.timestamp - 1) + 1 ∧
      (CountsOnes s.dgp → CountsOnes s'.dgp) := by
  simp only [applyBlock, bind_eq_ok, pure_eq_ok] at h
  obtain ⟨_, -, _, hheader, ledger, -, updated, hupdated, confirmed, hconfirmed, _, -, rfl⟩ := h
  simp only [validateBlockHeader, bind_eq_ok, ensure_eq_ok, require_eq_ok, exists_and_left,
    exists_const] at hheader
  obtain ⟨-, htime, _, -, -, hslot, hwitness⟩ := hheader
  simp only [updateGlobalDynamicData, bind_eq_ok, ensure_eq_ok, exists_and_left,
    exists_const, pure_eq_ok] at hupdated
  obtain ⟨production, -, -, rfl⟩ := hupdated
  obtain ⟨_, -, rfl⟩ := updateLastIrreversibleBlock_spec hconfirmed
  refine ⟨htime, hslot, hwitness, rfl, rfl, fun hones => ?_⟩
  obtain ⟨hwidth, hcount⟩ := hones.foldl (List.range _)
  exact ⟨hwidth, hcount⟩

/-! ## Chains of blocks -/

/-- The slots of a state that `blocks` lead to from a genesis at `genesisTime`. -/
structure Slotted (genesisTime : Nat) (blocks : List (SignedBlock T)) (s : ChainState σ) :
    Prop where
  aligned : s.Aligned
  number : s.dgp.headBlockNumber = blocks.length
  head : s.dgp.headBlockId.num = blocks.length
  started : genesisTime ≤ s.dgp.time ∧ 0 < s.dgp.time
  aslot : s.dgp.currentAslot = absoluteSlot genesisTime s.dgp.time
  past : ∀ b ∈ blocks, b.header.timestamp ≤ s.dgp.time
  slots : ∀ slot ∈ slotsOf genesisTime blocks, 1 ≤ slot ∧ slot ≤ s.dgp.currentAslot
  times_increase : (blocks.map (·.header.timestamp)).Pairwise (· < ·)
  slots_increase : (slotsOf genesisTime blocks).Pairwise (· < ·)
  ones : CountsOnes s.dgp

theorem Slotted.getSlotAtTime {genesisTime : Nat} {blocks : List (SignedBlock T)}
    {s : ChainState σ} (h : s.Slotted genesisTime blocks) {time : Nat}
    (hafter : s.dgp.time < time) (hfits : time < 2 ^ 32) :
    s.dgp.currentAslot + s.getSlotAtTime time = absoluteSlot genesisTime time := by
  have hstarted := h.started.1
  rw [h.aslot, h.aligned.getSlotAtTime hafter hfits]
  simp only [absoluteSlot, blurtBlockInterval]
  omega

/-- A genesis state at an aligned time. -/
theorem Slotted.atGenesis {genesisTime : Nat} (haligned : blurtBlockInterval ∣ genesisTime)
    (hstarted : 0 < genesisTime) (production : AccountName → WitnessProduction) (ledger : σ) :
    (atGenesis genesisTime production ledger).Slotted genesisTime ([] : List (SignedBlock T)) where
  aligned := ⟨fun _ => haligned⟩
  number := rfl
  head := rfl
  started := ⟨le_rfl, hstarted⟩
  aslot := (Nat.sub_self _).symm
  past := by simp
  slots := by simp [slotsOf]
  times_increase := List.Pairwise.nil
  slots_increase := List.Pairwise.nil
  ones := ⟨(by decide : 2 ^ 128 - 1 < 2 ^ 128),
    (ShiftWindow.oneBits_full 128).symm⟩

/-- One accepted block takes the next slot of the chain. -/
theorem Slotted.applyBlock {genesisTime : Nat} {blocks : List (SignedBlock T)}
    {s s' : ChainState σ} (h : s.Slotted genesisTime blocks) {b : SignedBlock T}
    (hfits : b.header.timestamp < 2 ^ 32) (hb : s.applyBlock L b = .ok s') :
    s'.Slotted genesisTime (blocks ++ [b]) := by
  obtain ⟨htime, hslot, -, hnow, haslot, hones⟩ := applyBlock_slots hb
  obtain ⟨hprevious, hid, hnum, -, -⟩ := applyBlock_spec hb
  have hparent : b.previous.num = blocks.length := by rw [← hprevious, h.head]
  have hreached : s'.dgp.currentAslot = absoluteSlot genesisTime b.header.timestamp := by
    have hnext := h.getSlotAtTime htime hfits
    have hstarted := h.started.2
    rw [haslot, if_neg (by omega)]
    omega
  have hlater : s.dgp.currentAslot < s'.dgp.currentAslot := by omega
  constructor
  · constructor
    intro hzero
    rw [hnum, SignedBlock.blockNum] at hzero
    omega
  · rw [hnum, SignedBlock.blockNum, hparent]
    simp
  · rw [hid, SignedBlock.num_id, SignedBlock.blockNum, hparent]
    simp
  · have hstarted := h.started
    rw [hnow]
    omega
  · rw [hreached, hnow]
  · intro block hblock
    rw [hnow]
    rcases List.mem_append.mp hblock with hold | hnew
    · exact (h.past block hold).trans htime.le
    · rw [List.mem_singleton.mp hnew]
  · intro slot hmem
    rw [slotsOf, List.map_append, List.mem_append] at hmem
    rcases hmem with hold | hnew
    · obtain ⟨hone, hle⟩ := h.slots slot hold
      exact ⟨hone, hle.trans hlater.le⟩
    · simp only [List.map_cons, List.map_nil, List.mem_singleton] at hnew
      rw [hnew, ← hreached]
      exact ⟨by omega, le_rfl⟩
  · rw [List.map_append, List.pairwise_append]
    refine ⟨h.times_increase, by simp, ?_⟩
    intro earlier hearlier later hlater
    obtain ⟨block, hblock, rfl⟩ := List.mem_map.mp hearlier
    simp only [List.map_cons, List.map_nil, List.mem_singleton] at hlater
    rw [hlater]
    exact lt_of_le_of_lt (h.past block hblock) htime
  · rw [slotsOf, List.map_append, List.pairwise_append]
    refine ⟨h.slots_increase, by simp, ?_⟩
    intro earlier hearlier later hnew
    simp only [List.map_cons, List.map_nil, List.mem_singleton] at hnew
    rw [hnew, ← hreached]
    exact lt_of_le_of_lt (h.slots earlier hearlier).2 hlater
  · exact hones h.ones

theorem Slotted.applyAll {genesisTime : Nat} {before blocks : List (SignedBlock T)}
    {s s' : ChainState σ} (h : s.Slotted genesisTime before)
    (hfits : ∀ b ∈ blocks, b.header.timestamp < 2 ^ 32) (hblocks : s.applyAll L blocks = .ok s') :
    s'.Slotted genesisTime (before ++ blocks) := by
  induction blocks generalizing before s with
  | nil =>
      cases hblocks
      simpa using h
  | cons b rest ih =>
      obtain ⟨middle, hmiddle, hrest⟩ := forEach_cons_eq_ok.mp hblocks
      have hnext := h.applyBlock (hfits b List.mem_cons_self) hmiddle
      have hlast := ih hnext (fun c hc => hfits c (List.mem_cons_of_mem _ hc)) hrest
      simpa using hlast

theorem Slotted.missed {genesisTime : Nat} {blocks : List (SignedBlock T)} {s : ChainState σ}
    (h : s.Slotted genesisTime blocks) :
    s.dgp.currentAslot = s.dgp.headBlockNumber +
      (missedSlots genesisTime blocks s.dgp.currentAslot).card := by
  have hnodup : (slotsOf genesisTime blocks).Nodup := h.slots_increase.imp ne_of_lt
  have hsubset : (slotsOf genesisTime blocks).toFinset ⊆ Finset.Icc 1 s.dgp.currentAslot := by
    intro slot hmem
    rw [List.mem_toFinset] at hmem
    exact Finset.mem_Icc.mpr (h.slots slot hmem)
  have hcard : (slotsOf genesisTime blocks).toFinset.card = blocks.length := by
    rw [List.toFinset_card_of_nodup hnodup, slotsOf, List.length_map]
  have hle := Finset.card_le_card hsubset
  rw [missedSlots, Finset.card_sdiff_of_subset hsubset, hcard, Nat.card_Icc, h.number]
  rw [hcard, Nat.card_Icc] at hle
  omega

/-- Slot accounting on every chain of accepted blocks with 32-bit timestamps. -/
theorem applyAll_slotAccounting {production : AccountName → WitnessProduction} {ledger : σ}
    {blocks : List (SignedBlock T)} {s : ChainState σ}
    (hfits : ∀ b ∈ blocks, b.header.timestamp < 2 ^ 32)
    (hblocks : (atGenesis blurtGenesisTime production ledger).applyAll L blocks = .ok s) :
    (blocks.map (·.header.timestamp)).Pairwise (· < ·) ∧
      (slotsOf blurtGenesisTime blocks).Nodup ∧
      s.dgp.currentAslot =
        s.dgp.time / blurtBlockInterval - blurtGenesisTime / blurtBlockInterval ∧
      (∀ slot, 1 ≤ slot →
        (s.dgp.time / blurtBlockInterval + slot) * blurtBlockInterval < 2 ^ 32 →
        s.getSlotAtTime (s.getSlotTime slot) = slot) ∧
      (∀ before b after, blocks = before ++ b :: after → ∃ parent,
        (atGenesis blurtGenesisTime production ledger).applyAll L before = .ok parent ∧
        b.header.witness = (L.shuffledWitnesses parent.ledger).getD
          (absoluteSlot blurtGenesisTime b.header.timestamp %
            (L.shuffledWitnesses parent.ledger).length) "") ∧
      s.dgp.currentAslot = s.dgp.headBlockNumber +
        (missedSlots blurtGenesisTime blocks s.dgp.currentAslot).card ∧
      s.dgp.participationCount = ShiftWindow.oneBits 128 s.dgp.recentSlotsFilled := by
  have hgenesis : (atGenesis blurtGenesisTime production ledger).Slotted blurtGenesisTime
      ([] : List (SignedBlock T)) := Slotted.atGenesis (by decide) (by decide) production ledger
  have hslotted : s.Slotted blurtGenesisTime blocks := hgenesis.applyAll hfits hblocks
  refine ⟨hslotted.times_increase, hslotted.slots_increase.imp ne_of_lt, hslotted.aslot,
    fun slot hslot hfit => hslotted.aligned.getSlotAtTime_getSlotTime hslot hfit, ?_,
    hslotted.missed, hslotted.ones.count⟩
  rintro before b after rfl
  obtain ⟨parent, hbefore, hrest⟩ := forEach_append_eq_ok.mp hblocks
  obtain ⟨next, hb, -⟩ := forEach_cons_eq_ok.mp hrest
  have hparent : parent.Slotted blurtGenesisTime before :=
    hgenesis.applyAll (fun c hc => hfits c (List.mem_append_left _ hc)) hbefore
  obtain ⟨htime, -, hwitness, -⟩ := applyBlock_slots hb
  refine ⟨parent, hbefore, ?_⟩
  rw [hwitness, getScheduledWitness, hparent.getSlotAtTime htime (hfits b (by simp))]

/-- The time of this slot does not fit into the 32 bits of a `time_point_sec`. -/
theorem atGenesis_slot_overflows :
    (atGenesis blurtGenesisTime (fun _ => {}) ()).getSlotAtTime
      ((atGenesis blurtGenesisTime (fun _ => {}) ()).getSlotTime (2 ^ 30)) ≠ 2 ^ 30 := by
  decide

end ChainState

namespace Sample

open ChainState

/-- Two witnesses in turn, and a ledger without content. -/
def turns : LedgerLogic Unit Unit where
  signingKey _ _ := some 0
  shuffledWitnesses _ := ["alice", "bob"]
  calculateMerkleRoot _ := 0
  sharedDbMerkle _ := none
  applyTransactions _ _ := .ok ()
  applyMaintenance _ _ := .ok ()

/-- A block `seconds` after genesis. -/
def blockAfter (previous : BlockId) (seconds : Nat) (witness : AccountName) : SignedBlock Unit where
  previous
  header := { timestamp := blurtGenesisTime + seconds, witness }
  transactions := ()

def early : SignedBlock Unit := blockAfter .zero 4 "bob"

/-- A block between two slot times, one slot after `early`. -/
def late : SignedBlock Unit := blockAfter early.id 11 "bob"

theorem early_late_slotAccounting :
    ∃ s, (atGenesis blurtGenesisTime (fun _ => {}) ()).applyAll turns [early, late] = .ok s ∧
      s.dgp.currentAslot = s.dgp.headBlockNumber +
        (missedSlots blurtGenesisTime [early, late] s.dgp.currentAslot).card := by
  refine ⟨_, rfl, ?_⟩
  have hrun : (atGenesis blurtGenesisTime (fun _ => {}) ()).applyAll turns [early, late] =
      .ok _ := rfl
  exact (applyAll_slotAccounting (by decide) hrun).2.2.2.2.2.1

end Sample

end Blurt
