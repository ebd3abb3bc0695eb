import Blurt.ForkChain.LogFile

/-! # Reopening the block log

What `append` writes is the records of the blocks one after the other, so the position of
every block is the length of the records before it, and the loop of `construct_index` meets
exactly these positions.
-/

namespace Blurt

open Outcome

namespace LogFile

variable {B : Type} {codec : BlockCodec B}

section Image

variable (codec)

/-- What `append` writes to the log file for blocks from the position `pos` on. -/
def records : (pos : Nat) → List B → List UInt8
  | _, [] => []
  | pos, b :: rest =>
      codec.pack b ++ LittleEndian.encode 8 pos ++ records (pos + (codec.pack b).length + 8) rest

/-- The positions of blocks from `pos` on. -/
def positions : (pos : Nat) → List B → List Nat
  | _, [] => []
  | pos, b :: rest => pos :: positions (pos + (codec.pack b).length + 8) rest

/-- What `append` writes to the index file. -/
def entries (blocks : List B) : List UInt8 :=
  (positions codec 0 blocks).flatMap (LittleEndian.encode 8)

/-- The files that hold `blocks`. -/
def holding (blocks : List B) : LogFile B where
  blockFile := records codec 0 blocks
  indexFile := entries codec blocks
  head := blocks.getLast?

end Image

/-- The blocks have the numbers from 1 on. -/
def Numbered (codec : BlockCodec B) (blocks : List B) : Prop :=
  ∀ i b, blocks[i]? = some b → codec.blockNum b = i + 1

theorem records_append (pos : Nat) (before after : List B) :
    records codec pos (before ++ after) =
      records codec pos before ++ records codec (pos + (records codec pos before).length) after := by
  induction before generalizing pos with
  | nil => simp [records]
  | cons b rest ih =>
      simp only [List.cons_append, records, ih, List.append_assoc, List.length_append,
        LittleEndian.length_encode]
      congr 4
      omega

theorem positions_append (pos : Nat) (before after : List B) :
    positions codec pos (before ++ after) =
      positions codec pos before ++
        positions codec (pos + (records codec pos before).length) after := by
  induction before generalizing pos with
  | nil => simp [records, positions]
  | cons b rest ih =>
      simp only [List.cons_append, positions, records, ih, List.length_append,
        LittleEndian.length_encode]
      congr 3
      omega

@[simp] theorem length_positions (pos : Nat) (blocks : List B) :
    (positions codec pos blocks).length = blocks.length := by
  induction blocks generalizing pos with
  | nil => rfl
  | cons b rest ih => rw [positions, List.length_cons, ih, List.length_cons]

theorem length_flatMap_encode (ps : List Nat) :
    (ps.flatMap (LittleEndian.encode 8)).length = 8 * ps.length := by
  induction ps with
  | nil => rfl
  | cons p rest ih =>
      rw [List.flatMap_cons, List.length_append, LittleEndian.length_encode, ih, List.length_cons]
      omega

@[simp] theorem length_entries (blocks : List B) :
    (entries codec blocks).length = 8 * blocks.length := by
  rw [entries, length_flatMap_encode, length_positions]

/-- Every block takes more than its position. -/
theorem length_records (codec : BlockCodec B) (pos : Nat) (blocks : List B) :
    8 * blocks.length ≤ (records codec pos blocks).length := by
  induction blocks generalizing pos with
  | nil => exact Nat.zero_le _
  | cons b rest ih =>
      have hrest := ih (pos + (codec.pack b).length + 8)
      rw [records, List.length_append, List.length_append, LittleEndian.length_encode,
        List.length_cons]
      omega

/-! ## Reading -/

/-- A position that has been written is read back. -/
theorem readPos_written {before after : List UInt8} {pos : Nat} (hpos : pos < 2 ^ 63) :
    readPos (before ++ LittleEndian.encode 8 pos ++ after) before.length = .ok pos := by
  have hlength : before.length + 8 ≤ (before ++ LittleEndian.encode 8 pos ++ after).length := by
    simp
  have htake : ((before ++ LittleEndian.encode 8 pos ++ after).drop before.length).take 8 =
      LittleEndian.encode 8 pos := by
    rw [List.append_assoc, List.drop_left, List.take_left' (LittleEndian.length_encode 8 pos)]
  have hroom : pos < 256 ^ 8 := by omega
  rw [readPos, Outcome.ensure, if_pos hlength, ok_bind, htake, LittleEndian.decode_encode hroom]
  rfl

theorem readLastPos_written {before : List UInt8} {pos : Nat} (hpos : pos < 2 ^ 63) :
    readLastPos (before ++ LittleEndian.encode 8 pos) = .ok pos := by
  have hlength : (before ++ LittleEndian.encode 8 pos).length = before.length + 8 := by simp
  have hread : readPos (before ++ LittleEndian.encode 8 pos ++ []) before.length = .ok pos :=
    readPos_written hpos
  rw [List.append_nil] at hread
  rw [readLastPos, Outcome.ensure, if_pos (by omega), ok_bind, hlength, Nat.add_sub_cancel, hread]

/-- A block that has been written is read back, with the position after its own. -/
theorem readBlock_written {log : LogFile B} {before after : List UInt8} {b : B} {pos : Nat}
    (hfile : log.blockFile =
      before ++ (codec.pack b ++ LittleEndian.encode 8 pos ++ after)) :
    log.readBlock codec before.length = .ok (b, before.length + (codec.pack b).length + 8) := by
  have hunpack : codec.unpack (log.blockFile.drop before.length) =
      some (b, LittleEndian.encode 8 pos ++ after) := by
    rw [hfile, List.drop_left, List.append_assoc, codec.unpack_pack]
  rw [readBlock, hunpack]
  have hlength : log.blockFile.length =
      before.length + (codec.pack b).length + 8 + after.length := by
    rw [hfile]
    simp only [List.length_append, LittleEndian.length_encode]
    omega
  simp only [Outcome.require, ok_bind, List.length_append, LittleEndian.length_encode, hlength,
    pure_eq_ok, Prod.mk.injEq, true_and]
  omega

/-- The records around one block. -/
theorem records_split (before after : List B) (b : B) :
    records codec 0 (before ++ b :: after) =
      records codec 0 before ++ (codec.pack b ++
        LittleEndian.encode 8 (records codec 0 before).length ++
        records codec ((records codec 0 before).length + (codec.pack b).length + 8) after) := by
  rw [records_append, Nat.zero_add, records]

/-! ## Appending -/

theorem holding_append_single (blocks : List B) (b : B) :
    holding codec (blocks ++ [b]) =
      { blockFile := (holding codec blocks).blockFile ++ (codec.pack b ++
          LittleEndian.encode 8 (holding codec blocks).blockFile.length)
        indexFile := (holding codec blocks).indexFile ++
          LittleEndian.encode 8 (holding codec blocks).blockFile.length
        head := some b } := by
  simp only [holding, records_split, entries, positions_append, Nat.zero_add, positions, records,
    List.flatMap_append, List.flatMap_singleton, List.append_nil, List.getLast?_append,
    List.getLast?_singleton, Option.some_or]

/-- A block with the next number is appended if the file has room. -/
theorem append_holding {blocks : List B} {b : B} (hnum : codec.blockNum b = blocks.length + 1)
    {head : Option B} {next : LogFile B} :
    append codec { holding codec blocks with head } b = .ok next ↔
      (records codec 0 blocks).length + ((codec.pack b).length + 8) < 2 ^ 63 ∧
        next = holding codec (blocks ++ [b]) := by
  have hlt := codec.blockNum_lt b
  have hindex : (holding codec blocks).indexFile.length =
      8 * ((codec.blockNum b + (2 ^ 32 - 1)) % 2 ^ 32) := by
    rw [holding, length_entries]
    omega
  simp only [append, bind_eq_ok, ensure_eq_ok, pure_eq_ok, hindex, true_and, exists_const,
    List.length_append, LittleEndian.length_encode, holding_append_single]
  constructor
  · rintro ⟨hroom, rfl⟩
    exact ⟨hroom, rfl⟩
  · rintro ⟨hroom, rfl⟩
    exact ⟨hroom, rfl⟩

/-- What appending leaves, and that the file had room for it. -/
theorem appendAll_holding {done blocks : List B} (hnumbered : Numbered codec (done ++ blocks))
    (hdone : (records codec 0 done).length < 2 ^ 63) {log : LogFile B}
    (happend : appendAll codec (holding codec done) blocks = .ok log) :
    log = holding codec (done ++ blocks) ∧
      (records codec 0 (done ++ blocks)).length < 2 ^ 63 := by
  induction blocks generalizing done with
  | nil =>
      cases happend
      rw [List.append_nil]
      exact ⟨rfl, hdone⟩
  | cons b rest ih =>
      obtain ⟨next, hnext, hrest⟩ := forEach_cons_eq_ok.mp happend
      have hnum : codec.blockNum b = done.length + 1 := by
        apply hnumbered
        rw [List.getElem?_append_right (Nat.le_refl _), Nat.sub_self]
        rfl
      obtain ⟨hroom, rfl⟩ := (append_holding hnum).mp hnext
      have hsplit : done ++ b :: rest = (done ++ [b]) ++ rest := by simp
      rw [hsplit] at hnumbered ⊢
      apply ih hnumbered _ hrest
      rw [records_split]
      simpa [records] using hroom

/-! ## The loop of `construct_index` -/

/-- One turn of the loop: past a record, with its position. -/
theorem constructLoop_step {b : B} {after : List UInt8} {p pos turns endPos : Nat}
    {index : List UInt8} (hpos : pos < endPos) (hroom : p < 2 ^ 63) :
    constructLoop codec endPos (turns + 1)
        (codec.pack b ++ LittleEndian.encode 8 p ++ after) pos index =
      constructLoop codec endPos turns after p (index ++ LittleEndian.encode 8 p) := by
  have hread : readPos ([] ++ LittleEndian.encode 8 p ++ after) 0 = .ok p :=
    readPos_written hroom
  rw [List.nil_append] at hread
  have hdrop : (LittleEndian.encode 8 p ++ after).drop 8 = after :=
    List.drop_left' (LittleEndian.length_encode 8 p)
  rw [constructLoop, if_pos hpos, List.append_assoc, codec.unpack_pack]
  simp only [Outcome.require, ok_bind, hread, hdrop]

/-- As long as it is before the last position, the loop writes the positions of all records. -/
theorem constructLoop_spec {init : List B} {last : B} {p pos turns endPos : Nat}
    {index : List UInt8} (hend : endPos = p + (records codec p init).length)
    (hpos : pos < endPos) (hturns : init.length + 1 < turns) (hroom : endPos < 2 ^ 63) :
    constructLoop codec endPos turns (records codec p (init ++ [last])) pos index =
      .ok (index ++ (positions codec p (init ++ [last])).flatMap (LittleEndian.encode 8)) := by
  induction init generalizing p pos turns index with
  | nil =>
      obtain ⟨turns, rfl⟩ : ∃ n, turns = n + 2 := ⟨turns - 2, by simp at hturns; omega⟩
      have hlast : endPos = p := by simpa [records] using hend
      subst hlast
      rw [List.nil_append, records, constructLoop_step hpos hroom, constructLoop,
        if_neg (lt_irrefl _), positions, positions, List.flatMap_singleton]
  | cons b rest ih =>
      obtain ⟨turns, rfl⟩ : ∃ n, turns = n + 1 := ⟨turns - 1, by omega⟩
      have hnext : endPos = p + (codec.pack b).length + 8 +
          (records codec (p + (codec.pack b).length + 8) rest).length := by
        rw [hend, records]
        simp only [List.length_append, LittleEndian.length_encode]
        omega
      rw [List.length_cons] at hturns
      rw [List.cons_append, records, constructLoop_step hpos (by omega),
        ih hnext (by omega) (by omega), positions, List.flatMap_cons, List.append_assoc]

/-! ## Opening -/

section Open

variable {init : List B} {last : B}

theorem readLastPos_records (hroom : (records codec 0 (init ++ [last])).length < 2 ^ 63) :
    readLastPos (records codec 0 (init ++ [last])) = .ok (records codec 0 init).length := by
  rw [records_split] at hroom ⊢
  simp only [List.length_append] at hroom
  rw [records, List.append_nil, ← List.append_assoc]
  exact readLastPos_written (by omega)

theorem readHead_records (hroom : (records codec 0 (init ++ [last])).length < 2 ^ 63)
    (indexFile : List UInt8) :
    readHead codec { blockFile := records codec 0 (init ++ [last]), indexFile } = .ok last := by
  let log : LogFile B := { blockFile := records codec 0 (init ++ [last]), indexFile }
  have hread := readBlock_written (show log.blockFile = _ from records_split init [] last)
  rw [readHead, readLastPos_records hroom, ok_bind, hread]
  rfl

/-- A log of two blocks or more is indexed anew as it was. -/
theorem constructIndex_records (hroom : (records codec 0 (init ++ [last])).length < 2 ^ 63)
    (hinit : init ≠ []) (indexFile : List UInt8) (head : Option B) :
    constructIndex codec { blockFile := records codec 0 (init ++ [last]), indexFile, head } =
      .ok { blockFile := records codec 0 (init ++ [last]), indexFile := entries codec (init ++ [last]),
            head } := by
  have hlow := length_records codec 0 init
  have hlength := length_records codec 0 (init ++ [last])
  have hpositive := List.length_pos_of_ne_nil hinit
  have hless : (records codec 0 init).length < 2 ^ 63 := by
    rw [records_split, List.length_append] at hroom
    omega
  rw [List.length_append, List.length_singleton] at hlength
  rw [constructIndex]
  simp only [readLastPos_records hroom, ok_bind]
  rw [constructLoop_spec (Nat.zero_add _).symm (by omega) (by omega) hless]
  rfl

/-- The loop does not start for a log of one block. -/
theorem constructIndex_single (hroom : (records codec 0 [last]).length < 2 ^ 63)
    (indexFile : List UInt8) (head : Option B) :
    constructIndex codec { blockFile := records codec 0 [last], indexFile, head } =
      .ok { blockFile := records codec 0 [last], indexFile := [], head } := by
  have hlast : readLastPos (records codec 0 ([] ++ [last])) = .ok 0 := readLastPos_records hroom
  rw [List.nil_append] at hlast
  rw [constructIndex]
  simp only [hlast, ok_bind]
  rfl

theorem records_ne_nil (init : List B) (last : B) : records codec 0 (init ++ [last]) ≠ [] := by
  have hlow := length_records codec 0 (init ++ [last])
  intro hnil
  rw [hnil, List.length_append] at hlow
  simp at hlow

/-- A missing index, and one whose last position is not that of the log, is reconstructed. -/
theorem openFiles_rebuilt (hroom : (records codec 0 (init ++ [last])).length < 2 ^ 63)
    {index : List UInt8} (hindex : index = [] ∨
      ∃ p, readLastPos index = .ok p ∧ p ≠ (records codec 0 init).length) :
    openFiles codec (records codec 0 (init ++ [last])) index = constructIndex codec
      { blockFile := records codec 0 (init ++ [last]), indexFile := index, head := some last } := by
  rw [openFiles, if_neg (records_ne_nil init last)]
  simp only [readHead_records hroom, ok_bind]
  rcases hindex with rfl | ⟨p, hp, hdiffers⟩
  · rw [if_pos rfl]
  · have hindex : index ≠ [] := by
      rintro rfl
      simp [readLastPos, Outcome.ensure] at hp
    simp only [if_neg hindex, readLastPos_records hroom, hp, ok_bind, if_pos hdiffers.symm]

/-- An index whose last position is that of the log is left as it is. -/
theorem openFiles_kept (hroom : (records codec 0 (init ++ [last])).length < 2 ^ 63)
    {index : List UInt8} (hindex : readLastPos index = .ok (records codec 0 init).length) :
    openFiles codec (records codec 0 (init ++ [last])) index =
      .ok { blockFile := records codec 0 (init ++ [last]), indexFile := index, head := some last } := by
  have hindex' : index ≠ [] := by
    rintro rfl
    simp [readLastPos, Outcome.ensure] at hindex
  rw [openFiles, if_neg (records_ne_nil init last)]
  simp only [readHead_records hroom, ok_bind, if_neg hindex', readLastPos_records hroom, hindex]
  rw [if_neg (not_not.mpr rfl)]
  rfl

end Open

/-! ## The reopened log -/

/-- What a log of `blocks` gives: its head, every block by number, all blocks in their order,
and the `next` block can be appended. -/
structure Gives (codec : BlockCodec B) (log : LogFile B) (blocks : List B) (next : B) : Prop where
  head : log.head = blocks.getLast?
  byNum : ∀ i b, blocks[i]? = some b → log.readBlockByNum codec (i + 1) = .ok (some b)
  walk : log.readBlocks codec blocks.length 0 = .ok (blocks, log.blockFile.length)
  append : ∃ longer, log.append codec next = .ok longer

/-- Reading on from a block visits the blocks after it. -/
theorem readBlocks_records {log : LogFile B} (before after : List B)
    (hfile : log.blockFile = records codec 0 (before ++ after)) :
    log.readBlocks codec after.length (records codec 0 before).length =
      .ok (after, log.blockFile.length) := by
  induction after generalizing before with
  | nil => rw [hfile, List.append_nil, List.length_nil, readBlocks]
  | cons b rest ih =>
      have hread := readBlock_written (hfile.trans (records_split before rest b))
      have hsplit : before ++ b :: rest = (before ++ [b]) ++ rest := by simp
      have hrest := ih (before ++ [b]) (hsplit ▸ hfile)
      have hlength : (records codec 0 (before ++ [b])).length =
          (records codec 0 before).length + (codec.pack b).length + 8 := by
        rw [records_split, records]
        simp only [List.length_append, LittleEndian.length_encode, List.length_nil]
        omega
      rw [hlength] at hrest
      rw [List.length_cons, readBlocks, hread, ok_bind]
      simp only [hrest, ok_bind]
      rfl

/-- Every block is found by its number. -/
theorem readBlockByNum_holding {blocks : List B} (hnumbered : Numbered codec blocks)
    (hroom : (records codec 0 blocks).length < 2 ^ 63) {i : Nat} {b : B}
    (hb : blocks[i]? = some b) : (holding codec blocks).readBlockByNum codec (i + 1) =
      .ok (some b) := by
  obtain ⟨before, after, rfl, rfl⟩ : ∃ before after, blocks = before ++ b :: after ∧
      before.length = i := by
    obtain ⟨hi, rfl⟩ := List.getElem?_eq_some_iff.mp hb
    refine ⟨blocks.take i, blocks.drop (i + 1), ?_, by simp; omega⟩
    rw [List.cons_getElem_drop_succ, List.take_append_drop]
  obtain ⟨last, hlast⟩ : ∃ last, (before ++ b :: after).getLast? = some last :=
    ⟨_, List.getLast?_eq_getLast_of_ne_nil (by simp)⟩
  have hcount : before.length + 1 ≤ codec.blockNum last := by
    have hindex := hnumbered _ _ (List.getLast?_eq_getElem? ▸ hlast)
    rw [hindex, List.length_append, List.length_cons]
    omega
  have hpos : (records codec 0 before).length < 2 ^ 63 := by
    rw [records_split, List.length_append] at hroom
    omega
  have hentry : readPos (entries codec (before ++ b :: after)) (8 * before.length) =
      .ok (records codec 0 before).length := by
    have hlength : ((positions codec 0 before).flatMap (LittleEndian.encode 8)).length =
        8 * before.length := length_entries before
    rw [entries, positions_append, Nat.zero_add, positions, List.flatMap_append, List.flatMap_cons,
      ← List.append_assoc, ← hlength]
    exact readPos_written hpos
  have hnum : codec.blockNum b = before.length + 1 := hnumbered _ _ hb
  have hread := readBlock_written (show (holding codec (before ++ b :: after)).blockFile = _ from
    records_split before after b)
  have hgetPos : (holding codec (before ++ b :: after)).getBlockPos codec (before.length + 1) =
      .ok (some (records codec 0 before).length) := by
    simp only [getBlockPos, holding, hlast]
    rw [if_pos ⟨hcount, Nat.succ_pos _⟩, Nat.add_sub_cancel, hentry]
    rfl
  rw [readBlockByNum, hgetPos]
  simp only [ok_bind, hread, Outcome.ensure, hnum, if_true]
  rfl

theorem holding_gives {blocks : List B} {next : B} (hnumbered : Numbered codec (blocks ++ [next]))
    (hroom : (records codec 0 (blocks ++ [next])).length < 2 ^ 63) :
    Gives codec (holding codec blocks) blocks next where
  head := rfl
  byNum i b hb := by
    apply readBlockByNum_holding
    · intro j c hc
      apply hnumbered
      rw [List.getElem?_append_left (List.getElem?_eq_some_iff.mp hc).1, hc]
    · rw [records_append, List.length_append] at hroom
      omega
    · exact hb
  walk := readBlocks_records [] blocks rfl
  append := by
    have hnum : codec.blockNum next = blocks.length + 1 := by
      apply hnumbered
      rw [List.getElem?_append_right (Nat.le_refl _), Nat.sub_self]
      rfl
    refine ⟨_, (append_holding hnum).mpr ⟨?_, rfl⟩⟩
    rw [records_split] at hroom
    simpa [records] using hroom

/-- The index is as it was; or the log holds two blocks or more, and the index is missing or
ends with another position than the log. -/
def Reindexable (log : LogFile B) (blocks : List B) (index : List UInt8) : Prop :=
  index = log.indexFile ∨ (2 ≤ blocks.length ∧
    (index = [] ∨ ∃ p, readLastPos index = .ok p ∧ readLastPos log.blockFile ≠ .ok p))

/-- With an empty index no block is found. -/
theorem not_gives_unindexed {log : LogFile B} {b next : B} (hindex : log.indexFile = []) :
    ¬ Gives codec log [b] next := by
  intro h
  have hhead : log.head = some b := h.head
  have hread := h.byNum 0 b rfl
  simp only [readBlockByNum, getBlockPos, hhead, hindex] at hread
  split at hread
  · cases hread
  · cases hread

theorem readLastPos_entries {init : List B} {last : B}
    (hroom : (records codec 0 (init ++ [last])).length < 2 ^ 63) :
    readLastPos (entries codec (init ++ [last])) = .ok (records codec 0 init).length := by
  rw [records_split, List.length_append] at hroom
  rw [entries, positions_append, Nat.zero_add, positions, positions, List.flatMap_append,
    List.flatMap_singleton]
  exact readLastPos_written (by omega)

/-- An index of less than one position makes `open` throw. -/
theorem openFiles_short {init : List B} {last : B}
    (hroom : (records codec 0 (init ++ [last])).length < 2 ^ 63) {index : List UInt8}
    {message : String} (hindex : index ≠ []) (hshort : readLastPos index = .error message)
    {opened : LogFile B} : openFiles codec (records codec 0 (init ++ [last])) index ≠ .ok opened := by
  rw [openFiles, if_neg (records_ne_nil init last)]
  simp only [readHead_records hroom, ok_bind, if_neg hindex, readLastPos_records hroom, hshort,
    error_bind]
  exact fun h => nomatch h

/-- A log that has been written and is opened with an index that agrees with its own as far as
both go gives all its blocks, and takes the next one, exactly when it is reindexable. -/
theorem reopened_iff {blocks : List B} {next : B} (hblocks : blocks ≠ [])
    (hnumbered : Numbered codec (blocks ++ [next])) {log : LogFile B}
    (happend : appendAll codec {} blocks = .ok log)
    (hroom : log.blockFile.length + (codec.pack next).length + 8 < 2 ^ 63) {index : List UInt8}
    (hindex : index <+: log.indexFile ∨ log.indexFile <+: index) :
    (∃ opened, openFiles codec log.blockFile index = .ok opened ∧ Gives codec opened blocks next) ↔
      Reindexable log blocks index := by
  have hnumbered' : Numbered codec ([] ++ blocks) := by
    intro i b hb
    apply hnumbered
    rw [List.nil_append] at hb
    rw [List.getElem?_append_left (List.getElem?_eq_some_iff.mp hb).1, hb]
  obtain ⟨rfl, hroom'⟩ := appendAll_holding hnumbered' (Nat.two_pow_pos 63) happend
  rw [List.nil_append] at hroom' hindex hroom ⊢
  obtain ⟨init, last, rfl⟩ : ∃ init last, blocks = init ++ [last] :=
    ⟨_, _, (List.dropLast_append_getLast hblocks).symm⟩
  have hgives : Gives codec (holding codec (init ++ [last])) (init ++ [last]) next := by
    apply holding_gives hnumbered
    rw [records_split]
    simp only [records, List.length_append, LittleEndian.length_encode, List.length_nil]
    simp only [holding] at hroom
    omega
  have hlast := readLastPos_records hroom'
  have hhead : (holding codec (init ++ [last])).head = some last := List.getLast?_concat
  have hrebuilt : (index = [] ∨ ∃ p, readLastPos index = .ok p ∧
      p ≠ (records codec 0 init).length) →
      ((∃ opened, openFiles codec (holding codec (init ++ [last])).blockFile index = .ok opened ∧
        Gives codec opened (init ++ [last]) next) ↔ 2 ≤ (init ++ [last]).length) := by
    intro hdamaged
    have hopen := openFiles_rebuilt hroom' hdamaged
    by_cases hinit : init = []
    · -- a single block: the loop of the reconstruction does not start
      subst hinit
      rw [List.nil_append] at hopen hroom' ⊢
      rw [constructIndex_single hroom'] at hopen
      constructor
      · rintro ⟨opened, hopened, hopenedGives⟩
        rw [holding, hopen] at hopened
        cases hopened
        exact absurd hopenedGives (not_gives_unindexed rfl)
      · intro htwo
        simp at htwo
    · rw [constructIndex_records hroom' hinit] at hopen
      have hsame : (holding codec (init ++ [last])) = { blockFile := records codec 0 (init ++ [last])
                                                        indexFile := entries codec (init ++ [last])
                                                        head := some last } := by
        rw [← hhead]
        rfl
      constructor
      · intro _
        have hpositive := List.length_pos_of_ne_nil hinit
        rw [List.length_append, List.length_singleton]
        omega
      · intro _
        exact ⟨_, hopen, hsame ▸ hgives⟩
  by_cases hdamaged : index = [] ∨
      ∃ p, readLastPos index = .ok p ∧ p ≠ (records codec 0 init).length
  · rw [hrebuilt hdamaged]
    constructor
    · intro htwo
      refine Or.inr ⟨htwo, hdamaged.imp_right ?_⟩
      rintro ⟨p, hp, hdiffers⟩
      refine ⟨p, hp, ?_⟩
      rw [holding, hlast, ne_eq, Except.ok.injEq]
      exact hdiffers.symm
    · rintro (rfl | ⟨htwo, -⟩)
      · -- the index as it was is not damaged
        have hentries : readLastPos (holding codec (init ++ [last])).indexFile =
            .ok (records codec 0 init).length := readLastPos_entries hroom'
        rcases hdamaged with hnil | ⟨p, hp, hdiffers⟩
        · rw [hnil] at hentries
          cases hentries
        · exact absurd (Except.ok.inj (hp.symm.trans hentries)) hdiffers
      · exact htwo
  · rw [not_or] at hdamaged
    obtain ⟨hindexNil, hsameLast⟩ := hdamaged
    have hother : Reindexable (holding codec (init ++ [last])) (init ++ [last]) index →
        index = entries codec (init ++ [last]) := by
      rintro (hsame | ⟨-, hnil | ⟨p, hp, hdiffers⟩⟩)
      · exact hsame
      · exact absurd hnil hindexNil
      · refine absurd ⟨p, hp, ?_⟩ hsameLast
        rintro rfl
        exact hdiffers hlast
    cases hread : readLastPos index with
    | error message =>
        constructor
        · rintro ⟨opened, hopened, -⟩
          exact absurd hopened (openFiles_short hroom' hindexNil hread)
        · intro hreindexable
          have hentries := readLastPos_entries hroom'
          rw [← hother hreindexable, hread] at hentries
          cases hentries
    | ok p =>
        have hp : p = (records codec 0 init).length := by
          by_contra hdiffers
          exact hsameLast ⟨p, hread, hdiffers⟩
        subst hp
        have hopen := openFiles_kept hroom' hread
        constructor
        · rintro ⟨opened, hopened, hopenedGives⟩
          rw [holding, hopen] at hopened
          cases hopened
          -- the next block fits behind an index of the right length only
          left
          obtain ⟨longer, hlonger⟩ := hopenedGives.append
          obtain ⟨_, hlength, -⟩ := bind_eq_ok.mp hlonger
          have hnum : codec.blockNum next = (init ++ [last]).length + 1 := by
            apply hnumbered
            rw [List.getElem?_append_right (Nat.le_refl _), Nat.sub_self]
            rfl
          have hlt := codec.blockNum_lt next
          have hsize : index.length = (entries codec (init ++ [last])).length := by
            rw [Outcome.ensure_eq_ok.mp hlength, length_entries]
            omega
          rcases hindex with hle | hle
          · exact hle.eq_of_length hsize
          · exact (hle.eq_of_length hsize.symm).symm
        · intro hreindexable
          refine ⟨_, hopen, ?_⟩
          have hsame : holding codec (init ++ [last]) =
              { blockFile := records codec 0 (init ++ [last]), indexFile := index,
                head := some last } := by
            rw [hother hreindexable, ← hhead]
            rfl
          exact hsame ▸ hgives

end LogFile

/-! ### A log of one block -/

namespace Sample

/-- Blocks that are a byte, which is their number. -/
def byteCodec : BlockCodec UInt8 where
  pack b := [b]
  unpack
    | [] => none
    | b :: rest => some (b, rest)
  unpack_pack _ _ := rfl
  blockNum b := b.toNat
  blockNum_lt b := Nat.lt_trans b.toNat_lt (by decide)

/-- The log file and the index file of the blocks 1 and 2. -/
def oneRecord : List UInt8 := [1, 0, 0, 0, 0, 0, 0, 0, 0]
def twoRecords : List UInt8 := oneRecord ++ [2, 9, 0, 0, 0, 0, 0, 0, 0]
def oneEntry : List UInt8 := [0, 0, 0, 0, 0, 0, 0, 0]
def twoEntries : List UInt8 := oneEntry ++ [9, 0, 0, 0, 0, 0, 0, 0]

/-- The index of one block is not written when it is reconstructed, so the block is not found
and the next one is refused. -/
theorem single_block_unindexed : ∃ opened,
    LogFile.appendAll byteCodec {} [1] = .ok ⟨oneRecord, oneEntry, some 1⟩ ∧
      LogFile.openFiles byteCodec oneRecord [] = .ok opened ∧
      opened.head = some 1 ∧ opened.indexFile = [] ∧
      opened.readBlockByNum byteCodec 1 = .error "basic_ios::clear: iostream error" ∧
      opened.append byteCodec 2 = .error "Append to index file occuring at wrong position." := by
  refine ⟨⟨oneRecord, [], some 1⟩, ?_, rfl, rfl, rfl, rfl, ?_⟩
  · apply eq_ok_of_toOption
    decide +kernel
  · rw [LogFile.append, Outcome.ensure, if_neg (by decide)]
    rfl

/-- Two blocks, with the index of the first alone, are all found again. -/
theorem two_blocks_reindexed : ∃ opened,
    LogFile.appendAll byteCodec {} [1, 2] = .ok ⟨twoRecords, twoEntries, some 2⟩ ∧
      LogFile.openFiles byteCodec twoRecords oneEntry = .ok opened ∧
      LogFile.Gives byteCodec opened [1, 2] 3 := by
  have happend : LogFile.appendAll byteCodec {} [1, 2] = .ok ⟨twoRecords, twoEntries, some 2⟩ := by
    apply eq_ok_of_toOption
    decide +kernel
  have hnumbered : LogFile.Numbered byteCodec ([1, 2] ++ [3]) := by
    intro i b hb
    match i, hb with
    | 0, rfl => rfl
    | 1, rfl => rfl
    | 2, rfl => rfl
  have hdiffers : LogFile.readLastPos twoRecords ≠ .ok 0 := by
    intro h
    cases h
  obtain ⟨opened, hopened, hgives⟩ := (LogFile.reopened_iff (by decide) hnumbered happend
    (by decide) (Or.inl (List.prefix_append _ _))).mpr
      (Or.inr ⟨by decide, Or.inr ⟨0, rfl, hdiffers⟩⟩)
  exact ⟨opened, happend, hopened, hgives⟩

end Sample

end Blurt
