import Blurt.Client.BlurtJsOperations
import Blurt.Foundation.HashTree

/-! # The Merkle root of a block

`signed_block::calculate_merkle_root` overwrites its digests level by level. What it leaves is the
digest of a tree whose leaves are the transactions, and the root binds that tree.
-/

namespace Blurt

open Wire

/-- `signed_transaction` with all that is packed of it. -/
structure WireTransaction where
  refBlockNum : Nat
  refBlockPrefix : Nat
  expiration : Nat
  operations : List Client.WireOperation
  extensions : List Nat
  /-- `compact_signature`: 65 bytes. -/
  signatures : List Bytes

/-- `fc::raw::pack( trx )` -/
def WireTransaction.pack (lib : Client.Libraries) (trx : WireTransaction) : Bytes :=
  (Client.Value.uint16 trx.refBlockNum).bytes ++ (Client.Value.uint32 trx.refBlockPrefix).bytes ++
    (Client.Value.time trx.expiration).bytes ++
    (Client.Value.unsignedInt trx.operations.length ++ trx.operations.flatMap (·.pack lib)) ++
    (Client.Value.futureExtensions trx.extensions).bytes ++
    (Client.Value.unsignedInt trx.signatures.length ++ trx.signatures.flatten)

namespace MerkleRoot

/-- `digest_type`, the result of `sha256`. -/
abbrev Digest := { bytes : Bytes // bytes.length = 32 }

/-- `checksum_type`, the result of `ripemd160`. -/
abbrev Checksum := { bytes : Bytes // bytes.length = 20 }

/-- `digest_type()` -/
def zeroDigest : Digest := ⟨List.replicate 32 0, rfl⟩

/-- `checksum_type()` -/
def zeroChecksum : Checksum := ⟨List.replicate 20 0, rfl⟩

/-- `std::make_pair` of digests, packed. -/
def makePair (a b : Digest) : Bytes := a.1 ++ b.1

section

variable (lib : Client.Libraries) (sha256 : Bytes → Digest) (ripemd160 : Bytes → Checksum)

/-- `merkle_digest` -/
def merkleDigest (trx : WireTransaction) : Digest := sha256 (trx.pack lib)

/-- The loop over the pairs of a level, which writes behind where it reads. -/
def hashPairs (iMax : Nat) (ids : List Digest) (i k : Nat) : List Digest × Nat :=
  if i < iMax then
    hashPairs iMax
      (ids.set k (sha256 (makePair (ids.getD i zeroDigest) (ids.getD (i + 1) zeroDigest))))
      (i + 2) (k + 1)
  else
    (ids, k)
termination_by iMax - i

/-- One level: the pairs, and the last digest of an odd number as it is. -/
def hashLevel (ids : List Digest) (currentNumberOfHashes : Nat) : List Digest × Nat :=
  let iMax := currentNumberOfHashes - currentNumberOfHashes % 2
  let (ids, k) := hashPairs sha256 iMax ids 0 0
  if currentNumberOfHashes % 2 = 1 then
    (ids.set k (ids.getD iMax zeroDigest), k + 1)
  else
    (ids, k)

theorem hashPairs_snd (iMax : Nat) (ids : List Digest) (i k : Nat) :
    (hashPairs sha256 iMax ids i k).2 = k + (iMax - i + 1) / 2 := by
  induction ids, i, k using hashPairs.induct sha256 iMax with
  | case1 ids i k hlt ih =>
      rw [hashPairs, if_pos hlt, ih]
      omega
  | case2 ids i k hge =>
      rw [hashPairs, if_neg hge]
      dsimp only
      omega

theorem hashLevel_snd (ids : List Digest) (current : Nat) :
    (hashLevel sha256 ids current).2 = (current + 1) / 2 := by
  have hpairs := hashPairs_snd sha256 (current - current % 2) ids 0 0
  unfold hashLevel
  dsimp only
  split
  · dsimp only
    omega
  · omega

/-- The loop over the levels. -/
def hashLevels (ids : List Digest) (currentNumberOfHashes : Nat) : List Digest :=
  if 1 < currentNumberOfHashes then
    hashLevels (hashLevel sha256 ids currentNumberOfHashes).1
      (hashLevel sha256 ids currentNumberOfHashes).2
  else
    ids
termination_by currentNumberOfHashes
decreasing_by
  rw [hashLevel_snd]
  omega

/-- `calculate_merkle_root` of the transactions of a block. The 32-bit counters of the source are
numbers here: for more transactions than they count it does not return. -/
def calculateMerkleRoot (transactions : List WireTransaction) : Checksum :=
  if transactions.length = 0 then
    zeroChecksum
  else
    let ids := transactions.map (merkleDigest lib sha256)
    ripemd160 ((hashLevels sha256 ids ids.length).getD 0 zeroDigest).1

/-! ## The tree that is hashed -/

/-- The tree over the transactions, in which every digest that is computed is one of a subtree. -/
def merkleTree (transactions : List WireTransaction) : Option (HashTree Bytes) :=
  HashTree.combine (transactions.map fun trx => .leaf (trx.pack lib))

/-- One turn writes the digest of a pair behind the digests that are done and leaves one more
digest that nothing reads. -/
theorem hashPairs_turn {iMax : Nat} (done gap rest : List Digest) (a b : Digest)
    (hturn : done.length + gap.length < iMax) :
    ∃ gap' : List Digest, gap'.length = gap.length + 1 ∧
      hashPairs sha256 iMax (done ++ (gap ++ a :: b :: rest)) (done.length + gap.length) done.length =
        hashPairs sha256 iMax ((done ++ [sha256 (makePair a b)]) ++ (gap' ++ rest))
          ((done ++ [sha256 (makePair a b)]).length + gap'.length)
          (done ++ [sha256 (makePair a b)]).length := by
  have hget : ∀ ids : List Digest, (ids ++ a :: b :: rest).getD ids.length zeroDigest = a ∧
      (ids ++ a :: b :: rest).getD (ids.length + 1) zeroDigest = b := fun ids => by
    simp [List.getD_eq_getElem?_getD]
  obtain ⟨hleft, hright⟩ := hget (done ++ gap)
  rw [List.append_assoc, List.length_append] at hleft hright
  rw [hashPairs, if_pos hturn, hleft, hright]
  obtain ⟨first, gap', hgap⟩ : ∃ first gap', gap ++ [a, b] = first :: gap' := by
    cases gap with
    | nil => exact ⟨_, _, rfl⟩
    | cons first gap => exact ⟨first, gap ++ [a, b], rfl⟩
  have hlength : gap'.length = gap.length + 1 := by
    have hcons := congrArg List.length hgap
    simp only [List.length_append, List.length_cons, List.length_nil] at hcons
    omega
  have hids : gap ++ a :: b :: rest = first :: (gap' ++ rest) := by
    rw [← List.cons_append, ← hgap, List.append_assoc]
    rfl
  refine ⟨gap', hlength, ?_⟩
  rw [hids, List.set_append_right _ _ (Nat.le_refl _), Nat.sub_self, List.set_cons_zero,
    List.length_append, List.length_singleton, hlength, List.append_assoc, List.singleton_append]
  congr 1
  omega

/-- The pairs of a level are overwritten by the digests of the joined trees. -/
theorem hashPairs_fst {iMax : Nat} (done gap : List Digest) (todo : List (HashTree Bytes))
    (rest : List Digest) (heven : todo.length % 2 = 0)
    (hiMax : iMax = done.length + gap.length + todo.length) :
    ∃ gap' : List Digest, (hashPairs sha256 iMax
        (done ++ (gap ++ (todo.map (HashTree.digest sha256 makePair) ++ rest)))
        (done.length + gap.length) done.length).1 =
      done ++ ((HashTree.joinPairs todo).map (HashTree.digest sha256 makePair) ++
        (gap' ++ rest)) ∧ gap'.length = gap.length + todo.length / 2 := by
  induction todo using HashTree.joinPairs.induct generalizing done gap with
  | case1 =>
      rw [hashPairs, if_neg (by simp [hiMax])]
      exact ⟨gap, rfl, by simp⟩
  | case2 last => simp at heven
  | case3 left right todo ih =>
      simp only [List.length_cons] at heven hiMax
      obtain ⟨gap', hgap', hturn⟩ := hashPairs_turn sha256 done gap
        (todo.map (HashTree.digest sha256 makePair) ++ rest) (left.digest sha256 makePair)
        (right.digest sha256 makePair) (by omega : _ < iMax)
      obtain ⟨gap'', hrun, hgap''⟩ := ih
        (done ++ [sha256 (makePair (left.digest sha256 makePair) (right.digest sha256 makePair))])
        gap' (by omega) (by rw [List.length_append, List.length_singleton]; omega)
      refine ⟨gap'', ?_, by simp only [List.length_cons]; omega⟩
      rw [List.map_cons, List.map_cons, List.cons_append, List.cons_append, hturn, hrun,
        List.append_assoc]
      rfl

/-- A level leaves the digests of the joined trees. -/
theorem hashLevel_fst (trees : List (HashTree Bytes)) (rest : List Digest) :
    ∃ rest' : List Digest, (hashLevel sha256
        (trees.map (HashTree.digest sha256 makePair) ++ rest) trees.length).1 =
      (HashTree.joinPairs trees).map (HashTree.digest sha256 makePair) ++ rest' := by
  unfold hashLevel
  dsimp only
  rcases Nat.mod_two_eq_zero_or_one trees.length with heven | hodd
  · obtain ⟨gap, hrun, -⟩ := hashPairs_fst sha256 [] [] trees rest heven
      (by simp : trees.length = _)
    rw [if_neg (by omega), heven, Nat.sub_zero]
    exact ⟨gap ++ rest, hrun⟩
  · obtain ⟨first, last, rfl⟩ : ∃ first last, trees = first ++ [last] := by
      rcases List.eq_nil_or_concat' trees with rfl | hconcat
      · simp at hodd
      · exact hconcat
    rw [List.length_append, List.length_singleton] at hodd ⊢
    have hfirst : first.length % 2 = 0 := by omega
    obtain ⟨gap, hrun, hgap⟩ := hashPairs_fst sha256 [] [] first
      (last.digest sha256 makePair :: rest) hfirst (by simp : first.length = _)
    have hjoined : ((HashTree.joinPairs first).map (HashTree.digest sha256 makePair)).length =
        first.length / 2 := by
      rw [List.length_map, HashTree.length_joinPairs]
      omega
    obtain ⟨head, gap', hhead⟩ : ∃ head gap', gap ++ last.digest sha256 makePair :: rest =
        head :: gap' := by
      cases gap with
      | nil => exact ⟨_, _, rfl⟩
      | cons head gap => exact ⟨head, _, rfl⟩
    have hids : (first ++ [last]).map (HashTree.digest sha256 makePair) ++ rest =
        first.map (HashTree.digest sha256 makePair) ++ (last.digest sha256 makePair :: rest) := by
      simp
    have hcount : first.length + 1 - (first.length + 1) % 2 = first.length := by omega
    simp only [List.nil_append, List.length_nil, Nat.add_zero] at hrun hgap
    have hlast : ((HashTree.joinPairs first).map (HashTree.digest sha256 makePair) ++
        (gap ++ last.digest sha256 makePair :: rest)).getD first.length zeroDigest =
          last.digest sha256 makePair := by
      have hlength : first.length =
          ((HashTree.joinPairs first).map (HashTree.digest sha256 makePair) ++ gap).length := by
        rw [List.length_append, hjoined, hgap]
        omega
      rw [← List.append_assoc, hlength]
      simp [List.getD_eq_getElem?_getD]
    have hk : 0 + (first.length - 0 + 1) / 2 =
        ((HashTree.joinPairs first).map (HashTree.digest sha256 makePair)).length := by
      rw [hjoined]
      omega
    refine ⟨gap', ?_⟩
    rw [if_pos hodd, hcount, hids, hashPairs_snd, hrun, hlast, hhead, hk]
    dsimp only
    rw [List.set_append_right _ _ (Nat.le_refl _), Nat.sub_self, List.set_cons_zero,
      HashTree.joinPairs_append hfirst, List.map_append, List.append_assoc]
    rfl

/-- What the levels leave in front is the digest of the combined tree. -/
theorem hashLevels_eq {trees : List (HashTree Bytes)} {tree : HashTree Bytes}
    (htree : HashTree.combine trees = some tree) (rest : List Digest) :
    (hashLevels sha256 (trees.map (HashTree.digest sha256 makePair) ++ rest) trees.length).getD 0
      zeroDigest = tree.digest sha256 makePair := by
  induction trees using HashTree.combine.induct generalizing rest with
  | case1 trees hshort =>
      rw [HashTree.combine, if_pos hshort] at htree
      rw [hashLevels, if_neg (by omega)]
      cases trees with
      | nil => cases htree
      | cons first trees =>
          cases htree
          rfl
  | case2 trees hlong ih =>
      rw [HashTree.combine, if_neg hlong] at htree
      obtain ⟨rest', hlevel⟩ := hashLevel_fst sha256 trees rest
      rw [hashLevels, if_pos (by omega), hlevel, hashLevel_snd, ← HashTree.length_joinPairs]
      exact ih htree rest'

/-- The root of transactions is the checksum of the digest of their tree. -/
theorem calculateMerkleRoot_eq {transactions : List WireTransaction} {tree : HashTree Bytes}
    (htree : merkleTree lib transactions = some tree) :
    calculateMerkleRoot lib sha256 ripemd160 transactions =
      ripemd160 (tree.digest sha256 makePair).1 := by
  have hpositive : transactions.length ≠ 0 := by
    rintro hempty
    rw [List.length_eq_zero_iff] at hempty
    rw [merkleTree, hempty, List.map_nil, HashTree.combine, if_pos (by simp)] at htree
    cases htree
  have hleaves : (transactions.map fun trx => HashTree.leaf (trx.pack lib)).map
      (HashTree.digest sha256 makePair) = transactions.map (merkleDigest lib sha256) := by
    rw [List.map_map]
    rfl
  have hlevels := hashLevels_eq sha256 htree []
  rw [hleaves, List.append_nil, List.length_map] at hlevels
  rw [calculateMerkleRoot, if_neg hpositive]
  dsimp only
  rw [List.length_map, hlevels]

/-! ## What the root binds -/

/-- The messages of which the root of transactions takes the `sha256`. -/
def sha256Inputs (transactions : List WireTransaction) : Set Bytes :=
  { message | ∃ tree ∈ merkleTree lib transactions, message ∈ tree.messages sha256 makePair }

/-- The message of which the root of transactions is the `ripemd160`. -/
def ripemd160Inputs (transactions : List WireTransaction) : Set Bytes :=
  { message | ∃ tree ∈ merkleTree lib transactions, message = (tree.digest sha256 makePair).1 }

theorem makePair_inj (a b c d : Digest) (h : makePair a b = makePair c d) : a = c ∧ b = d := by
  obtain ⟨hfirst, hsecond⟩ := List.append_inj h (a.2.trans c.2.symm)
  exact ⟨Subtype.ext hfirst, Subtype.ext hsecond⟩

theorem exists_merkleTree {transactions : List WireTransaction}
    (h : calculateMerkleRoot lib sha256 ripemd160 transactions ≠ zeroChecksum) :
    ∃ tree, merkleTree lib transactions = some tree ∧
      tree.leaves = transactions.map (·.pack lib) := by
  have hnonempty : transactions.map (fun trx => HashTree.leaf (trx.pack lib)) ≠ [] := by
    intro hempty
    rw [List.map_eq_nil_iff] at hempty
    exact h (by rw [calculateMerkleRoot, if_pos (by rw [hempty]; rfl)])
  obtain ⟨tree, htree⟩ := HashTree.exists_combine hnonempty
  refine ⟨tree, htree, ?_⟩
  rw [HashTree.leaves_combine htree, List.flatMap_map]
  exact List.map_eq_flatMap.symm

/-- Blocks of one root have the same transactions in the same order, if the hashes that are taken
do not collide and no transaction is packed as a pair of digests. -/
theorem merkleDigests_eq (as bs : List WireTransaction)
    (hsha : Set.InjOn sha256 (sha256Inputs lib sha256 as ∪ sha256Inputs lib sha256 bs))
    (hripemd : Set.InjOn ripemd160 (ripemd160Inputs lib sha256 as ∪ ripemd160Inputs lib sha256 bs))
    (hpair : ∀ trx ∈ as ++ bs, ∀ a b, trx.pack lib ≠ makePair a b)
    (hroot : calculateMerkleRoot lib sha256 ripemd160 as =
      calculateMerkleRoot lib sha256 ripemd160 bs)
    (hnonzero : calculateMerkleRoot lib sha256 ripemd160 as ≠ zeroChecksum) :
    as.map (merkleDigest lib sha256) = bs.map (merkleDigest lib sha256) := by
  obtain ⟨s, hs, hsLeaves⟩ := exists_merkleTree lib sha256 ripemd160 hnonzero
  obtain ⟨t, ht, htLeaves⟩ := exists_merkleTree lib sha256 ripemd160 (hroot ▸ hnonzero)
  rw [calculateMerkleRoot_eq lib sha256 ripemd160 hs,
    calculateMerkleRoot_eq lib sha256 ripemd160 ht] at hroot
  have hdigest : s.digest sha256 makePair = t.digest sha256 makePair :=
    Subtype.ext (hripemd (.inl ⟨s, hs, rfl⟩) (.inr ⟨t, ht, rfl⟩) hroot)
  have hleaf : ∀ txs : List WireTransaction, (∀ trx ∈ txs, trx ∈ as ++ bs) →
      ∀ m ∈ txs.map (·.pack lib), ∀ a b, m ≠ makePair a b := by
    intro txs hsub m hm a b
    obtain ⟨trx, htrx, rfl⟩ := List.mem_map.mp hm
    exact hpair trx (hsub trx htrx) a b
  have htrees : s = t := HashTree.eq_of_digest_eq makePair_inj
    (hsLeaves ▸ hleaf as fun _ h => List.mem_append_left _ h)
    (htLeaves ▸ hleaf bs fun _ h => List.mem_append_right _ h)
    (fun x hx y hy => hsha (.inl ⟨s, hs, hx⟩) (.inr ⟨t, ht, hy⟩)) hdigest
  have hpacks : as.map (·.pack lib) = bs.map (·.pack lib) := by
    rw [← hsLeaves, ← htLeaves, htrees]
  have hdigests := congrArg (List.map sha256) hpacks
  rwa [List.map_map, List.map_map] at hdigests

end

end MerkleRoot

namespace Sample

open MerkleRoot

/-- A vote that is signed once. -/
def voteTrx (refBlockNum : Nat) : WireTransaction where
  refBlockNum
  refBlockPrefix := 12
  expiration := 1600000000
  operations :=
    [{ operation := .vote { voter := "alice", author := "bob", permlink := "post", weight := 10000 } }]
  extensions := []
  signatures := [List.replicate 65 31]

def firstDigest : Digest :=
  ⟨[151, 28, 127, 172, 94, 174, 155, 105, 101, 153, 154, 17, 69, 43, 131, 53, 113, 101, 88, 75, 135,
    195, 214, 188, 2, 88, 140, 43, 106, 70, 47, 11], rfl⟩

def secondDigest : Digest :=
  ⟨[111, 0, 219, 140, 196, 159, 164, 41, 111, 88, 197, 61, 109, 111, 244, 52, 184, 235, 244, 37, 165,
    150, 80, 58, 238, 91, 161, 169, 146, 158, 190, 171], rfl⟩

def pairDigest : Digest :=
  ⟨[109, 0, 189, 127, 244, 87, 70, 248, 227, 10, 223, 233, 67, 108, 228, 138, 176, 24, 35, 201, 62, 87,
    145, 15, 2, 155, 76, 175, 10, 109, 162, 43], rfl⟩

/-- The digests of two votes and of their pair. -/
def voteSha256 (message : Bytes) : Digest :=
  if message = (voteTrx 1).pack libraries then firstDigest
  else if message = (voteTrx 2).pack libraries then secondDigest
  else pairDigest

/-- The checksum of the digest of the pair. -/
def voteRipemd160 (_ : Bytes) : MerkleRoot.Checksum :=
  ⟨[183, 33, 34, 189, 195, 248, 17, 78, 115, 12, 9, 240, 38, 207, 195, 160, 57, 1, 88, 148], rfl⟩

theorem voteTrx_tree : merkleTree libraries [voteTrx 1, voteTrx 2] =
    some (.node (.leaf ((voteTrx 1).pack libraries)) (.leaf ((voteTrx 2).pack libraries))) := by
  simp [merkleTree, HashTree.combine, HashTree.joinPairs]

theorem voteSha256_injOn : Set.InjOn voteSha256
    (sha256Inputs libraries voteSha256 [voteTrx 1, voteTrx 2]) := by
  have hfirst : voteSha256 ((voteTrx 1).pack libraries) = firstDigest := if_pos rfl
  have hsecond : voteSha256 ((voteTrx 2).pack libraries) = secondDigest := by decide +kernel
  have hpair : voteSha256 (makePair firstDigest secondDigest) = pairDigest := by decide +kernel
  have hmem : ∀ m ∈ sha256Inputs libraries voteSha256 [voteTrx 1, voteTrx 2],
      m = makePair firstDigest secondDigest ∨ m = (voteTrx 1).pack libraries ∨
        m = (voteTrx 2).pack libraries := by
    rintro m ⟨tree, htree, hm⟩
    rw [voteTrx_tree, Option.mem_some_iff] at htree
    subst htree
    simpa [HashTree.messages, HashTree.digest, hfirst, hsecond] using hm
  intro x hx y hy h
  rcases hmem x hx with rfl | rfl | rfl <;> rcases hmem y hy with rfl | rfl | rfl <;>
    first
    | rfl
    | (simp only [hfirst, hsecond, hpair] at h
       exact absurd h (by decide +kernel))

/-- The root of two votes binds them. -/
theorem voteTrx_digests : ([voteTrx 1, voteTrx 2].map (merkleDigest libraries voteSha256)) =
    [voteTrx 1, voteTrx 2].map (merkleDigest libraries voteSha256) :=
  merkleDigests_eq libraries voteSha256 voteRipemd160 [voteTrx 1, voteTrx 2] [voteTrx 1, voteTrx 2]
    ((Set.union_self _).symm ▸ voteSha256_injOn)
    (by
      rw [Set.union_self]
      rintro x ⟨s, hs, rfl⟩ y ⟨t, ht, rfl⟩ -
      rw [Option.mem_unique hs ht])
    (by
      intro trx htrx a b hpack
      have hlength := congrArg List.length hpack
      rw [makePair, List.length_append, a.2, b.2] at hlength
      have hlong : ∀ trx ∈ [voteTrx 1, voteTrx 2] ++ [voteTrx 1, voteTrx 2],
          (trx.pack libraries).length ≠ 64 := by decide +kernel
      exact hlong trx htrx hlength)
    rfl
    (by
      rw [calculateMerkleRoot, if_neg (by decide)]
      exact fun h => absurd (congrArg Subtype.val h) (by decide))

end Sample

end Blurt
