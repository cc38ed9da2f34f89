import MemServe.Store

/-!
Inclusion proofs, assembled from the store and checked by folding.
-/

namespace MemServe

/-- A served inclusion proof. -/
structure Proof where
  leaf : Hash
  l1 : List Commitment.PathElem
  subtreeRoot : Hash
  l2 : List Commitment.PathElem
  blockRoot : Hash
  blockHash : Hash
  height : UInt32
  header : Header
  deriving DecidableEq

namespace Proof

inductive Error
  | notMined
  | inconsistent
  | commitment (e : Commitment.Error)
  | store (e : StoreError)
  deriving DecidableEq

abbrev BuildM (σ α : Type) : Type := ExceptT Error (StateM σ) α

/-- A store call, its error passed on. -/
def call {σ α : Type} (m : StoreM σ α) : BuildM σ α := fun s =>
  match m s with
  | (.error e, s') => ((.error (.store e), s') : _ × σ)
  | (.ok a, s') => ((.ok a, s') : _ × σ)

def ofCommitment {σ α : Type} (r : Except Commitment.Error α) : BuildM σ α :=
  match r with
  | .error e => throw (.commitment e)
  | .ok a => pure a

/-- The proof of the leaf at the indices `ix` of a block and of the leaves of its subtree. -/
def assemble (txid : Hash) (ix : TxIndex) (blk : BlockRec) (subtreeRoot : Hash)
    (leaves : List Hash) :
    Except Commitment.Error Proof := do
  let (_, subLayers) ← Commitment.buildMerkleTree leaves
  let l1 ← Commitment.merklePath subLayers ix.leafIndex.toNat
  let (_, blkLayers) ← Commitment.buildMerkleTree blk.subtreeRoots
  let l2 ← Commitment.merklePath blkLayers ix.subtreeIndex.toNat
  return ⟨txid, l1, subtreeRoot, l2, blk.merkleRoot, blk.hash, ix.height, blk.header⟩

/-- Assembles the proof of `txid` with three lookups: its index entry, block and subtree. -/
def build {σ : Type} [Store σ] (txid : Hash) : BuildM σ Proof := do
  let some ix ← call (Store.getTxIndex txid) | throw .notMined
  if !ix.mined then throw .notMined
  else
    let some blk ← call (Store.getBlock ix.blockHash) | throw .inconsistent
    let some subtreeRoot := blk.subtreeRoots[ix.subtreeIndex.toNat]? | throw .inconsistent
    let some leaves ← call (Store.getSubtree subtreeRoot) | throw .inconsistent
    if leaves.length ≤ ix.leafIndex.toNat then throw .inconsistent
    else ofCommitment (assemble txid ix blk subtreeRoot leaves)

def verify (p : Proof) : Bool :=
  (Commitment.verifyToBlockRoot p.leaf [] p.l1 p.l2 p.blockRoot).1

def headerMerkleRoot (hdr : Header) : Hash := hdr.slice 36 32 (by omega)

lemma verify_iff {p : Proof} :
    p.verify = true ↔ p.l1.length + p.l2.length ≤ Commitment.maxDepth ∧ p.l1.length ≤ 20 ∧
      Commitment.fold (Commitment.fold p.leaf p.l1) p.l2 = p.blockRoot := by
  unfold verify Commitment.verifyToBlockRoot
  simp only [List.length_nil, Nat.zero_add]
  split_ifs with h
  · simp only [false_iff]
    omega
  · rw [Commitment.fold_nil]
    simp only [decide_eq_true_iff]
    constructor
    · intro hroot
      exact ⟨by omega, by omega, hroot⟩
    · exact fun hall => hall.2.2

/-- **A proof can be assembled** for every leaf of a subtree whose root the block commits to, and it
verifies. -/
lemma assemble_complete {t root : Hash} {ix : TxIndex} {blk : BlockRec} {leaves : List Hash}
    (hleaf : leaves[ix.leafIndex.toNat]? = some t) (hroot : Commitment.merkleRoot leaves = .ok root)
    (hsub : blk.subtreeRoots[ix.subtreeIndex.toNat]? = some root)
    (hblk : Commitment.merkleRoot blk.subtreeRoots = .ok blk.merkleRoot)
    (hleaves : leaves.length ≤ 2 ^ 20) (hroots : blk.subtreeRoots.length ≤ 2 ^ 32) :
    ∃ p, assemble t ix blk root leaves = .ok p ∧ p.leaf = t ∧ p.verify = true ∧
      p.blockRoot = blk.merkleRoot ∧
      p.header = blk.header := by
  obtain ⟨l1, hl1, hlen1, hfold1⟩ := Commitment.merklePath_complete hleaf hroot
  obtain ⟨l2, hl2, hlen2, hfold2⟩ := Commitment.merklePath_complete hsub hblk
  have h1 : l1.length ≤ 20 := by
    rw [hlen1]
    exact Nat.clog_le_of_le_pow hleaves
  have h2 : l2.length ≤ 32 := by
    rw [hlen2]
    exact Nat.clog_le_of_le_pow hroots
  refine ⟨⟨t, l1, root, l2, blk.merkleRoot, blk.hash, ix.height, blk.header⟩, ?_, rfl, ?_, rfl, rfl⟩
  · unfold assemble
    rw [Commitment.buildMerkleTree_layers hroot, Commitment.buildMerkleTree_layers hblk]
    simp only [bind, Except.bind, hl1, hl2]
    rfl
  · have hmax : Commitment.maxDepth = 255 := rfl
    exact verify_iff.mpr ⟨by simp only; omega, h1, by rw [hfold1, hfold2]⟩

end Proof

end MemServe
