import MemServe.Sha256Eval
import MemServe.Store

/-!
What is ingested: sealed blocks, the subtrees they are made of and the transactions in them.
-/

namespace MemServe.Teranode

structure TxOut where
  value : UInt64
  scriptHash : Hash
  deriving DecidableEq

structure Tx where
  txID : Hash
  inputs : List Outpoint
  outputs : List TxOut
  deriving DecidableEq

structure Subtree where
  root : Hash
  txIDs : List Hash
  txs : List Tx
  deriving DecidableEq

structure Block where
  hash : Hash
  height : UInt32
  time : UInt32
  merkleRoot : Hash
  subtreeRoots : List Hash
  header : Header
  subtrees : List Subtree
  deriving DecidableEq

/-- The transactions of a subtree stand in the order of its txids. -/
def Subtree.Parallel (s : Subtree) : Prop := s.txs.map Tx.txID = s.txIDs

def Block.Parallel (b : Block) : Prop := ∀ s ∈ b.subtrees, s.Parallel

/-- All transactions of a block, in the order they are ingested. -/
def Block.txs (b : Block) : List Tx := b.subtrees.flatMap Subtree.txs

lemma height_le_last {bs : List Block} (hinc : bs.Pairwise fun a b => a.height < b.height)
    {b c : Block}
    (hlast : bs.getLast? = some b) (hc : c ∈ bs) : c.height.toNat ≤ b.height.toNat := by
  obtain ⟨l, rfl⟩ := List.getLast?_eq_some_iff.mp hlast
  rcases List.mem_append.mp hc with hc | hc
  · exact (UInt32.lt_iff_toNat_lt.mp ((List.pairwise_append.mp hinc).2.2 c hc b (by simp))).le
  · rw [List.mem_singleton.mp hc]

/-! ### Sealed blocks of the mock source -/

/-- The 80-byte header the mock source lays out. -/
def buildHeader (height t : UInt32) (root : Hash) : Header :=
  ⟨leBytes 4 0x20000000 ++ List.replicate 28 0 ++ beBytes 4 height.toNat ++ root.1 ++
    leBytes 4 t.toNat ++
    leBytes 4 0x1d00ffff ++ List.replicate 4 0, by simp⟩

/-- `root, _ := commitment.MerkleRoot(leaves)`. -/
def rootOf (leaves : List Hash) : Hash := (Commitment.merkleRoot leaves).toOption.getD default

/-- The block `MockSource.Next` seals from the transactions of its subtrees. -/
def sealBlock (h : UInt32) (subs : List (List Tx)) : Block :=
  let subRoots := subs.map fun txs => rootOf (txs.map Tx.txID)
  let time := 1700000000 + h * 600
  let header := buildHeader h time (rootOf subRoots)
  { hash := Commitment.doubleSHA256 header.1
    height := h
    time := time
    merkleRoot := rootOf subRoots
    subtreeRoots := subRoots
    header := header
    subtrees := subs.map fun txs => ⟨rootOf (txs.map Tx.txID), txs.map Tx.txID, txs⟩ }

lemma sealBlock_parallel (h : UInt32) (subs : List (List Tx)) : (sealBlock h subs).Parallel := by
  intro s hs
  obtain ⟨txs, -, rfl⟩ := List.mem_map.mp hs
  rfl

lemma merkleRoot_eq_rootOf {leaves : List Hash} (h : leaves ≠ []) :
    Commitment.merkleRoot leaves = .ok (rootOf leaves) := by
  have hlen : leaves.length ≠ 0 := by simpa using h
  simp [rootOf, Commitment.merkleRoot, Commitment.buildMerkleTree, hlen, Except.map,
    Except.toOption]

@[simp] lemma rootOf_singleton (a : Hash) : rootOf [a] = a := by
  simp [rootOf, Commitment.merkleRoot_singleton, Except.toOption]

lemma rootOf_pair (a b : Hash) : rootOf [a, b] = Commitment.hashPair a b := by
  have h : MerkleTree.root? Commitment.hashPair [a, b] = some (Commitment.hashPair a b) := by
    rw [MerkleTree.root?_of_one_lt _ (by simp)]
    exact MerkleTree.root?_singleton _ _
  simp [rootOf, Commitment.merkleRoot, Commitment.buildMerkleTree, h, Except.map, Except.toOption]

lemma sealBlock_singleton (h : UInt32) (tx : Tx) :
    sealBlock h [[tx]] =
      { hash :=
          Sha256.Eval.sum256
            (Sha256.Eval.sum256 (buildHeader h (1700000000 + h * 600) tx.txID).1).1
        height := h
        time := 1700000000 + h * 600
        merkleRoot := tx.txID
        subtreeRoots := [tx.txID]
        header := buildHeader h (1700000000 + h * 600) tx.txID
        subtrees := [⟨tx.txID, [tx.txID], [tx]⟩] } := by
  simp only [sealBlock, List.map_cons, List.map_nil, rootOf_singleton, Commitment.doubleSHA256]
  rw [Sha256.Eval.sum256_eq]

end MemServe.Teranode
