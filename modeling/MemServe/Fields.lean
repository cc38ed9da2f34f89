import Mathlib.Algebra.GroupWithZero.Nat
import MemServe.MessageTree
import MemServe.TxList

/-!
The level L0: a transaction as a tree over its fields, whose root is its id.

A field is hashed with its index before it, and two nodes one after the other, both by the same
hash. A field of 63 bytes is hashed as a node would be.
-/

namespace MemServe.Commitment

open MerkleTree HashTree

structure FieldLeaf where
  index : UInt8
  bytes : Bytes
  deriving DecidableEq

abbrev TxFields := List FieldLeaf

/-- The string that stands for a field. -/
def FieldLeaf.message (f : FieldLeaf) : Bytes := f.index :: f.bytes

def leafHash (f : FieldLeaf) : Hash := doubleSHA256 f.message

def buildMTxID (fields : TxFields) : Except Error (Hash × List (List Hash)) :=
  if fields.length = 0 then .error .empty else buildMerkleTree (fields.map leafHash)

def mTxIDPath (fields : TxFields) (fieldIndex : UInt8) :
    Except Error (Hash × List PathElem × Hash) :=
  match fields[fieldIndex.toNat]? with
  | none => .error .fieldOutOfRange
  | some f => do
    let (root, layers) ← buildMTxID fields
    let path ← merklePath layers fieldIndex.toNat
    pure (leafHash f, path, root)

def leafForField (f : FieldLeaf) : Hash := leafHash f

def verifyMTxIDPath (leaf : Hash) (path : List PathElem) (mtxid : Hash) : Bool :=
  if maxDepth < path.length then false else fold leaf path = mtxid

def verifySubtreePath (txid : Hash) (path : List PathElem) (subtreeRoot : Hash) : Bool :=
  if 20 < path.length then false else fold txid path = subtreeRoot

def verifyBlockPath (subtreeRoot : Hash) (path : List PathElem) (blockMerkleRoot : Hash) : Bool :=
  if maxDepth < path.length then false else fold subtreeRoot path = blockMerkleRoot

/-- A transaction with its id. -/
structure FieldTx where
  fields : TxFields
  mtxid : Hash
  layers : List (List Hash)
  built : buildMTxID fields = .ok (mtxid, layers)

structure FieldSubtree where
  txs : List FieldTx
  root : Hash
  built : merkleRoot (txs.map (·.mtxid)) = .ok root

structure FieldBlock where
  subtrees : List FieldSubtree
  root : Hash
  built : merkleRoot (subtrees.map (·.root)) = .ok root

/-- Every list of fields but the empty one is a transaction. -/
def FieldTx.of (fields : TxFields) (h : fields.length ≠ 0) : FieldTx where
  fields := fields
  mtxid := top hashPair (fields.map leafHash)
  layers := MerkleTree.layers hashPair (fields.map leafHash)
  built := by
    rw [buildMTxID, if_neg h, buildMerkleTree, if_neg (by rwa [List.length_map])]
    rfl

def FieldSubtree.of (txs : List FieldTx) (h : txs.length ≠ 0) : FieldSubtree where
  txs := txs
  root := top hashPair (txs.map (·.mtxid))
  built := by
    rw [merkleRoot, buildMerkleTree, if_neg (by rwa [List.length_map])]
    rfl

def FieldBlock.of (subtrees : List FieldSubtree) (h : subtrees.length ≠ 0) : FieldBlock where
  subtrees := subtrees
  root := top hashPair (subtrees.map (·.root))
  built := by
    rw [merkleRoot, buildMerkleTree, if_neg (by rwa [List.length_map])]
    rfl

lemma FieldTx.merkleRoot (tx : FieldTx) :
    Commitment.merkleRoot (tx.fields.map leafHash) = .ok tx.mtxid := by
  have h := tx.built
  unfold buildMTxID at h
  split_ifs at h
  rw [Commitment.merkleRoot, h]
  rfl

lemma FieldTx.fields_ne_nil (tx : FieldTx) : tx.fields ≠ [] :=
  List.map_eq_nil_iff.not.mp (Ingest.top_of_merkleRoot tx.merkleRoot).1

/-- **Every field has its paths.** The paths that are served for a field, for the id of its
transaction and for the root of its subtree verify one by one and together, and are as long as the
three trees are deep. -/
theorem field_paths (b : FieldBlock) {s t : ℕ} {i : UInt8} {sub : FieldSubtree} {tx : FieldTx}
    {f : FieldLeaf} (hs : b.subtrees[s]? = some sub) (ht : sub.txs[t]? = some tx)
    (hf : tx.fields[i.toNat]? = some f) (hcap : sub.txs.length ≤ 2 ^ 20)
    (hdepth : Nat.clog 2 tx.fields.length + Nat.clog 2 sub.txs.length +
      Nat.clog 2 b.subtrees.length ≤ maxDepth) :
    ∃ l0 l1 l2 subLayers blockLayers, mTxIDPath tx.fields i = .ok (leafForField f, l0, tx.mtxid) ∧
      buildMerkleTree (sub.txs.map (·.mtxid)) = .ok (sub.root, subLayers) ∧
        merklePath subLayers t = .ok l1 ∧
      buildMerkleTree (b.subtrees.map (·.root)) = .ok (b.root, blockLayers) ∧
        merklePath blockLayers s = .ok l2 ∧
      verifyMTxIDPath (leafForField f) l0 tx.mtxid = true ∧
        verifySubtreePath tx.mtxid l1 sub.root = true ∧
      verifyBlockPath sub.root l2 b.root = true ∧
      verifyToBlockRoot (leafForField f) l0 l1 l2 b.root =
        (true, Nat.clog 2 tx.fields.length + Nat.clog 2 sub.txs.length +
          Nat.clog 2 b.subtrees.length) := by
  have hleaf : (tx.fields.map leafHash)[i.toNat]? = some (leafHash f) := by
    rw [List.getElem?_map, hf]; rfl
  have hid : (sub.txs.map (·.mtxid))[t]? = some tx.mtxid := by rw [List.getElem?_map, ht]; rfl
  have hroot : (b.subtrees.map (·.root))[s]? = some sub.root := by rw [List.getElem?_map, hs]; rfl
  obtain ⟨l0, hl0, hlen0, hfold0⟩ := merklePath_complete hleaf tx.merkleRoot
  obtain ⟨l1, hl1, hlen1, hfold1⟩ := merklePath_complete hid sub.built
  obtain ⟨l2, hl2, hlen2, hfold2⟩ := merklePath_complete hroot b.built
  rw [List.length_map] at hlen0 hlen1 hlen2
  have hpath : mTxIDPath tx.fields i = .ok (leafForField f, l0, tx.mtxid) := by
    have hlen : tx.fields.length ≠ 0 :=
      fun h => by rw [List.length_eq_zero_iff.mp h] at hf; cases hf
    rw [mTxIDPath, hf, buildMTxID, if_neg hlen, buildMerkleTree_layers tx.merkleRoot]
    change (merklePath (layers hashPair (tx.fields.map leafHash)) i.toNat).bind _ = _
    rw [hl0]
    rfl
  have h20 : l1.length ≤ 20 :=
    hlen1.trans_le ((Nat.clog_mono_right 2 hcap).trans_eq (Nat.clog_pow 2 20 (by omega)))
  refine ⟨l0, l1, l2, _, _, hpath, buildMerkleTree_layers sub.built, hl1,
    buildMerkleTree_layers b.built, hl2, ?_, ?_, ?_, ?_⟩
  · rw [verifyMTxIDPath, if_neg (by omega), leafForField, hfold0, decide_eq_true rfl]
  · rw [verifySubtreePath, if_neg (by omega), hfold1, decide_eq_true rfl]
  · rw [verifyBlockPath, if_neg (by omega), hfold2, decide_eq_true rfl]
  · rw [verifyToBlockRoot, if_neg (by omega)]
    dsimp only
    rw [leafForField, hfold0, hfold1, hfold2, hlen0, hlen1, hlen2, decide_eq_true rfl]

def threeFields : FieldTx := .of [⟨0, [1]⟩, ⟨1, [2]⟩, ⟨2, [3]⟩] (by decide)

def pairSubtree : FieldSubtree := .of [threeFields, .of [⟨0, [4]⟩] (by decide)] (by decide)

def loneSubtree : FieldSubtree := .of [.of [⟨0, [5]⟩] (by decide)] (by decide)

/-- Three transactions in two subtrees. -/
def threeBlock : FieldBlock := .of [pairSubtree, loneSubtree] (by decide)

theorem field_paths_three :
    ∃ l0 l1 l2, verifyToBlockRoot (leafForField ⟨2, [3]⟩) l0 l1 l2 threeBlock.root = (true, 4) := by
  obtain ⟨l0, l1, l2, -, -, -, -, -, -, -, -, -, -, h⟩ :=
    field_paths threeBlock (s := 0) (t := 0) (i := 2) rfl rfl rfl
    (by decide) (by decide)
  exact ⟨l0, l1, l2, h.trans (by decide)⟩

/-- A block of subtrees that are full up to the last. -/
structure FieldBlock.Packed (b : FieldBlock) (k : ℕ) (total : UInt64) : Prop where
  cap : k ≤ 20
  full : ∃ init last, b.subtrees = init ++ [last] ∧ (∀ sub ∈ init, sub.txs.length = 2 ^ k) ∧
    last.txs.length ≤ 2 ^ k
  total : total.toNat = (b.subtrees.map fun sub => sub.txs.length).sum

lemma clog_packed {k n r : ℕ} (hn : 0 < n) (hr : 0 < r) (hle : r ≤ 2 ^ k) :
    Nat.clog 2 (n * 2 ^ k + r) = k + Nat.clog 2 (n + 1) := by
  apply le_antisymm
  · apply Nat.clog_le_of_le_pow
    calc n * 2 ^ k + r ≤ (n + 1) * 2 ^ k := by rw [Nat.succ_mul]; omega
      _ ≤ 2 ^ Nat.clog 2 (n + 1) * 2 ^ k := Nat.mul_le_mul_right _ (Nat.le_pow_clog (by omega) _)
      _ = 2 ^ (k + Nat.clog 2 (n + 1)) := by rw [← Nat.pow_add, Nat.add_comm]
  · have hpos : 0 < Nat.clog 2 (n + 1) := Nat.clog_pos (by omega) (by omega)
    have hlt : 2 ^ (Nat.clog 2 (n + 1) - 1) < n + 1 := Nat.pow_lt_of_lt_clog (by omega)
    have hbelow : 2 ^ (k + (Nat.clog 2 (n + 1) - 1)) < n * 2 ^ k + r := by
      calc 2 ^ (k + (Nat.clog 2 (n + 1) - 1)) = 2 ^ (Nat.clog 2 (n + 1) - 1) * 2 ^ k := by
            rw [Nat.pow_add, Nat.mul_comm]
        _ ≤ n * 2 ^ k := Nat.mul_le_mul_right _ (by omega)
        _ < n * 2 ^ k + r := by omega
    have := (Nat.lt_clog_iff_pow_lt (by omega)).mpr hbelow
    omega

lemma sum_lengths {init : List FieldSubtree} {k : ℕ} (h : ∀ sub ∈ init, sub.txs.length = 2 ^ k) :
    (init.map fun sub => sub.txs.length).sum = init.length * 2 ^ k := by
  rw [List.map_congr_left h, List.map_const', List.sum_replicate_nat]

/-- **The depth law.** In a block whose subtrees are full up to the last, a txid verifies through
paths that are together at most as long as the binary logarithm of the number of transactions,
rounded up, and exactly as long in a full subtree. -/
theorem depth_law {b : FieldBlock} {k : ℕ} {total : UInt64} (hpacked : b.Packed k total) {s t : ℕ}
    {sub : FieldSubtree} {tx : FieldTx} (hs : b.subtrees[s]? = some sub)
    (ht : sub.txs[t]? = some tx) :
    ∃ l1 l2 subLayers blockLayers, buildMerkleTree (sub.txs.map (·.mtxid)) =
      .ok (sub.root, subLayers) ∧
      merklePath subLayers t = .ok l1 ∧ buildMerkleTree (b.subtrees.map (·.root)) =
        .ok (b.root, blockLayers) ∧
      merklePath blockLayers s = .ok l2 ∧ verifyToBlockRoot tx.mtxid [] l1 l2 b.root =
        (true, l1.length + l2.length) ∧
      l1.length + l2.length ≤ ceilLog2 total ∧
        (sub.txs.length = 2 ^ k → l1.length + l2.length = ceilLog2 total) := by
  have hid : (sub.txs.map (·.mtxid))[t]? = some tx.mtxid := by rw [List.getElem?_map, ht]; rfl
  have hroot : (b.subtrees.map (·.root))[s]? = some sub.root := by rw [List.getElem?_map, hs]; rfl
  obtain ⟨l1, hl1, hlen1, hfold1⟩ := merklePath_complete hid sub.built
  obtain ⟨l2, hl2, hlen2, hfold2⟩ := merklePath_complete hroot b.built
  rw [List.length_map] at hlen1 hlen2
  obtain ⟨init, last, hb, hinit, hlast⟩ := hpacked.full
  have hpos : ∀ sub : FieldSubtree, 0 < sub.txs.length := fun sub =>
    List.length_pos_iff.mpr (List.map_eq_nil_iff.not.mp (Ingest.top_of_merkleRoot sub.built).1)
  have hsub : sub.txs.length ≤ 2 ^ k := by
    have hmem := List.mem_of_getElem? hs
    rw [hb, List.mem_append, List.mem_singleton] at hmem
    rcases hmem with hmem | rfl
    · exact (hinit sub hmem).le
    · exact hlast
  have htotal : total.toNat = init.length * 2 ^ k + last.txs.length := by
    rw [hpacked.total, hb, List.map_append, List.sum_append, sum_lengths hinit, List.map_singleton,
      List.sum_singleton]
  have hdepth : l1.length + l2.length ≤ ceilLog2 total ∧
      (sub.txs.length = 2 ^ k → l1.length + l2.length = ceilLog2 total) := by
    rw [ceilLog2_eq, htotal, hlen1, hlen2, hb, List.length_append, List.length_singleton]
    have hclog : Nat.clog 2 sub.txs.length ≤ k := Nat.clog_le_of_le_pow hsub
    rcases Nat.eq_zero_or_pos init.length with hnil | hlong
    · -- a single subtree
      rw [List.length_eq_zero_iff.mp hnil] at hb ⊢
      obtain rfl : sub = last := by
        have hmem := List.mem_of_getElem? hs
        rw [hb] at hmem
        exact List.mem_singleton.mp hmem
      simp
    · rw [clog_packed hlong (hpos last) hlast]
      refine ⟨Nat.add_le_add_right hclog _, fun hfull => ?_⟩
      rw [hfull, Nat.clog_pow 2 k (by omega)]
  have hbound : ceilLog2 total ≤ 64 := by
    rw [ceilLog2_eq]
    exact Nat.clog_le_of_le_pow total.toNat_lt.le
  have hcap : l1.length ≤ 20 := by
    rw [hlen1]
    exact (Nat.clog_le_of_le_pow hsub).trans hpacked.cap
  refine ⟨l1, l2, _, _, buildMerkleTree_layers sub.built, hl1, buildMerkleTree_layers b.built, hl2,
    ?_, hdepth⟩
  rw [verifyToBlockRoot, if_neg (by rw [maxDepth, List.length_nil]; omega)]
  dsimp only
  rw [fold_nil, hfold1, hfold2, decide_eq_true rfl, List.length_nil, Nat.zero_add]

theorem depth_law_three :
    ∃ l1 l2, verifyToBlockRoot threeFields.mtxid [] l1 l2 threeBlock.root = (true, ceilLog2 3) := by
  have hpacked : threeBlock.Packed 1 3 :=
    ⟨by decide,
      ⟨[pairSubtree], loneSubtree, rfl, by simp [pairSubtree, FieldSubtree.of], by decide⟩,
      by decide⟩
  obtain ⟨l1, l2, -, -, -, -, -, -, h, -, hlen⟩ := depth_law hpacked (s := 0) (t := 0) rfl rfl
  exact ⟨l1, l2, h.trans (by rw [hlen rfl])⟩

/-! ### What is hashed -/

def FieldSubtree.fields (sub : FieldSubtree) : List FieldLeaf := sub.txs.flatMap (·.fields)

/-- The pairs of nodes that are hashed for the ids and the root of a subtree. -/
def FieldSubtree.pairs (sub : FieldSubtree) : List (Hash × Hash) :=
  (sub.txs.flatMap fun tx => treePairs (tx.fields.map leafHash)) ++
    treePairs (sub.txs.map (·.mtxid))

namespace FieldBlock

variable (b : FieldBlock)

def fields : List FieldLeaf := b.subtrees.flatMap (·.fields)

def pairs : List (Hash × Hash) :=
  (b.subtrees.flatMap (·.pairs)) ++ treePairs (b.subtrees.map (·.root))

end FieldBlock

/-- Two nodes as one string. -/
def joined (a b : Hash) : Bytes := a.1 ++ b.1

lemma joined_inj (a b c d : Hash) (h : joined a b = joined c d) : a = c ∧ b = d := by
  obtain ⟨h1, h2⟩ := List.append_inj h (by simp)
  exact ⟨ByteArr.ext h1, ByteArr.ext h2⟩

lemma length_joined (a b : Hash) : (joined a b).length = 64 := by simp [joined]

lemma exists_field_of_joined (a b : Hash) : ∃ f : FieldLeaf, f.message = joined a b := by
  obtain ⟨c, cs, h⟩ :=
    List.exists_cons_of_ne_nil (List.length_pos_iff.mp (by rw [length_joined a b]; decide))
  exact ⟨⟨c, cs⟩, h.symm⟩

lemma FieldLeaf.message_inj {f g : FieldLeaf} (h : f.message = g.message) : f = g := by
  cases f
  cases g
  cases h
  rfl

lemma tree_over {α : Type} {g : α → HashTree Bytes} {d : α → Hash} {l : List α} {root : Hash}
    (hd : ∀ a, (g a).commit doubleSHA256 joined = d a) (h : merkleRoot (l.map d) = .ok root) :
    l.map g ≠ [] ∧ (top node (l.map g)).commit doubleSHA256 joined = root ∧
      (∀ m, m ∈ (top node (l.map g)).leaves ↔ ∃ a ∈ l, m ∈ (g a).leaves) ∧
      ∀ m, m ∈ (top node (l.map g)).inner doubleSHA256 joined ↔
        (∃ a ∈ l, m ∈ (g a).inner doubleSHA256 joined) ∨ ∃ p ∈ treePairs (l.map d),
          m = joined p.1 p.2 := by
  have hmap : (l.map g).map (commit doubleSHA256 joined) = l.map d := by
    rw [List.map_map]
    exact List.map_congr_left fun a _ => hd a
  obtain ⟨hne, htop⟩ := Ingest.top_of_merkleRoot h
  have hts : l.map g ≠ [] := fun hnil => hne (by rw [List.map_eq_nil_iff.mp hnil]; rfl)
  refine ⟨hts, ?_, fun m => ?_, fun m => ?_⟩
  · rw [commit_top hts, hmap]
    exact htop
  · simp only [mem_leaves_top hts, List.mem_map, exists_exists_and_eq_and]
  · simp only [mem_inner_top hts, hmap, List.mem_map, exists_exists_and_eq_and]
    rfl

def FieldTx.tree (tx : FieldTx) : HashTree Bytes := top node (tx.fields.map fun f => leaf f.message)

def FieldSubtree.tree (sub : FieldSubtree) : HashTree Bytes := top node (sub.txs.map FieldTx.tree)

def FieldBlock.tree (b : FieldBlock) : HashTree Bytes := top node (b.subtrees.map FieldSubtree.tree)

lemma FieldTx.commit_tree (tx : FieldTx) : tx.tree.commit doubleSHA256 joined = tx.mtxid :=
  (tree_over (fun _ => rfl) tx.merkleRoot).2.1

lemma FieldSubtree.commit_tree (sub : FieldSubtree) :
    sub.tree.commit doubleSHA256 joined = sub.root :=
  (tree_over FieldTx.commit_tree sub.built).2.1

lemma FieldBlock.commit_tree (b : FieldBlock) : b.tree.commit doubleSHA256 joined = b.root :=
  (tree_over FieldSubtree.commit_tree b.built).2.1

lemma FieldTx.mem_leaves (tx : FieldTx) {m : Bytes} :
    m ∈ tx.tree.leaves ↔ ∃ f ∈ tx.fields, f.message = m := by
  rw [FieldTx.tree, (tree_over (fun _ => rfl) tx.merkleRoot).2.2.1]
  simp only [leaves, List.mem_singleton, eq_comm]

lemma FieldBlock.mem_leaves (b : FieldBlock) {m : Bytes} :
    m ∈ b.tree.leaves ↔ ∃ f ∈ b.fields, f.message = m := by
  have hsub : ∀ sub : FieldSubtree, m ∈ sub.tree.leaves ↔ ∃ f ∈ sub.fields, f.message = m :=
      fun sub => by
    rw [FieldSubtree.tree, (tree_over FieldTx.commit_tree sub.built).2.2.1]
    simp only [FieldTx.mem_leaves, FieldSubtree.fields, List.mem_flatMap]
    grind
  rw [FieldBlock.tree, (tree_over FieldSubtree.commit_tree b.built).2.2.1]
  simp only [hsub, FieldBlock.fields, List.mem_flatMap]
  grind

lemma FieldBlock.mem_inner (b : FieldBlock) {m : Bytes} :
    m ∈ b.tree.inner doubleSHA256 joined ↔ ∃ p ∈ b.pairs, m = joined p.1 p.2 := by
  have htx : ∀ tx : FieldTx, m ∈ tx.tree.inner doubleSHA256 joined ↔
      ∃ p ∈ treePairs (tx.fields.map leafHash), m = joined p.1 p.2 := fun tx => by
    rw [FieldTx.tree, (tree_over (d := leafHash) (fun _ => rfl) tx.merkleRoot).2.2.2]
    simp [HashTree.inner]
  have hsub : ∀ sub : FieldSubtree, m ∈ sub.tree.inner doubleSHA256 joined ↔
      ∃ p ∈ sub.pairs, m = joined p.1 p.2 := fun sub => by
    rw [FieldSubtree.tree, (tree_over FieldTx.commit_tree sub.built).2.2.2]
    simp only [htx, FieldSubtree.pairs, List.mem_append, List.mem_flatMap]
    grind
  rw [FieldBlock.tree, (tree_over FieldSubtree.commit_tree b.built).2.2.2]
  simp only [hsub, FieldBlock.pairs, List.mem_append, List.mem_flatMap]
  grind

/-- The three trees of every transaction together are within the depth that is verified. -/
def FieldBlock.Shallow (b : FieldBlock) : Prop :=
  ∀ sub ∈ b.subtrees, ∀ tx ∈ sub.txs,
    Nat.clog 2 tx.fields.length + Nat.clog 2 sub.txs.length +
      Nat.clog 2 b.subtrees.length ≤ maxDepth

lemma depth_over {α : Type} {g : α → HashTree Bytes} {l : List α} (hne : l.map g ≠ []) {d : ℕ}
    (h : ∀ a ∈ l, (g a).depth + Nat.clog 2 l.length ≤ d) : (top node (l.map g)).depth ≤ d := by
  have hall : ∀ t ∈ l.map g, t.depth ≤ d - Nat.clog 2 l.length := by
    intro t ht
    obtain ⟨a, ha, rfl⟩ := List.mem_map.mp ht
    have := h a ha
    omega
  have htop := depth_top hne hall
  rw [List.length_map] at htop
  obtain ⟨a, ha⟩ := List.exists_mem_of_ne_nil l (List.map_eq_nil_iff.not.mp hne)
  have := h a ha
  omega

lemma FieldBlock.depth_tree {b : FieldBlock} (h : b.Shallow) : b.tree.depth ≤ maxDepth := by
  refine depth_over (tree_over FieldSubtree.commit_tree b.built).1 fun sub hsub => ?_
  have hsubtree : sub.tree.depth ≤ maxDepth - Nat.clog 2 b.subtrees.length := by
    refine depth_over (tree_over FieldTx.commit_tree sub.built).1 fun tx htx => ?_
    have hshallow := h sub hsub tx htx
    have htree : tx.tree.depth ≤ Nat.clog 2 tx.fields.length :=
      depth_over (tree_over (d := leafHash) (fun _ => rfl) tx.merkleRoot).1 fun f _ => by
        rw [depth, Nat.zero_add]
    omega
  obtain ⟨tx, htx⟩ := List.exists_mem_of_ne_nil sub.txs
    (List.map_eq_nil_iff.not.mp (tree_over FieldTx.commit_tree sub.built).1)
  have := h sub hsub tx htx
  omega

/-! ### What a verified path shows -/

/-- A field of the block, or two of its nodes read as a field. -/
def FieldBlock.Known (b : FieldBlock) (f : FieldLeaf) : Prop :=
  f ∈ b.fields ∨ ∃ p ∈ b.pairs, f.message = joined p.1 p.2

/-- All strings that are hashed for the root of a block. -/
def FieldBlock.messages (b : FieldBlock) : List Bytes :=
  b.fields.map FieldLeaf.message ++ b.pairs.map fun p => joined p.1 p.2

/-- All strings that are hashed in verifying a path. -/
def pathMessages (f : FieldLeaf) (path : List PathElem) : List Bytes :=
  f.message :: (foldPairs (leafForField f) path).map fun p => joined p.1 p.2

lemma FieldBlock.known_iff {b : FieldBlock} {f : FieldLeaf} :
    b.Known f ↔ f.message ∈ b.tree.messages doubleSHA256 joined := by
  rw [HashTree.messages, List.mem_append, b.mem_leaves, b.mem_inner, Known]
  refine or_congr_left ⟨fun h => ⟨f, h, rfl⟩, ?_⟩
  rintro ⟨g, hg, heq⟩
  rwa [← FieldLeaf.message_inj heq]

lemma FieldBlock.messages_subset (b : FieldBlock) :
    b.tree.messages doubleSHA256 joined ⊆ b.messages := by
  intro m hm
  rw [HashTree.messages, List.mem_append, b.mem_leaves, b.mem_inner] at hm
  rw [messages, List.mem_append, List.mem_map, List.mem_map]
  refine hm.imp_right ?_
  rintro ⟨p, hp, rfl⟩
  exact ⟨p, hp, rfl⟩

lemma verifyToBlockRoot_iff {leaf : Hash} {l0 l1 l2 : List PathElem} {root : Hash} :
    (verifyToBlockRoot leaf l0 l1 l2 root).1 = true ↔
      (l0.length + l1.length + l2.length ≤ maxDepth ∧ l1.length ≤ 20) ∧
        fold leaf (l0 ++ l1 ++ l2) = root := by
  have hfold : fold leaf (l0 ++ l1 ++ l2) = fold (fold (fold leaf l0) l1) l2 := by simp [fold]
  rw [hfold, verifyToBlockRoot]
  split_ifs with h
  · simp only [false_iff]
    omega
  · simp only [decide_eq_true_eq]
    rw [and_iff_right]
    omega

/-- **What a verified field is.** A field that verifies against the root of a block is one of its
fields or two of its nodes read as a field, unless a field of the block was read as two nodes on the
way, or two different strings among those hashed have one hash. Both do verify: the paths do not
tell a field of 63 bytes from a node. -/
theorem field_verified (b : FieldBlock) (f : FieldLeaf) :
    (∀ l0 l1 l2, (verifyToBlockRoot (leafForField f) l0 l1 l2 b.root).1 = true →
      b.Known f ∨
        (∃ g ∈ b.fields, ∃ p ∈ foldPairs (leafForField f) (l0 ++ l1 ++ l2),
          g.message = joined p.1 p.2) ∨
        MessageCollision doubleSHA256 (b.messages ++ pathMessages f (l0 ++ l1 ++ l2))) ∧
    (f.bytes.length ≠ 63 → (∀ g ∈ b.fields, g.bytes.length ≠ 63) → ∀ l0 l1 l2,
      (verifyToBlockRoot (leafForField f) l0 l1 l2 b.root).1 = true →
      f ∈ b.fields ∨ MessageCollision doubleSHA256
        (b.messages ++ pathMessages f (l0 ++ l1 ++ l2))) ∧
    (b.Shallow → b.Known f → ∃ l2, (verifyToBlockRoot (leafForField f) [] [] l2 b.root).1 = true) ∧
    (b.Shallow → ∀ p ∈ b.pairs, ∃ g, g.message = joined p.1 p.2 ∧ g.bytes.length = 63 ∧
      ∃ l2, (verifyToBlockRoot (leafForField g) [] [] l2 b.root).1 = true) := by
  have hsound : ∀ l0 l1 l2, (verifyToBlockRoot (leafForField f) l0 l1 l2 b.root).1 = true →
      b.Known f ∨
        (∃ g ∈ b.fields, ∃ p ∈ foldPairs (leafForField f) (l0 ++ l1 ++ l2),
          g.message = joined p.1 p.2) ∨
        MessageCollision doubleSHA256 (b.messages ++ pathMessages f (l0 ++ l1 ++ l2)) := by
    intro l0 l1 l2 h
    obtain ⟨-, hfold⟩ := verifyToBlockRoot_iff.mp h
    rw [fold_toPair, ← b.commit_tree] at hfold
    rcases fold_message_sound joined_inj (m := f.message) hfold with hm | ⟨p, hp, hleaf⟩ | hcol
    · exact .inl (b.known_iff.mpr hm)
    · obtain ⟨g, hg, hmsg⟩ := b.mem_leaves.mp hleaf
      exact .inr (.inl ⟨g, hg, p, hp, hmsg⟩)
    · exact .inr (.inr (hcol.mono (List.append_subset.mpr
        ⟨List.subset_append_of_subset_left _ b.messages_subset, List.subset_append_right _ _⟩)))
  have hpath : ∀ g, b.Shallow → b.Known g → ∃ l2,
      (verifyToBlockRoot (leafForField g) [] [] l2 b.root).1 = true := by
    intro g hshallow hknown
    obtain ⟨p, hp, hlen⟩ := exists_path (b.known_iff.mp hknown)
    refine ⟨p.map PathElem.ofPair, verifyToBlockRoot_iff.mpr ⟨⟨?_, Nat.zero_le _⟩, ?_⟩⟩
    · have := hlen.trans (FieldBlock.depth_tree hshallow)
      rw [List.length_map, List.length_nil]
      omega
    · rw [List.nil_append, List.nil_append, fold_ofPair, ← b.commit_tree]
      exact hp
  have hlength : ∀ (g : FieldLeaf) (p : Hash × Hash), g.message = joined p.1 p.2 →
      g.bytes.length = 63 := by
    intro g p hg
    have hlen := length_joined p.1 p.2
    rw [← hg, FieldLeaf.message, List.length_cons] at hlen
    omega
  refine ⟨hsound, fun hf hfields l0 l1 l2 h => ?_, hpath f, fun hshallow p hp => ?_⟩
  · rcases hsound l0 l1 l2 h with (hmem | ⟨p, -, hp⟩) | ⟨g, hg, p, -, hp⟩ | hcol
    · exact .inl hmem
    · exact absurd (hlength f p hp) hf
    · exact absurd (hlength g p hp) (hfields g hg)
    · exact .inr hcol
  · obtain ⟨g, hg⟩ := exists_field_of_joined p.1 p.2
    exact ⟨g, hg, hlength g p hg, hpath g hshallow (.inr ⟨p, hp, hg⟩)⟩

/-- The strings that are hashed for the id of a transaction. -/
def FieldTx.messages (tx : FieldTx) : List Bytes :=
  tx.fields.map FieldLeaf.message ++ (treePairs (tx.fields.map leafHash)).map fun p =>
    joined p.1 p.2

lemma FieldTx.messages_subset (tx : FieldTx) :
    tx.tree.messages doubleSHA256 joined ⊆ tx.messages := by
  intro m hm
  rw [HashTree.messages, List.mem_append, tx.mem_leaves, FieldTx.tree,
    (tree_over (d := leafHash) (fun _ => rfl) tx.merkleRoot).2.2.2] at hm
  rw [messages, List.mem_append, List.mem_map, List.mem_map]
  refine hm.imp_right ?_
  rintro (⟨f, -, hf⟩ | ⟨p, hp, rfl⟩)
  · simp [HashTree.inner] at hf
  · exact ⟨p, hp, rfl⟩

/-- **An id determines the fields of its transaction**, up to fields of 63 bytes and strings with
one hash, among lists of one length and among lists that repeat no field. It does not determine them
in general: the last of an odd number of fields may be repeated. -/
theorem mtxid_determines (tx ty : FieldTx) (h : tx.mtxid = ty.mtxid) :
    (tx.fields = ty.fields ∨
      (tx.fields.length ≠ ty.fields.length ∧ ¬(tx.fields.Nodup ∧ ty.fields.Nodup)) ∨
      (∃ f ∈ tx.fields ++ ty.fields, f.bytes.length = 63) ∨
        MessageCollision doubleSHA256 (tx.messages ++ ty.messages)) ∧
    ∀ l f, tx.fields = l ++ [f] → l ≠ [] → l.length % 2 = 0 →
      ∃ layers, buildMTxID (l ++ [f, f]) = .ok (tx.mtxid, layers) := by
  constructor
  · by_cases h63 : ∃ f ∈ tx.fields ++ ty.fields, f.bytes.length = 63
    · exact .inr (.inr (.inl h63))
    by_cases hcol : MessageCollision doubleSHA256 (tx.messages ++ ty.messages)
    · exact .inr (.inr (.inr hcol))
    -- without those, the two trees are one
    have htree : tx.tree = ty.tree := by
      refine commit_inj joined_inj (fun m hm a b hab => h63 ?_) (fun hc => hcol (hc.mono ?_))
        (tx.commit_tree.trans (h.trans ty.commit_tree.symm))
      · rw [List.mem_append, tx.mem_leaves, ty.mem_leaves, ← exists_or] at hm
        obtain ⟨f, hf⟩ := hm
        rw [← or_and_right, ← List.mem_append] at hf
        have hlen := length_joined a b
        rw [← hab, ← hf.2, FieldLeaf.message, List.length_cons] at hlen
        exact ⟨f, hf.1, by omega⟩
      · exact List.append_subset.mpr ⟨List.subset_append_of_subset_left _ tx.messages_subset,
          List.subset_append_of_subset_right _ ty.messages_subset⟩
    by_cases hlen : tx.fields.length = ty.fields.length
    · refine .inl
        (List.map_injective_iff.mpr (fun f g hfg => FieldLeaf.message_inj (leaf.inj hfg)) ?_)
      exact top_node_inj (tree_over (fun _ => rfl) tx.merkleRoot).1
        (by rw [List.length_map, List.length_map, hlen]) htree
    · by_cases hnodup : tx.fields.Nodup ∧ ty.fields.Nodup
      · have hmessages : tx.fields.map FieldLeaf.message = ty.fields.map FieldLeaf.message := by
          refine top_leaf_inj (hnodup.1.map fun f g => FieldLeaf.message_inj)
            (hnodup.2.map fun f g => FieldLeaf.message_inj)
            (List.map_eq_nil_iff.not.mpr tx.fields_ne_nil)
              (List.map_eq_nil_iff.not.mpr ty.fields_ne_nil) ?_
          rw [List.map_map, List.map_map]
          exact htree
        exact .inl (List.map_injective_iff.mpr (fun f g => FieldLeaf.message_inj) hmessages)
      · exact .inr (.inl ⟨hlen, hnodup⟩)
  · intro l f hl hne heven
    have hlong : ∀ r : List Hash, r ≠ [] → 1 < (l.map leafHash ++ r).length := by
      intro r hr
      have := List.length_pos_iff.mpr hne
      have := List.length_pos_iff.mpr hr
      rw [List.length_append, List.length_map]
      omega
    have hsame : MerkleTree.root? hashPair ((l ++ [f, f]).map leafHash) =
        MerkleTree.root? hashPair (tx.fields.map leafHash) := by
      rw [hl, List.map_append, List.map_append, List.map_cons, List.map_singleton,
        root?_of_one_lt _ (hlong _ (by simp)), root?_of_one_lt _ (hlong _ (by simp)),
        pairLevel_append_last _ (by rwa [List.length_map])]
    refine ⟨layers hashPair ((l ++ [f, f]).map leafHash), ?_⟩
    rw [buildMTxID, if_neg (by simp), buildMerkleTree, if_neg (by simp), hsame]
    exact congrArg (fun r => Except.ok (r, _)) (Ingest.top_of_merkleRoot tx.merkleRoot).2

/-- A fourth field may be added to three. -/
theorem mtxid_determines_three :
    ∃ layers, buildMTxID [⟨0, [1]⟩, ⟨1, [2]⟩, ⟨2, [3]⟩, ⟨2, [3]⟩] =
      .ok (threeFields.mtxid, layers) :=
  (mtxid_determines threeFields threeFields rfl).2 [⟨0, [1]⟩, ⟨1, [2]⟩] ⟨2, [3]⟩ rfl (by decide) rfl

end MemServe.Commitment
