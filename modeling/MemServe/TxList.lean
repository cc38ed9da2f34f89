import MemServe.HashTree
import MemServe.Inclusion
import MemServe.Ingest
import MemServe.Sha256Eval

/-!
Which lists of transactions a header admits.

A valid block is a tree of trees, and its header determines the tree. An odd level of any of these
trees has the same hash as the level with its last node repeated, so the tree does not determine the
list. Only one of the lists has no repetition, and validation does not look for one.
-/

namespace MemServe

open Commitment MerkleTree

namespace Teranode.Block

/-- The txids of a block, in order. -/
def txids (b : Block) : List Hash := b.subtrees.flatMap Subtree.txIDs

/-- How the txids are cut into subtrees. -/
def cut (b : Block) : List ℕ := b.subtrees.map fun sub => sub.txIDs.length

/-- The pairs that the validation of a block hashes. -/
def hashed (b : Block) : List (Hash × Hash) :=
  (b.subtrees.flatMap fun sub => Commitment.treePairs sub.txIDs) ++
    Commitment.treePairs b.subtreeRoots

/-- Somewhere the validation hashes a node with a second copy of it in the block, rather than with
itself at the end of an odd level. -/
def repeats (b : Block) : Bool :=
  (b.subtrees.any fun sub => MerkleTree.repeats hashPair sub.txIDs) ||
    MerkleTree.repeats hashPair b.subtreeRoots

end Teranode.Block

namespace Ingest

open Teranode HashTree

/-! ### The tree of a block -/

def subtreeTree (sub : Subtree) : HashTree Hash := top node (sub.txIDs.map leaf)

def blockTree (b : Block) : HashTree Hash := top node (b.subtrees.map subtreeTree)

lemma top_of_merkleRoot {leaves : List Hash} {root : Hash} (h : merkleRoot leaves = .ok root) :
    leaves ≠ [] ∧ top hashPair leaves = root := by
  unfold merkleRoot buildMerkleTree at h
  split_ifs at h with hlen
  · cases h
  · exact ⟨fun hnil => hlen (congrArg List.length hnil), Except.ok.inj h⟩

lemma map_eval_leaf (ids : List Hash) : (ids.map leaf).map (eval hashPair) = ids := by
  rw [List.map_map]
  exact List.map_id ids

/-- The txids and the hashed pairs of `b` are among these. -/
structure Within (b : Block) (ids : List Hash) (ps : List (Hash × Hash)) : Prop where
  ids : b.txids ⊆ ids
  hashed : b.hashed ⊆ ps

section Valid

variable {b : Block} (hval : validateBlock b = true)

include hval

lemma eval_subtreeTree {sub : Subtree} (hsub : sub ∈ b.subtrees) :
    (subtreeTree sub).eval hashPair = sub.root := by
  obtain ⟨hne, htop⟩ := top_of_merkleRoot ((validateBlock_roots hval).2.1 sub hsub)
  rw [subtreeTree, eval_top (by simpa using hne), map_eval_leaf, htop]

lemma map_eval_subtreeTree : (b.subtrees.map subtreeTree).map (eval hashPair) = b.subtreeRoots := by
  rw [← (validateBlock_roots hval).1, List.map_map]
  exact List.map_congr_left fun sub hsub => eval_subtreeTree hval hsub

lemma subtrees_ne_nil : b.subtrees ≠ [] := by
  obtain ⟨hne, -⟩ := top_of_merkleRoot (validateBlock_roots hval).2.2.1
  rw [← (validateBlock_roots hval).1] at hne
  exact fun h => hne (by rw [h, List.map_nil])

lemma eval_blockTree : (blockTree b).eval hashPair = Proof.headerMerkleRoot b.header := by
  obtain ⟨-, -, hroot, hhdr⟩ := validateBlock_roots hval
  rw [blockTree, eval_top (by simpa using subtrees_ne_nil hval), map_eval_subtreeTree hval,
    (top_of_merkleRoot hroot).2, hhdr]

variable {ids : List Hash} {ps : List (Hash × Hash)} (hin : Within b ids ps)

include hin

omit hval in
lemma over_leaves {sub : Subtree} (hsub : sub ∈ b.subtrees) :
    (∀ t ∈ sub.txIDs.map leaf, t.Over hashPair ids ps) ∧
      MerkleTree.treePairs hashPair ((sub.txIDs.map leaf).map (eval hashPair)) ⊆ ps := by
  constructor
  · intro t ht
    obtain ⟨a, ha, rfl⟩ := List.mem_map.mp ht
    exact hin.ids (List.mem_flatMap.mpr ⟨sub, hsub, ha⟩)
  · rw [map_eval_leaf]
    exact fun p hp => hin.hashed (List.mem_append_left _ (List.mem_flatMap.mpr ⟨sub, hsub, hp⟩))

lemma over_subtreeTrees :
    (∀ t ∈ b.subtrees.map subtreeTree, t.Over hashPair ids ps) ∧
      MerkleTree.treePairs hashPair ((b.subtrees.map subtreeTree).map (eval hashPair)) ⊆ ps := by
  constructor
  · intro t ht
    obtain ⟨sub, hsub, rfl⟩ := List.mem_map.mp ht
    obtain ⟨hne, -⟩ := top_of_merkleRoot ((validateBlock_roots hval).2.1 sub hsub)
    obtain ⟨hleaves, hpairs⟩ := over_leaves hin hsub
    exact over_top (by simpa using hne) hleaves hpairs
  · rw [map_eval_subtreeTree hval]
    exact fun p hp => hin.hashed (List.mem_append_right _ hp)

lemma over_blockTree : (blockTree b).Over hashPair ids ps := by
  obtain ⟨htrees, hpairs⟩ := over_subtreeTrees hval hin
  exact over_top (by simpa using subtrees_ne_nil hval) htrees hpairs

/-- **The list of a block.** It is that of its tree, or longer if the block has a repetition. -/
lemma shortens_blockTree (hap : Faithful hashPair ids ps) :
    Shortens (blockTree b).trim b.txids b.repeats := by
  obtain ⟨htrees, hpairs⟩ := over_subtreeTrees hval hin
  have hblock :=
    shortens_top (show b.subtrees.map subtreeTree ≠ [] by simpa using subtrees_ne_nil hval)
  rw [← repeats_eval hap htrees hpairs, map_eval_subtreeTree hval, List.flatMap_map] at hblock
  refine hblock.trans (Shortens.flatMap fun sub hsub => ?_)
  obtain ⟨hne, -⟩ := top_of_merkleRoot ((validateBlock_roots hval).2.1 sub hsub)
  obtain ⟨hleaves, hpairs⟩ := over_leaves hin hsub
  have hsubtree := shortens_top (show sub.txIDs.map leaf ≠ [] by simpa using hne)
  rw [← repeats_eval hap hleaves hpairs, map_eval_leaf, List.flatMap_map] at hsubtree
  rwa [show (sub.txIDs.flatMap fun a => (leaf a).trim) = sub.txIDs from List.flatMap_singleton' _]
    at hsubtree

end Valid

/-- The txids of a block with the copies that fill up odd levels: the leaves of its tree. -/
def filled (b : Block) : List Hash := (blockTree b).leaves

/-- Cuts a list of leaves into subtrees of these sizes, without what fills each of them up. -/
def recut {α : Type} : List ℕ → List α → List α
  | [], _ => []
  | n :: ns, l => l.take n ++ recut ns (l.drop (2 ^ Nat.clog 2 n))

lemma leaves_subtreeTree {sub : Subtree} (hne : sub.txIDs ≠ []) :
    ∃ pad, (subtreeTree sub).leaves = sub.txIDs ++ pad ∧
      (subtreeTree sub).leaves.length = 2 ^ Nat.clog 2 sub.txIDs.length := by
  have hne' : sub.txIDs.map leaf ≠ [] := by simpa using hne
  have hleaf : ∀ t ∈ sub.txIDs.map leaf, t.leaves.length = 1 := by
    intro t ht
    obtain ⟨a, -, rfl⟩ := List.mem_map.mp ht
    rfl
  obtain ⟨pad, hpad⟩ := leaves_top hne'
  rw [List.flatMap_map, show (sub.txIDs.flatMap fun a => (leaf a).leaves) = sub.txIDs from
    List.flatMap_singleton' _] at hpad
  refine ⟨pad, hpad.symm, ?_⟩
  rw [subtreeTree, length_leaves_top hne' hleaf, List.length_map, Nat.mul_one]

lemma recut_leaves {subs : List Subtree} (hne : ∀ sub ∈ subs, sub.txIDs ≠ []) (rest : List Hash) :
    recut (subs.map fun sub => sub.txIDs.length)
      ((subs.flatMap fun sub => (subtreeTree sub).leaves) ++ rest) =
        subs.flatMap Subtree.txIDs := by
  induction subs with
  | nil => rfl
  | cons sub subs ih =>
    obtain ⟨pad, hleaves, hlen⟩ := leaves_subtreeTree (hne sub List.mem_cons_self)
    rw [List.map_cons, List.flatMap_cons, List.flatMap_cons, recut, List.append_assoc,
      List.drop_left' hlen, ih fun s hs => hne s (List.mem_cons_of_mem sub hs), hleaves,
      List.append_assoc, List.take_left]

/-- **A valid block is what its cut keeps of the leaves of its tree.** -/
lemma recut_cut {b : Block} (hval : validateBlock b = true) : recut b.cut (filled b) = b.txids := by
  have hne : ∀ sub ∈ b.subtrees, sub.txIDs ≠ [] := fun sub hsub =>
    (top_of_merkleRoot ((validateBlock_roots hval).2.1 sub hsub)).1
  obtain ⟨rest, hrest⟩ := leaves_top (show b.subtrees.map subtreeTree ≠ [] by
    simpa using subtrees_ne_nil hval)
  rw [List.flatMap_map] at hrest
  rw [filled, blockTree, ← hrest]
  exact recut_leaves hne rest

/-- **What a header admits.** Take two valid blocks of one header, where the pairs hashed do not
collide and have no txid for their hash. Their txids are the same exactly if the subtree sizes of
the second keep the txids of the first, of the leaves that the first one has hashed. So they are the
same if the blocks are cut alike; and if the first has no repetition, exactly if the second has
none. -/
theorem header_admits {b₁ b₂ : Block} (h₁ : validateBlock b₁ = true) (h₂ : validateBlock b₂ = true)
    (hhdr : b₁.header = b₂.header) (hcol : ¬Collides (b₁.hashed ++ b₂.hashed))
    (hfresh : ∀ t ∈ b₁.txids ++ b₂.txids, ∀ p ∈ b₁.hashed ++ b₂.hashed, hashPair p.1 p.2 ≠ t) :
    (b₁.txids = b₂.txids ↔ recut b₂.cut (filled b₁) = b₁.txids) ∧
      (b₁.cut = b₂.cut → b₁.txids = b₂.txids) ∧
      (b₁.repeats = false → (b₁.txids = b₂.txids ↔ b₂.repeats = false)) := by
  have hap : Faithful hashPair (b₁.txids ++ b₂.txids) (b₁.hashed ++ b₂.hashed) := ⟨hcol, hfresh⟩
  have hin₁ : Within b₁ (b₁.txids ++ b₂.txids) (b₁.hashed ++ b₂.hashed) :=
    ⟨List.subset_append_left _ _, List.subset_append_left _ _⟩
  have hin₂ : Within b₂ (b₁.txids ++ b₂.txids) (b₁.hashed ++ b₂.hashed) :=
    ⟨List.subset_append_right _ _, List.subset_append_right _ _⟩
  have htree : blockTree b₁ = blockTree b₂ := by
    refine eval_inj hap (over_blockTree h₁ hin₁) (over_blockTree h₂ hin₂) ?_
    rw [eval_blockTree h₁, eval_blockTree h₂, hhdr]
  have hrecut : recut b₂.cut (filled b₁) = b₂.txids := by
    rw [filled, htree]
    exact recut_cut h₂
  refine ⟨by rw [hrecut, eq_comm], fun hcut => ?_, fun hrep => ?_⟩
  · rw [← hrecut, ← hcut, recut_cut h₁]
  have hs₁ := shortens_blockTree h₁ hin₁ hap
  have hs₂ := shortens_blockTree h₂ hin₂ hap
  rw [hrep] at hs₁
  have hlist : (blockTree b₁).trim = b₁.txids := hs₁
  rw [← htree, hlist] at hs₂
  cases hrep₂ : b₂.repeats with
  | false =>
    rw [hrep₂] at hs₂
    exact ⟨fun _ => rfl, fun _ => hs₂⟩
  | true =>
    rw [hrep₂] at hs₂
    have hlt : b₁.txids.length < b₂.txids.length := hs₂
    exact ⟨fun h => absurd (congrArg List.length h) hlt.ne, fun h => by cases h⟩

/-- Where both blocks repeat and are cut differently, the lists may be the same or not. -/
example : recut [2] [7, 7] = recut [1, 1] [7, 7] ∧
    recut [4, 3] [1, 2, 3, 3, 4, 5, 6, 6] ≠ recut [3, 4] [1, 2, 3, 3, 4, 5, 6, 6] := by
  decide

lemma rootOf_repeat {l : List Hash} (a : Hash) (hne : l ≠ []) (heven : l.length % 2 = 0) :
    rootOf (l ++ [a, a]) = rootOf (l ++ [a]) := by
  have hpos := List.length_pos_iff.mpr hne
  have hroot : ∀ t : List Hash, t ≠ [] → rootOf (l ++ t) = top hashPair (l ++ t) := by
    intro t ht
    exact (top_of_merkleRoot
      (merkleRoot_eq_rootOf (List.append_ne_nil_of_right_ne_nil l ht))).2.symm
  rw [hroot _ (List.cons_ne_nil _ _), hroot _ (List.cons_ne_nil _ _), top_of_one_lt _ (by simp),
    top_of_one_lt (l := l ++ [a]) _ (by simp; omega), pairLevel_append_last _ heven]

def idTx (n : UInt8) : Tx := ⟨.fill 32 n, [], []⟩

/-- A block of three transactions. -/
def oddBlock : Block := sealBlock 1 [[idTx 1, idTx 2, idTx 3]]

/-- The block with its last transaction repeated. -/
def poisonedBlock : Block := sealBlock 1 [[idTx 1, idTx 2, idTx 3, idTx 3]]

lemma poisoned_header : oddBlock.header = poisonedBlock.header := by
  have hroot := @rootOf_repeat [.fill 32 1, .fill 32 2] (.fill 32 3) (List.cons_ne_nil _ _) rfl
  exact congrArg (fun r => buildHeader 1 (1700000000 + 1 * 600) (rootOf [r])) hroot.symm

/-- The pairs that both blocks hash. -/
def oddPairs : List (Hash × Hash) :=
  [(.fill 32 1, .fill 32 2), (.fill 32 3, .fill 32 3),
    (hashPair (.fill 32 1) (.fill 32 2), hashPair (.fill 32 3) (.fill 32 3))]

lemma hashed_odd : oddBlock.hashed = oddPairs := rfl
lemma hashed_poisoned : poisonedBlock.hashed = oddPairs := rfl

lemma oddBlock_valid : validateBlock oddBlock = true :=
  validateBlock_sealBlock (List.cons_ne_nil _ _) fun txs h => by
    rw [List.mem_singleton.mp h]
    exact List.cons_ne_nil _ _

lemma poisonedBlock_valid : validateBlock poisonedBlock = true :=
  validateBlock_sealBlock (List.cons_ne_nil _ _) fun txs h => by
    rw [List.mem_singleton.mp h]
    exact List.cons_ne_nil _ _

lemma oddNodes_nodup :
    ([.fill 32 1, .fill 32 2, .fill 32 3] ++ oddPairs.map fun p =>
      hashPair p.1 p.2 : List Hash).Nodup := by
  unfold oddPairs hashPair doubleSHA256
  rw [Sha256.Eval.sum256_eq]
  decide +kernel

lemma odd_collision : ¬Collides (oddBlock.hashed ++ poisonedBlock.hashed) := by
  have hnot := not_collision_of_nodup hashPair (List.nodup_append.mp oddNodes_nodup).2.1
  intro hcol
  refine hnot (hcol.mono ?_)
  rw [hashed_odd, hashed_poisoned]
  exact List.append_subset.mpr ⟨List.Subset.refl _, List.Subset.refl _⟩

lemma odd_fresh : ∀ t ∈ oddBlock.txids ++ poisonedBlock.txids,
      ∀ p ∈ oddBlock.hashed ++ poisonedBlock.hashed,
    hashPair p.1 p.2 ≠ t := by
  intro t ht p hp heq
  have hids : t ∈ [(.fill 32 1 : Hash), .fill 32 2, .fill 32 3] := by
    have hsub : oddBlock.txids ++ poisonedBlock.txids ⊆ [.fill 32 1, .fill 32 2, .fill 32 3] := by
      decide
    exact hsub ht
  have hpairs : p ∈ oddPairs := by
    rw [hashed_odd, hashed_poisoned, List.mem_append, or_self] at hp
    exact hp
  exact (List.nodup_append.mp oddNodes_nodup).2.2 t hids _ (List.mem_map_of_mem hpairs) heq.symm

lemma oddBlock_repeats : oddBlock.repeats = false := by
  have hne : hashPair (.fill 32 1) (.fill 32 2) ≠ hashPair (.fill 32 3) (.fill 32 3) := by
    have hpairs : ((.fill 32 1, .fill 32 2) : Hash × Hash) ≠ (.fill 32 3, .fill 32 3) := by decide
    exact fun h =>
      hpairs (List.inj_on_of_nodup_map (List.nodup_append.mp oddNodes_nodup).2.1 List.mem_cons_self
      (List.mem_cons_of_mem _ List.mem_cons_self) h)
  have hids : (.fill 32 1 : Hash) ≠ .fill 32 2 := by decide
  have hlevels : oddBlock.repeats = (decide ((.fill 32 1 : Hash) = .fill 32 2) ||
      decide (hashPair (.fill 32 1) (.fill 32 2) = hashPair (.fill 32 3) (.fill 32 3))) := by
    simp only [Block.repeats, oddBlock, sealBlock, List.map_cons, List.map_nil, List.any_cons,
      List.any_nil, idTx]
    rw [repeats_of_one_lt _ (by simp), repeats_of_one_lt _ (by simp [pairLevel]),
      repeats_of_le_one _ (by simp [pairLevel]), repeats_of_le_one _ (by simp)]
    simp only [twins, pairLevel, Bool.or_false]
  rw [hlevels, decide_eq_false hids, decide_eq_false hne, Bool.or_false]

/-- The repetition is what tells the two blocks apart. -/
theorem header_admits_odd :
    oddBlock.txids ≠ poisonedBlock.txids ∧ poisonedBlock.repeats = true := by
  have h := (header_admits oddBlock_valid poisonedBlock_valid poisoned_header odd_collision
    odd_fresh).2.2 oddBlock_repeats
  have hne : oddBlock.txids ≠ poisonedBlock.txids := by decide
  exact ⟨hne, by simpa using mt h.mpr hne⟩

/-- **A header admits two lists.** Both blocks are valid and have one header, no two of the pairs
hashed collide and no txid is a hash of one, and one of them has a transaction more. -/
theorem header_admits_two :
    ∃ b₁ b₂, validateBlock b₁ = true ∧ validateBlock b₂ = true ∧ b₁.header = b₂.header ∧
      ¬Collides (b₁.hashed ++ b₂.hashed) ∧
      (∀ t ∈ b₁.txids ++ b₂.txids, ∀ p ∈ b₁.hashed ++ b₂.hashed, hashPair p.1 p.2 ≠ t) ∧
      b₂.txids = b₁.txids ++ [.fill 32 3] :=
  ⟨oddBlock, poisonedBlock, oddBlock_valid, poisonedBlock_valid, poisoned_header, odd_collision,
    odd_fresh, by decide⟩

end Ingest

end MemServe
