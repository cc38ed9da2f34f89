import MemServe.Commitment

/-!
Merkle paths show what is in the tree, and only that.

Both ways of reading a path off the levels give the same one, as long as the tree is deep, and it
folds to the root. Conversely what folds to the root is in the tree, unless `HashPair` has collided.
-/

namespace MemServe.Commitment

lemma ceilLog2_eq (n : UInt64) : ceilLog2 n = Nat.clog 2 n.toNat := by
  unfold ceilLog2 len64
  split_ifs with h
  · have hle : n.toNat ≤ 1 := UInt64.le_iff_toNat_le.mp h
    exact (Nat.clog_of_right_le_one hle 2).symm
  · have hlt : 1 < n.toNat := UInt64.lt_iff_toNat_lt.mp (UInt64.not_le.mp h)
    have hsub : (n - 1).toNat = n.toNat - 1 :=
      UInt64.toNat_sub_of_le n 1 (UInt64.le_iff_toNat_le.mpr hlt.le)
    -- both are the least power of two that `n` does not exceed
    refine eq_of_forall_ge_iff fun k => ?_
    rw [hsub, Nat.size_le, Nat.clog_le_iff_le_pow (by omega)]
    omega

lemma pathInto_toList (layers : List (List Hash)) (i : ℕ) (dst : GoSlice PathElem) :
    (pathInto layers i dst).map GoSlice.toList =
      match MerkleTree.path layers i with
      | none => .error .panic
      | some p => .ok (dst.toList ++ p.map PathElem.ofPair) := by
  fun_induction pathInto layers i dst with
  | case1 cur next rest i dst hsib =>
    rw [MerkleTree.path, hsib]
    rfl
  | case2 cur next rest i dst e hsib ih =>
    rw [ih, MerkleTree.path, hsib]
    cases MerkleTree.path (next :: rest) (i / 2) with
    | none => rfl
    | some p => simp
  | case3 layers i dst hshort =>
    rw [MerkleTree.path]
    · simp [Except.map]
    · exact hshort

/-- The two extractors agree on all levels and all indices, whatever the buffer held. -/
lemma merklePathInto_toList (layers : List (List Hash)) (i : ℕ) (dst : GoSlice PathElem) :
    (merklePathInto layers i dst).map GoSlice.toList = merklePath layers i := by
  unfold merklePathInto merklePath
  cases layers with
  | nil => rfl
  | cons l rest =>
    dsimp only
    split_ifs with h
    · rfl
    · rw [pathInto_toList, GoSlice.toList_reset]
      rfl

/-- **Every leaf has its path.** The path of a leaf is found, folds to the root, is as long as the
tree is deep, and is the same read into any buffer. -/
theorem merklePath_exact (leaves : List Hash) (i : ℕ) (hi : i < leaves.length) :
    ∃ root layers path, buildMerkleTree leaves = .ok (root, layers) ∧
      merklePath layers i = .ok path ∧
      fold leaves[i] path = root ∧ path.length = Nat.clog 2 leaves.length ∧
      (∀ n : UInt64, n.toNat = leaves.length → path.length = ceilLog2 n) ∧
      ∀ dst, (merklePathInto layers i dst).map GoSlice.toList = .ok path := by
  have hlen : leaves.length ≠ 0 := by omega
  obtain ⟨root, hroot⟩ : ∃ root, merkleRoot leaves = .ok root := by
    rw [merkleRoot, buildMerkleTree, if_neg hlen]
    exact ⟨_, rfl⟩
  obtain ⟨path, hpath, hclog, hfold⟩ := merklePath_complete (List.getElem?_eq_getElem hi) hroot
  refine ⟨root, _, path, buildMerkleTree_layers hroot, hpath, hfold, hclog,
    fun n hn => ?_, fun dst => ?_⟩
  · rw [ceilLog2_eq, hn, hclog]
  · rw [merklePathInto_toList, hpath]

/-- The last of three leaves, which is paired with itself. -/
theorem merklePath_exact_odd :
    ∃ root layers path, buildMerkleTree [.fill 32 1, .fill 32 2, .fill 32 3] = .ok (root, layers) ∧
      merklePath layers 2 = .ok path ∧ fold (.fill 32 3) path = root ∧ path.length = 2 ∧
        path.length = ceilLog2 3 := by
  obtain ⟨root, layers, path, hbuild, hpath, hfold, hclog, hceil, -⟩ :=
    merklePath_exact [.fill 32 1, .fill 32 2, .fill 32 3] 2 (by decide)
  exact ⟨root, layers, path, hbuild, hpath, hfold, hclog.trans (by decide), hceil 3 (by decide)⟩

/-! ### Soundness -/

/-- The pairs hashed in building the tree over `leaves`. -/
def treePairs (leaves : List Hash) : List (Hash × Hash) := MerkleTree.treePairs hashPair leaves

/-- The pairs hashed in folding `path` from `x`. -/
def foldPairs (x : Hash) (path : List PathElem) : List (Hash × Hash) :=
  MerkleTree.foldPairs hashPair x (path.map PathElem.toPair)

/-- Two different pairs of the list have one hash. -/
def Collides (ps : List (Hash × Hash)) : Prop := MerkleTree.Collision hashPair ps

lemma fold_toPair (x : Hash) (path : List PathElem) :
    fold x path = MerkleTree.fold hashPair x (path.map PathElem.toPair) := by
  rw [← fold_ofPair, List.map_map]
  exact congrArg (fold x) (List.map_id path).symm

lemma root?_of_build {leaves : List Hash} {root : Hash} {layers : List (List Hash)}
    (h : buildMerkleTree leaves = .ok (root, layers)) :
    layers = MerkleTree.layers hashPair leaves ∧ MerkleTree.root? hashPair leaves = some root := by
  unfold buildMerkleTree at h
  split_ifs at h with hlen
  obtain ⟨x, hx⟩ : ∃ x, leaves[0]? = some x := ⟨_, List.getElem?_eq_getElem (by omega)⟩
  obtain ⟨p, -, -, hroot⟩ := MerkleTree.path_complete hashPair hx
  rw [hroot] at h ⊢
  cases h
  exact ⟨rfl, rfl⟩

/-- **A path to the root starts in the tree.** Whatever the path, what it starts from is a node of
the level as far from the root as the path is long, and a leaf if the path is as long as the tree is
deep; or else two different pairs with one hash are among those hashed by the tree and by the
fold. -/
theorem fold_root_sound {leaves : List Hash} {root : Hash} {layers : List (List Hash)} {d : ℕ}
    (hbuild : buildMerkleTree leaves = .ok (root, layers)) (hd : layers.length = d + 1) {x : Hash}
    {path : List PathElem} (hlen : path.length ≤ d) (hfold : fold x path = root) :
    (∃ level, layers[d - path.length]? = some level ∧ x ∈ level ∧
      (path.length = d → level = leaves)) ∨
      Collides (treePairs leaves ++ foldPairs x path) := by
  obtain ⟨rfl, hroot⟩ := root?_of_build hbuild
  rw [← hfold, fold_toPair] at hroot
  have hlt : (path.map PathElem.toPair).length < (MerkleTree.layers hashPair leaves).length := by
    rw [List.length_map, hd]
    omega
  rcases MerkleTree.fold_sound hashPair hlt hroot with ⟨level, hlevel, hmem⟩ | hcol
  · rw [List.length_map, hd, Nat.add_sub_cancel] at hlevel
    refine .inl ⟨level, hlevel, hmem, fun hfull => ?_⟩
    rw [hfull, Nat.sub_self, ← List.head?_eq_getElem?, MerkleTree.layers_head?] at hlevel
    exact (Option.some.inj hlevel).symm
  · exact .inr hcol

/-- A leaf and its sibling. -/
theorem fold_root_sound_pair :
    (.fill 32 1 : Hash) ∈ [(.fill 32 1 : Hash), .fill 32 2] ∨
      Collides
        (treePairs [.fill 32 1, .fill 32 2] ++ foldPairs (.fill 32 1) [⟨.fill 32 2, true⟩]) := by
  have hbuild : buildMerkleTree [.fill 32 1, .fill 32 2] =
      .ok (hashPair (.fill 32 1) (.fill 32 2),
        [[.fill 32 1, .fill 32 2], [hashPair (.fill 32 1) (.fill 32 2)]]) := rfl
  have hfold : fold (.fill 32 1) [⟨.fill 32 2, true⟩] = hashPair (.fill 32 1) (.fill 32 2) := rfl
  rcases fold_root_sound hbuild rfl (le_refl 1) hfold with ⟨level, -, hmem, hleaves⟩ | hcol
  · rw [hleaves rfl] at hmem
    exact .inl hmem
  · exact .inr hcol

end MemServe.Commitment
