import Mathlib.Data.Nat.Size
import MemServe.GoSlice
import MemServe.MerkleTree
import MemServe.Sha256

/-!
The levels L1 and L2 of the commitment hierarchy: SHA-256d Merkle trees, the paths served
from them, and the fold that verifies a path.
-/

namespace MemServe

/-- A 32-byte SHA-256d digest. -/
abbrev Hash := ByteArr 32

namespace Commitment

/-- One sibling on a Merkle path, ordered from the leaf to the root. -/
structure PathElem where
  sibling : Hash
  right : Bool
  deriving DecidableEq

def PathElem.ofPair (e : Hash × Bool) : PathElem := ⟨e.1, e.2⟩

def PathElem.toPair (e : PathElem) : Hash × Bool := (e.sibling, e.right)

def maxDepth : ℕ := 255

inductive Error
  | empty
  | indexOutOfRange
  | fieldOutOfRange
  /-- A slice index out of range at run time. -/
  | panic
  deriving DecidableEq

def doubleSHA256 (b : Bytes) : Hash := Sha256.sum256 (Sha256.sum256 b).1

def hashPair (left right : Hash) : Hash := doubleSHA256 (left.1 ++ right.1)

/-- The root and all levels of the tree over `leaves`. -/
def buildMerkleTree (leaves : List Hash) : Except Error (Hash × List (List Hash)) :=
  if leaves.length = 0 then .error .empty
  else
    -- the last level holds a single node
    .ok ((MerkleTree.root? hashPair leaves).getD default, MerkleTree.layers hashPair leaves)

def merkleRoot (leaves : List Hash) : Except Error Hash := (buildMerkleTree leaves).map Prod.fst

def merklePath (layers : List (List Hash)) (index : ℕ) : Except Error (List PathElem) :=
  match layers with
  | [] => .error .indexOutOfRange
  | l :: rest =>
    if l.length ≤ index then .error .indexOutOfRange
    else
      match MerkleTree.path (l :: rest) index with
      | none => .error .panic
      | some p => .ok (p.map PathElem.ofPair)

/-- The loop of `MerklePathInto`. -/
def pathInto : List (List Hash) → ℕ → GoSlice PathElem → Except Error (GoSlice PathElem)
  | cur :: next :: rest, idx, dst =>
    match MerkleTree.sibling cur idx with
    | none => .error .panic
    | some e => pathInto (next :: rest) (idx / 2) (dst.append (.ofPair e))
  | _, _, dst => .ok dst

/-- `MerklePath` into the array of `dst`, as far as that has room. -/
def merklePathInto (layers : List (List Hash)) (index : ℕ) (dst : GoSlice PathElem) :
    Except Error (GoSlice PathElem) :=
  match layers with
  | [] => .error .indexOutOfRange
  | l :: rest =>
    if l.length ≤ index then .error .indexOutOfRange else pathInto (l :: rest) index dst.reset

def foldStep (node : Hash) (e : PathElem) : Hash :=
  if e.right then hashPair node e.sibling else hashPair e.sibling node

/-- The root implied by a leaf and its path. -/
def fold (leaf : Hash) (path : List PathElem) : Hash := path.foldl foldStep leaf

/-- `bits.Len64`. -/
def len64 (x : UInt64) : ℕ := Nat.size x.toNat

/-- The binary logarithm, rounded up. -/
def ceilLog2 (n : UInt64) : ℕ := if n ≤ 1 then 0 else len64 (n - 1)

/-- Verifies an inclusion through all levels at once; `l0` is empty when `leaf` is a txid. -/
def verifyToBlockRoot (leaf : Hash) (l0 l1 l2 : List PathElem) (blockMerkleRoot : Hash) :
    Bool × ℕ :=
  let depth := l0.length + l1.length + l2.length
  if maxDepth < depth ∨ 20 < l1.length then (false, depth)
  else
    let mtxid := fold leaf l0
    let sub := fold mtxid l1
    let root := fold sub l2
    (root = blockMerkleRoot, depth)

@[simp] lemma fold_nil (leaf : Hash) : fold leaf [] = leaf := rfl

lemma fold_ofPair (leaf : Hash) (p : List (Hash × Bool)) :
    fold leaf (p.map PathElem.ofPair) = MerkleTree.fold hashPair leaf p := by
  unfold fold MerkleTree.fold
  rw [List.foldl_map]
  rfl

lemma merkleRoot_singleton (a : Hash) : merkleRoot [a] = .ok a := by
  simp [merkleRoot, buildMerkleTree, MerkleTree.root?_singleton, Except.map]

lemma buildMerkleTree_layers {leaves : List Hash} {r : Hash} (h : merkleRoot leaves = .ok r) :
    buildMerkleTree leaves = .ok (r, MerkleTree.layers hashPair leaves) := by
  unfold merkleRoot at h
  unfold buildMerkleTree at h ⊢
  split_ifs at h ⊢ with h0
  · simp [Except.map] at h
  · simp only [Except.map, Except.ok.injEq] at h
    rw [h]

lemma merklePath_layers {leaves : List Hash} {i : ℕ} {p : List (Hash × Bool)}
    (hi : i < leaves.length) (hp : MerkleTree.path (MerkleTree.layers hashPair leaves) i = some p) :
    merklePath (MerkleTree.layers hashPair leaves) i = .ok (p.map PathElem.ofPair) := by
  obtain ⟨l, rest, hcons⟩ : ∃ l rest, MerkleTree.layers hashPair leaves = l :: rest :=
    List.exists_cons_of_ne_nil (MerkleTree.layers_ne_nil hashPair leaves)
  have hl : l = leaves := by
    have := MerkleTree.layers_head? hashPair leaves
    rw [hcons] at this
    simpa using this
  rw [hcons] at hp ⊢
  simp only [merklePath, hl, if_neg (Nat.not_le.mpr hi)]
  rw [← hl, hp]

lemma merklePath_complete {leaves : List Hash} {i : ℕ} {x r : Hash}
    (hx : leaves[i]? = some x) (hr : merkleRoot leaves = .ok r) :
    ∃ p, merklePath (MerkleTree.layers hashPair leaves) i = .ok p ∧
      p.length = Nat.clog 2 leaves.length ∧ fold x p = r := by
  have hi : i < leaves.length := (List.getElem?_eq_some_iff.mp hx).1
  have hne : leaves ≠ [] := List.length_pos_iff.mp (by omega)
  obtain ⟨p, hp, hlen, hroot⟩ := MerkleTree.path_complete hashPair hx
  rw [MerkleTree.length_layers hashPair hne, Nat.add_sub_cancel] at hlen
  refine ⟨p.map PathElem.ofPair, merklePath_layers hi hp, by simpa using hlen, ?_⟩
  rw [fold_ofPair]
  have h := buildMerkleTree_layers hr
  unfold buildMerkleTree at h
  rw [if_neg (by omega), hroot] at h
  simpa using h

end Commitment

end MemServe
