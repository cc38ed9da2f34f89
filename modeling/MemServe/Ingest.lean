import Mathlib.Data.List.Forall2
import MemServe.Proof
import MemServe.Prune
import MemServe.Shard
import MemServe.Teranode

/-!
Ingest: a sealed block is validated, indexed into the store of one shard, and followed by the
pruner; a reorged-out block is rolled back.

The body of `IngestBlock` writes as it goes, so it runs on the statistics and the store
together and both survive an error.
-/

namespace MemServe.Ingest

open Teranode

structure Ingestor where
  pruner : Option Prune.Pruner
  k : ℕ
  id : UInt32
  skipValidate : Bool
  deriving DecidableEq

structure Config where
  k : ℕ := 0
  id : UInt32 := 0
  skipValidate : Bool := false
  deriving DecidableEq

def new (pruner : Option Prune.Pruner) (cfg : Config) : Ingestor :=
  ⟨pruner, cfg.k, cfg.id, cfg.skipValidate⟩

def Ingestor.owns (ing : Ingestor) (txid : Hash) : Bool :=
  if ing.k = 0 then true else Shard.of txid ing.k == ing.id

/-- Whether a subtree is stored: it holds an owned transaction. -/
def Ingestor.ownAny (ing : Ingestor) (sub : Subtree) : Bool :=
  if ing.k = 0 then true else sub.txIDs.any ing.owns

structure Stats where
  blocks : ℕ := 0
  txsIndexed : ℕ := 0
  utxosMade : ℕ := 0
  utxosSpent : ℕ := 0
  pruned : ℕ := 0
  deriving DecidableEq

inductive Error
  | invalidBlock
  | store (e : StoreError)
  deriving DecidableEq

/-- The check of one subtree against its recorded root. -/
def validSubtree (sub : Subtree) (claimed : Hash) : Bool :=
  match Commitment.merkleRoot sub.txIDs with
  | .error _ => false
  | .ok root => root == sub.root && root == claimed

/-- Merkle consistency of a block: subtree roots, block root, header. -/
def validateBlock (b : Block) : Bool :=
  if b.subtrees.length ≠ b.subtreeRoots.length then false
  else if !(b.subtrees.zip b.subtreeRoots).all fun p => validSubtree p.1 p.2 then false
  else
    match Commitment.merkleRoot b.subtreeRoots with
    | .error _ => false
    | .ok blockRoot => blockRoot == b.merkleRoot && Proof.headerMerkleRoot b.header == b.merkleRoot

lemma validSubtree_iff {sub : Subtree} {claimed : Hash} :
    validSubtree sub claimed = true ↔ Commitment.merkleRoot sub.txIDs = .ok sub.root ∧
      sub.root = claimed := by
  unfold validSubtree
  cases Commitment.merkleRoot sub.txIDs with
  | error e => simp
  | ok root =>
    simp only [Bool.and_eq_true, beq_iff_eq, Except.ok.injEq]
    constructor <;> rintro ⟨rfl, rfl⟩ <;> exact ⟨rfl, rfl⟩

/-- **What a valid block commits to**: each subtree to its leaves, the block to its subtrees, the
header to the block. -/
lemma validateBlock_roots {b : Block} (h : validateBlock b = true) :
    b.subtrees.map Subtree.root = b.subtreeRoots ∧
      (∀ s ∈ b.subtrees, Commitment.merkleRoot s.txIDs = .ok s.root) ∧
      Commitment.merkleRoot b.subtreeRoots = .ok b.merkleRoot ∧
      Proof.headerMerkleRoot b.header = b.merkleRoot := by
  unfold validateBlock at h
  split_ifs at h with hlen hall
  have hlen' : b.subtrees.length = b.subtreeRoots.length := not_not.mp hlen
  rw [Bool.not_eq_true, Bool.not_eq_false', List.all_eq_true] at hall
  have hsubs : List.Forall₂ (fun s r => Commitment.merkleRoot s.txIDs = .ok s.root ∧ s.root = r)
      b.subtrees b.subtreeRoots :=
    List.forall₂_iff_zip.mpr ⟨hlen', fun hp => validSubtree_iff.mp (hall _ hp)⟩
  refine ⟨?_, fun s hs => ?_, ?_⟩
  · rw [← List.forall₂_eq_eq_eq, List.forall₂_map_left_iff]
    exact hsubs.imp fun _ _ h => h.2
  · obtain ⟨i, hi, rfl⟩ := List.mem_iff_getElem.mp hs
    exact (hsubs.get hi (by omega)).1
  · cases hr : Commitment.merkleRoot b.subtreeRoots with
    | error e => simp [hr] at h
    | ok root =>
      simp only [hr, Bool.and_eq_true, beq_iff_eq] at h
      exact ⟨by rw [h.1], h.2⟩

lemma headerMerkleRoot_buildHeader (h t : UInt32) (root : Hash) :
    Proof.headerMerkleRoot (buildHeader h t root) = root := by
  refine ByteArr.ext ?_
  have hlen : (leBytes 4 0x20000000 ++ List.replicate 28 0 ++ beBytes 4 h.toNat : Bytes).length =
    36 := by simp
  rw [Proof.headerMerkleRoot, ByteArr.slice_val, buildHeader]
  simp only [List.append_assoc]
  rw [← List.append_assoc, ← List.append_assoc, List.drop_left' hlen, List.take_left' root.2]

lemma validateBlock_sealBlock {h : UInt32} {subs : List (List Tx)} (hne : subs ≠ [])
    (hsub : ∀ txs ∈ subs, txs ≠ []) : validateBlock (sealBlock h subs) = true := by
  have hall : ((sealBlock h subs).subtrees.zip (sealBlock h subs).subtreeRoots).all
      (fun p => validSubtree p.1 p.2) = true := by
    simp only [sealBlock, List.zip_map', List.all_map, List.all_eq_true]
    intro txs htxs
    have hids : txs.map Tx.txID ≠ [] := by simpa using hsub txs htxs
    simp [validSubtree, merkleRoot_eq_rootOf hids]
  have hroot : Commitment.merkleRoot (sealBlock h subs).subtreeRoots =
    .ok (sealBlock h subs).merkleRoot :=
    merkleRoot_eq_rootOf (by simpa [sealBlock] using hne)
  rw [validateBlock, if_neg (by simp [sealBlock]), hall, hroot]
  simp [sealBlock, headerMerkleRoot_buildHeader]

/-! ### Indexing a block -/

abbrev IngestM (σ α : Type) : Type := ExceptT StoreError (StateM (Stats × σ)) α

section

variable {σ : Type}

/-- A store call inside the body. -/
def call {α : Type} (m : StoreM σ α) : IngestM σ α := fun c =>
  (((m c.2).1, (c.1, (m c.2).2)) : _ × Stats × σ)

def count (f : Stats → Stats) : IngestM σ Unit := modify fun c => (f c.1, c.2)

variable [Store σ]

def blockRec (b : Block) : BlockRec :=
  ⟨b.hash, b.height, b.time, b.merkleRoot, b.subtreeRoots, b.header⟩

/-- The index entry of the transaction at leaf `li` of subtree `si`. -/
def indexEntry (b : Block) (si li : ℕ) : TxIndex where
  mined := true
  blockHash := b.hash
  height := b.height
  blockTime := b.time
  subtreeIndex := UInt32.ofNat si
  leafIndex := UInt32.ofNat li
  seenTime := b.time.toNat * 1000000000

/-- **The records of a valid block prove its transactions**, as long as the place of the transaction
fits the 32 bits of its index entry. -/
lemma assemble_placed {b : Block} {si li : ℕ} {sub : Subtree} {tx : Tx}
    (hval : validateBlock b = true) (hpar : b.Parallel)
    (hleaves : ∀ s ∈ b.subtrees, s.txIDs.length ≤ 2 ^ 20) (hcount : b.subtrees.length ≤ 2 ^ 32)
    (hsi : b.subtrees[si]? = some sub) (hli : sub.txs[li]? = some tx) :
    (blockRec b).subtreeRoots[(indexEntry b si li).subtreeIndex.toNat]? = some sub.root ∧
      (indexEntry b si li).leafIndex.toNat < sub.txIDs.length ∧
      ∃ p, Proof.assemble tx.txID (indexEntry b si li) (blockRec b) sub.root sub.txIDs = .ok p ∧
        p.leaf = tx.txID ∧
        p.verify = true ∧ p.blockRoot = Proof.headerMerkleRoot p.header := by
  obtain ⟨hroots, hsroot, hbroot, hhdr⟩ := validateBlock_roots hval
  have hmem : sub ∈ b.subtrees := List.mem_of_getElem? hsi
  have hli' : sub.txIDs[li]? = some tx.txID := by
    rw [← hpar sub hmem, List.getElem?_map, hli, Option.map_some]
  -- both indices are recorded exactly
  have hsilt : (UInt32.ofNat si).toNat = si := by
    have := (List.getElem?_eq_some_iff.mp hsi).1
    exact UInt32.toNat_ofNat_of_lt' (by change si < 2 ^ 32; omega)
  have hlilt : (UInt32.ofNat li).toNat = li := by
    have := (List.getElem?_eq_some_iff.mp hli').1
    have := hleaves sub hmem
    exact UInt32.toNat_ofNat_of_lt' (by change li < 2 ^ 32; omega)
  have hlen : (blockRec b).subtreeRoots.length ≤ 2 ^ 32 := by
    change b.subtreeRoots.length ≤ _
    rwa [← hroots, List.length_map]
  have hleaf : sub.txIDs[(indexEntry b si li).leafIndex.toNat]? = some tx.txID := by
    rw [← hli']
    exact congrArg (sub.txIDs[·]?) hlilt
  have hroot : (blockRec b).subtreeRoots[(indexEntry b si li).subtreeIndex.toNat]? =
      some sub.root := by
    change b.subtreeRoots[(UInt32.ofNat si).toNat]? = _
    rw [hsilt, ← hroots, List.getElem?_map, hsi, Option.map_some]
  obtain ⟨p, hp, hpl, hver, hbr, hh⟩ :=
    Proof.assemble_complete hleaf (hsroot sub hmem) hroot hbroot (hleaves sub hmem) hlen
  exact ⟨hroot, (List.getElem?_eq_some_iff.mp hleaf).1, p, hp, hpl,
    hver, by rw [hbr, hh]; exact hhdr.symm⟩

/-- Stores the leaves of the subtrees that hold an owned transaction. -/
def putSubtrees (ing : Ingestor) (b : Block) : IngestM σ Unit :=
  b.subtrees.forM fun sub => do
    if ing.ownAny sub then call (Store.putSubtree sub.root sub.txIDs)

def outpoint (tx : Tx) (vout : ℕ) : Outpoint := ⟨tx.txID, UInt32.ofNat vout⟩

/-- Indexes one transaction: its entry, the outputs it spends, the outputs it creates. -/
def indexTx (b : Block) (si li : ℕ) (tx : Tx) : IngestM σ Unit := do
  call (Store.putTxIndex tx.txID (indexEntry b si li))
  count fun st => { st with txsIndexed := st.txsIndexed + 1 }
  tx.inputs.forM fun op => do
    let ok ← call (Store.spendUTXO op tx.txID b.height)
    if ok then count fun st => { st with utxosSpent := st.utxosSpent + 1 }
  tx.outputs.zipIdx.forM fun o => do
    call (Store.putUTXO (outpoint tx o.2) { value := o.1.value, scriptHash := o.1.scriptHash })
    count fun st => { st with utxosMade := st.utxosMade + 1 }

def indexTxs (ing : Ingestor) (b : Block) : IngestM σ Unit :=
  b.subtrees.zipIdx.forM fun sub =>
    sub.1.txs.zipIdx.forM fun tx => do
      if ing.owns tx.1.txID then indexTx b sub.2 tx.2 tx.1

/-- Everything `IngestBlock` does between the validation and the pruner. -/
def indexBlock (ing : Ingestor) (b : Block) : IngestM σ Unit := do
  putSubtrees ing b
  call (Store.putBlock (blockRec b))
  call (Store.putHeader b.height b.header)
  indexTxs ing b
  count fun st => { st with blocks := 1 }

def ingestBlock (ing : Ingestor) (b : Block) (s : σ) : (Stats × Option Error) × Ingestor × σ :=
  if !ing.skipValidate && !validateBlock b then (({}, some .invalidBlock), ing, s)
  else
    match (indexBlock ing b).run.run ({}, s) with
    | (.error e, st, s1) => ((st, some (.store e)), ing, s1)
    | (.ok (), st, s1) =>
      match ing.pruner with
      | none => ((st, none), ing, s1)
      | some pr =>
        match Prune.onNewBlock pr b.height s1 with
        | ((_, some e), pr', s2) => ((st, some (.store e)), { ing with pruner := some pr' }, s2)
        | ((n, none), pr', s2) =>
          (({ st with pruned := n }, none), { ing with pruner := some pr' }, s2)

/-- Blocks handed to `IngestBlock` one after the other, whatever it answers. -/
def feed (p : Ingestor × σ) (bs : List Block) : Ingestor × σ :=
  bs.foldl (fun p b => (ingestBlock p.1 b p.2).2) p

def rollbackTx (tx : Tx) : StoreM σ Unit := do
  tx.inputs.forM fun op => do
    let _ ← Store.unspendUTXO op
  (List.range tx.outputs.length).forM fun vout => do
    let _ ← Store.deleteUTXO (outpoint tx vout)
  let _ ← Store.deleteTxIndex tx.txID

def rollbackBlock (ing : Ingestor) (b : Block) : StoreM σ Unit :=
  b.subtrees.forM fun sub =>
    sub.txs.forM fun tx => do
      if ing.owns tx.txID then rollbackTx tx

/-- Blocks rolled back one after the other. -/
def rollbackAll (p : Ingestor × σ) (bs : List Block) : Ingestor × σ :=
  bs.foldl (fun p b => (p.1, ((rollbackBlock p.1 b).run.run p.2).2)) p

end

end MemServe.Ingest
