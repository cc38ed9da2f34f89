import MemServe.Node

/-!
What a block does to one record and to one index entry.

Writes to the record of an outpoint depend on no other record, so a run of writes acts on each
record by itself: a transaction overwrites it, spends it or leaves it alone, a sweep evicts it
if it was spent in a swept band, a rollback deletes it, unspends it or leaves it alone.
-/

namespace MemServe

open Teranode Ingest

/-- A run of writes on the record of `op`. -/
def cells (op : Outpoint) (cs : List Call) (x : Option UTXO) : Option UTXO :=
  Trace.run (fun c => c.cell op) cs x

@[simp] lemma cells_nil (op : Outpoint) (x : Option UTXO) : cells op [] x = x := rfl
@[simp] lemma cells_cons (op : Outpoint) (c : Call) (cs : List Call) (x : Option UTXO) :
    cells op (c :: cs) x = cells op cs (c.cell op x) := rfl
lemma cells_append (op : Outpoint) (cs ds : List Call) (x : Option UTXO) :
    cells op (cs ++ ds) x = cells op ds (cells op cs x) := Trace.run_append _ _ _ _

lemma Flat.run_utxo (f : Flat) (cs : List Call) (op : Outpoint) :
    (f.run cs).utxo op = cells op cs (f.utxo op) :=
  Trace.run_related (r := fun (f : Flat) x => f.utxo op = x) Flat.apply
    (fun c _ f x h => by rw [Flat.apply_utxo, h]) rfl

lemma cells_flatMap {ι : Type} {op : Outpoint} {f : ι → List Call}
    {g : Option UTXO → ι → Option UTXO} (l : List ι) (h : ∀ i ∈ l, ∀ x, cells op (f i) x = g x i)
    (x : Option UTXO) :
    cells op (l.flatMap f) x = l.foldl g x := Trace.run_flatMap _ l h x

lemma cells_of_forall {op : Outpoint} {cs : List Call} (h : ∀ c ∈ cs, ∀ x, c.cell op x = x)
    (x : Option UTXO) : cells op cs x = x :=
  Trace.run_invariant (p := fun y => y = x) _ (fun c hc _ hy => by rw [h c hc, hy]) rfl

/-- The output a transaction creates at `op`. The source numbers outputs in 32 bits, so beyond
`2 ^ 32` outputs a later one takes the place of an earlier. -/
def Teranode.Tx.output? (tx : Tx) (op : Outpoint) : Option TxOut :=
  (tx.outputs.zipIdx.reverse.find? fun o => outpoint tx o.2 = op).map Prod.fst

def Teranode.TxOut.record (o : TxOut) : UTXO := { value := o.value, scriptHash := o.scriptHash }

lemma txID_of_output? {tx : Tx} {op : Outpoint} {o : TxOut} (h : tx.output? op = some o) :
    op.txID = tx.txID := by
  obtain ⟨p, hp, -⟩ := Option.map_eq_some_iff.mp h
  have hop : outpoint tx p.2 = op := by simpa using List.find?_some hp
  rw [← hop]
  rfl

lemma output?_isSome {tx : Tx} {op : Outpoint} :
    (tx.output? op).isSome ↔ ∃ vout < tx.outputs.length, outpoint tx vout = op := by
  rw [Tx.output?, Option.isSome_map, List.find?_isSome]
  constructor
  · rintro ⟨o, ho, hop⟩
    obtain ⟨-, hlt, -⟩ := List.mem_zipIdx (List.mem_reverse.mp ho)
    exact ⟨o.2, by omega, by simpa using hop⟩
  · rintro ⟨v, hv, hop⟩
    exact ⟨(tx.outputs[v], v),
      List.mem_reverse.mpr (by simp [List.mk_mem_zipIdx_iff_getElem?, hv]), by simpa using hop⟩

/-- There is an output at `op` exactly if the transaction has one of its number. -/
lemma output?_isSome_iff {tx : Tx} {op : Outpoint} :
    (tx.output? op).isSome ↔ op.txID = tx.txID ∧ op.vout.toNat < tx.outputs.length := by
  rw [output?_isSome]
  constructor
  · rintro ⟨v, hv, rfl⟩
    refine ⟨rfl, ?_⟩
    change (UInt32.ofNat v).toNat < _
    rw [UInt32.toNat_ofNat']
    exact Nat.lt_of_le_of_lt (Nat.mod_le _ _) hv
  · rintro ⟨htx, hv⟩
    refine ⟨op.vout.toNat, hv, ?_⟩
    rw [outpoint, UInt32.ofNat_toNat, ← htx]

lemma output?_eq_getElem? {tx : Tx} (h : tx.outputs.length ≤ 2 ^ 32) (v : UInt32) :
    tx.output? ⟨tx.txID, v⟩ = tx.outputs[v.toNat]? := by
  have hv : ∀ i < tx.outputs.length, (outpoint tx i = ⟨tx.txID, v⟩ ↔ i = v.toNat) := by
    intro i hi
    rw [outpoint, Outpoint.mk.injEq, ← UInt32.toNat_inj,
      UInt32.toNat_ofNat_of_lt' (by change i < 2 ^ 32; omega)]
    simp
  unfold Tx.output?
  cases hf : tx.outputs.zipIdx.reverse.find? fun o => outpoint tx o.2 = ⟨tx.txID, v⟩ with
  | none =>
    rw [List.find?_eq_none] at hf
    rw [Option.map_none, eq_comm, List.getElem?_eq_none_iff]
    by_contra hlt
    have hlt' : v.toNat < tx.outputs.length := by omega
    have hmem : (tx.outputs[v.toNat], v.toNat) ∈ tx.outputs.zipIdx := by
      simp [List.mk_mem_zipIdx_iff_getElem?, hlt']
    exact hf _ (List.mem_reverse.mpr hmem) (by simpa using (hv v.toNat hlt').mpr rfl)
  | some p =>
    have hmem := List.mem_reverse.mp (List.mem_of_find?_eq_some hf)
    have hop : outpoint tx p.2 = ⟨tx.txID, v⟩ := by simpa using List.find?_some hf
    obtain ⟨-, hlt, -⟩ := List.mem_zipIdx hmem
    rw [Option.map_some, ← (hv p.2 (by omega)).mp hop]
    exact (List.mk_mem_zipIdx_iff_getElem?.mp hmem).symm

/-- What a transaction mined at height `h` does to a record. -/
def txCell (h : UInt32) (op : Outpoint) (x : Option UTXO) (tx : Tx) : Option UTXO :=
  match tx.output? op with
  | some o => some o.record
  | none => if op ∈ tx.inputs then x.map (·.spend tx.txID h) else x

/-- What the rollback of a transaction does to a record. -/
def undoCell (op : Outpoint) (x : Option UTXO) (tx : Tx) : Option UTXO :=
  if (tx.output? op).isSome then none else if op ∈ tx.inputs then x.map (·.unspend) else x

/-- A sweep of the bands in `p`. -/
def evict (p : UInt32 → Bool) (x : Option UTXO) : Option UTXO :=
  x.filter fun u => !(u.spent && p u.spentHeight)

lemma cells_map {f : Option UTXO → Option UTXO} (hf : ∀ x, f (f x) = f x) {c : Outpoint → Call}
    {op : Outpoint} (hc : ∀ op' x, (c op').cell op x = if op = op' then f x else x)
    (l : List Outpoint)
    (x : Option UTXO) : cells op (l.map c) x = if op ∈ l then f x else x := by
  induction l generalizing x with
  | nil => simp
  | cons a l ih =>
    rw [List.map_cons, cells_cons, ih, hc]
    by_cases ha : op = a
    · by_cases hl : op ∈ l <;> simp [ha, hf]
    · simp [ha]

lemma cells_spendCalls (h : UInt32) (tx : Tx) (op : Outpoint) (x : Option UTXO) :
    cells op (spendCalls h tx) x = if op ∈ tx.inputs then x.map (·.spend tx.txID h) else x :=
  cells_map (f := Option.map (·.spend tx.txID h)) (fun x => by cases x <;> rfl) (fun _ _ => rfl) _ _

lemma cells_createCalls (tx : Tx) (op : Outpoint) (x : Option UTXO) :
    cells op (createCalls tx) x = ((tx.output? op).map TxOut.record).or x := by
  have h := Trace.foldl_overwrite (fun o : TxOut × ℕ => decide (op = outpoint tx o.2))
    (fun o => some o.1.record) tx.outputs.zipIdx x
  unfold cells createCalls Trace.run Tx.output?
  rw [List.foldl_map]
  simp only [decide_eq_true_eq] at h
  refine h.trans ?_
  simp only [eq_comm (a := op)]
  cases List.find? (fun o : TxOut × ℕ => decide (outpoint tx o.2 = op))
    tx.outputs.zipIdx.reverse <;> rfl

lemma cells_txCalls (b : Block) (si li : ℕ) (tx : Tx) (op : Outpoint) (x : Option UTXO) :
    cells op (txCalls b si li tx) x = txCell b.height op x tx := by
  rw [txCalls, cells_cons, cells_append, cells_spendCalls, cells_createCalls, txCell]
  cases tx.output? op <;> rfl

namespace Ingest

/-- The owned transactions of a block, each with its subtree and its leaf. -/
def placed (ing : Ingestor) (b : Block) : List (Tx × ℕ × ℕ) :=
  b.subtrees.zipIdx.flatMap fun sub =>
    (sub.1.txs.zipIdx.filter fun tx => ing.owns tx.1.txID).map fun tx => (tx.1, sub.2, tx.2)

def owned (ing : Ingestor) (b : Block) : List Tx := b.txs.filter fun tx => ing.owns tx.txID

lemma txsCalls_eq (ing : Ingestor) (b : Block) :
    txsCalls ing b = (placed ing b).flatMap fun p => txCalls b p.2.1 p.2.2 p.1 := by
  unfold txsCalls placed
  rw [List.flatMap_assoc]
  refine List.flatMap_congr fun sub _ => ?_
  rw [List.flatMap_map]
  induction sub.1.txs.zipIdx with
  | nil => rfl
  | cons tx l ih =>
    rw [List.flatMap_cons, ih, List.filter_cons]
    split_ifs <;> simp

lemma placed_map_fst (ing : Ingestor) (b : Block) : (placed ing b).map Prod.fst = owned ing b := by
  have hsub : ∀ sub : Subtree × ℕ, ((sub.1.txs.zipIdx.filter fun tx => ing.owns tx.1.txID).map
      fun tx => (tx.1, sub.2, tx.2)).map Prod.fst = sub.1.txs.filter fun tx =>
          ing.owns tx.txID := by
    intro sub
    conv_rhs => rw [← List.zipIdx_map_fst 0 sub.1.txs]
    rw [List.filter_map, List.map_map]
    rfl
  unfold placed owned Block.txs
  rw [List.map_flatMap, List.flatMap_congr fun sub _ => hsub sub, List.filter_flatMap]
  conv_rhs => rw [← List.zipIdx_map_fst 0 b.subtrees]
  rw [List.flatMap_map]

lemma owned_of_unsharded {ing : Ingestor} (hk : ing.k = 0) (b : Block) : owned ing b = b.txs := by
  refine List.filter_eq_self.mpr fun tx _ => ?_
  simp [Ingestor.owns, hk]

lemma rollbackCalls_eq (ing : Ingestor) (b : Block) :
    rollbackCalls ing b = (owned ing b).flatMap undoCalls := by
  unfold rollbackCalls owned Block.txs
  rw [List.filter_flatMap, List.flatMap_assoc]
  refine List.flatMap_congr fun sub _ => ?_
  induction sub.txs with
  | nil => rfl
  | cons tx l ih =>
    rw [List.flatMap_cons, ih, List.filter_cons]
    split_ifs <;> simp

end Ingest

lemma cells_indexCalls (ing : Ingestor) (b : Block) (op : Outpoint) (x : Option UTXO) :
    cells op (indexCalls ing b) x = (owned ing b).foldl (txCell b.height op) x := by
  have hsub : cells op (subtreeCalls ing b) x = x := by
    refine cells_of_forall (fun c hc x => ?_) x
    obtain ⟨sub, -, hc⟩ := List.mem_flatMap.mp hc
    split_ifs at hc
    · rw [List.mem_singleton.mp hc]; rfl
    · simp at hc
  rw [indexCalls, cells_append, hsub, cells_cons, cells_cons, txsCalls_eq,
    cells_flatMap _ fun p _ x => cells_txCalls b p.2.1 p.2.2 p.1 op x, ← placed_map_fst,
    List.foldl_map]
  rfl

lemma evict_evict (p q : UInt32 → Bool) (x : Option UTXO) :
    evict q (evict p x) = evict (fun h => p h || q h) x := by
  unfold evict
  cases x with
  | none => rfl
  | some u => cases hs : u.spent <;> cases hp : p u.spentHeight <;> cases hq : q u.spentHeight <;>
      simp [Option.filter, hs, hp, hq]

lemma cells_pruneSpent (l : List UInt32) (op : Outpoint) (x : Option UTXO) :
    cells op (l.map .pruneSpentAtHeight) x = evict (fun h => decide (h ∈ l)) x := by
  induction l generalizing x with
  | nil => cases x <;> simp [evict, Option.filter]
  | cons a l ih =>
    have hone : Call.cell (.pruneSpentAtHeight a) op x = evict (fun h => h == a) x := rfl
    rw [List.map_cons, cells_cons, hone, ih, evict_evict]
    congr 1
    funext h
    by_cases ha : h = a <;> simp [ha]

lemma cells_pruneCalls (pr : Prune.Pruner) (tip : UInt32) (op : Outpoint) (x : Option UTXO) :
    cells op (pruneCalls pr tip) x =
      evict (fun h => decide (h ∈ Prune.bands pr.lastTip pr.hasTip tip pr.policy.d)) x := by
  rw [pruneCalls, cells_append, cells_pruneSpent]
  refine cells_of_forall (fun c hc x => ?_) _
  split_ifs at hc
  · obtain ⟨h, -, rfl⟩ := List.mem_map.mp hc
    rfl
  · simp at hc

lemma cells_undoCalls (tx : Tx) (op : Outpoint) (x : Option UTXO) :
    cells op (undoCalls tx) x = undoCell op x tx := by
  have hdel : ∀ y,
      cells op ((List.range tx.outputs.length).map fun vout => .deleteUTXO (outpoint tx vout)) y =
      if (tx.output? op).isSome then none else y := by
    intro y
    rw [← Function.comp_def Call.deleteUTXO (outpoint tx), ← List.map_map,
      cells_map (f := fun _ => none) (fun _ => rfl) (fun _ _ => rfl)]
    refine if_congr ?_ rfl rfl
    rw [output?_isSome]
    simp
  have hun : cells op (tx.inputs.map .unspendUTXO) x = if op ∈ tx.inputs then
    x.map (·.unspend) else x :=
    cells_map (f := Option.map (·.unspend)) (fun x => by cases x <;> rfl) (fun _ _ => rfl) _ _
  rw [undoCalls, cells_append, cells_append, hun, hdel]
  rfl

lemma cells_rollbackCalls (ing : Ingestor) (b : Block) (op : Outpoint) (x : Option UTXO) :
    cells op (rollbackCalls ing b) x = (owned ing b).foldl (undoCell op) x := by
  rw [rollbackCalls_eq, cells_flatMap _ fun tx _ x => cells_undoCalls tx op x]

/-- What a write does to the index entry of `t`, unless it prunes a height of the index. -/
def Call.entry (c : Call) (t : Hash) (x : Option TxIndex) : Option TxIndex :=
  match c with
  | .putTxIndex t' ix => if t = t' then some ix else x
  | .deleteTxIndex t' => if t = t' then none else x
  | _ => x

def Call.keepsIndex (c : Call) : Prop := ∀ h, c ≠ .pruneIndexAtHeight h

lemma Flat.apply_txindex {c : Call} (hc : c.keepsIndex) (f : Flat) (t : Hash) :
    (f.apply c).txindex t = c.entry t (f.txindex t) := by
  cases c with
  | putTxIndex t' ix => exact Function.update_apply _ _ _ _
  | deleteTxIndex t' => exact Function.update_apply _ _ _ _
  | pruneIndexAtHeight h => exact absurd rfl (hc h)
  | _ => rfl

/-- A run of writes on the index entry of `t`. -/
def entries (t : Hash) (cs : List Call) (x : Option TxIndex) : Option TxIndex :=
  Trace.run (fun c => c.entry t) cs x

lemma entries_append (t : Hash) (cs ds : List Call) (x : Option TxIndex) :
    entries t (cs ++ ds) x = entries t ds (entries t cs x) := Trace.run_append _ _ _ _

lemma entries_flatMap {ι : Type} {t : Hash} {f : ι → List Call}
    {g : Option TxIndex → ι → Option TxIndex} (l : List ι)
    (h : ∀ i ∈ l, ∀ x, entries t (f i) x = g x i) (x : Option TxIndex) :
    entries t (l.flatMap f) x = l.foldl g x := Trace.run_flatMap _ l h x

lemma Flat.run_txindex {cs : List Call} (hcs : ∀ c ∈ cs, c.keepsIndex) (f : Flat) (t : Hash) :
    (f.run cs).txindex t = entries t cs (f.txindex t) :=
  Trace.run_related (r := fun (f : Flat) x => f.txindex t = x) Flat.apply
    (fun c hc f x h => by rw [Flat.apply_txindex (hcs c hc), h]) rfl

lemma entries_of_forall {t : Hash} {cs : List Call} (h : ∀ c ∈ cs, ∀ x, c.entry t x = x)
    (x : Option TxIndex) : entries t cs x = x :=
  Trace.run_invariant (p := fun y => y = x) _ (fun c hc _ hy => by rw [h c hc, hy]) rfl

/-- The entry a block leaves for `t`. -/
def Ingest.blockEntry (ing : Ingestor) (b : Block) (t : Hash) : Option TxIndex :=
  ((placed ing b).reverse.find? fun p => p.1.txID = t).map fun p => indexEntry b p.2.1 p.2.2

lemma entries_txCalls (b : Block) (si li : ℕ) (tx : Tx) (t : Hash) (x : Option TxIndex) :
    entries t (txCalls b si li tx) x = if tx.txID = t then some (indexEntry b si li) else x := by
  have hrest : ∀ y, entries t (spendCalls b.height tx ++ createCalls tx) y = y := by
    refine entries_of_forall fun c hc y => ?_
    rcases List.mem_append.mp hc with hc | hc
    · obtain ⟨op, -, rfl⟩ := List.mem_map.mp hc
      rfl
    · obtain ⟨o, -, rfl⟩ := List.mem_map.mp hc
      rfl
  rw [show entries t (txCalls b si li tx) x = entries t (spendCalls b.height tx ++ createCalls tx)
    (if t = tx.txID then some (indexEntry b si li) else x) from rfl, hrest]
  simp only [eq_comm]

lemma entries_indexCalls (ing : Ingestor) (b : Block) (t : Hash) (x : Option TxIndex) :
    entries t (indexCalls ing b) x = (blockEntry ing b t).or x := by
  have hsub : entries t (subtreeCalls ing b) x = x := by
    refine entries_of_forall (fun c hc x => ?_) x
    obtain ⟨sub, -, hc⟩ := List.mem_flatMap.mp hc
    split_ifs at hc
    · rw [List.mem_singleton.mp hc]; rfl
    · simp at hc
  have htxs : entries t (txsCalls ing b) x = (blockEntry ing b t).or x := by
    rw [txsCalls_eq]
    rw [entries_flatMap _ fun p _ x => entries_txCalls b p.2.1 p.2.2 p.1 t x]
    have h := Trace.foldl_overwrite (fun p : Tx × ℕ × ℕ => decide (p.1.txID = t))
      (fun p => some (indexEntry b p.2.1 p.2.2)) (placed ing b) x
    simp only [decide_eq_true_eq] at h
    rw [h, blockEntry]
    cases List.find? (fun p : Tx × ℕ × ℕ => decide (p.1.txID = t)) (placed ing b).reverse <;> rfl
  rw [indexCalls, entries_append, hsub]
  exact htxs

lemma blockEntry_isSome {ing : Ingestor} {b : Block} {t : Hash} :
    (blockEntry ing b t).isSome ↔ t ∈ (owned ing b).map Tx.txID := by
  rw [blockEntry, Option.isSome_map, List.find?_isSome, ← placed_map_fst, List.map_map]
  simp

lemma entries_undoCalls (tx : Tx) (t : Hash) (x : Option TxIndex) :
    entries t (undoCalls tx) x = if tx.txID = t then none else x := by
  have hrest : ∀ y, entries t (tx.inputs.map .unspendUTXO ++
      (List.range tx.outputs.length).map fun vout => .deleteUTXO (outpoint tx vout)) y = y := by
    refine entries_of_forall fun c hc y => ?_
    rcases List.mem_append.mp hc with hc | hc
    · obtain ⟨op, -, rfl⟩ := List.mem_map.mp hc
      rfl
    · obtain ⟨v, -, rfl⟩ := List.mem_map.mp hc
      rfl
  rw [undoCalls, entries_append, hrest]
  exact if_congr eq_comm rfl rfl

lemma entries_rollbackCalls (ing : Ingestor) (b : Block) (t : Hash) (x : Option TxIndex) :
    entries t (rollbackCalls ing b) x = if t ∈ (owned ing b).map Tx.txID then none else x := by
  rw [rollbackCalls_eq, entries_flatMap _ fun tx _ x => entries_undoCalls tx t x]
  induction owned ing b generalizing x with
  | nil => rfl
  | cons tx l ih =>
    rw [List.foldl_cons, ih]
    by_cases ht : tx.txID = t
    · simp [ht]
    · simp [ht, eq_comm (a := t)]

/-! ### A node and its blocks -/

/-- The ingestor of a node with a prune policy, after its tip. -/
def Ingest.Ingestor.at (cfg : Config) (policy : Prune.Policy) (tip : Option UInt32) : Ingestor :=
  Ingest.new (some ⟨policy, tip.getD 0, tip.isSome, 0⟩) cfg

/-- A node over an empty striped store. -/
def Ingest.fresh (cfg : Config) (policy : Prune.Policy) : Ingestor × Mem.Store :=
  (Ingest.new (some (Prune.new policy)) cfg, Mem.new)

/-- The blocks a node of this configuration indexes. -/
def Ingest.ingested (cfg : Config) (bs : List Block) : List Block :=
  bs.filter fun b => cfg.skipValidate || validateBlock b

namespace Node

/-- A fresh node. -/
def start (cfg : Config) (policy : Prune.Policy) : Node := ⟨.at cfg policy none, .empty⟩

lemma feed_filter (n : Node) (bs : List Block) : n.feed bs = n.feed (bs.filter n.ing.accepts) := by
  induction bs generalizing n with
  | nil => rfl
  | cons b bs ih =>
    cases h : n.ing.accepts b with
    | false =>
      have hrej : n.ingest b = n := by rw [ingest, if_neg (by simp [h])]
      rw [List.filter_cons_of_neg (by simp [h]), feed_cons, hrej]
      exact ih n
    | true =>
      have hacc : (n.ingest b).ing.accepts = n.ing.accepts := by rw [ingest_of_accepts h]; rfl
      rw [List.filter_cons_of_pos h, feed_cons, feed_cons, ih, hacc]

/-- **A fresh striped node fed blocks** stands for the fresh flat node fed the blocks it indexes. -/
lemma of_feed_fresh (cfg : Config) (policy : Prune.Policy) (bs : List Block) :
    (Ingest.feed (fresh cfg policy) bs).2.Indexed ∧
      Node.of (Ingest.feed (fresh cfg policy) bs) = (start cfg policy).feed (ingested cfg bs) := by
  obtain ⟨h1, h2⟩ := of_feed (p := fresh cfg policy) Mem.Store.new_indexed bs
  exact ⟨h1, h2.trans (feed_filter _ _)⟩

lemma flatten_fresh (cfg : Config) (policy : Prune.Policy) (bs : List Block) :
    (Ingest.feed (fresh cfg policy) bs).2.flatten = ((start cfg policy).feed bs).flat :=
  congrArg Node.flat (of_feed (p := fresh cfg policy) Mem.Store.new_indexed bs).2

lemma indexCalls_keepsIndex (ing : Ingestor) (b : Block) :
    ∀ c ∈ indexCalls ing b, c.keepsIndex := by
  rintro c hc h rfl
  exact indexCalls_indexes ing b _ hc

section At

variable {n : Node} {cfg : Config} {policy : Prune.Policy} {tip : Option UInt32} {b : Block}
  (hing : n.ing = .at cfg policy tip) (h : (cfg.skipValidate || validateBlock b) = true)

include hing h

lemma ingest_ing : (n.ingest b).ing = .at cfg policy (some b.height) := by
  rw [ingest_of_accepts (by rw [hing]; exact h), hing]
  rfl

lemma ingest_flat : (n.ingest b).flat = n.flat.run (indexCalls n.ing b ++
    pruneCalls ⟨policy, tip.getD 0, tip.isSome, 0⟩ b.height) := by
  rw [ingest_of_accepts (by rw [hing]; exact h), ingestCalls, hing]
  rfl

/-- **A block and one record**: its transactions, then its sweep. -/
lemma ingest_utxo (op : Outpoint) :
    (n.ingest b).flat.utxo op =
      evict (fun h => decide (h ∈ Prune.bands (tip.getD 0) tip.isSome b.height policy.d))
        ((owned n.ing b).foldl (txCell b.height op) (n.flat.utxo op)) := by
  rw [ingest_flat hing h, Flat.run_utxo, cells_append, cells_indexCalls, cells_pruneCalls]

lemma ingest_txindex (hr : policy.indexRetention = 0) (t : Hash) :
    (n.ingest b).flat.txindex t = (blockEntry n.ing b t).or (n.flat.txindex t) := by
  have hprune : ∀ c ∈ pruneCalls ⟨policy, tip.getD 0, tip.isSome, 0⟩ b.height,
      ∃ a, c = .pruneSpentAtHeight a := by
    intro c hc
    rw [pruneCalls, hr, if_neg (by decide), List.append_nil] at hc
    obtain ⟨a, -, rfl⟩ := List.mem_map.mp hc
    exact ⟨a, rfl⟩
  rw [ingest_flat hing h, Flat.run_txindex, entries_append, entries_indexCalls]
  · refine entries_of_forall (fun c hc x => ?_) _
    obtain ⟨a, rfl⟩ := hprune c hc
    rfl
  · intro c hc
    rcases List.mem_append.mp hc with hc | hc
    · exact indexCalls_keepsIndex _ b c hc
    · obtain ⟨a, rfl⟩ := hprune c hc
      intro h
      simp

end At

lemma start_feed_ing {cfg : Config} (policy : Prune.Policy) {bs : List Block}
    (h : ∀ b ∈ bs, (cfg.skipValidate || validateBlock b) = true) :
    ((start cfg policy).feed bs).ing = .at cfg policy (bs.getLast?.map Block.height) := by
  induction bs using List.reverseRecOn with
  | nil => rfl
  | append_singleton bs b ih =>
    have hing := ih fun c hc => h c (List.mem_append_left _ hc)
    rw [feed_append, feed_cons, feed_nil, ingest_ing hing (h b (by simp))]
    simp

lemma rollback_utxo (n : Node) (b : Block) (op : Outpoint) :
    (n.rollback b).flat.utxo op = (owned n.ing b).foldl (undoCell op) (n.flat.utxo op) := by
  rw [rollback, Flat.run_utxo, cells_rollbackCalls]

lemma rollback_txindex (n : Node) (b : Block) (t : Hash) :
    (n.rollback b).flat.txindex t =
      if t ∈ (owned n.ing b).map Tx.txID then none else n.flat.txindex t := by
  rw [rollback]
  dsimp only
  rw [Flat.run_txindex, entries_rollbackCalls]
  intro c hc h
  rw [rollbackCalls_eq] at hc
  simp only [undoCalls, List.mem_flatMap, List.mem_append, List.mem_map, List.mem_singleton] at hc
  rcases hc with ⟨tx, -, (⟨op, -, rfl⟩ | ⟨v, -, rfl⟩) | rfl⟩
  all_goals simp

end Node

end MemServe
