import MemServe.Api
import MemServe.Ingest
import MemServe.MemFlat

/-!
A node over the flat store.

What `IngestBlock` and `RollbackBlock` write does not depend on what the store answers, so on
the striped store, which never fails, each is a fixed list of writes. The node runs that list
on the flat store; the node over the striped store simulates it, and its answers are functions
of the flat store.
-/

namespace MemServe

open Teranode Ingest

/-- The pruner after a new tip, with a new count of evicted records. -/
def Prune.Pruner.advance (pr : Prune.Pruner) (tip : UInt32) (total : UInt64) : Prune.Pruner :=
  { pr with lastTip := tip, hasTip := true, total := total }

/-- The writes that indexing a block of record `r` may make: it puts and it spends. -/
def Call.IndexesBlock (r : BlockRec) (c : Call) : Prop :=
  match c with
  | .putBlock r' => r' = r
  | .putSubtree .. | .putHeader .. | .putTxIndex .. | .spendUTXO .. | .putUTXO .. => True
  | _ => False

namespace Ingest

def subtreeCalls (ing : Ingestor) (b : Block) : List Call :=
  b.subtrees.flatMap fun sub => if ing.ownAny sub then [.putSubtree sub.root sub.txIDs] else []

def spendCalls (h : UInt32) (tx : Tx) : List Call :=
  tx.inputs.map fun op => .spendUTXO op tx.txID h

def createCalls (tx : Tx) : List Call :=
  tx.outputs.zipIdx.map fun o =>
    .putUTXO (outpoint tx o.2) { value := o.1.value, scriptHash := o.1.scriptHash }

def txCalls (b : Block) (si li : ℕ) (tx : Tx) : List Call :=
  .putTxIndex tx.txID (indexEntry b si li) :: (spendCalls b.height tx ++ createCalls tx)

def txsCalls (ing : Ingestor) (b : Block) : List Call :=
  b.subtrees.zipIdx.flatMap fun sub =>
    sub.1.txs.zipIdx.flatMap fun tx =>
      if ing.owns tx.1.txID then txCalls b sub.2 tx.2 tx.1 else []

def indexCalls (ing : Ingestor) (b : Block) : List Call :=
  subtreeCalls ing b ++ (.putBlock (blockRec b) :: .putHeader b.height b.header :: txsCalls ing b)

lemma indexCalls_indexes (ing : Ingestor) (b : Block) :
    ∀ c ∈ indexCalls ing b, c.IndexesBlock (blockRec b) := by
  intro c hc
  simp only [indexCalls, List.mem_append, List.mem_cons, subtreeCalls, txsCalls, List.mem_flatMap]
    at hc
  rcases hc with ⟨sub, -, hc⟩ | rfl | rfl | ⟨sub, -, tx, -, hc⟩
  · split_ifs at hc
    · rw [List.mem_singleton.mp hc]; trivial
    · simp at hc
  · rfl
  · trivial
  · split_ifs at hc
    · simp only [txCalls, spendCalls, createCalls, List.mem_cons, List.mem_append, List.mem_map]
        at hc
      rcases hc with rfl | ⟨op, -, rfl⟩ | ⟨o, -, rfl⟩
      · trivial
      · trivial
      · trivial
    · simp at hc

def pruneCalls (pr : Prune.Pruner) (tip : UInt32) : List Call :=
  (Prune.bands pr.lastTip pr.hasTip tip pr.policy.d).map .pruneSpentAtHeight ++
    if 0 < pr.policy.indexRetention then
      (Prune.bands pr.lastTip pr.hasTip tip pr.policy.indexRetention).map .pruneIndexAtHeight
    else []

def ingestCalls (ing : Ingestor) (b : Block) : List Call :=
  indexCalls ing b ++ (ing.pruner.elim [] fun pr => pruneCalls pr b.height)

def undoCalls (tx : Tx) : List Call :=
  tx.inputs.map .unspendUTXO ++
    (List.range tx.outputs.length).map (fun vout => .deleteUTXO (outpoint tx vout)) ++
    [.deleteTxIndex tx.txID]

def rollbackCalls (ing : Ingestor) (b : Block) : List Call :=
  b.subtrees.flatMap fun sub => sub.txs.flatMap fun tx =>
    if ing.owns tx.txID then undoCalls tx else []

/-! Whatever says which calls a program issues, indexing a block issues these. -/

section Traces

open Trace

variable {σ : Type} [Store σ] {P : (α : Type) → IngestM σ α → List Call → Prop}

/-- A tracing of the programs over a store that has each of the writes of a block. -/
structure Traces (P : (α : Type) → IngestM σ α → List Call → Prop) : Prop extends Tracing P where
  count : ∀ f, P _ (count f) []
  putSubtree : ∀ root leaves, P _ (call (Store.putSubtree root leaves)) [.putSubtree root leaves]
  putBlock : ∀ b, P _ (call (Store.putBlock b)) [.putBlock b]
  putHeader : ∀ height hdr, P _ (call (Store.putHeader height hdr)) [.putHeader height hdr]
  putTxIndex : ∀ txid ix, P _ (call (Store.putTxIndex txid ix)) [.putTxIndex txid ix]
  spendUTXO : ∀ op spentBy h, P _ (call (Store.spendUTXO op spentBy h)) [.spendUTXO op spentBy h]
  putUTXO : ∀ op u, P _ (call (Store.putUTXO op u)) [.putUTXO op u]

namespace Traces

variable (T : Traces P)

include T

lemma putSubtrees (ing : Ingestor) (b : Block) : P _ (putSubtrees ing b) (subtreeCalls ing b) :=
  T.forM _ fun _ _ => Tracing.ite (fun _ => T.putSubtree _ _) fun _ => T.pure _

lemma indexTx (b : Block) (si li : ℕ) (tx : Tx) :
    P _ (indexTx b si li tx) (txCalls b si li tx) := by
  have hin : P _ (tx.inputs.forM fun op => do
      let ok ← call (Store.spendUTXO op tx.txID b.height)
      if ok then Ingest.count fun st => { st with utxosSpent := st.utxosSpent + 1 })
          (spendCalls b.height tx) := by
    refine T.forM_map _ fun op _ => T.bind_silent (T.spendUTXO op tx.txID b.height) fun ok => ?_
    split_ifs
    · exact T.count _
    · exact T.pure _
  have hout : P _ (tx.outputs.zipIdx.forM fun o => do
      call (Store.putUTXO (outpoint tx o.2) { value := o.1.value, scriptHash := o.1.scriptHash })
      Ingest.count fun st => { st with utxosMade := st.utxosMade + 1 }) (createCalls tx) :=
    T.forM_map _ fun o _ => T.bind_silent (T.putUTXO _ _) fun _ => T.count _
  refine T.bind (T.putTxIndex _ _) fun _ => T.bind_silent_left (T.count _) fun _ => ?_
  exact T.bind hin fun _ => hout

lemma indexTxs (ing : Ingestor) (b : Block) : P _ (indexTxs ing b) (txsCalls ing b) :=
  T.forM _ fun sub _ => T.forM _ fun tx _ =>
    Tracing.ite (fun _ => T.indexTx b sub.2 tx.2 tx.1) fun _ => T.pure _

lemma indexBlock (ing : Ingestor) (b : Block) : P _ (indexBlock ing b) (indexCalls ing b) := by
  refine T.bind (T.putSubtrees ing b) fun _ => ?_
  refine T.bind (T.putBlock (blockRec b)) fun _ => ?_
  refine T.bind (T.putHeader b.height b.header) fun _ => ?_
  exact T.bind_silent (T.indexTxs ing b) fun _ => T.count _

end Traces

end Traces

/-! On the striped store each operation issues these calls and succeeds. -/

section Issues

open Trace Mem.Store

abbrev Does {α : Type} (m : IngestM Mem.Store α) (cs : List Call) : Prop :=
  Issues Mem.Store.apply Prod.snd m cs

lemma does_call {α : Type} {m : StoreM Mem.Store α} {c : Call}
    (h : ∀ s, ∃ a, m s = ((.ok a, s.apply c) : _ × Mem.Store)) : Does (call m) [c] := by
  rintro ⟨st, s⟩
  obtain ⟨a, ha⟩ := h s
  exact ⟨a, (st, s.apply c), by simp only [call, ExceptT.run, StateT.run, ha], rfl⟩

lemma does_traces : Traces fun _ m cs => Does m cs where
  toTracing := Issues.tracing
  count f c := ⟨(), (f c.1, c.2), rfl, rfl⟩
  putSubtree _ _ := does_call fun _ => ⟨(), rfl⟩
  putBlock _ := does_call fun _ => ⟨(), rfl⟩
  putHeader _ _ := does_call fun _ => ⟨(), rfl⟩
  putTxIndex _ _ := does_call fun _ => ⟨(), rfl⟩
  spendUTXO _ _ _ := does_call fun _ => ⟨_, rfl⟩
  putUTXO _ _ := does_call fun _ => ⟨(), rfl⟩

lemma indexBlock_mem (ing : Ingestor) (b : Block) (s : Mem.Store) :
    ∃ st, (indexBlock ing b).run.run ({}, s) = (.ok (), st, s.run (indexCalls ing b)) := by
  obtain ⟨_, ⟨st, s1⟩, hrun, hs1⟩ := does_traces.indexBlock ing b ({}, s)
  obtain rfl : s1 = s.run (indexCalls ing b) := hs1
  exact ⟨st, hrun⟩

lemma sweepLoop_mem {f : UInt32 → StoreM Mem.Store ℕ} {c : UInt32 → Call}
    (hf : ∀ h s, ∃ n, f h s = ((.ok n, s.apply (c h)) : _ × Mem.Store)) (hs : List UInt32) (n : ℕ)
    (s : Mem.Store) : ∃ n', Prune.sweepLoop f hs n s = ((n', none), s.run (hs.map c)) := by
  induction hs generalizing n s with
  | nil => exact ⟨n, rfl⟩
  | cons h hs ih =>
    obtain ⟨m, hm⟩ := hf h s
    obtain ⟨n', hn'⟩ := ih (n + m) (s.apply (c h))
    exact ⟨n', by rw [Prune.sweepLoop, hm]; exact hn'⟩

lemma onNewBlock_mem (pr : Prune.Pruner) (tip : UInt32) (s : Mem.Store) :
    ∃ n t, Prune.onNewBlock pr tip s =
      ((n, none), pr.advance tip t, s.run (pruneCalls pr tip)) := by
  obtain ⟨n, hn⟩ := sweepLoop_mem (f := Store.pruneSpentAtHeight) (c := .pruneSpentAtHeight)
    (fun h s => ⟨_, rfl⟩) (Prune.bands pr.lastTip pr.hasTip tip pr.policy.d) 0 s
  unfold Prune.onNewBlock pruneCalls Prune.sweep
  rw [hn]
  dsimp only
  split_ifs with hr
  · obtain ⟨m, hm⟩ := sweepLoop_mem (f := Store.pruneIndexAtHeight) (c := .pruneIndexAtHeight)
      (fun h s => ⟨_, rfl⟩) (Prune.bands pr.lastTip pr.hasTip tip pr.policy.indexRetention) 0
      (s.run ((Prune.bands pr.lastTip pr.hasTip tip pr.policy.d).map .pruneSpentAtHeight))
    rw [hm]
    exact ⟨n + m, pr.total + UInt64.ofNat (n + m), by rw [Mem.Store.run_append]; rfl⟩
  · exact ⟨n, pr.total + UInt64.ofNat n, by rw [List.append_nil]; rfl⟩

/-- Whether `IngestBlock` goes on to index the block. -/
def Ingestor.accepts (ing : Ingestor) (b : Block) : Bool := ing.skipValidate || validateBlock b

lemma Ingestor.accepts_iff {ing : Ingestor} {b : Block} :
    ing.accepts b = true ↔ ¬(!ing.skipValidate && !validateBlock b) = true := by
  unfold accepts
  cases ing.skipValidate <;> cases validateBlock b <;> simp

/-- The ingestor after a block of height `tip`. -/
def Ingestor.advance (ing : Ingestor) (tip : UInt32) (total : UInt64) : Ingestor :=
  { ing with pruner := ing.pruner.map (·.advance tip total) }

lemma ingestBlock_reject {σ : Type} [Store σ] {ing : Ingestor} {b : Block}
    (h : ing.accepts b = false) (s : σ) :
    ingestBlock ing b s = (({}, some .invalidBlock), ing, s) := by
  have h' : (!ing.skipValidate && !validateBlock b) = true := by
    simpa [Ingestor.accepts] using h
  rw [ingestBlock, if_pos h']

/-- **An accepted block issues its writes and succeeds** over the striped store. -/
lemma ingestBlock_accept {ing : Ingestor} {b : Block} (h : ing.accepts b = true) (s : Mem.Store) :
    ∃ st t, ingestBlock ing b s =
      ((st, none), ing.advance b.height t, s.run (ingestCalls ing b)) := by
  obtain ⟨st, hm⟩ := indexBlock_mem ing b s
  rw [ingestBlock, if_neg (Ingestor.accepts_iff.mp h), hm]
  cases hp : ing.pruner with
  | none =>
    refine ⟨st, 0, ?_⟩
    have hing : ing.advance b.height 0 = ing := by cases ing; simp_all [Ingestor.advance]
    simp [hing, ingestCalls, hp]
  | some pr =>
    obtain ⟨n, t, hn⟩ := onNewBlock_mem pr b.height (s.run (indexCalls ing b))
    refine ⟨{ st with pruned := n }, t, ?_⟩
    dsimp only
    rw [hn]
    simp [ingestCalls, hp, Ingestor.advance, Mem.Store.run_append]

lemma issues_rollbackTx (tx : Tx) :
    Issues Mem.Store.apply id (rollbackTx tx : StoreM Mem.Store Unit) (undoCalls tx) := by
  have T : Tracing fun _ (m : StoreM Mem.Store _) cs => Issues Mem.Store.apply id m cs :=
    Issues.tracing
  have hcall : ∀ (c : Call) (m : StoreM Mem.Store Bool)
      (_ : ∀ s, ∃ a, m s = ((.ok a, s.apply c) : _ × Mem.Store)),
      Issues Mem.Store.apply id (do let _ ← m) [c] := by
    intro c m hm
    refine T.bind_silent (fun s => ?_) fun _ => T.pure _
    obtain ⟨a, ha⟩ := hm s
    exact ⟨a, s.apply c, ha, rfl⟩
  unfold undoCalls
  rw [List.append_assoc]
  refine T.bind (T.forM_map _ fun op _ => ?_) fun _ =>
    T.bind (T.forM_map _ fun v _ => ?_) fun _ => ?_
  · exact hcall _ _ fun s => ⟨_, rfl⟩
  · exact hcall (.deleteUTXO (outpoint tx v)) _ fun s => ⟨_, rfl⟩
  · exact hcall (.deleteTxIndex tx.txID) _ fun s => ⟨_, rfl⟩

/-- **A rollback issues its writes and succeeds** over the striped store. -/
lemma rollbackBlock_mem (ing : Ingestor) (b : Block) (s : Mem.Store) :
    (rollbackBlock ing b).run.run s = ((.ok (), s.run (rollbackCalls ing b)) : _ × Mem.Store) := by
  have T : Tracing fun _ (m : StoreM Mem.Store _) cs => Issues Mem.Store.apply id m cs :=
    Issues.tracing
  have h : Issues Mem.Store.apply id (rollbackBlock ing b : StoreM Mem.Store Unit)
      (rollbackCalls ing b) := by
    refine T.forM _ fun sub _ => T.forM _ fun tx _ => ?_
    split_ifs
    · exact issues_rollbackTx tx
    · exact T.pure _
  obtain ⟨a, s', hm, hs'⟩ := h s
  rw [hm]
  exact congrArg _ hs'

end Issues

end Ingest

/-! ### The flat node -/

/-- An ingestor without its count of evicted records, which no decision depends on. -/
def Ingest.Ingestor.forget (ing : Ingestor) : Ingestor :=
  { ing with pruner := ing.pruner.map fun pr => { pr with total := 0 } }

lemma Ingest.ingestCalls_forget (ing : Ingestor) (b : Block) :
    ingestCalls ing.forget b = ingestCalls ing b := by
  cases hp : ing.pruner <;> simp [ingestCalls, Ingest.Ingestor.forget, hp] <;> rfl

lemma Ingest.forget_advance (ing : Ingestor) (tip : UInt32) (t : UInt64) :
    (ing.advance tip t).forget = ing.forget.advance tip 0 := by
  cases hp : ing.pruner <;>
    simp [Ingestor.advance, Ingest.Ingestor.forget, hp, Prune.Pruner.advance]

structure Node where
  ing : Ingestor
  flat : Flat

namespace Node

def ingest (n : Node) (b : Block) : Node :=
  if n.ing.accepts b then ⟨n.ing.advance b.height 0, n.flat.run (ingestCalls n.ing b)⟩ else n

def feed (n : Node) (bs : List Block) : Node := bs.foldl ingest n

def rollback (n : Node) (b : Block) : Node := { n with flat := n.flat.run (rollbackCalls n.ing b) }

lemma ingest_of_accepts {n : Node} {b : Block} (h : n.ing.accepts b = true) :
    n.ingest b = ⟨n.ing.advance b.height 0, n.flat.run (ingestCalls n.ing b)⟩ := if_pos h

@[simp] lemma feed_nil (n : Node) : n.feed [] = n := rfl
@[simp] lemma feed_cons (n : Node) (b : Block) (bs : List Block) :
    n.feed (b :: bs) = (n.ingest b).feed bs := rfl
lemma feed_append (n : Node) (bs cs : List Block) : n.feed (bs ++ cs) = (n.feed bs).feed cs :=
  List.foldl_append

/-- The flat node a node over the striped store stands for. -/
def of (p : Ingestor × Mem.Store) : Node := ⟨p.1.forget, p.2.flatten⟩

end Node

section Simulation

variable {p : Ingestor × Mem.Store}

lemma Node.of_ingestBlock (hs : p.2.Indexed) (b : Block) :
    (ingestBlock p.1 b p.2).2.2.Indexed ∧ Node.of (ingestBlock p.1 b p.2).2 =
      (Node.of p).ingest b := by
  obtain ⟨ing, s⟩ := p
  have hacc : (Node.of (ing, s)).ing.accepts b = ing.accepts b := rfl
  cases h : ing.accepts b with
  | false =>
    rw [ingestBlock_reject h, Node.ingest, if_neg (by rw [hacc, h]; simp)]
    exact ⟨hs, rfl⟩
  | true =>
    obtain ⟨st, t, hi⟩ := ingestBlock_accept h s
    rw [hi, Node.ingest_of_accepts (hacc.trans h)]
    refine ⟨hs.run _, ?_⟩
    simp only [Node.of, forget_advance, ingestCalls_forget, Mem.Store.flatten_run hs]

/-- **The striped node simulates the flat one** along every run. -/
theorem Node.of_feed (hs : p.2.Indexed) (bs : List Block) :
    (Ingest.feed p bs).2.Indexed ∧ Node.of (Ingest.feed p bs) = (Node.of p).feed bs := by
  induction bs generalizing p with
  | nil => exact ⟨hs, rfl⟩
  | cons b bs ih =>
    obtain ⟨h1, h2⟩ := Node.of_ingestBlock hs b
    obtain ⟨h3, h4⟩ := ih h1
    exact ⟨h3, h4.trans (by rw [h2, Node.feed_cons])⟩

lemma Node.of_rollbackBlock (hs : p.2.Indexed) (b : Block) :
    ((rollbackBlock p.1 b).run.run p.2).2.Indexed ∧
      Node.of (p.1, ((rollbackBlock p.1 b).run.run p.2).2) = (Node.of p).rollback b := by
  rw [rollbackBlock_mem]
  refine ⟨hs.run _, ?_⟩
  simp only [Node.of, Node.rollback, Mem.Store.flatten_run hs]
  rfl

lemma Node.of_rollbackAll (hs : p.2.Indexed) (bs : List Block) :
    (Ingest.rollbackAll p bs).2.Indexed ∧
      Node.of (Ingest.rollbackAll p bs) = bs.foldl Node.rollback (Node.of p) := by
  induction bs generalizing p with
  | nil => exact ⟨hs, rfl⟩
  | cons b bs ih =>
    obtain ⟨h1, h2⟩ := Node.of_rollbackBlock hs b
    obtain ⟨h3, h4⟩ := ih (p := (p.1, ((rollbackBlock p.1 b).run.run p.2).2)) h1
    exact ⟨h3, h4.trans (by rw [h2, List.foldl_cons])⟩

end Simulation

namespace Flat

def seen (f : Flat) (txid : Hash) : Api.SeenResult :=
  match f.txindex txid with
  | none => {}
  | some ix => { seen := true, seenTime := ix.seenTime }

def mined (f : Flat) (txid : Hash) : Api.MinedResult :=
  match f.txindex txid with
  | none => {}
  | some ix =>
    if ix.mined then
      { mined := true, blockHash := ix.blockHash, height := ix.height, blockTime := ix.blockTime }
    else {}

/-- The answer about an outpoint without a record. -/
def missing (ix : Option TxIndex) : Api.UTXOResult :=
  match ix with
  | none => { status := .unknown }
  | some ix => { status := if ix.mined then .notInWindow else .unknown }

def answer (x : Option UTXO) (ix : Option TxIndex) : Api.UTXOResult :=
  match x with
  | none => missing ix
  | some u =>
    if u.spent then { status := .spent, spentBy := u.spentBy, spentHeight := u.spentHeight }
    else { status := .unspent, value := u.value }

def utxoStatus (f : Flat) (op : Outpoint) : Api.UTXOResult := answer (f.utxo op) (f.txindex op.txID)

def merklePath (f : Flat) (txid : Hash) : Except Proof.Error Proof :=
  match f.txindex txid with
  | none => .error .notMined
  | some ix =>
    if !ix.mined then .error .notMined
    else
      match f.blocks ix.blockHash with
      | none => .error .inconsistent
      | some blk =>
        match blk.subtreeRoots[ix.subtreeIndex.toNat]? with
        | none => .error .inconsistent
        | some subtreeRoot =>
          match f.subtree subtreeRoot with
          | none => .error .inconsistent
          | some leaves =>
            if leaves.length ≤ ix.leafIndex.toNat then .error .inconsistent
            else (Proof.assemble txid ix blk subtreeRoot leaves).mapError .commitment

end Flat

section Answers

open Trace Proof

variable (s : Mem.Store)

lemma run_getTxIndex (txid : Hash) :
    (Store.getTxIndex txid : StoreM Mem.Store _).run.run s = (.ok (s.getTxIndex txid), s) := rfl
lemma run_getUTXO (op : Outpoint) :
    (Store.getUTXO op : StoreM Mem.Store _).run.run s = (.ok (s.getUTXO op), s) := rfl

lemma seen_mem (txid : Hash) :
    (Api.seen txid).run.run s = ((.ok (s.flatten.seen txid), s) : _ × Mem.Store) := by
  unfold Api.seen Flat.seen
  rw [run_bind_ok (run_getTxIndex s txid)]
  cases h : s.getTxIndex txid <;> simp only [Mem.Store.flatten, h] <;> rfl

lemma mined_mem (txid : Hash) :
    (Api.mined txid).run.run s = ((.ok (s.flatten.mined txid), s) : _ × Mem.Store) := by
  unfold Api.mined Flat.mined
  rw [run_bind_ok (run_getTxIndex s txid)]
  cases h : s.getTxIndex txid with
  | none => simp only [Mem.Store.flatten, h]; rfl
  | some ix =>
    simp only [Mem.Store.flatten, h]
    cases ix.mined <;> rfl

lemma utxo_mem (op : Outpoint) :
    (Api.utxo op).run.run s = ((.ok (s.flatten.utxoStatus op), s) : _ × Mem.Store) := by
  unfold Api.utxo Flat.utxoStatus
  rw [run_bind_ok (run_getUTXO s op)]
  cases h : s.getUTXO op with
  | some u =>
    simp only [Mem.Store.flatten, h, Flat.answer]
    cases u.spent <;> rfl
  | none =>
    simp only [Mem.Store.flatten, h, Flat.answer]
    rw [run_bind_ok (run_getTxIndex s op.txID)]
    cases hx : s.getTxIndex op.txID with
    | none => rfl
    | some ix => simp only [Flat.missing]; cases ix.mined <;> rfl

lemma run_ofCommitment {α : Type} (r : Except Commitment.Error α) :
    (ofCommitment r : BuildM Mem.Store α).run.run s = (r.mapError .commitment, s) := by
  cases r <;> rfl

lemma merklePath_mem (txid : Hash) :
    (Api.merklePath txid).run.run s = ((s.flatten.merklePath txid, s) : _ × Mem.Store) := by
  have htx : (Proof.call (Store.getTxIndex txid) : BuildM Mem.Store _).run.run s =
    (.ok (s.getTxIndex txid), s) := rfl
  have hblk : ∀ hash, (Proof.call (Store.getBlock hash) : BuildM Mem.Store _).run.run s =
    (.ok (s.getBlock hash), s) := fun _ => rfl
  have hsub : ∀ root, (Proof.call (Store.getSubtree root) : BuildM Mem.Store _).run.run s =
    (.ok (s.getSubtree root), s) := fun _ => rfl
  unfold Api.merklePath Proof.build Flat.merklePath
  rw [run_bind_ok htx]
  simp only [Mem.Store.flatten]
  cases s.getTxIndex txid with
  | none => rfl
  | some ix =>
    dsimp only
    split_ifs
    · rfl
    rw [run_bind_ok (hblk _)]
    cases s.getBlock ix.blockHash with
    | none => rfl
    | some blk =>
      dsimp only
      cases blk.subtreeRoots[ix.subtreeIndex.toNat]? with
      | none => rfl
      | some subtreeRoot =>
        dsimp only
        rw [run_bind_ok (hsub _)]
        cases s.getSubtree subtreeRoot with
        | none => rfl
        | some leaves =>
          dsimp only
          split_ifs
          · rfl
          · exact run_ofCommitment s _

end Answers

end MemServe
