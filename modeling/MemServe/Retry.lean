import MemServe.Faults
import MemServe.View

/-!
A block that is ingested again after its first ingestion failed.

The writes of a block are puts and spends. A put makes all earlier writes of its key immaterial, and
a spend does what it did before. So all writes of the block, run from wherever the first attempt
stopped, leave what one run of them leaves. The index of heights is the exception, since it is
appended to; but a transaction is appended only where it had no entry, and that is settled by the
first attempt.
-/

namespace MemServe

open Ingest Teranode

/-- What a put or a spend makes of the record of its own outpoint. -/
def Call.own (c : Call) (x : Option UTXO) : Option UTXO :=
  match c with
  | .putUTXO _ u => some u
  | .spendUTXO _ spentBy h => x.map (·.spend spentBy h)
  | _ => x

lemma Call.own_own (c : Call) (x : Option UTXO) : c.own (c.own x) = c.own x := by
  cases c with
  | spendUTXO => cases x <;> rfl
  | _ => rfl

lemma Call.own_own_own (c d : Call) (x : Option UTXO) :
    c.own (d.own (c.own x)) = c.own (d.own x) := by
  cases c with
  | spendUTXO =>
    cases d with
    | putUTXO => rfl
    | _ => cases x <;> rfl
  | _ => rfl

namespace View

/-- The record of an outpoint, and the heights whose prune evicts it. -/
def record (v : View) (op : Outpoint) : Option UTXO × (UInt32 → Bool) :=
  (v.flat.utxo op, fun h => decide (op ∈ v.due (Mem.striperOf op.txID) h))

/-- A write of a record places its outpoint in the index anew. -/
def rewrite (c : Call) (x : Option UTXO × (UInt32 → Bool)) : Option UTXO × (UInt32 → Bool) :=
  (c.own x.1, fun h => (c.own x.1).any (·.spentAt h))

variable {r : BlockRec} {c : Call}

lemma indexes_cases (hc : c.IndexesBlock r) :
    (∃ op, c.outpoint? = some op ∧ ∀ op' x, c.cell op' x = if op' = op then c.own x else x) ∨
      c.outpoint? = none ∧ c.utxoOnly = false ∧ ∀ op x, c.cell op x = x := by
  cases c with
  | putUTXO op u => exact .inl ⟨op, rfl, fun _ _ => rfl⟩
  | spendUTXO op spentBy h => exact .inl ⟨op, rfl, fun _ _ => rfl⟩
  | putTxIndex | putSubtree | putBlock | putHeader => exact .inr ⟨rfl, rfl, fun _ _ => rfl⟩
  | unspendUTXO | deleteUTXO | deleteTxIndex | pruneSpentAtHeight | pruneIndexAtHeight =>
    exact hc.elim

lemma record_apply (hc : c.IndexesBlock r) (v : View) :
    (v.apply c).record = Trace.modify Call.outpoint? rewrite c v.record := by
  funext op
  rw [Trace.modify_apply]
  rcases indexes_cases hc with ⟨op', hop, hcell⟩ | ⟨hop, hutxo, hcell⟩
  · rw [apply_of_outpoint hop, hop]
    by_cases h : op = op'
    · subst h
      simp [record, rewrite, hcell, mem_place]
    · have h' : op' ≠ op := fun e => h e.symm
      refine Prod.ext ?_ (funext fun k => ?_)
      · simp [record, hcell, h, h']
      · simp only [record, Option.some.injEq, if_neg h']
        split_ifs
        · simp [mem_place, h]
        · rfl
  · rw [apply_of_utxoOnly hutxo, hop, if_neg (by simp)]
    exact Prod.ext ((Flat.apply_utxo c v.flat op).trans (hcell op _)) rfl

/-- An outpoint that stands in the index of another stripe is never written there. -/
lemma mem_due_apply (hc : c.IndexesBlock r) (v : View) {i : UInt8} {op : Outpoint}
    (hi : i ≠ Mem.striperOf op.txID)
    (h : UInt32) : op ∈ (v.apply c).due i h ↔ op ∈ v.due i h := by
  rcases indexes_cases hc with ⟨op', hop, -⟩ | ⟨-, hutxo, -⟩
  · rw [apply_of_outpoint hop]
    dsimp only
    split_ifs with hi'
    · have hne : op ≠ op' := fun e => hi (by rw [hi', e])
      rw [mem_place, if_neg hne]
    · rfl
  · rw [apply_of_utxoOnly hutxo]

def txPut (c : Call) : Option (Hash × TxIndex) :=
  match c with
  | .putTxIndex txid ix => some (txid, ix)
  | _ => none

def subtreePut (c : Call) : Option (Hash × List Hash) :=
  match c with
  | .putSubtree root leaves => some (root, leaves)
  | _ => none

def blockPut (c : Call) : Option (Hash × BlockRec) :=
  match c with
  | .putBlock b => some (b.hash, b)
  | _ => none

def headerPut (c : Call) : Option (UInt32 × Header) :=
  match c with
  | .putHeader height hdr => some (height, hdr)
  | _ => none

lemma puts_apply (hc : c.IndexesBlock r) (v : View) :
    (v.apply c).flat.txindex = Trace.put txPut c v.flat.txindex ∧
      (v.apply c).flat.subtree = Trace.put subtreePut c v.flat.subtree ∧
      (v.apply c).flat.blocks = Trace.put blockPut c v.flat.blocks ∧
      (v.apply c).flat.hdr = Trace.put headerPut c v.flat.hdr := by
  cases c with
  | putTxIndex | putUTXO | spendUTXO | putSubtree | putBlock | putHeader =>
    exact ⟨rfl, rfl, rfl, rfl⟩
  | unspendUTXO | deleteUTXO | deleteTxIndex | pruneSpentAtHeight | pruneIndexAtHeight =>
    exact hc.elim

/-- The write has nothing more to add to the index of heights. -/
def Settled (c : Call) (v : View) : Prop :=
  match c with
  | .putTxIndex txid _ => (v.flat.txindex txid).isSome = true
  | .putBlock b =>
    ∃ e, v.flat.hidx b.height = some e ∧ e.block = b.hash ∧ e.hasBlock = true ∧
      e.subtrees = b.subtreeRoots
  | _ => True

lemma settled_self (hc : c.IndexesBlock r) (v : View) : Settled c (v.apply c) := by
  cases c with
  | putTxIndex txid ix => simp [Settled, apply, Flat.apply]
  | putBlock b => exact ⟨_, Function.update_self _ _ _, rfl, rfl, rfl⟩
  | putUTXO | spendUTXO | putSubtree | putHeader => trivial
  | unspendUTXO | deleteUTXO | deleteTxIndex | pruneSpentAtHeight | pruneIndexAtHeight =>
    exact hc.elim

lemma hidx_of_settled (hc : c.IndexesBlock r) {v : View} (h : Settled c v) :
    (v.apply c).flat.hidx = v.flat.hidx := by
  cases c with
  | putTxIndex txid ix =>
    have hnone : (v.flat.txindex txid).isNone = false := by
      rw [← Option.not_isSome, show (v.flat.txindex txid).isSome = true from h]; rfl
    exact if_neg (by simp [hnone])
  | putBlock b =>
    obtain ⟨e, he, hb, hh, hs⟩ := h
    refine Function.update_eq_self_iff.mpr ?_
    simp only [Flat.entry, he, Option.getD_some, ← hb, ← hh, ← hs]
  | putUTXO | spendUTXO | putSubtree | putHeader => rfl
  | unspendUTXO | deleteUTXO | deleteTxIndex | pruneSpentAtHeight | pruneIndexAtHeight =>
    exact hc.elim

lemma settled_keep {d : Call} (hc : c.IndexesBlock r) (hd : d.IndexesBlock r) {v : View}
    (h : Settled c v) :
    Settled c (v.apply d) := by
  cases c with
  | putTxIndex txid ix =>
    have hput : Settled (.putTxIndex txid ix) (v.apply d) ↔
        (Trace.put txPut d v.flat.txindex txid).isSome = true := by
      rw [← (puts_apply hd v).1]; rfl
    rw [hput]
    unfold Trace.put
    rcases txPut d with - | ⟨t, ix'⟩
    · exact h
    · dsimp only
      rw [Function.update_apply]
      split_ifs
      · rfl
      · exact h
  | putBlock b =>
    obtain rfl : b = r := hc
    cases d with
    | putTxIndex txid ix =>
      -- the entry of the height may get one more transaction
      obtain ⟨e, he, hb⟩ := h
      have hidx : (v.apply (.putTxIndex txid ix)).flat.hidx =
          if ix.mined && (v.flat.txindex txid).isNone then
          Function.update v.flat.hidx ix.height
            (some { v.flat.entry ix.height with txids := (v.flat.entry ix.height).txids ++ [txid] })
        else v.flat.hidx := rfl
      simp only [Settled, hidx]
      split_ifs
      · by_cases hh : b.height = ix.height
        · rw [← hh, Function.update_self]
          refine ⟨_, rfl, ?_⟩
          simpa [Flat.entry, he] using hb
        · rw [Function.update_of_ne hh]
          exact ⟨e, he, hb⟩
      · exact ⟨e, he, hb⟩
    | putBlock b' =>
      have hself := settled_self hd v
      obtain rfl : b' = b := hd
      exact hself
    | putUTXO | spendUTXO | putSubtree | putHeader => exact h
    | unspendUTXO | deleteUTXO | deleteTxIndex | pruneSpentAtHeight | pruneIndexAtHeight =>
      exact hd.elim
  | putUTXO | spendUTXO | putSubtree | putHeader => trivial
  | unspendUTXO | deleteUTXO | deleteTxIndex | pruneSpentAtHeight | pruneIndexAtHeight =>
    exact hc.elim

/-! ### Whole runs -/

section Runs

variable {cs : List Call} (hcs : ∀ c ∈ cs, c.IndexesBlock r)

include hcs

lemma run_part {β : Type} {part : View → β} {step : Call → β → β}
    (h : ∀ {c : Call}, c.IndexesBlock r → ∀ v : View, part (v.apply c) = step c (part v))
    (v : View) :
    part (v.run cs) = Trace.run step cs (part v) :=
  Trace.run_related (r := fun v x => part v = x) _ (fun c hc v _ hv => hv ▸ h (hcs c hc) v) rfl

lemma run_run_part {β : Type} (part : View → β) {step : Call → β → β}
    (h : ∀ {c : Call}, c.IndexesBlock r → ∀ v : View, part (v.apply c) = step c (part v))
    (habs : Trace.Absorbs step cs) (v : View) :
    part ((v.run cs).run cs) = part (v.run cs) := by
  rw [run_part hcs h, run_part hcs h, habs.run_run]

lemma run_run_record (v : View) : ((v.run cs).run cs).record = (v.run cs).record := by
  refine run_run_part hcs record record_apply
    (Trace.modify_absorbs (fun c _ x => ?_) fun c _ d _ x => ?_) v
  · simp only [rewrite, Call.own_own]
  · simp only [rewrite, Call.own_own_own]

lemma run_run_hidx (v : View) : ((v.run cs).run cs).flat.hidx = (v.run cs).flat.hidx := by
  have hsettled : ∀ c ∈ cs, Settled c (v.run cs) :=
    Trace.run_settled (fun c hc => settled_self (hcs c hc))
      (fun c hc d hd _ => settled_keep (hcs c hc) (hcs d hd)) v
  have hrun : ((v.run cs).run cs).flat.hidx = (v.run cs).flat.hidx ∧
      ∀ c ∈ cs, Settled c ((v.run cs).run cs) := by
    refine Trace.run_invariant
      (p := fun w => w.flat.hidx = (v.run cs).flat.hidx ∧ ∀ c ∈ cs, Settled c w) _
      (fun c hc w hw => ⟨?_, fun d hd => ?_⟩) ⟨rfl, hsettled⟩
    · rw [hidx_of_settled (hcs c hc) (hw.2 c hc), hw.1]
    · exact settled_keep (hcs d hd) (hcs c hc) (hw.2 d hd)
  exact hrun.1

lemma mem_due_run (v : View) {i : UInt8} {op : Outpoint} (hi : i ≠ Mem.striperOf op.txID)
    (h : UInt32) :
    op ∈ (v.run cs).due i h ↔ op ∈ v.due i h :=
  Trace.run_invariant (p := fun w => op ∈ w.due i h ↔ op ∈ v.due i h) _
    (fun c hc w hw => (mem_due_apply (hcs c hc) w hi h).trans hw) Iff.rfl

/-- **The writes of a block may be repeated.** -/
theorem run_run (v : View) : (v.run cs).run cs = v.run cs := by
  have hrecord := run_run_record hcs v
  refine View.ext (Flat.ext ?_ (funext fun op => ?_) ?_ ?_ ?_ (run_run_hidx hcs v))
    (funext fun i => funext fun h => ?_)
  · exact run_run_part hcs (·.flat.txindex) (fun hc v => (puts_apply hc v).1)
      (Trace.put_absorbs _) v
  · exact congrArg (fun x => (x op).1) hrecord
  · exact run_run_part hcs (·.flat.subtree) (fun hc v => (puts_apply hc v).2.1)
      (Trace.put_absorbs _) v
  · exact run_run_part hcs (·.flat.blocks) (fun hc v => (puts_apply hc v).2.2.1)
      (Trace.put_absorbs _) v
  · exact run_run_part hcs (·.flat.hdr) (fun hc v => (puts_apply hc v).2.2.2)
      (Trace.put_absorbs _) v
  · ext op
    by_cases hi : i = Mem.striperOf op.txID
    · rw [hi]
      exact decide_eq_decide.mp (congrArg (fun x => (x op).2 h) hrecord)
    · rw [mem_due_run hcs _ hi]

/-- **They may be repeated from any point of the first run.** -/
theorem run_take_run (v : View) (j : ℕ) : (v.run (cs.take j)).run cs = v.run cs := by
  have htake : ∀ w : View, w.run cs = (w.run (cs.take j)).run (cs.drop j) := by
    intro w
    rw [← run_append, List.take_append_drop]
  rw [htake, run_run fun c hc => hcs c (List.mem_of_mem_take hc), ← htake]

end Runs

end View

namespace Prune

open Mem.Store

variable {s s' : Mem.Store}

lemma sweepLoop_of_view {fn : UInt32 → StoreM Mem.Store ℕ}
    (hfn : ∀ {s s' : Mem.Store} h, s.view = s'.view → Alike (fn h s) (fn h s')) (hs : List UInt32)
    (n : ℕ)
    (hv : s.view = s'.view) : Alike (sweepLoop fn hs n s) (sweepLoop fn hs n s') := by
  induction hs generalizing n s s' with
  | nil => exact ⟨rfl, hv⟩
  | cons h hs ih =>
    obtain ⟨hres, hv'⟩ := hfn h hv
    simp only [sweepLoop]
    rcases hr : fn h s with ⟨r, t⟩
    rcases hr' : fn h s' with ⟨r', t'⟩
    simp only [hr, hr'] at hres hv'
    subst hres
    cases r with
    | error e => exact ⟨rfl, hv'⟩
    | ok m => exact ih (n + m) hv'

lemma prune_of_view {c : Call} {f : Mem.Store → ℕ × Mem.Store}
    (hreply : ∀ s : Mem.Store, s.reply c = .freed (f s).1)
    (happly : ∀ s : Mem.Store, s.apply c = (f s).2) (hv : s.view = s'.view) :
    Alike (StoreM.total f s) (StoreM.total f s') := by
  refine ⟨congrArg Except.ok ?_, ?_⟩
  · have h := reply_of_view hv c
    rw [hreply, hreply] at h
    exact Answer.freed.inj h
  · change (f s).2.view = (f s').2.view
    rw [← happly, ← happly, view_apply, view_apply, hv]

lemma sweepSpent_of_view (hs : List UInt32) (n : ℕ) (hv : s.view = s'.view) :
    Alike (sweepLoop Store.pruneSpentAtHeight hs n s)
      (sweepLoop Store.pruneSpentAtHeight hs n s') := by
  refine sweepLoop_of_view (fun h hv => ?_) hs n hv
  exact prune_of_view (c := .pruneSpentAtHeight h) (f := fun s => s.pruneSpentAtHeight h)
    (fun _ => rfl) (fun _ => rfl) hv

lemma sweepIndex_of_view (hs : List UInt32) (n : ℕ) (hv : s.view = s'.view) :
    Alike (sweepLoop Store.pruneIndexAtHeight hs n s)
      (sweepLoop Store.pruneIndexAtHeight hs n s') := by
  refine sweepLoop_of_view (fun h hv => ?_) hs n hv
  exact prune_of_view (c := .pruneIndexAtHeight h) (f := fun s => s.pruneIndexAtHeight h)
    (fun _ => rfl) (fun _ => rfl) hv

/-- **The pruner sees the view only**: its count, its error, its next state and the view it
leaves. -/
lemma onNewBlock_of_view (pr : Pruner) (tip : UInt32) (hv : s.view = s'.view) :
    (onNewBlock pr tip s).1 = (onNewBlock pr tip s').1 ∧
      Alike (onNewBlock pr tip s).2 (onNewBlock pr tip s').2 := by
  obtain ⟨hres, hv1⟩ := sweepSpent_of_view (bands pr.lastTip pr.hasTip tip pr.policy.d) 0 hv
  unfold onNewBlock sweep
  rcases hr : sweepLoop Store.pruneSpentAtHeight (bands pr.lastTip pr.hasTip tip pr.policy.d) 0
    s with ⟨r, t⟩
  rcases hr' : sweepLoop Store.pruneSpentAtHeight (bands pr.lastTip pr.hasTip tip pr.policy.d) 0
    s' with ⟨r', t'⟩
  simp only [hr, hr'] at hres hv1
  subst hres
  obtain ⟨n, - | e⟩ := r
  · dsimp only
    split_ifs
    · obtain ⟨hres2, hv2⟩ :=
        sweepIndex_of_view (bands pr.lastTip pr.hasTip tip pr.policy.indexRetention) 0 hv1
      simp only [hres2, true_and]
      exact ⟨rfl, hv2⟩
    · exact ⟨rfl, rfl, hv1⟩
  · exact ⟨rfl, rfl, hv1⟩

end Prune

namespace Ingest

/-- The writes of `IngestBlock` before the pruner. -/
def writes (ing : Ingestor) (b : Block) : List Call :=
  if ing.accepts b then indexCalls ing b else []

/-- The store after the first `j` writes of a block. -/
def interrupted (ing : Ingestor) (b : Block) (j : ℕ) (s : Mem.Store) : Mem.Store :=
  s.run ((writes ing b).take j)

/-- **An ingest that fails** returns the error of the store and leaves the ingestor as it was. -/
lemma ingestBlock_interrupted {ing : Ingestor} {b : Block} {s : Mem.Store} {j : ℕ}
    (hj : j < (writes ing b).length) (fault : StoreError) (fs : List (Option StoreError)) :
    ∃ st, ingestBlock ing b (⟨s, List.replicate j none ++ some fault :: fs⟩ : Faulty Mem.Store) =
      ((st, some (.store fault)), ing, ⟨interrupted ing b j s, fs⟩) := by
  cases hacc : ing.accepts b with
  | false => simp [writes, hacc] at hj
  | true =>
    have hw : writes ing b = indexCalls ing b := if_pos hacc
    obtain ⟨st, hrun⟩ := indexBlock_faulty s (List.replicate j none ++ some fault :: fs) ing b
    rw [hw] at hj
    rw [Trace.course_replicate hj] at hrun
    rw [ingestBlock, if_neg (Ingestor.accepts_iff.mp hacc), hrun, interrupted, hw]
    exact ⟨st, rfl⟩

lemma view_interrupted (ing : Ingestor) (b : Block) (j : ℕ) (s : Mem.Store) :
    ((interrupted ing b j s).run (indexCalls ing b)).view = (s.run (indexCalls ing b)).view := by
  unfold interrupted writes
  split_ifs
  · simp only [Mem.Store.view_run]
    exact View.run_take_run (indexCalls_indexes ing b) s.view j
  · rw [List.take_nil]
    rfl

lemma ingestBlock_of_view {ing : Ingestor} {b : Block} {s s' : Mem.Store}
    (hacc : ing.accepts b = true)
    (hv : (s.run (indexCalls ing b)).view = (s'.run (indexCalls ing b)).view) :
    (ingestBlock ing b s).1.2 = (ingestBlock ing b s').1.2 ∧
      Mem.Store.Alike (ingestBlock ing b s).2 (ingestBlock ing b s').2 := by
  obtain ⟨st, hrun⟩ := indexBlock_mem ing b s
  obtain ⟨st', hrun'⟩ := indexBlock_mem ing b s'
  simp only [ingestBlock, if_neg (Ingestor.accepts_iff.mp hacc), hrun, hrun']
  cases ing.pruner with
  | none => exact ⟨rfl, rfl, hv⟩
  | some pr =>
    obtain ⟨hres, hpr, hv2⟩ := Prune.onNewBlock_of_view pr b.height hv
    dsimp only
    rcases hn : Prune.onNewBlock pr b.height (s.run (indexCalls ing b)) with ⟨⟨n, e⟩, pr1, t⟩
    rcases hn' : Prune.onNewBlock pr b.height (s'.run (indexCalls ing b)) with ⟨⟨n', e'⟩, pr1', t'⟩
    simp only [hn, hn', Prod.mk.injEq] at hres hpr hv2
    obtain ⟨rfl, rfl⟩ := hres
    subst hpr
    cases e with
    | none => exact ⟨rfl, rfl, hv2⟩
    | some e => exact ⟨rfl, rfl, hv2⟩

/-- **An ingest can be retried.** For every store, every block and every `j`: a store that fails
after `j` calls of the block is left as those calls leave it, and the ingestor as it was. From there
`IngestBlock` hands its pruner a store that answers every request as after one ingest, the pruner
evicts as many records, and the end of it is the same: error, ingestor and the answers to all
requests. -/
theorem ingest_retry (ing : Ingestor) (b : Block) (j : ℕ) (s : Mem.Store) :
    (∀ fault fs, j < (writes ing b).length →
      ∃ st, ingestBlock ing b
          (⟨s, List.replicate j none ++ some fault :: fs⟩ : Faulty Mem.Store) =
        ((st, some (.store fault)), ing, ⟨interrupted ing b j s, fs⟩)) ∧
    (∀ rs, answers rs ((indexBlock ing b).run.run ({}, interrupted ing b j s)).2.2 =
      answers rs ((indexBlock ing b).run.run ({}, s)).2.2) ∧
    (∀ pr,
      (Prune.onNewBlock pr b.height
        ((indexBlock ing b).run.run ({}, interrupted ing b j s)).2.2).1 =
      (Prune.onNewBlock pr b.height ((indexBlock ing b).run.run ({}, s)).2.2).1) ∧
    (ingestBlock ing b (interrupted ing b j s)).1.2 = (ingestBlock ing b s).1.2 ∧
    (ingestBlock ing b (interrupted ing b j s)).2.1 = (ingestBlock ing b s).2.1 ∧
    ∀ rs, answers rs (ingestBlock ing b (interrupted ing b j s)).2.2 =
      answers rs (ingestBlock ing b s).2.2 := by
  have hv := view_interrupted ing b j s
  obtain ⟨st, hrun⟩ := indexBlock_mem ing b s
  obtain ⟨st', hrun'⟩ := indexBlock_mem ing b (interrupted ing b j s)
  refine ⟨fun fault fs hj => ingestBlock_interrupted hj fault fs, ?_, ?_, ?_⟩
  · rw [hrun, hrun']
    exact Mem.Store.answers_of_view hv
  · rw [hrun, hrun']
    exact fun pr => (Prune.onNewBlock_of_view pr b.height hv).1
  · cases hacc : ing.accepts b with
    | false =>
      have hs : interrupted ing b j s = s := by simp [interrupted, writes, hacc, Mem.Store.run]
      rw [hs]
      exact ⟨rfl, rfl, fun _ => rfl⟩
    | true =>
      obtain ⟨herr, hing, hview⟩ := ingestBlock_of_view hacc hv
      exact ⟨herr, hing, Mem.Store.answers_of_view hview⟩

/-- A block whose transaction spends its own output before it makes it. -/
def knotBlock : Block where
  hash := .fill 32 9
  height := 1
  time := 0
  merkleRoot := default
  subtreeRoots := [.fill 32 8]
  header := default
  subtrees := [⟨.fill 32 8, [.fill 32 7], [⟨.fill 32 7, [⟨.fill 32 7, 0⟩], [⟨5, default⟩]⟩]⟩]

/-- Stopped at the last of its six writes, the block can be ingested again. -/
theorem ingest_retry_knot :
    5 < (writes (new none { skipValidate := true }) knotBlock).length ∧
      (∃ st, ingestBlock (new none { skipValidate := true }) knotBlock
          (⟨Mem.new, List.replicate 5 none ++ [some ⟨"full"⟩]⟩ : Faulty Mem.Store) =
        ((st, some (.store ⟨"full"⟩)), new none { skipValidate := true },
          ⟨interrupted (new none { skipValidate := true }) knotBlock 5 Mem.new, []⟩)) ∧
      ∀ rs, answers rs (ingestBlock (new none { skipValidate := true }) knotBlock
          (interrupted (new none { skipValidate := true }) knotBlock 5 Mem.new)).2.2 =
        answers rs (ingestBlock (new none { skipValidate := true }) knotBlock Mem.new).2.2 := by
  have hlen : 5 < (writes (new none { skipValidate := true }) knotBlock).length := by decide
  obtain ⟨hfail, -, -, -, -, hanswers⟩ :=
    ingest_retry (new none { skipValidate := true }) knotBlock 5 Mem.new
  exact ⟨hlen, hfail _ _ hlen, hanswers⟩

end Ingest

end MemServe
