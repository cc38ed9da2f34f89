import MemServe.Cells
import MemServe.Census
import MemServe.HeightIndex

/-!
The totals of a run.

`Run` drains a source and adds up what `IngestBlock` counts. Every write makes one record or none,
and every sweep counts what it evicts, so as long as no record is made twice the records made are
those that are still there and those that were counted as pruned.
-/

namespace MemServe

open Teranode Ingest

/-- A write, with what is counted for it. -/
def Mem.Store.book (c : Call) (r : Stats × Mem.Store) : Stats × Mem.Store :=
  let st := r.1
  let s := r.2
  match c with
  | .putTxIndex .. => ({ st with txsIndexed := st.txsIndexed + 1 }, s.apply c)
  | .putUTXO .. => ({ st with utxosMade := st.utxosMade + 1 }, s.apply c)
  | .spendUTXO op _ _ =>
    (if (s.getUTXO op).isSome then { st with utxosSpent := st.utxosSpent + 1 } else st, s.apply c)
  | .pruneSpentAtHeight h =>
    ({ st with pruned := st.pruned + (s.pruneSpentAtHeight h).1 }, s.apply c)
  | .pruneIndexAtHeight h =>
    ({ st with pruned := st.pruned + (s.pruneIndexAtHeight h).1 }, s.apply c)
  | _ => (st, s.apply c)

@[simp] lemma Mem.Store.book_snd (c : Call) (r : Stats × Mem.Store) :
    (Mem.Store.book c r).2 = r.2.apply c := by
  cases c <;> rfl

lemma Mem.Store.run_book_snd (cs : List Call) (r : Stats × Mem.Store) :
    (Trace.run book cs r).2 = r.2.run cs :=
  Trace.run_related (r := fun (r : Stats × Mem.Store) s => r.2 = s) book
    (fun c _ r s h => by rw [book_snd, h]) rfl

/-- What is counted for a list of writes. -/
def Mem.Store.counted (cs : List Call) (s : Mem.Store) : Stats := (Trace.run book cs ({}, s)).1

lemma Mem.Store.run_book_eq (cs : List Call) (s : Mem.Store) :
    Trace.run book cs ({}, s) = (s.counted cs, s.run cs) :=
  Prod.ext rfl (run_book_snd cs ({}, s))

namespace Ingest

section Books

open Trace Mem.Store

/-- The program makes these writes, and counts them. -/
abbrev Books {α : Type} (m : IngestM Mem.Store α) (cs : List Call) : Prop := Issues book id m cs

lemma books_call {α : Type} {m : StoreM Mem.Store α} {c : Call}
    (h : ∀ s, ∃ a, m s = ((.ok a, s.apply c) : _ × Mem.Store))
    (hc : ∀ st s, book c (st, s) = (st, s.apply c)) :
    Books (call m) [c] := by
  rintro ⟨st, s⟩
  obtain ⟨a, ha⟩ := h s
  exact ⟨a, (st, s.apply c), by simp only [call, ExceptT.run, StateT.run, ha], (hc st s).symm⟩

lemma books_count {α : Type} {m : StoreM Mem.Store α} {c : Call} {k : α → IngestM Mem.Store Unit}
    (h : ∀ st s, ∃ a, m s = ((.ok a, s.apply c) : _ × Mem.Store) ∧
      (k a).run.run (st, s.apply c) = (.ok (), book c (st, s))) : Books (call m >>= k) [c] := by
  rintro ⟨st, s⟩
  obtain ⟨a, ha, hk⟩ := h st s
  have hcall : (call m).run.run (st, s) = (.ok a, (st, s.apply c)) := by
    simp only [call, ExceptT.run, StateT.run, ha]
  exact ⟨(), book c (st, s), by rw [run_bind_ok hcall, hk], rfl⟩

lemma books_indexTx (b : Block) (si li : ℕ) (tx : Tx) :
    Books (indexTx b si li tx) (txCalls b si li tx) := by
  have T : Tracing fun _ (m : IngestM Mem.Store _) cs => Books m cs := Issues.tracing
  have hput : Books (call (Store.putTxIndex tx.txID (indexEntry b si li)) >>= fun _ =>
      count fun st => { st with txsIndexed := st.txsIndexed + 1 })
        [.putTxIndex tx.txID (indexEntry b si li)] :=
    books_count fun st s => ⟨(), rfl, rfl⟩
  have hin : Books (tx.inputs.forM fun op => do
      let ok ← call (Store.spendUTXO op tx.txID b.height)
      if ok then count fun st => { st with utxosSpent := st.utxosSpent + 1 })
          (spendCalls b.height tx) := by
    refine T.forM_map _ fun op _ => books_count fun st s => ⟨_, rfl, ?_⟩
    rw [spendUTXO_fst]
    unfold book
    dsimp only
    cases (s.getUTXO op).isSome <;> rfl
  have hout : Books (tx.outputs.zipIdx.forM fun o => do
      call (Store.putUTXO (outpoint tx o.2) { value := o.1.value, scriptHash := o.1.scriptHash })
      count fun st => { st with utxosMade := st.utxosMade + 1 }) (createCalls tx) :=
    T.forM_map _ fun o _ => books_count fun st s => ⟨(), rfl, rfl⟩
  have hall := T.bind hput fun _ => T.bind hin fun _ => hout
  rw [bind_assoc] at hall
  exact hall

lemma books_indexBlock (ing : Ingestor) (b : Block) (s : Mem.Store) :
    (indexBlock ing b).run.run ({}, s) =
      (.ok (), { s.counted (indexCalls ing b) with blocks := 1 }, s.run (indexCalls ing b)) := by
  have T : Tracing fun _ (m : IngestM Mem.Store _) cs => Books m cs := Issues.tracing
  have hsubs : Books (putSubtrees ing b) (subtreeCalls ing b) := by
    refine T.forM _ fun sub _ => Tracing.ite (fun _ => ?_) fun _ => T.pure _
    exact books_call (fun s => ⟨(), rfl⟩) fun _ _ => rfl
  have hblk : Books (call (Store.putBlock (blockRec b))) [.putBlock (blockRec b)] :=
    books_call (fun s => ⟨(), rfl⟩) fun _ _ => rfl
  have hhdr : Books (call (Store.putHeader b.height b.header)) [.putHeader b.height b.header] :=
    books_call (fun s => ⟨(), rfl⟩) fun _ _ => rfl
  have htxs : Books (indexTxs ing b) (txsCalls ing b) :=
    T.forM _ fun sub _ => T.forM _ fun tx _ =>
      Tracing.ite (fun _ => books_indexTx b sub.2 tx.2 tx.1) fun _ => T.pure _
  -- everything before the last count
  have hall := T.bind hsubs fun _ => T.bind hblk fun _ => T.bind hhdr fun _ => htxs
  obtain ⟨a, r, hrun, hr⟩ := hall ({}, s)
  obtain rfl : r = (s.counted (indexCalls ing b), s.run (indexCalls ing b)) :=
    hr.trans (run_book_eq _ s)
  have hbody : (indexBlock ing b : IngestM Mem.Store Unit) =
      (putSubtrees ing b >>= fun _ => call (Store.putBlock (blockRec b)) >>= fun _ =>
      call (Store.putHeader b.height b.header) >>= fun _ => indexTxs ing b) >>= fun _ =>
        count fun st => { st with blocks := 1 } := by
    simp only [indexBlock, bind_assoc]
  rw [hbody, run_bind_ok hrun]
  rfl

lemma books_sweepLoop {f : UInt32 → StoreM Mem.Store ℕ} {c : UInt32 → Call}
    (hf : ∀ h (st : Stats) s, ∃ n, f h s = ((.ok n, s.apply (c h)) : _ × Mem.Store) ∧
      book (c h) (st, s) = ({ st with pruned := st.pruned + n }, s.apply (c h)))
    (hs : List UInt32) (st : Stats) (s : Mem.Store) :
    ∃ n, (∀ k, Prune.sweepLoop f hs k s = ((k + n, none), s.run (hs.map c))) ∧
      run book (hs.map c) (st, s) = ({ st with pruned := st.pruned + n }, s.run (hs.map c)) := by
  induction hs generalizing st s with
  | nil => exact ⟨0, fun k => rfl, rfl⟩
  | cons h hs ih =>
    obtain ⟨n, hn, hbook⟩ := hf h st s
    obtain ⟨m, hm, hrun⟩ := ih { st with pruned := st.pruned + n } (s.apply (c h))
    refine ⟨n + m, fun k => ?_, ?_⟩
    · rw [Prune.sweepLoop, hn]
      exact (hm (k + n)).trans (by rw [Nat.add_assoc]; rfl)
    · rw [List.map_cons, run_cons, hbook, hrun, Nat.add_assoc]
      rfl

lemma books_onNewBlock (pr : Prune.Pruner) (tip : UInt32) (st : Stats) (s : Mem.Store) :
    ∃ n, Prune.onNewBlock pr tip s =
        ((n, none), pr.advance tip (pr.total + UInt64.ofNat n), s.run (pruneCalls pr tip)) ∧
      run book (pruneCalls pr tip) (st, s) =
        ({ st with pruned := st.pruned + n }, s.run (pruneCalls pr tip)) := by
  obtain ⟨n, hn, hrun⟩ := books_sweepLoop (f := Store.pruneSpentAtHeight) (c := .pruneSpentAtHeight)
    (fun h st s => ⟨_, rfl, rfl⟩) (Prune.bands pr.lastTip pr.hasTip tip pr.policy.d) st s
  unfold Prune.onNewBlock pruneCalls Prune.sweep
  rw [hn, Trace.run_append, hrun]
  dsimp only
  split_ifs with hr
  · obtain ⟨m, hm, hrun'⟩ :=
      books_sweepLoop (f := Store.pruneIndexAtHeight) (c := .pruneIndexAtHeight)
      (fun h st s => ⟨_, rfl, rfl⟩) (Prune.bands pr.lastTip pr.hasTip tip pr.policy.indexRetention)
      { st with pruned := st.pruned + n }
      (s.run ((Prune.bands pr.lastTip pr.hasTip tip pr.policy.d).map .pruneSpentAtHeight))
    refine ⟨n + m, ?_, ?_⟩
    · rw [hm, Mem.Store.run_append, Nat.zero_add, Nat.zero_add]
      rfl
    · rw [hrun', Mem.Store.run_append, Nat.add_assoc]
  · refine ⟨n, ?_, ?_⟩
    · rw [List.append_nil, Nat.zero_add]
      rfl
    · rw [List.append_nil]
      rfl

/-- The count of evicted records that a pruner keeps. -/
def Ingestor.totalPruned (ing : Ingestor) : UInt64 := ing.pruner.elim 0 Prune.Pruner.total

/-- **An accepted block**: its writes, and what is counted for them. -/
lemma ingestBlock_books {ing : Ingestor} {b : Block} (h : ing.accepts b = true) (s : Mem.Store) :
    ingestBlock ing b s =
      (({ s.counted (ingestCalls ing b) with blocks := 1 }, none),
        ing.advance b.height
          (ing.totalPruned + UInt64.ofNat (s.counted (ingestCalls ing b)).pruned),
        s.run (ingestCalls ing b)) := by
  rw [ingestBlock, if_neg (Ingestor.accepts_iff.mp h), books_indexBlock]
  -- indexing evicts nothing
  have hnone : (s.counted (indexCalls ing b)).pruned = 0 := by
    refine run_invariant (p := fun r : Stats × Mem.Store => r.1.pruned = 0) book
      (fun c hc r hr => ?_) rfl
    have hix := indexCalls_indexes ing b c hc
    cases c with
    | spendUTXO op spentBy a =>
      unfold book
      dsimp only
      split_ifs
      · exact hr
      · exact hr
    | unspendUTXO | deleteUTXO | deleteTxIndex | pruneSpentAtHeight | pruneIndexAtHeight =>
      exact absurd hix id
    | _ => exact hr
  cases hp : ing.pruner with
  | none =>
    have hing : ∀ t, ing.advance b.height t = ing := fun t => by
      rw [Ingestor.advance, hp, Option.map_none, ← hp]
    have hcalls : ingestCalls ing b = indexCalls ing b := by simp [ingestCalls, hp]
    simp only [hcalls, hing]
  | some pr =>
    have hcalls : ingestCalls ing b = indexCalls ing b ++ pruneCalls pr b.height := by
      simp [ingestCalls, hp]
    obtain ⟨n, hn, hrun⟩ :=
      books_onNewBlock pr b.height (s.counted (indexCalls ing b)) (s.run (indexCalls ing b))
    have hst : s.counted (ingestCalls ing b) =
        { s.counted (indexCalls ing b) with pruned := n } := by
      rw [hcalls, counted, Trace.run_append, run_book_eq, hrun, hnone, Nat.zero_add]
    dsimp only
    rw [hn, hst]
    simp only [hcalls, Mem.Store.run_append, Ingestor.advance, Ingestor.totalPruned, hp]
    rfl

lemma feed_home {p : Ingestor × Mem.Store} (h : p.2.Home) (bs : List Block) :
    (feed p bs).2.Home := by
  induction bs generalizing p with
  | nil => exact h
  | cons b bs ih =>
    refine ih (p := (ingestBlock p.1 b p.2).2) ?_
    cases hacc : p.1.accepts b with
    | false => rwa [ingestBlock_reject hacc]
    | true =>
      rw [ingestBlock_books hacc]
      exact h.run _

end Books

end Ingest

/-- The key of a record, whatever its kind. -/
inductive RecordKey
  | tx (txid : Hash)
  | utxo (op : Outpoint)
  | subtree (root : Hash)
  | block (hash : Hash)
  | header (height : UInt32)
  deriving DecidableEq

def RecordKey.utxo? (k : RecordKey) : Option Outpoint :=
  match k with
  | .utxo op => some op
  | _ => none

/-- The record a write makes. -/
def Call.creates (c : Call) : Option RecordKey :=
  match c with
  | .putTxIndex t _ => some (.tx t)
  | .putUTXO op _ => some (.utxo op)
  | .putSubtree r _ => some (.subtree r)
  | .putBlock b => some (.block b.hash)
  | .putHeader h _ => some (.header h)
  | _ => none

def Call.spends (c : Call) : Option Outpoint :=
  match c with
  | .spendUTXO op _ _ => some op
  | _ => none

/-- Writes that take nothing back. Only sweeps delete. -/
def Call.Forward (c : Call) : Prop :=
  match c with
  | .putUTXO _ u => u.spent = false
  | .unspendUTXO _ | .deleteUTXO _ | .deleteTxIndex _ => False
  | _ => True

namespace Flat

variable {f : Flat} {c : Call}

def has (f : Flat) (k : RecordKey) : Bool :=
  match k with
  | .tx t => (f.txindex t).isSome
  | .utxo op => (f.utxo op).isSome
  | .subtree r => (f.subtree r).isSome
  | .block x => (f.blocks x).isSome
  | .header h => (f.hdr h).isSome

lemma has_apply {k : RecordKey} (h : (f.apply c).has k = true) :
    f.has k = true ∨ c.creates = some k := by
  have hupd : ∀ {K V : Type} [DecidableEq K] (m : K → Option V) (a j : K) (x : Option V),
      (Function.update m a x j).isSome = true → (m j).isSome = true ∨ a = j ∧ x ≠ none := by
    intro K V _ m a j x hx
    rw [Function.update_apply] at hx
    split_ifs at hx with hj
    · exact .inr ⟨hj.symm, Option.isSome_iff_ne_none.mp hx⟩
    · exact .inl hx
  cases k with
  | utxo op =>
    simp only [has, apply_utxo] at h ⊢
    cases c with
    | putUTXO op' u =>
      by_cases hop : op = op'
      · exact .inr (by rw [hop]; rfl)
      · exact .inl (by simpa [Call.cell, hop] using h)
    | spendUTXO op' => exact .inl (by simp only [Call.cell] at h; split_ifs at h <;> simpa using h)
    | unspendUTXO op' =>
      exact .inl (by simp only [Call.cell] at h; split_ifs at h <;> simpa using h)
    | deleteUTXO op' =>
      simp only [Call.cell] at h
      split_ifs at h
      · simp at h
      · exact .inl h
    | pruneSpentAtHeight a =>
      obtain ⟨u, hu⟩ := Option.isSome_iff_exists.mp h
      exact .inl (by rw [(Option.filter_eq_some_iff.mp hu).1]; rfl)
    | _ => exact .inl h
  | tx t =>
    simp only [has] at h ⊢
    cases c with
    | putTxIndex t' ix => exact (hupd _ _ _ _ h).imp_right fun h => by rw [← h.1]; rfl
    | deleteTxIndex t' => exact .inl ((hupd _ _ _ _ h).resolve_right fun h => h.2 rfl)
    | pruneIndexAtHeight a =>
      rw [apply_pruneIndex] at h
      dsimp only at h
      split_ifs at h
      · simp at h
      · exact .inl h
    | _ => exact .inl h
  | subtree r =>
    simp only [has] at h ⊢
    cases c with
    | putSubtree r' l => exact (hupd _ _ _ _ h).imp_right fun h => by rw [← h.1]; rfl
    | pruneIndexAtHeight a =>
      rw [apply_pruneIndex] at h
      dsimp only at h
      split_ifs at h
      · simp at h
      · exact .inl h
    | _ => exact .inl h
  | block x =>
    simp only [has] at h ⊢
    cases c with
    | putBlock b => exact (hupd _ _ _ _ h).imp_right fun h => by rw [← h.1]; rfl
    | pruneIndexAtHeight a =>
      rw [apply_pruneIndex] at h
      dsimp only at h
      split_ifs at h
      · exact .inl ((hupd _ _ _ _ h).resolve_right fun h => h.2 rfl)
      · exact .inl h
    | _ => exact .inl h
  | header a =>
    simp only [has] at h ⊢
    cases c with
    | putHeader a' hdr => exact (hupd _ _ _ _ h).imp_right fun h => by rw [← h.1]; rfl
    | pruneIndexAtHeight a' =>
      rw [apply_pruneIndex] at h
      exact .inl ((hupd _ _ _ _ h).resolve_right fun h => h.2 rfl)
    | _ => exact .inl h

/-! ### Counting records -/

/-- Finitely many records of each kind. -/
structure Finite (f : Flat) : Prop where
  txindex : Tally.Finite f.txindex
  utxo : Tally.Finite f.utxo
  subtree : Tally.Finite f.subtree
  blocks : Tally.Finite f.blocks
  hdr : Tally.Finite f.hdr

/-- The number of records of all kinds. -/
noncomputable def size (f : Flat) : ℕ :=
  Tally.tally f.txindex (fun _ => true) + Tally.tally f.utxo (fun _ => true) +
    Tally.tally f.subtree (fun _ => true) +
    Tally.tally f.blocks (fun _ => true) + Tally.tally f.hdr (fun _ => true)

noncomputable def live (f : Flat) : ℕ := Tally.tally f.utxo fun u => !u.spent

noncomputable def spent (f : Flat) : ℕ := Tally.tally f.utxo fun u => u.spent

lemma Counted.finite {st : StoreStats} (h : f.Counted st) : f.Finite where
  txindex := Tally.finite_of_encard h.txIndex
  utxo := Tally.finite_of_encard_split h.utxoSpent h.utxoLive
  subtree := Tally.finite_of_encard h.subtrees
  blocks := Tally.finite_of_encard h.blocks
  hdr := Tally.finite_of_encard h.headers

lemma Counted.live_eq {st : StoreStats} (h : f.Counted st) : f.live = st.utxoLive :=
  Tally.tally_of_encard h.utxoLive

lemma Counted.spent_eq {st : StoreStats} (h : f.Counted st) : f.spent = st.utxoSpent :=
  Tally.tally_of_encard h.utxoSpent

lemma Counted.size_eq {st : StoreStats} (h : f.Counted st) :
    f.size = st.txIndex + (st.utxoLive + st.utxoSpent) + st.subtrees + st.blocks + st.headers := by
  have hutxo := Tally.tally_split h.finite.utxo (fun _ => true) fun u => u.spent
  simp only [Bool.and_true] at hutxo
  rw [Tally.tally_of_encard h.utxoSpent, Tally.tally_of_encard h.utxoLive] at hutxo
  rw [size, Tally.tally_of_encard h.txIndex, Tally.tally_of_encard h.subtrees,
    Tally.tally_of_encard h.blocks, Tally.tally_of_encard h.headers, ← hutxo]
  omega

lemma size_empty : empty.size = 0 := by simp [size, empty]

lemma live_empty : empty.live = 0 := by simp [live, empty]

lemma spent_empty : empty.spent = 0 := by simp [spent, empty]

/-- The write undoes nothing; an output it makes is not there yet, and one it spends is not
spent. -/
structure FreshUtxo (c : Call) (f : Flat) : Prop where
  forward : c.Forward
  new : ∀ op, c.creates = some (.utxo op) → f.utxo op = none
  unspent : ∀ op u, c.spends = some op → f.utxo op = some u → u.spent = false

/-- No record the write makes is there yet. -/
structure Fresh (c : Call) (f : Flat) : Prop extends FreshUtxo c f where
  all : ∀ k, c.creates = some k → f.has k = false

lemma tally_put {K V : Type} [DecidableEq K] {m : K → Option V} (hm : Tally.Finite m) {k : K}
    (hk : (m k).isSome = false)
    (v : V) : Tally.tally (Function.update m k (some v)) (fun _ => true) =
      Tally.tally m (fun _ => true) + 1 := by
  have h := Tally.tally_update hm (fun _ => true) k (some v)
  have hnone : m k = none := by simpa using hk
  rw [hnone] at h
  simpa using h

lemma size_put (hf : f.Finite) {k : RecordKey} (hk : c.creates = some k) (hnew : f.has k = false) :
    (f.apply c).size = f.size + 1 := by
  cases c with
  | putTxIndex t ix =>
    cases hk
    change Tally.tally (Function.update f.txindex t (some ix)) _ + Tally.tally f.utxo _ +
      Tally.tally f.subtree _ +
      Tally.tally f.blocks _ + Tally.tally f.hdr _ = _
    rw [tally_put hf.txindex hnew, size]
    omega
  | putUTXO op u =>
    cases hk
    rw [apply_putUTXO]
    change Tally.tally f.txindex _ + Tally.tally (Function.update f.utxo op (some u)) _ +
      Tally.tally f.subtree _ +
      Tally.tally f.blocks _ + Tally.tally f.hdr _ = _
    rw [tally_put hf.utxo hnew, size]
    omega
  | putSubtree r l =>
    cases hk
    change Tally.tally f.txindex _ + Tally.tally f.utxo _ +
      Tally.tally (Function.update f.subtree r (some l)) _ +
      Tally.tally f.blocks _ + Tally.tally f.hdr _ = _
    rw [tally_put hf.subtree hnew, size]
    omega
  | putBlock b =>
    cases hk
    change Tally.tally f.txindex _ + Tally.tally f.utxo _ + Tally.tally f.subtree _ +
      Tally.tally (Function.update f.blocks b.hash (some b)) _ + Tally.tally f.hdr _ = _
    rw [tally_put hf.blocks hnew, size]
    omega
  | putHeader a hdr =>
    cases hk
    change Tally.tally f.txindex _ + Tally.tally f.utxo _ + Tally.tally f.subtree _ +
      Tally.tally f.blocks _ + Tally.tally (Function.update f.hdr a (some hdr)) _ = _
    rw [tally_put hf.hdr hnew, size]
    omega
  | _ => simp [Call.creates] at hk

lemma size_spendUTXO (hf : f.Finite) (op : Outpoint) (spentBy : Hash) (h : UInt32) :
    (f.apply (.spendUTXO op spentBy h)).size = f.size := by
  have hupd := Tally.tally_update hf.utxo (fun _ => true) op ((f.utxo op).map (·.spend spentBy h))
  have hany : (((f.utxo op).map (·.spend spentBy h)).any fun _ => true) =
      (f.utxo op).any fun _ => true := by
    cases f.utxo op <;> rfl
  rw [hany] at hupd
  rw [apply_spendUTXO, size, size]
  dsimp only
  omega

lemma size_pruneSpent (hf : f.Finite) (h : UInt32) :
    (f.apply (.pruneSpentAtHeight h)).size + Tally.tally f.utxo (·.spentAt h) = f.size := by
  have hsplit := Tally.tally_split hf.utxo (fun _ => true) fun u => u.spentAt h
  have hfilter := Tally.tally_filter f.utxo (fun _ => true) fun u => !u.spentAt h
  simp only [Bool.and_true] at hsplit hfilter
  change Tally.tally f.txindex _ + Tally.tally
    (fun op => (f.utxo op).filter fun u => !u.spentAt h) _ +
    Tally.tally f.subtree _ + Tally.tally f.blocks _ + Tally.tally f.hdr _ + _ = _
  rw [hfilter, size]
  omega

lemma size_pruneIndex (hf : f.Finite) (h : UInt32) :
    (f.apply (.pruneIndexAtHeight h)).size +
      ((if (f.entry h).hasBlock then
        (if (f.blocks (f.entry h).block).isSome then 1 else 0) else 0) +
        ((f.entry h).subtrees.toFinset.filter fun r => (f.subtree r).isSome = true).card +
        ((f.entry h).txids.toFinset.filter fun t => (f.txindex t).isSome = true).card +
        (if (f.hdr h).isSome then 1 else 0)) = f.size := by
  have hsome : ∀ {V : Type} (x : Option V), (x.any fun _ => true) = x.isSome :=
    fun x => by cases x <;> rfl
  have htx := Tally.tally_drop hf.txindex (fun _ => true) (f.entry h).txids
  have hsub := Tally.tally_drop hf.subtree (fun _ => true) (f.entry h).subtrees
  have hhdr := Tally.tally_update hf.hdr (fun _ => true) h none
  have hblk := Tally.tally_update hf.blocks (fun _ => true) (f.entry h).block none
  simp only [hsome, Option.isSome_none, Bool.false_eq_true, if_false, Nat.add_zero]
    at htx hsub hhdr hblk
  rw [apply_pruneIndex, size, size]
  cases (f.entry h).hasBlock with
  | false =>
    simp only [Bool.false_eq_true, if_false]
    omega
  | true =>
    simp only [if_true]
    omega

end Flat

namespace Mem.Store

open Flat

variable {s : Mem.Store}

lemma pruneSpent_tally (hi : s.Indexed) (hh : s.Home) (h : UInt32) :
    (s.pruneSpentAtHeight h).1 = Tally.tally s.flatten.utxo (·.spentAt h) := by
  have ho : s.Owned := fun i => (hh i).utxo
  rw [pruneSpentAtHeight_count hi ho, Tally.tally, ← Set.ncard_coe_finset]
  refine congrArg Set.ncard (Set.ext fun op => ?_)
  rw [Finset.mem_coe, mem_spentKeys ho]
  rfl

/-- **Every write of a new record adds one, every other write none, and a sweep counts what it
takes.** -/
lemma size_book (hi : s.Indexed) (hh : s.Home) {c : Call} (hc : Fresh c s.flatten) (st : Stats) :
    (book c (st, s)).2.flatten.size + (book c (st, s)).1.pruned =
      s.flatten.size + st.pruned + c.creates.toList.length := by
  have hfin := (stats_counted hh).finite
  obtain ⟨⟨hc, -, -⟩, hnew⟩ := hc
  rw [book_snd, flatten_apply hi]
  cases c with
  | spendUTXO op spentBy a =>
    have hpruned : (book (.spendUTXO op spentBy a) (st, s)).1.pruned = st.pruned := by
      unfold book
      dsimp only
      split_ifs
      · rfl
      · rfl
    rw [size_spendUTXO hfin, hpruned]
    rfl
  | pruneSpentAtHeight a =>
    have h := size_pruneSpent hfin a
    rw [← pruneSpent_tally hi hh a] at h
    simp only [book, Call.creates, Option.toList_none, List.length_nil]
    omega
  | pruneIndexAtHeight a =>
    have h : (s.flatten.apply (.pruneIndexAtHeight a)).size + (s.pruneIndexAtHeight a).1 =
        s.flatten.size := by
      rw [pruneIndexAtHeight_count]
      exact size_pruneIndex hfin a
    simp only [book, Call.creates, Option.toList_none, List.length_nil]
    omega
  | unspendUTXO => exact absurd hc id
  | deleteUTXO => exact absurd hc id
  | deleteTxIndex => exact absurd hc id
  | _ =>
    rw [size_put hfin rfl (hnew _ rfl)]
    simp only [book, Call.creates, Option.toList_some, List.length_singleton]
    omega

/-- **An output is live from the time it is made to the time it is spent.** -/
lemma live_book (hi : s.Indexed) (hh : s.Home) {c : Call} (hc : FreshUtxo c s.flatten)
    (st : Stats) :
    (book c (st, s)).2.flatten.live + (book c (st, s)).1.utxosSpent + st.utxosMade =
      s.flatten.live + st.utxosSpent + (book c (st, s)).1.utxosMade := by
  have hfin := (stats_counted hh).finite
  obtain ⟨hc, hnew, hunspent⟩ := hc
  rw [book_snd, flatten_apply hi]
  cases c with
  | putUTXO op u =>
    have hnone : s.flatten.utxo op = none := hnew op rfl
    have hupd := Tally.tally_update hfin.utxo (fun u => !u.spent) op (some u)
    simp only [hnone, Option.any_none, Option.any_some, show u.spent = false from hc] at hupd
    rw [Flat.apply_putUTXO, live, live]
    simp only [book]
    simp at hupd
    omega
  | spendUTXO op spentBy a =>
    have hupd :=
      Tally.tally_update hfin.utxo (fun u => !u.spent) op
      ((s.flatten.utxo op).map (·.spend spentBy a))
    rw [Flat.apply_spendUTXO, live, live]
    unfold book
    dsimp only
    cases hu : s.flatten.utxo op with
    | none =>
      have hget : s.getUTXO op = none := hu
      simp only [hu, Option.map_none, Option.any_none, hget] at hupd ⊢
      simp at hupd ⊢
      omega
    | some u =>
      have hget : s.getUTXO op = some u := hu
      simp only [hu, Option.map_some, Option.any_some, UTXO.spend, hunspent op u rfl hu, hget]
        at hupd ⊢
      simp at hupd ⊢
      omega
  | pruneSpentAtHeight a =>
    have hfilter := Tally.tally_filter s.flatten.utxo (fun u => !u.spent) fun u => !u.spentAt a
    have hkeep : (fun u : UTXO => !u.spentAt a && !u.spent) = fun u => !u.spent := by
      funext u
      cases hu : u.spent <;> simp [UTXO.spentAt, hu]
    rw [hkeep] at hfilter
    change Tally.tally (fun op => (s.flatten.utxo op).filter fun u => !u.spentAt a) _ + _ + _ = _
    rw [hfilter]
    simp only [book, live]
  | pruneIndexAtHeight a =>
    rw [Flat.apply_pruneIndex]
    simp only [book, live]
  | unspendUTXO => exact absurd hc id
  | deleteUTXO => exact absurd hc id
  | deleteTxIndex => exact absurd hc id
  | _ => rfl

/-- **A spend is kept until a sweep takes it**, as long as sweeps take nothing else. -/
lemma spent_book (hi : s.Indexed) (hh : s.Home) {c : Call} (hc : FreshUtxo c s.flatten)
    (hix : c.keepsIndex) (st : Stats) :
    (book c (st, s)).2.flatten.spent + (book c (st, s)).1.pruned + st.utxosSpent =
      s.flatten.spent + st.pruned + (book c (st, s)).1.utxosSpent := by
  have hfin := (stats_counted hh).finite
  obtain ⟨hc, hnew, hunspent⟩ := hc
  rw [book_snd, flatten_apply hi]
  cases c with
  | putUTXO op u =>
    have hnone : s.flatten.utxo op = none := hnew op rfl
    have hupd := Tally.tally_update hfin.utxo (fun u => u.spent) op (some u)
    simp only [hnone, Option.any_none, Option.any_some, show u.spent = false from hc] at hupd
    rw [Flat.apply_putUTXO, spent, spent]
    simp only [book]
    simp at hupd
    omega
  | spendUTXO op spentBy a =>
    have hupd :=
      Tally.tally_update hfin.utxo (fun u => u.spent) op
      ((s.flatten.utxo op).map (·.spend spentBy a))
    rw [Flat.apply_spendUTXO, spent, spent]
    unfold book
    dsimp only
    cases hu : s.flatten.utxo op with
    | none =>
      have hget : s.getUTXO op = none := hu
      simp only [hu, Option.map_none, Option.any_none, hget] at hupd ⊢
      simp at hupd ⊢
      omega
    | some u =>
      have hget : s.getUTXO op = some u := hu
      simp only [hu, Option.map_some, Option.any_some, UTXO.spend, hunspent op u rfl hu, hget]
        at hupd ⊢
      simp at hupd ⊢
      omega
  | pruneSpentAtHeight a =>
    have hsplit := Tally.tally_split hfin.utxo (fun u => u.spent) fun u => u.spentAt a
    have hfilter := Tally.tally_filter s.flatten.utxo (fun u => u.spent) fun u => !u.spentAt a
    have hat : (fun u : UTXO => u.spentAt a && u.spent) = fun u => u.spentAt a := by
      funext u
      cases hu : u.spent <;> simp [UTXO.spentAt, hu]
    rw [hat] at hsplit
    change Tally.tally (fun op => (s.flatten.utxo op).filter fun u => !u.spentAt a) _ + _ + _ = _
    rw [hfilter]
    simp only [book, spent, pruneSpent_tally hi hh a]
    omega
  | pruneIndexAtHeight a => exact absurd rfl (hix a)
  | unspendUTXO => exact absurd hc id
  | deleteUTXO => exact absurd hc id
  | deleteTxIndex => exact absurd hc id
  | _ => rfl

/-! ### Whole runs -/

/-- Every call of the run is made where `P` allows it. -/
def RunsWith (P : Call → Flat → Prop) (cs : List Call) (r : Stats × Mem.Store) : Prop :=
  Trace.Guarded book (fun c r => P c r.2.flatten) cs r

lemma size_run {cs : List Call} {r : Stats × Mem.Store} (hg : RunsWith Fresh cs r)
    (hi : r.2.Indexed) (hh : r.2.Home) :
    (Trace.run book cs r).2.flatten.size + (Trace.run book cs r).1.pruned =
      r.2.flatten.size + r.1.pruned + (cs.filterMap Call.creates).length := by
  induction cs generalizing r with
  | nil => rfl
  | cons c cs ih =>
    obtain ⟨hc, hcs⟩ := Trace.guarded_cons_iff.mp hg
    have hstep := size_book hi hh hc r.1
    have hrest := ih hcs (by rw [book_snd]; exact hi.apply c) (by rw [book_snd]; exact hh.apply c)
    rw [Trace.run_cons, hrest, hstep, List.filterMap_cons]
    cases c.creates with
    | none => simp
    | some k =>
      simp only [Option.toList_some, List.length_cons, List.length_nil]
      omega

lemma live_run {cs : List Call} {r : Stats × Mem.Store} (hg : RunsWith FreshUtxo cs r)
    (hi : r.2.Indexed) (hh : r.2.Home) (hr : r.2.flatten.live + r.1.utxosSpent = r.1.utxosMade) :
    (Trace.run book cs r).2.flatten.live + (Trace.run book cs r).1.utxosSpent =
      (Trace.run book cs r).1.utxosMade := by
  refine (Trace.Guarded.invariant (p := fun r : Stats × Mem.Store => r.2.Indexed ∧ r.2.Home ∧
    r.2.flatten.live + r.1.utxosSpent = r.1.utxosMade) hg (fun c r h hc => ?_) ⟨hi, hh, hr⟩).2.2
  obtain ⟨hi, hh, hr⟩ := h
  have hstep := live_book hi hh hc r.1
  refine ⟨by rw [book_snd]; exact hi.apply c, by rw [book_snd]; exact hh.apply c, ?_⟩
  change (book c (r.1, r.2)).2.flatten.live + (book c (r.1, r.2)).1.utxosSpent =
    (book c (r.1, r.2)).1.utxosMade
  omega

/-- **Outputs spent are kept or were counted as pruned**, without sweeps of the index. -/
lemma spent_run {cs : List Call} {r : Stats × Mem.Store} (hg : RunsWith FreshUtxo cs r)
    (hix : ∀ c ∈ cs, c.keepsIndex) (hi : r.2.Indexed) (hh : r.2.Home)
    (hr : r.2.flatten.spent + r.1.pruned = r.1.utxosSpent) :
    (Trace.run book cs r).2.flatten.spent + (Trace.run book cs r).1.pruned =
      (Trace.run book cs r).1.utxosSpent := by
  induction cs generalizing r with
  | nil => exact hr
  | cons c cs ih =>
    obtain ⟨hc, hcs⟩ := Trace.guarded_cons_iff.mp hg
    have hstep := spent_book hi hh hc (hix c List.mem_cons_self) r.1
    refine ih hcs (fun d hd => hix d (List.mem_cons_of_mem c hd))
      (by rw [book_snd]; exact hi.apply c)
      (by rw [book_snd]; exact hh.apply c) ?_
    change (book c (r.1, r.2)).2.flatten.spent + (book c (r.1, r.2)).1.pruned =
      (book c (r.1, r.2)).1.utxosSpent
    omega

end Mem.Store

/-- Calls that take nothing back, make no output twice, and spend none twice that they make. -/
structure OrderlyUtxo (cs : List Call) : Prop where
  forward : ∀ c ∈ cs, c.Forward
  once : ((cs.filterMap Call.creates).filterMap RecordKey.utxo?).Nodup
  spent : ∀ op, RecordKey.utxo op ∈ cs.filterMap Call.creates →
    (cs.filterMap Call.spends).count op ≤ 1

/-- Calls that make no record twice. -/
structure Orderly (cs : List Call) : Prop extends OrderlyUtxo cs where
  all : (cs.filterMap Call.creates).Nodup

namespace Flat

lemma has_run {cs : List Call} {k : RecordKey} (h : (empty.run cs).has k = true) :
    k ∈ cs.filterMap Call.creates := by
  induction cs using List.reverseRecOn with
  | nil => cases k <;> simp [has, empty] at h
  | append_singleton cs c ih =>
    rw [run_append, run_cons, run_nil] at h
    rw [List.filterMap_append, List.mem_append]
    rcases has_apply h with h | h
    · exact .inl (ih h)
    · exact .inr (List.mem_filterMap.mpr ⟨c, by simp, h⟩)

lemma spent_run {cs : List Call} (hcs : ∀ c ∈ cs, c.Forward) {op : Outpoint} {u : UTXO}
    (h : (empty.run cs).utxo op = some u) (hu : u.spent = true) :
    op ∈ cs.filterMap Call.spends := by
  induction cs using List.reverseRecOn with
  | nil => simp [empty] at h
  | append_singleton cs c ih =>
    have ih := ih fun d hd => hcs d (List.mem_append_left _ hd)
    have hc := hcs c (by simp)
    rw [List.filterMap_append, List.mem_append]
    rw [run_append, run_cons, run_nil, apply_utxo] at h
    cases c with
    | putUTXO op' u' =>
      simp only [Call.cell] at h
      split_ifs at h
      · cases h
        rw [show u.spent = false from hc] at hu
        simp at hu
      · exact .inl (ih h)
    | spendUTXO op' spentBy a =>
      simp only [Call.cell] at h
      split_ifs at h with hop
      · exact .inr (by simp [Call.spends, hop])
      · exact .inl (ih h)
    | pruneSpentAtHeight a => exact .inl (ih (Option.filter_eq_some_iff.mp h).1)
    | unspendUTXO => exact absurd hc id
    | deleteUTXO => exact absurd hc id
    | _ => exact .inl (ih h)

end Flat

lemma Mem.Store.run_new (cs : List Call) (st : Stats) :
    (Trace.run Mem.Store.book cs (st, Mem.new)).2.flatten = Flat.empty.run cs := by
  rw [Mem.Store.run_book_snd, Mem.Store.flatten_run Mem.Store.new_indexed, Mem.Store.flatten_new]

lemma OrderlyUtxo.fresh {cs : List Call} (h : OrderlyUtxo cs) :
    Mem.Store.RunsWith Flat.FreshUtxo cs ({}, Mem.new) := by
  intro pre c post hcs
  rw [Mem.Store.run_new]
  have honce := h.once
  rw [hcs, List.filterMap_append, List.filterMap_append, List.nodup_append] at honce
  have hmade : ∀ {op u}, (Flat.empty.run pre).utxo op = some u →
    RecordKey.utxo op ∈ pre.filterMap Call.creates :=
    fun hu => Flat.has_run (by simp [Flat.has, hu])
  refine ⟨h.forward c (by simp [hcs]), fun op hk => ?_, fun op u hop hu => ?_⟩
  · by_contra hne
    obtain ⟨u, hu⟩ := Option.ne_none_iff_exists'.mp hne
    refine honce.2.2 op (List.mem_filterMap.mpr ⟨_, hmade hu, rfl⟩) op ?_ rfl
    exact List.mem_filterMap.mpr ⟨_, List.mem_filterMap.mpr ⟨c, by simp, hk⟩, rfl⟩
  · by_contra hsp
    have hspent :=
      Flat.spent_run (fun d hd => h.forward d (by simp [hcs, hd])) hu
      (Bool.eq_true_of_not_eq_false hsp)
    have hcount :=
      h.spent op (by rw [hcs, List.filterMap_append]; exact List.mem_append_left _ (hmade hu))
    rw [hcs, List.filterMap_append, List.count_append, List.filterMap_cons_some hop,
      List.count_cons_self] at hcount
    have := List.count_pos_iff.mpr hspent
    omega

@[inherit_doc OrderlyUtxo.fresh]
lemma Orderly.fresh {cs : List Call} (h : Orderly cs) :
    Mem.Store.RunsWith Flat.Fresh cs ({}, Mem.new) := by
  intro pre c post hcs
  refine ⟨h.toOrderlyUtxo.fresh pre c post hcs, fun k hk => ?_⟩
  rw [Mem.Store.run_new]
  by_contra hhas
  have honce := h.all
  rw [hcs, List.filterMap_append, List.nodup_append] at honce
  have hpre := Flat.has_run (Bool.eq_true_of_not_eq_false hhas)
  exact honce.2.2 k hpre k (List.mem_filterMap.mpr ⟨c, by simp, hk⟩) rfl

end MemServe
