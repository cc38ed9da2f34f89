import Mathlib.Data.List.TakeWhile
import MemServe.Ledger
import MemServe.Totals

/-!
A source drained to its end.

`Run` ingests what the source hands out until it has no more or a block is rejected, and adds up
what each block counted. On a new store the sums close: outputs made are live or spent, spends are
kept or pruned, and records made are there or pruned.
-/

namespace MemServe

open Teranode Ingest

namespace Ingest

def Stats.add (total s : Stats) : Stats where
  blocks := total.blocks + s.blocks
  txsIndexed := total.txsIndexed + s.txsIndexed
  utxosMade := total.utxosMade + s.utxosMade
  utxosSpent := total.utxosSpent + s.utxosSpent
  pruned := total.pruned + s.pruned

inductive RunError (ε : Type)
  | source (e : ε)
  | ingest (e : Error)

section Run

variable {ς σ ε : Type} [Store σ]

/-- `Run`, for at most `fuel` calls of `Next`: `none` stands for a source that goes on after
them. -/
def run (next : ς → Except ε (Option Block) × ς) (fuel : ℕ) (total : Stats) (src : ς)
    (p : Ingestor × σ) :
    Option ((Stats × Option (RunError ε)) × ς × Ingestor × σ) :=
  match fuel with
  | 0 => none
  | fuel + 1 =>
    match next src with
    | (.error e, src) => some ((total, some (.source e)), src, p)
    | (.ok none, src) => some ((total, none), src, p)
    | (.ok (some b), src) =>
      match ingestBlock p.1 b p.2 with
      | ((_, some e), p) => some ((total, some (.ingest e)), src, p)
      | ((s, none), p) => run next fuel (total.add s) src p

/-- The source hands out these blocks one after the other, and then has no more and is in the last
state. -/
inductive Delivers (next : ς → Except ε (Option Block) × ς) : ς → List Block → ς → Prop
  | done {src src' : ς} (h : next src = (.ok none, src')) : Delivers next src [] src'
  | block {src src' last : ς} {b : Block} {bs : List Block} (h : next src = (.ok (some b), src'))
      (hbs : Delivers next src' bs last) : Delivers next src (b :: bs) last

end Run

/-- The writes of the blocks, one after the other. -/
def feedCalls (ing : Ingestor) (bs : List Block) : List Call :=
  match bs with
  | [] => []
  | b :: bs => ingestCalls ing b ++ feedCalls (ing.advance b.height 0) bs

lemma feedCalls_forget (ing : Ingestor) (bs : List Block) :
    feedCalls ing.forget bs = feedCalls ing bs := by
  induction bs generalizing ing with
  | nil => rfl
  | cons b bs ih =>
    rw [feedCalls, feedCalls, ingestCalls_forget, ← forget_advance ing b.height 0, ih]

lemma feedCalls_advance (ing : Ingestor) (h : UInt32) (t : UInt64) (bs : List Block) :
    feedCalls (ing.advance h t) bs = feedCalls (ing.advance h 0) bs := by
  rw [← feedCalls_forget (ing.advance h t), forget_advance, ← forget_advance ing h 0,
    feedCalls_forget]

section Books

open Mem.Store

lemma book_add (c : Call) (st : Stats) (s : Mem.Store) :
    book c (st, s) = (st.add (book c ({}, s)).1, s.apply c) := by
  refine Prod.ext ?_ (book_snd c (st, s))
  unfold book
  cases c with
  | spendUTXO op spentBy a =>
    dsimp only
    split_ifs
    · rfl
    · rfl
  | _ => simp [Stats.add]

lemma Stats.add_assoc (a b c : Stats) : (a.add b).add c = a.add (b.add c) := by
  simp only [Stats.add, Nat.add_assoc]

lemma Stats.zero_add (a : Stats) : ({} : Stats).add a = a := by
  simp only [Stats.add, Nat.zero_add]

lemma run_book_add (cs : List Call) (st : Stats) (s : Mem.Store) :
    Trace.run book cs (st, s) = (st.add (s.counted cs), s.run cs) := by
  induction cs generalizing st s with
  | nil => rfl
  | cons c cs ih =>
    rw [counted, Trace.run_cons, Trace.run_cons, book_add, ih, book_add c {},
      ih (({} : Stats).add _)]
    refine Prod.ext ?_ rfl
    simp only [Stats.add_assoc]

lemma counted_append (cs ds : List Call) (s : Mem.Store) :
    s.counted (cs ++ ds) = (s.counted cs).add ((s.run cs).counted ds) := by
  rw [counted, Trace.run_append, run_book_eq, run_book_add]

lemma feed_cons (p : Ingestor × Mem.Store) (b : Block) (bs : List Block) :
    feed p (b :: bs) = feed (ingestBlock p.1 b p.2).2 bs := rfl

/-- **A run of accepted blocks**: its writes, and the count its pruner ends with. -/
lemma feed_books {ing : Ingestor} {bs : List Block} (h : ∀ b ∈ bs, ing.accepts b = true)
    (hp : ing.pruner.isSome = true) (s : Mem.Store) :
    (feed (ing, s) bs).2 = s.run (feedCalls ing bs) ∧
      (feed (ing, s) bs).1.totalPruned = ing.totalPruned +
        UInt64.ofNat (s.counted (feedCalls ing bs)).pruned := by
  induction bs generalizing ing s with
  | nil => exact ⟨rfl, (UInt64.add_zero _).symm⟩
  | cons b bs ih =>
    obtain ⟨pr, hpr⟩ := Option.isSome_iff_exists.mp hp
    have htotal : ∀ t, (ing.advance b.height t).totalPruned = t := by
      intro t
      rw [Ingestor.totalPruned, Ingestor.advance, hpr]
      rfl
    have hrest : ∀ c ∈ bs, (ing.advance b.height
        (ing.totalPruned + UInt64.ofNat (s.counted (ingestCalls ing b)).pruned)).accepts c = true :=
      fun c hc => h c (List.mem_cons_of_mem b hc)
    obtain ⟨h1, h2⟩ := ih hrest (by simp [Ingestor.advance, hpr]) (s.run (ingestCalls ing b))
    rw [feedCalls_advance] at h1 h2
    rw [feed_cons, ingestBlock_books (h b List.mem_cons_self) s, feedCalls, Mem.Store.run_append,
      counted_append]
    refine ⟨h1, h2.trans ?_⟩
    rw [htotal, UInt64.add_assoc, ← UInt64.ofNat_add]
    rfl

/-- **`Run` over the striped store** takes the blocks up to the first that is rejected. -/
lemma run_mem {ς ε : Type} {next : ς → Except ε (Option Block) × ς} {src last : ς} {bs : List Block}
    (hsrc : Delivers next src bs last) {fuel : ℕ} (hfuel : bs.length < fuel) (total : Stats)
    (ing : Ingestor) (s : Mem.Store) :
    ∃ src', (bs.all ing.accepts = true → src' = last) ∧ run next fuel total src (ing, s) =
      some ((total.add { s.counted (feedCalls ing (bs.takeWhile ing.accepts)) with
          blocks := (bs.takeWhile ing.accepts).length },
        if bs.all ing.accepts then none else some (.ingest .invalidBlock)), src',
        feed (ing, s) (bs.takeWhile ing.accepts)) := by
  induction hsrc generalizing fuel total ing s with
  | @done src src' h =>
    obtain ⟨n, rfl⟩ := Nat.exists_eq_succ_of_ne_zero (Nat.ne_of_gt hfuel)
    refine ⟨src', fun _ => rfl, ?_⟩
    rw [run, h]
    rfl
  | @block src src' last b bs h hbs ih =>
    obtain ⟨n, rfl⟩ :=
      Nat.exists_eq_succ_of_ne_zero (Nat.ne_of_gt (Nat.lt_of_le_of_lt (Nat.zero_le _) hfuel))
    have hn : bs.length < n := by simpa using hfuel
    cases hacc : ing.accepts b with
    | false =>
      refine ⟨src', by simp [hacc], ?_⟩
      rw [run, h]
      dsimp only
      rw [ingestBlock_reject hacc, List.takeWhile_cons_of_neg (by simp [hacc]), List.all_cons, hacc]
      rfl
    | true =>
      have hb := ingestBlock_books hacc s
      generalize ing.totalPruned + UInt64.ofNat (s.counted (ingestCalls ing b)).pruned = t at hb
      obtain ⟨src'', hlast, hrun⟩ :=
        ih hn (total.add { s.counted (ingestCalls ing b) with blocks := 1 })
        (ing.advance b.height t) (s.run (ingestCalls ing b))
      have haccepts : (ing.advance b.height t).accepts = ing.accepts := rfl
      rw [haccepts, feedCalls_advance] at hrun
      refine ⟨src'', fun hall => hlast (Bool.and_eq_true_iff.mp hall).2, ?_⟩
      rw [run, h]
      dsimp only
      rw [hb]
      dsimp only
      rw [hrun, List.takeWhile_cons_of_pos hacc, feed_cons, hb, feedCalls, counted_append,
        List.all_cons, hacc, Bool.true_and, Stats.add_assoc, List.length_cons]
      simp only [Stats.add, Nat.add_comm 1]

end Books

end Ingest

/-! ### The records of a run -/

namespace RecordKey

def tx? (k : RecordKey) : Option Hash :=
  match k with
  | .tx t => some t
  | _ => none

def subtree? (k : RecordKey) : Option Hash :=
  match k with
  | .subtree r => some r
  | _ => none

def block? (k : RecordKey) : Option Hash :=
  match k with
  | .block x => some x
  | _ => none

def header? (k : RecordKey) : Option UInt32 :=
  match k with
  | .header h => some h
  | _ => none

variable {l : List RecordKey}

lemma nodup_of_kinds (htx : (l.filterMap tx?).Nodup) (hutxo : (l.filterMap utxo?).Nodup)
    (hsub : (l.filterMap subtree?).Nodup) (hblk : (l.filterMap block?).Nodup)
    (hhdr : (l.filterMap header?).Nodup) :
    l.Nodup := by
  have hmem : ∀ {β : Type} (g : RecordKey → Option β) {k : RecordKey} {x : β} {l : List RecordKey},
      g k = some x →
      k ∈ l → x ∈ l.filterMap g := fun g _ _ _ hk hl => List.mem_filterMap.mpr ⟨_, hl, hk⟩
  induction l with
  | nil => exact List.nodup_nil
  | cons k l ih =>
    rw [List.nodup_cons]
    cases k with
    | tx t =>
      rw [List.filterMap_cons_some (show tx? (.tx t) = some t from rfl), List.nodup_cons] at htx
      exact ⟨fun h => htx.1 (hmem tx? rfl h), ih htx.2 hutxo hsub hblk hhdr⟩
    | utxo op =>
      rw [List.filterMap_cons_some (show utxo? (.utxo op) = some op from rfl), List.nodup_cons]
        at hutxo
      exact ⟨fun h => hutxo.1 (hmem utxo? rfl h), ih htx hutxo.2 hsub hblk hhdr⟩
    | subtree r =>
      rw [List.filterMap_cons_some (show subtree? (.subtree r) = some r from rfl), List.nodup_cons]
        at hsub
      exact ⟨fun h => hsub.1 (hmem subtree? rfl h), ih htx hutxo hsub.2 hblk hhdr⟩
    | block x =>
      rw [List.filterMap_cons_some (show block? (.block x) = some x from rfl), List.nodup_cons]
        at hblk
      exact ⟨fun h => hblk.1 (hmem block? rfl h), ih htx hutxo hsub hblk.2 hhdr⟩
    | header a =>
      rw [List.filterMap_cons_some (show header? (.header a) = some a from rfl), List.nodup_cons]
        at hhdr
      exact ⟨fun h => hhdr.1 (hmem header? rfl h), ih htx hutxo hsub hblk hhdr.2⟩

lemma length_eq_kinds (l : List RecordKey) :
    l.length = (l.filterMap tx?).length + (l.filterMap utxo?).length +
      (l.filterMap subtree?).length +
      (l.filterMap block?).length + (l.filterMap header?).length := by
  induction l with
  | nil => rfl
  | cons k l ih =>
    cases k <;>
      simp only [List.filterMap_cons, tx?, utxo?, subtree?, block?, header?, List.length_cons,
        ih] <;> omega

end RecordKey

namespace Ingest

/-- The records a transaction makes. -/
def txRecords (tx : Tx) : List RecordKey :=
  .tx tx.txID :: tx.outputs.zipIdx.map fun o => .utxo (outpoint tx o.2)

def blockRecords (ing : Ingestor) (b : Block) : List RecordKey :=
  (b.subtrees.filter ing.ownAny).map (fun sub => .subtree sub.root) ++
    .block b.hash :: .header b.height :: (owned ing b).flatMap txRecords

lemma filterMap_txCalls (b : Block) (si li : ℕ) (tx : Tx) :
    (txCalls b si li tx).filterMap Call.creates = txRecords tx ∧
      (txCalls b si li tx).filterMap Call.spends = tx.inputs := by
  have hspend : (spendCalls b.height tx).filterMap Call.spends = tx.inputs := by
    rw [spendCalls, List.filterMap_map]
    exact List.filterMap_some
  have hcreate : (createCalls tx).filterMap Call.spends = [] := by
    rw [createCalls, List.filterMap_map]
    exact List.filterMap_eq_nil_iff.mpr fun _ _ => rfl
  constructor
  · simp [txCalls, spendCalls, createCalls, txRecords, Call.creates, List.filterMap_map,
      Function.comp_def]
  · rw [txCalls, List.filterMap_cons_none rfl, List.filterMap_append, hspend, hcreate,
      List.append_nil]

lemma filterMap_pruneCalls (pr : Prune.Pruner) (tip : UInt32) :
    (pruneCalls pr tip).filterMap Call.creates = [] ∧
      (pruneCalls pr tip).filterMap Call.spends = [] := by
  unfold pruneCalls
  constructor
  · split_ifs <;> simp [Call.creates, List.filterMap_map, Function.comp_def]
  · split_ifs <;> simp [Call.spends, List.filterMap_map, Function.comp_def]

lemma filterMap_ingestCalls (ing : Ingestor) (b : Block) :
    (ingestCalls ing b).filterMap Call.creates = blockRecords ing b ∧
      (ingestCalls ing b).filterMap Call.spends = (owned ing b).flatMap Tx.inputs := by
  have hsubs : (subtreeCalls ing b).filterMap Call.creates =
      (b.subtrees.filter ing.ownAny).map (fun sub => .subtree sub.root) ∧
        (subtreeCalls ing b).filterMap Call.spends = [] := by
    unfold subtreeCalls
    induction b.subtrees with
    | nil => exact ⟨rfl, rfl⟩
    | cons sub l ih =>
      rw [List.flatMap_cons, List.filterMap_append, List.filterMap_append, ih.1, ih.2,
        List.filter_cons]
      split_ifs <;> simp [Call.creates, Call.spends]
  have htxs : (txsCalls ing b).filterMap Call.creates = (owned ing b).flatMap txRecords ∧
      (txsCalls ing b).filterMap Call.spends = (owned ing b).flatMap Tx.inputs := by
    rw [txsCalls_eq, ← placed_map_fst, List.filterMap_flatMap, List.filterMap_flatMap,
      List.flatMap_map, List.flatMap_map]
    exact ⟨List.flatMap_congr fun p _ => (filterMap_txCalls b p.2.1 p.2.2 p.1).1,
      List.flatMap_congr fun p _ => (filterMap_txCalls b p.2.1 p.2.2 p.1).2⟩
  have hprune : (ing.pruner.elim [] fun pr => pruneCalls pr b.height).filterMap Call.creates = [] ∧
      (ing.pruner.elim [] fun pr => pruneCalls pr b.height).filterMap Call.spends = [] := by
    cases ing.pruner with
    | none => exact ⟨rfl, rfl⟩
    | some pr => exact filterMap_pruneCalls pr b.height
  constructor
  · rw [ingestCalls, indexCalls, List.filterMap_append, List.filterMap_append, hprune.1, hsubs.1,
      List.append_nil, blockRecords, ← htxs.1]
    rfl
  · rw [ingestCalls, indexCalls, List.filterMap_append, List.filterMap_append, hprune.2, hsubs.2,
      List.append_nil, List.nil_append, ← htxs.2]
    rfl

lemma filterMap_feedCalls (ing : Ingestor) (bs : List Block) :
    (feedCalls ing bs).filterMap Call.creates = bs.flatMap (blockRecords ing) ∧
      (feedCalls ing bs).filterMap Call.spends = bs.flatMap fun b =>
        (owned ing b).flatMap Tx.inputs := by
  induction bs generalizing ing with
  | nil => exact ⟨rfl, rfl⟩
  | cons b bs ih =>
    obtain ⟨h1, h2⟩ := ih (ing.advance b.height 0)
    obtain ⟨h3, h4⟩ := filterMap_ingestCalls ing b
    rw [feedCalls, List.filterMap_append, List.filterMap_append, h1, h2, h3, h4]
    exact ⟨rfl, rfl⟩

lemma ingestCalls_forward (ing : Ingestor) (b : Block) : ∀ c ∈ ingestCalls ing b, c.Forward := by
  intro c hc
  rcases List.mem_append.mp hc with hc | hc
  · simp only [indexCalls, List.mem_append, List.mem_cons, subtreeCalls, txsCalls_eq,
      List.mem_flatMap] at hc
    rcases hc with ⟨sub, -, hc⟩ | rfl | rfl | ⟨p, -, hc⟩
    · split_ifs at hc
      · rw [List.mem_singleton.mp hc]; trivial
      · simp at hc
    · trivial
    · trivial
    · simp only [txCalls, spendCalls, createCalls, List.mem_cons, List.mem_append, List.mem_map]
        at hc
      rcases hc with rfl | ⟨op, -, rfl⟩ | ⟨o, -, rfl⟩
      · trivial
      · trivial
      · rfl
  · cases hp : ing.pruner with
    | none => simp [hp] at hc
    | some pr =>
      rw [hp, Option.elim_some, pruneCalls, List.mem_append] at hc
      rcases hc with hc | hc
      · obtain ⟨a, -, rfl⟩ := List.mem_map.mp hc
        trivial
      · split_ifs at hc
        · obtain ⟨a, -, rfl⟩ := List.mem_map.mp hc
          trivial
        · simp at hc

lemma feedCalls_forward (ing : Ingestor) (bs : List Block) : ∀ c ∈ feedCalls ing bs, c.Forward := by
  induction bs generalizing ing with
  | nil => simp [feedCalls]
  | cons b bs ih =>
    intro c hc
    rcases List.mem_append.mp hc with hc | hc
    · exact ingestCalls_forward ing b c hc
    · exact ih _ c hc

/-! The records of a run, kind by kind. -/

section Kinds

lemma filterMap_map_none {α β γ : Type} {f : α → β} {g : β → Option γ} (h : ∀ a, g (f a) = none)
    (l : List α) :
    (l.map f).filterMap g = [] := by
  rw [List.filterMap_map]
  exact List.filterMap_eq_nil_iff.mpr fun a _ => h a

lemma filterMap_map_some {α β γ : Type} {f : α → β} {g : β → Option γ} {k : α → γ}
    (h : ∀ a, g (f a) = some (k a))
    (l : List α) : (l.map f).filterMap g = l.map k := by
  have hg : g ∘ f = some ∘ k := funext h
  rw [List.filterMap_map, hg, List.filterMap_eq_map]

variable (ing : Ingestor) (bs : List Block)

def outpoints (tx : Tx) : List Outpoint := tx.outputs.zipIdx.map fun o => outpoint tx o.2

lemma records_kind {β : Type} (g : RecordKey → Option β) :
    (bs.flatMap (blockRecords ing)).filterMap g = bs.flatMap fun b =>
      ((b.subtrees.filter ing.ownAny).map fun sub => RecordKey.subtree sub.root).filterMap g ++
        ([RecordKey.block b.hash, .header b.height].filterMap g ++
          (owned ing b).flatMap fun tx => (txRecords tx).filterMap g) := by
  rw [List.filterMap_flatMap]
  refine List.flatMap_congr fun b _ => ?_
  have hsplit : blockRecords ing b = (b.subtrees.filter ing.ownAny).map
      (fun sub => RecordKey.subtree sub.root) ++
      ([.block b.hash, .header b.height] ++ (owned ing b).flatMap txRecords) := rfl
  rw [hsplit, List.filterMap_append, List.filterMap_append, List.filterMap_flatMap]

lemma txRecords_none {β : Type} {g : RecordKey → Option β} (htx : ∀ t, g (.tx t) = none)
    (hutxo : ∀ op, g (.utxo op) = none) (tx : Tx) : (txRecords tx).filterMap g = [] := by
  rw [txRecords, List.filterMap_cons_none (htx _), filterMap_map_none fun _ => hutxo _]

lemma records_tx :
    (bs.flatMap (blockRecords ing)).filterMap RecordKey.tx? =
      (bs.flatMap (owned ing)).map Tx.txID := by
  have htx : ∀ tx, (txRecords tx).filterMap RecordKey.tx? = [tx.txID] := fun tx => by
    rw [txRecords,
      List.filterMap_cons_some (show RecordKey.tx? (.tx tx.txID) = some tx.txID from rfl),
      filterMap_map_none fun _ => rfl]
  rw [records_kind, List.map_flatMap]
  refine List.flatMap_congr fun b _ => ?_
  rw [filterMap_map_none fun _ => rfl, List.flatMap_congr fun tx _ => htx tx, ← List.map_eq_flatMap]
  rfl

lemma records_utxo :
    (bs.flatMap (blockRecords ing)).filterMap RecordKey.utxo? =
      (bs.flatMap (owned ing)).flatMap outpoints := by
  have htx : ∀ tx, (txRecords tx).filterMap RecordKey.utxo? = outpoints tx := fun tx => by
    rw [txRecords, List.filterMap_cons_none rfl]
    exact filterMap_map_some (g := RecordKey.utxo?) (k := fun o : TxOut × ℕ => outpoint tx o.2)
      (fun _ => rfl) _
  rw [records_kind, List.flatMap_assoc]
  refine List.flatMap_congr fun b _ => ?_
  rw [filterMap_map_none fun _ => rfl, List.flatMap_congr fun tx _ => htx tx]
  rfl

lemma records_subtree : (bs.flatMap (blockRecords ing)).filterMap RecordKey.subtree? =
    (bs.flatMap fun b => b.subtrees.filter ing.ownAny).map Subtree.root := by
  rw [records_kind, List.map_flatMap]
  refine List.flatMap_congr fun b _ => ?_
  rw [filterMap_map_some (g := RecordKey.subtree?) (k := Subtree.root) fun _ => rfl,
    List.flatMap_eq_nil_iff.mpr fun tx _ => txRecords_none (fun _ => rfl) (fun _ => rfl) tx]
  exact List.append_nil _

lemma records_block :
    (bs.flatMap (blockRecords ing)).filterMap RecordKey.block? = bs.map Block.hash := by
  rw [records_kind, List.map_eq_flatMap]
  refine List.flatMap_congr fun b _ => ?_
  rw [filterMap_map_none fun _ => rfl,
    List.flatMap_eq_nil_iff.mpr fun tx _ => txRecords_none (fun _ => rfl) (fun _ => rfl) tx]
  rfl

lemma records_header :
    (bs.flatMap (blockRecords ing)).filterMap RecordKey.header? = bs.map Block.height := by
  rw [records_kind, List.map_eq_flatMap]
  refine List.flatMap_congr fun b _ => ?_
  rw [filterMap_map_none fun _ => rfl,
    List.flatMap_eq_nil_iff.mpr fun tx _ => txRecords_none (fun _ => rfl) (fun _ => rfl) tx]
  rfl

end Kinds

/-! ### Blocks without records in common -/

/-- Blocks of which no two records have the same key, and no output is spent twice. -/
structure Distinct (bs : List Block) : Prop where
  txs : ValidTxs (bs.flatMap Block.txs)
  outputs : ∀ tx ∈ bs.flatMap Block.txs, tx.outputs.length ≤ 2 ^ 32
  heights : (bs.map Block.height).Nodup
  hashes : (bs.map Block.hash).Nodup
  roots : ((bs.flatMap Block.subtrees).map Subtree.root).Nodup

lemma flatMap_owned (ing : Ingestor) (bs : List Block) :
    bs.flatMap (owned ing) = (bs.flatMap Block.txs).filter fun tx => ing.owns tx.txID := by
  rw [List.filter_flatMap]
  rfl

lemma mem_outpoints {tx : Tx} {op : Outpoint} (h : op ∈ outpoints tx) : op.txID = tx.txID := by
  obtain ⟨o, -, rfl⟩ := List.mem_map.mp h
  rfl

lemma outpoints_nodup {tx : Tx} (h : tx.outputs.length ≤ 2 ^ 32) : (outpoints tx).Nodup := by
  have hsnd : outpoints tx = (List.range' 0 tx.outputs.length).map (outpoint tx) := by
    rw [← List.zipIdx_map_snd 0 tx.outputs, List.map_map]
    rfl
  rw [hsnd]
  refine (List.nodup_map_iff_inj_on (List.nodup_range' (s := 0))).mpr fun a ha b hb hab => ?_
  have ha' := List.mem_range'_1.mp ha
  have hb' := List.mem_range'_1.mp hb
  have hv : (UInt32.ofNat a).toNat = (UInt32.ofNat b).toNat :=
    congrArg (fun op : Outpoint => op.vout.toNat) hab
  rwa [UInt32.toNat_ofNat_of_lt' (by change a < 2 ^ 32; omega),
    UInt32.toNat_ofNat_of_lt' (by change b < 2 ^ 32; omega)] at hv

lemma orderlyUtxo_feedCalls {bs : List Block} (hv : ValidTxs (bs.flatMap Block.txs))
    (houts : ∀ tx ∈ bs.flatMap Block.txs, tx.outputs.length ≤ 2 ^ 32) (ing : Ingestor) :
    OrderlyUtxo (feedCalls ing bs) := by
  obtain ⟨hcreates, hspends⟩ := filterMap_feedCalls ing bs
  have howned : (bs.flatMap (owned ing)).Sublist (bs.flatMap Block.txs) := by
    rw [flatMap_owned]
    exact List.filter_sublist
  have hids : ((bs.flatMap (owned ing)).map Tx.txID).Nodup := hv.distinct.sublist (howned.map _)
  refine ⟨feedCalls_forward ing bs, ?_, fun op hop => ?_⟩
  · rw [hcreates, records_utxo]
    refine List.nodup_flatMap.mpr ⟨fun tx htx => outpoints_nodup (houts tx (howned.subset htx)), ?_⟩
    refine (List.pairwise_map.mp hids).imp fun hne => ?_
    intro op hop hop'
    exact hne ((mem_outpoints hop).symm.trans (mem_outpoints hop'))
  · have hmade : op ∈ (bs.flatMap (owned ing)).flatMap outpoints := by
      rw [← records_utxo, ← hcreates]
      exact List.mem_filterMap.mpr ⟨_, hop, rfl⟩
    obtain ⟨tx, htx, hout⟩ := List.mem_flatMap.mp hmade
    have hid : op.txID ∈ (bs.flatMap Block.txs).map Tx.txID := by
      rw [mem_outpoints hout]
      exact List.mem_map_of_mem (howned.subset htx)
    have hsub : ((bs.flatMap (owned ing)).flatMap Tx.inputs).Sublist
      ((bs.flatMap Block.txs).flatMap Tx.inputs) :=
      howned.flatMap _
    rw [hspends, ← List.flatMap_assoc]
    exact (hsub.count_le op).trans (hv.count_le hid)

lemma Distinct.orderly {bs : List Block} (h : Distinct bs) (ing : Ingestor) :
    Orderly (feedCalls ing bs) := by
  have hutxo := orderlyUtxo_feedCalls h.txs h.outputs ing
  obtain ⟨hcreates, -⟩ := filterMap_feedCalls ing bs
  refine ⟨hutxo, ?_⟩
  have honce := hutxo.once
  rw [hcreates] at honce ⊢
  refine RecordKey.nodup_of_kinds ?_ honce ?_ ?_ ?_
  · have howned : (bs.flatMap (owned ing)).Sublist (bs.flatMap Block.txs) := by
      rw [flatMap_owned]
      exact List.filter_sublist
    rw [records_tx]
    exact h.txs.distinct.sublist (howned.map _)
  · rw [records_subtree]
    have hsub : (bs.flatMap fun b => b.subtrees.filter ing.ownAny).Sublist
        (bs.flatMap Block.subtrees) := by
      have hfilter : (bs.flatMap fun b => b.subtrees.filter ing.ownAny) =
        (bs.flatMap Block.subtrees).filter ing.ownAny :=
        List.filter_flatMap.symm
      rw [hfilter]
      exact List.filter_sublist
    exact h.roots.sublist (hsub.map _)
  · rw [records_block]
    exact h.hashes
  · rw [records_header]
    exact h.heights

lemma counted_records (cs : List Call) (r : Stats × Mem.Store) :
    (Trace.run Mem.Store.book cs r).1.txsIndexed =
        r.1.txsIndexed + ((cs.filterMap Call.creates).filterMap RecordKey.tx?).length ∧
      (Trace.run Mem.Store.book cs r).1.utxosMade =
        r.1.utxosMade + ((cs.filterMap Call.creates).filterMap RecordKey.utxo?).length := by
  induction cs generalizing r with
  | nil => exact ⟨rfl, rfl⟩
  | cons c cs ih =>
    obtain ⟨h1, h2⟩ := ih (Mem.Store.book c r)
    rw [Trace.run_cons, h1, h2, List.filterMap_cons]
    have hspend : ∀ op spentBy a, (Mem.Store.book (.spendUTXO op spentBy a) r).1.txsIndexed =
        r.1.txsIndexed ∧
        (Mem.Store.book (.spendUTXO op spentBy a) r).1.utxosMade = r.1.utxosMade := by
      intro op spentBy a
      unfold Mem.Store.book
      dsimp only
      split_ifs
      · exact ⟨rfl, rfl⟩
      · exact ⟨rfl, rfl⟩
    cases c with
    | spendUTXO op spentBy a =>
      rw [(hspend op spentBy a).1, (hspend op spentBy a).2]
      exact ⟨rfl, rfl⟩
    | putTxIndex => exact ⟨Nat.add_right_comm _ _ _, rfl⟩
    | putUTXO => exact ⟨rfl, Nat.add_right_comm _ _ _⟩
    | pruneSpentAtHeight | pruneIndexAtHeight => simp [Mem.Store.book, Call.creates]
    | _ => exact ⟨rfl, rfl⟩

lemma counted_feedCalls {ing : Ingestor} {bs : List Block} (h : OrderlyUtxo (feedCalls ing bs)) :
    (Mem.new.run (feedCalls ing bs)).stats.utxoLive +
      (Mem.new.counted (feedCalls ing bs)).utxosSpent =
        (Mem.new.counted (feedCalls ing bs)).utxosMade ∧
      (Mem.new.counted (feedCalls ing bs)).txsIndexed = (bs.flatMap (owned ing)).length ∧
      (Mem.new.counted (feedCalls ing bs)).utxosMade =
        ((bs.flatMap (owned ing)).flatMap outpoints).length := by
  have hlive := Mem.Store.live_run h.fresh Mem.Store.new_indexed Mem.Store.new_home
    (by simp [Mem.Store.flatten_new, Flat.live_empty])
  obtain ⟨htxs, hmade⟩ := counted_records (feedCalls ing bs) ({}, Mem.new)
  rw [Mem.Store.run_book_eq] at hlive htxs hmade
  dsimp only at hlive htxs hmade
  rw [(Mem.Store.stats_counted (Mem.Store.new_home.run _)).live_eq] at hlive
  rw [(filterMap_feedCalls ing bs).1, Nat.zero_add] at htxs hmade
  rw [records_tx, List.length_map] at htxs
  rw [records_utxo] at hmade
  exact ⟨hlive, htxs, hmade⟩

end Ingest

def StoreStats.records (st : StoreStats) : ℕ :=
  st.txIndex + (st.utxoLive + st.utxoSpent) + st.subtrees + st.blocks + st.headers

namespace Ingest

/-- The blocks a node takes from a source: those before the first it rejects. -/
def taken (cfg : Config) (bs : List Block) : List Block :=
  bs.takeWhile fun b => cfg.skipValidate || validateBlock b

/-- The subtrees of the blocks that a shard stores. -/
def storedSubtrees (cfg : Config) (bs : List Block) : List Subtree :=
  bs.flatMap fun b => b.subtrees.filter (Ingest.new none cfg).ownAny

/-- The transactions of the blocks that a shard owns. -/
def ownedTxs (cfg : Config) (bs : List Block) : List Tx := bs.flatMap (owned (Ingest.new none cfg))

lemma feedCalls_keepsIndex {ing : Ingestor} (h : ∀ pr ∈ ing.pruner, pr.policy.indexRetention = 0)
    (bs : List Block) :
    ∀ c ∈ feedCalls ing bs, c.keepsIndex := by
  induction bs generalizing ing with
  | nil => simp [feedCalls]
  | cons b bs ih =>
    intro c hc
    rcases List.mem_append.mp hc with hc | hc
    · rcases List.mem_append.mp hc with hc | hc
      · exact Node.indexCalls_keepsIndex ing b c hc
      · cases hp : ing.pruner with
        | none => simp [hp] at hc
        | some pr =>
          rw [hp, Option.elim_some, pruneCalls, h pr hp, if_neg (by decide), List.append_nil] at hc
          obtain ⟨a, -, rfl⟩ := List.mem_map.mp hc
          intro h
          simp
    · have hnext : ∀ pr ∈ (ing.advance b.height 0).pruner, pr.policy.indexRetention = 0 := by
        intro pr hpr
        obtain ⟨pr', hpr', rfl⟩ := Option.map_eq_some_iff.mp hpr
        exact h pr' hpr'
      exact ih hnext c hc

/-- **The sums of a run close.** A source is drained up to the first block that is rejected. If no
two records of the blocks before it have the same key and no output is spent twice, then outputs
made are live or counted as spent, spends are kept or counted as pruned, and the records of all
kinds that were made are there or counted as pruned. -/
theorem run_conserves (cfg : Config) (policy : Prune.Policy) {ς ε : Type}
    {next : ς → Except ε (Option Block) × ς} {src last : ς} {bs : List Block}
    (hsrc : Delivers next src bs last) (hd : Distinct (taken cfg bs)) (fuel : ℕ)
    (hfuel : bs.length < fuel) :
    ∃ total src' ing s,
      run next fuel {} src (fresh cfg policy) =
        some ((total, if taken cfg bs = bs then none else some (.ingest .invalidBlock)),
          src', ing, s) ∧
      (ing, s) = feed (fresh cfg policy) (taken cfg bs) ∧
      total.blocks = (taken cfg bs).length ∧
      total.txsIndexed = (ownedTxs cfg (taken cfg bs)).length ∧
      s.stats.utxoLive + total.utxosSpent = total.utxosMade ∧
      s.stats.records + total.pruned =
        total.txsIndexed + total.utxosMade + (storedSubtrees cfg (taken cfg bs)).length +
          2 * total.blocks ∧
      (policy.indexRetention = 0 → s.stats.utxoSpent + total.pruned = total.utxosSpent) ∧
      ing.totalPruned = UInt64.ofNat total.pruned := by
  let ing₀ := (fresh cfg policy).1
  let cs := feedCalls ing₀ (taken cfg bs)
  obtain ⟨src', -, hrun⟩ := run_mem hsrc hfuel {} ing₀ Mem.new
  have hacc : ∀ b ∈ taken cfg bs, ing₀.accepts b = true := fun b hb => List.mem_takeWhile_imp hb
  obtain ⟨hstore, htotal⟩ := feed_books hacc rfl Mem.new
  change (feed (ing₀, Mem.new) (taken cfg bs)).2 = Mem.new.run cs at hstore
  have horderly : Orderly cs := hd.orderly ing₀
  have hcounted := Mem.Store.stats_counted (Mem.Store.new_home.run cs)
  -- the three laws, for the calls of the run
  have hsize := Mem.Store.size_run horderly.fresh Mem.Store.new_indexed Mem.Store.new_home
  obtain ⟨hlive, htxs, hmade⟩ := counted_feedCalls horderly.toOrderlyUtxo
  change (Mem.new.run cs).stats.utxoLive + (Mem.new.counted cs).utxosSpent =
    (Mem.new.counted cs).utxosMade at hlive
  change (Mem.new.counted cs).txsIndexed = _ at htxs
  change (Mem.new.counted cs).utxosMade = _ at hmade
  have hspent : policy.indexRetention = 0 → _ := fun hr =>
    Mem.Store.spent_run horderly.toOrderlyUtxo.fresh
      (feedCalls_keepsIndex (fun pr hpr => by cases hpr; exact hr) _) Mem.Store.new_indexed
      Mem.Store.new_home (by simp [Mem.Store.flatten_new, Flat.spent_empty])
  rw [Mem.Store.run_book_eq] at hsize hspent
  dsimp only at hsize hspent
  have hcreates := (filterMap_feedCalls ing₀ (taken cfg bs)).1
  rw [hcounted.size_eq, Mem.Store.flatten_new, Flat.size_empty, RecordKey.length_eq_kinds, hcreates,
    records_tx, records_utxo, records_subtree, records_block, records_header, List.length_map,
    List.length_map, List.length_map, List.length_map] at hsize
  rw [hcounted.spent_eq] at hspent
  have hend : bs.all ing₀.accepts = true ↔ taken cfg bs = bs := by
    rw [List.all_eq_true]
    exact List.takeWhile_eq_self_iff.symm
  have hsome : run next fuel {} src (fresh cfg policy) =
      some (({ Mem.new.counted cs with blocks := (taken cfg bs).length },
        if taken cfg bs = bs then none else some (.ingest .invalidBlock)), src',
        (feed (fresh cfg policy) (taken cfg bs)).1,
            (feed (fresh cfg policy) (taken cfg bs)).2) := by
    rw [Stats.zero_add] at hrun
    simp only [hend] at hrun
    exact hrun
  refine ⟨_, src', _, _, hsome, rfl, rfl, htxs, ?_, ?_, fun hr => ?_, ?_⟩
  · exact hstore ▸ hlive
  · change (feed (ing₀, Mem.new) (taken cfg bs)).2.stats.records + (Mem.new.counted cs).pruned =
      (Mem.new.counted cs).txsIndexed + (Mem.new.counted cs).utxosMade +
        ((taken cfg bs).flatMap fun b => b.subtrees.filter ing₀.ownAny).length +
          2 * (taken cfg bs).length
    rw [hstore, StoreStats.records]
    omega
  · exact hstore ▸ hspent hr
  · exact htotal.trans (UInt64.zero_add _)

/-- A list of blocks as a source. -/
def fromList (bs : List Block) : Except Empty (Option Block) × List Block :=
  match bs with
  | [] => (.ok none, [])
  | b :: bs => (.ok (some b), bs)

lemma delivers_fromList (bs : List Block) : Delivers fromList bs bs [] := by
  induction bs with
  | nil => exact .done rfl
  | cons b bs ih => exact .block rfl ih

/-- The spend of the second block is swept with the second block, as nothing is to be kept. -/
theorem run_conserves_spendTx :
    ∃ total src' ing s,
      run fromList 3 {} [sealBlock 1 [[coinTx]], sealBlock 3 [[spendTx]]] (fresh {} {}) =
        some ((total, none), src', ing, s) ∧
      total.blocks = 2 ∧ total.txsIndexed = 2 ∧ s.stats.utxoLive + total.utxosSpent =
        total.utxosMade ∧
      s.stats.utxoSpent + total.pruned = total.utxosSpent := by
  have htaken : taken {} [sealBlock 1 [[coinTx]], sealBlock 3 [[spendTx]]] =
      [sealBlock 1 [[coinTx]], sealBlock 3 [[spendTx]]] := by
    simp [taken, validateBlock_sealBlock]
  have htxs : [sealBlock 1 [[coinTx]], sealBlock 3 [[spendTx]]].flatMap Block.txs =
    [coinTx, spendTx] := rfl
  have hd : Distinct [sealBlock 1 [[coinTx]], sealBlock 3 [[spendTx]]] := by
    refine ⟨by rw [htxs]; decide, by rw [htxs]; simp [coinTx, spendTx], ?_, ?_, ?_⟩
    · simp [sealBlock]
    · rw [sealBlock_singleton, sealBlock_singleton]
      decide +kernel
    · rw [sealBlock_singleton, sealBlock_singleton]
      decide
  obtain ⟨total, src', ing, s, hrun, -, hblocks, hindexed, hlive, -, hspent, -⟩ :=
    run_conserves {} {} (delivers_fromList [sealBlock 1 [[coinTx]], sealBlock 3 [[spendTx]]])
      (by rw [htaken]; exact hd)
      3 (by decide)
  rw [htaken] at hrun hblocks hindexed
  rw [if_pos rfl] at hrun
  exact ⟨total, src', ing, s, hrun, hblocks, hindexed, hlive, hspent rfl⟩

end Ingest

end MemServe
