import MemServe.Attest
import MemServe.Node

/-!
The server at work: one loop that ingests blocks and any number of query handlers, interleaved.

The store locks one stripe at a time, so the loop is a sequence of writes between which handlers
read. A handler reads, then loads the tip, then signs; the loop stores the tip once a block has
been written and pruned. Handlers of `Seen` and `Mined` read one record, those of `UTXO` one or
two.
-/

namespace MemServe

open Teranode Ingest

/-- What the loop does under one lock. A prune is several of these: one for each stripe of the
spends at a height, one for each record of the index at a height. -/
inductive Write
  | call (c : Call)
  | pruneStripe (h : UInt32) (i : UInt8)
  | popEntry (h : UInt32)
  | pruneBlock (hash : Hash)
  | pruneSubtree (root : Hash)
  | pruneTx (txid : Hash)
  | pruneHeader (h : UInt32)

def Write.apply (w : Write) (s : Mem.Store) : Mem.Store :=
  match w with
  | .call c => s.apply c
  | .pruneStripe h i => { s with st := Function.update s.st i (Mem.Store.pruneStripe h (s.st i)).2 }
  | .popEntry h => { s with hidx := s.hidx.delete h }
  | .pruneBlock hash => (s.pruneBlock hash).2
  | .pruneSubtree root => (s.pruneSubtree root).2
  | .pruneTx txid => (s.pruneTx txid).2
  | .pruneHeader h => (s.pruneHeader h).2

/-- The stripes, in the order a prune visits them. -/
def stripes : List UInt8 := (List.range 256).map UInt8.ofNat

/-- The deletions of an entry of the index. -/
def entryWrites (e : Mem.HeightEntry) : List Write :=
  (if e.hasBlock then [.pruneBlock e.block] else []) ++
    (e.subtrees.map .pruneSubtree ++ e.txids.map .pruneTx)

/-- The writes of a call that starts on `s`. Only the loop writes the index of heights, so the entry
that a prune takes is the one there when it starts. -/
def Call.writes (c : Call) (s : Mem.Store) : List Write :=
  match c with
  | .pruneSpentAtHeight h => stripes.map (.pruneStripe h)
  | .pruneIndexAtHeight h => .popEntry h :: ((s.hidx.get h).elim [] entryWrites ++ [.pruneHeader h])
  | c => [.call c]

lemma run_pruneStripe (h : UInt32) {l : List UInt8} (hl : l.Nodup) (s : Mem.Store) :
    Trace.run Write.apply (l.map (.pruneStripe h)) s =
      { s with st := fun i => if i ∈ l then (Mem.Store.pruneStripe h (s.st i)).2 else s.st i } := by
  induction l generalizing s with
  | nil => simp
  | cons j l ih =>
    rw [List.map_cons, Trace.run_cons, ih (List.nodup_cons.mp hl).2]
    simp only [Write.apply, Mem.Store.mk.injEq, and_true]
    funext i
    by_cases hij : i = j
    · subst hij
      have hnot := (List.nodup_cons.mp hl).1
      simp [hnot]
    · simp [hij]

lemma mem_stripes (i : UInt8) : i ∈ stripes :=
  List.mem_map.mpr ⟨i.toNat, List.mem_range.mpr i.toNat_lt, UInt8.ofNat_toNat⟩

lemma nodup_stripes : stripes.Nodup := by
  refine List.Nodup.map_on (fun a ha b hb hab => ?_) List.nodup_range
  have ha' := List.mem_range.mp ha
  have hb' := List.mem_range.mp hb
  have h := congrArg UInt8.toNat hab
  rwa [UInt8.toNat_ofNat_of_lt' ha', UInt8.toNat_ofNat_of_lt' hb'] at h

lemma run_pruneEach {α : Type} {f : Mem.Store → α → ℕ × Mem.Store} {w : α → Write}
    (hw : ∀ a s, (w a).apply s = (f s a).2) (l : List α) (r : ℕ × Mem.Store) :
    Trace.run Write.apply (l.map w) r.2 = (Mem.Store.pruneEach f l r).2 := by
  induction l generalizing r with
  | nil => rfl
  | cons a l ih =>
    rw [List.map_cons, Trace.run_cons, hw]
    exact ih (r.1 + (f r.2 a).1, (f r.2 a).2)

lemma run_writes (c : Call) (s : Mem.Store) : Trace.run Write.apply (c.writes s) s = s.apply c := by
  cases c with
  | pruneSpentAtHeight h =>
    rw [Call.writes, run_pruneStripe h nodup_stripes]
    simp only [mem_stripes, if_true]
    rfl
  | pruneIndexAtHeight h =>
    rw [Call.writes, Trace.run_cons, Trace.run_append]
    change (Mem.Store.pruneHeader (Trace.run Write.apply _ _) h).2 = (s.pruneIndexAtHeight h).2
    unfold Mem.Store.pruneIndexAtHeight
    dsimp only
    congr 2
    cases s.hidx.get h with
    | none => rfl
    | some e =>
      dsimp only [Option.elim, entryWrites]
      rw [Trace.run_append, Trace.run_append]
      have hblock : Trace.run Write.apply (if e.hasBlock then [.pruneBlock e.block] else [])
          (Write.apply (.popEntry h) s) =
          (if e.hasBlock then Mem.Store.pruneBlock { s with hidx := s.hidx.delete h } e.block
            else (0, { s with hidx := s.hidx.delete h })).2 := by
        split_ifs <;> rfl
      rw [hblock, run_pruneEach fun _ _ => rfl]
      exact run_pruneEach (fun _ _ => rfl) _ _
  | _ => rfl

namespace Server

open Attest

inductive Query
  | seen (txid : Hash)
  | mined (txid : Hash)
  | utxo (op : Outpoint)
  deriving DecidableEq

/-- The part of a statement that answers: what a handler leaves out is zero. -/
structure Answer where
  flag : Bool
  height : UInt32 := 0
  blockHash : Hash := default
  deriving DecidableEq

def ofSeen (res : Api.SeenResult) : Answer := { flag := res.seen }

def ofMined (res : Api.MinedResult) : Answer :=
  { flag := res.mined, height := res.height, blockHash := res.blockHash }

def ofUTXO (res : Api.UTXOResult) : Answer :=
  { flag := res.status = .unspent, height := res.spentHeight }

namespace Query

def kind (q : Query) : Kind :=
  match q with
  | .seen _ => .seen
  | .mined _ => .mined
  | .utxo _ => .utxo

def txID (q : Query) : Hash :=
  match q with
  | .seen txid => txid
  | .mined txid => txid
  | .utxo op => op.txID

def vout (q : Query) : UInt32 :=
  match q with
  | .utxo op => op.vout
  | _ => 0

/-- The statement signed for an answer at a tip. -/
def statement (q : Query) (a : Answer) (tip : UInt32) : Statement where
  kind := q.kind
  txID := q.txID
  vout := q.vout
  flag := a.flag
  height := a.height
  blockHash := a.blockHash
  tip := tip

/-- The answer of a store to a query. -/
def answer (q : Query) (s : Mem.Store) : Answer :=
  match q with
  | .seen txid => ofSeen (s.flatten.seen txid)
  | .mined txid => ofMined (s.flatten.mined txid)
  | .utxo op => ofUTXO (s.flatten.utxoStatus op)

lemma ext_key {q r : Query} (hk : q.kind = r.kind) (ht : q.txID = r.txID) (hv : q.vout = r.vout) :
    q = r := by
  cases q with
  | seen t =>
    cases r with
    | seen t' => cases ht; rfl
    | _ => cases hk
  | mined t =>
    cases r with
    | mined t' => cases ht; rfl
    | _ => cases hk
  | utxo op =>
    cases r with
    | utxo op' =>
      cases op
      cases op'
      cases ht
      cases hv
      rfl
    | _ => cases hk

/-- **Which statements contradict**: different answers to one query at one tip. -/
lemma contradicts_iff {q r : Query} {a a' : Answer} {t t' : UInt32} :
    (q.statement a t).contradicts (r.statement a' t') = true ↔ q = r ∧ t = t' ∧ a ≠ a' := by
  unfold Statement.contradicts
  rw [ite_not]
  by_cases hkey : (q.statement a t).queryKey = (r.statement a' t').queryKey
  · obtain ⟨hk, htx, hv, ht⟩ := Statement.queryKey_eq_iff.mp hkey
    obtain rfl : q = r := ext_key hk htx hv
    obtain rfl : t = t' := ht
    rw [if_pos hkey]
    cases a
    cases a'
    simp only [statement, Answer.mk.injEq, ne_eq, true_and, not_and_or, Bool.or_eq_true, bne_iff_ne,
      or_assoc]
  · rw [if_neg hkey]
    refine iff_of_false (by simp) ?_
    rintro ⟨rfl, rfl, -⟩
    exact hkey (Statement.queryKey_eq_iff.mpr ⟨rfl, rfl, rfl, rfl⟩)

end Query

/-- Where a handler stands. -/
inductive Handler
  | start (q : Query)
  /-- No record of the outpoint was found; its index entry is read next. -/
  | missed (op : Outpoint)
  /-- The reads are done; the tip is loaded next. -/
  | answered (q : Query) (a : Answer)
  | done

/-- One read of a handler. `Api.utxo` reads twice where the outpoint has no record. -/
def Handler.read (h : Handler) (s : Mem.Store) : Handler :=
  match h with
  | .start (.seen txid) =>
    .answered (.seen txid) (ofSeen (((Api.seen txid).run.run s).1.toOption.getD {}))
  | .start (.mined txid) =>
    .answered (.mined txid) (ofMined (((Api.mined txid).run.run s).1.toOption.getD {}))
  | .start (.utxo op) =>
    match s.getUTXO op with
    | none => .missed op
    | some u => .answered (.utxo op) (ofUTXO (Flat.answer (some u) none))
  | .missed op => .answered (.utxo op) (ofUTXO (Flat.missing (s.getTxIndex op.txID)))
  | h => h

lemma Handler.read_start (q : Query) (s : Mem.Store) :
    (Handler.start q).read s = .answered q (q.answer s) ∨
      (∃ op, (Handler.start q).read s = .missed op) ∧ ((Handler.start q).read s).read s =
        .answered q (q.answer s) := by
  cases q with
  | seen txid => exact .inl (by rw [read, seen_mem]; rfl)
  | mined txid => exact .inl (by rw [read, mined_mem]; rfl)
  | utxo op =>
    have hflat : Query.answer (.utxo op) s =
      ofUTXO (Flat.answer (s.getUTXO op) (s.getTxIndex op.txID)) := rfl
    cases hu : s.getUTXO op with
    | some u =>
      refine .inl ?_
      rw [hflat, hu]
      simp only [read, hu]
      rfl
    | none =>
      rw [hflat, hu]
      refine .inr ⟨⟨op, by simp only [read, hu]⟩, ?_⟩
      simp only [read, hu]
      rfl

/-! ### The interleaving -/

/-- A block being ingested: the calls it has left, and the writes the current call has left. -/
structure Progress where
  block : Block
  calls : List Call
  writes : List Write := []

structure State where
  store : Mem.Store
  ing : Ingestor
  queue : List Block
  current : Option Progress := none
  tip : UInt32 := 0
  handlers : ℕ → Option Handler := fun _ => none
  signed : List Statement := []

inductive Event
  /-- The loop takes a step. -/
  | ingest
  /-- A query arrives and gets a handler of its own. -/
  | arrive (i : ℕ) (q : Query)
  /-- A handler takes a step. -/
  | advance (i : ℕ)

namespace State

/-- One step of the loop: it takes the next block, or starts the next call, or does the next write,
or stores the tip. A block that is rejected is skipped. -/
def ingest (s : State) : State :=
  match s.current with
  | none =>
    match s.queue with
    | [] => s
    | b :: bs =>
      if s.ing.accepts b then
        { s with queue := bs, current := some { block := b, calls := ingestCalls s.ing b } }
      else { s with queue := bs }
  | some ⟨b, cs, w :: ws⟩ => { s with store := w.apply s.store, current := some ⟨b, cs, ws⟩ }
  | some ⟨b, c :: cs, []⟩ => { s with current := some ⟨b, cs, c.writes s.store⟩ }
  | some ⟨b, [], []⟩ => { s with tip := b.height, ing := s.ing.advance b.height 0, current := none }

/-- One step of a handler: a read, or the load of the tip and the signature. -/
def advance (s : State) (i : ℕ) : State :=
  match s.handlers i with
  | none => s
  | some (.answered q a) =>
    { s with
      handlers := Function.update s.handlers i (some .done), signed :=
      s.signed ++ [q.statement a s.tip] }
  | some h => { s with handlers := Function.update s.handlers i (some (h.read s.store)) }

def step (s : State) (e : Event) : State :=
  match e with
  | .ingest => s.ingest
  | .arrive i q =>
    if (s.handlers i).isSome then s
    else { s with handlers := Function.update s.handlers i (some (.start q)) }
  | .advance i => s.advance i

def run (s : State) (es : List Event) : State := es.foldl step s

lemma run_append (s : State) (es es' : List Event) : s.run (es ++ es') = (s.run es).run es' :=
  List.foldl_append

/-- A server that has ingested nothing. -/
def start (ing : Ingestor) (store : Mem.Store) (bs : List Block) : State :=
  { store := store, ing := ing, queue := bs }

/-- Where the loop stands against blocks fed one after the other: `done` are ingested, and the
writes that are left of the current block complete it. -/
def Follows (p : Ingestor × Mem.Store) (bs : List Block) (s : State) : Prop :=
  ∃ done, s.ing.forget = (feed p done).1.forget ∧
    match s.current with
    | none => bs = done ++ s.queue ∧ s.store = (feed p done).2
    | some pr => bs = done ++ pr.block :: s.queue ∧ (feed p done).1.accepts pr.block = true ∧
        (Trace.run Write.apply pr.writes s.store).run pr.calls =
          (feed p done).2.run (ingestCalls (feed p done).1 pr.block)

lemma feed_concat (p : Ingestor × Mem.Store) (bs : List Block) (b : Block) :
    feed p (bs ++ [b]) = (ingestBlock (feed p bs).1 b (feed p bs).2).2 := by
  simp [feed]

/-- **One step of the loop.** -/
lemma Follows.ingest {p : Ingestor × Mem.Store} {bs : List Block} {s : State} (h : Follows p bs s) :
    Follows p bs s.ingest := by
  obtain ⟨store, ing, queue, current, tip, handlers, signed⟩ := s
  obtain ⟨done, hing, hcur⟩ := h
  change ing.forget = _ at hing
  have haccepts : ∀ b, ing.accepts b = (feed p done).1.accepts b := by
    intro b
    change ing.forget.accepts b = (feed p done).1.forget.accepts b
    rw [hing]
  rcases current with _ | ⟨b, cs, ws⟩
  · obtain ⟨rfl, rfl⟩ := hcur
    rcases queue with _ | ⟨b, rest⟩
    · exact ⟨done, hing, rfl, rfl⟩
    · by_cases hacc : ing.accepts b = true
      · rw [State.ingest]
        simp only [if_pos hacc]
        refine ⟨done, hing, rfl, (haccepts b).symm.trans hacc, ?_⟩
        rw [Trace.run_nil, ← ingestCalls_forget ing, hing, ingestCalls_forget]
      · rw [State.ingest]
        simp only [if_neg hacc]
        have hrej : (feed p done).1.accepts b = false := by
          rw [← haccepts b]
          exact eq_false_of_ne_true hacc
        refine ⟨done ++ [b], ?_, ?_⟩ <;> rw [feed_concat, ingestBlock_reject hrej]
        · exact hing
        · exact ⟨by simp, rfl⟩
  · obtain ⟨hbs, hacc, hrun⟩ := hcur
    rcases ws with _ | ⟨w, ws⟩
    · rcases cs with _ | ⟨c, cs⟩
      · -- the last write is done: the block is ingested
        obtain ⟨st, t, hok⟩ := ingestBlock_accept hacc (feed p done).2
        refine ⟨done ++ [b], ?_, ?_⟩ <;> rw [feed_concat, hok]
        · change (ing.advance b.height 0).forget = _
          rw [forget_advance, forget_advance, hing]
        · exact ⟨by rw [hbs, List.append_assoc]; rfl, hrun⟩
      · refine ⟨done, hing, hbs, hacc, ?_⟩
        change (Trace.run Write.apply (c.writes store) store).run cs = _
        rw [run_writes]
        exact hrun
    · exact ⟨done, hing, hbs, hacc, hrun⟩

lemma advance_frame (s : State) (i : ℕ) :
    (s.advance i).store = s.store ∧ (s.advance i).ing = s.ing ∧ (s.advance i).queue = s.queue ∧
      (s.advance i).current = s.current ∧ (s.advance i).tip = s.tip := by
  unfold advance
  split <;> exact ⟨rfl, rfl, rfl, rfl, rfl⟩

/-- **The loop ingests as `IngestBlock` does**: whatever the handlers do in between, at a block
boundary the store is that of the blocks ingested so far, fed one after the other. -/
theorem follows_run (ing : Ingestor) (store : Mem.Store) (bs : List Block) (es : List Event) :
    Follows (ing, store) bs ((start ing store bs).run es) := by
  induction es using List.reverseRecOn with
  | nil => exact ⟨[], rfl, rfl, rfl⟩
  | append_singleton es e ih =>
    rw [run_append]
    change Follows _ _ (((start ing store bs).run es).step e)
    cases e with
    | ingest => exact ih.ingest
    | arrive i q =>
      unfold step
      dsimp only
      split_ifs
      · exact ih
      · exact ih
    | advance i =>
      obtain ⟨hst, hing, hq, hc, -⟩ := advance_frame ((start ing store bs).run es) i
      unfold step Follows
      dsimp only
      rw [hst, hing, hq, hc]
      exact ih

end State

end Server

end MemServe
