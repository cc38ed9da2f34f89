import MemServe.Node

/-!
A backend any of whose calls may fail.

What `IngestBlock` and its pruner call does not depend on what the store answers. So over a store
that fails some of its calls they make these calls up to the first that fails, and return its error.
-/

namespace MemServe

/-- The two kinds of bands: the spends of a height and the index records of a height. -/
inductive Band
  | spend
  | index
  deriving DecidableEq

/-- A backend within another state. Its calls are lifted, and its prune calls go through `hook`. -/
@[reducible] def Store.lifted {σ τ : Type} [Store σ] (lift : {α : Type} → StoreM σ α → StoreM τ α)
    (hook : Band → UInt32 → StoreM τ ℕ → StoreM τ ℕ) : Store τ where
  putTxIndex txid ix := lift (Store.putTxIndex txid ix)
  getTxIndex txid := lift (Store.getTxIndex txid)
  putUTXO op u := lift (Store.putUTXO op u)
  getUTXO op := lift (Store.getUTXO op)
  spendUTXO op spentBy h := lift (Store.spendUTXO op spentBy h)
  unspendUTXO op := lift (Store.unspendUTXO op)
  deleteUTXO op := lift (Store.deleteUTXO op)
  deleteTxIndex txid := lift (Store.deleteTxIndex txid)
  putSubtree root leaves := lift (Store.putSubtree root leaves)
  getSubtree root := lift (Store.getSubtree root)
  putBlock b := lift (Store.putBlock b)
  getBlock hash := lift (Store.getBlock hash)
  putHeader height hdr := lift (Store.putHeader height hdr)
  getHeader height := lift (Store.getHeader height)
  pruneSpentAtHeight h := hook .spend h (lift (Store.pruneSpentAtHeight h))
  pruneIndexAtHeight h := hook .index h (lift (Store.pruneIndexAtHeight h))

/-- A backend with a list that says of each call to come whether it fails, and with which error. -/
structure Faulty (σ : Type) where
  base : σ
  faults : List (Option StoreError)

/-- A call that fails does not reach the backend. -/
def Faulty.through {σ α : Type} (m : StoreM σ α) : StoreM (Faulty σ) α := fun s =>
  match s.faults with
  | some e :: fs => (.error e, { s with faults := fs })
  | fs => ((m s.base).1, ⟨(m s.base).2, fs.tail⟩)

instance {σ : Type} [Store σ] : Store (Faulty σ) := .lifted Faulty.through fun _ _ m => m

namespace Ingest

open Trace Teranode

/-! ### The course of an ingest -/

lemma stops_call {α : Type} {m : StoreM Mem.Store α} {c : Call}
    (h : ∀ s, ∃ a, m s = ((.ok a, s.apply c) : _ × Mem.Store)) :
    Stops Mem.Store.apply (·.2.base) (·.2.faults) (call (Faulty.through m)) [c] := by
  rintro ⟨st, s, fs⟩
  obtain ⟨a, ha⟩ := h s
  rcases fs with - | ⟨- | e, fs⟩
  · have hrun : (call (Faulty.through m)).run.run (st, ⟨s, []⟩) = (.ok a, st, ⟨s.apply c, []⟩) := by
      simp only [call, Faulty.through, ExceptT.run, StateT.run, ha, List.tail_nil]
    rw [hrun]
    exact ⟨rfl, rfl, fun _ => ⟨a, rfl⟩, fun _ h => by cases h⟩
  · have hrun : (call (Faulty.through m)).run.run (st, ⟨s, none :: fs⟩) =
        (.ok a, st, ⟨s.apply c, fs⟩) := by
      simp only [call, Faulty.through, ExceptT.run, StateT.run, ha, List.tail_cons]
    rw [hrun]
    exact ⟨rfl, rfl, fun _ => ⟨a, rfl⟩, fun _ h => by cases h⟩
  · refine ⟨rfl, rfl, fun h => absurd h (Option.some_ne_none e), fun _ h => ?_⟩
    cases h
    rfl

lemma stops_traces :
    Traces (σ := Faulty Mem.Store) fun _ m cs =>
      Stops Mem.Store.apply (·.2.base) (·.2.faults) m cs where
  toTracing := Stops.tracing
  count f c := ⟨rfl, rfl, fun _ => ⟨(), rfl⟩, fun _ h => by cases h⟩
  putSubtree _ _ := stops_call fun _ => ⟨(), rfl⟩
  putBlock _ := stops_call fun _ => ⟨(), rfl⟩
  putHeader _ _ := stops_call fun _ => ⟨(), rfl⟩
  putTxIndex _ _ := stops_call fun _ => ⟨(), rfl⟩
  spendUTXO _ _ _ := stops_call fun _ => ⟨_, rfl⟩
  putUTXO _ _ := stops_call fun _ => ⟨(), rfl⟩

/-- The store that a course of calls leaves. -/
def Faulty.after (s : Mem.Store) (c : Course Call StoreError) : Faulty Mem.Store :=
  ⟨s.run c.made, c.left⟩

section

variable (s : Mem.Store) (fs : List (Option StoreError))

lemma indexBlock_faulty (ing : Ingestor) (b : Block) :
    ∃ st, (indexBlock ing b).run.run ({}, (⟨s, fs⟩ : Faulty Mem.Store)) =
      ((course (indexCalls ing b) fs).error.elim (.ok ()) .error, st,
        Faulty.after s (course (indexCalls ing b) fs)) := by
  have h := stops_traces.indexBlock ing b ({}, ⟨s, fs⟩)
  generalize (indexBlock ing b).run.run ({}, (⟨s, fs⟩ : Faulty Mem.Store)) = r at h ⊢
  obtain ⟨r, st, base, faults⟩ := r
  obtain ⟨rfl, rfl, hok, herr⟩ := h
  refine ⟨st, Prod.ext ?_ rfl⟩
  dsimp only at hok herr ⊢
  cases he : (course (indexCalls ing b) fs).error with
  | none => exact (hok he).choose_spec
  | some e => exact herr e he

lemma sweepLoop_faulty {f : UInt32 → StoreM Mem.Store ℕ} {c : UInt32 → Call}
    {g : UInt32 → StoreM (Faulty Mem.Store) ℕ} (hg : ∀ h, g h = Faulty.through (f h))
    (hf : ∀ h s, ∃ n, f h s = ((.ok n, s.apply (c h)) : _ × Mem.Store)) (hs : List UInt32) (n : ℕ) :
    ∃ n', Prune.sweepLoop g hs n ⟨s, fs⟩ =
      ((n', (course (hs.map c) fs).error), Faulty.after s (course (hs.map c) fs)) := by
  induction hs generalizing n s fs with
  | nil => exact ⟨n, rfl⟩
  | cons h hs ih =>
    obtain ⟨m, hm⟩ := hf h s
    rcases fs with - | ⟨- | e, fs⟩
    · obtain ⟨n', hn'⟩ := ih (s.apply (c h)) [] (n + m)
      refine ⟨n', ?_⟩
      simp only [Prune.sweepLoop, hg, Faulty.through, hm, List.tail_nil, hn', course_faultless]
      rfl
    · obtain ⟨n', hn'⟩ := ih (s.apply (c h)) fs (n + m)
      refine ⟨n', ?_⟩
      simp only [Prune.sweepLoop, hg, Faulty.through, hm, List.tail_cons, hn']
      rfl
    · exact ⟨n, by simp only [Prune.sweepLoop, hg]; rfl⟩

lemma Faulty.after_of_none {cs : List Call} (h : (course cs fs).error = none) :
    Faulty.after s (course cs fs) = ⟨s.run cs, (course cs fs).left⟩ := by
  rw [Faulty.after, course_of_error_eq_none h]

lemma Faulty.after_append {cs ds : List Call} (h : (course cs fs).error = none) :
    Faulty.after s (course (cs ++ ds) fs) =
      Faulty.after (s.run cs) (course ds (course cs fs).left) := by
  rw [course_append_of_none h]
  exact congrArg (Faulty.mk · _) (Mem.Store.run_append _ _ _)

lemma onNewBlock_faulty (pr : Prune.Pruner) (tip : UInt32) :
    ∃ n pr', Prune.onNewBlock pr tip (⟨s, fs⟩ : Faulty Mem.Store) =
      ((n, (course (pruneCalls pr tip) fs).error), pr',
        Faulty.after s (course (pruneCalls pr tip) fs)) := by
  obtain ⟨n, hn⟩ := sweepLoop_faulty s fs (g := Store.pruneSpentAtHeight)
    (c := .pruneSpentAtHeight) (fun _ => rfl) (fun h s => ⟨_, rfl⟩)
    (Prune.bands pr.lastTip pr.hasTip tip pr.policy.d) 0
  unfold Prune.onNewBlock pruneCalls Prune.sweep
  rw [hn]
  cases he : (course ((Prune.bands pr.lastTip pr.hasTip tip pr.policy.d).map
      Call.pruneSpentAtHeight) fs).error with
  | some e =>
    rw [course_append_of_some he, he]
    exact ⟨n, _, rfl⟩
  | none =>
    rw [Faulty.after_append s fs he, course_append_of_none he]
    dsimp only
    rw [Faulty.after_of_none s fs he]
    split_ifs with hr
    · obtain ⟨m, hm⟩ := sweepLoop_faulty _ _ (g := Store.pruneIndexAtHeight)
        (c := .pruneIndexAtHeight) (fun _ => rfl) (fun h s => ⟨_, rfl⟩)
        (Prune.bands pr.lastTip pr.hasTip tip pr.policy.indexRetention) 0
      rw [hm]
      exact ⟨n + m, _, rfl⟩
    · exact ⟨n, _, rfl⟩

/-- **Over a faulty store an accepted block issues its writes up to the first fault**, and fails
with that fault's error. -/
lemma ingestBlock_faulty {ing : Ingestor} {b : Block} (h : ing.accepts b = true) :
    ∃ st ing', ingestBlock ing b (⟨s, fs⟩ : Faulty Mem.Store) =
        ((st, (course (ingestCalls ing b) fs).error.map .store), ing',
          Faulty.after s (course (ingestCalls ing b) fs)) ∧
      ing'.skipValidate = ing.skipValidate := by
  obtain ⟨st, hm⟩ := indexBlock_faulty s fs ing b
  rw [ingestBlock, if_neg (Ingestor.accepts_iff.mp h), hm]
  unfold ingestCalls
  cases he : (course (indexCalls ing b) fs).error with
  | some e =>
    rw [course_append_of_some he, he]
    exact ⟨st, ing, rfl, rfl⟩
  | none =>
    rw [Faulty.after_append s fs he, course_append_of_none he]
    rw [Faulty.after_of_none s fs he]
    cases hp : ing.pruner with
    | none => exact ⟨st, ing, rfl, rfl⟩
    | some pr =>
      obtain ⟨n, pr', hn⟩ := onNewBlock_faulty (s.run (indexCalls ing b))
        (course (indexCalls ing b) fs).left pr b.height
      dsimp only [Option.elim]
      rw [hn]
      cases (course (pruneCalls pr b.height) (course (indexCalls ing b) fs).left).error with
      | none => exact ⟨{ st with pruned := n }, { ing with pruner := some pr' }, rfl, rfl⟩
      | some e => exact ⟨st, { ing with pruner := some pr' }, rfl, rfl⟩

/-- Whether `IngestBlock` fails over a store with these faults. -/
def Ingestor.fails (ing : Ingestor) (b : Block) (fs : List (Option StoreError)) : Bool :=
  !ing.accepts b || (fs.take (ingestCalls ing b).length).any Option.isSome

lemma ingestBlock_isNone (ing : Ingestor) (b : Block) :
    (ingestBlock ing b (⟨s, fs⟩ : Faulty Mem.Store)).1.2.isNone = !ing.fails b fs ∧
      (ingestBlock ing b (⟨s, fs⟩ : Faulty Mem.Store)).2.1.skipValidate = ing.skipValidate := by
  unfold Ingestor.fails
  cases hacc : ing.accepts b with
  | false =>
    rw [ingestBlock_reject hacc]
    exact ⟨rfl, rfl⟩
  | true =>
    obtain ⟨st, ing', hrun, hskip⟩ := ingestBlock_faulty s fs hacc
    rw [hrun]
    refine ⟨?_, hskip⟩
    rw [Bool.eq_iff_iff, Option.isNone_map, Option.isNone_iff_eq_none, course_error_eq_none_iff]
    simp

lemma ingestBlock_faultless (ing : Ingestor) (b : Block) :
    (ingestBlock ing b (⟨s, []⟩ : Faulty Mem.Store)).2.2.faults = [] := by
  cases hacc : ing.accepts b with
  | false => rw [ingestBlock_reject hacc]
  | true =>
    obtain ⟨st, ing', hrun, -⟩ := ingestBlock_faulty s [] hacc
    rw [hrun, course_faultless]
    rfl

end

end Ingest

end MemServe
