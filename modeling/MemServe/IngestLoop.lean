import MemServe.Faults
import MemServe.HttpSource

/-!
The ingest loop: blocks are taken from a source and handed to `IngestBlock`.

The source moves its cursor when it returns a block, before the block is ingested. Where
`IngestBlock` fails, the loop logs the error and takes the next block, so the failed one is gone:
what is ingested has no gap exactly if `IngestBlock` fails for every block after the first one it
fails for.
-/

namespace MemServe.IngestLoop

open Teranode Ingest

section Turns

variable {ς σ ε : Type} [Store σ]

/-- The server as the loop sees it. `outcomes` lists the blocks the source has returned, each with
whether `IngestBlock` succeeded. -/
structure State (ς σ : Type) where
  src : ς
  ing : Ingestor
  store : σ
  tip : UInt32 := 0
  blocks : ℕ := 0
  ready : Bool := false
  outcomes : List (Block × Bool) := []

/-- One turn of `ingestLoop`, with `heldMB` megabytes held. -/
def turn (next : ς → Except ε (Option Block) × ς) (maxMemMB heldMB : ℤ) (s : State ς σ) :
    State ς σ :=
  if 0 < maxMemMB ∧ maxMemMB ≤ heldMB then { s with ready := true }
  else
    match next s.src with
    | (.error _, src) => { s with src := src }
    | (.ok none, src) => { s with src := src, ready := true }
    | (.ok (some b), src) =>
      match ingestBlock s.ing b s.store with
      -- logged, and on to the next block
      | ((_, some _), ing, store) =>
        { s with src, ing, store, outcomes := s.outcomes ++ [(b, false)] }
      | ((_, none), ing, store) =>
        { src, ing, store, tip := b.height, blocks := s.blocks + 1, ready := true,
          outcomes := s.outcomes ++ [(b, true)] }

/-- The turns until the loop is cancelled. -/
def run (next : ς → Except ε (Option Block) × ς) (maxMemMB : ℤ) (held : List ℤ) (s : State ς σ) :
    State ς σ :=
  Trace.run (turn next maxMemMB) held s

/-- The blocks that were ingested, in order. -/
def State.ingested (s : State ς σ) : List Block := (s.outcomes.filter Prod.snd).map Prod.fst

/-- The server before the first turn. -/
def start (src : ς) (ing : Ingestor) (store : σ) : State ς σ := { src, ing, store }

variable (next : ς → Except ε (Option Block) × ς) (maxMemMB : ℤ)

/-- The block that a turn takes from the source. -/
def taken (heldMB : ℤ) (s : State ς σ) : Option Block :=
  if 0 < maxMemMB ∧ maxMemMB ≤ heldMB then none
  else
    match (next s.src).1 with
    | .ok b => b
    | .error _ => none

/-- The turns that hand a block to `IngestBlock`, each with the state it starts from. -/
def handed : List ℤ → State ς σ → List (State ς σ × Block)
  | [], _ => []
  | m :: ms, s =>
    (taken next maxMemMB m s).toList.map (Prod.mk s) ++ handed ms (turn next maxMemMB m s)

/-- The turn took nothing from the source. -/
structure Idle (s t : State ς σ) : Prop where
  ing : t.ing = s.ing
  store : t.store = s.store
  src : t.src = s.src ∨ t.src = (next s.src).2 ∧ ∀ b, (next s.src).1 ≠ .ok (some b)
  outcomes : t.outcomes = s.outcomes

/-- The turn took a block and handed it to `IngestBlock`. -/
structure Took (b : Block) (s t : State ς σ) : Prop where
  src : next s.src = (.ok (some b), t.src)
  outcomes : t.outcomes = s.outcomes ++ [(b, (ingestBlock s.ing b s.store).1.2.isNone)]
  ingested : (t.ing, t.store) = (ingestBlock s.ing b s.store).2

lemma turn_cases (heldMB : ℤ) (s : State ς σ) :
    taken next maxMemMB heldMB s = none ∧ Idle next s (turn next maxMemMB heldMB s) ∨
      ∃ b, taken next maxMemMB heldMB s = some b ∧ Took next b s (turn next maxMemMB heldMB s) := by
  unfold turn taken
  by_cases hmem : 0 < maxMemMB ∧ maxMemMB ≤ heldMB
  · rw [if_pos hmem, if_pos hmem]
    exact .inl ⟨rfl, rfl, rfl, .inl rfl, rfl⟩
  rw [if_neg hmem, if_neg hmem]
  rcases hn : next s.src with ⟨e | - | b, src⟩
  · exact .inl ⟨rfl, rfl, rfl, .inr ⟨by rw [hn], fun b h => by rw [hn] at h; cases h⟩, rfl⟩
  · exact .inl ⟨rfl, rfl, rfl, .inr ⟨by rw [hn], fun b h => by rw [hn] at h; cases h⟩, rfl⟩
  · refine .inr ⟨b, rfl, ?_⟩
    dsimp only
    rcases hi : ingestBlock s.ing b s.store with ⟨⟨st, - | e⟩, ing, store⟩
    · exact ⟨hn, by rw [hi]; rfl, by rw [hi]⟩
    · exact ⟨hn, by rw [hi]; rfl, by rw [hi]⟩

lemma run_concat (held : List ℤ) (m : ℤ) (s : State ς σ) :
    run next maxMemMB (held ++ [m]) s = turn next maxMemMB m (run next maxMemMB held s) :=
  Trace.run_append _ _ _ _

lemma handed_invariant {p : State ς σ → Prop} (hturn : ∀ m s, p s → p (turn next maxMemMB m s))
    (held : List ℤ) {s : State ς σ} (hs : p s) : ∀ t ∈ handed next maxMemMB held s, p t.1 := by
  induction held generalizing s with
  | nil => exact fun t ht => absurd ht List.not_mem_nil
  | cons m ms ih =>
    intro t ht
    rcases List.mem_append.mp ht with ht | ht
    · obtain ⟨b, -, rfl⟩ := List.mem_map.mp ht
      exact hs
    · exact ih (hturn m s hs) t ht

lemma run_outcomes (held : List ℤ) (s : State ς σ) :
    (run next maxMemMB held s).outcomes =
      s.outcomes ++ (handed next maxMemMB held s).map fun t =>
        (t.2, (ingestBlock t.1.ing t.2 t.1.store).1.2.isNone) := by
  induction held generalizing s with
  | nil => exact (List.append_nil _).symm
  | cons m ms ih =>
    have hrun : run next maxMemMB (m :: ms) s = run next maxMemMB ms (turn next maxMemMB m s) := rfl
    rw [hrun, ih, handed, List.map_append]
    rcases turn_cases next maxMemMB m s with ⟨htaken, hidle⟩ | ⟨b, htaken, htook⟩
    · rw [htaken, hidle.outcomes]
      rfl
    · rw [htaken, htook.outcomes, List.append_assoc]
      rfl

end Turns

section Faulty

variable {ς ε : Type}

/-- Whether `IngestBlock` fails for a block in this state: the block does not validate, or the store
fails one of the calls it takes. -/
def State.loses (s : State ς (Faulty Mem.Store)) (b : Block) : Bool := s.ing.fails b s.store.faults

variable (next : ς → Except ε (Option Block) × ς) (maxMemMB : ℤ) (held : List ℤ)

lemma run_outcomes_faulty (s : State ς (Faulty Mem.Store)) :
    (run next maxMemMB held s).outcomes =
      s.outcomes ++ (handed next maxMemMB held s).map fun t => (t.2, !t.1.loses t.2) := by
  rw [run_outcomes]
  refine congrArg (s.outcomes ++ ·) (List.map_congr_left fun t _ => ?_)
  exact congrArg (Prod.mk t.2) (ingestBlock_isNone t.1.store.base t.1.store.faults t.1.ing t.2).1

lemma loses_faultless {s : State ς (Faulty Mem.Store)} (hs : s.store.faults = []) :
    ∀ t ∈ handed next maxMemMB held s, t.1.loses t.2 = !s.ing.accepts t.2 := by
  have hkeep := handed_invariant next maxMemMB
    (p := fun l : State ς (Faulty Mem.Store) =>
      l.ing.skipValidate = s.ing.skipValidate ∧ l.store.faults = [])
    (fun m l hl => ?_) held ⟨rfl, hs⟩
  · intro t ht
    obtain ⟨hskip, hfaults⟩ := hkeep t ht
    rw [State.loses, Ingestor.fails, hfaults, Ingestor.accepts, hskip]
    simp [Ingestor.accepts]
  · obtain ⟨hskip, hfaults⟩ := hl
    rcases turn_cases next maxMemMB m l with ⟨-, hidle⟩ | ⟨b, -, htook⟩
    · rw [hidle.ing, hidle.store]
      exact ⟨hskip, hfaults⟩
    · have hl : l.store = ⟨l.store.base, []⟩ := by rw [← hfaults]
      have hboth := htook.ingested
      rw [hl] at hboth
      obtain ⟨hing, hstore⟩ := Prod.ext_iff.mp hboth
      dsimp only at hing hstore
      rw [hing, hstore]
      exact ⟨(ingestBlock_isNone _ _ _ _).2.trans hskip, ingestBlock_faultless _ _ _⟩

end Faulty

/-! ### Gaps -/

/-- Of consecutive numbers, those with a mark are the first ones exactly if no mark comes after a
gap. -/
lemma marked_eq_range'_iff {α : Type} {f : α → ℕ} {l : List (α × Bool)} {a : ℕ}
    (h : (l.map fun p => f p.1) = List.range' a l.length) :
    (((l.filter Prod.snd).map Prod.fst).map f =
        List.range' a ((l.filter Prod.snd).map Prod.fst).length) ↔
      l.Pairwise fun p q => p.2 = false → q.2 = false := by
  induction l generalizing a with
  | nil => simp
  | cons p l ih =>
    obtain ⟨x, ok⟩ := p
    rw [List.map_cons, List.length_cons, List.range'_succ, List.cons.injEq] at h
    obtain ⟨hx, hl⟩ := h
    rw [List.pairwise_cons]
    cases ok with
    | true => simpa [List.range'_succ, hx] using ih hl
    | false =>
      have hfilter : ((x, false) :: l).filter Prod.snd = l.filter Prod.snd := rfl
      rw [hfilter]
      constructor
      · intro heq
        -- the first marked number would be `a`, but all that follow are greater
        have hnone : l.filter Prod.snd = [] := by
          cases hl' : l.filter Prod.snd with
          | nil => rfl
          | cons q qs =>
            rw [hl', List.map_cons, List.map_cons, List.length_cons, List.range'_succ,
              List.cons.injEq] at heq
            have hq : q ∈ l := List.mem_of_mem_filter (by rw [hl']; exact List.mem_cons_self)
            have hmem : f q.1 ∈ List.range' (a + 1) l.length := hl ▸ List.mem_map_of_mem hq
            have := (List.mem_range'_1.mp hmem).1
            omega
        have hall : ∀ q ∈ l, q.2 = false := fun q hq => by
          simpa using List.filter_eq_nil_iff.mp hnone q hq
        exact ⟨fun q hq _ => hall q hq,
          List.pairwise_of_forall_mem_list fun _ _ q hq _ => hall q hq⟩
      · rintro ⟨hall, -⟩
        have hnone : l.filter Prod.snd = [] :=
          List.filter_eq_nil_iff.mpr fun q hq => by simp [hall q hq rfl]
        rw [hnone]
        rfl

section Http

open Httpsource

variable (w : Web) (cfg : Httpsource.Config) (ing : Ingestor)

lemma run_session {σ : Type} [Store σ] (s : σ) (maxMemMB : ℤ) (held : List ℤ) :
    let l := run (Source.next w) maxMemMB held (start (new cfg) ing s)
    ∃ k ≤ held.length, l.src = (session w cfg k).src ∧
      l.outcomes.map Prod.fst = (session w cfg k).got.map Delivery.block := by
  induction held using List.reverseRecOn with
  | nil => exact ⟨0, le_rfl, rfl, rfl⟩
  | append_singleton held m ih =>
    obtain ⟨k, hk, hsrc, hblocks⟩ := ih
    dsimp only
    rw [run_concat, List.length_append, List.length_singleton]
    generalize run (Source.next w) maxMemMB held (start (new cfg) ing s) = l at hsrc hblocks ⊢
    rcases turn_cases (Source.next w) maxMemMB m l with
      ⟨-, -, -, hidle | ⟨hmoved, hnone⟩, hout⟩ | ⟨b, -, hnext, hout, -⟩
    · exact ⟨k, by omega, hidle.trans hsrc, by rw [hout, hblocks]⟩
    · rw [hsrc] at hmoved hnone
      refine ⟨k + 1, by omega, ?_, ?_⟩
      · rw [session_succ, Session.call_none hnone, hmoved]
      · rw [session_succ, Session.call_none hnone, hout, hblocks]
    · rw [hsrc] at hnext
      refine ⟨k + 1, by omega, ?_, ?_⟩
      · rw [session_succ, Session.call_some hnext]
      · rw [session_succ, Session.call_some hnext, hout, List.map_append, List.map_append, hblocks]
        rfl

lemma outcomes_heights {σ : Type} [Store σ] (s : σ) (maxMemMB : ℤ) (held : List ℤ)
    (hfit : cfg.endHeight ≠ 0 ∧ cfg.endHeight.toNat < 2 ^ 32 - 1 ∨
      cfg.startHeight.toNat + held.length ≤ 2 ^ 32)
    (hdecl : w.Declares cfg) :
    let l := run (Source.next w) maxMemMB held (start (new cfg) ing s)
    (l.outcomes.map fun p => p.1.height.toNat) =
      List.range' cfg.startHeight.toNat l.outcomes.length := by
  intro l
  obtain ⟨k, hk, -, hblocks⟩ := run_session w cfg ing s maxMemMB held
  have hlen := session_range_le (w := w) (k := k) (hfit.imp_right fun h => by omega)
  have hcount : l.outcomes.length = (session w cfg k).got.length := by
    simpa only [List.length_map] using congrArg List.length hblocks
  calc (l.outcomes.map fun p => p.1.height.toNat)
      = (l.outcomes.map Prod.fst).map (fun b => b.height.toNat) := by rw [List.map_map]; rfl
    _ = (session w cfg k).got.map (fun d => d.block.height.toNat) := by
      rw [hblocks, List.map_map]; rfl
    _ = List.range' cfg.startHeight.toNat l.outcomes.length := by
      rw [hcount]
      exact (session_books w cfg k).heights_toNat hlen hdecl

/-- **What is ingested has no gap exactly if a turn that loses its block is followed only by turns
that lose theirs**, for an endpoint that declares what it serves. A turn loses its block where the
block does not validate or the store fails one of its calls, and a lost block is not ingested later.
Over a store that does not fail only blocks that do not validate are lost. -/
theorem ingested_gap_free_iff (s : Mem.Store) (fs : List (Option StoreError)) (maxMemMB : ℤ)
    (held : List ℤ)
    (hfit : cfg.endHeight ≠ 0 ∧ cfg.endHeight.toNat < 2 ^ 32 - 1 ∨
      cfg.startHeight.toNat + held.length ≤ 2 ^ 32)
    (hdecl : w.Declares cfg) :
    let s₀ := start (new cfg) ing (⟨s, fs⟩ : Faulty Mem.Store)
    let l := run (Source.next w) maxMemMB held s₀
    let turns := handed (Source.next w) maxMemMB held s₀
    ((l.ingested.map fun b => b.height.toNat) =
        List.range' cfg.startHeight.toNat l.ingested.length ↔
      turns.Pairwise fun t u => t.1.loses t.2 = true → u.1.loses u.2 = true) ∧
    (∀ t ∈ turns, t.1.loses t.2 = true → ∀ b ∈ l.ingested, b.height ≠ t.2.height) ∧
    (fs = [] → ∀ t ∈ turns, t.1.loses t.2 = !ing.accepts t.2) := by
  intro s₀ l turns
  have hheights := outcomes_heights w cfg ing (⟨s, fs⟩ : Faulty Mem.Store) maxMemMB held hfit hdecl
  have hout : l.outcomes = turns.map fun t => (t.2, !t.1.loses t.2) :=
    run_outcomes_faulty (Source.next w) maxMemMB held s₀
  refine ⟨?_, fun t ht hlost b hb heq => ?_, fun hfs => ?_⟩
  · rw [State.ingested, marked_eq_range'_iff hheights, hout, List.pairwise_map]
    simp only [Bool.not_eq_false']
  · obtain ⟨q, hq, rfl⟩ := List.mem_map.mp hb
    obtain ⟨hq, hok⟩ := List.mem_filter.mp hq
    have hnodup : (l.outcomes.map fun p => p.1.height.toNat).Nodup := by
      rw [hheights]
      exact List.nodup_range'
    have hmem : (t.2, !t.1.loses t.2) ∈ l.outcomes := hout ▸ List.mem_map_of_mem ht
    rw [List.inj_on_of_nodup_map hnodup hq hmem (congrArg UInt32.toNat heq), hlost] at hok
    exact absurd hok Bool.false_ne_true
  · exact loses_faultless (Source.next w) maxMemMB held hfs

/-- Over a store that does not fail both blocks are ingested. -/
theorem ingested_gap_free_solo :
    ((run (Source.next soloWeb) 0 [0, 0, 0] (start (new { startHeight := 1, endHeight := 2 })
      (Ingest.new none {}) (⟨Mem.new, []⟩ : Faulty Mem.Store))).ingested.map
        fun b => b.height.toNat) = [1, 2] := by
  have hgap := ingested_gap_free_iff soloWeb { startHeight := 1, endHeight := 2 }
    (Ingest.new none {}) Mem.new [] 0 [0, 0, 0] (.inl ⟨by decide, by decide⟩) soloWeb_declares
  refine (hgap.1.mpr ?_).trans ?_
  · decide +kernel
  · decide +kernel

/-- **A block is lost to one failed call**: the store fails the first call for block 1, and the loop
goes on to ingest block 2. -/
theorem ingested_with_gap :
    ((run (Source.next soloWeb) 0 [0, 0, 0] (start (new { startHeight := 1, endHeight := 2 })
      (Ingest.new none {})
      (⟨Mem.new, [some ⟨"store: call failed"⟩]⟩ : Faulty Mem.Store))).outcomes.map
        fun p => (p.1.height, p.2)) = [(1, false), (2, true)] := by
  decide +kernel

end Http

end MemServe.IngestLoop
