import Mathlib.Data.Fintype.EquivFin
import MemServe.Cells
import MemServe.Server

/-!
When an honest server contradicts itself.

The store changes while a block is ingested and the tip only afterwards, so two handlers that
sign at one tip may have read the store before and after a write. The server is consistent as long
as each handler signs what the store answered when the tip it signs was stored; and where one
does not, one more query makes it contradict itself.
-/

namespace MemServe.Server

open Teranode Ingest Attest

namespace State

/-- The loop is about to store the tip. -/
def finishing (s : State) : Bool :=
  match s.current with
  | some ⟨_, [], []⟩ => true
  | _ => false

/-- The blocks whose heights will still be stored as tips: the one in progress and those that will
be accepted. -/
def coming (s : State) : List Block :=
  (s.current.map Progress.block).toList ++ s.queue.filter s.ing.accepts

/-- **A step of the loop stores the tip, or leaves it.** -/
lemma ingest_cases (s : State) :
    s.ingest.signed = s.signed ∧ s.ingest.handlers = s.handlers ∧
      ((s.finishing = false ∧ s.ingest.tip = s.tip ∧ s.ingest.coming = s.coming) ∨
        s.finishing = true ∧ s.ingest.store = s.store ∧ ∃ b,
          s.coming = b :: s.ingest.coming ∧ s.ingest.tip = b.height) := by
  obtain ⟨store, ing, queue, current, tip, handlers, signed⟩ := s
  rcases current with _ | ⟨b, cs, ws⟩
  · rcases queue with _ | ⟨b, rest⟩
    · exact ⟨rfl, rfl, .inl ⟨rfl, rfl, rfl⟩⟩
    · by_cases hacc : ing.accepts b = true
      · have hs : ingest ⟨store, ing, b :: rest, none, tip, handlers, signed⟩ =
            ⟨store, ing, rest, some { block := b, calls := ingestCalls ing b }, tip, handlers,
              signed⟩ := if_pos hacc
        rw [hs]
        exact ⟨rfl, rfl, .inl ⟨rfl, rfl, by simp [coming, hacc]⟩⟩
      · have hs : ingest ⟨store, ing, b :: rest, none, tip, handlers, signed⟩ =
            ⟨store, ing, rest, none, tip, handlers, signed⟩ := if_neg hacc
        rw [hs]
        exact ⟨rfl, rfl, .inl ⟨rfl, rfl, by simp [coming, hacc]⟩⟩
  · rcases ws with _ | ⟨w, ws⟩
    · rcases cs with _ | ⟨c, cs⟩
      · exact ⟨rfl, rfl, .inr ⟨rfl, rfl, b, rfl, rfl⟩⟩
      · exact ⟨rfl, rfl, .inl ⟨rfl, rfl, rfl⟩⟩
    · exact ⟨rfl, rfl, .inl ⟨by cases cs <;> rfl, rfl, rfl⟩⟩

lemma advance_read {s : State} {i : ℕ} {h : Handler} (hi : s.handlers i = some h)
    (hne : ∀ q a, h ≠ .answered q a) :
    s.advance i = { s with handlers := Function.update s.handlers i (some (h.read s.store)) } := by
  unfold advance
  rw [hi]
  cases h with
  | answered q a => exact absurd rfl (hne q a)
  | _ => rfl

lemma advance_sign {s : State} {i : ℕ} {q : Query} {a : Answer}
    (hi : s.handlers i = some (.answered q a)) :
    s.advance i =
      { s with
        handlers := Function.update s.handlers i (some .done), signed :=
        s.signed ++ [q.statement a s.tip] } := by
  unfold advance
  rw [hi]

/-- **A step of a handler signs, or reads.** -/
lemma advance_cases (s : State) (i : ℕ) :
    (∃ q a, s.handlers i = some (.answered q a) ∧ (s.advance i).signed =
      s.signed ++ [q.statement a s.tip]) ∨
      (s.advance i).signed = s.signed := by
  cases hi : s.handlers i with
  | none => exact .inr (by rw [advance, hi])
  | some h =>
    cases h with
    | answered q a => exact .inl ⟨q, a, rfl, by rw [advance_sign hi]⟩
    | _ => exact .inr (by rw [advance_read hi nofun])

lemma advance_coming (s : State) (i : ℕ) : (s.advance i).coming = s.coming := by
  obtain ⟨-, hing, hq, hc, -⟩ := s.advance_frame i
  rw [coming, hing, hq, hc, coming]

end State

/-- A state, and the store as it was when the tip was last stored. -/
structure Watch where
  state : State
  base : Mem.Store

namespace Watch

def step (v : Watch) (e : Event) : Watch where
  state := v.state.step e
  base :=
    match e with
    | .ingest => if v.state.finishing then v.state.store else v.base
    | _ => v.base

def run (v : Watch) (es : List Event) : Watch := es.foldl step v

def start (ing : Ingestor) (store : Mem.Store) (bs : List Block) : Watch :=
  ⟨State.start ing store bs, store⟩

lemma run_concat (v : Watch) (es : List Event) (e : Event) :
    v.run (es ++ [e]) = (v.run es).step e := by
  simp [run]

lemma run_state (v : Watch) (es : List Event) : (v.run es).state = v.state.run es := by
  induction es using List.reverseRecOn with
  | nil => rfl
  | append_singleton es e ih =>
    rw [run_concat, State.run_append]
    exact congrArg (State.step · e) ih

/-- The condition a step is made under. A handler signs what the store answered when the tip was
stored, and not at a tip that will be stored again: the first tip is zero, and so may be the height
of the first block. -/
def Settled (v : Watch) (e : Event) : Prop :=
  match e with
  | .advance i => ∀ q a, v.state.handlers i = some (.answered q a) →
      a = q.answer v.base ∧ ∀ b ∈ v.state.coming, v.state.tip = 0 → b.height ≠ 0
  | _ => True

/-- Every step of a run is settled. -/
def Settles (v : Watch) (es : List Event) : Prop :=
  Trace.Guarded (fun e v => v.step e) (fun e v => v.Settled e) es v

/-- The statements signed so far, against the tips to come. -/
structure Honest (v : Watch) : Prop where
  order : v.state.coming.Pairwise fun b c => b.height < c.height
  ahead : ∀ b ∈ v.state.coming, v.state.tip < b.height ∨ v.state.tip = 0 ∧ b.height = 0
  below : ∀ st ∈ v.state.signed, ∀ b ∈ v.state.coming, st.tip < b.height
  based : ∀ st ∈ v.state.signed, ∃ (q : Query) (a : Answer),
    st = q.statement a st.tip ∧ (st.tip = v.state.tip → a = q.answer v.base)
  consistent : ∀ st ∈ v.state.signed, ∀ st' ∈ v.state.signed, st.contradicts st' = false

/-- **A step of the loop.** The tip it stores is above all tips that were signed. -/
lemma Honest.ingest {v : Watch} (h : v.Honest) : (v.step .ingest).Honest := by
  obtain ⟨hsigned, -, ⟨hfin, htip, hcoming⟩ | ⟨hfin, -, b, hcoming, htip⟩⟩ := v.state.ingest_cases
  · have hbase : (v.step .ingest).base = v.base := by simp [step, hfin]
    constructor <;> rw [show (v.step .ingest).state = v.state.ingest from rfl]
    · rw [hcoming]; exact h.order
    · rw [hcoming, htip]; exact h.ahead
    · rw [hsigned, hcoming]; exact h.below
    · rw [hsigned, htip, hbase]; exact h.based
    · rw [hsigned]; exact h.consistent
  · have horder := h.order
    have hbelow := h.below
    rw [hcoming] at horder hbelow
    constructor <;> rw [show (v.step .ingest).state = v.state.ingest from rfl]
    · exact (List.pairwise_cons.mp horder).2
    · intro c hc
      rw [htip]
      exact .inl ((List.pairwise_cons.mp horder).1 c hc)
    · rw [hsigned]
      exact fun st hst c hc => hbelow st hst c (List.mem_cons_of_mem b hc)
    · rw [hsigned, htip]
      intro st hst
      obtain ⟨q, a, heq, -⟩ := h.based st hst
      refine ⟨q, a, heq, fun ht => ?_⟩
      have hlt := hbelow st hst b List.mem_cons_self
      rw [ht] at hlt
      exact absurd hlt (UInt32.lt_irrefl _)
    · rw [hsigned]; exact h.consistent

/-- **A step of a handler.** What it signs is what every statement at this tip says. -/
lemma Honest.advance {v : Watch} (h : v.Honest) {i : ℕ} (hs : v.Settled (.advance i)) :
    (v.step (.advance i)).Honest := by
  have hcoming := v.state.advance_coming i
  obtain ⟨-, -, -, -, htip⟩ := v.state.advance_frame i
  have hbase : (v.step (.advance i)).base = v.base := rfl
  have hstate : (v.step (.advance i)).state = v.state.advance i := rfl
  rcases v.state.advance_cases i with ⟨q, a, hi, hsigned⟩ | hsigned
  · obtain ⟨ha, hzero⟩ := hs q a hi
    have hnew : ∀ st ∈ v.state.signed, st.contradicts (q.statement a v.state.tip) = false ∧
        (q.statement a v.state.tip).contradicts st = false := by
      intro st hst
      obtain ⟨r, a', heq, hat⟩ := h.based st hst
      -- at one tip both answers are those of the base
      have hsame : st.tip = v.state.tip → r = q → a' = a := by
        rintro ht rfl
        rw [hat ht, ha]
      constructor <;> rw [heq] <;> refine eq_false_of_ne_true fun hcon => ?_
      · obtain ⟨hq, ht, hne⟩ := Query.contradicts_iff.mp hcon
        exact hne (hsame ht hq)
      · obtain ⟨hq, ht, hne⟩ := Query.contradicts_iff.mp hcon
        exact hne (hsame ht.symm hq.symm).symm
    constructor <;> rw [hstate]
    · rw [hcoming]; exact h.order
    · rw [hcoming, htip]; exact h.ahead
    · rw [hsigned, hcoming]
      intro st hst b hb
      rcases List.mem_append.mp hst with hst | hst
      · exact h.below st hst b hb
      · rw [List.mem_singleton] at hst
        subst hst
        rcases h.ahead b hb with hlt | ⟨h0, hb0⟩
        · exact hlt
        · exact absurd hb0 (hzero b hb h0)
    · rw [hsigned, htip, hbase]
      intro st hst
      rcases List.mem_append.mp hst with hst | hst
      · exact h.based st hst
      · rw [List.mem_singleton] at hst
        subst hst
        exact ⟨q, a, rfl, fun _ => ha⟩
    · rw [hsigned]
      intro st hst st' hst'
      rw [List.mem_append, List.mem_singleton] at hst hst'
      rcases hst with hst | rfl <;> rcases hst' with hst' | rfl
      · exact h.consistent st hst st' hst'
      · exact (hnew st hst).1
      · exact (hnew st' hst').2
      · exact eq_false_of_ne_true fun hcon => (Query.contradicts_iff.mp hcon).2.2 rfl
  · constructor <;> rw [hstate]
    · rw [hcoming]; exact h.order
    · rw [hcoming, htip]; exact h.ahead
    · rw [hsigned, hcoming]; exact h.below
    · rw [hsigned, htip, hbase]; exact h.based
    · rw [hsigned]; exact h.consistent

lemma Honest.step {v : Watch} (h : v.Honest) {e : Event} (hs : v.Settled e) :
    (v.step e).Honest := by
  cases e with
  | ingest => exact h.ingest
  | advance i => exact h.advance hs
  | arrive i q =>
    by_cases hi : (v.state.handlers i).isSome = true
    · have heq : v.step (.arrive i q) = v := by simp [Watch.step, State.step, hi]
      rw [heq]
      exact h
    · have heq : v.step (.arrive i q) =
          ⟨{ v.state with handlers := Function.update v.state.handlers i (some (.start q)) },
              v.base⟩ := by
        simp [Watch.step, State.step, hi]
      rw [heq]
      exact ⟨h.order, h.ahead, h.below, h.based, h.consistent⟩

/-- **A whole run** whose steps are all settled. -/
lemma Honest.run {v : Watch} (h : v.Honest) {es : List Event} (hs : v.Settles es) :
    (v.run es).Honest :=
  Trace.Guarded.invariant hs (fun _ _ hv he => hv.step he) h

lemma honest_start (ing : Ingestor) (store : Mem.Store) {bs : List Block}
    (hinc : bs.Pairwise fun b c => b.height < c.height) :
    (start ing store bs).Honest := by
  refine ⟨hinc.filter _, fun b _ => ?_, nofun, nofun, nofun⟩
  by_cases hb : b.height = 0
  · exact .inr ⟨rfl, hb⟩
  · exact .inl (UInt32.pos_iff_ne_zero.mpr hb)

end Watch

def Event.handler (e : Event) : Option ℕ :=
  match e with
  | .ingest => none
  | .arrive i _ => some i
  | .advance i => some i

/-- `s'` is `s` with another state of handler `k` and more statements. -/
def Beside (k : ℕ) (s s' : State) : Prop :=
  ∃ hs sg, s' = { s with handlers := hs, signed := sg } ∧ (∀ i, i ≠ k → hs i = s.handlers i) ∧
    ∀ st ∈ s.signed, st ∈ sg

namespace State

lemma ingest_with (s : State) (hs : ℕ → Option Handler) (sg : List Statement) :
    ingest { s with handlers := hs, signed := sg } =
      { s.ingest with handlers := hs, signed := sg } := by
  obtain ⟨store, ing, queue, current, tip, handlers, signed⟩ := s
  rcases current with _ | ⟨b, cs, ws⟩
  · rcases queue with _ | ⟨b, rest⟩
    · rfl
    · simp only [ingest]
      split_ifs <;> rfl
  · cases ws <;> cases cs <;> rfl

lemma update_agree {k i : ℕ} {f g : ℕ → Option Handler} (h : ∀ j, j ≠ k → f j = g j)
    (x : Option Handler) :
    ∀ j, j ≠ k → Function.update f i x j = Function.update g i x j := by
  intro j hj
  rw [Function.update_apply, Function.update_apply, h j hj]

end State

lemma Beside.step {k : ℕ} {s s' : State} (h : Beside k s s') {e : Event} (he : e.handler ≠ some k) :
    Beside k (s.step e) (s'.step e) := by
  obtain ⟨hs, sg, rfl, hagree, hsub⟩ := h
  cases e with
  | ingest =>
    obtain ⟨hsigned, hhandlers, -⟩ := s.ingest_cases
    refine ⟨hs, sg, s.ingest_with hs sg, ?_, ?_⟩
    · rw [State.step, hhandlers]; exact hagree
    · rw [State.step, hsigned]; exact hsub
  | arrive i q =>
    have hik : i ≠ k := fun h => he (by rw [h]; rfl)
    simp only [State.step, hagree i hik]
    split_ifs
    · exact ⟨hs, sg, rfl, hagree, hsub⟩
    · exact ⟨_, sg, rfl, State.update_agree hagree _, hsub⟩
  | advance i =>
    have hik : i ≠ k := fun h => he (by rw [h]; rfl)
    simp only [State.step, State.advance, hagree i hik]
    split
    · exact ⟨hs, sg, rfl, hagree, hsub⟩
    · refine ⟨_, _, rfl, State.update_agree hagree _, fun st hst => ?_⟩
      rcases List.mem_append.mp hst with hst | hst
      · exact List.mem_append_left _ (hsub st hst)
      · exact List.mem_append_right _ hst
    · exact ⟨_, sg, rfl, State.update_agree hagree _, hsub⟩

lemma Beside.run {k : ℕ} {s s' : State} (h : Beside k s s') {es : List Event}
    (he : ∀ e ∈ es, e.handler ≠ some k) :
    Beside k (s.run es) (s'.run es) := by
  induction es generalizing s s' with
  | nil => exact h
  | cons e es ih =>
    exact ih (h.step (he e List.mem_cons_self)) fun e' he' => he e' (List.mem_cons_of_mem e he')

/-- A handler that no event belongs to never starts. -/
lemma handlers_eq_none {k : ℕ} {s : State} (hk : s.handlers k = none) {es : List Event}
    (he : ∀ e ∈ es, e.handler ≠ some k) : (s.run es).handlers k = none := by
  induction es generalizing s with
  | nil => exact hk
  | cons e es ih =>
    refine ih ?_ fun e' he' => he e' (List.mem_cons_of_mem e he')
    have hne := he e List.mem_cons_self
    cases e with
    | ingest => rw [State.step, s.ingest_cases.2.1, hk]
    | arrive i q =>
      have hik : k ≠ i := fun h => hne (by rw [h]; rfl)
      unfold State.step
      dsimp only
      split_ifs
      · exact hk
      · exact (Function.update_of_ne hik _ _).trans hk
    | advance i =>
      have hik : k ≠ i := fun h => hne (by rw [h]; rfl)
      unfold State.step State.advance
      dsimp only
      split
      · exact hk
      · exact (Function.update_of_ne hik _ _).trans hk
      · exact (Function.update_of_ne hik _ _).trans hk

/-- A query asked and answered at once, by a handler of its own. -/
def ask (k : ℕ) (q : Query) : List Event := [.arrive k q, .advance k, .advance k, .advance k]

lemma advance_update_read (s : State) (f : ℕ → Option Handler) (k : ℕ) {h : Handler}
    (hne : ∀ q a, h ≠ .answered q a) :
    State.advance { s with handlers := Function.update f k (some h) } k =
      { s with handlers := Function.update f k (some (h.read s.store)) } := by
  rw [State.advance_read (Function.update_self ..) hne]
  simp only [Function.update_idem]

lemma advance_update_sign (s : State) (f : ℕ → Option Handler) (k : ℕ) (q : Query) (a : Answer) :
    State.advance { s with handlers := Function.update f k (some (.answered q a)) } k =
      { s with
        handlers := Function.update f k (some .done), signed :=
        s.signed ++ [q.statement a s.tip] } := by
  rw [State.advance_sign (Function.update_self ..)]
  simp only [Function.update_idem]

lemma run_ask {k : ℕ} {s : State} (hk : s.handlers k = none) (q : Query) :
    s.run (ask k q) = { s with
      handlers := Function.update s.handlers k (some .done)
      signed := s.signed ++ [q.statement (q.answer s.store) s.tip] } := by
  have harrive : s.step (.arrive k q) =
      { s with handlers := Function.update s.handlers k (some (.start q)) } := by
    simp [State.step, hk]
  change (((s.step _).advance k).advance k).advance k = _
  rw [harrive, advance_update_read s _ k (h := .start q) nofun]
  rcases Handler.read_start q s.store with h1 | ⟨⟨op, hmiss⟩, h2⟩
  · -- one read, then the signature; the third step finds the handler done
    rw [h1, advance_update_sign]
    exact advance_update_read
      { s with signed := s.signed ++ [q.statement (q.answer s.store) s.tip] } s.handlers k
      (h := .done) nofun
  · -- two reads, then the signature
    rw [hmiss] at h2 ⊢
    rw [advance_update_read s _ k (h := .missed op) nofun, h2, advance_update_sign]

lemma mem_signed_run {s : State} {st : Statement} (hst : st ∈ s.signed) (es : List Event) :
    st ∈ (s.run es).signed := by
  induction es generalizing s with
  | nil => exact hst
  | cons e es ih =>
    refine ih ?_
    cases e with
    | ingest => rw [State.step, s.ingest_cases.1]; exact hst
    | arrive i q =>
      unfold State.step
      dsimp only
      split_ifs <;> exact hst
    | advance i =>
      change st ∈ (s.advance i).signed
      rcases s.advance_cases i with ⟨q, a, -, hs⟩ | hs <;> rw [hs]
      · exact List.mem_append_left _ hst
      · exact hst

lemma exists_boundary (v : Watch) (hv : v.state.store = v.base) (es : List Event) :
    ∃ pre post, es = pre ++ post ∧ (v.state.run pre).store = (v.run es).base ∧
      (v.state.run pre).tip = (v.run es).state.tip := by
  induction es using List.reverseRecOn with
  | nil => exact ⟨[], [], rfl, hv, rfl⟩
  | append_singleton es e ih =>
    obtain ⟨pre, post, hes, hstore, htip⟩ := ih
    -- a step that does not store the tip moves neither the tip nor the base
    have hkeep : (v.run (es ++ [e])).base = (v.run es).base →
        (v.run (es ++ [e])).state.tip = (v.run es).state.tip →
        ∃ pre post, es ++ [e] = pre ++ post ∧ (v.state.run pre).store = (v.run (es ++ [e])).base ∧
          (v.state.run pre).tip = (v.run (es ++ [e])).state.tip := fun hb ht =>
      ⟨pre, post ++ [e], by rw [hes, List.append_assoc], hstore.trans hb.symm, htip.trans ht.symm⟩
    rw [Watch.run_concat] at hkeep ⊢
    cases e with
    | arrive i q =>
      refine hkeep rfl ?_
      simp only [Watch.step, State.step]
      split_ifs <;> rfl
    | advance i => exact hkeep rfl ((v.run es).state.advance_frame i).2.2.2.2
    | ingest =>
      obtain ⟨-, -, ⟨hfin, ht, -⟩ | ⟨hfin, hst, -⟩⟩ := (v.run es).state.ingest_cases
      · exact hkeep (by simp [Watch.step, hfin]) ht
      · refine ⟨es ++ [.ingest], [], by simp, ?_, ?_⟩
        · rw [← Watch.run_state, Watch.run_concat]
          simp only [Watch.step, State.step, hfin, if_true]
          exact hst
        · rw [← Watch.run_state, Watch.run_concat]

/-- **A handler about to sign anything else can be contradicted**: one more query, asked when the
tip was stored, and the server has signed both answers. -/
lemma unsettled_contradicts (v : Watch) (hv : v.state.store = v.base)
    (hnone : ∀ i, v.state.handlers i = none) {es : List Event} {i : ℕ} {q : Query} {a : Answer}
    (hi : (v.run es).state.handlers i = some (.answered q a)) (hne : a ≠ q.answer (v.run es).base) :
    ∃ es', ∃ st ∈ (v.state.run es').signed, ∃ st' ∈ (v.state.run es').signed,
      st.contradicts st' = true := by
  obtain ⟨pre, post, hes, hstore, htip⟩ := exists_boundary v hv es
  obtain ⟨k, hk⟩ := Infinite.exists_notMem_finset ((es.filterMap Event.handler).toFinset ∪ {i})
  rw [Finset.mem_union, List.mem_toFinset, Finset.mem_singleton, not_or] at hk
  have hfresh : ∀ e ∈ es, e.handler ≠ some k :=
    fun e he h => hk.1 (List.mem_filterMap.mpr ⟨e, he, h⟩)
  rw [Watch.run_state] at hi htip
  subst hes
  rw [State.run_append] at hi htip
  have hpre : (v.state.run pre).handlers k = none :=
    handlers_eq_none (hnone k) fun e he => hfresh e (List.mem_append_left post he)
  -- the run with the extra query, up to the signature of handler `i`
  have hbeside : Beside k ((v.state.run pre).run post)
      (((v.state.run pre).run (ask k q)).run post) := by
    refine Beside.run ?_ fun e he => hfresh e (List.mem_append_right pre he)
    rw [run_ask hpre]
    exact ⟨_, _, rfl, fun j hj => Function.update_of_ne hj _ _,
      fun st hst => List.mem_append_left _ hst⟩
  obtain ⟨hs, sg, heq, hagree, hsub⟩ := hbeside
  have hik : hs i = some (.answered q a) := by rw [hagree i fun h => hk.2 h.symm]; exact hi
  have hask : q.statement (q.answer (v.run (pre ++ post)).base) (v.state.run pre).tip ∈
      ((v.state.run pre).run (ask k q)).signed := by
    rw [run_ask hpre, hstore]
    exact List.mem_append_right _ List.mem_cons_self
  refine ⟨pre ++ ask k q ++ post ++ [.advance i], _, ?_, q.statement a (v.state.run pre).tip, ?_,
    Query.contradicts_iff.mpr ⟨rfl, rfl, hne.symm⟩⟩
  · rw [State.run_append, State.run_append, State.run_append]
    exact mem_signed_run (mem_signed_run hask post) [.advance i]
  · rw [State.run_append, State.run_append, State.run_append, heq, htip]
    change _ ∈ (State.advance _ i).signed
    rw [State.advance_sign hik]
    exact List.mem_append_right _ List.mem_cons_self

/-! ### Consistency -/

/-- **An honest server that signs only what stood at the tip does not contradict itself**, whatever
the interleaving of its loop and its handlers. The condition is exact: a handler about to sign
anything else can be contradicted by one more query. -/
theorem no_equivocation (ing : Ingestor) (store : Mem.Store) {bs : List Block}
    (hinc : bs.Pairwise fun b c => b.height < c.height) {es : List Event}
    (hs : (Watch.start ing store bs).Settles es) :
    (∀ st ∈ ((State.start ing store bs).run es).signed,
      ∀ st' ∈ ((State.start ing store bs).run es).signed,
      st.contradicts st' = false) ∧
    (∀ a b : Attestation, a.statement ∈ ((State.start ing store bs).run es).signed →
      b.statement ∈ ((State.start ing store bs).run es).signed →
        ∀ fp, proveEquivocation a b ≠ .ok fp) ∧
    ∀ i q a, ((State.start ing store bs).run es).handlers i = some (.answered q a) →
      a ≠ q.answer ((Watch.start ing store bs).run es).base →
        ∃ es', ∃ st ∈ ((State.start ing store bs).run es').signed,
          ∃ st' ∈ ((State.start ing store bs).run es').signed,
          st.contradicts st' = true := by
  have hconsistent := ((Watch.honest_start ing store hinc).run hs).consistent
  rw [Watch.run_state] at hconsistent
  refine ⟨hconsistent, fun a b ha hb fp hfp => ?_, fun i q a hi hne => ?_⟩
  · unfold proveEquivocation at hfp
    split_ifs at hfp with h1 h2 h3
    rw [hconsistent _ ha _ hb] at h3
    exact h3 rfl
  · refine unsettled_contradicts (Watch.start ing store bs) rfl (fun _ => rfl) (i := i) ?_ hne
    rw [Watch.run_state]
    exact hi

namespace Watch

lemma settles_ingest (v : Watch) (n : ℕ) : v.Settles (List.replicate n .ingest) := by
  induction n generalizing v with
  | zero => exact Trace.guarded_nil v
  | succ n ih => exact Trace.guarded_cons_iff.mpr ⟨trivial, ih _⟩

lemma base_of_idle (ing : Ingestor) (store : Mem.Store) (bs : List Block) (es : List Event)
    (hidle : ((start ing store bs).run es).state.current = none) :
    ((start ing store bs).run es).state.store = ((start ing store bs).run es).base := by
  induction es using List.reverseRecOn with
  | nil => rfl
  | append_singleton es e ih =>
    rw [run_concat] at hidle ⊢
    generalize (start ing store bs).run es = v at ih hidle ⊢
    cases e with
    | arrive i q =>
      have hframe : (v.step (.arrive i q)).state.current = v.state.current ∧
          (v.step (.arrive i q)).state.store = v.state.store := by
        simp only [step, State.step]
        split_ifs <;> exact ⟨rfl, rfl⟩
      rw [hframe.1] at hidle
      exact hframe.2.trans (ih hidle)
    | advance i =>
      obtain ⟨hst, -, -, hc, -⟩ := v.state.advance_frame i
      exact hst.trans (ih (hc.symm.trans hidle))
    | ingest =>
      obtain ⟨⟨st, ing', queue, current, tip, handlers, signed⟩, base⟩ := v
      rcases current with _ | ⟨b, cs, ws⟩
      · rcases queue with _ | ⟨b, rest⟩
        · exact ih rfl
        · by_cases hacc : ing'.accepts b = true
          · simp [step, State.step, State.ingest, hacc] at hidle
          · simpa [step, State.step, State.ingest, hacc, State.finishing] using ih rfl
      · cases ws with
        | cons w ws => cases cs <;> cases hidle
        | nil =>
          cases cs with
          | cons c cs => cases hidle
          | nil => rfl

lemma settles_ask {v : Watch} {k : ℕ} (hk : v.state.handlers k = none)
    (hbase : v.state.store = v.base) (hzero : ∀ b ∈ v.state.coming, v.state.tip = 0 → b.height ≠ 0)
    (q : Query) :
    v.Settles (ask k q) := by
  -- the states on the way differ from the first in their handlers and signatures only
  have hset : ∀ (f : ℕ → Option Handler) (sg : List Statement) (h : Handler),
      (∀ r a, h = .answered r a → a = r.answer v.base) →
      Settled ⟨{ v.state with handlers := Function.update f k (some h), signed := sg }, v.base⟩
          (.advance k) := by
    intro f sg h hans r a hr
    exact ⟨hans r a (Option.some.inj ((Function.update_self k (some h) f).symm.trans hr)), hzero⟩
  have harrive : v.state.step (.arrive k q) =
      { v.state with handlers := Function.update v.state.handlers k (some (.start q)) } := by
    simp [State.step, hk]
  have hread := advance_update_read v.state v.state.handlers k (h := .start q) nofun
  unfold Settles ask
  simp only [Trace.guarded_cons_iff]
  refine ⟨trivial, ?_, ?_, ?_, Trace.guarded_nil _⟩
  all_goals simp only [step, harrive]
  · exact hset _ _ _ nofun
  all_goals simp only [State.step, hread]
  all_goals rcases Handler.read_start q v.state.store with h1 | ⟨⟨op, hmiss⟩, h2⟩
  · rw [h1]
    refine hset _ _ _ fun r a hr => ?_
    cases hr
    rw [hbase]
  · rw [hmiss]
    exact hset _ _ _ nofun
  · rw [h1, advance_update_sign]
    exact hset _ _ _ nofun
  · rw [hmiss] at h2 ⊢
    rw [advance_update_read v.state _ k (h := .missed op) nofun, h2]
    refine hset _ _ _ fun r a hr => ?_
    cases hr
    rw [hbase]

end Watch

def halfTx : Tx := ⟨.fill 32 7, [], []⟩

def halfBlock (h : UInt32) : Block := sealBlock h [[halfTx]]

/-- A server with a reorg horizon of six blocks. -/
def halfServer (h : UInt32) : State :=
  State.start (Ingest.fresh {} { reorgHorizon := 6 }).1 Mem.new [halfBlock h]

/-- The query before the block and after `n` steps of the loop. -/
def halfRun (n : ℕ) : List Event :=
  ask 0 (.seen halfTx.txID) ++ List.replicate n .ingest ++ ask 1 (.seen halfTx.txID)

/-- The query before the block and after it, which is ingested in ten steps. -/
theorem no_equivocation_whole :
    ((halfServer 1).run (halfRun 10)).signed =
        [(Query.seen halfTx.txID).statement { flag := false } 0,
          (Query.seen halfTx.txID).statement { flag := true } 1] ∧
      ((Query.seen halfTx.txID).statement { flag := false } 0).contradicts
        ((Query.seen halfTx.txID).statement { flag := true } 1) =
        false := by
  have hsigned : ((halfServer 1).run (halfRun 10)).signed =
      [(Query.seen halfTx.txID).statement { flag := false } 0,
          (Query.seen halfTx.txID).statement { flag := true } 1] := by
    rw [halfServer, halfBlock, sealBlock_singleton]
    decide +kernel
  have hs : (Watch.start (Ingest.fresh {} { reorgHorizon := 6 }).1 Mem.new [halfBlock 1]).Settles
      (halfRun 10) := by
    refine Trace.guarded_append_iff.mpr
      ⟨Trace.guarded_append_iff.mpr ⟨?_, Watch.settles_ingest _ 10⟩, Watch.settles_ask ?_ ?_ ?_ _⟩
    · refine Watch.settles_ask rfl rfl (fun b hb _ => ?_) _
      have hmem : b ∈ [halfBlock 1] := (List.mem_filter.mp hb).1
      rw [List.mem_singleton.mp hmem]
      exact (by decide : (1 : UInt32) ≠ 0)
    · change ((Watch.start _ _ _).run _).state.handlers 1 = none
      rw [Watch.run_state]
      exact handlers_eq_none rfl (by decide)
    · refine Watch.base_of_idle _ _ _ _ ?_
      rw [Watch.run_state]
      exact Option.isNone_iff_eq_none.mp (by decide)
    · change ∀ b ∈ _, ((Watch.start _ _ _).run _).state.tip = 0 → _
      rw [Watch.run_state]
      refine fun b _ h0 => absurd h0 ?_
      decide
  have h := (no_equivocation _ _ (List.pairwise_singleton _ _) hs).1
  change ∀ st ∈ ((halfServer 1).run (halfRun 10)).signed,
    ∀ st' ∈ ((halfServer 1).run (halfRun 10)).signed, _ at h
  rw [hsigned] at h
  exact ⟨hsigned, h _ List.mem_cons_self _ (List.mem_cons_of_mem _ List.mem_cons_self)⟩

/-- **A server that contradicts itself.** The loop takes the block and does its first four writes,
the last of which indexes the transaction; the tip is still zero. And even between blocks: the first
tip is that of a block of height zero. -/
theorem no_equivocation_half :
    ((halfServer 1).run (halfRun 9)).signed =
        [(Query.seen halfTx.txID).statement { flag := false } 0,
          (Query.seen halfTx.txID).statement { flag := true } 0] ∧
      ((halfServer 0).run (halfRun 10)).signed =
        [(Query.seen halfTx.txID).statement { flag := false } 0,
          (Query.seen halfTx.txID).statement { flag := true } 0] ∧
      ((Query.seen halfTx.txID).statement { flag := false } 0).contradicts
        ((Query.seen halfTx.txID).statement { flag := true } 0) =
        true := by
  refine ⟨?_, ?_, Query.contradicts_iff.mpr ⟨rfl, rfl, nofun⟩⟩
  · rw [halfServer, halfBlock, sealBlock_singleton]
    decide +kernel
  · rw [halfServer, halfBlock, sealBlock_singleton]
    decide +kernel

end MemServe.Server
