import Mathlib.Data.Finset.Card
import Mathlib.Data.List.Induction
import Mathlib.Tactic.Tauto

/-!
Fallible stateful programs whose control flow does not depend on what their calls return.

Such a program issues the same list of calls from every state. `Issues` says which; a property
of the program is then a property of a fold over that list, and two interpretations of the
calls are compared call by call.
-/

namespace MemServe.Trace

variable {C σ τ ε α β : Type}

/-- A list of calls run in order. -/
def run (step : C → σ → σ) (cs : List C) (s : σ) : σ := cs.foldl (fun s c => step c s) s

section Run

variable (step : C → σ → σ)

@[simp] lemma run_nil (s : σ) : run step [] s = s := rfl
@[simp] lemma run_cons (c : C) (cs : List C) (s : σ) :
    run step (c :: cs) s = run step cs (step c s) := rfl
lemma run_append (cs ds : List C) (s : σ) :
    run step (cs ++ ds) s = run step ds (run step cs s) := List.foldl_append

lemma run_invariant {p : σ → Prop} {cs : List C} (hstep : ∀ c ∈ cs, ∀ s, p s → p (step c s)) {s : σ}
    (hs : p s) : p (run step cs s) := by
  induction cs generalizing s with
  | nil => exact hs
  | cons c cs ih =>
    exact ih (fun d hd => hstep d (List.mem_cons_of_mem c hd)) (hstep c List.mem_cons_self s hs)

lemma run_related {σ' : Type} {step' : C → σ' → σ'} {r : σ → σ' → Prop} {cs : List C}
    (hstep : ∀ c ∈ cs, ∀ s s', r s s' → r (step c s) (step' c s')) {s : σ} {s' : σ'} (h : r s s') :
    r (run step cs s) (run step' cs s') := by
  induction cs generalizing s s' with
  | nil => exact h
  | cons c cs ih =>
    exact ih (fun d hd => hstep d (List.mem_cons_of_mem c hd)) (hstep c List.mem_cons_self s s' h)

lemma run_flatMap {ι : Type} {f : ι → List C} {g : σ → ι → σ} (l : List ι)
    (h : ∀ i ∈ l, ∀ s, run step (f i) s = g s i) (s : σ) :
    run step (l.flatMap f) s = l.foldl g s := by
  induction l generalizing s with
  | nil => rfl
  | cons i l ih =>
    rw [List.flatMap_cons, run_append, h i List.mem_cons_self, List.foldl_cons]
    exact ih (fun j hj => h j (List.mem_cons_of_mem i hj)) _

end Run

section Guarded

variable {step : C → σ → σ} {guard : C → σ → Prop}

/-- Every call of the run is made in a state that allows it. -/
def Guarded (step : C → σ → σ) (guard : C → σ → Prop) (cs : List C) (s : σ) : Prop :=
  ∀ pre c post, cs = pre ++ c :: post → guard c (run step pre s)

lemma guarded_nil (s : σ) : Guarded step guard [] s := fun pre c post h => by simp at h

lemma guarded_cons_iff {c : C} {cs : List C} {s : σ} :
    Guarded step guard (c :: cs) s ↔ guard c s ∧ Guarded step guard cs (step c s) := by
  constructor
  · intro h
    refine ⟨h [] c cs rfl, fun pre d post hp => ?_⟩
    exact h (c :: pre) d post (by rw [hp, List.cons_append])
  · rintro ⟨hc, h⟩ pre d post hp
    cases pre with
    | nil =>
      cases hp
      exact hc
    | cons x pre =>
      cases hp
      exact h pre d post rfl

instance [∀ c s, Decidable (guard c s)] :
    (cs : List C) → (s : σ) → Decidable (Guarded step guard cs s)
  | [], s => isTrue (guarded_nil s)
  | c :: cs, s =>
    have := instDecidableGuarded cs (step c s)
    decidable_of_iff (guard c s ∧ Guarded step guard cs (step c s)) guarded_cons_iff.symm

lemma guarded_append_iff {cs ds : List C} {s : σ} :
    Guarded step guard (cs ++ ds) s ↔ Guarded step guard cs s ∧
      Guarded step guard ds (run step cs s) := by
  induction cs generalizing s with
  | nil => exact (and_iff_right (guarded_nil s)).symm
  | cons c cs ih =>
    rw [List.cons_append, guarded_cons_iff, ih, guarded_cons_iff, run_cons, and_assoc]

lemma Guarded.invariant {p : σ → Prop} {cs : List C} {s : σ} (h : Guarded step guard cs s)
    (hstep : ∀ c s, p s → guard c s → p (step c s)) (hs : p s) : p (run step cs s) := by
  induction cs generalizing s with
  | nil => exact hs
  | cons c cs ih =>
    obtain ⟨hc, hcs⟩ := guarded_cons_iff.mp h
    exact ih hcs (hstep c s hs hc)

/-- Where a call keeps `p` exactly if it is allowed, `p` holds all along a run exactly if every call
is. -/
lemma guarded_iff {p : σ → Prop} (hstep : ∀ c s, p s → (p (step c s) ↔ guard c s)) {cs : List C}
    {s : σ} (hs : p s) :
    Guarded step guard cs s ↔ ∀ pre post, cs = pre ++ post → p (run step pre s) := by
  induction cs generalizing s with
  | nil =>
    refine iff_of_true (guarded_nil s) fun pre post h => ?_
    rw [(List.append_eq_nil_iff.mp h.symm).1]
    exact hs
  | cons c cs ih =>
    rw [guarded_cons_iff]
    constructor
    · rintro ⟨hc, hcs⟩ pre post h
      have hc' := (hstep c s hs).mpr hc
      cases pre with
      | nil => exact hs
      | cons d pre =>
        cases h
        exact (ih hc').mp hcs pre post rfl
    · intro h
      have hc' : p (step c s) := h [c] cs rfl
      exact ⟨(hstep c s hs).mp hc', (ih hc').mpr fun pre post hp =>
        h (c :: pre) post (by rw [hp, List.cons_append])⟩

end Guarded

section Fair

variable {step : C → σ → σ} {f : ℕ → C} {rest : σ → ℕ}

/-- The state after the first `m` calls of an endless schedule. -/
def after (step : C → σ → σ) (f : ℕ → C) (s : σ) (m : ℕ) : σ := run step ((List.range m).map f) s

end Fair

/-! ### Runs that are repeated -/

section Repeated

variable {step : C → σ → σ} {cs : List C}

/-- What a call does is not changed by an earlier run of it, with one more call between them or
none. -/
structure Absorbs (step : C → σ → σ) (cs : List C) : Prop where
  idem : ∀ c ∈ cs, ∀ s, step c (step c s) = step c s
  absorb : ∀ c ∈ cs, ∀ d ∈ cs, ∀ s, step c (step d (step c s)) = step c (step d s)

lemma Absorbs.step_run (h : Absorbs step cs) {c : C} (hc : c ∈ cs) {ds : List C}
    (hds : ∀ d ∈ ds, d ∈ cs) (s : σ) :
    step c (run step ds (step c s)) = step c (run step ds s) := by
  induction ds using List.reverseRecOn with
  | nil => exact h.idem c hc s
  | append_singleton ds d ih =>
    have hd : d ∈ cs := hds d (by simp)
    have ih := ih fun e he => hds e (List.mem_append_left _ he)
    -- `c` once more before `d`, where it absorbs its first run
    simp only [run_append, run_cons, run_nil]
    rw [← h.absorb c hc d hd, ih, h.absorb c hc d hd]

lemma Absorbs.run_again (h : Absorbs step cs) {ds : List C} (hds : ∀ d ∈ ds, d ∈ cs) (s : σ) :
    run step cs (run step ds s) = run step cs s := by
  induction ds using List.reverseRecOn with
  | nil => rfl
  | append_singleton ds d ih =>
    have ih := ih fun e he => hds e (List.mem_append_left _ he)
    have hd : d ∈ cs := hds d (by simp)
    obtain ⟨pre, post, hcs⟩ := List.append_of_mem hd
    have hpre : ∀ c ∈ pre, c ∈ cs := fun c hc => hcs ▸ List.mem_append_left _ hc
    have hd_run : run step cs (step d (run step ds s)) = run step cs (run step ds s) := by
      rw [hcs, run_append, run_append, run_cons, run_cons, h.step_run hd hpre]
    rw [run_append, run_cons, run_nil, hd_run, ih]

/-- A run of absorbing calls may be repeated. -/
theorem Absorbs.run_run (h : Absorbs step cs) (s : σ) :
    run step cs (run step cs s) = run step cs s :=
  h.run_again (fun _ hc => hc) s

variable {K V : Type} [DecidableEq K]

/-- A call that changes the value of one key. -/
def modify (key : C → Option K) (f : C → V → V) (c : C) (m : K → V) : K → V :=
  match key c with
  | none => m
  | some k => Function.update m k (f c (m k))

lemma modify_apply (key : C → Option K) (f : C → V → V) (c : C) (m : K → V) (k : K) :
    modify key f c m k = if key c = some k then f c (m k) else m k := by
  unfold modify
  cases key c with
  | none => simp
  | some j =>
    by_cases hj : k = j
    · simp [hj]
    · simp [hj, Ne.symm hj]

lemma modify_absorbs {key : C → Option K} {f : C → V → V}
    (hidem : ∀ c ∈ cs, ∀ x, f c (f c x) = f c x)
    (habsorb : ∀ c ∈ cs, ∀ d ∈ cs, ∀ x, f c (f d (f c x)) = f c (f d x)) :
    Absorbs (modify key f) cs where
  idem c hc m := by
    funext k
    simp only [modify_apply]
    split_ifs
    · exact hidem c hc _
    · rfl
  absorb c hc d hd m := by
    funext k
    simp only [modify_apply]
    split_ifs
    · exact habsorb c hc d hd _
    · exact hidem c hc _
    · rfl
    · rfl

/-- A call that writes the value of one key. -/
def put (entry : C → Option (K × V)) (c : C) (m : K → Option V) : K → Option V :=
  match entry c with
  | none => m
  | some (k, v) => Function.update m k (some v)

lemma put_absorbs (entry : C → Option (K × V)) : Absorbs (put entry) cs := by
  have hput : put entry = modify (fun c => (entry c).map Prod.fst) fun c x =>
      ((entry c).map Prod.snd).or x := by
    funext c m
    unfold put modify
    dsimp only
    cases entry c <;> rfl
  rw [hput]
  refine modify_absorbs (fun c _ x => ?_) fun c _ d _ x => ?_
  · cases entry c <;> rfl
  · cases entry c <;> rfl

lemma run_settled {settled : C → σ → Prop} (hself : ∀ c ∈ cs, ∀ s, settled c (step c s))
    (hkeep : ∀ c ∈ cs, ∀ d ∈ cs, ∀ s, settled c s → settled c (step d s)) (s : σ) :
    ∀ c ∈ cs, settled c (run step cs s) := by
  intro c hc
  obtain ⟨pre, post, hcs⟩ := List.append_of_mem hc
  have hpost : ∀ d ∈ post, d ∈ cs := fun d hd => by simp [hcs, hd]
  rw [hcs, run_append, run_cons]
  exact run_invariant step (fun d hd s => hkeep c hc d (hpost d hd) s) (hself c hc _)

end Repeated

lemma foldl_overwrite {ι : Type} (p : ι → Bool) (v : ι → σ) (l : List ι) (s : σ) :
    l.foldl (fun s i => if p i then v i else s) s = ((l.reverse.find? p).map v).getD s := by
  induction l using List.reverseRecOn with
  | nil => rfl
  | append_singleton l i ih =>
    rw [List.foldl_append, ih, List.reverse_append, List.reverse_singleton, List.singleton_append,
      List.find?_cons]
    cases hp : p i <;> simp [hp]

/-- A loop that adds up what its turns count. -/
def tally {ι : Type} (f : σ → ι → ℕ × σ) (l : List ι) (r : ℕ × σ) : ℕ × σ :=
  l.foldl (fun r i => (r.1 + (f r.2 i).1, (f r.2 i).2)) r

@[simp] lemma tally_nil {ι : Type} (f : σ → ι → ℕ × σ) (r : ℕ × σ) : tally f [] r = r := rfl

lemma tally_cons {ι : Type} (f : σ → ι → ℕ × σ) (i : ι) (l : List ι) (r : ℕ × σ) :
    tally f (i :: l) r = tally f l (r.1 + (f r.2 i).1, (f r.2 i).2) := rfl

/-- A loop of deletions counts each key that was there once, however often it is listed. -/
lemma tally_deletes {K : Type} [DecidableEq K] {p : σ → K → Bool} {f : σ → K → ℕ × σ}
    (hcount : ∀ s k, (f s k).1 = if p s k then 1 else 0)
    (hdel : ∀ s k j, p (f s k).2 j = (p s j && decide (j ≠ k))) (l : List K) (n : ℕ) (s : σ) :
    (tally f l (n, s)).1 = n + (l.toFinset.filter fun k => p s k = true).card := by
  induction l generalizing n s with
  | nil => simp
  | cons k l ih =>
    have hrest : (l.toFinset.filter fun j => p (f s k).2 j = true) =
        (l.toFinset.filter fun j => p s j = true).erase k := by
      ext j
      simp only [hdel, Finset.mem_filter, Finset.mem_erase, Bool.and_eq_true, decide_eq_true_eq]
      tauto
    rw [tally_cons, ih, hcount, hrest, List.toFinset_cons, Finset.filter_insert]
    split_ifs with hk
    · have hins : insert k (l.toFinset.filter fun j => p s j = true) =
          insert k ((l.toFinset.filter fun j => p s j = true).erase k) := by
        ext j
        by_cases hj : j = k <;> simp [hj]
      rw [hins, Finset.card_insert_of_notMem (Finset.notMem_erase _ _)]
      omega
    · rw [Finset.erase_eq_of_notMem (by simp [hk])]
      omega

lemma run_bind_ok {m : ExceptT ε (StateM τ) α} {f : α → ExceptT ε (StateM τ) β} {t t' : τ} {a : α}
    (h : m.run.run t = (.ok a, t')) : (m >>= f).run.run t = (f a).run.run t' := by
  rw [ExceptT.run_bind, StateT.run_bind, h]
  rfl

lemma run_bind_error {m : ExceptT ε (StateM τ) α} {f : α → ExceptT ε (StateM τ) β} {t t' : τ}
    {e : ε}
    (h : m.run.run t = (.error e, t')) : (m >>= f).run.run t = (.error e, t') := by
  rw [ExceptT.run_bind, StateT.run_bind, h]
  rfl

/-- `m` never fails, and issues the calls `cs` on the part `π` of its state. -/
def Issues (step : C → σ → σ) (π : τ → σ) (m : ExceptT ε (StateM τ) α) (cs : List C) : Prop :=
  ∀ t, ∃ a t', m.run.run t = (.ok a, t') ∧ π t' = run step cs (π t)

namespace Issues

variable {step : C → σ → σ} {π : τ → σ}

lemma pure (a : α) : Issues step π (Pure.pure a : ExceptT ε (StateM τ) α) [] :=
  fun t => ⟨a, t, rfl, rfl⟩

lemma bind {m : ExceptT ε (StateM τ) α} {f : α → ExceptT ε (StateM τ) β} {cs ds : List C}
    (hm : Issues step π m cs) (hf : ∀ a, Issues step π (f a) ds) :
    Issues step π (m >>= f) (cs ++ ds) := by
  intro t
  obtain ⟨a, t1, h1, hπ1⟩ := hm t
  obtain ⟨b, t2, h2, hπ2⟩ := hf a t1
  refine ⟨b, t2, ?_, ?_⟩
  · rw [run_bind_ok h1, h2]
  · rw [hπ2, hπ1, run_append]

end Issues

/-- What becomes of a list of calls some of which fail: the calls made, the error of the first that
failed, and the faults not reached. -/
structure Course (C ε : Type) where
  made : List C
  error : Option ε
  left : List (Option ε)

/-- The faults say of each call to come whether it fails; past their end none does. -/
def course : List C → List (Option ε) → Course C ε
  | [], fs => ⟨[], none, fs⟩
  | c :: cs, [] => ⟨c :: cs, none, []⟩
  | _ :: _, some e :: fs => ⟨[], some e, fs⟩
  | c :: cs, none :: fs => { course cs fs with made := c :: (course cs fs).made }

section Course

variable {cs ds : List C} {fs : List (Option ε)}

@[simp] lemma course_nil (fs : List (Option ε)) : course ([] : List C) fs = ⟨[], none, fs⟩ := rfl

@[simp] lemma course_faultless (cs : List C) :
    course cs ([] : List (Option ε)) = ⟨cs, none, []⟩ := by
  cases cs <;> rfl

lemma course_error_eq_none_iff :
    (course cs fs).error = none ↔ ∀ f ∈ fs.take cs.length, f = none := by
  induction cs generalizing fs with
  | nil => simp
  | cons c cs ih =>
    rcases fs with - | ⟨- | e, fs⟩
    · simp
    · simpa [course] using ih
    · simp [course]

lemma course_of_error_eq_none (h : (course cs fs).error = none) :
    course cs fs = ⟨cs, none, fs.drop cs.length⟩ := by
  induction cs generalizing fs with
  | nil => rfl
  | cons c cs ih =>
    rcases fs with - | ⟨- | e, fs⟩
    · rfl
    · rw [course, ih h]
      rfl
    · cases h

lemma course_append_of_none (h : (course cs fs).error = none) :
    course (cs ++ ds) fs =
      { course ds (course cs fs).left with
        made := cs ++ (course ds (course cs fs).left).made } := by
  induction cs generalizing fs with
  | nil => rfl
  | cons c cs ih =>
    rcases fs with - | ⟨- | e, fs⟩
    · simp
    · rw [List.cons_append, course, ih h]
      rfl
    · cases h

lemma course_append_of_some {e : ε} (h : (course cs fs).error = some e) :
    course (cs ++ ds) fs = course cs fs := by
  induction cs generalizing fs with
  | nil => cases h
  | cons c cs ih =>
    rcases fs with - | ⟨- | e, fs⟩
    · cases h
    · rw [List.cons_append, course, ih h]
      rfl
    · rfl

lemma course_replicate {j : ℕ} (hj : j < cs.length) (e : ε) (fs : List (Option ε)) :
    course cs (List.replicate j none ++ some e :: fs) = ⟨cs.take j, some e, fs⟩ := by
  induction cs generalizing j with
  | nil => exact absurd hj (Nat.not_lt_zero j)
  | cons c cs ih =>
    cases j with
    | zero => rfl
    | succ j =>
      rw [List.replicate_succ, List.cons_append, course, ih (Nat.lt_of_succ_lt_succ hj)]
      rfl

end Course

/-- `m` ran from `t` and issued `cs` up to the first fault, whose error it returned. -/
structure Stop (step : C → σ → σ) (π : τ → σ) (faults : τ → List (Option ε)) (cs : List C) (t : τ)
    (r : Except ε α × τ) : Prop where
  state : π r.2 = run step (course cs (faults t)).made (π t)
  left : faults r.2 = (course cs (faults t)).left
  ok : (course cs (faults t)).error = none → ∃ a, r.1 = .ok a
  error : ∀ e, (course cs (faults t)).error = some e → r.1 = .error e

/-- `m` issues the calls `cs`, and stops at the first that fails. -/
def Stops (step : C → σ → σ) (π : τ → σ) (faults : τ → List (Option ε))
    (m : ExceptT ε (StateM τ) α) (cs : List C) : Prop :=
  ∀ t, Stop step π faults cs t (m.run.run t)

namespace Stops

variable {step : C → σ → σ} {π : τ → σ} {faults : τ → List (Option ε)}

lemma pure (a : α) : Stops step π faults (Pure.pure a : ExceptT ε (StateM τ) α) [] :=
  fun _ => ⟨rfl, rfl, fun _ => ⟨a, rfl⟩, fun _ h => by cases h⟩

lemma bind {m : ExceptT ε (StateM τ) α} {f : α → ExceptT ε (StateM τ) β} {cs ds : List C}
    (hm : Stops step π faults m cs) (hf : ∀ a, Stops step π faults (f a) ds) :
    Stops step π faults (m >>= f) (cs ++ ds) := by
  intro t
  have h1 := hm t
  cases he : (course cs (faults t)).error with
  | some e =>
    -- the first part fails, and the second is not run
    have hrun : (m >>= f).run.run t = (.error e, (m.run.run t).2) :=
      run_bind_error (Prod.ext (h1.error e he) rfl)
    rw [hrun]
    refine ⟨?_, ?_, fun h => ?_, fun e' h => ?_⟩
    · rw [course_append_of_some he]
      exact h1.state
    · rw [course_append_of_some he]
      exact h1.left
    · rw [course_append_of_some he, he] at h
      cases h
    · rw [course_append_of_some he, he] at h
      cases h
      rfl
  | none =>
    obtain ⟨a, ha⟩ := h1.ok he
    have h2 := hf a (m.run.run t).2
    have hrun : (m >>= f).run.run t = (f a).run.run (m.run.run t).2 :=
      run_bind_ok (Prod.ext ha rfl)
    have hall : π (m.run.run t).2 = run step cs (π t) := by
      rw [h1.state, course_of_error_eq_none he]
    have happ : course (cs ++ ds) (faults t) =
        { course ds (faults (m.run.run t).2) with
          made := cs ++ (course ds (faults (m.run.run t).2)).made } := by
      rw [h1.left]
      exact course_append_of_none he
    rw [hrun]
    refine ⟨?_, ?_, fun h => h2.ok ?_, fun e h => h2.error e ?_⟩
    · rw [happ, h2.state, hall, run_append]
    · rw [happ, h2.left]
    · rwa [happ] at h
    · rwa [happ] at h

end Stops

/-- A way to say which calls a program issues that goes along with its control flow. -/
structure Tracing (P : (α : Type) → ExceptT ε (StateM τ) α → List C → Prop) : Prop where
  pure : ∀ {α : Type} (a : α), P α (Pure.pure a) []
  bind : ∀ {α β : Type} {m : ExceptT ε (StateM τ) α} {f : α → ExceptT ε (StateM τ) β}
    {cs ds : List C},
    P α m cs → (∀ a, P β (f a) ds) → P β (m >>= f) (cs ++ ds)

lemma Issues.tracing {step : C → σ → σ} {π : τ → σ} :
    Tracing (ε := ε) fun _ m cs => Issues step π m cs :=
  ⟨Issues.pure, Issues.bind⟩

lemma Stops.tracing {step : C → σ → σ} {π : τ → σ} {faults : τ → List (Option ε)} :
    Tracing fun _ m cs => Stops step π faults m cs :=
  ⟨Stops.pure, Stops.bind⟩

namespace Tracing

variable {P : (α : Type) → ExceptT ε (StateM τ) α → List C → Prop} (T : Tracing P)

include T

lemma bind_silent {m : ExceptT ε (StateM τ) α} {f : α → ExceptT ε (StateM τ) β} {cs : List C}
    (hm : P α m cs) (hf : ∀ a, P β (f a) []) : P β (m >>= f) cs := by
  have h := T.bind hm hf
  rwa [List.append_nil] at h

lemma bind_silent_left {m : ExceptT ε (StateM τ) α} {f : α → ExceptT ε (StateM τ) β} {cs : List C}
    (hm : P α m []) (hf : ∀ a, P β (f a) cs) : P β (m >>= f) cs := T.bind hm hf

lemma forM {ι : Type} {f : ι → ExceptT ε (StateM τ) PUnit} {g : ι → List C} (l : List ι)
    (hf : ∀ i ∈ l, P _ (f i) (g i)) : P _ (l.forM f) (l.flatMap g) := by
  induction l with
  | nil => exact T.pure PUnit.unit
  | cons i l ih =>
    exact T.bind (hf i List.mem_cons_self) fun _ => ih fun j hj => hf j (List.mem_cons_of_mem i hj)

lemma forM_map {ι : Type} {f : ι → ExceptT ε (StateM τ) PUnit} {g : ι → C} (l : List ι)
    (hf : ∀ i ∈ l, P _ (f i) [g i]) : P _ (l.forM f) (l.map g) := by
  have h := T.forM l hf
  rwa [← List.map_eq_flatMap] at h

omit T in
lemma ite {p : Prop} [Decidable p] {m m' : ExceptT ε (StateM τ) α} {cs ds : List C}
    (h : p → P α m cs) (h' : ¬p → P α m' ds) :
    P α (if p then m else m') (if p then cs else ds) := by
  by_cases hp : p
  · rw [if_pos hp, if_pos hp]; exact h hp
  · rw [if_neg hp, if_neg hp]; exact h' hp

end Tracing

end MemServe.Trace
