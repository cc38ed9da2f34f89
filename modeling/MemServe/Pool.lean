import MemServe.Trace

/-!
Threads over a shared state.

A thread is where one caller stands; moving it is one critical section, which reads and writes the
shared state. A run is a list of events in any order: a caller arrives, or a caller that is there
moves. What holds after every run holds under every interleaving.
-/

namespace MemServe

/-- A shared state and the threads that have arrived, in the order of their arrival. -/
structure Pool (σ θ : Type) where
  shared : σ
  threads : List θ

namespace Pool

/-- A caller arrives with a request, or the caller of a number moves. -/
inductive Event (ρ : Type)
  | arrive (r : ρ)
  | move (i : ℕ)

variable {σ θ ρ : Type}

/-- How callers start and what one move of them does. -/
structure Program (σ θ ρ : Type) where
  start : ρ → θ
  next : θ → σ → θ × σ

/-- The threads that satisfy `p`. -/
def count (p : θ → Bool) (s : Pool σ θ) : ℕ := s.threads.countP p

variable (prog : Program σ θ ρ)

def step (e : Event ρ) (s : Pool σ θ) : Pool σ θ :=
  match e with
  | .arrive r => { s with threads := s.threads ++ [prog.start r] }
  | .move i =>
    match s.threads[i]? with
    | none => s
    | some t => ⟨(prog.next t s.shared).2, s.threads.set i (prog.next t s.shared).1⟩

def run (es : List (Event ρ)) (s : Pool σ θ) : Pool σ θ := Trace.run (step prog) es s

@[simp] lemma run_nil (s : Pool σ θ) : s.run prog [] = s := rfl
@[simp] lemma run_cons (e : Event ρ) (es : List (Event ρ)) (s : Pool σ θ) :
    s.run prog (e :: es) = (s.step prog e).run prog es := rfl
lemma run_append (es es' : List (Event ρ)) (s : Pool σ θ) :
    s.run prog (es ++ es') = (s.run prog es).run prog es' :=
  Trace.run_append _ _ _ _

lemma run_concat (es : List (Event ρ)) (e : Event ρ) (s : Pool σ θ) :
    s.run prog (es ++ [e]) = (s.run prog es).step prog e := run_append prog _ _ _

variable {prog}

lemma step_move {s : Pool σ θ} {i : ℕ} {t : θ} (h : s.threads[i]? = some t) :
    s.step prog (.move i) =
      ⟨(prog.next t s.shared).2, s.threads.set i (prog.next t s.shared).1⟩ := by
  simp only [step, h]

/-- **What an event does**: a caller arrives, a caller moves, or there is no caller to move. -/
lemma step_cases (e : Event ρ) (s : Pool σ θ) :
    (∃ r, e = .arrive r ∧ s.step prog e = { s with threads := s.threads ++ [prog.start r] }) ∨
    (∃ i t, e = .move i ∧ s.threads[i]? = some t ∧
      s.step prog e = ⟨(prog.next t s.shared).2, s.threads.set i (prog.next t s.shared).1⟩) ∨
    s.step prog e = s := by
  cases e with
  | arrive r => exact .inl ⟨r, rfl, rfl⟩
  | move i =>
    cases h : s.threads[i]? with
    | none => exact .inr (.inr (by simp only [step, h]))
    | some t => exact .inr (.inl ⟨i, t, rfl, h, step_move h⟩)

lemma toNat_eq_ite (b : Bool) : b.toNat = if b = true then 1 else 0 := by
  cases b <;> rfl

lemma count_arrive (p : θ → Bool) (s : Pool σ θ) (t : θ) :
    count p { s with threads := s.threads ++ [t] } = s.count p + (p t).toNat := by
  rw [count, count, List.countP_append, List.countP_singleton, toNat_eq_ite]

lemma count_move (p : θ → Bool) {s : Pool σ θ} {i : ℕ} {t : θ} (h : s.threads[i]? = some t) (t' : θ)
    (shared : σ) :
    count p ⟨shared, s.threads.set i t'⟩ + (p t).toNat = s.count p + (p t').toNat := by
  obtain ⟨hi, rfl⟩ := List.getElem?_eq_some_iff.mp h
  have hpos : p s.threads[i] = true → 0 < s.threads.countP p := fun hp =>
    List.countP_pos_iff.mpr ⟨_, List.getElem_mem hi, hp⟩
  simp only [count, List.countP_set hi]
  cases hp : p s.threads[i] <;> cases hp' : p t' <;> simp
  · have := hpos hp
    omega
  · have := hpos hp
    omega

/-! ### Invariants -/

/-- What holds of every thread that has arrived, beside the shared state: an arrival has it, the
thread that moves gets it again, and the others keep it under the move. -/
structure Program.Keeps (prog : Program σ θ ρ) (I : σ → Prop) (J : σ → θ → Prop) : Prop where
  start : ∀ s r, I s → J s (prog.start r)
  next : ∀ s t, I s → J s t → I (prog.next t s).2 ∧ J (prog.next t s).2 (prog.next t s).1
  others : ∀ s t u, I s → J s t → J s u → J (prog.next t s).2 u

lemma Program.Keeps.step {I : σ → Prop} {J : σ → θ → Prop} (h : prog.Keeps I J) (e : Event ρ)
    {s : Pool σ θ} (hs : I s.shared ∧ ∀ t ∈ s.threads, J s.shared t) :
    I (s.step prog e).shared ∧ ∀ t ∈ (s.step prog e).threads, J (s.step prog e).shared t := by
  obtain ⟨hI, hJ⟩ := hs
  rcases step_cases e s with ⟨r, -, heq⟩ | ⟨i, t, -, hi, heq⟩ | heq
  · rw [heq]
    refine ⟨hI, fun t ht => ?_⟩
    rcases List.mem_append.mp ht with ht | ht
    · exact hJ t ht
    · rw [List.mem_singleton.mp ht]
      exact h.start _ _ hI
  · have ht := hJ t (List.mem_of_getElem? hi)
    rw [heq]
    refine ⟨(h.next _ _ hI ht).1, fun u hu => ?_⟩
    rcases List.mem_or_eq_of_mem_set hu with hu | rfl
    · exact h.others _ _ _ hI ht (hJ u hu)
    · exact (h.next _ _ hI ht).2
  · rw [heq]
    exact ⟨hI, hJ⟩

lemma Program.Keeps.run {I : σ → Prop} {J : σ → θ → Prop} (h : prog.Keeps I J) (es : List (Event ρ))
    {s : Pool σ θ} (hs : I s.shared ∧ ∀ t ∈ s.threads, J s.shared t) :
    I (s.run prog es).shared ∧ ∀ t ∈ (s.run prog es).threads, J (s.run prog es).shared t := by
  induction es generalizing s with
  | nil => exact hs
  | cons e es ih => exact ih (h.step e hs)

end Pool

end MemServe
