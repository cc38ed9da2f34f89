import MemServe.Trace

/-!
A loop over the numbers below `n`, cut into chunks that run on threads of their own.

One thread cuts the chunks off and starts a worker for each; a worker runs the body of the loop at
the numbers of its chunk, one after the other. A run is a list of events in any order. Whatever the
order, the body has run once at every number when all have come to their end, and they come to it if
none is passed over forever.
-/

namespace MemServe.Fan

/-- A worker about to run the body at `i`, up to `hi`. -/
structure Worker where
  i : ℕ
  hi : ℕ
  deriving DecidableEq

/-- The next chunk is cut off, or the worker of a number runs the body once. -/
inductive Event
  | spawn
  | move (k : ℕ)
  deriving DecidableEq

/-- Where the next chunk starts, the workers, what they share (`none` once a body has failed), and
who ran the body at which number. -/
structure State (σ : Type) where
  start : ℕ
  workers : List Worker
  shared : Option σ
  log : List (ℕ × ℕ)

variable {σ : Type}

def init (x : σ) : State σ := ⟨0, [], some x, []⟩

variable (body : σ → ℕ → Option σ) (n chunk : ℕ)

def step (e : Event) (s : State σ) : State σ :=
  match e with
  | .spawn =>
    if s.start < n then
      { s with
        start := s.start + chunk, workers := s.workers ++ [⟨s.start, min (s.start + chunk) n⟩] }
    else s
  | .move k =>
    match s.workers[k]? with
    | none => s
    | some w =>
      if w.i < w.hi then
        { s with
          workers := s.workers.set k ⟨w.i + 1, w.hi⟩
          shared := s.shared.bind (body · w.i)
          log := s.log ++ [(k, w.i)] }
      else s

def run (es : List Event) (s : State σ) : State σ := Trace.run (step body n chunk) es s

/-- No chunk is left to cut off and no worker has a number left. -/
def Finished (s : State σ) : Prop := n ≤ s.start ∧ ∀ w ∈ s.workers, w.hi ≤ w.i

instance (s : State σ) : Decidable (Finished n s) := inferInstanceAs (Decidable (_ ∧ _))

variable {body n chunk}

/-- **What an event does**: a chunk is cut off, a worker runs the body once, or nothing. -/
lemma step_cases (e : Event) (s : State σ) :
    (e = .spawn ∧ s.start < n ∧ step body n chunk e s =
      { s with
        start := s.start + chunk, workers := s.workers ++ [⟨s.start, min (s.start + chunk) n⟩] }) ∨
    (∃ k w, e = .move k ∧ s.workers[k]? = some w ∧ w.i < w.hi ∧ step body n chunk e s =
      { s with
        workers := s.workers.set k ⟨w.i + 1, w.hi⟩
        shared := s.shared.bind (body · w.i)
        log := s.log ++ [(k, w.i)] }) ∨
    step body n chunk e s = s := by
  cases e with
  | spawn =>
    by_cases h : s.start < n
    · exact .inl ⟨rfl, h, if_pos h⟩
    · exact .inr (.inr (if_neg h))
  | move k =>
    cases hk : s.workers[k]? with
    | none => exact .inr (.inr (by simp only [step, hk]))
    | some w =>
      by_cases h : w.i < w.hi
      · exact .inr (.inl ⟨k, w, rfl, hk, h, by simp only [step, hk, if_pos h]⟩)
      · exact .inr (.inr (by simp only [step, hk, if_neg h]))

def Worker.left (w : Worker) : List ℕ := List.range' w.i (w.hi - w.i)

variable (n) in
/-- The numbers left to the workers, and those of the chunks not cut off. -/
def State.left (s : State σ) : List ℕ :=
  s.workers.flatMap Worker.left ++ List.range' s.start (n - s.start)

lemma left_spawn {s : State σ} (h : s.start < n) :
    State.left n { s with
      start := s.start + chunk, workers := s.workers ++ [⟨s.start, min (s.start + chunk) n⟩] } =
        s.left n := by
  have hcut : Worker.left ⟨s.start, min (s.start + chunk) n⟩ ++
      List.range' (s.start + chunk) (n - (s.start + chunk)) =
      List.range' s.start (n - s.start) := by
    rcases Nat.le_total (s.start + chunk) n with hle | hle
    · rw [Worker.left, Nat.min_eq_left hle, Nat.add_sub_cancel_left, List.range'_append_1]
      congr 1
      omega
    · rw [Worker.left, Nat.min_eq_right hle, Nat.sub_eq_zero_of_le hle, List.range'_zero,
        List.append_nil]
  simp only [State.left, List.flatMap_append, List.flatMap_singleton, List.append_assoc, hcut]

lemma perm_flatMap_set {α β : Type} {f : α → List β} {l : List α} {k : ℕ} {a a' : α} {b : β}
    (hk : l[k]? = some a)
    (hf : f a = b :: f a') : (l.flatMap f).Perm (b :: (l.set k a').flatMap f) := by
  induction l generalizing k with
  | nil => cases hk
  | cons c l ih =>
    cases k with
    | zero =>
      cases hk
      rw [List.set_cons_zero, List.flatMap_cons, List.flatMap_cons, hf]
      rfl
    | succ k =>
      rw [List.set_cons_succ, List.flatMap_cons, List.flatMap_cons]
      exact ((ih hk).append_left _).trans List.perm_middle

lemma left_move {s : State σ} {k : ℕ} {w : Worker} (hk : s.workers[k]? = some w) (hw : w.i < w.hi)
    (x : Option σ) (log : List (ℕ × ℕ)) :
    (s.left n).Perm
      (w.i :: State.left n
        { s with workers := s.workers.set k ⟨w.i + 1, w.hi⟩, shared := x, log := log }) := by
  have hcons : w.left = w.i :: Worker.left ⟨w.i + 1, w.hi⟩ := by
    rw [Worker.left, Worker.left, show w.hi - w.i = w.hi - (w.i + 1) + 1 by omega, List.range'_succ]
  exact (perm_flatMap_set hk hcons).append_right _

/-! ### Runs -/

variable (body n) in
/-- What every run from `x` keeps. -/
structure Inv (x : σ) (s : State σ) : Prop where
  /-- The numbers the body has run at and those that are left are the numbers below `n`. -/
  tiles : (s.log.map Prod.snd ++ s.left n).Perm (List.range n)
  shared : s.shared = (s.log.map Prod.snd).foldlM body x
  workers_le : s.workers.length ≤ s.start
  workers_le_n : s.workers.length ≤ n

lemma Inv.init (x : σ) : Inv body n x (init x) where
  tiles := by
    rw [State.left, List.range_eq_range']
    exact .refl _
  shared := rfl
  workers_le := le_rfl
  workers_le_n := Nat.zero_le n

lemma Inv.step {x : σ} {s : State σ} (hchunk : 0 < chunk) (h : Inv body n x s) (e : Event) :
    Inv body n x (step body n chunk e s) := by
  have hworkers := h.workers_le
  rcases step_cases e s with ⟨-, hstart, heq⟩ | ⟨k, w, -, hk, hw, heq⟩ | heq
  · rw [heq]
    refine ⟨?_, h.shared, ?_, ?_⟩
    · rw [left_spawn hstart]
      exact h.tiles
    · simp only [List.length_append, List.length_singleton]
      omega
    · simp only [List.length_append, List.length_singleton]
      omega
  · rw [heq]
    refine ⟨?_, ?_, ?_, ?_⟩
    · rw [List.map_append, List.append_assoc]
      exact ((left_move hk hw _ _).append_left _).symm.trans h.tiles
    · rw [h.shared, List.map_append, List.foldlM_append]
      simp
    · rw [List.length_set]
      exact hworkers
    · rw [List.length_set]
      exact h.workers_le_n
  · rw [heq]
    exact h

lemma Inv.run {x : σ} {s : State σ} (hchunk : 0 < chunk) (h : Inv body n x s) (es : List Event) :
    Inv body n x (run body n chunk es s) :=
  Trace.run_invariant _ (fun e _ _ hs => hs.step hchunk e) h

variable (n) in
/-- What is left to be done. -/
def State.rest (s : State σ) : ℕ := (n - s.start) + (s.left n).length

lemma run_append (es fs : List Event) (s : State σ) :
    run body n chunk (es ++ fs) s = run body n chunk fs (run body n chunk es s) :=
  Trace.run_append _ _ _ _

end MemServe.Fan
