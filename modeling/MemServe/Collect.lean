import Mathlib.Data.List.Induction

/-!
Loops over a state that collect what their turns return.
-/

namespace MemServe

variable {ι α σ : Type}

/-- A loop that collects what its turns return. -/
def collect (f : ι → σ → α × σ) (l : List ι) (s : σ) : List α × σ :=
  match l with
  | [] => ([], s)
  | i :: l => ((f i s).1 :: (collect f l (f i s).2).1, (collect f l (f i s).2).2)

variable {f : ι → σ → α × σ}

@[simp] lemma collect_nil (s : σ) : collect f [] s = ([], s) := rfl

lemma collect_cons (i : ι) (l : List ι) (s : σ) :
    collect f (i :: l) s = ((f i s).1 :: (collect f l (f i s).2).1, (collect f l (f i s).2).2) :=
  rfl

lemma collect_append (l l' : List ι) (s : σ) :
    collect f (l ++ l') s =
      ((collect f l s).1 ++ (collect f l' (collect f l s).2).1,
        (collect f l' (collect f l s).2).2) := by
  induction l generalizing s with
  | nil => rfl
  | cons i l ih => simp only [List.cons_append, collect_cons, ih]

lemma collect_map {κ : Type} (g : κ → ι) (l : List κ) (s : σ) :
    collect f (l.map g) s = collect (fun k => f (g k)) l s := by
  induction l generalizing s with
  | nil => rfl
  | cons k l ih => simp only [List.map_cons, collect_cons, ih]

@[simp] lemma length_collect (l : List ι) (s : σ) : (collect f l s).1.length = l.length := by
  induction l generalizing s with
  | nil => rfl
  | cons i l ih => rw [collect_cons, List.length_cons, List.length_cons, ih]

lemma collect_collect {κ : Type} (g : κ → List ι) (l : List κ) (s : σ) :
    collect f (l.flatMap g) s =
      ((collect (fun k => collect f (g k)) l s).1.flatten,
        (collect (fun k => collect f (g k)) l s).2) := by
  induction l generalizing s with
  | nil => rfl
  | cons k l ih =>
    simp only [List.flatMap_cons, collect_append, collect_cons, ih, List.flatten_cons]

lemma forall_mem_collect {p : α → Prop} (h : ∀ i s, p (f i s).1) (l : List ι) (s : σ) :
    ∀ a ∈ (collect f l s).1, p a := by
  induction l generalizing s with
  | nil => simp
  | cons i l ih =>
    intro a ha
    rcases List.mem_cons.mp ha with rfl | ha
    · exact h i s
    · exact ih _ a ha

/-- **An invariant of a loop** over its turns and what they collected. -/
lemma collect_invariant {I : List ι → List α → σ → Prop}
    (hstep : ∀ i is as s, I is as s → I (is ++ [i]) (as ++ [(f i s).1]) (f i s).2) (l : List ι)
    {is : List ι} {as : List α} {s : σ} (h : I is as s) :
    I (is ++ l) (as ++ (collect f l s).1) (collect f l s).2 := by
  induction l generalizing is as s with
  | nil => simpa using h
  | cons i l ih =>
    have := ih (hstep i is as s h)
    rwa [List.append_assoc, List.append_assoc] at this

end MemServe
