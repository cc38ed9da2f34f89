import Mathlib.Data.List.Forall2
import Mathlib.Data.Set.Function
import Mathlib.Data.Set.Prod

/-!
Self-delimiting codes.

A code is self-delimiting on a set if an encoding followed by anything tells where it ends and
what it encodes. Such codes can be put one after the other, repeated, and used to announce the
length of a string, and the result is one again. A list of values that are decoded one by one is
decoded if each of them is.
-/

namespace MemServe

variable {α β γ : Type}

/-- What stands first in a string, and the rest of it, are read off the string. -/
def SelfDelimiting (f : α → List β) (s : Set α) : Prop :=
  ∀ a ∈ s, ∀ b ∈ s, ∀ x y, f a ++ x = f b ++ y → a = b ∧ x = y

namespace SelfDelimiting

variable {f : α → List β} {g : γ → List β} {s : Set α} {t : Set γ}

lemma of_length {n : ℕ} (hlen : ∀ a ∈ s, (f a).length = n) (hinj : Set.InjOn f s) :
    SelfDelimiting f s := by
  intro a ha b hb x y h
  obtain ⟨h1, h2⟩ := List.append_inj h ((hlen a ha).trans (hlen b hb).symm)
  exact ⟨hinj ha hb h1, h2⟩

lemma mono {s' : Set α} (hf : SelfDelimiting f s) (h : s' ⊆ s) : SelfDelimiting f s' :=
  fun a ha b hb => hf a (h ha) b (h hb)

lemma eq_of_isPrefix (hf : SelfDelimiting f s) {a b : α} (ha : a ∈ s) (hb : b ∈ s)
    (h : f a <+: f b) : a = b := by
  obtain ⟨x, hx⟩ := h
  exact (hf a ha b hb x [] (by rw [hx, List.append_nil])).1

lemma comp {k : γ → α} (hf : SelfDelimiting f s) (hk : Set.InjOn k t) (hmaps : Set.MapsTo k t s) :
    SelfDelimiting (fun c => f (k c)) t := by
  intro a ha b hb x y h
  obtain ⟨h1, h2⟩ := hf _ (hmaps ha) _ (hmaps hb) x y h
  exact ⟨hk ha hb h1, h2⟩

lemma append (hf : SelfDelimiting f s) (hg : SelfDelimiting g t) :
    SelfDelimiting (fun p : α × γ => f p.1 ++ g p.2) (s ×ˢ t) := by
  rintro ⟨a, c⟩ ⟨ha, hc⟩ ⟨b, d⟩ ⟨hb, hd⟩ x y h
  simp only [List.append_assoc] at h
  obtain ⟨h1, h2⟩ := hf a ha b hb _ _ h
  obtain ⟨h3, h4⟩ := hg c hc d hd x y h2
  exact ⟨Prod.ext h1 h3, h4⟩

lemma flatMap (hf : SelfDelimiting f s) (hne : ∀ a ∈ s, f a ≠ []) :
    Set.InjOn (fun l : List α => l.flatMap f) {l | ∀ a ∈ l, a ∈ s} := by
  intro l hl
  induction l with
  | nil =>
    intro m hm h
    cases m with
    | nil => rfl
    | cons b m =>
      have hb : f b = [] := (List.append_eq_nil_iff.mp h.symm).1
      exact absurd hb (hne b (hm b List.mem_cons_self))
  | cons a l ih =>
    intro m hm h
    cases m with
    | nil =>
      have ha : f a = [] := (List.append_eq_nil_iff.mp h).1
      exact absurd ha (hne a (hl a List.mem_cons_self))
    | cons b m =>
      obtain ⟨h1, h2⟩ := hf a (hl a List.mem_cons_self) b (hm b List.mem_cons_self) _ _ h
      have hrest :=
        ih (fun c hc => hl c (List.mem_cons_of_mem a hc))
        (fun c hc => hm c (List.mem_cons_of_mem b hc)) h2
      rw [h1, hrest]

lemma counted {len : ℕ → List β} {n : Set ℕ} (hlen : SelfDelimiting len n)
    (hf : SelfDelimiting f s) :
    SelfDelimiting (fun l : List α => len l.length ++ l.flatMap f)
      {l | l.length ∈ n ∧ ∀ a ∈ l, a ∈ s} := by
  -- the lists are of one length, so they end together
  have hitems : ∀ (l m : List α), l.length = m.length → (∀ a ∈ l, a ∈ s) → (∀ a ∈ m, a ∈ s) →
      ∀ x y, l.flatMap f ++ x = m.flatMap f ++ y → l = m ∧ x = y := by
    intro l
    induction l with
    | nil =>
      intro m heq _ _ x y h
      obtain rfl := List.length_eq_zero_iff.mp heq.symm
      exact ⟨rfl, h⟩
    | cons a l ih =>
      intro m heq hl hm x y h
      cases m with
      | nil => cases heq
      | cons b m =>
        simp only [List.flatMap_cons, List.append_assoc] at h
        obtain ⟨rfl, hrest⟩ := hf a (hl a List.mem_cons_self) b (hm b List.mem_cons_self) _ _ h
        obtain ⟨rfl, hxy⟩ := ih m (Nat.succ.inj heq) (fun c hc => hl c (List.mem_cons_of_mem a hc))
          (fun c hc => hm c (List.mem_cons_of_mem a hc)) x y hrest
        exact ⟨rfl, hxy⟩
  rintro l ⟨hln, hl⟩ m ⟨hmn, hm⟩ x y h
  simp only [List.append_assoc] at h
  obtain ⟨hcount, hrest⟩ := hlen _ hln _ hmn _ _ h
  exact hitems l m hcount hl hm x y hrest

lemma withLength {len : ℕ → List β} {n : Set ℕ} (hlen : SelfDelimiting len n) :
    SelfDelimiting (fun l : List β => len l.length ++ l) {l | l.length ∈ n} := by
  intro a ha b hb x y h
  simp only [List.append_assoc] at h
  obtain ⟨h1, h2⟩ := hlen _ ha _ hb _ _ h
  exact List.append_inj h2 h1

end SelfDelimiting

/-! ### Lists decoded one by one -/

section Decode

variable {f : α → Option β} {l : List α}

lemma mapM_eq_some_iff {m : List β} :
    l.mapM f = some m ↔ List.Forall₂ (fun b a => f a = some b) m l := by
  induction l generalizing m with
  | nil => simp [eq_comm]
  | cons a l ih =>
    simp only [List.mapM_cons, Option.bind_eq_bind, Option.bind_eq_some_iff,
      List.forall₂_cons_right_iff, ih]
    simp [eq_comm]

lemma exists_mapM_eq_some_iff : (∃ m, l.mapM f = some m) ↔ ∀ a ∈ l, ∃ b, f a = some b := by
  induction l with
  | nil => simp
  | cons a l ih =>
    rw [List.forall_mem_cons, ← ih]
    simp [List.mapM_cons, Option.bind_eq_some_iff]

lemma map_of_mapM_eq_some {g : β → γ} {k : α → γ} (hg : ∀ a b, f a = some b → g b = k a)
    {m : List β}
    (h : l.mapM f = some m) : m.map g = l.map k := by
  rw [← List.forall₂_eq_eq_eq, List.forall₂_map_left_iff, List.forall₂_map_right_iff]
  exact (mapM_eq_some_iff.mp h).imp fun b a => hg a b

end Decode

end MemServe
