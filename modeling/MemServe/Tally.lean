import Mathlib.Data.Set.Card

/-!
Counting the entries of a partial map.

A partial map with finitely many entries is changed by writing one key, which trades one entry
for another, or by a filter, which splits the entries in two. A count of the entries that satisfy
a predicate follows every such change.
-/

namespace MemServe.Tally

variable {K V : Type} {m : K → Option V} {p q : V → Bool}

/-- The keys of the entries that satisfy `p`. -/
def keysWhere (m : K → Option V) (p : V → Bool) : Set K := {k | (m k).any p = true}

/-- The number of entries that satisfy `p`. -/
noncomputable def tally (m : K → Option V) (p : V → Bool) : ℕ := (keysWhere m p).ncard

/-- Finitely many keys have an entry. -/
def Finite (m : K → Option V) : Prop := {k | m k ≠ none}.Finite

lemma mem_keysWhere {k : K} : k ∈ keysWhere m p ↔ ∃ v, m k = some v ∧ p v = true := by
  rw [keysWhere, Set.mem_ofPred_eq, Option.any_eq_true]

lemma Finite.keysWhere (hm : Finite m) (p : V → Bool) : (Tally.keysWhere m p).Finite := by
  refine Set.Finite.subset hm fun k hk => ?_
  obtain ⟨v, hv, -⟩ := mem_keysWhere.mp hk
  rw [Set.mem_ofPred_eq, hv]
  simp

lemma tally_of_encard {n : ℕ} (h : (Tally.keysWhere m p).encard = n) : tally m p = n := by
  rw [tally, Set.ncard, h, ENat.toNat_natCast]

lemma finite_of_encard {n : ℕ} (h : (Tally.keysWhere m fun _ => true).encard = n) : Finite m := by
  refine Set.Finite.subset (Set.finite_of_encard_eq_coe h) fun k hk => ?_
  obtain ⟨v, hv⟩ := Option.ne_none_iff_exists'.mp hk
  exact mem_keysWhere.mpr ⟨v, hv, rfl⟩

lemma finite_of_encard_split {q : V → Bool} {a b : ℕ} (ha : (Tally.keysWhere m q).encard = a)
    (hb : (Tally.keysWhere m fun v => !q v).encard = b) : Finite m := by
  refine Set.Finite.subset ((Set.finite_of_encard_eq_coe ha).union (Set.finite_of_encard_eq_coe hb))
    fun k hk => ?_
  obtain ⟨v, hv⟩ := Option.ne_none_iff_exists'.mp hk
  cases hq : q v with
  | false => exact .inr (mem_keysWhere.mpr ⟨v, hv, by simp [hq]⟩)
  | true => exact .inl (mem_keysWhere.mpr ⟨v, hv, hq⟩)

@[simp] lemma tally_empty (p : V → Bool) : tally (fun _ : K => (none : Option V)) p = 0 := by
  simp [tally, Tally.keysWhere]

section Update

variable [DecidableEq K]

lemma Finite.update (hm : Finite m) (k : K) (x : Option V) : Finite (Function.update m k x) := by
  refine Set.Finite.subset (Set.Finite.insert k hm) fun j hj => ?_
  by_cases h : j = k
  · exact .inl h
  · rw [Set.mem_ofPred_eq, Function.update_of_ne h] at hj
    exact .inr hj

lemma tally_update (hm : Finite m) (p : V → Bool) (k : K) (x : Option V) :
    tally (Function.update m k x) p + (if (m k).any p then 1 else 0) =
      tally m p + (if x.any p then 1 else 0) := by
  -- away from `k` both maps have the same keys
  have hrest : Tally.keysWhere (Function.update m k x) p \ {k} = Tally.keysWhere m p \ {k} := by
    ext j
    simp only [Set.mem_sdiff, Set.mem_singleton_iff, and_congr_left_iff]
    intro hj
    rw [Tally.keysWhere, Set.mem_ofPred_eq, Function.update_of_ne hj]
    rfl
  have hsplit : ∀ m' : K → Option V, Finite m' →
      tally m' p = (Tally.keysWhere m' p \ {k}).ncard + if (m' k).any p then 1 else 0 := by
    intro m' hm'
    split_ifs with hk
    · have hmem : k ∈ Tally.keysWhere m' p := hk
      rw [tally, ← Set.ncard_sdiff_singleton_add_one hmem (hm'.keysWhere p)]
    · have hnot : k ∉ Tally.keysWhere m' p := hk
      rw [Set.sdiff_singleton_eq_self hnot]
      rfl
  rw [hsplit _ (hm.update k x), hsplit m hm, hrest, Function.update_self]
  omega

end Update

lemma tally_filter (m : K → Option V) (p q : V → Bool) :
    tally (fun k => (m k).filter q) p = tally m fun v => q v && p v := by
  refine congrArg Set.ncard (Set.ext fun k => ?_)
  simp only [mem_keysWhere, Option.filter_eq_some_iff, Bool.and_eq_true, and_assoc]

lemma tally_split (hm : Finite m) (p q : V → Bool) :
    tally m (fun v => q v && p v) + tally m (fun v => !q v && p v) = tally m p := by
  have hunion : Tally.keysWhere m (fun v => q v && p v) ∪ Tally.keysWhere m (fun v => !q v && p v) =
      Tally.keysWhere m p := by
    ext k
    cases hk : m k with
    | none => simp [Tally.keysWhere, hk]
    | some v => cases hq : q v <;> simp [Tally.keysWhere, hk, hq]
  have hdisj : Disjoint (Tally.keysWhere m fun v => q v && p v)
      (Tally.keysWhere m fun v => !q v && p v) := by
    refine Set.disjoint_left.mpr fun k hk hk' => ?_
    obtain ⟨v, hv, hvq⟩ := mem_keysWhere.mp hk
    obtain ⟨w, hw, hwq⟩ := mem_keysWhere.mp hk'
    obtain rfl : v = w := Option.some.inj (hv.symm.trans hw)
    cases hq : q v <;> simp [hq] at hvq hwq
  rw [tally, tally, tally, ← hunion, Set.ncard_union_eq hdisj (hm.keysWhere _) (hm.keysWhere _)]

lemma tally_drop [DecidableEq K] (hm : Finite m) (p : V → Bool) (l : List K) :
    tally (fun k => if k ∈ l then none else m k) p +
      (l.toFinset.filter fun k => (m k).any p = true).card =
      tally m p := by
  have hfin : Finite fun k => if k ∈ l then none else m k := by
    refine Set.Finite.subset hm fun k hk hnone => hk ?_
    simp only [hnone, ite_self]
  have hunion : Tally.keysWhere (fun k => if k ∈ l then none else m k) p ∪
      (l.toFinset.filter fun k => (m k).any p = true : Finset K) = Tally.keysWhere m p := by
    ext k
    by_cases hk : k ∈ l <;> simp [Tally.keysWhere, hk]
  have hdisj : Disjoint (Tally.keysWhere (fun k => if k ∈ l then none else m k) p)
      (l.toFinset.filter fun k => (m k).any p = true : Finset K) := by
    refine Set.disjoint_left.mpr fun k hk hk' => ?_
    have hkl : k ∈ l := by simpa using (Finset.mem_filter.mp (Finset.mem_coe.mp hk')).1
    simp [Tally.keysWhere, hkl] at hk
  rw [tally, tally, ← hunion, Set.ncard_union_eq hdisj (hfin.keysWhere p) (Finset.finite_toSet _),
    Set.ncard_coe_finset]

/-! ### Counting along a list -/

lemma tally_eq_length {l : List K} (hnd : l.Nodup) (hl : ∀ k, k ∈ l ↔ (m k).any p = true) :
    tally m p = l.length := by
  classical
  have hset : Tally.keysWhere m p = (l.toFinset : Set K) := by
    ext k
    rw [List.coe_toFinset, Set.mem_ofPred_eq, hl]
    rfl
  rw [tally, hset, Set.ncard_coe_finset, List.toFinset_card_of_nodup hnd]

lemma tally_le_length {l : List K} (hl : ∀ k, (m k).any p = true → k ∈ l) :
    tally m p ≤ l.length := by
  classical
  have hsub : Tally.keysWhere m p ⊆ (l.toFinset : Set K) := fun k hk => by
    rw [List.coe_toFinset]
    exact hl k hk
  calc tally m p ≤ (l.toFinset : Set K).ncard := Set.ncard_le_ncard hsub (Finset.finite_toSet _)
    _ = l.toFinset.card := Set.ncard_coe_finset _
    _ ≤ l.length := List.toFinset_card_le l

end MemServe.Tally
