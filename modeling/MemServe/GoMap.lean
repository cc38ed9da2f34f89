import Mathlib.Algebra.BigOperators.Group.Finset.Basic
import Mathlib.Data.Finmap

/-!
Go's built-in `map[K]V`: a finite map with extensional equality, and the loop
`for k := range set` that deletes the keys of a set.

The order in which Go visits the keys of a map is unspecified, so a loop over one is a fold
over a `Finset`, which exists only for a body that does not depend on the order.
-/

namespace MemServe

def GoMap (K V : Type) : Type := Finmap fun _ : K => V

namespace GoMap

variable {K V : Type}

/-- `make(map[K]V)`. -/
def empty : GoMap K V := (∅ : Finmap fun _ : K => V)

variable [DecidableEq K]

/-- `m[k]`, with the zero value of a missing key left out. -/
def get (m : GoMap K V) (k : K) : Option V := Finmap.lookup k m

/-- `m[k] = v`. -/
def set (m : GoMap K V) (k : K) (v : V) : GoMap K V := Finmap.insert k v m

/-- `delete(m, k)`. -/
def delete (m : GoMap K V) (k : K) : GoMap K V := Finmap.erase k m

@[simp] lemma get_empty (k : K) : (empty : GoMap K V).get k = none := rfl

lemma get_set (m : GoMap K V) (k j : K) (v : V) :
    (m.set k v).get j = if j = k then some v else m.get j := by
  unfold get set
  split_ifs with h
  · subst h; exact Finmap.lookup_insert m
  · exact Finmap.lookup_insert_of_ne m h

lemma get_delete (m : GoMap K V) (k j : K) :
    (m.delete k).get j = if j = k then none else m.get j := by
  unfold get delete
  split_ifs with h
  · subst h; exact Finmap.lookup_erase j m
  · exact Finmap.lookup_erase_ne h

@[simp] lemma get_set_self (m : GoMap K V) (k : K) (v : V) : (m.set k v).get k = some v := by
  simp [get_set]

@[simp] lemma get_delete_self (m : GoMap K V) (k : K) : (m.delete k).get k = none := by
  simp [get_delete]

lemma get_set_of_ne (m : GoMap K V) {k j : K} (v : V) (h : j ≠ k) :
    (m.set k v).get j = m.get j := by
  simp [get_set, h]

lemma get_delete_of_ne (m : GoMap K V) {k j : K} (h : j ≠ k) :
    (m.delete k).get j = m.get j := by
  simp [get_delete, h]

lemma get_set_eq (m : GoMap K V) (k : K) (v : V) :
    (m.set k v).get = Function.update m.get k (some v) := by
  funext j
  rw [get_set, Function.update_apply]

/-- Where a value that is found after a write comes from. -/
lemma update_eq_some {m : K → Option V} {k j : K} {v w : V}
    (h : Function.update m k (some v) j = some w) :
    j = k ∧ v = w ∨ j ≠ k ∧ m j = some w := by
  rw [Function.update_apply] at h
  split_ifs at h with hj
  · exact .inl ⟨hj, Option.some.inj h⟩
  · exact .inr ⟨hj, h⟩

@[inherit_doc update_eq_some]
lemma get_set_eq_some {m : GoMap K V} {k j : K} {v w : V} (h : (m.set k v).get j = some w) :
    j = k ∧ v = w ∨ j ≠ k ∧ m.get j = some w := by
  rw [get_set_eq] at h
  exact update_eq_some h

lemma get_delete_eq (m : GoMap K V) (k : K) :
    (m.delete k).get = Function.update m.get k none := by
  funext j
  rw [get_delete, Function.update_apply]

lemma ext_get {m m' : GoMap K V} (h : ∀ k, m.get k = m'.get k) : m = m' :=
  Finmap.ext_lookup h

/-- One turn of `for k := range ks { if v, ok := m[k]; ok && p v { delete(m, k); n++ } }`. -/
def deleteStep (p : V → Bool) (k : K) (s : GoMap K V × ℕ) : GoMap K V × ℕ :=
  if (s.1.get k).any p then (s.1.delete k, s.2 + 1) else s

instance (p : V → Bool) : LeftCommutative (deleteStep (K := K) p) where
  left_comm a b s := by
    by_cases hab : a = b
    · subst hab; rfl
    · have hba : b ≠ a := Ne.symm hab
      have hcomm : (s.1.delete b).delete a = (s.1.delete a).delete b := by
        refine ext_get fun k => ?_
        simp only [get_delete]
        split_ifs <;> rfl
      by_cases h1 : (s.1.get a).any p = true <;> by_cases h2 : (s.1.get b).any p = true <;>
        simp [deleteStep, h1, h2, get_delete_of_ne _ hab, get_delete_of_ne _ hba, hcomm]

/-- The loop over all keys of `ks`, with the number of entries it deletes. -/
def deleteRange (p : V → Bool) (ks : Finset K) (m : GoMap K V) : GoMap K V × ℕ :=
  ks.val.foldr (deleteStep p) (m, 0)

lemma deleteRange_insert (p : V → Bool) {k : K} {ks : Finset K} (h : k ∉ ks) (m : GoMap K V) :
    deleteRange p (insert k ks) m = deleteStep p k (deleteRange p ks m) := by
  unfold deleteRange
  rw [Finset.insert_val_of_notMem h, Multiset.foldr_cons]

lemma get_deleteRange (p : V → Bool) (ks : Finset K) (m : GoMap K V) (j : K) :
    (deleteRange p ks m).1.get j = if j ∈ ks ∧ (m.get j).any p then none else m.get j := by
  induction ks using Finset.induction_on with
  | empty => simp [deleteRange]
  | insert k ks hk ih =>
    rw [deleteRange_insert p hk]
    unfold deleteStep
    by_cases hj : j = k
    · subst hj
      have hm : (deleteRange p ks m).1.get j = m.get j := by simp [ih, hk]
      rw [hm]
      by_cases hp : (m.get j).any p = true
      · simp [hp]
      · simp [hp, hm]
    · split_ifs with h1 h2 <;> simp_all [get_delete]

lemma deleteRange_count (p : V → Bool) (ks : Finset K) (m : GoMap K V) :
    (deleteRange p ks m).2 = (ks.filter fun k => (m.get k).any p).card := by
  induction ks using Finset.induction_on with
  | empty => simp [deleteRange]
  | insert k ks hk ih =>
    have hget : (deleteRange p ks m).1.get k = m.get k := by simp [get_deleteRange, hk]
    rw [deleteRange_insert p hk, deleteStep, hget, Finset.filter_insert]
    split_ifs
    · rw [Finset.card_insert_of_notMem (by simp [hk]), ih]
    · exact ih

/-! ### Sums over a map -/

def keys (m : GoMap K V) : Finset K := Finmap.keys m

/-- `len(m)`. -/
def len (m : GoMap K V) : ℕ := m.keys.card

/-- The total of `f` over the values, as a loop over the map adds it up. -/
def sum {M : Type} [AddCommMonoid M] (m : GoMap K V) (f : V → M) : M :=
  ∑ k ∈ m.keys, ((m.get k).map f).getD 0

lemma mem_keys {m : GoMap K V} {k : K} : k ∈ m.keys ↔ (m.get k).isSome :=
  Finmap.mem_keys.trans Finmap.lookup_isSome.symm

/-- The keys of the entries that satisfy `p`. -/
def keysWhere (m : GoMap K V) (p : V → Bool) : Finset K := m.keys.filter fun k => (m.get k).any p

/-- The map without the entries that satisfy `p`. -/
def reject (m : GoMap K V) (p : V → Bool) : GoMap K V where
  entries := (Finmap.entries m).filter fun e => p e.2 = false
  nodupKeys := Multiset.nodup_keys.mp <| Multiset.nodup_of_le
    (Multiset.map_le_map (Multiset.filter_le _ _)) (Multiset.nodup_keys.mpr (Finmap.nodupKeys m))

lemma mem_keysWhere {m : GoMap K V} {p : V → Bool} {k : K} :
    k ∈ m.keysWhere p ↔ (m.get k).any p = true := by
  rw [keysWhere, Finset.mem_filter, mem_keys, and_iff_right_of_imp]
  intro h
  cases hg : m.get k with
  | none => simp [hg] at h
  | some v => rfl

lemma get_reject (m : GoMap K V) (p : V → Bool) (k : K) :
    (m.reject p).get k = (m.get k).filter fun v => !p v := by
  refine Option.ext fun v => ?_
  have hm : m.get k = some v ↔ (⟨k, v⟩ : Sigma fun _ : K => V) ∈ Finmap.entries m :=
    Finmap.lookup_eq_some_iff
  have hr : (m.reject p).get k = some v ↔ (⟨k, v⟩ : Sigma fun _ : K => V) ∈
    Finmap.entries (m.reject p) :=
    Finmap.lookup_eq_some_iff
  rw [Option.filter_eq_some_iff, hm, hr, reject, Multiset.mem_filter]
  simp

lemma keys_set (m : GoMap K V) (k : K) (v : V) : (m.set k v).keys = insert k m.keys := by
  ext j
  rw [mem_keys, get_set, Finset.mem_insert, mem_keys]
  split_ifs with h <;> simp [h]

lemma len_set_le (m : GoMap K V) (k : K) (v : V) : (m.set k v).len ≤ m.len + 1 := by
  rw [len, keys_set]
  exact Finset.card_insert_le _ _

lemma sum_set {M : Type} [AddCommMonoid M] (m : GoMap K V) (k : K) (v : V) (f : V → M) :
    (m.set k v).sum f + ((m.get k).map f).getD 0 = m.sum f + f v := by
  have hsub : m.sum f = ∑ j ∈ insert k m.keys, ((m.get j).map f).getD 0 := by
    refine Finset.sum_subset (Finset.subset_insert _ _) fun j _ hj => ?_
    rw [mem_keys, Option.not_isSome_iff_eq_none] at hj
    rw [hj]
    rfl
  have hrest : ∑ j ∈ (insert k m.keys).erase k, (((m.set k v).get j).map f).getD 0 =
      ∑ j ∈ (insert k m.keys).erase k, ((m.get j).map f).getD 0 :=
    Finset.sum_congr rfl fun j hj => by rw [get_set_of_ne m v (Finset.ne_of_mem_erase hj)]
  rw [hsub, sum, keys_set, ← Finset.add_sum_erase _ _ (Finset.mem_insert_self k m.keys),
    ← Finset.add_sum_erase _ _ (Finset.mem_insert_self k m.keys), hrest, get_set_self,
    Option.map_some, Option.getD_some]
  rw [add_comm (f v), add_right_comm, add_comm _ (((m.get k).map f).getD 0)]

end GoMap

end MemServe
