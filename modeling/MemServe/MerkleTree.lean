import Mathlib.Algebra.Group.Nat.Defs
import Mathlib.Data.List.Nodup
import Mathlib.Data.Nat.Log
import Mathlib.Tactic.Common

/-!
Merkle trees over any node hash, with the last node of an odd level paired with itself.

A tree is kept as its levels, leaves first. A path is read off the levels, one sibling each
with the side it stands on, and is folded back up from the leaf.
-/

namespace MemServe.MerkleTree

variable {α : Type} (H : α → α → α)

def pairLevel : List α → List α
  | [] => []
  | [a] => [H a a]
  | a :: b :: r => H a b :: pairLevel r

def layersAux : ℕ → List α → List (List α)
  | 0, l => [l]
  | n + 1, l => if 1 < l.length then l :: layersAux n (pairLevel H l) else [l]

/-- All levels of the tree over `l`. There are at most as many as there are leaves. -/
def layers (l : List α) : List (List α) := layersAux H l.length l

/-- The sibling of node `i` of a level, and whether it is the right child. -/
def sibling (cur : List α) (i : ℕ) : Option (α × Bool) :=
  if i % 2 = 0 then (cur[if i + 1 < cur.length then i + 1 else i]?).map (·, true)
  else (cur[i - 1]?).map (·, false)

/-- The siblings met on the way up from node `i` of the first level. -/
def path : List (List α) → ℕ → Option (List (α × Bool))
  | cur :: next :: rest, i => do
    let e ← sibling cur i
    let p ← path (next :: rest) (i / 2)
    return e :: p
  | _, _ => some []

def foldStep (node : α) (e : α × Bool) : α := if e.2 then H node e.1 else H e.1 node

/-- The root a leaf and its path imply. -/
def fold (leaf : α) (p : List (α × Bool)) : α := p.foldl (foldStep H) leaf

@[simp] lemma length_pairLevel (l : List α) : (pairLevel H l).length = (l.length + 1) / 2 := by
  fun_induction pairLevel H l with
  | case1 => simp
  | case2 a => simp
  | case3 a b r ih => simp [ih]; omega

lemma pairLevel_getElem? (l : List α) (j : ℕ) :
    (pairLevel H l)[j]? = (l[2 * j]?).map fun a => H a ((l[2 * j + 1]?).getD a) := by
  induction j generalizing l with
  | zero => fun_cases pairLevel H l <;> simp
  | succ j ih =>
    fun_cases pairLevel H l with
    | case1 => simp
    | case2 a => simp
    | case3 a b r =>
      rw [List.getElem?_cons_succ, ih r]
      rfl

lemma sibling_parent {cur : List α} {i : ℕ} {x : α} (hx : cur[i]? = some x) :
    ∃ e, sibling cur i = some e ∧ (pairLevel H cur)[i / 2]? = some (foldStep H x e) := by
  have hi : i < cur.length := (List.getElem?_eq_some_iff.mp hx).1
  rcases Nat.mod_two_eq_zero_or_one i with he | ho
  · -- a left child: its sibling stands right of it, or is itself at the end of an odd level
    have h2 : 2 * (i / 2) = i := by omega
    by_cases hlt : i + 1 < cur.length
    · refine ⟨(cur[i + 1], true), by simp [sibling, he, hlt], ?_⟩
      simp [pairLevel_getElem?, h2, hx, hlt, foldStep]
    · refine ⟨(x, true), by simp [sibling, he, hlt, hx], ?_⟩
      have hn : cur[i + 1]? = none := List.getElem?_eq_none (by omega)
      simp [pairLevel_getElem?, h2, hx, hn, foldStep]
  · -- a right child
    have h2 : 2 * (i / 2) = i - 1 := by omega
    have h3 : i - 1 + 1 = i := by omega
    have hlt : i - 1 < cur.length := by omega
    refine ⟨(cur[i - 1], false), by simp [sibling, ho, hlt], ?_⟩
    simp [pairLevel_getElem?, h2, h3, hx, hlt, foldStep]

/-! ### All levels -/

lemma layersAux_of_le (n m : ℕ) (l : List α) (hn : l.length ≤ n) (hm : l.length ≤ m) :
    layersAux H n l = layersAux H m l := by
  induction n generalizing m l with
  | zero =>
    cases m with
    | zero => rfl
    | succ m => rw [layersAux, layersAux, if_neg (by omega)]
  | succ n ih =>
    cases m with
    | zero => rw [layersAux, layersAux, if_neg (by omega)]
    | succ m =>
      rw [layersAux, layersAux]
      split_ifs with h
      · rw [ih m (pairLevel H l) (by rw [length_pairLevel]; omega)
          (by rw [length_pairLevel]; omega)]
      · rfl

lemma layers_of_le_one {l : List α} (h : l.length ≤ 1) : layers H l = [l] := by
  unfold layers
  rcases hl : l.length with _ | n
  · rfl
  · rw [layersAux, if_neg (by omega)]

lemma layers_of_one_lt {l : List α} (h : 1 < l.length) :
    layers H l = l :: layers H (pairLevel H l) := by
  unfold layers
  obtain ⟨n, hn⟩ : ∃ n, l.length = n + 1 := ⟨l.length - 1, by omega⟩
  rw [hn, layersAux, if_pos h]
  rw [layersAux_of_le H n (pairLevel H l).length _ (by rw [length_pairLevel]; omega) le_rfl]

lemma layers_ne_nil (l : List α) : layers H l ≠ [] := by
  by_cases h : 1 < l.length
  · simp [layers_of_one_lt H h]
  · simp [layers_of_le_one H (by omega : l.length ≤ 1)]

lemma layers_head? (l : List α) : (layers H l).head? = some l := by
  by_cases h : 1 < l.length
  · simp [layers_of_one_lt H h]
  · simp [layers_of_le_one H (by omega : l.length ≤ 1)]

/-- The root of a non-empty tree: the one node of its last level. -/
def root? (l : List α) : Option α := ((layers H l).getLast?).bind List.head?

lemma root?_singleton (a : α) : root? H [a] = some a := by
  simp [root?, layers_of_le_one]

lemma root?_of_one_lt {l : List α} (h : 1 < l.length) :
    root? H l = root? H (pairLevel H l) := by
  unfold root?
  rw [layers_of_one_lt H h, List.getLast?_cons]
  rcases hl : (layers H (pairLevel H l)).getLast? with _ | x
  · exact absurd (List.getLast?_eq_none_iff.mp hl) (layers_ne_nil H _)
  · rfl

@[elab_as_elim]
lemma level_induction {P : List α → Prop} (nil : P []) (one : ∀ a, P [a])
    (up : ∀ l, 1 < l.length → P (pairLevel H l) → P l) (l : List α) : P l := by
  induction hn : l.length using Nat.strong_induction_on generalizing l with
  | _ n ih =>
    match l, hn with
    | [], _ => exact nil
    | [a], _ => exact one a
    | a :: b :: r, hn =>
      have hlt : 1 < (a :: b :: r).length := by simp
      exact up _ hlt (ih _ (by rw [length_pairLevel]; omega) _ rfl)

lemma pairLevel_ne_nil {l : List α} (h : l ≠ []) : pairLevel H l ≠ [] := by
  have hpos := List.length_pos_iff.mpr h
  refine List.length_pos_iff.mp ?_
  rw [length_pairLevel]
  omega

/-- **The depth law**: a path has the binary logarithm of the number of leaves, rounded up. -/
lemma length_layers {l : List α} (h : l ≠ []) : (layers H l).length = Nat.clog 2 l.length + 1 := by
  induction l using level_induction H with
  | nil => exact absurd rfl h
  | one a => simp [layers_of_le_one]
  | up l h1 ih =>
    rw [layers_of_one_lt H h1, List.length_cons, ih (pairLevel_ne_nil H h), length_pairLevel,
      Nat.clog_of_two_le (by omega) h1, show l.length + 2 - 1 = l.length + 1 by omega]

/-- **Completeness**: every leaf has a path, one sibling for each level below the root, and
folding the leaf along it gives the root. -/
theorem path_complete {l : List α} {i : ℕ} {x : α} (hx : l[i]? = some x) :
    ∃ p, path (layers H l) i = some p ∧ p.length = (layers H l).length - 1 ∧
      root? H l = some (fold H x p) := by
  induction l using level_induction H generalizing i x with
  | nil => cases hx
  | one a =>
    -- a single leaf is its own root, with the empty path
    obtain rfl : i = 0 := by simpa using (List.getElem?_eq_some_iff.mp hx).1
    obtain rfl : a = x := by simpa using hx
    exact ⟨[], by simp [layers_of_le_one, path], by simp [layers_of_le_one],
      by simp [root?_singleton, fold]⟩
  | up l h1 ih =>
    obtain ⟨e, he, hparent⟩ := sibling_parent H hx
    obtain ⟨p, hp, hlen, hroot⟩ := ih hparent
    obtain ⟨nx, rest, hcons⟩ : ∃ nx rest, layers H (pairLevel H l) = nx :: rest :=
      List.exists_cons_of_ne_nil (layers_ne_nil H _)
    refine ⟨e :: p, ?_, ?_, ?_⟩
    · rw [layers_of_one_lt H h1, hcons, path, he]
      rw [hcons] at hp
      simp [hp]
    · rw [layers_of_one_lt H h1, List.length_cons, List.length_cons, hlen, hcons]
      simp
    · rw [root?_of_one_lt H h1, hroot]
      rfl

/-- The two nodes below each node of the level above. -/
def levelPairs : List α → List (α × α)
  | [] => []
  | [a] => [(a, a)]
  | a :: b :: r => (a, b) :: levelPairs r

/-- All pairs hashed in building the tree over `l`. -/
def treePairs (l : List α) : List (α × α) := (layers H l).dropLast.flatMap levelPairs

def foldPairs : α → List (α × Bool) → List (α × α)
  | _, [] => []
  | x, e :: p => (if e.2 then (x, e.1) else (e.1, x)) :: foldPairs (foldStep H x e) p

/-- Two different pairs of the list have one hash. -/
def Collision (ps : List (α × α)) : Prop := ∃ p ∈ ps, ∃ q ∈ ps, p ≠ q ∧ H p.1 p.2 = H q.1 q.2

variable {H} in
lemma Collision.mono {ps qs : List (α × α)} (h : Collision H ps) (hsub : ps ⊆ qs) :
    Collision H qs := by
  obtain ⟨p, hp, q, hq, hne, heq⟩ := h
  exact ⟨p, hsub hp, q, hsub hq, hne, heq⟩

lemma not_collision_of_nodup {ps : List (α × α)} (h : (ps.map fun p => H p.1 p.2).Nodup) :
    ¬Collision H ps := by
  rintro ⟨p, hp, q, hq, hne, heq⟩
  exact hne (List.inj_on_of_nodup_map h hp hq heq)

lemma pairLevel_eq_map (l : List α) : pairLevel H l = (levelPairs l).map fun p => H p.1 p.2 := by
  fun_induction pairLevel H l with
  | case1 => rfl
  | case2 a => rfl
  | case3 a b r ih => rw [ih, levelPairs, List.map_cons]

lemma mem_of_mem_levelPairs {l : List α} {p : α × α} (h : p ∈ levelPairs l) :
    p.1 ∈ l ∧ p.2 ∈ l := by
  fun_induction levelPairs l with
  | case1 => cases h
  | case2 a =>
    obtain rfl := List.mem_singleton.mp h
    exact ⟨List.mem_cons_self, List.mem_cons_self⟩
  | case3 a b r ih =>
    rcases List.mem_cons.mp h with rfl | h
    · exact ⟨List.mem_cons_self, List.mem_cons_of_mem a List.mem_cons_self⟩
    · obtain ⟨h1, h2⟩ := ih h
      exact ⟨List.mem_cons_of_mem a (List.mem_cons_of_mem b h1),
        List.mem_cons_of_mem a (List.mem_cons_of_mem b h2)⟩

lemma treePairs_of_one_lt {l : List α} (h : 1 < l.length) :
    treePairs H l = levelPairs l ++ treePairs H (pairLevel H l) := by
  rw [treePairs, layers_of_one_lt H h, List.dropLast_cons_of_ne_nil (layers_ne_nil H _),
    List.flatMap_cons, treePairs]

lemma layers_succ {l cur next : List α} {k : ℕ} (hcur : (layers H l)[k]? = some cur)
    (hnext : (layers H l)[k + 1]? = some next) :
    next = pairLevel H cur ∧ levelPairs cur ⊆ treePairs H l := by
  induction l using level_induction H generalizing k with
  | nil => cases hnext
  | one a => cases hnext
  | up l h1 ih =>
    rw [layers_of_one_lt H h1] at hcur hnext
    rw [treePairs_of_one_lt H h1]
    cases k with
    | zero =>
      obtain rfl : l = cur := by simpa using hcur
      rw [List.getElem?_cons_succ, ← List.head?_eq_getElem?, layers_head?] at hnext
      exact ⟨(Option.some.inj hnext).symm, List.subset_append_left _ _⟩
    | succ k =>
      obtain ⟨heq, hsub⟩ := ih hcur hnext
      exact ⟨heq, List.subset_append_of_subset_right _ hsub⟩

/-- **Soundness**: what folds to the root stands in the level that is as far from the root as the
path is long, or else the tree and the fold have hashed two different pairs to one node. -/
theorem fold_sound {l : List α} {x : α} {p : List (α × Bool)}
    (hlen : p.length < (layers H l).length) (hroot : root? H l = some (fold H x p)) :
    (∃ level, (layers H l)[(layers H l).length - 1 - p.length]? = some level ∧ x ∈ level) ∨
      Collision H (treePairs H l ++ foldPairs H x p) := by
  induction p generalizing x with
  | nil =>
    obtain ⟨level, hlast, hhead⟩ := Option.bind_eq_some_iff.mp hroot
    rw [List.getLast?_eq_getElem?] at hlast
    exact .inl ⟨level, hlast, List.mem_of_mem_head? hhead⟩
  | cons e p ih =>
    rw [List.length_cons] at hlen
    rcases ih (by omega) hroot with ⟨next, hnext, hmem⟩ | hcol
    · -- the node above is in its level, so it is the hash of a pair of this one
      obtain ⟨cur, hcur⟩ : ∃ cur, (layers H l)[(layers H l).length - 1 - (p.length + 1)]? =
        some cur :=
        ⟨_, List.getElem?_eq_getElem (by omega)⟩
      rw [show (layers H l).length - 1 - p.length = (layers H l).length - 1 - (p.length + 1) +
        1 by omega] at hnext
      obtain ⟨rfl, hsub⟩ := layers_succ H hcur hnext
      rw [pairLevel_eq_map, List.mem_map] at hmem
      obtain ⟨q, hq, hnode⟩ := hmem
      have hin := mem_of_mem_levelPairs hq
      by_cases heq : q = if e.2 then (x, e.1) else (e.1, x)
      · refine .inl ⟨cur, hcur, ?_⟩
        cases he : e.2 with
        | true => rw [heq, he] at hin; exact hin.1
        | false => rw [heq, he] at hin; exact hin.2
      · refine .inr ⟨q, List.mem_append_left _ (hsub hq), _,
          List.mem_append_right _ List.mem_cons_self, heq, hnode.trans ?_⟩
        cases he : e.2 <;> simp [foldStep, he]
    · refine .inr (hcol.mono ?_)
      exact List.append_subset.mpr ⟨List.subset_append_left _ _,
        List.subset_append_of_subset_right _ (List.subset_cons_self _ _)⟩

/-! ### The left edge

A tree whose leaves but the first are all alike has levels of the same kind, so the path of the
first leaf is known without the leaf. -/

/-- The node `n` levels above a leaf `y` whose siblings are those of a tree of leaves `b`. -/
def edge : ℕ → α → α → α
  | 0, y, _ => y
  | n + 1, y, b => edge n (H y b) (H b b)

lemma pairLevel_replicate (m : ℕ) (b : α) :
    pairLevel H (List.replicate (2 * m + 1) b) = List.replicate (m + 1) (H b b) := by
  induction m with
  | zero => rfl
  | succ m ih =>
    rw [Nat.mul_succ, List.replicate_succ, List.replicate_succ, pairLevel, ih]
    rfl

lemma pairLevel_cons_replicate {m : ℕ} (hm : 0 < m) (x b : α) :
    pairLevel H (x :: List.replicate (2 * m) b) = H x b :: List.replicate m (H b b) := by
  obtain ⟨k, rfl⟩ : ∃ k, m = k + 1 := ⟨m - 1, by omega⟩
  rw [Nat.mul_succ, List.replicate_succ, pairLevel, pairLevel_replicate]

/-- **The path along the left edge** does not depend on the leaf. -/
theorem path_edge (k : ℕ) (x b : α) :
    ∃ p, path (layers H (x :: List.replicate (2 ^ k) b)) 0 = some p ∧
      ∀ y, fold H y p = edge H (k + 1) y b := by
  induction k generalizing x b with
  | zero => exact ⟨[(b, true)], rfl, fun y => rfl⟩
  | succ k ih =>
    obtain ⟨p, hp, hfold⟩ := ih (H x b) (H b b)
    have hpos : 0 < 2 ^ k := Nat.two_pow_pos k
    have hlen : 1 < (x :: List.replicate (2 ^ (k + 1)) b).length := by
      rw [List.length_cons, List.length_replicate, Nat.pow_succ]
      omega
    obtain ⟨nx, rest, hcons⟩ : ∃ nx rest, layers H (H x b :: List.replicate (2 ^ k) (H b b)) =
      nx :: rest :=
      List.exists_cons_of_ne_nil (layers_ne_nil H _)
    have hsib : sibling (x :: List.replicate (2 ^ (k + 1)) b) 0 = some (b, true) := by
      simp [sibling, Nat.two_pow_pos (k + 1)]
    refine ⟨(b, true) :: p, ?_, fun y => hfold (H y b)⟩
    rw [layers_of_one_lt H hlen, Nat.pow_succ', pairLevel_cons_replicate H hpos, hcons, path,
      ← Nat.pow_succ', hsib]
    rw [hcons] at hp
    simp [hp]

end MemServe.MerkleTree
