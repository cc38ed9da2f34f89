import Mathlib.Data.List.Induction
import MemServe.HashTree

/-!
Merkle trees over messages.

A leaf is the hash of a message and a node the hash of the message its two children make up. Where
messages of leaves and of nodes may be the same strings, a path to the root shows that its message
was hashed in the tree, and not that it was a leaf.
-/

namespace MemServe.MerkleTree

variable {M D : Type} (hash : M → D) (pair : D → D → M)

/-- The digest of two digests. -/
def hash₂ (a b : D) : D := hash (pair a b)

lemma fold_append (H : D → D → D) (x : D) (p q : List (D × Bool)) :
    fold H x (p ++ q) = fold H (fold H x p) q :=
  List.foldl_append

/-- The two digests that one step of a fold hashes. -/
def stepPair (x : D) (e : D × Bool) : D × D := if e.2 then (x, e.1) else (e.1, x)

lemma foldStep_eq (H : D → D → D) (x : D) (e : D × Bool) :
    foldStep H x e = H (stepPair x e).1 (stepPair x e).2 := by
  unfold foldStep stepPair
  split <;> rfl

lemma foldPairs_concat (H : D → D → D) (x : D) (p : List (D × Bool)) (e : D × Bool) :
    foldPairs H x (p ++ [e]) = foldPairs H x p ++ [stepPair (fold H x p) e] := by
  induction p generalizing x with
  | nil => rfl
  | cons d p ih => exact congrArg _ (ih (foldStep H x d))

def foldMessages (m : M) (p : List (D × Bool)) : List M :=
  m :: (foldPairs (hash₂ hash pair) (hash m) p).map fun q => pair q.1 q.2

/-- Two different messages of the list have one hash. -/
def MessageCollision (ms : List M) : Prop := ∃ a ∈ ms, ∃ b ∈ ms, a ≠ b ∧ hash a = hash b

variable {hash} in
lemma MessageCollision.mono {ms ns : List M} (h : MessageCollision hash ms) (hsub : ms ⊆ ns) :
    MessageCollision hash ns := by
  obtain ⟨a, ha, b, hb, hne, heq⟩ := h
  exact ⟨a, hsub ha, b, hsub hb, hne, heq⟩

namespace HashTree

/-- The digest of a tree of messages. -/
def commit : HashTree M → D
  | leaf m => hash m
  | node l r => hash₂ hash pair (commit l) (commit r)

/-- The message a tree is the hash of. -/
def message : HashTree M → M
  | leaf m => m
  | node l r => pair (l.commit hash pair) (r.commit hash pair)

/-- The messages that nodes make up. -/
def inner : HashTree M → List M
  | leaf _ => []
  | node l r => pair (l.commit hash pair) (r.commit hash pair) :: (inner l ++ inner r)

def messages (t : HashTree M) : List M := t.leaves ++ t.inner hash pair

def depth : HashTree M → ℕ
  | leaf _ => 0
  | node l r => max (depth l) (depth r) + 1

variable {hash pair}

lemma commit_top [Inhabited M] [Inhabited D] {ts : List (HashTree M)} (hne : ts ≠ []) :
    (top node ts).commit hash pair = top (hash₂ hash pair) (ts.map (commit hash pair)) :=
  (top_map (fun _ _ => rfl) hne).symm

lemma exists_mem_leaves_pairLevel {ts : List (HashTree M)} {m : M} :
    (∃ t ∈ pairLevel node ts, m ∈ t.leaves) ↔ ∃ t ∈ ts, m ∈ t.leaves := by
  fun_induction pairLevel node ts with
  | case1 => rfl
  | case2 t => simp [leaves]
  | case3 t u r ih => simp [leaves, ih, or_assoc]

lemma mem_leaves_top [Inhabited M] {ts : List (HashTree M)} (hne : ts ≠ []) {m : M} :
    m ∈ (top node ts).leaves ↔ ∃ t ∈ ts, m ∈ t.leaves := by
  induction ts using level_induction node with
  | nil => exact absurd rfl hne
  | one t => simp
  | up ts h1 ih =>
    rw [top_of_one_lt node h1, ih (pairLevel_ne_nil node hne), exists_mem_leaves_pairLevel]

lemma exists_mem_inner_pairLevel {ts : List (HashTree M)} {m : M} :
    (∃ t ∈ pairLevel node ts, m ∈ t.inner hash pair) ↔
      (∃ t ∈ ts, m ∈ t.inner hash pair) ∨ ∃ p ∈ levelPairs (ts.map (commit hash pair)),
        m = pair p.1 p.2 := by
  fun_induction pairLevel node ts with
  | case1 => simp [levelPairs]
  | case2 t => simp [levelPairs, inner, or_comm]
  | case3 t u r ih =>
    simp only [inner, List.mem_cons, List.mem_append, exists_eq_or_imp, List.map_cons, levelPairs,
      ih]
    constructor
    · rintro ((h | h | h) | h | h) <;> simp [h]
    · rintro ((h | h | h) | h | h) <;> simp [h]

lemma mem_inner_top [Inhabited M] {ts : List (HashTree M)} (hne : ts ≠ []) {m : M} :
    m ∈ (top node ts).inner hash pair ↔ (∃ t ∈ ts, m ∈ t.inner hash pair) ∨
      ∃ p ∈ treePairs (hash₂ hash pair) (ts.map (commit hash pair)), m = pair p.1 p.2 := by
  induction ts using level_induction node with
  | nil => exact absurd rfl hne
  | one t => simp [treePairs, layers_of_le_one]
  | up ts h1 ih =>
    have hpairs : treePairs (hash₂ hash pair) (ts.map (commit hash pair)) =
        levelPairs (ts.map (commit hash pair)) ++
        treePairs (hash₂ hash pair) ((pairLevel node ts).map (commit hash pair)) := by
      rw [treePairs_of_one_lt _ (by rwa [List.length_map]),
        pairLevel_map (G := node) (fun _ _ => rfl)]
    rw [top_of_one_lt node h1, ih (pairLevel_ne_nil node hne), exists_mem_inner_pairLevel, hpairs]
    simp only [List.mem_append, or_and_right, exists_or, or_assoc]

lemma depth_top [Inhabited M] {ts : List (HashTree M)} (hne : ts ≠ []) {d : ℕ}
    (hd : ∀ t ∈ ts, t.depth ≤ d) :
    (top node ts).depth ≤ Nat.clog 2 ts.length + d := by
  induction ts using level_induction node generalizing d with
  | nil => exact absurd rfl hne
  | one t => simpa using hd
  | up ts h1 ih =>
    have hnext : ∀ t ∈ pairLevel node ts, t.depth ≤ d + 1 :=
      forall_pairLevel (fun l r hl hr => Nat.succ_le_succ (max_le hl hr)) hd
    have h := ih (pairLevel_ne_nil node hne) hnext
    rw [← top_of_one_lt node h1, length_pairLevel] at h
    rw [Nat.clog_of_two_le (by omega) h1, show ts.length + 2 - 1 = ts.length + 1 by omega]
    omega

lemma levelPairs_fst_sublist (l : List M) : ((levelPairs l).map Prod.fst).Sublist l := by
  fun_induction levelPairs l with
  | case1 => exact List.Sublist.refl _
  | case2 a => exact List.Sublist.refl _
  | case3 a b r ih => exact (ih.cons b).cons_cons a

lemma nodup_pairLevel {ts : List (HashTree M)} (h : ts.Nodup) : (pairLevel node ts).Nodup := by
  rw [pairLevel_eq_map]
  have hpairs : (levelPairs ts).Nodup := (h.sublist (levelPairs_fst_sublist ts)).of_map _
  refine hpairs.map fun p q hpq => ?_
  obtain ⟨h1, h2⟩ := node.inj hpq
  exact Prod.ext h1 h2

lemma twins_of_nodup [DecidableEq M] {l : List M} (h : l.Nodup) : twins l = false := by
  induction l using twins.induct with
  | case1 a b r ih =>
    obtain ⟨ha, hb⟩ := List.nodup_cons.mp h
    rw [twins, ih (List.nodup_cons.mp hb).2, Bool.or_false, decide_eq_false]
    rintro rfl
    exact ha List.mem_cons_self
  | case2 l hl =>
    cases l with
    | nil => rfl
    | cons a r =>
      cases r with
      | nil => rfl
      | cons b r => exact absurd rfl (hl a b r)

lemma repeats_of_nodup [DecidableEq M] {ts : List (HashTree M)} (h : ts.Nodup) :
    repeats node ts = false := by
  induction ts using level_induction node with
  | nil => rfl
  | one t => rfl
  | up ts h1 ih =>
    rw [repeats_of_one_lt node h1, twins_of_nodup h, ih (nodup_pairLevel h), Bool.or_self]

lemma top_leaf_inj [DecidableEq M] [Inhabited M] {ms ns : List M} (hm : ms.Nodup) (hn : ns.Nodup)
    (hms : ms ≠ []) (hns : ns ≠ [])
    (h : top node (ms.map leaf) = top node (ns.map leaf)) : ms = ns := by
  have htrim : ∀ ls : List M, ls.Nodup → ls ≠ [] → (top node (ls.map leaf)).trim = ls := by
    intro ls hls hne
    have hs := shortens_top (show ls.map leaf ≠ [] by simpa using hne)
    rw [repeats_of_nodup (hls.map fun a b hab => leaf.inj hab), List.flatMap_map] at hs
    exact Eq.trans hs (List.flatMap_singleton' ls)
  rw [← htrim ms hm hms, ← htrim ns hn hns, h]

/-! ### Paths -/

lemma exists_path {t : HashTree M} {m : M} (hm : m ∈ t.messages hash pair) :
    ∃ p, fold (hash₂ hash pair) (hash m) p = t.commit hash pair ∧ p.length ≤ t.depth := by
  induction t with
  | leaf m' =>
    obtain rfl : m = m' := by simpa [messages, leaves, inner] using hm
    exact ⟨[], rfl, le_rfl⟩
  | node l r ihl ihr =>
    have hcases : m = pair (l.commit hash pair) (r.commit hash pair) ∨ m ∈ l.messages hash pair ∨
        m ∈ r.messages hash pair := by
      simp only [messages, leaves, inner, List.mem_append, List.mem_cons] at hm ⊢
      tauto
    rcases hcases with rfl | hl | hr
    · exact ⟨[], rfl, Nat.zero_le _⟩
    · obtain ⟨p, hp, hlen⟩ := ihl hl
      refine ⟨p ++ [(r.commit hash pair, true)], ?_, ?_⟩
      · rw [fold_append, hp]
        rfl
      · rw [List.length_append, List.length_singleton, depth]
        omega
    · obtain ⟨p, hp, hlen⟩ := ihr hr
      refine ⟨p ++ [(l.commit hash pair, false)], ?_, ?_⟩
      · rw [fold_append, hp]
        rfl
      · rw [List.length_append, List.length_singleton, depth]
        omega

lemma hash_message (t : HashTree M) : hash (t.message hash pair) = t.commit hash pair := by
  cases t <;> rfl

lemma message_mem (t : HashTree M) : t.message hash pair ∈ t.messages hash pair := by
  cases t with
  | leaf m => exact List.mem_cons_self
  | node l r => exact List.mem_append_right _ List.mem_cons_self

/-- Equal digests are of equal messages, unless two of the messages have one hash. -/
lemma message_eq {t u : HashTree M}
    (hcol : ¬MessageCollision hash (t.messages hash pair ++ u.messages hash pair))
    (h : t.commit hash pair = u.commit hash pair) : message hash pair t = message hash pair u := by
  by_contra hne
  exact hcol ⟨_, List.mem_append_left _ (message_mem t), _,
    List.mem_append_right _ (message_mem u), hne,
    (hash_message t).trans (h.trans (hash_message u).symm)⟩

lemma messages_left {l r : HashTree M} : l.messages hash pair ⊆ (node l r).messages hash pair :=
  List.append_subset.mpr ⟨List.subset_append_of_subset_left _ (List.subset_append_left _ _),
    List.subset_append_of_subset_right _
      (List.subset_cons_of_subset _ (List.subset_append_left _ _))⟩

lemma messages_right {l r : HashTree M} : r.messages hash pair ⊆ (node l r).messages hash pair :=
  List.append_subset.mpr ⟨List.subset_append_of_subset_left _ (List.subset_append_right _ _),
    List.subset_append_of_subset_right _
      (List.subset_cons_of_subset _ (List.subset_append_right _ _))⟩

/-- **The digest of a tree determines it**, where no message of a leaf is one of a node. -/
lemma commit_inj (hpair : ∀ a b c d, pair a b = pair c d → a = c ∧ b = d) {t u : HashTree M}
    (hsep : ∀ m ∈ t.leaves ++ u.leaves, ∀ a b, m ≠ pair a b)
    (hcol : ¬MessageCollision hash (t.messages hash pair ++ u.messages hash pair))
    (h : t.commit hash pair = u.commit hash pair) : t = u := by
  induction t generalizing u with
  | leaf m =>
    have hmsg := message_eq hcol h
    cases u with
    | leaf m' => exact congrArg leaf hmsg
    | node l r => exact absurd hmsg (hsep m List.mem_cons_self _ _)
  | node l r ihl ihr =>
    have hmsg := message_eq hcol h
    cases u with
    | leaf m => exact absurd hmsg.symm (hsep m (by simp [leaves]) _ _)
    | node l' r' =>
      obtain ⟨hl, hr⟩ := hpair _ _ _ _ hmsg
      have heql : l = l' := by
        refine ihl (fun m hm => hsep m ?_) (fun hc => hcol (hc.mono ?_)) hl
        · simp only [leaves, List.mem_append] at hm ⊢
          tauto
        · exact List.append_subset.mpr ⟨List.subset_append_of_subset_left _ messages_left,
            List.subset_append_of_subset_right _ messages_left⟩
      have heqr : r = r' := by
        refine ihr (fun m hm => hsep m ?_) (fun hc => hcol (hc.mono ?_)) hr
        · simp only [leaves, List.mem_append] at hm ⊢
          tauto
        · exact List.append_subset.mpr ⟨List.subset_append_of_subset_left _ messages_right,
            List.subset_append_of_subset_right _ messages_right⟩
      rw [heql, heqr]

/-- **What a path to the root shows**: its message was hashed in the tree; or a message of a leaf
was hashed for a node of the path; or two different messages among those of the tree and of the path
have one hash. -/
theorem fold_message_sound (hpair : ∀ a b c d, pair a b = pair c d → a = c ∧ b = d) {t : HashTree M}
    {m : M} {p : List (D × Bool)} (h : fold (hash₂ hash pair) (hash m) p = t.commit hash pair) :
    m ∈ t.messages hash pair ∨
      (∃ q ∈ foldPairs (hash₂ hash pair) (hash m) p, pair q.1 q.2 ∈ t.leaves) ∨
      MessageCollision hash (t.messages hash pair ++ foldMessages hash pair m p) := by
  induction p using List.reverseRecOn generalizing t with
  | nil =>
    by_cases heq : m = t.message hash pair
    · exact .inl (heq ▸ message_mem t)
    · exact .inr
        (.inr ⟨m, by simp [foldMessages], _, List.mem_append_left _ (message_mem t), heq,
          h.trans (hash_message t).symm⟩)
  | append_singleton p e ih =>
    obtain ⟨a, b, hq⟩ : ∃ a b, stepPair (fold (hash₂ hash pair) (hash m) p) e = (a, b) :=
      ⟨_, _, rfl⟩
    rw [fold_append] at h
    have hlast : hash (pair a b) = hash (message hash pair t) := by
      refine Eq.trans ?_ (h.trans (hash_message t).symm)
      exact ((foldStep_eq _ _ _).trans (by rw [hq]; rfl)).symm
    rw [foldMessages, foldPairs_concat, hq]
    by_cases heq : pair a b = message hash pair t
    · cases t with
      | leaf m' => exact .inr (.inl ⟨(a, b), by simp, by simp [leaves, heq, message]⟩)
      | node l r =>
        -- the last step goes through a child, and the rest of the path ends there
        obtain ⟨rfl, rfl⟩ := hpair _ _ _ _ heq
        obtain ⟨c, hc, hleaves, hall⟩ : ∃ c : HashTree M,
          fold (hash₂ hash pair) (hash m) p = c.commit hash pair ∧
            c.leaves ⊆ (node l r).leaves ∧
                c.messages hash pair ⊆ (node l r).messages hash pair := by
          unfold stepPair at hq
          split at hq
          · exact ⟨l, (Prod.mk.inj hq).1, List.subset_append_left _ _, messages_left⟩
          · exact ⟨r, (Prod.mk.inj hq).2, List.subset_append_right _ _, messages_right⟩
        rcases ih hc with hm | ⟨q, hq, hmem⟩ | hcol
        · exact .inl (hall hm)
        · exact .inr (.inl ⟨q, List.mem_append_left _ hq, hleaves hmem⟩)
        · refine .inr
            (.inr (hcol.mono (List.append_subset.mpr ⟨List.subset_append_of_subset_left _ hall,
            List.subset_append_of_subset_right _ ?_⟩)))
          rw [foldMessages, List.map_append]
          exact List.cons_subset_cons _ (List.subset_append_left _ _)
    · refine .inr (.inr ⟨pair a b, ?_, _, List.mem_append_left _ (message_mem t), heq, hlast⟩)
      exact List.mem_append_right _
        (List.mem_cons_of_mem _ (List.mem_map_of_mem (List.mem_append_right _ List.mem_cons_self)))

end HashTree

end MemServe.MerkleTree
