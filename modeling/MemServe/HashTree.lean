import MemServe.MerkleTree

/-!
Merkle trees before they are hashed.

With the constructor `node` in place of the hash, the tree over a list is a binary tree. Hashing it
gives the root, and where no two pairs collide the root gives the tree back. It does not give back
the list: an odd level and the same level with its last node repeated have one tree. `trim` leaves
out the right one of two equal halves, and is the list unless the list itself has repeated a node
beside itself.
-/

namespace MemServe.MerkleTree

variable {α β : Type} (H : α → α → α)

/-- The root of a tree that has a leaf. -/
def top [Inhabited α] (l : List α) : α := (root? H l).getD default

section Top

variable [Inhabited α]

@[simp] lemma top_singleton (a : α) : top H [a] = a := by
  rw [top, root?_singleton, Option.getD_some]

lemma top_of_one_lt {l : List α} (h : 1 < l.length) : top H l = top H (pairLevel H l) := by
  rw [top, top, root?_of_one_lt H h]

end Top

lemma pairLevel_append_last {l : List α} {a : α} (h : l.length % 2 = 0) :
    pairLevel H (l ++ [a, a]) = pairLevel H (l ++ [a]) := by
  fun_induction pairLevel H l with
  | case1 => rfl
  | case2 b => simp at h
  | case3 b c r ih =>
    simp only [List.length_cons] at h
    simp only [List.cons_append, pairLevel]
    rw [ih (by omega)]

section Map

variable {H} {G : β → β → β} {f : β → α} (hf : ∀ a b, f (G a b) = H (f a) (f b))

include hf

lemma pairLevel_map (l : List β) : pairLevel H (l.map f) = (pairLevel G l).map f := by
  fun_induction pairLevel G l with
  | case1 => rfl
  | case2 a => simp only [List.map_cons, List.map_nil, pairLevel, hf]
  | case3 a b r ih => simp only [List.map_cons, pairLevel, hf, ih]

lemma top_map [Inhabited α] [Inhabited β] {l : List β} (h : l ≠ []) :
    top H (l.map f) = f (top G l) := by
  induction l using level_induction G with
  | nil => exact absurd rfl h
  | one a => rw [List.map_singleton, top_singleton, top_singleton]
  | up l h1 ih =>
    rw [top_of_one_lt H (by rwa [List.length_map]), top_of_one_lt G h1, pairLevel_map hf,
      ih (pairLevel_ne_nil G h)]

end Map

lemma levelPairs_map (f : β → α) (l : List β) :
    levelPairs (l.map f) = (levelPairs l).map (Prod.map f f) := by
  fun_induction levelPairs l with
  | case1 => rfl
  | case2 a => rfl
  | case3 a b r ih => simp only [List.map_cons, levelPairs, ih, Prod.map_apply]

section Repeats

variable [DecidableEq α]

/-- Two nodes of a level that are hashed with each other are equal. -/
def twins : List α → Bool
  | a :: b :: r => decide (a = b) || twins r
  | _ => false

/-- Some level of the tree over `l` has such nodes. The last node of an odd level does not count. -/
def repeats (l : List α) : Bool := (layers H l).any twins

lemma repeats_of_le_one {l : List α} (h : l.length ≤ 1) : repeats H l = false := by
  rw [repeats, layers_of_le_one H h]
  match l, h with
  | [], _ => rfl
  | [a], _ => rfl

lemma repeats_of_one_lt {l : List α} (h : 1 < l.length) :
    repeats H l = (twins l || repeats H (pairLevel H l)) := by
  rw [repeats, layers_of_one_lt H h, List.any_cons, repeats]

lemma twins_map [DecidableEq β] {f : β → α} {l : List β}
    (hinj : ∀ a ∈ l, ∀ b ∈ l, f a = f b → a = b) :
    twins (l.map f) = twins l := by
  induction l using twins.induct with
  | case1 a b r ih =>
    have hab : (f a = f b) ↔ (a = b) :=
      ⟨hinj a List.mem_cons_self b (List.mem_cons_of_mem a List.mem_cons_self), congrArg f⟩
    rw [List.map_cons, List.map_cons, twins, twins, decide_eq_decide.mpr hab, ih fun x hx y hy =>
      hinj x (List.mem_cons_of_mem a (List.mem_cons_of_mem b hx)) y
        (List.mem_cons_of_mem a (List.mem_cons_of_mem b hy))]
  | case2 l hshort =>
    match l, hshort with
    | [], _ => rfl
    | [a], _ => rfl
    | a :: b :: r, hshort => exact absurd rfl (hshort a b r)

end Repeats

/-! ### Trees -/

inductive HashTree (α : Type)
  | leaf (a : α)
  | node (l r : HashTree α)
  deriving DecidableEq

namespace HashTree

instance [Inhabited α] : Inhabited (HashTree α) := ⟨leaf default⟩

def eval : HashTree α → α
  | leaf a => a
  | node l r => H (eval l) (eval r)

def leaves : HashTree α → List α
  | leaf a => [a]
  | node l r => leaves l ++ leaves r

/-- The leaves, without those of the right one of two equal halves. -/
def trim [DecidableEq α] : HashTree α → List α
  | leaf a => [a]
  | node l r => if l = r then trim l else trim l ++ trim r

/-- The leaves are among `ids` and the pairs hashed among `ps`. -/
def Over (ids : List α) (ps : List (α × α)) : HashTree α → Prop
  | leaf a => a ∈ ids
  | node l r => (l.eval H, r.eval H) ∈ ps ∧ l.Over ids ps ∧ r.Over ids ps

/-- No two pairs have one hash, and none has a leaf for its hash. -/
structure Faithful (ids : List α) (ps : List (α × α)) : Prop where
  collision : ¬Collision H ps
  fresh : ∀ a ∈ ids, ∀ p ∈ ps, H p.1 p.2 ≠ a

variable {H} {ids : List α} {ps : List (α × α)}

lemma eval_inj (hap : Faithful H ids ps) {t u : HashTree α} (ht : t.Over H ids ps)
    (hu : u.Over H ids ps)
    (h : t.eval H = u.eval H) : t = u := by
  induction t generalizing u with
  | leaf a =>
    cases u with
    | leaf b => exact congrArg leaf h
    | node l r => exact absurd h.symm (hap.fresh a ht _ hu.1)
  | node l r ihl ihr =>
    cases u with
    | leaf b => exact absurd h (hap.fresh b hu _ ht.1)
    | node l' r' =>
      have hpair : (l.eval H, r.eval H) = (l'.eval H, r'.eval H) := by
        by_contra hne
        exact hap.collision ⟨_, ht.1, _, hu.1, hne, h⟩
      obtain ⟨hl, hr⟩ := Prod.mk.inj hpair
      rw [ihl ht.2.1 hu.2.1 hl, ihr ht.2.2 hu.2.2 hr]

lemma over_pairLevel {ts : List (HashTree α)} (hlt : 1 < ts.length)
    (hts : ∀ t ∈ ts, t.Over H ids ps) (hps : treePairs H (ts.map (eval H)) ⊆ ps) :
    (∀ t ∈ pairLevel node ts, t.Over H ids ps) ∧
      treePairs H ((pairLevel node ts).map (eval H)) ⊆ ps := by
  rw [treePairs_of_one_lt H (by rwa [List.length_map]), levelPairs_map,
    pairLevel_map (G := node) (fun _ _ => rfl), List.append_subset] at hps
  refine ⟨fun t ht => ?_, hps.2⟩
  rw [pairLevel_eq_map] at ht
  obtain ⟨p, hp, rfl⟩ := List.mem_map.mp ht
  obtain ⟨h1, h2⟩ := mem_of_mem_levelPairs hp
  exact ⟨hps.1 (List.mem_map_of_mem hp), hts _ h1, hts _ h2⟩

lemma pairLevel_node_inj {ts us : List (HashTree α)} (hlen : ts.length = us.length)
    (h : pairLevel node ts = pairLevel node us) : ts = us := by
  fun_induction pairLevel node ts generalizing us with
  | case1 => exact (List.eq_nil_of_length_eq_zero hlen.symm).symm
  | case2 t =>
    obtain ⟨u, rfl⟩ := List.length_eq_one_iff.mp hlen.symm
    simp only [pairLevel, List.cons.injEq, node.injEq] at h
    rw [h.1.1]
  | case3 t t' r ih =>
    obtain ⟨u, us, rfl⟩ := List.exists_cons_of_length_eq_add_one hlen.symm
    obtain ⟨u', r', rfl⟩ := List.exists_cons_of_length_eq_add_one (Nat.succ.inj hlen).symm
    simp only [pairLevel, List.cons.injEq, node.injEq] at h
    obtain ⟨⟨rfl, rfl⟩, hr⟩ := h
    rw [ih (by simpa using hlen) hr]

variable [Inhabited α] in
lemma top_node_inj {ts us : List (HashTree α)} (hne : ts ≠ []) (hlen : ts.length = us.length)
    (h : top node ts = top node us) : ts = us := by
  induction ts using level_induction node generalizing us with
  | nil => exact absurd rfl hne
  | one t =>
    obtain ⟨u, rfl⟩ := List.length_eq_one_iff.mp hlen.symm
    rw [top_singleton, top_singleton] at h
    rw [h]
  | up ts h1 ih =>
    rw [top_of_one_lt node h1, top_of_one_lt (l := us) node (hlen ▸ h1)] at h
    refine pairLevel_node_inj hlen (ih (pairLevel_ne_nil node hne) ?_ h)
    rw [length_pairLevel, length_pairLevel, hlen]

lemma forall_pairLevel {P Q : HashTree α → Prop} (hnode : ∀ l r, P l → P r → Q (node l r))
    {ts : List (HashTree α)} (hts : ∀ t ∈ ts, P t) : ∀ t ∈ pairLevel node ts, Q t := by
  intro t ht
  rw [pairLevel_eq_map] at ht
  obtain ⟨p, hp, rfl⟩ := List.mem_map.mp ht
  obtain ⟨h1, h2⟩ := mem_of_mem_levelPairs hp
  exact hnode _ _ (hts _ h1) (hts _ h2)

lemma leaves_pairLevel (ts : List (HashTree α)) :
    ts.flatMap leaves <+: (pairLevel node ts).flatMap leaves := by
  fun_induction pairLevel node ts with
  | case1 => exact List.prefix_rfl
  | case2 t => simp [leaves]
  | case3 t u r ih =>
    simp only [List.flatMap_cons, leaves, List.append_assoc]
    exact (List.prefix_append_right_inj _).mpr ((List.prefix_append_right_inj _).mpr ih)

variable [Inhabited α] in
lemma leaves_top {ts : List (HashTree α)} (hne : ts ≠ []) :
    ts.flatMap leaves <+: (top node ts).leaves := by
  induction ts using level_induction node with
  | nil => exact absurd rfl hne
  | one t => simp
  | up ts h1 ih =>
    rw [top_of_one_lt node h1]
    exact (leaves_pairLevel ts).trans (ih (pairLevel_ne_nil node hne))

lemma length_leaves_pairLevel {k : ℕ} {ts : List (HashTree α)}
    (hts : ∀ t ∈ ts, t.leaves.length = k) : ∀ t ∈ pairLevel node ts, t.leaves.length = 2 * k :=
  forall_pairLevel (fun l r hl hr => by rw [leaves, List.length_append, hl, hr, Nat.two_mul]) hts

variable [Inhabited α] in
lemma length_leaves_top {k : ℕ} {ts : List (HashTree α)} (hne : ts ≠ [])
    (hts : ∀ t ∈ ts, t.leaves.length = k) :
    (top node ts).leaves.length = 2 ^ Nat.clog 2 ts.length * k := by
  induction ts using level_induction node generalizing k with
  | nil => exact absurd rfl hne
  | one t => simpa using hts t List.mem_cons_self
  | up ts h1 ih =>
    rw [top_of_one_lt node h1, ih (pairLevel_ne_nil node hne) (length_leaves_pairLevel hts),
      length_pairLevel, Nat.clog_of_two_le Nat.one_lt_two h1, pow_succ, Nat.mul_assoc]
    rfl

variable [Inhabited α] in
lemma eval_top {ts : List (HashTree α)} (hne : ts ≠ []) :
    (top node ts).eval H = top H (ts.map (eval H)) :=
  (top_map (G := node) (f := eval H) (fun _ _ => rfl) hne).symm

variable [Inhabited α] in
lemma over_top {ts : List (HashTree α)} (hne : ts ≠ []) (hts : ∀ t ∈ ts, t.Over H ids ps)
    (hps : treePairs H (ts.map (eval H)) ⊆ ps) : (top node ts).Over H ids ps := by
  induction ts using level_induction node with
  | nil => exact absurd rfl hne
  | one t =>
    rw [top_singleton]
    exact hts t List.mem_cons_self
  | up ts h1 ih =>
    obtain ⟨hts', hps'⟩ := over_pairLevel h1 hts hps
    rw [top_of_one_lt node h1]
    exact ih (pairLevel_ne_nil node hne) hts' hps'

/-- `t` is the list `l`, or is shorter if `rep`. -/
def Shortens (t l : List α) (rep : Bool) : Prop := if rep then t.length < l.length else t = l

lemma Shortens.length_le {t l : List α} {rep : Bool} (h : Shortens t l rep) :
    t.length ≤ l.length := by
  cases rep with
  | true => exact Nat.le_of_lt h
  | false => exact (congrArg List.length h).le

lemma Shortens.trans {t l m : List α} {r r' : Bool} (h : Shortens t l r) (h' : Shortens l m r') :
    Shortens t m (r' || r) := by
  cases r' with
  | true => exact Nat.lt_of_le_of_lt h.length_le h'
  | false =>
    obtain rfl : l = m := h'
    exact h

lemma Shortens.append {t t' l l' : List α} {r r' : Bool} (h : Shortens t l r)
    (h' : Shortens t' l' r') :
    Shortens (t ++ t') (l ++ l') (r || r') := by
  cases r with
  | true =>
    have hlt : t.length < l.length := h
    have hle := h'.length_le
    simp only [Shortens, Bool.true_or, if_true, List.length_append]
    omega
  | false =>
    obtain rfl : t = l := h
    cases r' with
    | true =>
      have hlt : t'.length < l'.length := h'
      simp only [Shortens, Bool.false_or, if_true, List.length_append]
      omega
    | false => exact congrArg (t ++ ·) h'

lemma Shortens.flatMap {γ : Type} {f g : γ → List α} {r : γ → Bool} {l : List γ}
    (h : ∀ x ∈ l, Shortens (f x) (g x) (r x)) : Shortens (l.flatMap f) (l.flatMap g) (l.any r) := by
  induction l with
  | nil => exact rfl
  | cons x l ih =>
    rw [List.flatMap_cons, List.flatMap_cons, List.any_cons]
    exact (h x List.mem_cons_self).append (ih fun y hy => h y (List.mem_cons_of_mem x hy))

variable [DecidableEq α]

lemma repeats_eval (hap : Faithful H ids ps) {ts : List (HashTree α)}
    (hts : ∀ t ∈ ts, t.Over H ids ps)
    (hps : treePairs H (ts.map (eval H)) ⊆ ps) : repeats H (ts.map (eval H)) = repeats node ts := by
  induction ts using level_induction node with
  | nil => rfl
  | one t => rfl
  | up ts h1 ih =>
    obtain ⟨hts', hps'⟩ := over_pairLevel h1 hts hps
    rw [repeats_of_one_lt node h1, repeats_of_one_lt H (by rwa [List.length_map]),
      pairLevel_map (G := node) (fun _ _ => rfl), ih hts' hps',
      twins_map fun t ht u hu => eval_inj hap (hts t ht) (hts u hu)]

lemma trim_ne_nil (t : HashTree α) : t.trim ≠ [] := by
  induction t with
  | leaf a => exact List.cons_ne_nil a []
  | node l r ihl ihr =>
    rw [trim]
    split_ifs
    · exact ihl
    · exact List.append_ne_nil_of_left_ne_nil ihl _

lemma shortens_pairLevel (ts : List (HashTree α)) :
    Shortens ((pairLevel node ts).flatMap trim) (ts.flatMap trim) (twins ts) := by
  fun_induction pairLevel node ts with
  | case1 => exact rfl
  | case2 t => simp [Shortens, twins, trim]
  | case3 t u r ih =>
    simp only [List.flatMap_cons, twins]
    rw [← List.append_assoc]
    refine Shortens.append ?_ ih
    by_cases h : t = u
    · have hpos := List.length_pos_iff.mpr u.trim_ne_nil
      simp only [Shortens, trim, h, decide_true, if_true, List.length_append]
      omega
    · simp only [Shortens, trim, h, decide_false, if_false, Bool.false_eq_true]

variable [Inhabited α] in
lemma shortens_top {ts : List (HashTree α)} (hne : ts ≠ []) :
    Shortens (top node ts).trim (ts.flatMap trim) (repeats node ts) := by
  induction ts using level_induction node with
  | nil => exact absurd rfl hne
  | one t =>
    rw [repeats_of_le_one node (by simp), top_singleton]
    simp [Shortens]
  | up ts h1 ih =>
    rw [top_of_one_lt node h1, repeats_of_one_lt node h1]
    exact (ih (pairLevel_ne_nil node hne)).trans (shortens_pairLevel ts)

end HashTree

end MemServe.MerkleTree
