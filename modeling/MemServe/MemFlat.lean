import MemServe.Flat

/-!
The striped store implements the flat one.

`flatten` forgets the stripes. It commutes with every write, as long as each spent record
stands in the index of its spend height, which every write keeps.
-/

namespace MemServe

namespace Mem

/-- Every spent record of the stripe, except at `op`, stands in the index of its height. -/
def Stripe.IndexedExcept (st : Stripe) (op : Option Outpoint) : Prop :=
  ∀ op' u, some op' ≠ op → st.utxo.get op' = some u → u.spent = true →
    ∃ set, st.spentIdx.get u.spentHeight = some set ∧ op' ∈ set

def Stripe.Indexed (st : Stripe) : Prop := st.IndexedExcept none

lemma Stripe.Indexed.of_eq {st st' : Stripe} (h : st.Indexed) (hu : st'.utxo = st.utxo)
    (hi : st'.spentIdx = st.spentIdx) : st'.Indexed := by
  unfold Indexed IndexedExcept at *
  rw [hu, hi]
  exact h

lemma newStripe_indexed : newStripe.Indexed := by
  intro op u _ h
  simp [newStripe] at h

lemma indexSpent_indexed {st : Stripe} (h : st.Indexed) (op : Outpoint) (u : UTXO) :
    (indexSpent { st with utxo := st.utxo.set op u } op u.spentHeight).Indexed := by
  intro op' u' _ hget hsp
  simp only [indexSpent, GoMap.get_set] at hget ⊢
  by_cases hop : op' = op
  · subst hop
    obtain rfl : u = u' := by simpa using hget
    exact ⟨_, if_pos rfl, Finset.mem_insert_self _ _⟩
  · rw [if_neg hop] at hget
    obtain ⟨set, hset, hmem⟩ := h op' u' (by simp) hget hsp
    by_cases hh : u'.spentHeight = u.spentHeight
    · refine ⟨_, if_pos hh, Finset.mem_insert_of_mem ?_⟩
      rw [← hh, hset]
      exact hmem
    · exact ⟨set, by rw [if_neg hh, hset], hmem⟩

lemma deindexSpent_indexed {st : Stripe} (h : st.Indexed) (op : Outpoint) (hgt : UInt32) :
    (deindexSpent st op hgt).IndexedExcept (some op) := by
  have hkeep : st.IndexedExcept (some op) := fun op' u _ => h op' u (by simp)
  unfold deindexSpent
  cases hset : st.spentIdx.get hgt with
  | none => exact hkeep
  | some set =>
    intro op' u hne hget hsp
    have hne' : op' ≠ op := fun e => hne (by rw [e])
    have hget' : st.utxo.get op' = some u := by
      revert hget; dsimp only; split_ifs <;> exact id
    obtain ⟨set', hset', hmem⟩ := h op' u (by simp) hget' hsp
    by_cases hh : u.spentHeight = hgt
    · -- the entry of this height: it keeps `op'`, so it is not deleted
      rw [hh, hset] at hset'
      obtain rfl : set = set' := by simpa using hset'
      have hmem' : op' ∈ set.erase op := Finset.mem_erase.mpr ⟨hne', hmem⟩
      have hne0 : set.erase op ≠ ∅ := Finset.ne_empty_of_mem hmem'
      exact ⟨set.erase op, by simp [hne0, hh], hmem'⟩
    · refine ⟨set', ?_, hmem⟩
      dsimp only
      split_ifs
      · rw [GoMap.get_delete_of_ne _ hh, hset']
      · rw [GoMap.get_set_of_ne _ _ hh, hset']

lemma deindexSpent_eq (st : Stripe) (op : Outpoint) (h : UInt32) :
    ∃ idx, deindexSpent st op h = { st with spentIdx := idx } := by
  unfold deindexSpent
  split
  · exact ⟨_, rfl⟩
  · split_ifs
    · exact ⟨_, rfl⟩
    · exact ⟨_, rfl⟩

lemma Stripe.IndexedExcept.setUnspent {st : Stripe} {op : Outpoint} (h : st.IndexedExcept (some op))
    {u : UTXO} (hu : u.spent = false) : Stripe.Indexed { st with utxo := st.utxo.set op u } := by
  intro op' u' _ hget hsp
  by_cases hop : op' = op
  · subst hop
    obtain rfl : u = u' := by simpa using hget
    rw [hu] at hsp
    exact absurd hsp (by simp)
  · rw [GoMap.get_set_of_ne _ _ hop] at hget
    exact h op' u' (by simpa using hop) hget hsp

lemma Stripe.IndexedExcept.delete {st : Stripe} {op : Outpoint} (h : st.IndexedExcept (some op)) :
    Stripe.Indexed { st with utxo := st.utxo.delete op } := by
  intro op' u' _ hget hsp
  by_cases hop : op' = op
  · subst hop
    simp at hget
  · rw [GoMap.get_delete_of_ne _ hop] at hget
    exact h op' u' (by simpa using hop) hget hsp

lemma freed_indexed {st : Stripe} (h : st.Indexed) (op : Outpoint) (u : UTXO) :
    (if u.spent then deindexSpent st op u.spentHeight else st).IndexedExcept (some op) := by
  split_ifs
  · exact deindexSpent_indexed h op u.spentHeight
  · exact fun op' u _ => h op' u (by simp)

lemma pruneStripe_utxo {st : Stripe} (hst : st.Indexed) (h : UInt32) (op : Outpoint) :
    (Store.pruneStripe h st).2.utxo.get op = (st.utxo.get op).filter fun u => !u.spentAt h := by
  have hidx : ∀ u, st.utxo.get op = some u → u.spentAt h = true →
      ∃ set, st.spentIdx.get h = some set ∧ op ∈ set := by
    intro u hu hat
    simp only [UTXO.spentAt, Bool.and_eq_true, beq_iff_eq] at hat
    simpa only [hat.2] using hst op u (by simp) hu hat.1
  unfold Store.pruneStripe
  cases hset : st.spentIdx.get h with
  | none =>
    -- no band at this height, so nothing here was spent at it
    cases hu : st.utxo.get op with
    | none => simp
    | some u =>
      have hat : u.spentAt h = false := by
        by_contra hat
        obtain ⟨set, hset', -⟩ := hidx u hu (by simpa using hat)
        simp [hset] at hset'
      simp [hat, Option.filter]
  | some set =>
    simp only [GoMap.get_deleteRange]
    cases hu : st.utxo.get op with
    | none => simp
    | some u =>
      have hp : (u.spent && u.spentHeight == h) = u.spentAt h := rfl
      by_cases hat : u.spentAt h = true
      · obtain ⟨set', hset', hmem⟩ := hidx u hu hat
        obtain rfl : set = set' := by simpa [hset] using hset'
        simp [hp, hat, hmem, Option.filter]
      · simp [hp, hat, Option.filter]

lemma pruneStripe_indexed {st : Stripe} (hst : st.Indexed) (h : UInt32) :
    (Store.pruneStripe h st).2.Indexed := by
  intro op u _ hget hsp
  rw [pruneStripe_utxo hst] at hget
  obtain ⟨hu, hat⟩ := Option.filter_eq_some_iff.mp hget
  have hne : u.spentHeight ≠ h := by
    intro e
    simp [UTXO.spentAt, hsp, e] at hat
  obtain ⟨set, hset, hmem⟩ := hst op u (by simp) hu hsp
  refine ⟨set, ?_, hmem⟩
  unfold Store.pruneStripe
  split
  · exact hset
  · rw [GoMap.get_delete_of_ne _ hne, hset]

@[simp] lemma pruneStripe_txindex (st : Stripe) (h : UInt32) :
    (Store.pruneStripe h st).2.txindex = st.txindex := by
  unfold Store.pruneStripe; split <;> rfl

@[simp] lemma pruneStripe_subtree (st : Stripe) (h : UInt32) :
    (Store.pruneStripe h st).2.subtree = st.subtree := by
  unfold Store.pruneStripe; split <;> rfl

@[simp] lemma pruneStripe_blocks (st : Stripe) (h : UInt32) :
    (Store.pruneStripe h st).2.blocks = st.blocks := by
  unfold Store.pruneStripe; split <;> rfl

/-! ### Forgetting the stripes -/

namespace Store

def Indexed (s : Store) : Prop := ∀ i, (s.st i).Indexed

def flatten (s : Store) : Flat :=
  ⟨s.getTxIndex, s.getUTXO, s.getSubtree, s.getBlock, s.getHeader, s.hidx.get⟩

lemma new_indexed : (new : Store).Indexed := fun _ => newStripe_indexed

@[simp] lemma flatten_new : (new : Store).flatten = Flat.empty := rfl

lemma update_st (s : Store) (key : Hash) (f : Stripe → Stripe) (i : UInt8) :
    (s.update key f).st i = if i = striperOf key then f (s.st i) else s.st i := by
  unfold update
  by_cases h : i = striperOf key
  · subst h; simp
  · simp [h]

lemma Indexed.update {s : Store} (hs : s.Indexed) (key : Hash) {f : Stripe → Stripe}
    (hf : ∀ st, st.Indexed → (f st).Indexed) : (s.update key f).Indexed := by
  intro i
  rw [update_st]
  split_ifs
  · exact hf _ (hs i)
  · exact hs i

/-! A stripe update that writes one key of one map, as a write of the flat store. -/

section Lookup

variable {K V : Type} {p : Stripe → GoMap K V} {f : Stripe → Stripe} (s : Store)

lemma lookup_frame (key : Hash) (i : UInt8) (hf : ∀ st, p (f st) = p st) :
    p ((s.update key f).st i) = p (s.st i) := by
  rw [update_st]
  split_ifs
  · exact hf _
  · rfl

lemma lookup_write [DecidableEq K] (keyOf : K → Hash) (k : K) {v : Option V}
    (hf : ∀ st j, (p (f st)).get j = if j = k then v else (p st).get j) :
    (fun j => (p ((s.update (keyOf k) f).st (striperOf (keyOf j)))).get j) =
      Function.update (fun j => (p (s.st (striperOf (keyOf j)))).get j) k v := by
  funext j
  rw [update_st, Function.update_apply]
  by_cases h : j = k
  · subst h; simp [hf]
  · rw [if_neg h]
    split_ifs
    · rw [hf, if_neg h]
    · rfl

end Lookup

variable (s : Store)

lemma flatten_update_txindex (txid : Hash) {v : Option TxIndex}
    {g : GoMap Hash TxIndex → GoMap Hash TxIndex}
    (hg : ∀ m t, (g m).get t = if t = txid then v else m.get t) :
    (s.update txid fun st => { st with txindex := g st.txindex }).flatten =
      { s.flatten with txindex := Function.update s.getTxIndex txid v } := by
  refine Flat.ext ?_ ?_ ?_ ?_ rfl rfl
  · exact lookup_write (p := Stripe.txindex) s id txid fun st t => hg st.txindex t
  · exact funext fun op =>
      congrArg (GoMap.get · op) (lookup_frame (p := Stripe.utxo) s txid _ fun _ => rfl)
  · exact funext fun r =>
      congrArg (GoMap.get · r) (lookup_frame (p := Stripe.subtree) s txid _ fun _ => rfl)
  · exact funext fun r =>
      congrArg (GoMap.get · r) (lookup_frame (p := Stripe.blocks) s txid _ fun _ => rfl)

lemma flatten_update_subtree (root : Hash) {v : Option (List Hash)}
    {g : GoMap Hash (List Hash) → GoMap Hash (List Hash)}
    (hg : ∀ m t, (g m).get t = if t = root then v else m.get t) :
    (s.update root fun st => { st with subtree := g st.subtree }).flatten =
      { s.flatten with subtree := Function.update s.getSubtree root v } := by
  refine Flat.ext ?_ ?_ ?_ ?_ rfl rfl
  · exact funext fun t =>
      congrArg (GoMap.get · t) (lookup_frame (p := Stripe.txindex) s root _ fun _ => rfl)
  · exact funext fun op =>
      congrArg (GoMap.get · op) (lookup_frame (p := Stripe.utxo) s root _ fun _ => rfl)
  · exact lookup_write (p := Stripe.subtree) s id root fun st t => hg st.subtree t
  · exact funext fun r =>
      congrArg (GoMap.get · r) (lookup_frame (p := Stripe.blocks) s root _ fun _ => rfl)

lemma flatten_update_blocks (hash : Hash) {v : Option BlockRec}
    {g : GoMap Hash BlockRec → GoMap Hash BlockRec}
    (hg : ∀ m t, (g m).get t = if t = hash then v else m.get t) :
    (s.update hash fun st => { st with blocks := g st.blocks }).flatten =
      { s.flatten with blocks := Function.update s.getBlock hash v } := by
  refine Flat.ext ?_ ?_ ?_ ?_ rfl rfl
  · exact funext fun t =>
      congrArg (GoMap.get · t) (lookup_frame (p := Stripe.txindex) s hash _ fun _ => rfl)
  · exact funext fun op =>
      congrArg (GoMap.get · op) (lookup_frame (p := Stripe.utxo) s hash _ fun _ => rfl)
  · exact funext fun r =>
      congrArg (GoMap.get · r) (lookup_frame (p := Stripe.subtree) s hash _ fun _ => rfl)
  · exact lookup_write (p := Stripe.blocks) s id hash fun st t => hg st.blocks t

lemma flatten_update_utxo {op : Outpoint} {v : Option UTXO} {f : Stripe → Stripe}
    (hu : ∀ st t, (f st).utxo.get t = if t = op then v else st.utxo.get t)
    (hf : ∀ st, ∃ utxo idx, f st = { st with utxo := utxo, spentIdx := idx }) :
    (s.update op.txID f).flatten = { s.flatten with utxo := Function.update s.getUTXO op v } := by
  refine Flat.ext ?_ ?_ ?_ ?_ rfl rfl
  · refine funext fun t =>
      congrArg (GoMap.get · t) (lookup_frame (p := Stripe.txindex) s op.txID _ fun st => ?_)
    obtain ⟨utxo, idx, h⟩ := hf st
    rw [h]
  · exact lookup_write (p := Stripe.utxo) s Outpoint.txID op hu
  · refine funext fun r =>
      congrArg (GoMap.get · r) (lookup_frame (p := Stripe.subtree) s op.txID _ fun st => ?_)
    obtain ⟨utxo, idx, h⟩ := hf st
    rw [h]
  · refine funext fun r =>
      congrArg (GoMap.get · r) (lookup_frame (p := Stripe.blocks) s op.txID _ fun st => ?_)
    obtain ⟨utxo, idx, h⟩ := hf st
    rw [h]

lemma flatten_hidx (m : GoMap UInt32 HeightEntry) :
    ({ s with hidx := m } : Store).flatten = { s.flatten with hidx := m.get } := rfl

lemma flatten_putTxIndex (txid : Hash) (ix : TxIndex) :
    (s.putTxIndex txid ix).flatten = s.flatten.apply (.putTxIndex txid ix) := by
  have h := flatten_update_txindex s txid (v := some ix) (g := fun m => m.set txid ix)
    fun m t => GoMap.get_set m txid t ix
  have hnone : (!(s.getTxIndex txid).isSome) = (s.flatten.txindex txid).isNone := by
    simp [flatten]
  unfold putTxIndex
  dsimp only
  rw [hnone]
  split_ifs with hc
  · rw [flatten_hidx, h, GoMap.get_set_eq]
    exact Flat.ext rfl rfl rfl rfl rfl (if_pos hc).symm
  · rw [h]
    exact Flat.ext rfl rfl rfl rfl rfl (if_neg hc).symm

lemma flatten_putUTXO (op : Outpoint) (u : UTXO) :
    (s.putUTXO op u).flatten = s.flatten.apply (.putUTXO op u) := by
  unfold putUTXO
  rw [flatten_update_utxo s (v := some u)]
  · refine Flat.ext rfl (funext fun op' => ?_) rfl rfl rfl rfl
    exact Function.update_apply _ _ _ _
  · intro st t
    dsimp only
    split_ifs <;> simp [indexSpent, GoMap.get_set, *]
  · intro st
    dsimp only
    split_ifs
    · exact ⟨_, _, rfl⟩
    · exact ⟨_, _, rfl⟩

lemma flatten_spendUTXO (op : Outpoint) (spentBy : Hash) (h : UInt32) :
    (s.spendUTXO op spentBy h).2.flatten = s.flatten.apply (.spendUTXO op spentBy h) := by
  unfold spendUTXO
  cases hu : s.getUTXO op with
  | none =>
    refine Flat.ext rfl (funext fun op' => ?_) rfl rfl rfl rfl
    simp only [Flat.apply_utxo, Call.cell]
    split_ifs with he
    · subst he; simp [flatten, hu]
    · rfl
  | some u =>
    dsimp only
    rw [flatten_update_utxo s (v := some (u.spend spentBy h))]
    · refine Flat.ext rfl (funext fun op' => ?_) rfl rfl rfl rfl
      simp only [Flat.apply_utxo, Call.cell, Function.update_apply]
      split_ifs with he
      · subst he; simp [flatten, hu]
      · rfl
    · intro st t
      exact GoMap.get_set _ _ _ _
    · exact fun st => ⟨_, _, rfl⟩

lemma freed_eq (st : Stripe) (op : Outpoint) (u : UTXO) :
    ∃ idx, (if u.spent then deindexSpent st op u.spentHeight else st) =
      { st with spentIdx := idx } := by
  split_ifs
  · exact deindexSpent_eq st op u.spentHeight
  · exact ⟨_, rfl⟩

lemma flatten_unspendUTXO (op : Outpoint) :
    (s.unspendUTXO op).2.flatten = s.flatten.apply (.unspendUTXO op) := by
  unfold unspendUTXO
  cases hu : s.getUTXO op with
  | none =>
    refine Flat.ext rfl (funext fun op' => ?_) rfl rfl rfl rfl
    simp only [Flat.apply_utxo, Call.cell]
    split_ifs with he
    · subst he; simp [flatten, hu]
    · rfl
  | some u =>
    dsimp only
    rw [flatten_update_utxo s (v := some u.unspend)]
    · refine Flat.ext rfl (funext fun op' => ?_) rfl rfl rfl rfl
      simp only [Flat.apply_utxo, Call.cell, Function.update_apply]
      split_ifs with he
      · subst he; simp [flatten, hu]
      · rfl
    · intro st t
      obtain ⟨idx, h⟩ := freed_eq st op u
      rw [h]
      exact GoMap.get_set _ _ _ _
    · intro st
      obtain ⟨idx, h⟩ := freed_eq st op u
      exact ⟨_, idx, by rw [h]⟩

lemma flatten_deleteUTXO (op : Outpoint) :
    (s.deleteUTXO op).2.flatten = s.flatten.apply (.deleteUTXO op) := by
  unfold deleteUTXO
  cases hu : s.getUTXO op with
  | none =>
    refine Flat.ext rfl (funext fun op' => ?_) rfl rfl rfl rfl
    simp only [Flat.apply_utxo, Call.cell]
    split_ifs with he
    · subst he; simp [flatten, hu]
    · rfl
  | some u =>
    dsimp only
    rw [flatten_update_utxo s (v := none)]
    · refine Flat.ext rfl (funext fun op' => ?_) rfl rfl rfl rfl
      simp only [Flat.apply_utxo, Call.cell, Function.update_apply]
      rfl
    · intro st t
      obtain ⟨idx, h⟩ := freed_eq st op u
      rw [h]
      exact GoMap.get_delete _ _ _
    · intro st
      obtain ⟨idx, h⟩ := freed_eq st op u
      exact ⟨_, idx, by rw [h]⟩

lemma flatten_pruneTx (txid : Hash) : (s.pruneTx txid).2.flatten = s.flatten.dropTxs [txid] := by
  unfold pruneTx
  cases h : s.getTxIndex txid with
  | none =>
    refine Flat.ext (funext fun t => ?_) rfl rfl rfl rfl rfl
    by_cases ht : t = txid
    · simp [flatten, Flat.dropTxs, ht, h]
    · simp [flatten, Flat.dropTxs, ht]
  | some ix =>
    dsimp only
    rw [flatten_update_txindex s _ fun m t => GoMap.get_delete m txid t]
    refine Flat.ext (funext fun t => ?_) rfl rfl rfl rfl rfl
    simp [flatten, Flat.dropTxs, Function.update_apply]

lemma flatten_pruneSubtree (root : Hash) :
    (s.pruneSubtree root).2.flatten = s.flatten.dropSubtrees [root] := by
  unfold pruneSubtree
  cases h : s.getSubtree root with
  | none =>
    refine Flat.ext rfl rfl (funext fun t => ?_) rfl rfl rfl
    by_cases ht : t = root
    · simp [flatten, Flat.dropSubtrees, ht, h]
    · simp [flatten, Flat.dropSubtrees, ht]
  | some ix =>
    dsimp only
    rw [flatten_update_subtree s _ fun m t => GoMap.get_delete m root t]
    refine Flat.ext rfl rfl (funext fun t => ?_) rfl rfl rfl
    simp [flatten, Flat.dropSubtrees, Function.update_apply]

lemma flatten_pruneBlock (hash : Hash) :
    (s.pruneBlock hash).2.flatten = s.flatten.dropBlock hash := by
  unfold pruneBlock
  cases h : s.getBlock hash with
  | none =>
    refine Flat.ext rfl rfl rfl ?_ rfl rfl
    exact (Function.update_eq_self_iff.mpr h.symm).symm
  | some ix => exact flatten_update_blocks s _ fun m t => GoMap.get_delete m hash t

lemma flatten_pruneHeader (h : UInt32) :
    (s.pruneHeader h).2.flatten =
      { s.flatten with hdr := Function.update s.flatten.hdr h none } := by
  unfold pruneHeader
  cases hh : s.getHeader h with
  | none =>
    refine Flat.ext rfl rfl rfl rfl ?_ rfl
    exact (Function.update_eq_self_iff.mpr hh.symm).symm
  | some ix => exact Flat.ext rfl rfl rfl rfl (GoMap.get_delete_eq _ _) rfl

lemma deleteTxIndex_eq_pruneTx (txid : Hash) : (s.deleteTxIndex txid).2 = (s.pruneTx txid).2 := by
  unfold deleteTxIndex pruneTx
  cases s.getTxIndex txid <;> rfl

lemma flatten_deleteTxIndex (txid : Hash) :
    (s.deleteTxIndex txid).2.flatten = s.flatten.apply (.deleteTxIndex txid) := by
  rw [deleteTxIndex_eq_pruneTx, flatten_pruneTx]
  refine Flat.ext (funext fun t => ?_) rfl rfl rfl rfl rfl
  simp [flatten, Flat.dropTxs, Flat.apply, Function.update_apply]

lemma flatten_putSubtree (root : Hash) (leaves : List Hash) :
    (s.putSubtree root leaves).flatten = s.flatten.apply (.putSubtree root leaves) :=
  flatten_update_subtree s _ fun m t => GoMap.get_set m root t leaves

lemma flatten_putBlock (b : BlockRec) :
    (s.putBlock b).flatten = s.flatten.apply (.putBlock b) := by
  have h := flatten_update_blocks s b.hash (v := some b) (g := fun m => m.set b.hash b)
    fun m t => GoMap.get_set m b.hash t b
  unfold putBlock
  dsimp only
  rw [flatten_hidx, h, GoMap.get_set_eq]
  rfl

lemma flatten_putHeader (height : UInt32) (hdr : Header) :
    (s.putHeader height hdr).flatten = s.flatten.apply (.putHeader height hdr) :=
  Flat.ext rfl rfl rfl rfl (GoMap.get_set_eq _ _ _) rfl

lemma flatten_pruneSpentAtHeight (hs : s.Indexed) (h : UInt32) :
    (s.pruneSpentAtHeight h).2.flatten = s.flatten.apply (.pruneSpentAtHeight h) := by
  refine Flat.ext (funext fun t => ?_) (funext fun op => ?_) (funext fun r => ?_)
    (funext fun r => ?_)
    rfl rfl
  · exact congrArg (GoMap.get · t) (pruneStripe_txindex _ h)
  · exact pruneStripe_utxo (hs _) h op
  · exact congrArg (GoMap.get · r) (pruneStripe_subtree _ h)
  · exact congrArg (GoMap.get · r) (pruneStripe_blocks _ h)

lemma flatten_pruneEach_subtree (l : List Hash) (r : ℕ × Store) :
    (pruneEach pruneSubtree l r).2.flatten = r.2.flatten.dropSubtrees l := by
  induction l generalizing r with
  | nil => rfl
  | cons a l ih => rw [Flat.dropSubtrees_cons, ← flatten_pruneSubtree]; exact ih _

lemma flatten_pruneEach_tx (l : List Hash) (r : ℕ × Store) :
    (pruneEach pruneTx l r).2.flatten = r.2.flatten.dropTxs l := by
  induction l generalizing r with
  | nil => rfl
  | cons a l ih => rw [Flat.dropTxs_cons, ← flatten_pruneTx]; exact ih _

lemma flatten_pruneIndexAtHeight (h : UInt32) :
    (s.pruneIndexAtHeight h).2.flatten = s.flatten.apply (.pruneIndexAtHeight h) := by
  have hidx : ({ s with hidx := s.hidx.delete h } : Store).flatten =
      { s.flatten with hidx := Function.update s.flatten.hidx h none } := by
    rw [flatten_hidx, GoMap.get_delete_eq]
    rfl
  unfold pruneIndexAtHeight
  dsimp only
  rw [flatten_pruneHeader]
  cases he : s.hidx.get h with
  | none =>
    -- nothing is indexed at `h`: only the header goes
    have hent : s.flatten.entry h = {} := by simp [Flat.entry, flatten, he]
    dsimp only
    rw [hidx]
    simp only [Flat.apply, Flat.entry] at hent ⊢
    simp only [hent, Flat.dropSubtrees_nil, Flat.dropTxs_nil]
    rfl
  | some e =>
    have hent : s.flatten.entry h = e := by simp [Flat.entry, flatten, he]
    dsimp only
    rw [flatten_pruneEach_tx, flatten_pruneEach_subtree]
    simp only [Flat.apply, Flat.entry] at hent ⊢
    simp only [hent]
    cases e.hasBlock with
    | false => simp only [Bool.false_eq_true, if_false, hidx]; rfl
    | true => simp only [if_true, flatten_pruneBlock, hidx]; rfl

/-! ### Every write keeps the index -/

variable {s}

lemma Indexed.spendUTXO (hs : s.Indexed) (op : Outpoint) (spentBy : Hash) (h : UInt32) :
    (s.spendUTXO op spentBy h).2.Indexed := by
  unfold Store.spendUTXO
  split
  · exact hs
  · exact hs.update _ fun st hst => indexSpent_indexed hst op _

lemma Indexed.unspendUTXO (hs : s.Indexed) (op : Outpoint) : (s.unspendUTXO op).2.Indexed := by
  unfold Store.unspendUTXO
  split
  · exact hs
  · exact hs.update _ fun st hst => (freed_indexed hst op _).setUnspent rfl

lemma Indexed.deleteUTXO (hs : s.Indexed) (op : Outpoint) : (s.deleteUTXO op).2.Indexed := by
  unfold Store.deleteUTXO
  split
  · exact hs
  · exact hs.update _ fun st hst => (freed_indexed hst op _).delete

lemma Indexed.putUTXO (hs : s.Indexed) (op : Outpoint) (u : UTXO) : (s.putUTXO op u).Indexed := by
  refine hs.update _ fun st hst => ?_
  cases hsp : u.spent with
  | true => simpa [hsp] using indexSpent_indexed hst op u
  | false =>
    have h : st.IndexedExcept (some op) := fun op' u _ => hst op' u (by simp)
    simpa [hsp] using h.setUnspent hsp

/-- Two stores with the same records and the same index of spends. -/
def SameRecords (s s' : Store) : Prop :=
  ∀ i, (s'.st i).utxo = (s.st i).utxo ∧ (s'.st i).spentIdx = (s.st i).spentIdx

namespace SameRecords

lemma refl (s : Store) : s.SameRecords s := fun _ => ⟨rfl, rfl⟩

lemma trans {s s' s'' : Store} (h : s.SameRecords s') (h' : s'.SameRecords s'') :
    s.SameRecords s'' :=
  fun i => ⟨(h' i).1.trans (h i).1, (h' i).2.trans (h i).2⟩

lemma update (s : Store) (key : Hash) {f : Stripe → Stripe} (hu : ∀ st, (f st).utxo = st.utxo)
    (hi : ∀ st, (f st).spentIdx = st.spentIdx) : s.SameRecords (s.update key f) := by
  intro i
  rw [update_st]
  split_ifs
  · exact ⟨hu _, hi _⟩
  · exact ⟨rfl, rfl⟩

lemma pruneTx (s : Store) (txid : Hash) : s.SameRecords (s.pruneTx txid).2 := by
  unfold Store.pruneTx
  split
  · exact refl s
  · dsimp only
    exact update s txid (fun _ => rfl) fun _ => rfl

lemma pruneSubtree (s : Store) (root : Hash) : s.SameRecords (s.pruneSubtree root).2 := by
  unfold Store.pruneSubtree
  split
  · exact refl s
  · dsimp only
    exact update s root (fun _ => rfl) fun _ => rfl

lemma pruneBlock (s : Store) (hash : Hash) : s.SameRecords (s.pruneBlock hash).2 := by
  unfold Store.pruneBlock
  split
  · exact refl s
  · dsimp only
    exact update s hash (fun _ => rfl) fun _ => rfl

lemma pruneEach {α : Type} {f : Store → α → ℕ × Store}
    (hf : ∀ (s : Store) a, s.SameRecords (f s a).2) (l : List α)
    (r : ℕ × Store) : r.2.SameRecords (pruneEach f l r).2 := by
  induction l generalizing r with
  | nil => exact refl r.2
  | cons a l ih => exact (hf r.2 a).trans (ih (r.1 + (f r.2 a).1, (f r.2 a).2))

lemma pruneIndexAtHeight (s : Store) (h : UInt32) : s.SameRecords (s.pruneIndexAtHeight h).2 := by
  have hhdr : ∀ s : Store, s.SameRecords (s.pruneHeader h).2 := by
    intro s
    unfold Store.pruneHeader
    split
    · exact refl s
    · exact refl s
  unfold Store.pruneIndexAtHeight
  refine trans ?_ (hhdr _)
  split
  · exact refl s
  · next e _ =>
    refine trans (trans ?_ (pruneEach pruneSubtree e.subtrees _)) (pruneEach pruneTx e.txids _)
    split_ifs
    · exact pruneBlock { s with hidx := s.hidx.delete h } e.block
    · exact refl s

lemma indexed {s s' : Store} (h : s.SameRecords s') (hs : s.Indexed) : s'.Indexed :=
  fun i => (hs i).of_eq (h i).1 (h i).2

end SameRecords

lemma apply_sameRecords (s : Store) (c : Call) (hc : c.utxoOnly = false) :
    s.SameRecords (s.apply c) := by
  cases c with
  | putTxIndex txid ix =>
    have h :
      s.SameRecords (s.update txid fun st => { st with txindex := st.txindex.set txid ix }) :=
      .update s txid (fun _ => rfl) fun _ => rfl
    simp only [Store.apply, Store.putTxIndex]
    split_ifs
    · exact h
    · exact h
  | deleteTxIndex txid =>
    have hprune : (s.deleteTxIndex txid).2 = (s.pruneTx txid).2 := deleteTxIndex_eq_pruneTx s txid
    simp only [Store.apply, hprune]
    exact .pruneTx s txid
  | putSubtree root leaves =>
    exact SameRecords.update s root
      (f := fun st => { st with subtree := st.subtree.set root leaves }) (fun _ => rfl) fun _ => rfl
  | putBlock b =>
    exact SameRecords.update s b.hash (f := fun st => { st with blocks := st.blocks.set b.hash b })
      (fun _ => rfl) fun _ => rfl
  | putHeader height hdr => exact .refl s
  | pruneIndexAtHeight h => exact .pruneIndexAtHeight s h
  | _ => simp [Call.utxoOnly] at hc

lemma Indexed.apply (hs : s.Indexed) (c : Call) : (s.apply c).Indexed := by
  cases c with
  | putUTXO op u => exact hs.putUTXO op u
  | spendUTXO op spentBy h => exact hs.spendUTXO op spentBy h
  | unspendUTXO op => exact hs.unspendUTXO op
  | deleteUTXO op => exact hs.deleteUTXO op
  | pruneSpentAtHeight h => exact fun i => pruneStripe_indexed (hs i) h
  | _ => exact (apply_sameRecords s _ rfl).indexed hs

/-- **The striped store implements the flat one**, one write at a time. -/
theorem flatten_apply (hs : s.Indexed) (c : Call) : (s.apply c).flatten = s.flatten.apply c := by
  cases c with
  | putTxIndex txid ix => exact flatten_putTxIndex s txid ix
  | putUTXO op u => exact flatten_putUTXO s op u
  | spendUTXO op spentBy h => exact flatten_spendUTXO s op spentBy h
  | unspendUTXO op => exact flatten_unspendUTXO s op
  | deleteUTXO op => exact flatten_deleteUTXO s op
  | deleteTxIndex txid => exact flatten_deleteTxIndex s txid
  | putSubtree root leaves => exact flatten_putSubtree s root leaves
  | putBlock b => exact flatten_putBlock s b
  | putHeader height hdr => exact flatten_putHeader s height hdr
  | pruneSpentAtHeight h => exact flatten_pruneSpentAtHeight s hs h
  | pruneIndexAtHeight h => exact flatten_pruneIndexAtHeight s h

/-- A run of writes on the striped store. -/
def run (cs : List Call) (s : Store) : Store := Trace.run apply cs s

lemma run_append (cs ds : List Call) (s : Store) : s.run (cs ++ ds) = (s.run cs).run ds :=
  Trace.run_append _ _ _ _

lemma Indexed.run (hs : s.Indexed) (cs : List Call) : (s.run cs).Indexed :=
  Trace.run_invariant _ (fun c _ _ h => h.apply c) hs

/-- **Whole runs** of the striped and the flat store agree. -/
theorem flatten_run (hs : s.Indexed) (cs : List Call) : (s.run cs).flatten = s.flatten.run cs := by
  have h : (s.run cs).Indexed ∧ (s.run cs).flatten = s.flatten.run cs :=
    Trace.run_related (r := fun (s : Store) (f : Flat) => s.Indexed ∧ s.flatten = f) _
      (fun c _ s f h => ⟨h.1.apply c, h.2 ▸ flatten_apply h.1 c⟩) ⟨hs, rfl⟩
  exact h.2

end Store

end Mem

end MemServe
