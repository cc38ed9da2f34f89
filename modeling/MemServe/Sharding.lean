import MemServe.IndexWindow

/-!
A shard and the node that owns everything.

A shard runs the writes of its own transactions, so what it holds of the index is the part of
the un-sharded index that belongs to its txids. Records are another matter: a spend is applied
by the shard of the spender to the record it would hold of the output, and an output of another
shard is not there. The answers agree as long as no spend reaches across shards.
-/

namespace MemServe

open Teranode Ingest

/-- Whether the shard stores these leaves. -/
def Ingest.Ingestor.ownsAny (ing : Ingestor) (leaves : List Hash) : Bool :=
  if ing.k = 0 then true else leaves.any ing.owns

lemma ownsAny_of_mem {ing : Ingestor} {l : List Hash} {t : Hash} (ht : t ∈ l)
    (h : ing.owns t = true) :
    ing.ownsAny l = true :=
  @ownAny_of_owns ing ⟨default, l, []⟩ t ht h

/-- `s` is the part of the index of `u` that a shard holds. -/
structure ShardOf (ing : Ingestor) (u s : Flat) : Prop where
  txindex : ∀ t, ing.owns t = true → s.txindex t = u.txindex t
  blocks : s.blocks = u.blocks
  subtree : ∀ r, s.subtree r = (u.subtree r).filter ing.ownsAny
  entry : ∀ h, s.entry h = { u.entry h with txids := (u.entry h).txids.filter ing.owns }

/-- Everything in the index was written by a block of `bs`. -/
structure SourcedFrom (bs : List Block) (f : Flat) : Prop where
  blocks : ∀ x r, f.blocks x = some r → ∃ b ∈ bs, b.hash = x ∧ r = blockRec b
  subtree : ∀ r l, f.subtree r = some l → ∃ b ∈ bs, ∃ sub ∈ b.subtrees, sub.root = r ∧ sub.txIDs = l
  txindex : ∀ t ix, f.txindex t = some ix → ∃ b ∈ bs, ∃ si sub, b.subtrees[si]? = some sub ∧
    t ∈ sub.txs.map Tx.txID ∧ ix.blockHash = b.hash ∧ ix.subtreeIndex = UInt32.ofNat si

/-- Equal roots have equal leaves. -/
def SharedLeaves (bs : List Block) : Prop :=
  ∀ b ∈ bs, ∀ c ∈ bs, ∀ s ∈ b.subtrees, ∀ t ∈ c.subtrees, s.root = t.root → s.txIDs = t.txIDs

instance (bs : List Block) : Decidable (SharedLeaves bs) :=
  inferInstanceAs
    (Decidable
      (∀ b ∈ bs, ∀ c ∈ bs, ∀ s ∈ b.subtrees, ∀ t ∈ c.subtrees, s.root = t.root → s.txIDs = t.txIDs))

section Steps

variable {ing whole : Ingestor} {u s : Flat} {b : Block}

lemma ShardOf.pruneIndex (hr : ShardOf ing u s) (h : UInt32) :
    ShardOf ing (u.apply (.pruneIndexAtHeight h)) (s.apply (.pruneIndexAtHeight h)) := by
  rw [Flat.apply_pruneIndex, Flat.apply_pruneIndex]
  refine ⟨fun t ht => ?_, ?_, fun r => ?_, fun a => ?_⟩
  · simp only [hr.entry, List.mem_filter, ht, and_true, hr.txindex t ht]
  · simp only [hr.entry, hr.blocks]
  · simp only [hr.entry, hr.subtree]
    split_ifs <;> rfl
  · have ha := hr.entry a
    simp only [Flat.entry, Function.update_apply] at ha ⊢
    split_ifs
    · rfl
    · exact ha

lemma ShardOf.utxoOnly {cs ds : List Call} (hr : ShardOf ing u s) (hc : ∀ c ∈ cs, c.utxoOnly = true)
    (hd : ∀ c ∈ ds, c.utxoOnly = true) : ShardOf ing (u.run cs) (s.run ds) := by
  rw [Flat.run_utxoOnly hc, Flat.run_utxoOnly hd]
  exact ⟨hr.txindex, hr.blocks, hr.subtree, hr.entry⟩

lemma ShardOf.putBlock (hr : ShardOf ing u s) (r : BlockRec) :
    ShardOf ing (u.apply (.putBlock r)) (s.apply (.putBlock r)) := by
  refine ⟨hr.txindex, ?_, hr.subtree, fun a => ?_⟩
  · simp only [Flat.apply, hr.blocks]
  · have hh := hr.entry r.height
    have ha := hr.entry a
    simp only [Flat.apply, Flat.entry, Function.update_apply] at hh ha ⊢
    split_ifs
    · simp only [Option.getD_some, hh]
    · exact ha

lemma ShardOf.putHeader (hr : ShardOf ing u s) (h : UInt32) (hdr : Header) :
    ShardOf ing (u.apply (.putHeader h hdr)) (s.apply (.putHeader h hdr)) :=
  ⟨hr.txindex, hr.blocks, hr.subtree, hr.entry⟩

lemma ShardOf.putTxIndex (hr : ShardOf ing u s) {t : Hash} (ht : ing.owns t = true) (ix : TxIndex) :
    ShardOf ing (u.apply (.putTxIndex t ix)) (s.apply (.putTxIndex t ix)) := by
  refine ⟨fun x hx => ?_, hr.blocks, hr.subtree, fun a => ?_⟩
  · simp only [Flat.apply, Function.update_apply, hr.txindex x hx]
  · have hh := hr.entry ix.height
    have ha := hr.entry a
    simp only [Flat.apply, Flat.entry, hr.txindex t ht] at hh ha ⊢
    split_ifs
    · simp only [Function.update_apply]
      split_ifs
      · simp [hh, ht]
      · exact ha
    · exact ha

lemma ShardOf.putTxIndex_other (hr : ShardOf ing u s) {t : Hash} (ht : ing.owns t = false)
    (ix : TxIndex) :
    ShardOf ing (u.apply (.putTxIndex t ix)) s := by
  refine ⟨fun x hx => ?_, hr.blocks, hr.subtree, fun a => ?_⟩
  · have hne : x ≠ t := by
      rintro rfl
      simp [ht] at hx
    simp only [Flat.apply, Function.update_of_ne hne, hr.txindex x hx]
  · have ha := hr.entry a
    simp only [Flat.apply, Flat.entry] at ha ⊢
    split_ifs
    · simp only [Function.update_apply]
      split_ifs with h
      · subst h
        simp [ha, ht]
      · exact ha
    · exact ha

lemma ShardOf.txs (hr : ShardOf ing u s) (b : Block) (l : List (Tx × ℕ × ℕ)) :
    ShardOf ing (u.run (l.flatMap fun p => txCalls b p.2.1 p.2.2 p.1))
      (s.run ((l.filter fun p => ing.owns p.1.txID).flatMap fun p =>
        txCalls b p.2.1 p.2.2 p.1)) := by
  induction l generalizing u s with
  | nil => exact hr
  | cons p l ih =>
    rw [List.flatMap_cons, Flat.run_append]
    cases ho : ing.owns p.1.txID with
    | true =>
      rw [List.filter_cons_of_pos (by simpa using ho), List.flatMap_cons, Flat.run_append]
      refine ih ?_
      exact (hr.putTxIndex ho (indexEntry b p.2.1 p.2.2)).utxoOnly (spendCreate_utxoOnly _ _)
        (spendCreate_utxoOnly _ _)
    | false =>
      rw [List.filter_cons_of_neg (by simp [ho])]
      refine ih ?_
      exact (hr.putTxIndex_other ho (indexEntry b p.2.1 p.2.2)).utxoOnly (spendCreate_utxoOnly _ _)
        (by simp : ∀ c ∈ [], Call.utxoOnly c = true)

lemma ShardOf.subtrees (hr : ShardOf ing u s) (hw : whole.k = 0) {bs : List Block}
    (hu : SourcedFrom bs u) (hsh : SharedLeaves (bs ++ [b])) :
    ShardOf ing (u.run (subtreeCalls whole b)) (s.run (subtreeCalls ing b)) := by
  have hall : ∀ sub, whole.ownAny sub = true := fun sub => by simp [Ingestor.ownAny, hw]
  rw [Flat.run_subtreeCalls, Flat.run_subtreeCalls]
  refine ⟨hr.txindex, hr.blocks, fun r => ?_, hr.entry⟩
  dsimp only
  cases hl : storedLeaves whole b r with
  | none =>
    have hnone : storedLeaves ing b r = none := by
      rw [storedLeaves_none] at hl ⊢
      intro sub hsub hroot
      simp [hall] at hl
      exact absurd hroot (hl sub hsub)
    rw [hnone, Option.none_or, Option.none_or, hr.subtree]
  | some l =>
    obtain ⟨sub, hsub, -, hroot, rfl⟩ := storedLeaves_some hl
    -- every subtree of this root has these leaves
    have hsame : ∀ sub' ∈ b.subtrees, sub'.root = r → sub'.txIDs = sub.txIDs := fun sub' hs' hr' =>
      hsh b (by simp) b (by simp) sub' hs' sub hsub (hr'.trans hroot.symm)
    rw [Option.some_or]
    cases ho : ing.ownsAny sub.txIDs with
    | true =>
      obtain ⟨l', hl'⟩ : ∃ l', storedLeaves ing b r = some l' := by
        refine Option.ne_none_iff_exists'.mp fun hnone => ?_
        have := storedLeaves_none.mp hnone sub hsub hroot
        exact absurd ho (by simp [show ing.ownsAny sub.txIDs = false from this])
      obtain ⟨sub', hs', -, hr', rfl⟩ := storedLeaves_some hl'
      rw [hl', hsame sub' hs' hr', Option.some_or, Option.filter_some, if_pos ho]
    | false =>
      have hnone : storedLeaves ing b r = none := storedLeaves_none.mpr fun sub' hs' hr' => by
        change ing.ownsAny sub'.txIDs = false
        rw [hsame sub' hs' hr', ho]
      rw [hnone, Option.none_or, hr.subtree, Option.filter_some, ho]
      cases hx : u.subtree r with
      | none => rfl
      | some l =>
        obtain ⟨c, hc, sub', hs', hr', rfl⟩ := hu.subtree r l hx
        have := hsh c (by simp [hc]) b (by simp) sub' hs' sub hsub (hr'.trans hroot.symm)
        rw [Option.filter_some, this, ho]

lemma placed_eq_filter (hw : whole.k = 0) (b : Block) :
    placed ing b = (placed whole b).filter fun p => ing.owns p.1.txID := by
  have hall : ∀ t, whole.owns t = true := fun t => by simp [Ingestor.owns, hw]
  unfold placed
  rw [List.filter_flatMap]
  refine List.flatMap_congr fun sub _ => ?_
  rw [List.filter_map, List.filter_filter]
  simp only [hall, Bool.and_true]
  rfl

lemma ShardOf.index (hr : ShardOf ing u s) (hw : whole.k = 0) {bs : List Block}
    (hu : SourcedFrom bs u) (hsh : SharedLeaves (bs ++ [b])) :
    ShardOf ing (u.run (indexCalls whole b)) (s.run (indexCalls ing b)) := by
  rw [indexCalls, indexCalls, Flat.run_append, Flat.run_append, Flat.run_cons, Flat.run_cons,
    Flat.run_cons, Flat.run_cons, txsCalls_eq, txsCalls_eq, @placed_eq_filter ing whole hw]
  exact (((hr.subtrees hw hu hsh).putBlock _).putHeader _ _).txs b _

lemma ShardOf.prune (hr : ShardOf ing u s) (pr : Prune.Pruner) (tip : UInt32) :
    ShardOf ing (u.run (pruneCalls pr tip)) (s.run (pruneCalls pr tip)) := by
  have hspent :
      ∀ c ∈ (Prune.bands pr.lastTip pr.hasTip tip pr.policy.d).map Call.pruneSpentAtHeight,
      c.utxoOnly = true := by
    intro c hc
    obtain ⟨h, -, rfl⟩ := List.mem_map.mp hc
    rfl
  have hsweep : ∀ hs : List UInt32, ∀ {u s : Flat}, ShardOf ing u s →
      ShardOf ing (u.run (hs.map .pruneIndexAtHeight)) (s.run (hs.map .pruneIndexAtHeight)) := by
    intro hs
    induction hs with
    | nil => exact fun hr => hr
    | cons h hs ih => exact fun hr => ih (hr.pruneIndex h)
  rw [pruneCalls, Flat.run_append, Flat.run_append]
  split_ifs
  · exact hsweep _ (hr.utxoOnly hspent hspent)
  · exact hr.utxoOnly hspent hspent

lemma SourcedFrom.index {bs : List Block} (hu : SourcedFrom bs u) :
    SourcedFrom (bs ++ [b]) (u.run (indexCalls whole b)) := by
  obtain ⟨hblocks, hsubtree, htxindex⟩ := Flat.run_indexCalls u whole b
  refine ⟨fun x r h => ?_, fun r l h => ?_, fun t ix h => ?_⟩
  · rw [hblocks, Function.update_apply] at h
    split_ifs at h with hx
    · exact ⟨b, by simp, hx.symm, (Option.some.inj h).symm⟩
    · obtain ⟨c, hc, h'⟩ := hu.blocks x r h
      exact ⟨c, List.mem_append_left _ hc, h'⟩
  · rw [hsubtree] at h
    rcases Option.or_eq_some_iff.mp h with h | ⟨-, h⟩
    · obtain ⟨sub, hsub, -, hroot, hl⟩ := storedLeaves_some h
      exact ⟨b, by simp, sub, hsub, hroot, hl⟩
    · obtain ⟨c, hc, h'⟩ := hu.subtree r l h
      exact ⟨c, List.mem_append_left _ hc, h'⟩
  · rw [htxindex] at h
    rcases Option.or_eq_some_iff.mp h with h | ⟨-, h⟩
    · obtain ⟨si, li, sub, tx, hsi, hli, rfl, -, rfl⟩ := blockEntry_eq_some h
      exact ⟨b, by simp, si, sub, hsi, List.mem_map_of_mem (List.mem_of_getElem? hli), rfl, rfl⟩
    · obtain ⟨c, hc, h'⟩ := hu.txindex t ix h
      exact ⟨c, List.mem_append_left _ hc, h'⟩

lemma SourcedFrom.pruneIndex {bs : List Block} (hu : SourcedFrom bs u) (h : UInt32) :
    SourcedFrom bs (u.apply (.pruneIndexAtHeight h)) := by
  rw [Flat.apply_pruneIndex]
  refine ⟨fun x r hx => ?_, fun r l hx => ?_, fun t ix hx => ?_⟩
  · dsimp only at hx
    split_ifs at hx with hb
    · rw [Function.update_apply] at hx
      split_ifs at hx
      exact hu.blocks x r hx
    · exact hu.blocks x r hx
  · dsimp only at hx
    split_ifs at hx
    exact hu.subtree r l hx
  · dsimp only at hx
    split_ifs at hx
    exact hu.txindex t ix hx

lemma SourcedFrom.prune {bs : List Block} (hu : SourcedFrom bs u) (pr : Prune.Pruner)
    (tip : UInt32) :
    SourcedFrom bs (u.run (pruneCalls pr tip)) := by
  refine Trace.run_invariant (p := SourcedFrom bs) Flat.apply (fun c hc g hg => ?_) hu
  rcases List.mem_append.mp hc with hc | hc
  · obtain ⟨h, -, rfl⟩ := List.mem_map.mp hc
    exact ⟨hg.blocks, hg.subtree, hg.txindex⟩
  · split_ifs at hc
    · obtain ⟨h, -, rfl⟩ := List.mem_map.mp hc
      exact hg.pruneIndex h
    · simp at hc

end Steps

/-- No transaction of the block spends a record of another shard: where an input belongs to another
shard than the transaction, there is no record when the transaction is applied. -/
def LocalSpends (k : ℕ) (utxo : Outpoint → Option UTXO) (b : Block) : Prop :=
  ∀ pre tx post, b.txs = pre ++ tx :: post → ∀ op ∈ tx.inputs,
    Shard.of op.txID k ≠ Shard.of tx.txID k →
    pre.foldl (txCell b.height op) (utxo op) = none

/-- Inputs in the shard of their transaction are local whatever the records. -/
lemma LocalSpends.of_same {k : ℕ} {b : Block}
    (h : ∀ tx ∈ b.txs, ∀ op ∈ tx.inputs, Shard.of op.txID k = Shard.of tx.txID k)
    (utxo : Outpoint → Option UTXO) :
    LocalSpends k utxo b :=
  fun _ tx _ hsplit op hop hne => absurd (h tx (by simp [hsplit]) op hop) hne

lemma foldl_txCell_filter {p : Hash → Bool} {h : UInt32} {op : Outpoint} (hop : p op.txID = true)
    (txs : List Tx) {x : Option UTXO}
    (hx : ∀ pre tx post, txs = pre ++ tx :: post → op ∈ tx.inputs → p tx.txID = false →
      pre.foldl (txCell h op) x = none) :
    (txs.filter fun tx => p tx.txID).foldl (txCell h op) x = txs.foldl (txCell h op) x := by
  induction txs using List.reverseRecOn with
  | nil => rfl
  | append_singleton txs tx ih =>
    have hih := ih fun pre t post hs hin hp => hx pre t (post ++ [tx]) (by simp [hs]) hin hp
    rw [List.filter_append, List.foldl_append, List.foldl_append, hih]
    cases hp : p tx.txID with
    | true => rw [List.filter_cons_of_pos (by simpa using hp), List.filter_nil]
    | false =>
      have hout : tx.output? op = none := by
        by_contra hsome
        obtain ⟨o, ho⟩ := Option.ne_none_iff_exists'.mp hsome
        rw [txID_of_output? ho, hp] at hop
        simp at hop
      rw [List.filter_cons_of_neg (by simp [hp]), List.filter_nil, List.foldl_nil, List.foldl_cons,
        List.foldl_nil, txCell, hout]
      dsimp only
      split_ifs with hin
      · rw [hx txs tx [] rfl hin hp]
        rfl
      · rfl

/-! ### A run -/

section Run

variable (k : ℕ) (id : UInt32) (skip : Bool) (policy : Prune.Policy)

/-- A shard, and the node that owns everything. -/
abbrev shardConfig : Config := { k := k, id := id, skipValidate := skip }
@[inherit_doc shardConfig]
abbrev wholeConfig : Config := { skipValidate := skip }

/-- Two nodes of which one is a shard of the other. -/
structure Shards (bs : List Block) (u s : Node) : Prop where
  tip : ∃ tip, u.ing = .at (wholeConfig skip) policy tip ∧
    s.ing = .at (shardConfig k id skip) policy tip
  index : ShardOf (.at (shardConfig k id skip) policy none) u.flat s.flat
  sourced : SourcedFrom bs u.flat
  utxo : ∀ op, Shard.of op.txID k = id → s.flat.utxo op = u.flat.utxo op

variable {k id skip policy}

lemma owns_shardConfig {t : Hash} {tip : Option UInt32} :
    (Ingestor.at (shardConfig k id skip) policy tip).owns t = true ↔ k = 0 ∨ Shard.of t k = id := by
  by_cases hk : k = 0 <;> simp [Ingestor.owns, Ingestor.at, Ingest.new, hk]

lemma Shards.ingest {bs : List Block} {u s : Node} {b : Block} (h : Shards k id skip policy bs u s)
    (hacc : (skip || validateBlock b) = true) (hsh : SharedLeaves (bs ++ [b]))
    (hloc : LocalSpends k u.flat.utxo b) :
    Shards k id skip policy (bs ++ [b]) (u.ingest b) (s.ingest b) := by
  obtain ⟨tip, hu, hs⟩ := h.tip
  refine ⟨⟨some b.height, Node.ingest_ing hu hacc, Node.ingest_ing hs hacc⟩, ?_, ?_,
    fun op hop => ?_⟩
  · rw [Node.ingest_flat hu hacc, Node.ingest_flat hs hacc, Flat.run_append, Flat.run_append, hu,
      hs]
    have hr : ShardOf (.at (shardConfig k id skip) policy tip) u.flat s.flat :=
      ⟨h.index.txindex, h.index.blocks, h.index.subtree, h.index.entry⟩
    have hr' :=
      (hr.index (rfl : (Ingestor.at (wholeConfig skip) policy tip).k = 0) h.sourced hsh).prune
      ⟨policy, tip.getD 0, tip.isSome, 0⟩ b.height
    exact ⟨hr'.txindex, hr'.blocks, hr'.subtree, hr'.entry⟩
  · rw [Node.ingest_flat hu hacc, Flat.run_append]
    exact h.sourced.index.prune _ _
  · have hown : s.ing.owns op.txID = true := by
      rw [hs]
      exact owns_shardConfig.mpr (.inr hop)
    have hwhole : owned u.ing b = b.txs := owned_of_unsharded (by rw [hu]; rfl) b
    have hfold : (owned s.ing b).foldl (txCell b.height op) (u.flat.utxo op) =
        b.txs.foldl (txCell b.height op) (u.flat.utxo op) := by
      refine foldl_txCell_filter hown b.txs fun pre tx post hsplit hin hp =>
        hloc pre tx post hsplit op hin fun heq => ?_
      rw [hs, ← Bool.not_eq_true, owns_shardConfig, ← heq] at hp
      exact hp (.inr hop)
    rw [Node.ingest_utxo hu hacc, Node.ingest_utxo hs hacc, h.utxo op hop, hwhole, hfold]

lemma feed_shards {bs : List Block} (hsh : SharedLeaves (ingested (wholeConfig skip) bs))
    (hloc : ∀ pre b post, bs = pre ++ b :: post → (skip || validateBlock b) = true →
      LocalSpends k ((Node.start (wholeConfig skip) policy).feed pre).flat.utxo b) :
    Shards k id skip policy (ingested (wholeConfig skip) bs)
      ((Node.start (wholeConfig skip) policy).feed bs)
      ((Node.start (shardConfig k id skip) policy).feed bs) := by
  induction bs using List.reverseRecOn with
  | nil =>
    refine ⟨⟨none, rfl, rfl⟩, ⟨fun _ _ => rfl, rfl, fun _ => rfl, fun _ => rfl⟩, ⟨?_, ?_, ?_⟩,
      fun _ _ => rfl⟩
    all_goals simp [Node.start, Flat.empty]
  | append_singleton bs b ih =>
    have hsplit : ingested (wholeConfig skip) (bs ++ [b]) = ingested (wholeConfig skip) bs ++
        if (skip || validateBlock b) = true then [b] else [] := by
      rw [ingested, List.filter_append, List.filter_cons, List.filter_nil]
      rfl
    rw [hsplit] at hsh ⊢
    have hbs :=
      ih (fun c hc d hd => hsh c (List.mem_append_left _ hc) d (List.mem_append_left _ hd))
      fun pre c post hp hc => hloc pre c (post ++ [b]) (by simp [hp]) hc
    rw [Node.feed_append, Node.feed_append, Node.feed_cons, Node.feed_cons, Node.feed_nil,
      Node.feed_nil]
    split_ifs at hsh ⊢ with hacc
    · exact hbs.ingest hacc hsh (hloc bs b [] rfl hacc)
    · obtain ⟨tip, hu, hs⟩ := hbs.tip
      have hrej : ∀ {cfg : Config} {n : Node}, cfg.skipValidate = skip →
          n.ing = .at cfg policy tip → n.ingest b = n := by
        rintro cfg n rfl hn
        rw [Node.ingest, if_neg]
        rw [hn]
        exact hacc
      rw [hrej rfl hu, hrej rfl hs, List.append_nil]
      exact hbs

end Run

/-- Each subtree with a transaction stands at its recorded number in the list of roots. -/
def NamesRoots (b : Block) : Prop :=
  ∀ si sub, b.subtrees[si]? = some sub → sub.txs ≠ [] →
    b.subtreeRoots[(UInt32.ofNat si).toNat]? = some sub.root

lemma namesRoots_of_validateBlock {b : Block} (h : validateBlock b = true)
    (hlen : b.subtrees.length ≤ 2 ^ 32) :
    NamesRoots b := by
  intro si sub hsi _
  have hlt := (List.getElem?_eq_some_iff.mp hsi).1
  rw [UInt32.toNat_ofNat_of_lt' (by change si < 2 ^ 32; omega), ← (validateBlock_roots h).1,
    List.getElem?_map, hsi]
  rfl

lemma merklePath_shard {ing : Ingestor} {u s : Flat} {bs : List Block} {t : Hash}
    (hr : ShardOf ing u s) (hu : SourcedFrom bs u) (ht : ing.owns t = true)
    (hpar : ∀ b ∈ bs, b.Parallel) (hsh : SharedLeaves bs) (hroots : ∀ b ∈ bs, NamesRoots b)
    (hhash : ∀ b ∈ bs, ∀ c ∈ bs, b.hash = c.hash → b.subtreeRoots = c.subtreeRoots) :
    s.merklePath t = u.merklePath t := by
  unfold Flat.merklePath
  rw [hr.txindex t ht, hr.blocks]
  cases htx : u.txindex t with
  | none => rfl
  | some ix =>
    dsimp only
    split_ifs
    · rfl
    cases hblk : u.blocks ix.blockHash with
    | none => rfl
    | some blk =>
      -- the root at the recorded place is that of the subtree the transaction is in
      obtain ⟨b, hb, si, sub, hsub, hmem, hbh, hsi⟩ := hu.txindex t ix htx
      obtain ⟨c, hc, hch, rfl⟩ := hu.blocks _ _ hblk
      have hne : sub.txs ≠ [] := by
        rintro h
        simp [h] at hmem
      have hroot : (blockRec c).subtreeRoots[ix.subtreeIndex.toNat]? = some sub.root := by
        rw [hsi, ← hroots b hb si sub hsub hne, hhash b hb c hc (hbh.symm.trans hch.symm)]
        rfl
      have hs : sub ∈ b.subtrees := List.mem_of_getElem? hsub
      have hleaves : s.subtree sub.root = u.subtree sub.root := by
        rw [hr.subtree]
        cases hl : u.subtree sub.root with
        | none => rfl
        | some l =>
          obtain ⟨d, hd, sub', hs', hr', rfl⟩ := hu.subtree _ _ hl
          rw [Option.filter_some, if_pos]
          rw [hsh d hd b hb sub' hs' sub hs hr', ← hpar b hb sub hs]
          exact ownsAny_of_mem hmem ht
      dsimp only
      rw [hroot]
      dsimp only
      rw [hleaves]

/-- **Sharding does not change answers, unless a spend reaches across shards.** In a run in which no
transaction spends a record of another shard, in which subtrees stand where they are recorded and
blocks of one hash agree on their subtree roots, the shard of a txid answers about it as the
node that owns everything. -/
theorem sharded_answers (k : ℕ) (skip : Bool) (policy : Prune.Policy) (bs : List Block)
    (hpar : ∀ b ∈ bs, b.Parallel) (hsh : SharedLeaves bs)
    (hroots : ∀ b ∈ ingested (wholeConfig skip) bs, NamesRoots b)
    (hhash : ∀ b ∈ ingested (wholeConfig skip) bs, ∀ c ∈ ingested (wholeConfig skip) bs,
      b.hash = c.hash → b.subtreeRoots = c.subtreeRoots)
    (hloc : ∀ pre b post, bs = pre ++ b :: post → (skip || validateBlock b) = true →
      LocalSpends k (feed (fresh (wholeConfig skip) policy) pre).2.getUTXO b)
    (txid : Hash) (op : Outpoint) :
    let whole := (feed (fresh (wholeConfig skip) policy) bs).2
    let shard (t : Hash) := (feed (fresh (shardConfig k (Shard.of t k) skip) policy) bs).2
    ((Api.seen txid).run.run (shard txid)).1 = ((Api.seen txid).run.run whole).1 ∧
    ((Api.mined txid).run.run (shard txid)).1 = ((Api.mined txid).run.run whole).1 ∧
    ((Api.merklePath txid).run.run (shard txid)).1 = ((Api.merklePath txid).run.run whole).1 ∧
    ((Api.utxo op).run.run (shard op.txID)).1 = ((Api.utxo op).run.run whole).1 := by
  intro whole shard
  have hsub : ∀ b ∈ ingested (wholeConfig skip) bs, b ∈ bs := fun b hb => List.mem_of_mem_filter hb
  have hshards : ∀ t, Shards k (Shard.of t k) skip policy (ingested (wholeConfig skip) bs)
      ((Node.start (wholeConfig skip) policy).feed bs)
      ((Node.start (shardConfig k (Shard.of t k) skip) policy).feed bs) := by
    refine fun t => feed_shards (fun b hb c hc => hsh b (hsub b hb) c (hsub c hc))
      fun pre b post hp hb => ?_
    rw [← Node.flatten_fresh]
    exact hloc pre b post hp hb
  have hown : ∀ t, (Ingestor.at (shardConfig k (Shard.of t k) skip) policy none).owns t = true :=
    fun t => owns_shardConfig.mpr (.inr rfl)
  have hwhole : whole.flatten = ((Node.start (wholeConfig skip) policy).feed bs).flat :=
    Node.flatten_fresh _ _ _
  have hshard : ∀ t, (shard t).flatten =
    ((Node.start (shardConfig k (Shard.of t k) skip) policy).feed bs).flat :=
    fun t => Node.flatten_fresh _ _ _
  have htx := (hshards txid).index.txindex txid (hown txid)
  refine ⟨?_, ?_, ?_, ?_⟩
  · rw [seen_mem, seen_mem, hwhole, hshard, Flat.seen, Flat.seen, htx]
  · rw [mined_mem, mined_mem, hwhole, hshard, Flat.mined, Flat.mined, htx]
  · rw [merklePath_mem, merklePath_mem, hwhole, hshard]
    exact merklePath_shard (hshards txid).index (hshards txid).sourced (hown txid)
      (fun b hb => hpar b (hsub b hb))
      (fun b hb c hc => hsh b (hsub b hb) c (hsub c hc)) hroots hhash
  · rw [utxo_mem, utxo_mem, hwhole, hshard, Flat.utxoStatus, Flat.utxoStatus,
      (hshards op.txID).utxo op rfl, (hshards op.txID).index.txindex op.txID (hown op.txID)]

/-- A coin in the lower half of the txids, a spend of it there, and one in the upper half. -/
def lowCoin : Tx := ⟨.fill 32 1, [], [⟨5000, default⟩]⟩
@[inherit_doc lowCoin]
def lowSpend : Tx := ⟨.fill 32 2, [⟨.fill 32 1, 0⟩], []⟩
@[inherit_doc lowCoin]
def highSpend : Tx := ⟨.fill 32 129, [⟨.fill 32 1, 0⟩], []⟩

theorem sharded_answers_lowSpend :
    let bs := [sealBlock 1 [[lowCoin]], sealBlock 2 [[lowSpend]]]
    let op : Outpoint := ⟨.fill 32 1, 0⟩
    ((Api.utxo op).run.run
      (feed (fresh (shardConfig 1 (Shard.of op.txID 1) false) { reorgHorizon := 6 }) bs).2).1 =
      ((Api.utxo op).run.run (feed (fresh (wholeConfig false) { reorgHorizon := 6 }) bs).2).1 := by
  intro bs op
  have hval : ∀ b ∈ bs, validateBlock b = true := by simp [bs, validateBlock_sealBlock]
  have hlen : ∀ b ∈ bs, b.subtrees.length ≤ 2 ^ 32 := by simp [bs, sealBlock]
  have hsub : ∀ b ∈ ingested (wholeConfig false) bs, b ∈ bs := fun b hb => List.mem_of_mem_filter hb
  have hsame : ∀ b ∈ bs, ∀ tx ∈ b.txs, ∀ op ∈ tx.inputs,
    Shard.of op.txID 1 = Shard.of tx.txID 1 := by decide
  have hhash : ∀ b ∈ bs, ∀ c ∈ bs, b.hash = c.hash → b.subtreeRoots = c.subtreeRoots := by
    simp only [bs, sealBlock_singleton]
    decide +kernel
  refine (sharded_answers 1 false { reorgHorizon := 6 } bs ?_ ?_ ?_ ?_ ?_ (.fill 32 1) op).2.2.2
  · simp [bs, sealBlock_parallel]
  · decide
  · exact fun b hb => namesRoots_of_validateBlock (hval b (hsub b hb)) (hlen b (hsub b hb))
  · exact fun b hb c hc => hhash b (hsub b hb) c (hsub c hc)
  · exact fun pre b post hp _ => .of_same (hsame b (by simp [hp])) _

/-- **A spend from another shard is lost.** The shard of the coin still has it unspent after a
transaction of the other shard spent it. -/
theorem sharded_answers_highSpend :
    let bs := [sealBlock 1 [[lowCoin]], sealBlock 2 [[highSpend]]]
    let op : Outpoint := ⟨.fill 32 1, 0⟩
    (∀ b ∈ bs, b.Parallel) ∧ SharedLeaves bs ∧
    ((Api.utxo op).run.run (feed (fresh (wholeConfig false) { reorgHorizon := 6 }) bs).2).1 =
      .ok { status := .spent, spentBy := .fill 32 129, spentHeight := 2 } ∧
    ((Api.utxo op).run.run
      (feed (fresh (shardConfig 1 (Shard.of op.txID 1) false) { reorgHorizon := 6 }) bs).2).1 =
      .ok { status := .unspent, value := 5000 } := by
  intro bs op
  refine ⟨by simp [bs, sealBlock_parallel], by decide, ?_, ?_⟩
  · rw [utxo_mem, Node.flatten_fresh]
    decide
  · rw [utxo_mem, Node.flatten_fresh]
    decide

end MemServe
