import MemServe.Cells

/-!
The index window.

With index retention `R` the index of a node is that of the blocks at most `R` deep: it is
written block by block and pruned height by height, and a height holds one block whose records
no other block shares. So every owned transaction inside the window has a proof, and none
outside is known.
-/

namespace MemServe

open Teranode Ingest

lemma Flat.run_utxoOnly {cs : List Call} (h : ∀ c ∈ cs, c.utxoOnly = true) (f : Flat) :
    f.run cs = { f with utxo := (f.run cs).utxo } := by
  refine Trace.run_invariant (p := fun g => g = { f with utxo := g.utxo }) Flat.apply
    (fun c hc g hg => ?_) rfl
  have hu := h c hc
  cases c with
  | putUTXO op u => rw [hg]; rfl
  | spendUTXO op t h => rw [hg]; rfl
  | unspendUTXO op => rw [hg]; rfl
  | deleteUTXO op => rw [hg]; rfl
  | pruneSpentAtHeight h => rw [hg]; rfl
  | _ => simp [Call.utxoOnly] at hu

lemma spendCreate_utxoOnly (h : UInt32) (tx : Tx) :
    ∀ c ∈ spendCalls h tx ++ createCalls tx, c.utxoOnly = true := by
  intro c hc
  rcases List.mem_append.mp hc with hc | hc
  · obtain ⟨op, -, rfl⟩ := List.mem_map.mp hc
    rfl
  · obtain ⟨o, -, rfl⟩ := List.mem_map.mp hc
    rfl

lemma Flat.run_txCalls (f : Flat) (b : Block) (si li : ℕ) (tx : Tx) :
    f.run (txCalls b si li tx) =
      { f.apply (.putTxIndex tx.txID (indexEntry b si li)) with
        utxo := (f.run (txCalls b si li tx)).utxo } :=
  Flat.run_utxoOnly (spendCreate_utxoOnly b.height tx) _

/-- The leaves a block stores under `r`. -/
def Ingest.storedLeaves (ing : Ingestor) (b : Block) (r : Hash) : Option (List Hash) :=
  (b.subtrees.reverse.find? fun sub => ing.ownAny sub && sub.root == r).map Subtree.txIDs

lemma Flat.run_subtreeCalls (f : Flat) (ing : Ingestor) (b : Block) :
    f.run (subtreeCalls ing b) =
      { f with subtree := fun r => (storedLeaves ing b r).or (f.subtree r) } := by
  unfold subtreeCalls storedLeaves
  induction b.subtrees using List.reverseRecOn with
  | nil => rfl
  | append_singleton l sub ih =>
    rw [List.flatMap_append, List.flatMap_singleton, Flat.run_append, ih, List.reverse_append,
      List.reverse_singleton, List.singleton_append]
    cases ho : ing.ownAny sub with
    | false =>
      simp only [Bool.false_eq_true, if_false, Flat.run_nil, List.find?_cons, ho, Bool.false_and]
    | true =>
      simp only [if_true, Flat.run_cons, Flat.run_nil]
      refine Flat.ext rfl rfl (funext fun r => ?_) rfl rfl rfl
      simp only [Flat.apply, Function.update_apply, List.find?_cons, ho, Bool.true_and]
      by_cases hr : r = sub.root
      · simp [hr]
      · have hr' : (sub.root == r) = false := by simpa using fun e => hr e.symm
        simp [hr, hr']

lemma Flat.run_placed_hidx (b : Block) (l : List (Tx × ℕ × ℕ)) {f : Flat} {e : Mem.HeightEntry}
    (he : f.hidx b.height = some e) (hnd : (l.map fun p => p.1.txID).Nodup)
    (hnew : ∀ p ∈ l, f.txindex p.1.txID = none) :
    (f.run (l.flatMap fun p => txCalls b p.2.1 p.2.2 p.1)).hidx =
      Function.update f.hidx b.height
        (some { e with txids := e.txids ++ l.map fun p => p.1.txID }) := by
  induction l generalizing f e with
  | nil =>
    refine (Function.update_eq_self_iff.mpr ?_).symm
    simpa using he.symm
  | cons p l ih =>
    have hp := hnew p List.mem_cons_self
    have hent : f.entry b.height = e := by simp [Flat.entry, he]
    rw [List.map_cons, List.nodup_cons] at hnd
    set g := f.run (txCalls b p.2.1 p.2.2 p.1) with hg
    have hgx : ∀ t, g.txindex t = if t = p.1.txID then
        some (indexEntry b p.2.1 p.2.2) else f.txindex t := by
      intro t
      rw [hg, Flat.run_txCalls]
      exact Function.update_apply _ _ _ _
    have hgh : g.hidx = Function.update f.hidx b.height
        (some { e with txids := e.txids ++ [p.1.txID] }) := by
      rw [hg, Flat.run_txCalls]
      exact (if_pos (by simp [hp, indexEntry])).trans (by rw [← hent]; rfl)
    have hnew' : ∀ q ∈ l, g.txindex q.1.txID = none := by
      intro q hq
      have hne : q.1.txID ≠ p.1.txID := by
        intro heq
        refine hnd.1 (heq ▸ ?_)
        exact List.mem_map.mpr ⟨q, hq, rfl⟩
      rw [hgx, if_neg hne]
      exact hnew q (List.mem_cons_of_mem p hq)
    rw [List.flatMap_cons, Flat.run_append, ← hg,
      ih (e := { e with txids := e.txids ++ [p.1.txID] }) (by rw [hgh]; simp) hnd.2 hnew', hgh,
      Function.update_idem]
    simp

lemma Flat.run_placed_frame (f : Flat) (b : Block) (l : List (Tx × ℕ × ℕ)) :
    (f.run (l.flatMap fun p => txCalls b p.2.1 p.2.2 p.1)).blocks = f.blocks ∧
      (f.run (l.flatMap fun p => txCalls b p.2.1 p.2.2 p.1)).subtree = f.subtree := by
  induction l generalizing f with
  | nil => exact ⟨rfl, rfl⟩
  | cons p l ih =>
    rw [List.flatMap_cons, Flat.run_append]
    obtain ⟨hb, hs⟩ := ih (f.run (txCalls b p.2.1 p.2.2 p.1))
    rw [hb, hs, Flat.run_txCalls]
    exact ⟨rfl, rfl⟩

lemma Flat.run_indexCalls (f : Flat) (ing : Ingestor) (b : Block) :
    (f.run (indexCalls ing b)).blocks = Function.update f.blocks b.hash (some (blockRec b)) ∧
      (f.run (indexCalls ing b)).subtree = (fun r => (storedLeaves ing b r).or (f.subtree r)) ∧
      ∀ t, (f.run (indexCalls ing b)).txindex t = (blockEntry ing b t).or (f.txindex t) := by
  have hrun : f.run (indexCalls ing b) =
      ((((f.run (subtreeCalls ing b)).apply (.putBlock (blockRec b))).apply
      (.putHeader b.height b.header)).run
          ((placed ing b).flatMap fun p => txCalls b p.2.1 p.2.2 p.1)) := by
    rw [indexCalls, Flat.run_append, Flat.run_cons, Flat.run_cons, txsCalls_eq]
  obtain ⟨hblocks, hsubtree⟩ :=
    Flat.run_placed_frame (((f.run (subtreeCalls ing b)).apply (.putBlock (blockRec b))).apply
      (.putHeader b.height b.header)) b (placed ing b)
  refine ⟨?_, ?_, fun t => ?_⟩
  · rw [hrun, hblocks, Flat.run_subtreeCalls]
    rfl
  · rw [hrun, hsubtree, Flat.run_subtreeCalls]
    rfl
  · rw [Flat.run_txindex (Node.indexCalls_keepsIndex ing b), entries_indexCalls]

/-- The per-height index of a block. -/
def Ingest.heightEntry (ing : Ingestor) (b : Block) : Mem.HeightEntry where
  block := b.hash
  hasBlock := true
  subtrees := b.subtreeRoots
  txids := (owned ing b).map Tx.txID

/-- The index holds the blocks of `rs`, each as it was written, and nothing else. -/
structure Indexes (ing : Ingestor) (rs : List Block) (f : Flat) : Prop where
  txindex : ∀ t, f.txindex t = rs.findSome? fun b => blockEntry ing b t
  blocks : ∀ x, f.blocks x = rs.findSome? fun b => if b.hash = x then some (blockRec b) else none
  subtree : ∀ r, f.subtree r = rs.findSome? fun b => storedLeaves ing b r
  hidx : ∀ h, f.hidx h = rs.findSome? fun b =>
    if b.height = h then some (heightEntry ing b) else none

/-- Two blocks that share no record of the index. -/
structure Apart (b c : Block) : Prop where
  height : b.height ≠ c.height
  hash : b.hash ≠ c.hash
  roots : b.subtreeRoots.Disjoint c.subtreeRoots
  txids : (b.txs.map Tx.txID).Disjoint (c.txs.map Tx.txID)

instance : Std.Symm Apart :=
  ⟨fun _ _ h => ⟨h.height.symm, h.hash.symm, h.roots.symm, h.txids.symm⟩⟩

lemma mem_txs_of_blockEntry {ing : Ingestor} {b : Block} {t : Hash}
    (h : (blockEntry ing b t).isSome) :
    t ∈ b.txs.map Tx.txID :=
  (List.filter_sublist.map _).subset (blockEntry_isSome.mp h)

lemma mem_roots_of_storedLeaves {ing : Ingestor} {b : Block} {r : Hash}
    (h : (storedLeaves ing b r).isSome) :
    r ∈ b.subtrees.map Subtree.root := by
  rw [storedLeaves, Option.isSome_map, List.find?_isSome] at h
  obtain ⟨sub, hsub, hr⟩ := h
  exact List.mem_map.mpr ⟨sub, List.mem_reverse.mp hsub, by simp_all⟩

section

variable {ing : Ingestor} {rs : List Block} {f : Flat} {b : Block}

lemma Indexes.add (hf : Indexes ing rs f) (hap : ∀ c ∈ rs, Apart b c)
    (hnd : (b.txs.map Tx.txID).Nodup) :
    Indexes ing (b :: rs) (f.run (indexCalls ing b)) := by
  obtain ⟨hblocks, hsubtree, htxindex⟩ := Flat.run_indexCalls f ing b
  have hfresh : f.hidx b.height = none := by
    rw [hf.hidx, List.findSome?_eq_none_iff]
    exact fun c hc => if_neg (hap c hc).height.symm
  have hids : (placed ing b).map (fun p => p.1.txID) = (owned ing b).map Tx.txID := by
    rw [← placed_map_fst, List.map_map]
    rfl
  refine ⟨fun t => ?_, fun x => ?_, fun r => ?_, fun h => ?_⟩
  · rw [htxindex, hf.txindex, List.findSome?_cons]
    cases blockEntry ing b t <;> rfl
  · rw [hblocks, Function.update_apply, List.findSome?_cons, ← hf.blocks]
    by_cases hx : b.hash = x
    · simp [hx]
    · simp [hx, eq_comm (a := x)]
  · rw [hsubtree, List.findSome?_cons]
    dsimp only
    rw [hf.subtree]
    cases storedLeaves ing b r <;> rfl
  · rw [indexCalls, Flat.run_append, Flat.run_cons, Flat.run_cons, txsCalls_eq,
      Flat.run_placed_hidx b (placed ing b)
      (e := { block := b.hash, hasBlock := true, subtrees := b.subtreeRoots }) ?_ ?_ ?_]
    · rw [Flat.run_subtreeCalls]
      refine (Function.update_apply _ _ _ _).trans ?_
      rw [List.findSome?_cons, ← hf.hidx]
      by_cases hh : b.height = h
      · simp [hh, hids, heightEntry]
      · have hne : h ≠ b.height := fun e => hh e.symm
        simp [hh, hne, Flat.apply, blockRec]
    · rw [Flat.run_subtreeCalls]
      simp [Flat.apply, blockRec, Flat.entry, hfresh]
    · rw [hids]
      exact hnd.sublist (List.filter_sublist.map _)
    · intro p hp
      rw [Flat.run_subtreeCalls]
      refine (hf.txindex _).trans (List.findSome?_eq_none_iff.mpr fun c hc => ?_)
      by_contra hsome
      have hpb : p.1.txID ∈ b.txs.map Tx.txID :=
        (List.filter_sublist.map _).subset (hids ▸ List.mem_map.mpr ⟨p, hp, rfl⟩)
      exact (hap c hc).txids hpb (mem_txs_of_blockEntry (Option.isSome_iff_ne_none.mpr hsome))

lemma findSome?_eq_of_unique {α β : Type} {g : α → Option β} {l : List α} {a : α} {y : β}
    (ha : a ∈ l)
    (hy : g a = some y) (hu : ∀ c ∈ l, (g c).isSome → c = a) : l.findSome? g = some y := by
  have hs : (l.findSome? g).isSome := List.findSome?_isSome_iff.mpr ⟨a, ha, by rw [hy]; rfl⟩
  obtain ⟨z, hz⟩ := Option.isSome_iff_exists.mp hs
  obtain ⟨c, hc, hcz⟩ := List.exists_of_findSome?_eq_some hz
  rw [hz, ← hcz, hu c hc (by rw [hcz]; rfl), hy]

lemma findSome?_filter {α β : Type} {p : α → Bool} {g : α → Option β} {l : List α} {d : Prop}
    [Decidable d] (hdrop : ∀ a ∈ l, p a = false → (g a).isSome → d)
    (hkeep : d → ∀ a ∈ l, p a = true → g a = none) :
    (if d then none else l.findSome? g) = (l.filter p).findSome? g := by
  split_ifs with hd
  · rw [eq_comm, List.findSome?_eq_none_iff]
    intro a ha
    obtain ⟨ha, hp⟩ := List.mem_filter.mp ha
    exact hkeep hd a ha hp
  · clear hkeep
    induction l with
    | nil => rfl
    | cons a l ih =>
      have hl := ih fun c hc => hdrop c (List.mem_cons_of_mem a hc)
      cases hp : p a with
      | true => rw [List.filter_cons_of_pos hp, List.findSome?_cons, List.findSome?_cons, hl]
      | false =>
        have hnone : g a = none := by
          by_contra hs
          exact hd (hdrop a List.mem_cons_self hp (Option.isSome_iff_ne_none.mpr hs))
        rw [List.filter_cons_of_neg (by simp [hp]), List.findSome?_cons, hnone, hl]

lemma Indexes.prune_none (hf : Indexes ing rs f) {h : UInt32} (hno : ∀ b ∈ rs, b.height ≠ h) :
    Indexes ing (rs.filter fun b => b.height ≠ h) (f.apply (.pruneIndexAtHeight h)) := by
  have hnone : f.hidx h = none := by
    rw [hf.hidx, List.findSome?_eq_none_iff]
    exact fun b hb => if_neg (hno b hb)
  have hall : rs.filter (fun b => b.height ≠ h) = rs := by
    rw [List.filter_eq_self]
    exact fun b hb => by simpa using hno b hb
  have happly : f.apply (.pruneIndexAtHeight h) =
      { f with hidx := Function.update f.hidx h none, hdr := Function.update f.hdr h none } := by
    simp [Flat.apply, Flat.entry, hnone, Call.cell]
  rw [hall, happly]
  exact ⟨hf.txindex, hf.blocks, hf.subtree, by simpa [← hnone] using hf.hidx⟩

lemma Indexes.prune_block (hf : Indexes ing rs f) {c : Block} {h : UInt32} (hc : c ∈ rs)
    (hch : c.height = h) (hother : ∀ b ∈ rs, decide (b.height ≠ h) = true → Apart b c)
    (honly : ∀ b ∈ rs, decide (b.height ≠ h) = false → b = c)
    (hroots : ∀ b ∈ rs, b.subtrees.map Subtree.root = b.subtreeRoots) :
    Indexes ing (rs.filter fun b => b.height ≠ h) (f.apply (.pruneIndexAtHeight h)) := by
  have hent : f.entry h = heightEntry ing c := by
    have : f.hidx h = some (heightEntry ing c) := by
      rw [hf.hidx]
      refine findSome?_eq_of_unique hc (if_pos hch) fun b hb hs => honly b hb ?_
      by_contra hne
      simp_all
    simp [Flat.entry, this]
  have happly : f.apply (.pruneIndexAtHeight h) =
      { f with
        txindex := fun t => if t ∈ (owned ing c).map Tx.txID then none else f.txindex t
        blocks := Function.update f.blocks c.hash none
        subtree := fun r => if r ∈ c.subtreeRoots then none else f.subtree r
        hidx := Function.update f.hidx h none
        hdr := Function.update f.hdr h none } := by
    simp [Flat.apply, hent, heightEntry, Flat.dropTxs, Flat.dropSubtrees, Flat.dropBlock, Call.cell]
  rw [happly]
  refine ⟨fun t => ?_, fun x => ?_, fun r => ?_, fun a => ?_⟩
  · dsimp only
    rw [hf.txindex]
    refine findSome?_filter (fun b hb hd hs => ?_) fun hin b hb hk => ?_
    · exact honly b hb hd ▸ blockEntry_isSome.mp hs
    · by_contra hs
      exact (hother b hb hk).txids (mem_txs_of_blockEntry (Option.isSome_iff_ne_none.mpr hs))
        ((List.filter_sublist.map _).subset hin)
  · dsimp only
    rw [Function.update_apply, hf.blocks]
    refine findSome?_filter (fun b hb hd hs => ?_) fun hin b hb hk => if_neg ?_
    · rw [← honly b hb hd]
      by_contra hne
      simp [eq_comm (a := b.hash), hne] at hs
    · exact fun heq => (hother b hb hk).hash (heq.trans hin)
  · dsimp only
    rw [hf.subtree]
    refine findSome?_filter (fun b hb hd hs => ?_) fun hin b hb hk => ?_
    · rw [← honly b hb hd, ← hroots b hb]
      exact mem_roots_of_storedLeaves hs
    · by_contra hs
      have hmem := mem_roots_of_storedLeaves (Option.isSome_iff_ne_none.mpr hs)
      rw [hroots b hb] at hmem
      exact (hother b hb hk).roots hmem hin
  · dsimp only
    rw [Function.update_apply, hf.hidx]
    refine findSome?_filter (fun b hb hd hs => ?_) fun hin b hb hk => if_neg ?_
    · by_contra hne
      simp_all
    · simpa [hin] using hk

lemma Indexes.prune (hf : Indexes ing rs f) (hap : rs.Pairwise Apart)
    (hroots : ∀ b ∈ rs, b.subtrees.map Subtree.root = b.subtreeRoots) (h : UInt32) :
    Indexes ing (rs.filter fun b => b.height ≠ h) (f.apply (.pruneIndexAtHeight h)) := by
  cases hfind : rs.find? fun b => b.height = h with
  | none => exact hf.prune_none fun b hb => by simpa using List.find?_eq_none.mp hfind b hb
  | some c =>
    have hc : c ∈ rs := List.mem_of_find?_eq_some hfind
    have hch : c.height = h := by simpa using List.find?_some hfind
    refine hf.prune_block hc hch (fun b hb hne => ?_) (fun b hb heq => ?_) hroots
    · refine hap.forall hb hc ?_
      rintro rfl
      simp [hch] at hne
    · by_contra hne
      exact (hap.forall hb hc hne).height (by simpa [hch] using heq)

lemma Indexes.pruneSpent (hf : Indexes ing rs f) (hs : List UInt32) :
    Indexes ing rs (f.run (hs.map .pruneSpentAtHeight)) := by
  rw [Flat.run_utxoOnly]
  · exact ⟨hf.txindex, hf.blocks, hf.subtree, hf.hidx⟩
  · intro c hc
    obtain ⟨h, -, rfl⟩ := List.mem_map.mp hc
    rfl

end

/-! ### The window -/

/-- Whether height `h` is inside the window of retention `r` under the tip. -/
def inWindow (r tip h : UInt32) : Bool := r == 0 || decide (tip.toNat - h.toNat + 1 ≤ r.toNat)

/-- Blocks that may be indexed one after the other: each checks out, and no two share a record. -/
structure Separate (bs : List Block) : Prop where
  valid : ∀ b ∈ bs, validateBlock b = true
  heights : bs.Pairwise fun a b => a.height < b.height
  hashes : (bs.map Block.hash).Nodup
  roots : (bs.flatMap Block.subtreeRoots).Nodup
  txids : ((bs.flatMap Block.txs).map Tx.txID).Nodup

namespace Separate

variable {bs : List Block}

lemma left {cs : List Block} (h : Separate (bs ++ cs)) : Separate bs where
  valid b hb := h.valid b (List.mem_append_left cs hb)
  heights := (List.pairwise_append.mp h.heights).1
  hashes := h.hashes.sublist ((List.sublist_append_left bs cs).map _)
  roots := h.roots.sublist ((List.sublist_append_left bs cs).flatMap _)
  txids := h.txids.sublist (((List.sublist_append_left bs cs).flatMap _).map _)

lemma apart (h : Separate bs) : bs.Pairwise Apart := by
  have hhash := List.pairwise_map.mp h.hashes
  have hroots := (List.nodup_flatMap.mp h.roots).2
  have htxids := h.txids
  rw [List.map_flatMap, List.nodup_flatMap] at htxids
  refine (h.heights.and (hhash.and (hroots.and htxids.2))).imp ?_
  rintro b c ⟨h1, h2, h3, h4⟩
  exact ⟨UInt32.ne_of_lt h1, h2, h3, h4⟩

lemma nodup_txids (h : Separate bs) {b : Block} (hb : b ∈ bs) : (b.txs.map Tx.txID).Nodup := by
  have htxids := h.txids
  rw [List.map_flatMap, List.nodup_flatMap] at htxids
  exact htxids.1 b hb

end Separate

section Run

variable {bs : List Block}

/-- The blocks inside the window after the last of `bs`. -/
def retained (r : UInt32) (bs : List Block) : List Block :=
  bs.filter fun b => inWindow r ((bs.getLast?.map Block.height).getD 0) b.height

lemma retained_concat {r : UInt32} {b : Block} (hr : 0 < r)
    (hinc : (bs ++ [b]).Pairwise fun a b => a.height < b.height) :
    (retained r bs ++ [b]).filter
      (fun c => c.height ∉ Prune.bands ((bs.getLast?.map Block.height).getD 0)
      (bs.getLast?.map Block.height).isSome b.height r) = retained r (bs ++ [b]) := by
  have hr' : 0 < r.toNat := UInt32.lt_iff_toNat_lt.mp hr
  have hr0 : (r == 0) = false := beq_false_of_ne (UInt32.ne_of_lt hr).symm
  unfold retained
  rw [List.getLast?_concat, List.filter_append, List.filter_append, List.filter_filter]
  congr 1
  · refine List.filter_congr fun c hc => ?_
    cases hlast : bs.getLast? with
    | none => simp [List.getLast?_eq_none_iff.mp hlast] at hc
    | some l =>
      have hcl := height_le_last (List.pairwise_append.mp hinc).1 hlast hc
      have hlb := UInt32.lt_iff_toNat_lt.mp
        ((List.pairwise_append.mp hinc).2.2 l (List.mem_of_getLast? hlast) b (by simp))
      rw [Bool.eq_iff_iff]
      simp only [Option.map_some, Option.getD_some, Option.isSome_some, inWindow, hr0,
        Bool.false_or, Bool.and_eq_true, decide_eq_true_eq, Prune.mem_bands_next (.inl hr')]
      omega
  · have hin : inWindow r b.height b.height = true := by simp [inWindow]; omega
    have hout : b.height ∉ Prune.bands ((bs.getLast?.map Block.height).getD 0)
        (bs.getLast?.map Block.height).isSome b.height r := by
      cases bs.getLast? with
      | none => simp only [Option.map_none, Option.isSome_none, Prune.mem_bands_first]; omega
      | some l =>
        simp only [Option.map_some, Option.isSome_some, Prune.mem_bands_next (.inl hr')]; omega
    simpa [hin] using hout

lemma retained_zero (bs : List Block) : retained 0 bs = bs := by
  simp [retained, inWindow]

section Retained

variable {cfg : Config} {policy : Prune.Policy} {P : List Block → Flat → Prop}

lemma sweep_retained (hprune : ∀ rs f h, rs.Sublist bs → P rs f →
      P (rs.filter fun b => b.height ≠ h) (f.apply (.pruneIndexAtHeight h)))
    {rs : List Block} {f : Flat} (hsub : rs.Sublist bs) (hf : P rs f) (hs : List UInt32) :
    P (rs.filter fun b => b.height ∉ hs) (f.run (hs.map .pruneIndexAtHeight)) := by
  induction hs generalizing rs f with
  | nil => simpa using hf
  | cons h hs ih =>
    have hstep := ih (List.filter_sublist.trans hsub) (hprune rs f h hsub hf)
    rw [List.filter_filter] at hstep
    rw [List.map_cons, Flat.run_cons]
    convert hstep using 3 with b
    simp [Bool.and_comm]

/-- **Along a run the index stands for the blocks inside the window.** It is enough to know what a
block adds, that sweeps of spends do not matter, and what pruning a height takes away. -/
lemma feed_retained (hacc : ∀ c ∈ bs, (cfg.skipValidate || validateBlock c) = true)
    (hinc : bs.Pairwise fun a b => a.height < b.height) (hnil : P [] .empty)
    (hadd : ∀ pre b, pre ++ [b] <+: bs → ∀ rs f, rs.Sublist pre → P rs f →
      P (rs ++ [b]) (f.run (indexCalls (.at cfg policy none) b)))
    (hspent : ∀ rs f (hs : List UInt32), P rs f → P rs (f.run (hs.map .pruneSpentAtHeight)))
    (hprune : ∀ rs f h, rs.Sublist bs → P rs f →
      P (rs.filter fun b => b.height ≠ h) (f.apply (.pruneIndexAtHeight h))) :
    P (retained policy.indexRetention bs) ((Node.start cfg policy).feed bs).flat := by
  induction bs using List.reverseRecOn with
  | nil => exact hnil
  | append_singleton bs b ih =>
    have hpre : bs <+: bs ++ [b] := List.prefix_append bs [b]
    have hing := Node.start_feed_ing policy fun c hc => hacc c (List.mem_append_left _ hc)
    have hcalls : indexCalls ((Node.start cfg policy).feed bs).ing b =
        indexCalls (.at cfg policy none) b := by
      rw [hing]
      rfl
    have hbs := ih (fun c hc => hacc c (List.mem_append_left _ hc)) (List.pairwise_append.mp hinc).1
      (fun pre c hc => hadd pre c (hc.trans hpre)) fun rs f h hsub =>
        hprune rs f h (hsub.trans hpre.sublist)
    rw [Node.feed_append, Node.feed_cons, Node.feed_nil, Node.ingest_flat hing (hacc b (by simp)),
      Flat.run_append, pruneCalls, Flat.run_append, hcalls]
    have hsub : (retained policy.indexRetention bs).Sublist bs := List.filter_sublist
    have hnew := hspent _ _
      (Prune.bands ((bs.getLast?.map Block.height).getD 0) (bs.getLast?.map Block.height).isSome
      b.height policy.d) (hadd bs b (List.prefix_refl _) _ _ hsub hbs)
    split_ifs with hr
    · have hsweep :=
        sweep_retained hprune (hsub.append_right [b]) hnew
        (Prune.bands ((bs.getLast?.map Block.height).getD 0)
        (bs.getLast?.map Block.height).isSome b.height policy.indexRetention)
      rwa [retained_concat hr hinc] at hsweep
    · have hr0 : policy.indexRetention = 0 := by
        have hle := UInt32.le_iff_toNat_le.mp (UInt32.not_lt.mp hr)
        exact UInt32.toNat_inj.mp (Nat.le_zero.mp hle)
      rwa [hr0, retained_zero] at hnew ⊢

end Retained

/-- **The index after a run holds the blocks inside the window.** -/
lemma feed_indexes (cfg : Config) (policy : Prune.Policy) (hs : Separate bs) :
    Indexes (.at cfg policy none) (retained policy.indexRetention bs).reverse
      ((Node.start cfg policy).feed bs).flat := by
  refine feed_retained (P := fun rs f => Indexes (.at cfg policy none) rs.reverse f)
    (fun c hc => ?_) hs.heights
    ⟨fun _ => rfl, fun _ => rfl, fun _ => rfl, fun _ => rfl⟩ (fun pre b hpre rs f hsub hf => ?_)
    (fun rs f hs hf => hf.pruneSpent hs) fun rs f h hsub hf => ?_
  · rw [hs.valid c hc, Bool.or_true]
  · have hap := (hs.apart.sublist hpre.sublist)
    rw [List.reverse_append, List.reverse_singleton, List.singleton_append]
    refine hf.add (fun c hc => ?_) (hs.nodup_txids (hpre.subset (by simp)))
    exact symm
      ((List.pairwise_append.mp hap).2.2 c (hsub.subset (List.mem_reverse.mp hc)) b (by simp))
  · rw [← List.filter_reverse]
    refine hf.prune (List.pairwise_reverse.mpr ((hs.apart.sublist hsub).imp symm))
      (fun c hc => ?_) h
    exact (validateBlock_roots (hs.valid c (hsub.subset (List.mem_reverse.mp hc)))).1

lemma fresh_indexes (cfg : Config) (policy : Prune.Policy) (hs : Separate bs) :
    Indexes (.at cfg policy none) (retained policy.indexRetention bs).reverse
      (feed (fresh cfg policy) bs).2.flatten := by
  have hing : ingested cfg bs = bs := by
    rw [ingested, List.filter_eq_self]
    exact fun d hd => by rw [hs.valid d hd, Bool.or_true]
  have hflat := congrArg Node.flat (Node.of_feed_fresh cfg policy bs).2
  rw [hing] at hflat
  have hidx := feed_indexes cfg policy hs
  rwa [← hflat] at hidx

end Run

/-! ### Answers inside and outside the window -/

lemma blockEntry_eq_some {ing : Ingestor} {b : Block} {t : Hash} {ix : TxIndex}
    (h : blockEntry ing b t = some ix) :
    ∃ (si li : ℕ) (sub : Subtree) (tx : Tx), b.subtrees[si]? = some sub ∧ sub.txs[li]? = some tx ∧
      tx.txID = t ∧
      ing.owns t = true ∧ ix = indexEntry b si li := by
  obtain ⟨p, hp, rfl⟩ := Option.map_eq_some_iff.mp h
  have ht : p.1.txID = t := by simpa using List.find?_some hp
  have hmem := List.mem_reverse.mp (List.mem_of_find?_eq_some hp)
  simp only [placed, List.mem_flatMap, List.mem_map, List.mem_filter] at hmem
  obtain ⟨sub, hsub, tx, ⟨htx, howns⟩, rfl⟩ := hmem
  exact ⟨sub.2, tx.2, sub.1, tx.1, List.mk_mem_zipIdx_iff_getElem?.mp hsub,
    List.mk_mem_zipIdx_iff_getElem?.mp htx,
    ht, ht ▸ howns, rfl⟩

lemma storedLeaves_some {ing : Ingestor} {b : Block} {r : Hash} {l : List Hash}
    (h : storedLeaves ing b r = some l) :
    ∃ sub ∈ b.subtrees, ing.ownAny sub = true ∧ sub.root = r ∧ sub.txIDs = l := by
  obtain ⟨sub, hsub, rfl⟩ := Option.map_eq_some_iff.mp h
  have hp : ing.ownAny sub = true ∧ sub.root = r := by simpa using List.find?_some hsub
  exact ⟨sub, List.mem_reverse.mp (List.mem_of_find?_eq_some hsub), hp.1, hp.2, rfl⟩

lemma storedLeaves_none {ing : Ingestor} {b : Block} {r : Hash} :
    storedLeaves ing b r = none ↔ ∀ sub ∈ b.subtrees, sub.root = r → ing.ownAny sub = false := by
  rw [storedLeaves, Option.map_eq_none_iff, List.find?_eq_none]
  simp only [List.mem_reverse, Bool.and_eq_true, beq_iff_eq, not_and']
  simp

lemma storedLeaves_eq_some {ing : Ingestor} {b : Block} {sub : Subtree}
    (hnd : (b.subtrees.map Subtree.root).Nodup) (hsub : sub ∈ b.subtrees)
    (hown : ing.ownAny sub = true) :
    storedLeaves ing b sub.root = some sub.txIDs := by
  have hsome : (b.subtrees.reverse.find? fun s => ing.ownAny s && s.root == sub.root).isSome :=
    List.find?_isSome.mpr ⟨sub, List.mem_reverse.mpr hsub, by simp [hown]⟩
  obtain ⟨s, hs⟩ := Option.isSome_iff_exists.mp hsome
  have hroot : s.root = sub.root := by
    have := List.find?_some hs
    simp_all
  have heq :=
    List.inj_on_of_nodup_map hnd (List.mem_reverse.mp (List.mem_of_find?_eq_some hs)) hsub hroot
  rw [storedLeaves, hs, heq]
  rfl

lemma ownAny_of_owns {ing : Ingestor} {sub : Subtree} {t : Hash} (ht : t ∈ sub.txIDs)
    (h : ing.owns t = true) :
    ing.ownAny sub = true := by
  unfold Ingestor.ownAny
  split_ifs
  · rfl
  · exact List.any_eq_true.mpr ⟨t, ht, h⟩

section

variable {ing : Ingestor} {rs : List Block} {f : Flat} {c : Block} {t : Hash}

lemma Indexes.of_mem (hf : Indexes ing rs f) (hap : rs.Pairwise Apart)
    (hroots : ∀ b ∈ rs, b.subtrees.map Subtree.root = b.subtreeRoots) (hc : c ∈ rs)
    (ht : t ∈ (owned ing c).map Tx.txID) :
    (∃ ix, blockEntry ing c t = some ix ∧ f.txindex t = some ix) ∧
      f.blocks c.hash = some (blockRec c) ∧
      ∀ r l, storedLeaves ing c r = some l → f.subtree r = some l := by
  have honly : ∀ b ∈ rs, ¬Apart b c → b = c :=
    fun b hb hn => by_contra fun hne => hn (hap.forall hb hc hne)
  refine ⟨?_, ?_, fun r l hl => ?_⟩
  · obtain ⟨ix, hix⟩ := Option.isSome_iff_exists.mp (blockEntry_isSome.mpr ht)
    refine ⟨ix, hix,
      (hf.txindex t).trans (findSome?_eq_of_unique hc hix fun b hb hsome => honly b hb fun h => ?_)⟩
    exact h.txids (mem_txs_of_blockEntry hsome) ((List.filter_sublist.map _).subset ht)
  · refine (hf.blocks _).trans
      (findSome?_eq_of_unique hc (if_pos rfl) fun b hb hsome => honly b hb fun h => ?_)
    simp [h.hash] at hsome
  · refine (hf.subtree r).trans
      (findSome?_eq_of_unique hc hl fun b hb hsome => honly b hb fun h => ?_)
    have hb' := mem_roots_of_storedLeaves hsome
    have hc' := mem_roots_of_storedLeaves (Option.isSome_iff_exists.mpr ⟨l, hl⟩)
    rw [hroots b hb] at hb'
    rw [hroots c hc] at hc'
    exact h.roots hb' hc'

lemma Indexes.of_apart (hf : Indexes ing rs f) (hap : ∀ b ∈ rs, Apart b c)
    (ht : t ∈ c.txs.map Tx.txID) :
    f.txindex t = none := by
  rw [hf.txindex, List.findSome?_eq_none_iff]
  intro b hb
  by_contra hsome
  exact (hap b hb).txids (mem_txs_of_blockEntry (Option.isSome_iff_ne_none.mpr hsome)) ht

end

lemma merklePath_of_entry {ing : Ingestor} {f : Flat} {b : Block} {t : Hash} {ix : TxIndex}
    (hval : validateBlock b = true) (hpar : b.Parallel)
    (hleaves : ∀ s ∈ b.subtrees, s.txIDs.length ≤ 2 ^ 20) (hcount : b.subtrees.length ≤ 2 ^ 32)
    (hnd : b.subtreeRoots.Nodup) (hix : blockEntry ing b t = some ix) (htx : f.txindex t = some ix)
    (hblk : f.blocks b.hash = some (blockRec b))
    (hsub : ∀ r l, storedLeaves ing b r = some l → f.subtree r = some l) :
    ∃ p, f.merklePath t = .ok p ∧ p.leaf = t ∧ p.verify = true ∧
      p.blockRoot = Proof.headerMerkleRoot p.header := by
  obtain ⟨si, li, sub, tx, hsi, hli, rfl, howns, rfl⟩ := blockEntry_eq_some hix
  have hmem : sub ∈ b.subtrees := List.mem_of_getElem? hsi
  obtain ⟨hroot, hlt, p, hp, hright⟩ := assemble_placed hval hpar hleaves hcount hsi hli
  have htx' : tx.txID ∈ sub.txIDs := by
    rw [← hpar sub hmem]
    exact List.mem_map_of_mem (List.mem_of_getElem? hli)
  have hstored :=
    storedLeaves_eq_some (by rwa [(validateBlock_roots hval).1]) hmem (ownAny_of_owns htx' howns)
  refine ⟨p, ?_, hright⟩
  have hb : f.blocks (indexEntry b si li).blockHash = some (blockRec b) := hblk
  have hmined : (indexEntry b si li).mined = true := rfl
  simp only [Flat.merklePath, htx, hmined, Bool.not_true, Bool.false_eq_true, if_false, hb, hroot,
    hsub _ _ hstored, Nat.not_le.mpr hlt, hp]
  rfl

/-- **Everything inside the index window is provable, and nothing outside it is served.** After
blocks that check out and share no record, an owned transaction at most `R` deep is mined in its
block and has a proof that verifies against the header; a deeper one is not known. The number of
a subtree is recorded in 32 bits, hence the bound on subtrees. -/
theorem index_window (cfg : Config) (policy : Prune.Policy) (bs : List Block) (hs : Separate bs)
    (hpar : ∀ c ∈ bs, c.Parallel) (hleaves : ∀ c ∈ bs, ∀ s ∈ c.subtrees, s.txIDs.length ≤ 2 ^ 20)
    (hcount : ∀ c ∈ bs, c.subtrees.length ≤ 2 ^ 32) (b : Block) (hlast : bs.getLast? = some b)
    (c : Block) (hc : c ∈ bs) (tx : Tx) (htx : tx ∈ c.txs)
    (howns : (Ingest.new none cfg).owns tx.txID = true) :
    let s := (feed (fresh cfg policy) bs).2
    let r := policy.indexRetention
    (r = 0 ∨ b.height.toNat - c.height.toNat + 1 ≤ r.toNat →
      ((Api.mined tx.txID).run.run s).1 =
        .ok { mined := true, blockHash := c.hash, height := c.height, blockTime := c.time } ∧
      ∃ p, ((Proof.build tx.txID).run.run s).1 = .ok p ∧ p.leaf = tx.txID ∧ p.verify = true ∧
        p.blockRoot = Proof.headerMerkleRoot p.header) ∧
    (¬(r = 0 ∨ b.height.toNat - c.height.toNat + 1 ≤ r.toNat) →
      ((Api.seen tx.txID).run.run s).1 = .ok { seen := false } ∧
      ((Proof.build tx.txID).run.run s).1 = .error .notMined) := by
  intro s r
  have hidx : Indexes (.at cfg policy none) (retained r bs).reverse s.flatten :=
    fresh_indexes cfg policy hs
  have hsub : (retained r bs).Sublist bs := List.filter_sublist
  have hroots : ∀ d ∈ bs, d.subtrees.map Subtree.root = d.subtreeRoots :=
    fun d hd => (validateBlock_roots (hs.valid d hd)).1
  have hmem : c ∈ retained r bs ↔ (r = 0 ∨ b.height.toNat - c.height.toNat + 1 ≤ r.toNat) := by
    simp [retained, hlast, inWindow, hc]
  rw [← hmem, mined_mem, seen_mem]
  have hbuild : ((Proof.build tx.txID).run.run s).1 = s.flatten.merklePath tx.txID :=
    congrArg Prod.fst (merklePath_mem s tx.txID)
  rw [hbuild]
  refine ⟨fun hin => ?_, fun hout => ?_⟩
  · have hown : tx.txID ∈ (owned (.at cfg policy none) c).map Tx.txID :=
      List.mem_map_of_mem (List.mem_filter.mpr ⟨htx, howns⟩)
    obtain ⟨⟨ix, hix, htxi⟩, hblk, hst⟩ :=
      hidx.of_mem (List.pairwise_reverse.mpr ((hs.apart.sublist hsub).imp symm))
      (fun d hd => hroots d (hsub.subset (List.mem_reverse.mp hd))) (List.mem_reverse.mpr hin) hown
    constructor
    · obtain ⟨si, li, -, -, -, -, -, -, rfl⟩ := blockEntry_eq_some hix
      simp only [Flat.mined, htxi]
      rfl
    · exact merklePath_of_entry (hs.valid c hc) (hpar c hc) (hleaves c hc) (hcount c hc)
        ((List.nodup_flatMap.mp hs.roots).1 c hc) hix htxi hblk hst
  · have hnone : s.flatten.txindex tx.txID = none := by
      refine hidx.of_apart
        (fun d hd => hs.apart.forall (hsub.subset (List.mem_reverse.mp hd)) hc ?_)
        (List.mem_map_of_mem htx)
      rintro rfl
      exact hout (List.mem_reverse.mp hd)
    simp [Flat.seen, Flat.merklePath, hnone]

/-- The transaction without inputs and outputs whose id is the number `n`. -/
def numTx (n : ℕ) : Tx := ⟨⟨beBytes 32 n, length_beBytes 32 n⟩, [], []⟩

theorem index_window_numTx :
    let s :=
  (feed (fresh {} { indexRetention := 2 }) [sealBlock 1 [[numTx 1]], sealBlock 3 [[numTx 2]]]).2
    (∃ p, ((Proof.build (numTx 2).txID).run.run s).1 = .ok p ∧ p.leaf = (numTx 2).txID ∧
      p.verify = true ∧
      p.blockRoot = Proof.headerMerkleRoot p.header) ∧
    ((Proof.build (numTx 1).txID).run.run s).1 = .error .notMined := by
  have hs : Separate [sealBlock 1 [[numTx 1]], sealBlock 3 [[numTx 2]]] := by
    refine ⟨?_, ?_, ?_, ?_, ?_⟩
    · simp [validateBlock_sealBlock]
    · simp [sealBlock]
    · rw [sealBlock_singleton, sealBlock_singleton]
      decide +kernel
    · rw [sealBlock_singleton, sealBlock_singleton]
      decide +kernel
    · decide +kernel
  have h :=
    index_window {} { indexRetention := 2 } [sealBlock 1 [[numTx 1]], sealBlock 3 [[numTx 2]]] hs
    (by simp [sealBlock_parallel]) (by simp [sealBlock]) (by simp [sealBlock])
    (sealBlock 3 [[numTx 2]]) rfl
  constructor
  · exact ((h (sealBlock 3 [[numTx 2]]) (by simp) (numTx 2) (List.mem_singleton_self _) rfl).1
      (by simp [sealBlock])).2
  · exact ((h (sealBlock 1 [[numTx 1]]) (by simp) (numTx 1) (List.mem_singleton_self _) rfl).2
      (by simp [sealBlock])).2

/-- A block of `n` subtrees with one transaction each and one with two. -/
def crowded (n : ℕ) : Block :=
  sealBlock 1 ((List.range n).map (fun i => [numTx i]) ++ [[numTx n, numTx (n + 1)]])

lemma numTx_inj {a b : ℕ} (ha : a < 256 ^ 32) (hb : b < 256 ^ 32)
    (h : (numTx a).txID = (numTx b).txID) : a = b := by
  have := beBytes_inj (congrArg Subtype.val h)
  rwa [Nat.mod_eq_of_lt ha, Nat.mod_eq_of_lt hb] at this

lemma crowded_txs (n : ℕ) : (crowded n).txs = (List.range (n + 2)).map numTx := by
  have hs : (crowded n).txs =
      ((List.range n).map (fun i => [numTx i]) ++ [[numTx n, numTx (n + 1)]]).flatMap id := by
    rw [crowded, Block.txs, sealBlock, List.flatMap_map]
    rfl
  have hsing : ((List.range n).map fun i => [numTx i]).flatMap id = (List.range n).map numTx := by
    rw [List.flatMap_map, List.map_eq_flatMap]
    rfl
  rw [hs, List.flatMap_append, hsing, List.range_succ, List.range_succ]
  simp

lemma crowded_roots (n : ℕ) : (crowded n).subtreeRoots =
    (List.range n).map (fun i => (numTx i).txID) ++
      [Commitment.hashPair (numTx n).txID (numTx (n + 1)).txID] := by
  simp [crowded, sealBlock, rootOf_pair]

lemma crowded_separate {n : ℕ} (hn : n + 2 ≤ 256 ^ 31)
    (hh : (Commitment.hashPair (numTx n).txID (numTx (n + 1)).txID).1.head? ≠ some 0) :
    Separate [crowded n] where
  valid := by
    simp only [List.mem_singleton, forall_eq]
    refine validateBlock_sealBlock (by simp) fun txs htxs => ?_
    rcases List.mem_append.mp htxs with h | h
    · obtain ⟨i, -, rfl⟩ := List.mem_map.mp h
      simp
    · simp [List.mem_singleton.mp h]
  heights := by simp
  hashes := by simp
  roots := by
    have hlt : ∀ i ∈ List.range n, i < 256 ^ 32 := fun i hi => by
      have := List.mem_range.mp hi
      omega
    rw [List.flatMap_singleton, crowded_roots]
    refine List.nodup_append'.mpr
      ⟨List.Nodup.map_on (fun a ha b hb => numTx_inj (hlt a ha) (hlt b hb)) List.nodup_range,
      List.nodup_singleton _, fun r hr hl => hh ?_⟩
    -- the ids are small numbers, so their first byte is zero
    obtain ⟨i, hi, rfl⟩ := List.mem_map.mp hr
    have hi' := List.mem_range.mp hi
    have hval : (numTx i).txID.1 = beBytes 32 i := rfl
    rw [← List.mem_singleton.mp hl, hval, beBytes_succ, Nat.div_eq_of_lt (by omega)]
    rfl
  txids := by
    rw [List.flatMap_singleton, crowded_txs, List.map_map]
    refine List.Nodup.map_on (fun a ha b hb => numTx_inj ?_ ?_) List.nodup_range
    · have := List.mem_range.mp ha
      omega
    · have := List.mem_range.mp hb
      omega

lemma crowded_subtree {n si : ℕ} {sub : Subtree} (h : (crowded n).subtrees[si]? = some sub) :
    (si < n ∧ sub.txs = [numTx si]) ∨ (si = n ∧ sub.txs = [numTx n, numTx (n + 1)]) := by
  rw [crowded, sealBlock, List.getElem?_map, Option.map_eq_some_iff] at h
  obtain ⟨txs, htxs, rfl⟩ := h
  rw [List.getElem?_append, List.length_map, List.length_range] at htxs
  split_ifs at htxs with hlt
  · rw [List.getElem?_map, List.getElem?_range hlt, Option.map_some, Option.some.injEq] at htxs
    exact .inl ⟨hlt, htxs.symm⟩
  · obtain ⟨h0, htxs⟩ := List.getElem?_eq_some_iff.mp htxs
    have h0' : si - n < 1 := h0
    have hsi : si = n := by omega
    subst hsi
    simp only [Nat.sub_self, List.getElem_cons_zero] at htxs
    exact .inr ⟨rfl, htxs.symm⟩

lemma crowded_entry {n : ℕ} (hn : n + 2 ≤ 256 ^ 31) {ing : Ingestor} {ix : TxIndex}
    (h : blockEntry ing (crowded n) (numTx (n + 1)).txID = some ix) :
    ix = indexEntry (crowded n) n 1 := by
  obtain ⟨si, li, sub, tx, hsi, hli, ht, -, rfl⟩ := blockEntry_eq_some h
  rcases crowded_subtree hsi with ⟨hlt, htxs⟩ | ⟨rfl, htxs⟩
  · have hmem := List.mem_of_getElem? hli
    rw [htxs, List.mem_singleton] at hmem
    have := numTx_inj (a := si) (b := n + 1) (by omega) (by omega) (by rw [← ht, hmem])
    omega
  · rw [htxs] at hli
    match li, hli with
    | 0, hli =>
      have htx : numTx si = tx := by simpa using hli
      have := numTx_inj (a := si) (b := si + 1) (by omega) (by omega) (by rw [← ht, htx])
      omega
    | 1, _ => rfl
    | li + 2, hli => simp at hli

/-- **Subtree numbers wrap.** In a block of `2 ^ 32 + 1` subtrees the last one is recorded as the
first, and a transaction in it has no proof. -/
theorem index_window_crowded :
    ∃ (b : Block) (tx : Tx), Separate [b] ∧ b.Parallel ∧
      (∀ s ∈ b.subtrees, s.txIDs.length ≤ 2 ^ 20) ∧ tx ∈ b.txs ∧
      (Ingest.new none {}).owns tx.txID = true ∧
      ((Proof.build tx.txID).run.run (feed (fresh {} {}) [b]).2).1 = .error .inconsistent := by
  obtain ⟨n, hn, hwrap, hpos, hh⟩ : ∃ n : ℕ, n + 2 ≤ 256 ^ 31 ∧ UInt32.ofNat n = 0 ∧ 0 < n ∧
      (Commitment.hashPair (numTx n).txID (numTx (n + 1)).txID).1.head? ≠ some 0 :=
    ⟨2 ^ 32, by decide, by decide, by decide, by
      unfold Commitment.hashPair Commitment.doubleSHA256
      rw [Sha256.Eval.sum256_eq]
      decide +kernel⟩
  have hs := crowded_separate hn hh
  have htx : numTx (n + 1) ∈ (crowded n).txs := by
    rw [crowded_txs]
    exact List.mem_map_of_mem (List.mem_range.mpr (by omega))
  have hpar : (crowded n).Parallel := sealBlock_parallel _ _
  refine ⟨crowded n, numTx (n + 1), hs, hpar, fun s hsub => ?_, htx, rfl, ?_⟩
  · obtain ⟨si, hsi⟩ := List.mem_iff_getElem?.mp hsub
    rw [← hpar s hsub, List.length_map]
    rcases crowded_subtree hsi with ⟨-, htxs⟩ | ⟨-, htxs⟩ <;> simp [htxs]
  · have hidx := fresh_indexes {} {} hs
    rw [retained_zero, List.reverse_singleton] at hidx
    have hroots := (validateBlock_roots (hs.valid _ (List.mem_singleton_self _))).1
    obtain ⟨⟨ix, hix, htxi⟩, hblk, hst⟩ :=
      hidx.of_mem (c := crowded n) (List.pairwise_singleton _ _) (by simpa using hroots)
      (List.mem_singleton_self _) (List.mem_map_of_mem (List.mem_filter.mpr ⟨htx, rfl⟩))
    obtain rfl := crowded_entry hn hix
    -- the recorded subtree is the first one, and it has a single leaf
    have hfirst : (⟨(numTx 0).txID, [(numTx 0).txID], [numTx 0]⟩ : Subtree) ∈
        (crowded n).subtrees := by
      refine List.mem_map.mpr
        ⟨[numTx 0], List.mem_append_left _ (List.mem_map.mpr ⟨0, List.mem_range.mpr hpos, rfl⟩), ?_⟩
      simp
    have hleaves := hst _ _ (storedLeaves_eq_some
      (by rw [hroots]; exact (List.nodup_flatMap.mp hs.roots).1 _ (List.mem_singleton_self _))
        hfirst rfl)
    have hroot :
        (blockRec (crowded n)).subtreeRoots[(indexEntry (crowded n) n 1).subtreeIndex.toNat]? =
        some (numTx 0).txID := by
      change (crowded n).subtreeRoots[(UInt32.ofNat n).toNat]? = _
      rw [hwrap, crowded_roots, List.getElem?_append_left (by simpa using hpos)]
      simp [hpos]
    have hb : (feed (fresh {} {}) [crowded n]).2.flatten.blocks
        (indexEntry (crowded n) n 1).blockHash =
      some (blockRec (crowded n)) := hblk
    have hmined : (indexEntry (crowded n) n 1).mined = true := rfl
    refine (congrArg Prod.fst (merklePath_mem _ _)).trans ?_
    simp only [Flat.merklePath, htxi, hmined, Bool.not_true, Bool.false_eq_true, if_false, hb,
      hroot, hleaves]
    rfl

end MemServe
