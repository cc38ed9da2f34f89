import MemServe.MemFlat

/-!
The index of heights.

`PruneIndexAtHeight` drops what the index lists at a height, without a look at the records. A
record is listed where it is stored for the first time and stays listed when it is deleted or
stored again, so the index can miss records of a height and list those of another. It is
exact as long as every record is stored where the index already has it, or nowhere.
-/

namespace MemServe

namespace Flat

/-- The index lists the mined transactions and the blocks of each height, and nothing stored at
another one. -/
structure Listed (f : Flat) : Prop where
  tx : ∀ t ix, f.txindex t = some ix → ix.mined = true → t ∈ (f.entry ix.height).txids
  tx_height : ∀ h t ix, t ∈ (f.entry h).txids → f.txindex t = some ix → ix.height = h
  block : ∀ x b, f.blocks x = some b → (f.entry b.height).hasBlock = true ∧
    (f.entry b.height).block = x
  block_height : ∀ h b, (f.entry h).hasBlock = true → f.blocks (f.entry h).block = some b →
    b.height = h

/-- The write stores a record where the index has it, or has nothing. -/
def Fits (c : Call) (f : Flat) : Prop :=
  match c with
  | .putTxIndex t ix =>
    (∀ h, t ∈ (f.entry h).txids → h = ix.height) ∧
      (ix.mined = true → f.txindex t ≠ none → t ∈ (f.entry ix.height).txids)
  | .putBlock b =>
    (∀ h, (f.entry h).hasBlock = true → (f.entry h).block = b.hash → h = b.height) ∧
      ((f.entry b.height).hasBlock = true → f.blocks (f.entry b.height).block ≠ none →
        (f.entry b.height).block = b.hash)
  | _ => True

lemma empty_listed : (empty : Flat).Listed where
  tx t ix h := by simp [empty] at h
  tx_height h t ix ht := by simp [empty, entry] at ht
  block x b h := by simp [empty] at h
  block_height h b hb := by simp [empty, entry] at hb

variable {f : Flat}

lemma Listed.of_eq {g : Flat} (hf : f.Listed) (ht : g.txindex = f.txindex)
    (hb : g.blocks = f.blocks)
    (hi : g.hidx = f.hidx) : g.Listed := by
  have he : g.entry = f.entry := by funext h; rw [entry, entry, hi]
  constructor
  · rw [ht, he]; exact hf.tx
  · rw [ht, he]; exact hf.tx_height
  · rw [hb, he]; exact hf.block
  · rw [hb, he]; exact hf.block_height

lemma entry_putTxIndex (f : Flat) (t : Hash) (ix : TxIndex) (h : UInt32) :
    (f.apply (.putTxIndex t ix)).entry h =
      if h = ix.height ∧ ix.mined = true ∧ f.txindex t = none then
        { f.entry h with txids := (f.entry h).txids ++ [t] }
      else f.entry h := by
  simp only [apply, entry]
  by_cases hc : (ix.mined && (f.txindex t).isNone) = true
  · rw [if_pos hc]
    rw [Bool.and_eq_true, Option.isNone_iff_eq_none] at hc
    by_cases hh : h = ix.height
    · subst hh
      rw [if_pos ⟨rfl, hc⟩, Function.update_self]
      rfl
    · rw [if_neg fun h' => hh h'.1, Function.update_of_ne hh]
  · rw [if_neg hc, if_neg]
    rintro ⟨-, hm, hn⟩
    exact hc (by rw [hm, hn]; rfl)

lemma entry_putBlock (f : Flat) (b : BlockRec) (h : UInt32) :
    (f.apply (.putBlock b)).entry h =
      if h = b.height then
        { f.entry h with block := b.hash, hasBlock := true, subtrees := b.subtreeRoots }
      else f.entry h := by
  simp only [apply, entry]
  by_cases hh : h = b.height
  · subst hh
    rw [if_pos rfl, Function.update_self]
    rfl
  · rw [if_neg hh, Function.update_of_ne hh]

lemma entry_pruneIndex (f : Flat) (h a : UInt32) :
    (f.apply (.pruneIndexAtHeight h)).entry a = if a = h then {} else f.entry a := by
  rw [apply_pruneIndex]
  simp only [entry, Function.update_apply]
  split_ifs <;> rfl

/-- A transaction is listed at its height by its first entry only, so it has to be listed already
for any other, and nowhere else. -/
lemma listed_putTxIndex_iff (hf : f.Listed) (t : Hash) (ix : TxIndex) :
    (f.apply (.putTxIndex t ix)).Listed ↔ Fits (.putTxIndex t ix) f := by
  have htx : (f.apply (.putTxIndex t ix)).txindex = Function.update f.txindex t (some ix) := rfl
  have hblk : (f.apply (.putTxIndex t ix)).blocks = f.blocks := rfl
  have hmem : ∀ h x, x ∈ ((f.apply (.putTxIndex t ix)).entry h).txids ↔
      x ∈ (f.entry h).txids ∨ (h = ix.height ∧ ix.mined = true ∧ f.txindex t = none) ∧ x = t := by
    intro h x
    rw [entry_putTxIndex]
    split_ifs with hc
    · simp [hc]
    · simp [hc]
  constructor
  · intro hg
    refine ⟨fun h ht => ?_, fun hm hs => ?_⟩
    · exact (hg.tx_height h t ix ((hmem h t).mpr (.inl ht))
        (by rw [htx, Function.update_self])).symm
    · have := hg.tx t ix (by rw [htx, Function.update_self]) hm
      rcases (hmem _ _).mp this with h | ⟨⟨-, -, h⟩, -⟩
      · exact h
      · exact absurd h hs
  · rintro ⟨hother, hlist⟩
    have hent : ∀ h, ((f.apply (.putTxIndex t ix)).entry h).hasBlock = (f.entry h).hasBlock ∧
        ((f.apply (.putTxIndex t ix)).entry h).block = (f.entry h).block := by
      intro h
      rw [entry_putTxIndex]
      split_ifs
      · exact ⟨rfl, rfl⟩
      · exact ⟨rfl, rfl⟩
    refine ⟨fun x ix' hx hm => ?_, fun h x ix' hl hx => ?_, fun x b hb => ?_, fun h b hh hb => ?_⟩
    · rw [htx] at hx
      rcases GoMap.update_eq_some hx with ⟨rfl, rfl⟩ | ⟨-, hx⟩
      · by_cases hs : f.txindex x = none
        · exact (hmem _ _).mpr (.inr ⟨⟨rfl, hm, hs⟩, rfl⟩)
        · exact (hmem _ _).mpr (.inl (hlist hm hs))
      · exact (hmem _ _).mpr (.inl (hf.tx x ix' hx hm))
    · rw [htx] at hx
      rcases GoMap.update_eq_some hx with ⟨rfl, rfl⟩ | ⟨hxt, hx⟩
      · rcases (hmem _ _).mp hl with hl | ⟨⟨rfl, -, -⟩, -⟩
        · exact (hother h hl).symm
        · rfl
      · rcases (hmem _ _).mp hl with hl | ⟨-, hxt'⟩
        · exact hf.tx_height h x ix' hl hx
        · exact absurd hxt' hxt
    · rw [(hent _).1, (hent _).2]
      exact hf.block x b hb
    · rw [(hent _).1] at hh
      rw [(hent _).2] at hb
      exact hf.block_height h b hh hb

/-- A height lists one block, so the block it lists may not be another one that is still stored, and
the block may not be listed at another height. -/
lemma listed_putBlock_iff (hf : f.Listed) (b : BlockRec) :
    (f.apply (.putBlock b)).Listed ↔ Fits (.putBlock b) f := by
  have hblk : (f.apply (.putBlock b)).blocks = Function.update f.blocks b.hash (some b) := rfl
  have hself : (f.apply (.putBlock b)).entry b.height =
      { f.entry b.height with block := b.hash, hasBlock := true, subtrees := b.subtreeRoots } := by
    rw [entry_putBlock, if_pos rfl]
  have hother : ∀ h, h ≠ b.height → (f.apply (.putBlock b)).entry h = f.entry h := by
    intro h hh
    rw [entry_putBlock, if_neg hh]
  have htxids : ∀ h, ((f.apply (.putBlock b)).entry h).txids = (f.entry h).txids := by
    intro h
    rw [entry_putBlock]
    split_ifs
    · rfl
    · rfl
  constructor
  · intro hg
    refine ⟨fun h hh hx => ?_, fun hh hs => ?_⟩
    · by_contra hne
      refine hne (hg.block_height h b ?_ ?_).symm
      · rw [hother h hne]
        exact hh
      · rw [hother h hne, hx, hblk, Function.update_self]
    · -- the block listed so far would no longer be
      by_contra hne
      obtain ⟨c, hc⟩ := Option.ne_none_iff_exists'.mp hs
      have hheight := hf.block_height b.height c hh hc
      have hlost := (hg.block _ c (by rw [hblk, Function.update_of_ne hne, hc])).2
      rw [hheight, hself] at hlost
      exact hne hlost.symm
  · rintro ⟨hfree, hsame⟩
    refine ⟨fun x ix hx hm => ?_, fun h x ix hl hx => ?_, fun x c hc => ?_, fun h c hh hc => ?_⟩
    · rw [htxids]
      exact hf.tx x ix hx hm
    · rw [htxids] at hl
      exact hf.tx_height h x ix hl hx
    · rw [hblk] at hc
      rcases GoMap.update_eq_some hc with ⟨rfl, rfl⟩ | ⟨hx, hc⟩
      · rw [hself]
        exact ⟨rfl, rfl⟩
      · obtain ⟨hh, hbx⟩ := hf.block x c hc
        have hne : c.height ≠ b.height := by
          intro e
          rw [e] at hh hbx
          exact hx (hbx.symm.trans (hsame hh (by rw [hbx, hc]; simp)))
        rw [hother _ hne]
        exact ⟨hh, hbx⟩
    · by_cases hb : h = b.height
      · subst hb
        rw [hself, hblk, Function.update_self] at hc
        rw [← Option.some.inj hc]
      · rw [hother h hb] at hh hc
        have hne : (f.entry h).block ≠ b.hash := fun e => hb (hfree h hh e)
        rw [hblk, Function.update_of_ne hne] at hc
        exact hf.block_height h c hh hc

lemma Listed.deleteTxIndex (hf : f.Listed) (t : Hash) : (f.apply (.deleteTxIndex t)).Listed := by
  have htx : ∀ x ix, (f.apply (.deleteTxIndex t)).txindex x = some ix → f.txindex x = some ix := by
    intro x ix hx
    simp only [apply, Function.update_apply] at hx
    split_ifs at hx
    exact hx
  exact ⟨fun x ix hx => hf.tx x ix (htx x ix hx),
    fun h x ix hl hx => hf.tx_height h x ix hl (htx x ix hx),
    hf.block, hf.block_height⟩

lemma Listed.pruneIndex (hf : f.Listed) (h : UInt32) :
    (f.apply (.pruneIndexAtHeight h)).Listed := by
  have htx : ∀ x ix, (f.apply (.pruneIndexAtHeight h)).txindex x = some ix →
      x ∉ (f.entry h).txids ∧ f.txindex x = some ix := by
    intro x ix hx
    simp only [apply_pruneIndex] at hx
    split_ifs at hx with hl
    exact ⟨hl, hx⟩
  have hblk : ∀ x b, (f.apply (.pruneIndexAtHeight h)).blocks x = some b →
      ¬((f.entry h).hasBlock = true ∧ (f.entry h).block = x) ∧ f.blocks x = some b := by
    intro x b hb
    simp only [apply_pruneIndex] at hb
    split_ifs at hb with hh
    · rw [Function.update_apply] at hb
      split_ifs at hb with hx
      exact ⟨fun hc => hx hc.2.symm, hb⟩
    · exact ⟨fun hc => hh hc.1, hb⟩
  refine ⟨fun x ix hx hm => ?_, fun a x ix hl hx => ?_, fun x b hb => ?_, fun a b ha hb => ?_⟩
  · obtain ⟨hnot, hx⟩ := htx x ix hx
    have hl := hf.tx x ix hx hm
    have hne : ix.height ≠ h := fun e => hnot (e ▸ hl)
    rw [entry_pruneIndex, if_neg hne]
    exact hl
  · rw [entry_pruneIndex] at hl
    split_ifs at hl with ha
    · simp at hl
    · exact hf.tx_height a x ix hl (htx x ix hx).2
  · obtain ⟨hnot, hb⟩ := hblk x b hb
    have hl := hf.block x b hb
    have hne : b.height ≠ h := fun e => hnot (e ▸ hl)
    rw [entry_pruneIndex, if_neg hne]
    exact hl
  · rw [entry_pruneIndex] at ha hb
    split_ifs at ha hb with hah
    exact hf.block_height a b ha (hblk _ b hb).2

/-- **A write keeps the index listed exactly if it fits.** -/
lemma listed_apply_iff (hf : f.Listed) (c : Call) : (f.apply c).Listed ↔ Fits c f := by
  cases c with
  | putTxIndex t ix => exact listed_putTxIndex_iff hf t ix
  | putBlock b => exact listed_putBlock_iff hf b
  | deleteTxIndex t => exact iff_of_true (hf.deleteTxIndex t) trivial
  | pruneIndexAtHeight h => exact iff_of_true (hf.pruneIndex h) trivial
  | _ => exact iff_of_true (hf.of_eq rfl rfl rfl) trivial

end Flat

/-! ### What a prune removes -/

namespace Mem.Store

/-- Pruning `h` removes the mined transactions, the blocks and the header of `h`, and leaves every
record of another height as it is. -/
structure PrunesExactly (s : Store) (h : UInt32) : Prop where
  tx : ∀ t ix, (s.pruneIndexAtHeight h).2.getTxIndex t = some ix →
    ¬(ix.mined = true ∧ ix.height = h)
  block : ∀ x b, (s.pruneIndexAtHeight h).2.getBlock x = some b → b.height ≠ h
  header : (s.pruneIndexAtHeight h).2.getHeader h = none
  other_tx : ∀ t ix, ix.height ≠ h →
    ((s.pruneIndexAtHeight h).2.getTxIndex t = some ix ↔ s.getTxIndex t = some ix)
  other_block : ∀ x b, b.height ≠ h →
    ((s.pruneIndexAtHeight h).2.getBlock x = some b ↔ s.getBlock x = some b)
  other_header : ∀ a, a ≠ h → (s.pruneIndexAtHeight h).2.getHeader a = s.getHeader a

section Pruned

variable (s : Store) (h : UInt32)

lemma pruned_tx (t : Hash) : (s.pruneIndexAtHeight h).2.getTxIndex t =
    if t ∈ (s.flatten.entry h).txids then none else s.getTxIndex t := by
  have hp := flatten_pruneIndexAtHeight s h
  rw [Flat.apply_pruneIndex] at hp
  exact congrFun (congrArg Flat.txindex hp) t

lemma pruned_block (x : Hash) : (s.pruneIndexAtHeight h).2.getBlock x =
    if (s.flatten.entry h).hasBlock = true ∧ (s.flatten.entry h).block = x then none
    else s.getBlock x := by
  have hp := flatten_pruneIndexAtHeight s h
  rw [Flat.apply_pruneIndex] at hp
  have hb : (s.pruneIndexAtHeight h).2.getBlock x =
      (if (s.flatten.entry h).hasBlock then
        Function.update s.flatten.blocks (s.flatten.entry h).block none
        else s.flatten.blocks) x := congrFun (congrArg Flat.blocks hp) x
  rw [hb]
  by_cases hh : (s.flatten.entry h).hasBlock = true
  · simp only [hh, if_true, true_and, Function.update_apply, eq_comm (a := x)]
    rfl
  · simp only [hh]
    rfl

lemma pruned_header (a : UInt32) :
    (s.pruneIndexAtHeight h).2.getHeader a = if a = h then none else s.getHeader a := by
  have hp := flatten_pruneIndexAtHeight s h
  rw [Flat.apply_pruneIndex] at hp
  exact (congrFun (congrArg Flat.hdr hp) a).trans (Function.update_apply _ _ _ _)

end Pruned

lemma pruneEach_tx_count (l : List Hash) (n : ℕ) (s : Store) :
    (pruneEach pruneTx l (n, s)).1 =
      n + (l.toFinset.filter fun t => (s.getTxIndex t).isSome = true).card := by
  refine Trace.tally_deletes (p := fun s t => (s.getTxIndex t).isSome) (fun s t => ?_)
    (fun s t x => ?_) l n s
  · unfold pruneTx
    cases s.getTxIndex t <;> rfl
  · have hx : (s.pruneTx t).2.getTxIndex x = if x ∈ [t] then none else s.getTxIndex x :=
      congrFun (congrArg Flat.txindex (flatten_pruneTx s t)) x
    rw [hx]
    by_cases h : x = t <;> simp [h]

lemma pruneEach_subtree_count (l : List Hash) (n : ℕ) (s : Store) :
    (pruneEach pruneSubtree l (n, s)).1 =
      n + (l.toFinset.filter fun r => (s.getSubtree r).isSome = true).card := by
  refine Trace.tally_deletes (p := fun s r => (s.getSubtree r).isSome) (fun s r => ?_)
    (fun s r x => ?_) l n s
  · unfold pruneSubtree
    cases s.getSubtree r <;> rfl
  · have hx : (s.pruneSubtree r).2.getSubtree x = if x ∈ [r] then none else s.getSubtree x :=
      congrFun (congrArg Flat.subtree (flatten_pruneSubtree s r)) x
    rw [hx]
    by_cases h : x = r <;> simp [h]

lemma pruneIndexAtHeight_count (s : Store) (h : UInt32) :
    (s.pruneIndexAtHeight h).1 =
      (if (s.flatten.entry h).hasBlock then
        (if (s.getBlock (s.flatten.entry h).block).isSome then 1 else 0) else 0) +
      ((s.flatten.entry h).subtrees.toFinset.filter fun r => (s.getSubtree r).isSome = true).card +
      ((s.flatten.entry h).txids.toFinset.filter fun t => (s.getTxIndex t).isSome = true).card +
      (if (s.getHeader h).isSome then 1 else 0) := by
  have hheader : ∀ s : Store, (s.pruneHeader h).1 = if (s.getHeader h).isSome then 1 else 0 := by
    intro s
    unfold pruneHeader
    cases s.getHeader h <;> rfl
  unfold pruneIndexAtHeight
  dsimp only
  rw [hheader]
  cases he : s.hidx.get h with
  | none =>
    have hent : s.flatten.entry h = {} := by simp [Flat.entry, flatten, he]
    simp only [hent, List.toFinset_nil, Finset.filter_empty, Finset.card_empty, Bool.false_eq_true,
      if_false]
    rfl
  | some e =>
    have hent : s.flatten.entry h = e := by simp [Flat.entry, flatten, he]
    rw [hent]
    let s' : Store := { s with hidx := s.hidx.delete h }
    let r := if e.hasBlock then pruneBlock s' e.block else (0, s')
    -- the first deletion touches blocks only
    have hr : r.1 = (if e.hasBlock then (if (s.getBlock e.block).isSome then 1 else 0) else 0) ∧
        r.2.getSubtree = s.getSubtree ∧ r.2.getTxIndex = s.getTxIndex ∧
            r.2.getHeader = s.getHeader := by
      cases hb : e.hasBlock with
      | false =>
        simp only [r, hb, Bool.false_eq_true, if_false, true_and]
        exact ⟨rfl, rfl, rfl⟩
      | true =>
        have hflat := flatten_pruneBlock s' e.block
        simp only [r, hb, if_true]
        refine ⟨?_, congrArg Flat.subtree hflat, congrArg Flat.txindex hflat,
          congrArg Flat.hdr hflat⟩
        have hget : s'.getBlock e.block = s.getBlock e.block := rfl
        rw [pruneBlock, hget]
        cases s.getBlock e.block <;> rfl
    have hsub := flatten_pruneEach_subtree e.subtrees r
    have htx := flatten_pruneEach_tx e.txids (pruneEach pruneSubtree e.subtrees r)
    have hhdr : (pruneEach pruneTx e.txids (pruneEach pruneSubtree e.subtrees r)).2.getHeader =
      s.getHeader :=
      (congrArg Flat.hdr htx).trans ((congrArg Flat.hdr hsub).trans hr.2.2.2)
    have htxs : (pruneEach pruneSubtree e.subtrees r).2.getTxIndex = s.getTxIndex :=
      (congrArg Flat.txindex hsub).trans hr.2.2.1
    change (pruneEach pruneTx e.txids (pruneEach pruneSubtree e.subtrees r)).1 +
      (if (Store.getHeader _ h).isSome then 1 else 0) = _
    rw [hhdr, ← Prod.mk.eta (p := pruneEach pruneSubtree e.subtrees r), pruneEach_tx_count, htxs,
      ← Prod.mk.eta (p := r), pruneEach_subtree_count, hr.1, hr.2.1]

lemma prunesExactly_iff (s : Store) : (∀ h, s.PrunesExactly h) ↔ s.flatten.Listed := by
  constructor
  · intro hp
    refine ⟨fun t ix ht hm => ?_, fun h t ix hl ht => ?_, fun x b hb => ?_, fun h b hh hb => ?_⟩
    · by_contra hl
      refine (hp ix.height).tx t ix ?_ ⟨hm, rfl⟩
      rw [pruned_tx, if_neg hl]
      exact ht
    · by_contra hne
      have hkept := ((hp h).other_tx t ix hne).mpr ht
      rw [pruned_tx, if_pos hl] at hkept
      simp at hkept
    · by_contra hl
      refine (hp b.height).block x b ?_ rfl
      rw [pruned_block, if_neg hl]
      exact hb
    · by_contra hne
      have hkept := ((hp h).other_block _ b hne).mpr hb
      rw [pruned_block, if_pos ⟨hh, rfl⟩] at hkept
      simp at hkept
  · intro hl h
    refine ⟨fun t ix ht => ?_, fun x b hb => ?_, ?_,
      fun t ix hne => ?_, fun x b hne => ?_, fun a ha => ?_⟩
    · rw [pruned_tx] at ht
      split_ifs at ht with hmem
      rintro ⟨hm, rfl⟩
      exact hmem (hl.tx t ix ht hm)
    · rw [pruned_block] at hb
      split_ifs at hb with hmem
      rintro rfl
      exact hmem (hl.block x b hb)
    · rw [pruned_header, if_pos rfl]
    · rw [pruned_tx]
      split_ifs with hmem
      · exact ⟨nofun, fun ht => absurd (hl.tx_height h t ix hmem ht) hne⟩
      · rfl
    · rw [pruned_block]
      split_ifs with hmem
      · refine ⟨nofun, fun hb => absurd (hl.block_height h b hmem.1 ?_) hne⟩
        rw [hmem.2]
        exact hb
      · rfl
    · rw [pruned_header, if_neg ha]

end Mem.Store

/-- **Pruning the index is exact along a run exactly if every write fits the index it finds.** A
transaction may be listed at no height but that of its entry, and one that is stored already
and stored again as mined must be listed there; a block may be listed at no height but its own,
and its height may list no other block that is still stored. -/
theorem pruneIndex_exact_iff (cs : List Call) :
    (∀ pre post, cs = pre ++ post → ∀ h, (Mem.new.run pre).PrunesExactly h) ↔
      ∀ pre c post, cs = pre ++ c :: post → Flat.Fits c (Mem.new.run pre).flatten := by
  have hrun : ∀ pre, (Mem.new.run pre).flatten = Flat.empty.run pre :=
    fun pre => Mem.Store.flatten_run Mem.Store.new_indexed pre
  simp only [Mem.Store.prunesExactly_iff, hrun]
  have hiff : Trace.Guarded Flat.apply Flat.Fits cs Flat.empty ↔
      ∀ pre post, cs = pre ++ post → (Flat.empty.run pre).Listed :=
    Trace.guarded_iff (p := Flat.Listed) (fun c f hf => Flat.listed_apply_iff hf c)
      Flat.empty_listed
  exact hiff.symm

/-- A transaction seen first and mined later stays behind: the index lists it nowhere. -/
theorem pruneIndex_exact_seenFirst :
    ¬(Mem.new.run [.putTxIndex (.fill 32 7) ⟨false, default, 0, 0, 0, 0, 0⟩,
      .putTxIndex (.fill 32 7) ⟨true, default, 1, 0, 0, 0, 0⟩]).PrunesExactly 1 := by
  intro hp
  refine hp.tx (.fill 32 7) ⟨true, default, 1, 0, 0, 0, 0⟩ ?_ ⟨rfl, rfl⟩
  decide

end MemServe
