import MemServe.HeightIndex
import MemServe.IndexWindow
import MemServe.Ledger

/-!
Answers about evicted outputs.

The record of a spent output is evicted by the depth of its spend, the index entry of the
transaction that created it by the depth of that transaction. The creating transaction is never
the younger of the two, so with a limited index its entry may go first, or with the record, and
nothing is left to tell an evicted output from one that never was.
-/

namespace MemServe

open Teranode Ingest

/-- The index holds the transactions of `rs`, each listed at the height of its block, and no other.
Nothing is said about blocks and subtrees, so blocks may share them. -/
structure TxIndexes (ing : Ingestor) (rs : List Block) (f : Flat) : Prop where
  txindex : ∀ t, f.txindex t = rs.findSome? fun b => blockEntry ing b t
  listed : ∀ h t, t ∈ (f.entry h).txids ↔ ∃ b ∈ rs, b.height = h ∧ t ∈ (owned ing b).map Tx.txID

/-- Two blocks of different heights without a transaction in common. -/
def TxApart (b c : Block) : Prop :=
  b.height ≠ c.height ∧ (b.txs.map Tx.txID).Disjoint (c.txs.map Tx.txID)

instance : Std.Symm TxApart := ⟨fun _ _ h => ⟨h.1.symm, h.2.symm⟩⟩

lemma mem_txs_of_owned {ing : Ingestor} {b : Block} {t : Hash} (h : t ∈ (owned ing b).map Tx.txID) :
    t ∈ b.txs.map Tx.txID :=
  (List.filter_sublist.map _).subset h

namespace TxIndexes

variable {ing : Ingestor} {rs : List Block} {f : Flat} {b : Block}

lemma add (hf : TxIndexes ing rs f) (hap : ∀ c ∈ rs, TxApart c b)
    (hnd : (b.txs.map Tx.txID).Nodup) :
    TxIndexes ing (rs ++ [b]) (f.run (indexCalls ing b)) := by
  have hids : (placed ing b).map (fun p => p.1.txID) = (owned ing b).map Tx.txID := by
    rw [← placed_map_fst, List.map_map]
    rfl
  have hnew : ∀ t ∈ b.txs.map Tx.txID, f.txindex t = none := by
    intro t ht
    rw [hf.txindex, List.findSome?_eq_none_iff]
    intro c hc
    by_contra hsome
    exact (hap c hc).2 (mem_txs_of_blockEntry (Option.isSome_iff_ne_none.mpr hsome)) ht
  -- the entry of the new height, before and after the transactions of the block
  let e : Mem.HeightEntry :=
    { f.entry b.height with block := b.hash, hasBlock := true, subtrees := b.subtreeRoots }
  have hhidx : (f.run (indexCalls ing b)).hidx = Function.update f.hidx b.height
      (some { e with txids := e.txids ++ (owned ing b).map Tx.txID }) := by
    rw [indexCalls, Flat.run_append, Flat.run_cons, Flat.run_cons, txsCalls_eq,
      Flat.run_placed_hidx b (placed ing b) (e := e) ?_ ?_ ?_, hids, Flat.run_subtreeCalls]
    · exact Function.update_idem _ _ _
    · rw [Flat.run_subtreeCalls]
      exact Function.update_self _ _ _
    · rw [hids]
      exact hnd.sublist (List.filter_sublist.map _)
    · intro p hp
      rw [Flat.run_subtreeCalls]
      have hown : p.1.txID ∈ (owned ing b).map Tx.txID := hids ▸ List.mem_map.mpr ⟨p, hp, rfl⟩
      exact hnew _ (mem_txs_of_owned hown)
  refine ⟨fun t => ?_, fun h t => ?_⟩
  · rw [(Flat.run_indexCalls f ing b).2.2, List.findSome?_append, List.findSome?_singleton]
    cases hb : blockEntry ing b t with
    | none => rw [Option.none_or, hf.txindex, Option.or_none]
    | some ix =>
      have hold := hnew t (mem_txs_of_blockEntry (by rw [hb]; rfl))
      rw [hf.txindex] at hold
      rw [hold]
      rfl
  · rw [Flat.entry, hhidx, Function.update_apply]
    simp only [List.mem_append, List.mem_singleton, or_and_right, exists_or, exists_eq_left,
      ← hf.listed]
    by_cases hh : h = b.height
    · rw [if_pos hh, Option.getD_some, hh, List.mem_append]
      simp [e]
    · rw [if_neg hh]
      have hne : b.height ≠ h := fun e => hh e.symm
      simp [hne, Flat.entry]

lemma prune (hf : TxIndexes ing rs f) (hap : rs.Pairwise TxApart) (h : UInt32) :
    TxIndexes ing (rs.filter fun b => b.height ≠ h) (f.apply (.pruneIndexAtHeight h)) := by
  refine ⟨fun t => ?_, fun a t => ?_⟩
  · rw [Flat.apply_pruneIndex]
    dsimp only
    rw [hf.txindex]
    refine findSome?_filter
      (fun b hb hd hs => (hf.listed h t).mpr ⟨b, hb, by simpa using hd, blockEntry_isSome.mp hs⟩)
      fun hin b hb hk => ?_
    obtain ⟨c, hc, hch, htc⟩ := (hf.listed h t).mp hin
    by_contra hsome
    have hne : b ≠ c := by
      rintro rfl
      simp [hch] at hk
    exact (hap.forall hb hc hne).2 (mem_txs_of_blockEntry (Option.isSome_iff_ne_none.mpr hsome))
      (mem_txs_of_owned htc)
  · rw [Flat.entry_pruneIndex]
    split_ifs with ha
    · refine iff_of_false (List.not_mem_nil) ?_
      rintro ⟨b, hb, hba, -⟩
      exact of_decide_eq_true (List.mem_filter.mp hb).2 (hba.trans ha)
    · rw [hf.listed]
      refine exists_congr fun b => ?_
      rw [List.mem_filter]
      constructor
      · rintro ⟨hb, rfl, ht⟩
        exact ⟨⟨hb, by simpa using ha⟩, rfl, ht⟩
      · rintro ⟨⟨hb, -⟩, hrest⟩
        exact ⟨hb, hrest⟩

lemma pruneSpent (hf : TxIndexes ing rs f) (hs : List UInt32) :
    TxIndexes ing rs (f.run (hs.map .pruneSpentAtHeight)) := by
  rw [Flat.run_utxoOnly]
  · exact ⟨hf.txindex, hf.listed⟩
  · intro c hc
    obtain ⟨h, -, rfl⟩ := List.mem_map.mp hc
    rfl

end TxIndexes

section Run

variable {cfg : Config} {policy : Prune.Policy} {bs : List Block}

lemma pairwise_txApart (hinc : bs.Pairwise fun a b => a.height < b.height)
    (hids : ((bs.flatMap Block.txs).map Tx.txID).Nodup) : bs.Pairwise TxApart := by
  rw [List.map_flatMap, List.nodup_flatMap] at hids
  exact (hinc.and hids.2).imp fun h => ⟨UInt32.ne_of_lt h.1, h.2⟩

/-- **The index after a run holds the transactions inside the window.** -/
lemma feed_txIndexes (policy : Prune.Policy)
    (hacc : ∀ b ∈ bs, (cfg.skipValidate || validateBlock b) = true)
    (hinc : bs.Pairwise fun a b => a.height < b.height)
    (hids : ((bs.flatMap Block.txs).map Tx.txID).Nodup) :
    TxIndexes (.at cfg policy none) (retained policy.indexRetention bs)
      ((Node.start cfg policy).feed bs).flat := by
  have hap := pairwise_txApart hinc hids
  refine feed_retained hacc hinc ⟨fun _ => rfl, fun h t => ?_⟩ (fun pre b hpre rs f hsub hf => ?_)
    (fun rs f hs hf => hf.pruneSpent hs) fun rs f h hsub hf => hf.prune (hap.sublist hsub) h
  · simp [Flat.empty, Flat.entry]
  · refine hf.add (fun c hc => ?_) ?_
    · exact (List.pairwise_append.mp (hap.sublist hpre.sublist)).2.2 c (hsub.subset hc) b (by simp)
    · rw [List.map_flatMap, List.nodup_flatMap] at hids
      exact hids.1 b (hpre.subset (by simp))

lemma utxo_of_evicted (hk : cfg.k = 0) (policy : Prune.Policy) {b : Block}
    (hlast : (ingested cfg bs).getLast? = some b)
    (hinc : (ingested cfg bs).Pairwise fun a b => a.height < b.height)
    (hids : (((ingested cfg bs).flatMap Block.txs).map Tx.txID).Nodup) {c : Block}
    (hc : c ∈ ingested cfg bs) {tx : Tx} (htx : tx ∈ c.txs) {op : Outpoint}
    (ho : (tx.output? op).isSome) (hnone : (feed (fresh cfg policy) bs).2.getUTXO op = none) :
    ((Api.utxo op).run.run (feed (fresh cfg policy) bs).2).1 =
      .ok {
        status :=
          if inWindow policy.indexRetention b.height c.height then .notInWindow
          else .unknown } := by
  obtain ⟨o, ho⟩ := Option.isSome_iff_exists.mp ho
  have hflat : (feed (fresh cfg policy) bs).2.flatten =
    ((Node.start cfg policy).feed (ingested cfg bs)).flat :=
    congrArg Node.flat (Node.of_feed_fresh cfg policy bs).2
  have hacc : ∀ d ∈ ingested cfg bs, (cfg.skipValidate || validateBlock d) = true :=
    fun d hd => (List.mem_filter.mp hd).2
  have hidx := feed_txIndexes policy hacc hinc hids
  rw [← hflat] at hidx
  have hown : op.txID ∈ (owned (.at cfg policy none) c).map Tx.txID := by
    rw [txID_of_output? ho, owned_of_unsharded hk]
    exact List.mem_map_of_mem htx
  have hmem : c ∈ retained policy.indexRetention (ingested cfg bs) ↔
      inWindow policy.indexRetention b.height c.height = true := by
    rw [retained, List.mem_filter, hlast]
    exact and_iff_right hc
  have hother : ∀ d ∈ ingested cfg bs, (blockEntry (.at cfg policy none) d op.txID).isSome →
      d = c := by
    intro d hd hsome
    by_contra hne
    exact ((pairwise_txApart hinc hids).forall hd hc hne).2 (mem_txs_of_blockEntry hsome)
      (mem_txs_of_owned hown)
  have hutxo : (feed (fresh cfg policy) bs).2.flatten.utxo op = none := hnone
  rw [utxo_mem, Flat.utxoStatus, hutxo, Flat.answer, hidx.txindex]
  split_ifs with hin
  · obtain ⟨ix, hix⟩ := Option.isSome_iff_exists.mp (blockEntry_isSome.mpr hown)
    rw [findSome?_eq_of_unique (hmem.mpr hin) hix fun d hd => hother d (List.mem_of_mem_filter hd)]
    obtain ⟨si, li, -, -, -, -, -, -, rfl⟩ := blockEntry_eq_some hix
    rfl
  · have hno : (retained policy.indexRetention (ingested cfg bs)).findSome?
        (fun d => blockEntry (.at cfg policy none) d op.txID) = none := by
      rw [List.findSome?_eq_none_iff]
      intro d hd
      by_contra hsome
      have hdc := hother d (List.mem_of_mem_filter hd) (Option.isSome_iff_ne_none.mpr hsome)
      exact hin (hmem.mp (hdc ▸ hd))
    rw [hno]
    rfl

end Run

/-- **An evicted output is told from one that never was exactly while the index still has its
transaction.** After blocks of increasing heights with distinct transaction ids, the answer about an
output without a record is that it left the window if and only if the index is not limited or the
block that created it is at most `R` deep; otherwise it is called unknown. -/
theorem utxo_evicted_iff (cfg : Config) (hk : cfg.k = 0) (policy : Prune.Policy) (bs : List Block)
    (b : Block) (hlast : (ingested cfg bs).getLast? = some b)
    (hinc : (ingested cfg bs).Pairwise fun a b => a.height < b.height)
    (hids : (((ingested cfg bs).flatMap Block.txs).map Tx.txID).Nodup) (c : Block)
    (hc : c ∈ ingested cfg bs) (tx : Tx) (htx : tx ∈ c.txs) (op : Outpoint)
    (ho : (tx.output? op).isSome) (hnone : (feed (fresh cfg policy) bs).2.getUTXO op = none) :
    let ans := ((Api.utxo op).run.run (feed (fresh cfg policy) bs).2).1
    let r := policy.indexRetention
    (ans = .ok { status := .notInWindow } ↔ r = 0 ∨ b.height.toNat - c.height.toNat + 1 ≤ r.toNat) ∧
      (¬(r = 0 ∨ b.height.toNat - c.height.toNat + 1 ≤ r.toNat) →
          ans = .ok { status := .unknown }) := by
  intro ans r
  have hans :
    ans = .ok { status := if inWindow r b.height c.height then .notInWindow else .unknown } :=
    utxo_of_evicted hk policy hlast hinc hids hc htx ho hnone
  have hwin : inWindow r b.height c.height = true ↔ r = 0 ∨
      b.height.toNat - c.height.toNat + 1 ≤ r.toNat := by
    simp [inWindow]
  rw [← hwin, hans]
  cases inWindow r b.height c.height with
  | true => simp
  | false => simp

/-- An output created at height 1 and spent at height 2, at tip 3 and depth 1. -/
def evictedRun : List Block :=
  [sealBlock 1 [[coinTx]], sealBlock 2 [[spendTx]], sealBlock 3 [[numTx 3]]]

lemma ingested_evictedRun : ingested {} evictedRun = evictedRun := by
  simp [ingested, evictedRun, validateBlock_sealBlock]

lemma evictedRun_none (r : UInt32) :
    (feed (fresh {} { reorgHorizon := 1, indexRetention := r }) evictedRun).2.getUTXO
      ⟨.fill 32 1, 0⟩ = none := by
  have hv : ValidTxs (evictedRun.flatMap Block.txs) := by
    change ValidTxs [coinTx, spendTx, numTx 3]
    decide
  have hacc : ∀ b ∈ evictedRun, (({} : Config).skipValidate || validateBlock b) = true := by
    intro b hb
    rw [← ingested_evictedRun] at hb
    exact (List.mem_filter.mp hb).2
  have hrec := feed_utxo { reorgHorizon := 1, indexRetention := r } rfl hacc
    (by simp [evictedRun, sealBlock]) hv ⟨.fill 32 1, 0⟩
  have hflat := congrArg Node.flat
    (Node.of_feed_fresh {} { reorgHorizon := 1, indexRetention := r } evictedRun).2
  rw [ingested_evictedRun] at hflat
  have hgone : record (ledger evictedRun) (keptFrom evictedRun (1 : UInt32).toNat) ⟨.fill 32 1, 0⟩ =
    none := by decide
  exact (congrFun (congrArg Flat.utxo hflat) _).trans (hrec.trans hgone)

/-- At retention 3 the creating block is inside the window. -/
theorem utxo_evicted_inWindow :
    ((Api.utxo ⟨.fill 32 1, 0⟩).run.run
      (feed (fresh {} { reorgHorizon := 1, indexRetention := 3 }) evictedRun).2).1 =
      .ok { status := .notInWindow } := by
  have hids : ((evictedRun.flatMap Block.txs).map Tx.txID).Nodup := by
    change ([coinTx, spendTx, numTx 3].map Tx.txID).Nodup
    decide
  refine (utxo_evicted_iff {} rfl { reorgHorizon := 1, indexRetention := 3 } evictedRun
    (sealBlock 3 [[numTx 3]])
    (by rw [ingested_evictedRun]; rfl) (by rw [ingested_evictedRun]; simp [evictedRun, sealBlock])
    (by rw [ingested_evictedRun]; exact hids) (sealBlock 1 [[coinTx]])
      (by rw [ingested_evictedRun]; simp [evictedRun]) coinTx
    (List.mem_singleton_self coinTx) ⟨.fill 32 1, 0⟩ (by decide) (evictedRun_none 3)).1.mpr ?_
  simp [sealBlock]

/-- At retention 2, above the prune depth 1, the entry is gone together with the record: the output
is called unknown. -/
theorem utxo_evicted_unknown :
    (feed (fresh {} { reorgHorizon := 1, indexRetention := 2 }) evictedRun).2.getUTXO
      ⟨.fill 32 1, 0⟩ = none ∧
    ((Api.utxo ⟨.fill 32 1, 0⟩).run.run
      (feed (fresh {} { reorgHorizon := 1, indexRetention := 2 }) evictedRun).2).1 =
      .ok { status := .unknown } := by
  have hids : ((evictedRun.flatMap Block.txs).map Tx.txID).Nodup := by
    change ([coinTx, spendTx, numTx 3].map Tx.txID).Nodup
    decide
  refine ⟨evictedRun_none 2, ?_⟩
  rw [utxo_of_evicted rfl { reorgHorizon := 1, indexRetention := 2 } (b := sealBlock 3 [[numTx 3]])
    (c := sealBlock 1 [[coinTx]]) (by rw [ingested_evictedRun]; rfl)
    (by rw [ingested_evictedRun]; simp [evictedRun, sealBlock])
      (by rw [ingested_evictedRun]; exact hids)
    (by rw [ingested_evictedRun]; simp [evictedRun]) (List.mem_singleton_self coinTx) (by decide)
      (evictedRun_none 2)]
  simp [sealBlock, inWindow]

end MemServe
