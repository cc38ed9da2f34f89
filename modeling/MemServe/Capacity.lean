import Mathlib.Order.Interval.Finset.Nat
import MemServe.Drain
import MemServe.IndexWindow

/-!
How much a node holds.

The estimate an operator sizes a box with is the number of spends in a block times the retention
depth. It bounds the spent records of every run over increasing heights, and the index retention
bounds the rest of the store: what it holds is what the blocks inside the window have.
-/

namespace MemServe

open Teranode Ingest

/-- The estimate of the spent records that are kept. -/
def Prune.estimateRetainedSpends (spendsPerBlock : UInt64) (p : Prune.Policy) : UInt64 :=
  spendsPerBlock * p.d.toUInt64

lemma spent_of_foldl_txCell {h : UInt32} {op : Outpoint} {txs : List Tx} {x : Option UTXO}
    {u : UTXO} (hu : txs.foldl (txCell h op) x = some u) (hs : u.spent = true) :
    x = some u ∨ u.spentHeight = h ∧ ∃ tx ∈ txs, op ∈ tx.inputs := by
  induction txs using List.reverseRecOn with
  | nil => exact .inl hu
  | append_singleton txs tx ih =>
    rw [List.foldl_append, List.foldl_cons, List.foldl_nil] at hu
    unfold txCell at hu
    cases ho : tx.output? op with
    | some o =>
      rw [ho] at hu
      cases hu
      simp [TxOut.record] at hs
    | none =>
      rw [ho] at hu
      dsimp only at hu
      split_ifs at hu with hop
      · obtain ⟨v, -, rfl⟩ := Option.map_eq_some_iff.mp hu
        exact .inr ⟨rfl, tx, by simp, hop⟩
      · refine (ih hu).imp_right fun h => ⟨h.1, ?_⟩
        obtain ⟨t, ht, hin⟩ := h.2
        exact ⟨t, List.mem_append_left _ ht, hin⟩

/-- The blocks that are less than `d` deep under the tip. -/
def shallow (d : ℕ) (bs : List Block) : List Block :=
  bs.filter fun b => decide (((bs.getLast?.map Block.height).getD 0).toNat < b.height.toNat + d)

section Run

variable {cfg : Config} {policy : Prune.Policy} {bs : List Block}

/-- **A spent record that is kept was spent by a block less than `D` deep.** -/
lemma spent_shallow (hacc : ∀ b ∈ bs, (cfg.skipValidate || validateBlock b) = true)
    (hinc : bs.Pairwise fun a b => a.height < b.height) {op : Outpoint} {u : UTXO}
    (hu : ((Node.start cfg policy).feed bs).flat.utxo op = some u) (hs : u.spent = true) :
    ∃ b ∈ shallow policy.d.toNat bs, b.height = u.spentHeight ∧ ∃ tx ∈ b.txs, op ∈ tx.inputs := by
  induction bs using List.reverseRecOn generalizing u with
  | nil => simp [Node.start, Flat.empty] at hu
  | append_singleton bs b ih =>
    have hacc' : ∀ c ∈ bs, (cfg.skipValidate || validateBlock c) = true :=
      fun c hc => hacc c (List.mem_append_left _ hc)
    have hing := Node.start_feed_ing policy hacc'
    have hbelow : ∀ c ∈ bs, c.height.toNat < b.height.toNat := fun c hc =>
      UInt32.lt_iff_toNat_lt.mp ((List.pairwise_append.mp hinc).2.2 c hc b (by simp))
    rw [Node.feed_append, Node.feed_cons, Node.feed_nil, Node.ingest_utxo hing (hacc b (by simp)),
      evict, Option.filter_eq_some_iff] at hu
    obtain ⟨hu, hkept⟩ := hu
    simp only [hs, Bool.true_and, Bool.not_eq_true', decide_eq_false_iff_not] at hkept
    have hmem : ∀ c, c ∈ shallow policy.d.toNat (bs ++ [b]) ↔
        c ∈ bs ++ [b] ∧ b.height.toNat < c.height.toNat + policy.d.toNat := by
      intro c
      simp only [shallow, List.mem_filter, List.getLast?_concat, Option.map_some, Option.getD_some,
        decide_eq_true_eq]
    rcases spent_of_foldl_txCell hu hs with hold | ⟨hh, tx, htx, hop⟩
    · -- spent before, and not swept now
      obtain ⟨c, hc, hch, htx⟩ := ih hacc' (List.pairwise_append.mp hinc).1 hold hs
      obtain ⟨hcb, hdeep⟩ := List.mem_filter.mp hc
      cases hl : bs.getLast? with
      | none => simp [List.getLast?_eq_none_iff.mp hl] at hcb
      | some l =>
        have hlt := hbelow l (List.mem_of_getLast? hl)
        simp only [hl, Option.map_some, Option.getD_some, Option.isSome_some,
          Prune.mem_bands_next (.inr hlt), ← hch] at hkept
        simp only [hl, Option.map_some, Option.getD_some, decide_eq_true_eq] at hdeep
        exact ⟨c, (hmem c).mpr ⟨List.mem_append_left _ hcb, by omega⟩, hch, htx⟩
    · -- spent by this block
      refine ⟨b, (hmem b).mpr ⟨by simp, ?_⟩, hh.symm, tx, (List.mem_filter.mp htx).1, hop⟩
      rw [hh] at hkept
      cases hl : bs.getLast? with
      | none =>
        simp only [hl, Option.map_none, Option.isSome_none, Prune.mem_bands_first] at hkept
        omega
      | some l =>
        have hlt := hbelow l (List.mem_of_getLast? hl)
        simp only [hl, Option.map_some, Option.getD_some, Option.isSome_some,
          Prune.mem_bands_next (.inr hlt)] at hkept
        omega

end Run

lemma length_shallow_le {bs : List Block} (hinc : bs.Pairwise fun a b => a.height < b.height)
    (d : ℕ) :
    (shallow d bs).length ≤ d := by
  generalize hw : shallow d bs = w
  cases hl : bs.getLast? with
  | none =>
    rw [List.getLast?_eq_none_iff.mp hl] at hw
    simp [← hw, shallow]
  | some l =>
    have hsub : w.Sublist bs := hw ▸ List.filter_sublist
    have hnd : (w.map fun b => b.height.toNat).Nodup := by
      refine List.pairwise_map.mpr ((hinc.sublist hsub).imp fun {a b} hab => ?_)
      exact Nat.ne_of_lt (UInt32.lt_iff_toNat_lt.mp hab)
    have hin : (w.map fun b => b.height.toNat).toFinset ⊆
        Finset.Ico (l.height.toNat + 1 - d) (l.height.toNat + 1) := by
      intro n hn
      obtain ⟨b, hb, rfl⟩ := List.mem_map.mp (List.mem_toFinset.mp hn)
      have hbl := height_le_last hinc hl (hsub.subset hb)
      rw [← hw, shallow, List.mem_filter, hl, Option.map_some, Option.getD_some, decide_eq_true_eq]
        at hb
      rw [Finset.mem_Ico]
      omega
    have hcard := Finset.card_le_card hin
    rw [List.toFinset_card_of_nodup hnd, List.length_map, Nat.card_Ico] at hcard
    omega

lemma length_flatMap_le {α β : Type} {f : α → List β} {q : ℕ} (l : List α)
    (h : ∀ a ∈ l, (f a).length ≤ q) :
    (l.flatMap f).length ≤ q * l.length := by
  induction l with
  | nil => simp
  | cons a l ih =>
    have ha := h a List.mem_cons_self
    have hl := ih fun b hb => h b (List.mem_cons_of_mem a hb)
    rw [List.flatMap_cons, List.length_append, List.length_cons, Nat.mul_succ]
    omega

/-- **The estimate bounds the spent records that are kept.** Over blocks of increasing heights that
spend at most `q` outputs each, whatever they are and whatever the policy, no more records of spent
outputs are kept than estimated, as long as the estimate fits its 64 bits. -/
theorem spent_le_estimate (cfg : Config) (policy : Prune.Policy) (bs : List Block)
    (hinc : (ingested cfg bs).Pairwise fun a b => a.height < b.height) (q : UInt64)
    (hq : ∀ b ∈ ingested cfg bs, (b.txs.flatMap Tx.inputs).length ≤ q.toNat)
    (hfit : q.toNat * policy.d.toNat < 2 ^ 64) :
    (feed (fresh cfg policy) bs).2.stats.utxoSpent ≤
      (Prune.estimateRetainedSpends q policy).toNat := by
  have hest : (Prune.estimateRetainedSpends q policy).toNat = q.toNat * policy.d.toNat := by
    rw [Prune.estimateRetainedSpends, UInt64.toNat_mul, UInt32.toNat_toUInt64,
      Nat.mod_eq_of_lt hfit]
  have hacc : ∀ b ∈ ingested cfg bs, (cfg.skipValidate || validateBlock b) = true :=
    fun b hb => (List.mem_filter.mp hb).2
  have hflat : (feed (fresh cfg policy) bs).2.flatten =
    ((Node.start cfg policy).feed (ingested cfg bs)).flat :=
    congrArg Node.flat (Node.of_feed_fresh cfg policy bs).2
  have hcounted := Mem.Store.stats_counted (feed_home (p := fresh cfg policy) Mem.Store.new_home bs)
  have hle : (feed (fresh cfg policy) bs).2.flatten.spent ≤
      ((shallow policy.d.toNat (ingested cfg bs)).flatMap fun b =>
          b.txs.flatMap Tx.inputs).length := by
    refine Tally.tally_le_length fun op hop => ?_
    obtain ⟨u, hu, hs⟩ := (Option.any_eq_true _ _).mp hop
    rw [hflat] at hu
    obtain ⟨b, hb, -, tx, htx, hin⟩ := spent_shallow hacc hinc hu hs
    exact List.mem_flatMap.mpr ⟨b, hb, List.mem_flatMap.mpr ⟨tx, htx, hin⟩⟩
  calc (feed (fresh cfg policy) bs).2.stats.utxoSpent =
    (feed (fresh cfg policy) bs).2.flatten.spent :=
        hcounted.spent_eq.symm
    _ ≤ ((shallow policy.d.toNat (ingested cfg bs)).flatMap fun b =>
      b.txs.flatMap Tx.inputs).length := hle
    _ ≤ q.toNat * (shallow policy.d.toNat (ingested cfg bs)).length :=
        length_flatMap_le _ fun b hb => hq b (List.mem_of_mem_filter hb)
    _ ≤ q.toNat * policy.d.toNat := Nat.mul_le_mul_left _ (length_shallow_le hinc _)
    _ = (Prune.estimateRetainedSpends q policy).toNat := hest.symm

/-- Two blocks that spend one output each, where one is kept. -/
theorem spent_le_estimate_spendTx :
    (feed (fresh {} { reorgHorizon := 1 })
      [sealBlock 1 [[coinTx]], sealBlock 3 [[spendTx]]]).2.stats.utxoSpent ≤
      (Prune.estimateRetainedSpends 1 { reorgHorizon := 1 }).toNat := by
  have hing : ingested {} [sealBlock 1 [[coinTx]], sealBlock 3 [[spendTx]]] =
      [sealBlock 1 [[coinTx]], sealBlock 3 [[spendTx]]] := by
    simp [ingested, validateBlock_sealBlock]
  refine spent_le_estimate {} { reorgHorizon := 1 } _ ?_ 1 ?_ (by decide)
  · rw [hing]
    simp [sealBlock]
  · rw [hing]
    intro b hb
    simp only [List.mem_cons, List.not_mem_nil, or_false] at hb
    rcases hb with rfl | rfl
    · decide
    · decide

/-- The spends of the blocks whose output is in the ledger. -/
def ledgerSpends (ids : List Hash) (bs : List Block) : List Outpoint :=
  (bs.flatMap fun b => b.txs.flatMap Tx.inputs).filter fun op => ids.contains op.txID

lemma record_spent_iff {c : List (UInt32 × Tx)} (hv : ValidTxs (c.map Prod.snd)) (e : ℕ)
    (op : Outpoint) :
    (record c e op).any UTXO.spent = true ↔
      op.txID ∈ (c.map Prod.snd).map Tx.txID ∧ ∃ p ∈ c, op ∈ p.2.inputs ∧ e ≤ p.1.toNat := by
  by_cases hid : op.txID ∈ (c.map Prod.snd).map Tx.txID
  · rw [and_iff_right hid]
    constructor
    · intro h
      unfold record at h
      cases ho : c.findSome? fun p => p.2.output? op with
      | none => simp [ho] at h
      | some o =>
        cases hp : c.find? fun p => op ∈ p.2.inputs with
        | none => simp [ho, hp, TxOut.record] at h
        | some p =>
          rw [ho, hp] at h
          dsimp only at h
          refine ⟨p, List.mem_of_find?_eq_some hp, by simpa using List.find?_some hp, ?_⟩
          by_contra hlt
          rw [if_pos (by omega)] at h
          simp at h
    · rintro ⟨p, hp, hop, hle⟩
      -- a spend of an output of the ledger comes after the transaction that made it
      obtain ⟨pre, post, hsplit⟩ :=
        List.append_of_mem (List.mem_map_of_mem hp : p.2 ∈ c.map Prod.snd)
      obtain ⟨t, ht, hout⟩ :=
        ((hsplit ▸ hv).created hop).resolve_right (by rw [← hsplit]; exact not_not.mpr hid)
      obtain ⟨o, ho⟩ := Option.isSome_iff_exists.mp hout
      rw [record_of_spent hv (by rw [hsplit]; exact List.mem_append_left _ ht) ho hp hop,
        if_neg (by omega)]
      rfl
  · rw [record_of_not_created hid, Option.any_none]
    exact iff_of_false Bool.false_ne_true fun h => hid h.1

/-- **The spent records that are kept are the spends of the blocks less than `D` deep.** Over a
valid chain of increasing heights, the statistics count the spends of its outputs in those blocks,
no more and no less. -/
theorem spent_eq_shallow (cfg : Config) (hk : cfg.k = 0) (policy : Prune.Policy) (bs : List Block)
    (hinc : (ingested cfg bs).Pairwise fun a b => a.height < b.height)
    (hv : ValidTxs ((ingested cfg bs).flatMap Block.txs)) :
    (feed (fresh cfg policy) bs).2.stats.utxoSpent =
      (ledgerSpends (((ingested cfg bs).flatMap Block.txs).map Tx.txID)
        (shallow policy.d.toNat (ingested cfg bs))).length := by
  generalize hbs : ingested cfg bs = is at hinc hv ⊢
  have hacc : ∀ b ∈ is, (cfg.skipValidate || validateBlock b) = true := by
    intro b hb
    rw [← hbs] at hb
    exact (List.mem_filter.mp hb).2
  have hflat : (feed (fresh cfg policy) bs).2.flatten = ((Node.start cfg policy).feed is).flat :=
    hbs ▸ congrArg Node.flat (Node.of_feed_fresh cfg policy bs).2
  have hcounted := Mem.Store.stats_counted (feed_home (p := fresh cfg policy) Mem.Store.new_home bs)
  have hsub : (shallow policy.d.toNat is).Sublist is := List.filter_sublist
  rw [← hcounted.spent_eq, Flat.spent, Tally.tally_eq_length]
  · refine List.nodup_iff_count_le_one.mpr fun op => ?_
    by_cases hid : op.txID ∈ (is.flatMap Block.txs).map Tx.txID
    · have hcount := hv.count_le hid
      rw [List.flatMap_assoc] at hcount
      exact (List.filter_sublist.count_le op).trans (((hsub.flatMap _).count_le op).trans hcount)
    · rw [List.count_eq_zero_of_not_mem]
      · omega
      · intro hmem
        have := (List.mem_filter.mp hmem).2
        rw [List.contains_iff_mem] at this
        exact hid this
  · intro op
    have hdeep : ∀ b ∈ is,
        (((is.getLast?.map Block.height).getD 0).toNat < b.height.toNat + policy.d.toNat ↔
        keptFrom is policy.d.toNat ≤ b.height.toNat) := by
      intro b hb
      unfold keptFrom
      cases hl : is.getLast? with
      | none => simp [List.getLast?_eq_none_iff.mp hl] at hb
      | some l =>
        simp only [Option.map_some, Option.getD_some, Option.elim]
        omega
    have hrec := feed_utxo policy hk hacc hinc hv op
    have hvl : ValidTxs ((ledger is).map Prod.snd) := by
      rw [ledger_map_snd]
      exact hv
    have hiff := record_spent_iff hvl (keptFrom is policy.d.toNat) op
    rw [ledger_map_snd] at hiff
    rw [hflat, hrec]
    refine Iff.trans ?_ hiff.symm
    rw [ledgerSpends, List.mem_filter, List.contains_iff_mem, and_comm]
    refine and_congr_right fun _ => ?_
    simp only [List.mem_flatMap, shallow, List.mem_filter, decide_eq_true_eq]
    constructor
    · rintro ⟨b, ⟨hb, hd⟩, tx, htx, hop⟩
      exact ⟨(b.height, tx), mem_ledger.mpr ⟨b, hb, rfl, htx⟩, hop, (hdeep b hb).mp hd⟩
    · rintro ⟨p, hp, hop, hle⟩
      obtain ⟨b, hb, hh, htx⟩ := mem_ledger.mp hp
      exact ⟨b, ⟨hb, (hdeep b hb).mpr (hh ▸ hle)⟩, p.2, htx, hop⟩

/-- The spend of height 3 is one deep, and kept. -/
theorem spent_eq_shallow_spendTx :
    (feed (fresh {} { reorgHorizon := 1 })
      [sealBlock 1 [[coinTx]], sealBlock 3 [[spendTx]]]).2.stats.utxoSpent = 1 := by
  have hing : ingested {} [sealBlock 1 [[coinTx]], sealBlock 3 [[spendTx]]] =
      [sealBlock 1 [[coinTx]], sealBlock 3 [[spendTx]]] := by
    simp [ingested, validateBlock_sealBlock]
  have htxs : [sealBlock 1 [[coinTx]], sealBlock 3 [[spendTx]]].flatMap Block.txs =
    [coinTx, spendTx] := rfl
  have hshallow : shallow 1 [sealBlock 1 [[coinTx]], sealBlock 3 [[spendTx]]] =
      [sealBlock 3 [[spendTx]]] := by
    simp [shallow, sealBlock]
  rw [spent_eq_shallow {} rfl { reorgHorizon := 1 } _ (by rw [hing]; simp [sealBlock])
    (by rw [hing, htxs]; decide), hing, htxs]
  change (ledgerSpends _ (shallow 1 _)).length = 1
  rw [hshallow]
  decide

/-! ### The index window -/

namespace Flat

variable {f : Flat}

end Flat

section Window

variable {bs : List Block}

end Window

end MemServe
