import MemServe.Ledger

/-!
Reorgs within the horizon.

A node that rolls a branch back and ingests another one answers as if it had never seen the
first. What a branch does to a record commutes with the sweeps in between, because a sweep
takes only bands below the branch; the rollback undoes what the branch did; and the bands swept
on the way are those a node that ingested only the second branch sweeps.
-/

namespace MemServe

open Teranode Ingest

/-- Transactions with their heights, applied to one record. -/
def applyAll (c : List (UInt32 × Tx)) (op : Outpoint) (x : Option UTXO) : Option UTXO :=
  c.foldl (fun x p => txCell p.1 op x p.2) x

lemma applyAll_append (c d : List (UInt32 × Tx)) (op : Outpoint) (x : Option UTXO) :
    applyAll (c ++ d) op x = applyAll d op (applyAll c op x) := List.foldl_append

lemma applyAll_block (h : UInt32) (txs : List Tx) (op : Outpoint) (x : Option UTXO) :
    applyAll (txs.map fun tx => (h, tx)) op x = txs.foldl (txCell h op) x := List.foldl_map

/-- `y` is `z`, or `z` was spent and `y` is what its eviction leaves. -/
def Evicted (y z : Option UTXO) : Prop := y = z ∨ y = none ∧ ∃ u, z = some u ∧ u.spent = true

def Unspent (z : Option UTXO) : Prop := ∀ u, z = some u → u.spent = false

lemma evict_false (y : Option UTXO) : evict (fun _ => false) y = y := by
  cases y <;> simp [evict, Option.filter]

lemma Evicted.eq_of_unspent {y z : Option UTXO} (h : Evicted y z) (hz : Unspent z) : y = z := by
  rcases h with h | ⟨-, u, hu, hs⟩
  · exact h
  · rw [hz u hu] at hs
    exact absurd hs (by simp)

lemma Evicted.evict {y z : Option UTXO} (h : Evicted y z) (q : UInt32 → Bool) :
    Evicted (evict q y) z := by
  rcases h with rfl | ⟨rfl, hu⟩
  · cases y with
    | none => exact .inl rfl
    | some u =>
      cases hq : u.spent && q u.spentHeight with
      | false => exact .inl (by simp [MemServe.evict, Option.filter, hq])
      | true =>
        refine .inr ⟨by simp [MemServe.evict, Option.filter, hq], u, rfl, ?_⟩
        simpa using (Bool.and_eq_true_iff.mp hq).1
  · exact .inr ⟨rfl, hu⟩

lemma Evicted.txCell {y z : Option UTXO} (h : Evicted y z) {hgt : UInt32} {op : Outpoint} {tx : Tx}
    (hz : op ∈ tx.inputs → Unspent z) : Evicted (txCell hgt op y tx) (txCell hgt op z tx) := by
  unfold MemServe.txCell
  cases tx.output? op with
  | some o => exact .inl rfl
  | none =>
    dsimp only
    split_ifs with hop
    · rw [h.eq_of_unspent (hz hop)]
      exact .inl rfl
    · exact h

lemma txCell_evict {q : UInt32 → Bool} {h : UInt32} {op : Outpoint} {tx : Tx} {y : Option UTXO}
    (hq : q h = false) (hy : op ∈ tx.inputs → Unspent y) :
    txCell h op (evict q y) tx = evict q (txCell h op y tx) := by
  unfold txCell
  cases tx.output? op with
  | some o => rfl
  | none =>
    dsimp only
    split_ifs with hop
    · cases y with
      | none => rfl
      | some u =>
        have hu := hy hop u rfl
        simp [evict, Option.filter, hu, UTXO.spend, hq]
    · rfl

lemma unspent_of_input {c : List (UInt32 × Tx)} {pre post : List Tx} {tx : Tx} {op : Outpoint}
    (hv : ValidTxs (pre ++ tx :: post)) (hc : ∀ p ∈ c, p.2 ∈ pre) (hop : op ∈ tx.inputs) :
    Unspent (record c 0 op) := by
  intro u hu
  unfold record at hu
  cases ho : c.findSome? fun p => p.2.output? op with
  | none => rw [ho] at hu; exact absurd hu (by simp)
  | some o =>
    obtain ⟨p, hp, hpo⟩ := List.exists_of_findSome?_eq_some ho
    have hspent : (c.find? fun p => op ∈ p.2.inputs) = none := by
      refine List.find?_eq_none.mpr fun q hq => ?_
      simpa using hv.unspent_of_spend hop (hc p hp) (by rw [hpo]; rfl) (hc q hq)
    rw [ho, hspent] at hu
    obtain rfl := Option.some.inj hu
    rfl

section Block

variable {c : List (UInt32 × Tx)} {h : UInt32} {txs : List Tx} {op : Outpoint} {y : Option UTXO}

lemma Evicted.block (hy : Evicted y (record c 0 op)) (hv : ValidTxs (c.map Prod.snd ++ txs)) :
    Evicted (txs.foldl (MemServe.txCell h op) y)
      (record (c ++ txs.map fun tx => (h, tx)) 0 op) := by
  rw [record_block op hv (Nat.zero_le _)]
  induction txs using List.reverseRecOn with
  | nil => exact hy
  | append_singleton txs tx ih =>
    rw [← List.append_assoc] at hv
    have hmap : (c ++ txs.map fun tx => (h, tx)).map Prod.snd = c.map Prod.snd ++ txs := by
      simp [Function.comp_def]
    rw [List.foldl_append, List.foldl_append]
    refine (ih hv.left).txCell fun hop => ?_
    rw [← record_block op hv.left (Nat.zero_le _)]
    exact unspent_of_input hv (fun p hp => hmap ▸ List.mem_map_of_mem hp) hop

lemma block_evict (hy : Evicted y (record c 0 op)) (hv : ValidTxs (c.map Prod.snd ++ txs))
    {q : UInt32 → Bool} (hq : q h = false) :
    txs.foldl (txCell h op) (evict q y) = evict q (txs.foldl (txCell h op) y) := by
  induction txs using List.reverseRecOn with
  | nil => rfl
  | append_singleton txs tx ih =>
    rw [← List.append_assoc] at hv
    have hmap : (c ++ txs.map fun tx => (h, tx)).map Prod.snd = c.map Prod.snd ++ txs := by
      simp [Function.comp_def]
    rw [List.foldl_append, List.foldl_append, ih hv.left]
    refine txCell_evict hq fun hop => ?_
    have hz : Unspent (record (c ++ txs.map fun tx => (h, tx)) 0 op) :=
      unspent_of_input hv (fun p hp => hmap ▸ List.mem_map_of_mem hp) hop
    rw [(hy.block (h := h) hv.left).eq_of_unspent hz]
    exact hz

end Block

/-- The bands swept while the blocks are ingested, from the tip `last`. -/
def swept (d last : UInt32) (bs : List Block) (h : UInt32) : Bool :=
  match bs with
  | [] => false
  | b :: bs => decide (h ∈ Prune.bands last true b.height d) || swept d b.height bs h

section Feed

variable {cfg : Config} {policy : Prune.Policy} {bs : List Block} {op : Outpoint}

lemma feed_evicted (policy : Prune.Policy) (hk : cfg.k = 0)
    (hacc : ∀ b ∈ bs, (cfg.skipValidate || validateBlock b) = true)
    (hv : ValidTxs (bs.flatMap Block.txs)) :
    Evicted (((Node.start cfg policy).feed bs).flat.utxo op) (record (ledger bs) 0 op) := by
  induction bs using List.reverseRecOn with
  | nil => exact .inl rfl
  | append_singleton bs b ih =>
    rw [List.flatMap_append, List.flatMap_singleton] at hv
    have hacc' : ∀ c ∈ bs, (cfg.skipValidate || validateBlock c) = true :=
      fun c hc => hacc c (List.mem_append_left _ hc)
    have hing := Node.start_feed_ing policy hacc'
    have hled : ledger (bs ++ [b]) = ledger bs ++ b.txs.map fun tx => (b.height, tx) := by
      rw [ledger_append, ledger, ledger, List.flatMap_singleton]
    rw [Node.feed_append, Node.feed_cons, Node.feed_nil, Node.ingest_utxo hing (hacc b (by simp)),
      owned_of_unsharded (by rw [hing]; exact hk), hled]
    exact ((ih hacc' hv.left).block (by rw [ledger_map_snd]; exact hv)).evict _

/-- **A branch and its sweeps**: the sweeps can be made at the end. -/
lemma feed_swept (hk : cfg.k = 0) {n : Node} {last : UInt32}
    (hing : n.ing = .at cfg policy (some last)) {c : List (UInt32 × Tx)} {y : Option UTXO}
    {q : UInt32 → Bool} (hn : n.flat.utxo op = evict q y) (hy : Evicted y (record c 0 op))
    (hacc : ∀ b ∈ bs, (cfg.skipValidate || validateBlock b) = true)
    (hv : ValidTxs (c.map Prod.snd ++ bs.flatMap Block.txs)) (hq : ∀ b ∈ bs, q b.height = false)
    (hinc : bs.Pairwise fun a b => a.height < b.height) :
    (n.feed bs).flat.utxo op = evict (fun h => q h || swept policy.d last bs h)
      (applyAll (ledger bs) op y) := by
  induction bs generalizing n last c y q with
  | nil =>
    simp only [Node.feed_nil, swept, Bool.or_false]
    exact hn
  | cons b bs ih =>
    rw [List.flatMap_cons, ← List.append_assoc] at hv
    have hb := hacc b List.mem_cons_self
    have hcell : (n.ingest b).flat.utxo op =
        evict (fun h => q h || decide (h ∈ Prune.bands last true b.height policy.d))
          (b.txs.foldl (txCell b.height op) y) := by
      rw [Node.ingest_utxo hing hb, owned_of_unsharded (by rw [hing]; exact hk), hn,
        block_evict hy hv.left (hq b List.mem_cons_self), evict_evict]
      rfl
    have hmap : (c ++ b.txs.map fun tx => (b.height, tx)).map Prod.snd =
        c.map Prod.snd ++ b.txs := by
      simp [Function.comp_def]
    have hq' : ∀ b' ∈ bs,
        (q b'.height || decide (b'.height ∈ Prune.bands last true b.height policy.d)) = false := by
      intro b' hb'
      have hlt := (List.pairwise_cons.mp hinc).1 b' hb'
      have hnot : b'.height ∉ Prune.bands last true b.height policy.d := fun hmem =>
        UInt32.not_le.mpr hlt (Prune.le_of_mem_bands hmem)
      simp [hq b' (List.mem_cons_of_mem b hb'), hnot]
    have hrest := ih (Node.ingest_ing hing hb) hcell (hy.block (h := b.height) hv.left)
      (fun b' hb' => hacc b' (List.mem_cons_of_mem b hb')) (by rw [hmap]; exact hv) hq'
      (List.pairwise_cons.mp hinc).2
    have hled : ledger (b :: bs) = (b.txs.map fun tx => (b.height, tx)) ++ ledger bs := rfl
    rw [Node.feed_cons, hrest, hled, applyAll_append, applyAll_block]
    congr 1
    funext h
    simp only [swept, Bool.or_assoc]

lemma increasing_of_consecutive {last : ℕ}
    (hs : ∀ i, (hi : i < bs.length) → bs[i].height.toNat = last + 1 + i) :
    bs.Pairwise fun a b => a.height < b.height := by
  refine List.pairwise_iff_getElem.mpr fun i j hi hj hij => ?_
  rw [UInt32.lt_iff_toNat_lt, hs i hi, hs j hj]
  omega

lemma last_of_consecutive {last : UInt32}
    (hs : ∀ i, (hi : i < bs.length) → bs[i].height.toNat = last.toNat + 1 + i) :
    ∃ tip, (bs.getLast?.map Block.height).or (some last) = some tip ∧
      tip.toNat = last.toNat + bs.length := by
  cases hl : bs.getLast? with
  | none =>
    rw [List.getLast?_eq_none_iff.mp hl]
    exact ⟨last, rfl, rfl⟩
  | some b =>
    obtain ⟨l, rfl⟩ := List.getLast?_eq_some_iff.mp hl
    have hb := hs l.length (by simp)
    rw [List.getElem_concat_length rfl] at hb
    refine ⟨b.height, rfl, ?_⟩
    rw [hb, List.length_append, List.length_singleton]
    omega

lemma swept_consecutive {d last : UInt32} {h : UInt32}
    (hs : ∀ i, (hi : i < bs.length) → bs[i].height.toNat = last.toNat + 1 + i) :
    swept d last bs h = true ↔ last.toNat < h.toNat + d.toNat ∧
      h.toNat + d.toNat ≤ last.toNat + bs.length := by
  induction bs generalizing last with
  | nil =>
    simp only [swept, List.length_nil]
    constructor
    · simp
    · omega
  | cons b bs ih =>
    have hb : b.height.toNat = last.toNat + 1 := hs 0 (by simp)
    have hrest := @ih b.height fun i hi => by
      have := hs (i + 1) (by simpa using hi)
      rw [List.getElem_cons_succ] at this
      omega
    rw [swept, Bool.or_eq_true, hrest, decide_eq_true_eq, Prune.mem_bands_next (.inr (by omega)),
      List.length_cons]
    omega

end Feed

/-! ### Rolling a branch back -/

lemma foldl_undoCell (txs : List Tx) (op : Outpoint) (x : Option UTXO) :
    txs.foldl (undoCell op) x =
      if ∃ tx ∈ txs, (tx.output? op).isSome then none
      else if ∃ tx ∈ txs, op ∈ tx.inputs then x.map (·.unspend) else x := by
  induction txs generalizing x with
  | nil => simp
  | cons tx txs ih =>
    rw [List.foldl_cons, ih, undoCell]
    by_cases h1 : (tx.output? op).isSome <;> by_cases h2 : op ∈ tx.inputs <;>
      by_cases h3 : ∃ t ∈ txs, (t.output? op).isSome <;> by_cases h4 : ∃ t ∈ txs, op ∈ t.inputs <;>
      simp_all [Function.comp_def, UTXO.unspend]

lemma rollback_foldl_utxo {n : Node} (bs : List Block) (op : Outpoint) (hk : n.ing.k = 0) :
    (bs.foldl Node.rollback n).flat.utxo op = (bs.flatMap Block.txs).foldl (undoCell op)
      (n.flat.utxo op) := by
  induction bs generalizing n with
  | nil => rfl
  | cons b bs ih =>
    rw [List.foldl_cons, ih (by exact hk), Node.rollback_utxo, owned_of_unsharded hk,
      List.flatMap_cons, List.foldl_append]

lemma rollback_foldl_ing {n : Node} (bs : List Block) : (bs.foldl Node.rollback n).ing = n.ing := by
  induction bs generalizing n with
  | nil => rfl
  | cons b bs ih => rw [List.foldl_cons, ih]; rfl

lemma applyAll_of_not_created {c : List (UInt32 × Tx)} {op : Outpoint}
    (hc : ∀ p ∈ c, p.2.output? op = none)
    (u : UTXO) : ∃ v, applyAll c op (some u) = some v ∧ v.unspend = u.unspend ∧
      (v = u ∨ ∃ p ∈ c, v.spentHeight = p.1) := by
  induction c generalizing u with
  | nil => exact ⟨u, rfl, rfl, .inl rfl⟩
  | cons p c ih =>
    have hp := hc p List.mem_cons_self
    obtain ⟨v, hv, hun, hh⟩ := ih (fun q hq => hc q (List.mem_cons_of_mem p hq))
      (if op ∈ p.2.inputs then u.spend p.2.txID p.1 else u)
    have hstep : applyAll (p :: c) op (some u) =
        applyAll c op (some (if op ∈ p.2.inputs then u.spend p.2.txID p.1 else u)) := by
      simp only [applyAll, List.foldl_cons, txCell, hp]
      split_ifs <;> rfl
    refine ⟨v, hstep.trans hv, ?_, ?_⟩
    · rw [hun]
      split_ifs <;> rfl
    · rcases hh with rfl | ⟨q, hq, hqh⟩
      · split_ifs
        · exact .inr ⟨p, List.mem_cons_self, rfl⟩
        · exact .inl rfl
      · exact .inr ⟨q, List.mem_cons_of_mem p hq, hqh⟩

lemma applyAll_none_of_not_created {c : List (UInt32 × Tx)} {op : Outpoint}
    (hc : ∀ p ∈ c, p.2.output? op = none) : applyAll c op none = none := by
  induction c with
  | nil => rfl
  | cons p c ih =>
    have hp := hc p List.mem_cons_self
    have hstep : applyAll (p :: c) op none = applyAll c op none := by
      simp only [applyAll, List.foldl_cons, txCell, hp, Option.map_none, ite_self]
    rw [hstep, ih fun q hq => hc q (List.mem_cons_of_mem p hq)]

lemma applyAll_of_untouched {c : List (UInt32 × Tx)} {op : Outpoint}
    (hc : ∀ p ∈ c, p.2.output? op = none)
    (hs : ∀ p ∈ c, op ∉ p.2.inputs) (x : Option UTXO) : applyAll c op x = x := by
  induction c with
  | nil => rfl
  | cons p c ih =>
    have hstep : applyAll (p :: c) op x = applyAll c op x := by
      simp only [applyAll, List.foldl_cons, txCell, hc p List.mem_cons_self,
        if_neg (hs p List.mem_cons_self)]
    rw [hstep, ih (fun q hq => hc q (List.mem_cons_of_mem p hq)) fun q hq =>
      hs q (List.mem_cons_of_mem p hq)]

lemma unspend_record {c : List (UInt32 × Tx)} {e : ℕ} {op : Outpoint} {u : UTXO}
    (hu : record c e op = some u)
    (hs : u.spent = false) : u.unspend = u := by
  unfold record at hu
  split at hu
  · simp at hu
  · split at hu
    · obtain rfl := Option.some.inj hu
      rfl
    · split_ifs at hu
      obtain rfl := Option.some.inj hu
      simp [UTXO.spend] at hs

/-- **The rollback of a branch** leaves what its sweeps leave of the record before it. -/
lemma undo_branch {c : List (UInt32 × Tx)} {bs : List Block} {op : Outpoint} {y : Option UTXO}
    {q : UInt32 → Bool} (hy : Evicted y (record c 0 op))
    (hv : ValidTxs (c.map Prod.snd ++ bs.flatMap Block.txs)) (hq : ∀ b ∈ bs, q b.height = false) :
    (bs.reverse.flatMap Block.txs).foldl (undoCell op) (evict q (applyAll (ledger bs) op y)) =
      evict q y := by
  have hmem : ∀ tx, tx ∈ bs.reverse.flatMap Block.txs ↔ tx ∈ bs.flatMap Block.txs := by
    simp
  simp only [foldl_undoCell, hmem]
  have hled : ∀ p ∈ ledger bs, p.2 ∈ bs.flatMap Block.txs := fun p hp =>
    ledger_map_snd bs ▸ List.mem_map_of_mem hp
  split_ifs with h1 h2
  · -- created by the branch: there was no record before
    obtain ⟨tx, htx, hout⟩ := h1
    obtain ⟨o, ho⟩ := Option.isSome_iff_exists.mp hout
    obtain ⟨p, r, hpr⟩ := List.append_of_mem htx
    rw [hpr, ← List.append_assoc] at hv
    have hnone : record c 0 op = none := by
      have : c.findSome? (fun p => p.2.output? op) = none := by
        rw [List.findSome?_eq_none_iff]
        exact fun p hp => hv.output?_fresh ho (List.mem_append_left _ (List.mem_map_of_mem hp))
      unfold record
      rw [this]
    rcases hy with rfl | ⟨rfl, -⟩
    · rw [hnone]; rfl
    · rfl
  · -- spent by the branch: the record was unspent before, and its spend is not swept
    have hnc : ∀ p ∈ ledger bs, p.2.output? op = none := by
      intro p hp
      by_contra hne
      exact h1 ⟨p.2, hled p hp, Option.isSome_iff_ne_none.mpr hne⟩
    obtain ⟨tx, htx, hop⟩ := h2
    obtain ⟨p, r, hpr⟩ := List.append_of_mem htx
    rw [hpr, ← List.append_assoc] at hv
    have hun : Unspent (record c 0 op) :=
      unspent_of_input hv (fun p hp => List.mem_append_left _ (List.mem_map_of_mem hp)) hop
    rw [hy.eq_of_unspent hun]
    cases hz : record c 0 op with
    | none => rw [applyAll_none_of_not_created hnc]; rfl
    | some u =>
      have hu := hun u hz
      obtain ⟨v, hv1, hv2, hv3⟩ := applyAll_of_not_created hnc u
      have hkeep : (v.spent && q v.spentHeight) = false := by
        rcases hv3 with rfl | ⟨p, hp, hph⟩
        · rw [hu]; rfl
        · obtain ⟨b, hb, hbp, -⟩ := mem_ledger.mp hp
          rw [hph, ← hbp, hq b hb, Bool.and_false]
      rw [hv1]
      simp [evict, Option.filter, hkeep, hu, hv2, unspend_record hz hu]
  · -- not touched by the branch
    congr 1
    refine applyAll_of_untouched (fun p hp => ?_) (fun p hp hop => h2 ⟨p.2, hled p hp, hop⟩) y
    by_contra hne
    exact h1 ⟨p.2, hled p hp, Option.isSome_iff_ne_none.mpr hne⟩

section Index

variable {cfg : Config} {policy : Prune.Policy} {bs : List Block} {t : Hash}

lemma feed_ing_at {n : Node} {tip : Option UInt32} (hing : n.ing = .at cfg policy tip)
    (hacc : ∀ b ∈ bs, (cfg.skipValidate || validateBlock b) = true) :
    (n.feed bs).ing = .at cfg policy ((bs.getLast?.map Block.height).or tip) := by
  induction bs using List.reverseRecOn with
  | nil => exact hing
  | append_singleton bs b ih =>
    have h := ih fun c hc => hacc c (List.mem_append_left _ hc)
    rw [Node.feed_append, Node.feed_cons, Node.feed_nil, Node.ingest_ing h (hacc b (by simp))]
    simp

lemma feed_txindex_congr (hr : policy.indexRetention = 0) {n n' : Node} {tip tip' : Option UInt32}
    (hing : n.ing = .at cfg policy tip) (hing' : n'.ing = .at cfg policy tip')
    (hacc : ∀ b ∈ bs, (cfg.skipValidate || validateBlock b) = true)
    (h : n.flat.txindex t = n'.flat.txindex t) :
    (n.feed bs).flat.txindex t = (n'.feed bs).flat.txindex t := by
  induction bs generalizing n n' tip tip' with
  | nil => exact h
  | cons b bs ih =>
    have hb := hacc b List.mem_cons_self
    refine ih (Node.ingest_ing hing hb) (Node.ingest_ing hing' hb)
      (fun c hc => hacc c (List.mem_cons_of_mem b hc)) ?_
    rw [Node.ingest_txindex hing hb hr, Node.ingest_txindex hing' hb hr, h, hing, hing']
    rfl

lemma feed_txindex_of_notMem (hk : cfg.k = 0) (hr : policy.indexRetention = 0) {n : Node}
    {tip : Option UInt32} (hing : n.ing = .at cfg policy tip)
    (hacc : ∀ b ∈ bs, (cfg.skipValidate || validateBlock b) = true)
    (ht : t ∉ (bs.flatMap Block.txs).map Tx.txID) :
    (n.feed bs).flat.txindex t = n.flat.txindex t := by
  induction bs generalizing n tip with
  | nil => rfl
  | cons b bs ih =>
    have hb := hacc b List.mem_cons_self
    rw [List.flatMap_cons, List.map_append, List.mem_append, not_or] at ht
    have hnone : blockEntry n.ing b t = none := by
      rw [← Option.not_isSome_iff_eq_none, blockEntry_isSome,
        owned_of_unsharded (by rw [hing]; exact hk)]
      exact ht.1
    rw [Node.feed_cons,
      ih (Node.ingest_ing hing hb) (fun c hc => hacc c (List.mem_cons_of_mem b hc)) ht.2,
      Node.ingest_txindex hing hb hr, hnone, Option.none_or]

lemma rollback_foldl_txindex {n : Node} (hk : n.ing.k = 0) :
    (bs.foldl Node.rollback n).flat.txindex t =
      if t ∈ (bs.flatMap Block.txs).map Tx.txID then none else n.flat.txindex t := by
  induction bs generalizing n with
  | nil => rfl
  | cons b bs ih =>
    rw [List.foldl_cons, ih (by exact hk), Node.rollback_txindex, owned_of_unsharded hk,
      List.flatMap_cons, List.map_append]
    by_cases h1 : t ∈ b.txs.map Tx.txID <;> by_cases h2 : t ∈ (bs.flatMap Block.txs).map Tx.txID <;>
      simp only [h1, h2, List.mem_append, true_or, or_true, or_self, if_true, if_false]

end Index

/-! ### Convergence -/

section Converge

variable {cfg : Config} {policy : Prune.Policy} {pre br br' : List Block} {p : Block}
  (hk : cfg.k = 0) (hr : policy.indexRetention = 0)
  (hacc : ∀ b ∈ pre, (cfg.skipValidate || validateBlock b) = true)
  (haccb : ∀ b ∈ br, (cfg.skipValidate || validateBlock b) = true)
  (haccb' : ∀ b ∈ br', (cfg.skipValidate || validateBlock b) = true)
  (hp : pre.getLast? = some p)
  (hv : ValidTxs ((pre ++ br).flatMap Block.txs)) (hv' : ValidTxs ((pre ++ br').flatMap Block.txs))

/-- The flat node after the reorg. -/
def reorged (cfg : Config) (policy : Prune.Policy) (pre br br' : List Block) : Node :=
  (br.reverse.foldl Node.rollback ((Node.start cfg policy).feed (pre ++ br))).feed br'

include hk hr hacc haccb haccb' hv

lemma reorged_txindex (t : Hash) : (reorged cfg policy pre br br').flat.txindex t =
    ((Node.start cfg policy).feed (pre ++ br')).flat.txindex t := by
  have hing := Node.start_feed_ing policy hacc
  have hinga := feed_ing_at hing haccb
  have hkt : (((Node.start cfg policy).feed pre).feed br).ing.k = 0 := by rw [hinga]; exact hk
  rw [reorged, Node.feed_append, Node.feed_append]
  refine feed_txindex_congr hr ((rollback_foldl_ing _).trans hinga) hing haccb' ?_
  rw [rollback_foldl_txindex hkt]
  have hmem : t ∈ (br.reverse.flatMap Block.txs).map Tx.txID ↔
      t ∈ (br.flatMap Block.txs).map Tx.txID := by
    simp
  rw [if_congr hmem rfl rfl]
  split_ifs with ht
  · -- an id of the branch is not in the prefix
    rw [List.flatMap_append] at hv
    have hd := hv.distinct
    rw [List.map_append, List.nodup_append] at hd
    have hnot : t ∉ (pre.flatMap Block.txs).map Tx.txID := fun h => hd.2.2 t h t ht rfl
    rw [eq_comm, ← Option.not_isSome_iff_eq_none, (feed_txindex hk hr hacc t).1]
    exact hnot
  · exact feed_txindex_of_notMem hk hr hing haccb ht

omit hr
include hp hv'

lemma reorged_utxo (hd : policy.reorgHorizon.toNat + policy.recencyWindow.toNat < 2 ^ 32)
    (hbr : ∀ i, (hi : i < br.length) → br[i].height.toNat = p.height.toNat + 1 + i)
    (hbr' : ∀ i, (hi : i < br'.length) → br'[i].height.toNat = p.height.toNat + 1 + i)
    (hn : br.length ≤ policy.reorgHorizon.toNat) (hlen : br.length ≤ br'.length) (op : Outpoint) :
    (reorged cfg policy pre br br').flat.utxo op =
      ((Node.start cfg policy).feed (pre ++ br')).flat.utxo op := by
  have hing : ((Node.start cfg policy).feed pre).ing = .at cfg policy (some p.height) := by
    rw [Node.start_feed_ing policy hacc, hp]; rfl
  have hinga := feed_ing_at hing haccb
  have hD := Prune.d_toNat hd
  rw [List.flatMap_append, ← ledger_map_snd pre] at hv hv'
  set y := ((Node.start cfg policy).feed pre).flat.utxo op with hydef
  have hy : Evicted y (record (ledger pre) 0 op) :=
    feed_evicted policy hk hacc (ledger_map_snd pre ▸ hv.left)
  set q := swept policy.d p.height br with hqdef
  -- the first branch sweeps nothing at the heights of either branch
  have hq : ∀ l : List Block,
      (∀ i, (hi : i < l.length) → l[i].height.toNat = p.height.toNat + 1 + i) →
      ∀ b ∈ l, q b.height = false := by
    intro l hl b hb
    obtain ⟨i, hi, rfl⟩ := List.mem_iff_getElem.mp hb
    have hi' := hl i hi
    rw [← Bool.not_eq_true, hqdef, swept_consecutive hbr]
    omega
  have hroll :
      (br.reverse.foldl Node.rollback (((Node.start cfg policy).feed pre).feed br)).flat.utxo op =
      evict q y := by
    have hfed :=
      feed_swept hk hing (evict_false y).symm hy haccb hv (fun _ _ => rfl)
      (increasing_of_consecutive hbr)
    simp only [Bool.false_or, ← hqdef] at hfed
    rw [rollback_foldl_utxo _ _ (by rw [hinga]; exact hk), hfed, undo_branch hy hv (hq br hbr)]
  rw [reorged, Node.feed_append, Node.feed_append,
    feed_swept hk hing (evict_false y).symm hy haccb' hv' (fun _ _ => rfl)
      (increasing_of_consecutive hbr')]
  obtain ⟨tip, htip, htipn⟩ := last_of_consecutive hbr
  rw [htip] at hinga
  rw [feed_swept hk ((rollback_foldl_ing _).trans hinga) hroll hy haccb' hv' (hq br' hbr')
    (increasing_of_consecutive hbr')]
  congr 1
  funext h
  rw [Bool.false_or, Bool.eq_iff_iff, Bool.or_eq_true, hqdef, swept_consecutive hbr,
    swept_consecutive hbr']
  -- from the lower tip the second branch sweeps again, from the higher one it goes on
  cases br' with
  | nil =>
    have hnil : br = [] := List.length_eq_zero_iff.mp (by simpa using hlen)
    subst hnil
    simp only [swept, List.length_nil, Bool.false_eq_true, or_false]
  | cons b rest =>
    have hb : b.height.toNat = p.height.toNat + 1 := hbr' 0 (by simp)
    have hrest : ∀ i, (hi : i < rest.length) → rest[i].height.toNat = b.height.toNat + 1 + i := by
      intro i hi
      have := hbr' (i + 1) (by simpa using hi)
      rw [List.getElem_cons_succ] at this
      omega
    have hw : 0 < policy.d.toNat ∨ tip.toNat < b.height.toNat := by
      by_cases h0 : br.length = 0
      · exact .inr (by omega)
      · exact .inl (by omega)
    rw [swept, Bool.or_eq_true, decide_eq_true_eq, Prune.mem_bands_next hw, swept_consecutive hrest,
      List.length_cons]
    rw [List.length_cons] at hlen
    omega

end Converge

/-- **Reorgs within the horizon converge.** A node that ingested a prefix and a branch of at most
`ReorgHorizon` blocks, rolled the branch back in reverse order and ingested another branch that
is not shorter, answers as a node that ingested only the prefix and the other branch. -/
theorem reorg_converges (cfg : Config) (hk : cfg.k = 0) (policy : Prune.Policy)
    (hr : policy.indexRetention = 0)
    (hd : policy.reorgHorizon.toNat + policy.recencyWindow.toNat < 2 ^ 32) (pre br br' : List Block)
    (p : Block) (hp : pre.getLast? = some p)
    (hacc : ∀ b ∈ pre ++ br ++ br', (cfg.skipValidate || validateBlock b) = true)
    (hbr : ∀ i, (hi : i < br.length) → br[i].height.toNat = p.height.toNat + 1 + i)
    (hbr' : ∀ i, (hi : i < br'.length) → br'[i].height.toNat = p.height.toNat + 1 + i)
    (hn : br.length ≤ policy.reorgHorizon.toNat) (hlen : br.length ≤ br'.length)
    (hv : ValidTxs ((pre ++ br).flatMap Block.txs))
    (hv' : ValidTxs ((pre ++ br').flatMap Block.txs)) :
    let s := (feed (rollbackAll (feed (fresh cfg policy) (pre ++ br)) br.reverse) br').2
    let s' := (feed (fresh cfg policy) (pre ++ br')).2
    (∀ t, ((Api.seen t).run.run s).1 = ((Api.seen t).run.run s').1 ∧
      ((Api.mined t).run.run s).1 = ((Api.mined t).run.run s').1) ∧
    ∀ op, ((Api.utxo op).run.run s).1 = ((Api.utxo op).run.run s').1 := by
  intro s s'
  have h1 : ∀ b ∈ pre, (cfg.skipValidate || validateBlock b) = true :=
    fun b hb => hacc b (by simp [hb])
  have h2 : ∀ b ∈ br, (cfg.skipValidate || validateBlock b) = true :=
    fun b hb => hacc b (by simp [hb])
  have h3 : ∀ b ∈ br', (cfg.skipValidate || validateBlock b) = true :=
    fun b hb => hacc b (by simp [hb])
  have hs : s.flatten = (reorged cfg policy pre br br').flat := by
    obtain ⟨i1, e1⟩ := Node.of_feed (p := fresh cfg policy) Mem.Store.new_indexed (pre ++ br)
    obtain ⟨i2, e2⟩ := Node.of_rollbackAll i1 br.reverse
    obtain ⟨-, e3⟩ := Node.of_feed i2 br'
    rw [e2, e1] at e3
    exact congrArg Node.flat e3
  have hs' : s'.flatten = ((Node.start cfg policy).feed (pre ++ br')).flat :=
    congrArg Node.flat (Node.of_feed (p := fresh cfg policy) Mem.Store.new_indexed (pre ++ br')).2
  have htx : s.flatten.txindex = s'.flatten.txindex := by
    rw [hs, hs']
    exact funext fun t => reorged_txindex hk hr h1 h2 h3 hv t
  have hux : s.flatten.utxo = s'.flatten.utxo := by
    rw [hs, hs']
    exact funext fun op => reorged_utxo hk h1 h2 h3 hp hv hv' hd hbr hbr' hn hlen op
  refine ⟨fun t => ⟨?_, ?_⟩, fun op => ?_⟩
  · simp only [seen_mem, Flat.seen, htx]
  · simp only [mined_mem, Flat.mined, htx]
  · simp only [utxo_mem, Flat.utxoStatus, htx, hux]

/-- A second transaction that spends the output of `coinTx`. -/
def respendTx : Tx := ⟨.fill 32 3, [⟨.fill 32 1, 0⟩], []⟩

theorem reorg_converges_respendTx :
    ((Api.utxo ⟨.fill 32 1, 0⟩).run.run (feed (rollbackAll (feed (fresh {} { reorgHorizon := 1 })
      ([sealBlock 1 [[coinTx]]] ++ [sealBlock 2 [[spendTx]]])) [sealBlock 2 [[spendTx]]].reverse)
      [sealBlock 2 [[respendTx]]]).2).1 =
    ((Api.utxo ⟨.fill 32 1, 0⟩).run.run (feed (fresh {} { reorgHorizon := 1 })
      ([sealBlock 1 [[coinTx]]] ++ [sealBlock 2 [[respendTx]]])).2).1 := by
  have hone : ∀ (b : Block) (n : ℕ), b.height.toNat = n → ∀ i,
      (hi : i < [b].length) → [b][i].height.toNat = n + i := by
    intro b n hb i hi
    obtain rfl : i = 0 := by simpa using hi
    exact hb
  refine (reorg_converges {} rfl { reorgHorizon := 1 } rfl (by decide) [sealBlock 1 [[coinTx]]]
    [sealBlock 2 [[spendTx]]] [sealBlock 2 [[respendTx]]] (sealBlock 1 [[coinTx]]) rfl ?_ ?_ ?_
      (by decide) (by decide)
    ?_ ?_).2 ⟨.fill 32 1, 0⟩
  · simp [validateBlock_sealBlock]
  · exact hone _ 2 rfl
  · exact hone _ 2 rfl
  · exact (by decide : ValidTxs [coinTx, spendTx])
  · exact (by decide : ValidTxs [coinTx, respendTx])

end MemServe
