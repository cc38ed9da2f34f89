import MemServe.Cells

/-!
The answers about outpoints are those of the ledger.

The ledger is the list of transactions of the ingested blocks, each with its height. It says
which output stands at an outpoint and who spent it; the record a node keeps is that of the
ledger, less the spends buried deeper than the retention depth.
-/

namespace MemServe

open Teranode Ingest

/-- `op` is an output created before position `i`, or of a transaction outside the list. -/
def RefersBack (txs : List Tx) (i : ℕ) (op : Outpoint) : Prop :=
  (∃ t ∈ txs.take i, op.txID = t.txID ∧ op.vout.toNat < t.outputs.length) ∨
    op.txID ∉ txs.map Tx.txID

instance (txs : List Tx) (i : ℕ) (op : Outpoint) : Decidable (RefersBack txs i op) :=
  inferInstanceAs (Decidable (_ ∨ _))

/-- A list of transactions as a chain may hold them: ids are distinct, inputs refer back, and no
output is spent twice. -/
structure ValidTxs (txs : List Tx) : Prop where
  distinct : (txs.map Tx.txID).Nodup
  inputs : ∀ i, (h : i < txs.length) → ∀ op ∈ txs[i].inputs, RefersBack txs i op
  spentOnce : ∀ op ∈ txs.flatMap Tx.inputs, op.txID ∈ txs.map Tx.txID →
    (txs.flatMap Tx.inputs).count op = 1

instance (txs : List Tx) : Decidable (ValidTxs txs) :=
  haveI : Decidable (∀ i, (h : i < txs.length) → ∀ op ∈ txs[i].inputs, RefersBack txs i op) :=
    Nat.decidableBallLT _ _
  decidable_of_iff ((txs.map Tx.txID).Nodup ∧
      (∀ i, (h : i < txs.length) → ∀ op ∈ txs[i].inputs, RefersBack txs i op) ∧
      ∀ op ∈ txs.flatMap Tx.inputs, (txs.map Tx.txID).contains op.txID = true →
        (txs.flatMap Tx.inputs).count op = 1)
    ⟨fun h => ⟨h.1, h.2.1, fun op hop hmem => h.2.2 op hop (List.contains_iff_mem.mpr hmem)⟩,
      fun h =>
        ⟨h.distinct, h.inputs, fun op hop hmem =>
          h.spentOnce op hop (List.contains_iff_mem.mp hmem)⟩⟩

namespace ValidTxs

variable {txs pre post : List Tx} {tx : Tx} {op : Outpoint}

lemma created (h : ValidTxs (pre ++ tx :: post)) (hop : op ∈ tx.inputs) :
    (∃ t ∈ pre, (t.output? op).isSome) ∨ op.txID ∉ (pre ++ tx :: post).map Tx.txID := by
  have hback := h.inputs pre.length (by simp) op (by simpa using hop)
  rw [RefersBack, List.take_left] at hback
  exact hback.imp_left fun ⟨t, ht, hout⟩ => ⟨t, ht, output?_isSome_iff.mpr hout⟩

lemma count_le (h : ValidTxs txs) (hop : op.txID ∈ txs.map Tx.txID) :
    (txs.flatMap Tx.inputs).count op ≤ 1 := by
  by_cases hmem : op ∈ txs.flatMap Tx.inputs
  · exact (h.spentOnce op hmem hop).le
  · rw [List.count_eq_zero_of_not_mem hmem]
    omega

lemma left (h : ValidTxs (pre ++ post)) : ValidTxs pre where
  distinct := by
    have := h.distinct
    rw [List.map_append] at this
    exact this.of_append_left
  inputs i hi op hop := by
    have := h.inputs i (by rw [List.length_append]; omega) op (by rwa [List.getElem_append_left hi])
    rw [RefersBack, List.take_append_of_le_length hi.le] at this
    rcases this with h1 | h1
    · exact .inl h1
    · exact .inr fun hmem => h1 (by rw [List.map_append]; exact List.mem_append_left _ hmem)
  spentOnce op hop hid := by
    have hle : ((pre ++ post).flatMap Tx.inputs).count op ≤ 1 :=
      h.count_le (by rw [List.map_append]; exact List.mem_append_left _ hid)
    have hpos := List.count_pos_iff.mpr hop
    rw [List.flatMap_append, List.count_append] at hle
    omega

lemma notMem_of_append (h : ValidTxs (pre ++ tx :: post)) {t : Tx} (ht : t ∈ pre) :
    t.txID ≠ tx.txID := by
  have hd := h.distinct
  rw [List.map_append, List.map_cons, List.nodup_append] at hd
  exact hd.2.2 _ (List.mem_map_of_mem ht) _ List.mem_cons_self

lemma output?_fresh (h : ValidTxs (pre ++ tx :: post)) {o : TxOut} (ho : tx.output? op = some o)
    {t : Tx} (ht : t ∈ pre) : t.output? op = none := by
  by_contra hne
  obtain ⟨o', ho'⟩ := Option.ne_none_iff_exists'.mp hne
  exact h.notMem_of_append ht ((txID_of_output? ho').symm.trans (txID_of_output? ho))

lemma unspent_fresh (h : ValidTxs (pre ++ tx :: post)) {o : TxOut} (ho : tx.output? op = some o)
    {t : Tx} (ht : t ∈ pre ++ [tx]) : op ∉ t.inputs := by
  intro hop
  obtain ⟨p, q, hpq⟩ := List.append_of_mem ht
  have hsplit : pre ++ tx :: post = p ++ t :: (q ++ post) := by
    rw [← List.singleton_append, ← List.append_assoc, hpq]
    simp
  rcases (hsplit ▸ h).created hop with ⟨t', ht', hout⟩ | hnot
  · -- a creator before `t` comes before `tx`
    have hpre : t' ∈ pre := by
      have hlen : p.length ≤ pre.length := by
        have := congrArg List.length hpq
        simp at this
        omega
      have hp : p <+: pre := by
        have hp' : p <+: pre ++ tx :: post := by
          rw [hsplit]
          exact List.prefix_append _ _
        exact List.prefix_of_prefix_length_le hp' (List.prefix_append _ _) hlen
      exact hp.subset ht'
    rw [h.output?_fresh ho hpre] at hout
    simp at hout
  · refine hnot ?_
    rw [txID_of_output? ho, ← hsplit]
    simp

lemma unspent_of_spend (h : ValidTxs (pre ++ tx :: post)) (hop : op ∈ tx.inputs) {t : Tx}
    (ht : t ∈ pre)
    (hout : (t.output? op).isSome) {t' : Tx} (ht' : t' ∈ pre) : op ∉ t'.inputs := by
  intro hop'
  obtain ⟨o, ho⟩ := Option.isSome_iff_exists.mp hout
  have hmem : op.txID ∈ (pre ++ tx :: post).map Tx.txID := by
    rw [txID_of_output? ho, List.map_append]
    exact List.mem_append_left _ (List.mem_map_of_mem ht)
  have hcount := h.count_le hmem
  rw [List.flatMap_append, List.flatMap_cons, List.count_append, List.count_append] at hcount
  have h1 : 0 < (pre.flatMap Tx.inputs).count op :=
    List.count_pos_iff.mpr (List.mem_flatMap.mpr ⟨t', ht', hop'⟩)
  have h2 : 0 < tx.inputs.count op := List.count_pos_iff.mpr hop
  omega

lemma eq_of_txID (h : ValidTxs txs) {t : Tx} (htx : tx ∈ txs) (ht : t ∈ txs)
    (he : tx.txID = t.txID) : tx = t :=
  List.inj_on_of_nodup_map h.distinct htx ht he

lemma spender_unique (h : ValidTxs txs) (hop : op.txID ∈ txs.map Tx.txID) {t : Tx} (htx : tx ∈ txs)
    (ht : t ∈ txs)
    (h1 : op ∈ tx.inputs) (h2 : op ∈ t.inputs) : tx = t := by
  by_contra hne
  obtain ⟨p, q, rfl⟩ := List.append_of_mem htx
  have hcount := h.count_le hop
  rw [List.flatMap_append, List.flatMap_cons, List.count_append, List.count_append] at hcount
  have hc1 : 0 < tx.inputs.count op := List.count_pos_iff.mpr h1
  have hc2 : 0 < (p.flatMap Tx.inputs).count op + (q.flatMap Tx.inputs).count op := by
    rcases List.mem_append.mp ht with hp | hq
    · have := List.count_pos_iff.mpr (List.mem_flatMap.mpr ⟨t, hp, h2⟩)
      omega
    · rcases List.mem_cons.mp hq with rfl | hq
      · exact absurd rfl hne
      · have := List.count_pos_iff.mpr (List.mem_flatMap.mpr ⟨t, hq, h2⟩)
        omega
  omega

end ValidTxs

/-- The transactions of the blocks with their heights. -/
def ledger (bs : List Block) : List (UInt32 × Tx) :=
  bs.flatMap fun b => b.txs.map fun tx => (b.height, tx)

lemma ledger_append (bs cs : List Block) : ledger (bs ++ cs) = ledger bs ++ ledger cs :=
  List.flatMap_append

lemma ledger_map_snd (bs : List Block) : (ledger bs).map Prod.snd = bs.flatMap Block.txs := by
  rw [ledger, List.map_flatMap]
  refine List.flatMap_congr fun b _ => ?_
  rw [List.map_map]
  exact List.map_id _

lemma mem_ledger {bs : List Block} {p : UInt32 × Tx} :
    p ∈ ledger bs ↔ ∃ b ∈ bs, b.height = p.1 ∧ p.2 ∈ b.txs := by
  rw [ledger, List.mem_flatMap]
  refine exists_congr fun b => and_congr_right fun _ => ?_
  rw [List.mem_map]
  constructor
  · rintro ⟨tx, htx, rfl⟩
    exact ⟨rfl, htx⟩
  · rintro ⟨hh, htx⟩
    exact ⟨p.2, htx, by rw [hh]⟩

/-- The record of `op` in the ledger `c`, where spends below height `e` are forgotten. -/
def record (c : List (UInt32 × Tx)) (e : ℕ) (op : Outpoint) : Option UTXO :=
  match c.findSome? fun p => p.2.output? op with
  | none => none
  | some o =>
    match c.find? fun p => op ∈ p.2.inputs with
    | none => some o.record
    | some p => if p.1.toNat < e then none else some (o.record.spend p.2.txID p.1)

lemma findSome?_output {c : List (UInt32 × Tx)} (hv : ValidTxs (c.map Prod.snd)) {tx : Tx}
    {op : Outpoint} {o : TxOut} (htx : tx ∈ c.map Prod.snd) (ho : tx.output? op = some o) :
    c.findSome? (fun p => p.2.output? op) = some o := by
  cases hf : c.findSome? fun p => p.2.output? op with
  | none =>
    obtain ⟨p, hp, rfl⟩ := List.mem_map.mp htx
    rw [List.findSome?_eq_none_iff.mp hf p hp] at ho
    exact absurd ho (by simp)
  | some o' =>
    obtain ⟨p, hp, hpo⟩ := List.exists_of_findSome?_eq_some hf
    have heq : p.2 = tx := hv.eq_of_txID (List.mem_map_of_mem hp) htx
      ((txID_of_output? hpo).symm.trans (txID_of_output? ho))
    rw [← hpo, heq, ho]

lemma record_of_unspent {c : List (UInt32 × Tx)} (hv : ValidTxs (c.map Prod.snd)) {tx : Tx}
    {op : Outpoint} {o : TxOut} (htx : tx ∈ c.map Prod.snd) (ho : tx.output? op = some o)
    (hun : ∀ t ∈ c.map Prod.snd, op ∉ t.inputs) (e : ℕ) : record c e op = some o.record := by
  have hspent : (c.find? fun p => op ∈ p.2.inputs) = none := by
    simpa using fun a t hp => hun t (List.mem_map.mpr ⟨(a, t), hp, rfl⟩)
  unfold record
  rw [findSome?_output hv htx ho, hspent]

lemma record_of_spent {c : List (UInt32 × Tx)} (hv : ValidTxs (c.map Prod.snd)) {tx : Tx}
    {op : Outpoint} {o : TxOut} (htx : tx ∈ c.map Prod.snd) (ho : tx.output? op = some o)
    {p : UInt32 × Tx} (hp : p ∈ c) (hop : op ∈ p.2.inputs) (e : ℕ) :
    record c e op = if p.1.toNat < e then none else some (o.record.spend p.2.txID p.1) := by
  have hspent : (c.find? fun p => op ∈ p.2.inputs) = some p := by
    have hsome : (c.find? fun p => op ∈ p.2.inputs).isSome :=
      List.find?_isSome.mpr ⟨p, hp, by simpa using hop⟩
    obtain ⟨q, hq⟩ := Option.isSome_iff_exists.mp hsome
    have hqc := List.mem_of_find?_eq_some hq
    have hqop : op ∈ q.2.inputs := by simpa using List.find?_some hq
    have hid : op.txID ∈ (c.map Prod.snd).map Tx.txID := by
      rw [txID_of_output? ho]
      exact List.mem_map_of_mem htx
    have htq : q.2 = p.2 :=
      hv.spender_unique hid (List.mem_map_of_mem hqc) (List.mem_map_of_mem hp) hqop hop
    have hd : (c.map fun p => p.2.txID).Nodup := by
      have := hv.distinct
      rwa [List.map_map] at this
    rw [hq, List.inj_on_of_nodup_map hd hqc hp (congrArg Tx.txID htq)]
  unfold record
  rw [findSome?_output hv htx ho, hspent]

lemma record_of_not_created {c : List (UInt32 × Tx)} {op : Outpoint}
    (h : op.txID ∉ (c.map Prod.snd).map Tx.txID)
    (e : ℕ) : record c e op = none := by
  have hnone : c.findSome? (fun p => p.2.output? op) = none := by
    rw [List.findSome?_eq_none_iff]
    intro p hp
    by_contra hne
    obtain ⟨o, ho⟩ := Option.ne_none_iff_exists'.mp hne
    exact h (List.mem_map.mpr ⟨p.2, List.mem_map_of_mem hp, (txID_of_output? ho).symm⟩)
  unfold record
  rw [hnone]

/-- **One more transaction** changes the record as ingesting it does. -/
lemma record_concat {c : List (UInt32 × Tx)} {h : UInt32} {tx : Tx} {e : ℕ} (op : Outpoint)
    (hv : ValidTxs (c.map Prod.snd ++ [tx])) (he : e ≤ h.toNat) :
    record (c ++ [(h, tx)]) e op = txCell h op (record c e op) tx := by
  have hspent : (c.find? fun p => op ∈ p.2.inputs) = none ↔ ∀ p ∈ c, op ∉ p.2.inputs := by
    simp
  unfold record txCell
  rw [List.findSome?_append, List.find?_append]
  cases ho : tx.output? op with
  | some o =>
    -- created here: neither created nor spent before
    have h1 : c.findSome? (fun p => p.2.output? op) = none := by
      rw [List.findSome?_eq_none_iff]
      exact fun p hp => hv.output?_fresh ho (List.mem_map_of_mem hp)
    have h2 : (c.find? fun p => op ∈ p.2.inputs) = none :=
      hspent.mpr fun p hp => hv.unspent_fresh ho (List.mem_append_left _ (List.mem_map_of_mem hp))
    have h3 : op ∉ tx.inputs := hv.unspent_fresh ho (by simp)
    simp [h1, h2, h3, ho]
  | none =>
    cases hc : c.findSome? fun p => p.2.output? op with
    | none => split_ifs <;> simp [ho]
    | some o =>
      by_cases hop : op ∈ tx.inputs
      · -- spent here, so not before, and at a height that is not forgotten
        obtain ⟨p, hp, hpo⟩ := List.exists_of_findSome?_eq_some hc
        have h2 : (c.find? fun p => op ∈ p.2.inputs) = none :=
          hspent.mpr fun q hq => hv.unspent_of_spend hop (List.mem_map_of_mem hp)
            (by rw [hpo]; rfl) (List.mem_map_of_mem hq)
        have hlt : ¬h.toNat < e := by omega
        simp [h2, hop, hlt]
      · simp [hop]

lemma record_block {c : List (UInt32 × Tx)} {h : UInt32} {txs : List Tx} {e : ℕ} (op : Outpoint)
    (hv : ValidTxs (c.map Prod.snd ++ txs)) (he : e ≤ h.toNat) :
    record (c ++ txs.map fun tx => (h, tx)) e op = txs.foldl (txCell h op) (record c e op) := by
  induction txs using List.reverseRecOn with
  | nil => simp
  | append_singleton txs tx ih =>
    rw [← List.append_assoc] at hv
    have hmap : (c ++ txs.map fun tx => (h, tx)).map Prod.snd = c.map Prod.snd ++ txs := by
      simp [Function.comp_def]
    rw [List.map_append, ← List.append_assoc, List.foldl_append, ← ih hv.left]
    exact record_concat op (by rw [hmap]; exact hv) he

lemma record_evict {c : List (UInt32 × Tx)} {e e' : ℕ} {q : UInt32 → Bool} (op : Outpoint)
    (hq : ∀ p ∈ c, (p.1.toNat < e' ↔ p.1.toNat < e ∨ q p.1 = true)) :
    evict q (record c e op) = record c e' op := by
  unfold record
  cases c.findSome? fun p => p.2.output? op with
  | none => rfl
  | some o =>
    dsimp only
    cases hp : c.find? fun p => op ∈ p.2.inputs with
    | none => rfl
    | some p =>
      have hmem := hq p (List.mem_of_find?_eq_some hp)
      dsimp only
      by_cases h1 : p.1.toNat < e
      · rw [if_pos h1, if_pos (hmem.mpr (.inl h1))]
        rfl
      · rw [if_neg h1]
        cases h2 : q p.1 with
        | false =>
          rw [if_neg (by simp [hmem, h1, h2])]
          simp [evict, UTXO.spend, Option.filter, h2]
        | true =>
          rw [if_pos (hmem.mpr (.inr h2))]
          simp [evict, UTXO.spend, Option.filter, h2]

/-! ### A node over the ledger -/

/-- The lowest spend height a node keeps after `bs`, at retention depth `d`. -/
def keptFrom (bs : List Block) (d : ℕ) : ℕ := (bs.getLast?.elim 0 fun b => b.height.toNat + 1 - d)

section Run

variable {cfg : Config} {policy : Prune.Policy} {bs : List Block}

lemma feed_utxo (policy : Prune.Policy) (hk : cfg.k = 0)
    (hacc : ∀ b ∈ bs, (cfg.skipValidate || validateBlock b) = true)
    (hinc : bs.Pairwise fun a b => a.height < b.height) (hv : ValidTxs (bs.flatMap Block.txs))
    (op : Outpoint) :
    ((Node.start cfg policy).feed bs).flat.utxo op =
      record (ledger bs) (keptFrom bs policy.d.toNat) op := by
  induction bs using List.reverseRecOn with
  | nil => rfl
  | append_singleton bs b ih =>
    rw [List.flatMap_append, List.flatMap_singleton] at hv
    have hacc' : ∀ c ∈ bs, (cfg.skipValidate || validateBlock c) = true :=
      fun c hc => hacc c (List.mem_append_left _ hc)
    have hing := Node.start_feed_ing policy hacc'
    have hbelow : ∀ c ∈ bs, c.height.toNat < b.height.toNat := fun c hc =>
      UInt32.lt_iff_toNat_lt.mp ((List.pairwise_append.mp hinc).2.2 c hc b (by simp))
    have hkept : keptFrom bs policy.d.toNat ≤ b.height.toNat := by
      unfold keptFrom
      cases hl : bs.getLast? with
      | none => simp
      | some c =>
        have := hbelow c (List.mem_of_getLast? hl)
        simp only [Option.elim]
        omega
    rw [Node.feed_append, Node.feed_cons, Node.feed_nil,
      Node.ingest_utxo hing (hacc b (by simp)), owned_of_unsharded (by rw [hing]; exact hk),
      ih hacc' (List.pairwise_append.mp hinc).1 hv.left,
      ← record_block op (by rw [ledger_map_snd]; exact hv) hkept]
    have hled : ledger (bs ++ [b]) = ledger bs ++ b.txs.map fun tx => (b.height, tx) := by
      rw [ledger_append, ledger, ledger, List.flatMap_singleton]
    rw [← hled]
    refine record_evict op fun p hp => ?_
    -- the swept bands and those swept before are the heights below the new bound
    obtain ⟨c, hc, hcp, -⟩ := mem_ledger.mp hp
    rw [← hcp]
    simp only [keptFrom, List.getLast?_append, List.getLast?_singleton, Option.some_or, Option.elim,
      decide_eq_true_eq]
    cases hl : bs.getLast? with
    | none =>
      have hnil : bs = [] := List.getLast?_eq_none_iff.mp hl
      subst hnil
      obtain rfl : c = b := by simpa using hc
      simp only [Option.map_none, Option.isSome_none, Prune.mem_bands_first]
      omega
    | some l =>
      have hlt := hbelow l (List.mem_of_getLast? hl)
      simp only [Option.map_some, Option.getD_some, Option.isSome_some,
        Prune.mem_bands_next (.inr hlt)]
      have hcb := height_le_last hinc (List.getLast?_concat ..) hc
      omega

/-- A transaction is in the index exactly if it is in the ledger. -/
lemma feed_txindex (hk : cfg.k = 0) (hr : policy.indexRetention = 0)
    (hacc : ∀ b ∈ bs, (cfg.skipValidate || validateBlock b) = true) (t : Hash) :
    ((((Node.start cfg policy).feed bs).flat.txindex t).isSome ↔
      t ∈ (bs.flatMap Block.txs).map Tx.txID) ∧
      ∀ ix, ((Node.start cfg policy).feed bs).flat.txindex t = some ix → ix.mined = true := by
  induction bs using List.reverseRecOn with
  | nil => exact ⟨by simp [Node.start, Flat.empty], by simp [Node.start, Flat.empty]⟩
  | append_singleton bs b ih =>
    have hacc' : ∀ c ∈ bs, (cfg.skipValidate || validateBlock c) = true :=
      fun c hc => hacc c (List.mem_append_left _ hc)
    obtain ⟨ih1, ih2⟩ := ih hacc'
    have hing := Node.start_feed_ing policy hacc'
    rw [Node.feed_append, Node.feed_cons, Node.feed_nil,
      Node.ingest_txindex hing (hacc b (by simp)) hr]
    constructor
    · rw [Option.isSome_or, Bool.or_eq_true, blockEntry_isSome,
        owned_of_unsharded (by rw [hing]; exact hk), ih1, List.flatMap_append,
        List.flatMap_singleton, List.map_append, List.mem_append]
      exact or_comm
    · intro ix hix
      rcases Option.or_eq_some_iff.mp hix with h | ⟨-, h⟩
      · obtain ⟨p, -, rfl⟩ := Option.map_eq_some_iff.mp h
        rfl
      · exact ih2 ix h

end Run

lemma utxo_answer (cfg : Config) (hk : cfg.k = 0) (policy : Prune.Policy)
    (hr : policy.indexRetention = 0)
    (hd : policy.reorgHorizon.toNat + policy.recencyWindow.toNat < 2 ^ 32) (bs : List Block)
    (b : Block) (hlast : (ingested cfg bs).getLast? = some b)
    (hinc : (ingested cfg bs).Pairwise fun a b => a.height < b.height)
    (hv : ValidTxs ((ingested cfg bs).flatMap Block.txs)) (op : Outpoint) :
    let txs := (ingested cfg bs).flatMap Block.txs
    let ans := ((Api.utxo op).run.run (feed (fresh cfg policy) bs).2).1
    (∀ tx ∈ txs, ∀ o, tx.output? op = some o →
      ((∀ t ∈ txs, op ∉ t.inputs) → ans = .ok { status := .unspent, value := o.value }) ∧
      ∀ c ∈ ingested cfg bs, ∀ t ∈ c.txs, op ∈ t.inputs →
        (b.height.toNat - c.height.toNat + 1 ≤
            policy.reorgHorizon.toNat + policy.recencyWindow.toNat →
          ans = .ok { status := .spent, spentBy := t.txID, spentHeight := c.height }) ∧
        (policy.reorgHorizon.toNat + policy.recencyWindow.toNat <
            b.height.toNat - c.height.toNat + 1 →
          ans = .ok { status := .notInWindow })) ∧
    (op.txID ∉ txs.map Tx.txID → ans = .ok { status := .unknown }) := by
  intro txs ans
  have hacc : ∀ c ∈ ingested cfg bs, (cfg.skipValidate || validateBlock c) = true :=
    fun c hc => (List.mem_filter.mp hc).2
  have hflat : (feed (fresh cfg policy) bs).2.flatten =
      ((Node.start cfg policy).feed (ingested cfg bs)).flat :=
    congrArg Node.flat (Node.of_feed_fresh cfg policy bs).2
  have hrec := feed_utxo policy hk hacc hinc hv op
  obtain ⟨hidx, hmined⟩ := feed_txindex hk hr hacc op.txID
  have hans : ans =
      .ok (Flat.answer (record (ledger (ingested cfg bs)) (b.height.toNat + 1 - policy.d.toNat) op)
      (((Node.start cfg policy).feed (ingested cfg bs)).flat.txindex op.txID)) := by
    simp only [ans, utxo_mem, hflat, Flat.utxoStatus, hrec, keptFrom, hlast, Option.elim]
  rw [hans, Prune.d_toNat hd]
  have hvl : ValidTxs ((ledger (ingested cfg bs)).map Prod.snd) := by rw [ledger_map_snd]; exact hv
  refine ⟨fun tx htx o ho => ⟨fun hun => ?_, fun c hc t ht hop => ?_⟩, fun hnot => ?_⟩
  · rw [record_of_unspent hvl (by rw [ledger_map_snd]; exact htx) ho
      (by rw [ledger_map_snd]; exact hun)]
    rfl
  · have hcb := height_le_last hinc hlast hc
    have hmem : (c.height, t) ∈ ledger (ingested cfg bs) := mem_ledger.mpr ⟨c, hc, rfl, ht⟩
    rw [record_of_spent hvl (by rw [ledger_map_snd]; exact htx) ho hmem hop]
    have hin : op.txID ∈ txs.map Tx.txID := by
      rw [txID_of_output? ho]
      exact List.mem_map_of_mem htx
    obtain ⟨ix, hix⟩ := Option.isSome_iff_exists.mp (hidx.mpr hin)
    constructor
    · intro hle
      rw [if_neg (by simp only; omega)]
      rfl
    · intro hlt
      rw [if_pos (by simp only; omega), hix]
      simp [Flat.answer, Flat.missing, hmined ix hix]
  · have hno : ((Node.start cfg policy).feed (ingested cfg bs)).flat.txindex op.txID = none := by
      rw [← Option.not_isSome_iff_eq_none, hidx]
      exact hnot
    rw [record_of_not_created (by rw [ledger_map_snd]; exact hnot), hno]
    rfl

/-- **The answer about an outpoint is that of the ledger.** After blocks of increasing heights,
whose transactions have at most `2 ^ 32` outputs, an output of the ledger is unspent with its value,
spent while its spend is at most `D` deep, and out of the window afterwards; an outpoint of a
transaction not in the ledger is unknown. -/
theorem utxo_eq_ledger (cfg : Config) (hk : cfg.k = 0) (policy : Prune.Policy)
    (hr : policy.indexRetention = 0)
    (hd : policy.reorgHorizon.toNat + policy.recencyWindow.toNat < 2 ^ 32) (bs : List Block)
    (b : Block) (hlast : (ingested cfg bs).getLast? = some b)
    (hinc : (ingested cfg bs).Pairwise fun a b => a.height < b.height)
    (hv : ValidTxs ((ingested cfg bs).flatMap Block.txs))
    (houts : ∀ tx ∈ (ingested cfg bs).flatMap Block.txs, tx.outputs.length ≤ 2 ^ 32)
    (op : Outpoint) :
    let txs := (ingested cfg bs).flatMap Block.txs
    let ans := ((Api.utxo op).run.run (feed (fresh cfg policy) bs).2).1
    (∀ tx ∈ txs, op.txID = tx.txID → ∀ o, tx.outputs[op.vout.toNat]? = some o →
      ((∀ t ∈ txs, op ∉ t.inputs) → ans = .ok { status := .unspent, value := o.value }) ∧
      ∀ c ∈ ingested cfg bs, ∀ t ∈ c.txs, op ∈ t.inputs →
        (b.height.toNat - c.height.toNat + 1 ≤
            policy.reorgHorizon.toNat + policy.recencyWindow.toNat →
          ans = .ok { status := .spent, spentBy := t.txID, spentHeight := c.height }) ∧
        (policy.reorgHorizon.toNat + policy.recencyWindow.toNat <
            b.height.toNat - c.height.toNat + 1 →
          ans = .ok { status := .notInWindow })) ∧
    (op.txID ∉ txs.map Tx.txID → ans = .ok { status := .unknown }) := by
  intro txs ans
  obtain ⟨hcreated, hunknown⟩ := utxo_answer cfg hk policy hr hd bs b hlast hinc hv op
  refine ⟨fun tx htx hid o ho => hcreated tx htx o ?_, hunknown⟩
  have hop : op = ⟨tx.txID, op.vout⟩ := by rw [← hid]
  rw [hop, output?_eq_getElem? (houts tx htx)]
  exact ho

/-- A transaction with one output and a transaction that spends it. -/
def coinTx : Tx := ⟨.fill 32 1, [], [⟨5000, default⟩]⟩
@[inherit_doc coinTx]
def spendTx : Tx := ⟨.fill 32 2, [⟨.fill 32 1, 0⟩], []⟩

theorem utxo_eq_ledger_spendTx :
    ((Api.utxo ⟨.fill 32 1, 0⟩).run.run
      (feed (fresh {} { reorgHorizon := 2 })
        [sealBlock 1 [[coinTx]], sealBlock 3 [[spendTx]]]).2).1 =
      .ok { status := .spent, spentBy := .fill 32 2, spentHeight := 3 } := by
  have hing : ingested {} [sealBlock 1 [[coinTx]], sealBlock 3 [[spendTx]]] =
      [sealBlock 1 [[coinTx]], sealBlock 3 [[spendTx]]] := by
    simp [ingested, validateBlock_sealBlock]
  have htxs : [sealBlock 1 [[coinTx]], sealBlock 3 [[spendTx]]].flatMap Block.txs =
    [coinTx, spendTx] := rfl
  have h := utxo_eq_ledger {} rfl { reorgHorizon := 2 } rfl (by decide)
    [sealBlock 1 [[coinTx]], sealBlock 3 [[spendTx]]] (sealBlock 3 [[spendTx]]) (by rw [hing]; rfl)
    (by rw [hing]; simp [sealBlock]) (by rw [hing, htxs]; decide) (by rw [hing, htxs]; decide)
    ⟨.fill 32 1, 0⟩
  rw [hing, htxs] at h
  refine ((h.1 coinTx (by simp) rfl ⟨5000, default⟩ rfl).2 (sealBlock 3 [[spendTx]])
    (by simp) spendTx ?_ ?_).1 ?_
  · exact List.mem_singleton_self spendTx
  · exact List.mem_singleton_self _
  · simp [sealBlock]

/-- A transaction of `n` outputs of value 1 and a last one of value 2. -/
def crowdedTx (n : ℕ) : Tx := ⟨.fill 32 1, [], List.replicate n ⟨1, default⟩ ++ [⟨2, default⟩]⟩

lemma output?_crowdedTx {n : ℕ} (hn : UInt32.ofNat n = 0) :
    (crowdedTx n).output? ⟨.fill 32 1, 0⟩ = some ⟨2, default⟩ := by
  have hlast : outpoint (crowdedTx n) n = ⟨.fill 32 1, 0⟩ := by rw [outpoint, hn]; rfl
  rw [Tx.output?,
    show (crowdedTx n).outputs = List.replicate n ⟨1, default⟩ ++ [⟨2, default⟩] from rfl,
    List.zipIdx_append, List.reverse_append, List.length_replicate, Nat.zero_add]
  simp [hlast]

lemma validTxs_crowdedTx (n : ℕ) : ValidTxs [crowdedTx n] where
  distinct := List.nodup_singleton _
  inputs i hi op hop := by
    obtain rfl : i = 0 := by simpa using hi
    exact absurd hop List.not_mem_nil
  spentOnce op hop := absurd hop List.not_mem_nil

/-- **An output is answered with the value of another** where a transaction has `2 ^ 32 + 1`
outputs: it is valid and unspent, its output 0 has value 1, and the answer for output 0 is the value
2 of the last. -/
theorem utxo_wrong_crowded :
    ingested {} [sealBlock 1 [[crowdedTx (2 ^ 32)]]] = [sealBlock 1 [[crowdedTx (2 ^ 32)]]] ∧
    (sealBlock 1 [[crowdedTx (2 ^ 32)]]).txs = [crowdedTx (2 ^ 32)] ∧
    ValidTxs [crowdedTx (2 ^ 32)] ∧ (crowdedTx (2 ^ 32)).inputs = [] ∧
    (crowdedTx (2 ^ 32)).txID = .fill 32 1 ∧
    (crowdedTx (2 ^ 32)).outputs[0]? = some ⟨1, default⟩ ∧
    ((Api.utxo ⟨.fill 32 1, 0⟩).run.run
      (feed (fresh {} {}) [sealBlock 1 [[crowdedTx (2 ^ 32)]]]).2).1 =
        .ok { status := .unspent, value := 2 } := by
  have hnum : UInt32.ofNat (2 ^ 32) = 0 := by decide
  generalize hN : (2 : ℕ) ^ 32 = N at hnum ⊢
  have hpos : 0 < N := by rw [← hN]; exact Nat.two_pow_pos 32
  have hing : ingested {} [sealBlock 1 [[crowdedTx N]]] = [sealBlock 1 [[crowdedTx N]]] := by
    simp [ingested, validateBlock_sealBlock]
  have htxs : [sealBlock 1 [[crowdedTx N]]].flatMap Block.txs = [crowdedTx N] := rfl
  have h := utxo_answer {} rfl {} rfl (by decide) [sealBlock 1 [[crowdedTx N]]]
    (sealBlock 1 [[crowdedTx N]]) (by rw [hing]; rfl) (by rw [hing]; simp)
    (by rw [hing, htxs]; exact validTxs_crowdedTx N) ⟨.fill 32 1, 0⟩
  rw [hing, htxs] at h
  refine ⟨hing, rfl, validTxs_crowdedTx N, rfl, rfl, ?_, ?_⟩
  · rw [show (crowdedTx N).outputs = List.replicate N ⟨1, default⟩ ++ [⟨2, default⟩] from rfl,
      List.getElem?_append_left (by rwa [List.length_replicate]), List.getElem?_replicate,
      if_pos hpos]
  · refine (h.1 (crowdedTx N) (List.mem_singleton_self _) _ (output?_crowdedTx hnum)).1
      fun t ht => ?_
    rw [List.mem_singleton.mp ht]
    exact List.not_mem_nil

end MemServe
