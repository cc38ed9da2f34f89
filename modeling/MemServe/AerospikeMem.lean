import MemServe.Aerospike
import MemServe.HeightIndex
import MemServe.UtxoMap

/-!
The adapter against the in-memory store.

Both answer alike until a prune meets an entry of a secondary index that no longer stands for
its record. The in-memory store checks an outpoint against its record before it deletes it, and
lists a transaction at its height when it is stored for the first time; the adapter deletes
whatever its list names, and lists a transaction each time it is stored as mined.
-/

namespace MemServe.Aerospike

lemma uint32_ofInt_toNat (v : UInt32) : UInt32.ofInt (v.toNat : ℤ) = v := by
  have h : ((v.toNat : ℤ) % 2 ^ 32).toNat = v.toNat := by
    have := v.toNat_lt
    omega
  rw [UInt32.ofInt, h, UInt32.ofNat_toNat]

lemma uint64_ofInt_intOfUInt64 (v : UInt64) : UInt64.ofInt (intOfUInt64 v) = v := by
  have hv := v.toNat_lt
  have h : (intOfUInt64 v % 2 ^ 64).toNat = v.toNat := by
    have hmod : intOfUInt64 v % 2 ^ 64 = (v.toNat : ℤ) % 2 ^ 64 := by
      rw [intOfUInt64, BitVec.toInt_eq_toNat_bmod]
      exact Int.bmod_emod
    rw [hmod]
    omega
  rw [UInt64.ofInt, h, UInt64.ofNat_toNat]

lemma unpackHashes_packHashes (hs : List Hash) : unpackHashes (packHashes hs) = hs := by
  have hlen : (packHashes hs).length = hs.length * 32 := by
    induction hs with
    | nil => rfl
    | cons h hs ih =>
      rw [packHashes, List.flatMap_cons, List.length_append, ByteArr.length_val, List.length_cons]
      rw [packHashes] at ih
      omega
  rw [unpackHashes, hlen, Nat.mul_div_cancel _ (by omega)]
  clear hlen
  induction hs with
  | nil => rfl
  | cons h hs ih =>
    rw [List.length_cons, List.range_succ_eq_map, List.map_cons, List.map_map, packHashes,
      List.flatMap_cons, Nat.zero_mul, List.drop_zero, ByteArr.copy_append]
    refine congrArg _ (Eq.trans (List.map_congr_left fun i _ => ?_) ih)
    have hdrop : (i + 1) * 32 = h.1.length + i * 32 := by
      rw [ByteArr.length_val]
      omega
    simp only [Function.comp, Nat.succ_eq_add_one, hdrop, List.drop_append, List.drop_eq_nil_of_le,
      Nat.le_add_right, List.nil_append, Nat.add_sub_cancel_left]
    rfl

lemma u32_inj {a b : UInt32} (h : u32 a = u32 b) : a = b := beBytes_uint32_inj h

lemma outpointKey_inj {a b : Outpoint} (h : outpointKey a = outpointKey b) : a = b := by
  obtain ⟨h1, h2⟩ := List.append_inj h (by simp)
  cases a
  cases b
  cases ByteArr.ext h1
  cases beBytes_uint32_inj h2
  rfl

lemma flag_eq (b : Bool) : ((if b then 1 else 0 : ℤ) == 1) = b := by cases b <;> rfl

lemma txIndexOf_merge (old : Option Bins) (ix : TxIndex) :
    txIndexOf (Records.merge old (txIndexBins ix)) = ix := by
  change TxIndex.mk ((if ix.mined then 1 else 0 : ℤ) == 1) (.copy 32 ix.blockHash.1)
    (.ofInt ix.height.toNat)
    (.ofInt ix.blockTime.toNat) (.ofInt ix.subtreeIndex.toNat)
      (.ofInt ix.leafIndex.toNat) ix.seenTime = ix
  simp only [flag_eq, uint32_ofInt_toNat, ByteArr.copy_val]

lemma utxoOf_merge (old : Option Bins) (u : UTXO) :
    utxoOf (Records.merge old (utxoBins u)) = u := by
  change UTXO.mk (.ofInt (intOfUInt64 u.value)) (.copy 32 u.scriptHash.1)
    ((if u.spent then 1 else 0 : ℤ) == 1)
    (.copy 32 u.spentBy.1) (.ofInt u.spentHeight.toNat) = u
  simp only [flag_eq, uint64_ofInt_intOfUInt64, uint32_ofInt_toNat, ByteArr.copy_val]

lemma blockOf_merge (old : Option Bins) (b : BlockRec) :
    blockOf b.hash (Records.merge old (blockBins b)) = b := by
  change BlockRec.mk b.hash (.ofInt b.height.toNat) (.ofInt b.time.toNat) (.copy 32 b.merkleRoot.1)
    (unpackHashes (packHashes b.subtreeRoots)) (.copy 80 b.header.1) = b
  simp only [unpackHashes_packHashes, uint32_ofInt_toNat, ByteArr.copy_val]

namespace Records

variable (m : Records)

lemma write_of_ne {s set : SetName} (h : s ≠ set) (key : Bytes) (r : Option Bins) :
    (m.write set key r) s = m s :=
  if_neg h

lemma write_self (set : SetName) (key : Bytes) (r : Option Bins) :
    (m.write set key r) set = Function.update (m set) key r := if_pos rfl

lemma write_absent {set : SetName} {key : Bytes} (h : m set key = none) :
    m.write set key none = m := by
  funext s
  by_cases hs : s = set
  · rw [hs, write_self, ← h, Function.update_eq_self]
  · rw [write_of_ne m hs]

/-- The records without those of these keys. -/
def drop (set : SetName) (ks : List Bytes) : Records :=
  fun s => if s = set then fun k => if k ∈ ks then none else m s k else m s

lemma drop_of_ne {s set : SetName} (h : s ≠ set) (ks : List Bytes) :
    (m.drop set ks) s = m s := if_neg h

lemma drop_self (set : SetName) (ks : List Bytes) (k : Bytes) :
    (m.drop set ks) set k = if k ∈ ks then none else m set k := by
  simp [drop]

@[simp] lemma drop_nil (set : SetName) : m.drop set [] = m := by
  funext s k
  simp [drop]

lemma drop_write (set : SetName) (k : Bytes) (ks : List Bytes) :
    drop (m.write set k none) set ks = m.drop set (k :: ks) := by
  funext s j
  by_cases hs : s = set
  · subst hs
    by_cases hj : j = k <;> simp [drop, write, hj]
  · simp [drop, write, hs]

/-- The keys of the list whose record is there. -/
def present (set : SetName) (ks : List Bytes) : Finset Bytes :=
  ks.toFinset.filter fun k => (m set k).isSome = true

lemma present_drop {set set' : SetName} (h : set ≠ set') (ks l : List Bytes) :
    (m.drop set' ks).present set l = m.present set l := by
  rw [present, drop_of_ne m h, present]

end Records

lemma run_del (set : SetName) (key : Bytes) (m : Records) :
    ((del set key : StoreM Records ℕ).run.run m : _ × Records) =
      (.ok (if (m set key).isSome then 1 else 0), m.write set key none) := rfl

lemma run_delEach (set : SetName) (ks : List Bytes) (n : ℕ) (m : Records) :
    ((delEach set ks n : StoreM Records ℕ).run.run m : _ × Records) =
      (.ok (n + (m.present set ks).card), m.drop set ks) := by
  have hrun : ∀ n m, ((delEach set ks n : StoreM Records ℕ).run.run m : _ × Records) =
      (.ok
        (Trace.tally (fun m k => (if (m set k).isSome then 1 else 0, m.write set k none))
          ks (n, m)).1,
        m.drop set ks) := by
    induction ks with
    | nil => intro n m; simp [delEach]; rfl
    | cons k ks ih =>
      intro n m
      rw [delEach, Trace.run_bind_ok (run_del set k m), ih, Trace.tally_cons, Records.drop_write]
  rw [hrun, Trace.tally_deletes (p := fun m k => (m set k).isSome) (fun _ _ => rfl)]
  · rfl
  · intro m k j
    dsimp only
    rw [Records.write_self, Function.update_apply]
    split_ifs with h <;> simp [h]

/-! ### What the two stores have in common -/

section Keyed

variable {K V : Type} [DecidableEq K] {key : K → Bytes} {d : K → Bins → V} {r : Bytes → Option Bins}
  {g : K → Option V}

lemma map_update (hkey : Function.Injective key) (h : ∀ k, (r (key k)).map (d k) = g k) (a k : K)
    (x : Option Bins) :
    (Function.update r (key a) x (key k)).map (d k) = Function.update g a (x.map (d a)) k := by
  rw [Function.update_apply, Function.update_apply]
  by_cases hk : k = a
  · rw [if_pos (congrArg key hk), if_pos hk, hk]
  · rw [if_neg fun e => hk (hkey e), if_neg hk, h]

lemma map_drop (hkey : Function.Injective key) (h : ∀ k, (r (key k)).map (d k) = g k) (l : List K)
    (k : K) :
    (if key k ∈ l.map key then none else r (key k)).map (d k) = if k ∈ l then none else g k := by
  by_cases hk : k ∈ l
  · rw [if_pos (List.mem_map_of_mem hk), if_pos hk]
    rfl
  · rw [if_neg fun e => hk ((List.mem_map_of_injective hkey).mp e), if_neg hk, h]

/-- The keys of a list whose record is there, counted by what they stand for. -/
lemma card_present {m : Records} {set : SetName} (hkey : Function.Injective key)
    (h : ∀ k, (m set (key k)).map (d k) = g k) (l : List K) :
    (m.present set (l.map key)).card = (l.toFinset.filter fun k => (g k).isSome = true).card := by
  rw [← Finset.card_image_of_injective _ hkey]
  congr 1
  ext k
  simp only [Records.present, Finset.mem_filter, Finset.mem_image, List.mem_toFinset, List.mem_map]
  constructor
  · rintro ⟨⟨a, ha, rfl⟩, hsome⟩
    refine ⟨a, ⟨ha, ?_⟩, rfl⟩
    rwa [← h, Option.isSome_map]
  · rintro ⟨a, ⟨ha, hsome⟩, rfl⟩
    refine ⟨⟨a, ha, rfl⟩, ?_⟩
    rwa [← h, Option.isSome_map] at hsome

end Keyed

lemma hash_val_injective : Function.Injective (fun t : Hash => t.1) := fun _ _ => ByteArr.ext

/-- The outpoints that the cluster lists as spent at a height, and the transactions it lists
there. -/
structure Lists where
  ops : UInt32 → List Outpoint
  txids : UInt32 → List Hash

/-- The cluster holds the records of the flat store. Its lists hold at least the outpoints spent at
each height and the transactions that the flat store lists there. -/
structure Agrees (f : Flat) (m : Records) (l : Lists) : Prop where
  txindex : ∀ t : Hash, (m .txIndex t.1).map txIndexOf = f.txindex t
  utxo : ∀ op, (m .utxo (outpointKey op)).map utxoOf = f.utxo op
  subtree : ∀ r : Hash, ((m .subtree r.1).map fun b => unpackHashes (toBytes (b .leaves))) =
    f.subtree r
  blocks : ∀ x : Hash, (m .block x.1).map (blockOf x) = f.blocks x
  hdr : ∀ h, ((m .header (u32 h)).map fun b => ByteArr.copy 80 (toBytes (b .hdr))) = f.hdr h
  ops : ∀ h, m.listAt .spentIdx (u32 h) .ops = (l.ops h).map outpointKey
  spent : ∀ op u, f.utxo op = some u → u.spent = true → op ∈ l.ops u.spentHeight
  blk : ∀ h, toBytes ((m .heightIdx (u32 h)).bind (· .blk)) = if (f.entry h).hasBlock then
    (f.entry h).block.1 else []
  subs : ∀ h, unpackHashes (toBytes ((m .heightIdx (u32 h)).bind (· .subs))) = (f.entry h).subtrees
  txids : ∀ h, m.listAt .heightIdx (u32 h) .txids = (l.txids h).map (·.1)
  listed : ∀ h, (f.entry h).txids ⊆ l.txids h

lemma agrees_empty : Agrees .empty .empty ⟨fun _ => [], fun _ => []⟩ where
  txindex _ := rfl
  utxo _ := rfl
  subtree _ := rfl
  blocks _ := rfl
  hdr _ := rfl
  ops _ := rfl
  spent _ _ h := by simp [Flat.empty] at h
  blk _ := rfl
  subs _ := unpackHashes_packHashes []
  txids _ := rfl
  listed _ := List.Subset.refl _

namespace Records

variable (m : Records)

lemma listAt_putList (set : SetName) (key k : Bytes) (bin : Bin) (l : List Bytes) :
    (m.putList set key bin l).listAt set k bin = if k = key then l else m.listAt set k bin := by
  rw [listAt, listAt, putList, put, write_self, Function.update_apply]
  split_ifs with h
  · simp [merge, binMap, toList]
  · rfl

lemma bin_putList_of_ne (set : SetName) (key k : Bytes) {bin b : Bin} (hb : b ≠ bin)
    (l : List Bytes) :
    ((m.putList set key bin l) set k).bind (· b) = (m set k).bind (· b) := by
  rw [putList, put, write_self, Function.update_apply]
  split_ifs with h
  · have hb' : (b == bin) = false := by simpa using hb
    simp [merge, binMap, List.lookup_cons, hb', h]
  · rfl

/-- The list operation that removes all equal values. -/
def remove (set : SetName) (key : Bytes) (bin : Bin) (v : Bytes) : Records :=
  if (m set key).isSome then m.putList set key bin ((m.listAt set key bin).filter (· ≠ v)) else m

lemma remove_of_ne {s set : SetName} (h : s ≠ set) (key : Bytes) (bin : Bin) (v : Bytes) :
    (m.remove set key bin v) s = m s := by
  unfold remove
  split_ifs
  · exact write_of_ne m h key _
  · rfl

lemma listAt_remove (set : SetName) (key k : Bytes) (bin : Bin) (v : Bytes) :
    (m.remove set key bin v).listAt set k bin =
      if k = key then (m.listAt set key bin).filter (· ≠ v) else m.listAt set k bin := by
  unfold remove
  split_ifs with hsome hk hk
  · rw [listAt_putList, if_pos hk]
  · rw [listAt_putList, if_neg hk]
  · -- an absent record has no list
    have hnone : m set key = none := by simpa using hsome
    rw [hk, listAt, hnone]
    rfl
  · rfl

end Records

section Steps

variable {f : Flat} {m : Records} {l : Lists}

lemma Agrees.setUTXO (ha : Agrees f m l) {m' : Records} {ops : UInt32 → List Outpoint}
    {op : Outpoint} {v : Option UTXO} (hrest : ∀ s, s ≠ .utxo → s ≠ .spentIdx → m' s = m s)
    (hget : ∀ op', (m' .utxo (outpointKey op')).map utxoOf = Function.update f.utxo op v op')
    (hops : ∀ h, m'.listAt .spentIdx (u32 h) .ops = (ops h).map outpointKey)
    (hkeep : ∀ op' h, op' ≠ op → op' ∈ l.ops h → op' ∈ ops h)
    (hself : ∀ u, v = some u → u.spent = true → op ∈ ops u.spentHeight) :
    Agrees { f with utxo := Function.update f.utxo op v } m' { l with ops := ops } where
  txindex := by rw [hrest .txIndex (by simp) (by simp)]; exact ha.txindex
  utxo := hget
  subtree := by rw [hrest .subtree (by simp) (by simp)]; exact ha.subtree
  blocks := by rw [hrest .block (by simp) (by simp)]; exact ha.blocks
  hdr := by rw [hrest .header (by simp) (by simp)]; exact ha.hdr
  ops := hops
  spent := by
    intro op' u hu hsp
    dsimp only at hu
    rw [Function.update_apply] at hu
    split_ifs at hu with h
    · subst h
      exact hself u hu hsp
    · exact hkeep op' _ h (ha.spent op' u hu hsp)
  blk := by rw [hrest .heightIdx (by simp) (by simp)]; exact ha.blk
  subs := by rw [hrest .heightIdx (by simp) (by simp)]; exact ha.subs
  txids := by
    have := ha.txids
    unfold Records.listAt at this ⊢
    rw [hrest .heightIdx (by simp) (by simp)]
    exact this
  listed := ha.listed

lemma Agrees.utxo_write (ha : Agrees f m l) (op op' : Outpoint) (r : Option Bins) :
    (Function.update (m .utxo) (outpointKey op) r (outpointKey op')).map utxoOf =
      Function.update f.utxo op (r.map utxoOf) op' :=
  map_update (d := fun _ => utxoOf) (fun _ _ => outpointKey_inj) ha.utxo op op' r

lemma Agrees.ops_append (hops : ∀ h, m.listAt .spentIdx (u32 h) .ops = (l.ops h).map outpointKey)
    (op : Outpoint) (h a : UInt32) :
    (m.putList .spentIdx (u32 h) .ops (m.listAt .spentIdx (u32 h) .ops ++ [outpointKey op])).listAt
      .spentIdx (u32 a) .ops =
      (Function.update l.ops h (l.ops h ++ [op]) a).map outpointKey := by
  rw [Records.listAt_putList, Function.update_apply]
  by_cases ha : a = h
  · rw [if_pos (congrArg u32 ha), if_pos ha, hops, List.map_append]
    rfl
  · rw [if_neg fun e => ha (u32_inj e), if_neg ha, hops]

lemma Agrees.putUTXO (ha : Agrees f m l) (op : Outpoint) (u : UTXO) :
    ∃ m' l', ((Aerospike.putUTXO op u : StoreM Records Unit).run.run m : _ × Records) =
      (.ok (), m') ∧
      Agrees { f with utxo := Function.update f.utxo op (some u) } m' l' := by
  have hget : ∀ op',
      (Function.update (m .utxo) (outpointKey op)
        (some (Records.merge (m .utxo (outpointKey op)) (utxoBins u)))
      (outpointKey op')).map utxoOf = Function.update f.utxo op (some u) op' := by
    intro op'
    rw [ha.utxo_write, Option.map_some, utxoOf_merge]
  cases hsp : u.spent with
  | false =>
    refine ⟨m.put .utxo (outpointKey op) (utxoBins u), { l with ops := l.ops }, ?_, ?_⟩
    · unfold Aerospike.putUTXO
      rw [hsp]
      rfl
    · refine ha.setUTXO (fun s hs _ => Records.write_of_ne m hs _ _) ?_ ha.ops (fun _ _ _ => id)
        fun v hv => ?_
      · rw [Records.put, Records.write_self]
        exact hget
      · obtain rfl := Option.some.inj hv
        simp [hsp]
  | true =>
    let m1 := m.put .utxo (outpointKey op) (utxoBins u)
    refine ⟨m1.putList .spentIdx (u32 u.spentHeight) .ops
      (m1.listAt .spentIdx (u32 u.spentHeight) .ops ++ [outpointKey op]),
      { l with ops := Function.update l.ops u.spentHeight (l.ops u.spentHeight ++ [op]) }, ?_, ?_⟩
    · unfold Aerospike.putUTXO
      rw [hsp]
      rfl
    · refine ha.setUTXO (fun s hs hs' => ?_) ?_ (Agrees.ops_append ha.ops op u.spentHeight)
        (fun op' h hne hmem => ?_)
        fun v hv _ => ?_
      · exact (Records.write_of_ne m1 hs' _ _).trans (Records.write_of_ne m hs _ _)
      · exact hget
      · rw [Function.update_apply]
        split_ifs with he
        · exact List.mem_append_left _ (he ▸ hmem)
        · exact hmem
      · obtain rfl := Option.some.inj hv
        rw [Function.update_self]
        exact List.mem_append_right _ (List.mem_singleton_self op)

lemma Agrees.getUTXO (ha : Agrees f m l) (op : Outpoint) :
    ((Aerospike.getUTXO op : StoreM Records (Option UTXO)).run.run m : _ × Records) =
      (.ok (f.utxo op), m) := by
  rw [← ha.utxo]
  rfl

lemma Agrees.spendUTXO (ha : Agrees f m l) (op : Outpoint) (spentBy : Hash) (h : UInt32) :
    ∃ m' l', ((Aerospike.spendUTXO op spentBy h : StoreM Records Bool).run.run m : _ × Records) =
        (.ok (f.utxo op).isSome, m') ∧ Agrees (f.apply (.spendUTXO op spentBy h)) m' l' := by
  unfold Aerospike.spendUTXO
  rw [Trace.run_bind_ok (ha.getUTXO op)]
  cases hu : f.utxo op with
  | none =>
    refine ⟨m, l, rfl, ?_⟩
    rwa [Flat.apply_spendUTXO, hu, Option.map_none, ← hu, Function.update_eq_self]
  | some u =>
    obtain ⟨m', l', hrun, ha'⟩ := ha.putUTXO op (u.spend spentBy h)
    refine ⟨m', l', Trace.run_bind_ok hrun, ?_⟩
    rwa [Flat.apply_spendUTXO, hu]

lemma Agrees.freed (ha : Agrees f m l) (op : Outpoint) (h : UInt32) :
    ∃ ops : UInt32 → List Outpoint,
      (∀ a, (m.remove .spentIdx (u32 h) .ops (outpointKey op)).listAt .spentIdx (u32 a) .ops =
        (ops a).map outpointKey) ∧
      ∀ op' a, op' ≠ op → op' ∈ l.ops a → op' ∈ ops a := by
  refine ⟨Function.update l.ops h ((l.ops h).filter (· ≠ op)),
    fun a => ?_, fun op' a hne hmem => ?_⟩
  · rw [Records.listAt_remove, Function.update_apply]
    by_cases hah : a = h
    · have hkey : ((fun k => decide (k ≠ outpointKey op)) ∘ outpointKey) = fun op' =>
          decide (op' ≠ op) := by
        funext op'
        simp only [Function.comp, ne_eq, decide_not, Bool.not_inj_iff, decide_eq_decide]
        exact ⟨outpointKey_inj, congrArg outpointKey⟩
      rw [if_pos (congrArg u32 hah), if_pos hah, ha.ops, List.filter_map, hkey]
    · rw [if_neg fun e => hah (u32_inj e), if_neg hah, ha.ops]
  · rw [Function.update_apply]
    split_ifs with hah
    · exact List.mem_filter.mpr ⟨hah ▸ hmem, by simpa using hne⟩
    · exact hmem

lemma Agrees.deindexed (ha : Agrees f m l) (op : Outpoint) (u : UTXO) :
    ∃ m1 : Records, ∃ ops : UInt32 → List Outpoint,
      ((if u.spent then ignore (deindexSpent op u.spentHeight)
        else pure () : StoreM Records Unit).run.run m : _ × Records) =
        (.ok (), m1) ∧
      (∀ s, s ≠ .spentIdx → m1 s = m s) ∧
        (∀ a, m1.listAt .spentIdx (u32 a) .ops = (ops a).map outpointKey) ∧
      ∀ op' a, op' ≠ op → op' ∈ l.ops a → op' ∈ ops a := by
  cases u.spent with
  | false => exact ⟨m, l.ops, rfl, fun _ _ => rfl, ha.ops, fun _ _ _ => id⟩
  | true =>
    obtain ⟨ops, hops, hkeep⟩ := ha.freed op u.spentHeight
    exact ⟨m.remove .spentIdx (u32 u.spentHeight) .ops (outpointKey op), ops, rfl,
      fun s hs => Records.remove_of_ne m hs _ _ _, hops, hkeep⟩

lemma Agrees.unspendUTXO (ha : Agrees f m l) (op : Outpoint) :
    ∃ m' l', ((Aerospike.unspendUTXO op : StoreM Records Bool).run.run m : _ × Records) =
        (.ok (f.utxo op).isSome, m') ∧ Agrees (f.apply (.unspendUTXO op)) m' l' := by
  unfold Aerospike.unspendUTXO
  rw [Trace.run_bind_ok (ha.getUTXO op)]
  cases hu : f.utxo op with
  | none =>
    refine ⟨m, l, rfl, ?_⟩
    rwa [Flat.apply_unspendUTXO, hu, Option.map_none, ← hu, Function.update_eq_self]
  | some u =>
    obtain ⟨m1, ops, hrun, hrest, hops, hkeep⟩ := ha.deindexed op u
    refine ⟨m1.put .utxo (outpointKey op) (utxoBins u.unspend), { l with ops := ops }, ?_, ?_⟩
    · cases hsp : u.spent
      all_goals
        rw [hsp] at hrun
        obtain rfl := congrArg Prod.snd hrun
        simp only [hsp]
        rfl
    · rw [Flat.apply_unspendUTXO, hu]
      refine ha.setUTXO (fun s hs hs' => (Records.write_of_ne m1 hs _ _).trans (hrest s hs')) ?_
        hops hkeep ?_
      · intro op'
        rw [Records.put, Records.write_self, hrest .utxo (by simp), ha.utxo_write, Option.map_some,
          utxoOf_merge]
        rfl
      · intro v hv hsp
        obtain rfl := Option.some.inj hv
        simp [UTXO.unspend] at hsp

lemma Agrees.deleteUTXO (ha : Agrees f m l) (op : Outpoint) :
    ∃ m' l', ((Aerospike.deleteUTXO op : StoreM Records Bool).run.run m : _ × Records) =
        (.ok (f.utxo op).isSome, m') ∧ Agrees (f.apply (.deleteUTXO op)) m' l' := by
  have hfound : ∀ m1 : Records, m1 .utxo = m .utxo → (m1 .utxo (outpointKey op)).isSome =
      (f.utxo op).isSome := by
    intro m1 h1
    rw [h1, ← ha.utxo, Option.isSome_map]
  have hset : ∀ (m1 : Records) (ops : UInt32 → List Outpoint), (∀ s, s ≠ .spentIdx → m1 s = m s) →
      (∀ a, m1.listAt .spentIdx (u32 a) .ops = (ops a).map outpointKey) →
      (∀ op' a, op' ≠ op → op' ∈ l.ops a → op' ∈ ops a) →
      Agrees (f.apply (.deleteUTXO op)) (m1.write .utxo (outpointKey op) none)
          { l with ops := ops } := by
    intro m1 ops hrest hops hkeep
    rw [Flat.apply_deleteUTXO]
    refine ha.setUTXO (fun s hs hs' => (Records.write_of_ne m1 hs _ _).trans (hrest s hs'))
      (fun op' => ?_) hops hkeep nofun
    rw [Records.write_self, hrest .utxo (by simp), ha.utxo_write, Option.map_none]
  unfold Aerospike.deleteUTXO
  rw [Trace.run_bind_ok (ha.getUTXO op)]
  cases hu : f.utxo op with
  | none =>
    rw [hu] at hfound
    refine ⟨m.write .utxo (outpointKey op) none, l, ?_,
      hset m l.ops (fun _ _ => rfl) ha.ops fun _ _ _ => id⟩
    rw [← hfound m rfl]
    rfl
  | some u =>
    rw [hu] at hfound
    obtain ⟨m1, ops, hrun, hrest, hops, hkeep⟩ := ha.deindexed op u
    refine ⟨m1.write .utxo (outpointKey op) none, { l with ops := ops }, ?_,
      hset m1 ops hrest hops hkeep⟩
    rw [← hfound m1 (hrest .utxo (by simp))]
    cases hsp : u.spent
    all_goals
      rw [hsp] at hrun
      obtain rfl := congrArg Prod.snd hrun
      simp only [hsp]
      rfl

lemma Agrees.setIndex (ha : Agrees f m l) {f' : Flat} {m' : Records} {txids' : UInt32 → List Hash}
    (hf : f'.utxo = f.utxo) (hutxo : m' .utxo = m .utxo) (hspent : m' .spentIdx = m .spentIdx)
    (txindex : ∀ t : Hash, (m' .txIndex t.1).map txIndexOf = f'.txindex t)
    (subtree : ∀ r : Hash, ((m' .subtree r.1).map fun b => unpackHashes (toBytes (b .leaves))) =
      f'.subtree r)
    (blocks : ∀ x : Hash, (m' .block x.1).map (blockOf x) = f'.blocks x)
    (hdr : ∀ h, ((m' .header (u32 h)).map fun b => ByteArr.copy 80 (toBytes (b .hdr))) = f'.hdr h)
    (blk : ∀ h, toBytes ((m' .heightIdx (u32 h)).bind (· .blk)) =
      if (f'.entry h).hasBlock then (f'.entry h).block.1 else [])
    (subs : ∀ h, unpackHashes (toBytes ((m' .heightIdx (u32 h)).bind (· .subs))) =
      (f'.entry h).subtrees)
    (txids : ∀ h, m'.listAt .heightIdx (u32 h) .txids = (txids' h).map (·.1))
    (listed : ∀ h, (f'.entry h).txids ⊆ txids' h) : Agrees f' m' { l with txids := txids' } where
  txindex := txindex
  utxo := by rw [hf, hutxo]; exact ha.utxo
  subtree := subtree
  blocks := blocks
  hdr := hdr
  ops := by
    have := ha.ops
    unfold Records.listAt at this ⊢
    rw [hspent]
    exact this
  spent := by rw [hf]; exact ha.spent
  blk := blk
  subs := subs
  txids := txids
  listed := listed

lemma Agrees.txIndex_write (ha : Agrees f m l) (t t' : Hash) (r : Option Bins) :
    (Function.update (m .txIndex) t.1 r t'.1).map txIndexOf =
      Function.update f.txindex t (r.map txIndexOf) t' :=
  map_update (d := fun _ => txIndexOf) hash_val_injective ha.txindex t t' r

lemma Agrees.putTxIndex (ha : Agrees f m l) (t : Hash) (ix : TxIndex) :
    ∃ m' l', ((Aerospike.putTxIndex t ix : StoreM Records Unit).run.run m : _ × Records) =
      (.ok (), m') ∧
      Agrees (f.apply (.putTxIndex t ix)) m' l' := by
  have hget : ∀ t',
      (Function.update (m .txIndex) t.1
        (some (Records.merge (m .txIndex t.1) (txIndexBins ix))) t'.1).map txIndexOf =
      Function.update f.txindex t (some ix) t' := by
    intro t'
    rw [ha.txIndex_write, Option.map_some, txIndexOf_merge]
  have hblock : ∀ h, ((f.apply (.putTxIndex t ix)).entry h).hasBlock = (f.entry h).hasBlock ∧
      ((f.apply (.putTxIndex t ix)).entry h).block = (f.entry h).block ∧
      ((f.apply (.putTxIndex t ix)).entry h).subtrees = (f.entry h).subtrees := by
    intro h
    rw [Flat.entry_putTxIndex]
    split_ifs
    · exact ⟨rfl, rfl, rfl⟩
    · exact ⟨rfl, rfl, rfl⟩
  let m1 := m.put .txIndex t.1 (txIndexBins ix)
  cases hmined : ix.mined with
  | false =>
    refine ⟨m1, { l with txids := l.txids }, ?_, ?_⟩
    · unfold Aerospike.putTxIndex
      rw [hmined]
      rfl
    · refine ha.setIndex rfl rfl rfl hget ha.subtree ha.blocks ha.hdr (fun h => ?_)
        (fun h => ?_) ha.txids fun h => ?_
      · rw [(hblock h).1, (hblock h).2.1]
        exact ha.blk h
      · rw [(hblock h).2.2]
        exact ha.subs h
      · rw [Flat.entry_putTxIndex, if_neg (by simp [hmined])]
        exact ha.listed h
  | true =>
    refine ⟨m1.putList .heightIdx (u32 ix.height) .txids
      (m1.listAt .heightIdx (u32 ix.height) .txids ++ [t.1]),
      { l with txids := Function.update l.txids ix.height (l.txids ix.height ++ [t]) }, ?_, ?_⟩
    · unfold Aerospike.putTxIndex
      rw [hmined]
      rfl
    · refine ha.setIndex rfl rfl rfl hget ha.subtree ha.blocks ha.hdr (fun h => ?_) (fun h => ?_)
        (fun h => ?_) fun h => ?_
      · rw [(hblock h).1, (hblock h).2.1, Records.bin_putList_of_ne m1 _ _ _ (by simp)]
        exact ha.blk h
      · rw [(hblock h).2.2, Records.bin_putList_of_ne m1 _ _ _ (by simp)]
        exact ha.subs h
      · have hlist : ∀ a, m1.listAt .heightIdx (u32 a) .txids = (l.txids a).map (·.1) := ha.txids
        rw [Records.listAt_putList, Function.update_apply]
        by_cases hh : h = ix.height
        · rw [if_pos (congrArg u32 hh), if_pos hh, hlist, List.map_append]
          rfl
        · rw [if_neg fun e => hh (u32_inj e), if_neg hh, hlist]
      · rw [Flat.entry_putTxIndex, Function.update_apply]
        by_cases hh : h = ix.height
        · subst hh
          rw [if_pos rfl]
          split_ifs
          · exact List.append_subset.mpr ⟨List.subset_append_of_subset_left _ (ha.listed _),
              List.subset_append_right _ _⟩
          · exact List.subset_append_of_subset_left _ (ha.listed _)
        · rw [if_neg fun e => hh e.1, if_neg hh]
          exact ha.listed h

lemma Agrees.deleteTxIndex (ha : Agrees f m l) (t : Hash) :
    ∃ m', ((Aerospike.deleteTxIndex t : StoreM Records Bool).run.run m : _ × Records) =
      (.ok (f.txindex t).isSome, m') ∧
      Agrees (f.apply (.deleteTxIndex t)) m' l := by
  refine ⟨m.write .txIndex t.1 none, ?_, ?_⟩
  · rw [← ha.txindex, Option.isSome_map]
    rfl
  · exact ha.setIndex rfl rfl rfl (fun t' => ha.txIndex_write t t' none) ha.subtree ha.blocks ha.hdr
      ha.blk ha.subs
      ha.txids ha.listed

lemma Agrees.putSubtree (ha : Agrees f m l) (root : Hash) (leaves : List Hash) :
    ∃ m', ((Aerospike.putSubtree root leaves : StoreM Records Unit).run.run m : _ × Records) =
      (.ok (), m') ∧
      Agrees (f.apply (.putSubtree root leaves)) m' l := by
  refine ⟨m.put .subtree root.1 (binMap [(.leaves, .bytes (packHashes leaves))]), rfl, ?_⟩
  refine ha.setIndex rfl rfl rfl ha.txindex (fun r => ?_) ha.blocks ha.hdr ha.blk ha.subs
    ha.txids ha.listed
  rw [Records.put, Records.write_self,
    map_update (d := fun _ b => unpackHashes (toBytes (b .leaves))) hash_val_injective ha.subtree,
    Option.map_some]
  change Function.update f.subtree root (some (unpackHashes (packHashes leaves))) r = _
  rw [unpackHashes_packHashes]
  rfl

lemma Agrees.putHeader (ha : Agrees f m l) (height : UInt32) (hdr : Header) :
    ∃ m', ((Aerospike.putHeader height hdr : StoreM Records Unit).run.run m : _ × Records) =
      (.ok (), m') ∧
      Agrees (f.apply (.putHeader height hdr)) m' l := by
  refine ⟨m.put .header (u32 height) (binMap [(.hdr, .bytes hdr.1)]), rfl, ?_⟩
  refine ha.setIndex rfl rfl rfl ha.txindex ha.subtree ha.blocks
    (fun h => ?_) ha.blk ha.subs ha.txids ha.listed
  rw [Records.put, Records.write_self,
    map_update (d := fun _ b => ByteArr.copy 80 (toBytes (b .hdr))) (fun _ _ => u32_inj) ha.hdr,
    Option.map_some]
  change Function.update f.hdr height (some (ByteArr.copy 80 hdr.1)) h = _
  rw [ByteArr.copy_val]
  rfl

lemma Agrees.putBlock (ha : Agrees f m l) (b : BlockRec) :
    ∃ m', ((Aerospike.putBlock b : StoreM Records Unit).run.run m : _ × Records) = (.ok (), m') ∧
      Agrees (f.apply (.putBlock b)) m' l := by
  let m1 := m.put .block b.hash.1 (blockBins b)
  let bins : Bins := binMap [(.blk, .bytes b.hash.1), (.subs, .bytes (packHashes b.subtreeRoots))]
  have hidx : ∀ h, (m1.put .heightIdx (u32 b.height) bins) .heightIdx (u32 h) =
      if h = b.height then some (Records.merge (m .heightIdx (u32 h)) bins)
      else m .heightIdx (u32 h) := by
    intro h
    rw [Records.put, Records.write_self, Function.update_apply]
    by_cases hh : h = b.height
    · rw [if_pos (congrArg u32 hh), if_pos hh, hh]
      rfl
    · rw [if_neg fun e => hh (u32_inj e), if_neg hh]
      rfl
  refine ⟨m1.put .heightIdx (u32 b.height) bins, rfl, ?_⟩
  refine ha.setIndex rfl rfl rfl ha.txindex ha.subtree (fun x => ?_) ha.hdr (fun h => ?_)
    (fun h => ?_) (fun h => ?_)
    fun h => ?_
  · change (Function.update (m .block) b.hash.1
      (some (Records.merge (m .block b.hash.1) (blockBins b))) x.1).map _ = _
    rw [map_update hash_val_injective ha.blocks, Option.map_some, blockOf_merge]
    rfl
  · rw [hidx, Flat.entry_putBlock]
    by_cases hh : h = b.height
    · rw [if_pos hh, if_pos hh]
      rfl
    · rw [if_neg hh, if_neg hh]
      exact ha.blk h
  · rw [hidx, Flat.entry_putBlock]
    split_ifs with hh
    · exact unpackHashes_packHashes b.subtreeRoots
    · exact ha.subs h
  · rw [Records.listAt, hidx]
    split_ifs with hh
    · exact ha.txids h
    · exact ha.txids h
  · rw [Flat.entry_putBlock]
    split_ifs with hh
    · exact ha.listed h
    · exact ha.listed h

/-! ### Prunes -/

lemma run_pruneSpentAtHeight (m : Records) (h : UInt32) :
    ((Aerospike.pruneSpentAtHeight h : StoreM Records ℕ).run.run m : _ × Records) =
      (.ok (m.present .utxo (m.listAt .spentIdx (u32 h) .ops)).card,
        (m.drop .utxo (m.listAt .spentIdx (u32 h) .ops)).write .spentIdx (u32 h) none) := by
  have hget :
      ((Client.get .spentIdx (u32 h) : StoreM Records (Option Bins)).run.run m : _ × Records) =
      (.ok (m .spentIdx (u32 h)), m) := rfl
  unfold Aerospike.pruneSpentAtHeight
  rw [Trace.run_bind_ok hget]
  cases hr : m .spentIdx (u32 h) with
  | none =>
    have hlist : m.listAt .spentIdx (u32 h) .ops = [] := by
      rw [Records.listAt, hr]
      rfl
    rw [hlist, Records.drop_nil, Records.write_absent m hr]
    rfl
  | some r =>
    have hlist : toList (r .ops) = m.listAt .spentIdx (u32 h) .ops := by
      rw [Records.listAt, hr]
      rfl
    dsimp only
    rw [hlist, Trace.run_bind_ok (run_delEach .utxo _ 0 m), Trace.run_bind_ok (run_del _ _ _),
      Nat.zero_add]
    rfl

lemma Agrees.pruneSpentAtHeight (ha : Agrees f m l) (h : UInt32)
    (hfit : ∀ op u, op ∈ l.ops h → f.utxo op = some u → u.spentAt h = true) :
    Agrees (f.apply (.pruneSpentAtHeight h))
      ((m.drop .utxo (m.listAt .spentIdx (u32 h) .ops)).write .spentIdx (u32 h) none)
      { l with ops := Function.update l.ops h [] } where
  txindex := ha.txindex
  utxo op := by
    rw [Records.write_of_ne _ (by simp), Records.drop_self, ha.ops,
      map_drop (d := fun _ => utxoOf) (fun _ _ => outpointKey_inj) ha.utxo, Flat.apply_utxo,
      Call.cell]
    cases hu : f.utxo op with
    | none => simp
    | some u =>
      by_cases hop : op ∈ l.ops h
      · simp [hop, hfit op u hop hu, Option.filter]
      · have hat : u.spentAt h = false := by
          by_contra hat
          simp only [UTXO.spentAt, Bool.not_eq_false, Bool.and_eq_true, beq_iff_eq] at hat
          exact hop (hat.2 ▸ ha.spent op u hu hat.1)
        simp [hop, hat, Option.filter]
  subtree := ha.subtree
  blocks := ha.blocks
  hdr := ha.hdr
  ops a := by
    dsimp only
    rw [Records.listAt, Records.write_self, Function.update_apply, Function.update_apply]
    by_cases hah : a = h
    · rw [if_pos (congrArg u32 hah), if_pos hah]
      rfl
    · rw [if_neg fun e => hah (u32_inj e), if_neg hah]
      exact ha.ops a
  spent op u hu hsp := by
    rw [Flat.apply_utxo, Call.cell] at hu
    obtain ⟨hu, hat⟩ := Option.filter_eq_some_iff.mp hu
    have hne : u.spentHeight ≠ h := by
      intro e
      simp [UTXO.spentAt, hsp, e] at hat
    dsimp only
    rw [Function.update_of_ne hne]
    exact ha.spent op u hu hsp
  blk := ha.blk
  subs := ha.subs
  txids := ha.txids
  listed := ha.listed

/-- The counts of a prune of spends agree exactly where the list names spends of its height only. -/
lemma Agrees.pruneSpent_count_iff {s : Mem.Store} (ha : Agrees s.flatten m l) (hs : s.Indexed)
    (ho : s.Owned) (h : UInt32) :
    (s.pruneSpentAtHeight h).1 = (m.present .utxo (m.listAt .spentIdx (u32 h) .ops)).card ↔
      ∀ op u, op ∈ l.ops h → s.getUTXO op = some u → u.spentAt h = true := by
  have hsub : s.spentKeys h ⊆ (l.ops h).toFinset.filter fun op => (s.getUTXO op).isSome = true := by
    intro op hop
    obtain ⟨u, hu, hat⟩ := (Option.any_eq_true _ _).mp ((Mem.Store.mem_spentKeys ho).mp hop)
    simp only [UTXO.spentAt, Bool.and_eq_true, beq_iff_eq] at hat
    refine Finset.mem_filter.mpr ⟨List.mem_toFinset.mpr (hat.2 ▸ ha.spent op u hu hat.1), ?_⟩
    rw [hu]
    rfl
  rw [Mem.Store.pruneSpentAtHeight_count hs ho, ha.ops,
    card_present (d := fun _ => utxoOf) (fun _ _ => outpointKey_inj) ha.utxo]
  constructor
  · intro hcard op u hop hu
    have heq := Finset.eq_of_subset_of_card_le hsub hcard.ge
    have hmem : op ∈ s.spentKeys h := by
      rw [heq]
      refine Finset.mem_filter.mpr ⟨List.mem_toFinset.mpr hop, ?_⟩
      rw [hu]
      rfl
    rw [Mem.Store.mem_spentKeys ho, hu] at hmem
    exact hmem
  · intro hfit
    refine congrArg Finset.card (Finset.Subset.antisymm hsub fun op hop => ?_)
    obtain ⟨hop, hsome⟩ := Finset.mem_filter.mp hop
    obtain ⟨u, hu⟩ := Option.isSome_iff_exists.mp hsome
    rw [Mem.Store.mem_spentKeys ho, show s.getUTXO op = some u from hu]
    exact hfit op u (List.mem_toFinset.mp hop) hu

/-- What the adapter deletes at a height: the block, the subtrees and its own list of
transactions. -/
def Records.pruned (m : Records) (e : Mem.HeightEntry) (txids : List Hash) : Records :=
  ((if e.hasBlock then m.drop .block [e.block.1] else m).drop .subtree (e.subtrees.map (·.1))).drop
    .txIndex (txids.map (·.1))

namespace Records

variable (m : Records) (e : Mem.HeightEntry) (txids : List Hash)

lemma pruned_of_ne {set : SetName} (hb : set ≠ .block) (hs : set ≠ .subtree) (ht : set ≠ .txIndex) :
    m.pruned e txids set = m set := by
  rw [pruned, drop_of_ne _ ht, drop_of_ne _ hs]
  split_ifs
  · exact drop_of_ne m hb _
  · rfl

lemma pruned_txIndex (k : Bytes) :
    m.pruned e txids .txIndex k = if k ∈ txids.map (·.1) then none else m .txIndex k := by
  rw [pruned, drop_self, drop_of_ne _ (by simp)]
  cases e.hasBlock <;> rfl

lemma pruned_subtree (k : Bytes) :
    m.pruned e txids .subtree k = if k ∈ e.subtrees.map (·.1) then none else m .subtree k := by
  rw [pruned, drop_of_ne _ (by simp), drop_self]
  cases e.hasBlock <;> rfl

lemma pruned_block (k : Bytes) :
    m.pruned e txids .block k = if k ∈ (if e.hasBlock then [e.block] else []).map (·.1) then
      none else m .block k := by
  rw [pruned, drop_of_ne _ (by simp), drop_of_ne _ (by simp)]
  cases e.hasBlock with
  | false => rfl
  | true => exact drop_self m .block [e.block.1] k

end Records

lemma Agrees.run_pruneEntry (ha : Agrees f m l) {h : UInt32} {r : Bins}
    (hr : m .heightIdx (u32 h) = some r) :
    ((pruneEntry r : StoreM Records ℕ).run.run m : _ × Records) =
      (.ok
        ((if (f.entry h).hasBlock then
          (if (f.blocks (f.entry h).block).isSome then 1 else 0) else 0) +
          ((f.entry h).subtrees.toFinset.filter fun x => (f.subtree x).isSome = true).card +
          ((l.txids h).toFinset.filter fun t => (f.txindex t).isSome = true).card),
        m.pruned (f.entry h) (l.txids h)) := by
  have hblk := ha.blk h
  have hsubs := ha.subs h
  have htxids := ha.txids h
  rw [Records.listAt] at htxids
  rw [hr, Option.bind_some] at hblk hsubs htxids
  have htx : (toList (r .txids)).filter (·.length = 32) = (l.txids h).map (·.1) := by
    rw [htxids]
    refine List.filter_eq_self.mpr fun k hk => ?_
    obtain ⟨t, -, rfl⟩ := List.mem_map.mp hk
    simp
  unfold pruneEntry Records.pruned
  dsimp only
  rw [hblk, hsubs, htx]
  cases hb : (f.entry h).hasBlock with
  | false =>
    have hlen : ¬(0 = 32) := by decide
    simp only [Bool.false_eq_true, if_false, List.length_nil, if_neg hlen]
    have hpure : ((pure 0 : StoreM Records ℕ).run.run m : _ × Records) = (.ok 0, m) := rfl
    rw [Trace.run_bind_ok hpure, Trace.run_bind_ok (run_delEach .subtree _ 0 m), run_delEach,
      Records.present_drop m (by simp),
      card_present (d := fun _ b => unpackHashes (toBytes (b .leaves))) hash_val_injective
        ha.subtree,
      card_present (d := fun _ => txIndexOf) hash_val_injective ha.txindex]
  | true =>
    have hcount : (m .block (f.entry h).block.1).isSome = (f.blocks (f.entry h).block).isSome := by
      rw [← ha.blocks, Option.isSome_map]
    have hdrop : m.write .block (f.entry h).block.1 none = m.drop .block [(f.entry h).block.1] := by
      rw [← Records.drop_write, Records.drop_nil]
    simp only [if_true, ByteArr.length_val]
    rw [Trace.run_bind_ok (run_del .block _ m), hcount, hdrop,
      Trace.run_bind_ok (run_delEach .subtree _ _ _), run_delEach,
      Records.present_drop m (by simp), Records.present_drop _ (by simp),
        Records.present_drop m (by simp),
      card_present (d := fun _ b => unpackHashes (toBytes (b .leaves))) hash_val_injective
        ha.subtree,
      card_present (d := fun _ => txIndexOf) hash_val_injective ha.txindex]

lemma Agrees.run_pruneIndexAtHeight (ha : Agrees f m l) (h : UInt32) :
    ((Aerospike.pruneIndexAtHeight h : StoreM Records ℕ).run.run m : _ × Records) =
      (.ok
        ((if (f.entry h).hasBlock then
          (if (f.blocks (f.entry h).block).isSome then 1 else 0) else 0) +
          ((f.entry h).subtrees.toFinset.filter fun x => (f.subtree x).isSome = true).card +
          ((l.txids h).toFinset.filter fun t => (f.txindex t).isSome = true).card +
          (if (f.hdr h).isSome then 1 else 0)),
        ((m.pruned (f.entry h) (l.txids h)).write .header (u32 h) none).write .heightIdx
          (u32 h) none) := by
  have hget :
      ((Client.get .heightIdx (u32 h) : StoreM Records (Option Bins)).run.run m : _ × Records) =
      (.ok (m .heightIdx (u32 h)), m) := rfl
  have hheader : ∀ m' : Records, m' .header = m .header →
      (m' .header (u32 h)).isSome = (f.hdr h).isSome := by
    intro m' hm'
    rw [hm', ← ha.hdr, Option.isSome_map]
  unfold Aerospike.pruneIndexAtHeight
  rw [Trace.run_bind_ok hget]
  cases hr : m .heightIdx (u32 h) with
  | none =>
    -- the cluster lists nothing here, so neither does the index of the flat store
    have hblk := ha.blk h
    have hsubs := ha.subs h
    have htxids := ha.txids h
    rw [Records.listAt] at htxids
    rw [hr, Option.bind_none] at hblk hsubs htxids
    have hb : (f.entry h).hasBlock = false := by
      by_contra hb
      rw [if_pos (by simpa using hb)] at hblk
      have := congrArg List.length hblk
      simp [toBytes] at this
    have htx : l.txids h = [] := List.map_eq_nil_iff.mp htxids.symm
    have hs : (f.entry h).subtrees = [] := hsubs.symm
    have hpruned : m.pruned (f.entry h) (l.txids h) = m := by
      rw [Records.pruned, hb, hs, htx]
      simp
    rw [hpruned, hb, hs, htx, Records.write_absent (m.write .header (u32 h) none)
      (by rw [Records.write_of_ne _ (by simp), hr]),
      ← hheader m rfl]
    simp only [List.toFinset_nil, Finset.filter_empty, Finset.card_empty, Bool.false_eq_true,
      if_false]
    rfl
  | some r =>
    dsimp only
    rw [Trace.run_bind_ok (ha.run_pruneEntry hr), Trace.run_bind_ok (run_del .header _ _),
      hheader _ ?_]
    · rfl
    · exact m.pruned_of_ne _ _ (by simp) (by simp) (by simp)

lemma Agrees.pruneIndexAtHeight (ha : Agrees f m l) (h : UInt32)
    (hfit : ∀ t, t ∈ l.txids h → f.txindex t ≠ none → t ∈ (f.entry h).txids) :
    Agrees (f.apply (.pruneIndexAtHeight h))
      (((m.pruned (f.entry h) (l.txids h)).write .header (u32 h) none).write .heightIdx
        (u32 h) none)
      { l with txids := Function.update l.txids h [] } := by
  have hother : ∀ set, set ≠ .block → set ≠ .subtree → set ≠ .txIndex →
    m.pruned (f.entry h) (l.txids h) set = m set :=
    fun set hb hs ht => m.pruned_of_ne _ _ hb hs ht
  have hidx : ∀ a,
      (((m.pruned (f.entry h) (l.txids h)).write .header (u32 h) none).write .heightIdx
        (u32 h) none)
      .heightIdx (u32 a) = if a = h then none else m .heightIdx (u32 a) := by
    intro a
    rw [Records.write_self, Records.write_of_ne _ (by simp), hother _ (by simp) (by simp) (by simp),
      Function.update_apply]
    by_cases hah : a = h
    · rw [if_pos (congrArg u32 hah), if_pos hah]
    · rw [if_neg fun e => hah (u32_inj e), if_neg hah]
  refine ha.setIndex (by rw [Flat.apply_pruneIndex]) ?_ ?_ (fun t => ?_) (fun r => ?_) (fun x => ?_)
    (fun a => ?_)
    (fun a => ?_) (fun a => ?_) (fun a => ?_) fun a => ?_
  · rw [Records.write_of_ne _ (by simp), Records.write_of_ne _ (by simp),
      hother _ (by simp) (by simp) (by simp)]
  · rw [Records.write_of_ne _ (by simp), Records.write_of_ne _ (by simp),
      hother _ (by simp) (by simp) (by simp)]
  · rw [Records.write_of_ne _ (by simp), Records.write_of_ne _ (by simp), m.pruned_txIndex,
      map_drop (d := fun _ => txIndexOf) hash_val_injective ha.txindex, Flat.apply_pruneIndex]
    dsimp only
    by_cases ht : t ∈ (f.entry h).txids
    · rw [if_pos (ha.listed h ht), if_pos ht]
    · rw [if_neg ht]
      split_ifs with hl
      · by_contra hne
        exact ht (hfit t hl fun e => hne e.symm)
      · rfl
  · rw [Records.write_of_ne _ (by simp), Records.write_of_ne _ (by simp), m.pruned_subtree,
      map_drop (d := fun _ b => unpackHashes (toBytes (b .leaves))) hash_val_injective ha.subtree,
      Flat.apply_pruneIndex]
  · rw [Records.write_of_ne _ (by simp), Records.write_of_ne _ (by simp), m.pruned_block,
      map_drop hash_val_injective ha.blocks, Flat.apply_pruneIndex]
    dsimp only
    cases (f.entry h).hasBlock with
    | false => simp
    | true => simp [Function.update_apply]
  · rw [Records.write_of_ne _ (by simp), Records.write_self, hother _ (by simp) (by simp) (by simp),
      map_update (d := fun _ b => ByteArr.copy 80 (toBytes (b .hdr))) (fun _ _ => u32_inj) ha.hdr,
      Flat.apply_pruneIndex]
    rfl
  · rw [hidx, Flat.entry_pruneIndex]
    by_cases hah : a = h
    · rw [if_pos hah, if_pos hah]
      rfl
    · rw [if_neg hah, if_neg hah]
      exact ha.blk a
  · rw [hidx, Flat.entry_pruneIndex]
    by_cases hah : a = h
    · rw [if_pos hah, if_pos hah]
      rfl
    · rw [if_neg hah, if_neg hah]
      exact ha.subs a
  · rw [Records.listAt, hidx, Function.update_apply]
    by_cases hah : a = h
    · rw [if_pos hah, if_pos hah]
      rfl
    · rw [if_neg hah, if_neg hah]
      exact ha.txids a
  · rw [Flat.entry_pruneIndex, Function.update_apply]
    split_ifs
    · exact List.Subset.refl _
    · exact ha.listed a

/-- The counts of a prune of the index agree exactly where the cluster's list names no stored
transaction that the flat store does not list. -/
lemma Agrees.pruneIndex_count_iff {s : Mem.Store} (ha : Agrees s.flatten m l) (h : UInt32) :
    ((Aerospike.pruneIndexAtHeight h : StoreM Records ℕ).run.run m : _ × Records).1 =
      .ok (s.pruneIndexAtHeight h).1 ↔
      ∀ t, t ∈ l.txids h → s.getTxIndex t ≠ none → t ∈ (s.flatten.entry h).txids := by
  have hsub : ((s.flatten.entry h).txids.toFinset.filter fun t => (s.getTxIndex t).isSome = true) ⊆
      (l.txids h).toFinset.filter fun t => (s.getTxIndex t).isSome = true := by
    refine Finset.filter_subset_filter _ fun t ht => ?_
    exact List.mem_toFinset.mpr (ha.listed h (List.mem_toFinset.mp ht))
  have hcount : ((Aerospike.pruneIndexAtHeight h : StoreM Records ℕ).run.run m : _ × Records).1 =
        .ok (s.pruneIndexAtHeight h).1 ↔
      ((l.txids h).toFinset.filter fun t => (s.getTxIndex t).isSome = true).card =
        ((s.flatten.entry h).txids.toFinset.filter fun t =>
            (s.getTxIndex t).isSome = true).card := by
    rw [ha.run_pruneIndexAtHeight, Mem.Store.pruneIndexAtHeight_count, Except.ok.injEq]
    exact Nat.add_right_cancel_iff.trans Nat.add_left_cancel_iff
  rw [hcount]
  constructor
  · intro hcard t ht hsome
    have heq := Finset.eq_of_subset_of_card_le hsub hcard.le
    have hmem : t ∈ (l.txids h).toFinset.filter fun t => (s.getTxIndex t).isSome = true :=
      Finset.mem_filter.mpr ⟨List.mem_toFinset.mpr ht, Option.isSome_iff_ne_none.mpr hsome⟩
    rw [← heq] at hmem
    exact List.mem_toFinset.mp (Finset.mem_filter.mp hmem).1
  · intro hfit
    refine congrArg Finset.card (Finset.Subset.antisymm (fun t ht => ?_) hsub)
    obtain ⟨ht, hsome⟩ := Finset.mem_filter.mp ht
    exact Finset.mem_filter.mpr
      ⟨List.mem_toFinset.mpr
        (hfit t (List.mem_toFinset.mp ht) (Option.isSome_iff_ne_none.mp hsome)), hsome⟩

end Steps

/-! ### Runs of requests -/

/-- A prune meets no entry of the cluster's lists that has lost its record: an outpoint listed at
the height and still stored is spent there, and a transaction listed at the height and still stored
is listed there by the in-memory store as well. -/
def Fits (r : Request) (s : Mem.Store) (m : Store Records) : Prop :=
  match r with
  | .write (.pruneSpentAtHeight h) =>
    ∀ op u, outpointKey op ∈ Records.listAt m .spentIdx (u32 h) .ops → s.getUTXO op = some u →
      u.spentAt h = true
  | .write (.pruneIndexAtHeight h) =>
    ∀ t : Hash, t.1 ∈ Records.listAt m .heightIdx (u32 h) .txids → s.getTxIndex t ≠ none →
      t ∈ (s.flatten.entry h).txids
  | _ => True

/-- The adapter on an empty cluster. -/
def newStore : Store Records := Records.empty

/-- The cluster holds the records of the in-memory store. -/
structure Alike (s : Mem.Store) (m : Store Records) : Prop where
  indexed : s.Indexed
  owned : s.Owned
  agrees : ∃ l, Agrees s.flatten m l

namespace Alike

variable {s : Mem.Store} {m : Store Records}

lemma new : Alike Mem.new newStore := ⟨Mem.Store.new_indexed, Mem.Store.new_owned, _, agrees_empty⟩

/-- What one request does to both stores. -/
def serve (r : Request) (p : Mem.Store × Store Records) : Mem.Store × Store Records :=
  ((r.serve.run.run p.1).2, (r.serve.run.run p.2).2)

lemma write (hal : Alike s m) {c : Call} {m' : Store Records} {l' : Lists}
    (hag : Agrees (s.flatten.apply c) m' l') :
    Alike (s.apply c) m' :=
  ⟨hal.indexed.apply c, hal.owned.apply hal.indexed c,
    l', by rwa [Mem.Store.flatten_apply hal.indexed]⟩

lemma write_same (hal : Alike s m) {c : Call} {a : Answer} {m' : Store Records} {l' : Lists}
    (hrun : ((Request.write c).serve.run.run m) = (.ok a, m'))
    (hreply : s.reply c = a) (hag : Agrees (s.flatten.apply c) m' l') :
    (((Request.write c).serve.run.run s).1 = ((Request.write c).serve.run.run m).1 ↔ True) ∧
      (True → Alike ((Request.write c).serve.run.run s).2
        ((Request.write c).serve.run.run m).2) := by
  rw [hrun, Mem.Store.serve_write, hreply]
  exact ⟨iff_of_true rfl trivial, fun _ => hal.write hag⟩

lemma lookup (hal : Alike s m) {r : Request} {a b : Answer}
    (hmem : (r.serve.run.run s : _ × Mem.Store) = (.ok a, s))
    (hrun : (r.serve.run.run m) = (.ok b, m)) (hab : a = b) :
    ((r.serve.run.run s).1 = (r.serve.run.run m).1 ↔ True) ∧
      (True → Alike (r.serve.run.run s).2 (r.serve.run.run m).2) := by
  rw [hrun, hmem, hab]
  exact ⟨iff_of_true rfl trivial, fun _ => hal⟩

/-- **One request.** It gets the same answer from both exactly if it fits the lists, and then leaves
both with the same records. -/
lemma step (hal : Alike s m) (r : Request) :
    ((r.serve.run.run s).1 = (r.serve.run.run m).1 ↔ Fits r s m) ∧
      (Fits r s m → Alike (r.serve.run.run s).2 (r.serve.run.run m).2) := by
  obtain ⟨l, ha⟩ := hal.agrees
  cases r with
  | getTxIndex t => exact hal.lookup rfl rfl (congrArg Answer.txIndex (ha.txindex t).symm)
  | getUTXO op => exact hal.lookup rfl rfl (congrArg Answer.utxo (ha.utxo op).symm)
  | getSubtree root => exact hal.lookup rfl rfl (congrArg Answer.subtree (ha.subtree root).symm)
  | getBlock hash => exact hal.lookup rfl rfl (congrArg Answer.block (ha.blocks hash).symm)
  | getHeader height => exact hal.lookup rfl rfl (congrArg Answer.header (ha.hdr height).symm)
  | write c =>
    cases c with
    | putTxIndex t ix =>
      obtain ⟨m', l', hrun, hag⟩ := ha.putTxIndex t ix
      exact hal.write_same (Trace.run_bind_ok hrun) rfl hag
    | putUTXO op u =>
      obtain ⟨m', l', hrun, hag⟩ := ha.putUTXO op u
      rw [← Flat.apply_putUTXO] at hag
      exact hal.write_same (Trace.run_bind_ok hrun) rfl hag
    | spendUTXO op spentBy h =>
      obtain ⟨m', l', hrun, hag⟩ := ha.spendUTXO op spentBy h
      exact hal.write_same (Trace.run_bind_ok hrun)
        (congrArg Answer.found (s.spendUTXO_fst op spentBy h)) hag
    | unspendUTXO op =>
      obtain ⟨m', l', hrun, hag⟩ := ha.unspendUTXO op
      exact hal.write_same (Trace.run_bind_ok hrun)
        (congrArg Answer.found (s.unspendUTXO_fst op)) hag
    | deleteUTXO op =>
      obtain ⟨m', l', hrun, hag⟩ := ha.deleteUTXO op
      exact hal.write_same (Trace.run_bind_ok hrun)
        (congrArg Answer.found (s.deleteUTXO_fst op)) hag
    | deleteTxIndex t =>
      obtain ⟨m', hrun, hag⟩ := ha.deleteTxIndex t
      exact hal.write_same (Trace.run_bind_ok hrun)
        (congrArg Answer.found (s.deleteTxIndex_fst t)) hag
    | putSubtree root leaves =>
      obtain ⟨m', hrun, hag⟩ := ha.putSubtree root leaves
      exact hal.write_same (Trace.run_bind_ok hrun) rfl hag
    | putBlock b =>
      obtain ⟨m', hrun, hag⟩ := ha.putBlock b
      exact hal.write_same (Trace.run_bind_ok hrun) rfl hag
    | putHeader height hdr =>
      obtain ⟨m', hrun, hag⟩ := ha.putHeader height hdr
      exact hal.write_same (Trace.run_bind_ok hrun) rfl hag
    | pruneSpentAtHeight h =>
      have hfits : Fits (.write (.pruneSpentAtHeight h)) s m ↔
          ∀ op u, op ∈ l.ops h → s.getUTXO op = some u → u.spentAt h = true := by
        simp only [Fits, ha.ops, List.mem_map_of_injective fun _ _ => outpointKey_inj]
      have hrun : ((Request.write (.pruneSpentAtHeight h)).serve.run.run m) = _ :=
        Trace.run_bind_ok (run_pruneSpentAtHeight m h)
      rw [hrun, Mem.Store.serve_write, hfits]
      refine ⟨?_, fun hfit => hal.write (ha.pruneSpentAtHeight h hfit)⟩
      rw [← ha.pruneSpent_count_iff hal.indexed hal.owned]
      change (Except.ok (Answer.freed _) : Except StoreError Answer) = .ok (.freed _) ↔ _
      rw [Except.ok.injEq, Answer.freed.injEq]
    | pruneIndexAtHeight h =>
      have hfits : Fits (.write (.pruneIndexAtHeight h)) s m ↔
          ∀ t, t ∈ l.txids h → s.getTxIndex t ≠ none → t ∈ (s.flatten.entry h).txids := by
        simp only [Fits, ha.txids]
        exact forall_congr' fun t => by rw [List.mem_map_of_injective hash_val_injective]
      have hrun : ((Request.write (.pruneIndexAtHeight h)).serve.run.run m) = _ :=
        Trace.run_bind_ok (ha.run_pruneIndexAtHeight h)
      rw [hrun, Mem.Store.serve_write, hfits]
      refine ⟨?_, fun hfit => hal.write (ha.pruneIndexAtHeight h hfit)⟩
      rw [← ha.pruneIndex_count_iff, ha.run_pruneIndexAtHeight]
      change (Except.ok (Answer.freed _) : Except StoreError Answer) = .ok (.freed _) ↔ _
      rw [Except.ok.injEq, Answer.freed.injEq, Except.ok.injEq]
      exact eq_comm

lemma answers_iff (hal : Alike s m) (rs : List Request) :
    answers rs s = answers rs m ↔ Trace.Guarded serve (fun r p => Fits r p.1 p.2) rs (s, m) := by
  induction rs generalizing s m with
  | nil => exact iff_of_true rfl (Trace.guarded_nil _)
  | cons r rs ih =>
    obtain ⟨hiff, hnext⟩ := hal.step r
    rw [answers_cons, answers_cons, List.cons.injEq, Trace.guarded_cons_iff, hiff]
    exact and_congr_right fun hfit => ih (hnext hfit)

end Alike

lemma run_serve (rs : List Request) (s : Mem.Store) (m : Store Records) :
    Trace.run Alike.serve rs (s, m) = (after rs s, after rs m) := by
  induction rs generalizing s m with
  | nil => rfl
  | cons r rs ih => exact ih _ _

/-- **The adapter answers as the in-memory store exactly as long as no prune meets a stale entry.**
Of two new stores, every call of a sequence gets the same answer from both if and only if each prune
in it finds, on the cluster's lists, only outpoints that are spent at the height or gone, and only
transactions that the in-memory store lists at the height too or that are gone. -/
theorem aerospike_eq_mem_iff (rs : List Request) :
    answers rs Mem.new = answers rs newStore ↔
      ∀ pre r post, rs = pre ++ r :: post → Fits r (after pre Mem.new) (after pre newStore) := by
  rw [Alike.new.answers_iff rs]
  unfold Trace.Guarded
  simp only [run_serve]

/-- A record that is put back as unspent stays on the cluster's list, and the prune of its former
spend height deletes it there only. -/
theorem aerospike_ne_mem_overwrite :
    answers [.write (.putUTXO ⟨.fill 32 7, 0⟩ ⟨1, default, true, default, 5⟩),
        .write (.putUTXO ⟨.fill 32 7, 0⟩ ⟨1, default, false, default, 0⟩),
          .write (.pruneSpentAtHeight 5)] Mem.new ≠
      answers [.write (.putUTXO ⟨.fill 32 7, 0⟩ ⟨1, default, true, default, 5⟩),
        .write (.putUTXO ⟨.fill 32 7, 0⟩ ⟨1, default, false, default, 0⟩),
          .write (.pruneSpentAtHeight 5)]
        newStore := by
  decide +kernel

end MemServe.Aerospike
