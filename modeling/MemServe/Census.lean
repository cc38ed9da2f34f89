import Mathlib.Data.Set.Card
import MemServe.Tally
import MemServe.UtxoMap

/-!
The statistics of the store.

`Stats` adds up the sizes of the maps of all stripes. A stripe holds keys of its own only, so no key
is counted twice and none that a lookup does not find: each number is that of the keys a lookup
answers.
-/

namespace MemServe

/-- A snapshot of what a store holds. -/
structure StoreStats where
  txIndex : ℕ := 0
  utxoLive : ℕ := 0
  utxoSpent : ℕ := 0
  subtrees : ℕ := 0
  blocks : ℕ := 0
  headers : ℕ := 0
  deriving DecidableEq

namespace GoMap

variable {K V : Type} [DecidableEq K]

lemma len_eq_card (m : GoMap K V) : m.len = (m.keysWhere fun _ => true).card := by
  refine congrArg Finset.card (Finset.ext fun k => ?_)
  rw [mem_keys, mem_keysWhere]
  cases m.get k <;> simp

lemma sum_ite_eq_card (m : GoMap K V) (p : V → Bool) :
    m.sum (fun v => if p v then 1 else 0) = (m.keysWhere p).card := by
  rw [sum, keysWhere, Finset.card_filter]
  refine Finset.sum_congr rfl fun k _ => ?_
  cases m.get k with
  | none => simp
  | some v => simp

end GoMap

namespace Mem

/-- One turn of the loop over the stripes. -/
def addStripe (out : StoreStats) (st : Stripe) : StoreStats :=
  { out with
    txIndex := out.txIndex + st.txindex.len
    subtrees := out.subtrees + st.subtree.len
    blocks := out.blocks + st.blocks.len
    utxoSpent := out.utxoSpent + st.utxo.sum fun u => if u.spent then 1 else 0
    utxoLive := out.utxoLive + st.utxo.sum fun u => if !u.spent then 1 else 0 }

def Store.stats (s : Store) : StoreStats :=
  let out := (List.range 256).foldl (fun out i => addStripe out (s.st (UInt8.ofNat i))) {}
  { out with headers := s.hdr.len }

/-- Every key of the stripe belongs to stripe `i`. -/
structure Stripe.Home (i : UInt8) (st : Stripe) : Prop where
  txindex : ∀ t, st.txindex.get t ≠ none → striperOf t = i
  utxo : ∀ op, st.utxo.get op ≠ none → striperOf op.txID = i
  subtree : ∀ r, st.subtree.get r ≠ none → striperOf r = i
  blocks : ∀ x, st.blocks.get x ≠ none → striperOf x = i

lemma home_set {K V : Type} [DecidableEq K] {m : GoMap K V} {q : K → Prop}
    (hm : ∀ k, m.get k ≠ none → q k) {k : K}
    (hk : q k) (v : V) : ∀ j, (m.set k v).get j ≠ none → q j := by
  intro j hj
  rw [GoMap.get_set] at hj
  split_ifs at hj with h
  · exact h ▸ hk
  · exact hm j hj

lemma home_delete {K V : Type} [DecidableEq K] {m : GoMap K V} {q : K → Prop}
    (hm : ∀ k, m.get k ≠ none → q k) (k : K) :
    ∀ j, (m.delete k).get j ≠ none → q j := by
  intro j hj
  rw [GoMap.get_delete] at hj
  split_ifs at hj
  · exact absurd rfl hj
  · exact hm j hj

namespace Stripe.Home

variable {i : UInt8} {st : Stripe}

lemma setTxIndex (h : st.Home i) {t : Hash} (ht : striperOf t = i) (ix : TxIndex) :
    Home i { st with txindex := st.txindex.set t ix } :=
  ⟨home_set h.txindex ht ix, h.utxo, h.subtree, h.blocks⟩

lemma deleteTxIndex (h : st.Home i) (t : Hash) :
    Home i { st with txindex := st.txindex.delete t } :=
  ⟨home_delete h.txindex t, h.utxo, h.subtree, h.blocks⟩

lemma setSubtree (h : st.Home i) {r : Hash} (hr : striperOf r = i) (l : List Hash) :
    Home i { st with subtree := st.subtree.set r l } :=
  ⟨h.txindex, h.utxo, home_set h.subtree hr l, h.blocks⟩

lemma deleteSubtree (h : st.Home i) (r : Hash) :
    Home i { st with subtree := st.subtree.delete r } :=
  ⟨h.txindex, h.utxo, home_delete h.subtree r, h.blocks⟩

lemma setBlock (h : st.Home i) {x : Hash} (hx : striperOf x = i) (b : BlockRec) :
    Home i { st with blocks := st.blocks.set x b } :=
  ⟨h.txindex, h.utxo, h.subtree, home_set h.blocks hx b⟩

lemma deleteBlock (h : st.Home i) (x : Hash) : Home i { st with blocks := st.blocks.delete x } :=
  ⟨h.txindex, h.utxo, h.subtree, home_delete h.blocks x⟩

lemma setUTXO (h : st.Home i) {op : Outpoint} (hop : striperOf op.txID = i) (u : UTXO)
    (idx : GoMap UInt32 (Finset Outpoint)) :
    Home i { st with utxo := st.utxo.set op u, spentIdx := idx } :=
  ⟨h.txindex, home_set h.utxo (q := fun op : Outpoint => striperOf op.txID = i) hop u,
    h.subtree, h.blocks⟩

lemma deleteUTXO (h : st.Home i) (op : Outpoint) (idx : GoMap UInt32 (Finset Outpoint)) :
    Home i { st with utxo := st.utxo.delete op, spentIdx := idx } :=
  ⟨h.txindex, home_delete h.utxo op, h.subtree, h.blocks⟩

lemma pruneStripe (h : st.Home i) (a : UInt32) : Home i (Store.pruneStripe a st).2 := by
  unfold Store.pruneStripe
  split
  · exact h
  · refine ⟨h.txindex, fun op hop => h.utxo op fun hnone => hop ?_, h.subtree, h.blocks⟩
    dsimp only
    rw [GoMap.get_deleteRange, hnone]
    simp

end Stripe.Home

namespace Store

def Home (s : Store) : Prop := ∀ i, (s.st i).Home i

lemma new_home : (new : Store).Home :=
  fun _ =>
    ⟨fun _ h => absurd rfl h, fun _ h => absurd rfl h,
      fun _ h => absurd rfl h, fun _ h => absurd rfl h⟩

variable {s : Store}

lemma Home.update (hs : s.Home) {key : Hash} {f : Stripe → Stripe}
    (hf : ∀ st : Stripe, st.Home (striperOf key) → (f st).Home (striperOf key)) :
    (s.update key f).Home := by
  intro i
  rw [update_st]
  split_ifs with hi
  · subst hi
    exact hf _ (hs _)
  · exact hs i

lemma Home.pruneTx (hs : s.Home) (t : Hash) : (s.pruneTx t).2.Home := by
  unfold Store.pruneTx
  split
  · exact hs
  · exact hs.update fun st h => h.deleteTxIndex t

lemma Home.pruneSubtree (hs : s.Home) (r : Hash) : (s.pruneSubtree r).2.Home := by
  unfold Store.pruneSubtree
  split
  · exact hs
  · exact hs.update fun st h => h.deleteSubtree r

lemma Home.pruneBlock (hs : s.Home) (x : Hash) : (s.pruneBlock x).2.Home := by
  unfold Store.pruneBlock
  split
  · exact hs
  · exact hs.update fun st h => h.deleteBlock x

lemma Home.pruneEach {α : Type} {f : Store → α → ℕ × Store}
    (hf : ∀ (s : Store) a, s.Home → (f s a).2.Home) (l : List α)
    {r : ℕ × Store} (hr : r.2.Home) : (pruneEach f l r).2.Home := by
  induction l generalizing r with
  | nil => exact hr
  | cons a l ih => exact ih (r := (r.1 + (f r.2 a).1, (f r.2 a).2)) (hf r.2 a hr)

lemma Home.pruneIndexAtHeight (hs : s.Home) (h : UInt32) : (s.pruneIndexAtHeight h).2.Home := by
  have hhdr : ∀ s : Store, s.Home → (s.pruneHeader h).2.Home := by
    intro s hs
    unfold Store.pruneHeader
    split
    · exact hs
    · exact hs
  unfold Store.pruneIndexAtHeight
  refine hhdr _ ?_
  split
  · exact hs
  · next e _ =>
    refine pruneEach (fun s t hs => hs.pruneTx t) _
      (pruneEach (fun s r hs => hs.pruneSubtree r) _ ?_)
    split_ifs
    · exact Home.pruneBlock (s := { s with hidx := s.hidx.delete h }) hs e.block
    · exact hs

lemma Home.apply (hs : s.Home) (c : Call) : (s.apply c).Home := by
  cases c with
  | putTxIndex t ix =>
    have h : (s.update t fun st => { st with txindex := st.txindex.set t ix }).Home :=
      hs.update fun st h => h.setTxIndex rfl ix
    simp only [Store.apply, Store.putTxIndex]
    split_ifs
    · exact h
    · exact h
  | putUTXO op u =>
    simp only [Store.apply, Store.putUTXO]
    refine hs.update fun st h => ?_
    split_ifs
    · exact h.setUTXO rfl u _
    · exact h.setUTXO rfl u _
  | spendUTXO op spentBy ht =>
    simp only [Store.apply, Store.spendUTXO]
    split
    · exact hs
    · exact hs.update fun st h => h.setUTXO rfl _ _
  | unspendUTXO op =>
    simp only [Store.apply, Store.unspendUTXO]
    split
    · exact hs
    · next u _ =>
      dsimp only
      refine hs.update fun st h => ?_
      obtain ⟨idx, hidx⟩ := freed_eq st op u
      rw [hidx]
      exact h.setUTXO rfl _ _
  | deleteUTXO op =>
    simp only [Store.apply, Store.deleteUTXO]
    split
    · exact hs
    · next u _ =>
      dsimp only
      refine hs.update fun st h => ?_
      obtain ⟨idx, hidx⟩ := freed_eq st op u
      rw [hidx]
      exact h.deleteUTXO op _
  | deleteTxIndex t =>
    have hprune : (s.deleteTxIndex t).2 = (s.pruneTx t).2 := deleteTxIndex_eq_pruneTx s t
    simp only [Store.apply, hprune]
    exact hs.pruneTx t
  | putSubtree r l => exact hs.update fun st h => h.setSubtree rfl l
  | putBlock b =>
    have h : (s.update b.hash fun st => { st with blocks := st.blocks.set b.hash b }).Home :=
      hs.update fun st h => h.setBlock rfl b
    exact h
  | putHeader height hdr => exact hs
  | pruneSpentAtHeight a => exact fun i => (hs i).pruneStripe a
  | pruneIndexAtHeight a => exact hs.pruneIndexAtHeight a

lemma Home.run (hs : s.Home) (cs : List Call) : (s.run cs).Home :=
  Trace.run_invariant _ (fun c _ _ h => h.apply c) hs

/-! ### Adding up the stripes -/

section Count

variable {K V : Type} [DecidableEq K] {p : Stripe → GoMap K V}

/-- **The stripes together hold the keys that a lookup finds**, each of them once. -/
lemma encard_keysWhere (keyOf : K → Hash)
    (hp : ∀ i k, (p (s.st i)).get k ≠ none → striperOf (keyOf k) = i) (q : V → Bool) :
    (Tally.keysWhere (fun k => (p (s.st (striperOf (keyOf k)))).get k) q).encard =
      ((List.range 256).map fun i => ((p (s.st (UInt8.ofNat i))).keysWhere q).card).sum := by
  have hstripe : ∀ i k, k ∈ (p (s.st i)).keysWhere q → striperOf (keyOf k) = i := by
    intro i k hk
    refine hp i k fun hnone => ?_
    rw [GoMap.mem_keysWhere, hnone] at hk
    simp at hk
  have hset : Tally.keysWhere (fun k => (p (s.st (striperOf (keyOf k)))).get k) q =
      ((Finset.range 256).biUnion fun i => (p (s.st (UInt8.ofNat i))).keysWhere q : Finset K) := by
    ext k
    simp only [Finset.coe_biUnion, Set.mem_iUnion, Finset.mem_coe, Finset.mem_range, exists_prop]
    constructor
    · intro hk
      refine ⟨(striperOf (keyOf k)).toNat, (striperOf (keyOf k)).toNat_lt, ?_⟩
      rw [UInt8.ofNat_toNat, GoMap.mem_keysWhere]
      exact hk
    · rintro ⟨i, -, hk⟩
      have hi := hstripe _ k hk
      rw [GoMap.mem_keysWhere, ← hi] at hk
      exact hk
  have hdisj : ∀ i ∈ Finset.range 256, ∀ j ∈ Finset.range 256, i ≠ j →
      Disjoint ((p (s.st (UInt8.ofNat i))).keysWhere q)
          ((p (s.st (UInt8.ofNat j))).keysWhere q) := by
    intro i hi j hj hij
    refine Finset.disjoint_left.mpr fun k hk hk' => hij ?_
    have := congrArg UInt8.toNat ((hstripe _ k hk).symm.trans (hstripe _ k hk'))
    rwa [UInt8.toNat_ofNat_of_lt' (Finset.mem_range.mp hi),
      UInt8.toNat_ofNat_of_lt' (Finset.mem_range.mp hj)] at this
  rw [hset, Set.encard_coe_eq_coe_finsetCard, Finset.card_biUnion hdisj]
  rfl

end Count

lemma foldl_addStripe (l : List Stripe) (out : StoreStats) :
    l.foldl addStripe out =
      { out with
        txIndex := out.txIndex + (l.map fun st => (st.txindex.keysWhere fun _ => true).card).sum
        utxoLive := out.utxoLive + (l.map fun st => (st.utxo.keysWhere fun u => !u.spent).card).sum
        utxoSpent := out.utxoSpent + (l.map fun st => (st.utxo.keysWhere fun u => u.spent).card).sum
        subtrees := out.subtrees + (l.map fun st => (st.subtree.keysWhere fun _ => true).card).sum
        blocks :=
  out.blocks + (l.map fun st => (st.blocks.keysWhere fun _ => true).card).sum } := by
  induction l generalizing out with
  | nil => rfl
  | cons st l ih =>
    rw [List.foldl_cons, ih]
    simp only [addStripe, GoMap.len_eq_card, GoMap.sum_ite_eq_card, List.map_cons, List.sum_cons,
      Nat.add_assoc]

end Store

end Mem

/-- The numbers are those of the keys that a lookup answers. -/
structure Flat.Counted (f : Flat) (st : StoreStats) : Prop where
  txIndex : (Tally.keysWhere f.txindex fun _ => true).encard = st.txIndex
  utxoLive : (Tally.keysWhere f.utxo fun u => !u.spent).encard = st.utxoLive
  utxoSpent : (Tally.keysWhere f.utxo fun u => u.spent).encard = st.utxoSpent
  subtrees : (Tally.keysWhere f.subtree fun _ => true).encard = st.subtrees
  blocks : (Tally.keysWhere f.blocks fun _ => true).encard = st.blocks
  headers : (Tally.keysWhere f.hdr fun _ => true).encard = st.headers

lemma Mem.Store.stats_counted {s : Mem.Store} (hs : s.Home) : s.flatten.Counted s.stats := by
  have hstats :
      s.stats = { ((List.range 256).map fun i => s.st (UInt8.ofNat i)).foldl addStripe {} with
      headers := s.hdr.len } := by
    rw [List.foldl_map]
    rfl
  rw [foldl_addStripe] at hstats
  simp only [List.map_map, Function.comp_def, Nat.zero_add] at hstats
  rw [hstats]
  have hhdr : Tally.keysWhere s.flatten.hdr (fun _ => true) =
      (s.hdr.keysWhere fun _ => true : Finset UInt32) := by
    ext h
    rw [Finset.mem_coe, GoMap.mem_keysWhere]
    rfl
  exact {
    txIndex := encard_keysWhere (p := Stripe.txindex) id (fun i => (hs i).txindex) _
    utxoLive := encard_keysWhere (p := Stripe.utxo) Outpoint.txID (fun i => (hs i).utxo) _
    utxoSpent := encard_keysWhere (p := Stripe.utxo) Outpoint.txID (fun i => (hs i).utxo) _
    subtrees := encard_keysWhere (p := Stripe.subtree) id (fun i => (hs i).subtree) _
    blocks := encard_keysWhere (p := Stripe.blocks) id (fun i => (hs i).blocks) _
    headers := by rw [hhdr, Set.encard_coe_eq_coe_finsetCard, GoMap.len_eq_card] }

/-- **The statistics are those of the answers.** After any calls on a new store, each number of
`Stats` is the number of keys that a lookup finds: records unspent, records spent, index entries,
subtrees, blocks and headers. -/
theorem stats_eq_answers (cs : List Call) :
    (Mem.new.run cs).flatten.Counted (Mem.new.run cs).stats :=
  Mem.Store.stats_counted (Mem.Store.new_home.run cs)

end MemServe
