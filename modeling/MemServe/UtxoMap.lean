import MemServe.Requests

/-!
The records of the striped store are one map.

The stripes share out the outpoints, and the index of spends of a stripe may hold outpoints that
were overwritten or spent again; what matters is that no spent record is missing from it. Then
a prune finds every record spent at its height, checks each entry against its record, and
counts what a filter over one map would remove.
-/

namespace MemServe

/-- A request about records. -/
inductive UtxoRequest
  | putUTXO (op : Outpoint) (u : UTXO)
  | getUTXO (op : Outpoint)
  | spendUTXO (op : Outpoint) (spentBy : Hash) (spentHeight : UInt32)
  | unspendUTXO (op : Outpoint)
  | deleteUTXO (op : Outpoint)
  | pruneSpentAtHeight (h : UInt32)

namespace UtxoRequest

def request (r : UtxoRequest) : Request :=
  match r with
  | .putUTXO op u => .write (.putUTXO op u)
  | .getUTXO op => .getUTXO op
  | .spendUTXO op spentBy h => .write (.spendUTXO op spentBy h)
  | .unspendUTXO op => .write (.unspendUTXO op)
  | .deleteUTXO op => .write (.deleteUTXO op)
  | .pruneSpentAtHeight h => .write (.pruneSpentAtHeight h)

/-- The same request to one map of records, where a prune is a filter. -/
def onMap (r : UtxoRequest) (m : GoMap Outpoint UTXO) : Answer × GoMap Outpoint UTXO :=
  match r with
  | .putUTXO op u => (.done, m.set op u)
  | .getUTXO op => (.utxo (m.get op), m)
  | .spendUTXO op spentBy h =>
    match m.get op with
    | none => (.found false, m)
    | some u => (.found true, m.set op (u.spend spentBy h))
  | .unspendUTXO op =>
    match m.get op with
    | none => (.found false, m)
    | some u => (.found true, m.set op u.unspend)
  | .deleteUTXO op => (.found (m.get op).isSome, m.delete op)
  | .pruneSpentAtHeight h => (.freed (m.keysWhere (·.spentAt h)).card, m.reject (·.spentAt h))

/-- The answers of one map to requests made one after the other. -/
def mapAnswers (rs : List UtxoRequest) (m : GoMap Outpoint UTXO) : List Answer :=
  match rs with
  | [] => []
  | r :: rs => (r.onMap m).1 :: mapAnswers rs (r.onMap m).2

end UtxoRequest

namespace Mem.Store

/-- A stripe holds records of its own outpoints only. -/
def Owned (s : Store) : Prop := ∀ i op, (s.st i).utxo.get op ≠ none → striperOf op.txID = i

lemma new_owned : (new : Store).Owned := fun _ _ h => absurd rfl h

variable {s : Store}

lemma Owned.update (hs : s.Owned) (op : Outpoint) {f : Stripe → Stripe}
    (hf : ∀ st t, (f st).utxo.get t ≠ none → t = op ∨ st.utxo.get t ≠ none) :
    (s.update op.txID f).Owned := by
  intro i t ht
  rw [update_st] at ht
  split_ifs at ht with hi
  · obtain rfl | h := hf _ t ht
    · exact hi.symm
    · exact hs i t h
  · exact hs i t ht

lemma get_set_ne_none {m : GoMap Outpoint UTXO} {op t : Outpoint} {u : UTXO}
    (h : (m.set op u).get t ≠ none) :
    t = op ∨ m.get t ≠ none := by
  rw [GoMap.get_set] at h
  split_ifs at h with ht
  · exact .inl ht
  · exact .inr h

lemma Owned.putUTXO (hs : s.Owned) (op : Outpoint) (u : UTXO) : (s.putUTXO op u).Owned := by
  refine hs.update op fun st t ht => ?_
  dsimp only at ht
  split_ifs at ht
  · exact get_set_ne_none ht
  · exact get_set_ne_none ht

lemma Owned.spendUTXO (hs : s.Owned) (op : Outpoint) (spentBy : Hash) (h : UInt32) :
    (s.spendUTXO op spentBy h).2.Owned := by
  unfold Store.spendUTXO
  split
  · exact hs
  · dsimp only
    exact hs.update op fun st t ht => get_set_ne_none (m := st.utxo) ht

lemma Owned.unspendUTXO (hs : s.Owned) (op : Outpoint) : (s.unspendUTXO op).2.Owned := by
  unfold Store.unspendUTXO
  split
  · exact hs
  · next u _ =>
    dsimp only
    refine hs.update op fun st t ht => ?_
    obtain ⟨idx, hidx⟩ := freed_eq st op u
    rw [hidx] at ht
    exact get_set_ne_none ht

lemma Owned.deleteUTXO (hs : s.Owned) (op : Outpoint) : (s.deleteUTXO op).2.Owned := by
  unfold Store.deleteUTXO
  split
  · exact hs
  · next u _ =>
    dsimp only
    refine hs.update op fun st t ht => ?_
    obtain ⟨idx, hidx⟩ := freed_eq st op u
    rw [hidx, GoMap.get_delete] at ht
    split_ifs at ht with htop
    · exact absurd rfl ht
    · exact .inr ht

lemma Owned.pruneSpentAtHeight (hs : s.Owned) (hidx : s.Indexed) (h : UInt32) :
    (s.pruneSpentAtHeight h).2.Owned := by
  intro i op hop
  refine hs i op fun hnone => hop ?_
  exact (pruneStripe_utxo (hidx i) h op).trans (by rw [hnone]; rfl)

lemma Owned.apply (hs : s.Owned) (hidx : s.Indexed) (c : Call) : (s.apply c).Owned := by
  cases c with
  | putUTXO op u => exact hs.putUTXO op u
  | spendUTXO op spentBy h => exact hs.spendUTXO op spentBy h
  | unspendUTXO op => exact hs.unspendUTXO op
  | deleteUTXO op => exact hs.deleteUTXO op
  | pruneSpentAtHeight h => exact hs.pruneSpentAtHeight hidx h
  | _ =>
    intro i op hop
    rw [(apply_sameRecords s _ rfl i).1] at hop
    exact hs i op hop

lemma pruneStripe_count {st : Stripe} (hst : st.Indexed) (h : UInt32) :
    (pruneStripe h st).1 = (st.utxo.keysWhere (·.spentAt h)).card := by
  have hidx : ∀ op ∈ st.utxo.keysWhere (·.spentAt h),
      ∃ set, st.spentIdx.get h = some set ∧ op ∈ set := by
    intro op hop
    obtain ⟨u, hu, hat⟩ := (Option.any_eq_true _ _).mp (GoMap.mem_keysWhere.mp hop)
    simp only [UTXO.spentAt, Bool.and_eq_true, beq_iff_eq] at hat
    simpa only [hat.2] using hst op u (by simp) hu hat.1
  unfold pruneStripe
  cases hset : st.spentIdx.get h with
  | none =>
    refine (Finset.card_eq_zero.mpr (Finset.eq_empty_of_forall_notMem fun op hop => ?_)).symm
    obtain ⟨set, hset', -⟩ := hidx op hop
    simp [hset] at hset'
  | some set =>
    dsimp only
    rw [GoMap.deleteRange_count]
    congr 1
    ext op
    rw [Finset.mem_filter, GoMap.mem_keysWhere]
    refine and_iff_right_of_imp fun hop => ?_
    obtain ⟨set', hset', hmem⟩ := hidx op (GoMap.mem_keysWhere.mpr hop)
    obtain rfl : set = set' := by simpa [hset] using hset'
    exact hmem

/-- The outpoints spent at a height, in all stripes. -/
def spentKeys (s : Store) (h : UInt32) : Finset Outpoint :=
  (Finset.range 256).biUnion fun i => (s.st (UInt8.ofNat i)).utxo.keysWhere (·.spentAt h)

lemma mem_spentKeys (ho : s.Owned) {h : UInt32} {op : Outpoint} :
    op ∈ s.spentKeys h ↔ (s.getUTXO op).any (·.spentAt h) = true := by
  simp only [spentKeys, Finset.mem_biUnion, Finset.mem_range, GoMap.mem_keysWhere]
  constructor
  · rintro ⟨i, -, hop⟩
    have hstripe : striperOf op.txID = UInt8.ofNat i := ho _ op fun hnone => by simp [hnone] at hop
    rwa [getUTXO, hstripe]
  · intro hop
    exact ⟨(striperOf op.txID).toNat, (striperOf op.txID).toNat_lt, by rwa [UInt8.ofNat_toNat]⟩

lemma pruneSpentAtHeight_count (hs : s.Indexed) (ho : s.Owned) (h : UInt32) :
    (s.pruneSpentAtHeight h).1 = (s.spentKeys h).card := by
  have hdisj : ∀ i ∈ Finset.range 256, ∀ j ∈ Finset.range 256, i ≠ j →
      Disjoint ((s.st (UInt8.ofNat i)).utxo.keysWhere (·.spentAt h))
          ((s.st (UInt8.ofNat j)).utxo.keysWhere (·.spentAt h)) := by
    intro i hi j hj hij
    refine Finset.disjoint_left.mpr fun op hop hop' => hij ?_
    rw [GoMap.mem_keysWhere] at hop hop'
    have hi' : striperOf op.txID = UInt8.ofNat i := ho _ op fun hnone => by simp [hnone] at hop
    have hj' : striperOf op.txID = UInt8.ofNat j := ho _ op fun hnone => by simp [hnone] at hop'
    have := congrArg UInt8.toNat (hi'.symm.trans hj')
    rwa [UInt8.toNat_ofNat_of_lt' (Finset.mem_range.mp hi),
      UInt8.toNat_ofNat_of_lt' (Finset.mem_range.mp hj)] at this
  rw [spentKeys, Finset.card_biUnion hdisj,
    ← Finset.sum_congr rfl fun i _ => pruneStripe_count (hs (UInt8.ofNat i)) h]
  rfl

end Mem.Store

/-! ### The striped store against one map -/

structure HoldsRecords (s : Mem.Store) (m : GoMap Outpoint UTXO) : Prop where
  indexed : s.Indexed
  owned : s.Owned
  get : ∀ op, m.get op = s.getUTXO op

namespace HoldsRecords

variable {s : Mem.Store} {m : GoMap Outpoint UTXO}

lemma new : HoldsRecords Mem.new .empty :=
  ⟨Mem.Store.new_indexed, Mem.Store.new_owned, fun _ => rfl⟩

lemma write (hm : HoldsRecords s m) (c : Call) {m' : GoMap Outpoint UTXO}
    (hm' : ∀ op, m'.get op = c.cell op (m.get op)) : HoldsRecords (s.apply c) m' := by
  refine ⟨hm.indexed.apply c, hm.owned.apply hm.indexed c, fun op => ?_⟩
  rw [hm', hm.get]
  have happly := congrFun (congrArg Flat.utxo (Mem.Store.flatten_apply hm.indexed c)) op
  rw [Flat.apply_utxo] at happly
  exact happly.symm

lemma step (hm : HoldsRecords s m) (r : UtxoRequest) :
    ∃ s', (r.request.serve.run.run s : _ × Mem.Store) = (.ok (r.onMap m).1, s') ∧
      HoldsRecords s' (r.onMap m).2 := by
  cases r with
  | getUTXO op => exact ⟨s, by rw [UtxoRequest.onMap, hm.get]; rfl, hm⟩
  | putUTXO op u =>
    refine ⟨_, Mem.Store.serve_write s (.putUTXO op u), hm.write (.putUTXO op u) fun op' => ?_⟩
    exact GoMap.get_set m op op' u
  | spendUTXO op spentBy h =>
    have hs' := Mem.Store.serve_write s (.spendUTXO op spentBy h)
    simp only [Mem.Store.reply, Mem.Store.spendUTXO_fst, ← hm.get] at hs'
    refine ⟨_, hs'.trans ?_, hm.write (.spendUTXO op spentBy h) fun op' => ?_⟩
    · cases hu : m.get op <;> simp [UtxoRequest.onMap, hu]
    · cases hu : m.get op <;> simp only [UtxoRequest.onMap, hu, Call.cell, GoMap.get_set] <;>
        split_ifs <;> simp_all
  | unspendUTXO op =>
    have hs' := Mem.Store.serve_write s (.unspendUTXO op)
    simp only [Mem.Store.reply, Mem.Store.unspendUTXO_fst, ← hm.get] at hs'
    refine ⟨_, hs'.trans ?_, hm.write (.unspendUTXO op) fun op' => ?_⟩
    · cases hu : m.get op <;> simp [UtxoRequest.onMap, hu]
    · cases hu : m.get op <;> simp only [UtxoRequest.onMap, hu, Call.cell, GoMap.get_set] <;>
        split_ifs <;> simp_all
  | deleteUTXO op =>
    have hs' := Mem.Store.serve_write s (.deleteUTXO op)
    simp only [Mem.Store.reply, Mem.Store.deleteUTXO_fst, ← hm.get] at hs'
    exact ⟨_, hs', hm.write (.deleteUTXO op) fun op' => GoMap.get_delete m op op'⟩
  | pruneSpentAtHeight h =>
    have hs' := Mem.Store.serve_write s (.pruneSpentAtHeight h)
    have hkeys : s.spentKeys h = m.keysWhere (·.spentAt h) := by
      ext op
      rw [Mem.Store.mem_spentKeys hm.owned, GoMap.mem_keysWhere, hm.get]
    simp only [Mem.Store.reply, Mem.Store.pruneSpentAtHeight_count hm.indexed hm.owned, hkeys]
      at hs'
    exact ⟨_, hs', hm.write (.pruneSpentAtHeight h) fun op => GoMap.get_reject m _ op⟩

lemma run (hm : HoldsRecords s m) (rs : List UtxoRequest) :
    answers (rs.map UtxoRequest.request) s = (UtxoRequest.mapAnswers rs m).map .ok ∧
      ∃ m', HoldsRecords (after (rs.map UtxoRequest.request) s) m' := by
  induction rs generalizing s m with
  | nil => exact ⟨rfl, m, hm⟩
  | cons r rs ih =>
    obtain ⟨s', hs', hm'⟩ := hm.step r
    obtain ⟨hans, hafter⟩ := ih hm'
    refine ⟨?_, ?_⟩
    · rw [List.map_cons, answers_cons, hs', hans]
      rfl
    · rw [List.map_cons, after, List.foldl_cons, hs']
      exact hafter

end HoldsRecords

/-- **The striped records are one map.** A new store answers requests about records, in any order
and number, as one map in which a prune is a filter; and whatever the requests before it, a prune
removes the records spent at its height and leaves the others as they are. -/
theorem utxo_eq_map (rs : List UtxoRequest) :
    answers (rs.map UtxoRequest.request) Mem.new = (UtxoRequest.mapAnswers rs .empty).map .ok ∧
    ∀ h op, ((after (rs.map UtxoRequest.request) Mem.new).pruneSpentAtHeight h).2.getUTXO op =
      ((after (rs.map UtxoRequest.request) Mem.new).getUTXO op).filter fun u =>
        !(u.spent && u.spentHeight == h) := by
  obtain ⟨hans, m, hm⟩ := HoldsRecords.new.run rs
  exact ⟨hans, fun h op => Mem.pruneStripe_utxo (hm.indexed _) h op⟩

end MemServe
