import MemServe.IndexWindow
import MemServe.Server
import MemServe.Sha256Eval

/-!
Proofs assembled while the store is written.

`Build` reads three records under three locks and sees no snapshot: between two reads the
transaction may be indexed in another block, and the block or the subtree may go. What carries over
is where records come from. Every record there ever was to read was written for a block that checks
out, and the records of such blocks fit together.
-/

namespace MemServe

open Teranode Ingest

/-- What writes to the store. -/
inductive Activity
  | ingest (ing : Ingestor) (b : Block)
  | rollback (ing : Ingestor) (b : Block)
  | prune (pr : Prune.Pruner) (tip : UInt32)

namespace Activity

def calls (a : Activity) : List Call :=
  match a with
  | .ingest ing b => ingestCalls ing b
  | .rollback ing b => rollbackCalls ing b
  | .prune pr tip => pruneCalls pr tip

/-- It stores no block other than those of `bs`. -/
def On (bs : Set Block) (a : Activity) : Prop :=
  match a with
  | .ingest _ b => b ∈ bs
  | _ => True

end Activity

/-- The writes of calls made one after the other, starting on `s`. -/
def Call.writesFrom : List Call → Mem.Store → List Write
  | [], _ => []
  | c :: cs, s => c.writes s ++ writesFrom cs (s.apply c)

lemma Call.run_writesFrom (cs : List Call) (s : Mem.Store) :
    Trace.run Write.apply (writesFrom cs s) s = s.run cs := by
  induction cs generalizing s with
  | nil => rfl
  | cons c cs ih =>
    rw [writesFrom, Trace.run_append, run_writes, ih]
    rfl

lemma Call.mem_writesFrom {cs : List Call} {s : Mem.Store} {w : Write} (h : w ∈ writesFrom cs s) :
    ∃ c ∈ cs, ∃ s', w ∈ c.writes s' := by
  induction cs generalizing s with
  | nil => exact absurd h List.not_mem_nil
  | cons c cs ih =>
    rcases List.mem_append.mp h with h | h
    · exact ⟨c, List.mem_cons_self, s, h⟩
    · obtain ⟨c', hc', s', hw⟩ := ih h
      exact ⟨c', List.mem_cons_of_mem c hc', s', hw⟩

/-- The writes of an activity that nobody disturbs. -/
def Activity.writes (a : Activity) (s : Mem.Store) : List Write := Call.writesFrom a.calls s

/-- A write of an activity. Others may write the index of heights while a prune runs, so the entry
it takes there may be that of any store. -/
def Write.Of (bs : Set Block) (w : Write) : Prop :=
  ∃ a : Activity, a.On bs ∧ ∃ c ∈ a.calls, ∃ s, w ∈ c.writes s

lemma Activity.On.of_mem_writes {bs : Set Block} {a : Activity} (h : a.On bs) {s : Mem.Store}
    {w : Write}
    (hw : w ∈ a.writes s) : w.Of bs :=
  ⟨a, h, Call.mem_writesFrom hw⟩

/-- Where `Build` stands between its reads. -/
inductive Reader
  | start (txid : Hash)
  | indexed (txid : Hash) (ix : TxIndex)
  | located (txid : Hash) (ix : TxIndex) (blk : BlockRec) (subtreeRoot : Hash)
  | done (r : Except Proof.Error Proof)

namespace Reader

/-- `Build` has returned a proof. -/
def proved : Reader → Bool
  | .done (.ok _) => true
  | _ => false

/-- One read of the store, with what `Build` does before the next one. -/
def read (r : Reader) (s : Mem.Store) : Reader :=
  match r with
  | .start txid =>
    match s.getTxIndex txid with
    | none => .done (.error .notMined)
    | some ix => if !ix.mined then .done (.error .notMined) else .indexed txid ix
  | .indexed txid ix =>
    match s.getBlock ix.blockHash with
    | none => .done (.error .inconsistent)
    | some blk =>
      match blk.subtreeRoots[ix.subtreeIndex.toNat]? with
      | none => .done (.error .inconsistent)
      | some subtreeRoot => .located txid ix blk subtreeRoot
  | .located txid ix blk subtreeRoot =>
    match s.getSubtree subtreeRoot with
    | none => .done (.error .inconsistent)
    | some leaves =>
      if leaves.length ≤ ix.leafIndex.toNat then .done (.error .inconsistent)
      else .done ((Proof.assemble txid ix blk subtreeRoot leaves).mapError .commitment)
  | .done r => .done r

lemma read_alone (txid : Hash) (s : Mem.Store) :
    (((Reader.start txid).read s).read s).read s = .done ((Proof.build txid).run.run s).1 := by
  have hbuild : ((Proof.build txid).run.run s).1 = s.flatten.merklePath txid :=
    congrArg Prod.fst (merklePath_mem s txid)
  rw [hbuild]
  simp only [Flat.merklePath, Mem.Store.flatten]
  cases htx : s.getTxIndex txid with
  | none => simp only [read, htx]
  | some ix =>
    cases hm : ix.mined with
    | false => simp [read, htx, hm]
    | true =>
      have hfirst : (Reader.start txid).read s = .indexed txid ix := by simp [read, htx, hm]
      rw [hfirst]
      cases hblk : s.getBlock ix.blockHash with
      | none => simp [read, hm, hblk]
      | some blk =>
        cases hroot : blk.subtreeRoots[ix.subtreeIndex.toNat]? with
        | none => simp [read, hm, hblk, hroot]
        | some subtreeRoot =>
          have hsecond : (Reader.indexed txid ix).read s = .located txid ix blk subtreeRoot := by
            simp only [read, hblk, hroot]
          rw [hsecond]
          cases hsub : s.getSubtree subtreeRoot with
          | none => simp [read, hm, hblk, hroot, hsub]
          | some leaves =>
            simp only [read, hm, hblk, hroot, hsub, Bool.not_true, Bool.false_eq_true, if_false]
            split_ifs <;> rfl

def left (r : Reader) : ℕ :=
  match r with
  | .start _ => 3
  | .indexed .. => 2
  | .located .. => 1
  | .done _ => 0

lemma left_read (r : Reader) (s : Mem.Store) : (r.read s).left ≤ r.left - 1 := by
  cases r with
  | start txid =>
    simp only [read]
    split
    · exact Nat.zero_le _
    · split_ifs
      · exact Nat.zero_le _
      · exact le_rfl
  | indexed txid ix =>
    simp only [read]
    split
    · exact Nat.zero_le _
    · split
      · exact Nat.zero_le _
      · exact le_rfl
  | located txid ix blk subtreeRoot =>
    simp only [read]
    split
    · exact le_rfl
    · split_ifs <;> exact le_rfl
  | done r => exact le_rfl

lemma left_eq_zero {r : Reader} (h : r.left = 0) : ∃ res, r = .done res := by
  cases r with
  | done res => exact ⟨res, rfl⟩
  | _ => exact nomatch h

end Reader

/-! ### The interleaving -/

/-- A step of a run: somebody writes, or the reader reads. -/
inductive Access
  | write (w : Write)
  | read

namespace Access

def isRead (e : Access) : Bool :=
  match e with
  | .write _ => false
  | .read => true

@[simp] lemma isRead_write (w : Write) : (Access.write w).isRead = false := rfl
@[simp] lemma isRead_read : Access.read.isRead = true := rfl

def step (e : Access) (p : Mem.Store × Reader) : Mem.Store × Reader :=
  match e with
  | .write w => (w.apply p.1, p.2)
  | .read => (p.1, p.2.read p.1)

lemma run_writes (ws : List Write) (s : Mem.Store) (r : Reader) :
    Trace.run step (ws.map .write) (s, r) = (Trace.run Write.apply ws s, r) := by
  induction ws generalizing s with
  | nil => rfl
  | cons w ws ih => exact ih (w.apply s)

lemma left_run (es : List Access) (p : Mem.Store × Reader) :
    (Trace.run step es p).2.left ≤ p.2.left - es.countP isRead := by
  induction es generalizing p with
  | nil => exact le_rfl
  | cons e es ih =>
    rw [Trace.run_cons]
    have htail := ih (e.step p)
    cases e with
    | write w => simpa [step, isRead] using htail
    | read =>
      have hread := p.2.left_read p.1
      simp only [step] at htail ⊢
      rw [List.countP_cons_of_pos rfl]
      omega

end Access

/-- What the blocks that are stored have in common: they check out, one hash stands for one record
and one root for one list of leaves. -/
structure Coherent (bs : Set Block) : Prop where
  valid : ∀ b ∈ bs, validateBlock b = true
  parallel : ∀ b ∈ bs, b.Parallel
  leaves : ∀ b ∈ bs, ∀ sub ∈ b.subtrees, sub.txIDs.length ≤ 2 ^ 20
  blocks : ∀ b ∈ bs, ∀ c ∈ bs, b.hash = c.hash → blockRec b = blockRec c
  subtrees : ∀ b ∈ bs, ∀ c ∈ bs, ∀ sub ∈ b.subtrees,
    ∀ sub' ∈ c.subtrees, sub.root = sub'.root → sub.txIDs = sub'.txIDs

/-- The index entry of `t` in one of the blocks. -/
def EntryOf (bs : Set Block) (t : Hash) (ix : TxIndex) : Prop :=
  ∃ b ∈ bs, ∃ (si li : ℕ) (sub : Subtree) (tx : Tx), b.subtrees[si]? = some sub ∧
    sub.txs[li]? = some tx ∧
    tx.txID = t ∧ ix = indexEntry b si li

@[inherit_doc EntryOf]
def RecordOf (bs : Set Block) (hash : Hash) (r : BlockRec) : Prop :=
  ∃ b ∈ bs, b.hash = hash ∧ r = blockRec b

@[inherit_doc EntryOf]
def LeavesOf (bs : Set Block) (root : Hash) (l : List Hash) : Prop :=
  ∃ b ∈ bs, ∃ sub ∈ b.subtrees, sub.root = root ∧ sub.txIDs = l

/-- Every record that `Build` may read was written for one of the blocks. -/
structure Recorded (bs : Set Block) (f : Flat) : Prop where
  txindex : ∀ t ix, f.txindex t = some ix → EntryOf bs t ix
  blocks : ∀ hash r, f.blocks hash = some r → RecordOf bs hash r
  subtree : ∀ root l, f.subtree root = some l → LeavesOf bs root l

lemma recorded_empty (bs : Set Block) : Recorded bs .empty :=
  ⟨fun _ _ h => (nomatch h), fun _ _ h => (nomatch h), fun _ _ h => (nomatch h)⟩

lemma Write.indexed_apply (w : Write) {s : Mem.Store} (hs : s.Indexed) : (w.apply s).Indexed := by
  cases w with
  | call c => exact hs.apply c
  | pruneStripe h i =>
    intro j
    by_cases hj : j = i
    · subst hj
      simpa [apply] using Mem.pruneStripe_indexed (hs j) h
    · simpa [apply, hj] using hs j
  | popEntry h => exact hs
  | pruneBlock hash => exact (Mem.Store.SameRecords.pruneBlock s hash).indexed hs
  | pruneSubtree root => exact (Mem.Store.SameRecords.pruneSubtree s root).indexed hs
  | pruneTx txid => exact (Mem.Store.SameRecords.pruneTx s txid).indexed hs
  | pruneHeader h =>
    refine Mem.Store.SameRecords.indexed (s := s) (fun i => ?_) hs
    simp only [apply, Mem.Store.pruneHeader]
    split <;> exact ⟨rfl, rfl⟩

lemma Write.flatten_call {s : Mem.Store} (hs : s.Indexed) (c : Call) :
    ((Write.call c).apply s).flatten = s.flatten.apply c :=
  Mem.Store.flatten_apply hs c

/-- Writes that put a record which `Build` may read. -/
def Write.adds (w : Write) : Bool :=
  match w with
  | .call (.putTxIndex ..) | .call (.putSubtree ..) | .call (.putBlock ..) => true
  | _ => false

/-- What `Build` may read of one store is in the other. -/
structure Flat.Within (f g : Flat) : Prop where
  txindex : ∀ t ix, f.txindex t = some ix → g.txindex t = some ix
  blocks : ∀ hash r, f.blocks hash = some r → g.blocks hash = some r
  subtree : ∀ root l, f.subtree root = some l → g.subtree root = some l

namespace Flat

lemma Within.of_eq {f g : Flat} (ht : f.txindex = g.txindex) (hb : f.blocks = g.blocks)
    (hs : f.subtree = g.subtree) :
    f.Within g :=
  ⟨fun _ _ h => ht ▸ h, fun _ _ h => hb ▸ h, fun _ _ h => hs ▸ h⟩

lemma Within.trans {f g k : Flat} (h : f.Within g) (h' : g.Within k) : f.Within k :=
  ⟨fun t ix e => h'.txindex t ix (h.txindex t ix e), fun x r e => h'.blocks x r (h.blocks x r e),
    fun x l e => h'.subtree x l (h.subtree x l e)⟩

lemma dropTxs_within (l : List Hash) (f : Flat) : (f.dropTxs l).Within f := by
  refine ⟨fun t ix h => ?_, fun _ _ h => h, fun _ _ h => h⟩
  simp only [dropTxs] at h
  split_ifs at h
  exact h

lemma dropSubtrees_within (l : List Hash) (f : Flat) : (f.dropSubtrees l).Within f := by
  refine ⟨fun _ _ h => h, fun _ _ h => h, fun root leaves h => ?_⟩
  simp only [dropSubtrees] at h
  split_ifs at h
  exact h

lemma dropBlock_within (hash : Hash) (f : Flat) : (f.dropBlock hash).Within f := by
  refine ⟨fun _ _ h => h, fun x r h => ?_, fun _ _ h => h⟩
  simp only [dropBlock, Function.update_apply] at h
  split_ifs at h
  exact h

end Flat

lemma Write.st_pruneStripe (h : UInt32) (i : UInt8) (s : Mem.Store) (j : UInt8) :
    (((Write.pruneStripe h i).apply s).st j).txindex = (s.st j).txindex ∧
      (((Write.pruneStripe h i).apply s).st j).blocks = (s.st j).blocks ∧
      (((Write.pruneStripe h i).apply s).st j).subtree = (s.st j).subtree := by
  by_cases hj : j = i
  · subst hj
    simp [apply]
  · simp [apply, hj]

lemma Write.within {w : Write} (hw : w.adds = false) {s : Mem.Store} (hs : s.Indexed) :
    (w.apply s).flatten.Within s.flatten := by
  cases w with
  | call c =>
    rw [flatten_call hs]
    cases c with
    | putTxIndex | putSubtree | putBlock => exact nomatch hw
    | deleteTxIndex txid =>
      refine ⟨fun t ix h => ?_, fun _ _ h => h, fun _ _ h => h⟩
      simp only [Flat.apply, Function.update_apply] at h
      split_ifs at h
      exact h
    | pruneIndexAtHeight h =>
      refine (Flat.dropTxs_within _ _).trans ((Flat.dropSubtrees_within _ _).trans ?_)
      split_ifs
      · exact (Flat.dropBlock_within _ _).trans (.of_eq rfl rfl rfl)
      · exact .of_eq rfl rfl rfl
    | _ => exact .of_eq rfl rfl rfl
  | pruneStripe h i =>
    have hst := Write.st_pruneStripe h i s
    refine .of_eq (funext fun t => ?_) (funext fun x => ?_) (funext fun r => ?_)
    · exact congrArg (·.get t) (hst _).1
    · exact congrArg (·.get x) (hst _).2.1
    · exact congrArg (·.get r) (hst _).2.2
  | popEntry h => exact .of_eq rfl rfl rfl
  | pruneBlock hash =>
    exact Mem.Store.flatten_pruneBlock s hash ▸ Flat.dropBlock_within hash s.flatten
  | pruneSubtree root =>
    exact Mem.Store.flatten_pruneSubtree s root ▸ Flat.dropSubtrees_within [root] s.flatten
  | pruneTx txid => exact Mem.Store.flatten_pruneTx s txid ▸ Flat.dropTxs_within [txid] s.flatten
  | pruneHeader h =>
    change (s.pruneHeader h).2.flatten.Within s.flatten
    rw [Mem.Store.flatten_pruneHeader]
    exact .of_eq rfl rfl rfl

lemma Recorded.of_within {bs : Set Block} {f g : Flat} (h : Recorded bs g) (hw : f.Within g) :
    Recorded bs f :=
  ⟨fun t ix e => h.txindex t ix (hw.txindex t ix e), fun x r e => h.blocks x r (hw.blocks x r e),
    fun x l e => h.subtree x l (hw.subtree x l e)⟩

lemma Call.eq_of_adds {c : Call} {s : Mem.Store} {w : Write} (h : w ∈ c.writes s)
    (hadds : w.adds = true) :
    w = .call c := by
  cases c with
  | pruneSpentAtHeight a =>
    obtain ⟨i, -, rfl⟩ := List.mem_map.mp h
    exact nomatch hadds
  | pruneIndexAtHeight a =>
    exfalso
    rcases List.mem_cons.mp h with rfl | h
    · exact nomatch hadds
    rcases List.mem_append.mp h with h | h
    · cases hent : s.hidx.get a with
      | none => simp [hent] at h
      | some e =>
        simp only [hent, Option.elim, entryWrites, List.mem_append, List.mem_map] at h
        rcases h with h | ⟨r, -, rfl⟩ | ⟨t, -, rfl⟩
        · split_ifs at h
          · exact absurd hadds (by simp [List.mem_singleton.mp h, Write.adds])
          · exact absurd h List.not_mem_nil
        · exact nomatch hadds
        · exact nomatch hadds
    · exact absurd hadds (by simp [List.mem_singleton.mp h, Write.adds])
  | _ => exact List.mem_singleton.mp h

lemma pruneCalls_adds {pr : Prune.Pruner} {tip : UInt32} {c : Call} (h : c ∈ pruneCalls pr tip) :
    (Write.call c).adds = false := by
  rcases List.mem_append.mp h with h | h
  · obtain ⟨a, -, rfl⟩ := List.mem_map.mp h
    rfl
  · split_ifs at h
    · obtain ⟨a, -, rfl⟩ := List.mem_map.mp h
      rfl
    · exact absurd h List.not_mem_nil

lemma undoCalls_adds {tx : Tx} {c : Call} (h : c ∈ undoCalls tx) : (Write.call c).adds = false := by
  simp only [undoCalls, List.mem_append, List.mem_map, List.mem_singleton] at h
  rcases h with (⟨op, -, rfl⟩ | ⟨vout, -, rfl⟩) | rfl <;> rfl

lemma rollbackCalls_adds {ing : Ingestor} {b : Block} {c : Call} (h : c ∈ rollbackCalls ing b) :
    (Write.call c).adds = false := by
  obtain ⟨sub, -, h⟩ := List.mem_flatMap.mp h
  obtain ⟨tx, -, h⟩ := List.mem_flatMap.mp h
  split_ifs at h
  · exact undoCalls_adds h
  · exact absurd h List.not_mem_nil

lemma indexCalls_adds {ing : Ingestor} {b : Block} {c : Call} (h : c ∈ indexCalls ing b)
    (hadds : (Write.call c).adds = true) :
    (∃ (si li : ℕ) (sub : Subtree) (tx : Tx), b.subtrees[si]? = some sub ∧ sub.txs[li]? = some tx ∧
        c = .putTxIndex tx.txID (indexEntry b si li)) ∨
      c = .putBlock (blockRec b) ∨ ∃ sub ∈ b.subtrees, c = .putSubtree sub.root sub.txIDs := by
  rcases List.mem_append.mp h with h | h
  · obtain ⟨sub, hsub, h⟩ := List.mem_flatMap.mp h
    split_ifs at h
    · exact .inr (.inr ⟨sub, hsub, List.mem_singleton.mp h⟩)
    · exact absurd h List.not_mem_nil
  rcases List.mem_cons.mp h with rfl | h
  · exact .inr (.inl rfl)
  rcases List.mem_cons.mp h with rfl | h
  · exact nomatch hadds
  obtain ⟨⟨sub, si⟩, hsub, h⟩ := List.mem_flatMap.mp h
  obtain ⟨⟨tx, li⟩, htx, h⟩ := List.mem_flatMap.mp h
  split_ifs at h
  · rcases List.mem_cons.mp h with rfl | h
    · exact .inl ⟨si, li, sub, tx, List.mk_mem_zipIdx_iff_getElem?.mp hsub,
        List.mk_mem_zipIdx_iff_getElem?.mp htx, rfl⟩
    · rcases List.mem_append.mp h with h | h
      · obtain ⟨op, -, rfl⟩ := List.mem_map.mp h
        exact nomatch hadds
      · obtain ⟨o, -, rfl⟩ := List.mem_map.mp h
        exact nomatch hadds
  · exact absurd h List.not_mem_nil

/-- **What is put.** A write of an activity that puts a record puts one of its block. -/
lemma Write.Of.adds_cases {bs : Set Block} {w : Write} (h : w.Of bs) (hadds : w.adds = true) :
    (∃ t ix, w = .call (.putTxIndex t ix) ∧ EntryOf bs t ix) ∨
      (∃ r, w = .call (.putBlock r) ∧ RecordOf bs r.hash r) ∨
      (∃ root l, w = .call (.putSubtree root l) ∧ LeavesOf bs root l) := by
  obtain ⟨a, ha, c, hc, s, hw⟩ := h
  obtain rfl := Call.eq_of_adds hw hadds
  cases a with
  | ingest ing b =>
    rcases List.mem_append.mp hc with hc | hc
    · rcases indexCalls_adds hc hadds with
        ⟨si, li, sub, tx, hsub, htx, rfl⟩ | rfl | ⟨sub, hsub, rfl⟩
      · exact .inl ⟨_, _, rfl, b, ha, si, li, sub, tx, hsub, htx, rfl, rfl⟩
      · exact .inr (.inl ⟨_, rfl, b, ha, rfl, rfl⟩)
      · exact .inr (.inr ⟨_, _, rfl, b, ha, sub, hsub, rfl, rfl⟩)
    · cases hp : ing.pruner with
      | none => simp [hp] at hc
      | some pr =>
        rw [hp] at hc
        rw [pruneCalls_adds hc] at hadds
        exact nomatch hadds
  | rollback ing b =>
    rw [rollbackCalls_adds hc] at hadds
    exact nomatch hadds
  | prune pr tip =>
    rw [pruneCalls_adds hc] at hadds
    exact nomatch hadds

lemma Recorded.apply {bs : Set Block} {s : Mem.Store} (h : Recorded bs s.flatten) (hs : s.Indexed)
    {w : Write}
    (hw : w.Of bs) : Recorded bs (w.apply s).flatten := by
  cases hadds : w.adds with
  | false => exact h.of_within (w.within hadds hs)
  | true =>
    rcases hw.adds_cases hadds with ⟨t, ix, rfl, hix⟩ | ⟨r, rfl, hr⟩ | ⟨root, l, rfl, hl⟩
    · rw [Write.flatten_call hs]
      refine ⟨fun t' ix' e => ?_, h.blocks, h.subtree⟩
      rcases GoMap.update_eq_some e with ⟨rfl, rfl⟩ | ⟨-, e⟩
      · exact hix
      · exact h.txindex t' ix' e
    · rw [Write.flatten_call hs]
      refine ⟨h.txindex, fun x r' e => ?_, h.subtree⟩
      rcases GoMap.update_eq_some e with ⟨rfl, rfl⟩ | ⟨-, e⟩
      · exact hr
      · exact h.blocks x r' e
    · rw [Write.flatten_call hs]
      refine ⟨h.txindex, h.blocks, fun x l' e => ?_⟩
      rcases GoMap.update_eq_some e with ⟨rfl, rfl⟩ | ⟨-, e⟩
      · exact hl
      · exact h.subtree x l' e

/-! ### What the reader holds -/

/-- A proof that a client may rely on. -/
def Proof.Right (txid : Hash) (p : Proof) : Prop :=
  p.leaf = txid ∧ p.verify = true ∧ p.blockRoot = Proof.headerMerkleRoot p.header

/-- What the reader has read was written for the blocks. -/
def Reader.Sound (bs : Set Block) (txid : Hash) (r : Reader) : Prop :=
  match r with
  | .start t => t = txid
  | .indexed t ix => t = txid ∧ EntryOf bs t ix
  | .located t ix blk root => t = txid ∧ EntryOf bs t ix ∧ RecordOf bs ix.blockHash blk ∧
      blk.subtreeRoots[ix.subtreeIndex.toNat]? = some root
  | .done res => ∀ p, res = .ok p → p.Right txid

/-- What holds between two steps of a run. -/
def Access.Inv (bs : Set Block) (txid : Hash) (p : Mem.Store × Reader) : Prop :=
  p.1.Indexed ∧ Recorded bs p.1.flatten ∧ p.2.Sound bs txid

section

variable {bs : Set Block} (hbs : Coherent bs) (hcount : ∀ b ∈ bs, b.subtrees.length ≤ 2 ^ 32)

include hbs hcount

/-- **Records of the blocks fit together**, however old each of them is. -/
lemma assemble_right {t root : Hash} {ix : TxIndex} {blk : BlockRec} {leaves : List Hash}
    (hix : EntryOf bs t ix) (hblk : RecordOf bs ix.blockHash blk)
    (hroot : blk.subtreeRoots[ix.subtreeIndex.toNat]? = some root)
    (hleaves : LeavesOf bs root leaves) :
    ∃ p, Proof.assemble t ix blk root leaves = .ok p ∧ p.Right t := by
  obtain ⟨b, hb, si, li, sub, tx, hsi, hli, rfl, rfl⟩ := hix
  obtain ⟨c, hc, hhash, rfl⟩ := hblk
  obtain ⟨d, hd, sub', hsub', hroot', rfl⟩ := hleaves
  have hmem : sub ∈ b.subtrees := List.mem_of_getElem? hsi
  obtain ⟨hplace, -, p, hp, hright⟩ :=
    assemble_placed (hbs.valid b hb) (hbs.parallel b hb) (hbs.leaves b hb) (hcount b hb) hsi hli
  -- the block record and the leaves are those of the block the entry was written for
  rw [hbs.blocks c hc b hb hhash] at hroot ⊢
  obtain rfl : sub.root = root := Option.some.inj (hplace.symm.trans hroot)
  rw [hbs.subtrees d hd b hb sub' hsub' sub hmem hroot']
  exact ⟨p, hp, hright⟩

lemma Reader.Sound.read {txid : Hash} {r : Reader} (h : r.Sound bs txid) {s : Mem.Store}
    (hs : Recorded bs s.flatten) :
    (r.read s).Sound bs txid := by
  cases r with
  | start t =>
    obtain rfl : t = txid := h
    simp only [Reader.read]
    split
    · exact nofun
    · rename_i ix hix
      split_ifs
      · exact nofun
      · exact ⟨rfl, hs.txindex _ ix hix⟩
  | indexed t ix =>
    obtain ⟨rfl, hix⟩ := h
    simp only [Reader.read]
    split
    · exact nofun
    · rename_i blk hblk
      split
      · exact nofun
      · rename_i root hroot
        exact ⟨rfl, hix, hs.blocks _ blk hblk, hroot⟩
  | located t ix blk root =>
    obtain ⟨rfl, hix, hblk, hroot⟩ := h
    simp only [Reader.read]
    split
    · exact nofun
    · rename_i leaves hleaves
      split_ifs
      · exact nofun
      · intro p hp
        obtain ⟨q, hq, hright⟩ :=
          assemble_right hbs hcount hix hblk hroot (hs.subtree _ leaves hleaves)
        rw [hq] at hp
        cases hp
        exact hright
  | done res => exact h

/-- **One step**, of a writer or of the reader. -/
lemma Access.Inv.step {txid : Hash} {p : Mem.Store × Reader} (h : Inv bs txid p) {e : Access}
    (he : ∀ w, e = .write w → w.Of bs) : Inv bs txid (e.step p) := by
  obtain ⟨hs, hrec, hsound⟩ := h
  cases e with
  | write w => exact ⟨w.indexed_apply hs, hrec.apply hs (he w rfl), hsound⟩
  | read => exact ⟨hs, hrec, hsound.read hbs hcount hrec⟩

/-- **A whole run.** -/
lemma Access.inv_run (txid : Hash) {es : List Access} (hes : ∀ w, .write w ∈ es → w.Of bs) :
    Inv bs txid (Trace.run step es (Mem.new, .start txid)) := by
  refine Trace.run_invariant step (fun e he p hp => ?_)
    ⟨Mem.Store.new_indexed, recorded_empty bs, rfl⟩
  refine hp.step hbs hcount fun w hw => ?_
  exact hes w (hw ▸ he)

end

/-- **Proofs built during concurrent ingest are never wrong.** Whatever ingests, rollbacks and
prunes of coherent blocks write between the reads, once `Build` has done its three reads it has an
error, or a proof of the transaction that verifies against the header. The number of a subtree is
recorded in 32 bits, hence the bound on subtrees. -/
theorem proof_never_wrong (bs : Set Block) (hbs : Coherent bs)
    (hcount : ∀ b ∈ bs, b.subtrees.length ≤ 2 ^ 32) (txid : Hash) (es : List Access)
    (hes : ∀ w, .write w ∈ es → w.Of bs) (hreads : 3 ≤ es.countP Access.isRead) :
    (∃ e, (Trace.run Access.step es (Mem.new, .start txid)).2 = .done (.error e)) ∨
      ∃ p, (Trace.run Access.step es (Mem.new, .start txid)).2 = .done (.ok p) ∧ p.leaf = txid ∧
        p.verify = true ∧
        p.blockRoot = Proof.headerMerkleRoot p.header := by
  have hsound := (Access.inv_run hbs hcount txid hes).2.2
  have hleft : (Trace.run Access.step es (Mem.new, .start txid)).2.left ≤
    3 - es.countP Access.isRead :=
    Access.left_run es _
  obtain ⟨res, hres⟩ :=
    Reader.left_eq_zero (by omega : (Trace.run Access.step es (Mem.new, .start txid)).2.left = 0)
  rw [hres] at hsound ⊢
  cases res with
  | error e => exact .inl ⟨e, rfl⟩
  | ok p => exact .inr ⟨p, rfl, hsound p rfl⟩

/-- A transaction without inputs and outputs. -/
def blankTx (n : UInt8) : Tx := ⟨.fill 32 n, [], []⟩

lemma coherent_singleton (h : UInt32) (tx : Tx) : Coherent {sealBlock h [[tx]]} where
  valid := by simp [validateBlock_sealBlock]
  parallel := by simp [sealBlock_parallel]
  leaves := by simp [sealBlock]
  blocks := by simp
  subtrees := by simp [sealBlock]

/-- The transaction is rolled back between the first read and the second. -/
theorem proof_never_wrong_rollback :
    let b := sealBlock 1 [[blankTx 1]]
    let ing := Ingest.new none {}
    let put := (Activity.ingest ing b).writes Mem.new
    let undo := (Activity.rollback ing b).writes (Mem.new.run (ingestCalls ing b))
    ∃ p, (Trace.run Access.step (put.map .write ++ .read :: undo.map .write ++ [.read, .read])
        (Mem.new, .start (.fill 32 1))).2 = .done (.ok p) ∧
      p.leaf = .fill 32 1 ∧ p.verify = true ∧ p.blockRoot = Proof.headerMerkleRoot p.header := by
  intro b ing put undo
  obtain ⟨es, hes⟩ : ∃ es : List Access,
    es = put.map .write ++ .read :: undo.map .write ++ [.read, .read] := ⟨_, rfl⟩
  rw [← hes]
  have hof : ∀ w, .write w ∈ es → w.Of {b} := by
    intro w hw
    have hmem : w ∈ put ∨ w ∈ undo := by simpa [hes] using hw
    rcases hmem with hw | hw
    · exact Activity.On.of_mem_writes (a := .ingest ing b) (Set.mem_singleton b) hw
    · exact Activity.On.of_mem_writes (a := .rollback ing b) trivial hw
  have hreads : 3 ≤ es.countP Access.isRead := by
    simp only [hes, List.countP_append, List.countP_cons, Access.isRead_read, if_true]
    omega
  rcases proof_never_wrong {b} (coherent_singleton 1 (blankTx 1)) (by simp [b, sealBlock])
    (.fill 32 1) es hof hreads
    with ⟨e, he⟩ | hp
  · have hok : (Trace.run Access.step es (Mem.new, .start (.fill 32 1))).2.proved = true := by
      simp only [hes, put, undo, b, ing, sealBlock_singleton]
      decide +kernel
    rw [he] at hok
    exact absurd hok Bool.false_ne_true
  · exact hp

/-! ### Beyond 32 bits of subtrees -/

/-- One subtree with a transaction of its own, then `2 ^ k` subtrees with another one each. -/
def wrapped (k : ℕ) : Block := sealBlock 1 ([blankTx 0] :: List.replicate (2 ^ k) [blankTx 1])

def blankSubtree (n : UInt8) : Subtree := ⟨.fill 32 n, [.fill 32 n], [blankTx n]⟩

lemma wrapped_subtrees (k : ℕ) :
    (wrapped k).subtrees = blankSubtree 0 :: List.replicate (2 ^ k) (blankSubtree 1) := by
  simp [wrapped, sealBlock, blankSubtree, blankTx]

lemma wrapped_subtreeRoots (k : ℕ) :
    (wrapped k).subtreeRoots = .fill 32 0 :: List.replicate (2 ^ k) (.fill 32 1) := by
  simp [wrapped, sealBlock, blankTx]

lemma wrapped_cases {k : ℕ} {sub : Subtree} (h : sub ∈ (wrapped k).subtrees) :
    sub = blankSubtree 0 ∨ sub = blankSubtree 1 := by
  rw [wrapped_subtrees] at h
  rcases List.mem_cons.mp h with h | h
  · exact .inl h
  · exact .inr (List.eq_of_mem_replicate h)

lemma wrapped_coherent (k : ℕ) : Coherent {wrapped k} where
  valid := by
    simp only [Set.mem_singleton_iff, forall_eq]
    refine validateBlock_sealBlock (by simp) fun txs htxs => ?_
    rcases List.mem_cons.mp htxs with rfl | h
    · simp
    · simp [List.eq_of_mem_replicate h]
  parallel := by
    simp only [Set.mem_singleton_iff, forall_eq]
    exact sealBlock_parallel _ _
  leaves := by
    simp only [Set.mem_singleton_iff, forall_eq]
    intro sub hsub
    rcases wrapped_cases hsub with rfl | rfl <;> simp [blankSubtree]
  blocks := by simp
  subtrees := by
    simp only [Set.mem_singleton_iff, forall_eq]
    intro sub hsub sub' hsub' hroot
    rcases wrapped_cases hsub with rfl | rfl <;> rcases wrapped_cases hsub' with rfl | rfl
    · rfl
    · exact absurd hroot (by decide)
    · exact absurd hroot (by decide)
    · rfl

lemma wrapped_entry (k : ℕ) :
    blockEntry (Ingest.new none {}) (wrapped k) (.fill 32 1) =
      some (indexEntry (wrapped k) (2 ^ k) 0) := by
  obtain ⟨m, hm⟩ : ∃ m, 2 ^ k = m + 1 := ⟨2 ^ k - 1, by have := Nat.two_pow_pos k; omega⟩
  have hsubs : (wrapped k).subtrees = (blankSubtree 0 :: List.replicate m (blankSubtree 1)) ++
      [blankSubtree 1] := by
    rw [wrapped_subtrees, hm, List.replicate_succ', List.cons_append]
  rw [blockEntry, placed, hsubs, List.zipIdx_append, List.flatMap_append, List.reverse_append]
  simp [blankSubtree, blankTx, Ingestor.owns, Ingest.new, hm]

lemma wrapped_leaves (k : ℕ) :
    storedLeaves (Ingest.new none {}) (wrapped k) (.fill 32 0) = some [.fill 32 0] := by
  have hfirst : blankSubtree 0 ∈ (wrapped k).subtrees := by simp [wrapped_subtrees]
  cases hl : storedLeaves (Ingest.new none {}) (wrapped k) (.fill 32 0) with
  | none => exact nomatch storedLeaves_none.mp hl (blankSubtree 0) hfirst rfl
  | some l =>
    obtain ⟨sub, hsub, -, hroot, rfl⟩ := storedLeaves_some hl
    rcases wrapped_cases hsub with rfl | rfl
    · rfl
    · exact absurd hroot (by decide)

lemma wrapped_path (k : ℕ) : ∃ l2,
    Commitment.merklePath (MerkleTree.layers Commitment.hashPair (wrapped k).subtreeRoots)
      0 = .ok l2 ∧
      (∀ y, Commitment.fold y l2 = MerkleTree.edge Commitment.hashPair (k + 1) y (.fill 32 1)) ∧
      (wrapped k).merkleRoot = MerkleTree.edge Commitment.hashPair (k + 1) (.fill 32 0)
        (.fill 32 1) := by
  have hbroot := (validateBlock_roots ((wrapped_coherent k).valid _ (Set.mem_singleton _))).2.2.1
  have hfirst : (wrapped k).subtreeRoots[0]? = some (.fill 32 0) := by
    rw [wrapped_subtreeRoots]; rfl
  obtain ⟨p, hp, hfold⟩ := MerkleTree.path_edge Commitment.hashPair k (.fill 32 0) (.fill 32 1)
  rw [← wrapped_subtreeRoots] at hp
  have hpath := Commitment.merklePath_layers (List.getElem?_eq_some_iff.mp hfirst).1 hp
  refine ⟨p.map .ofPair, hpath, fun y => by rw [Commitment.fold_ofPair, hfold], ?_⟩
  -- the path also leads from the first root to that of the block
  obtain ⟨l2, hl2, -, hroot⟩ := Commitment.merklePath_complete hfirst hbroot
  obtain rfl : p.map .ofPair = l2 := Except.ok.inj (hpath.symm.trans hl2)
  rw [← hroot, Commitment.fold_ofPair, hfold]

lemma wrapped_assemble {k : ℕ} (hk : UInt32.ofNat (2 ^ k) = 0) {l2 : List Commitment.PathElem}
    (hl2 : Commitment.merklePath (MerkleTree.layers Commitment.hashPair (wrapped k).subtreeRoots)
      0 = .ok l2) :
    Proof.assemble (.fill 32 1) (indexEntry (wrapped k) (2 ^ k) 0) (blockRec (wrapped k))
      (.fill 32 0) [.fill 32 0] =
      .ok ⟨.fill 32 1, [], .fill 32 0, l2, (wrapped k).merkleRoot, (wrapped k).hash,
        (wrapped k).height,
        (wrapped k).header⟩ := by
  have hsub := Commitment.buildMerkleTree_layers (Commitment.merkleRoot_singleton (.fill 32 0))
  have hsubPath : Commitment.merklePath (MerkleTree.layers Commitment.hashPair [.fill 32 0]) 0 =
    .ok [] := rfl
  have hblk := Commitment.buildMerkleTree_layers
    (validateBlock_roots ((wrapped_coherent k).valid _ (Set.mem_singleton _))).2.2.1
  have hli : (indexEntry (wrapped k) (2 ^ k) 0).leafIndex.toNat = 0 := rfl
  have hsi : (indexEntry (wrapped k) (2 ^ k) 0).subtreeIndex.toNat = 0 := by
    rw [indexEntry, hk]
    rfl
  have hrec : (blockRec (wrapped k)).subtreeRoots = (wrapped k).subtreeRoots := rfl
  rw [Proof.assemble, hli, hsi, hrec, hsub, hblk]
  simp only [bind, Except.bind, hsubPath, hl2]
  rfl

/-- **The path of the first subtree is served for the last one**: it verifies only if the two leaves
fold to the same root. -/
lemma wrapped_build {k : ℕ} (hk : UInt32.ofNat (2 ^ k) = 0) :
    ∃ p, (Mem.new.run (ingestCalls (Ingest.new none {}) (wrapped k))).flatten.merklePath
      (.fill 32 1) = .ok p ∧
      p.leaf = .fill 32 1 ∧ (p.verify = true →
        MerkleTree.edge Commitment.hashPair (k + 1) (.fill 32 1) (.fill 32 1) =
          MerkleTree.edge Commitment.hashPair (k + 1) (.fill 32 0) (.fill 32 1)) := by
  have hcalls : ingestCalls (Ingest.new none {}) (wrapped k) =
    indexCalls (Ingest.new none {}) (wrapped k) :=
    List.append_nil _
  obtain ⟨hblocks, hsubtree, htxindex⟩ :=
    Flat.run_indexCalls .empty (Ingest.new none {}) (wrapped k)
  rw [hcalls, Mem.Store.flatten_run Mem.Store.new_indexed, Mem.Store.flatten_new]
  -- what the three reads find
  have htx : (Flat.run (indexCalls (Ingest.new none {}) (wrapped k)) .empty).txindex (.fill 32 1) =
      some (indexEntry (wrapped k) (2 ^ k) 0) := by
    rw [htxindex, wrapped_entry]
    rfl
  have hblk : (Flat.run (indexCalls (Ingest.new none {}) (wrapped k)) .empty).blocks
      (indexEntry (wrapped k) (2 ^ k) 0).blockHash = some (blockRec (wrapped k)) := by
    rw [hblocks]
    exact Function.update_self _ _ _
  have hroot :
      (blockRec (wrapped k)).subtreeRoots[(indexEntry (wrapped k) (2 ^ k) 0).subtreeIndex.toNat]? =
      some (.fill 32 0) := by
    change (wrapped k).subtreeRoots[(UInt32.ofNat (2 ^ k)).toNat]? = _
    rw [hk, wrapped_subtreeRoots]
    rfl
  have hleaves : (Flat.run (indexCalls (Ingest.new none {}) (wrapped k)) .empty).subtree
      (.fill 32 0) =
      some [.fill 32 0] := by
    rw [hsubtree]
    simp only [wrapped_leaves, Option.some_or]
  have hmined : (indexEntry (wrapped k) (2 ^ k) 0).mined = true := rfl
  have hlt : ¬[(.fill 32 0 : Hash)].length ≤ (indexEntry (wrapped k) (2 ^ k) 0).leafIndex.toNat :=
    Nat.not_succ_le_zero 0
  obtain ⟨l2, hl2, hfold, hblockRoot⟩ := wrapped_path k
  refine ⟨⟨.fill 32 1, [], .fill 32 0, l2, (wrapped k).merkleRoot, (wrapped k).hash,
    (wrapped k).height,
    (wrapped k).header⟩, ?_, rfl, fun hver => ?_⟩
  · simp only [Flat.merklePath, htx, hmined, Bool.not_true, Bool.false_eq_true, if_false, hblk,
      hroot, hleaves, hlt, wrapped_assemble hk hl2]
    rfl
  · have hall := (Proof.verify_iff.mp hver).2.2
    simp only [Commitment.fold_nil, hfold, hblockRoot] at hall
    exact hall

open Sha256.Eval in
/-- The hash made of eight words. -/
def ofWords (s : Sha256.Work) : Hash := ⟨s.digest, length_digest s⟩

open Sha256.Eval in
lemma hashPair_ofWords (s t : Sha256.Work) :
    Commitment.hashPair (ofWords s) (ofWords t) =
      ofWords (chain (chain (s.digest ++ t.digest)).digest) := rfl

open Sha256.Eval in
/-- Whether `x` and `b` have different ancestors after `n` levels of siblings `b`. -/
def apart : ℕ → Work → Work → Bool
  | 0, x, b => x != b
  | n + 1, x, b => (node x b).force fun x' => (node b b).force fun b' => apart n x' b'

open Sha256.Eval in
lemma edge_ne {n : ℕ} {s t : Sha256.Work} (h : apart n (ofWork s) (ofWork t) = true) :
    MerkleTree.edge Commitment.hashPair n (ofWords s) (ofWords t) ≠
      MerkleTree.edge Commitment.hashPair n (ofWords t) (ofWords t) := by
  induction n generalizing s t with
  | zero =>
    intro heq
    have hne : ofWork s ≠ ofWork t := by simpa [apart] using h
    exact hne (ofWork_inj (congrArg Subtype.val heq))
  | succ n ih =>
    rw [apart, Work.force_eq, Work.force_eq, ← ofWork_node, ← ofWork_node] at h
    rw [MerkleTree.edge, MerkleTree.edge, hashPair_ofWords, hashPair_ofWords]
    exact ih h

lemma fill_zero_eq : (.fill 32 0 : Hash) = ofWords ⟨0, 0, 0, 0, 0, 0, 0, 0⟩ := rfl

lemma fill_one_eq : (.fill 32 1 : Hash) =
    ofWords ⟨0x01010101, 0x01010101, 0x01010101, 0x01010101, 0x01010101, 0x01010101, 0x01010101,
      0x01010101⟩ :=
  rfl

/-- The block is ingested alone, then the proof of its common transaction is built. -/
def wrappedRun (k : ℕ) : List Access :=
  ((Activity.ingest (Ingest.new none {}) (wrapped k)).writes Mem.new).map .write ++
    [.read, .read, .read]

lemma wrappedRun_of {k : ℕ} {w : Write} (hw : .write w ∈ wrappedRun k) : w.Of {wrapped k} := by
  have hmem : w ∈ (Activity.ingest (Ingest.new none {}) (wrapped k)).writes Mem.new := by
    simpa [wrappedRun] using hw
  exact Activity.On.of_mem_writes (a := .ingest (Ingest.new none {}) (wrapped k))
    (Set.mem_singleton _) hmem

lemma wrappedRun_eq (k : ℕ) (txid : Hash) :
    (Trace.run Access.step (wrappedRun k) (Mem.new, .start txid)).2 =
    .done
      ((Mem.new.run (ingestCalls (Ingest.new none {}) (wrapped k))).flatten.merklePath txid) := by
  rw [wrappedRun, Trace.run_append, Access.run_writes, Activity.writes, Call.run_writesFrom]
  refine (Reader.read_alone txid _).trans ?_
  exact congrArg (fun r => Reader.done (Prod.fst r)) (merklePath_mem _ txid)

/-- **Subtree numbers wrap, and a wrong proof is served.** The block checks out, and the reads after
it find all three records; the proof they make does not verify. -/
theorem proof_wrong_wrapped :
    Coherent {wrapped 32} ∧ (∀ w, .write w ∈ wrappedRun 32 → w.Of {wrapped 32}) ∧
      ∃ p, (Trace.run Access.step (wrappedRun 32) (Mem.new, .start (.fill 32 1))).2 =
        .done (.ok p) ∧
        p.leaf = .fill 32 1 ∧ p.verify = false := by
  obtain ⟨p, hp, hleaf, hver⟩ := wrapped_build (k := 32) (by decide)
  refine ⟨wrapped_coherent 32, fun w => wrappedRun_of, p, ?_, hleaf, ?_⟩
  · rw [wrappedRun_eq, hp]
  · rw [fill_zero_eq, fill_one_eq] at hver
    refine eq_false_of_ne_true fun h => edge_ne ?_ (hver h).symm
    decide +kernel

end MemServe
