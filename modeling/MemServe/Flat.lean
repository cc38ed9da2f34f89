import MemServe.Mem
import MemServe.Trace

/-!
The store as flat maps.

`Call` is a write of the backend contract. The striped store runs it as `Mem` says; the flat
store runs it on plain partial functions, with no stripes and no index of spends: pruning a
height is a filter.
-/

namespace MemServe

/-- A write of the backend contract. -/
inductive Call
  | putTxIndex (txid : Hash) (ix : TxIndex)
  | putUTXO (op : Outpoint) (u : UTXO)
  | spendUTXO (op : Outpoint) (spentBy : Hash) (spentHeight : UInt32)
  | unspendUTXO (op : Outpoint)
  | deleteUTXO (op : Outpoint)
  | deleteTxIndex (txid : Hash)
  | putSubtree (root : Hash) (leaves : List Hash)
  | putBlock (b : BlockRec)
  | putHeader (height : UInt32) (hdr : Header)
  | pruneSpentAtHeight (h : UInt32)
  | pruneIndexAtHeight (h : UInt32)

/-- Writes that concern the records of outpoints only. -/
def Call.utxoOnly (c : Call) : Bool :=
  match c with
  | .putUTXO .. | .spendUTXO .. | .unspendUTXO .. | .deleteUTXO .. | .pruneSpentAtHeight .. => true
  | _ => false

/-- A write on the striped store. -/
def Mem.Store.apply (c : Call) (s : Mem.Store) : Mem.Store :=
  match c with
  | .putTxIndex txid ix => s.putTxIndex txid ix
  | .putUTXO op u => s.putUTXO op u
  | .spendUTXO op spentBy h => (s.spendUTXO op spentBy h).2
  | .unspendUTXO op => (s.unspendUTXO op).2
  | .deleteUTXO op => (s.deleteUTXO op).2
  | .deleteTxIndex txid => (s.deleteTxIndex txid).2
  | .putSubtree root leaves => s.putSubtree root leaves
  | .putBlock b => s.putBlock b
  | .putHeader height hdr => s.putHeader height hdr
  | .pruneSpentAtHeight h => (s.pruneSpentAtHeight h).2
  | .pruneIndexAtHeight h => (s.pruneIndexAtHeight h).2

/-! ### The flat store -/

/-- Spent records carry who spent them and when. -/
def UTXO.spend (u : UTXO) (spentBy : Hash) (h : UInt32) : UTXO :=
  { u with spent := true, spentBy := spentBy, spentHeight := h }

def UTXO.unspend (u : UTXO) : UTXO :=
  { u with spent := false, spentBy := default, spentHeight := 0 }

def UTXO.spentAt (u : UTXO) (h : UInt32) : Bool := u.spent && u.spentHeight == h

/-- What a write does to the record of one outpoint: it depends on no other record. -/
def Call.cell (c : Call) (op : Outpoint) (x : Option UTXO) : Option UTXO :=
  match c with
  | .putUTXO op' u => if op = op' then some u else x
  | .spendUTXO op' spentBy h => if op = op' then x.map (·.spend spentBy h) else x
  | .unspendUTXO op' => if op = op' then x.map (·.unspend) else x
  | .deleteUTXO op' => if op = op' then none else x
  | .pruneSpentAtHeight h => x.filter fun u => !u.spentAt h
  | _ => x

@[ext] structure Flat where
  txindex : Hash → Option TxIndex
  utxo : Outpoint → Option UTXO
  subtree : Hash → Option (List Hash)
  blocks : Hash → Option BlockRec
  hdr : UInt32 → Option Header
  hidx : UInt32 → Option Mem.HeightEntry

namespace Flat

def empty : Flat :=
  ⟨fun _ => none, fun _ => none, fun _ => none, fun _ => none, fun _ => none, fun _ => none⟩

/-- The records indexed at a height. -/
def entry (f : Flat) (h : UInt32) : Mem.HeightEntry := (f.hidx h).getD {}

def dropBlock (hash : Hash) (f : Flat) : Flat :=
  { f with blocks := Function.update f.blocks hash none }

def dropSubtrees (l : List Hash) (f : Flat) : Flat :=
  { f with subtree := fun r => if r ∈ l then none else f.subtree r }

def dropTxs (l : List Hash) (f : Flat) : Flat :=
  { f with txindex := fun t => if t ∈ l then none else f.txindex t }

/-- A write on the flat store. -/
def apply (c : Call) (f : Flat) : Flat :=
  let f := { f with utxo := fun op => c.cell op (f.utxo op) }
  match c with
  | .putTxIndex txid ix =>
    { f with
      txindex := Function.update f.txindex txid (some ix)
      hidx := if ix.mined && (f.txindex txid).isNone then
          Function.update f.hidx ix.height
            (some { f.entry ix.height with txids := (f.entry ix.height).txids ++ [txid] })
        else f.hidx }
  | .deleteTxIndex txid => { f with txindex := Function.update f.txindex txid none }
  | .putSubtree root leaves => { f with subtree := Function.update f.subtree root (some leaves) }
  | .putBlock b =>
    { f with
      blocks := Function.update f.blocks b.hash (some b)
      hidx := Function.update f.hidx b.height
        (some
          { f.entry b.height with block := b.hash, hasBlock := true, subtrees := b.subtreeRoots }) }
  | .putHeader height hdr => { f with hdr := Function.update f.hdr height (some hdr) }
  | .pruneIndexAtHeight h =>
    let e := f.entry h
    let f := { f with hidx := Function.update f.hidx h none, hdr := Function.update f.hdr h none }
    let f := if e.hasBlock then f.dropBlock e.block else f
    (f.dropSubtrees e.subtrees).dropTxs e.txids
  | _ => f

def run (cs : List Call) (f : Flat) : Flat := Trace.run apply cs f

@[simp] lemma run_nil (f : Flat) : f.run [] = f := rfl
@[simp] lemma run_cons (c : Call) (cs : List Call) (f : Flat) :
    f.run (c :: cs) = (f.apply c).run cs := rfl
lemma run_append (cs ds : List Call) (f : Flat) : f.run (cs ++ ds) = (f.run cs).run ds :=
  Trace.run_append _ _ _ _

@[simp] lemma apply_utxo (c : Call) (f : Flat) (op : Outpoint) :
    (f.apply c).utxo op = c.cell op (f.utxo op) := by
  cases c with
  | pruneIndexAtHeight h =>
    simp only [apply, dropTxs, dropSubtrees]
    split_ifs <;> rfl
  | _ => rfl

@[simp] lemma dropSubtrees_nil (f : Flat) : dropSubtrees [] f = f := by simp [dropSubtrees]
@[simp] lemma dropTxs_nil (f : Flat) : dropTxs [] f = f := by simp [dropTxs]

lemma dropSubtrees_cons (r : Hash) (l : List Hash) (f : Flat) :
    dropSubtrees (r :: l) f = dropSubtrees l (dropSubtrees [r] f) := by
  refine Flat.ext rfl rfl (funext fun x => ?_) rfl rfl rfl
  by_cases h : x = r <;> simp [dropSubtrees, h]

lemma dropTxs_cons (t : Hash) (l : List Hash) (f : Flat) :
    dropTxs (t :: l) f = dropTxs l (dropTxs [t] f) := by
  refine Flat.ext (funext fun x => ?_) rfl rfl rfl rfl rfl
  by_cases h : x = t <;> simp [dropTxs, h]

lemma apply_eq_update {c : Call} {op : Outpoint} {v : Option UTXO} (f : Flat)
    (hc : c.utxoOnly = true) (hself : c.cell op (f.utxo op) = v)
    (hother : ∀ op' x, op' ≠ op → c.cell op' x = x) :
    f.apply c = { f with utxo := Function.update f.utxo op v } := by
  have hutxo : (fun op' => c.cell op' (f.utxo op')) = Function.update f.utxo op v := by
    funext op'
    by_cases h : op' = op
    · rw [h, Function.update_self, hself]
    · rw [Function.update_of_ne h, hother op' _ h]
  rw [← hutxo]
  cases c with
  | putUTXO | spendUTXO | unspendUTXO | deleteUTXO | pruneSpentAtHeight => rfl
  | _ => exact nomatch hc

lemma apply_putUTXO (f : Flat) (op : Outpoint) (u : UTXO) :
    f.apply (.putUTXO op u) = { f with utxo := Function.update f.utxo op (some u) } :=
  f.apply_eq_update rfl (if_pos rfl) fun _ _ hne => if_neg hne

lemma apply_spendUTXO (f : Flat) (op : Outpoint) (spentBy : Hash) (h : UInt32) :
    f.apply (.spendUTXO op spentBy h) =
      { f with utxo := Function.update f.utxo op ((f.utxo op).map (·.spend spentBy h)) } :=
  f.apply_eq_update rfl (if_pos rfl) fun _ _ hne => if_neg hne

lemma apply_unspendUTXO (f : Flat) (op : Outpoint) :
    f.apply (.unspendUTXO op) =
      { f with utxo := Function.update f.utxo op ((f.utxo op).map (·.unspend)) } :=
  f.apply_eq_update rfl (if_pos rfl) fun _ _ hne => if_neg hne

lemma apply_deleteUTXO (f : Flat) (op : Outpoint) :
    f.apply (.deleteUTXO op) = { f with utxo := Function.update f.utxo op none } :=
  f.apply_eq_update rfl (if_pos rfl) fun _ _ hne => if_neg hne

lemma apply_pruneIndex (f : Flat) (h : UInt32) :
    f.apply (.pruneIndexAtHeight h) =
      { txindex := fun t => if t ∈ (f.entry h).txids then none else f.txindex t
        utxo := f.utxo
        subtree := fun r => if r ∈ (f.entry h).subtrees then none else f.subtree r
        blocks :=
  if (f.entry h).hasBlock then Function.update f.blocks (f.entry h).block none else f.blocks
        hdr := Function.update f.hdr h none
        hidx := Function.update f.hidx h none } := by
  change dropTxs (f.entry h).txids (dropSubtrees (f.entry h).subtrees
    (if (f.entry h).hasBlock then
      dropBlock (f.entry h).block
        { f with hdr := Function.update f.hdr h none, hidx := Function.update f.hidx h none }
    else { f with hdr := Function.update f.hdr h none, hidx := Function.update f.hidx h none })) = _
  cases (f.entry h).hasBlock <;> rfl

end Flat

end MemServe
