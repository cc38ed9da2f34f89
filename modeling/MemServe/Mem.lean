import Mathlib.Algebra.GroupWithZero.Nat
import MemServe.GoMap
import MemServe.Store

/-!
The in-memory backend, striped by the first byte of the key.

Each stripe has its own maps and its own index of spent outpoints by spend height; headers
and the index of records by block height are kept once for the whole store. No call fails.
-/

namespace MemServe.Mem

structure Stripe where
  txindex : GoMap Hash TxIndex
  utxo : GoMap Outpoint UTXO
  subtree : GoMap Hash (List Hash)
  blocks : GoMap Hash BlockRec
  spentIdx : GoMap UInt32 (Finset Outpoint)

def newStripe : Stripe := ⟨.empty, .empty, .empty, .empty, .empty⟩

/-- The records stored for one block height. -/
structure HeightEntry where
  block : Hash := default
  hasBlock : Bool := false
  subtrees : List Hash := []
  txids : List Hash := []
  deriving DecidableEq

/-- The store: one stripe for each value of the first key byte. -/
structure Store where
  st : UInt8 → Stripe
  hdr : GoMap UInt32 Header
  hidx : GoMap UInt32 HeightEntry

def new : Store := ⟨fun _ => newStripe, .empty, .empty⟩

def striperOf (h : Hash) : UInt8 := h.byte 0 (by omega)

/-- Replaces the stripe of a key. -/
def Store.update (s : Store) (key : Hash) (f : Stripe → Stripe) : Store :=
  { s with st := Function.update s.st (striperOf key) (f (s.st (striperOf key))) }

def indexSpent (st : Stripe) (op : Outpoint) (h : UInt32) : Stripe :=
  let set := (st.spentIdx.get h).getD ∅
  { st with spentIdx := st.spentIdx.set h (insert op set) }

def deindexSpent (st : Stripe) (op : Outpoint) (h : UInt32) : Stripe :=
  match st.spentIdx.get h with
  | none => st
  | some set =>
    if set.erase op = ∅ then { st with spentIdx := st.spentIdx.delete h }
    else { st with spentIdx := st.spentIdx.set h (set.erase op) }

namespace Store

def getTxIndex (s : Store) (txid : Hash) : Option TxIndex :=
  (s.st (striperOf txid)).txindex.get txid

def getUTXO (s : Store) (op : Outpoint) : Option UTXO := (s.st (striperOf op.txID)).utxo.get op

def getSubtree (s : Store) (root : Hash) : Option (List Hash) :=
  (s.st (striperOf root)).subtree.get root

def getBlock (s : Store) (hash : Hash) : Option BlockRec := (s.st (striperOf hash)).blocks.get hash

def getHeader (s : Store) (height : UInt32) : Option Header := s.hdr.get height

def putTxIndex (s : Store) (txid : Hash) (ix : TxIndex) : Store :=
  let existed := (s.getTxIndex txid).isSome
  let s' := s.update txid fun st => { st with txindex := st.txindex.set txid ix }
  if ix.mined && !existed then
    let e := (s'.hidx.get ix.height).getD {}
    { s' with hidx := s'.hidx.set ix.height { e with txids := e.txids ++ [txid] } }
  else s'

def putUTXO (s : Store) (op : Outpoint) (u : UTXO) : Store :=
  s.update op.txID fun st =>
    let st' := { st with utxo := st.utxo.set op u }
    if u.spent then indexSpent st' op u.spentHeight else st'

def spendUTXO (s : Store) (op : Outpoint) (spentBy : Hash) (spentHeight : UInt32) : Bool × Store :=
  match s.getUTXO op with
  | none => (false, s)
  | some u =>
    let u' := { u with spent := true, spentBy := spentBy, spentHeight := spentHeight }
    (true, s.update op.txID fun st =>
      indexSpent { st with utxo := st.utxo.set op u' } op spentHeight)

def unspendUTXO (s : Store) (op : Outpoint) : Bool × Store :=
  match s.getUTXO op with
  | none => (false, s)
  | some u =>
    let u' := { u with spent := false, spentBy := default, spentHeight := 0 }
    (true, s.update op.txID fun st =>
      let st' := if u.spent then deindexSpent st op u.spentHeight else st
      { st' with utxo := st'.utxo.set op u' })

def deleteUTXO (s : Store) (op : Outpoint) : Bool × Store :=
  match s.getUTXO op with
  | none => (false, s)
  | some u =>
    (true, s.update op.txID fun st =>
      let st' := if u.spent then deindexSpent st op u.spentHeight else st
      { st' with utxo := st'.utxo.delete op })

def deleteTxIndex (s : Store) (txid : Hash) : Bool × Store :=
  match s.getTxIndex txid with
  | none => (false, s)
  | some _ => (true, s.update txid fun st => { st with txindex := st.txindex.delete txid })

def putSubtree (s : Store) (root : Hash) (leaves : List Hash) : Store :=
  s.update root fun st => { st with subtree := st.subtree.set root leaves }

def putBlock (s : Store) (b : BlockRec) : Store :=
  let s' := s.update b.hash fun st => { st with blocks := st.blocks.set b.hash b }
  let e := (s'.hidx.get b.height).getD {}
  { s' with
    hidx := s'.hidx.set b.height
      { e with block := b.hash, hasBlock := true, subtrees := b.subtreeRoots } }

def putHeader (s : Store) (height : UInt32) (hdr : Header) : Store :=
  { s with hdr := s.hdr.set height hdr }

/-- Evicts the spends of one stripe at height `h`; an index entry is checked against its record. -/
def pruneStripe (h : UInt32) (st : Stripe) : ℕ × Stripe :=
  match st.spentIdx.get h with
  | none => (0, st)
  | some set =>
    let r := GoMap.deleteRange (fun u : UTXO => u.spent && u.spentHeight == h) set st.utxo
    (r.2, { st with utxo := r.1, spentIdx := st.spentIdx.delete h })

def pruneSpentAtHeight (s : Store) (h : UInt32) : ℕ × Store :=
  (((List.range 256).map fun i => (pruneStripe h (s.st (UInt8.ofNat i))).1).sum,
    { s with st := fun i => (pruneStripe h (s.st i)).2 })

/-- One deletion of `pruneIndexAtHeight`, which counts the record if it was there. -/
def pruneBlock (s : Store) (hash : Hash) : ℕ × Store :=
  match s.getBlock hash with
  | none => (0, s)
  | some _ => (1, s.update hash fun st => { st with blocks := st.blocks.delete hash })

@[inherit_doc pruneBlock]
def pruneSubtree (s : Store) (root : Hash) : ℕ × Store :=
  match s.getSubtree root with
  | none => (0, s)
  | some _ => (1, s.update root fun st => { st with subtree := st.subtree.delete root })

@[inherit_doc pruneBlock]
def pruneTx (s : Store) (txid : Hash) : ℕ × Store :=
  match s.getTxIndex txid with
  | none => (0, s)
  | some _ => (1, s.update txid fun st => { st with txindex := st.txindex.delete txid })

@[inherit_doc pruneBlock]
def pruneHeader (s : Store) (h : UInt32) : ℕ × Store :=
  match s.getHeader h with
  | none => (0, s)
  | some _ => (1, { s with hdr := s.hdr.delete h })

/-- A loop of deletions, adding up their counts. -/
def pruneEach {α : Type} (f : Store → α → ℕ × Store) (l : List α) (r : ℕ × Store) : ℕ × Store :=
  l.foldl (fun r a => (r.1 + (f r.2 a).1, (f r.2 a).2)) r

def pruneIndexAtHeight (s : Store) (h : UInt32) : ℕ × Store :=
  let s' := { s with hidx := s.hidx.delete h }
  let r := match s.hidx.get h with
    | none => (0, s')
    | some e =>
      let r := if e.hasBlock then pruneBlock s' e.block else (0, s')
      pruneEach pruneTx e.txids (pruneEach pruneSubtree e.subtrees r)
  let q := pruneHeader r.2 h
  (r.1 + q.1, q.2)

end Store

instance : MemServe.Store Store where
  putTxIndex txid ix := .total fun s => ((), s.putTxIndex txid ix)
  getTxIndex txid := .total fun s => (s.getTxIndex txid, s)
  putUTXO op u := .total fun s => ((), s.putUTXO op u)
  getUTXO op := .total fun s => (s.getUTXO op, s)
  spendUTXO op spentBy h := .total fun s => s.spendUTXO op spentBy h
  unspendUTXO op := .total fun s => s.unspendUTXO op
  deleteUTXO op := .total fun s => s.deleteUTXO op
  deleteTxIndex txid := .total fun s => s.deleteTxIndex txid
  putSubtree root leaves := .total fun s => ((), s.putSubtree root leaves)
  getSubtree root := .total fun s => (s.getSubtree root, s)
  putBlock b := .total fun s => ((), s.putBlock b)
  getBlock hash := .total fun s => (s.getBlock hash, s)
  putHeader height hdr := .total fun s => ((), s.putHeader height hdr)
  getHeader height := .total fun s => (s.getHeader height, s)
  pruneSpentAtHeight h := .total fun s => s.pruneSpentAtHeight h
  pruneIndexAtHeight h := .total fun s => s.pruneIndexAtHeight h

end MemServe.Mem
