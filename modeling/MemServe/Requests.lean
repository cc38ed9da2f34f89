import MemServe.MemFlat

/-!
The backend contract as a protocol of requests and answers.

A request is a write or a lookup. Every backend serves it through its own calls, so two
backends are compared by the answers they give to one list of requests.
-/

namespace MemServe

/-- A call of the backend contract. -/
inductive Request
  | write (c : Call)
  | getTxIndex (txid : Hash)
  | getUTXO (op : Outpoint)
  | getSubtree (root : Hash)
  | getBlock (hash : Hash)
  | getHeader (height : UInt32)

/-- What a call returns. -/
inductive Answer
  | done
  | found (ok : Bool)
  | freed (n : ℕ)
  | txIndex (ix : Option TxIndex)
  | utxo (u : Option UTXO)
  | subtree (leaves : Option (List Hash))
  | block (b : Option BlockRec)
  | header (hdr : Option Header)
  deriving DecidableEq

section Serve

variable {σ : Type} [Store σ]

def Call.serve (c : Call) : StoreM σ Answer :=
  match c with
  | .putTxIndex txid ix => do Store.putTxIndex txid ix; return .done
  | .putUTXO op u => do Store.putUTXO op u; return .done
  | .spendUTXO op spentBy h => return .found (← Store.spendUTXO op spentBy h)
  | .unspendUTXO op => return .found (← Store.unspendUTXO op)
  | .deleteUTXO op => return .found (← Store.deleteUTXO op)
  | .deleteTxIndex txid => return .found (← Store.deleteTxIndex txid)
  | .putSubtree root leaves => do Store.putSubtree root leaves; return .done
  | .putBlock b => do Store.putBlock b; return .done
  | .putHeader height hdr => do Store.putHeader height hdr; return .done
  | .pruneSpentAtHeight h => return .freed (← Store.pruneSpentAtHeight h)
  | .pruneIndexAtHeight h => return .freed (← Store.pruneIndexAtHeight h)

def Request.serve (r : Request) : StoreM σ Answer :=
  match r with
  | .write c => c.serve
  | .getTxIndex txid => return .txIndex (← Store.getTxIndex txid)
  | .getUTXO op => return .utxo (← Store.getUTXO op)
  | .getSubtree root => return .subtree (← Store.getSubtree root)
  | .getBlock hash => return .block (← Store.getBlock hash)
  | .getHeader height => return .header (← Store.getHeader height)

/-- What a backend answers to requests made one after the other. -/
def answers (rs : List Request) (s : σ) : List (Except StoreError Answer) :=
  match rs with
  | [] => []
  | r :: rs => (r.serve.run.run s).1 :: answers rs (r.serve.run.run s).2

@[simp] lemma answers_nil (s : σ) : answers [] s = [] := rfl

lemma answers_cons (r : Request) (rs : List Request) (s : σ) :
    answers (r :: rs) s = (r.serve.run.run s).1 :: answers rs (r.serve.run.run s).2 := rfl

/-- The backend after these requests. -/
def after (rs : List Request) (s : σ) : σ := rs.foldl (fun s r => (r.serve.run.run s).2) s

end Serve

/-! ### The striped store -/

namespace Mem.Store

/-- The answer to a write. -/
def reply (s : Store) (c : Call) : Answer :=
  match c with
  | .spendUTXO op spentBy h => .found (s.spendUTXO op spentBy h).1
  | .unspendUTXO op => .found (s.unspendUTXO op).1
  | .deleteUTXO op => .found (s.deleteUTXO op).1
  | .deleteTxIndex txid => .found (s.deleteTxIndex txid).1
  | .pruneSpentAtHeight h => .freed (s.pruneSpentAtHeight h).1
  | .pruneIndexAtHeight h => .freed (s.pruneIndexAtHeight h).1
  | _ => .done

lemma serve_write (s : Store) (c : Call) :
    ((Request.write c).serve.run.run s : _ × Store) = (.ok (s.reply c), s.apply c) := by
  cases c <;> rfl

lemma spendUTXO_fst (s : Store) (op : Outpoint) (spentBy : Hash) (h : UInt32) :
    (s.spendUTXO op spentBy h).1 = (s.getUTXO op).isSome := by
  unfold spendUTXO; cases s.getUTXO op <;> rfl

lemma unspendUTXO_fst (s : Store) (op : Outpoint) :
    (s.unspendUTXO op).1 = (s.getUTXO op).isSome := by
  unfold unspendUTXO; cases s.getUTXO op <;> rfl

lemma deleteUTXO_fst (s : Store) (op : Outpoint) : (s.deleteUTXO op).1 = (s.getUTXO op).isSome := by
  unfold deleteUTXO; cases s.getUTXO op <;> rfl

lemma deleteTxIndex_fst (s : Store) (txid : Hash) :
    (s.deleteTxIndex txid).1 = (s.getTxIndex txid).isSome := by
  unfold deleteTxIndex; cases s.getTxIndex txid <;> rfl

end Mem.Store

end MemServe
