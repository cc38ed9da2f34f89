import MemServe.Proof

/-!
The query surface: `Seen`, `Mined`, `MerklePath` and `UTXO`, answered from the store.
-/

namespace MemServe.Api

structure SeenResult where
  seen : Bool := false
  seenTime : ℤ := 0
  deriving DecidableEq

structure MinedResult where
  mined : Bool := false
  blockHash : Hash := default
  height : UInt32 := 0
  blockTime : UInt32 := 0
  deriving DecidableEq

inductive UTXOStatus
  | unknown
  | unspent
  | spent
  | notInWindow
  deriving DecidableEq

structure UTXOResult where
  status : UTXOStatus := .unknown
  value : UInt64 := 0
  spentBy : Hash := default
  spentHeight : UInt32 := 0
  deriving DecidableEq

variable {σ : Type} [Store σ]

def seen (txid : Hash) : StoreM σ SeenResult := do
  let some ix ← Store.getTxIndex txid | return {}
  return { seen := true, seenTime := ix.seenTime }

def mined (txid : Hash) : StoreM σ MinedResult := do
  let some ix ← Store.getTxIndex txid | return {}
  if !ix.mined then return {}
  return {
    mined := true, blockHash := ix.blockHash, height := ix.height, blockTime := ix.blockTime }

def merklePath (txid : Hash) : Proof.BuildM σ Proof := Proof.build txid

/-- The status of an outpoint. Unspent outputs are never pruned, so where there is no record the
index entry tells a pruned spend from an outpoint never seen. -/
def utxo (op : Outpoint) : StoreM σ UTXOResult := do
  if let some u ← Store.getUTXO op then
    if u.spent then return { status := .spent, spentBy := u.spentBy, spentHeight := u.spentHeight }
    return { status := .unspent, value := u.value }
  let some ix ← Store.getTxIndex op.txID | return { status := .unknown }
  if ix.mined then return { status := .notInWindow }
  return { status := .unknown }

end MemServe.Api
