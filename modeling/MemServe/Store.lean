import MemServe.Commitment

/-!
The records the server holds, and the contract of a backend.

A store call runs on the state of its backend and may fail; what it had already written when
it failed stays written. So a call is a state transformer whose result, not whose state, is
lost on an error.
-/

namespace MemServe

/-- The 80-byte block header. -/
abbrev Header := ByteArr 80

structure Outpoint where
  txID : Hash
  vout : UInt32
  deriving DecidableEq

structure TxIndex where
  mined : Bool
  blockHash : Hash
  height : UInt32
  blockTime : UInt32
  subtreeIndex : UInt32
  leafIndex : UInt32
  seenTime : ℤ
  deriving DecidableEq

structure UTXO where
  value : UInt64
  scriptHash : Hash
  spent : Bool := false
  spentBy : Hash := default
  spentHeight : UInt32 := 0
  deriving DecidableEq

structure BlockRec where
  hash : Hash
  height : UInt32
  time : UInt32
  merkleRoot : Hash
  subtreeRoots : List Hash
  header : Header
  deriving DecidableEq

/-- An error reported by a backend. -/
structure StoreError where
  msg : String
  deriving DecidableEq

abbrev StoreM (σ α : Type) : Type := ExceptT StoreError (StateM σ) α

/-- The backend contract. A lookup returns `none` where the source returns `ok = false`. -/
class Store (σ : Type) where
  putTxIndex : Hash → TxIndex → StoreM σ Unit
  getTxIndex : Hash → StoreM σ (Option TxIndex)
  putUTXO : Outpoint → UTXO → StoreM σ Unit
  getUTXO : Outpoint → StoreM σ (Option UTXO)
  spendUTXO : Outpoint → Hash → UInt32 → StoreM σ Bool
  unspendUTXO : Outpoint → StoreM σ Bool
  deleteUTXO : Outpoint → StoreM σ Bool
  deleteTxIndex : Hash → StoreM σ Bool
  putSubtree : Hash → List Hash → StoreM σ Unit
  getSubtree : Hash → StoreM σ (Option (List Hash))
  putBlock : BlockRec → StoreM σ Unit
  getBlock : Hash → StoreM σ (Option BlockRec)
  putHeader : UInt32 → Header → StoreM σ Unit
  getHeader : UInt32 → StoreM σ (Option Header)
  pruneSpentAtHeight : UInt32 → StoreM σ ℕ
  pruneIndexAtHeight : UInt32 → StoreM σ ℕ

/-- A call that cannot fail. -/
def StoreM.total {σ α : Type} (f : σ → α × σ) : StoreM σ α :=
  fun s => ((.ok (f s).1, (f s).2) : _ × σ)

end MemServe
