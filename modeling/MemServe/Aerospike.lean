import MemServe.Store

/-!
The backend on an Aerospike cluster.

The adapter keeps each record of the contract as one record of the cluster, and two secondary
indexes: for a height, the keys of the outpoints spent at it, and the block, subtrees and
transactions stored for it. The client of the cluster is a parameter: any call of it may fail.
-/

namespace MemServe.Aerospike

inductive SetName
  | txIndex
  | utxo
  | subtree
  | block
  | header
  | spentIdx
  | heightIdx
  deriving DecidableEq

/-- The names of the bins, in the words of the adapter. -/
inductive Bin
  | mined | bh | ht | bt | si | li | sn
  | val | sh | sp | spby | spht
  | leaves
  | mr | sr | hdr
  | blk | subs | txids
  | ops
  deriving DecidableEq

inductive Value
  | int (v : ℤ)
  | bytes (b : Bytes)
  | list (l : List Bytes)
  deriving DecidableEq

abbrev Bins := Bin → Option Value

def binMap (l : List (Bin × Value)) : Bins := fun b => l.lookup b

/-- The calls of the client that the adapter uses, on a cluster of type `κ`. A `get` returns `none`
for the nil record; the list calls are the operations on one bin. -/
class Client (κ : Type) where
  put : SetName → Bytes → Bins → StoreM κ Unit
  get : SetName → Bytes → StoreM κ (Option Bins)
  delete : SetName → Bytes → StoreM κ Bool
  listAppend : SetName → Bytes → Bin → Bytes → StoreM κ Unit
  listRemoveByValue : SetName → Bytes → Bin → Bytes → StoreM κ Unit

def outpointKey (op : Outpoint) : Bytes := op.txID.1 ++ beBytes 4 op.vout.toNat

def u32 (v : UInt32) : Bytes := beBytes 4 v.toNat

def packHashes (hs : List Hash) : Bytes := hs.flatMap (·.1)

def unpackHashes (b : Bytes) : List Hash :=
  (List.range (b.length / 32)).map fun i => ByteArr.copy 32 (b.drop (i * 32))

def toInt (v : Option Value) : ℤ :=
  match v with
  | some (.int x) => x
  | _ => 0

def toBytes (v : Option Value) : Bytes :=
  match v with
  | some (.bytes b) => b
  | _ => []

/-- `v.([]interface{})`, whose elements are byte strings. -/
def toList (v : Option Value) : List Bytes :=
  match v with
  | some (.list l) => l
  | _ => []

/-- `int(v)` for a 64-bit word: the value as a signed number. -/
def intOfUInt64 (v : UInt64) : ℤ := v.toBitVec.toInt

def txIndexBins (ix : TxIndex) : Bins :=
  binMap [(.mined, .int (if ix.mined then 1 else 0)), (.bh, .bytes ix.blockHash.1),
    (.ht, .int ix.height.toNat),
    (.bt, .int ix.blockTime.toNat), (.si, .int ix.subtreeIndex.toNat),
      (.li, .int ix.leafIndex.toNat),
    (.sn, .int ix.seenTime)]

def txIndexOf (r : Bins) : TxIndex where
  mined := toInt (r .mined) == 1
  blockHash := .copy 32 (toBytes (r .bh))
  height := .ofInt (toInt (r .ht))
  blockTime := .ofInt (toInt (r .bt))
  subtreeIndex := .ofInt (toInt (r .si))
  leafIndex := .ofInt (toInt (r .li))
  seenTime := toInt (r .sn)

def utxoBins (u : UTXO) : Bins :=
  binMap [(.val, .int (intOfUInt64 u.value)), (.sh, .bytes u.scriptHash.1),
    (.sp, .int (if u.spent then 1 else 0)),
    (.spby, .bytes u.spentBy.1), (.spht, .int u.spentHeight.toNat)]

def utxoOf (r : Bins) : UTXO where
  value := .ofInt (toInt (r .val))
  scriptHash := .copy 32 (toBytes (r .sh))
  spent := toInt (r .sp) == 1
  spentBy := .copy 32 (toBytes (r .spby))
  spentHeight := .ofInt (toInt (r .spht))

def blockBins (b : BlockRec) : Bins :=
  binMap [(.ht, .int b.height.toNat), (.bt, .int b.time.toNat), (.mr, .bytes b.merkleRoot.1),
    (.sr, .bytes (packHashes b.subtreeRoots)), (.hdr, .bytes b.header.1)]

def blockOf (hash : Hash) (r : Bins) : BlockRec where
  hash := hash
  height := .ofInt (toInt (r .ht))
  time := .ofInt (toInt (r .bt))
  merkleRoot := .copy 32 (toBytes (r .mr))
  subtreeRoots := unpackHashes (toBytes (r .sr))
  header := .copy 80 (toBytes (r .hdr))

/-! ### The adapter -/

section Adapter

variable {κ : Type} [Client κ]

/-- `_ = call`: its error is dropped. -/
def ignore (m : StoreM κ Unit) : StoreM κ Unit := tryCatch m fun _ => pure ()

/-- `if ok, _ := s.client.Delete(k); ok { n++ }`. -/
def del (set : SetName) (key : Bytes) : StoreM κ ℕ := do
  let ok ← tryCatch (Client.delete set key) fun _ => pure false
  return if ok then 1 else 0

/-- The loop that deletes these keys and counts the records that were there. -/
def delEach (set : SetName) : List Bytes → ℕ → StoreM κ ℕ
  | [], n => return n
  | k :: ks, n => do
    let c ← del set k
    delEach set ks (n + c)

def indexHeightTx (height : UInt32) (txid : Hash) : StoreM κ Unit :=
  Client.listAppend .heightIdx (u32 height) .txids txid.1

def indexHeightBlock (b : BlockRec) : StoreM κ Unit :=
  Client.put .heightIdx (u32 b.height)
    (binMap [(.blk, .bytes b.hash.1), (.subs, .bytes (packHashes b.subtreeRoots))])

def indexSpent (op : Outpoint) (h : UInt32) : StoreM κ Unit :=
  Client.listAppend .spentIdx (u32 h) .ops (outpointKey op)

def deindexSpent (op : Outpoint) (h : UInt32) : StoreM κ Unit :=
  Client.listRemoveByValue .spentIdx (u32 h) .ops (outpointKey op)

def putTxIndex (txid : Hash) (ix : TxIndex) : StoreM κ Unit := do
  Client.put .txIndex txid.1 (txIndexBins ix)
  if ix.mined then indexHeightTx ix.height txid

def getTxIndex (txid : Hash) : StoreM κ (Option TxIndex) :=
  return (← Client.get .txIndex txid.1).map txIndexOf

def putUTXO (op : Outpoint) (u : UTXO) : StoreM κ Unit := do
  Client.put .utxo (outpointKey op) (utxoBins u)
  if u.spent then indexSpent op u.spentHeight

def getUTXO (op : Outpoint) : StoreM κ (Option UTXO) :=
  return (← Client.get .utxo (outpointKey op)).map utxoOf

def spendUTXO (op : Outpoint) (spentBy : Hash) (spentHeight : UInt32) : StoreM κ Bool := do
  match ← getUTXO op with
  | none => return false
  | some u =>
    putUTXO op { u with spent := true, spentBy := spentBy, spentHeight := spentHeight }
    return true

def unspendUTXO (op : Outpoint) : StoreM κ Bool := do
  match ← getUTXO op with
  | none => return false
  | some u =>
    if u.spent then ignore (deindexSpent op u.spentHeight)
    putUTXO op { u with spent := false, spentBy := default, spentHeight := 0 }
    return true

def deleteUTXO (op : Outpoint) : StoreM κ Bool := do
  if let some u ← getUTXO op then
    if u.spent then ignore (deindexSpent op u.spentHeight)
  Client.delete .utxo (outpointKey op)

def deleteTxIndex (txid : Hash) : StoreM κ Bool := Client.delete .txIndex txid.1

/-- Deletes whatever the index lists at the height. -/
def pruneSpentAtHeight (h : UInt32) : StoreM κ ℕ := do
  match ← Client.get .spentIdx (u32 h) with
  | none => return 0
  | some r =>
    let n ← delEach .utxo (toList (r .ops)) 0
    let _ ← del .spentIdx (u32 h)
    return n

def putSubtree (root : Hash) (leaves : List Hash) : StoreM κ Unit :=
  Client.put .subtree root.1 (binMap [(.leaves, .bytes (packHashes leaves))])

def getSubtree (root : Hash) : StoreM κ (Option (List Hash)) :=
  return (← Client.get .subtree root.1).map fun r => unpackHashes (toBytes (r .leaves))

def putBlock (b : BlockRec) : StoreM κ Unit := do
  Client.put .block b.hash.1 (blockBins b)
  indexHeightBlock b

def getBlock (hash : Hash) : StoreM κ (Option BlockRec) :=
  return (← Client.get .block hash.1).map (blockOf hash)

def putHeader (height : UInt32) (hdr : Header) : StoreM κ Unit :=
  Client.put .header (u32 height) (binMap [(.hdr, .bytes hdr.1)])

def getHeader (height : UInt32) : StoreM κ (Option Header) :=
  return (← Client.get .header (u32 height)).map fun r => .copy 80 (toBytes (r .hdr))

/-- The records that the index lists at a height, with a count. -/
def pruneEntry (r : Bins) : StoreM κ ℕ := do
  let blk := toBytes (r .blk)
  let n ← if blk.length = 32 then del .block blk else pure 0
  let n ← delEach .subtree ((unpackHashes (toBytes (r .subs))).map (·.1)) n
  delEach .txIndex ((toList (r .txids)).filter (·.length = 32)) n

def pruneIndexAtHeight (h : UInt32) : StoreM κ ℕ := do
  let r ← Client.get .heightIdx (u32 h)
  let n ← match r with
    | none => pure 0
    | some r => pruneEntry r
  let c ← del .header (u32 h)
  if r.isSome then
    let _ ← del .heightIdx (u32 h)
  return n + c

end Adapter

/-- The adapter over a cluster of type `κ`. -/
def Store (κ : Type) : Type := κ

instance {κ : Type} [Client κ] : MemServe.Store (Store κ) where
  putTxIndex := putTxIndex (κ := κ)
  getTxIndex := getTxIndex (κ := κ)
  putUTXO := putUTXO (κ := κ)
  getUTXO := getUTXO (κ := κ)
  spendUTXO := spendUTXO (κ := κ)
  unspendUTXO := unspendUTXO (κ := κ)
  deleteUTXO := deleteUTXO (κ := κ)
  deleteTxIndex := deleteTxIndex (κ := κ)
  putSubtree := putSubtree (κ := κ)
  getSubtree := getSubtree (κ := κ)
  putBlock := putBlock (κ := κ)
  getBlock := getBlock (κ := κ)
  putHeader := putHeader (κ := κ)
  getHeader := getHeader (κ := κ)
  pruneSpentAtHeight := pruneSpentAtHeight (κ := κ)
  pruneIndexAtHeight := pruneIndexAtHeight (κ := κ)

/-- The records of a cluster, by set and key. -/
abbrev Records := SetName → Bytes → Option Bins

namespace Records

def empty : Records := fun _ _ => none

/-- Writes the record of one key. -/
def write (m : Records) (set : SetName) (key : Bytes) (r : Option Bins) : Records :=
  fun s => if s = set then Function.update (m s) key r else m s

/-- The bins of a record with these put into it: bins that are not named stay. -/
def merge (old : Option Bins) (bins : Bins) : Bins := fun b => (bins b).or (old.bind (· b))

def put (m : Records) (set : SetName) (key : Bytes) (bins : Bins) : Records :=
  m.write set key (some (merge (m set key) bins))

/-- The list in a bin; an absent one is empty. -/
def listAt (m : Records) (set : SetName) (key : Bytes) (bin : Bin) : List Bytes :=
  toList ((m set key).bind (· bin))

/-- Replaces the list in a bin. -/
def putList (m : Records) (set : SetName) (key : Bytes) (bin : Bin) (l : List Bytes) : Records :=
  m.put set key (binMap [(bin, .list l)])

end Records

/-- A client that does what it is asked: a put merges bins, an absent record is the nil record and
not an error, a delete reports whether the record was there, and the list operations append a value
or remove all equal values. -/
instance : Client Records where
  put set key bins := .total fun m => ((), m.put set key bins)
  get set key := .total fun m => (m set key, m)
  delete set key := .total fun m => ((m set key).isSome, m.write set key none)
  listAppend set key bin v :=
    .total fun m => ((), m.putList set key bin (m.listAt set key bin ++ [v]))
  listRemoveByValue set key bin v := .total fun m =>
    ((), if (m set key).isSome then
      m.putList set key bin ((m.listAt set key bin).filter (· ≠ v)) else m)

end MemServe.Aerospike
