import MemServe.Commitment

/-!
The transactions of a payment channel: the commitment that pays the server out of the funding
output, the refund that returns it to the client, and the signature hash both are signed under.

Amounts are 64-bit words and the arithmetic on them wraps.
-/

namespace MemServe.Bsvtx

structure OutPoint where
  hash : ByteArr 32
  index : UInt32
  deriving DecidableEq

structure TxIn where
  prevOut : OutPoint
  scriptSig : Bytes := []
  sequence : UInt32
  deriving DecidableEq

structure TxOut where
  value : UInt64
  scriptPubKey : Bytes
  deriving DecidableEq

structure Tx where
  version : Int32
  inputs : List TxIn
  outputs : List TxOut
  lockTime : UInt32
  deriving DecidableEq

inductive Error
  /-- The payouts do not fit the funded value. -/
  | amount
  /-- An index out of range at run time. -/
  | panic
  deriving DecidableEq

def finalSequence : UInt32 := 0xffffffff
def enableLockTimeSequence : UInt32 := 0xfffffffe

def putVarInt (n : ℕ) : Bytes :=
  if n < 0xfd then leBytes 1 n
  else if n ≤ 0xffff then 0xfd :: leBytes 2 n
  else if n ≤ 0xffffffff then 0xfe :: leBytes 4 n
  else 0xff :: leBytes 8 n

def putU32 (v : UInt32) : Bytes := leBytes 4 v.toNat

def putU64 (v : UInt64) : Bytes := leBytes 8 v.toNat

def putOutPoint (op : OutPoint) : Bytes := op.hash.1 ++ putU32 op.index

def putScript (script : Bytes) : Bytes := putVarInt script.length ++ script

def putTxOut (out : TxOut) : Bytes := putU64 out.value ++ putScript out.scriptPubKey

/-- A push of `data`. -/
def pushData (data : Bytes) : Bytes :=
  let n := data.length
  (if n < 0x4c then leBytes 1 n
  else if n ≤ 0xff then 0x4c :: leBytes 1 n
  else 0x4d :: leBytes 2 n) ++ data

def p2pk (compressedPub : Bytes) : Bytes := pushData compressedPub ++ [0xac]

def multisig2of2 (pubA pubB : Bytes) : Bytes :=
  [0x52] ++ pushData pubA ++ pushData pubB ++ [0x52, 0xae]

/-- Unlocks a bare 2-of-2 output. The leading zero is the extra value that `OP_CHECKMULTISIG`
takes. -/
def scriptSig2of2 (sigA sigB : Bytes) : Bytes := [0x00] ++ pushData sigA ++ pushData sigB

def sighashNone : UInt32 := 0x02
def sighashSingle : UInt32 := 0x03
def sighashAnyone : UInt32 := 0x80
def sighashAllFork : UInt32 := 0x41

/-- The FORKID signature hash of input `idx`, which spends an output of value `amount` locked by
`scriptCode`. -/
def Tx.sighashForkID (t : Tx) (idx : ℕ) (scriptCode : Bytes) (amount : UInt64) (hashType : UInt32) :
    Except Error Hash :=
  let anyone := hashType &&& sighashAnyone ≠ 0
  let single := hashType &&& 0x1f = sighashSingle
  let none := hashType &&& 0x1f = sighashNone
  let hashPrevouts : Hash :=
    if anyone then default
    else Commitment.doubleSHA256 (t.inputs.flatMap fun i => putOutPoint i.prevOut)
  let hashSequence : Hash :=
    if anyone ∨ single ∨ none then default
    else Commitment.doubleSHA256 (t.inputs.flatMap fun i => putU32 i.sequence)
  let hashOutputs : Hash :=
    if ¬single ∧ ¬none then Commitment.doubleSHA256 (t.outputs.flatMap putTxOut)
    else if single then
      match t.outputs[idx]? with
      | some out => Commitment.doubleSHA256 (putTxOut out)
      | Option.none => default
    else default
  match t.inputs[idx]? with
  | Option.none => .error .panic
  | some i =>
    .ok (Commitment.doubleSHA256 (putU32 t.version.toUInt32 ++ hashPrevouts.1 ++ hashSequence.1 ++
      putOutPoint i.prevOut ++ putScript scriptCode ++ putU64 amount ++ putU32 i.sequence ++
        hashOutputs.1 ++
      putU32 t.lockTime ++ putU32 hashType))

/-! ### The transactions of a channel -/

structure ChannelTx where
  fundingOut : OutPoint
  fundingValue : UInt64
  clientPub : Bytes
  serverPub : Bytes
  fee : UInt64
  deriving DecidableEq

namespace ChannelTx

/-- The locking script of the funding output. -/
def redeem (c : ChannelTx) : Bytes := multisig2of2 c.clientPub c.serverPub

/-- Pays the server `toServer` and the client the rest, less the fee. -/
def commitmentTx (c : ChannelTx) (toServer : UInt64) : Except Error Tx :=
  if toServer + c.fee > c.fundingValue then .error .amount
  else
    let toClient := c.fundingValue - toServer - c.fee
    .ok {
      version := 2
      inputs := [{ prevOut := c.fundingOut, sequence := finalSequence }]
      outputs := [⟨toServer, p2pk c.serverPub⟩, ⟨toClient, p2pk c.clientPub⟩]
      lockTime := 0 }

/-- What the client signs to pay the server `toServer`. -/
def commitmentSighash (c : ChannelTx) (toServer : UInt64) : Except Error Hash := do
  let tx ← c.commitmentTx toServer
  tx.sighashForkID 0 c.redeem c.fundingValue sighashAllFork

/-- Returns the deposit to the client, less the fee, from `lockTime` on. -/
def refundTx (c : ChannelTx) (lockTime : UInt32) : Tx where
  version := 2
  inputs := [{ prevOut := c.fundingOut, sequence := enableLockTimeSequence }]
  outputs := [⟨c.fundingValue - c.fee, p2pk c.clientPub⟩]
  lockTime := lockTime

/-- What both parties sign for the refund. -/
def refundSighash (c : ChannelTx) (lockTime : UInt32) : Except Error Hash :=
  (c.refundTx lockTime).sighashForkID 0 c.redeem c.fundingValue sighashAllFork

end ChannelTx

/-- Installs the unlocking script of both signatures, in the order of the keys. -/
def finalize2of2 (tx : Tx) (clientSig serverSig : Bytes) : Except Error Tx :=
  match tx.inputs with
  | [] => .error .panic
  | i :: rest =>
    .ok { tx with inputs := { i with scriptSig := scriptSig2of2 clientSig serverSig } :: rest }

end MemServe.Bsvtx
