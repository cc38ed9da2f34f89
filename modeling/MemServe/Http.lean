import MemServe.Accountability
import MemServe.Census
import MemServe.Compressed
import MemServe.Funding
import MemServe.Limiter
import MemServe.Quote
import MemServe.LowS
import MemServe.Wire

/-!
The HTTP service over the payment gate.

Requests come as strings, which a handler decodes one after the other and refuses at the first that
is bad. JSON bodies and query strings are taken as Go's library decodes them. An answer is JSON with
a signed statement in it.

A handler may panic, on a failed signature whose key it then writes out; the middleware turns that
into a response.
-/

namespace MemServe

def Payment.Error.message (e : Payment.Error) : String :=
  match e with
  | .badSig => "channel: invalid or non-canonical commitment signature"
  | .underpaid => "channel: commitment does not cover the next access"
  | .exceedsDeposit => "channel: cumulative amount exceeds the deposit"
  | .closed => "channel: already settled/closed"
  | .config => "channel: invalid configuration"

def Payment.PaidError.message (e : Payment.PaidError) : String :=
  match e with
  | .noChannel => "payment: unknown channel"
  | .channelBanned => "payment: channel banned (abuse budget exceeded)"
  | .depositTooSmall => "payment: deposit below MinDeposit policy"
  | .tooManyChannels => "payment: MaxChannels reached"
  | .channel e => e.message

def Crypto.ParseError.message (e : Crypto.ParseError) : String :=
  match e with
  | .format => "crypto: bad compressed public key"
  | .range => "crypto: x out of field range"
  | .square => "crypto: point not on curve"
  | .curve => "crypto: decompressed point not on curve"

def Crypto.SignatureError.message (e : Crypto.SignatureError) : String :=
  match e with
  | .length => "crypto: signature must be 64 bytes"

/-- The text of an error; a panic has none. -/
def Proof.Error.message (e : Proof.Error) : Option String :=
  match e with
  | .notMined => some "proof: transaction not mined (no inclusion proof available)"
  | .inconsistent => some "proof: stored block/subtree data inconsistent"
  | .commitment .empty => some "commitment: cannot build a Merkle tree over zero leaves"
  | .commitment .indexOutOfRange => some "commitment: leaf index out of range"
  | .commitment .fieldOutOfRange => some "commitment: field index out of range"
  | .commitment .panic => none
  | .store e => some e.msg

def Api.UTXOStatus.toString (u : Api.UTXOStatus) : String :=
  match u with
  | .unspent => "unspent"
  | .spent => "spent"
  | .notInWindow => "not-in-retained-window"
  | .unknown => "unknown"

/-- The store with its method `Stats`. -/
class StoreWithStats (σ : Type) extends Store σ where
  stats : σ → StoreStats

instance : StoreWithStats Mem.Store where
  stats := Mem.Store.stats

/-- The channels, and the ids that are banned. -/
def Payment.PaidServer.counts {σ : Type} (s : Payment.PaidServer σ) : ℕ × ℕ :=
  (s.channels.len, s.banned.len)

/-- The amount that the next access of a channel takes. -/
def Payment.PaidServer.quote {σ : Type} (s : Payment.PaidServer σ) (id : Hash)
    (q : Payment.QueryType) :
    Except Payment.PaidError UInt64 :=
  match s.lookup id with
  | .error e => .error e
  | .ok ch => .ok (ch.quote q)

namespace Http

open Crypto Payment Attest
open Httpsource (decodeHex)
open MemServe.Server
  (parseHash hexHash encodeToString encodeProof ProofJSON Query ofSeen ofMined ofUTXO)

structure AttestationJSON where
  kind : UInt8
  txid : Bytes
  vout : UInt32
  flag : Bool
  height : UInt32
  blockHash : Bytes
  tip : UInt32
  operator : Bytes
  sig : Bytes
  deriving DecidableEq

/-- The wire form of an attestation; `none` is the panic on one without a key or a signature. -/
def encodeAttestation (a : Attestation) : Option AttestationJSON := do
  let operator ← a.operator
  let sig ← a.sig
  return {
    kind := a.statement.kind.byte
    txid := hexHash a.statement.txID
    vout := a.statement.vout
    flag := a.statement.flag
    height := a.statement.height
    blockHash := hexHash a.statement.blockHash
    tip := a.statement.tip
    operator := encodeToString operator.serializeCompressed
    sig := encodeToString sig.serialize }

structure SeenResponse where
  seen : Bool
  seenTime : ℤ
  tip : UInt32
  attestation : Option AttestationJSON
  deriving DecidableEq

/-- The field `blockHash` is left out where it is empty. -/
structure MinedResponse where
  mined : Bool
  blockHash : Bytes
  height : UInt32
  blockTime : UInt32
  tip : UInt32
  attestation : Option AttestationJSON
  deriving DecidableEq

structure UTXOResponse where
  status : String
  value : UInt64
  spentHeight : UInt32
  tip : UInt32
  attestation : Option AttestationJSON
  deriving DecidableEq

structure AdminStats where
  tip : UInt32
  ready : Bool
  pruneD : UInt32
  reorgHorizon : UInt32
  txindex : ℕ
  utxoLive : ℕ
  utxoSpentRetained : ℕ
  channels : ℕ
  channelsBanned : ℕ
  revenueSatoshis : UInt64
  operatorPub : Bytes
  deriving DecidableEq

inductive Body
  | error (text : String)
  | seen (r : SeenResponse)
  | mined (r : MinedResponse)
  | merklePath (proof : ProofJSON)
  | utxo (r : UTXOResponse)
  | opened (channelId : Bytes)
  | quoted (cumulative : UInt64)
  | stats (r : AdminStats)
  deriving DecidableEq

structure Response where
  status : ℕ := 200
  body : Body
  deriving DecidableEq

def httpError (text : String) (status : ℕ) : Response := ⟨status, .error text⟩

/-- Whether the response answers a query. -/
def Response.answers (r : Response) : Bool :=
  match r.body with
  | .seen _ | .mined _ | .merklePath _ | .utxo _ => true
  | _ => false

/-! ### The server -/

/-- A private key in range with its public key. -/
structure KeyPair where
  priv : PrivateKey
  pub : PublicKey
  isPublic : priv.public = some pub

structure Metrics where
  requests : UInt64 := 0
  errors : UInt64 := 0
  served : UInt64 := 0
  rejected : UInt64 := 0
  deriving DecidableEq

/-- The operator: its public key and its `Attest`, which leaves an attestation without a signature
when it fails. -/
structure Operator where
  pub : PublicKey
  attest : Statement → Attestation

/-- The server with what its handlers use. The store is the state of the API behind the payment
gate. -/
structure Server (σ : Type) where
  paymentRequired : Bool
  adminToken : String := ""
  prune : Prune.Policy := {}
  limiter : Option RateLimit.Limiter := none
  identity : Option Operator := none
  payKey : KeyPair
  paid : PaidServer σ
  tip : UInt32 := 0
  ready : Bool := false
  met : Metrics := {}

/-- What a handler leaves: the response, unless it panics, and the server. -/
abbrev Handled (σ : Type) : Type := Option Response × Server σ

section Handlers

variable {σ : Type}

namespace Server

def serve (s : Server σ) : Server σ := { s with met := { s.met with served := s.met.served + 1 } }

def reject (s : Server σ) : Server σ :=
  { s with met := { s.met with rejected := s.met.rejected + 1 } }

def refuse (s : Server σ) (text : String) (status : ℕ) : Handled σ :=
  (some (httpError text status), s)

/-- The attestation of a statement in a response: none without an identity. -/
def attestation (s : Server σ) (st : Statement) : Option (Option AttestationJSON) :=
  match s.identity with
  | none => some none
  | some id => (encodeAttestation (id.attest st)).map some

def operatorPubHex (s : Server σ) : Bytes :=
  match s.identity with
  | none => []
  | some id => encodeToString id.pub.serializeCompressed

/-- `SeenResponse` with `attachSeenAtt`. -/
def seenResp (s : Server σ) (txid : Hash) (res : Api.SeenResult) : Option Response := do
  let att ← s.attestation ((Query.seen txid).statement (ofSeen res) s.tip)
  return { body := .seen ⟨res.seen, res.seenTime, s.tip, att⟩ }

def minedResp (s : Server σ) (txid : Hash) (res : Api.MinedResult) : Option Response := do
  let att ← s.attestation ((Query.mined txid).statement (ofMined res) s.tip)
  return {
    body := .mined ⟨res.mined, if res.mined then hexHash res.blockHash else [], res.height,
      res.blockTime, s.tip, att⟩ }

def merklePathResp (_ : Server σ) (p : Proof) : Option Response :=
  some { body := .merklePath (encodeProof p) }

def utxoResp (s : Server σ) (op : Outpoint) (res : Api.UTXOResult) : Option Response := do
  let att ← s.attestation ((Query.utxo op).statement (ofUTXO res) s.tip)
  return { body := .utxo ⟨res.status.toString, res.value, res.spentHeight, s.tip, att⟩ }

end Server

variable [StoreWithStats σ]

def paymentRequiredText : String := "payment required: use /v1/paid/query"

/-- A free query: `lookup` answers it for a txid that is well formed. -/
def handleFree (txid : Bytes) (lookup : Hash → Server σ → Handled σ) (s : Server σ) : Handled σ :=
  if s.paymentRequired then s.refuse paymentRequiredText 402
  else
    match parseHash txid with
    | none => s.refuse "bad txid" 400
    | some txid => lookup txid s

/-- An answer of the API whose error is passed over. -/
def answerFree {α : Type} (api : StoreM σ α) (zero : α) (resp : Server σ → α → Option Response)
    (s : Server σ) : Handled σ :=
  let r := api.run.run s.paid.api
  let s := { s with paid := { s.paid with api := r.2 } }.serve
  (resp s (r.1.toOption.getD zero), s)

def handleSeen (txid : Bytes) : Server σ → Handled σ :=
  handleFree txid fun txid => answerFree (Api.seen txid) {} (·.seenResp txid)

def handleMined (txid : Bytes) : Server σ → Handled σ :=
  handleFree txid fun txid => answerFree (Api.mined txid) {} (·.minedResp txid)

/-- A proof that is not there is an answer of its own. -/
def handleMerklePath (txid : Bytes) : Server σ → Handled σ :=
  handleFree txid fun txid s =>
    let r := (Api.merklePath txid).run.run s.paid.api
    let s := { s with paid := { s.paid with api := r.2 } }
    match r.1 with
    | .error e => (e.message.map (httpError · 404), s)
    | .ok p => (s.merklePathResp p, s.serve)

/-- The number of the output is what `Sscanf` leaves in it. -/
def handleUTXO (txid : Bytes) (vout : UInt32) : Server σ → Handled σ :=
  handleFree txid fun txid => answerFree (Api.utxo ⟨txid, vout⟩) {} (·.utxoResp ⟨txid, vout⟩)

structure OpenReq where
  fundingTxID : Bytes
  vout : UInt32
  deposit : UInt64
  clientPub : Bytes
  flat : Bool
  flatPrice : UInt64
  perType : Vector UInt64 4
  settleFee : UInt64
  feeMode : UInt8
  fee : UInt64
  n : UInt64
  refundLockTime : UInt32
  settleBefore : UInt32

def feeModeOf (b : UInt8) : FeeMode :=
  if b = 0 then .upfront else if b = 1 then .amortized else .other

/-- The channel that a request asks for, or the text of what is wrong with the request. -/
def OpenReq.config (server : PublicKey) (req : OpenReq) : Except String Config :=
  match parseHash req.fundingTxID with
  | none => .error "bad fundingTxid"
  | some fund =>
    match decodeHex req.clientPub with
    | .error _ => .error "bad clientPub"
    | .ok pubBytes =>
      match parseCompressed pubBytes with
      | .error e => .error ("bad clientPub: " ++ e.message)
      | .ok pub => .ok {
          params := {
            channelID := deriveChannelID fund req.vout
            fundingTxID := fund
            fundingVout := req.vout
            clientPub := pub.serializeCompressed
            serverPub := server.serializeCompressed
            fundingValue := req.deposit
            fee := req.fee }
          deposit := req.deposit
          clientPub := some pub
          pricing := {
            flat := req.flat
            flatPrice := req.flatPrice
            perType := req.perType
            settleFee := req.settleFee
            feeMode := feeModeOf req.feeMode }
          n := req.n
          refundLockTime := req.refundLockTime
          settleBefore := req.settleBefore }

/-- A body that is `none` is one that is not the JSON of a request. -/
def handleChannelOpen (post : Bool) (body : Option OpenReq) (s : Server σ) : Handled σ :=
  if !post then s.refuse "POST only" 405
  else
    match body with
    | none => s.refuse "bad json" 400
    | some req =>
      match req.config s.payKey.pub with
      | .error text => s.refuse text 400
      | .ok cfg =>
        match s.paid.openChannel cfg with
        | (.error e, paid) => { s with paid := paid }.reject.refuse e.message 400
        | (.ok _, paid) =>
          (some { body := .opened (hexHash cfg.params.channelID) }, { s with paid := paid })

def queryTypeOf (n : ℕ) : Option QueryType :=
  match n with
  | 0 => some .seen
  | 1 => some .mined
  | 2 => some .merklePath
  | 3 => some .utxo
  | _ => none

def handleQuote (channel : Bytes) (type : Option ℤ) (s : Server σ) : Handled σ :=
  match parseHash channel with
  | none => s.refuse "bad channel" 400
  | some ch =>
    match type.bind fun qt => if qt < 0 ∨ 3 < qt then none else queryTypeOf qt.toNat with
    | none => s.refuse "bad type (0=seen,1=mined,2=merklepath,3=utxo)" 400
    | some q =>
      match s.paid.quote ch q with
      | .error e => s.refuse e.message 404
      | .ok cum => (some { body := .quoted cum }, s)

structure PaidReq where
  channel : Bytes
  type : UInt8
  txID : Bytes
  vout : UInt32
  cumAmount : UInt64
  sig : Bytes

/-- The channel, the commitment and the txid of a request, or the text of what is wrong with it. -/
def PaidReq.decode (req : PaidReq) : Except String (Hash × Payment.Commitment × Hash) :=
  match parseHash req.channel with
  | none => .error "bad channel"
  | some ch =>
    match parseHash req.txID with
    | none => .error "bad txid"
    | some txid =>
      match decodeHex req.sig with
      | .error _ => .error "bad sig"
      | .ok sigBytes =>
        match parseSignature sigBytes with
        | .error e => .error ("bad sig: " ++ e.message)
        | .ok sig => .ok (ch, ⟨req.cumAmount, some sig⟩, txid)

/-- The response to a paid query. What is refused at the gate and what fails behind it is 402
(`payErr`). -/
def answerPaid {ε α : Type} (message : ε → Option String) (resp : Server σ → α → Option Response)
    (r : Except (QueryError ε) α × PaidServer σ) (s : Server σ) : Handled σ :=
  let s := { s with paid := r.2 }
  match r.1 with
  | .error (.payment e) => s.reject.refuse e.message 402
  | .error (.api e) =>
    match message e with
    | none => (none, s)
    | some text => s.reject.refuse text 402
  | .ok a => (resp s.serve a, s.serve)

def handlePaidQuery (post : Bool) (body : Option PaidReq) (s : Server σ) : Handled σ :=
  if !post then s.refuse "POST only" 405
  else
    match body with
    | none => s.refuse "bad json" 400
    | some req =>
      match req.decode with
      | .error text => s.refuse text 400
      | .ok (ch, c, txid) =>
        match queryTypeOf req.type.toNat with
        | some .seen => answerPaid (some ·.msg) (·.seenResp txid) (s.paid.seen ch c txid) s
        | some .mined => answerPaid (some ·.msg) (·.minedResp txid) (s.paid.mined ch c txid) s
        | some .merklePath =>
          answerPaid Proof.Error.message (·.merklePathResp) (s.paid.merklePath ch c txid) s
        | some .utxo =>
          answerPaid (some ·.msg) (·.utxoResp ⟨txid, req.vout⟩)
            (s.paid.utxo ch c ⟨txid, req.vout⟩) s
        | _ => s.refuse "bad type" 400

/-! ### The middleware -/

def handleAdminStats (authorization : String) (s : Server σ) : Handled σ :=
  if s.adminToken = "" ∨ authorization ≠ "Bearer " ++ s.adminToken then s.refuse "unauthorized" 401
  else
    let st := StoreWithStats.stats s.paid.api
    let counts := s.paid.counts
    (some { body := .stats {
      tip := s.tip
      ready := s.ready
      pruneD := s.prune.d
      reorgHorizon := s.prune.reorgHorizon
      txindex := st.txIndex
      utxoLive := st.utxoLive
      utxoSpentRetained := st.utxoSpent
      channels := counts.1
      channelsBanned := counts.2
      revenueSatoshis := s.paid.revenue
      operatorPub := s.operatorPubHex } }, s)

inductive Request
  | seen (txid : Bytes)
  | mined (txid : Bytes)
  | merklePath (txid : Bytes)
  | utxo (txid : Bytes) (vout : UInt32)
  | channelOpen (post : Bool) (body : Option OpenReq)
  | quote (channel : Bytes) (type : Option ℤ)
  | paidQuery (post : Bool) (body : Option PaidReq)
  | adminStats (authorization : String)

def handle (r : Request) : Server σ → Handled σ :=
  match r with
  | .seen txid => handleSeen txid
  | .mined txid => handleMined txid
  | .merklePath txid => handleMerklePath txid
  | .utxo txid vout => handleUTXO txid vout
  | .channelOpen post body => handleChannelOpen post body
  | .quote channel type => handleQuote channel type
  | .paidQuery post body => handlePaidQuery post body
  | .adminStats authorization => handleAdminStats authorization

/-- A request, with the address it comes from and the time it comes at. -/
structure Arrival where
  ip : String
  now : ℤ
  request : Request

namespace Server

/-- What the middleware makes of a handler that panics. -/
def recover (h : Handled σ) : Response × Server σ :=
  match h with
  | (some r, s) => (r, s)
  | (none, s) =>
    (httpError "internal error" 500, { s with met := { s.met with errors := s.met.errors + 1 } })

/-- Whether the limiter admits a request, and the server after it was asked. -/
def limit (fused : Bool) (a : Arrival) (s : Server σ) : Bool × Server σ :=
  match s.limiter with
  | none => (true, s)
  | some l =>
    ((l.allow fused a.now a.ip).1, { s with limiter := some (l.allow fused a.now a.ip).2 })

/-- A request from its arrival to its response. -/
def wrap (fused : Bool) (a : Arrival) (s : Server σ) : Response × Server σ :=
  let s := { s with met := { s.met with requests := s.met.requests + 1 } }
  let r := s.limit fused a
  if !r.1 then (httpError "rate limited" 429, r.2) else recover (handle a.request r.2)

end Server

end Handlers

end Http

end MemServe
