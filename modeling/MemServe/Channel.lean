import MemServe.Bsvtx
import MemServe.Secp256k1

/-!
The payment channel: accesses are prepaid one by one, each by a signature over the cumulative
amount the server may take.

Prices, fees and deposits are 64-bit words from the request that opens the channel, and the
amount required for the next access is their sum in 64 bits.
-/

namespace MemServe.Payment

open Crypto Bsvtx

inductive QueryType
  | seen
  | mined
  | merklePath
  | utxo
  /-- A value of the byte that no query has. -/
  | other
  deriving DecidableEq

def QueryType.index (q : QueryType) : ℕ :=
  match q with
  | .seen => 0
  | .mined => 1
  | .merklePath => 2
  | .utxo => 3
  | .other => 4

inductive FeeMode
  | upfront
  | amortized
  /-- A value of the byte that no mode has. -/
  | other
  deriving DecidableEq

structure Pricing where
  flat : Bool := false
  flatPrice : UInt64 := 0
  perType : Vector UInt64 4 := .replicate 4 0
  settleFee : UInt64 := 0
  feeMode : FeeMode := .upfront
  deriving DecidableEq

def Pricing.service (p : Pricing) (q : QueryType) : UInt64 :=
  if p.flat then p.flatPrice else p.perType[q.index]?.getD 0

def ceilDiv (a b : UInt64) : UInt64 := if b = 0 then 0 else (a + b - 1) / b

/-- What a commitment is bound to. -/
structure Params where
  channelID : Hash
  fundingTxID : Hash
  fundingVout : UInt32
  clientPub : Bytes
  serverPub : Bytes
  fundingValue : UInt64
  fee : UInt64
  deriving DecidableEq

def Params.channelTx (p : Params) : ChannelTx :=
  ⟨⟨p.fundingTxID, p.fundingVout⟩, p.fundingValue, p.clientPub, p.serverPub, p.fee⟩

/-- The id of the channel of a funding output. -/
def deriveChannelID (fundingTxID : Hash) (vout : UInt32) : Hash :=
  Commitment.doubleSHA256 (fundingTxID.1 ++ leBytes 4 vout.toNat)

structure Commitment where
  cumAmount : UInt64
  sig : Option Signature
  deriving DecidableEq

structure Config where
  params : Params
  deposit : UInt64
  clientPub : Option PublicKey
  pricing : Pricing
  n : UInt64 := 0
  refundLockTime : UInt32 := 0
  settleBefore : UInt32 := 0
  deriving DecidableEq

inductive Error
  | badSig
  | underpaid
  | exceedsDeposit
  | closed
  | config
  deriving DecidableEq

structure Channel where
  cfg : Config
  accesses : UInt64 := 0
  cumPaid : UInt64 := 0
  best : Option Commitment := none
  closed : Bool := false
  deriving DecidableEq

/-- Whether a commitment of `cum` is signed under `pub`, in the low-S form. -/
def verify (pub : Option PublicKey) (p : Params) (cum : UInt64) (sig : Signature) : Bool :=
  if !sig.isLowS then false
  else
    match p.channelTx.commitmentSighash cum with
    | .error _ => false
    | .ok h => pub.any fun pub => Crypto.verify pub h.1 sig

namespace Channel

/-- `channel.Open`. -/
def openWith (cfg : Config) : Except Error Channel :=
  match cfg.clientPub with
  | none => .error .config
  | some pub =>
    if cfg.deposit = 0 then .error .config
    else if cfg.pricing.feeMode = .amortized ∧ cfg.n = 0 then .error .config
    else if cfg.n = 0 ∧ cfg.settleBefore = 0 then .error .config
    else if cfg.refundLockTime ≠ 0 ∧ cfg.settleBefore ≠ 0 ∧
      cfg.refundLockTime ≤ cfg.settleBefore then .error .config
    else
      let params := cfg.params
      let params :=
        if params.fundingValue = 0 then { params with fundingValue := cfg.deposit } else params
      let params := if params.clientPub.length = 0 then
        { params with clientPub := pub.serializeCompressed } else params
      .ok { cfg := { cfg with params := params } }

/-- The part of the settlement fee charged on an access, numbered from one. -/
def feeComponent (ch : Channel) (accessNo : UInt64) : UInt64 :=
  match ch.cfg.pricing.feeMode with
  | .upfront => if accessNo = 1 then ch.cfg.pricing.settleFee else 0
  | .amortized => ceilDiv ch.cfg.pricing.settleFee ch.cfg.n
  | .other => 0

/-- The cumulative amount required for the next access. -/
def quote (ch : Channel) (q : QueryType) : UInt64 :=
  ch.cumPaid + ch.cfg.pricing.service q + ch.feeComponent (ch.accesses + 1)

/-- Checks a commitment for the next access and books it. -/
def authorize (ch : Channel) (c : Option Commitment) (q : QueryType) :
    Except Error Unit × Channel :=
  if ch.closed then (.error .closed, ch)
  else
    match c with
    | none => (.error .badSig, ch)
    | some c =>
      match c.sig with
      | none => (.error .badSig, ch)
      | some sig =>
        let required := ch.cumPaid + ch.cfg.pricing.service q + ch.feeComponent (ch.accesses + 1)
        if c.cumAmount < required then (.error .underpaid, ch)
        else if c.cumAmount > ch.cfg.deposit then (.error .exceedsDeposit, ch)
        else if !verify ch.cfg.clientPub ch.cfg.params c.cumAmount sig then (.error .badSig, ch)
        else
          (.ok (), { ch with cumPaid := c.cumAmount, accesses := ch.accesses + 1, best := some c })

/-- What an accepted commitment has passed. -/
structure Accepts (ch : Channel) (c : Commitment) (q : QueryType) : Prop where
  live : ch.closed = false
  covers : ch.quote q ≤ c.cumAmount
  within : c.cumAmount ≤ ch.cfg.deposit
  signed : ∃ sig, c.sig = some sig ∧ verify ch.cfg.clientPub ch.cfg.params c.cumAmount sig = true

/-- The channel after an accepted commitment. -/
def book (ch : Channel) (c : Commitment) : Channel :=
  { ch with cumPaid := c.cumAmount, accesses := ch.accesses + 1, best := some c }

/-- **What an opened channel has passed**: it is new, and amortizes over a number of accesses. The
funding value defaults to the deposit. -/
lemma openWith_ok {cfg : Config} {ch : Channel} (h : openWith cfg = .ok ch) :
    ∃ params, ch = { cfg := { cfg with params := params } } ∧
      params.fundingValue =
        (if cfg.params.fundingValue = 0 then cfg.deposit else cfg.params.fundingValue) ∧
      params.fee = cfg.params.fee ∧ params.channelID = cfg.params.channelID ∧
      params.fundingTxID = cfg.params.fundingTxID ∧ params.fundingVout = cfg.params.fundingVout ∧
      (cfg.pricing.feeMode = .amortized → cfg.n ≠ 0) := by
  unfold openWith at h
  cases hp : cfg.clientPub with
  | none => simp [hp] at h
  | some pub =>
    simp only [hp] at h
    split_ifs at h with h1 h2 h3 h4 h5 h6
    all_goals
      cases h
      refine ⟨_, rfl, ?_, rfl, rfl, rfl, rfl, fun hm hn => h2 ⟨hm, hn⟩⟩
      simp [h5]

/-- **`Authorize` accepts and books, or fails and leaves the channel alone.** -/
lemma authorize_cases (ch : Channel) (c : Option Commitment) (q : QueryType) :
    (∃ com, c = some com ∧ ch.Accepts com q ∧ ch.authorize c q = (.ok (), ch.book com)) ∨
      ∃ e, ch.authorize c q = (.error e, ch) := by
  unfold authorize
  split_ifs with hclosed
  · exact .inr ⟨_, rfl⟩
  cases c with
  | none => exact .inr ⟨_, rfl⟩
  | some com =>
    dsimp only
    cases hsig : com.sig with
    | none => exact .inr ⟨_, rfl⟩
    | some sig =>
      dsimp only
      split_ifs with h1 h2 h3
      · exact .inr ⟨_, rfl⟩
      · exact .inr ⟨_, rfl⟩
      · exact .inr ⟨_, rfl⟩
      · refine .inl
          ⟨com, rfl,
            ⟨by simpa using hclosed, UInt64.not_lt.mp h1, UInt64.not_lt.mp h2, sig, hsig, ?_⟩, rfl⟩
        simpa using h3

lemma authorize_of_accepts {ch : Channel} {c : Commitment} {q : QueryType} (h : ch.Accepts c q) :
    ch.authorize (some c) q = (.ok (), ch.book c) := by
  obtain ⟨sig, hsig, hv⟩ := h.signed
  have h1 := UInt64.not_lt.mpr h.covers
  have h2 := UInt64.not_lt.mpr h.within
  rw [authorize, if_neg (by simp [h.live])]
  simp only [hsig, hv]
  exact (if_neg h1).trans ((if_neg h2).trans rfl)

/-- Whether the channel is due to be settled at chain time `now`, and why. -/
def shouldSettle (ch : Channel) (now : UInt32) : Bool × String :=
  if ch.closed then (false, "closed")
  else if 0 < ch.cfg.n ∧ ch.cfg.n ≤ ch.accesses then (true, "count")
  else if 0 < ch.cfg.settleBefore ∧ ch.cfg.settleBefore ≤ now then (true, "time")
  else (false, "")

end Channel

structure Settlement where
  toServer : UInt64
  toClient : UInt64
  miningFee : UInt64
  netServer : UInt64
  accesses : UInt64
  deriving DecidableEq

namespace Channel

/-- Closes the channel and collects what was paid. -/
def settle (ch : Channel) : Except Error Settlement × Channel :=
  if ch.closed then (.error .closed, ch)
  else
    let mining := if ch.cfg.pricing.settleFee > ch.cumPaid then
      ch.cumPaid else ch.cfg.pricing.settleFee
    (.ok ⟨ch.cumPaid, ch.cfg.deposit - ch.cumPaid, mining, ch.cumPaid - mining, ch.accesses⟩,
      { ch with closed := true })

lemma settle_eq (ch : Channel) : ch.settle.2 = { ch with closed := true } := by
  by_cases h : ch.closed = true
  · rw [settle, if_pos h, ← h]
  · rw [settle, if_neg h]

end Channel

/-- The refund that the client falls back on if the server never settles. -/
structure Refund where
  lockTime : UInt32
  amount : UInt64
  toClient : Bool
  deriving DecidableEq

namespace Channel

def refund (ch : Channel) : Refund := ⟨ch.cfg.refundLockTime, ch.cfg.deposit, true⟩

/-- The refund of the client, to be signed by both parties when the channel opens. -/
def refundTxUnsigned (ch : Channel) : Tx := ch.cfg.params.channelTx.refundTx ch.cfg.refundLockTime

end Channel

end MemServe.Payment
