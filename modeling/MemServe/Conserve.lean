import MemServe.Prepay

/-!
Channel transactions conserve value, as long as the payout and the fee add up in 64 bits.

The guard of a commitment compares a sum of words with the funding value, and the change of the
client is a difference of words. Both are exact up to multiples of `2 ^ 64`, which the
guard cannot see: a payout and a fee that wrap below the funding value pass it, and then the
outputs hold more than was funded.
-/

namespace MemServe.Bsvtx

/-- What the outputs of a transaction pay together. -/
def Tx.paid (tx : Tx) : ℕ := (tx.outputs.map fun o => o.value.toNat).sum

namespace ChannelTx

variable (c : ChannelTx) (toServer : UInt64)

/-- The commitment of `toServer` pays the server that much, and the outputs and the fee make up the
funding value. It exists exactly where the payout and the fee can be paid. -/
structure Conserves : Prop where
  value : ∀ tx, c.commitmentTx toServer = .ok tx → ∃ toClient,
    tx.outputs = [⟨toServer, p2pk c.serverPub⟩, toClient] ∧
    toServer.toNat + toClient.value.toNat + c.fee.toNat = c.fundingValue.toNat
  guard : (∃ tx, c.commitmentTx toServer = .ok tx) ↔
    toServer.toNat + c.fee.toNat ≤ c.fundingValue.toNat

/-- What the client is paid, in 64 bits. -/
def toClient : UInt64 := c.fundingValue - toServer - c.fee

lemma commitmentTx_ok_iff :
    (∃ tx, c.commitmentTx toServer = .ok tx) ↔ (toServer.toNat + c.fee.toNat) % 2 ^ 64 ≤
      c.fundingValue.toNat := by
  rw [← UInt64.toNat_add, ← UInt64.le_iff_toNat_le, ← UInt64.not_lt, commitmentTx]
  split_ifs with h
  · refine ⟨?_, fun h' => absurd h h'⟩
    rintro ⟨tx, htx⟩
    cases htx
  · exact ⟨fun _ => h, fun _ => ⟨_, rfl⟩⟩

lemma inputs_of_commitmentTx {tx : Tx} (h : c.commitmentTx toServer = .ok tx) :
    tx.inputs = [{ prevOut := c.fundingOut, sequence := finalSequence }] := by
  unfold commitmentTx at h
  split_ifs at h
  cases h
  rfl

lemma outputs_of_commitmentTx {tx : Tx} (h : c.commitmentTx toServer = .ok tx) :
    tx.outputs = [⟨toServer, p2pk c.serverPub⟩, ⟨c.toClient toServer, p2pk c.clientPub⟩] := by
  unfold commitmentTx at h
  split_ifs at h
  cases h
  rfl

lemma toClient_toNat :
    (c.toClient toServer).toNat =
      (2 * 2 ^ 64 + c.fundingValue.toNat - toServer.toNat - c.fee.toNat) % 2 ^ 64 := by
  have hs := toServer.toNat_lt
  have hf := c.fee.toNat_lt
  rw [toClient, UInt64.toNat_sub, UInt64.toNat_sub]
  omega

/-- **Where a commitment conserves value**: the payout and the fee add up without a wrap, or wrap to
more than the funding value, so that there is no commitment. -/
lemma conserves_iff :
    c.Conserves toServer ↔
      toServer.toNat + c.fee.toNat < 2 ^ 64 ∨ c.fundingValue.toNat + 2 ^ 64 <
        toServer.toNat + c.fee.toNat := by
  have hs := toServer.toNat_lt
  have hf := c.fee.toNat_lt
  have hv := c.fundingValue.toNat_lt
  constructor
  · intro h
    have hguard := (c.commitmentTx_ok_iff toServer).symm.trans h.guard
    omega
  intro h
  have hguard : (toServer.toNat + c.fee.toNat) % 2 ^ 64 ≤ c.fundingValue.toNat ↔
      toServer.toNat + c.fee.toNat ≤ c.fundingValue.toNat := by omega
  refine ⟨fun tx htx => ⟨_, c.outputs_of_commitmentTx toServer htx, ?_⟩,
    (c.commitmentTx_ok_iff toServer).trans hguard⟩
  have hle := hguard.mp ((c.commitmentTx_ok_iff toServer).mp ⟨tx, htx⟩)
  rw [toClient_toNat]
  omega

/-- **What a commitment pays out**: the funding value less the fee, or `2 ^ 64` more than that. -/
lemma paid_of_commitmentTx {tx : Tx} (h : c.commitmentTx toServer = .ok tx) :
    tx.paid + c.fee.toNat = c.fundingValue.toNat + if toServer.toNat + c.fee.toNat < 2 ^ 64 then
      0 else 2 ^ 64 := by
  have hs := toServer.toNat_lt
  have hf := c.fee.toNat_lt
  have hv := c.fundingValue.toNat_lt
  have hle := (c.commitmentTx_ok_iff toServer).mp ⟨tx, h⟩
  have hpaid : tx.paid = toServer.toNat + (c.toClient toServer).toNat := by
    simp [Tx.paid, c.outputs_of_commitmentTx toServer h]
  rw [hpaid, toClient_toNat]
  split_ifs <;> omega

lemma paid_le_iff {tx : Tx} (h : c.commitmentTx toServer = .ok tx) :
    tx.paid ≤ c.fundingValue.toNat ↔ toServer.toNat + c.fee.toNat < 2 ^ 64 := by
  have hf := c.fee.toNat_lt
  have hpaid := c.paid_of_commitmentTx toServer h
  split_ifs at hpaid with hlt
  · exact ⟨fun _ => hlt, fun _ => by omega⟩
  · exact ⟨fun _ => by omega, fun h' => absurd h' hlt⟩

lemma refundTx_paid_iff (lockTime : UInt32) :
    (c.refundTx lockTime).paid + c.fee.toNat = c.fundingValue.toNat ↔ c.fee ≤ c.fundingValue := by
  have hf := c.fee.toNat_lt
  have hv := c.fundingValue.toNat_lt
  have hpaid : (c.refundTx lockTime).paid = (c.fundingValue - c.fee).toNat := by
    simp [Tx.paid, refundTx]
  rw [hpaid, UInt64.toNat_sub, UInt64.le_iff_toNat_le]
  omega

end ChannelTx

end MemServe.Bsvtx

namespace MemServe.Payment

open Crypto Bsvtx

lemma Channel.Accepts.commitmentTx {ch : Channel} {com : Commitment} {q : QueryType}
    (h : ch.Accepts com q) :
    ∃ tx, ch.cfg.params.channelTx.commitmentTx com.cumAmount = .ok tx := by
  obtain ⟨sig, -, hv⟩ := h.signed
  unfold verify ChannelTx.commitmentSighash at hv
  cases htx : ch.cfg.params.channelTx.commitmentTx com.cumAmount with
  | ok tx => exact ⟨tx, rfl⟩
  | error e =>
    rw [htx] at hv
    simp [bind, Except.bind] at hv

/-- **Value conservation, exactly where it holds.** First of a commitment transaction of any
channel. Second of the refund of a channel that `Open` accepts, whose funding value defaults to the
deposit. Third of the transaction that settles an accepted commitment. -/
theorem channel_conserves (c : ChannelTx) (toServer : UInt64) (cfg : Config) (ch : Channel)
    (com : Commitment) (q : QueryType) :
    (c.Conserves toServer ↔
      toServer.toNat + c.fee.toNat < 2 ^ 64 ∨
        c.fundingValue.toNat + 2 ^ 64 < toServer.toNat + c.fee.toNat) ∧
    (∀ opened, Channel.openWith cfg = .ok opened →
      (opened.refundTxUnsigned.paid + opened.cfg.params.fee.toNat =
          opened.cfg.params.fundingValue.toNat ↔
        cfg.params.fee ≤
          if cfg.params.fundingValue = 0 then cfg.deposit else cfg.params.fundingValue)) ∧
    ((ch.authorize (some com) q).1 = .ok () →
      ∃ tx, ch.cfg.params.channelTx.commitmentTx com.cumAmount = .ok tx ∧
        (tx.paid ≤ ch.cfg.params.fundingValue.toNat ↔
          com.cumAmount.toNat + ch.cfg.params.fee.toNat < 2 ^ 64)) := by
  refine ⟨c.conserves_iff toServer, fun opened hopen => ?_, fun hacc => ?_⟩
  · obtain ⟨params, rfl, hvalue, hfee, -⟩ := Channel.openWith_ok hopen
    rw [← hvalue, ← hfee]
    exact ChannelTx.refundTx_paid_iff _ _
  · rcases ch.authorize_cases (some com) q with ⟨com', hcom, haccepts, -⟩ | ⟨e, herr⟩
    · cases hcom
      obtain ⟨tx, htx⟩ := haccepts.commitmentTx
      exact ⟨tx, htx, ChannelTx.paid_le_iff _ _ htx⟩
    · rw [herr] at hacc
      cases hacc

/-- A sample channel and its first payment. -/
theorem channel_conserves_sample :
    sampleParams.channelTx.Conserves 1000 ∧
      (sampleChannel fairPricing).refundTxUnsigned.paid + 200 = 100000 ∧
      ∃ tx, sampleParams.channelTx.commitmentTx 1000 = .ok tx ∧ tx.paid ≤ 100000 := by
  have hopen : Channel.openWith (sampleConfig fairPricing) = .ok (sampleChannel fairPricing) := rfl
  have hacc := congrArg Prod.fst
    (Channel.authorize_of_accepts (@sample_accepts fairPricing .mined (by decide)))
  obtain ⟨hcommit, hrefund, hsettle⟩ :=
    channel_conserves sampleParams.channelTx 1000 (sampleConfig fairPricing)
      (sampleChannel fairPricing) sampleCommitment .mined
  obtain ⟨tx, htx, hpaid⟩ := hsettle hacc
  exact ⟨hcommit.mpr (by decide), (hrefund _ hopen).mpr (by decide), tx, htx, hpaid.mpr (by decide)⟩

/-- **A fee of `2 ^ 64 - 1`** passes the guard with any payout: a commitment of 1 pays out the whole
funding value and one more. The refund of a channel opened with that fee pays out one too much as
well. -/
theorem channel_conserves_wraps :
    ¬ ({ sampleParams with fee := 0xFFFFFFFFFFFFFFFF } : Params).channelTx.Conserves 1 ∧
      ∃ ch,
        Channel.openWith { sampleConfig fairPricing with
          params := { sampleParams with fee := 0xFFFFFFFFFFFFFFFF } } = .ok ch ∧
        ch.refundTxUnsigned.paid = 100001 := by
  refine ⟨fun h => ?_, _, rfl, by decide⟩
  have hguard := h.guard.mp ⟨_, rfl⟩
  exact absurd hguard (by decide)

end MemServe.Payment
