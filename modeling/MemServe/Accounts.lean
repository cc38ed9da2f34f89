import Mathlib.Data.UInt
import MemServe.SettlementTx

/-!
The two accounts of a channel: the amounts it reports and the outputs of its transactions.

`Settle` and `Refund` divide the deposit; the transactions divide the funding value, and the fee of
the miner comes out of what the client gets. They agree where the deposit is the funding value less
that fee.
-/

namespace MemServe.Bsvtx

/-- What the outputs of a transaction pay, in order. -/
def Tx.values (tx : Tx) : List UInt64 := tx.outputs.map (·.value)

lemma outputs_of_finalize2of2 {tx tx' : Tx} {a b : Bytes} (h : finalize2of2 tx a b = .ok tx') :
    tx'.outputs = tx.outputs := by
  unfold finalize2of2 at h
  cases hi : tx.inputs with
  | nil => simp [hi] at h
  | cons i rest =>
    rw [hi] at h
    cases h
    rfl

end MemServe.Bsvtx

namespace MemServe.Payment

open Crypto Bsvtx

/-- The value of the funding output that `Open` fills in. -/
def Config.funded (cfg : Config) : UInt64 :=
  if cfg.params.fundingValue = 0 then cfg.deposit else cfg.params.fundingValue

lemma Channel.values_of_settlementTx {ch : Channel} {rounds : ℕ} {serverPriv : PrivateKey} {tx : Tx}
    (h : ch.settlementTx rounds serverPriv = some (.ok tx)) :
    tx.values = [ch.cumPaid, ch.cfg.params.channelTx.toClient ch.cumPaid] := by
  unfold settlementTx at h
  cases hbest : ch.best with
  | none => simp [hbest] at h
  | some best =>
    simp only [hbest] at h
    cases hcommit : ch.cfg.params.channelTx.commitmentTx ch.cumPaid with
    | error e => simp [hcommit] at h
    | ok commit =>
      simp only [hcommit, Option.map_eq_some_iff] at h
      obtain ⟨signed, -, h⟩ := h
      cases signed with
      | error e => cases h
      | ok serverSig =>
        cases hsig : best.sig with
        | none => simp [hsig] at h
        | some sig =>
          simp only [hsig] at h
          cases hfinal : finalize2of2 commit (derFromSig sig ++ [sighashAllFork.toUInt8])
              serverSig with
          | error e => simp [hfinal, Except.mapError] at h
          | ok final =>
            rw [hfinal] at h
            cases h
            rw [Tx.values, outputs_of_finalize2of2 hfinal,
              ChannelTx.outputs_of_commitmentTx _ _ hcommit]
            rfl

lemma Channel.settle_reports {ch ch' : Channel} {st : Settlement} (h : ch.settle = (.ok st, ch')) :
    st.toServer = ch.cumPaid ∧ st.toClient = ch.cfg.deposit - ch.cumPaid := by
  by_cases hclosed : ch.closed = true
  · rw [settle, if_pos hclosed] at h
    cases h
  · rw [settle, if_neg hclosed] at h
    cases h
    exact ⟨rfl, rfl⟩

/-- **The accounts agree, exactly if the deposit is the funding value less the fee** (in 64 bits).
First of the settlement, wherever it is reported and its transaction can be made; second of the
refund. -/
theorem accounts_agree {cfg : Config} {ch : Channel} (hopen : Channel.openWith cfg = .ok ch)
    (ops : List Op) :
    (∀ rounds serverPriv tx st ch', (ch.run ops).ch.settlementTx rounds serverPriv = some (.ok tx) →
      (ch.run ops).ch.settle = (.ok st, ch') →
        (tx.values = [st.toServer, st.toClient] ↔ cfg.funded - cfg.params.fee = cfg.deposit)) ∧
    ((ch.run ops).ch.refundTxUnsigned.values = [(ch.run ops).ch.refund.amount] ↔
      cfg.funded - cfg.params.fee = cfg.deposit) := by
  obtain ⟨-, hcfg⟩ := (backed_of_open hopen).1.run ops
  change (ch.run ops).ch.cfg = ch.cfg at hcfg
  obtain ⟨params, rfl, hvalue, hfee, -⟩ := Channel.openWith_ok hopen
  rw [Config.funded, ← hvalue, ← hfee]
  refine ⟨fun rounds serverPriv tx st ch' htx hst => ?_, ?_⟩
  · obtain ⟨hserver, hclient⟩ := Channel.settle_reports hst
    rw [Channel.values_of_settlementTx htx, hserver, hclient, hcfg, List.cons.injEq,
      List.cons.injEq]
    simp only [true_and, and_true]
    change params.fundingValue - _ - params.fee = cfg.deposit - _ ↔ _
    rw [sub_right_comm, sub_left_inj]
  · rw [Channel.refundTxUnsigned, Channel.refund, hcfg]
    change [params.fundingValue - params.fee] = [cfg.deposit] ↔ _
    rw [List.cons.injEq, and_iff_left rfl]

/-! ### Two deposits against one funding output -/

/-- The sample channel with another deposit against its funding output of 100000. -/
def depositConfig (deposit : UInt64) : Config :=
  { sampleConfig fairPricing with deposit := deposit }

def depositChannel (deposit : UInt64) : Channel := { cfg := depositConfig deposit }

lemma deposit_run {deposit : UInt64} (h : 1000 ≤ deposit) :
    (depositChannel deposit).run [.authorize (some sampleCommitment) .mined] =
      ⟨(depositChannel deposit).book sampleCommitment, [.mined]⟩ := by
  have hacc : (depositChannel deposit).Accepts sampleCommitment .mined :=
    ⟨rfl, (by decide : (1000 : UInt64) ≤ 1000), h, sample_signed⟩
  have hok := Channel.authorize_of_accepts hacc
  simp only [Channel.run, Progress.run, List.foldl, Progress.step, hok]
  rfl

lemma deposit_settlementTx (deposit : UInt64) :
    ∃ tx, ((depositChannel deposit).book sampleCommitment).settlementTx 1 ⟨2⟩ = some (.ok tx) := by
  obtain ⟨tx, htx, -⟩ :=
    @Channel.settlementTx_settles ((depositChannel deposit).book sampleCommitment)
    sampleCommitment sampleSig
    sampleServerSignature sampleSighash sampleKey sampleServer
      ⟨2⟩ 1 rfl rfl sample_server_public rfl rfl (by decide)
    sampleSighash_eq sampleSig_verify sample_server_sign
  exact ⟨tx, htx⟩

/-- A deposit of 99800, with 200 left for the miner: 1000 go to the server and 98800 to the
client. -/
theorem accounts_agree_sample :
    Channel.openWith (depositConfig 99800) = .ok (depositChannel 99800) ∧
      ∃ tx, ((depositChannel 99800).run [.authorize (some sampleCommitment) .mined]).ch.settlementTx
        1 ⟨2⟩ = some (.ok tx) ∧
        tx.values = [1000, 98800] ∧
        ((depositChannel 99800).run
          [.authorize (some sampleCommitment) .mined]).ch.refundTxUnsigned.values = [99800] := by
  have hopen : Channel.openWith (depositConfig 99800) = .ok (depositChannel 99800) := rfl
  obtain ⟨hsettle, hrefund⟩ := accounts_agree hopen [.authorize (some sampleCommitment) .mined]
  obtain ⟨tx, htx⟩ := deposit_settlementTx 99800
  rw [deposit_run (by decide)] at hsettle hrefund ⊢
  exact ⟨hopen, tx, htx, (hsettle 1 ⟨2⟩ tx _ _ htx rfl).mpr (by decide), hrefund.mpr (by decide)⟩

/-- **The whole funding output as the deposit.** `Settle` reports 99000 for the client of a channel
with one access and `Refund` 100000; the transactions pay 98800 and 99800. -/
theorem accounts_disagree :
    Channel.openWith (depositConfig 100000) = .ok (depositChannel 100000) ∧
      ∃ ch tx st,
        ch = ((depositChannel 100000).run [.authorize (some sampleCommitment) .mined]).ch ∧
        ch.settlementTx 1 ⟨2⟩ = some (.ok tx) ∧ ch.settle.1 = .ok st ∧
        tx.values = [1000, 98800] ∧ st.toServer = 1000 ∧ st.toClient = 99000 ∧
        ch.refund.amount = 100000 ∧ ch.refundTxUnsigned.values = [99800] := by
  obtain ⟨tx, htx⟩ := deposit_settlementTx 100000
  refine ⟨rfl, (depositChannel 100000).book sampleCommitment, tx, ⟨1000, 99000, 700, 300, 1⟩,
    ?_, htx, rfl,
    Channel.values_of_settlementTx htx, rfl, rfl, rfl, rfl⟩
  rw [deposit_run (by decide)]

end MemServe.Payment
