import MemServe.SettlementTx

/-!
A quote, the commitment that the client signs for it, and the check of the server.

The client signs what it was quoted with the parameters of the channel. The server computes the same
amount again and verifies the signature over the same transaction.
-/

namespace MemServe.Payment

open Crypto Bsvtx

/-- The client's commitment to pay `cum` in all; `none` is a search for a nonce that has not ended
within its rounds. -/
def signCommitment (rounds : ℕ) (priv : PrivateKey) (p : Params) (cum : UInt64) :
    Option (Except InputError Commitment) :=
  match p.channelTx.commitmentSighash cum with
  | .error e => some (.error (.tx e))
  | .ok h => (priv.sign rounds h.1).map fun
    | .error e => .error (.sign e)
    | .ok sig => .ok ⟨cum, some sig⟩

lemma signCommitment_ok {rounds : ℕ} {priv : PrivateKey} {p : Params} {cum : UInt64} {h : Hash}
    {sig : Signature} (hh : p.channelTx.commitmentSighash cum = .ok h)
    (hsign : priv.sign rounds h.1 = some (.ok sig)) :
    signCommitment rounds priv p cum = some (.ok ⟨cum, some sig⟩) := by
  simp only [signCommitment, hh, hsign, Option.map_some]

lemma exists_commitmentSighash {c : ChannelTx} {toServer : UInt64}
    (h : toServer.toNat + c.fee.toNat ≤ c.fundingValue.toNat) :
    ∃ hash, c.commitmentSighash toServer = .ok hash := by
  have hlt := c.fundingValue.toNat_lt
  have hguard : (toServer.toNat + c.fee.toNat) % 2 ^ 64 ≤ c.fundingValue.toNat := by
    rw [Nat.mod_eq_of_lt (by omega)]
    exact h
  obtain ⟨tx, htx⟩ := (c.commitmentTx_ok_iff toServer).mpr hguard
  have hinputs := c.inputs_of_commitmentTx toServer htx
  simp only [ChannelTx.commitmentSighash, htx, bind, Except.bind, Tx.sighashForkID, hinputs,
    List.getElem?_cons_zero]
  exact ⟨_, rfl⟩

lemma verify_of_sign {priv : PrivateKey} {p : Params} {cum : UInt64} {rounds : ℕ} {h : Hash}
    {sig : Signature} (hh : p.channelTx.commitmentSighash cum = .ok h)
    (hsign : priv.sign rounds h.1 = some (.ok sig)) :
    verify priv.public p cum sig = true := by
  obtain ⟨pub, hpub, hrep, hsigned⟩ := PrivateKey.sign_signed hsign
  refine verify_eq_true.mpr ⟨pub, h, hpub, decide_eq_true hsigned.low, hh, ?_⟩
  exact (verify_iff hrep h.1 sig).mpr ⟨hsigned.inRange, hsigned.point⟩

lemma Channel.authorize_underpaid {ch : Channel} {com : Commitment} {q : QueryType}
    (hlive : ch.closed = false) (h : com.cumAmount < ch.quote q) :
    ch.authorize (some com) q = (.error (if com.sig.isSome then .underpaid else .badSig), ch) := by
  rw [authorize, if_neg (by simp [hlive])]
  dsimp only
  cases com.sig with
  | none => rfl
  | some sig => exact if_pos h

/-- **Quote, sign and authorize agree.** In whatever state a live channel is, for every query and
every client with the key of the channel: if the quote is within the deposit and leaves the fee of
the funding value, there is a hash to sign, and once it is signed the commitment is made and pays
for the access. A commitment of less changes nothing: it is underpaid, or not a signature at all. -/
theorem quote_sign_authorize {ch : Channel} (hlive : ch.closed = false) {priv : PrivateKey}
    (hkey : ch.cfg.clientPub = priv.public) (q : QueryType) (hdeposit : ch.quote q ≤ ch.cfg.deposit)
    (hfunding : (ch.quote q).toNat + ch.cfg.params.fee.toNat ≤ ch.cfg.params.fundingValue.toNat)
    (rounds : ℕ) :
    (∃ h, ch.cfg.params.channelTx.commitmentSighash (ch.quote q) = .ok h ∧
      ∀ sig, priv.sign rounds h.1 = some (.ok sig) →
        signCommitment rounds priv ch.cfg.params (ch.quote q) = some (.ok ⟨ch.quote q, some sig⟩) ∧
        ch.authorize (some ⟨ch.quote q, some sig⟩) q = (.ok (), ch.book ⟨ch.quote q, some sig⟩)) ∧
    ∀ com : Commitment, com.cumAmount < ch.quote q →
      ch.authorize (some com) q =
        (.error (if com.sig.isSome then .underpaid else .badSig), ch) := by
  constructor
  · obtain ⟨h, hh⟩ := exists_commitmentSighash (c := ch.cfg.params.channelTx) hfunding
    refine ⟨h, hh, fun sig hsign => ⟨signCommitment_ok hh hsign, ?_⟩⟩
    have hv := verify_of_sign hh hsign
    rw [← hkey] at hv
    exact Channel.authorize_of_accepts ⟨hlive, UInt64.le_refl _, hdeposit, sig, rfl, hv⟩
  · intro com hless
    exact Channel.authorize_underpaid hlive hless

lemma sample_client_sign : PrivateKey.sign ⟨1⟩ 1 sampleSighash.1 = some (.ok sampleSig) := by
  have hnonce : rfc6979Nonce 1 1 sampleSighash.1 =
      some 0x01079ce410a468926fe3f28c2d34e5df321d3d0a8e5533ea1449f53ff87e7ea2 := by
    unfold rfc6979Nonce nonceLoop hmacSHA
    rw [Sha256.Eval.sum256_eq]
    decide +kernel
  exact sign_of_nonce (x := sampleSig.r) (by decide) hnonce (by decide) ⟨by decide, by decide⟩
    (by decide +kernel)
    (by decide)

/-- The first access of the sample channel is quoted at 1000, signed and authorized. -/
theorem quote_sign_authorize_sample :
    signCommitment 1 ⟨1⟩ sampleParams 1000 = some (.ok sampleCommitment) ∧
      (sampleChannel fairPricing).authorize (some sampleCommitment) .mined =
        (.ok (), (sampleChannel fairPricing).book sampleCommitment) := by
  have hkey : (sampleChannel fairPricing).cfg.clientPub = PrivateKey.public ⟨1⟩ := by decide
  obtain ⟨⟨h, hh, hsigned⟩, -⟩ :=
    quote_sign_authorize (show (sampleChannel fairPricing).closed = false from rfl) hkey
    .mined (by decide) (by decide) 1
  obtain rfl : h = sampleSighash := Except.ok.inj (hh.symm.trans sampleSighash_eq)
  exact hsigned sampleSig sample_client_sign

end MemServe.Payment
