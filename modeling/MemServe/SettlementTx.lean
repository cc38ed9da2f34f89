import MemServe.Conserve
import MemServe.Der
import MemServe.Settle
import MemServe.SignVerify

/-!
Every accepted commitment can be settled on chain.

The settlement transaction is the commitment the client signed, with the server's signature beside
the client's. A script is not part of what is signed, so both signatures hold for the transaction
with its unlocking script in place.
-/

namespace MemServe.Payment

open Crypto Bsvtx

inductive SettleError
  | noCommitment
  | tx (e : Bsvtx.Error)
  | input (e : InputError)
  deriving DecidableEq

def derFromSig (s : Signature) : Bytes := derEncode s.r s.s

/-- The best commitment, co-signed by the server. -/
def Channel.settlementTx (ch : Channel) (rounds : ℕ) (serverPriv : PrivateKey) :
    Option (Except SettleError Tx) :=
  match ch.best with
  | none => some (.error .noCommitment)
  | some best =>
    let c := ch.cfg.params.channelTx
    match c.commitmentTx ch.cumPaid with
    | .error e => some (.error (.tx e))
    | .ok tx =>
      (signInput rounds serverPriv tx 0 c.redeem c.fundingValue sighashAllFork).map fun
        | .error e => .error (.input e)
        | .ok serverSig =>
          match best.sig with
          -- a nil signature
          | none => .error (.tx .panic)
          | some sig =>
            let clientSig := derFromSig sig ++ [sighashAllFork.toUInt8]
            (finalize2of2 tx clientSig serverSig).mapError .tx

lemma sighashForkID_finalize2of2 {t t' : Tx} {a b : Bytes} (h : finalize2of2 t a b = .ok t')
    (idx : ℕ) (scriptCode : Bytes) (amount : UInt64) (hashType : UInt32) :
    t'.sighashForkID idx scriptCode amount hashType =
      t.sighashForkID idx scriptCode amount hashType := by
  obtain ⟨version, inputs, outputs, lockTime⟩ := t
  cases inputs with
  | nil => cases h
  | cons i rest =>
    cases h
    cases idx with
    | zero => simp only [Tx.sighashForkID, List.flatMap_cons, List.getElem?_cons_zero]
    | succ idx => simp only [Tx.sighashForkID, List.flatMap_cons, List.getElem?_cons_succ]

lemma verifyInput_derEncode_eq {pub : PublicKey} {t : Tx} {idx : ℕ} {scriptCode : Bytes}
    {amount : UInt64} {c : UInt8} {h : Hash} {sig : Signature} (hrange : sig.InRange)
    (hh : t.sighashForkID idx scriptCode amount c.toUInt32 = .ok h) :
    verifyInput pub t idx scriptCode amount (derEncode sig.r sig.s ++ [c]) =
      .ok (sig.isLowS && Crypto.verify pub h.1 sig) := by
  have hn : curveN < 2 ^ 256 := by decide
  obtain ⟨hdecode, hlen⟩ :=
    derDecode_derEncode (r := sig.r) (s := sig.s) ⟨hrange.r_pos.le, hrange.r_lt.trans hn⟩
    ⟨hrange.s_pos.le, hrange.s_lt.trans hn⟩
  rw [verifyInput, if_neg (by rw [List.length_append, List.length_singleton]; omega)]
  simp only [List.dropLast_concat, hdecode, List.getLastD_concat]
  cases hlow : sig.isLowS with
  | false => rfl
  | true => rw [hh]; rfl

lemma verifyInput_derEncode {pub : PublicKey} {t : Tx} {idx : ℕ} {scriptCode : Bytes}
    {amount : UInt64} {hashType : UInt32} {h : Hash} {sig : Signature}
    (hbyte : hashType.toUInt8.toUInt32 = hashType) (hlow : sig.isLowS = true)
    (hh : t.sighashForkID idx scriptCode amount hashType = .ok h)
    (hv : Crypto.verify pub h.1 sig = true) :
    verifyInput pub t idx scriptCode amount (derEncode sig.r sig.s ++ [hashType.toUInt8]) =
      .ok true := by
  rw [verifyInput_derEncode_eq (inRange_of_verify hv) (hbyte.symm ▸ hh), hlow, hv]
  rfl

/-! ### Settlement -/

lemma Channel.openWith_params {cfg : Config} {ch : Channel} (h : Channel.openWith cfg = .ok ch)
    (hpub : cfg.params.clientPub.length ≠ 0) :
    ch.cfg.params.clientPub = cfg.params.clientPub ∧ ch.cfg.params.serverPub =
      cfg.params.serverPub ∧
      ch.cfg.params.fundingTxID = cfg.params.fundingTxID ∧
        ch.cfg.params.fundingVout = cfg.params.fundingVout := by
  unfold Channel.openWith at h
  cases hp : cfg.clientPub with
  | none => simp [hp] at h
  | some pub =>
    simp only [hp] at h
    split_ifs at h
    all_goals
      cases h
      exact ⟨rfl, rfl, rfl, rfl⟩

/-- What a transaction that settles a channel has: it spends the funding output, pays the server
first, and is unlocked by both signatures in the order of the keys. -/
structure Settles (tx : Tx) (funding : OutPoint) (fundingValue paid : UInt64)
    (client server : PublicKey) : Prop where
  inputs : tx.inputs.map (·.prevOut) = [funding]
  pays : tx.outputs.head? = some ⟨paid, p2pk server.serializeCompressed⟩
  unlocked : ∃ clientSig serverSig, tx.inputs.map (·.scriptSig) =
    [[0x00] ++ pushData clientSig ++ pushData serverSig] ∧
    verifyInput client tx 0 (multisig2of2 client.serializeCompressed server.serializeCompressed)
      fundingValue clientSig =
      .ok true ∧
    verifyInput server tx 0 (multisig2of2 client.serializeCompressed server.serializeCompressed)
      fundingValue serverSig =
      .ok true

lemma Channel.settlementTx_settles {ch : Channel} {best : Commitment}
    {clientSig serverSig : Signature} {h : Hash} {client server : PublicKey}
    {serverPriv : PrivateKey} {rounds : ℕ}
    (hcp : ch.cfg.params.clientPub = client.serializeCompressed)
    (hsp : ch.cfg.params.serverPub = server.serializeCompressed)
    (hserver : serverPriv.public = some server) (hbest : ch.best = some best)
    (hsig : best.sig = some clientSig) (hlow : clientSig.isLowS = true)
    (hh : ch.cfg.params.channelTx.commitmentSighash ch.cumPaid = .ok h)
    (hv : Crypto.verify client h.1 clientSig = true)
    (hsign : serverPriv.sign rounds h.1 = some (.ok serverSig)) :
    ∃ tx, ch.settlementTx rounds serverPriv = some (.ok tx) ∧
      Settles tx ⟨ch.cfg.params.fundingTxID, ch.cfg.params.fundingVout⟩ ch.cfg.params.fundingValue
        ch.cumPaid client server := by
  obtain ⟨pub, hpub, hrep, hsigned⟩ := PrivateKey.sign_signed hsign
  rw [hserver, Option.some.injEq] at hpub
  subst hpub
  have hserverV : Crypto.verify server h.1 serverSig = true :=
    (verify_iff hrep h.1 serverSig).mpr ⟨hsigned.inRange, hsigned.point⟩
  cases htx : ch.cfg.params.channelTx.commitmentTx ch.cumPaid with
  | error e =>
    rw [ChannelTx.commitmentSighash, htx] at hh
    cases hh
  | ok tx =>
    have hsighash : tx.sighashForkID 0 ch.cfg.params.channelTx.redeem
        ch.cfg.params.channelTx.fundingValue sighashAllFork =
        .ok h := by
      rw [ChannelTx.commitmentSighash, htx] at hh
      exact hh
    have hredeem : ch.cfg.params.channelTx.redeem =
      multisig2of2 client.serializeCompressed server.serializeCompressed :=
      congrArg₂ multisig2of2 hcp hsp
    have hsignInput : signInput rounds serverPriv tx 0 ch.cfg.params.channelTx.redeem
        ch.cfg.params.channelTx.fundingValue sighashAllFork =
            some (.ok (derFromSig serverSig ++ [sighashAllFork.toUInt8])) := by
      simp only [signInput, hsighash, hsign, Option.map_some, derFromSig]
    have hinputs := ChannelTx.inputs_of_commitmentTx _ _ htx
    have houtputs := ChannelTx.outputs_of_commitmentTx _ _ htx
    obtain ⟨final, hfinal⟩ : ∃ final,
      finalize2of2 tx (derFromSig clientSig ++ [sighashAllFork.toUInt8])
        (derFromSig serverSig ++ [sighashAllFork.toUInt8]) = .ok final := by
      rw [finalize2of2, hinputs]
      exact ⟨_, rfl⟩
    have hsame :=
      sighashForkID_finalize2of2 hfinal 0 ch.cfg.params.channelTx.redeem
      ch.cfg.params.channelTx.fundingValue
      sighashAllFork
    rw [hsighash] at hsame
    refine ⟨final, ?_, ?_⟩
    · simp only [settlementTx, hbest, htx, hsignInput, Option.map_some, hsig, hfinal]
      rfl
    · rw [hredeem] at hsame
      rw [finalize2of2, hinputs] at hfinal
      cases hfinal
      refine ⟨rfl, ?_, _, _, rfl, verifyInput_derEncode rfl hlow hsame hv,
        verifyInput_derEncode rfl (decide_eq_true hsigned.low) hsame hserverV⟩
      rw [houtputs, List.head?_cons, ← hsp]
      rfl

/-- **Every accepted commitment is settleable.** Once a channel has authorized an access, the
settlement transaction spends the funding output, pays the server what the channel has recorded, and
carries the signatures of both parties, which hold for it. -/
theorem settlementTx_accepted {cfg : Config} {ch : Channel} (hopen : Channel.openWith cfg = .ok ch)
    {client server : PublicKey} {serverPriv : PrivateKey} (hclient : cfg.clientPub = some client)
    (hcp : cfg.params.clientPub = client.serializeCompressed)
    (hserver : serverPriv.public = some server)
    (hsp : cfg.params.serverPub = server.serializeCompressed) (ops : List Op)
    (hlog : (ch.run ops).log ≠ []) (rounds : ℕ) :
    ∃ h, ch.cfg.params.channelTx.commitmentSighash (ch.run ops).ch.cumPaid = .ok h ∧
      ∀ sig, serverPriv.sign rounds h.1 = some (.ok sig) →
        ∃ tx, (ch.run ops).ch.settlementTx rounds serverPriv = some (.ok tx) ∧
          Settles tx ⟨cfg.params.fundingTxID, cfg.params.fundingVout⟩ ch.cfg.params.fundingValue
            (ch.run ops).ch.cumPaid
            client server := by
  obtain ⟨hnew, -, hpub⟩ := backed_of_open hopen
  obtain ⟨hb, hcfg⟩ := hnew.run ops
  obtain ⟨hparamsC, hparamsS, htxid, hvout⟩ :=
    Channel.openWith_params hopen (by rw [hcp]; simp [PublicKey.serializeCompressed])
  change (ch.run ops).Backed at hb
  change (ch.run ops).ch.cfg = ch.cfg at hcfg
  obtain ⟨best, hbest, hcum, clientSig, pub, h, hsig, hp, hlow, hh, hv⟩ := hb.best hlog
  rw [hcum, hcfg] at hh
  rw [hcfg, hpub, hclient, Option.some.injEq] at hp
  subst hp
  refine ⟨h, hh, fun sig hsign => ?_⟩
  rw [← hcfg] at hh
  have hsettles :=
    Channel.settlementTx_settles (hcfg ▸ hparamsC.trans hcp)
    (hcfg ▸ hparamsS.trans hsp) hserver hbest hsig hlow
    hh hv hsign
  rwa [hcfg, htxid, hvout] at hsettles

/-- The key of the scalar two, the server of the sample channel. -/
def sampleServer : PublicKey :=
  ⟨0xc6047f9441ed7d6d3045406e95c07cd85c778e4b8cef3ca7abac09b95c709ee5,
    0x1ae168fea63dc339a3c58419466ceaeef7f632653266d0e1236431a950cfe52a⟩

lemma sample_server_public : PrivateKey.public ⟨2⟩ = some sampleServer := by decide

def sampleServerSignature : Signature :=
  ⟨0xf4912bcc329773e35ab09deff1de73c2a813600ab1626607386f2022117576b6,
    0x0d2eda1d765b24a067e22511a4a0c9e4636f32fb2d4dca95bd0c4fdb21be71d9⟩

lemma sample_server_sign :
    PrivateKey.sign ⟨2⟩ 1 sampleSighash.1 = some (.ok sampleServerSignature) := by
  have hnonce : rfc6979Nonce 1 2 sampleSighash.1 =
      some 0x90ca3c0d8afe8fe65e08df38a922d629244468726e666b44d3e5115ee1d79d1b := by
    unfold rfc6979Nonce nonceLoop hmacSHA
    rw [Sha256.Eval.sum256_eq]
    decide +kernel
  exact sign_of_nonce (x := sampleServerSignature.r) (by decide) hnonce (by decide)
    ⟨by decide, by decide⟩
    (by decide +kernel) (by decide)

/-- The sample channel is settled after one access. -/
theorem settlementTx_accepted_sample :
    ∃ tx,
      ((sampleChannel fairPricing).run [.authorize (some sampleCommitment) .mined]).ch.settlementTx
      1 ⟨2⟩ = some (.ok tx) ∧
      Settles tx ⟨.fill 32 0x11, 0⟩ 100000 1000 sampleKey sampleServer := by
  have hrun := @sample_run fairPricing .mined (by decide)
  obtain ⟨h, hh, hsettles⟩ :=
    settlementTx_accepted (sample_open fairPricing) rfl rfl sample_server_public rfl
    [.authorize (some sampleCommitment) .mined] (by rw [hrun]; simp) 1
  rw [hrun] at hh hsettles ⊢
  have heq : h = sampleSighash := Except.ok.inj (hh.symm.trans sampleSighash_eq)
  subst heq
  exact hsettles _ sample_server_sign

end MemServe.Payment
