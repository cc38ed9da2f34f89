import MemServe.Locks
import MemServe.Serialize
import MemServe.SettlementTx
import MemServe.Wire

/-!
The program `channeltestnet`: the transactions of a channel from the coin that funds it to its
settlement or refund.

Each of them spends an output of the one before, and carries the signatures that output asks for.
-/

namespace MemServe.Channeltestnet

open Bsvtx Crypto

/-- The bytes that `hex.DecodeString` returns, with or without an error: those before the first that
is not written in two digits. -/
def hexPrefix (s : Bytes) : Bytes :=
  match s with
  | c :: d :: cs =>
    match Httpsource.hexDigit c, Httpsource.hexDigit d with
    | .ok hi, .ok lo => (hi * 16 + lo) :: hexPrefix cs
    | _, _ => []
  | _ => []

/-- The bytes of a txid in the order it is displayed in. -/
def rev (h : Hash) : Bytes := h.1.reverse

/-- `hex.EncodeToString(rev(tx.TxID()))`. -/
def display (h : Hash) : Bytes := Server.encodeToString (rev h)

def dispToInternal (s : Bytes) : Hash := .copy 32 (hexPrefix s).reverse

def txID (t : Tx) : Hash := Commitment.doubleSHA256 t.serialize

def buildFunding (rounds : ℕ) (clientPriv : PrivateKey) (clientPub serverPub utxoTxid : Bytes)
    (vout : UInt32)
    (utxoValue deposit fee : UInt64) : Option (Except InputError Tx) :=
  let change := utxoValue - deposit - fee
  let tx : Tx := {
    version := 2
    inputs := [{ prevOut := ⟨dispToInternal utxoTxid, vout⟩, sequence := finalSequence }]
    outputs := [⟨deposit, multisig2of2 clientPub serverPub⟩, ⟨change, p2pkhFromPub clientPub⟩]
    lockTime := 0 }
  let scriptCode := p2pkhFromPub clientPub
  (signInput rounds clientPriv tx 0 scriptCode utxoValue sighashAllFork).map fun sig =>
    sig.map fun sig =>
      { tx with
        inputs := tx.inputs.map fun i => { i with scriptSig := scriptSigP2PKH sig clientPub } }

def channelTx (fundingTxidDisp : Bytes) (vout : UInt32) (value : UInt64)
    (clientPub serverPub : Bytes) (fee : UInt64) :
    ChannelTx where
  fundingOut := ⟨dispToInternal fundingTxidDisp, vout⟩
  fundingValue := value
  clientPub := clientPub
  serverPub := serverPub
  fee := fee

/-- Both signatures of a transaction that spends the funding output; an error of the signer is
passed over, and leaves an empty signature. -/
def finalize (rounds : ℕ) (c : ChannelTx) (clientPriv serverPriv : PrivateKey) (tx : Tx) :
    Option (Except Error Tx) := do
  let clientSig ← signInput rounds clientPriv tx 0 c.redeem c.fundingValue sighashAllFork
  let serverSig ← signInput rounds serverPriv tx 0 c.redeem c.fundingValue sighashAllFork
  some (finalize2of2 tx (clientSig.toOption.getD []) (serverSig.toOption.getD []))

def buildSettlement (rounds : ℕ) (c : ChannelTx) (clientPriv serverPriv : PrivateKey)
    (pay : UInt64) :
    Option (Except Error Tx) :=
  match c.commitmentTx pay with
  | .error e => some (.error e)
  | .ok tx => finalize rounds c clientPriv serverPriv tx

def buildRefund (rounds : ℕ) (c : ChannelTx) (clientPriv serverPriv : PrivateKey)
    (lockTime : UInt32) :
    Option (Except Error Tx) := finalize rounds c clientPriv serverPriv (c.refundTx lockTime)

lemma hexPrefix_of_decodeHex {s b : Bytes} (h : Httpsource.decodeHex s = .ok b) :
    hexPrefix s = b := by
  induction s using Httpsource.decodeHex.induct generalizing b with
  | case1 =>
    cases h
    rfl
  | case2 c =>
    cases hc : Httpsource.hexDigit c <;> simp [Httpsource.decodeHex, hc, bind, Except.bind] at h
  | case3 c d cs ih =>
    simp only [Httpsource.decodeHex, Httpsource.bind_eq_ok] at h
    obtain ⟨hi, hc, lo, hd, bs, hcs, heq⟩ := h
    cases heq
    rw [hexPrefix, hc, hd]
    dsimp only
    rw [ih hcs]

lemma dispToInternal_display (h : Hash) : dispToInternal (display h) = h := by
  rw [dispToInternal, display, hexPrefix_of_decodeHex (Server.decodeHex_encodeToString _), rev,
    List.reverse_reverse, ByteArr.copy_val]

lemma verifyInput_congr {t t' : Tx} {idx : ℕ} {scriptCode : Bytes} {amount : UInt64}
    (h : ∀ hashType, t'.sighashForkID idx scriptCode amount hashType =
      t.sighashForkID idx scriptCode amount hashType)
    (pub : PublicKey) (sig : Bytes) :
    verifyInput pub t' idx scriptCode amount sig = verifyInput pub t idx scriptCode amount sig := by
  unfold verifyInput
  simp only [h]

lemma sighashForkID_scriptSig (version : Int32) (i : TxIn) (outputs : List TxOut)
    (lockTime : UInt32) (script scriptCode : Bytes) (amount : UInt64) (hashType : UInt32) :
    Tx.sighashForkID ⟨version, [{ i with scriptSig := script }], outputs, lockTime⟩ 0 scriptCode
      amount hashType =
      Tx.sighashForkID ⟨version, [i], outputs, lockTime⟩ 0 scriptCode amount hashType := by
  simp only [Tx.sighashForkID, List.flatMap_cons, List.getElem?_cons_zero]

/-! ### The transactions of a channel -/

/-- The transaction spends `op` only, and is signed for the output there. -/
def Spends (tx : Tx) (op : OutPoint) (out : TxOut) : Prop :=
  ∃ i, tx.inputs = [i] ∧ i.prevOut = op ∧ Signed tx 0 out i.scriptSig

section

variable {rounds : ℕ} {clientPriv serverPriv : PrivateKey} {client server : PublicKey}

/-- **Funding**: the coin is spent, and split into the deposit and the change. -/
lemma buildFunding_spends (hclient : clientPriv.public = some client) {serverPub utxoTxid : Bytes}
    {vout : UInt32} {utxoValue deposit fee : UInt64} {funding : Tx}
    (h : buildFunding rounds clientPriv client.serializeCompressed serverPub utxoTxid vout utxoValue
      deposit fee =
      some (.ok funding)) :
    Spends funding ⟨dispToInternal utxoTxid, vout⟩
      ⟨utxoValue, p2pkhFromPub client.serializeCompressed⟩ ∧
      funding.outputs = [⟨deposit, multisig2of2 client.serializeCompressed serverPub⟩,
        ⟨utxoValue - deposit - fee, p2pkhFromPub client.serializeCompressed⟩] := by
  obtain ⟨r, hr, hmap⟩ := Option.map_eq_some_iff.mp h
  cases r with
  | error e => cases hmap
  | ok sig =>
    cases hmap
    obtain ⟨hverify, hcurve⟩ := verifyInput_signInput hclient hr
    refine ⟨⟨_, rfl, rfl, .p2pkh (parseCompressed_serializeCompressed hcurve) ?_⟩, rfl⟩
    rw [← hverify]
    exact verifyInput_congr (fun hashType => sighashForkID_scriptSig ..) client sig

lemma finalize_spends (hclient : clientPriv.public = some client)
    (hserver : serverPriv.public = some server) {c : ChannelTx}
    (hcp : c.clientPub = client.serializeCompressed)
    (hsp : c.serverPub = server.serializeCompressed) {tx : Tx} {i : TxIn} (hi : tx.inputs = [i])
    (hsigned : ∀ priv ∈ [clientPriv, serverPriv], ∃ sig,
      signInput rounds priv tx 0 c.redeem c.fundingValue sighashAllFork = some (.ok sig)) :
    ∃ final, finalize rounds c clientPriv serverPriv tx = some (.ok final) ∧
      final.outputs = tx.outputs ∧
      final.lockTime = tx.lockTime ∧ Spends final i.prevOut ⟨c.fundingValue, c.redeem⟩ := by
  obtain ⟨clientSig, hcs⟩ := hsigned clientPriv (by simp)
  obtain ⟨serverSig, hss⟩ := hsigned serverPriv (by simp)
  obtain ⟨hcv, hccurve⟩ := verifyInput_signInput hclient hcs
  obtain ⟨hsv, hscurve⟩ := verifyInput_signInput hserver hss
  obtain ⟨final, hfinal⟩ : ∃ final, finalize2of2 tx clientSig serverSig = .ok final := by
    rw [finalize2of2, hi]
    exact ⟨_, rfl⟩
  have hsame :=
    verifyInput_congr (Payment.sighashForkID_finalize2of2 hfinal 0 c.redeem c.fundingValue)
  have hredeem : c.redeem = multisig2of2 client.serializeCompressed server.serializeCompressed :=
    congrArg₂ multisig2of2 hcp hsp
  have hrun : finalize rounds c clientPriv serverPriv tx = some (.ok final) := by
    rw [finalize, hcs, hss, ← hfinal]
    rfl
  rw [← hsame] at hcv hsv
  rw [finalize2of2, hi] at hfinal
  cases hfinal
  refine ⟨_, hrun, rfl, rfl, _, rfl, rfl, ?_⟩
  rw [hredeem] at hcv hsv ⊢
  exact .multisig2of2 hccurve hscurve hcv hsv

end

lemma toNat_sub_sub {a b c : UInt64} (h : b.toNat + c.toNat ≤ a.toNat) :
    (a - b - c).toNat = a.toNat - b.toNat - c.toNat := by
  have := a.toNat_lt
  rw [UInt64.toNat_sub, UInt64.toNat_sub]
  omega

/-- **The life of a channel.** The funding transaction spends the coin; the settlement and the
refund, built from the id that is displayed for it, spend its first output, and each is signed for
what it spends. No value is lost but the fees: the settlement pays the server `pay` and the client
the rest, the refund pays the client, from `lockTime` on. -/
theorem channel_lifecycle (rounds : ℕ) {clientPriv serverPriv : PrivateKey}
    {client server : PublicKey} (hclient : clientPriv.public = some client)
    (hserver : serverPriv.public = some server) (utxoTxid : Bytes) (vout : UInt32)
    (utxoValue deposit fee pay : UInt64) (lockTime : UInt32)
    (hfund : deposit.toNat + fee.toNat ≤ utxoValue.toNat)
    (hpay : pay.toNat + fee.toNat ≤ deposit.toNat) {funding : Tx}
    (hbuild : buildFunding rounds clientPriv client.serializeCompressed server.serializeCompressed
      utxoTxid vout utxoValue
      deposit fee = some (.ok funding)) {c : ChannelTx}
    (hc : c = channelTx (display (txID funding)) 0 deposit client.serializeCompressed
      server.serializeCompressed fee)
    (hsigned : ∀ priv ∈ [clientPriv, serverPriv],
      ∀ tx, c.commitmentTx pay = .ok tx ∨ c.refundTx lockTime = tx →
      ∃ sig, signInput rounds priv tx 0 c.redeem c.fundingValue sighashAllFork = some (.ok sig)) :
    Spends funding ⟨dispToInternal utxoTxid, vout⟩
      ⟨utxoValue, p2pkhFromPub client.serializeCompressed⟩ ∧
    (funding.outputs.map fun o => o.value.toNat).sum + fee.toNat = utxoValue.toNat ∧
    ∃ settle refund out, buildSettlement rounds c clientPriv serverPriv pay = some (.ok settle) ∧
      buildRefund rounds c clientPriv serverPriv lockTime = some (.ok refund) ∧
      funding.outputs[0]? = some out ∧ Spends settle ⟨txID funding, 0⟩ out ∧
        Spends refund ⟨txID funding, 0⟩ out ∧
      settle.outputs = [⟨pay, p2pk server.serializeCompressed⟩,
        ⟨deposit - pay - fee, p2pk client.serializeCompressed⟩] ∧
      (settle.outputs.map fun o => o.value.toNat).sum + fee.toNat = deposit.toNat ∧
        settle.lockTime = 0 ∧
      refund.outputs = [⟨deposit - fee, p2pk client.serializeCompressed⟩] ∧
      (refund.outputs.map fun o => o.value.toNat).sum + fee.toNat = deposit.toNat ∧
        refund.lockTime = lockTime := by
  obtain ⟨hspend, houtputs⟩ := buildFunding_spends hclient hbuild
  have hout : c.fundingOut = ⟨txID funding, 0⟩ := by rw [hc, channelTx, dispToInternal_display]
  have hcommit : c.commitmentTx pay = .ok {
      version := 2
      inputs := [{ prevOut := c.fundingOut, sequence := finalSequence }]
      outputs :=
        [⟨pay, p2pk server.serializeCompressed⟩,
          ⟨deposit - pay - fee, p2pk client.serializeCompressed⟩]
      lockTime := 0 } := by
    have hle : ¬pay + fee > deposit := by
      rw [gt_iff_lt, UInt64.lt_iff_toNat_lt, UInt64.toNat_add]
      have := deposit.toNat_lt
      omega
    subst hc
    exact if_neg hle
  have hkeys : c.clientPub = client.serializeCompressed ∧
      c.serverPub = server.serializeCompressed := by
    rw [hc]
    exact ⟨rfl, rfl⟩
  have hlock : (⟨c.fundingValue, c.redeem⟩ : TxOut) =
      ⟨deposit, multisig2of2 client.serializeCompressed server.serializeCompressed⟩ := by
    rw [hc]
    rfl
  obtain ⟨settle, hsettle, hsout, hslock, hsspend⟩ :=
    finalize_spends hclient hserver hkeys.1 hkeys.2 (List.cons_eq_cons.mpr ⟨rfl, rfl⟩)
    fun priv hpriv => hsigned priv hpriv _ (.inl hcommit)
  obtain ⟨refund, hrefund, hrout, hrlock, hrspend⟩ :=
    finalize_spends hclient hserver hkeys.1 hkeys.2 (List.cons_eq_cons.mpr ⟨rfl, rfl⟩)
    fun priv hpriv => hsigned priv hpriv _ (.inr rfl)
  dsimp only at hsout hslock hsspend
  have hrout' : refund.outputs = [⟨deposit - fee, p2pk client.serializeCompressed⟩] := by
    rw [hrout, hc]
    rfl
  rw [hout, hlock] at hsspend hrspend
  have hsettle' : buildSettlement rounds c clientPriv serverPriv pay = some (.ok settle) := by
    rw [buildSettlement, hcommit]
    exact hsettle
  refine ⟨hspend, ?_, settle, refund, _, hsettle', hrefund, by rw [houtputs]; rfl, hsspend, hrspend,
    hsout, ?_, hslock,
    hrout', ?_, hrlock⟩
  · rw [houtputs]
    simp only [List.map_cons, List.map_nil, List.sum_cons, List.sum_nil, toNat_sub_sub hfund]
    omega
  · rw [hsout]
    simp only [List.map_cons, List.map_nil, List.sum_cons, List.sum_nil, toNat_sub_sub hpay]
    omega
  · have hfee : (0 : UInt64).toNat + fee.toNat ≤ deposit.toNat := by
      change 0 + fee.toNat ≤ deposit.toNat
      omega
    have hsub := toNat_sub_sub hfee
    rw [UInt64.sub_zero, UInt64.toNat_zero] at hsub
    rw [hrout']
    simp only [List.map_cons, List.map_nil, List.sum_cons, List.sum_nil, hsub]
    omega

lemma length_hashOf (v : ℕ) : (beBytes 32 v).length = 32 := length_beBytes 32 v

def hashOf (v : ℕ) : Hash := ⟨beBytes 32 v, length_hashOf v⟩

/-- The coin of the sample channel, and its key and the server's. -/
def sampleUtxo : Bytes := List.replicate 64 0x31

def sampleClient : PublicKey := ⟨curveGx, curveGy⟩

lemma sample_client_public : PrivateKey.public ⟨1⟩ = some sampleClient := by decide

def sampleClientHash : ByteArr 20 :=
  ⟨beBytes 20 0x751e76e8199196d454941c45d1b3a323f1433bd6, length_beBytes _ _⟩

lemma sample_client_hash : hash160 sampleClient.serializeCompressed = sampleClientHash := by
  unfold hash160
  rw [Sha256.Eval.sum256_eq]
  exact ByteArr.ext (by decide +kernel)

/-- What a key signs, with the nonce it takes. -/
structure Signing where
  key : ℕ
  hash : Hash
  nonce : ℕ
  sig : Signature

def sampleFundingSigning : Signing where
  key := 1
  hash := hashOf 0x6cfd2fe39f4c918bbbf580e690366740f63ba22a7c1dad7a9b58e06106f1ebec
  nonce := 0x45db9e1126aea8ead6074a0cf34762eec0ac5cd321759bb3c169a9f5744812ad
  sig := ⟨0x46440b2a960c4cb5547e01d6485bdb4f583fd7575e8f7d7f73e20be491b17b09,
    0x16a3ada436444d86e544b58a6bcb203e991160934554412af1566ce0db8b6dca⟩

def sampleSettleHash : Hash :=
  hashOf 0x003bd6b8f7e3cf79f719a8e2ac437f759bfcfa404a2712fe36b53723c60a9998

def sampleRefundHash : Hash :=
  hashOf 0xc7cf38d0ad6cfdeb52a7110d5e25cacb9b47513bf47a59ad60dc0459695926cc

def clientSettle : Signing where
  key := 1
  hash := sampleSettleHash
  nonce := 0x9e4e0ebcb338f614c7288c8f91339454005f8f17f7a9f011887712d5f34653fa
  sig := ⟨0x7b6bc82323383056fcb3f704f525104c3195e85fa9eea663fe15e522520b3ec7,
    0x2df95d48f7a05b8b29f6acb0d5953280bdb2c69f20be6af126d0c9ede84f268f⟩

def serverSettle : Signing where
  key := 2
  hash := sampleSettleHash
  nonce := 0xa9837d8765bbbaa636ddb0756e1954e2868d4c61dbfd26e559ff584f11351367
  sig := ⟨0x22bd08576696d218eb5918091eba8cb421cea8bd18456d66b0ed6d15b1349f8e,
    0x2fd0dcf01369e015b18bcf2d4a0e52008c90835fa2d8d4399aec722a30c011fa⟩

def clientRefund : Signing where
  key := 1
  hash := sampleRefundHash
  nonce := 0xa3f57bc48a65d84fdd66516d3b3d8464b4755a6759de38b4bd2b78372254d809
  sig := ⟨0x5dc4ecaef4d6a77ac532f579fb8879508611282555fa97e1074911751342c6e6,
    0x5f305b451f5f3f94e690d90631a135bfb8ff0b561c7da2abdaa0a71ae35bb076⟩

def serverRefund : Signing where
  key := 2
  hash := sampleRefundHash
  nonce := 0x30395587e4ebb1fa56d11e44ffea70a8419fd832a13494e9867204d4f3460e81
  sig := ⟨0x82c8f9ed7bca1fa9d075ce52d7c95b8d00112cd24ec7e0352ee2e3944e111d0b,
    0x498ab15581bcefe4261c56114ec5d4399f86c35e2b81eae0de1562f7130400c6⟩

def sampleSignings : List Signing :=
  [sampleFundingSigning, clientSettle, serverSettle, clientRefund, serverRefund]

lemma sample_signs :
    ∀ s ∈ sampleSignings, PrivateKey.sign ⟨s.key⟩ 1 s.hash.1 = some (.ok s.sig) := by
  have hrange : ∀ s ∈ sampleSignings, ¬(s.key = 0 ∨ curveN ≤ s.key) ∧
      (0 < s.nonce ∧ (s.nonce : ℤ) < curveN) ∧
      InField s.sig.r := by
    unfold InField
    decide
  have hnonce : ∀ s ∈ sampleSignings, rfc6979Nonce 1 s.key s.hash.1 = some s.nonce := by
    unfold rfc6979Nonce nonceLoop hmacSHA
    rw [Sha256.Eval.sum256_eq]
    decide +kernel
  have hpoint : ∀ s ∈ sampleSignings, HasX (multMod s.nonce ⟨curveGx, curveGy, 1⟩) s.sig.r ∧
      signatureOf s.key (bits2int s.hash.1 256) s.nonce s.sig.r = some s.sig := by
    decide +kernel
  intro s hs
  obtain ⟨hkey, hk, hr⟩ := hrange s hs
  exact sign_of_nonce hkey (hnonce s hs) hk hr (hpoint s hs).1 (hpoint s hs).2

/-- The funding transaction, with the key hash in place. -/
def sampleFunding : Tx where
  version := 2
  inputs := [{
    prevOut := ⟨dispToInternal sampleUtxo, 0⟩
    scriptSig :=
      scriptSigP2PKH (derEncode sampleFundingSigning.sig.r sampleFundingSigning.sig.s ++ [0x41])
      sampleClient.serializeCompressed
    sequence := finalSequence }]
  outputs :=
    [⟨10000, multisig2of2 sampleClient.serializeCompressed
      Payment.sampleServer.serializeCompressed⟩,
    ⟨9500, p2pkh sampleClientHash⟩]
  lockTime := 0

lemma sample_funding_built :
    buildFunding 1 ⟨1⟩ sampleClient.serializeCompressed Payment.sampleServer.serializeCompressed
      sampleUtxo 0 20000 10000 500 =
      some (.ok sampleFunding) := by
  unfold buildFunding
  rw [p2pkhFromPub, sample_client_hash]
  dsimp only
  have hsign : PrivateKey.sign ⟨1⟩ 1 sampleFundingSigning.hash.1 = _ :=
    sample_signs sampleFundingSigning (by simp [sampleSignings])
  rw [signInput_of_sign ?_ hsign]
  · rfl
  · unfold Tx.sighashForkID Commitment.doubleSHA256
    rw [Sha256.Eval.sum256_eq]
    decide +kernel

lemma sample_funding_id :
    txID sampleFunding =
      hashOf 0xb2ba438e6a306ac5d5f1987f3649db001314e489fc9927bd222e8dc4c075a5bb := by
  unfold txID Commitment.doubleSHA256
  rw [Sha256.Eval.sum256_eq]
  decide +kernel

/-- The channel on the first output of `sampleFunding`. -/
def sampleChannel : ChannelTx where
  fundingOut := ⟨hashOf 0xb2ba438e6a306ac5d5f1987f3649db001314e489fc9927bd222e8dc4c075a5bb, 0⟩
  fundingValue := 10000
  clientPub := sampleClient.serializeCompressed
  serverPub := Payment.sampleServer.serializeCompressed
  fee := 500

lemma sample_channel :
    sampleChannel = channelTx (display (txID sampleFunding)) 0 10000
      sampleClient.serializeCompressed
      Payment.sampleServer.serializeCompressed 500 := by
  rw [channelTx, dispToInternal_display, sample_funding_id]
  rfl

lemma sample_settle_hash {tx : Tx} (h : sampleChannel.commitmentTx 1000 = .ok tx) :
    tx.sighashForkID 0 sampleChannel.redeem sampleChannel.fundingValue sighashAllFork =
      .ok sampleSettleHash := by
  cases h
  unfold Tx.sighashForkID Commitment.doubleSHA256
  rw [Sha256.Eval.sum256_eq]
  decide +kernel

lemma sample_refund_hash :
    (sampleChannel.refundTx 700000).sighashForkID 0 sampleChannel.redeem sampleChannel.fundingValue
      sighashAllFork =
      .ok sampleRefundHash := by
  unfold Tx.sighashForkID Commitment.doubleSHA256
  rw [Sha256.Eval.sum256_eq]
  decide +kernel

lemma sample_signed : ∀ priv ∈ [⟨1⟩, ⟨2⟩], ∀ tx,
    sampleChannel.commitmentTx 1000 = .ok tx ∨ sampleChannel.refundTx 700000 = tx →
    ∃ sig, signInput 1 priv tx 0 sampleChannel.redeem sampleChannel.fundingValue sighashAllFork =
      some (.ok sig) := by
  intro priv hpriv tx htx
  rw [List.mem_cons, List.mem_singleton] at hpriv
  obtain hsettle | rfl := htx
  · have hh := sample_settle_hash hsettle
    obtain rfl | rfl := hpriv
    · exact ⟨_, signInput_of_sign hh (sample_signs clientSettle (by simp [sampleSignings]))⟩
    · exact ⟨_, signInput_of_sign hh (sample_signs serverSettle (by simp [sampleSignings]))⟩
  · obtain rfl | rfl := hpriv
    · exact ⟨_, signInput_of_sign sample_refund_hash
        (sample_signs clientRefund (by simp [sampleSignings]))⟩
    · exact ⟨_, signInput_of_sign sample_refund_hash
        (sample_signs serverRefund (by simp [sampleSignings]))⟩

/-- Of a coin of 20000, 10000 are deposited and 1000 paid, with fees of 500. -/
theorem channel_lifecycle_sample :
    ∃ settle refund out, buildSettlement 1 sampleChannel ⟨1⟩ ⟨2⟩ 1000 = some (.ok settle) ∧
      buildRefund 1 sampleChannel ⟨1⟩ ⟨2⟩ 700000 = some (.ok refund) ∧
      Spends settle ⟨txID sampleFunding, 0⟩ out ∧ Spends refund ⟨txID sampleFunding, 0⟩ out ∧
      settle.outputs.map (·.value) = [1000, 8500] ∧ refund.outputs.map (·.value) = [9500] := by
  obtain ⟨-, -, settle, refund, out, hsettle, hrefund, -, hsspend, hrspend, hsout, -, -,
    hrout, -⟩ :=
    channel_lifecycle 1 sample_client_public Payment.sample_server_public sampleUtxo 0 20000 10000
      500 1000 700000
      (by decide) (by decide) sample_funding_built sample_channel sample_signed
  refine ⟨settle, refund, out, hsettle, hrefund, hsspend, hrspend, ?_, ?_⟩
  · rw [hsout]
    rfl
  · rw [hrout]
    rfl

end MemServe.Channeltestnet
