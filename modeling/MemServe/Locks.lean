import MemServe.Binding
import MemServe.Canonical
import MemServe.Compressed
import MemServe.Ripemd160
import MemServe.SettlementTx

/-!
The scripts of the package `bsvtx`: what an output asks for, and what an input answers it with.

A script is a row of pushes and opcodes, and no push can be taken for another one. So a locking
script tells whose signatures it asks for, and an unlocking script which signatures it carries.
-/

namespace MemServe.Bsvtx

open Crypto

def hash160 (b : Bytes) : ByteArr 20 := Ripemd160.ripemd160 (Sha256.sum256 b).1

/-- `OP_DUP OP_HASH160 <20> OP_EQUALVERIFY OP_CHECKSIG`. -/
def p2pkh (pubKeyHash : ByteArr 20) : Bytes := [0x76, 0xa9, 0x14] ++ pubKeyHash.1 ++ [0x88, 0xac]

def p2pkhFromPub (compressedPub : Bytes) : Bytes := p2pkh (hash160 compressedPub)

def scriptSigP2PK (sigWithType : Bytes) : Bytes := pushData sigWithType

def scriptSigP2PKH (sigWithType compressedPub : Bytes) : Bytes :=
  pushData sigWithType ++ pushData compressedPub

/-- The bytes that a push of `n` bytes begins with. -/
def pushHeader (n : ℕ) : Bytes :=
  if n < 0x4c then leBytes 1 n else if n ≤ 0xff then 0x4c :: leBytes 1 n else 0x4d :: leBytes 2 n

lemma mod_of_ofNat_eq {n m : ℕ} (h : UInt8.ofNat n = UInt8.ofNat m) : n % 256 = m % 256 := by
  have := congrArg UInt8.toNat h
  rwa [UInt8.toNat_ofNat', UInt8.toNat_ofNat'] at this

lemma pushHeader_selfDelimiting : SelfDelimiting pushHeader {n | n < 2 ^ 16} := by
  intro n hn m hm x y h
  change n < 2 ^ 16 at hn
  change m < 2 ^ 16 at hm
  have hone : ∀ k, leBytes 1 k = [UInt8.ofNat k] := fun k => leBytes_succ 0 k
  have htwo : ∀ k, leBytes 2 k = [UInt8.ofNat k, UInt8.ofNat (k / 256)] := fun k => by
    rw [leBytes_succ, hone]
  have hc : (0x4c : UInt8) = UInt8.ofNat 0x4c := rfl
  have hd : (0x4d : UInt8) = UInt8.ofNat 0x4d := rfl
  unfold pushHeader at h
  rw [hc, hd] at h
  -- the first byte tells which of the three forms it is
  split_ifs at h <;>
    simp only [hone, htwo, List.cons_append, List.nil_append, List.cons.injEq, true_and] at h
  all_goals have hlow := mod_of_ofNat_eq h.1
  · exact ⟨by omega, h.2⟩
  · omega
  · omega
  · omega
  · exact ⟨by omega, h.2⟩
  · omega
  · omega
  · omega
  · have hhigh := mod_of_ofNat_eq h.2.1
    exact ⟨by omega, h.2.2⟩

lemma pushData_selfDelimiting : SelfDelimiting pushData {d | d.length < 2 ^ 16} :=
  pushHeader_selfDelimiting.withLength

lemma p2pkh_inj {h h' : ByteArr 20} (heq : p2pkh h = p2pkh h') : h = h' :=
  ByteArr.ext (List.append_cancel_left (List.append_cancel_right heq))

lemma length_serializeCompressed (key : PublicKey) : key.serializeCompressed.length = 33 := by
  rw [PublicKey.serializeCompressed, List.length_cons, length_beBytes]

section Keys

variable {a b a' b' : PublicKey}

lemma parseCompressed_serializeCompressed (ha : onCurve a.x a.y = true) :
    parseCompressed a.serializeCompressed = .ok a := by
  obtain ⟨hx, -, -⟩ := onCurve_iff.mp ha
  exact parseCompressed_ok_iff.mpr ⟨(serializeCompressed_eq_iff hx).mp rfl, ha⟩

lemma serializeCompressed_inj (ha : onCurve a.x a.y = true) (hb : onCurve b.x b.y = true)
    (h : a.serializeCompressed = b.serializeCompressed) : a = b := by
  have hparse := parseCompressed_serializeCompressed ha
  rw [h, parseCompressed_serializeCompressed hb] at hparse
  exact (Except.ok.inj hparse).symm

lemma serializeCompressed_pushable (key : PublicKey) :
    key.serializeCompressed ∈ {d : Bytes | d.length < 2 ^ 16} := by
  change key.serializeCompressed.length < 2 ^ 16
  rw [length_serializeCompressed]
  decide

lemma multisig2of2_inj (ha : onCurve a.x a.y = true) (hb : onCurve b.x b.y = true)
    (ha' : onCurve a'.x a'.y = true) (hb' : onCurve b'.x b'.y = true)
    (h : multisig2of2 a.serializeCompressed b.serializeCompressed =
      multisig2of2 a'.serializeCompressed b'.serializeCompressed) : a = a' ∧ b = b' := by
  simp only [multisig2of2, List.append_assoc, List.append_right_inj] at h
  obtain ⟨hA, h⟩ := pushData_selfDelimiting _ (serializeCompressed_pushable a) _
    (serializeCompressed_pushable a') _ _ h
  obtain ⟨hB, -⟩ := pushData_selfDelimiting _ (serializeCompressed_pushable b) _
    (serializeCompressed_pushable b') _ _ h
  exact ⟨serializeCompressed_inj ha ha' hA, serializeCompressed_inj hb hb' hB⟩

end Keys

lemma head_p2pk (key : PublicKey) : (p2pk key.serializeCompressed).head? = some 0x21 := by
  have hpush : pushData key.serializeCompressed = pushHeader 33 ++ key.serializeCompressed :=
    congrArg (pushHeader · ++ _) (length_serializeCompressed key)
  rw [p2pk, hpush]
  rfl

lemma head_multisig2of2 (a b : Bytes) : (multisig2of2 a b).head? = some 0x52 := rfl

lemma head_p2pkh (h : ByteArr 20) : (p2pkh h).head? = some 0x76 := rfl

lemma out_ne_of_head {v v' : UInt64} {s s' : Bytes} {c c' : UInt8} (hs : s.head? = some c)
    (hs' : s'.head? = some c') (hne : c ≠ c') : (⟨v, s⟩ : TxOut) ≠ ⟨v', s'⟩ := by
  intro h
  have hhead := congrArg List.head? (TxOut.mk.inj h).2
  rw [hs, hs'] at hhead
  exact hne (Option.some.inj hhead)

/-! ### Signed inputs -/

/-- An unlocking script carries what the output asks for: for a key its signature, for two keys one
of each, and for the hash of a key the key and its signature, each accepted by `VerifyInput`. -/
inductive Signed (tx : Tx) (idx : ℕ) : TxOut → Bytes → Prop
  | p2pk {key : PublicKey} {value : UInt64} {sig : Bytes} (hkey : onCurve key.x key.y = true)
      (hsig : verifyInput key tx idx (Bsvtx.p2pk key.serializeCompressed) value sig = .ok true) :
      Signed tx idx ⟨value, Bsvtx.p2pk key.serializeCompressed⟩ (scriptSigP2PK sig)
  | multisig2of2 {a b : PublicKey} {value : UInt64} {sigA sigB : Bytes}
      (ha : onCurve a.x a.y = true) (hb : onCurve b.x b.y = true)
      (hsigA : verifyInput a tx idx
        (Bsvtx.multisig2of2 a.serializeCompressed b.serializeCompressed) value sigA = .ok true)
      (hsigB : verifyInput b tx idx
        (Bsvtx.multisig2of2 a.serializeCompressed b.serializeCompressed) value sigB = .ok true) :
      Signed tx idx ⟨value, Bsvtx.multisig2of2 a.serializeCompressed b.serializeCompressed⟩
        (scriptSig2of2 sigA sigB)
  | p2pkh {key : PublicKey} {pub : Bytes} {value : UInt64} {sig : Bytes}
      (hpub : parseCompressed pub = .ok key)
      (hsig : verifyInput key tx idx (p2pkhFromPub pub) value sig = .ok true) :
      Signed tx idx ⟨value, p2pkhFromPub pub⟩ (scriptSigP2PKH sig pub)

section Signed

variable {tx : Tx} {idx : ℕ} {value : UInt64} {script : Bytes}

lemma pushable_of_verifyInput {key : PublicKey} {code sig : Bytes}
    (h : verifyInput key tx idx code value sig = .ok true) :
    sig ∈ {d : Bytes | d.length < 2 ^ 16} := by
  obtain ⟨-, r, s, -, hdecode, -⟩ := verifyInput_eq_true.mp h
  obtain ⟨-, -, -, -, -, -, hlen⟩ := derDecode_some hdecode
  rw [List.length_dropLast] at hlen
  change sig.length < 2 ^ 16
  omega

lemma signed_p2pk {key : PublicKey} (hkey : onCurve key.x key.y = true) :
    Signed tx idx ⟨value, p2pk key.serializeCompressed⟩ script ↔
      ∃ sig, script = scriptSigP2PK sig ∧
        verifyInput key tx idx (p2pk key.serializeCompressed) value sig = .ok true := by
  refine ⟨fun h => ?_, fun ⟨sig, hs, hv⟩ => hs ▸ .p2pk hkey hv⟩
  generalize hout : (⟨value, p2pk key.serializeCompressed⟩ : TxOut) = out at h
  cases h with
  | p2pk hkey' hsig =>
    obtain ⟨rfl, hscript⟩ := TxOut.mk.inj hout
    obtain rfl := serializeCompressed_inj hkey hkey' (p2pk_inj hscript)
    exact ⟨_, rfl, hsig⟩
  | multisig2of2 =>
    exact absurd hout (out_ne_of_head (head_p2pk _) (head_multisig2of2 ..) (by decide))
  | p2pkh =>
    exact absurd hout (out_ne_of_head (head_p2pk _) (head_p2pkh _) (by decide))

lemma signed_multisig2of2 {a b : PublicKey} (ha : onCurve a.x a.y = true)
    (hb : onCurve b.x b.y = true) :
    Signed tx idx ⟨value, multisig2of2 a.serializeCompressed b.serializeCompressed⟩ script ↔
      ∃ sigA sigB, script = scriptSig2of2 sigA sigB ∧
        verifyInput a tx idx (multisig2of2 a.serializeCompressed b.serializeCompressed) value
          sigA = .ok true ∧
        verifyInput b tx idx (multisig2of2 a.serializeCompressed b.serializeCompressed) value
          sigB = .ok true := by
  refine ⟨fun h => ?_, fun ⟨sigA, sigB, hs, hA, hB⟩ => hs ▸ .multisig2of2 ha hb hA hB⟩
  generalize hout : (⟨value, multisig2of2 a.serializeCompressed b.serializeCompressed⟩ : TxOut) =
    out at h
  cases h with
  | p2pk =>
    exact absurd hout (out_ne_of_head (head_multisig2of2 ..) (head_p2pk _) (by decide))
  | multisig2of2 ha' hb' hA hB =>
    obtain ⟨rfl, hscript⟩ := TxOut.mk.inj hout
    obtain ⟨rfl, rfl⟩ := multisig2of2_inj ha hb ha' hb' hscript
    exact ⟨_, _, rfl, hA, hB⟩
  | p2pkh =>
    exact absurd hout (out_ne_of_head (head_multisig2of2 ..) (head_p2pkh _) (by decide))

lemma signed_p2pkh {h : ByteArr 20} :
    Signed tx idx ⟨value, p2pkh h⟩ script ↔
      ∃ sig pub key, script = scriptSigP2PKH sig pub ∧ hash160 pub = h ∧
        parseCompressed pub = .ok key ∧ verifyInput key tx idx (p2pkh h) value sig = .ok true := by
  constructor
  · intro hs
    generalize hout : (⟨value, p2pkh h⟩ : TxOut) = out at hs
    cases hs with
    | p2pk =>
      exact absurd hout (out_ne_of_head (head_p2pkh _) (head_p2pk _) (by decide))
    | multisig2of2 =>
      exact absurd hout (out_ne_of_head (head_p2pkh _) (head_multisig2of2 ..) (by decide))
    | p2pkh hpub hsig =>
      obtain ⟨rfl, hscript⟩ := TxOut.mk.inj hout
      obtain rfl := p2pkh_inj hscript
      exact ⟨_, _, _, rfl, rfl, hpub, hsig⟩
  · rintro ⟨sig, pub, key, rfl, rfl, hpub, hsig⟩
    exact .p2pkh hpub hsig

/-- **Who signed.** An input is signed for the output of a key exactly if its script is the script
of one signature, and that is accepted for the key; for the output of two keys, exactly if it is the
script of two, accepted for the keys in their order; and for the output of a hash, exactly if it is
the script of a signature and a key with that hash, accepted for it. No script can be read as that
of other signatures. -/
theorem signed_exact (tx : Tx) (idx : ℕ) (value : UInt64) (script : Bytes) :
    (∀ key : PublicKey, onCurve key.x key.y = true →
      (Signed tx idx ⟨value, p2pk key.serializeCompressed⟩ script ↔
        ∃! sig, script = scriptSigP2PK sig ∧
          verifyInput key tx idx (p2pk key.serializeCompressed) value sig = .ok true)) ∧
    (∀ a b : PublicKey, onCurve a.x a.y = true → onCurve b.x b.y = true →
      (Signed tx idx ⟨value, multisig2of2 a.serializeCompressed b.serializeCompressed⟩ script ↔
        ∃! sigs : Bytes × Bytes, script = scriptSig2of2 sigs.1 sigs.2 ∧
          verifyInput a tx idx (multisig2of2 a.serializeCompressed b.serializeCompressed) value
            sigs.1 = .ok true ∧
          verifyInput b tx idx (multisig2of2 a.serializeCompressed b.serializeCompressed) value
            sigs.2 = .ok true)) ∧
    ∀ h : ByteArr 20,
      (Signed tx idx ⟨value, p2pkh h⟩ script ↔
        ∃! parts : Bytes × Bytes, script = scriptSigP2PKH parts.1 parts.2 ∧ hash160 parts.2 = h ∧
          ∃ key, parseCompressed parts.2 = .ok key ∧
            verifyInput key tx idx (p2pkh h) value parts.1 = .ok true) := by
  refine ⟨fun key hkey => ?_, fun a b ha hb => ?_, fun h => ?_⟩
  · rw [signed_p2pk hkey]
    refine ⟨fun ⟨sig, hscript, hsig⟩ => ⟨sig, ⟨hscript, hsig⟩, fun sig' ⟨hscript', hsig'⟩ => ?_⟩,
      ExistsUnique.exists⟩
    exact pushData_inj (hscript'.symm.trans hscript)
  · rw [signed_multisig2of2 ha hb]
    refine ⟨fun ⟨sigA, sigB, hscript, hA, hB⟩ => ⟨(sigA, sigB), ⟨hscript, hA, hB⟩, ?_⟩,
      fun hex => ?_⟩
    · rintro ⟨sigA', sigB'⟩ ⟨hscript', hA', hB'⟩
      rw [hscript, scriptSig2of2, scriptSig2of2, List.append_assoc, List.append_assoc,
        List.append_right_inj] at hscript'
      obtain ⟨rfl, hrest⟩ := pushData_selfDelimiting _ (pushable_of_verifyInput hA) _
        (pushable_of_verifyInput hA') _ _ hscript'
      rw [pushData_inj hrest]
    · obtain ⟨sigs, hsigs⟩ := hex.exists
      exact ⟨_, _, hsigs⟩
  · rw [signed_p2pkh]
    constructor
    · rintro ⟨sig, pub, key, hscript, hpub, hkey, hsig⟩
      refine ⟨(sig, pub), ⟨hscript, hpub, key, hkey, hsig⟩, ?_⟩
      rintro ⟨sig', pub'⟩ ⟨hscript', -, key', hkey', hsig'⟩
      obtain ⟨rfl, hrest⟩ := pushData_selfDelimiting _ (pushable_of_verifyInput hsig) _
        (pushable_of_verifyInput hsig') _ _ (hscript.symm.trans hscript')
      rw [pushData_inj hrest]
    · intro hex
      obtain ⟨parts, hscript, hpub, key, hkey, hsig⟩ := hex.exists
      exact ⟨_, _, key, hscript, hpub, hkey, hsig⟩

end Signed

lemma verifyInput_signInput {rounds : ℕ} {priv : PrivateKey} {pub : PublicKey}
    (hpub : priv.public = some pub) {t : Tx} {idx : ℕ} {scriptCode : Bytes} {amount : UInt64}
    {sig : Bytes}
    (h : signInput rounds priv t idx scriptCode amount sighashAllFork = some (.ok sig)) :
    verifyInput pub t idx scriptCode amount sig = .ok true ∧ onCurve pub.x pub.y = true := by
  unfold signInput at h
  cases hh : t.sighashForkID idx scriptCode amount sighashAllFork with
  | error e => simp [hh] at h
  | ok hash =>
    rw [hh] at h
    obtain ⟨r, hr, hsig⟩ := Option.map_eq_some_iff.mp h
    cases r with
    | error e => cases hsig
    | ok s =>
      obtain ⟨pub', hpub', hrep, hsigned⟩ := PrivateKey.sign_signed hr
      rw [hpub, Option.some.injEq] at hpub'
      subst hpub'
      have hverify : Crypto.verify pub hash.1 s = true :=
        (verify_iff hrep hash.1 s).mpr ⟨hsigned.inRange, hsigned.point⟩
      obtain rfl : derEncode s.r s.s ++ [sighashAllFork.toUInt8] = sig := Except.ok.inj hsig
      exact ⟨Payment.verifyInput_derEncode rfl (decide_eq_true hsigned.low) hh hverify,
        hrep.onCurve⟩

lemma signInput_of_sign {rounds : ℕ} {priv : PrivateKey} {t : Tx} {scriptCode : Bytes}
    {amount : UInt64} {h : Hash} {sig : Signature}
    (hh : t.sighashForkID 0 scriptCode amount sighashAllFork = .ok h)
    (hsign : priv.sign rounds h.1 = some (.ok sig)) :
    signInput rounds priv t 0 scriptCode amount sighashAllFork =
      some (.ok (derEncode sig.r sig.s ++ [0x41])) := by
  rw [signInput, hh]
  dsimp only
  rw [hsign]
  rfl

open Payment in
/-- The settlement of the sample channel is signed by the client and the server. The client's
signature alone does not sign it. -/
theorem signed_exact_sample : ∃ t clientSig serverSig,
    sampleParams.channelTx.commitmentTx 1000 = .ok t ∧
      (∃! sigs : Bytes × Bytes, scriptSig2of2 clientSig serverSig = scriptSig2of2 sigs.1 sigs.2 ∧
        verifyInput sampleKey t 0 sampleParams.channelTx.redeem 100000 sigs.1 = .ok true ∧
        verifyInput sampleServer t 0 sampleParams.channelTx.redeem 100000 sigs.2 = .ok true) ∧
      ¬Signed t 0 ⟨100000, sampleParams.channelTx.redeem⟩ (scriptSigP2PK clientSig) := by
  obtain ⟨t, ht, hh⟩ := ChannelTx.commitmentSighash_ok sampleSighash_eq
  have hkey : onCurve sampleKey.x sampleKey.y = true := by decide
  have hclient := verifyInput_derEncode rfl (by decide) hh sampleSig_verify
  obtain ⟨hserver, hcurve⟩ := verifyInput_signInput sample_server_public
    (signInput_of_sign hh sample_server_sign)
  refine ⟨t, _, _, ht, ((signed_exact t 0 100000 _).2.1 sampleKey sampleServer hkey hcurve).mp
    (.multisig2of2 hkey hcurve hclient hserver), fun hs => ?_⟩
  obtain ⟨sigs, ⟨hscript, -⟩, -⟩ :=
    ((signed_exact t 0 100000 _).2.1 sampleKey sampleServer hkey hcurve).mp hs
  have hhead : (scriptSigP2PK (derEncode sampleSig.r sampleSig.s ++
      [sighashAllFork.toUInt8])).head? = some 0x47 := by decide +kernel
  rw [hscript] at hhead
  have hzero : (0 : UInt8) = 0x47 := Option.some.inj hhead
  exact absurd hzero (by decide)

end MemServe.Bsvtx
