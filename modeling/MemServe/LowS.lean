import MemServe.Attest
import MemServe.SettlementTx

/-!
The two forms of a signature.

With `n - S` in the place of `S` a signature is checked at the opposite point, which has the same
first coordinate. One of the two forms has the low `S` that the channel, the attestations and the
inputs ask for.
-/

namespace MemServe.Crypto

open ShortWeierstrass Ecdsa

/-- The other form of a signature. -/
def Signature.opposite (sig : Signature) : Signature := ⟨sig.r, curveN - sig.s⟩

variable {pub : PublicKey} {hash : Bytes} {sig : Signature}

lemma Signature.InRange.opposite (h : sig.InRange) : sig.opposite.InRange where
  r_pos := h.r_pos
  r_lt := h.r_lt
  s_pos := sub_pos.mpr h.s_lt
  s_lt := sub_lt_self _ h.s_pos

lemma checkPoint_opposite (Q : Curve.Point) (z : ℕ) (sig : Signature) :
    checkPoint Q z sig.opposite = -checkPoint Q z sig := by
  have hs : ((curveN - sig.s : ℤ) : Zn) = -(sig.s : Zn) := by
    rw [curveN_eq, Int.cast_sub, Int.cast_natCast, ZMod.natCast_self, zero_sub]
  simp only [checkPoint, Signature.opposite, hs, inv_neg, mul_neg]
  rw [mult_neg groupOrder_nsmul_generator, mult_neg (groupOrder_nsmul Q), neg_add]

lemma verify_opposite (pub : PublicKey) (hash : Bytes) (h : sig.InRange) :
    verify pub hash sig.opposite = verify pub hash sig := by
  by_cases hcurve : onCurve pub.x pub.y = true
  · obtain ⟨Q, hQ⟩ := exists_represents hcurve
    rw [Bool.eq_iff_iff, verify_iff hQ, verify_iff hQ, checkPoint_opposite, xScalar_neg,
      and_iff_right h.opposite, and_iff_right h]
    rfl
  · rw [Bool.not_eq_true] at hcurve
    simp only [verify, hcurve, Bool.not_false, if_true]

/-- The order is odd, so that one half of the scalars is low. -/
lemma isLowS_opposite (sig : Signature) : sig.opposite.isLowS = !sig.isLowS := by
  have hodd : curveN = 2 * nHalf + 1 := by decide
  have h : curveN - sig.s ≤ nHalf ↔ ¬sig.s ≤ nHalf := by omega
  simp only [Signature.isLowS, Signature.opposite, h, decide_not]

lemma parseSignature_serialize (h : sig.InRange) : parseSignature sig.serialize = .ok sig := by
  obtain ⟨r, s⟩ := sig
  obtain ⟨hr0, hr, hs0, hs⟩ := h
  have hn : curveN < 256 ^ 32 := by decide
  have hbytes : ∀ v : ℤ, 0 < v → v < curveN → (ofBytesBE (beBytes 32 v.natAbs) : ℤ) = v := by
    intro v h0 hlt
    rw [ofBytesBE_beBytes, Nat.mod_eq_of_lt (by omega), Int.natAbs_of_nonneg h0.le]
  rw [parseSignature, if_neg (by simp [Signature.serialize])]
  simp only [Signature.serialize, List.take_left' (length_beBytes 32 _),
    List.drop_left' (length_beBytes 32 _), hbytes r hr0 hr, hbytes s hs0 hs]

lemma malleate_serialize (h : sig.InRange) :
    malleate sig.serialize = .ok sig.opposite.serialize := by
  rw [malleate, parseSignature_serialize h]
  rfl

/-! ### The checks -/

lemma verify_commitment_eq {p : Payment.Params} {cum : UInt64} {h : Hash}
    (hh : p.channelTx.commitmentSighash cum = .ok h) :
    Payment.verify (some pub) p cum sig = (sig.isLowS && verify pub h.1 sig) := by
  rw [Payment.verify, hh]
  cases sig.isLowS <;> rfl

lemma low_and_verify_opposite (h : verify pub hash sig = true) :
    (sig.opposite.isLowS && verify pub hash sig.opposite) =
      !(sig.isLowS && verify pub hash sig) := by
  rw [isLowS_opposite, verify_opposite pub hash (inRange_of_verify h), h, Bool.and_true,
    Bool.and_true]

/-- **A low `S` selects one of the two forms.** For every key, hash and numbers in range: a
signature verifies exactly when its other form does, and one of them is low. Of a signature that
verifies and of what `Malleate` makes of it, the check of a commitment takes one, and so do those of
an attestation, of an endorsement and of an input. -/
theorem lowS_selects (pub : PublicKey) (hash : Bytes) {sig : Signature}
    (hr : 1 ≤ sig.r ∧ sig.r < curveN) (hs : 1 ≤ sig.s ∧ sig.s < curveN) :
    verify pub hash sig.opposite = verify pub hash sig ∧ sig.opposite.isLowS = !sig.isLowS ∧
    malleate sig.serialize = .ok sig.opposite.serialize ∧
      parseSignature sig.opposite.serialize = .ok sig.opposite ∧
    (verify pub hash sig = true →
      (∀ (p : Payment.Params) (cum : UInt64) (h : Hash),
        h.1 = hash → p.channelTx.commitmentSighash cum = .ok h →
        Payment.verify (some pub) p cum sig.opposite = !Payment.verify (some pub) p cum sig) ∧
      (∀ st : Attest.Statement, st.sighash.1 = hash →
        (⟨st, some pub, some sig.opposite⟩ : Attest.Attestation).verify =
          !(⟨st, some pub, some sig⟩ : Attest.Attestation).verify) ∧
      (∀ operator : PublicKey, (Attest.endorseHash operator).1 = hash →
        (⟨some operator, some pub, some sig.opposite⟩ : Attest.Endorsement).verify =
          !(⟨some operator, some pub, some sig⟩ : Attest.Endorsement).verify) ∧
      ∀ (t : Bsvtx.Tx) (idx : ℕ) (scriptCode : Bytes) (amount : UInt64) (c : UInt8) (h : Hash),
        h.1 = hash →
        t.sighashForkID idx scriptCode amount c.toUInt32 = .ok h → ∃ ok : Bool,
        Bsvtx.verifyInput pub t idx scriptCode amount
          (Bsvtx.derEncode sig.r sig.s ++ [c]) = .ok ok ∧
        Bsvtx.verifyInput pub t idx scriptCode amount
          (Bsvtx.derEncode sig.opposite.r sig.opposite.s ++ [c]) = .ok !ok) := by
  have hrange : sig.InRange := ⟨hr.1, hr.2, hs.1, hs.2⟩
  refine ⟨verify_opposite pub hash hrange, isLowS_opposite sig, malleate_serialize hrange,
    parseSignature_serialize hrange.opposite, fun hv => ⟨?_, ?_, ?_, ?_⟩⟩
  · rintro p cum h rfl hh
    rw [verify_commitment_eq hh, verify_commitment_eq hh, low_and_verify_opposite hv]
  · rintro st rfl
    exact low_and_verify_opposite hv
  · rintro operator rfl
    exact low_and_verify_opposite hv
  · rintro t idx scriptCode amount c h rfl hh
    refine ⟨_, Payment.verifyInput_derEncode_eq hrange hh, ?_⟩
    rw [Payment.verifyInput_derEncode_eq hrange.opposite hh, low_and_verify_opposite hv]

open Payment (sampleKey sampleSig sampleSighash sampleSig_verify sampleParams sampleSighash_eq) in
/-- The sample commitment is not taken with the other form of its signature. -/
theorem lowS_selects_sample :
    verify sampleKey sampleSighash.1 sampleSig.opposite = true ∧ sampleSig.opposite.isLowS = false ∧
      Payment.verify (some sampleKey) sampleParams 1000 sampleSig.opposite = false := by
  obtain ⟨hv, hlow, -, -, hchecks⟩ := lowS_selects sampleKey sampleSighash.1
    (show 1 ≤ sampleSig.r ∧ sampleSig.r < curveN by decide) (by decide)
  have hsample := sampleSig_verify
  obtain ⟨hchannel, -⟩ := hchecks hsample
  refine ⟨hv.trans hsample, hlow, (hchannel _ _ _ rfl sampleSighash_eq).trans ?_⟩
  rw [verify_commitment_eq sampleSighash_eq, hsample]
  decide

end MemServe.Crypto
