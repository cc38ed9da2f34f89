import MemServe.CtField
import MemServe.Sha256Eval
import MemServe.Sign
import MemServe.Verifier

/-!
What the signer signs, the verifier accepts.

The verifier works with affine coordinates on big integers and the signer with projective ones in
words. Both compute in the group, and there the point of a signature is the multiple of the nonce.
-/

namespace MemServe.Crypto

open ShortWeierstrass Ecdsa

lemma xScalar_neg (P : Curve.Point) : xScalar (-P) = xScalar P := by
  cases hP : coords P with
  | none => rw [coords_eq_none.mp hP, neg_zero]
  | some xy => rw [xScalar, xScalar, coords_neg hP, hP, Option.map_some, Option.map_some]

lemma nonceLoop_range {rounds k : ℕ} {kk v : Bytes} (h : nonceLoop rounds kk v = some k) :
    0 < k ∧ (k : ℤ) < curveN := by
  induction rounds generalizing kk v with
  | zero => cases h
  | succ rounds ih =>
    simp only [nonceLoop] at h
    by_cases hk : 0 < bits2int (hmacSHA kk v) 256 ∧ bits2int (hmacSHA kk v) 256 < curveN
    · rw [if_pos hk, Option.some.injEq] at h
      exact h ▸ hk
    · rw [if_neg hk] at h
      exact ih h

lemma nsmul_generator_ne_zero {k : ℕ} (h0 : 0 < k) (hlt : k < groupOrder) : k • generator ≠ 0 := by
  intro h
  have hdvd := addOrderOf_dvd_of_nsmul_eq_zero h
  rw [addOrderOf_generator] at hdvd
  exact absurd (Nat.le_of_dvd h0 hdvd) (not_le.mpr hlt)

lemma nonce_point {k : ℕ} (h0 : 0 < k) (hlt : k < groupOrder) :
    xScalar (k • generator) =
      some ((scalarMultCT (scalarBits k) ctBaseG).affineX.big % groupOrder) := by
  have hk : (scalarBits k).val = k := scalarBits_val (hlt.trans groupOrder_lt)
  have hrep := ctBaseG_is.scalarMultCT (scalarBits k)
  rw [hk] at hrep
  cases hcoords : coords (k • generator) with
  | none => exact absurd (coords_eq_none.mp hcoords) (nsmul_generator_ne_zero h0 hlt)
  | some xy =>
    have hx := hrep.affineX goOps hcoords
    have hval : xy.1.val = (scalarMultCT (scalarBits k) ctBaseG).affineX.big := by
      rw [← hx.eq, ZMod.val_natCast_of_lt hx.lt, big_eq_val]
      rfl
    rw [xScalar, hcoords, Option.map_some, hval]

lemma xScalar_checkPoint {k d z : ℕ} {sig : Signature} (hs : (sig.s : Zn) ≠ 0)
    (h : (sig.s : Zn) * k = z + sig.r * d ∨ (sig.s : Zn) * -k = z + sig.r * d) :
    xScalar (checkPoint (d • generator) z sig) = xScalar (k • generator) := by
  obtain h | h := h
  · rw [checkPoint, check_point groupOrder_nsmul_generator hs h,
      mult_natCast groupOrder_nsmul_generator]
  · rw [checkPoint, check_point groupOrder_nsmul_generator hs h,
      mult_neg groupOrder_nsmul_generator, mult_natCast groupOrder_nsmul_generator, xScalar_neg]

lemma lowS_range {s : ℤ} (h0 : 0 < s) (hlt : s < curveN) :
    0 < (if nHalf < s then curveN - s else s) ∧ (if nHalf < s then curveN - s else s) ≤ nHalf ∧
      (if nHalf < s then curveN - s else s) < curveN := by
  have hhalf : nHalf < curveN ∧ curveN ≤ 2 * nHalf + 1 := by decide
  split_ifs <;> omega

/-- What a signer returns: numbers in range, with a low `s`, that lead back to the nonce's point. -/
structure Signed (Q : Curve.Point) (z : ℕ) (sig : Signature) : Prop where
  inRange : sig.InRange
  low : sig.s ≤ nHalf
  point : xScalar (checkPoint Q z sig) = some sig.r.toNat

lemma signWith_signed {d z k : ℕ} {sig : Signature} (h0 : 0 < k) (hlt : (k : ℤ) < curveN)
    (h : signWith d z k = some sig) : Signed (d • generator) z sig := by
  have hpoint := nonce_point h0 (Int.ofNat_lt.mp (curveN_eq ▸ hlt))
  have hk : ((k : ℤ) : Zn) ≠ 0 := scalar_ne_zero (Int.ofNat_lt.mpr h0) hlt
  obtain ⟨w, hw, -, -, hinv⟩ := modInverse_spec groupOrder_lt hk
  rw [← curveN_eq] at hw
  simp only [signWith, signatureOf, hw] at h
  generalize (scalarMultCT (scalarBits k) ctBaseG).affineX.big = x at h hpoint
  have hn : (0 : ℤ) < curveN := by decide
  have hr := Int.emod_nonneg (x : ℤ) hn.ne'
  have hrlt := Int.emod_lt_of_pos (x : ℤ) hn
  have hxr : ((x : ℤ) % curveN).toNat = x % groupOrder := by
    rw [curveN_eq, ← Int.natCast_mod, Int.toNat_natCast]
  generalize (x : ℤ) % curveN = r at h hr hrlt hxr
  by_cases hr0 : r = 0
  · rw [if_pos hr0] at h
    cases h
  rw [if_neg hr0] at h
  have hs := Int.emod_nonneg ((r * d + z) * w) hn.ne'
  have hslt := Int.emod_lt_of_pos ((r * d + z) * w) hn
  have hsk : (((r * d + z) * w % curveN : ℤ) : Zn) * k = z + r * d := by
    rw [mod_curveN_eq, Int.cast_natCast, ZMod.natCast_zmod_val]
    push_cast
    rw [hinv, Int.cast_natCast]
    rw [Int.cast_natCast] at hk
    field_simp
    ring
  generalize (r * d + z) * w % curveN = s at h hs hslt hsk
  by_cases hs0 : s = 0
  · rw [if_pos hs0] at h
    cases h
  rw [if_neg hs0, Option.some.injEq] at h
  subst h
  obtain ⟨hlow0, hlow, hlowlt⟩ := lowS_range (lt_of_le_of_ne hs (Ne.symm hs0)) hslt
  refine ⟨⟨lt_of_le_of_ne hr (Ne.symm hr0), hrlt, hlow0, hlowlt⟩, hlow, ?_⟩
  refine (xScalar_checkPoint (scalar_ne_zero hlow0 hlowlt) ?_).trans (hpoint.trans (by rw [hxr]))
  dsimp only
  by_cases hhigh : nHalf < s
  · right
    rw [if_pos hhigh, ← hsk, curveN_eq, Int.cast_sub, Int.cast_natCast, ZMod.natCast_self]
    ring
  · left
    rw [if_neg hhigh, hsk]

lemma signAttempt_signed {rounds d : ℕ} {hash : Bytes} {i : ℕ} {sig : Signature}
    (h : signAttempt rounds d hash i = some (some sig)) :
    Signed (d • generator) (bits2int hash 256) sig := by
  simp only [signAttempt, Option.bind_eq_bind, Option.bind_eq_some_iff] at h
  obtain ⟨k₀, hk₀, h⟩ := h
  by_cases hi : 0 < i
  · rw [if_pos hi, Option.bind_eq_some_iff] at h
    obtain ⟨k, hk, h⟩ := h
    obtain ⟨hpos, hlt⟩ := nonceLoop_range hk
    exact signWith_signed hpos hlt (Option.some.inj h)
  · rw [if_neg hi, Option.bind_some] at h
    obtain ⟨hpos, hlt⟩ := nonceLoop_range hk₀
    exact signWith_signed hpos hlt (Option.some.inj h)

lemma signLoop_signed {rounds d : ℕ} {hash : Bytes} {left i : ℕ} {sig : Signature}
    (h : signLoop rounds d hash left i = some (.ok sig)) :
    Signed (d • generator) (bits2int hash 256) sig := by
  induction left generalizing i with
  | zero => cases h
  | succ left ih =>
    rw [signLoop, Option.bind_eq_some_iff] at h
    obtain ⟨found, hattempt, h⟩ := h
    cases found with
    | none => exact ih h
    | some sig' =>
      cases h
      exact signAttempt_signed hattempt

lemma represents_public {d : ℕ} (h0 : 0 < d) (hlt : (d : ℤ) < curveN) :
    ∃ pub, publicKey d = some pub ∧ Represents (some (pub.x, pub.y)) (d • generator) := by
  have hrep := represents_generator.scalarMult d
  rw [← scalarBaseMult] at hrep
  cases hpoint : scalarBaseMult d with
  | none =>
    rw [hpoint] at hrep
    exact absurd hrep (nsmul_generator_ne_zero h0 (Int.ofNat_lt.mp (curveN_eq ▸ hlt)))
  | some xy =>
    rw [hpoint] at hrep
    exact ⟨⟨xy.1, xy.2⟩, by rw [publicKey, hpoint, Option.map_some], hrep⟩

lemma PrivateKey.sign_signed {k : PrivateKey} {rounds : ℕ} {hash : Bytes} {sig : Signature}
    (h : k.sign rounds hash = some (.ok sig)) :
    ∃ pub, k.public = some pub ∧ Represents (some (pub.x, pub.y)) (k.d • generator) ∧
      Signed (k.d • generator) (bits2int hash 256) sig := by
  rw [PrivateKey.sign] at h
  by_cases hd : k.d = 0 ∨ curveN ≤ k.d
  · rw [if_pos hd] at h
    cases h
  rw [if_neg hd] at h
  obtain ⟨pub, hpub, hrep⟩ := represents_public (d := k.d) (by omega) (by omega)
  exact ⟨pub, hpub, hrep, signLoop_signed h⟩

lemma affineX_big_mod {k : ℕ} {x : ℤ} (h0 : 0 < k) (hlt : (k : ℤ) < curveN) (hx : InField x)
    (h : HasX (multMod k ⟨curveGx, curveGy, 1⟩) x) :
    ((scalarMultCT (scalarBits k) ctBaseG).affineX.big : ℤ) % curveN = x % curveN := by
  have hlt' : k < groupOrder := Int.ofNat_lt.mp (curveN_eq ▸ hlt)
  obtain ⟨y, hcoords⟩ :=
    (represents_generator.isMod.mult (hlt'.trans groupOrder_lt)).exists_coords h
  have hscalar := xScalar_of_coords hcoords hx.1 hx.2
  rw [nonce_point h0 hlt', Option.some.injEq] at hscalar
  have hnonneg := Int.emod_nonneg x (show curveN ≠ 0 by decide)
  rw [curveN_eq, ← Int.natCast_mod, hscalar, ← curveN_eq, Int.toNat_of_nonneg hnonneg]

lemma sign_of_nonce {rounds d k : ℕ} {x : ℤ} {hash : Bytes} {sig : Signature}
    (hd : ¬(d = 0 ∨ curveN ≤ d)) (hnonce : rfc6979Nonce rounds d hash = some k)
    (hk : 0 < k ∧ (k : ℤ) < curveN) (hx : InField x)
    (hpoint : HasX (multMod k ⟨curveGx, curveGy, 1⟩) x)
    (hsig : signatureOf d (bits2int hash 256) k x = some sig) :
    PrivateKey.sign ⟨d⟩ rounds hash = some (.ok sig) := by
  have hwith : signWith d (bits2int hash 256) k = some sig := by
    rw [signWith, signatureOf, affineX_big_mod hk.1 hk.2 hx hpoint]
    exact hsig
  have hattempt : signAttempt rounds d hash 0 = some (some sig) := by
    rw [signAttempt, hnonce]
    exact congrArg some hwith
  rw [PrivateKey.sign, if_neg hd, signLoop, hattempt, Option.bind_some]

/-- **What the signer signs, the verifier accepts**, and the signature is in its low form. -/
theorem verify_sign (k : PrivateKey) (rounds : ℕ) (hash : Bytes) {sig : Signature}
    (h : k.sign rounds hash = some (.ok sig)) :
    (1 ≤ sig.r ∧ sig.r < curveN) ∧ (1 ≤ sig.s ∧ sig.s ≤ curveN / 2) ∧ sig.isLowS = true ∧
      ∃ pub, k.public = some pub ∧ verify pub hash sig = true := by
  obtain ⟨pub, hpub, hrep, hsigned⟩ := PrivateKey.sign_signed h
  refine ⟨⟨hsigned.inRange.r_pos, hsigned.inRange.r_lt⟩, ⟨hsigned.inRange.s_pos, hsigned.low⟩,
    decide_eq_true hsigned.low, pub, hpub, ?_⟩
  exact (verify_iff hrep hash sig).mpr ⟨hsigned.inRange, hsigned.point⟩

/-- The signature of the zero hash under the key 1. -/
def sampleSignature : Signature where
  r := 0xa0b37f8fba683cc68f6574cd43b39f0343a50008bf6ccea9d13231d9e7e2e1e4
  s := 0x11edc8d307254296264aebfc3dc76cd8b668373a072fd64665b50000e9fcce52

theorem verify_sign_one :
    PrivateKey.sign ⟨1⟩ 1 (List.replicate 32 0) = some (.ok sampleSignature) ∧
      ∃ pub, PrivateKey.public ⟨1⟩ = some pub ∧
        verify pub (List.replicate 32 0) sampleSignature = true := by
  have hnonce : rfc6979Nonce 1 1 (List.replicate 32 0) =
      some 0x010497d369b3d525ca15ec29c104a694210bb59ff6cabfc10afe6df0283896df := by
    unfold rfc6979Nonce nonceLoop hmacSHA
    rw [Sha256.Eval.sum256_eq]
    decide +kernel
  have hsign := sign_of_nonce (x := sampleSignature.r) (by decide) hnonce (by decide)
    ⟨by decide, by decide⟩
    (by decide +kernel) (by decide : _ = some sampleSignature)
  exact ⟨hsign, (verify_sign ⟨1⟩ 1 _ hsign).2.2.2⟩

end MemServe.Crypto
