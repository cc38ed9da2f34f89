import MemServe.CurveGroup
import MemServe.Ecdsa

/-!
What the verifier accepts.

A signature in range is accepted if the point it is checked at has the first number of the signature
for its coordinate. Concrete signatures are evaluated at that point in projective coordinates.
-/

namespace MemServe.Crypto

open ShortWeierstrass Ecdsa

abbrev Zn := ZMod groupOrder

lemma mod_curveN_eq (a : ℤ) : a % curveN = ((a : Zn).val : ℤ) := by
  rw [curveN_eq, ZMod.val_intCast]

/-- A signature is checked at this point. -/
noncomputable def checkPoint (Q : Curve.Point) (z : ℕ) (sig : Signature) : Curve.Point :=
  mult ((z : Zn) * (sig.s : Zn)⁻¹) generator + mult ((sig.r : Zn) * (sig.s : Zn)⁻¹) Q

/-- The first coordinate of a point, reduced to a scalar. -/
noncomputable def xScalar (P : Curve.Point) : Option ℕ :=
  (coords P).map fun xy => xy.1.val % groupOrder

structure Signature.InRange (sig : Signature) : Prop where
  r_pos : 0 < sig.r
  r_lt : sig.r < curveN
  s_pos : 0 < sig.s
  s_lt : sig.s < curveN

lemma scalar_ne_zero {s : ℤ} (h0 : 0 < s) (hlt : s < curveN) : (s : Zn) ≠ 0 := by
  rw [Ne, ZMod.intCast_zmod_eq_zero_iff_dvd]
  rw [curveN_eq] at hlt
  exact fun h => absurd (Int.le_of_dvd h0 h) (not_le.mpr hlt)

lemma xScalar_of_coords {P : Curve.Point} {x : ℤ} {y : Fp} (h : coords P = some ((x : Fp), y))
    (h0 : 0 ≤ x)
    (hlt : x < curveP) : xScalar P = some (x % curveN).toNat := by
  obtain ⟨m, rfl⟩ := Int.eq_ofNat_of_zero_le h0
  have hm : m < fieldOrder := Int.ofNat_lt.mp (curveP_eq ▸ hlt)
  rw [xScalar, h, Option.map_some, Int.cast_natCast, ZMod.val_natCast_of_lt hm, curveN_eq,
    ← Int.natCast_mod, Int.toNat_natCast]

lemma Represents.xScalar {q : Point} {P : Curve.Point} (h : Represents q P) :
    xScalar P = q.map fun xy => (xy.1 % curveN).toNat := by
  cases q with
  | none =>
    obtain rfl : P = 0 := h
    rfl
  | some xy =>
    obtain ⟨hx, -, hcoords⟩ := h
    exact xScalar_of_coords hcoords hx.1 hx.2

lemma Signature.InRange.exists_inverse {sig : Signature} (h : sig.InRange) :
    ∃ w, modInverse sig.s curveN = some w ∧ (w : Zn) = (sig.s : Zn)⁻¹ := by
  obtain ⟨w, hw, -, -, hinv⟩ := modInverse_spec groupOrder_lt (scalar_ne_zero h.s_pos h.s_lt)
  rw [← curveN_eq] at hw
  exact ⟨w, hw, hinv⟩

lemma checkPoint_eq {sig : Signature} {w : ℤ} (hinv : (w : Zn) = (sig.s : Zn)⁻¹) (Q : Curve.Point)
    (z : ℕ) :
    checkPoint Q z sig = ((z : ℤ) * w % curveN).toNat • generator +
      (sig.r * w % curveN).toNat • Q := by
  have hu : ∀ a : ℤ, (a * w % curveN).toNat = ((a : Zn) * (sig.s : Zn)⁻¹).val := by
    intro a
    rw [mod_curveN_eq, Int.toNat_natCast, Int.cast_mul, hinv]
  rw [checkPoint, mult, mult, hu, hu, Int.cast_natCast]

/-- **The verifier.** It accepts what is in range and has its first number at the point it
checks. -/
theorem verify_iff {pub : PublicKey} {Q : Curve.Point} (hQ : Represents (some (pub.x, pub.y)) Q)
    (hash : Bytes) (sig : Signature) :
    verify pub hash sig = true ↔
      sig.InRange ∧ xScalar (checkPoint Q (bits2int hash 256) sig) = some sig.r.toNat := by
  by_cases hrange : sig.InRange
  · obtain ⟨w, hw, hinv⟩ := hrange.exists_inverse
    have hnot : ¬(sig.r ≤ 0 ∨ curveN ≤ sig.r ∨ sig.s ≤ 0 ∨ curveN ≤ sig.s) := by
      have := hrange.r_pos
      have := hrange.r_lt
      have := hrange.s_pos
      have := hrange.s_lt
      omega
    have hpoint :=
      (represents_generator.scalarMult ((bits2int hash 256 : ℤ) * w % curveN).toNat).add
      (hQ.scalarMult (sig.r * w % curveN).toNat)
    rw [checkPoint_eq hinv, hpoint.xScalar]
    simp only [verify, hQ.onCurve, Bool.not_true, Bool.false_eq_true, if_false, if_neg hnot, hw,
      scalarBaseMult, hrange, true_and]
    generalize pointAdd _ _ = q
    cases q with
    | none => simp
    | some xy =>
      have hx := Int.emod_nonneg xy.1 (show curveN ≠ 0 by decide)
      have hr := hrange.r_pos
      simp only [beq_iff_eq, Option.map_some, Option.some.injEq]
      omega
  · have hnot : sig.r ≤ 0 ∨ curveN ≤ sig.r ∨ sig.s ≤ 0 ∨ curveN ≤ sig.s := by
      by_contra h
      exact hrange ⟨by omega, by omega, by omega, by omega⟩
    simp only [verify, hQ.onCurve, Bool.not_true, Bool.false_eq_true, if_false, if_pos hnot, hrange,
      false_and]

lemma inRange_of_verify {pub : PublicKey} {hash : Bytes} {sig : Signature}
    (h : verify pub hash sig = true) :
    sig.InRange := by
  have hcurve : onCurve pub.x pub.y = true := by
    by_contra hoff
    rw [verify, if_pos (by simpa using hoff)] at h
    cases h
  obtain ⟨Q, hQ⟩ := exists_represents hcurve
  exact ((verify_iff hQ hash sig).mp h).1

/-! ### Evaluation -/

/-- The point a signature is checked at, where `w` is the inverse of `s`. -/
def checkMod (pub : PublicKey) (z : ℕ) (sig : Signature) (w : ℤ) : Proj ℤ :=
  addMod (multMod (z * w % curveN).toNat ⟨curveGx, curveGy, 1⟩)
    (multMod (sig.r * w % curveN).toNat ⟨pub.x, pub.y, 1⟩)

/-- The checks of a verification at a point whose coordinate is `r` itself. -/
def checks (pub : PublicKey) (hash : Bytes) (sig : Signature) : Bool :=
  onCurve pub.x pub.y && decide (0 < sig.r ∧ sig.r < curveN) &&
    decide (0 < sig.s ∧ sig.s < curveN) &&
    (modInverse sig.s curveN).any fun w =>
      decide (HasX (checkMod pub (bits2int hash 256) sig w) sig.r)

lemma toNat_mod_lt (a : ℤ) : (a % curveN).toNat < 2 ^ 256 := by
  rw [mod_curveN_eq, Int.toNat_natCast]
  exact (ZMod.val_lt _).trans groupOrder_lt

lemma verify_of_checks {pub : PublicKey} {hash : Bytes} {sig : Signature}
    (h : checks pub hash sig = true) :
    verify pub hash sig = true := by
  simp only [checks, Bool.and_eq_true, decide_eq_true_eq] at h
  obtain ⟨⟨⟨hcurve, hr⟩, hs⟩, hcheck⟩ := h
  have hrange : sig.InRange := ⟨hr.1, hr.2, hs.1, hs.2⟩
  obtain ⟨Q, hQ⟩ := exists_represents hcurve
  obtain ⟨w, hw, hinv⟩ := hrange.exists_inverse
  rw [hw, Option.any_some, decide_eq_true_eq] at hcheck
  have hpoint := (represents_generator.isMod.mult (toNat_mod_lt (bits2int hash 256 * w))).add
    (hQ.isMod.mult (toNat_mod_lt (sig.r * w)))
  rw [← checkPoint_eq hinv] at hpoint
  obtain ⟨y, hcoords⟩ := hpoint.exists_coords hcheck
  refine (verify_iff hQ hash sig).mpr ⟨hrange, ?_⟩
  rw [xScalar_of_coords hcoords hr.1.le (hr.2.trans (by decide)), Int.emod_eq_of_lt hr.1.le hr.2]

end MemServe.Crypto
