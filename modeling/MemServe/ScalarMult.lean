import MemServe.CtField

/-!
The two multiplications of a point by a scalar.

Signing runs 256 steps of one complete formula in projective coordinates, whatever the bits of the
scalar are. Verifying runs over the bits there are, in affine coordinates and with the cases of the
sum.
-/

namespace MemServe.Crypto

open ShortWeierstrass

/-- The point at infinity, or coordinates on the curve. -/
def OnCurve (q : Point) : Prop := ∀ x y, q = some (x, y) → onCurve x y = true

/-- Coordinates `(0 : Y : 0)`. -/
def Jac.IsIdentity (P : Jac) : Prop := P.X = .of 0 0 0 0 ∧ P.Y ≠ .of 0 0 0 0 ∧ P.Z = .of 0 0 0 0

/-- Projective coordinates of `q`, in the range of the field: the identity where `q` is infinity,
and where it is not, the affine coordinates that are computed from them are those of `q`. -/
structure Jac.Agrees (P : Jac) (q : Point) : Prop where
  reduced : P.X.val < fieldOrder ∧ P.Y.val < fieldOrder ∧ P.Z.val < fieldOrder
  identity_iff : P.IsIdentity ↔ q = none
  affine : ∀ x y, q = some (x, y) → P.affineXY = (feFromBig x, feFromBig y)

lemma Fe.Is.unique {a b : Fe} {x : Fp} (ha : a.Is x) (hb : b.Is x) : a = b := by
  have h := ha.eq.trans hb.eq.symm
  rw [ZMod.natCast_eq_natCast_iff', Nat.mod_eq_of_lt ha.lt, Nat.mod_eq_of_lt hb.lt] at h
  exact Fe.ext_val h

lemma Fe.Is.eq_zero_iff {a : Fe} {x : Fp} (ha : a.Is x) : a = .of 0 0 0 0 ↔ x = 0 := by
  constructor
  · rintro rfl
    rw [← ha.eq]
    exact is_zero.eq
  · rintro rfl
    exact ha.unique is_zero

variable {P P' : Jac} {Q Q' : Curve.Point} {p q : Point} {x y : ℤ}

lemma Jac.IsProj.isIdentity_iff {c : Proj Fp} (hc : P.IsProj c) :
    P.IsIdentity ↔ c.X = 0 ∧ c.Y ≠ 0 ∧ c.Z = 0 := by
  rw [Jac.IsIdentity, ne_eq, hc.X.eq_zero_iff, hc.Y.eq_zero_iff, hc.Z.eq_zero_iff]

lemma Jac.IsProj.affineXY {c : Proj Fp} (hc : P.IsProj c) :
    P.affineXY.1.Is (c.X * c.Z⁻¹) ∧ P.affineXY.2.Is (c.Y * c.Z⁻¹) :=
  ⟨hc.X.mul goOps (hc.Z.inv goOps), hc.Y.mul goOps (hc.Z.inv goOps)⟩

lemma Jac.Is.agrees (hP : P.Is Q) (hq : Represents q Q) : P.Agrees q := by
  obtain ⟨c, hc, hcQ⟩ := hP
  have haff := hc.affineXY
  refine ⟨⟨hc.X.lt, hc.Y.lt, hc.Z.lt⟩, ?_, ?_⟩
  · rw [hc.isIdentity_iff]
    match q, hq with
    | none, hq =>
      obtain rfl : Q = 0 := hq
      exact iff_of_true (Proj.is_zero.mp hcQ) rfl
    | some (x, y), ⟨_, _, hQ⟩ =>
      exact iff_of_false (fun h => ((Proj.is_of_coords hQ).mp hcQ).1 h.2.2) (Option.some_ne_none _)
  · rintro x y rfl
    obtain ⟨hx, hy, hQ⟩ := hq
    obtain ⟨hZ, hX, hY⟩ := (Proj.is_of_coords hQ).mp hcQ
    rw [hX, hY, mul_inv_cancel_right₀ hZ, mul_inv_cancel_right₀ hZ] at haff
    exact Prod.ext (haff.1.unique (feFromBig_is hx)) (haff.2.unique (feFromBig_is hy))

lemma Jac.Agrees.is (h : P.Agrees q) (hq : Represents q Q) : P.Is Q := by
  obtain ⟨⟨hXlt, hYlt, hZlt⟩, hid, haffine⟩ := h
  have hc : P.IsProj ⟨P.X.val, P.Y.val, P.Z.val⟩ := ⟨⟨hXlt, rfl⟩, ⟨hYlt, rfl⟩, ⟨hZlt, rfl⟩⟩
  refine ⟨_, hc, ?_⟩
  match q, hq with
  | none, hq =>
    obtain rfl : Q = 0 := hq
    exact Proj.is_zero.mpr (hc.isIdentity_iff.mp (hid.mpr rfl))
  | some (x, y), ⟨hx, hy, hQ⟩ =>
    have haff := hc.affineXY
    rw [haffine x y rfl] at haff
    have hX := (feFromBig_is hx).eq.symm.trans haff.1.eq
    have hY := (feFromBig_is hy).eq.symm.trans haff.2.eq
    have hy0 := noTwoTorsion.y_ne_zero (equation_of_coords hQ)
    -- a point on the curve has no second coordinate 0, which `0⁻¹` would give
    have hZ : (P.Z.val : Fp) ≠ 0 := by
      intro h
      rw [h, inv_zero, mul_zero] at hY
      exact hy0 hY
    refine (Proj.is_of_coords hQ).mpr ⟨hZ, ?_, ?_⟩
    · rw [hX, inv_mul_cancel_right₀ hZ]
    · rw [hY, inv_mul_cancel_right₀ hZ]

lemma OnCurve.exists_represents (h : OnCurve q) : ∃ Q, Represents q Q := by
  cases q with
  | none => exact ⟨0, rfl⟩
  | some xy => exact Crypto.exists_represents (h xy.1 xy.2 rfl)

lemma Represents.scalarMult_eq_none (hq : Represents q Q) {k : ℕ} (hk : k • Q = 0) :
    Crypto.scalarMult k q = none := by
  have h := hq.scalarMult k
  rw [hk] at h
  cases hs : Crypto.scalarMult k q with
  | none => rfl
  | some xy =>
    rw [hs] at h
    cases h.2.2

/-! ### The multiplications -/

/-- **The two multiplications agree.** For every point of the curve and every scalar below
`2 ^ 256`, the constant-time product is the identity exactly when the reference product is infinity,
and has the affine coordinates of the reference product otherwise. The complete sum agrees with
`pointAdd` and `pointDouble` for any two points in any of their projective coordinates, whether
equal, opposite or the identity. -/
theorem scalarMultCT_agrees (honCurve : onCurve x y = true) {k : ℕ} (hk : k < 2 ^ 256) :
    (scalarMultCT (scalarBits k) ⟨feFromBig x, feFromBig y, .of 1 0 0 0⟩).Agrees
      (scalarMult k (some (x, y))) ∧
    ∀ (P P' : Jac) (p q : Point), OnCurve p → OnCurve q → P.Agrees p → P'.Agrees q →
      (completeAdd P P').Agrees (pointAdd p q) ∧ (completeAdd P P).Agrees (pointDouble p) := by
  constructor
  · obtain ⟨Q, hQ⟩ := exists_represents honCurve
    have hP : Jac.Is ⟨feFromBig x, feFromBig y, .of 1 0 0 0⟩ Q :=
      is_of_affine (feFromBig_is hQ.1) (feFromBig_is hQ.2.1) hQ.2.2
    have hmult := hP.scalarMultCT (scalarBits k)
    rw [scalarBits_val hk] at hmult
    exact hmult.agrees (hQ.scalarMult k)
  · intro P P' p q hp hq hPp hPq
    obtain ⟨S, hS⟩ := hp.exists_represents
    obtain ⟨T, hT⟩ := hq.exists_represents
    have hPS := hPp.is hS
    exact ⟨(hPS.add goOps (hPq.is hT)).agrees (hS.add hT), (hPS.add goOps hPS).agrees hS.double⟩

/-- The generator, once and as often as the group has points. -/
theorem scalarMultCT_agrees_generator :
    (scalarMultCT (scalarBits 1) ctBaseG).affineXY = (feFromBig curveGx, feFromBig curveGy) ∧
      (scalarMultCT (scalarBits groupOrder) ctBaseG).IsIdentity := by
  have hG : onCurve curveGx curveGy = true := by decide
  have hone := (scalarMultCT_agrees hG (k := 1) (by decide)).1
  have hn := (scalarMultCT_agrees hG groupOrder_lt).1
  have hinf := represents_generator.scalarMult_eq_none groupOrder_nsmul_generator
  exact ⟨hone.affine _ _ rfl, hn.identity_iff.mpr hinf⟩

end MemServe.Crypto
