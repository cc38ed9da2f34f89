import Mathlib.AlgebraicGeometry.EllipticCurve.Affine.Point
import Mathlib.GroupTheory.Perm.Cycle.Type
import Mathlib.Tactic.FieldSimp
import Mathlib.Tactic.LinearCombination

/-!
Curves `y² = x³ + b` over a field of odd characteristic, without a point of order two.

A point is given by its affine coordinates, or by projective ones that determine them. In affine
coordinates the sum is a case distinction; in projective coordinates one pair of formulas covers
all cases. They fail where the difference of the two points has order two, and so never here.
-/

namespace MemServe.ShortWeierstrass

open WeierstrassCurve.Affine

variable {F : Type*} [Field F] {b : F}

def curve (b : F) : WeierstrassCurve.Affine F where
  a₁ := 0
  a₂ := 0
  a₃ := 0
  a₄ := 0
  a₆ := b

/-- No point of the curve has order two. -/
structure NoTwoTorsion (b : F) : Prop where
  two : (2 : F) ≠ 0
  root : ∀ x : F, x ^ 3 + b ≠ 0

@[simp] lemma negY_curve (x y : F) : (curve b).negY x y = -y := by
  simp [curve, WeierstrassCurve.Affine.negY]

lemma equation_curve {x y : F} : (curve b).Equation x y ↔ y ^ 2 = x ^ 3 + b := by
  simp [curve, WeierstrassCurve.Affine.equation_iff]

/-- The coordinates of a point other than the point at infinity. -/
def coords : (curve b).Point → Option (F × F)
  | .zero => none
  | .some x y _ => some (x, y)

variable {P Q : (curve b).Point} {x y x₁ y₁ x₂ y₂ l : F}

@[simp] lemma coords_zero : coords (0 : (curve b).Point) = none := rfl

lemma coords_eq_none : coords P = none ↔ P = 0 := by
  cases P with
  | zero => exact ⟨fun _ => rfl, fun _ => rfl⟩
  | some x y h => simp [coords]

lemma coords_injective : Function.Injective (coords (b := b)) := by
  intro P Q h
  cases P <;> cases Q <;> simp_all [coords]

lemma equation_of_coords (hP : coords P = some (x, y)) : y ^ 2 = x ^ 3 + b := by
  cases P with
  | zero => cases hP
  | some x' y' h =>
    cases hP
    exact equation_curve.mp h.1

lemma NoTwoTorsion.y_ne_zero (hb : NoTwoTorsion b) (h : y ^ 2 = x ^ 3 + b) : y ≠ 0 := by
  rintro rfl
  exact hb.root x (by linear_combination -h)

lemma NoTwoTorsion.exists_coords (hb : NoTwoTorsion b) (h : y ^ 2 = x ^ 3 + b) :
    ∃ P : (curve b).Point, coords P = some (x, y) := by
  have hns : (curve b).Nonsingular x y := by
    refine (WeierstrassCurve.Affine.nonsingular_iff' x y).mpr ⟨equation_curve.mpr h, .inr ?_⟩
    simpa [curve] using mul_ne_zero hb.two (hb.y_ne_zero h)
  exact ⟨.some x y hns, rfl⟩

lemma coords_neg (hP : coords P = some (x, y)) : coords (-P) = some (x, -y) := by
  cases P with
  | zero => cases hP
  | some x' y' h =>
    cases hP
    rw [WeierstrassCurve.Affine.Point.neg_some]
    simp only [coords, negY_curve]

lemma eq_or_eq_neg_of_coords (hP : coords P = some (x, y₁)) (hQ : coords Q = some (x, y₂)) :
    P = Q ∨ P = -Q := by
  have h : (y₁ - y₂) * (y₁ + y₂) = 0 := by
    linear_combination equation_of_coords hP - equation_of_coords hQ
  rcases mul_eq_zero.mp h with h | h
  · left
    apply coords_injective
    rw [hP, hQ, sub_eq_zero.mp h]
  · right
    apply coords_injective
    rw [hP, coords_neg hQ, eq_neg_of_add_eq_zero_left h]

variable [DecidableEq F]

instance [Finite F] : Finite (curve b).Point := Finite.of_injective coords coords_injective

lemma card_le [Finite F] : Nat.card (curve b).Point ≤ 2 * (Nat.card F + 1) := by
  classical
  let _ := Fintype.ofFinite F
  let _ := Fintype.ofFinite (curve b).Point
  let abscissa : (curve b).Point → Option F := fun P => (coords P).map Prod.fst
  have hfibre : ∀ o ∈ Finset.univ.image abscissa,
      (Finset.univ.filter fun P => abscissa P = o).card ≤ 2 := by
    intro o ho
    obtain ⟨Q, -, rfl⟩ := Finset.mem_image.mp ho
    refine (Finset.card_le_card (t := {Q, -Q}) fun P hP => ?_).trans Finset.card_le_two
    have hPQ : (coords P).map Prod.fst = (coords Q).map Prod.fst := (Finset.mem_filter.mp hP).2
    rw [Finset.mem_insert, Finset.mem_singleton]
    cases hQ : coords Q with
    | none =>
      rw [hQ, Option.map_none, Option.map_eq_none_iff] at hPQ
      exact .inl ((coords_eq_none.mp hPQ).trans (coords_eq_none.mp hQ).symm)
    | some xy =>
      rw [hQ, Option.map_some, Option.map_eq_some_iff] at hPQ
      obtain ⟨⟨x, y⟩, hP, rfl⟩ := hPQ
      exact eq_or_eq_neg_of_coords hP hQ
  rw [Nat.card_eq_fintype_card, Nat.card_eq_fintype_card, ← Fintype.card_option]
  exact (Finset.card_le_mul_card_image Finset.univ 2 hfibre).trans
    (Nat.mul_le_mul_left 2 (Finset.card_le_univ _))

lemma NoTwoTorsion.not_two_dvd_card [Finite F] (hb : NoTwoTorsion b) :
    ¬2 ∣ Nat.card (curve b).Point := by
  intro h
  obtain ⟨P, hP⟩ := exists_prime_addOrderOf_dvd_card' 2 h
  have hne : P ≠ 0 := by
    rintro rfl
    simp at hP
  have hself : -P = P := by
    have h2 := addOrderOf_nsmul_eq_zero P
    rw [hP, two_nsmul] at h2
    exact (eq_neg_of_add_eq_zero_left h2).symm
  cases hc : coords P with
  | none => exact hne (coords_eq_none.mp hc)
  | some xy =>
    have hy := coords_neg hc
    rw [hself, hc, Option.some.injEq, Prod.mk.injEq] at hy
    exact mul_ne_zero hb.two (hb.y_ne_zero (equation_of_coords hc)) (by linear_combination hy.2)

/-- A point of an order that is more than two thirds of the field's has all points as its
multiples. -/
theorem NoTwoTorsion.card_eq [Finite F] (hb : NoTwoTorsion b) {n : ℕ} (hP : addOrderOf P = n)
    (hn : 2 * (Nat.card F + 1) < 3 * n) : Nat.card (curve b).Point = n := by
  have hle := card_le (b := b)
  have hodd := hb.not_two_dvd_card
  obtain ⟨m, hm⟩ := addOrderOf_dvd_natCard P
  rw [hP] at hm
  rw [hm] at hle hodd ⊢
  have hm3 : m < 3 := by
    by_contra hge
    have := Nat.mul_le_mul_left n (Nat.le_of_not_lt hge)
    omega
  have hpos : 0 < Nat.card (curve b).Point := Nat.card_pos
  interval_cases m
  · omega
  · exact mul_one n
  · exact absurd (Dvd.intro_left n rfl) hodd

lemma coords_add_of_ne (hP : coords P = some (x₁, y₁)) (hQ : coords Q = some (x₂, y₂))
    (hx : x₁ ≠ x₂) (hl : l * (x₁ - x₂) = y₁ - y₂) :
    coords (P + Q) = some (l ^ 2 - x₁ - x₂, l * (x₁ - (l ^ 2 - x₁ - x₂)) - y₁) := by
  cases P with
  | zero => cases hP
  | some x y h =>
    cases Q with
    | zero => cases hQ
    | some x' y' h' =>
      cases hP
      cases hQ
      have hslope : (curve b).slope x₁ x₂ y₁ y₂ = l := by
        rw [WeierstrassCurve.Affine.slope_of_X_ne hx, div_eq_iff (sub_ne_zero.mpr hx), hl]
      rw [WeierstrassCurve.Affine.Point.add_of_X_ne hx]
      simp only [coords, hslope, Option.some.injEq, Prod.mk.injEq, WeierstrassCurve.Affine.addX,
        WeierstrassCurve.Affine.addY, WeierstrassCurve.Affine.negAddY, negY_curve]
      simp only [curve]
      constructor <;> ring

lemma NoTwoTorsion.coords_double (hb : NoTwoTorsion b) (hP : coords P = some (x, y))
    (hl : l * (2 * y) = 3 * x ^ 2) :
    coords (P + P) = some (l ^ 2 - x - x, l * (x - (l ^ 2 - x - x)) - y) := by
  have hy := hb.y_ne_zero (equation_of_coords hP)
  cases P with
  | zero => cases hP
  | some x' y' h =>
    cases hP
    have hneg : y ≠ (curve b).negY x y := by
      rw [negY_curve]
      intro heq
      exact mul_ne_zero hb.two hy (by linear_combination heq)
    have hslope : (curve b).slope x x y y = l := by
      rw [WeierstrassCurve.Affine.slope_of_Y_ne rfl hneg, negY_curve, div_eq_iff]
      · simp only [curve]
        linear_combination -hl
      · simpa [two_mul] using mul_ne_zero hb.two hy
    rw [WeierstrassCurve.Affine.Point.add_self_of_Y_ne hneg]
    simp only [coords, hslope, Option.some.injEq, Prod.mk.injEq, WeierstrassCurve.Affine.addX,
      WeierstrassCurve.Affine.addY, WeierstrassCurve.Affine.negAddY, negY_curve]
    simp only [curve]
    constructor <;> ring

/-! ### Projective coordinates -/

structure Proj (F : Type*) where
  X : F
  Y : F
  Z : F

/-- Addition on projective coordinates, in one formula for all points. -/
def Proj.add (b : F) (p q : Proj F) : Proj F where
  X := (p.X * q.Y + q.X * p.Y) * (p.Y * q.Y - 3 * b * (p.Z * q.Z)) -
    3 * b * (p.Y * q.Z + q.Y * p.Z) * (p.X * q.Z + q.X * p.Z)
  Y := (p.Y * q.Y + 3 * b * (p.Z * q.Z)) * (p.Y * q.Y - 3 * b * (p.Z * q.Z)) +
    9 * b * (p.X * q.X) * (p.X * q.Z + q.X * p.Z)
  Z := (p.Y * q.Z + q.Y * p.Z) * (p.Y * q.Y + 3 * b * (p.Z * q.Z)) +
    3 * (p.X * q.X) * (p.X * q.Y + q.X * p.Y)

/-- The projective coordinates `p` are those of `P`. -/
def Proj.Is (p : Proj F) (P : (curve b).Point) : Prop :=
  match coords P with
  | none => p.X = 0 ∧ p.Y ≠ 0 ∧ p.Z = 0
  | some (x, y) => p.Z ≠ 0 ∧ p.X = x * p.Z ∧ p.Y = y * p.Z

namespace Proj

variable {p q : Proj F}

omit [DecidableEq F] in
lemma is_zero : p.Is (0 : (curve b).Point) ↔ p.X = 0 ∧ p.Y ≠ 0 ∧ p.Z = 0 := Iff.rfl

omit [DecidableEq F] in
lemma is_of_coords (hP : coords P = some (x, y)) :
    p.Is P ↔ p.Z ≠ 0 ∧ p.X = x * p.Z ∧ p.Y = y * p.Z := by
  simp only [Is, hP]

omit [DecidableEq F] in
lemma Is.y_ne_zero (hb : NoTwoTorsion b) (hp : p.Is P) : p.Y ≠ 0 := by
  cases hP : coords P with
  | none =>
    rw [coords_eq_none.mp hP] at hp
    exact hp.2.1
  | some xy =>
    obtain ⟨hz, -, hy⟩ := (is_of_coords hP).mp hp
    rw [hy]
    exact mul_ne_zero (hb.y_ne_zero (equation_of_coords hP)) hz

omit [DecidableEq F] in
lemma Is.scale {c : F} (hc : c ≠ 0) (hp : p.Is P) (hX : q.X = c * p.X) (hY : q.Y = c * p.Y)
    (hZ : q.Z = c * p.Z) :
    q.Is P := by
  cases hP : coords P with
  | none =>
    rw [coords_eq_none.mp hP] at hp ⊢
    obtain ⟨hx, hy, hz⟩ := hp
    exact ⟨by rw [hX, hx, mul_zero], by rw [hY]; exact mul_ne_zero hc hy, by rw [hZ, hz, mul_zero]⟩
  | some xy =>
    obtain ⟨hz, hx, hy⟩ := (is_of_coords hP).mp hp
    refine (is_of_coords hP).mpr ⟨by rw [hZ]; exact mul_ne_zero hc hz, ?_, ?_⟩
    · rw [hX, hZ, hx]
      ring
    · rw [hY, hZ, hy]
      ring

/-- The formulas at two points with coordinates, but for a factor. -/
def affineAdd (b x₁ y₁ x₂ y₂ : F) : Proj F := add b ⟨x₁, y₁, 1⟩ ⟨x₂, y₂, 1⟩

section

variable (h₁ : y₁ ^ 2 = x₁ ^ 3 + b) (h₂ : y₂ ^ 2 = x₂ ^ 3 + b)

include h₁ h₂

omit [DecidableEq F] in
lemma affineAdd_Z : (affineAdd b x₁ y₁ x₂ y₂).Z =
    -((y₁ + y₂) * ((2 * x₁ + x₂) * (x₁ - x₂) ^ 2 - (y₁ + y₂) ^ 2) - y₁ * (x₁ - x₂) ^ 3) := by
  simp only [affineAdd, add]
  linear_combination -(y₁ + 2 * y₂) * h₁ - (2 * y₁ + y₂) * h₂

omit [DecidableEq F] in
lemma affineAdd_X : (x₁ - x₂) ^ 2 * (affineAdd b x₁ y₁ x₂ y₂).X =
    ((y₁ - y₂) ^ 2 - (x₁ + x₂) * (x₁ - x₂) ^ 2) * (affineAdd b x₁ y₁ x₂ y₂).Z := by
  simp only [affineAdd, add]
  grind

omit [DecidableEq F] in
lemma affineAdd_Y : (x₁ - x₂) ^ 3 * (affineAdd b x₁ y₁ x₂ y₂).Y =
    ((y₁ - y₂) * ((2 * x₁ + x₂) * (x₁ - x₂) ^ 2 - (y₁ - y₂) ^ 2) - y₁ * (x₁ - x₂) ^ 3) *
      (affineAdd b x₁ y₁ x₂ y₂).Z := by
  simp only [affineAdd, add]
  grind

end

lemma affineAdd_chord (hb : NoTwoTorsion b) (hP : coords P = some (x₁, y₁))
    (hQ : coords Q = some (x₂, y₂))
    (hx : x₁ ≠ x₂) : (affineAdd b x₁ y₁ x₂ y₂).Is (P + Q) := by
  have h₁ := equation_of_coords hP
  have h₂ := equation_of_coords hQ
  have hd : x₁ - x₂ ≠ 0 := sub_ne_zero.mpr hx
  obtain ⟨l, hl⟩ : ∃ l, l * (x₁ - x₂) = y₁ - y₂ := ⟨_, div_mul_cancel₀ _ hd⟩
  obtain ⟨m, hm⟩ : ∃ m, m * (x₁ - x₂) = y₁ - -y₂ := ⟨_, div_mul_cancel₀ _ hd⟩
  have hdiff := hb.y_ne_zero (equation_of_coords (coords_add_of_ne hP (coords_neg hQ) hx hm))
  refine (is_of_coords (coords_add_of_ne hP hQ hx hl)).mpr ⟨?_, ?_, ?_⟩
  · have hZ : (affineAdd b x₁ y₁ x₂ y₂).Z =
        -((m * (x₁ - (m ^ 2 - x₁ - x₂)) - y₁) * (x₁ - x₂) ^ 3) := by
      rw [affineAdd_Z h₁ h₂]
      linear_combination ((2 * x₁ + x₂) * (x₁ - x₂) ^ 2 -
        ((m * (x₁ - x₂)) ^ 2 + m * (x₁ - x₂) * (y₁ + y₂) + (y₁ + y₂) ^ 2)) * hm
    rw [hZ]
    exact neg_ne_zero.mpr (mul_ne_zero hdiff (pow_ne_zero 3 hd))
  · apply mul_left_cancel₀ (pow_ne_zero 2 hd)
    linear_combination affineAdd_X h₁ h₂ - (affineAdd b x₁ y₁ x₂ y₂).Z *
      (l * (x₁ - x₂) + (y₁ - y₂)) * hl
  · apply mul_left_cancel₀ (pow_ne_zero 3 hd)
    linear_combination affineAdd_Y h₁ h₂ - (affineAdd b x₁ y₁ x₂ y₂).Z *
      ((2 * x₁ + x₂) * (x₁ - x₂) ^ 2 -
      ((l * (x₁ - x₂)) ^ 2 + l * (x₁ - x₂) * (y₁ - y₂) + (y₁ - y₂) ^ 2)) * hl

lemma affineAdd_tangent (hb : NoTwoTorsion b) (hP : coords P = some (x, y)) :
    (affineAdd b x y x y).Is (P + P) := by
  have h := equation_of_coords hP
  have hy : 2 * y ≠ 0 := mul_ne_zero hb.two (hb.y_ne_zero h)
  obtain ⟨l, hl⟩ : ∃ l, l * (2 * y) = 3 * x ^ 2 := ⟨_, div_mul_cancel₀ _ hy⟩
  have hZ : (affineAdd b x y x y).Z = (2 * y) ^ 3 := by
    simp only [affineAdd, add]
    linear_combination -6 * y * h
  refine (is_of_coords (hb.coords_double hP hl)).mpr ⟨?_, ?_, ?_⟩
  · rw [hZ]
    exact pow_ne_zero 3 hy
  · apply mul_left_cancel₀ (pow_ne_zero 2 hy)
    rw [hZ]
    simp only [affineAdd, add]
    linear_combination (72 * x * y ^ 3) * h - (2 * y) ^ 3 * (l * (2 * y) + 3 * x ^ 2) * hl
  · apply mul_left_cancel₀ (pow_ne_zero 3 hy)
    rw [hZ]
    simp only [affineAdd, add]
    grind

lemma affineAdd_opposite (hb : NoTwoTorsion b) (hP : coords P = some (x, y)) :
    (affineAdd b x y x (-y)).Is (0 : (curve b).Point) := by
  have h := equation_of_coords hP
  have hy : 2 * y ≠ 0 := mul_ne_zero hb.two (hb.y_ne_zero h)
  obtain ⟨l, hl⟩ : ∃ l, l * (2 * y) = 3 * x ^ 2 := ⟨_, div_mul_cancel₀ _ hy⟩
  have hdouble := hb.y_ne_zero (equation_of_coords (hb.coords_double hP hl))
  have hY : (affineAdd b x y x (-y)).Y = (l * (x - (l ^ 2 - x - x)) - y) * (2 * y) ^ 3 := by
    simp only [affineAdd, add]
    grind
  refine is_zero.mpr ⟨?_, ?_, ?_⟩
  · simp only [affineAdd, add]
    ring
  · rw [hY]
    exact mul_ne_zero hdouble (pow_ne_zero 3 hy)
  · simp only [affineAdd, add]
    ring

lemma is_affineAdd (hb : NoTwoTorsion b) (hP : coords P = some (x₁, y₁))
    (hQ : coords Q = some (x₂, y₂)) :
    (affineAdd b x₁ y₁ x₂ y₂).Is (P + Q) := by
  by_cases hx : x₁ = x₂
  · subst hx
    rcases eq_or_eq_neg_of_coords hP hQ with rfl | rfl
    · obtain rfl : y₁ = y₂ := by simpa [hP] using hQ
      exact affineAdd_tangent hb hP
    · obtain rfl : y₂ = -y₁ := by
        have := coords_neg hQ
        rw [hP] at this
        simp only [Option.some.injEq, Prod.mk.injEq] at this
        rw [this.2, neg_neg]
      rw [neg_add_cancel]
      exact affineAdd_opposite hb hP
  · exact affineAdd_chord hb hP hQ hx

/-- **Complete addition.** The formulas add any two points. -/
theorem Is.add (hb : NoTwoTorsion b) (hp : p.Is P) (hq : q.Is Q) : (p.add b q).Is (P + Q) := by
  have hpY := hp.y_ne_zero hb
  have hqY := hq.y_ne_zero hb
  cases hP : coords P with
  | none =>
    -- the point at infinity scales the other point
    obtain rfl := coords_eq_none.mp hP
    obtain ⟨hX, -, hZ⟩ := hp
    rw [zero_add]
    refine hq.scale (mul_ne_zero (pow_ne_zero 2 hpY) hqY) ?_ ?_ ?_ <;>
      simp only [Proj.add, hX, hZ] <;> ring
  | some xy =>
    cases hQ : coords Q with
    | none =>
      obtain rfl := coords_eq_none.mp hQ
      obtain ⟨hX, -, hZ⟩ := hq
      rw [add_zero]
      refine hp.scale (mul_ne_zero (pow_ne_zero 2 hqY) hpY) ?_ ?_ ?_ <;>
        simp only [Proj.add, hX, hZ] <;> ring
    | some xy' =>
      obtain ⟨hz, hx, hy⟩ := (is_of_coords hP).mp hp
      obtain ⟨hz', hx', hy'⟩ := (is_of_coords hQ).mp hq
      refine (is_affineAdd hb hP hQ).scale (pow_ne_zero 2 (mul_ne_zero hz hz')) ?_ ?_ ?_ <;>
        simp only [affineAdd, Proj.add, hx, hy, hx', hy'] <;> ring

end Proj

end MemServe.ShortWeierstrass
