import Mathlib.FieldTheory.Finite.Basic
import MemServe.Lucas
import MemServe.Secp256k1
import MemServe.ShortWeierstrass

/-!
The point arithmetic on big integers is that of the group of secp256k1.

The field order and the group order are prime, by certificates. No point has order two, since `-7`
is not a cube, and the generator has the group order, since its multiple by that order is zero.
-/

namespace MemServe.Crypto

open ShortWeierstrass

/-- The sign that `euclid` keeps beside a coefficient. -/
def parity (even : Bool) : ℤ := if even then 1 else -1

@[simp] lemma parity_not (even : Bool) : parity (!even) = -parity even := by cases even <;> rfl

lemma euclid_coefficient {R : Type*} [CommRing R] (a : R) (k r0 r1 s0 s1 : ℕ) (even : Bool)
    (h0 : (r0 : R) = parity even * s0 * a) (h1 : (r1 : R) = -parity even * s1 * a) :
    ((euclid k r0 r1 s0 s1 even).1 : R) =
      parity (euclid k r0 r1 s0 s1 even).2.2 * (euclid k r0 r1 s0 s1 even).2.1 * a := by
  induction k generalizing r0 r1 s0 s1 even with
  | zero => exact h0
  | succ k ih =>
    cases r1 with
    | zero => exact h0
    | succ r1 =>
      refine ih _ _ _ _ _ ?_ ?_
      · rw [h1, parity_not]
        push_cast
        ring
      · have hdiv : (r0 : R) = (r1 + 1 : ℕ) * (r0 / (r1 + 1) : ℕ) + (r0 % (r1 + 1) : ℕ) := by
          rw [← Nat.cast_mul, ← Nat.cast_add, Nat.div_add_mod]
        rw [parity_not]
        push_cast at hdiv h1 ⊢
        linear_combination hdiv.symm + h0 - (r0 / (r1 + 1) : ℕ) * h1

/-- Two steps halve the product of the two numbers, so `euclid` ends at their greatest common
divisor. -/
lemma euclid_gcd {k r0 r1 : ℕ} (s0 s1 : ℕ) (even : Bool) (hle : r1 ≤ r0) (hk : r0 * r1 < 2 ^ k) :
    (euclid (k + 1) r0 r1 s0 s1 even).1 = Nat.gcd r0 r1 := by
  induction k generalizing r0 r1 s0 s1 even with
  | zero =>
    have h : r0 * r1 = 0 := by omega
    obtain rfl : r1 = 0 := by
      rcases Nat.mul_eq_zero.mp h with h | h
      · omega
      · exact h
    simp [euclid]
  | succ k ih =>
    cases r1 with
    | zero => simp [euclid]
    | succ r1 =>
      have hmod : r0 % (r1 + 1) < r1 + 1 := Nat.mod_lt _ (Nat.succ_pos r1)
      have hhalf : 2 * (r0 % (r1 + 1)) ≤ r0 := by
        have := Nat.div_add_mod r0 (r1 + 1)
        have hq : 1 ≤ r0 / (r1 + 1) := (Nat.one_le_div_iff (Nat.succ_pos r1)).mpr hle
        have : r1 + 1 ≤ (r1 + 1) * (r0 / (r1 + 1)) := Nat.le_mul_of_pos_right _ hq
        omega
      have hprod : (r1 + 1) * (r0 % (r1 + 1)) < 2 ^ k := by
        have h2 : 2 * ((r1 + 1) * (r0 % (r1 + 1))) ≤ r0 * (r1 + 1) := by
          calc 2 * ((r1 + 1) * (r0 % (r1 + 1))) = (2 * (r0 % (r1 + 1))) * (r1 + 1) := by ring
            _ ≤ r0 * (r1 + 1) := Nat.mul_le_mul_right _ hhalf
        rw [pow_succ] at hk
        omega
      rw [euclid, ih _ _ _ hmod.le hprod, Nat.gcd_comm, ← Nat.gcd_rec, Nat.gcd_comm]

lemma mul_lt_two_pow {a b i j k : ℕ} (ha : a < 2 ^ i) (hb : b < 2 ^ j) (hk : i + j ≤ k) :
    a * b < 2 ^ k :=
  calc a * b < 2 ^ i * 2 ^ j := Nat.mul_lt_mul'' ha hb
    _ = 2 ^ (i + j) := (pow_add 2 i j).symm
    _ ≤ 2 ^ k := Nat.pow_le_pow_right (by omega) hk

lemma modInverse_spec {n : ℕ} [hn : Fact n.Prime] (hlt : n < 2 ^ 256) {g : ℤ}
    (hg : (g : ZMod n) ≠ 0) :
    ∃ w : ℤ, modInverse g n = some w ∧ 0 ≤ w ∧ w < n ∧ (w : ZMod n) = (g : ZMod n)⁻¹ := by
  have hn0 : (0 : ℤ) < n := by exact_mod_cast hn.out.pos
  obtain ⟨a, ha⟩ : ∃ a : ℕ, g % n = a := Int.eq_ofNat_of_zero_le (Int.emod_nonneg g hn0.ne')
  have halt : a < n := by
    have := Int.emod_lt_of_pos g hn0
    omega
  have hcast : (a : ZMod n) = g := by
    rw [← Int.cast_natCast a, ← ha, ZMod.intCast_mod]
  have hgcd : Nat.gcd n a = 1 := by
    refine (Nat.Prime.coprime_iff_not_dvd hn.out).mpr fun hdvd => hg ?_
    rw [← hcast]
    exact (ZMod.natCast_eq_zero_iff a n).mpr hdvd
  -- the first step exchanges the two numbers, and then they are in order
  have hfirst : euclid 600 a n 1 0 true = euclid 599 n a 0 1 false := by
    obtain ⟨m, rfl⟩ : ∃ m, n = m + 1 := ⟨n - 1, by have := hn.out.pos; omega⟩
    rw [euclid, Nat.mod_eq_of_lt halt, Nat.div_eq_of_lt halt]
    rfl
  have hone : (euclid 600 a n 1 0 true).1 = 1 := by
    have hprod : n * a < 2 ^ 598 := mul_lt_two_pow hlt (halt.trans hlt) (by omega)
    rw [hfirst, euclid_gcd 0 1 false halt.le hprod, hgcd]
  have hcoef := euclid_coefficient (a : ZMod n) 600 a n 1 0 true (by simp [parity]) (by simp)
  have hinv : ∀ w : ℤ, (w : ZMod n) * g = 1 → (w : ZMod n) = (g : ZMod n)⁻¹ :=
    fun w hw => eq_inv_of_mul_eq_one_left hw
  simp only [modInverse, ha, Int.toNat_natCast]
  rw [hcast] at hcoef
  generalize euclid 600 a n 1 0 true = res at hone hcoef
  obtain ⟨r, s, even⟩ := res
  obtain rfl : r = 1 := hone
  simp only [Nat.cast_one] at hcoef
  cases even with
  | true =>
    refine ⟨_, rfl, Int.emod_nonneg _ hn0.ne', Int.emod_lt_of_pos _ hn0, hinv _ ?_⟩
    rw [hcoef, ZMod.intCast_mod]
    simp [parity]
  | false =>
    refine ⟨_, rfl, Int.emod_nonneg _ hn0.ne', Int.emod_lt_of_pos _ hn0, hinv _ ?_⟩
    rw [hcoef, ZMod.intCast_mod]
    simp [parity]

def fieldOrder : ℕ := 0xFFFFFFFFFFFFFFFFFFFFFFFFFFFFFFFFFFFFFFFFFFFFFFFFFFFFFFFEFFFFFC2F

def groupOrder : ℕ := 0xFFFFFFFFFFFFFFFFFFFFFFFFFFFFFFFEBAAEDCE6AF48A03BBFD25E8CD0364141

lemma curveP_eq : curveP = fieldOrder := by decide
lemma curveN_eq : curveN = groupOrder := by decide

def smallPrimes : List ℕ :=
  [2, 3, 5, 7, 11, 17, 29, 31, 41, 53, 59, 97, 109, 149, 293, 461, 631, 797, 971, 1373, 1627, 1871,
    2011, 2621, 2657,
    4051, 4423, 5323, 7723, 9349, 13441, 16699, 20113, 24809, 28181, 41201, 85831, 96557,
      120233, 305873]

def certificates : List Lucas.Certificate :=
  [⟨1206781, 10, [(2, 2), (3, 1), (5, 1), (20113, 1)]⟩,
    ⟨1627771, 3, [(2, 1), (3, 1), (5, 1), (29, 1), (1871, 1)]⟩,
    ⟨4681609, 23, [(2, 3), (3, 1), (97, 1), (2011, 1)]⟩,
    ⟨7240687, 3, [(2, 1), (3, 1), (1206781, 1)]⟩,
    ⟨13331831, 13, [(2, 1), (5, 1), (971, 1), (1373, 1)]⟩,
    ⟨44706919, 6, [(2, 1), (3, 1), (797, 1), (9349, 1)]⟩,
    ⟨107590001, 3, [(2, 4), (5, 4), (7, 1), (29, 1), (53, 1)]⟩,
    ⟨545358713, 5, [(2, 3), (41, 1), (59, 1), (28181, 1)]⟩,
    ⟨297159362677, 2, [(2, 2), (3, 2), (11, 1), (461, 1), (1627771, 1)]⟩,
    ⟨107361793816595537, 3, [(2, 4), (16699, 1), (85831, 1), (4681609, 1)]⟩,
    ⟨173378833005251801, 6, [(2, 3), (5, 2), (2621, 1), (24809, 1), (13331831, 1)]⟩,
    ⟨174723607534414371449, 3, [(2, 3), (17, 1), (59, 1), (4051, 1), (120233, 1), (44706919, 1)]⟩,
    ⟨22149492674086928081353, 5, [(2, 3), (3, 1), (5323, 1), (173378833005251801, 1)]⟩,
    ⟨132896956044521568488119, 6, [(2, 1), (3, 1), (22149492674086928081353, 1)]⟩,
    ⟨29047611873442575647497758179, 2,
      [(2, 1), (293, 1), (305873, 1), (545358713, 1), (297159362677, 1)]⟩,
    ⟨341948486974166000522343609283189, 2,
      [(2, 2), (3, 3), (109, 1), (29047611873442575647497758179, 1)]⟩,
    ⟨255515944373312847190720520512484175977, 3,
      [(2, 3), (7, 2), (11, 1), (1627, 1), (2657, 1), (4423, 1), (41201, 1), (96557, 1),
        (7240687, 1), (107590001, 1)]⟩,
    ⟨205115282021455665897114700593932402728804164701536103180137503955397371, 10,
      [(2, 1), (3, 1), (5, 1), (29, 2), (31, 1), (7723, 1), (132896956044521568488119, 1),
        (255515944373312847190720520512484175977, 1)]⟩,
    ⟨groupOrder, 7,
      [(2, 6), (3, 1), (149, 1), (631, 1), (107361793816595537, 1), (174723607534414371449, 1),
        (341948486974166000522343609283189, 1)]⟩,
    ⟨fieldOrder, 3,
      [(2, 1), (3, 1), (7, 1), (13441, 1),
        (205115282021455665897114700593932402728804164701536103180137503955397371, 1)]⟩]

lemma smallPrimes_prime : ∀ q ∈ smallPrimes, q.Prime := by
  simp only [smallPrimes, List.forall_mem_cons]
  norm_num

/-- The certificates by the length of their numbers. -/
def certificatesBySize : List (ℕ × List Lucas.Certificate) :=
  [(30, certificates.take 8), (58, (certificates.drop 8).take 3),
    (77, (certificates.drop 11).take 3),
    (128, (certificates.drop 14).take 3), (256, certificates.drop 17)]

lemma certificates_check : Lucas.checkAll smallPrimes certificatesBySize = true := by decide +kernel

lemma prime_of_certificate : ∀ c ∈ certificates, c.n.Prime :=
  Lucas.prime_of_checkAll smallPrimes_prime certificates_check

instance : Fact fieldOrder.Prime := ⟨prime_of_certificate certificates[19] (List.getElem_mem _)⟩

instance : Fact groupOrder.Prime := ⟨prime_of_certificate certificates[18] (List.getElem_mem _)⟩

lemma pow_sub_two_eq_inv {n : ℕ} [hn : Fact n.Prime] {x : ZMod n} (hx : x ≠ 0) :
    x ^ (n - 2) = x⁻¹ := by
  have htwo := hn.out.two_le
  have hmul : x ^ (n - 2) * x = 1 := by
    rw [← pow_succ, show n - 2 + 1 = n - 1 by omega]
    exact ZMod.pow_card_sub_one_eq_one hx
  exact eq_inv_of_mul_eq_one_left hmul

/-! ### The group -/

abbrev Fp := ZMod fieldOrder
abbrev Curve := curve (7 : Fp)

lemma intCast_natCast_ne_zero {m : ℕ} (h0 : 0 < m) (hlt : m < fieldOrder) : (m : Fp) ≠ 0 := by
  rw [Ne, ZMod.natCast_eq_zero_iff]
  exact Nat.not_dvd_of_pos_of_lt h0 hlt

lemma noTwoTorsion : NoTwoTorsion (7 : Fp) where
  two := by exact_mod_cast intCast_natCast_ne_zero (m := 2) (by decide) (by decide)
  root := by
    intro x hx
    have hneg : x ^ 3 = ((fieldOrder - 7 : ℕ) : Fp) := by
      rw [Nat.cast_sub (by decide), ZMod.natCast_self]
      push_cast
      linear_combination hx
    have hx0 : x ≠ 0 := by
      rintro rfl
      rw [zero_pow (by decide)] at hneg
      exact intCast_natCast_ne_zero (m := fieldOrder - 7) (by decide) (by decide) hneg.symm
    have hone : ((fieldOrder - 7 : ℕ) : Fp) ^ ((fieldOrder - 1) / 3) = 1 := by
      rw [← hneg, ← pow_mul, Nat.mul_div_cancel' (by decide)]
      exact ZMod.pow_card_sub_one_eq_one hx0
    rw [Lucas.pow_eq_one_iff (by decide), ← Lucas.powMod_eq (k := 256) (by decide)] at hone
    exact absurd hone (by decide +kernel)

/-- A number in the range of the field. -/
def InField (x : ℤ) : Prop := 0 ≤ x ∧ x < curveP

lemma inField_mod (x : ℤ) : InField (x % curveP) :=
  ⟨Int.emod_nonneg x (by decide), Int.emod_lt_of_pos x (by decide)⟩

lemma intCast_mod (x : ℤ) : ((x % curveP : ℤ) : Fp) = x := by
  rw [curveP_eq, ZMod.intCast_mod]

lemma intCast_inj {x y : ℤ} (hx : InField x) (hy : InField y) : (x : Fp) = y ↔ x = y := by
  rw [ZMod.intCast_eq_intCast_iff']
  rw [← curveP_eq, Int.emod_eq_of_lt hx.1 hx.2, Int.emod_eq_of_lt hy.1 hy.2]

/-- The coordinates `q` are those of `P`, in the range of the field. -/
def Represents (q : Point) (P : Curve.Point) : Prop :=
  match q with
  | none => P = 0
  | some (x, y) => InField x ∧ InField y ∧ coords P = some ((x : Fp), (y : Fp))

variable {p q : Point} {P Q : Curve.Point} {x y : ℤ}

lemma fieldOrder_lt : fieldOrder < 2 ^ 256 := by decide
lemma groupOrder_lt : groupOrder < 2 ^ 256 := by decide

lemma slope_mul {num den : ℤ} (hden : (den : Fp) ≠ 0) : ((slope num den : ℤ) : Fp) * den = num := by
  obtain ⟨w, hw, -, -, hinv⟩ := modInverse_spec fieldOrder_lt hden
  rw [slope, intCast_mod, curveP_eq, hw, Option.getD_some, Int.cast_mul, hinv,
    inv_mul_cancel_right₀ hden]

lemma represents_third {l x₁ y₁ x₂ : ℤ}
    (h : coords P =
      some ((l : Fp) ^ 2 - x₁ - x₂, (l : Fp) * (x₁ - ((l : Fp) ^ 2 - x₁ - x₂)) - y₁)) :
    Represents
      (some ((l * l - x₁ - x₂) % curveP, ((x₁ - (l * l - x₁ - x₂) % curveP) * l - y₁) % curveP))
      P := by
  refine ⟨inField_mod _, inField_mod _, h.trans ?_⟩
  simp only [intCast_mod, Int.cast_sub, Int.cast_mul, Option.some.injEq, Prod.mk.injEq]
  constructor <;> ring

lemma Represents.double (hp : Represents p P) : Represents (pointDouble p) (P + P) := by
  cases p with
  | none =>
    obtain rfl : P = 0 := hp
    exact add_zero 0
  | some xy =>
    obtain ⟨x, y⟩ := xy
    obtain ⟨-, hy, hcoords⟩ := hp
    have hy0 : (y : Fp) ≠ 0 := noTwoTorsion.y_ne_zero (equation_of_coords hcoords)
    have hne : y ≠ 0 := by
      rintro rfl
      exact hy0 Int.cast_zero
    have hden : ((2 * y : ℤ) : Fp) ≠ 0 := by
      push_cast
      exact mul_ne_zero noTwoTorsion.two hy0
    have htangent : ((slope (x * x * 3) (2 * y) : ℤ) : Fp) * (2 * y) = 3 * (x : Fp) ^ 2 := by
      have hslope := @slope_mul (x * x * 3) _ hden
      push_cast at hslope
      linear_combination hslope
    have hthird := represents_third (noTwoTorsion.coords_double hcoords htangent)
    rw [pointDouble, if_neg hne]
    rwa [sub_sub, ← two_mul] at hthird

lemma Represents.add (hp : Represents p P) (hq : Represents q Q) :
    Represents (pointAdd p q) (P + Q) := by
  cases p with
  | none =>
    obtain rfl : P = 0 := hp
    rwa [pointAdd, zero_add]
  | some xy =>
    cases q with
    | none =>
      obtain rfl : Q = 0 := hq
      rw [add_zero]
      exact hp
    | some xy' =>
      obtain ⟨x₁, y₁⟩ := xy
      obtain ⟨x₂, y₂⟩ := xy'
      have hdouble := hp.double
      obtain ⟨hx₁, hy₁, hP⟩ := hp
      obtain ⟨hx₂, hy₂, hQ⟩ := hq
      rw [pointAdd]
      by_cases hx : x₁ = x₂
      · subst hx
        rw [if_pos rfl]
        rcases eq_or_eq_neg_of_coords hP hQ with rfl | rfl
        · have hy : y₁ = y₂ := by
            rw [hP] at hQ
            exact (intCast_inj hy₁ hy₂).mp (congrArg Prod.snd (Option.some.inj hQ))
          rw [if_pos hy]
          exact hdouble
        · have hy : y₁ ≠ y₂ := by
            rintro rfl
            -- a point that is its own opposite has order two
            have h0 := noTwoTorsion.y_ne_zero (equation_of_coords hQ)
            have hneg := coords_neg hQ
            rw [hP, Option.some.injEq, Prod.mk.injEq] at hneg
            exact mul_ne_zero noTwoTorsion.two h0 (by linear_combination hneg.2)
          rw [if_neg hy]
          exact neg_add_cancel Q
      · rw [if_neg hx]
        have hne : (x₁ : Fp) ≠ x₂ := fun h => hx ((intCast_inj hx₁ hx₂).mp h)
        have hden : ((x₂ - x₁ : ℤ) : Fp) ≠ 0 := by
          push_cast
          exact sub_ne_zero.mpr hne.symm
        have hslope := @slope_mul (y₂ - y₁) _ hden
        refine represents_third (coords_add_of_ne hP hQ hne ?_)
        push_cast at hslope
        linear_combination -hslope

lemma Represents.loop (k : ℕ) (hq : Represents q Q) (i : ℕ) {r : Point} {m : ℕ}
    (hr : Represents r (m • Q)) :
    Represents (scalarLoop k q i r) ((m * 2 ^ i + k % 2 ^ i) • Q) := by
  have hstep : ∀ (r : Point) (n : ℕ) (b : Bool), Represents r (n • Q) →
      Represents (if b then pointAdd (pointDouble r) q else pointDouble r)
          (Ladder.push n b • Q) := by
    intro r n b hr
    have hdouble := hr.double
    rw [← two_nsmul, ← mul_nsmul'] at hdouble
    cases b with
    | false => exact hdouble
    | true =>
      rw [Ladder.push, add_nsmul, Bool.toNat_true, one_nsmul]
      exact hdouble.add hq
  have heq : ∀ i r, scalarLoop k q i r =
      (Ladder.bits k i).foldl
          (fun r b => if b then pointAdd (pointDouble r) q else pointDouble r) r := by
    intro i
    induction i with
    | zero => exact fun _ => rfl
    | succ i ih => exact fun r => ih _
  rw [heq, ← Ladder.foldl_push_bits]
  exact Ladder.run hstep _ hr

lemma Represents.scalarMult (hq : Represents q Q) (k : ℕ) :
    Represents (scalarMult k q) (k • Q) := by
  have h := hq.loop k k.size (r := none) (m := 0) (zero_nsmul Q)
  rwa [Nat.zero_mul, Nat.zero_add, Nat.mod_eq_of_lt (Nat.lt_size_self k)] at h

lemma onCurve_iff : onCurve x y = true ↔ InField x ∧ InField y ∧
      (y : Fp) ^ 2 = (x : Fp) ^ 3 + 7 := by
  have hmod : y * y % curveP = (x * x * x + curveB) % curveP ↔ (y : Fp) ^ 2 = (x : Fp) ^ 3 + 7 := by
    rw [← intCast_inj (inField_mod _) (inField_mod _), intCast_mod, intCast_mod]
    simp only [curveB]
    push_cast
    ring_nf
  unfold onCurve
  split_ifs with h
  · simp only [false_iff]
    rintro ⟨hx, hy, -⟩
    rcases h with h | h | h | h
    · exact absurd hx.1 (not_le.mpr h)
    · exact absurd hy.1 (not_le.mpr h)
    · exact absurd hx.2 (not_lt.mpr h)
    · exact absurd hy.2 (not_lt.mpr h)
  · push Not at h
    rw [beq_iff_eq, hmod]
    exact ⟨fun heq => ⟨⟨h.1, h.2.2.1⟩, ⟨h.2.1, h.2.2.2⟩, heq⟩, fun heq => heq.2.2⟩

lemma exists_represents (h : onCurve x y = true) : ∃ Q, Represents (some (x, y)) Q := by
  obtain ⟨hx, hy, heq⟩ := onCurve_iff.mp h
  obtain ⟨Q, hQ⟩ := noTwoTorsion.exists_coords heq
  exact ⟨Q, hx, hy, hQ⟩

lemma Represents.onCurve (h : Represents (some (x, y)) Q) : onCurve x y = true :=
  onCurve_iff.mpr ⟨h.1, h.2.1, equation_of_coords h.2.2⟩

lemma sq_pow_quarter {r y : Fp} (h : y ^ 2 = r) : (r ^ ((fieldOrder + 1) / 4)) ^ 2 = r := by
  by_cases hy : y = 0
  · rw [← h, hy, zero_pow two_ne_zero, zero_pow (by decide), zero_pow two_ne_zero]
  · have hexp : 2 * ((fieldOrder + 1) / 4 * 2) = fieldOrder - 1 + 2 := by decide
    rw [← h, ← pow_mul, ← pow_mul, hexp, pow_add, ZMod.pow_card_sub_one_eq_one hy, one_mul]

lemma eq_of_sq_eq_of_parity {y y' : Fp} (hy : y ≠ 0) (h : y' ^ 2 = y ^ 2) :
    if y'.val % 2 = y.val % 2 then y' = y else -y' = y := by
  have hodd : fieldOrder % 2 = 1 := by decide
  have hlt := y.val_lt
  obtain rfl | rfl := sq_eq_sq_iff_eq_or_eq_neg.mp h
  · rw [if_pos rfl]
  · rw [ZMod.neg_val, if_neg hy, if_neg (by omega), neg_neg]

-- The code's functions invert a number at every step. In projective coordinates a multiple is found
-- without inverses, which is how multiples of concrete points are evaluated here.

/-- The sum in projective coordinates, modulo the field order. -/
def addMod (p q : Proj ℤ) : Proj ℤ where
  X := ((p.X * q.Y + q.X * p.Y) * (p.Y * q.Y - 21 * (p.Z * q.Z)) -
    21 * (p.Y * q.Z + q.Y * p.Z) * (p.X * q.Z + q.X * p.Z)) % curveP
  Y := ((p.Y * q.Y + 21 * (p.Z * q.Z)) * (p.Y * q.Y - 21 * (p.Z * q.Z)) +
    63 * (p.X * q.X) * (p.X * q.Z + q.X * p.Z)) % curveP
  Z := ((p.Y * q.Z + q.Y * p.Z) * (p.Y * q.Y + 21 * (p.Z * q.Z)) +
    3 * (p.X * q.X) * (p.X * q.Y + q.X * p.Y)) % curveP

def stepMod (q p : Proj ℤ) (b : Bool) : Proj ℤ := if b then addMod (addMod p p) q else addMod p p

/-- Doubles and adds. The comparison has the coordinates evaluated before the next step. -/
def loopMod (q : Proj ℤ) : List Bool → Proj ℤ → Proj ℤ
  | [], p => p
  | b :: l, p =>
    if p.X + p.Y + p.Z = 0 then loopMod q l (stepMod q p b) else loopMod q l (stepMod q p b)

def multMod (k : ℕ) (q : Proj ℤ) : Proj ℤ := loopMod q (Ladder.bits k 256) ⟨0, 1, 0⟩

/-- The integers stand for projective coordinates of `P`. -/
def IsMod (p : Proj ℤ) (P : Curve.Point) : Prop := Proj.Is (⟨p.X, p.Y, p.Z⟩ : Proj Fp) P

lemma IsMod.add {p q : Proj ℤ} (hp : IsMod p P) (hq : IsMod q Q) : IsMod (addMod p q) (P + Q) := by
  have hadd := Proj.Is.add noTwoTorsion hp hq
  have heq : (⟨(addMod p q).X, (addMod p q).Y, (addMod p q).Z⟩ : Proj Fp) =
      Proj.add (7 : Fp) ⟨p.X, p.Y, p.Z⟩ ⟨q.X, q.Y, q.Z⟩ := by
    simp only [addMod, intCast_mod, Proj.add, Int.cast_add, Int.cast_sub, Int.cast_mul,
      Int.cast_ofNat, Proj.mk.injEq]
    refine ⟨?_, ?_, ?_⟩ <;> ring
  rwa [IsMod, heq]

lemma loopMod_eq (q : Proj ℤ) (l : List Bool) (p : Proj ℤ) :
    loopMod q l p = l.foldl (stepMod q) p := by
  induction l generalizing p with
  | nil => rfl
  | cons b l ih => rw [loopMod, ite_self, ih, List.foldl_cons]

lemma IsMod.mult {q : Proj ℤ} (hq : IsMod q Q) {k : ℕ} (hk : k < 2 ^ 256) :
    IsMod (multMod k q) (k • Q) := by
  have hstep : ∀ (p : Proj ℤ) (n : ℕ) (b : Bool), IsMod p (n • Q) →
      IsMod (stepMod q p b) (Ladder.push n b • Q) := by
    intro p n b hp
    have hdouble := hp.add hp
    rw [← two_nsmul, ← mul_nsmul'] at hdouble
    cases b with
    | false => exact hdouble
    | true =>
      rw [Ladder.push, add_nsmul, Bool.toNat_true, one_nsmul]
      exact hdouble.add hq
  have hzero : IsMod ⟨0, 1, 0⟩ ((0 : ℕ) • Q) := by
    rw [zero_nsmul]
    exact ⟨Int.cast_zero, by simp, Int.cast_zero⟩
  have hrun := Ladder.run hstep (Ladder.bits k 256) hzero
  rwa [Ladder.foldl_push_bits_of_lt hk, ← loopMod_eq] at hrun

lemma Represents.isMod (h : Represents (some (x, y)) Q) : IsMod ⟨x, y, 1⟩ Q :=
  (Proj.is_of_coords h.2.2).mpr ⟨by simp, by simp, by simp⟩

lemma IsMod.eq_zero {p : Proj ℤ} (h : IsMod p P) (hZ : p.Z = 0) : P = 0 := by
  cases hP : coords P with
  | none => exact coords_eq_none.mp hP
  | some xy =>
    obtain ⟨hne, -, -⟩ := (Proj.is_of_coords hP).mp h
    exact absurd (by simp [hZ]) hne

/-- The first coordinate of the point is `x`. -/
def HasX (p : Proj ℤ) (x : ℤ) : Prop := p.Z % curveP ≠ 0 ∧ (p.X - x * p.Z) % curveP = 0

instance (p : Proj ℤ) (x : ℤ) : Decidable (HasX p x) := inferInstanceAs (Decidable (_ ∧ _))

lemma intCast_eq_zero {a : ℤ} : (a : Fp) = 0 ↔ a % curveP = 0 := by
  rw [ZMod.intCast_zmod_eq_zero_iff_dvd, ← curveP_eq, Int.dvd_iff_emod_eq_zero]

lemma IsMod.exists_coords {p : Proj ℤ} (h : IsMod p P) (hx : HasX p x) :
    ∃ y, coords P = some ((x : Fp), y) := by
  have hZ : (p.Z : Fp) ≠ 0 := mt intCast_eq_zero.mp hx.1
  have hX : (p.X : Fp) = x * p.Z := by
    have hdiff := intCast_eq_zero.mpr hx.2
    rw [Int.cast_sub, Int.cast_mul] at hdiff
    exact sub_eq_zero.mp hdiff
  cases hP : coords P with
  | none =>
    rw [coords_eq_none.mp hP] at h
    exact absurd h.2.2 hZ
  | some xy =>
    obtain ⟨-, hX', -⟩ := (Proj.is_of_coords hP).mp h
    refine ⟨xy.2, ?_⟩
    rw [← mul_right_cancel₀ hZ (hX'.symm.trans hX)]

lemma exists_generator : ∃ G, Represents (some (curveGx, curveGy)) G :=
  exists_represents (by decide)

noncomputable def generator : Curve.Point := exists_generator.choose

lemma represents_generator : Represents (some (curveGx, curveGy)) generator :=
  exists_generator.choose_spec

lemma generator_ne_zero : generator ≠ 0 := by
  intro h
  have hcoords := represents_generator.2.2
  rw [h, coords_zero] at hcoords
  cases hcoords

lemma multMod_groupOrder : (multMod groupOrder ⟨curveGx, curveGy, 1⟩).Z = 0 := by decide +kernel

lemma groupOrder_nsmul_generator : groupOrder • generator = 0 := by
  have h : ∀ k < 2 ^ 256, (multMod k ⟨curveGx, curveGy, 1⟩).Z = 0 → k • generator = 0 :=
    fun k hk hZ => (represents_generator.isMod.mult hk).eq_zero hZ
  exact h groupOrder groupOrder_lt multMod_groupOrder

lemma addOrderOf_generator : addOrderOf generator = groupOrder :=
  addOrderOf_eq_prime groupOrder_nsmul_generator generator_ne_zero

lemma card_point : Nat.card Curve.Point = groupOrder := by
  refine noTwoTorsion.card_eq addOrderOf_generator ?_
  rw [Nat.card_zmod]
  decide

lemma groupOrder_nsmul (P : Curve.Point) : groupOrder • P = 0 := by
  rw [← card_point]
  exact card_nsmul_eq_zero'

end MemServe.Crypto
