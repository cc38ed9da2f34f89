import Mathlib.Algebra.Order.Field.Power
import Mathlib.Data.Int.Log
import Mathlib.Data.Rat.Floor
import Mathlib.Tactic.Linarith
import Mathlib.Tactic.Positivity
import Mathlib.Tactic.FieldSimp

/-!
Rounding to the numbers of the binary64 format: to the nearest, ties to even.

The values of the format are rationals, and an operation is the exact one followed by `fl`.
Overflow is left out: `fl` is that of a format without an upper end. What programs need of it is
that it keeps the order relative to representable numbers, fixes them, and has a small error.
-/

namespace MemServe.Binary64

/-- The nearest integer, and of two the even one. -/
def roundEven (x : ℚ) : ℤ :=
  if x - ⌊x⌋ < 1 / 2 then ⌊x⌋
  else if 1 / 2 < x - ⌊x⌋ then ⌊x⌋ + 1
  else ⌊x⌋ + ⌊x⌋ % 2

/-- The exponent of the last of the 53 bits of `x`. -/
def lastBit (x : ℚ) : ℤ := max (Int.log 2 |x| - 52) (-1074)

def fl (x : ℚ) : ℚ := roundEven (x / 2 ^ lastBit x) * 2 ^ lastBit x

/-- The finite numbers of the format that are not negative, of any size. -/
def Representable (a : ℚ) : Prop := ∃ n : ℕ, ∃ e : ℤ, n ≤ 2 ^ 53 ∧ -1074 ≤ e ∧ a = n * 2 ^ e

lemma abs_roundEven_sub_le (x : ℚ) : |roundEven x - x| ≤ 1 / 2 := by
  have hlo := Int.floor_le x
  have hhi := Int.lt_floor_add_one x
  unfold roundEven
  split_ifs with h1 h2
  · rw [abs_le]
    constructor <;> linarith
  · push_cast
    rw [abs_le]
    constructor <;> linarith
  · -- a tie: both neighbours are as near
    have hhalf : x - ⌊x⌋ = 1 / 2 := le_antisymm (not_lt.mp h2) (not_lt.mp h1)
    rcases Int.emod_two_eq_zero_or_one ⌊x⌋ with h | h
    · rw [h, add_zero, abs_sub_comm, hhalf, abs_of_pos (by norm_num)]
    · rw [h]
      push_cast
      rw [abs_le]
      constructor <;> linarith

/-- Rounding does not pass an integer. -/
lemma le_roundEven {n : ℤ} {x : ℚ} (h : n ≤ x) : n ≤ roundEven x := by
  have hfloor : n ≤ ⌊x⌋ := Int.le_floor.mpr h
  have hmod : 0 ≤ ⌊x⌋ % 2 := Int.emod_nonneg _ (by decide)
  unfold roundEven
  split_ifs <;> omega

@[inherit_doc le_roundEven]
lemma roundEven_le {n : ℤ} {x : ℚ} (h : x ≤ n) : roundEven x ≤ n := by
  have hnear := (abs_le.mp (abs_roundEven_sub_le x)).2
  by_contra hlt
  have hle : ((n + 1 : ℤ) : ℚ) ≤ roundEven x := by
    exact_mod_cast (show n + 1 ≤ roundEven x by omega)
  push_cast at hle
  linarith

@[simp] lemma fl_zero : fl 0 = 0 := by simp [fl, roundEven]

section

variable {x a : ℚ}

lemma neg_le_lastBit (x : ℚ) : -1074 ≤ lastBit x := le_max_right _ _

lemma lt_lastBit (x : ℚ) : |x| < 2 ^ (53 : ℕ) * 2 ^ lastBit x := by
  have h := Int.lt_zpow_succ_log_self (b := 2) (by decide) |x|
  have hle : Int.log 2 |x| + 1 ≤ 53 + lastBit x := by
    have := le_max_left (Int.log 2 |x| - 52) (-1074)
    unfold lastBit
    omega
  calc |x| < 2 ^ (Int.log 2 |x| + 1) := by exact_mod_cast h
    _ ≤ 2 ^ (53 + lastBit x) := zpow_le_zpow_right₀ (by norm_num) hle
    _ = 2 ^ (53 : ℕ) * 2 ^ lastBit x := by rw [zpow_add₀ (by norm_num)]; norm_num

lemma lastBit_le (hx : 0 < x) (h : -1074 < lastBit x) : 2 ^ (52 : ℕ) * 2 ^ lastBit x ≤ x := by
  have hlast : lastBit x = Int.log 2 |x| - 52 := by
    unfold lastBit at h ⊢
    omega
  have hlog := Int.zpow_log_le_self (b := 2) (by decide) (abs_pos.mpr hx.ne')
  rw [abs_of_pos hx] at hlog hlast
  calc (2 : ℚ) ^ (52 : ℕ) * 2 ^ lastBit x = 2 ^ (52 + lastBit x) := by
        rw [zpow_add₀ (by norm_num)]; norm_num
    _ = 2 ^ Int.log 2 x := by rw [hlast, add_sub_cancel]
    _ ≤ x := by exact_mod_cast hlog

lemma Representable.scale (ha : Representable a) (x : ℚ) :
    (∃ n : ℤ, a = n * 2 ^ lastBit x) ∨ (-1074 < lastBit x ∧ a ≤ 2 ^ (52 : ℕ) * 2 ^ lastBit x) := by
  obtain ⟨n, e, hn, he, rfl⟩ := ha
  rcases le_or_gt (lastBit x) e with hle | hlt
  · refine .inl ⟨n * 2 ^ (e - lastBit x).toNat, ?_⟩
    have hexp : e = ((e - lastBit x).toNat : ℤ) + lastBit x := by omega
    conv_lhs => rw [hexp, zpow_add₀ (by norm_num), zpow_natCast]
    push_cast
    ring
  · refine .inr ⟨by omega, ?_⟩
    have hpow : (2 : ℚ) ^ e ≤ 2 ^ (lastBit x - 1) := zpow_le_zpow_right₀ (by norm_num) (by omega)
    calc (n : ℚ) * 2 ^ e ≤ 2 ^ (53 : ℕ) * 2 ^ (lastBit x - 1) :=
        mul_le_mul (by exact_mod_cast hn) hpow (by positivity) (by positivity)
      _ = 2 ^ (52 : ℕ) * 2 ^ lastBit x := by rw [zpow_sub₀ (by norm_num)]; ring

/-! ### Rounding -/

/-- **Rounding does not pass a representable number.** -/
lemma le_fl (ha : Representable a) (hx : 0 ≤ x) (h : a ≤ x) : a ≤ fl x := by
  have hpos : (0 : ℚ) < 2 ^ lastBit x := by positivity
  rcases ha.scale x with ⟨n, rfl⟩ | ⟨hnormal, hsmall⟩
  · refine mul_le_mul_of_nonneg_right ?_ hpos.le
    exact_mod_cast le_roundEven ((le_div_iff₀ hpos).mpr h)
  · rcases hx.eq_or_lt with rfl | hx
    · rwa [fl_zero]
    · refine hsmall.trans (mul_le_mul_of_nonneg_right ?_ hpos.le)
      have hint : ((2 ^ 52 : ℤ) : ℚ) ≤ x / 2 ^ lastBit x := by
        rw [le_div_iff₀ hpos]
        exact_mod_cast lastBit_le hx hnormal
      exact_mod_cast le_roundEven hint

@[inherit_doc le_fl]
lemma fl_le (ha : Representable a) (hx : 0 ≤ x) (h : x ≤ a) : fl x ≤ a := by
  have hpos : (0 : ℚ) < 2 ^ lastBit x := by positivity
  rcases ha.scale x with ⟨n, rfl⟩ | ⟨hnormal, hsmall⟩
  · refine mul_le_mul_of_nonneg_right ?_ hpos.le
    exact_mod_cast roundEven_le ((div_le_iff₀ hpos).mpr h)
  · rcases hx.eq_or_lt with rfl | hx
    · rwa [fl_zero]
    · -- then `x` is the least number of its size
      refine le_trans ?_ ((lastBit_le hx hnormal).trans h)
      refine mul_le_mul_of_nonneg_right ?_ hpos.le
      have hint : x / 2 ^ lastBit x ≤ ((2 ^ 52 : ℤ) : ℚ) := by
        rw [div_le_iff₀ hpos]
        exact_mod_cast h.trans hsmall
      exact_mod_cast roundEven_le hint

lemma Representable.nonneg (ha : Representable a) : 0 ≤ a := by
  obtain ⟨n, e, -, -, rfl⟩ := ha
  positivity

lemma representable_natCast {n : ℕ} (hn : n ≤ 2 ^ 53) : Representable n :=
  ⟨n, 0, hn, by decide, by simp⟩

lemma Representable.fl_eq (ha : Representable a) : fl a = a :=
  le_antisymm (fl_le ha ha.nonneg le_rfl) (le_fl ha ha.nonneg le_rfl)

lemma fl_nonneg (hx : 0 ≤ x) : 0 ≤ fl x := by
  have := le_fl (representable_natCast (n := 0) (by decide)) hx (by exact_mod_cast hx)
  exact_mod_cast this

lemma representable_fl (hx : 0 ≤ x) : Representable (fl x) := by
  have hpos : (0 : ℚ) < 2 ^ lastBit x := by positivity
  have hnonneg : 0 ≤ roundEven (x / 2 ^ lastBit x) := le_roundEven (by push_cast; positivity)
  have hle : roundEven (x / 2 ^ lastBit x) ≤ 2 ^ 53 := by
    refine roundEven_le ?_
    rw [div_le_iff₀ hpos]
    have := (lt_lastBit x).le
    rw [abs_of_nonneg hx] at this
    exact_mod_cast this
  refine ⟨(roundEven (x / 2 ^ lastBit x)).toNat, lastBit x, by omega, neg_le_lastBit x, ?_⟩
  rw [← Int.cast_natCast, Int.toNat_of_nonneg hnonneg]
  rfl

/-- **The error of rounding** is half a last bit: a part in `2 ^ 53`, or half the least number. -/
lemma abs_fl_sub_le (hx : 0 ≤ x) : |fl x - x| ≤ x / 2 ^ 53 + 2 ^ (-1075 : ℤ) := by
  rcases hx.eq_or_lt with rfl | hx
  · rw [fl_zero]
    simp
  have hpos : (0 : ℚ) < 2 ^ lastBit x := by positivity
  have hscale : fl x - x = (roundEven (x / 2 ^ lastBit x) - x / 2 ^ lastBit x) * 2 ^ lastBit x := by
    rw [sub_mul, div_mul_cancel₀ _ hpos.ne']
    rfl
  have herr : |fl x - x| ≤ 1 / 2 * 2 ^ lastBit x := by
    rw [hscale, abs_mul, abs_of_pos hpos]
    exact mul_le_mul_of_nonneg_right (abs_roundEven_sub_le _) hpos.le
  refine herr.trans ?_
  rcases (neg_le_lastBit x).eq_or_lt with hmin | hnormal
  · have hzero : (0 : ℚ) ≤ x / 2 ^ 53 := by positivity
    have hpow : (1 / 2 : ℚ) * 2 ^ (-1074 : ℤ) = 2 ^ (-1075 : ℤ) := by
      rw [one_div, ← zpow_neg_one, ← zpow_add₀ (by norm_num)]
      rfl
    rw [← hmin, hpow]
    linarith
  · have h := lastBit_le hx hnormal
    have hlast : 1 / 2 * (2 : ℚ) ^ lastBit x ≤ x / 2 ^ 53 := by
      rw [le_div_iff₀ (by positivity)]
      linarith
    have hzero : (0 : ℚ) ≤ 2 ^ (-1075 : ℤ) := by positivity
    linarith

end

end MemServe.Binary64
