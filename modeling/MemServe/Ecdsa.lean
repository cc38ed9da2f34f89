import Mathlib.Algebra.Field.ZMod
import Mathlib.Tactic.FieldSimp
import Mathlib.Tactic.LinearCombination

/-!
ECDSA in a group with an element `g` of prime order `n`.

A signature `(r, s)` of `z` is checked at the point `(z / s) g + (r / s) Q`. For the key `Q = d g`
and `s c = z + r d` this is the point `c g`: the signer takes `c` to be the nonce, and with the
other sign of `s` it is the opposite point.
-/

namespace MemServe.Ecdsa

variable {G : Type*} [AddCommGroup G] {n : ℕ} [Fact n.Prime] {g : G} (hg : n • g = 0)

/-- The multiple by a number modulo `n`. -/
def mult (c : ZMod n) (P : G) : G := c.val • P

include hg

lemma mult_natCast (k : ℕ) : mult (k : ZMod n) g = k • g := by
  rw [mult, ZMod.val_natCast, ← Nat.mod_add_div k n]
  simp only [add_nsmul, mul_nsmul, Nat.add_mul_mod_self_left, Nat.mod_mod, hg, nsmul_zero, add_zero]

lemma mult_add (a b : ZMod n) : mult (a + b) g = mult a g + mult b g := by
  have h := mult_natCast hg (a.val + b.val)
  rwa [Nat.cast_add, ZMod.natCast_zmod_val, ZMod.natCast_zmod_val, add_nsmul] at h

lemma mult_neg (a : ZMod n) : mult (-a) g = -mult a g := by
  have h := mult_add hg a (-a)
  rw [add_neg_cancel] at h
  have h0 : mult (0 : ZMod n) g = 0 := by rw [mult, ZMod.val_zero, zero_nsmul]
  exact eq_neg_of_add_eq_zero_right (h.symm.trans h0)

lemma mult_nsmul (a : ZMod n) (d : ℕ) : mult a (d • g) = mult (a * (d : ZMod n)) g := by
  have h := mult_natCast hg (a.val * d)
  rw [Nat.cast_mul, ZMod.natCast_zmod_val] at h
  rw [h, mult, ← mul_nsmul']

/-- **The point a signature is checked at.** -/
theorem check_point {z r s c : ZMod n} {d : ℕ} (hs : s ≠ 0) (h : s * c = z + r * d) :
    mult (z * s⁻¹) g + mult (r * s⁻¹) (d • g) = mult c g := by
  rw [mult_nsmul hg, ← mult_add hg]
  congr 1
  field_simp
  linear_combination -h

end MemServe.Ecdsa
