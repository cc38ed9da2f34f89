import Mathlib.Data.Nat.Bitwise
import Mathlib.Tactic.Ring

/-!
Loops over the bits of a number, from the highest.

A double-and-add or square-and-multiply loop brings its state from standing for `n` to standing for
`2 n` or `2 n + 1`. Whatever "standing for" means, in the end it stands for the number.
-/

namespace MemServe.Ladder

/-- Appends a bit. -/
def push (n : ℕ) (b : Bool) : ℕ := 2 * n + b.toNat

/-- The `n` low bits of `k`, highest first. -/
def bits (k : ℕ) : ℕ → List Bool
  | 0 => []
  | n + 1 => k.testBit n :: bits k n

@[simp] lemma length_bits (k n : ℕ) : (bits k n).length = n := by
  induction n with
  | zero => rfl
  | succ n ih => rw [bits, List.length_cons, ih]

lemma bits_add (k m n : ℕ) : bits k (m + n) = bits (k >>> n) m ++ bits k n := by
  induction m with
  | zero => rw [Nat.zero_add, bits, List.nil_append]
  | succ m ih =>
    rw [Nat.add_right_comm, bits, bits, ih, List.cons_append, Nat.testBit_shiftRight,
      Nat.add_comm n m]

lemma bits_mod (k n : ℕ) : bits (k % 2 ^ n) n = bits k n := by
  have h : ∀ m ≤ n, bits (k % 2 ^ n) m = bits k m := by
    intro m
    induction m with
    | zero => exact fun _ => rfl
    | succ m ih =>
      intro hm
      rw [bits, bits, ih (by omega), Nat.testBit_mod_two_pow, decide_eq_true (by omega : m < n),
        Bool.true_and]
  exact h n n.le_refl

lemma foldl_push_bits (k n m : ℕ) : (bits k n).foldl push m = m * 2 ^ n + k % 2 ^ n := by
  induction n generalizing m with
  | zero => simp [bits, Nat.mod_one]
  | succ n ih =>
    rw [bits, List.foldl_cons, ih, Nat.mod_pow_succ, push, Nat.toNat_testBit]
    ring

lemma foldl_push_bits_of_lt {k n : ℕ} (h : k < 2 ^ n) : (bits k n).foldl push 0 = k := by
  rw [foldl_push_bits, Nat.zero_mul, Nat.zero_add, Nat.mod_eq_of_lt h]

/-- **The loop rule.** What one step does for a bit, the loop does for all of them. -/
theorem run {σ : Type*} {step : σ → Bool → σ} {R : σ → ℕ → Prop}
    (hstep : ∀ s n b, R s n → R (step s b) (push n b)) (l : List Bool) {s : σ} {n : ℕ} (h : R s n) :
    R (l.foldl step s) (l.foldl push n) := by
  induction l generalizing s n with
  | nil => exact h
  | cons b l ih => exact ih (hstep s n b h)

end MemServe.Ladder
