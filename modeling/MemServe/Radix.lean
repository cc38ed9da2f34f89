import Mathlib.Data.Nat.Digits.Lemmas

/-!
Numerals that may have zeros before them.

Most significant first, a list of digits is a number of zeros and then a number without any, and
these two determine it. So a list in one base is carried to another by keeping both, and comes back
the same.
-/

namespace MemServe.Radix

variable {B : ℕ}

/-- The number that the digits are, most significant first. -/
def value (B : ℕ) (ds : List ℕ) : ℕ := ds.foldl (fun v d => v * B + d) 0

/-- How many zeros the list starts with. -/
def zeros (ds : List ℕ) : ℕ := (ds.takeWhile (· == 0)).length

/-- `v` after `z` zeros. -/
def numeral (B z v : ℕ) : List ℕ := List.replicate z 0 ++ (Nat.digits B v).reverse

@[simp] lemma zeros_zero_cons (ds : List ℕ) : zeros (0 :: ds) = zeros ds + 1 := by simp [zeros]

lemma zeros_cons {d : ℕ} (hd : d ≠ 0) (ds : List ℕ) : zeros (d :: ds) = 0 := by simp [zeros, hd]

lemma value_eq_ofDigits (ds : List ℕ) : value B ds = Nat.ofDigits B ds.reverse := by
  rw [value, Nat.ofDigits_eq_foldr, List.foldr_reverse]
  congr 1
  funext v d
  rw [Nat.mul_comm, Nat.add_comm]
  rfl

@[simp] lemma value_numeral (B z v : ℕ) : value B (numeral B z v) = v := by
  rw [value_eq_ofDigits, numeral, List.reverse_append, List.reverse_reverse, List.reverse_replicate,
    Nat.ofDigits_append_replicate_zero, Nat.ofDigits_digits]

lemma zeros_digits (B v : ℕ) : zeros (Nat.digits B v).reverse = 0 := by
  by_cases hv : v = 0
  · rw [hv, Nat.digits_zero]
    rfl
  · have hne : Nat.digits B v ≠ [] := Nat.digits_ne_nil_iff_ne_zero.mpr hv
    have hlast := Nat.getLast_digit_ne_zero B hv
    rw [← List.dropLast_append_getLast hne, List.reverse_append, List.reverse_singleton,
      List.singleton_append, zeros_cons hlast]

@[simp] lemma zeros_numeral (B z v : ℕ) : zeros (numeral B z v) = z := by
  induction z with
  | zero => exact zeros_digits B v
  | succ z ih =>
    rw [numeral, List.replicate_succ, List.cons_append, zeros_zero_cons]
    exact congrArg _ ih

/-- **A list of digits is the numeral of its number after its zeros.** -/
lemma numeral_eq (hB : 1 < B) {ds : List ℕ} (h : ∀ d ∈ ds, d < B) :
    numeral B (zeros ds) (value B ds) = ds := by
  induction ds with
  | nil => simp [zeros, value, numeral]
  | cons d ds ih =>
    by_cases hd : d = 0
    · -- one zero more, and the same number
      have hvalue : value B (0 :: ds) = value B ds := by
        rw [value, value, List.foldl_cons, Nat.zero_mul]
      rw [hd, hvalue, zeros_zero_cons, numeral, List.replicate_succ, List.cons_append]
      exact congrArg _ (ih fun d hd => h d (List.mem_cons_of_mem _ hd))
    · have hdigits : Nat.digits B (value B (d :: ds)) = (d :: ds).reverse := by
        rw [value_eq_ofDigits]
        refine Nat.digits_ofDigits B hB _ (fun e he => h e (List.mem_reverse.mp he)) fun hne => ?_
        rwa [List.getLast_reverse]
      rw [zeros_cons hd, numeral, hdigits, List.reverse_reverse]
      rfl

lemma lt_of_mem_numeral (hB : 1 < B) {z v d : ℕ} (h : d ∈ numeral B z v) : d < B := by
  rcases List.mem_append.mp h with h | h
  · rw [List.eq_of_mem_replicate h]
    omega
  · exact Nat.digits_lt_base hB (List.mem_reverse.mp h)

end MemServe.Radix
