import Mathlib.NumberTheory.LucasPrimality
import Mathlib.Tactic.NormNum.Prime
import MemServe.Ladder

/-!
Primality certificates.

A number `n` is prime if some element has order `n - 1` modulo `n`. A certificate names the element
and the factors of `n - 1`; the powers are found by squaring, so that checking one is a computation
of a few hundred products for each factor.
-/

namespace MemServe.Lucas

/-- `a ^ e % m`, for an exponent of `k` bits. -/
def powMod (m a k e : ℕ) : ℕ :=
  (Ladder.bits e k).foldl (fun r b => if b then r * r % m * a % m else r * r % m) (1 % m)

lemma powMod_eq {m a k e : ℕ} (he : e < 2 ^ k) : powMod m a k e = a ^ e % m := by
  have hstep : ∀ (r n : ℕ) (b : Bool), r = a ^ n % m →
      (if b then r * r % m * a % m else r * r % m) = a ^ Ladder.push n b % m := by
    rintro r n b rfl
    have hsq : a ^ n % m * (a ^ n % m) % m = a ^ (2 * n) % m := by
      rw [← Nat.mul_mod, ← Nat.pow_add, Nat.two_mul]
    cases b with
    | false => simp [Ladder.push, hsq]
    | true =>
      simp only [Ladder.push, hsq, if_true, Bool.toNat_true, Nat.pow_succ]
      exact Nat.mod_mul_mod (a ^ (2 * n)) a m
  have hrun := Ladder.run hstep (Ladder.bits e k) (by rw [Nat.pow_zero] : 1 % m = a ^ 0 % m)
  rwa [Ladder.foldl_push_bits_of_lt he] at hrun

structure Certificate where
  n : ℕ
  /-- An element of order `n - 1`. -/
  a : ℕ
  /-- The primes of `n - 1`, with their exponents. -/
  factors : List (ℕ × ℕ)

/-- The factors are of `n - 1`, and the order of `a` is not less by any of them. -/
def Certificate.valid (c : Certificate) (k : ℕ) : Bool :=
  2 ≤ c.n && c.n ≤ 2 ^ k && (c.factors.map fun f => f.1 ^ f.2).prod == c.n - 1 &&
    powMod c.n c.a k (c.n - 1) == 1 &&
    c.factors.all fun f => powMod c.n c.a k ((c.n - 1) / f.1) != 1

lemma pow_eq_one_iff {n a e : ℕ} (hn : 2 ≤ n) : (a : ZMod n) ^ e = 1 ↔ a ^ e % n = 1 := by
  rw [← Nat.cast_pow, ← Nat.cast_one, ZMod.natCast_eq_natCast_iff',
    Nat.mod_eq_of_lt (by omega : 1 < n)]

lemma mem_of_dvd_prod {q : ℕ} (hq : q.Prime) {l : List (ℕ × ℕ)} (hl : ∀ f ∈ l, f.1.Prime)
    (h : q ∣ (l.map fun f => f.1 ^ f.2).prod) : ∃ f ∈ l, f.1 = q := by
  induction l with
  | nil => exact absurd (Nat.dvd_one.mp h) hq.ne_one
  | cons f l ih =>
    rw [List.map_cons, List.prod_cons] at h
    rcases hq.dvd_mul.mp h with h | h
    · exact ⟨f, List.mem_cons_self,
        ((Nat.prime_dvd_prime_iff_eq hq (hl f List.mem_cons_self)).mp (hq.dvd_of_dvd_pow h)).symm⟩
    · obtain ⟨g, hg, rfl⟩ := ih (fun g hg => hl g (List.mem_cons_of_mem f hg)) h
      exact ⟨g, List.mem_cons_of_mem f hg, rfl⟩

lemma Certificate.prime {c : Certificate} {k : ℕ} (hfactors : ∀ f ∈ c.factors, f.1.Prime)
    (h : c.valid k = true) :
    c.n.Prime := by
  simp only [valid, Bool.and_eq_true, decide_eq_true_eq, beq_iff_eq, List.all_eq_true, bne_iff_ne]
    at h
  obtain ⟨⟨⟨⟨htwo, hle⟩, hprod⟩, hone⟩, hne⟩ := h
  have hbits : ∀ e ≤ c.n - 1, e < 2 ^ k := by
    intro e he
    omega
  refine lucas_primality c.n c.a ?_ ?_
  · rw [pow_eq_one_iff htwo, ← powMod_eq (hbits _ le_rfl)]
    exact hone
  · intro q hq hdvd
    obtain ⟨f, hf, rfl⟩ := mem_of_dvd_prod hq hfactors (by rwa [hprod])
    rw [Ne, pow_eq_one_iff htwo, ← powMod_eq (hbits _ (Nat.div_le_self _ _))]
    exact hne f hf

/-- Checks certificates in order; each may use the numbers of those before it. -/
def check (k : ℕ) : List ℕ → List Certificate → Bool
  | _, [] => true
  | primes, c :: cs =>
    c.factors.all (fun f => primes.contains f.1) && c.valid k && check k (c.n :: primes) cs

theorem prime_of_check {k : ℕ} {primes : List ℕ} {cs : List Certificate}
    (hprimes : ∀ q ∈ primes, q.Prime)
    (h : check k primes cs = true) : ∀ c ∈ cs, c.n.Prime := by
  induction cs generalizing primes with
  | nil => simp
  | cons c cs ih =>
    simp only [check, Bool.and_eq_true, List.all_eq_true, List.contains_iff_mem] at h
    obtain ⟨⟨hfactors, hvalid⟩, hrest⟩ := h
    have hc : c.n.Prime := Certificate.prime (fun f hf => hprimes f.1 (hfactors f hf)) hvalid
    have hmore : ∀ q ∈ c.n :: primes, q.Prime := by
      intro q hq
      rcases List.mem_cons.mp hq with rfl | hq
      · exact hc
      · exact hprimes q hq
    intro c' hc'
    rcases List.mem_cons.mp hc' with rfl | hc'
    · exact hc
    · exact ih hmore hrest c' hc'

/-- Checks lists of certificates in order, each with exponents as long as its numbers. -/
def checkAll : List ℕ → List (ℕ × List Certificate) → Bool
  | _, [] => true
  | primes, (k, cs) :: rest => check k primes cs && checkAll (cs.map Certificate.n ++ primes) rest

theorem prime_of_checkAll {primes : List ℕ} {parts : List (ℕ × List Certificate)}
    (hprimes : ∀ q ∈ primes, q.Prime)
    (h : checkAll primes parts = true) : ∀ c ∈ parts.flatMap Prod.snd, c.n.Prime := by
  induction parts generalizing primes with
  | nil => simp
  | cons part rest ih =>
    obtain ⟨k, cs⟩ := part
    simp only [checkAll, Bool.and_eq_true] at h
    have hcs := prime_of_check hprimes h.1
    have hmore : ∀ q ∈ cs.map Certificate.n ++ primes, q.Prime := by
      intro q hq
      rcases List.mem_append.mp hq with hq | hq
      · obtain ⟨c, hc, rfl⟩ := List.mem_map.mp hq
        exact hcs c hc
      · exact hprimes q hq
    intro c hc
    rw [List.flatMap_cons] at hc
    rcases List.mem_append.mp hc with hc | hc
    · exact hcs c hc
    · exact ih hmore h.2 c hc

end MemServe.Lucas
