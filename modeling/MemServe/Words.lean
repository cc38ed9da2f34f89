import MemServe.Bytes
import MemServe.Ladder
import Mathlib.Tactic.LinearCombination

/-!
Numbers in 64-bit words, least significant first, with the carries of word arithmetic.
-/

namespace MemServe.Words

lemma mul_toNat_le (x y : UInt64) : x.toNat * y.toNat ≤ (2 ^ 64 - 1) * (2 ^ 64 - 1) := by
  have hx := x.toNat_lt
  have hy := y.toNat_lt
  exact Nat.mul_le_mul (by omega) (by omega)

/-- Arithmetic on words that says what does not fit: the carry of a sum, the borrow of a difference,
the high word of a product (which comes first). -/
structure WordOps where
  add : UInt64 → UInt64 → UInt64 → UInt64 × UInt64
  sub : UInt64 → UInt64 → UInt64 → UInt64 × UInt64
  mul : UInt64 → UInt64 → UInt64 × UInt64
  add_spec : ∀ x y c : UInt64, c.toNat ≤ 1 →
    (add x y c).1.toNat + 2 ^ 64 * (add x y c).2.toNat = x.toNat + y.toNat + c.toNat ∧
      (add x y c).2.toNat ≤ 1
  sub_spec : ∀ x y c : UInt64, c.toNat ≤ 1 →
    (sub x y c).1.toNat + y.toNat + c.toNat = x.toNat + 2 ^ 64 * (sub x y c).2.toNat ∧
      (sub x y c).2.toNat ≤ 1
  mul_spec : ∀ x y : UInt64, (mul x y).2.toNat + 2 ^ 64 * (mul x y).1.toNat = x.toNat * y.toNat

variable (A : WordOps)

def value : List UInt64 → ℕ
  | [] => 0
  | w :: ws => w.toNat + 2 ^ 64 * value ws

@[simp] lemma value_nil : value [] = 0 := rfl
@[simp] lemma value_cons (w : UInt64) (ws : List UInt64) :
    value (w :: ws) = w.toNat + 2 ^ 64 * value ws := rfl

lemma value_append (xs ys : List UInt64) :
    value (xs ++ ys) = value xs + 2 ^ (64 * xs.length) * value ys := by
  induction xs with
  | nil => simp
  | cons x xs ih =>
    simp only [List.cons_append, value_cons, ih, List.length_cons, Nat.mul_add, Nat.mul_one,
      Nat.pow_add]
    ring

lemma value_lt (xs : List UInt64) : value xs < 2 ^ (64 * xs.length) := by
  induction xs with
  | nil => simp
  | cons x xs ih =>
    have hx := x.toNat_lt
    have hpow : 2 ^ (64 * (xs.length + 1)) = 2 ^ 64 * 2 ^ (64 * xs.length) := by
      rw [Nat.mul_add, Nat.mul_one, Nat.pow_add, Nat.mul_comm]
    simp only [value_cons, List.length_cons, hpow]
    omega

lemma value_inj {xs ys : List UInt64} (hlen : xs.length = ys.length) (h : value xs = value ys) :
    xs = ys := by
  induction xs generalizing ys with
  | nil => exact (List.length_eq_zero_iff.mp hlen.symm).symm
  | cons x xs ih =>
    cases ys with
    | nil => cases hlen
    | cons y ys =>
      have hx := x.toNat_lt
      have hy := y.toNat_lt
      simp only [value_cons] at h
      rw [UInt64.toNat_inj.mp (by omega : x.toNat = y.toNat), ih (by simpa using hlen) (by omega)]

/-- Adds word by word, passing the carry on. -/
def addc (A : WordOps) : List UInt64 → List UInt64 → UInt64 → List UInt64 × UInt64
  | x :: xs, y :: ys, carry =>
    let (s, carry) := A.add x y carry
    let (r, carry) := addc A xs ys carry
    (s :: r, carry)
  | _, _, carry => ([], carry)

/-- Subtracts word by word, passing the borrow on. -/
def subb (A : WordOps) : List UInt64 → List UInt64 → UInt64 → List UInt64 × UInt64
  | x :: xs, y :: ys, borrow =>
    let (d, borrow) := A.sub x y borrow
    let (r, borrow) := subb A xs ys borrow
    (d :: r, borrow)
  | _, _, borrow => ([], borrow)

variable {xs ys : List UInt64} {c : UInt64}

lemma length_addc (hlen : xs.length = ys.length) : (addc A xs ys c).1.length = xs.length := by
  induction xs generalizing ys c with
  | nil => rfl
  | cons x xs ih =>
    cases ys with
    | nil => cases hlen
    | cons y ys => simpa [addc] using ih (by simpa using hlen)

lemma length_subb (hlen : xs.length = ys.length) : (subb A xs ys c).1.length = xs.length := by
  induction xs generalizing ys c with
  | nil => rfl
  | cons x xs ih =>
    cases ys with
    | nil => cases hlen
    | cons y ys => simpa [subb] using ih (by simpa using hlen)

lemma addc_spec (hlen : xs.length = ys.length) (hc : c.toNat ≤ 1) :
    value (addc A xs ys c).1 + 2 ^ (64 * xs.length) * (addc A xs ys c).2.toNat =
      value xs + value ys + c.toNat ∧
      (addc A xs ys c).2.toNat ≤ 1 := by
  induction xs generalizing ys c with
  | nil =>
    obtain rfl := List.length_eq_zero_iff.mp hlen.symm
    simpa [addc] using hc
  | cons x xs ih =>
    cases ys with
    | nil => cases hlen
    | cons y ys =>
      obtain ⟨hs, hc'⟩ := A.add_spec x y c hc
      obtain ⟨hr, hle⟩ := ih (by simpa using hlen) hc'
      refine ⟨?_, hle⟩
      simp only [addc, value_cons, List.length_cons, Nat.mul_add, Nat.mul_one, Nat.pow_add]
      linear_combination hs + 2 ^ 64 * hr

lemma subb_spec (hlen : xs.length = ys.length) (hc : c.toNat ≤ 1) :
    value (subb A xs ys c).1 + value ys + c.toNat = value xs +
      2 ^ (64 * xs.length) * (subb A xs ys c).2.toNat ∧
      (subb A xs ys c).2.toNat ≤ 1 := by
  induction xs generalizing ys c with
  | nil =>
    obtain rfl := List.length_eq_zero_iff.mp hlen.symm
    simpa [subb] using hc
  | cons x xs ih =>
    cases ys with
    | nil => cases hlen
    | cons y ys =>
      obtain ⟨hs, hc'⟩ := A.sub_spec x y c hc
      obtain ⟨hr, hle⟩ := ih (by simpa using hlen) hc'
      refine ⟨?_, hle⟩
      simp only [subb, value_cons, List.length_cons, Nat.mul_add, Nat.mul_one, Nat.pow_add]
      linear_combination hs + 2 ^ 64 * hr

/-! ### Products -/

/-- One word of a row: adds `a * b` and the carry to `t`. -/
def mulAdd64 (A : WordOps) (a b t carry : UInt64) : UInt64 × UInt64 :=
  let p := A.mul a b
  let s := A.add t p.2 0
  let s' := A.add s.1 carry 0
  (s'.1, p.1 + s.2 + s'.2)

/-- A row: adds `a * ys` to the words of `ts`. -/
def mulAdd (A : WordOps) (a : UInt64) : List UInt64 → List UInt64 → UInt64 → List UInt64 × UInt64
  | t :: ts, y :: ys, carry =>
    let (s, carry) := mulAdd64 A a y t carry
    let (r, carry) := mulAdd A a ts ys carry
    (s :: r, carry)
  | _, _, carry => ([], carry)

/-- Adds to the first word. -/
def addHead : List UInt64 → UInt64 → List UInt64
  | t :: ts, c => (t + c) :: ts
  | [], _ => []

/-- The rows of a product, each added one word higher than the one before; `ts` are the words of the
product from the place of the first row. -/
def mulRows (A : WordOps) (ys : List UInt64) : List UInt64 → List UInt64 → List UInt64
  | [], ts => ts
  | x :: xs, ts =>
    let (r, carry) := mulAdd A x (ts.take ys.length) ys 0
    match r ++ addHead (ts.drop ys.length) carry with
    | [] => []
    | t :: ts => t :: mulRows A ys xs ts

/-- The product of a number and a word, one word longer. -/
def mulWord (A : WordOps) (b : UInt64) : List UInt64 → UInt64 → List UInt64
  | [], carry => [carry]
  | x :: xs, carry =>
    let p := A.mul x b
    let s := A.add p.2 carry 0
    s.1 :: mulWord A b xs (p.1 + s.2)

lemma mulAdd64_spec (a b t carry : UInt64) :
    (mulAdd64 A a b t carry).1.toNat + 2 ^ 64 * (mulAdd64 A a b t carry).2.toNat =
      t.toNat + a.toNat * b.toNat + carry.toNat := by
  have ht := t.toNat_lt
  have hcarry := carry.toNat_lt
  have hle := mul_toNat_le a b
  have hmul := A.mul_spec a b
  obtain ⟨h1, hc1⟩ := A.add_spec t (A.mul a b).2 0 (by simp)
  obtain ⟨h2, hc2⟩ := A.add_spec (A.add t (A.mul a b).2 0).1 carry 0 (by simp)
  -- the sum is below `2 ^ 128`, so its high word does not wrap
  simp only [UInt64.toNat_zero] at h1 h2
  simp only [mulAdd64, UInt64.toNat_add]
  omega

lemma length_mulAdd {a : UInt64} {ts : List UInt64} (hlen : ts.length = ys.length) :
    (mulAdd A a ts ys c).1.length = ts.length := by
  induction ts generalizing ys c with
  | nil => rfl
  | cons t ts ih =>
    cases ys with
    | nil => cases hlen
    | cons y ys => simpa [mulAdd] using ih (by simpa using hlen)

lemma mulAdd_spec {a : UInt64} {ts : List UInt64} (hlen : ts.length = ys.length) :
    value (mulAdd A a ts ys c).1 + 2 ^ (64 * ts.length) * (mulAdd A a ts ys c).2.toNat =
      value ts + a.toNat * value ys + c.toNat := by
  induction ts generalizing ys c with
  | nil =>
    obtain rfl := List.length_eq_zero_iff.mp hlen.symm
    simp [mulAdd]
  | cons t ts ih =>
    cases ys with
    | nil => cases hlen
    | cons y ys =>
      have hs := mulAdd64_spec A a y t c
      have hr := @ih ys (mulAdd64 A a y t c).2 (by simpa using hlen)
      simp only [mulAdd, value_cons, List.length_cons, Nat.mul_add, Nat.mul_one, Nat.pow_add]
      linear_combination hs + 2 ^ 64 * hr

lemma length_mulRows {ts : List UInt64} (hlen : ts.length = ys.length + xs.length) :
    (mulRows A ys xs ts).length = ts.length := by
  induction xs generalizing ts with
  | nil => rfl
  | cons x xs ih =>
    have htake : (ts.take ys.length).length = ys.length := by
      simp only [List.length_cons] at hlen
      rw [List.length_take]
      omega
    have hadd : ∀ l d, (addHead l d).length = l.length := by
      intro l d
      cases l <;> rfl
    have hrow : ((mulAdd A x (ts.take ys.length) ys 0).1 ++
        addHead (ts.drop ys.length) (mulAdd A x (ts.take ys.length) ys 0).2).length =
            ts.length := by
      rw [List.length_append, length_mulAdd A htake, hadd, htake, List.length_drop]
      simp only [List.length_cons] at hlen
      omega
    simp only [mulRows]
    cases hsplit : (mulAdd A x (ts.take ys.length) ys 0).1 ++
        addHead (ts.drop ys.length) (mulAdd A x (ts.take ys.length) ys 0).2 with
    | nil =>
      rw [hsplit] at hrow
      exact hrow
    | cons t rest =>
      rw [hsplit] at hrow
      simp only [List.length_cons] at hlen hrow ⊢
      rw [ih (by omega)]
      exact hrow

@[simp] lemma value_replicate_zero (n : ℕ) : value (List.replicate n 0) = 0 := by
  induction n with
  | zero => rfl
  | succ n ih => rw [List.replicate_succ, value_cons, ih, UInt64.toNat_zero, Nat.mul_zero]

lemma mulRows_spec {ts : List UInt64} (hlen : ts.length = ys.length) :
    value (mulRows A ys xs (ts ++ List.replicate xs.length 0)) =
      value ts + value xs * value ys := by
  induction xs generalizing ts with
  | nil => simp [mulRows]
  | cons x xs ih =>
    have hspec := mulAdd_spec A (a := x) (c := 0) hlen
    have hrow : (mulAdd A x ts ys 0).1.length = ts.length := length_mulAdd A hlen
    have hhead : addHead (List.replicate (xs.length + 1) 0) (mulAdd A x ts ys 0).2 =
        [(mulAdd A x ts ys 0).2] ++ List.replicate xs.length 0 := by
      simp [List.replicate_succ, addHead]
    simp only [mulRows, List.length_cons, ← hlen, List.take_left, List.drop_left, hhead,
      ← List.append_assoc]
    cases hsplit : (mulAdd A x ts ys 0).1 ++ [(mulAdd A x ts ys 0).2] with
    | nil => simp at hsplit
    | cons t rest =>
      have hval : value (t :: rest) = value ts + x.toNat * value ys := by
        rw [← hsplit, value_append, hrow, value_cons, value_nil, Nat.mul_zero, Nat.add_zero, hspec,
          UInt64.toNat_zero, Nat.add_zero]
      have hrest : rest.length = ys.length := by
        have := congrArg List.length hsplit
        simp only [List.length_append, List.length_cons, List.length_nil] at this
        omega
      simp only [List.cons_append, value_cons, ih hrest]
      rw [value_cons] at hval
      linear_combination hval

lemma length_mulWord {b : UInt64} : (mulWord A b xs c).length = xs.length + 1 := by
  induction xs generalizing c with
  | nil => rfl
  | cons x xs ih => simp [mulWord, ih]

lemma mulWord_spec {b : UInt64} : value (mulWord A b xs c) = value xs * b.toNat + c.toNat := by
  induction xs generalizing c with
  | nil => simp [mulWord]
  | cons x xs ih =>
    have hc := c.toNat_lt
    have hle := mul_toNat_le x b
    have hmul := A.mul_spec x b
    obtain ⟨h1, hc1⟩ := A.add_spec (A.mul x b).2 c 0 (by simp)
    simp only [UInt64.toNat_zero] at h1
    have hcarry : ((A.mul x b).1 + (A.add (A.mul x b).2 c 0).2).toNat =
        (A.mul x b).1.toNat + (A.add (A.mul x b).2 c 0).2.toNat := by
      rw [UInt64.toNat_add]
      omega
    simp only [mulWord, value_cons, ih, hcarry]
    linear_combination h1 + hmul

/-- The words of `xs` where the mask is set and those of `ys` where it is not. -/
def select (mask : UInt64) (xs ys : List UInt64) : List UInt64 :=
  List.zipWith (fun x y => (x &&& mask) ||| (y &&& ~~~mask)) xs ys

lemma length_select {mask : UInt64} (hlen : xs.length = ys.length) :
    (select mask xs ys).length = xs.length := by
  simp [select, hlen]

lemma select_ones (hlen : xs.length = ys.length) : select (0 - 1) xs ys = xs := by
  induction xs generalizing ys with
  | nil => rfl
  | cons x xs ih =>
    cases ys with
    | nil => cases hlen
    | cons y ys =>
      have hhead : (x &&& (0 - 1)) ||| (y &&& ~~~(0 - 1)) = x := by simp
      simpa [select, hhead] using ih (by simpa using hlen)

lemma select_zero (hlen : xs.length = ys.length) : select 0 xs ys = ys := by
  induction xs generalizing ys with
  | nil => exact (List.length_eq_zero_iff.mp hlen.symm).symm
  | cons x xs ih =>
    cases ys with
    | nil => cases hlen
    | cons y ys =>
      have hhead : (x &&& 0) ||| (y &&& ~~~0) = y := by simp
      simpa [select, hhead] using ih (by simpa using hlen)

/-- Compares two numbers given from their highest words. -/
def geq : List UInt64 → List UInt64 → Bool
  | x :: xs, y :: ys => if x ≠ y then x > y else geq xs ys
  | _, _ => true

lemma high_lt {u v a c b : ℕ} (hu : u < b) (hac : a < c) : u + b * a < v + b * c := by
  calc u + b * a < b + b * a := Nat.add_lt_add_right hu _
    _ = b * (a + 1) := by ring
    _ ≤ b * c := Nat.mul_le_mul_left b hac
    _ ≤ v + b * c := Nat.le_add_left _ _

lemma geq_iff (hlen : xs.length = ys.length) :
    geq xs ys = true ↔ value ys.reverse ≤ value xs.reverse := by
  induction xs generalizing ys with
  | nil =>
    obtain rfl := List.length_eq_zero_iff.mp hlen.symm
    simp [geq]
  | cons x xs ih =>
    cases ys with
    | nil => cases hlen
    | cons y ys =>
      have hlen' : xs.length = ys.length := by simpa using hlen
      have hxs := value_lt xs.reverse
      have hys := value_lt ys.reverse
      have hih := ih hlen'
      simp only [geq, List.reverse_cons, value_append, value_cons, value_nil, List.length_reverse,
        hlen', Nat.mul_zero, Nat.add_zero] at hxs hys ⊢
      generalize 2 ^ (64 * ys.length) = b at hxs hys ⊢
      by_cases hxy : x = y
      · rw [if_neg (not_not.mpr hxy), hih, hxy]
        omega
      · rw [if_pos hxy, decide_eq_true_iff, gt_iff_lt, UInt64.lt_iff_toNat_lt]
        have hne : x.toNat ≠ y.toNat := fun h => hxy (UInt64.toNat_inj.mp h)
        constructor
        · intro h
          exact (high_lt hys h).le
        · intro h
          by_contra hle
          exact absurd (high_lt (v := value ys.reverse) hxs (by omega : x.toNat < y.toNat))
            (not_lt.mpr h)

lemma foldl_or_eq_zero {v : UInt64} : xs.foldl (· ||| ·) v = 0 ↔ v = 0 ∧ value xs = 0 := by
  induction xs generalizing v with
  | nil => simp
  | cons x xs ih =>
    have hx : x = 0 ↔ x.toNat = 0 := UInt64.toNat_inj.symm
    have hval : value (x :: xs) = 0 ↔ x.toNat = 0 ∧ value xs = 0 := by
      rw [value_cons]
      omega
    rw [List.foldl_cons, ih, UInt64.or_eq_zero_iff, hval, hx, and_assoc]

/-- The bits below `i` of a word, from the highest. -/
def bitsBelow (w : UInt64) : ℕ → List Bool
  | 0 => []
  | i + 1 => ((w >>> UInt64.ofNat i) &&& 1 == 1) :: bitsBelow w i

/-- The bits of a number in the order of a loop over words and bits, both from the highest. -/
def bits (ws : List UInt64) : List Bool := ws.reverse.flatMap fun w => bitsBelow w 64

lemma bitsBelow_eq (w : UInt64) {n : ℕ} (hn : n ≤ 64) : bitsBelow w n = Ladder.bits w.toNat n := by
  induction n with
  | zero => rfl
  | succ n ih =>
    have hshift : ((w >>> UInt64.ofNat n) &&& 1).toNat = w.toNat >>> n % 2 := by
      rw [UInt64.toNat_and, UInt64.toNat_shiftRight,
        UInt64.toNat_ofNat_of_lt' (by change n < 2 ^ 64; omega),
        Nat.mod_eq_of_lt (by omega : n < 64), UInt64.toNat_one, Nat.and_one_is_mod]
    have hbit : ((w >>> UInt64.ofNat n) &&& 1 == 1) = w.toNat.testBit n := by
      rw [Bool.eq_iff_iff, beq_iff_eq, ← UInt64.toNat_inj, hshift, Nat.testBit_eq_decide_div_mod_eq,
        decide_eq_true_iff, Nat.shiftRight_eq_div_pow, UInt64.toNat_one]
    rw [bitsBelow, Ladder.bits, hbit, ih (by omega)]

lemma foldl_push_bits (ws : List UInt64) : (bits ws).foldl Ladder.push 0 = value ws := by
  induction ws with
  | nil => rfl
  | cons w ws ih =>
    have hsplit : bits (w :: ws) = bits ws ++ bitsBelow w 64 := by simp [bits]
    rw [hsplit, List.foldl_append, ih, bitsBelow_eq w le_rfl, Ladder.foldl_push_bits,
      Nat.mod_eq_of_lt w.toNat_lt, value_cons]
    ring

/-- `binary.BigEndian.Uint64(b[i:])`. -/
def uint64BE (b : Bytes) (i : ℕ) : UInt64 := UInt64.ofNat (ofBytesBE ((b.drop i).take 8))

lemma uint64BE_toNat (b : Bytes) (i : ℕ) :
    (uint64BE b i).toNat = ofBytesBE ((b.drop i).take 8) := by
  refine UInt64.toNat_ofNat_of_lt' (lt_of_lt_of_le (ofBytesBE_lt _) ?_)
  change _ ≤ 2 ^ 64
  rw [show (2 : ℕ) ^ 64 = 256 ^ 8 by norm_num]
  exact Nat.pow_le_pow_right (by omega) (List.length_take_le _ _)

/-- The four words of 32 bytes. -/
def ofBytes (b : Bytes) : List UInt64 := [uint64BE b 24, uint64BE b 16, uint64BE b 8, uint64BE b 0]

lemma value_ofBytes {b : Bytes} (hb : b.length = 32) : value (ofBytes b) = ofBytesBE b := by
  have hsplit :
      b = b.take 8 ++ ((b.drop 8).take 8 ++ ((b.drop 16).take 8 ++ (b.drop 24).take 8)) := by
    have h24 : (b.drop 24).take 8 = b.drop 24 := List.take_of_length_le (by simp [hb])
    rw [h24, ← List.drop_drop (i := 8) (j := 16), List.take_append_drop,
      ← List.drop_drop (i := 8) (j := 8), List.take_append_drop, List.take_append_drop]
  simp only [ofBytes, value_cons, value_nil, uint64BE_toNat, List.drop_zero]
  conv_rhs => rw [hsplit]
  simp only [ofBytesBE_append, List.length_append, List.length_take, List.length_drop, hb]
  norm_num
  ring

end MemServe.Words
