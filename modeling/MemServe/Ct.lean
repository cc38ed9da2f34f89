import MemServe.Secp256k1
import MemServe.Words

/-!
Field and point arithmetic on secp256k1 in 64-bit words: complete projective addition, and the
multiplication that signing uses for its secret scalar.

The kernel on the GPU has the same field and point functions over word operations of its own, so
these take the word operations as a parameter. `2 ^ 256` is `feC` modulo the field order.
-/

namespace MemServe.Crypto

open Words

/-- An array `[4]uint64`, least significant word first. -/
structure Fe where
  words : List UInt64
  length_words : words.length = 4
  deriving DecidableEq

def Fe.of (w0 w1 w2 w3 : UInt64) : Fe := ⟨[w0, w1, w2, w3], rfl⟩

/-- The field order. -/
def pl : Fe := .of 0xFFFFFFFEFFFFFC2F 0xFFFFFFFFFFFFFFFF 0xFFFFFFFFFFFFFFFF 0xFFFFFFFFFFFFFFFF

def feC : UInt64 := 0x1000003D1

/-- `p - 2`. -/
def pm2 : Fe := .of 0xFFFFFFFEFFFFFC2D 0xFFFFFFFFFFFFFFFF 0xFFFFFFFFFFFFFFFF 0xFFFFFFFFFFFFFFFF

/-- `3 * b`. -/
def feB3 : Fe := .of 21 0 0 0

/-- Projective coordinates. -/
structure Jac where
  X : Fe
  Y : Fe
  Z : Fe
  deriving DecidableEq

def identity : Jac := ⟨.of 0 0 0 0, .of 1 0 0 0, .of 0 0 0 0⟩

namespace Limbs

variable (A : WordOps)

/-- The sum of two numbers of four words, with the carry. -/
def addc (a b : Fe) : Fe × UInt64 :=
  (⟨(Words.addc A a.words b.words 0).1, by rw [length_addc A (by rw [a.2, b.2]), a.2]⟩,
    (Words.addc A a.words b.words 0).2)

/-- The difference of two numbers of four words, with the borrow. -/
def subb (a b : Fe) : Fe × UInt64 :=
  (⟨(Words.subb A a.words b.words 0).1, by rw [length_subb A (by rw [a.2, b.2]), a.2]⟩,
    (Words.subb A a.words b.words 0).2)

def select (mask : UInt64) (a b : Fe) : Fe :=
  ⟨Words.select mask a.words b.words, by rw [length_select (by rw [a.2, b.2]), a.2]⟩

/-- `feCondSubP`: `a - p` if there is no borrow, and `a` if there is. -/
def condSubP (a : Fe) : Fe :=
  let (r, b) := subb A a pl
  select (b - 1) r a

/-- Adds `c * 2 ^ 256`. -/
def fold (r : Fe) (c : UInt64) : Fe × UInt64 := addc A r (.of (c * feC) 0 0 0)

def add (a b : Fe) : Fe :=
  let (r, c) := addc A a b
  let (r, c) := fold A r c
  let (r, _) := fold A r c
  condSubP A r

def sub (a b : Fe) : Fe :=
  let (r, br) := subb A a b
  -- the field order is added if there was a borrow
  let mask := 0 - br
  (addc A r ⟨pl.words.map (· &&& mask), rfl⟩).1

/-- The eight words of a product, as low and high half. -/
def mulWide (a b : Fe) : Fe × Fe :=
  let t := mulRows A b.words a.words (List.replicate 8 0)
  have ht : t.length = 8 := by rw [length_mulRows A (by rw [a.2, b.2]; rfl)]; rfl
  (⟨t.take 4, by rw [List.length_take, ht]; rfl⟩, ⟨t.drop 4, by rw [List.length_drop, ht]⟩)

/-- `mul256by64`: the low four words and the fifth. -/
def mul256by64 (a : Fe) (b : UInt64) : Fe × UInt64 :=
  let m := mulWord A b a.words 0
  have hm : m.length = 5 := by rw [length_mulWord A, a.2]
  (⟨m.take 4, by rw [List.length_take, hm]; rfl⟩, m.getLastD 0)

def mul (a b : Fe) : Fe :=
  let (lo, hi) := mulWide A a b
  let (m, m4) := mul256by64 A hi feC
  let (r, c) := addc A lo m
  let r4 := m4 + c
  -- fold the word above
  let (h4, l4) := A.mul r4 feC
  let (r, c) := addc A r (.of l4 h4 0 0)
  -- fold a last carry
  let (r, _) := fold A r c
  condSubP A r

/-- `a ^ exp`, over the bits of the exponent from the highest. A square is a product (`feSqr`). -/
def pow (a exp : Fe) : Fe :=
  (bits exp.words).foldl (fun res b =>
    let res := mul A res res
    if b then mul A res a else res) (.of 1 0 0 0)

def inv (a : Fe) : Fe := pow A a pm2

/-- Complete addition for `a = 0`. -/
def completeAdd (p q : Jac) : Jac :=
  let t0 := mul A p.X q.X
  let t1 := mul A p.Y q.Y
  let t2 := mul A p.Z q.Z
  let t3 := add A p.X p.Y
  let t4 := add A q.X q.Y
  let t3 := mul A t3 t4
  let t4 := add A t0 t1
  let t3 := sub A t3 t4
  let t4 := add A p.Y p.Z
  let X3 := add A q.Y q.Z
  let t4 := mul A t4 X3
  let X3 := add A t1 t2
  let t4 := sub A t4 X3
  let X3 := add A p.X p.Z
  let Y3 := add A q.X q.Z
  let X3 := mul A X3 Y3
  let Y3 := add A t0 t2
  let Y3 := sub A X3 Y3
  let X3 := add A t0 t0
  let t0 := add A X3 t0
  let t2 := mul A feB3 t2
  let Z3 := add A t1 t2
  let t1 := sub A t1 t2
  let Y3 := mul A feB3 Y3
  let X3 := mul A t4 Y3
  let t2 := mul A t3 t1
  let X3 := sub A t2 X3
  let Y3 := mul A Y3 t0
  let t1 := mul A t1 Z3
  let Y3 := add A t1 Y3
  let t0 := mul A t0 t3
  let Z3 := mul A Z3 t4
  let Z3 := add A Z3 t0
  ⟨X3, Y3, Z3⟩

/-- The first affine coordinate. -/
def affineX (P : Jac) : Fe := mul A P.X (inv A P.Z)

end Limbs

/-! ### The signer's side -/

/-- `bits.Add64`: the sum of three words, with the carry. -/
def add64 (x y carry : UInt64) : UInt64 × UInt64 :=
  (x + y + carry, if x.toNat + y.toNat + carry.toNat < 2 ^ 64 then 0 else 1)

/-- `bits.Sub64`: the difference, with the borrow. -/
def sub64 (x y borrow : UInt64) : UInt64 × UInt64 :=
  (x - y - borrow, if x.toNat < y.toNat + borrow.toNat then 1 else 0)

/-- `bits.Mul64`: the high and the low word of the product. -/
def mul64 (x y : UInt64) : UInt64 × UInt64 := (UInt64.ofNat (x.toNat * y.toNat / 2 ^ 64), x * y)

lemma add64_spec (x y c : UInt64) (hc : c.toNat ≤ 1) :
    (add64 x y c).1.toNat + 2 ^ 64 * (add64 x y c).2.toNat = x.toNat + y.toNat + c.toNat ∧
      (add64 x y c).2.toNat ≤ 1 := by
  have hx := x.toNat_lt
  have hy := y.toNat_lt
  simp only [add64, UInt64.toNat_add]
  split_ifs with h
  · simp only [UInt64.toNat_zero]
    omega
  · simp only [UInt64.toNat_one]
    omega

lemma sub64_spec (x y c : UInt64) (hc : c.toNat ≤ 1) :
    (sub64 x y c).1.toNat + y.toNat + c.toNat = x.toNat + 2 ^ 64 * (sub64 x y c).2.toNat ∧
      (sub64 x y c).2.toNat ≤ 1 := by
  have hx := x.toNat_lt
  have hy := y.toNat_lt
  simp only [sub64, UInt64.toNat_sub]
  split_ifs with h
  · simp only [UInt64.toNat_one]
    omega
  · simp only [UInt64.toNat_zero]
    omega

lemma mul64_spec (x y : UInt64) :
    (mul64 x y).2.toNat + 2 ^ 64 * (mul64 x y).1.toNat = x.toNat * y.toNat := by
  have h := mul_toNat_le x y
  simp only [mul64, UInt64.toNat_mul]
  rw [UInt64.toNat_ofNat_of_lt' (by change _ < 2 ^ 64; omega)]
  omega

/-- The word operations of `math/bits`. -/
def goOps : WordOps where
  add := add64
  sub := sub64
  mul := mul64
  add_spec := add64_spec
  sub_spec := sub64_spec
  mul_spec := mul64_spec

def feCondSubP := Limbs.condSubP goOps
def feAdd := Limbs.add goOps
def feSub := Limbs.sub goOps
def mul256by64 := Limbs.mul256by64 goOps
def feMul := Limbs.mul goOps
def feInv := Limbs.inv goOps

def completeAdd := Limbs.completeAdd goOps

/-- An element from a number that `FillBytes` takes. -/
def feFromBig (x : ℤ) : Fe := ⟨ofBytes (beBytes 32 x.toNat), rfl⟩

def Fe.big (f : Fe) : ℕ := ofBytesBE (f.words.reverse.flatMap fun w => beBytes 8 w.toNat)

def scalarBits (k : ℕ) : Fe := ⟨ofBytes (beBytes 32 k), rfl⟩

/-- `a` if `choose` is 1 and `b` if it is 0. -/
def feCSelect (choose : UInt64) (a b : Fe) : Fe := Limbs.select (0 - choose) a b

def jacCSelect (choose : UInt64) (a b : Jac) : Jac :=
  ⟨feCSelect choose a.X b.X, feCSelect choose a.Y b.Y, feCSelect choose a.Z b.Z⟩

def ctBaseG : Jac := ⟨feFromBig curveGx, feFromBig curveGy, .of 1 0 0 0⟩

/-- Doubles and adds for every bit, and keeps the sum for a bit that is set. -/
def scalarMultCT (kBits : Fe) (P : Jac) : Jac :=
  (bits kBits.words).foldl (fun R b =>
    let R := completeAdd R R
    let T := completeAdd R P
    jacCSelect b.toUInt64 T R) identity

def Jac.affineX (P : Jac) : Fe := Limbs.affineX goOps P

def Jac.affineXY (P : Jac) : Fe × Fe :=
  let zi := feInv P.Z
  (feMul P.X zi, feMul P.Y zi)

end MemServe.Crypto
