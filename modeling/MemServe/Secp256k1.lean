import Mathlib.Data.Int.Notation
import Mathlib.Data.Nat.Size
import MemServe.Bytes

/-!
ECDSA over secp256k1: affine point arithmetic on big integers, and the verifier.

A point is a pair of coordinates and `none` is the point at infinity, the source's pair of nil
pointers. `big.Int.Mod` is the Euclidean remainder, as `%` on `ℤ` is.
-/

namespace MemServe.Crypto

def curveP : ℤ := 0xFFFFFFFFFFFFFFFFFFFFFFFFFFFFFFFFFFFFFFFFFFFFFFFFFFFFFFFEFFFFFC2F
def curveN : ℤ := 0xFFFFFFFFFFFFFFFFFFFFFFFFFFFFFFFEBAAEDCE6AF48A03BBFD25E8CD0364141
def curveB : ℤ := 7
def curveGx : ℤ := 0x79BE667EF9DCBBAC55A06295CE870B07029BFCDB2DCE28D959F2815B16F81798
def curveGy : ℤ := 0x483ADA7726A3C4655DA4FBFC0E1108A8FD17B448A68554199C47D08FFB10D4B8
def nHalf : ℤ := curveN / 2

abbrev Point := Option (ℤ × ℤ)

structure PublicKey where
  x : ℤ
  y : ℤ
  deriving DecidableEq

structure Signature where
  r : ℤ
  s : ℤ
  deriving DecidableEq

/-- Euclid's algorithm on `r0` and `r1`. The coefficients of the first number are kept without
their signs, which alternate: `even` says that the sign of `s0` is positive. -/
def euclid : ℕ → ℕ → ℕ → ℕ → ℕ → Bool → ℕ × ℕ × Bool
  | 0, r0, _, s0, _, even => (r0, s0, even)
  | _ + 1, r0, 0, s0, _, even => (r0, s0, even)
  | k + 1, r0, r1 + 1, s0, s1, even =>
    euclid k (r1 + 1) (r0 % (r1 + 1)) s1 (s0 + r0 / (r1 + 1) * s1) (!even)

/-- `big.Int.ModInverse`, for a modulus below `2 ^ 256`: two steps halve the larger number, so the
algorithm ends within the steps it is given. -/
def modInverse (g n : ℤ) : Option ℤ :=
  match euclid 600 (g % n).toNat n.toNat 1 0 true with
  | (1, s, true) => some (s % n)
  | (1, s, false) => some ((n - s) % n)
  | _ => none

/-- The slope `num / den`. Where `den` has no inverse, `ModInverse` leaves it as it is. -/
def slope (num den : ℤ) : ℤ := num * (modInverse den curveP).getD den % curveP

def pointDouble : Point → Point
  | none => none
  | some (x1, y1) =>
    if y1 = 0 then none
    else
      let lam := slope (x1 * x1 * 3) (2 * y1)
      let x3 := (lam * lam - 2 * x1) % curveP
      let y3 := ((x1 - x3) * lam - y1) % curveP
      some (x3, y3)

def pointAdd : Point → Point → Point
  | none, q => q
  | p, none => p
  | some (x1, y1), some (x2, y2) =>
    if x1 = x2 then
      if y1 = y2 then pointDouble (some (x1, y1)) else none
    else
      let lam := slope (y2 - y1) (x2 - x1)
      let x3 := (lam * lam - x1 - x2) % curveP
      let y3 := ((x1 - x3) * lam - y1) % curveP
      some (x3, y3)

/-- The loop of `scalarMult` over the bits below `i`, from the highest. -/
def scalarLoop (k : ℕ) (q : Point) : ℕ → Point → Point
  | 0, r => r
  | i + 1, r =>
    let r := pointDouble r
    scalarLoop k q i (if k.testBit i then pointAdd r q else r)

def scalarMult (k : ℕ) (q : Point) : Point := scalarLoop k q k.size none

def scalarBaseMult (k : ℕ) : Point := scalarMult k (some (curveGx, curveGy))

def onCurve (x y : ℤ) : Bool :=
  if x < 0 ∨ y < 0 ∨ curveP ≤ x ∨ curveP ≤ y then false
  else y * y % curveP == (x * x * x + curveB) % curveP

/-- The public key of a scalar; there is none for a multiple of the order. -/
def publicKey (d : ℕ) : Option PublicKey := (scalarBaseMult d).map fun p => ⟨p.1, p.2⟩

/-- The 33-byte form of a key. -/
def PublicKey.serializeCompressed (p : PublicKey) : Bytes :=
  (if p.y % 2 = 0 then 0x02 else 0x03) :: beBytes 32 p.x.natAbs

/-- Keys are compared by their serialised forms. -/
def PublicKey.equal (p other : PublicKey) : Bool :=
  p.serializeCompressed == other.serializeCompressed

def bits2int (b : Bytes) (qlen : ℕ) : ℕ := ofBytesBE b >>> (b.length * 8 - qlen)

/-- Whether `sig` is a signature of `hash` under `pub`. -/
def verify (pub : PublicKey) (hash : Bytes) (sig : Signature) : Bool :=
  if !onCurve pub.x pub.y then false
  else if sig.r ≤ 0 ∨ curveN ≤ sig.r ∨ sig.s ≤ 0 ∨ curveN ≤ sig.s then false
  else
    let z : ℤ := bits2int hash 256
    match modInverse sig.s curveN with
    -- the order is prime, so a scalar in range has an inverse
    | none => false
    | some w =>
      let u1 := z * w % curveN
      let u2 := sig.r * w % curveN
      match pointAdd (scalarBaseMult u1.toNat) (scalarMult u2.toNat (some (pub.x, pub.y))) with
      | none => false
      | some (x, _) => x % curveN == sig.r

/-- The 64-byte form of a signature of two numbers of 32 bytes. -/
def Signature.serialize (sig : Signature) : Bytes :=
  beBytes 32 sig.r.natAbs ++ beBytes 32 sig.s.natAbs

/-- Whether `S` is in the lower half of the order. -/
def Signature.isLowS (sig : Signature) : Bool := sig.s ≤ nHalf

inductive SignatureError
  | length
  deriving DecidableEq

def parseSignature (b : Bytes) : Except SignatureError Signature :=
  if b.length ≠ 64 then .error .length
  else .ok ⟨ofBytesBE (b.take 32), ofBytesBE (b.drop 32)⟩

/-- The form of a signature with the opposite `S`. -/
def malleate (sig64 : Bytes) : Except SignatureError Bytes := do
  let s ← parseSignature sig64
  let ns := curveN - s.s
  .ok (⟨s.r, ns⟩ : Signature).serialize

end MemServe.Crypto
