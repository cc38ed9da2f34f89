import MemServe.Accel
import MemServe.Ct

/-!
The verifier on the GPU: the kernel, its launcher over several devices, and the backend in front of
them.

The field and point functions are those of the signer over word operations of the kernel's own. What
the kernel has besides are scalars modulo the group order, decompression of keys and the
verification itself. A pointer into a buffer is the list of the bytes from there on.
-/

namespace MemServe.Cuda

open Crypto Words

def addc (a b cin : UInt64) : UInt64 × UInt64 :=
  let s := a + b
  let c1 : UInt64 := if s < a then 1 else 0
  let s2 := s + cin
  let c2 : UInt64 := if s2 < s then 1 else 0
  (s2, c1 + c2)

def subb (a b bin : UInt64) : UInt64 × UInt64 :=
  let d := a - b
  let b1 : UInt64 := if a < b then 1 else 0
  let d2 := d - bin
  let b2 : UInt64 := if d < bin then 1 else 0
  (d2, b1 + b2)

/-- `__umul64hi`: the high word of a product. -/
def umul64hi (a b : UInt64) : UInt64 := UInt64.ofNat (a.toNat * b.toNat / 2 ^ 64)

lemma addc_spec (a b c : UInt64) (hc : c.toNat ≤ 1) :
    (addc a b c).1.toNat + 2 ^ 64 * (addc a b c).2.toNat = a.toNat + b.toNat + c.toNat ∧
      (addc a b c).2.toNat ≤ 1 := by
  have ha := a.toNat_lt
  have hb := b.toNat_lt
  simp only [addc, UInt64.lt_iff_toNat_lt, UInt64.toNat_add]
  split_ifs <;> simp only [UInt64.toNat_zero, UInt64.toNat_one] <;> omega

lemma subb_spec (a b c : UInt64) (hc : c.toNat ≤ 1) :
    (subb a b c).1.toNat + b.toNat + c.toNat = a.toNat + 2 ^ 64 * (subb a b c).2.toNat ∧
      (subb a b c).2.toNat ≤ 1 := by
  have ha := a.toNat_lt
  have hb := b.toNat_lt
  simp only [subb, UInt64.lt_iff_toNat_lt, UInt64.toNat_sub, UInt64.toNat_add]
  split_ifs <;> simp only [UInt64.toNat_zero, UInt64.toNat_one] <;> omega

/-- The word operations of the kernel. -/
def kernelOps : WordOps where
  add := addc
  sub := subb
  mul a b := (umul64hi a b, a * b)
  add_spec := addc_spec
  sub_spec := subb_spec
  mul_spec := mul64_spec

/-- `(p + 1) / 4`. -/
def psqrt : Fe := .of 0xFFFFFFFFBFFFFF0C 0xFFFFFFFFFFFFFFFF 0xFFFFFFFFFFFFFFFF 0x3FFFFFFFFFFFFFFF

def feAdd := Limbs.add kernelOps
def feSub := Limbs.sub kernelOps
def feMul := Limbs.mul kernelOps
def fePow := Limbs.pow kernelOps
def feSet (v : UInt64) : Fe := .of v 0 0 0
def feIsZero (a : Fe) : Bool := a.words.foldl (· ||| ·) 0 == 0
def feEq (a b : Fe) : Bool := a.words == b.words

def pointAdd := Limbs.completeAdd kernelOps
def affineX := Limbs.affineX kernelOps

/-- Doubles for every bit, and adds for a bit that is set. -/
def scalarMult (k : Fe) (P : Jac) : Jac :=
  (bits k.words).foldl (fun acc b =>
    let acc := pointAdd acc acc
    if b then pointAdd acc P else acc) identity

/-- The group order. -/
def nl : Fe := .of 0xBFD25E8CD0364141 0xBAAEDCE6AF48A03B 0xFFFFFFFFFFFFFFFE 0xFFFFFFFFFFFFFFFF

/-- `n - 2`. -/
def nm2 : Fe := .of 0xBFD25E8CD036413F 0xBAAEDCE6AF48A03B 0xFFFFFFFFFFFFFFFE 0xFFFFFFFFFFFFFFFF

def scGeq (a b : Fe) : Bool := geq a.words.reverse b.words.reverse
def scIsZero (a : Fe) : Bool := a.words.foldl (· ||| ·) 0 == 0
def scEq (a b : Fe) : Bool := a.words == b.words

/-- `a - n`, without the borrow. -/
def scSubN (a : Fe) : Fe := (Limbs.subb kernelOps a nl).1

/-- One subtraction, for a number that has reached the order. -/
def scReduce (a : Fe) : Fe := if scGeq a nl then scSubN a else a

def addModN (a b : Fe) : Fe :=
  let (r, c) := Limbs.addc kernelOps a b
  if c ≠ 0 ∨ scGeq r nl then scSubN r else r

def mulmodN (a b : Fe) : Fe :=
  (bits a.words).foldl (fun acc bit =>
    let acc := addModN acc acc
    if bit then addModN acc b else acc) (.of 0 0 0 0)

def powmodN (base exp : Fe) : Fe :=
  (bits exp.words).foldl (fun res bit =>
    let res := mulmodN res res
    if bit then mulmodN res base else res) (.of 1 0 0 0)

def invN (a : Fe) : Fe := powmodN a nm2

/-! ### Verification -/

/-- A word from its bytes, the highest first. -/
def beWord (p : Bytes) : UInt64 := p.foldl (fun v b => (v <<< 8) ||| b.toUInt64) 0

def be32ToLimbs (b : Bytes) : Fe :=
  let limb := fun i => beWord ((b.drop ((3 - i) * 8)).take 8)
  .of (limb 0) (limb 1) (limb 2) (limb 3)

def gx : Fe := .of 0x59F2815B16F81798 0x029BFCDB2DCE28D9 0x55A06295CE870B07 0x79BE667EF9DCBBAC
def gy : Fe := .of 0x9C47D08FFB10D4B8 0xFD17B448A6855419 0x5DA4FBFC0E1108A8 0x483ADA7726A3C465

/-- The point of a key in its 33-byte form. -/
def decompress (pub : Bytes) : Option Jac :=
  if pub.headD 0 ≠ 0x02 ∧ pub.headD 0 ≠ 0x03 then none
  else
    let x := be32ToLimbs (pub.drop 1)
    if scGeq x pl then none
    else
      let x2 := feMul x x
      let x3 := feMul x2 x
      let rhs := feAdd x3 (feSet 7)
      let y := fePow rhs psqrt
      let chk := feMul y y
      if !feEq chk rhs then none
      else
        let wantOdd : UInt64 := if pub.headD 0 = 0x03 then 1 else 0
        let y := if y.words.headD 0 &&& 1 ≠ wantOdd then feSub (feSet 0) y else y
        some ⟨x, y, feSet 1⟩

def verifyOne (pub hash sig : Bytes) : Bool :=
  let r := be32ToLimbs sig
  let s := be32ToLimbs (sig.drop 32)
  if scIsZero r || scGeq r nl then false
  else if scIsZero s || scGeq s nl then false
  else
    match decompress pub with
    | none => false
    | some Q =>
      let z := scReduce (be32ToLimbs hash)
      let w := invN s
      let u1 := mulmodN z w
      let u2 := mulmodN r w
      let R1 := scalarMult u1 ⟨gx, gy, feSet 1⟩
      let R2 := scalarMult u2 Q
      let R := pointAdd R1 R2
      if feIsZero R.Z then false
      else
        let x := scReduce (affineX R)
        scEq x r

/-- `i * size` as an `int`. Where it is negative it points before the buffer, here to its start. -/
def intOffset (i size : ℕ) : ℕ :=
  let v := i * size % 2 ^ 32
  if v < 2 ^ 31 then v else 0

/-- `verify_kernel`: the results of `n` requests. -/
def verifyKernel (pub hash sig : Bytes) (n : ℕ) : Bytes :=
  (List.range n).map fun i => (verifyOne (pub.drop (intOffset i 33)) (hash.drop (intOffset i 32))
    (sig.drop (intOffset i 64))).toUInt8

/-- `cudaMemcpy` of `src` to `off`. -/
def memcpyAt (off : ℕ) (src dst : Bytes) : Bytes :=
  dst.take off ++ src ++ dst.drop (off + src.length)

/-- The number of requests of a device, which has `per` of them from `off` on unless there are
fewer. -/
def sliceCount (n per off : ℕ) : ℕ :=
  if n ≤ off then 0
  else if n < off + per then n - off
  else per

/-- `memserve_secp256k1_verify_batch` on `ndev` devices without an error of the runtime; `none` is
the error that there is no device. -/
def memserveVerifyBatch (ndev : ℕ) (pub hash sig results : Bytes) (n : ℕ) : Option Bytes :=
  if ndev = 0 then none
  else
    let ndev := min ndev 16
    let per := (n + ndev - 1) / ndev
    some ((List.range ndev).foldl (fun results d =>
      let off := d * per
      let res :=
        verifyKernel (pub.drop (off * 33)) (hash.drop (off * 32)) (sig.drop (off * 64))
        (sliceCount n per off)
      memcpyAt off res results) results)

/-- What the host sends for a request that passes its checks. -/
structure Row where
  pub : Bytes
  hash : Bytes
  sig : Bytes

/-- The checks of the host. -/
def row (r : Accel.Request) : Option Row :=
  match r.sig, r.pub with
  | some sig, some pub =>
    if !sig.isLowS || r.hash.length != 32 then none
    else some ⟨pub.serializeCompressed, r.hash, sig.serialize⟩
  | _, _ => none

/-- A buffer of one field of the rows; what is not sent stays zero. -/
def buffer (field : Row → Bytes) (size : ℕ) (rows : List (Option Row)) : Bytes :=
  rows.flatMap fun row => (row.map field).getD (List.replicate size 0)

def verifyBatch (ndev : ℕ) (reqs : List Accel.Request) : List Bool :=
  let rows := reqs.map row
  let res := memserveVerifyBatch ndev (buffer Row.pub 33 rows) (buffer Row.hash 32 rows)
    (buffer Row.sig 64 rows)
    (List.replicate reqs.length 0) reqs.length
  match res with
  -- on an error nothing is reported valid
  | none => List.replicate reqs.length false
  | some res => List.zipWith (fun row b => row.isSome && b == 1) rows res

end MemServe.Cuda
