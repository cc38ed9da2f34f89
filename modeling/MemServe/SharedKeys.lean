import Mathlib.Data.List.Induction
import Mathlib.Logic.Function.Basic
import MemServe.Accel

/-!
The verifier over keys that requests share.

A request holds a pointer to its key, and the key a pointer to its `X`. Where the sum that `Verify`
computes is the key itself, `pointAdd` and `scalarMult` hand back the pointers they were given, and
the reduction of the sum modulo the order is written to `X`. What a request is answered then depends
on the requests before it that have the same `X`.
-/

namespace MemServe.Accel

open Crypto

/-- The numbers that the `X` of keys point to. -/
abbrev Heap := ℕ → ℤ

/-- A key with a pointer for its `X`. Nothing writes to `Y`. -/
structure KeyPtr where
  x : ℕ
  y : ℤ
  deriving DecidableEq

def KeyPtr.load (h : Heap) (k : KeyPtr) : PublicKey := ⟨h k.x, k.y⟩

/-- A request as a batch holds it. -/
structure PtrRequest where
  pub : Option KeyPtr
  hash : Bytes
  sig : Option Signature
  deriving DecidableEq

def PtrRequest.load (h : Heap) (r : PtrRequest) : Request := ⟨r.pub.map (·.load h), r.hash, r.sig⟩

/-- The loop of `scalarMult`, and whether its result is made of the pointers of `q`. -/
def scalarLoopPtr (k : ℕ) (q : Point) : ℕ → Point × Bool → Point × Bool
  | 0, r => r
  | i + 1, r =>
    let d := pointDouble r.1
    -- `pointAdd` returns its second argument where the first is infinity
    scalarLoopPtr k q i (if k.testBit i then (pointAdd d q, d.isNone) else (d, false))

def scalarMultPtr (k : ℕ) (q : Point) : Point × Bool := scalarLoopPtr k q k.size (none, false)

/-- `Verify`, and the numbers it leaves. -/
def verifyPtr (h : Heap) (pub : KeyPtr) (hash : Bytes) (sig : Signature) : Bool × Heap :=
  let x := h pub.x
  if !onCurve x pub.y then (false, h)
  else if sig.r ≤ 0 ∨ curveN ≤ sig.r ∨ sig.s ≤ 0 ∨ curveN ≤ sig.s then (false, h)
  else
    let z : ℤ := bits2int hash 256
    match modInverse sig.s curveN with
    | none => (false, h)
    | some w =>
      let u1 := z * w % curveN
      let u2 := sig.r * w % curveN
      let p1 := scalarBaseMult u1.toNat
      let p2 := scalarMultPtr u2.toNat (some (x, pub.y))
      match pointAdd p1 p2.1 with
      | none => (false, h)
      | some (x3, _) =>
        -- `x.Mod(x, curveN)` writes to the number that `x` points to
        (x3 % curveN == sig.r,
          if p1.isNone && p2.2 then Function.update h pub.x (x3 % curveN) else h)

/-- `reference`, and the numbers it leaves. -/
def PtrRequest.reference (h : Heap) (r : PtrRequest) : Bool × Heap :=
  match r.sig with
  | none => (false, h)
  | some sig =>
    if !sig.isLowS then (false, h)
    else
      match r.pub with
      | none => (false, h)
      | some pub => verifyPtr h pub r.hash sig

/-- The numbers after the calls of these requests. -/
def Heap.after (h : Heap) (rs : List PtrRequest) : Heap :=
  rs.foldl (fun h r => (r.reference h).2) h

end MemServe.Accel
