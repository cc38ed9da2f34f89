import MemServe.Secp256k1

/-!
Requests to verify a signature in a batch, and the verifier that every backend is held against.
-/

namespace MemServe.Accel

open Crypto

/-- A key or a signature may be a nil pointer. -/
structure Request where
  pub : Option PublicKey
  hash : Bytes
  sig : Option Signature
  deriving DecidableEq

def reference (r : Request) : Bool :=
  match r.sig with
  | none => false
  | some sig =>
    if !sig.isLowS then false
    else
      match r.pub with
      | none => false
      | some pub => verify pub r.hash sig

end MemServe.Accel
