import MemServe.Ct
import MemServe.Sha256

/-!
Signing: RFC 6979 nonces and low-S signatures.

The search for a nonce has no bound in the source, so it takes the number of its rounds here; `none`
is a search that has not ended within them.
-/

namespace MemServe.Crypto

structure PrivateKey where
  d : ℕ
  deriving DecidableEq

def PrivateKey.public (k : PrivateKey) : Option PublicKey := publicKey k.d

inductive SignError
  | invalidKey
  | sign
  deriving DecidableEq

/-- `crypto/hmac` over SHA-256, whose blocks are of 64 bytes. -/
def hmacSHA (key msg : Bytes) : Bytes :=
  let key := if 64 < key.length then (Sha256.sum256 key).1 else key
  let key := key ++ List.replicate (64 - key.length) 0
  (Sha256.sum256 (key.map (· ^^^ 0x5c) ++ (Sha256.sum256 (key.map (· ^^^ 0x36) ++ msg)).1)).1

/-- `big.Int.Bytes`: the bytes of a number without leading zeros. -/
def bigBytes (v : ℕ) : Bytes := beBytes ((v.size + 7) / 8) v

lemma ofBytesBE_bigBytes (v : ℕ) : ofBytesBE (bigBytes v) = v := by
  have hlt : v < 256 ^ ((v.size + 7) / 8) := by
    calc v < 2 ^ v.size := Nat.lt_size_self v
      _ ≤ 2 ^ (8 * ((v.size + 7) / 8)) := Nat.pow_le_pow_right (by omega) (by omega)
      _ = 256 ^ ((v.size + 7) / 8) := pow_mul 2 8 _
  rw [bigBytes, ofBytesBE_beBytes, Nat.mod_eq_of_lt hlt]

lemma length_bigBytes_le {v n : ℕ} (h : v < 2 ^ (8 * n)) : (bigBytes v).length ≤ n := by
  have hsize := Nat.size_le.mpr h
  rw [bigBytes, length_beBytes]
  omega

lemma bigBytes_ofBytesBE {x : UInt8} (hx : x ≠ 0) (b : Bytes) :
    bigBytes (ofBytesBE (x :: b)) = x :: b := by
  have hx1 : 1 ≤ x.toNat := by
    rcases Nat.eq_zero_or_pos x.toNat with h | h
    · exact absurd (UInt8.toNat_inj.mp h) hx
    · exact h
  have hge : 2 ^ (8 * b.length) ≤ ofBytesBE (x :: b) := by
    rw [ofBytesBE_cons, pow_mul]
    exact Nat.le_add_right_of_le (Nat.le_mul_of_pos_left _ hx1)
  have hlt : ofBytesBE (x :: b) < 2 ^ (8 * (b.length + 1)) := by
    rw [pow_mul]
    exact ofBytesBE_lt (x :: b)
  have h1 := Nat.lt_size.mpr hge
  have h2 := Nat.size_le.mpr hlt
  have hsize : ((ofBytesBE (x :: b)).size + 7) / 8 = (x :: b).length := by
    rw [List.length_cons]
    omega
  rw [bigBytes, hsize, beBytes_ofBytesBE]

lemma bigBytes_head {v : ℕ} (hv : v ≠ 0) : ∃ x b, bigBytes v = x :: b ∧ x ≠ 0 := by
  have hpos : 0 < v.size := Nat.size_pos.mpr (Nat.pos_of_ne_zero hv)
  obtain ⟨n, hn⟩ : ∃ n, (v.size + 7) / 8 = n + 1 := ⟨(v.size + 7) / 8 - 1, by omega⟩
  refine ⟨UInt8.ofNat (v / 256 ^ n), beBytes n v, by rw [bigBytes, hn, beBytes_succ], fun h => ?_⟩
  have hge : 256 ^ n ≤ v := by
    rw [show 256 = 2 ^ 8 from rfl, ← pow_mul]
    exact Nat.lt_size.mp (by omega)
  have hlt : v < 256 ^ n * 256 := by
    rw [← pow_succ, show 256 = 2 ^ 8 from rfl, ← pow_mul]
    exact Nat.size_le.mp (by omega)
  have h256 : v / 256 ^ n < 256 := Nat.div_lt_of_lt_mul hlt
  have hone : 1 ≤ v / 256 ^ n := (Nat.one_le_div_iff (Nat.pow_pos (by omega))).mpr hge
  have hzero := congrArg UInt8.toNat h
  rw [UInt8.toNat_ofNat', Nat.mod_eq_of_lt h256] at hzero
  exact absurd hzero (by simp; omega)

def int2octets (v rolen : ℕ) : Bytes :=
  let b := bigBytes v
  if b.length < rolen then List.replicate (rolen - b.length) 0 ++ b
  else if rolen < b.length then b.drop (b.length - rolen)
  else b

def bits2octets (b : Bytes) (rolen : ℕ) : Bytes :=
  let z1 := bits2int b 256
  let z2 := (z1 : ℤ) - curveN
  if z2 < 0 then int2octets z1 rolen else int2octets z2.toNat rolen

/-- The search for a number in range; one digest has the 32 bytes of a candidate. -/
def nonceLoop : ℕ → Bytes → Bytes → Option ℕ
  | 0, _, _ => none
  | rounds + 1, kk, v =>
    let v := hmacSHA kk v
    let k := bits2int v 256
    if 0 < k ∧ k < curveN then some k
    else
      let kk := hmacSHA kk (v ++ [0x00])
      let v := hmacSHA kk v
      nonceLoop rounds kk v

def rfc6979Nonce (rounds d : ℕ) (hash : Bytes) : Option ℕ :=
  let bx := int2octets d 32 ++ bits2octets hash 32
  let v := List.replicate 32 0x01
  let kk := List.replicate 32 0x00
  let kk := hmacSHA kk (v ++ [0x00] ++ bx)
  let v := hmacSHA kk v
  let kk := hmacSHA kk (v ++ [0x01] ++ bx)
  let v := hmacSHA kk v
  nonceLoop rounds kk v

/-! ### Signatures -/

/-- The signature with a nonce whose point has the coordinate `x`, unless one of its numbers is
0. -/
def signatureOf (d z kNonce : ℕ) (x : ℤ) : Option Signature :=
  let r := x % curveN
  if r = 0 then none
  else
    match modInverse kNonce curveN with
    -- the order is prime, so a nonce has an inverse
    | none => none
    | some kInv =>
      let s := (r * d + z) * kInv % curveN
      if s = 0 then none
      else some ⟨r, if nHalf < s then curveN - s else s⟩

def signWith (d z kNonce : ℕ) : Option Signature :=
  signatureOf d z kNonce (scalarMultCT (scalarBits kNonce) ctBaseG).affineX.big

/-- The attempt `i` of `Sign`; a later one perturbs the hash its nonce is from. -/
def signAttempt (rounds d : ℕ) (hash : Bytes) (i : ℕ) : Option (Option Signature) := do
  let kNonce ← rfc6979Nonce rounds d hash
  let kNonce ← if 0 < i then rfc6979Nonce rounds d (Sha256.sum256 (hash ++ [UInt8.ofNat i])).1
      else some kNonce
  some (signWith d (bits2int hash 256) kNonce)

/-- The loop of `Sign`, with the number of attempts left. -/
def signLoop (rounds d : ℕ) (hash : Bytes) : ℕ → ℕ → Option (Except SignError Signature)
  | 0, _ => some (.error .sign)
  | left + 1, i => (signAttempt rounds d hash i).bind fun
    | some sig => some (.ok sig)
    | none => signLoop rounds d hash left (i + 1)

def PrivateKey.sign (k : PrivateKey) (rounds : ℕ) (hash : Bytes) :
    Option (Except SignError Signature) :=
  if k.d = 0 ∨ curveN ≤ k.d then some (.error .invalidKey)
  else signLoop rounds k.d hash 1000 0

end MemServe.Crypto
