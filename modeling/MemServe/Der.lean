import MemServe.Bsvtx
import MemServe.Sign

/-!
Signatures in transactions: two numbers in DER, and a byte for what the signature hash covers.
-/

namespace MemServe.Bsvtx

open Crypto

/-- The bytes of a number, minimal, and with a leading zero where its high bit is set. -/
def derContents (v : ℤ) : Bytes :=
  let b := bigBytes v.natAbs
  let b := if b.length = 0 then [0x00] else b
  if b.headD 0 &&& 0x80 ≠ 0 then 0x00 :: b else b

/-- A number with its tag and length. -/
def derEncodeInt (v : ℤ) : Bytes :=
  [0x02, UInt8.ofNat (derContents v).length] ++ derContents v

def derEncode (r s : ℤ) : Bytes :=
  let body := derEncodeInt r ++ derEncodeInt s
  [0x30, UInt8.ofNat body.length] ++ body

/-- The number at `i` of `b`, and the index behind it. -/
def readInt (b : Bytes) (i : ℕ) : Option (ℤ × ℕ) :=
  if b.length < i + 2 ∨ b.getD i 0 ≠ 0x02 then none
  else
    let l := (b.getD (i + 1) 0).toNat
    let i := i + 2
    if b.length < i + l then none
    else some (ofBytesBE ((b.drop i).take l), i + l)

def derDecode (b : Bytes) : Option (ℤ × ℤ) :=
  if b.length < 8 ∨ b.headD 0 ≠ 0x30 then none
  else if (b.getD 1 0).toNat ≠ b.length - 2 then none
  else do
    let (r, i) ← readInt b 2
    let (s, _) ← readInt b i
    some (r, s)

/-! ### Inputs -/

inductive InputError
  | tx (e : Error)
  | sign (e : SignError)
  deriving DecidableEq

/-- The signature of an input, as a script pushes it; `none` is a search for a nonce that has not
ended within its rounds. -/
def signInput (rounds : ℕ) (priv : PrivateKey) (t : Tx) (idx : ℕ) (scriptCode : Bytes)
    (amount : UInt64)
    (hashType : UInt32) : Option (Except InputError Bytes) :=
  match t.sighashForkID idx scriptCode amount hashType with
  | .error e => some (.error (.tx e))
  | .ok h => (priv.sign rounds h.1).map fun
    | .error e => .error (.sign e)
    | .ok sig => .ok (derEncode sig.r sig.s ++ [hashType.toUInt8])

def verifyInput (pub : PublicKey) (t : Tx) (idx : ℕ) (scriptCode : Bytes) (amount : UInt64)
    (sigWithType : Bytes) :
    Except Error Bool :=
  if sigWithType.length < 9 then .ok false
  else
    let hashType := (sigWithType.getLastD 0).toUInt32
    match derDecode sigWithType.dropLast with
    | none => .ok false
    | some (r, s) =>
      let sig : Signature := ⟨r, s⟩
      if !sig.isLowS then .ok false
      else do
        let h ← t.sighashForkID idx scriptCode amount hashType
        .ok (verify pub h.1 sig)

lemma verifyInput_eq_true {pub : PublicKey} {t : Tx} {idx : ℕ} {scriptCode : Bytes}
    {amount : UInt64} {sig : Bytes} :
    verifyInput pub t idx scriptCode amount sig = .ok true ↔ 9 ≤ sig.length ∧ ∃ r s h,
      derDecode sig.dropLast = some (r, s) ∧ (⟨r, s⟩ : Signature).isLowS = true ∧
        t.sighashForkID idx scriptCode amount (sig.getLastD 0).toUInt32 = .ok h ∧
          verify pub h.1 ⟨r, s⟩ = true := by
  unfold verifyInput
  by_cases hlen : sig.length < 9
  · simp [hlen]
  rw [if_neg hlen, and_iff_right (Nat.le_of_not_lt hlen)]
  dsimp only
  generalize (sig.getLastD 0).toUInt32 = hashType
  cases hd : derDecode sig.dropLast with
  | none => simp
  | some rs =>
    obtain ⟨r, s⟩ := rs
    cases hlow : (⟨r, s⟩ : Signature).isLowS with
    | false =>
      refine iff_of_false (by simp [hlow]) ?_
      rintro ⟨r', s', h, heq, hlow', -⟩
      cases heq
      simp [hlow] at hlow'
    | true =>
      cases hh : t.sighashForkID idx scriptCode amount hashType with
      | error e => simp [hlow, bind, Except.bind]
      | ok h => simp [hlow, bind, Except.bind]

lemma derEncodeInt_eq {v : ℤ} (h0 : 0 ≤ v) (hlt : v < 2 ^ 256) :
    ∃ b, derEncodeInt v = [0x02, UInt8.ofNat b.length] ++ b ∧ 1 ≤ b.length ∧ b.length ≤ 33 ∧
      (ofBytesBE b : ℤ) = v := by
  have hval := ofBytesBE_bigBytes v.natAbs
  have hlen : (bigBytes v.natAbs).length ≤ 32 := length_bigBytes_le (by omega)
  refine ⟨derContents v, rfl, ?_⟩
  rw [derContents]
  generalize bigBytes v.natAbs = b at hval hlen
  -- a number has at least one byte
  obtain ⟨b₁, hb₁, hpos, hle, hval₁⟩ : ∃ b₁, (if b.length = 0 then [0x00] else b) = b₁ ∧
    1 ≤ b₁.length ∧
      b₁.length ≤ 32 ∧ ofBytesBE b₁ = v.natAbs := by
    by_cases hempty : b.length = 0
    · rw [List.eq_nil_of_length_eq_zero hempty] at hval
      exact ⟨[0x00], if_pos hempty, by simp, by simp, hval⟩
    · exact ⟨b, if_neg hempty, by omega, hlen, hval⟩
  simp only [hb₁]
  split_ifs
  · refine ⟨by simp, by rw [List.length_cons]; omega, ?_⟩
    rw [ofBytesBE_cons, UInt8.toNat_zero, Nat.zero_mul, Nat.zero_add, hval₁,
      Int.natAbs_of_nonneg h0]
  · exact ⟨hpos, by omega, by rw [hval₁, Int.natAbs_of_nonneg h0]⟩

lemma readInt_append (pre : Bytes) {b : Bytes} (hb : b.length < 256) (post : Bytes) :
    readInt (pre ++ ([0x02, UInt8.ofNat b.length] ++ b ++ post)) pre.length =
      some ((ofBytesBE b : ℤ), pre.length + 2 + b.length) := by
  have htag : (pre ++ ([0x02, UInt8.ofNat b.length] ++ b ++ post)).getD pre.length 0 =
    0x02 := by simp
  have hsize :
      ((pre ++ ([0x02, UInt8.ofNat b.length] ++ b ++ post)).getD (pre.length + 1) 0).toNat =
      b.length := by
    simp [Nat.mod_eq_of_lt hb]
  have hbytes : ((pre ++ ([0x02, UInt8.ofNat b.length] ++ b ++ post)).drop (pre.length + 2)).take
      b.length = b := by
    simp
  have hlen : (pre ++ ([0x02, UInt8.ofNat b.length] ++ b ++ post)).length =
      pre.length + 2 + b.length + post.length := by
    simp only [List.length_append, List.length_cons, List.length_nil]
    omega
  simp only [readInt, htag, hsize, hbytes, hlen]
  rw [if_neg (by simp; omega), if_neg (by omega)]

lemma derEncode_eq {r s : ℤ} (hr : 0 ≤ r ∧ r < 2 ^ 256) (hs : 0 ≤ s ∧ s < 2 ^ 256) :
    ∃ a b : Bytes, derEncodeInt r = [0x02, UInt8.ofNat a.length] ++ a ∧
      derEncodeInt s = [0x02, UInt8.ofNat b.length] ++ b ∧
      (1 ≤ a.length ∧ a.length ≤ 33) ∧ (1 ≤ b.length ∧ b.length ≤ 33) ∧ (ofBytesBE a : ℤ) = r ∧
        (ofBytesBE b : ℤ) = s ∧
      (UInt8.ofNat (derEncodeInt r ++ derEncodeInt s).length).toNat = a.length + b.length + 4 ∧
      (derEncode r s).length = a.length + b.length + 6 := by
  obtain ⟨a, ha, ha1, ha33, har⟩ := derEncodeInt_eq hr.1 hr.2
  obtain ⟨b, hb, hb1, hb33, hbs⟩ := derEncodeInt_eq hs.1 hs.2
  have hlen : (derEncodeInt r ++ derEncodeInt s).length = a.length + b.length + 4 := by
    rw [ha, hb]
    simp only [List.length_append, List.length_cons, List.length_nil]
    omega
  refine ⟨a, b, ha, hb, ⟨ha1, ha33⟩, ⟨hb1, hb33⟩, har, hbs, ?_, ?_⟩
  · rw [hlen, UInt8.toNat_ofNat', Nat.mod_eq_of_lt (by omega)]
  · rw [derEncode, List.length_append, hlen]
    simp only [List.length_cons, List.length_nil]
    omega

lemma derDecode_derEncode {r s : ℤ} (hr : 0 ≤ r ∧ r < 2 ^ 256) (hs : 0 ≤ s ∧ s < 2 ^ 256) :
    derDecode (derEncode r s) = some (r, s) ∧ 8 ≤ (derEncode r s).length := by
  obtain ⟨a, b, ha, hb, halen, hblen, har, hbs, hsize, htotal⟩ := derEncode_eq hr hs
  have hfirst :=
    readInt_append [0x30, UInt8.ofNat (derEncodeInt r ++ derEncodeInt s).length]
    (by omega : a.length < 256)
    (derEncodeInt s)
  have hsecond :=
    readInt_append ([0x30, UInt8.ofNat (derEncodeInt r ++ derEncodeInt s).length] ++ derEncodeInt r)
    (by omega : b.length < 256) []
  rw [← ha] at hfirst
  rw [← hb, List.append_nil, List.append_assoc] at hsecond
  have hindex :
      ([0x30, UInt8.ofNat (derEncodeInt r ++ derEncodeInt s).length] ++ derEncodeInt r).length =
      2 + 2 + a.length := by
    rw [ha]
    simp only [List.length_append, List.length_cons, List.length_nil]
    omega
  rw [hindex] at hsecond
  refine ⟨?_, by omega⟩
  rw [derDecode, if_neg, if_neg]
  · change (readInt (derEncode r s) 2).bind _ = _
    rw [show readInt (derEncode r s) 2 = _ from hfirst, Option.bind_some]
    change (readInt (derEncode r s) (2 + 2 + a.length)).bind _ = _
    rw [show readInt (derEncode r s) (2 + 2 + a.length) = _ from hsecond, Option.bind_some, har,
      hbs]
  · rw [htotal]
    exact not_not.mpr (hsize.trans (by omega))
  · rw [htotal]
    rintro (h | h)
    · omega
    · exact h rfl

end MemServe.Bsvtx
