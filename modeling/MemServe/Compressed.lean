import MemServe.CurveGroup

/-!
Compressed public keys: a coordinate and the parity of the other, which is found as a square root.

The field order is 3 modulo 4, so a power of a square is one of its roots. No point of the curve has
0 for its second coordinate, so its two roots have different parities.
-/

namespace MemServe.Crypto

open ShortWeierstrass

inductive ParseError
  /-- `crypto: bad compressed public key` -/
  | format
  /-- `crypto: x out of field range` -/
  | range
  /-- `crypto: point not on curve` -/
  | square
  /-- `crypto: decompressed point not on curve` -/
  | curve
  deriving DecidableEq

/-- `big.Int.Exp`, for a base and an exponent that are not negative. -/
def modExp (x e m : ℤ) : ℤ := Lucas.powMod m.toNat x.toNat e.toNat.size e.toNat

/-- The root of the parity that is asked for. -/
def selectRoot (r : ℤ) (wantOdd : Bool) : ℤ := if (r % 2 == 1) != wantOdd then curveP - r else r

def parseCompressed (b : Bytes) : Except ParseError PublicKey :=
  if b.length ≠ 33 ∨ (b.headD 0 ≠ 0x02 ∧ b.headD 0 ≠ 0x03) then .error .format
  else
    let x : ℤ := ofBytesBE (b.drop 1)
    if curveP ≤ x then .error .range
    else
      let rhs := (x * x * x + curveB) % curveP
      let exp := (curveP + 1) / 4
      let y := modExp rhs exp curveP
      let chk := y * y % curveP
      if chk ≠ rhs then .error .square
      else
        let wantOdd := b.headD 0 == 0x03
        let y := selectRoot y wantOdd
        if !onCurve x y then .error .curve
        else .ok ⟨x, y⟩

lemma modExp_spec {x e : ℤ} (hx : 0 ≤ x) :
    InField (modExp x e curveP) ∧ ((modExp x e curveP : ℤ) : Fp) = (x : Fp) ^ e.toNat := by
  obtain ⟨n, rfl⟩ := Int.eq_ofNat_of_zero_le hx
  have hpow : modExp n e curveP = ((n ^ e.toNat : ℕ) : ℤ) % curveP := by
    rw [modExp, Lucas.powMod_eq (Nat.lt_size_self _), curveP_eq, Int.toNat_natCast,
      Int.toNat_natCast, Int.natCast_mod]
  rw [hpow]
  refine ⟨inField_mod _, ?_⟩
  rw [intCast_mod]
  push_cast
  rfl

lemma rhs_cast (x : ℤ) : (((x * x * x + curveB) % curveP : ℤ) : Fp) = (x : Fp) ^ 3 + 7 := by
  rw [intCast_mod, curveB]
  push_cast
  ring

lemma root_sq {x : ℤ} {y : Fp} (h : y ^ 2 = (x : Fp) ^ 3 + 7) :
    ((modExp ((x * x * x + curveB) % curveP) ((curveP + 1) / 4) curveP : ℤ) : Fp) ^ 2 =
      (x : Fp) ^ 3 + 7 := by
  have hexp : ((curveP + 1) / 4).toNat = (fieldOrder + 1) / 4 := by decide
  rw [(modExp_spec (inField_mod _).1).2, rhs_cast, hexp]
  exact sq_pow_quarter h

lemma inField_opposite {y : ℤ} (hy : InField y) (hy0 : (y : Fp) ≠ 0) : InField (curveP - y) := by
  have hpos : 0 < y := by
    refine lt_of_le_of_ne hy.1 ?_
    rintro rfl
    exact hy0 Int.cast_zero
  have hlt := hy.2
  exact ⟨by omega, by omega⟩

lemma opposite_cast (y : ℤ) : ((curveP - y : ℤ) : Fp) = -y := by
  rw [curveP_eq]
  simp

lemma eq_or_eq_opposite {r y : ℤ} (hr : InField r) (hy : InField y) (hy0 : (y : Fp) ≠ 0)
    (h : (r : Fp) ^ 2 = (y : Fp) ^ 2) : r = y ∨ r = curveP - y := by
  rcases sq_eq_sq_iff_eq_or_eq_neg.mp h with heq | heq
  · exact .inl ((intCast_inj hr hy).mp heq)
  · exact .inr ((intCast_inj hr (inField_opposite hy hy0)).mp (heq.trans (opposite_cast y).symm))

lemma selectRoot_spec {r : ℤ} (hr : InField r) (hr0 : (r : Fp) ≠ 0) (wantOdd : Bool) :
    InField (selectRoot r wantOdd) ∧ ((selectRoot r wantOdd : ℤ) : Fp) ^ 2 = (r : Fp) ^ 2 := by
  unfold selectRoot
  split_ifs
  · exact ⟨inField_opposite hr hr0, by rw [opposite_cast, neg_sq]⟩
  · exact ⟨hr, rfl⟩

lemma selectRoot_odd (r : ℤ) (wantOdd : Bool) : selectRoot r wantOdd % 2 = 1 ↔ wantOdd = true := by
  have hodd : curveP % 2 = 1 := by decide
  by_cases h : r % 2 = 1 <;> cases wantOdd <;> simp [selectRoot, h] <;> omega

lemma selectRoot_eq {r y : ℤ} {wantOdd : Bool} (h : r = y ∨ r = curveP - y)
    (hy : y % 2 = 1 ↔ wantOdd = true) :
    selectRoot r wantOdd = y := by
  have hsel := selectRoot_odd r wantOdd
  rw [← hy] at hsel
  have hodd : curveP % 2 = 1 := by decide
  unfold selectRoot at hsel ⊢
  split_ifs at hsel ⊢ <;> omega

/-! ### Keys -/

variable {pub : PublicKey} {b : Bytes}

/-- The bytes of a key: a first byte for the parity, and the 32 of the coordinate. -/
structure Compresses (b : Bytes) (pub : PublicKey) : Prop where
  length : b.length = 33
  head : b.headD 0 = 0x02 ∨ b.headD 0 = 0x03
  coordinate : pub.x = ofBytesBE (b.drop 1)
  parity : pub.y % 2 = 1 ↔ b.headD 0 = 0x03

lemma serializeCompressed_eq_iff (hx : InField pub.x) :
    pub.serializeCompressed = b ↔ Compresses b pub := by
  have hlt : pub.x.natAbs < 256 ^ 32 := by
    have h1 := hx.2
    have h2 := fieldOrder_lt
    rw [curveP_eq] at h1
    have := hx.1
    omega
  constructor
  · rintro rfl
    refine ⟨?_, ?_, ?_, ?_⟩
    · rw [PublicKey.serializeCompressed, List.length_cons, length_beBytes]
    · rw [PublicKey.serializeCompressed, List.headD_cons]
      split_ifs <;> simp
    · rw [PublicKey.serializeCompressed, List.drop_one, List.tail_cons, ofBytesBE_beBytes,
        Nat.mod_eq_of_lt hlt, Int.natAbs_of_nonneg hx.1]
    · rw [PublicKey.serializeCompressed, List.headD_cons]
      split_ifs with h <;> simp <;> omega
  · rintro ⟨hlen, hhead, hcoord, hparity⟩
    cases b with
    | nil => cases hlen
    | cons c t =>
      have ht : beBytes 32 (ofBytesBE t) = t := by
        have h := beBytes_ofBytesBE t
        rwa [Nat.succ.inj hlen] at h
      simp only [List.headD_cons, List.drop_one, List.tail_cons] at hhead hcoord hparity
      rw [PublicKey.serializeCompressed, hcoord, Int.natAbs_natCast, ht]
      congr 1
      rcases hhead with rfl | rfl
      · have h : ¬pub.y % 2 = 1 := fun h => absurd (hparity.mp h) (by decide)
        rw [if_pos (by omega)]
      · rw [if_neg (by have := hparity.mpr rfl; omega)]

lemma parseCompressed_ok_iff :
    parseCompressed b = .ok pub ↔ Compresses b pub ∧ onCurve pub.x pub.y = true := by
  constructor
  · intro h
    unfold parseCompressed at h
    dsimp only at h
    generalize modExp _ _ _ = r at h
    split_ifs at h with hformat hrange hchk hcurve
    obtain rfl := Except.ok.inj h
    push Not at hformat
    rw [Bool.not_eq_true', Bool.not_eq_false] at hcurve
    refine ⟨⟨hformat.1, or_iff_not_imp_left.mpr hformat.2, rfl, ?_⟩, hcurve⟩
    rw [selectRoot_odd, beq_iff_eq]
  · rintro ⟨⟨hlen, hhead, hcoord, hparity⟩, hcurve⟩
    obtain ⟨hx, hy, heq⟩ := onCurve_iff.mp hcurve
    have hroot := root_sq heq
    have hr :=
      (modExp_spec (e := (curveP + 1) / 4) (inField_mod (pub.x * pub.x * pub.x + curveB)).1).1
    unfold parseCompressed
    dsimp only
    rw [← hcoord]
    generalize modExp _ _ _ = r at hroot hr ⊢
    have hchk : r * r % curveP = (pub.x * pub.x * pub.x + curveB) % curveP := by
      rw [← intCast_inj (inField_mod _) (inField_mod _), rhs_cast, intCast_mod, Int.cast_mul,
        ← pow_two, hroot]
    have hselect : selectRoot r (b.headD 0 == 0x03) = pub.y :=
      selectRoot_eq (eq_or_eq_opposite hr hy (noTwoTorsion.y_ne_zero heq) (hroot.trans heq.symm))
        (by rw [beq_iff_eq, hparity])
    have hformat : ¬(b.length ≠ 33 ∨ b.headD 0 ≠ 0x02 ∧ b.headD 0 ≠ 0x03) := by
      rintro (h | ⟨h2, h3⟩)
      · exact h hlen
      · exact hhead.elim h2 h3
    rw [if_neg hformat, if_neg (not_le.mpr hx.2), if_neg (not_not.mpr hchk), hselect, hcurve]
    rfl

/-- **Compressed keys round-trip.** A key on the curve is recovered from its bytes; whatever is
parsed is on the curve and has the bytes it was parsed from; and 33 bytes of a known first byte are
parsed if the coordinate is in range and the right side of the equation is a square. -/
theorem compressed_round_trip :
    (∀ pub, onCurve pub.x pub.y = true → parseCompressed pub.serializeCompressed = .ok pub) ∧
    (∀ b pub, parseCompressed b = .ok pub → onCurve pub.x pub.y = true ∧
      pub.serializeCompressed = b) ∧
    ∀ (b : Bytes) (x : ℤ), b.length = 33 → (b.headD 0 = 0x02 ∨ b.headD 0 = 0x03) →
      x = ofBytesBE (b.drop 1) →
      x < curveP → (∃ w : ℤ, w * w % curveP = (x * x * x + curveB) % curveP) →
        ∃ pub, parseCompressed b = .ok pub := by
  refine ⟨fun pub hcurve => ?_, fun b pub h => ?_, fun b x hlen hhead hcoord hlt hsq => ?_⟩
  · obtain ⟨hx, -, -⟩ := onCurve_iff.mp hcurve
    exact parseCompressed_ok_iff.mpr ⟨(serializeCompressed_eq_iff hx).mp rfl, hcurve⟩
  · obtain ⟨hbytes, hcurve⟩ := parseCompressed_ok_iff.mp h
    obtain ⟨hx, -, -⟩ := onCurve_iff.mp hcurve
    exact ⟨hcurve, (serializeCompressed_eq_iff hx).mpr hbytes⟩
  · obtain ⟨w, hw⟩ := hsq
    have hx : InField x := ⟨by rw [hcoord]; exact Int.natCast_nonneg _, hlt⟩
    have heq : ((w % curveP : ℤ) : Fp) ^ 2 = (x : Fp) ^ 3 + 7 := by
      have h := congrArg (Int.cast : ℤ → Fp) hw
      rw [rhs_cast, intCast_mod, Int.cast_mul, ← pow_two] at h
      rwa [intCast_mod]
    have hy0 := noTwoTorsion.y_ne_zero heq
    -- the root of the parity that the first byte asks for
    refine ⟨⟨x, selectRoot (w % curveP) (b.headD 0 == 0x03)⟩,
      parseCompressed_ok_iff.mpr ⟨⟨hlen, hhead, hcoord, ?_⟩, ?_⟩⟩
    · rw [selectRoot_odd, beq_iff_eq]
    · obtain ⟨hroot, hsquare⟩ := selectRoot_spec (inField_mod w) hy0 (b.headD 0 == 0x03)
      exact onCurve_iff.mpr ⟨hx, hroot, hsquare.trans heq⟩

/-- The generator, from its bytes and back. -/
theorem compressed_round_trip_generator :
    parseCompressed (⟨curveGx, curveGy⟩ : PublicKey).serializeCompressed = .ok ⟨curveGx, curveGy⟩ :=
  compressed_round_trip.1 ⟨curveGx, curveGy⟩ (by decide)

end MemServe.Crypto
