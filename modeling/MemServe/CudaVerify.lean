import MemServe.Cuda
import MemServe.SignVerify

/-!
The GPU agrees with the reference verifier.

The kernel reduces scalars by one subtraction, inverts by a power and adds points without case
distinctions. In the scalars and in the group it comes to the same point as the verifier on big
integers, and compares the same coordinate.
-/

namespace MemServe.Cuda

open Crypto Words ShortWeierstrass Ecdsa

lemma nl_val : nl.val = groupOrder := by decide

lemma scGeq_iff (a b : Fe) : scGeq a b = true ↔ b.val ≤ a.val := by
  rw [scGeq, geq_iff (by rw [List.length_reverse, List.length_reverse, a.2, b.2]),
    List.reverse_reverse, List.reverse_reverse]
  rfl

lemma scIsZero_iff (a : Fe) : scIsZero a = true ↔ a.val = 0 := by
  rw [scIsZero, beq_iff_eq, foldl_or_eq_zero]
  exact and_iff_right rfl

lemma scEq_iff (a b : Fe) : scEq a b = true ↔ a.val = b.val := by
  rw [scEq, beq_iff_eq]
  exact ⟨congrArg value, fun h => value_inj (by rw [a.2, b.2]) h⟩

/-- The words are the scalar `x`, reduced. -/
structure IsScalar (a : Fe) (x : Zn) : Prop where
  lt : a.val < groupOrder
  eq : (a.val : Zn) = x

lemma IsScalar.val_eq {a : Fe} {x : Zn} (h : IsScalar a x) : a.val = x.val := by
  rw [← h.eq, ZMod.val_natCast_of_lt h.lt]

lemma scSubN_spec (a : Fe) : ∃ br ≤ 1, (scSubN a).val + groupOrder = a.val + 2 ^ 256 * br := by
  obtain ⟨h, hb⟩ := Limbs.subb_spec kernelOps a nl
  rw [nl_val] at h
  exact ⟨_, hb, h⟩

lemma groupOrder_gt : 2 ^ 256 < 2 * groupOrder := by decide

lemma isScalar_of_add {a : Fe} {t : ℕ} (hlt : a.val < groupOrder)
    (h : a.val = t ∨ a.val + groupOrder = t) :
    IsScalar a (t : Zn) := by
  refine ⟨hlt, ?_⟩
  obtain h | h := h
  · rw [h]
  · rw [← h, Nat.cast_add, ZMod.natCast_self, add_zero]

/-- A number of four words is below twice the order, so that one subtraction reduces it. -/
lemma scReduce_is (a : Fe) : IsScalar (scReduce a) (a.val : Zn) := by
  have ha := a.val_lt
  have hn := groupOrder_gt
  obtain ⟨br, hbr, hsub⟩ := scSubN_spec a
  have hval := (scSubN a).val_lt
  rw [scReduce]
  by_cases hge : groupOrder ≤ a.val
  · rw [if_pos ((scGeq_iff a nl).mpr (by rwa [nl_val]))]
    exact isScalar_of_add (by omega) (.inr (by omega))
  · rw [if_neg (fun h => hge (by rwa [scGeq_iff, nl_val] at h))]
    exact isScalar_of_add (by omega) (.inl rfl)

variable {a b : Fe} {x y : Zn}

lemma IsScalar.add (ha : IsScalar a x) (hb : IsScalar b y) : IsScalar (addModN a b) (x + y) := by
  obtain ⟨hsum, hc⟩ := Limbs.addc_spec kernelOps a b
  have halt := ha.lt
  have hblt := hb.lt
  have hn := groupOrder_lt
  have hcast : ((a.val + b.val : ℕ) : Zn) = x + y := by rw [Nat.cast_add, ha.eq, hb.eq]
  rw [← hcast]
  simp only [addModN]
  generalize (Limbs.addc kernelOps a b).1 = r at hsum
  generalize (Limbs.addc kernelOps a b).2 = c at hsum hc
  obtain ⟨br, hbr, hsub⟩ := scSubN_spec r
  have hr := r.val_lt
  have hval := (scSubN r).val_lt
  have hc0 : c = 0 ↔ c.toNat = 0 := UInt64.toNat_inj.symm
  by_cases hge : c ≠ 0 ∨ scGeq r nl = true
  · rw [if_pos hge]
    rw [Ne, hc0, scGeq_iff, nl_val] at hge
    exact isScalar_of_add (by omega) (.inr (by omega))
  · rw [if_neg hge]
    rw [Ne, hc0, scGeq_iff, nl_val] at hge
    exact isScalar_of_add (by omega) (.inl (by omega))

lemma isScalar_zero : IsScalar (.of 0 0 0 0) 0 := ⟨by decide, by simp⟩

lemma isScalar_one : IsScalar (.of 1 0 0 0) 1 := ⟨by decide, by simp⟩

lemma IsScalar.mul (hb : IsScalar b y) (a : Fe) : IsScalar (mulmodN a b) (a.val * y) := by
  have hstep : ∀ (acc : Fe) (n : ℕ) (bit : Bool), IsScalar acc (n * y) →
      IsScalar (if bit then addModN (addModN acc acc) b else addModN acc acc)
          (Ladder.push n bit * y) := by
    intro acc n bit hacc
    have hdouble := hacc.add hacc
    rw [← two_mul, ← mul_assoc] at hdouble
    cases bit with
    | false => simpa [Ladder.push] using hdouble
    | true => simpa [Ladder.push, add_mul] using hdouble.add hb
  have hzero : IsScalar (.of 0 0 0 0) ((0 : ℕ) * y) := by
    rw [Nat.cast_zero, zero_mul]
    exact isScalar_zero
  have hrun := Ladder.run hstep (bits a.words) hzero
  rwa [foldl_push_bits] at hrun

lemma IsScalar.pow (ha : IsScalar a x) (exp : Fe) : IsScalar (powmodN a exp) (x ^ exp.val) := by
  have hstep : ∀ (res : Fe) (n : ℕ) (bit : Bool), IsScalar res (x ^ n) →
      IsScalar (if bit then mulmodN (mulmodN res res) a else mulmodN res res)
          (x ^ Ladder.push n bit) := by
    intro res n bit hres
    have hsq := hres.mul res
    rw [hres.eq, ← pow_add, ← two_mul] at hsq
    cases bit with
    | false => exact hsq
    | true =>
      have hmul := ha.mul (mulmodN res res)
      rw [hsq.eq] at hmul
      rwa [Ladder.push, pow_add, Bool.toNat_true, pow_one]
  have hone : IsScalar (.of 1 0 0 0) (x ^ 0) := by
    rw [pow_zero]
    exact isScalar_one
  have hrun := Ladder.run hstep (bits exp.words) hone
  rwa [foldl_push_bits] at hrun

lemma IsScalar.inv (ha : IsScalar a x) (hx : x ≠ 0) : IsScalar (invN a) x⁻¹ := by
  have hexp : nm2.val = groupOrder - 2 := by decide
  have h := ha.pow nm2
  rw [hexp] at h
  rwa [pow_sub_two_eq_inv hx] at h

lemma pushByte_toNat {v : UInt64} (b : UInt8) (hv : v.toNat < 2 ^ 56) :
    ((v <<< 8) ||| b.toUInt64).toNat = v.toNat * 256 + b.toNat := by
  have hb : b.toNat < 2 ^ 8 := b.toNat_lt
  have hshift : (v <<< 8).toNat = v.toNat <<< 8 := by
    rw [UInt64.toNat_shiftLeft, show (8 : UInt64).toNat % 64 = 8 from rfl, Nat.shiftLeft_eq]
    omega
  rw [UInt64.toNat_or, UInt8.toNat_toUInt64, hshift, ← Nat.shiftLeft_add_eq_or_of_lt hb,
    Nat.shiftLeft_eq]

lemma beWord_toNat {p : Bytes} (hp : p.length ≤ 8) : (beWord p).toNat = ofBytesBE p := by
  have h : ∀ (p : Bytes) (v : UInt64), (v.toNat + 1) * 256 ^ p.length ≤ 2 ^ 64 →
      (p.foldl (fun (v : UInt64) b => (v <<< 8) ||| b.toUInt64) v).toNat =
          v.toNat * 256 ^ p.length + ofBytesBE p := by
    intro p
    induction p with
    | nil =>
      intro v _
      simp [ofBytesBE]
    | cons b p ih =>
      intro v hv
      have hpow : 1 ≤ 256 ^ p.length := Nat.one_le_pow _ _ (by omega)
      rw [List.length_cons, pow_succ] at hv
      have hlt : v.toNat < 2 ^ 56 := by nlinarith
      have hpush := pushByte_toNat b hlt
      have hb := b.toNat_lt
      rw [List.foldl_cons, ih _ (by rw [hpush]; nlinarith), hpush, ofBytesBE_cons, List.length_cons,
        pow_succ]
      ring
  have hle : (256 : ℕ) ^ p.length ≤ 256 ^ 8 := Nat.pow_le_pow_right (by omega) hp
  rw [beWord, h p 0 (by simpa using hle), UInt64.toNat_zero, Nat.zero_mul, Nat.zero_add]

lemma be32ToLimbs_val {b : Bytes} (hb : b.length = 32) (rest : Bytes) :
    (be32ToLimbs (b ++ rest)).val = ofBytesBE b := by
  have hword : ∀ i ≤ 24, beWord (((b ++ rest).drop i).take 8) = uint64BE b i := by
    intro i hi
    rw [List.drop_append_of_le_length (by omega),
      List.take_append_of_le_length (by rw [List.length_drop]; omega), ← UInt64.toNat_inj,
      beWord_toNat (List.length_take_le _ _), uint64BE_toNat]
  rw [← value_ofBytes hb, Fe.val, be32ToLimbs, ofBytes]
  simp only [Fe.of]
  rw [hword _ (by omega), hword _ (by omega), hword _ (by omega), hword _ (by omega)]

lemma be32ToLimbs_beBytes {k : ℕ} (hk : k < 2 ^ 256) (rest : Bytes) :
    (be32ToLimbs (beBytes 32 k ++ rest)).val = k := by
  have hk' : k < 256 ^ 32 := hk
  rw [be32ToLimbs_val (length_beBytes 32 k), ofBytesBE_beBytes, Nat.mod_eq_of_lt hk']

lemma psqrt_val : psqrt.val = (fieldOrder + 1) / 4 := by decide

lemma headD_and_one (a : Fe) : (a.words.headD 0 &&& 1).toNat = a.val % 2 := by
  obtain ⟨words, hlen⟩ := a
  cases words with
  | nil => cases hlen
  | cons w ws =>
    rw [List.headD_cons, UInt64.toNat_and, UInt64.toNat_one, Nat.and_one_is_mod, Fe.val, value_cons]
    omega

lemma feEq_of_is {f g : Fe} {v : Fp} (hf : f.Is v) (hg : g.Is v) : feEq f g = true := by
  rw [feEq, beq_iff_eq, Fe.ext_val (hf.val_eq hg)]

lemma isSeven : (feSet 7).Is 7 := ⟨by decide, by simp [feSet]⟩

lemma decompressY_is {f : Fe} {y root : Fp} {wantOdd : UInt64} (hroot : f.Is root)
    (hodd : wantOdd.toNat = y.val % 2)
    (hchoice : if root.val % 2 = y.val % 2 then root = y else -root = y) :
    (if f.words.headD 0 &&& 1 ≠ wantOdd then feSub (feSet 0) f else f).Is y := by
  have hval : f.val = root.val := by rw [← hroot.eq, ZMod.val_natCast_of_lt hroot.lt]
  have hparity : f.words.headD 0 &&& 1 = wantOdd ↔ root.val % 2 = y.val % 2 := by
    rw [← UInt64.toNat_inj, headD_and_one, hodd, hval]
  by_cases h : root.val % 2 = y.val % 2
  · rw [if_neg (not_not.mpr (hparity.mpr h))]
    rw [if_pos h] at hchoice
    exact hroot.of_eq hchoice
  · rw [if_pos (mt hparity.mp h)]
    rw [if_neg h] at hchoice
    exact (is_zero.sub kernelOps hroot).of_eq (by rw [zero_sub, hchoice])

lemma decompress_serializeCompressed {pub : PublicKey} {Q : Curve.Point}
    (hQ : Represents (some (pub.x, pub.y)) Q)
    (rest : Bytes) : ∃ J, decompress (pub.serializeCompressed ++ rest) = some J ∧ J.Is Q := by
  obtain ⟨hx, hy, hcoords⟩ := hQ
  have heq := equation_of_coords hcoords
  have hy0 := noTwoTorsion.y_ne_zero heq
  have hxlt : pub.x.natAbs < fieldOrder := by
    have := hx.1
    have := hx.2
    rw [curveP_eq] at this
    omega
  have hxval := be32ToLimbs_beBytes (hxlt.trans fieldOrder_lt) rest
  have hxis : (be32ToLimbs (beBytes 32 pub.x.natAbs ++ rest)).Is pub.x := by
    refine ⟨by rwa [hxval], ?_⟩
    rw [hxval, ← Int.cast_natCast, Int.natAbs_of_nonneg hx.1]
  have hrhs := ((hxis.mul kernelOps hxis).mul kernelOps hxis).add kernelOps isSeven
  rw [← pow_two, ← pow_succ, ← heq] at hrhs
  have hroot := hrhs.pow kernelOps psqrt
  have hsquare : (((pub.y : Fp) ^ 2) ^ ((fieldOrder + 1) / 4)) ^ 2 = (pub.y : Fp) ^ 2 :=
    sq_pow_quarter rfl
  rw [psqrt_val] at hroot
  generalize ((pub.y : Fp) ^ 2) ^ ((fieldOrder + 1) / 4) = root at hroot hsquare
  have hchk := hroot.mul kernelOps hroot
  rw [← pow_two, hsquare] at hchk
  have hchoice := eq_of_sq_eq_of_parity hy0 hsquare
  have hyval : ((pub.y : Fp).val : ℤ) = pub.y := by
    have hylt := hy.2
    rw [curveP_eq] at hylt
    rw [ZMod.val_intCast, Int.emod_eq_of_lt hy.1 hylt]
  have hhead : (pub.serializeCompressed ++ rest).headD 0 = if pub.y % 2 = 0 then
    0x02 else 0x03 := rfl
  have hodd : (if (pub.serializeCompressed ++ rest).headD 0 = 0x03 then 1 else 0 : UInt64).toNat =
      (pub.y : Fp).val % 2 := by
    rw [hhead]
    by_cases heven : pub.y % 2 = 0
    · rw [if_pos heven, if_neg (by decide), UInt64.toNat_zero]
      omega
    · rw [if_neg heven, if_pos rfl, UInt64.toNat_one]
      omega
  have hdrop : (pub.serializeCompressed ++ rest).drop 1 = beBytes 32 pub.x.natAbs ++ rest := rfl
  refine ⟨_, ?_, is_of_affine hxis (decompressY_is hroot hodd hchoice) hcoords⟩
  have hprefix :
      ¬((pub.serializeCompressed ++ rest).headD 0 ≠ 0x02 ∧
        (pub.serializeCompressed ++ rest).headD 0 ≠ 0x03) := by
    rw [hhead]
    split_ifs <;> decide
  have hgeq : scGeq (be32ToLimbs (beBytes 32 pub.x.natAbs ++ rest)) pl ≠ true := by
    rw [Ne, scGeq_iff, pl_val, hxval]
    omega
  rw [decompress, if_neg hprefix, hdrop]
  simp only [if_neg hgeq]
  have hok : feEq (feMul _ _) (feAdd _ _) = true := feEq_of_is hchk hrhs
  simp only [feMul, feAdd, fePow] at hok ⊢
  simp only [hok, Bool.not_true, Bool.false_eq_true, if_false]
  rfl

lemma scalarMult_is {P : Jac} {Q : Curve.Point} (hP : P.Is Q) (k : Fe) :
    (scalarMult k P).Is (k.val • Q) := by
  have hstep : ∀ (R : Jac) (n : ℕ) (b : Bool), R.Is (n • Q) →
      (if b then pointAdd (pointAdd R R) P else pointAdd R R).Is (Ladder.push n b • Q) :=
    fun R n b hR => hR.push kernelOps hP b
  have hrun :=
    Ladder.run hstep (bits k.words) (by rw [zero_nsmul]; exact identity_is : identity.Is (0 • Q))
  rwa [foldl_push_bits] at hrun

lemma generator_is : Jac.Is ⟨gx, gy, feSet 1⟩ generator := by
  have h : (⟨gx, gy, feSet 1⟩ : Jac) = ctBaseG := by decide
  rw [h]
  exact ctBaseG_is

/-! ### Verification -/

lemma verify_point {r z w : Fe} {J : Jac} {Q : Curve.Point} {c : Zn} (hJ : J.Is Q)
    (hw : IsScalar w c) :
    (pointAdd (scalarMult (mulmodN (scReduce z) w) ⟨gx, gy, feSet 1⟩)
      (scalarMult (mulmodN r w) J)).Is
      (mult ((z.val : Zn) * c) generator + mult ((r.val : Zn) * c) Q) := by
  have hu1 := hw.mul (scReduce z)
  rw [(scReduce_is z).eq] at hu1
  have hu2 := hw.mul r
  have h1 := scalarMult_is generator_is (mulmodN (scReduce z) w)
  have h2 := scalarMult_is hJ (mulmodN r w)
  rw [hu1.val_eq] at h1
  rw [hu2.val_eq] at h2
  exact h1.add kernelOps h2

lemma compare_iff {R : Jac} {P : Curve.Point} (hR : R.Is P) (r : Fe) :
    (if feIsZero R.Z then false else scEq (scReduce (affineX R)) r) = true ↔
      xScalar P = some r.val := by
  have hzero : feIsZero R.Z = true ↔ P = 0 := (scIsZero_iff R.Z).trans hR.z_eq_zero_iff
  cases hP : coords P with
  | none =>
    rw [if_pos (hzero.mpr (coords_eq_none.mp hP)), xScalar, hP]
    simp
  | some xy =>
    have hne : P ≠ 0 := by
      intro h
      rw [coords_eq_none.mpr h] at hP
      cases hP
    have hx : (affineX R).Is xy.1 := hR.affineX kernelOps hP
    have hval : (affineX R).val = xy.1.val := by rw [← hx.eq, ZMod.val_natCast_of_lt hx.lt]
    rw [if_neg (mt hzero.mp hne), scEq_iff, (scReduce_is _).val_eq, ZMod.val_natCast, hval, xScalar,
      hP, Option.map_some, Option.some.injEq]

/-- **The kernel**, on the bytes of a key on the curve, a hash and a signature. -/
theorem verifyOne_iff {pub : PublicKey} {Q : Curve.Point} {hash : Bytes} {sig : Signature}
    (hQ : Represents (some (pub.x, pub.y)) Q) (hhash : hash.length = 32)
    (hr : 0 ≤ sig.r ∧ sig.r < 2 ^ 256)
    (hs : 0 ≤ sig.s ∧ sig.s < 2 ^ 256) (pubs hashes sigs : Bytes) :
    verifyOne (pub.serializeCompressed ++ pubs) (hash ++ hashes) (sig.serialize ++ sigs) = true ↔
      sig.InRange ∧ xScalar (checkPoint Q (bits2int hash 256) sig) = some sig.r.toNat := by
  obtain ⟨J, hdecompress, hJ⟩ := decompress_serializeCompressed hQ pubs
  have hrval : (be32ToLimbs (sig.serialize ++ sigs)).val = sig.r.natAbs := by
    rw [Signature.serialize, List.append_assoc]
    exact be32ToLimbs_beBytes (by omega) _
  have hsval : (be32ToLimbs ((sig.serialize ++ sigs).drop 32)).val = sig.s.natAbs := by
    rw [Signature.serialize, List.append_assoc, List.drop_left' (length_beBytes 32 _)]
    exact be32ToLimbs_beBytes (by omega) _
  have hzval : (be32ToLimbs (hash ++ hashes)).val = bits2int hash 256 := by
    rw [be32ToLimbs_val hhash, bits2int, hhash]
    rfl
  simp only [verifyOne, hdecompress]
  generalize be32ToLimbs (sig.serialize ++ sigs) = r at hrval ⊢
  generalize be32ToLimbs ((sig.serialize ++ sigs).drop 32) = s at hsval ⊢
  generalize be32ToLimbs (hash ++ hashes) = z at hzval ⊢
  have hrCheck : (scIsZero r || scGeq r nl) = true ↔ ¬(0 < sig.r ∧ sig.r < curveN) := by
    rw [Bool.or_eq_true, scIsZero_iff, scGeq_iff, nl_val, hrval, curveN_eq]
    omega
  have hsCheck : (scIsZero s || scGeq s nl) = true ↔ ¬(0 < sig.s ∧ sig.s < curveN) := by
    rw [Bool.or_eq_true, scIsZero_iff, scGeq_iff, nl_val, hsval, curveN_eq]
    omega
  by_cases hrRange : 0 < sig.r ∧ sig.r < curveN
  · by_cases hsRange : 0 < sig.s ∧ sig.s < curveN
    · have hrange : sig.InRange := ⟨hrRange.1, hrRange.2, hsRange.1, hsRange.2⟩
      have hcast : ∀ {a : Fe} {v : ℤ}, 0 ≤ v → a.val = v.natAbs → (a.val : Zn) = v := by
        intro a v h0 h
        rw [h, ← Int.cast_natCast, Int.natAbs_of_nonneg h0]
      have hsIs : IsScalar s (sig.s : Zn) := by
        have hlt := hsRange.2
        rw [curveN_eq] at hlt
        exact ⟨by omega, hcast hs.1 hsval⟩
      have hpoint :=
        verify_point (r := r) (z := z) hJ (hsIs.inv (scalar_ne_zero hsRange.1 hsRange.2))
      rw [hzval, hcast hr.1 hrval] at hpoint
      have hnat : sig.r.natAbs = sig.r.toNat := by omega
      rw [if_neg (fun h => hrCheck.mp h hrRange), if_neg (fun h => hsCheck.mp h hsRange),
        compare_iff hpoint, hrval, hnat, checkPoint]
      exact (and_iff_right hrange).symm
    · rw [if_neg (fun h => hrCheck.mp h hrRange), if_pos (hsCheck.mpr hsRange)]
      exact iff_of_false Bool.false_ne_true fun h => hsRange ⟨h.1.s_pos, h.1.s_lt⟩
  · rw [if_pos (hrCheck.mpr hrRange)]
    exact iff_of_false Bool.false_ne_true fun h => hrRange ⟨h.1.r_pos, h.1.r_lt⟩

lemma sliceCount_eq (n per off : ℕ) : sliceCount n per off = min per (n - off) := by
  rw [sliceCount]
  split_ifs <;> omega

@[simp] lemma length_verifyKernel (pub hash sig : Bytes) (n : ℕ) :
    (verifyKernel pub hash sig n).length = n := by
  simp [verifyKernel]

lemma intOffset_eq {i size : ℕ} (h : i * size < 2 ^ 31) : intOffset i size = i * size := by
  have hmod : i * size % 2 ^ 32 = i * size := Nat.mod_eq_of_lt (by omega)
  simp only [intOffset, hmod, if_pos h]

lemma getElem_verifyKernel {n : ℕ} (hn : n ≤ 2 ^ 25) (pub hash sig : Bytes) {i : ℕ}
    (hi : i < (verifyKernel pub hash sig n).length) :
    (verifyKernel pub hash sig n)[i] =
      (verifyOne (pub.drop (i * 33)) (hash.drop (i * 32)) (sig.drop (i * 64))).toUInt8 := by
  rw [length_verifyKernel] at hi
  simp only [verifyKernel, List.getElem_map, List.getElem_range]
  rw [intOffset_eq (by omega), intOffset_eq (by omega), intOffset_eq (by omega)]

lemma verifyKernel_slice (pub hash sig : Bytes) {n : ℕ} (hn : n ≤ 2 ^ 25) (per off : ℕ) :
    verifyKernel (pub.drop (off * 33)) (hash.drop (off * 32)) (sig.drop (off * 64))
      (sliceCount n per off) =
      ((verifyKernel pub hash sig n).drop off).take per := by
  have hlen : sliceCount n per off = min per (n - off) := sliceCount_eq n per off
  refine List.ext_getElem (by simp [hlen]) fun i h1 h2 => ?_
  rw [List.getElem_take, List.getElem_drop, getElem_verifyKernel hn,
    getElem_verifyKernel (by omega : sliceCount n per off ≤ 2 ^ 25)]
  simp only [List.drop_drop, Nat.add_mul]

lemma memcpyAt_next {K R : Bytes} (hlen : K.length = R.length) (off per : ℕ) :
    memcpyAt off ((K.drop off).take per) (K.take off ++ R.drop off) =
      K.take (off + per) ++ R.drop (off + per) := by
  have hsplit : K.take (off + per) = K.take off ++ (K.drop off).take per := List.take_add
  have hhead : (K.take off ++ R.drop off).take off = K.take off := by
    have hnil : (R.drop off).take (off - (K.take off).length) = [] := by
      refine List.eq_nil_of_length_eq_zero ?_
      simp only [List.length_take, List.length_drop]
      omega
    rw [List.take_append, List.take_take, min_self, hnil, List.append_nil]
  have htail : (K.take off ++ R.drop off).drop (off + ((K.drop off).take per).length) =
      R.drop (off + per) := by
    have hnil : (K.take off).drop (off + ((K.drop off).take per).length) = [] := by
      refine List.drop_eq_nil_of_le ?_
      simp only [List.length_take]
      omega
    rw [List.drop_append, hnil, List.nil_append, List.drop_drop, List.drop_eq_drop_iff]
    simp only [List.length_take, List.length_drop]
    omega
  rw [memcpyAt, hsplit, hhead, htail]

lemma memserveVerifyBatch_eq {ndev n : ℕ} (hdev : 0 < ndev) (hn : n ≤ 2 ^ 25)
    (pub hash sig : Bytes) {results : Bytes} (hlen : results.length = n) :
    memserveVerifyBatch ndev pub hash sig results n = some (verifyKernel pub hash sig n) := by
  set m := min ndev 16 with hm
  set per := (n + m - 1) / m with hper
  set K := verifyKernel pub hash sig n with hK
  have hKlen : K.length = results.length := by rw [hK, length_verifyKernel, hlen]
  have hrun : ∀ d, (List.range d).foldl (fun results d =>
      let off := d * per
      let res :=
        verifyKernel (pub.drop (off * 33)) (hash.drop (off * 32)) (sig.drop (off * 64))
        (sliceCount n per off)
      memcpyAt off res results) results = K.take (d * per) ++ results.drop (d * per) := by
    intro d
    induction d with
    | zero => simp
    | succ d ih =>
      rw [List.range_succ, List.foldl_append, ih, List.foldl_cons, List.foldl_nil]
      dsimp only
      rw [verifyKernel_slice _ _ _ hn, ← hK, memcpyAt_next hKlen, Nat.succ_mul]
  -- the devices' parts reach the end
  have hcover : n ≤ m * per := by
    have hdiv := Nat.div_add_mod (n + m - 1) m
    have hmod := Nat.mod_lt (n + m - 1) (by omega : 0 < m)
    rw [← hper] at hdiv
    omega
  rw [memserveVerifyBatch, if_neg (by omega)]
  dsimp only
  rw [← hm, ← hper, hrun, List.take_of_length_le (by omega), List.drop_eq_nil_of_le (by omega),
    List.append_nil]

/-! ### The backend -/

/-- A request whose key, if it has one, is on the curve, and whose signature has numbers of 32
bytes. -/
def WellFormed (r : Accel.Request) : Prop :=
  ∀ pub sig, r.pub = some pub → r.sig = some sig →
    onCurve pub.x pub.y = true ∧ r.hash.length = 32 ∧ (0 ≤ sig.r ∧ sig.r < 2 ^ 256) ∧ 0 ≤ sig.s ∧
      sig.s < 2 ^ 256

lemma length_of_row {r : Accel.Request} {w : Row} (h : row r = some w) :
    w.pub.length = 33 ∧ w.hash.length = 32 ∧ w.sig.length = 64 := by
  obtain ⟨pub, hash, sig⟩ := r
  cases sig with
  | none => cases h
  | some sig =>
    cases pub with
    | none => cases h
    | some pub =>
      simp only [row] at h
      split_ifs at h with hcheck
      cases h
      simp only [Bool.or_eq_true, bne_iff_ne, ne_eq, not_or, not_not] at hcheck
      exact ⟨by simp [PublicKey.serializeCompressed], hcheck.2, by simp [Signature.serialize]⟩

lemma drop_buffer {field : Row → Bytes} {size : ℕ} {rows : List (Option Row)}
    (hsize : ∀ w, some w ∈ rows → (field w).length = size) (i : ℕ) :
    (buffer field size rows).drop (i * size) = buffer field size (rows.drop i) := by
  induction rows generalizing i with
  | nil => simp [buffer]
  | cons w rows ih =>
    cases i with
    | zero => simp
    | succ i =>
      have hw : ((w.map field).getD (List.replicate size 0)).length = size := by
        cases w with
        | none => simp
        | some w => exact hsize w (List.mem_cons_self ..)
      have htail := ih (fun w hmem => hsize w (List.mem_cons_of_mem _ hmem)) i
      rw [buffer, List.flatMap_cons, Nat.succ_mul, Nat.add_comm, ← List.drop_drop,
        List.drop_left' hw, List.drop_succ_cons]
      exact htail

lemma verifyOne_eq_verify {pub : PublicKey} {hash : Bytes} {sig : Signature}
    (h : WellFormed ⟨some pub, hash, some sig⟩) (pubs hashes sigs : Bytes) :
    verifyOne (pub.serializeCompressed ++ pubs) (hash ++ hashes) (sig.serialize ++ sigs) =
      verify pub hash sig := by
  obtain ⟨hcurve, hhash, hr, hs⟩ := h pub sig rfl rfl
  obtain ⟨Q, hQ⟩ := exists_represents hcurve
  rw [Bool.eq_iff_iff, verifyOne_iff hQ hhash hr hs, verify_iff hQ]

lemma result_eq_reference {r : Accel.Request} (h : WellFormed r) (rows : List (Option Row)) :
    ((row r).isSome &&
      (verifyOne (buffer Row.pub 33 (row r :: rows)) (buffer Row.hash 32 (row r :: rows))
      (buffer Row.sig 64 (row r :: rows))).toUInt8 == 1) = Accel.reference r := by
  obtain ⟨pub, hash, sig⟩ := r
  cases sig with
  | none => rfl
  | some sig =>
    cases pub with
    | none =>
      simp only [row, Accel.reference, Option.isSome_none, Bool.false_and]
      split_ifs <;> rfl
    | some pub =>
      obtain ⟨-, hhash, -, -⟩ := h pub sig rfl rfl
      by_cases hlow : sig.isLowS = true
      · have hrow : row ⟨some pub, hash, some sig⟩ =
            some ⟨pub.serializeCompressed, hash, sig.serialize⟩ := by
          dsimp only at hhash
          simp [row, hlow, hhash]
        have hbyte : ∀ b : Bool, (b.toUInt8 == 1) = b := by decide
        rw [hrow, hbyte, Option.isSome_some, Bool.true_and]
        simp only [buffer, List.flatMap_cons, Option.map_some, Option.getD_some]
        rw [verifyOne_eq_verify h]
        simp only [Accel.reference, hlow, Bool.not_true, Bool.false_eq_true, if_false]
      · simp only [row, Accel.reference, hlow, Bool.not_false, Bool.true_or, if_true,
          Option.isSome_none, Bool.false_and]

/-- **The GPU agrees with the reference verifier**, on every batch whose offsets fit an `int` and
any number of devices. -/
theorem verifyBatch_eq_reference {ndev : ℕ} (hdev : 0 < ndev) (reqs : List Accel.Request)
    (hfit : reqs.length ≤ 2 ^ 25) (h : ∀ r ∈ reqs, WellFormed r) :
    verifyBatch ndev reqs = reqs.map Accel.reference := by
  have hrow : ∀ w, some w ∈ reqs.map row → w.pub.length = 33 ∧ w.hash.length = 32 ∧
      w.sig.length = 64 := by
    intro w hw
    obtain ⟨r, -, hr⟩ := List.mem_map.mp hw
    exact length_of_row hr
  simp only [verifyBatch]
  rw [memserveVerifyBatch_eq hdev hfit _ _ _ (List.length_replicate ..)]
  dsimp only
  refine List.ext_getElem (by simp) fun i h1 h2 => ?_
  have hi : i < reqs.length := by simpa using h2
  have hwf := h reqs[i] (List.getElem_mem hi)
  have hdrop : (reqs.map row).drop i = row reqs[i] :: (reqs.map row).drop (i + 1) := by
    rw [List.drop_eq_getElem_cons (by simpa using hi), List.getElem_map]
  rw [List.getElem_zipWith, List.getElem_map, List.getElem_map, getElem_verifyKernel hfit]
  rw [drop_buffer fun w hw => (hrow w hw).1, drop_buffer fun w hw => (hrow w hw).2.1,
    drop_buffer fun w hw => (hrow w hw).2.2, hdrop]
  exact result_eq_reference hwf _

theorem verifyBatch_sample :
    verifyBatch 3 [⟨some ⟨curveGx, curveGy⟩, List.replicate 32 0, some sampleSignature⟩,
        ⟨some ⟨curveGx, curveGy⟩, List.replicate 32 0, none⟩] =
      [⟨some ⟨curveGx, curveGy⟩, List.replicate 32 0, some sampleSignature⟩,
        ⟨some ⟨curveGx, curveGy⟩, List.replicate 32 0, none⟩].map Accel.reference := by
  refine verifyBatch_eq_reference (by decide) _ (by decide) ?_
  intro r hr pub sig hpub hsig
  rcases List.mem_cons.mp hr with rfl | hr
  · cases hpub
    cases hsig
    decide
  · rw [List.mem_singleton.mp hr] at hsig
    cases hsig

end MemServe.Cuda
