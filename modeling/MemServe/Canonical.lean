import MemServe.SettlementTx

/-!
Which bytes the decoder of signatures takes.

The encoder writes every number with as few bytes as its sign allows and nothing behind the second
one. The decoder reads the two lengths it finds and asks for neither.
-/

namespace MemServe.Bsvtx

open Crypto

/-- The bytes are those of a number that is not negative, and none of them could be left out. -/
def minimal : Bytes → Bool
  | [] => false
  | [x] => x < 0x80
  | x :: y :: _ => x < 0x80 && (x != 0 || 0x80 ≤ y)

lemma high_bit (x : UInt8) : x &&& 0x80 ≠ 0 ↔ 0x80 ≤ x := by
  have hlt : x.toNat < 256 := x.toNat_lt
  have hand : (x &&& 0x80).toNat = (x.toNat.testBit 7).toNat * 2 ^ 7 := Nat.and_two_pow x.toNat 7
  rw [ne_eq, ← UInt8.toNat_inj, hand, UInt8.le_iff_toNat_le, Nat.testBit_eq_decide_div_mod_eq]
  change ¬(decide (x.toNat / 128 % 2 = 1)).toNat * 128 = 0 ↔ 128 ≤ x.toNat
  by_cases h : x.toNat / 128 % 2 = 1
  · simp [h]
    omega
  · simp [h]
    omega

lemma derContents_of_minimal {b : Bytes} (h : minimal b = true) :
    derContents (ofBytesBE b) = b := by
  rw [derContents, Int.natAbs_natCast]
  rcases b with - | ⟨x, - | ⟨y, b⟩⟩
  · cases h
  · have hx : ¬0x80 ≤ x := by simpa [minimal] using h
    by_cases h0 : x = 0
    · subst h0
      rfl
    · simp [bigBytes_ofBytesBE h0, high_bit, hx]
  · simp only [minimal, Bool.and_eq_true, decide_eq_true_eq, Bool.or_eq_true, bne_iff_ne,
      UInt8.not_le.symm] at h
    obtain ⟨hx, hy⟩ := h
    by_cases h0 : x = 0
    · -- the zero stands before a byte that has the high bit
      have hhigh : 0x80 ≤ y := hy.resolve_left (not_not.mpr h0)
      have hy0 : y ≠ 0 := fun he => absurd (he ▸ hhigh) (by decide)
      have hval : ofBytesBE (x :: y :: b) = ofBytesBE (y :: b) := by
        rw [ofBytesBE_cons, h0, UInt8.toNat_zero, Nat.zero_mul, Nat.zero_add]
      rw [hval, bigBytes_ofBytesBE hy0]
      simp [high_bit, hhigh, h0]
    · rw [bigBytes_ofBytesBE h0]
      simp [high_bit, hx]

lemma minimal_derContents (v : ℤ) : minimal (derContents v) = true := by
  rw [derContents]
  by_cases hv : v.natAbs = 0
  · rw [hv]
    rfl
  · obtain ⟨x, b, hb, hx⟩ := bigBytes_head hv
    simp only [hb, List.length_cons, Nat.succ_ne_zero, if_false, List.headD_cons, high_bit]
    split_ifs with hhigh
    · simp [minimal, hhigh]
    · cases b <;> simp [minimal, hx, UInt8.not_le.mp hhigh]

/-- A number and its tag and length. -/
def tlv (x : Bytes) : Bytes := [0x02, UInt8.ofNat x.length] ++ x

lemma length_tlv (x : Bytes) : (tlv x).length = x.length + 2 := by
  rw [tlv, List.length_append, List.length_cons, List.length_singleton, Nat.add_comm]

lemma readInt_some {b : Bytes} {i j : ℕ} {v : ℤ} (h : readInt b i = some (v, j)) :
    ∃ x : Bytes, b.drop i = tlv x ++ b.drop j ∧ j = i + 2 + x.length ∧ x.length < 256 ∧
      v = ofBytesBE x ∧
      i ≤ b.length := by
  unfold readInt at h
  dsimp only at h
  split_ifs at h with htag hlen
  rw [not_or, not_not] at htag
  obtain ⟨hi, htag⟩ := htag
  cases h
  have hl := (b.getD (i + 1) 0).toNat_lt
  have hx : ((b.drop (i + 2)).take (b.getD (i + 1) 0).toNat).length = (b.getD (i + 1) 0).toNat := by
    rw [List.length_take, List.length_drop]
    omega
  refine ⟨(b.drop (i + 2)).take (b.getD (i + 1) 0).toNat, ?_, by rw [hx], by omega, rfl, by omega⟩
  have h0 : b[i] = 0x02 := by simpa [List.getD_eq_getElem, show i < b.length by omega] using htag
  have h1 : b.getD (i + 1) 0 = b[i + 1] := List.getD_eq_getElem _ _ (by omega)
  have hrest : b.drop (i + 2 + (b.getD (i + 1) 0).toNat) =
    (b.drop (i + 2)).drop (b.getD (i + 1) 0).toNat :=
    List.drop_drop.symm
  rw [tlv, hx, UInt8.ofNat_toNat, List.append_assoc, hrest, List.take_append_drop,
    List.drop_eq_getElem_cons (by omega : i < b.length),
    List.drop_eq_getElem_cons (by omega : i + 1 < b.length), h0, h1]
  rfl

lemma derDecode_some {b : Bytes} {r s : ℤ} (h : derDecode b = some (r, s)) :
    ∃ x y tail : Bytes, b = [0x30, UInt8.ofNat (b.length - 2)] ++ (tlv x ++ (tlv y ++ tail)) ∧
      r = ofBytesBE x ∧ s = ofBytesBE y ∧ b.length < 258 := by
  unfold derDecode at h
  split_ifs at h with htag hsize
  rw [not_or, not_not] at htag
  rw [not_not] at hsize
  obtain ⟨hlen, htag⟩ := htag
  simp only [Option.bind_eq_bind, Option.bind_eq_some_iff, Prod.exists, Option.some.injEq,
    Prod.mk.injEq] at h
  obtain ⟨r', i, hr, s', j, hs, rfl, rfl⟩ := h
  obtain ⟨x, hx, rfl, -, hxr, -⟩ := readInt_some hr
  obtain ⟨y, hy, rfl, -, hys, -⟩ := readInt_some hs
  have hbyte := (b.getD 1 0).toNat_lt
  refine ⟨x, y, b.drop (2 + 2 + x.length + 2 + y.length), ?_, hxr, hys, by omega⟩
  rw [← hy, ← hx, ← hsize, UInt8.ofNat_toNat]
  match b, hlen with
  | c :: d :: b, _ =>
    rw [List.headD_cons] at htag
    rw [htag]
    rfl

/-- What is behind a number, where its bytes pass a test. -/
def skipNumber (p : Bytes → Bool) : Bytes → Option Bytes
  | _ :: l :: b => if p (b.take l.toNat) then some (b.drop l.toNat) else none
  | _ => none

/-- The two numbers of a sequence pass a test and there is nothing behind them. -/
def derForm (p : Bytes → Bool) (b : Bytes) : Bool :=
  (skipNumber p (b.drop 2)).bind (skipNumber p) == some []

/-- The two numbers of a sequence are minimal and there is nothing behind them. -/
def derStrict : Bytes → Bool := derForm minimal

/-- They are also not zero. -/
def derPositive : Bytes → Bool := derForm fun x => minimal x && x != [0]

lemma skipNumber_tlv (p : Bytes → Bool) {x : Bytes} (hx : x.length < 256) (rest : Bytes) :
    skipNumber p (tlv x ++ rest) = if p x then some rest else none := by
  simp [tlv, skipNumber, Nat.mod_eq_of_lt hx]

lemma derForm_iff (p : Bytes → Bool) {x y : Bytes} (hx : x.length < 256) (hy : y.length < 256)
    (c d : UInt8) (tail : Bytes) :
    derForm p ([c, d] ++ (tlv x ++ (tlv y ++ tail))) = true ↔
      p x = true ∧ p y = true ∧ tail = [] := by
  change ((skipNumber p (tlv x ++ (tlv y ++ tail))).bind (skipNumber p) == some []) = true ↔ _
  rw [skipNumber_tlv p hx]
  cases p x with
  | false => simp
  | true =>
    rw [if_pos rfl, Option.bind_some, skipNumber_tlv p hy]
    cases p y <;> simp

lemma derEncode_contents (r s : ℤ) : derEncode r s =
    [0x30, UInt8.ofNat (tlv (derContents r) ++ tlv (derContents s)).length] ++
      (tlv (derContents r) ++ (tlv (derContents s) ++ [])) := by
  rw [List.append_nil]
  rfl

/-- A signature that is decoded was encoded exactly when it is strict. -/
lemma eq_derEncode_iff {b : Bytes} {r s : ℤ} (h : derDecode b = some (r, s)) :
    b = derEncode r s ↔ derStrict b = true := by
  obtain ⟨x, y, tail, hb, hr, hs, hlen⟩ := derDecode_some h
  refine ⟨fun he => ?_, fun hstrict => ?_⟩
  · rw [he, derEncode_contents] at hlen ⊢
    simp only [List.length_append, length_tlv, List.length_cons, List.length_nil] at hlen
    exact (derForm_iff minimal (by omega) (by omega) _ _ _).mpr
      ⟨minimal_derContents r, minimal_derContents s, rfl⟩
  · have htotal := congrArg List.length hb
    simp only [List.length_append, length_tlv, List.length_cons, List.length_nil] at htotal
    rw [hb] at hstrict
    obtain ⟨hx, hy, rfl⟩ := (derForm_iff minimal (by omega) (by omega) _ _ _).mp hstrict
    have hbody : (tlv x ++ tlv y).length = b.length - 2 := by
      rw [List.length_append, length_tlv, length_tlv, htotal, List.length_nil]
      omega
    rw [derEncode_contents, hr, hs, derContents_of_minimal hx, derContents_of_minimal hy, hbody]
    exact hb

lemma pos_iff_of_minimal {x : Bytes} (h : minimal x = true) :
    (0 : ℤ) < ofBytesBE x ↔ (x != [0]) = true := by
  rw [bne_iff_ne, ← not_iff_not, not_not]
  constructor
  · intro h0
    have hzero : (ofBytesBE x : ℤ) = 0 := by omega
    rw [← derContents_of_minimal h, hzero]
    rfl
  · rintro rfl
    decide

/-- It was encoded from two positive numbers exactly when it is strict and neither is zero. -/
lemma eq_derEncode_pos_iff {b : Bytes} {r s : ℤ} (h : derDecode b = some (r, s)) :
    0 < r ∧ 0 < s ∧ b = derEncode r s ↔ derPositive b = true := by
  rw [eq_derEncode_iff h]
  obtain ⟨x, y, tail, hb, rfl, rfl, hlen⟩ := derDecode_some h
  have htotal := congrArg List.length hb
  simp only [List.length_append, length_tlv, List.length_cons, List.length_nil] at htotal
  rw [hb, derStrict, derPositive, derForm_iff _ (by omega) (by omega),
    derForm_iff _ (by omega) (by omega), Bool.and_eq_true, Bool.and_eq_true]
  constructor
  · rintro ⟨hr, hs, hx, hy, htail⟩
    exact ⟨⟨hx, (pos_iff_of_minimal hx).mp hr⟩, ⟨hy, (pos_iff_of_minimal hy).mp hs⟩, htail⟩
  · rintro ⟨⟨hx, hr⟩, ⟨hy, hs⟩, htail⟩
    exact ⟨(pos_iff_of_minimal hx).mpr hr, (pos_iff_of_minimal hy).mpr hs, hx, hy, htail⟩

/-! ### Signatures of inputs -/

/-- **A signature has one form exactly when it is strict.** For every transaction, input, script,
amount, key and bytes that are accepted: the bytes are the encoding of the two positive numbers they
decode to and one byte for the hash type exactly when both numbers are minimal and fill the
sequence. The same holds of all that is decoded, and it is the encoding of two positive numbers
exactly when neither is zero too. -/
theorem verifyInput_encoding_iff {pub : PublicKey} {t : Tx} {idx : ℕ} {scriptCode : Bytes}
    {amount : UInt64} {sig : Bytes} (h : verifyInput pub t idx scriptCode amount sig = .ok true) :
    (∃ r s, derDecode sig.dropLast = some (r, s) ∧ 0 < r ∧ 0 < s ∧
      (sig = derEncode r s ++ [sig.getLastD 0] ↔ derStrict sig.dropLast = true)) ∧
    ∀ b r s, derDecode b = some (r, s) →
      (b = derEncode r s ↔ derStrict b = true) ∧
      (0 < r ∧ 0 < s ∧ b = derEncode r s ↔ derPositive b = true) := by
  obtain ⟨hlen, r, s, hash, hdecode, -, -, hv⟩ := verifyInput_eq_true.mp h
  have hrange := inRange_of_verify hv
  refine ⟨⟨r, s, hdecode, hrange.r_pos, hrange.s_pos, ?_⟩,
    fun _ _ _ hb => ⟨eq_derEncode_iff hb, eq_derEncode_pos_iff hb⟩⟩
  rw [← eq_derEncode_iff hdecode]
  obtain rfl | ⟨der, c, rfl⟩ := List.eq_nil_or_concat sig
  · simp at hlen
  · rw [List.concat_eq_append, List.dropLast_concat, List.getLastD_concat, List.append_left_inj]

lemma ChannelTx.commitmentSighash_ok {c : ChannelTx} {toServer : UInt64} {h : Hash}
    (hok : c.commitmentSighash toServer = .ok h) :
    ∃ tx, c.commitmentTx toServer = .ok tx ∧
      tx.sighashForkID 0 c.redeem c.fundingValue sighashAllFork = .ok h := by
  unfold commitmentSighash at hok
  cases htx : c.commitmentTx toServer with
  | error e => rw [htx] at hok; cases hok
  | ok tx => rw [htx] at hok; exact ⟨tx, rfl, hok⟩

open Payment (sampleKey sampleParams sampleSig sampleSighash sampleSighash_eq sampleSig_verify)

/-- The first number of the sample signature with a zero byte more than it needs, and the sample
signature with a byte behind its second number. -/
def looseForms : List Bytes :=
  [[0x30, 0x45, 0x02, 0x21, 0x00] ++ beBytes 32 sampleSig.r.toNat ++ [0x02, 0x20] ++
    beBytes 32 sampleSig.s.toNat,
    [0x30, 0x45, 0x02, 0x20] ++ beBytes 32 sampleSig.r.toNat ++ [0x02, 0x20] ++
      beBytes 32 sampleSig.s.toNat ++ [0xff]]

lemma looseForms_eval : ∀ der ∈ looseForms,
    8 ≤ der.length ∧ derDecode der = some (sampleSig.r, sampleSig.s) ∧ derStrict der = false := by
  decide

lemma sample_verifyInput {der : Bytes} (hlen : 8 ≤ der.length)
    (h : derDecode der = some (sampleSig.r, sampleSig.s)) :
    ∃ t, sampleParams.channelTx.commitmentTx 1000 = .ok t ∧
      verifyInput sampleKey t 0 sampleParams.channelTx.redeem 100000 (der ++ [0x41]) =
        .ok true := by
  obtain ⟨t, ht, hh⟩ := ChannelTx.commitmentSighash_ok sampleSighash_eq
  refine ⟨t, ht,
    verifyInput_eq_true.mpr ⟨?_, sampleSig.r, sampleSig.s, sampleSighash, ?_, by decide, ?_,
      sampleSig_verify⟩⟩
  · rw [List.length_append, List.length_singleton]
    omega
  · rw [List.dropLast_concat, h]
  · rw [List.getLastD_concat]
    exact hh

/-- The sample signature as it is encoded is strict. -/
theorem verifyInput_encoding_sample : ∃ t,
    verifyInput sampleKey t 0 sampleParams.channelTx.redeem 100000
      (derEncode sampleSig.r sampleSig.s ++ [0x41]) = .ok true ∧
      derStrict (derEncode sampleSig.r sampleSig.s) = true ∧
      derPositive (derEncode sampleSig.r sampleSig.s) = true := by
  have hdecode : derDecode (derEncode sampleSig.r sampleSig.s) = some (sampleSig.r, sampleSig.s) :=
    (derDecode_derEncode (by decide) (by decide)).1
  obtain ⟨t, -, hok⟩ := sample_verifyInput (derDecode_derEncode (by decide) (by decide)).2 hdecode
  obtain ⟨-, hall⟩ := verifyInput_encoding_iff hok
  obtain ⟨hstrict, hpositive⟩ := hall _ _ _ hdecode
  exact ⟨t, hok, hstrict.mp rfl, hpositive.mp ⟨by decide, by decide, rfl⟩⟩

/-- **A signature has other forms.** A signature with a zero too many and one with a byte left over
in its sequence are accepted for the same input as the encoded one, and two zeros are decoded, with
no byte or with one. -/
theorem verifyInput_loose : ∃ t, sampleParams.channelTx.commitmentTx 1000 = .ok t ∧
    (∀ der ∈ looseForms, verifyInput sampleKey t 0 sampleParams.channelTx.redeem 100000
      (der ++ [0x41]) = .ok true ∧
      derDecode der = some (sampleSig.r, sampleSig.s) ∧ der ≠ derEncode sampleSig.r sampleSig.s) ∧
    derDecode [0x30, 0x06, 0x02, 0x00, 0x02, 0x00, 0x00, 0x00] = some (0, 0) ∧
    derDecode [0x30, 0x06, 0x02, 0x01, 0x00, 0x02, 0x01, 0x00] = some (0, 0) := by
  obtain ⟨t, ht, -⟩ := ChannelTx.commitmentSighash_ok sampleSighash_eq
  refine ⟨t, ht, fun der hder => ?_, by decide, by decide⟩
  obtain ⟨hlen, hdecode, hstrict⟩ := looseForms_eval der hder
  obtain ⟨t', ht', hok⟩ := sample_verifyInput hlen hdecode
  cases ht.symm.trans ht'
  refine ⟨hok, hdecode, fun he => ?_⟩
  rw [eq_derEncode_iff hdecode, hstrict] at he
  cases he

/-- **What is encoded is decoded.** For numbers below `2 ^ 256` the decoder gives back what was
encoded, and the encoding is a sequence of 8 to 72 bytes whose three lengths are those of what
follows them. -/
theorem derEncode_round_trip {r s : ℤ} (hr : 0 ≤ r ∧ r < 2 ^ 256) (hs : 0 ≤ s ∧ s < 2 ^ 256) :
    derDecode (derEncode r s) = some (r, s) ∧ 8 ≤ (derEncode r s).length ∧
      (derEncode r s).length ≤ 72 ∧
      ∃ (outer lr ls : UInt8) (x y : Bytes),
        derEncode r s = [0x30, outer] ++ ([0x02, lr] ++ x) ++ ([0x02, ls] ++ y) ∧
        outer.toNat = (derEncode r s).length - 2 ∧ lr.toNat = x.length ∧ ls.toNat = y.length := by
  obtain ⟨x, y, hx, hy, hxlen, hylen, -, -, hsize, htotal⟩ := derEncode_eq hr hs
  obtain ⟨hdecode, h8⟩ := derDecode_derEncode hr hs
  have hshape : derEncode r s = [0x30, UInt8.ofNat (derEncodeInt r ++ derEncodeInt s).length] ++
      ([0x02, UInt8.ofNat x.length] ++ x) ++ ([0x02, UInt8.ofNat y.length] ++ y) := by
    rw [← hx, ← hy, List.append_assoc]
    rfl
  refine ⟨hdecode, h8, by omega, _, _, _, x, y, hshape, by omega, ?_, ?_⟩
  · rw [UInt8.toNat_ofNat', Nat.mod_eq_of_lt (by omega)]
  · rw [UInt8.toNat_ofNat', Nat.mod_eq_of_lt (by omega)]

theorem derEncode_round_trip_zero : derDecode (derEncode 0 (2 ^ 256 - 1)) = some (0, 2 ^ 256 - 1) :=
  (derEncode_round_trip (r := 0) (s := 2 ^ 256 - 1) (by decide) (by decide)).1

end MemServe.Bsvtx
