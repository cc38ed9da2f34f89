import MemServe.Codes
import MemServe.Radix
import MemServe.Sign
import MemServe.Utf8

/-!
Base58 and Base58Check.

A byte string and its Base58 form are the same number after the same number of zeros, in base 256
and in base 58. The decoder ranges over runes but looks at their low bytes only.
-/

namespace MemServe.Bsvtx

open Crypto Radix Utf8

inductive AddressError
  /-- `bsvtx: invalid base58 character` -/
  | character
  /-- `bsvtx: base58check too short` -/
  | short
  /-- `bsvtx: bad base58check checksum` -/
  | checksum
  deriving DecidableEq

def b58alphabet : Bytes :=
  ['1', '2', '3', '4', '5', '6', '7', '8', '9', 'A', 'B', 'C', 'D', 'E', 'F', 'G', 'H', 'J', 'K',
    'L', 'M', 'N', 'P', 'Q',
    'R', 'S', 'T', 'U', 'V', 'W', 'X', 'Y', 'Z', 'a', 'b', 'c', 'd', 'e', 'f', 'g', 'h', 'i', 'j',
      'k', 'm', 'n', 'o', 'p',
    'q', 'r', 's', 't', 'u', 'v', 'w', 'x', 'y', 'z'].map fun c => UInt8.ofNat c.toNat

/-- `b58alphabet[i]`. -/
def b58char (i : ℕ) : UInt8 := b58alphabet.getD i 0

/-- The digits of `n`, least significant first. -/
def base58Loop (n : ℕ) (out : Bytes) : Bytes :=
  if 0 < n then base58Loop (n / 58) (out ++ [b58char (n % 58)]) else out
termination_by n
decreasing_by exact Nat.div_lt_self (by omega) (by omega)

def base58Encode (b : Bytes) : Bytes :=
  let out := base58Loop (ofBytesBE b) []
  let out := out ++ List.replicate (b.takeWhile (· == 0)).length (b58char 0)
  out.reverse

/-- The place of a byte in the alphabet. -/
def b58index (c : UInt8) : Option ℕ := b58alphabet.findIdx? (· == c)

/-- One rune of `Base58Decode`. -/
def base58Step (n r : ℕ) : Except AddressError ℕ :=
  match b58index (UInt8.ofNat r) with
  | none => .error .character
  | some idx => .ok (n * 58 + idx)

def base58Decode (s : Bytes) : Except AddressError Bytes := do
  let n ← (runes s).foldlM base58Step 0
  let out := bigBytes n
  .ok (List.replicate ((runes s).takeWhile fun r => UInt8.ofNat r == b58char 0).length 0 ++ out)

def base58Check (payload : Bytes) : Bytes :=
  let c := Sha256.sum256 payload
  let c := Sha256.sum256 c.1
  base58Encode (payload ++ c.1.take 4)

def base58CheckDecode (s : Bytes) : Except AddressError Bytes := do
  let raw ← base58Decode s
  if raw.length < 5 then .error .short
  else
    let payload := raw.take (raw.length - 4)
    let sum := raw.drop (raw.length - 4)
    let c := Sha256.sum256 payload
    let c := Sha256.sum256 c.1
    if c.1.take 4 ≠ sum then .error .checksum else .ok payload

lemma b58index_char {d : ℕ} (hd : d < 58) : b58index (b58char d) = some d := by
  have h : ∀ d < 58, b58index (b58char d) = some d := by decide
  exact h d hd

lemma b58char_mem {d : ℕ} (hd : d < 58) : b58char d ∈ b58alphabet := by
  have h : ∀ d < 58, b58char d ∈ b58alphabet := by decide
  exact h d hd

lemma b58alphabet_ascii : ∀ c ∈ b58alphabet, c < 0x80 := by
  have h : b58alphabet.all (· < 0x80) = true := by decide
  exact fun c hc => of_decide_eq_true (List.all_eq_true.mp h c hc)

lemma b58index_eq_some {c : UInt8} {d : ℕ} : b58index c = some d ↔ d < 58 ∧ b58char d = c := by
  constructor
  · intro h
    obtain ⟨hlt, hc, -⟩ := List.findIdx?_eq_some_iff_getElem.mp h
    exact ⟨hlt, by rw [b58char, List.getD_eq_getElem _ _ hlt]; simpa using hc⟩
  · rintro ⟨hd, rfl⟩
    exact b58index_char hd

lemma b58char_inj {d e : ℕ} (hd : d < 58) (he : e < 58) (h : b58char d = b58char e) : d = e := by
  have hindex := congrArg b58index h
  rw [b58index_char hd, b58index_char he] at hindex
  exact Option.some.inj hindex

lemma b58index_isSome {c : UInt8} : (∃ d, b58index c = some d) ↔ c ∈ b58alphabet := by
  rw [← Option.isSome_iff_exists, b58index, List.findIdx?_isSome, List.any_eq_true]
  simp

/-- The digits of a byte string in base 256. -/
def digits256 (b : Bytes) : List ℕ := b.map UInt8.toNat

lemma digits256_lt (b : Bytes) : ∀ d ∈ digits256 b, d < 256 := by
  intro d hd
  obtain ⟨x, -, rfl⟩ := List.mem_map.mp hd
  exact x.toNat_lt

lemma map_ofNat_digits256 (b : Bytes) : (digits256 b).map UInt8.ofNat = b := by
  simp [digits256, Function.comp_def]

lemma digits256_map_ofNat {ds : List ℕ} (h : ∀ d ∈ ds, d < 256) :
    digits256 (ds.map UInt8.ofNat) = ds := by
  rw [digits256, List.map_map]
  refine (List.map_congr_left fun d hd => ?_).trans (List.map_id ds)
  exact UInt8.toNat_ofNat_of_lt' (h d hd)

lemma ofBytesBE_eq_value (b : Bytes) : ofBytesBE b = value 256 (digits256 b) := by
  rw [value, digits256, List.foldl_map]
  rfl

lemma zeros_digits256 (b : Bytes) : zeros (digits256 b) = (b.takeWhile (· == 0)).length := by
  have hzero : (fun x : UInt8 => x.toNat == 0) = (· == 0) := by
    funext x
    rw [Bool.eq_iff_iff, beq_iff_eq, beq_iff_eq, ← UInt8.toNat_inj]
    rfl
  rw [zeros, digits256, List.takeWhile_map, List.length_map]
  exact congrArg (fun p => (b.takeWhile p).length) hzero

lemma bigBytes_eq_numeral (v : ℕ) : bigBytes v = (numeral 256 0 v).map UInt8.ofNat := by
  have hval : ofBytesBE ((numeral 256 0 v).map UInt8.ofNat) = v := by
    rw [ofBytesBE_eq_value, digits256_map_ofNat fun d => lt_of_mem_numeral (by omega),
      value_numeral]
  have hzeros := zeros_numeral 256 0 v
  have hlt : ∀ d ∈ numeral 256 0 v, d < 256 := fun d => lt_of_mem_numeral (by omega)
  cases hds : numeral 256 0 v with
  | nil =>
    obtain rfl : 0 = v := by rwa [hds] at hval
    rfl
  | cons d ds =>
    rw [hds] at hval hzeros hlt
    -- the first digit is not 0, or there would be a zero before the number
    have hd : UInt8.ofNat d ≠ 0 := by
      intro h
      have h0 := congrArg UInt8.toNat h
      rw [UInt8.toNat_ofNat_of_lt' (hlt d List.mem_cons_self)] at h0
      rw [show d = 0 from h0, zeros_zero_cons] at hzeros
      omega
    rw [List.map_cons] at hval ⊢
    rw [← hval, bigBytes_ofBytesBE hd]

lemma base58Loop_eq (n : ℕ) (out : Bytes) :
    base58Loop n out = out ++ (Nat.digits 58 n).map b58char := by
  induction n using Nat.strong_induction_on generalizing out with
  | _ n ih =>
    rw [base58Loop]
    split_ifs with hn
    · rw [ih _ (Nat.div_lt_self hn (by omega)), Nat.digits_def' (by omega) hn, List.map_cons,
        List.append_assoc]
      rfl
    · rw [Nat.eq_zero_of_not_pos hn, Nat.digits_zero, List.map_nil, List.append_nil]

lemma base58Encode_eq (b : Bytes) :
    base58Encode b = (numeral 58 (zeros (digits256 b)) (value 256 (digits256 b))).map b58char := by
  rw [base58Encode, base58Loop_eq, List.nil_append, List.reverse_append, List.reverse_replicate,
    ← zeros_digits256, ofBytesBE_eq_value, numeral, List.map_append, List.map_replicate,
    List.map_reverse]

def runeDigits (rs : List ℕ) : Option (List ℕ) := rs.mapM fun r => b58index (UInt8.ofNat r)

lemma foldlM_base58Step (rs : List ℕ) (n : ℕ) :
    rs.foldlM base58Step n =
      (runeDigits rs).elim (.error .character) fun ds =>
        .ok (ds.foldl (fun v d => v * 58 + d) n) := by
  induction rs generalizing n with
  | nil => rfl
  | cons r rs ih =>
    rw [List.foldlM_cons, runeDigits, List.mapM_cons, base58Step]
    cases hr : b58index (UInt8.ofNat r) with
    | none => rfl
    | some d =>
      refine (ih _).trans ?_
      rw [runeDigits]
      cases rs.mapM fun r => b58index (UInt8.ofNat r) <;> rfl

lemma runeDigits_eq_some {rs ds : List ℕ} :
    runeDigits rs = some ds ↔ (∀ d ∈ ds, d < 58) ∧ ds.map b58char = rs.map UInt8.ofNat := by
  rw [runeDigits, mapM_eq_some_iff, ← List.forall₂_eq_eq_eq, List.forall₂_map_left_iff,
    List.forall₂_map_right_iff, ← List.forall₂_and_left]
  simp only [b58index_eq_some]

lemma exists_runeDigits {rs : List ℕ} :
    (∃ ds, runeDigits rs = some ds) ↔ ∀ r ∈ rs, UInt8.ofNat r ∈ b58alphabet := by
  simp only [← b58index_isSome]
  exact exists_mapM_eq_some_iff

lemma takeWhile_one {ds : List ℕ} (h : ∀ d ∈ ds, d < 58) :
    ((ds.map b58char).takeWhile (· == b58char 0)).length = zeros ds := by
  induction ds with
  | nil => rfl
  | cons d ds ih =>
    obtain ⟨hd, hds⟩ := List.forall_mem_cons.mp h
    by_cases h0 : d = 0
    · rw [h0, zeros_zero_cons, ← ih hds]
      simp
    · have hne : b58char d ≠ b58char 0 := fun h => h0 (b58char_inj hd (by omega) h)
      rw [zeros_cons h0]
      simp [hne]

/-- **What the decoder returns**: the digits of the low bytes, in base 256. -/
lemma base58Decode_eq (s : Bytes) :
    base58Decode s = (runeDigits (runes s)).elim (.error .character) fun ds =>
      .ok ((numeral 256 (zeros ds) (value 58 ds)).map UInt8.ofNat) := by
  rw [base58Decode, foldlM_base58Step]
  cases hds : runeDigits (runes s) with
  | none => rfl
  | some ds =>
    obtain ⟨hlt, hmap⟩ := runeDigits_eq_some.mp hds
    have hones : ((runes s).takeWhile fun r => UInt8.ofNat r == b58char 0).length = zeros ds := by
      rw [← takeWhile_one hlt, hmap, List.takeWhile_map, List.length_map]
      rfl
    simp only [Option.elim_some, bind, Except.bind, hones, bigBytes_eq_numeral, numeral,
      List.map_append, List.map_replicate, List.replicate_zero, List.nil_append]
    rfl

lemma base58Decode_ok {s b : Bytes} :
    base58Decode s = .ok b ↔ ∃ ds, runeDigits (runes s) = some ds ∧
      b = (numeral 256 (zeros ds) (value 58 ds)).map UInt8.ofNat := by
  rw [base58Decode_eq]
  cases runeDigits (runes s) with
  | none => simp
  | some ds => simp [eq_comm]

lemma runeDigits_of_ascii {s : Bytes} (hs : ∀ c ∈ s, c < 0x80) {ds : List ℕ} :
    runeDigits (runes s) = some ds ↔ (∀ d ∈ ds, d < 58) ∧ s = ds.map b58char := by
  rw [runeDigits_eq_some, runes_of_ascii hs, ← digits256, map_ofNat_digits256]
  exact and_congr_right' eq_comm

/-! ### Round trips -/

lemma base58Decode_encode (b : Bytes) : base58Decode (base58Encode b) = .ok b := by
  have hlt : ∀ d ∈ numeral 58 (zeros (digits256 b)) (value 256 (digits256 b)), d < 58 :=
    fun d => lt_of_mem_numeral (by omega)
  have hascii : ∀ c ∈ base58Encode b, c < 0x80 := by
    intro c hc
    rw [base58Encode_eq] at hc
    obtain ⟨d, hd, rfl⟩ := List.mem_map.mp hc
    exact b58alphabet_ascii _ (b58char_mem (hlt d hd))
  refine base58Decode_ok.mpr ⟨_, (runeDigits_of_ascii hascii).mpr ⟨hlt, base58Encode_eq b⟩, ?_⟩
  rw [zeros_numeral, value_numeral, numeral_eq (by omega) (digits256_lt b), map_ofNat_digits256]

lemma base58Encode_decode {s b : Bytes} (hs : ∀ c ∈ s, c < 0x80) (h : base58Decode s = .ok b) :
    base58Encode b = s := by
  obtain ⟨ds, hds, rfl⟩ := base58Decode_ok.mp h
  obtain ⟨hlt, rfl⟩ := (runeDigits_of_ascii hs).mp hds
  rw [base58Encode_eq, digits256_map_ofNat fun d => lt_of_mem_numeral (by omega), zeros_numeral,
    value_numeral, numeral_eq (by omega) hlt]

/-- **Base58 and Base58Check round-trip.** Every byte string is decoded from its encoding, and every
payload that is not empty from its encoding with a checksum. -/
theorem base58_round_trip :
    (∀ b, base58Decode (base58Encode b) = .ok b) ∧
      ∀ payload, payload ≠ [] → base58CheckDecode (base58Check payload) = .ok payload := by
  refine ⟨base58Decode_encode, fun payload hne => ?_⟩
  rw [base58CheckDecode, base58Check, base58Decode_encode]
  have hsum : ((Sha256.sum256 (Sha256.sum256 payload).1).1.take 4).length = 4 := by
    rw [List.length_take, ByteArr.length_val]
    rfl
  generalize hc : (Sha256.sum256 (Sha256.sum256 payload).1).1.take 4 = sum at hsum
  have hlen : (payload ++ sum).length = payload.length + 4 := by rw [List.length_append, hsum]
  have hpos : 0 < payload.length := List.length_pos_iff.mpr hne
  have htake : (payload ++ sum).take ((payload ++ sum).length - 4) = payload := by
    rw [hlen, Nat.add_sub_cancel, List.take_left]
  have hdrop : (payload ++ sum).drop ((payload ++ sum).length - 4) = sum := by
    rw [hlen, Nat.add_sub_cancel, List.drop_left]
  simp only [bind, Except.bind, htake, hdrop, hc, ne_eq, not_true_eq_false, if_false]
  rw [if_neg (by omega)]

theorem base58_round_trip_sample : base58CheckDecode (base58Check [0x00]) = .ok [0x00] :=
  base58_round_trip.2 [0x00] (by decide)

/-- **What the decoder accepts.** A string is decoded if the low bytes of its runes are characters
of Base58. So it is decoded exactly if its bytes are, and encoded back to itself, exactly when it is
of ASCII or the low byte of one of its runes is not. -/
theorem base58Decode_language_iff (s : Bytes) :
    ((∃ b, base58Decode s = .ok b) ↔ ∀ r ∈ runes s, UInt8.ofNat r ∈ b58alphabet) ∧
    ((((∃ b, base58Decode s = .ok b) ↔ ∀ c ∈ s, c ∈ b58alphabet) ∧
      ∀ b, base58Decode s = .ok b → base58Encode b = s) ↔
      ((∀ r ∈ runes s, UInt8.ofNat r ∈ b58alphabet) → ∀ c ∈ s, c < 0x80)) := by
  have haccept : (∃ b, base58Decode s = .ok b) ↔ ∀ r ∈ runes s, UInt8.ofNat r ∈ b58alphabet := by
    rw [← exists_runeDigits]
    constructor
    · rintro ⟨b, hb⟩
      obtain ⟨ds, hds, -⟩ := base58Decode_ok.mp hb
      exact ⟨ds, hds⟩
    · rintro ⟨ds, hds⟩
      exact ⟨_, base58Decode_ok.mpr ⟨ds, hds, rfl⟩⟩
  refine ⟨haccept, ?_, fun hascii => ⟨⟨fun hok => ?_, fun hall => ?_⟩, fun b hb => ?_⟩⟩
  · rintro ⟨hbytes, -⟩ hrunes c hc
    exact b58alphabet_ascii c (hbytes.mp (haccept.mpr hrunes) c hc)
  · have hrunes := runes_of_ascii (hascii (haccept.mp hok))
    intro c hc
    have h := haccept.mp hok c.toNat (by rw [hrunes]; exact List.mem_map_of_mem hc)
    rwa [UInt8.ofNat_toNat] at h
  · rw [haccept, runes_of_ascii fun c hc => b58alphabet_ascii c (hall c hc)]
    intro r hr
    obtain ⟨c, hc, rfl⟩ := List.mem_map.mp hr
    rw [UInt8.ofNat_toNat]
    exact hall c hc
  · exact base58Encode_decode (hascii (haccept.mp ⟨b, hb⟩)) hb

/-- Of a string of ASCII. -/
theorem base58Decode_language_ascii :
    ((∃ b, base58Decode [0x31, 0x7a] = .ok b) ↔ ∀ c ∈ ([0x31, 0x7a] : Bytes), c ∈ b58alphabet) ∧
      ∀ b, base58Decode [0x31, 0x7a] = .ok b → base58Encode b = [0x31, 0x7a] :=
  (base58Decode_language_iff [0x31, 0x7a]).2.mpr fun _ =>
    List.forall_mem_cons.mpr ⟨by decide, List.forall_mem_singleton.mpr (by decide)⟩

/-- **A character that is not of Base58 is decoded.** The string of the one rune `U+0131` is decoded
as `1` is. -/
theorem base58Decode_foreign :
    base58Decode [0xC4, 0xB1] = .ok [0x00] ∧ ¬(∀ c ∈ ([0xC4, 0xB1] : Bytes), c ∈ b58alphabet) ∧
      base58Encode [0x00] = [0x31] := by
  have hdecode : decodeRune 0xC4 [0xB1] = (0x131, 1) := by decide
  have hrunes : runes [0xC4, 0xB1] = [0x131] := by
    rw [runes, hdecode, List.drop_one, List.tail_cons, runes]
  refine ⟨base58Decode_ok.mpr ⟨[0], ?_, ?_⟩,
    fun h => absurd (h 0xC4 List.mem_cons_self) (by decide), ?_⟩
  · rw [hrunes]
    decide
  · simp [numeral, zeros, value]
  · have hone : base58Encode [0x00] = [b58char 0] := by
      rw [base58Encode_eq]
      simp [digits256, numeral, zeros, value]
    rw [hone]
    decide

end MemServe.Bsvtx
