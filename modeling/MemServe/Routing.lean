import MemServe.Ladder
import MemServe.Shard

/-!
The shards as ranges of the first 32 bits, and the router over them.

A shard of width `k` is the quotient of these bits by `2 ^ (32 - k)`, for every width up to 32.
Widths and numbers of servers are words of 32 bits, and `2 ^ 32` is 0 among them.
-/

namespace MemServe.Shard

/-- The first 32 bits of a hash. -/
def top (h : Hash) : ℕ := ofBytesBE (h.1.take 4)

lemma top_lt (h : Hash) : top h < 2 ^ 32 := by
  have hlen : (h.1.take 4).length = 4 := by
    rw [List.length_take, h.2]
    rfl
  have hlt := ofBytesBE_lt (h.1.take 4)
  rwa [hlen] at hlt

lemma exists_top {v : ℕ} (hv : v < 2 ^ 32) : ∃ h, top h = v := by
  have hlt : v < 256 ^ 4 := hv
  let b : Hash := ⟨beBytes 4 v ++ List.replicate 28 0, by simp⟩
  refine ⟨b, ?_⟩
  rw [top, List.take_left' (length_beBytes 4 v), ofBytesBE_beBytes, Nat.mod_eq_of_lt hlt]

lemma of_toNat (h : Hash) {k : ℕ} (hk : k ≤ 32) : (of h k).toNat = top h / 2 ^ (32 - k) := by
  have htop := top_lt h
  unfold of
  split_ifs with h0 hmax
  · rw [h0, Nat.div_eq_of_lt htop]
    rfl
  · exact absurd hmax (Nat.not_lt.mpr hk)
  · have hle : top h / 2 ^ (32 - k) ≤ top h := Nat.div_le_self _ _
    rw [UInt32.toNat_ofNat_of_lt' (by rw [Nat.shiftRight_eq_div_pow]; exact hle.trans_lt htop),
      Nat.shiftRight_eq_div_pow]
    rfl

lemma two_pow_sub {k : ℕ} (hk : k ≤ 32) : 2 ^ k * 2 ^ (32 - k) = 2 ^ 32 := by
  rw [← Nat.pow_add, Nat.add_sub_cancel' hk]

lemma of_lt (h : Hash) {k : ℕ} (hk : k ≤ 32) : (of h k).toNat < 2 ^ k := by
  rw [of_toNat h hk, Nat.div_lt_iff_lt_mul (Nat.two_pow_pos _), two_pow_sub hk]
  exact top_lt h

lemma exists_of {k i : ℕ} (hk : k ≤ 32) (hi : i < 2 ^ k) : ∃ h, (of h k).toNat = i := by
  have hlt : i * 2 ^ (32 - k) < 2 ^ 32 := by
    rw [← two_pow_sub hk]
    exact Nat.mul_lt_mul_of_pos_right hi (Nat.two_pow_pos _)
  obtain ⟨h, hh⟩ := exists_top hlt
  exact ⟨h, by rw [of_toNat h hk, hh, Nat.mul_div_cancel _ (Nat.two_pow_pos _)]⟩

/-- The bits of a byte string, those of the first byte first. -/
def bitsBE (b : Bytes) : List Bool := b.flatMap fun x => Ladder.bits x.toNat 8

def digit (b : Bool) : UInt8 := if b then 49 else 48

lemma bits_ofBytesBE (b : Bytes) : Ladder.bits (ofBytesBE b) (8 * b.length) = bitsBE b := by
  induction b with
  | nil => rfl
  | cons x b ih =>
    have hlt : ofBytesBE b < 2 ^ (8 * b.length) := by
      rw [Nat.pow_mul]
      exact ofBytesBE_lt b
    have hval : ofBytesBE (x :: b) = 2 ^ (8 * b.length) * x.toNat + ofBytesBE b := by
      rw [ofBytesBE_cons, Nat.pow_mul, Nat.mul_comm]
    have hhigh : ofBytesBE (x :: b) >>> (8 * b.length) = x.toNat := by
      rw [hval, Nat.shiftRight_eq_div_pow, Nat.mul_add_div (Nat.two_pow_pos _),
        Nat.div_eq_of_lt hlt, Nat.add_zero]
    have hlow : ofBytesBE (x :: b) % 2 ^ (8 * b.length) = ofBytesBE b := by
      rw [hval, Nat.mul_add_mod, Nat.mod_eq_of_lt hlt]
    rw [List.length_cons, Nat.mul_succ, Nat.add_comm, Ladder.bits_add, hhigh,
      ← Ladder.bits_mod _ (8 * b.length), hlow, ih]
    rfl

lemma take_bitsBE (h : Hash) {k : ℕ} (hk : k ≤ 32) :
    (bitsBE h.1).take k = Ladder.bits (of h k).toNat k := by
  have hlen : (h.1.take 4).length = 4 := by
    rw [List.length_take, h.2]
    rfl
  have hsplit : bitsBE h.1 = Ladder.bits (top h) 32 ++ bitsBE (h.1.drop 4) := by
    have hbits := bits_ofBytesBE (h.1.take 4)
    rw [hlen] at hbits
    rw [top, hbits, bitsBE, bitsBE, bitsBE, ← List.flatMap_append, List.take_append_drop]
  have hadd := Ladder.bits_add (top h) k (32 - k)
  rw [Nat.add_sub_cancel' hk] at hadd
  rw [hsplit, hadd, List.append_assoc, List.take_left' (Ladder.length_bits _ _), of_toNat h hk,
    Nat.shiftRight_eq_div_pow]

lemma prefixBits_eq (k : ℕ) (id : UInt32) :
    prefixBits k id = (Ladder.bits id.toNat k).map digit := by
  have hdigit : ∀ n i, UInt8.ofNat (48 + (n >>> i &&& 1)) = digit (n.testBit i) := by
    intro n i
    rw [Nat.testBit, Nat.and_comm]
    rcases Nat.mod_two_eq_zero_or_one (n >>> i) with h | h <;> simp [h, digit]
  have hbits : ∀ k, (List.range k).map (fun i => digit (id.toNat.testBit (k - 1 - i))) =
      (Ladder.bits id.toNat k).map digit := by
    intro k
    induction k with
    | zero => rfl
    | succ k ih =>
      rw [List.range_succ_eq_map, List.map_cons, List.map_map, Ladder.bits, List.map_cons, ← ih]
      refine congrArg₂ _ (by simp) (List.map_congr_left fun i _ => ?_)
      simp only [Function.comp, Nat.add_sub_cancel]
      rw [Nat.succ_eq_add_one, show k - (i + 1) = k - 1 - i by omega]
  unfold prefixBits
  split_ifs with h0
  · rw [h0]
    rfl
  · simp only [hdigit, hbits]

lemma owns_eq (h : Hash) (k : ℕ) (id : UInt32) :
    owns h k id = decide ((of h k).toNat = id.toNat) := by
  rw [owns, Bool.beq_eq_decide_eq, decide_eq_decide, UInt32.toNat_inj]

lemma of_succ (h : Hash) {k : ℕ} (hk : k < 32) : (of h k).toNat = (of h (k + 1)).toNat / 2 := by
  rw [of_toNat h hk.le, of_toNat h hk, Nat.div_div_eq_div_mul, ← Nat.pow_succ]
  congr 2
  omega

lemma split_toNat {k : ℕ} (hk : k < 32) {id : UInt32} (hid : id.toNat < 2 ^ k) :
    (split k id).1.toNat = 2 * id.toNat ∧ (split k id).2.toNat = 2 * id.toNat + 1 := by
  have hle : 2 ^ k ≤ 2 ^ 31 := Nat.pow_le_pow_right (by omega) (by omega)
  have hlo : (id <<< 1).toNat = 2 * id.toNat := by
    rw [UInt32.toNat_shiftLeft]
    simp only [UInt32.reduceToNat, Nat.reduceMod, Nat.shiftLeft_eq, Nat.pow_one]
    omega
  refine ⟨hlo, ?_⟩
  rw [split, UInt32.toNat_or, hlo]
  exact (Nat.two_pow_add_eq_or_of_lt (i := 1) (b := 1) (by omega) id.toNat).symm

/-- **Shards are ranges that split cleanly.** The name of the shard of a hash is what the hash
starts with; a shard owns the hashes whose first 32 bits are in its range; and it owns a hash
exactly when one of its two halves does, no half of another shard then doing so. -/
theorem shards_split (h : Hash) {k : ℕ} (hk : k < 32) {id : UInt32} (hid : id.toNat < 2 ^ k) :
    prefixBits k (of h k) = ((bitsBE h.1).take k).map digit ∧
    (owns h k id = true ↔ id.toNat * 2 ^ (32 - k) ≤ top h ∧ top h < (id.toNat + 1) * 2 ^ (32 - k)) ∧
    (owns h k id = true ↔ (owns h (k + 1) (split k id).1 ^^ owns h (k + 1) (split k id).2) = true) ∧
    (owns h k id = true → ∀ id' : UInt32, id'.toNat < 2 ^ k → id' ≠ id →
      owns h (k + 1) (split k id').1 = false ∧ owns h (k + 1) (split k id').2 = false) := by
  have hsucc := of_succ h hk
  -- which of the halves of a shard owns the hash
  have hchild : ∀ i : UInt32, i.toNat < 2 ^ k →
      owns h (k + 1) (split k i).1 = decide ((of h (k + 1)).toNat = 2 * i.toNat) ∧
        owns h (k + 1) (split k i).2 = decide ((of h (k + 1)).toNat = 2 * i.toNat + 1) := by
    intro i hi
    obtain ⟨hlo, hhi⟩ := split_toNat hk hi
    rw [owns_eq, owns_eq, hlo, hhi]
    exact ⟨rfl, rfl⟩
  refine ⟨by rw [prefixBits_eq, take_bitsBE h hk.le], ?_, ?_, ?_⟩
  · rw [owns_eq, decide_eq_true_iff, of_toNat h hk.le, Nat.div_eq_iff (Nat.two_pow_pos _),
      Nat.add_mul, Nat.one_mul]
    have hpos := Nat.two_pow_pos (32 - k)
    omega
  · obtain ⟨hlo, hhi⟩ := hchild id hid
    rw [owns_eq, decide_eq_true_iff, hsucc, hlo, hhi, Bool.xor_iff_ne, Ne, decide_eq_decide]
    omega
  · intro hown id' hid' hne
    rw [owns_eq, decide_eq_true_iff, hsucc] at hown
    have hne' : id'.toNat ≠ id.toNat := fun h => hne (UInt32.toNat_inj.mp h)
    obtain ⟨hlo, hhi⟩ := hchild id' hid'
    rw [hlo, hhi, decide_eq_false_iff_not, decide_eq_false_iff_not]
    omega

/-- The hash of bytes `0xA0` at width 3: shard 5, whose name is `101`, and at width 4 its lower
half. -/
theorem shards_split_sample :
    prefixBits 3 (of (.fill 32 0xA0) 3) = [49, 48, 49] ∧ owns (.fill 32 0xA0) 3 5 = true ∧
      (owns (.fill 32 0xA0) 4 10 ^^ owns (.fill 32 0xA0) 4 11) = true := by
  obtain ⟨hbits, -, hsplit, -⟩ :=
    shards_split (.fill 32 0xA0) (show 3 < 32 by decide) (show (5 : UInt32).toNat < 2 ^ 3 by decide)
  have hown : owns (.fill 32 0xA0) 3 5 = true := by decide
  exact ⟨hbits.trans (by decide), hown, hsplit.mp hown⟩

/-! ### The router -/

lemma count_toNat (k : ℕ) : (count k).toNat = 2 ^ k % 2 ^ 32 := by
  unfold count
  split_ifs with h0
  · rw [h0]
    rfl
  · rw [UInt32.toNat_ofNat', Nat.one_shiftLeft]

lemma newRouter_ok {k : ℕ} {servers : List String} {r : Router} (h : newRouter k servers = .ok r) :
    k ≤ 32 ∧ servers.length % 2 ^ 32 = 2 ^ k % 2 ^ 32 ∧ r = ⟨k, servers⟩ := by
  unfold newRouter at h
  split_ifs at h with hk hlen
  have hmod := congrArg UInt32.toNat (not_not.mp hlen)
  rw [UInt32.toNat_ofNat', count_toNat] at hmod
  exact ⟨Nat.not_lt.mp hk, hmod, (Except.ok.inj h).symm⟩

/-- **When routing is total.** Of a router that was accepted: the list has an entry for each shard
exactly when it is not empty and has at most `2 ^ 32` entries. Every hash has a server exactly when
the list is not empty, and every server has a hash exactly when the list has at most `2 ^ 32`
entries. -/
theorem newRouter_total_iff {k : ℕ} {servers : List String} {r : Router}
    (h : newRouter k servers = .ok r) :
    (r.servers.length = 2 ^ k ↔ 0 < servers.length ∧ servers.length ≤ 2 ^ 32) ∧
    ((∀ h, (of h k).toNat < r.servers.length) ↔ 0 < servers.length) ∧
    ((∀ h, (r.serverFor h).isSome = true) ↔ 0 < servers.length) ∧
    ((∀ i < r.servers.length, ∃ h, (r.shardFor h).toNat = i) ↔ servers.length ≤ 2 ^ 32) := by
  obtain ⟨hk, hmod, rfl⟩ := newRouter_ok h
  have hpos := Nat.two_pow_pos k
  have hle : 2 ^ k ≤ 2 ^ 32 := Nat.pow_le_pow_right (by omega) hk
  have hindex : (∀ h, (of h k).toNat < servers.length) ↔ 0 < servers.length := by
    constructor
    · exact fun hall => Nat.zero_lt_of_lt (hall default)
    · intro h0 h
      have := of_lt h hk
      omega
  refine ⟨by dsimp only; omega, hindex, ?_, ?_⟩
  · simpa only [Router.serverFor, isSome_getElem?, decide_eq_true_eq] using hindex
  · constructor
    · intro hall
      by_contra hgt
      obtain ⟨h, hh⟩ := hall (2 ^ k) (by dsimp only; omega)
      exact absurd (of_lt h hk) (Nat.not_lt.mpr hh.ge)
    · intro hlen i hi
      refine exists_of hk (Nat.lt_of_lt_of_le hi ?_)
      dsimp only
      omega

theorem newRouter_total_pair :
    newRouter 1 ["a", "b"] = .ok ⟨1, ["a", "b"]⟩ ∧
      (∀ h, ((⟨1, ["a", "b"]⟩ : Router).serverFor h).isSome = true) ∧
      ∀ i < 2, ∃ h, ((⟨1, ["a", "b"]⟩ : Router).shardFor h).toNat = i := by
  have hok : newRouter 1 ["a", "b"] = .ok ⟨1, ["a", "b"]⟩ := by decide
  obtain ⟨-, -, hserver, hshard⟩ := newRouter_total_iff hok
  exact ⟨hok, hserver.mpr (by decide), hshard.mpr (by decide)⟩

/-- **A router without servers is accepted** at the greatest width, and has none for any hash. One
server too many is not noticed if there are `2 ^ 32` too many, and owns nothing. -/
theorem newRouter_not_total :
    (newRouter 32 [] = .ok ⟨32, []⟩ ∧ ∀ h, (⟨32, []⟩ : Router).serverFor h = none) ∧
    ∃ (servers : List String) (r : Router), newRouter 0 servers = .ok r ∧
      servers.length = 2 ^ 32 + 1 ∧
      ∀ h, (r.shardFor h).toNat ≠ 1 := by
  refine ⟨⟨by decide, fun _ => rfl⟩, List.replicate (2 ^ 32 + 1) "",
    ⟨0, List.replicate (2 ^ 32 + 1) ""⟩, ?_, ?_, ?_⟩
  · have hcount : UInt32.ofNat (2 ^ 32 + 1) = count 0 := by decide
    rw [newRouter, if_neg (by decide), List.length_replicate, if_neg (not_not.mpr hcount)]
  · rw [List.length_replicate]
  · intro h
    have hlt := of_lt h (Nat.zero_le 32)
    rw [Router.shardFor]
    dsimp only
    omega

end MemServe.Shard
