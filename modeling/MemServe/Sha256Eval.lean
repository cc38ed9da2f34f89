import MemServe.Sha256

/-!
SHA-256 on natural numbers, for evaluation.

The kernel computes with natural numbers directly, and with words only through the layers they are
built of. The words of the schedule and the working variables are arguments here and every new one
is evaluated before the next round, so that a round is a few dozen operations on numbers.
-/

namespace MemServe.Sha256.Eval

/-- The low 32 bits are those of `x` rotated by `n`. -/
def rot (x n : ℕ) : ℕ := (x * 4294967297) >>> n

def bigSigma0 (x : ℕ) : ℕ := (rot x 2 ^^^ rot x 13 ^^^ rot x 22) % 4294967296
def bigSigma1 (x : ℕ) : ℕ := (rot x 6 ^^^ rot x 11 ^^^ rot x 25) % 4294967296
def smallSigma0 (x : ℕ) : ℕ := (rot x 7 ^^^ rot x 18) % 4294967296 ^^^ x >>> 3
def smallSigma1 (x : ℕ) : ℕ := (rot x 17 ^^^ rot x 19) % 4294967296 ^^^ x >>> 10
def ch (x y z : ℕ) : ℕ := (x &&& y) ^^^ ((4294967295 - x) &&& z)
def maj (x y z : ℕ) : ℕ := (x &&& y) ^^^ (x &&& z) ^^^ (y &&& z)

structure Work where
  a : ℕ
  b : ℕ
  c : ℕ
  d : ℕ
  e : ℕ
  f : ℕ
  g : ℕ
  h : ℕ
  deriving DecidableEq

def ofWork (s : Sha256.Work) : Work :=
  ⟨s.a.toNat, s.b.toNat, s.c.toNat, s.d.toNat, s.e.toNat, s.f.toNat, s.g.toNat, s.h.toNat⟩

def Work.add (s : Work) : Work → Work
  | ⟨a, b, c, d, e, f, g, h⟩ =>
    ⟨(s.a + a) % 4294967296, (s.b + b) % 4294967296, (s.c + c) % 4294967296, (s.d + d) % 4294967296,
      (s.e + e) % 4294967296, (s.f + f) % 4294967296, (s.g + g) % 4294967296,
        (s.h + h) % 4294967296⟩

/-- Goes on with the value of `n`. The recursion makes the kernel evaluate it first. -/
def force {α : Type} (n : ℕ) (k : ℕ → α) : α := Nat.rec (k 0) (fun m _ => k m.succ) n

lemma force_eq {α : Type} (n : ℕ) (k : ℕ → α) : force n k = k n := by cases n <;> rfl

/-- Goes on with the values of the eight variables. -/
def Work.force {α : Type} (s : Work) (k : Work → α) : α :=
  match s with
  | ⟨a, b, c, d, e, f, g, h⟩ =>
    Eval.force a fun a => Eval.force b fun b => Eval.force c fun c => Eval.force d fun d =>
    Eval.force e fun e => Eval.force f fun f => Eval.force g fun g =>
      Eval.force h fun h => k ⟨a, b, c, d, e, f, g, h⟩

lemma Work.force_eq {α : Type} (s : Work) (k : Work → α) : s.force k = k s := by
  simp only [Work.force, Eval.force_eq]

/-- The rounds of the constants `ks`, from the schedule window `w0` to `w15`. -/
def rounds : List ℕ → (w0 w1 w2 w3 w4 w5 w6 w7 w8 w9 w10 w11 w12 w13 w14 w15 : ℕ) →
    (a b c d e f g h : ℕ) → Work
  | [], _, _, _, _, _, _, _, _, _, _, _, _, _, _, _, _, a, b, c, d, e, f, g, h =>
    ⟨a, b, c, d, e, f, g, h⟩
  | k :: ks, w0, w1, w2, w3, w4, w5, w6, w7, w8, w9, w10, w11, w12, w13, w14, w15, a, b, c, d,
      e, f, g, h =>
    force (h + bigSigma1 e + ch e f g + (k + w0)) fun t1 =>
    force ((smallSigma1 w14 + w9 + smallSigma0 w1 + w0) % 4294967296) fun w16 =>
    force ((t1 + (bigSigma0 a + maj a b c)) % 4294967296) fun a' =>
    force ((d + t1) % 4294967296) fun e' =>
    rounds ks w1 w2 w3 w4 w5 w6 w7 w8 w9 w10 w11 w12 w13 w14 w15 w16 a' a b c e' e f g

lemma rot_mod_nat {x n : ℕ} (hx : x < 2 ^ 32) (hn : n ≤ 32) :
    rot x n % 2 ^ 32 = x >>> n ||| x <<< (32 - n) % 2 ^ 32 := by
  have hdouble : x * 4294967297 = 2 ^ 32 * x + x := by omega
  refine Nat.eq_of_testBit_eq fun i => ?_
  rw [rot, hdouble, Nat.testBit_or, Nat.testBit_mod_two_pow, Nat.testBit_mod_two_pow,
    Nat.testBit_shiftRight, Nat.testBit_shiftRight, Nat.testBit_shiftLeft,
    Nat.testBit_two_pow_mul_add _ hx]
  by_cases hi : i < 32
  · by_cases hlow : n + i < 32
    · -- the bit comes from `x` shifted right
      have hge : ¬ 32 - n ≤ i := by omega
      simp [hi, hlow, hge]
    · -- the bit comes around from the low end
      have hge : 32 - n ≤ i := by omega
      have hhigh : x.testBit (n + i) = false :=
        Nat.testBit_lt_two_pow (Nat.lt_of_lt_of_le hx (Nat.pow_le_pow_right (by omega) (by omega)))
      have hidx : n + i - 32 = i - (32 - n) := by omega
      simp [hi, hlow, hge, hhigh, hidx]
  · have hhigh : x.testBit (n + i) = false :=
      Nat.testBit_lt_two_pow (Nat.lt_of_lt_of_le hx (Nat.pow_le_pow_right (by omega) (by omega)))
    simp [hi, hhigh]

lemma rot_mod (x n : UInt32) (h0 : 0 < n.toNat) (h : n.toNat < 32) :
    rot x.toNat n.toNat % 4294967296 = (rotr x n).toNat := by
  have hsub : (32 - n).toNat = 32 - n.toNat :=
    UInt32.toNat_sub_of_le _ _ (UInt32.le_iff_toNat_le.mpr (Nat.le_of_lt h))
  rw [rotr, UInt32.toNat_or, UInt32.toNat_shiftRight, UInt32.toNat_shiftLeft, hsub,
    Nat.mod_eq_of_lt h, Nat.mod_eq_of_lt (show 32 - n.toNat < 32 by omega)]
  exact rot_mod_nat x.toNat_lt (Nat.le_of_lt h)

lemma xor_mod (x y : ℕ) : (x ^^^ y) % 4294967296 = x % 4294967296 ^^^ y % 4294967296 :=
  Nat.xor_mod_two_pow (n := 32)

lemma bigSigma0_toNat (x : UInt32) : bigSigma0 x.toNat = (Sha256.bigSigma0 x).toNat := by
  rw [bigSigma0, Sha256.bigSigma0, xor_mod, xor_mod, UInt32.toNat_xor, UInt32.toNat_xor]
  rw [← rot_mod x 2 (by decide) (by decide), ← rot_mod x 13 (by decide) (by decide),
    ← rot_mod x 22 (by decide) (by decide)]
  rfl

lemma bigSigma1_toNat (x : UInt32) : bigSigma1 x.toNat = (Sha256.bigSigma1 x).toNat := by
  rw [bigSigma1, Sha256.bigSigma1, xor_mod, xor_mod, UInt32.toNat_xor, UInt32.toNat_xor]
  rw [← rot_mod x 6 (by decide) (by decide), ← rot_mod x 11 (by decide) (by decide),
    ← rot_mod x 25 (by decide) (by decide)]
  rfl

lemma smallSigma0_toNat (x : UInt32) : smallSigma0 x.toNat = (Sha256.smallSigma0 x).toNat := by
  rw [smallSigma0, Sha256.smallSigma0, xor_mod, UInt32.toNat_xor, UInt32.toNat_xor,
    UInt32.toNat_shiftRight]
  rw [← rot_mod x 7 (by decide) (by decide), ← rot_mod x 18 (by decide) (by decide)]
  rfl

lemma smallSigma1_toNat (x : UInt32) : smallSigma1 x.toNat = (Sha256.smallSigma1 x).toNat := by
  rw [smallSigma1, Sha256.smallSigma1, xor_mod, UInt32.toNat_xor, UInt32.toNat_xor,
    UInt32.toNat_shiftRight]
  rw [← rot_mod x 17 (by decide) (by decide), ← rot_mod x 19 (by decide) (by decide)]
  rfl

lemma ch_toNat (x y z : UInt32) : ch x.toNat y.toNat z.toNat = (Sha256.ch x y z).toNat := by
  rw [ch, Sha256.ch, UInt32.toNat_xor, UInt32.toNat_and, UInt32.toNat_and, UInt32.toNat_not]
  rfl

lemma maj_toNat (x y z : UInt32) : maj x.toNat y.toNat z.toNat = (Sha256.maj x y z).toNat := by
  rw [maj, Sha256.maj, UInt32.toNat_xor, UInt32.toNat_xor, UInt32.toNat_and, UInt32.toNat_and,
    UInt32.toNat_and]

lemma rounds_toNat (ks : List UInt32)
    (w0 w1 w2 w3 w4 w5 w6 w7 w8 w9 w10 w11 w12 w13 w14 w15 : UInt32) (a b c d e f g h : UInt32) :
    rounds (ks.map UInt32.toNat) w0.toNat w1.toNat w2.toNat w3.toNat w4.toNat w5.toNat
      w6.toNat w7.toNat
      w8.toNat w9.toNat w10.toNat w11.toNat w12.toNat w13.toNat w14.toNat w15.toNat a.toNat b.toNat
        c.toNat d.toNat e.toNat f.toNat g.toNat h.toNat =
      ofWork
        (Sha256.rounds ks [w0, w1, w2, w3, w4, w5, w6, w7, w8, w9, w10, w11, w12, w13, w14, w15]
          ⟨a, b, c, d, e, f, g, h⟩) := by
  induction ks generalizing w0 w1 w2 w3 w4 w5 w6 w7 w8 w9 w10 w11 w12 w13 w14 w15 a b c d
      e f g h with
  | nil => rfl
  | cons k ks ih =>
    rw [List.map_cons, rounds, Sha256.rounds]
    simp only [force_eq, bigSigma0_toNat, bigSigma1_toNat, smallSigma0_toNat, smallSigma1_toNat,
      ch_toNat, maj_toNat]
    have hw :
        ((Sha256.smallSigma1 w14).toNat + w9.toNat + (Sha256.smallSigma0 w1).toNat + w0.toNat) %
        4294967296 =
        (Sha256.smallSigma1 w14 + w9 + Sha256.smallSigma0 w1 + w0).toNat := by
      simp only [UInt32.toNat_add]
      omega
    have ha :
        (h.toNat + (Sha256.bigSigma1 e).toNat + (Sha256.ch e f g).toNat + (k.toNat + w0.toNat) +
        ((Sha256.bigSigma0 a).toNat + (Sha256.maj a b c).toNat)) % 4294967296 =
        (h + Sha256.bigSigma1 e + Sha256.ch e f g + (k + w0) +
            (Sha256.bigSigma0 a + Sha256.maj a b c)).toNat := by
      simp only [UInt32.toNat_add]
      omega
    have he : (d.toNat +
          (h.toNat + (Sha256.bigSigma1 e).toNat + (Sha256.ch e f g).toNat + (k.toNat + w0.toNat))) %
        4294967296 = (d + (h + Sha256.bigSigma1 e + Sha256.ch e f g + (k + w0))).toNat := by
      simp only [UInt32.toNat_add]
      omega
    rw [hw, ha, he, ih]
    rfl

def roundConst : List ℕ := Sha256.roundConst.map UInt32.toNat

def compress (s : Work) : List ℕ → Work
  | [w0, w1, w2, w3, w4, w5, w6, w7, w8, w9, w10, w11, w12, w13, w14, w15] =>
    s.add (rounds roundConst w0 w1 w2 w3 w4 w5 w6 w7 w8 w9 w10 w11 w12 w13 w14 w15
      s.a s.b s.c s.d s.e s.f s.g s.h)
  | _ => s

def words : Bytes → List ℕ
  | a :: b :: c :: d :: r =>
    (((a.toNat * 256 + b.toNat) * 256 + c.toNat) * 256 + d.toNat) :: words r
  | _ => []

def blocks : ℕ → List ℕ → Work → Work
  | 0, _, s => s
  | n + 1, w, s => blocks n (w.drop 16) (compress s (w.take 16))

def Work.digest (s : Work) : Bytes :=
  s.force fun s => [s.a, s.b, s.c, s.d, s.e, s.f, s.g, s.h].flatMap (beBytes 4)

lemma Work.length_digest (s : Work) : s.digest.length = 32 := by simp [Work.digest, Work.force_eq]

def sum256 (m : Bytes) : ByteArr 32 :=
  ⟨(blocks ((pad m).length / 64) (words (pad m)) (ofWork initial)).digest, Work.length_digest _⟩

lemma words_eq : (m : Bytes) → words m = (Sha256.words m).map UInt32.toNat
  | a :: b :: c :: d :: r => by
    have hlt : ofBytesBE [a, b, c, d] < 2 ^ 32 :=
      Nat.lt_of_lt_of_eq (ofBytesBE_lt [a, b, c, d]) (by simp)
    rw [words, Sha256.words, List.map_cons, words_eq r, UInt32.toNat_ofNat', Nat.mod_eq_of_lt hlt]
    simp [ofBytesBE]
  | [] | [_] | [_, _] | [_, _, _] => rfl

lemma words_drop : (n : ℕ) → (m : Bytes) → Sha256.words (m.drop (4 * n)) = (Sha256.words m).drop n
  | 0, m => rfl
  | n + 1, a :: b :: c :: d :: r => by
    rw [Nat.mul_succ, Sha256.words]
    exact words_drop n r
  | n + 1, [] | n + 1, [_] | n + 1, [_, _] | n + 1, [_, _, _] => by
    rw [Nat.mul_succ]
    simp [Sha256.words]

lemma words_take : (n : ℕ) → (m : Bytes) → Sha256.words (m.take (4 * n)) = (Sha256.words m).take n
  | 0, m => rfl
  | n + 1, a :: b :: c :: d :: r => by
    rw [Nat.mul_succ, Sha256.words]
    exact congrArg _ (words_take n r)
  | n + 1, [] | n + 1, [_] | n + 1, [_, _] | n + 1, [_, _, _] => by
    rw [Nat.mul_succ]
    simp [Sha256.words]

lemma length_words : (m : Bytes) → (Sha256.words m).length = m.length / 4
  | a :: b :: c :: d :: r => by
    rw [Sha256.words, List.length_cons, length_words r]
    simp only [List.length_cons]
    omega
  | [] | [_] | [_, _] | [_, _, _] => by simp [Sha256.words]

lemma ofWork_add (s t : Sha256.Work) : ofWork (s.add t) = (ofWork s).add (ofWork t) := by
  simp only [ofWork, Sha256.Work.add, Work.add, UInt32.toNat_add]

lemma compress_eq (s : Sha256.Work) {w : List UInt32} (h : w.length = 16) :
    compress (ofWork s) (w.map UInt32.toNat) =
      ofWork (s.add (Sha256.rounds Sha256.roundConst w s)) := by
  match w, h with
  | [w0, w1, w2, w3, w4, w5, w6, w7, w8, w9, w10, w11, w12, w13, w14, w15], _ =>
    rw [ofWork_add, ← rounds_toNat]
    rfl

lemma blocks_eq (n : ℕ) {m : Bytes} (h : m.length = 64 * n) (s : Sha256.Work) :
    blocks n (words m) (ofWork s) = ofWork (Sha256.blocks n m s) := by
  induction n generalizing m s with
  | zero => rfl
  | succ n ih =>
    have hlen : (Sha256.words (m.take 64)).length = 16 := by
      rw [length_words, List.length_take]
      omega
    have hcomp : compress (ofWork s) ((words m).take 16) =
        ofWork (Sha256.compress s (m.take 64)) := by
      rw [words_eq, ← List.map_take, ← words_take 16 m]
      exact compress_eq s hlen
    have hdrop : (words m).drop 16 = words (m.drop 64) := by
      rw [words_eq, words_eq, ← List.map_drop, ← words_drop 16 m]
    rw [blocks, Sha256.blocks, hcomp, hdrop]
    refine ih ?_ _
    rw [List.length_drop]
    omega

lemma length_pad (m : Bytes) : (pad m).length = 64 * ((pad m).length / 64) := by
  simp only [pad, List.length_append, List.length_cons, List.length_replicate, length_beBytes]
  omega

/-- **The digest can be computed on numbers.** -/
theorem sum256_eq : Sha256.sum256 = sum256 := by
  refine funext fun m => ByteArr.ext ?_
  simp only [sum256, blocks_eq _ (length_pad m), Sha256.sum256, Work.digest, Work.force_eq]
  rfl

/-! ### A node over two digests

A digest is eight words and the padding of one or two digests is fixed, so that the double hash of a
pair never leaves the words. -/

def Work.words (s : Work) : List ℕ := [s.a, s.b, s.c, s.d, s.e, s.f, s.g, s.h]

/-- The digest over the digest of the digests of `s` and `t`. -/
def node (s t : Work) : Work :=
  (compress (ofWork initial) (s.words ++ t.words)).force fun r =>
  (compress r [0x80000000, 0, 0, 0, 0, 0, 0, 0, 0, 0, 0, 0, 0, 0, 0, 512]).force fun r =>
  compress (ofWork initial) (r.words ++ [0x80000000, 0, 0, 0, 0, 0, 0, 256])

/-- The chaining value of which the digest is taken. -/
def chain (m : Bytes) : Sha256.Work := Sha256.blocks ((pad m).length / 64) (pad m) initial

lemma ofWork_chain (m : Bytes) :
    ofWork (chain m) = blocks ((pad m).length / 64) (words (pad m)) (ofWork initial) :=
  (blocks_eq _ (length_pad m) initial).symm

lemma words_append : (n : ℕ) → (m m' : Bytes) → m.length = 4 * n →
      words (m ++ m') = words m ++ words m'
  | 0, [], m', _ => rfl
  | n + 1, a :: b :: c :: d :: r, m', h => by
    have hr : r.length = 4 * n := by
      simp only [List.length_cons] at h
      omega
    exact congrArg _ (words_append n r m' hr)

lemma words_beBytes (x : UInt32) : words (beBytes 4 x.toNat) = [x.toNat] := by
  have hlen : (beBytes 4 x.toNat).length = 4 := length_beBytes 4 x.toNat
  have hval : ofBytesBE (beBytes 4 x.toNat) = x.toNat := by
    rw [ofBytesBE_beBytes]
    exact Nat.mod_eq_of_lt x.toNat_lt
  match beBytes 4 x.toNat, hlen, hval with
  | [a, b, c, d], _, hval =>
    rw [← hval]
    simp [words, ofBytesBE]

lemma words_digest (s : Sha256.Work) : words s.digest = (ofWork s).words := by
  simp only [Sha256.Work.digest, List.flatMap_cons, List.flatMap_nil]
  simp only [words_append 1 _ _ (length_beBytes 4 _), words_beBytes]
  rfl

lemma ofWork_inj {s t : Sha256.Work} (h : s.digest = t.digest) : ofWork s = ofWork t := by
  have hwords : (ofWork s).words = (ofWork t).words := by rw [← words_digest, ← words_digest, h]
  simpa [Work.words, ofWork] using hwords

lemma length_digest (s : Sha256.Work) : s.digest.length = 32 := by simp [Sha256.Work.digest]

lemma ofWork_chain_digest (s : Sha256.Work) :
    ofWork (chain s.digest) = compress (ofWork initial)
      ((ofWork s).words ++ [0x80000000, 0, 0, 0, 0, 0, 0, 256]) := by
  have hpad : pad s.digest = s.digest ++ 0x80 :: (List.replicate 23 0 ++ beBytes 8 256) := by
    rw [pad, length_digest]
  have hlen : (pad s.digest).length / 64 = 1 := by simp [hpad, length_digest]
  rw [ofWork_chain, hlen, hpad, words_append 8 _ _ (length_digest s), words_digest]
  rfl

lemma ofWork_chain_pair (s t : Sha256.Work) :
    ofWork (chain (s.digest ++ t.digest)) =
      compress (compress (ofWork initial) ((ofWork s).words ++ (ofWork t).words))
      [0x80000000, 0, 0, 0, 0, 0, 0, 0, 0, 0, 0, 0, 0, 0, 0, 512] := by
  have hpair : (s.digest ++ t.digest).length = 64 := by simp [length_digest]
  have hpad : pad (s.digest ++ t.digest) = s.digest ++
      (t.digest ++ 0x80 :: (List.replicate 55 0 ++ beBytes 8 512)) := by
    rw [pad, hpair, List.append_assoc]
  have hlen : (pad (s.digest ++ t.digest)).length / 64 = 2 := by simp [hpad, length_digest]
  rw [ofWork_chain, hlen, hpad, words_append 8 _ _ (length_digest s),
    words_append 8 _ _ (length_digest t), words_digest, words_digest]
  rfl

/-- **The double hash of a pair of digests can be computed on words.** -/
theorem ofWork_node (s t : Sha256.Work) :
    ofWork (chain (chain (s.digest ++ t.digest)).digest) = node (ofWork s) (ofWork t) := by
  rw [ofWork_chain_digest, ofWork_chain_pair]
  simp only [node, Work.force_eq]

end MemServe.Sha256.Eval
