import MemServe.Bytes

/-!
RIPEMD-160, as the package `bsvtx` computes it.
-/

namespace MemServe.Ripemd160

def rotateLeft32 (x k : UInt32) : UInt32 := (x <<< k) ||| (x >>> (32 - k))

def f (j : ℕ) (x y z : UInt32) : UInt32 :=
  if j < 16 then x ^^^ y ^^^ z
  else if j < 32 then (x &&& y) ||| (~~~x &&& z)
  else if j < 48 then (x ||| ~~~y) ^^^ z
  else if j < 64 then (x &&& z) ||| (y &&& ~~~z)
  else x ^^^ (y ||| ~~~z)

def kl : List UInt32 := [0x00000000, 0x5A827999, 0x6ED9EBA1, 0x8F1BBCDC, 0xA953FD4E]
def kr : List UInt32 := [0x50A28BE6, 0x5C4DD124, 0x6D703EF3, 0x7A6D76E9, 0x00000000]

def rl : List ℕ := [
  0, 1, 2, 3, 4, 5, 6, 7, 8, 9, 10, 11, 12, 13, 14, 15,
  7, 4, 13, 1, 10, 6, 15, 3, 12, 0, 9, 5, 2, 14, 11, 8,
  3, 10, 14, 4, 9, 15, 8, 1, 2, 7, 0, 6, 13, 11, 5, 12,
  1, 9, 11, 10, 0, 8, 12, 4, 13, 3, 7, 15, 14, 5, 6, 2,
  4, 0, 5, 9, 7, 12, 2, 10, 14, 1, 3, 8, 11, 6, 15, 13]

def rr : List ℕ := [
  5, 14, 7, 0, 9, 2, 11, 4, 13, 6, 15, 8, 1, 10, 3, 12,
  6, 11, 3, 7, 0, 13, 5, 10, 14, 15, 8, 12, 4, 9, 1, 2,
  15, 5, 1, 3, 7, 14, 6, 9, 11, 8, 12, 2, 10, 0, 4, 13,
  8, 6, 4, 1, 3, 11, 15, 0, 5, 12, 2, 13, 9, 7, 10, 14,
  12, 15, 10, 4, 1, 5, 8, 7, 6, 2, 13, 14, 0, 3, 9, 11]

def sl : List UInt32 := [
  11, 14, 15, 12, 5, 8, 7, 9, 11, 13, 14, 15, 6, 7, 9, 8,
  7, 6, 8, 13, 11, 9, 7, 15, 7, 12, 15, 9, 11, 7, 13, 12,
  11, 13, 6, 7, 14, 9, 13, 15, 14, 8, 13, 6, 5, 12, 7, 5,
  11, 12, 14, 15, 14, 15, 9, 8, 9, 14, 5, 6, 8, 6, 5, 12,
  9, 15, 5, 11, 6, 8, 13, 12, 5, 12, 13, 14, 11, 8, 5, 6]

def sr : List UInt32 := [
  8, 9, 9, 11, 13, 15, 15, 5, 7, 7, 8, 11, 14, 14, 12, 6,
  9, 13, 15, 7, 12, 8, 9, 11, 7, 7, 12, 7, 6, 15, 13, 11,
  9, 7, 15, 11, 8, 6, 6, 14, 12, 13, 5, 14, 13, 13, 7, 5,
  15, 5, 8, 11, 14, 14, 6, 14, 6, 9, 12, 9, 12, 5, 15, 8,
  8, 5, 12, 9, 12, 5, 14, 6, 8, 13, 6, 5, 15, 13, 11, 11]

/-- The five words of a line, and the chaining value between blocks. -/
structure Words where
  a : UInt32
  b : UInt32
  c : UInt32
  d : UInt32
  e : UInt32
  deriving DecidableEq

def initial : Words := ⟨0x67452301, 0xEFCDAB89, 0x98BADCFE, 0x10325476, 0xC3D2E1F0⟩

/-- One step of a line, with the value of `f`, the word of the message, the constant and the
rotation of the step. -/
def line (fv x k s : UInt32) (w : Words) : Words :=
  let t := rotateLeft32 (w.a + fv + x + k) s + w.e
  ⟨w.e, t, w.b, rotateLeft32 w.c 10, w.d⟩

def left (x : List UInt32) (w : Words) (j : ℕ) : Words :=
  line (f j w.b w.c w.d) (x.getD (rl.getD j 0) 0) (kl.getD (j / 16) 0) (sl.getD j 0) w

/-- The right line takes the rounds of `f` in reverse order. -/
def right (x : List UInt32) (w : Words) (j : ℕ) : Words :=
  line (f (79 - j) w.b w.c w.d) (x.getD (rr.getD j 0) 0) (kr.getD (j / 16) 0) (sr.getD j 0) w

/-- The little-endian words of a block. -/
def words : Bytes → List UInt32
  | a :: b :: c :: d :: r => UInt32.ofNat (ofBytesBE [d, c, b, a]) :: words r
  | _ => []

def compress (h : Words) (block : Bytes) : Words :=
  let x := words block
  let l := (List.range 80).foldl (left x) h
  let r := (List.range 80).foldl (right x) h
  ⟨h.b + l.c + r.d, h.c + l.d + r.e, h.d + l.e + r.a, h.e + l.a + r.b, h.a + l.b + r.c⟩

/-- The message with its closing bit, zeros up to eight bytes before a block ends, and its length in
bits. -/
def pad (m : Bytes) : Bytes :=
  m ++ 0x80 :: (List.replicate ((119 - m.length % 64) % 64) 0 ++ leBytes 8 (8 * m.length))

def blocks : ℕ → Bytes → Words → Words
  | 0, _, h => h
  | n + 1, m, h => blocks n (m.drop 64) (compress h (m.take 64))

def Words.digest (w : Words) : Bytes := [w.a, w.b, w.c, w.d, w.e].flatMap fun x => leBytes 4 x.toNat

def ripemd160 (msg : Bytes) : ByteArr 20 :=
  ⟨(blocks ((pad msg).length / 64) (pad msg) initial).digest, by simp [Words.digest]⟩

example : (ripemd160 [0x61, 0x62, 0x63]).1.take 4 = [0x8e, 0xb2, 0x08, 0xf7] := by decide +kernel

end MemServe.Ripemd160
