import MemServe.Bytes

/-!
SHA-256, as the package `crypto/sha256` computes it (FIPS 180-4).

The message schedule is kept as a sliding window of sixteen words: a round uses the oldest
word of the window and appends the word sixteen rounds ahead of it.
-/

namespace MemServe.Sha256

def rotr (x n : UInt32) : UInt32 := (x >>> n) ||| (x <<< (32 - n))
def ch (x y z : UInt32) : UInt32 := (x &&& y) ^^^ (~~~x &&& z)
def maj (x y z : UInt32) : UInt32 := (x &&& y) ^^^ (x &&& z) ^^^ (y &&& z)
def bigSigma0 (x : UInt32) : UInt32 := rotr x 2 ^^^ rotr x 13 ^^^ rotr x 22
def bigSigma1 (x : UInt32) : UInt32 := rotr x 6 ^^^ rotr x 11 ^^^ rotr x 25
def smallSigma0 (x : UInt32) : UInt32 := rotr x 7 ^^^ rotr x 18 ^^^ (x >>> 3)
def smallSigma1 (x : UInt32) : UInt32 := rotr x 17 ^^^ rotr x 19 ^^^ (x >>> 10)

def roundConst : List UInt32 := [
  0x428a2f98, 0x71374491, 0xb5c0fbcf, 0xe9b5dba5, 0x3956c25b, 0x59f111f1, 0x923f82a4, 0xab1c5ed5,
  0xd807aa98, 0x12835b01, 0x243185be, 0x550c7dc3, 0x72be5d74, 0x80deb1fe, 0x9bdc06a7, 0xc19bf174,
  0xe49b69c1, 0xefbe4786, 0x0fc19dc6, 0x240ca1cc, 0x2de92c6f, 0x4a7484aa, 0x5cb0a9dc, 0x76f988da,
  0x983e5152, 0xa831c66d, 0xb00327c8, 0xbf597fc7, 0xc6e00bf3, 0xd5a79147, 0x06ca6351, 0x14292967,
  0x27b70a85, 0x2e1b2138, 0x4d2c6dfc, 0x53380d13, 0x650a7354, 0x766a0abb, 0x81c2c92e, 0x92722c85,
  0xa2bfe8a1, 0xa81a664b, 0xc24b8b70, 0xc76c51a3, 0xd192e819, 0xd6990624, 0xf40e3585, 0x106aa070,
  0x19a4c116, 0x1e376c08, 0x2748774c, 0x34b0bcb5, 0x391c0cb3, 0x4ed8aa4a, 0x5b9cca4f, 0x682e6ff3,
  0x748f82ee, 0x78a5636f, 0x84c87814, 0x8cc70208, 0x90befffa, 0xa4506ceb, 0xbef9a3f7, 0xc67178f2]

/-- The eight working variables, and the chaining value between blocks. -/
structure Work where
  a : UInt32
  b : UInt32
  c : UInt32
  d : UInt32
  e : UInt32
  f : UInt32
  g : UInt32
  h : UInt32

def initial : Work :=
  ⟨0x6a09e667, 0xbb67ae85, 0x3c6ef372, 0xa54ff53a, 0x510e527f, 0x9b05688c, 0x1f83d9ab, 0x5be0cd19⟩

def Work.add (s t : Work) : Work :=
  ⟨s.a + t.a, s.b + t.b, s.c + t.c, s.d + t.d, s.e + t.e, s.f + t.f, s.g + t.g, s.h + t.h⟩

/-- One round, on the sum of its constant and its schedule word. -/
def round (s : Work) (kw : UInt32) : Work :=
  let t1 := s.h + bigSigma1 s.e + ch s.e s.f s.g + kw
  let t2 := bigSigma0 s.a + maj s.a s.b s.c
  ⟨t1 + t2, s.a, s.b, s.c, s.d + t1, s.e, s.f, s.g⟩

/-- The rounds of the constants `ks`, from the schedule window `w`. -/
def rounds : List UInt32 → List UInt32 → Work → Work
  | [], _, s => s
  | k :: ks, w, s =>
    let next := smallSigma1 (w.getD 14 0) + w.getD 9 0 + smallSigma0 (w.getD 1 0) + w.getD 0 0
    rounds ks (w.tail ++ [next]) (round s (k + w.headD 0))

/-- The big-endian words of a block. -/
def words : Bytes → List UInt32
  | a :: b :: c :: d :: r => UInt32.ofNat (ofBytesBE [a, b, c, d]) :: words r
  | _ => []

def compress (s : Work) (block : Bytes) : Work := s.add (rounds roundConst (words block) s)

/-- The message with its closing bit, its zeros, and its length in bits. -/
def pad (m : Bytes) : Bytes :=
  m ++ 0x80 :: (List.replicate ((119 - m.length % 64) % 64) 0 ++ beBytes 8 (8 * m.length))

def blocks : ℕ → Bytes → Work → Work
  | 0, _, s => s
  | n + 1, m, s => blocks n (m.drop 64) (compress s (m.take 64))

def Work.digest (s : Work) : Bytes :=
  [s.a, s.b, s.c, s.d, s.e, s.f, s.g, s.h].flatMap fun x => beBytes 4 x.toNat

/-- `sha256.Sum256`. -/
def sum256 (m : Bytes) : ByteArr 32 :=
  ⟨(blocks ((pad m).length / 64) (pad m) initial).digest, by simp [Work.digest]⟩

example : (sum256 [0x61, 0x62, 0x63]).1.take 4 = [0xba, 0x78, 0x16, 0xbf] := by decide +kernel

end MemServe.Sha256
