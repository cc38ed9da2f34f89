import MemServe.Bytes

/-!
Go's strings, ranged over by runes.

A string is any bytes. Ranging over it decodes UTF-8; a byte that starts no encoding that is
complete, shortest and of a code point is a rune of its own, the replacement character.
-/

namespace MemServe.Utf8

def runeError : ℕ := 0xFFFD

/-- The bytes of an encoding that starts with `a`, 0 if there is none. -/
def width (a : UInt8) : ℕ :=
  if a < 0x80 then 1
  else if 0xC2 ≤ a ∧ a ≤ 0xDF then 2
  else if 0xE0 ≤ a ∧ a ≤ 0xEF then 3
  else if 0xF0 ≤ a ∧ a ≤ 0xF4 then 4
  else 0

def isTail (b : UInt8) : Bool := 0x80 ≤ b && b ≤ 0xBF

/-- Whether `b` may follow a first byte `a`: an encoding that could be shorter, or is of no code
point, is told by its second byte. -/
def follows (a b : UInt8) : Bool :=
  if a = 0xE0 then 0xA0 ≤ b && b ≤ 0xBF
  else if a = 0xED then 0x80 ≤ b && b ≤ 0x9F
  else if a = 0xF0 then 0x90 ≤ b && b ≤ 0xBF
  else if a = 0xF4 then 0x80 ≤ b && b ≤ 0x8F
  else isTail b

/-- The low bits of a byte of an encoding. -/
def low (n : ℕ) (b : UInt8) : ℕ := b.toNat % 2 ^ n

/-- `utf8.DecodeRuneInString` of `a :: s`: the rune, and the bytes of `s` that belong to it. -/
def decodeRune (a : UInt8) (s : Bytes) : ℕ × ℕ :=
  match width a, s with
  | 1, _ => (a.toNat, 0)
  | 2, b :: _ => if follows a b then (low 5 a * 2 ^ 6 + low 6 b, 1) else (runeError, 0)
  | 3, b :: c :: _ =>
    if follows a b && isTail c then (low 4 a * 2 ^ 12 + low 6 b * 2 ^ 6 + low 6 c, 2)
    else (runeError, 0)
  | 4, b :: c :: d :: _ =>
    if follows a b && isTail c && isTail d then
      (low 3 a * 2 ^ 18 + low 6 b * 2 ^ 12 + low 6 c * 2 ^ 6 + low 6 d, 3)
    else (runeError, 0)
  | _, _ => (runeError, 0)

def runes (s : Bytes) : List ℕ :=
  match s with
  | [] => []
  | a :: s => (decodeRune a s).1 :: runes (s.drop (decodeRune a s).2)
termination_by s.length
decreasing_by
  simp only [List.length_cons, List.length_drop]
  omega

lemma decodeRune_ascii {a : UInt8} (h : a < 0x80) (s : Bytes) : decodeRune a s = (a.toNat, 0) := by
  simp [decodeRune, width, h]

lemma runes_of_ascii {s : Bytes} (h : ∀ c ∈ s, c < 0x80) : runes s = s.map UInt8.toNat := by
  induction s with
  | nil => rw [runes, List.map_nil]
  | cons a s ih =>
    rw [runes, decodeRune_ascii (h a List.mem_cons_self), List.drop_zero, List.map_cons,
      ih fun c hc => h c (List.mem_cons_of_mem a hc)]

end MemServe.Utf8
