import Mathlib.Algebra.Group.Nat.Defs
import Mathlib.Data.List.Basic
import Mathlib.Tactic.Common

/-!
Byte strings, the fixed-size arrays `[n]byte`, and numbers written in them.
-/

namespace MemServe

abbrev Bytes := List UInt8

/-- A Go array `[n]byte`. -/
def ByteArr (n : ℕ) : Type := { b : Bytes // b.length = n }

namespace ByteArr

variable {n : ℕ}

instance : DecidableEq (ByteArr n) := inferInstanceAs (DecidableEq { b : Bytes // b.length = n })

@[ext] lemma ext {a b : ByteArr n} (h : a.1 = b.1) : a = b := Subtype.ext h

@[simp] lemma length_val (a : ByteArr n) : a.1.length = n := a.2

/-- The array whose bytes are all `x`; for `x = 0` the zero value of the type. -/
def fill (n : ℕ) (x : UInt8) : ByteArr n := ⟨List.replicate n x, List.length_replicate⟩

instance : Inhabited (ByteArr n) := ⟨fill n 0⟩

/-- `a[i]`. -/
def byte (a : ByteArr n) (i : ℕ) (h : i < n) : UInt8 := a.1.get ⟨i, by rw [a.2]; exact h⟩

/-- `a[i : i + m]`, copied to an array of its own. -/
def slice (a : ByteArr n) (i m : ℕ) (h : i + m ≤ n) : ByteArr m :=
  ⟨(a.1.drop i).take m, by simp [a.2]; omega⟩

lemma slice_val (a : ByteArr n) (i m : ℕ) (h : i + m ≤ n) :
    (a.slice i m h).1 = (a.1.drop i).take m := rfl

/-- `copy(a[:], b)` into a zero array. -/
def copy (n : ℕ) (b : Bytes) : ByteArr n := ⟨(b ++ List.replicate n 0).take n, by simp⟩

lemma copy_append (a : ByteArr n) (b : Bytes) : copy n (a.1 ++ b) = a := by
  refine ext ?_
  change (a.1 ++ b ++ List.replicate n 0).take n = a.1
  rw [List.append_assoc, List.take_append_of_le_length (by simp), List.take_of_length_le (by simp)]

@[simp] lemma copy_val (a : ByteArr n) : copy n a.1 = a := by
  simpa using copy_append a []

end ByteArr

/-- The `n` low bytes of `v`, most significant first. -/
def beBytes (n v : ℕ) : Bytes := (List.range n).map fun i => UInt8.ofNat (v / 256 ^ (n - 1 - i))

/-- The `n` low bytes of `v`, least significant first. -/
def leBytes (n v : ℕ) : Bytes := (List.range n).map fun i => UInt8.ofNat (v / 256 ^ i)

/-- The number whose bytes, most significant first, are `b`. -/
def ofBytesBE (b : Bytes) : ℕ := b.foldl (fun v x => v * 256 + x.toNat) 0

@[simp] lemma length_beBytes (n v : ℕ) : (beBytes n v).length = n := by simp [beBytes]
@[simp] lemma length_leBytes (n v : ℕ) : (leBytes n v).length = n := by simp [leBytes]

lemma beBytes_succ (n v : ℕ) : beBytes (n + 1) v = UInt8.ofNat (v / 256 ^ n) :: beBytes n v := by
  unfold beBytes
  rw [List.range_succ_eq_map, List.map_cons, List.map_map]
  refine congrArg₂ _ (by simp) (List.map_congr_left fun i _ => ?_)
  simp only [Function.comp, Nat.add_sub_cancel]
  rw [show n - (i + 1) = n - 1 - i by omega]

/-- The bytes of a number determine it, up to their width. -/
lemma beBytes_inj {n a b : ℕ} (h : beBytes n a = beBytes n b) : a % 256 ^ n = b % 256 ^ n := by
  induction n with
  | zero => simp [Nat.mod_one]
  | succ n ih =>
    rw [beBytes_succ, beBytes_succ, List.cons.injEq] at h
    have hhead : a / 256 ^ n % 256 = b / 256 ^ n % 256 := by simpa using congrArg UInt8.toNat h.1
    rw [Nat.mod_pow_succ, Nat.mod_pow_succ, hhead, ih h.2]

lemma leBytes_succ (n v : ℕ) : leBytes (n + 1) v = UInt8.ofNat v :: leBytes n (v / 256) := by
  unfold leBytes
  rw [List.range_succ_eq_map, List.map_cons, List.map_map]
  refine congrArg₂ _ (by simp) (List.map_congr_left fun i _ => ?_)
  simp only [Function.comp, Nat.succ_eq_add_one, Nat.div_div_eq_div_mul]
  rw [Nat.pow_succ']

@[inherit_doc beBytes_inj]
lemma leBytes_inj {n a b : ℕ} (h : leBytes n a = leBytes n b) : a % 256 ^ n = b % 256 ^ n := by
  induction n generalizing a b with
  | zero => simp [Nat.mod_one]
  | succ n ih =>
    rw [leBytes_succ, leBytes_succ, List.cons.injEq] at h
    have hhead : a % 256 = b % 256 := by simpa using congrArg UInt8.toNat h.1
    rw [Nat.pow_succ', Nat.mod_mul, Nat.mod_mul, hhead, ih h.2]

lemma foldl_ofBytesBE (b : Bytes) (v : ℕ) :
    b.foldl (fun v x => v * 256 + x.toNat) v = v * 256 ^ b.length + ofBytesBE b := by
  induction b generalizing v with
  | nil => simp [ofBytesBE]
  | cons x b ih =>
    rw [ofBytesBE, List.foldl_cons, List.foldl_cons, ih, ih (0 * 256 + x.toNat), List.length_cons,
      Nat.pow_succ', ← Nat.mul_assoc, Nat.add_mul, Nat.zero_mul, Nat.zero_add, Nat.add_assoc]

lemma ofBytesBE_cons (x : UInt8) (b : Bytes) :
    ofBytesBE (x :: b) = x.toNat * 256 ^ b.length + ofBytesBE b := by
  rw [ofBytesBE, List.foldl_cons, foldl_ofBytesBE, Nat.zero_mul, Nat.zero_add]

lemma ofBytesBE_append (a b : Bytes) :
    ofBytesBE (a ++ b) = ofBytesBE a * 256 ^ b.length + ofBytesBE b := by
  rw [ofBytesBE, List.foldl_append, foldl_ofBytesBE]
  rfl

lemma ofBytesBE_lt (b : Bytes) : ofBytesBE b < 256 ^ b.length := by
  induction b with
  | nil => simp [ofBytesBE]
  | cons x b ih =>
    have hx := x.toNat_lt
    have hle : x.toNat * 256 ^ b.length ≤ 255 * 256 ^ b.length := Nat.mul_le_mul_right _ (by omega)
    rw [ofBytesBE_cons, List.length_cons, Nat.pow_succ']
    omega

lemma ofBytesBE_beBytes (n v : ℕ) : ofBytesBE (beBytes n v) = v % 256 ^ n := by
  induction n with
  | zero => simp [beBytes, ofBytesBE, Nat.mod_one]
  | succ n ih =>
    rw [beBytes_succ, ofBytesBE_cons, ih, length_beBytes, Nat.mod_pow_succ, UInt8.toNat_ofNat',
      Nat.mul_comm, Nat.add_comm]

lemma ofBytesBE_inj {b c : Bytes} (hlen : b.length = c.length) (h : ofBytesBE b = ofBytesBE c) :
    b = c := by
  induction b generalizing c with
  | nil => exact (List.eq_nil_of_length_eq_zero hlen.symm).symm
  | cons x b ih =>
    cases c with
    | nil => cases hlen
    | cons y c =>
      have hbc : b.length = c.length := Nat.succ.inj hlen
      have hb := ofBytesBE_lt b
      have hc := ofBytesBE_lt c
      rw [ofBytesBE_cons, ofBytesBE_cons, hbc] at h
      rw [hbc] at hb
      -- the first byte is the quotient, the rest the remainder
      have hq := congrArg (· / 256 ^ c.length) h
      have hr := congrArg (· % 256 ^ c.length) h
      have hpos : 0 < 256 ^ c.length := Nat.pow_pos (by omega)
      simp only [Nat.mul_comm _ (256 ^ c.length), Nat.mul_add_div hpos, Nat.div_eq_of_lt hb,
        Nat.div_eq_of_lt hc, Nat.add_zero, Nat.mul_add_mod, Nat.mod_eq_of_lt hb,
        Nat.mod_eq_of_lt hc] at hq hr
      rw [UInt8.toNat_inj.mp hq, ih hbc hr]

lemma beBytes_ofBytesBE (b : Bytes) : beBytes b.length (ofBytesBE b) = b :=
  ofBytesBE_inj (length_beBytes _ _) (by rw [ofBytesBE_beBytes, Nat.mod_eq_of_lt (ofBytesBE_lt b)])

lemma eq_of_mod_pow {n a b : ℕ} (ha : a < 256 ^ n) (hb : b < 256 ^ n)
    (h : a % 256 ^ n = b % 256 ^ n) : a = b := by
  rwa [Nat.mod_eq_of_lt ha, Nat.mod_eq_of_lt hb] at h

lemma beBytes_uint32_inj {a b : UInt32} (h : beBytes 4 a.toNat = beBytes 4 b.toNat) : a = b :=
  UInt32.toNat_inj.mp (eq_of_mod_pow a.toNat_lt b.toNat_lt (beBytes_inj h))

end MemServe
