import MemServe.Codes
import MemServe.HttpSource
import MemServe.Proof

/-!
Proofs on the wire.

Hashes and the header travel as hexadecimal strings. They are written in lower case and read in
either, so what is read back is what was sent, and what is sent again is what was read but for the
case.
-/

namespace MemServe.Server

open Httpsource Commitment

def hexChar (n : ℕ) : UInt8 := UInt8.ofNat (if n < 10 then 48 + n else 87 + n)

/-- `hex.EncodeToString`. -/
def encodeToString (b : Bytes) : Bytes :=
  b.flatMap fun x => [hexChar (x.toNat / 16), hexChar (x.toNat % 16)]

/-- An ASCII letter in lower case. -/
def lower (c : UInt8) : UInt8 := if 65 ≤ c ∧ c ≤ 90 then c + 32 else c

lemma toNat_hexChar {n : ℕ} (h : n < 16) :
    (hexChar n).toNat = if n < 10 then 48 + n else 87 + n := by
  rw [hexChar, UInt8.toNat_ofNat', Nat.mod_eq_of_lt]
  split <;> omega

lemma toNat_lower (c : UInt8) :
    (lower c).toNat = if 65 ≤ c.toNat ∧ c.toNat ≤ 90 then c.toNat + 32 else c.toNat := by
  simp only [lower, UInt8.le_iff_toNat_le, UInt8.reduceToNat]
  split
  · simp only [UInt8.toNat_add, UInt8.reduceToNat]
    omega
  · rfl

/-- A character stands for the digit that its lower case is written for. -/
lemma hexDigit_eq_ok {c v : UInt8} :
    hexDigit c = .ok v ↔ v.toNat < 16 ∧ hexChar v.toNat = lower c := by
  have hv : hexChar v.toNat = lower c ∧ v.toNat < 16 ↔ v.toNat < 16 ∧
      (if v.toNat < 10 then 48 + v.toNat else 87 + v.toNat) =
        if 65 ≤ c.toNat ∧ c.toNat ≤ 90 then c.toNat + 32 else c.toNat := by
    rw [and_comm, ← UInt8.toNat_inj, toNat_lower]
    exact and_congr_right fun h => by rw [toNat_hexChar h]
  rw [and_comm, hv]
  simp only [hexDigit, UInt8.le_iff_toNat_le, UInt8.reduceToNat]
  split_ifs <;> simp [← UInt8.toNat_inj, UInt8.toNat_sub] <;> omega

lemma hexDigit_hexChar {n : ℕ} (h : n < 16) : hexDigit (hexChar n) = .ok (UInt8.ofNat n) := by
  have hn : (UInt8.ofNat n).toNat = n := by
    rw [UInt8.toNat_ofNat', Nat.mod_eq_of_lt (by omega)]
  rw [hexDigit_eq_ok, hn, ← UInt8.toNat_inj, toNat_lower, toNat_hexChar h]
  refine ⟨h, ?_⟩
  split_ifs <;> omega

lemma decodeHex_encodeToString (b : Bytes) : decodeHex (encodeToString b) = .ok b := by
  induction b with
  | nil => rfl
  | cons x b ih =>
    have hx := x.toNat_lt
    have hbyte : UInt8.ofNat (x.toNat / 16) * 16 + UInt8.ofNat (x.toNat % 16) = x := by
      simp only [← UInt8.toNat_inj, UInt8.toNat_add, UInt8.toNat_mul, UInt8.toNat_ofNat',
        UInt8.reduceToNat]
      omega
    rw [encodeToString, List.flatMap_cons, ← encodeToString]
    simp only [List.cons_append, List.nil_append, decodeHex]
    rw [hexDigit_hexChar (by omega), hexDigit_hexChar (by omega), ih]
    exact congrArg (Except.ok ∘ (· :: b)) hbyte

lemma encodeToString_of_decodeHex {s b : Bytes} (h : decodeHex s = .ok b) :
    encodeToString b = s.map lower := by
  induction s using decodeHex.induct generalizing b with
  | case1 =>
    cases h
    rfl
  | case2 c =>
    -- An odd number of digits is refused, whatever the last one is.
    cases hc : hexDigit c <;> simp [decodeHex, hc, bind, Except.bind] at h
  | case3 c d cs ih =>
    simp only [decodeHex, bind_eq_ok] at h
    obtain ⟨hi, hc, lo, hd, bs, hcs, heq⟩ := h
    obtain ⟨hhi, hc⟩ := hexDigit_eq_ok.mp hc
    obtain ⟨hlo, hd⟩ := hexDigit_eq_ok.mp hd
    have hbyte : (hi * 16 + lo).toNat = 16 * hi.toNat + lo.toNat := by
      simp only [UInt8.toNat_add, UInt8.toNat_mul, UInt8.reduceToNat]
      omega
    cases heq
    rw [encodeToString, List.flatMap_cons, ← encodeToString, ih hcs, hbyte,
      show (16 * hi.toNat + lo.toNat) / 16 = hi.toNat by omega,
      show (16 * hi.toNat + lo.toNat) % 16 = lo.toNat by omega, hc, hd]
    rfl

def hexHash (h : Hash) : Bytes := encodeToString h.1

/-- The bytes of a string of `n` of them; `none` is the answer `false`. -/
def parseBytes (n : ℕ) (s : Bytes) : Option (ByteArr n) :=
  match decodeHex s with
  | .error _ => none
  | .ok b => if b.length ≠ n then none else some (.copy n b)

def parseHash (s : Bytes) : Option Hash := parseBytes 32 s

structure PathElemJSON where
  sibling : Bytes
  right : Bool
  deriving DecidableEq

/-- The wire form of a proof. A path may be absent, which is Go's nil. -/
structure ProofJSON where
  leaf : Bytes
  l1 : Option (List PathElemJSON)
  subtreeRoot : Bytes
  l2 : Option (List PathElemJSON)
  blockRoot : Bytes
  blockHash : Bytes
  height : UInt32
  header : Bytes
  deriving DecidableEq

def encodeElem (e : PathElem) : PathElemJSON := ⟨hexHash e.sibling, e.right⟩

def encodeProof (p : Proof) : ProofJSON where
  leaf := hexHash p.leaf
  l1 := some (p.l1.map encodeElem)
  subtreeRoot := hexHash p.subtreeRoot
  l2 := some (p.l2.map encodeElem)
  blockRoot := hexHash p.blockRoot
  blockHash := hexHash p.blockHash
  height := p.height
  header := encodeToString p.header.1

def decodeElem (e : PathElemJSON) : Option PathElem := do
  let sib ← parseHash e.sibling
  some ⟨sib, e.right⟩

def decodePath (es : Option (List PathElemJSON)) : Option (List PathElem) :=
  (es.getD []).mapM decodeElem

def decodeProof (j : ProofJSON) : Option Proof := do
  let leaf ← parseHash j.leaf
  let l1 ← decodePath j.l1
  let subtreeRoot ← parseHash j.subtreeRoot
  let l2 ← decodePath j.l2
  let blockRoot ← parseHash j.blockRoot
  let blockHash ← parseHash j.blockHash
  let header ← parseBytes 80 j.header
  some ⟨leaf, l1, subtreeRoot, l2, blockRoot, blockHash, j.height, header⟩

/-- The wire form with its hexadecimal strings in lower case, and an absent path as an empty one. -/
def ProofJSON.normal (j : ProofJSON) : ProofJSON where
  leaf := j.leaf.map lower
  l1 := some ((j.l1.getD []).map fun e => ⟨e.sibling.map lower, e.right⟩)
  subtreeRoot := j.subtreeRoot.map lower
  l2 := some ((j.l2.getD []).map fun e => ⟨e.sibling.map lower, e.right⟩)
  blockRoot := j.blockRoot.map lower
  blockHash := j.blockHash.map lower
  height := j.height
  header := j.header.map lower

/-! ### The round trips -/

lemma parseBytes_encodeToString {n : ℕ} (b : ByteArr n) :
    parseBytes n (encodeToString b.1) = some b := by
  rw [parseBytes, decodeHex_encodeToString]
  simp only [b.2, ne_eq, not_true_eq_false, if_false, ByteArr.copy_val]

lemma encodeToString_of_parseBytes {n : ℕ} {s : Bytes} {b : ByteArr n}
    (h : parseBytes n s = some b) :
    encodeToString b.1 = s.map lower := by
  unfold parseBytes at h
  split at h
  · cases h
  next bs hbs =>
    split_ifs at h with hlen
    have hval : ByteArr.copy n bs = ⟨bs, not_not.mp hlen⟩ := ByteArr.copy_val ⟨bs, not_not.mp hlen⟩
    rw [← Option.some.inj h, hval]
    exact encodeToString_of_decodeHex hbs

lemma decodeElem_encodeElem (e : PathElem) : decodeElem (encodeElem e) = some e := by
  rw [decodeElem, encodeElem, hexHash, parseHash, parseBytes_encodeToString]
  rfl

lemma encodeElem_of_decodeElem {e : PathElemJSON} {q : PathElem} (h : decodeElem e = some q) :
    encodeElem q = ⟨e.sibling.map lower, e.right⟩ := by
  obtain ⟨sib, hsib, heq⟩ := Option.bind_eq_some_iff.mp h
  cases heq
  rw [encodeElem, hexHash, encodeToString_of_parseBytes hsib]

lemma decodePath_encode (es : List PathElem) : decodePath (some (es.map encodeElem)) = some es := by
  rw [decodePath, Option.getD_some, mapM_eq_some_iff, List.forall₂_map_right_iff, List.forall₂_same]
  exact fun e _ => decodeElem_encodeElem e

lemma encode_of_decodePath {es : Option (List PathElemJSON)} {qs : List PathElem}
    (h : decodePath es = some qs) :
    qs.map encodeElem = (es.getD []).map fun e => ⟨e.sibling.map lower, e.right⟩ :=
  map_of_mapM_eq_some (fun _ _ => encodeElem_of_decodeElem) h

/-- **A proof survives the wire.** What is sent is read back, so it verifies as it did; what is
read, sent again, is what was read but for the case of its letters. -/
theorem proof_round_trip :
    (∀ p : Proof, decodeProof (encodeProof p) = some p ∧
      (decodeProof (encodeProof p)).map Proof.verify = some p.verify) ∧
    ∀ (j : ProofJSON) (p : Proof), decodeProof j = some p → encodeProof p = j.normal := by
  have hsent : ∀ p : Proof, decodeProof (encodeProof p) = some p := by
    intro p
    simp only [decodeProof, encodeProof, hexHash, parseHash, parseBytes_encodeToString,
      decodePath_encode]
    rfl
  refine ⟨fun p => ⟨hsent p, by rw [hsent, Option.map_some]⟩, fun j p h => ?_⟩
  simp only [decodeProof, Option.bind_eq_bind, Option.bind_eq_some_iff] at h
  obtain ⟨leaf, hleaf, l1, hl1, sub, hsub, l2, hl2, root, hroot, hash, hhash, header,
    hheader, heq⟩ := h
  cases heq
  simp only [encodeProof, ProofJSON.normal, hexHash, encodeToString_of_parseBytes hleaf,
    encode_of_decodePath hl1, encodeToString_of_parseBytes hsub, encode_of_decodePath hl2,
    encodeToString_of_parseBytes hroot, encodeToString_of_parseBytes hhash,
    encodeToString_of_parseBytes hheader]

/-- A proof whose leaf has letters, and a wire form of it in upper case and without its empty
path. -/
def lettered : Proof :=
  ⟨⟨List.replicate 32 0xAB, rfl⟩, [⟨⟨List.replicate 32 1, rfl⟩, true⟩],
    ⟨List.replicate 32 2, rfl⟩, [],
    ⟨List.replicate 32 3, rfl⟩, ⟨List.replicate 32 4, rfl⟩, 7, ⟨List.replicate 80 5, rfl⟩⟩

def shouted : ProofJSON :=
  { encodeProof lettered with leaf := (List.replicate 32 [65, 66]).flatten, l2 := none }

theorem proof_round_trip_shouted :
    decodeProof shouted = some lettered ∧ encodeProof lettered = shouted.normal ∧
      shouted.normal.leaf ≠ shouted.leaf :=
  have hread : decodeProof shouted = some lettered := by
    simp only [decodeProof, shouted, encodeProof, hexHash, decodePath_encode, parseHash,
      parseBytes_encodeToString]
    rfl
  ⟨hread, proof_round_trip.2 _ _ hread, by decide⟩

end MemServe.Server
