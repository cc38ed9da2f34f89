import MemServe.Client
import MemServe.Sha256Eval
import MemServe.Teranode
import MemServe.Verifier

/-!
Signed answers and the evidence against their signer.

A fraud proof of a false negative sets a signed denial against an inclusion proof of the same
txid. The inclusion proof is the accuser's, and of its fields only the leaf and the two paths
are checked, against the root it brings along.
-/

namespace MemServe.Attest

open Crypto Teranode

inductive Kind
  | seen
  | mined
  | utxo
  /-- A value of the byte that no statement has. -/
  | other (b : UInt8) (h : 2 < b)
  deriving DecidableEq

def Kind.byte (k : Kind) : UInt8 :=
  match k with
  | .seen => 0
  | .mined => 1
  | .utxo => 2
  | .other b _ => b

def Kind.ofByte (b : UInt8) : Kind :=
  if h : 2 < b then .other b h else if b = 0 then .seen else if b = 1 then .mined else .utxo

lemma Kind.ofByte_byte (k : Kind) : ofByte k.byte = k := by
  cases k with
  | other b h => exact dif_pos h
  | _ => rfl

lemma Kind.byte_inj {k l : Kind} (h : k.byte = l.byte) : k = l := by
  rw [← k.ofByte_byte, ← l.ofByte_byte, h]

/-- An answer to a query at a chain tip. What `flag` says depends on the kind: seen, mined or
unspent. -/
structure Statement where
  kind : Kind
  txID : Hash
  vout : UInt32 := 0
  flag : Bool
  height : UInt32 := 0
  blockHash : Hash := default
  tip : UInt32
  deriving DecidableEq

namespace Statement

/-- The bytes that are signed. -/
def encode (s : Statement) : Bytes :=
  [s.kind.byte] ++ s.txID.1 ++ beBytes 4 s.vout.toNat ++ [if s.flag then 1 else 0] ++
    beBytes 4 s.height.toNat ++
    s.blockHash.1 ++ beBytes 4 s.tip.toNat

def sighash (s : Statement) : Hash := Commitment.doubleSHA256 s.encode

/-- The query and the tip, without the answer. -/
def queryKey (s : Statement) : ByteArr 69 :=
  ⟨[s.kind.byte] ++ s.txID.1 ++ beBytes 4 s.vout.toNat ++ beBytes 4 s.tip.toNat ++
    List.replicate 28 0, by simp⟩

/-- Two different answers to one query at one tip. -/
def contradicts (s o : Statement) : Bool :=
  if s.queryKey ≠ o.queryKey then false
  else s.flag != o.flag || s.height != o.height || s.blockHash != o.blockHash

/-- `not seen` or `not mined`. -/
def negative (s : Statement) : Bool := (s.kind = .seen || s.kind = .mined) && !s.flag

/-- A denial that is true of the blocks up to its tip. -/
def Truthful (s : Statement) (blocks : List Block) : Prop :=
  s.negative = true → ∀ b ∈ blocks, b.height ≤ s.tip → ∀ st ∈ b.subtrees, s.txID ∉ st.txIDs

lemma word_inj {v w : UInt32} (h : beBytes 4 v.toNat = beBytes 4 w.toNat) : v = w := by
  have hmod := beBytes_inj h
  have hv := v.toNat_lt
  have hw := w.toNat_lt
  rw [Nat.mod_eq_of_lt (by omega), Nat.mod_eq_of_lt (by omega)] at hmod
  exact UInt32.toNat_inj.mp hmod

lemma queryKey_eq_iff {s o : Statement} :
    s.queryKey = o.queryKey ↔ s.kind = o.kind ∧ s.txID = o.txID ∧ s.vout = o.vout ∧
      s.tip = o.tip := by
  constructor
  · intro h
    have hval := congrArg Subtype.val h
    unfold queryKey at hval
    dsimp only at hval
    obtain ⟨h4, -⟩ := List.append_inj hval (by simp)
    obtain ⟨h3, htip⟩ := List.append_inj h4 (by simp)
    obtain ⟨h2, hvout⟩ := List.append_inj h3 (by simp)
    obtain ⟨hkind, htx⟩ := List.append_inj h2 (by simp)
    exact ⟨Kind.byte_inj (List.singleton_injective hkind), ByteArr.ext htx, word_inj hvout,
      word_inj htip⟩
  · rintro ⟨h1, h2, h3, h4⟩
    exact ByteArr.ext (by simp only [queryKey, h1, h2, h3, h4])

end Statement

structure Attestation where
  statement : Statement
  operator : Option PublicKey
  sig : Option Signature
  deriving DecidableEq

def Attestation.verify (a : Attestation) : Bool :=
  match a.operator, a.sig with
  | some operator, some sig => sig.isLowS && Crypto.verify operator a.statement.sighash.1 sig
  | _, _ => false

lemma Attestation.verify_of_parts {a : Attestation} {operator : PublicKey} {sig : Signature}
    (ho : a.operator = some operator) (hs : a.sig = some sig) (hlow : sig.isLowS = true)
    (hv : Crypto.verify operator a.statement.sighash.1 sig = true) :
    a.verify = true := by
  simp only [Attestation.verify, ho, hs, hlow, hv, Bool.and_self]

/-- A miner's signature on the key of an operator. -/
structure Endorsement where
  operator : Option PublicKey
  miner : Option PublicKey
  sig : Option Signature
  deriving DecidableEq

def endorseHash (operator : PublicKey) : Hash :=
  Commitment.doubleSHA256 ("memserve-endorse-v1".toUTF8.toList ++ operator.serializeCompressed)

def Endorsement.verify (e : Endorsement) : Bool :=
  match e.operator, e.miner, e.sig with
  | some operator, some miner, some sig =>
    sig.isLowS && Crypto.verify miner (endorseHash operator).1 sig
  | _, _, _ => false

inductive FraudKind
  | falseNegative
  | equivocation
  /-- A value of the byte that no proof has. -/
  | other
  deriving DecidableEq

structure FraudProof where
  kind : FraudKind
  att : Attestation
  att2 : Option Attestation := none
  inclusion : Option Proof := none
  endorsement : Option Endorsement := none
  deriving DecidableEq

inductive Error
  | noContradiction
  | badAttestation
  | operatorMismatch
  deriving DecidableEq

/-- A denial against an inclusion proof of its txid. -/
def proveFalseNegative (att : Attestation) (incl : Proof) : Except Error FraudProof :=
  if !att.verify then .error .badAttestation
  else if !att.statement.negative then .error .noContradiction
  else if incl.leaf ≠ att.statement.txID || !incl.verify then .error .noContradiction
  else .ok { kind := .falseNegative, att := att, inclusion := some incl }

/-- Two answers of one operator against each other. -/
def proveEquivocation (a b : Attestation) : Except Error FraudProof :=
  if !a.verify || !b.verify then .error .badAttestation
  else if !(a.operator.any fun x => b.operator.any fun y => x.equal y) then .error .operatorMismatch
  else if !a.statement.contradicts b.statement then .error .noContradiction
  else .ok { kind := .equivocation, att := a, att2 := some b }

namespace FraudProof

def withEndorsement (fp : FraudProof) (e : Endorsement) : FraudProof :=
  { fp with endorsement := some e }

/-- The evidence of a proof, checked again: the operator it names. -/
def accused (fp : FraudProof) : Option (Option PublicKey) :=
  match fp.kind with
  | .falseNegative =>
    match fp.inclusion with
    | none => none
    | some incl =>
      match proveFalseNegative fp.att incl with
      | .error _ => none
      | .ok _ => some fp.att.operator
  | .equivocation =>
    match fp.att2 with
    | none => none
    | some att2 =>
      match proveEquivocation fp.att att2 with
      | .error _ => none
      | .ok _ => some fp.att.operator
  | .other => none

/-- The operator that lied, the miner bound to it, and whether the proof stands. -/
def verify (fp : FraudProof) : Option PublicKey × Option PublicKey × Bool :=
  match fp.accused with
  | none => (none, none, false)
  | some operator =>
    match fp.endorsement with
    | none => (operator, none, true)
    | some e =>
      if e.verify && e.operator.any fun x => operator.any fun y =>
        x.equal y then (operator, e.miner, true)
      else (operator, none, true)

end FraudProof

/-! ### False negatives -/

/-- A denial with a valid signature. -/
def Attestation.Denies (att : Attestation) : Prop :=
  att.verify = true ∧ att.statement.negative = true

/-- **What makes a fraud proof**: a signed denial, and a proof that folds its txid to a root. -/
lemma proveFalseNegative_ok_iff {att : Attestation} {p : Proof} :
    (∃ fp, proveFalseNegative att p = .ok fp) ↔ att.Denies ∧ p.leaf = att.statement.txID ∧
      p.verify = true := by
  unfold proveFalseNegative Attestation.Denies
  cases att.verify <;> cases att.statement.negative <;> cases p.verify <;>
    by_cases hleaf : p.leaf = att.statement.txID <;> simp [hleaf]

lemma proveFalseNegative_of_denies {att : Attestation} {p : Proof} (hd : att.Denies)
    (hleaf : p.leaf = att.statement.txID) (hv : p.verify = true) :
    proveFalseNegative att p = .ok { kind := .falseNegative, att := att, inclusion := some p } := by
  simp [proveFalseNegative, hd.1, hd.2, hleaf, hv]

lemma FraudProof.verify_falseNegative {fp : FraudProof} (hk : fp.kind = .falseNegative) :
    fp.verify.2.2 = true ↔ ∃ p, fp.inclusion = some p ∧ ∃ fp',
      proveFalseNegative fp.att p = .ok fp' := by
  have hstands : fp.verify.2.2 = true ↔ ∃ operator, fp.accused = some operator := by
    unfold verify
    cases hacc : fp.accused with
    | none => simp
    | some operator =>
      cases fp.endorsement with
      | none => simp
      | some e =>
        dsimp only
        split_ifs <;> simp
  rw [hstands]
  unfold accused
  cases hincl : fp.inclusion with
  | none => simp [hk]
  | some p =>
    simp only [hk]
    cases hprove : proveFalseNegative fp.att p <;> simp [hprove]

/-- What a fraud proof should rest on: an inclusion of the txid, through the header of a block up to
the tip of the statement. -/
def Refutes (att : Attestation) (p : Proof) : Prop :=
  p.Commits att.statement.txID ∧ p.height ≤ att.statement.tip

/-- What `ProveFalseNegative` does not look at. -/
def Anchored (att : Attestation) (p : Proof) : Prop := p.Bound ∧ p.height ≤ att.statement.tip

/-- Acceptance is sound exactly where the fields that are not checked are consistent. -/
lemma accepts_refutes_iff (att : Attestation) (p : Proof) :
    ((∃ fp, proveFalseNegative att p = .ok fp) → Refutes att p) ↔
      (att.Denies → p.leaf = att.statement.txID → p.verify = true → Anchored att p) := by
  rw [proveFalseNegative_ok_iff]
  constructor
  · intro h hd hleaf hv
    obtain ⟨hc, hheight⟩ := h ⟨hd, hleaf, hv⟩
    exact ⟨hc.bound, hheight⟩
  · rintro h ⟨hd, hleaf, hv⟩
    obtain ⟨hb, hheight⟩ := h hd hleaf hv
    exact ⟨hb.commits hleaf hv, hheight⟩

/-- **What a false-negative proof shows, exactly.** First of the proof that is built: acceptance
shows an inclusion through a header up to the tip if and only if the accuser's proof is consistent
where it is not checked. Second of any published proof with that attestation. Third of the signer:
every signed denial, true or not, has an accepted proof against it. -/
theorem false_negative_iff (att : Attestation) :
    (∀ p, ((∃ fp, proveFalseNegative att p = .ok fp) → Refutes att p) ↔
      (att.Denies → p.leaf = att.statement.txID → p.verify = true → Anchored att p)) ∧
    (∀ att2 incl endorsement,
      ((FraudProof.mk .falseNegative att att2 incl endorsement).verify.2.2 = true →
        ∃ p, incl = some p ∧ Refutes att p) ↔
        ∀ p, incl = some p → att.Denies → p.leaf = att.statement.txID → p.verify = true →
          Anchored att p) ∧
    ((∀ p fp, proveFalseNegative att p ≠ .ok fp) ↔ ¬ att.Denies) := by
  refine ⟨accepts_refutes_iff att, fun att2 incl endorsement => ?_, ?_⟩
  · rw [FraudProof.verify_falseNegative rfl]
    constructor
    · rintro h p rfl
      refine (accepts_refutes_iff att p).mp fun hok => ?_
      obtain ⟨p', hp', hrefutes⟩ := h ⟨p, rfl, hok⟩
      cases hp'
      exact hrefutes
    · rintro h ⟨p, rfl, hok⟩
      exact ⟨p, rfl, (accepts_refutes_iff att p).mpr (h p rfl) hok⟩
  · constructor
    · intro h hd
      obtain ⟨fp, hfp⟩ :=
        proveFalseNegative_ok_iff.mpr ⟨hd, rfl, Proof.bare_verify att.statement.txID⟩
      exact h _ fp hfp
    · intro h p fp hfp
      exact h (proveFalseNegative_ok_iff.mp ⟨fp, hfp⟩).1

/-- `Not seen` at height 1. -/
def honestStatement : Statement := { kind := .seen, txID := .fill 32 7, flag := false, tip := 1 }

/-- Signed with the key of the scalar one. -/
def honestDenial : Attestation where
  statement := honestStatement
  operator := some ⟨curveGx, curveGy⟩
  sig := some
    ⟨0xe5572aadcec5080a70ff6ea5ecea5a95df8227896856792ec0c3e19acde014ac,
      0x574ffb6f83e44bb7e203553745dd19f28660a9339d73a03206bb2a1486a92cb9⟩

lemma honestDenial_verify : honestDenial.verify = true := by
  refine Attestation.verify_of_parts rfl rfl (by decide) (verify_of_checks ?_)
  unfold Statement.sighash Commitment.doubleSHA256
  rw [Sha256.Eval.sum256_eq]
  decide +kernel

/-- The chain up to height 1: one block with one other transaction. -/
def honestChain : List Block := [sealBlock 1 [[⟨.fill 32 1, [], []⟩]]]

/-- **An honest denial is turned into a fraud proof** by a proof without paths, whose root is the
txid itself and whose header is empty. -/
theorem false_negative_framed :
    honestStatement.Truthful honestChain ∧
      (∃ fp, proveFalseNegative honestDenial (.bare (.fill 32 7)) = .ok fp ∧ fp.verify.2.2 = true) ∧
      ¬ Refutes honestDenial (.bare (.fill 32 7)) := by
  have hd : honestDenial.Denies := ⟨honestDenial_verify, rfl⟩
  refine ⟨fun _ b hb _ st hst => ?_, ?_, fun h => ?_⟩
  · rw [honestChain, List.mem_singleton] at hb
    subst hb
    rw [sealBlock] at hst
    simp only [List.map_cons, List.map_nil, List.mem_singleton] at hst
    subst hst
    decide
  · have hok := proveFalseNegative_of_denies hd rfl (Proof.bare_verify (.fill 32 7))
    exact ⟨_, hok, (FraudProof.verify_falseNegative rfl).mpr ⟨_, rfl, _, hok⟩⟩
  · exact absurd h.1.header (by decide)

end MemServe.Attest
