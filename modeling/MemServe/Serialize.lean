import MemServe.Binding

/-!
The bytes of a transaction.

A transaction is written field by field, each of fixed length, after its length or after its number,
so the bytes tell the transaction and where it ends. Go's slices are shorter than `2 ^ 63`, so that
their lengths are words.
-/

namespace MemServe.Bsvtx

def putTxIn (i : TxIn) : Bytes :=
  putOutPoint i.prevOut ++ putScript i.scriptSig ++ putU32 i.sequence

/-- The canonical bytes of a transaction. -/
def Tx.serialize (t : Tx) : Bytes :=
  putU32 t.version.toUInt32 ++ putVarInt t.inputs.length ++ t.inputs.flatMap putTxIn ++
    putVarInt t.outputs.length ++ t.outputs.flatMap putTxOut ++ putU32 t.lockTime

/-- Every length in the transaction is a word. -/
structure Tx.Sized (t : Tx) : Prop where
  inputs : t.inputs.length < 2 ^ 64
  outputs : t.outputs.length < 2 ^ 64
  scriptSig : ∀ i ∈ t.inputs, i.scriptSig.length < 2 ^ 64
  scriptPubKey : ∀ o ∈ t.outputs, o.scriptPubKey.length < 2 ^ 64

lemma putTxIn_selfDelimiting : SelfDelimiting putTxIn {i | i.scriptSig.length < 2 ^ 64} := by
  refine ((putOutPoint_selfDelimiting.append putScript_selfDelimiting).append
    putU32_selfDelimiting).comp
    (k := fun i : TxIn => ((i.prevOut, i.scriptSig), i.sequence)) ?_ fun i hi =>
      ⟨⟨trivial, hi⟩, trivial⟩
  rintro ⟨p, s, q⟩ - ⟨p', s', q'⟩ - heq
  cases heq
  rfl

/-- **The bytes of a transaction tell it**, whatever follows them. -/
lemma serialize_selfDelimiting : SelfDelimiting Tx.serialize {t | t.Sized} := by
  have hins := putVarInt_selfDelimiting.counted putTxIn_selfDelimiting
  have houts := putVarInt_selfDelimiting.counted putTxOut_selfDelimiting
  have hall := ((putU32_selfDelimiting.append hins).append houts).append putU32_selfDelimiting
  have hcode := hall.comp (t := {t | t.Sized})
    (k := fun t : Tx => (((t.version.toUInt32, t.inputs), t.outputs), t.lockTime)) ?_ ?_
  · intro t ht t' ht' x y h
    refine hcode t ht t' ht' x y ?_
    simpa only [Tx.serialize, List.append_assoc] using h
  · rintro ⟨v, i, o, l⟩ - ⟨v', i', o', l'⟩ - heq
    simp only [Prod.mk.injEq] at heq
    obtain ⟨⟨⟨hv, rfl⟩, rfl⟩, rfl⟩ := heq
    rw [show v = v' from congrArg Int32.ofUInt32 hv]
  · intro t ht
    exact ⟨⟨⟨trivial, ht.inputs, ht.scriptSig⟩, ht.outputs, ht.scriptPubKey⟩, trivial⟩

/-- **Serialization is unambiguous.** Transactions of the same bytes are the same, and the bytes of
a transaction do not start those of another. -/
theorem serialize_unambiguous {t₁ t₂ : Tx} (h₁ : t₁.Sized) (h₂ : t₂.Sized) :
    (t₁.serialize = t₂.serialize → t₁ = t₂) ∧
      (t₁.serialize <+: t₂.serialize → t₁.serialize = t₂.serialize) := by
  have hstart : t₁.serialize <+: t₂.serialize → t₁ = t₂ :=
    serialize_selfDelimiting.eq_of_isPrefix h₁ h₂
  refine ⟨fun h => hstart ?_, fun h => by rw [hstart h]⟩
  rw [h]

/-- A transaction with nothing in it, and one whose bytes are the same up to the number of
inputs. -/
theorem serialize_unambiguous_sample :
    ¬(⟨2, [], [], 0⟩ : Tx).serialize <+:
      (⟨2, [⟨⟨.fill 32 0x11, 1⟩, [0x51], finalSequence⟩], [⟨1000, [0xac]⟩], 0⟩ : Tx).serialize := by
  have h₁ : (⟨2, [], [], 0⟩ : Tx).Sized := ⟨by decide, by decide, by simp, by simp⟩
  have h₂ : (⟨2, [⟨⟨.fill 32 0x11, 1⟩, [0x51], finalSequence⟩], [⟨1000, [0xac]⟩], 0⟩ : Tx).Sized :=
    ⟨by decide, by decide, by simp, by simp⟩
  obtain ⟨hinj, hstart⟩ := serialize_unambiguous h₁ h₂
  intro h
  exact absurd (hinj (hstart h)) (by decide)

end MemServe.Bsvtx
