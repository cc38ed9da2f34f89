import MemServe.Codes
import MemServe.Prepay

/-!
A signature hash is bound to everything it is computed from.

The string that is hashed last holds the fields of the transaction one after the other, each of
fixed length or after its own length, and three hashes of strings of the same kind. So where no
two of these strings collide, the hash determines the transaction but for its unlocking scripts.
Scripts are Go slices, and the length of a slice is below `2 ^ 63`.
-/

namespace MemServe.Bsvtx

lemma putU32_selfDelimiting : SelfDelimiting putU32 Set.univ := by
  refine .of_length (fun v _ => length_leBytes 4 v.toNat) fun a _ b _ h => ?_
  exact UInt32.toNat_inj.mp (eq_of_mod_pow a.toNat_lt b.toNat_lt (leBytes_inj h))

lemma putU64_selfDelimiting : SelfDelimiting putU64 Set.univ := by
  refine .of_length (fun v _ => length_leBytes 8 v.toNat) fun a _ b _ h => ?_
  exact UInt64.toNat_inj.mp (eq_of_mod_pow a.toNat_lt b.toNat_lt (leBytes_inj h))

lemma hash_selfDelimiting : SelfDelimiting (fun h : ByteArr 32 => h.1) Set.univ :=
  .of_length (fun h _ => h.2) fun _ _ _ _ h => ByteArr.ext h

lemma putOutPoint_selfDelimiting : SelfDelimiting putOutPoint Set.univ := by
  refine (hash_selfDelimiting.append putU32_selfDelimiting).comp
    (k := fun op : OutPoint => (op.hash, op.index)) ?_
    fun _ _ => ⟨trivial, trivial⟩
  rintro ⟨h, i⟩ - ⟨h', i'⟩ - heq
  cases heq
  rfl

lemma putVarInt_cases (n : ℕ) :
    (n < 0xfd ∧ putVarInt n = [UInt8.ofNat n]) ∨
      (0xfd ≤ n ∧ n ≤ 0xffff ∧ putVarInt n = 0xfd :: leBytes 2 n) ∨
      (0xffff < n ∧ n ≤ 0xffffffff ∧ putVarInt n = 0xfe :: leBytes 4 n) ∨
      (0xffffffff < n ∧ putVarInt n = 0xff :: leBytes 8 n) := by
  unfold putVarInt
  split_ifs with h1 h2 h3
  · exact .inl ⟨h1, by rw [leBytes_succ]; rfl⟩
  · exact .inr (.inl ⟨by omega, h2, rfl⟩)
  · exact .inr (.inr (.inl ⟨by omega, h3, rfl⟩))
  · exact .inr (.inr (.inr ⟨by omega, rfl⟩))

lemma ofNat_ne_mark {n m : ℕ} (hn : n < m) (hm : m < 256) : UInt8.ofNat n ≠ UInt8.ofNat m := by
  intro h
  have := congrArg UInt8.toNat h
  rw [UInt8.toNat_ofNat_of_lt' (by change n < 256; omega),
    UInt8.toNat_ofNat_of_lt' (by change m < 256; omega)] at this
  omega

lemma leBytes_append_inj {k a b : ℕ} {x y : Bytes} (ha : a < 256 ^ k) (hb : b < 256 ^ k)
    (h : leBytes k a ++ x = leBytes k b ++ y) : a = b ∧ x = y := by
  obtain ⟨h1, h2⟩ := List.append_inj h (by simp)
  exact ⟨eq_of_mod_pow ha hb (leBytes_inj h1), h2⟩

lemma putVarInt_selfDelimiting : SelfDelimiting putVarInt {n | n < 2 ^ 64} := by
  intro a ha b hb x y h
  change a < 2 ^ 64 at ha
  change b < 2 ^ 64 at hb
  have hfd : ∀ {n}, n < 0xfd → UInt8.ofNat n ≠ 0xfd :=
    fun hn => ofNat_ne_mark (m := 0xfd) hn (by omega)
  have hfe : ∀ {n}, n < 0xfd → UInt8.ofNat n ≠ 0xfe :=
    fun hn => ofNat_ne_mark (m := 0xfe) (by omega) (by omega)
  have hff : ∀ {n}, n < 0xfd → UInt8.ofNat n ≠ 0xff :=
    fun hn => ofNat_ne_mark (m := 0xff) (by omega) (by omega)
  rcases putVarInt_cases a with ⟨ha1, ea⟩ | ⟨-, ha2, ea⟩ | ⟨-, ha2, ea⟩ | ⟨-, ea⟩ <;>
    rcases putVarInt_cases b with ⟨hb1, eb⟩ | ⟨-, hb2, eb⟩ | ⟨-, hb2, eb⟩ | ⟨-, eb⟩ <;>
    rw [ea, eb] at h <;> simp only [List.cons_append, List.nil_append, List.cons.injEq] at h
  · refine ⟨?_, h.2⟩
    have := congrArg UInt8.toNat h.1
    rwa [UInt8.toNat_ofNat_of_lt' (by change a < 256; omega),
      UInt8.toNat_ofNat_of_lt' (by change b < 256; omega)] at this
  · exact absurd h.1 (hfd ha1)
  · exact absurd h.1 (hfe ha1)
  · exact absurd h.1 (hff ha1)
  · exact absurd h.1.symm (hfd hb1)
  · exact leBytes_append_inj (by omega) (by omega) h.2
  · exact absurd h.1 (by decide)
  · exact absurd h.1 (by decide)
  · exact absurd h.1.symm (hfe hb1)
  · exact absurd h.1 (by decide)
  · exact leBytes_append_inj (by omega) (by omega) h.2
  · exact absurd h.1 (by decide)
  · exact absurd h.1.symm (hff hb1)
  · exact absurd h.1 (by decide)
  · exact absurd h.1 (by decide)
  · exact leBytes_append_inj (by omega) (by omega) h.2

/-- The script fits a Go slice. -/
def Sliced (script : Bytes) : Prop := script.length < 2 ^ 63

lemma Sliced.length_lt {b : Bytes} (h : Sliced b) : b.length < 2 ^ 64 :=
  Nat.lt_of_lt_of_le h (by omega)

lemma putScript_selfDelimiting : SelfDelimiting putScript {b | b.length < 2 ^ 64} :=
  putVarInt_selfDelimiting.withLength

lemma putTxOut_selfDelimiting : SelfDelimiting putTxOut {o | o.scriptPubKey.length < 2 ^ 64} := by
  refine (putU64_selfDelimiting.append putScript_selfDelimiting).comp
    (k := fun o : TxOut => (o.value, o.scriptPubKey)) ?_
    fun o ho => ⟨trivial, ho⟩
  rintro ⟨v, s⟩ - ⟨v', s'⟩ - heq
  cases heq
  rfl

/-! ### The strings that are hashed -/

namespace Tx

def prevouts (t : Tx) : Bytes := t.inputs.flatMap fun i => putOutPoint i.prevOut

def sequences (t : Tx) : Bytes := t.inputs.flatMap fun i => putU32 i.sequence

def outs (t : Tx) : Bytes := t.outputs.flatMap putTxOut

/-- The string whose hash is signed, for the input `i` and all inputs and outputs. -/
def preimage (t : Tx) (i : TxIn) (scriptCode : Bytes) (amount : UInt64) : Bytes :=
  putU32 t.version.toUInt32 ++ (Commitment.doubleSHA256 t.prevouts).1 ++
    (Commitment.doubleSHA256 t.sequences).1 ++
    putOutPoint i.prevOut ++ putScript scriptCode ++ putU64 amount ++ putU32 i.sequence ++
    (Commitment.doubleSHA256 t.outs).1 ++ putU32 t.lockTime ++ putU32 sighashAllFork

def hashed (t : Tx) (idx : ℕ) (scriptCode : Bytes) (amount : UInt64) : List Bytes :=
  [t.prevouts, t.sequences, t.outs] ++
    (t.inputs[idx]?.map fun i => t.preimage i scriptCode amount).toList

lemma sighashForkID_allFork (t : Tx) (idx : ℕ) (scriptCode : Bytes) (amount : UInt64) :
    t.sighashForkID idx scriptCode amount sighashAllFork =
      match t.inputs[idx]? with
      | none => .error .panic
      | some i => .ok (Commitment.doubleSHA256 (t.preimage i scriptCode amount)) := by
  have h1 : sighashAllFork &&& sighashAnyone = 0 := by decide
  have h2 : ¬sighashAllFork &&& 0x1f = sighashSingle := by decide
  have h3 : ¬sighashAllFork &&& 0x1f = sighashNone := by decide
  unfold sighashForkID
  simp only [h1, h2, h3, ne_eq, not_true_eq_false, not_false_eq_true, if_true, if_false, or_self,
    and_self]
  rfl

lemma sighashForkID_eq_ok {t : Tx} {idx : ℕ} {scriptCode : Bytes} {amount : UInt64} {h : Hash}
    (hok : t.sighashForkID idx scriptCode amount sighashAllFork = .ok h) :
    ∃ i, t.inputs[idx]? = some i ∧
      Commitment.doubleSHA256 (t.preimage i scriptCode amount) = h := by
  rw [sighashForkID_allFork] at hok
  cases hi : t.inputs[idx]? with
  | none => simp [hi] at hok
  | some i => exact ⟨i, rfl, by simpa [hi] using hok⟩

end Tx

/-- No two of the strings collide. -/
def CollisionFree (strings : List Bytes) : Prop :=
  ∀ a ∈ strings, ∀ b ∈ strings, Commitment.doubleSHA256 a = Commitment.doubleSHA256 b → a = b

lemma CollisionFree.mono {l m : List Bytes} (hm : CollisionFree m) (hl : l ⊆ m) : CollisionFree l :=
  fun a ha b hb => hm a (hl ha) b (hl hb)

lemma collisionFree_of_nodup {l : List Bytes} (h : (l.dedup.map Commitment.doubleSHA256).Nodup) :
    CollisionFree l :=
  fun _ ha _ hb => List.inj_on_of_nodup_map h (List.mem_dedup.mpr ha) (List.mem_dedup.mpr hb)

namespace Tx

/-- All that the signature hash covers. -/
structure SignedAlike (t t' : Tx) (idx idx' : ℕ) : Prop where
  version : t.version = t'.version
  prevOuts : t.inputs.map TxIn.prevOut = t'.inputs.map TxIn.prevOut
  sequences : t.inputs.map TxIn.sequence = t'.inputs.map TxIn.sequence
  outputs : t.outputs = t'.outputs
  lockTime : t.lockTime = t'.lockTime
  outPoint : t.inputs[idx]?.map TxIn.prevOut = t'.inputs[idx']?.map TxIn.prevOut

variable {t t' : Tx} {i i' : TxIn} {idx idx' : ℕ} {sc sc' : Bytes} {a a' : UInt64}

lemma prevOuts_of_prevouts (h : t.prevouts = t'.prevouts) :
    t.inputs.map TxIn.prevOut = t'.inputs.map TxIn.prevOut := by
  have hne : ∀ op ∈ Set.univ, putOutPoint op ≠ [] := by
    intro op _ h
    simpa [putOutPoint, putU32] using congrArg List.length h
  refine putOutPoint_selfDelimiting.flatMap hne (fun _ _ => trivial) (fun _ _ => trivial) ?_
  simpa [prevouts, List.flatMap_map] using h

lemma sequences_of_sequences (h : t.sequences = t'.sequences) :
    t.inputs.map TxIn.sequence = t'.inputs.map TxIn.sequence := by
  have hne : ∀ v ∈ Set.univ, putU32 v ≠ [] := by
    intro v _ h
    simpa [putU32] using congrArg List.length h
  refine putU32_selfDelimiting.flatMap hne (fun _ _ => trivial) (fun _ _ => trivial) ?_
  simpa [sequences, List.flatMap_map] using h

lemma outputs_of_outs (ht : ∀ o ∈ t.outputs, Sliced o.scriptPubKey)
    (ht' : ∀ o ∈ t'.outputs, Sliced o.scriptPubKey)
    (h : t.outs = t'.outs) : t.outputs = t'.outputs := by
  have hne : ∀ o ∈ {o : TxOut | Sliced o.scriptPubKey}, putTxOut o ≠ [] := by
    intro o _ h
    have := congrArg List.length h
    simp [putTxOut, putU64] at this
  exact (putTxOut_selfDelimiting.mono fun o ho => Sliced.length_lt ho).flatMap hne ht ht' h

lemma preimage_inj (hsc : Sliced sc) (hsc' : Sliced sc')
    (h : t.preimage i sc a = t'.preimage i' sc' a') :
    t.version = t'.version ∧ Commitment.doubleSHA256 t.prevouts =
      Commitment.doubleSHA256 t'.prevouts ∧
      Commitment.doubleSHA256 t.sequences = Commitment.doubleSHA256 t'.sequences ∧
        i.prevOut = i'.prevOut ∧ sc = sc' ∧
      a = a' ∧ Commitment.doubleSHA256 t.outs = Commitment.doubleSHA256 t'.outs ∧
        t.lockTime = t'.lockTime := by
  simp only [preimage, List.append_assoc] at h
  obtain ⟨hversion, h⟩ := putU32_selfDelimiting _ trivial _ trivial _ _ h
  obtain ⟨hprev, h⟩ := hash_selfDelimiting _ trivial _ trivial _ _ h
  obtain ⟨hseq, h⟩ := hash_selfDelimiting _ trivial _ trivial _ _ h
  obtain ⟨hout, h⟩ := putOutPoint_selfDelimiting _ trivial _ trivial _ _ h
  obtain ⟨hscript, h⟩ := putScript_selfDelimiting _ hsc.length_lt _ hsc'.length_lt _ _ h
  obtain ⟨hamount, h⟩ := putU64_selfDelimiting _ trivial _ trivial _ _ h
  obtain ⟨-, h⟩ := putU32_selfDelimiting _ trivial _ trivial _ _ h
  obtain ⟨houts, h⟩ := hash_selfDelimiting _ trivial _ trivial _ _ h
  obtain ⟨hlock, -⟩ := putU32_selfDelimiting _ trivial _ trivial _ _ h
  exact ⟨congrArg Int32.ofUInt32 hversion, hprev, hseq, hout, hscript, hamount, houts, hlock⟩

lemma signedAlike_of_sighash (hout : ∀ o ∈ t.outputs, Sliced o.scriptPubKey)
    (hout' : ∀ o ∈ t'.outputs, Sliced o.scriptPubKey) (hsc : Sliced sc) (hsc' : Sliced sc')
    (hfree : CollisionFree (t.hashed idx sc a ++ t'.hashed idx' sc' a')) {h : Hash}
    (hok : t.sighashForkID idx sc a sighashAllFork = .ok h)
    (hok' : t'.sighashForkID idx' sc' a' sighashAllFork = .ok h) :
    t.SignedAlike t' idx idx' ∧ sc = sc' ∧ a = a' := by
  obtain ⟨i, hi, rfl⟩ := sighashForkID_eq_ok hok
  obtain ⟨i', hi', heq⟩ := sighashForkID_eq_ok hok'
  have hpre := hfree (t.preimage i sc a) (by simp [hashed, hi]) (t'.preimage i' sc' a')
    (by simp [hashed, hi']) heq.symm
  obtain ⟨hversion, hprev, hseq, hop, hscript, hamount, houts, hlock⟩ := preimage_inj hsc hsc' hpre
  refine ⟨⟨hversion, prevOuts_of_prevouts ?_, sequences_of_sequences ?_,
    outputs_of_outs hout hout' ?_, hlock, ?_⟩, hscript, hamount⟩
  · exact hfree _ (by simp [hashed]) _ (by simp [hashed]) hprev
  · exact hfree _ (by simp [hashed]) _ (by simp [hashed]) hseq
  · exact hfree _ (by simp [hashed]) _ (by simp [hashed]) houts
  · simp [hi, hi', hop]

end Tx

lemma pushData_cases (data : Bytes) :
    (∃ n < 0x4c, pushData data = UInt8.ofNat n :: data) ∨ (∃ x, pushData data = 0x4c :: x :: data) ∨
      ∃ x y, pushData data = 0x4d :: x :: y :: data := by
  simp only [pushData]
  split_ifs with h1 h2
  · exact .inl ⟨_, h1, by rw [leBytes_succ]; rfl⟩
  · exact .inr (.inl ⟨_, by rw [leBytes_succ]; rfl⟩)
  · exact .inr (.inr ⟨_, _, by rw [leBytes_succ, leBytes_succ]; rfl⟩)

lemma length_lt_pushData (data : Bytes) : data.length < (pushData data).length := by
  rcases pushData_cases data with ⟨n, -, h⟩ | ⟨x, h⟩ | ⟨x, y, h⟩ <;> rw [h] <;>
    simp only [List.length_cons] <;> omega

lemma pushData_inj {a b : Bytes} (h : pushData a = pushData b) : a = b := by
  have hmark : ∀ {n}, n < 0x4c → UInt8.ofNat n ≠ 0x4c :=
    fun hn => ofNat_ne_mark (m := 0x4c) hn (by omega)
  have hmark' : ∀ {n}, n < 0x4c → UInt8.ofNat n ≠ 0x4d :=
    fun hn => ofNat_ne_mark (m := 0x4d) (by omega) (by omega)
  rcases pushData_cases a with ⟨n, hn, ea⟩ | ⟨x, ea⟩ | ⟨x, y, ea⟩ <;>
    rcases pushData_cases b with ⟨m, hm, eb⟩ | ⟨z, eb⟩ | ⟨z, w, eb⟩ <;>
    rw [ea, eb] at h <;> simp only [List.cons.injEq] at h
  · exact h.2
  · exact absurd h.1 (hmark hn)
  · exact absurd h.1 (hmark' hn)
  · exact absurd h.1.symm (hmark hm)
  · exact h.2.2
  · exact absurd h.1 (by decide)
  · exact absurd h.1.symm (hmark' hm)
  · exact absurd h.1 (by decide)
  · exact h.2.2.2

lemma p2pk_inj {a b : Bytes} (h : p2pk a = p2pk b) : a = b :=
  pushData_inj (List.append_cancel_right h)

namespace ChannelTx

variable {c c' : ChannelTx} {toServer toServer' : UInt64} {lockTime : UInt32} {h : Hash}

def commitmentHashed (c : ChannelTx) (toServer : UInt64) : List Bytes :=
  match c.commitmentTx toServer with
  | .ok tx => tx.hashed 0 c.redeem c.fundingValue
  | .error _ => []

def refundHashed (c : ChannelTx) (lockTime : UInt32) : List Bytes :=
  (c.refundTx lockTime).hashed 0 c.redeem c.fundingValue

lemma length_p2pk_lt_redeem (c : ChannelTx) :
    (p2pk c.clientPub).length < c.redeem.length ∧ (p2pk c.serverPub).length < c.redeem.length := by
  have hclient := length_lt_pushData c.clientPub
  have hserver := length_lt_pushData c.serverPub
  simp only [p2pk, redeem, multisig2of2, List.length_append, List.length_cons, List.length_nil]
  omega

lemma sliced_client (hc : Sliced c.redeem) : Sliced (p2pk c.clientPub) :=
  c.length_p2pk_lt_redeem.1.trans hc
lemma sliced_server (hc : Sliced c.redeem) : Sliced (p2pk c.serverPub) :=
  c.length_p2pk_lt_redeem.2.trans hc

lemma commitmentSighash_eq_ok (hok : c.commitmentSighash toServer = .ok h) :
    ∃ tx, c.commitmentTx toServer = .ok tx ∧ c.commitmentHashed toServer =
      tx.hashed 0 c.redeem c.fundingValue ∧
      tx.inputs = [{ prevOut := c.fundingOut, sequence := finalSequence }] ∧
      tx.outputs =
        [⟨toServer, p2pk c.serverPub⟩, ⟨c.fundingValue - toServer - c.fee, p2pk c.clientPub⟩] ∧
      tx.sighashForkID 0 c.redeem c.fundingValue sighashAllFork = .ok h := by
  by_cases hamt : toServer + c.fee > c.fundingValue
  · simp [commitmentSighash, commitmentTx, hamt, bind, Except.bind] at hok
  · refine ⟨_, if_neg hamt, ?_, rfl, rfl, ?_⟩
    · rw [commitmentHashed, commitmentTx, if_neg hamt]
    · simpa only [commitmentSighash, commitmentTx, if_neg hamt, bind, Except.bind] using hok

lemma commitmentSighash_inj (hc : Sliced c.redeem) (hc' : Sliced c'.redeem)
    (hfree : CollisionFree (c.commitmentHashed toServer ++ c'.commitmentHashed toServer'))
    (hok : c.commitmentSighash toServer = .ok h) (hok' : c'.commitmentSighash toServer' = .ok h) :
    c = c' ∧ toServer = toServer' := by
  obtain ⟨tx, -, hstr, hin, houts, htx⟩ := commitmentSighash_eq_ok hok
  obtain ⟨tx', -, hstr', hin', houts', htx'⟩ := commitmentSighash_eq_ok hok'
  rw [hstr, hstr'] at hfree
  have hsl : ∀ o ∈ tx.outputs, Sliced o.scriptPubKey := by
    simp [houts, sliced_client hc, sliced_server hc]
  have hsl' : ∀ o ∈ tx'.outputs, Sliced o.scriptPubKey := by
    simp [houts', sliced_client hc', sliced_server hc']
  obtain ⟨halike, -, hvalue⟩ := Tx.signedAlike_of_sighash hsl hsl' hc hc' hfree htx htx'
  have hop : c.fundingOut = c'.fundingOut := by simpa [hin, hin'] using halike.outPoint
  have hout := halike.outputs
  simp only [houts, houts', List.cons.injEq, TxOut.mk.injEq, and_true] at hout
  obtain ⟨⟨hamount, hserver⟩, hchange, hclient⟩ := hout
  -- the change is the value less the amount less the fee, in 64 bits, and value and amount agree
  have hfee : c.fee = c'.fee := by
    rw [hvalue, hamount] at hchange
    grind
  cases c
  cases c'
  simp only at hop hvalue hfee hserver hclient
  simp only [hop, hvalue, hfee, p2pk_inj hserver, p2pk_inj hclient, hamount, and_self]

/-- A commitment is final and a refund is not, so their hashes differ. -/
lemma commitmentSighash_ne_refundSighash (hc : Sliced c.redeem) (hc' : Sliced c'.redeem)
    (hfree : CollisionFree (c.commitmentHashed toServer ++ c'.refundHashed lockTime))
    (hok : c.commitmentSighash toServer = .ok h) : c'.refundSighash lockTime ≠ .ok h := by
  intro hok'
  obtain ⟨tx, -, hstr, hin, houts, htx⟩ := commitmentSighash_eq_ok hok
  rw [hstr] at hfree
  have hsl : ∀ o ∈ tx.outputs, Sliced o.scriptPubKey := by
    simp [houts, sliced_client hc, sliced_server hc]
  have hsl' : ∀ o ∈ (c'.refundTx lockTime).outputs, Sliced o.scriptPubKey := by
    simp [refundTx, sliced_client hc']
  obtain ⟨halike, -⟩ := Tx.signedAlike_of_sighash hsl hsl' hc hc' hfree htx hok'
  have hseq := halike.sequences
  simp only [hin, refundTx, List.map_cons, List.map_nil, List.cons.injEq, and_true] at hseq
  exact absurd hseq (by decide)

end ChannelTx

end MemServe.Bsvtx

namespace MemServe.Payment

open Bsvtx

/-- **A signed hash is bound** to the channel and the cumulative amount of the commitment, a
commitment is never signed by signing a refund, and a hash under ALL|FORKID determines all of the
transaction but its unlocking scripts, the script and the value it is computed for. -/
theorem sighash_bound :
    (∀ (p₁ p₂ : Params) (c₁ c₂ : UInt64) (h : Hash), Sliced p₁.channelTx.redeem →
      Sliced p₂.channelTx.redeem →
      CollisionFree (p₁.channelTx.commitmentHashed c₁ ++ p₂.channelTx.commitmentHashed c₂) →
      p₁.channelTx.commitmentSighash c₁ = .ok h → p₂.channelTx.commitmentSighash c₂ = .ok h →
      p₁.fundingTxID = p₂.fundingTxID ∧ p₁.fundingVout = p₂.fundingVout ∧
        p₁.fundingValue = p₂.fundingValue ∧
        p₁.clientPub = p₂.clientPub ∧ p₁.serverPub = p₂.serverPub ∧ p₁.fee = p₂.fee ∧ c₁ = c₂) ∧
    (∀ (p : Params) (c : UInt64) (tx : ChannelTx) (lockTime : UInt32) (h : Hash),
      Sliced p.channelTx.redeem →
      Sliced tx.redeem →
        CollisionFree (p.channelTx.commitmentHashed c ++ tx.refundHashed lockTime) →
      p.channelTx.commitmentSighash c = .ok h → tx.refundSighash lockTime ≠ .ok h) ∧
    (∀ (t t' : Tx) (idx idx' : ℕ) (sc sc' : Bytes) (a a' : UInt64) (h : Hash),
      (∀ o ∈ t.outputs, Sliced o.scriptPubKey) → (∀ o ∈ t'.outputs, Sliced o.scriptPubKey) →
        Sliced sc → Sliced sc' →
      CollisionFree (t.hashed idx sc a ++ t'.hashed idx' sc' a') →
      t.sighashForkID idx sc a sighashAllFork = .ok h →
        t'.sighashForkID idx' sc' a' sighashAllFork = .ok h →
      t.SignedAlike t' idx idx' ∧ sc = sc' ∧ a = a') := by
  refine ⟨?_, ?_, ?_⟩
  · intro p₁ p₂ c₁ c₂ h hs₁ hs₂ hfree hok₁ hok₂
    obtain ⟨hc, hamount⟩ := ChannelTx.commitmentSighash_inj hs₁ hs₂ hfree hok₁ hok₂
    simp only [Params.channelTx, ChannelTx.mk.injEq, OutPoint.mk.injEq] at hc
    obtain ⟨⟨htxid, hvout⟩, hvalue, hclient, hserver, hfee⟩ := hc
    exact ⟨htxid, hvout, hvalue, hclient, hserver, hfee, hamount⟩
  · intro p c tx lockTime h hs hs' hfree hok
    exact ChannelTx.commitmentSighash_ne_refundSighash hs hs' hfree hok
  · intro t t' idx idx' sc sc' a a' h hout hout' hsc hsc' hfree hok hok'
    exact Tx.signedAlike_of_sighash hout hout' hsc hsc' hfree hok hok'

lemma sample_collisionFree :
    CollisionFree
      (sampleParams.channelTx.commitmentHashed 1000 ++
        sampleParams.channelTx.refundHashed 500) := by
  refine collisionFree_of_nodup ?_
  unfold ChannelTx.commitmentHashed ChannelTx.refundHashed Tx.hashed Tx.preimage
    Commitment.doubleSHA256
  rw [Sha256.Eval.sum256_eq]
  decide +kernel

lemma sample_sighash : ∃ h, sampleParams.channelTx.commitmentSighash 1000 = .ok h := ⟨_, rfl⟩

/-- The same parameters under another channel id, which the hash does not cover. -/
def renamedParams : Params := { sampleParams with channelID := default }

/-- The commitment of 1000 is bound to the funding output of the sample channel, and signing it is
not signing the refund. -/
theorem sighash_bound_sample :
    (∃ h, sampleParams.channelTx.commitmentSighash 1000 = .ok h ∧
      renamedParams.channelTx.commitmentSighash 1000 = .ok h ∧
        sampleParams.fundingTxID = renamedParams.fundingTxID ∧
          sampleParams.channelTx.refundSighash 500 ≠ .ok h) ∧
      (sampleParams.channelTx.refundTx 500).SignedAlike
        (sampleParams.channelTx.refundTx 500) 0 0 := by
  have hsame : renamedParams.channelTx = sampleParams.channelTx := by
    simp only [Params.channelTx, renamedParams]
  have hs : Sliced sampleParams.channelTx.redeem := (by decide : _ < _)
  have hcom := sample_collisionFree.mono
    (List.append_subset.mpr ⟨List.subset_append_left _ _, List.subset_append_left _ _⟩)
  have hrefund := sample_collisionFree.mono
    (List.append_subset.mpr ⟨List.subset_append_right _ _, List.subset_append_right _ _⟩)
  have hout : ∀ o ∈ (sampleParams.channelTx.refundTx 500).outputs, Sliced o.scriptPubKey := by
    simp only [ChannelTx.refundTx, List.mem_singleton, forall_eq]
    exact ChannelTx.sliced_client hs
  obtain ⟨h, hok⟩ := sample_sighash
  refine ⟨⟨h, hok, by rwa [hsame], ?_, ?_⟩, ?_⟩
  · exact (sighash_bound.1 sampleParams renamedParams 1000 1000 h hs (by rwa [hsame])
      (by rwa [hsame]) hok
      (by rwa [hsame])).1
  · exact sighash_bound.2.1 sampleParams 1000 sampleParams.channelTx 500 h hs hs
      sample_collisionFree hok
  · exact (sighash_bound.2.2 _ _ 0 0 _ _ _ _ _ hout hout hs hs hrefund rfl rfl).1

end MemServe.Payment
