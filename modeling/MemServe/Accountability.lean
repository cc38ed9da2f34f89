import MemServe.IndexWindow
import MemServe.Server
import MemServe.SignVerify

/-!
Operators held to their signed answers.

An operator signs what it answers, and a miner signs the operator's key. The client that asks
several operators sets a proof from one of them against the denials of the others.
-/

namespace MemServe

namespace Crypto

/-- The scalar of a seed, in range for every seed. -/
def newPrivateKey (seed : Bytes) : PrivateKey := ⟨(ofBytesBE seed % (curveN - 1) + 1).toNat⟩

lemma PrivateKey.sign_accepted {k : PrivateKey} {rounds : ℕ} {hash : Bytes} {sig : Signature}
    (h : k.sign rounds hash = some (.ok sig)) :
    ∃ pub, k.public = some pub ∧ (sig.isLowS && verify pub hash sig) = true := by
  obtain ⟨pub, hpub, hrep, hsigned⟩ := PrivateKey.sign_signed h
  have hverify : verify pub hash sig = true :=
    (verify_iff hrep hash sig).mpr ⟨hsigned.inRange, hsigned.point⟩
  have hlow : sig.isLowS = true := decide_eq_true hsigned.low
  exact ⟨pub, hpub, by rw [hlow, hverify, Bool.and_self]⟩

end Crypto

open Crypto

namespace Attest

structure Identity where
  priv : PrivateKey
  deriving DecidableEq

def newIdentity (seed : Bytes) : Identity := ⟨newPrivateKey seed⟩

def Identity.public (id : Identity) : Option PublicKey := id.priv.public

def Identity.attest (id : Identity) (rounds : ℕ) (s : Statement) :
    Option (Except SignError Attestation) :=
  (id.priv.sign rounds s.sighash.1).map fun sig => sig.map fun sig => ⟨s, id.public, some sig⟩

def endorse (rounds : ℕ) (minerPriv : PrivateKey) (operator : PublicKey) :
    Option (Except SignError Endorsement) :=
  (minerPriv.sign rounds (endorseHash operator).1).map fun sig =>
    sig.map fun sig => ⟨some operator, minerPriv.public, some sig⟩

lemma Identity.attest_ok {id : Identity} {rounds : ℕ} {s : Statement} {att : Attestation}
    (h : id.attest rounds s = some (.ok att)) :
    att.verify = true ∧ att.statement = s ∧ att.operator = id.public ∧
      ∃ pub, id.public = some pub := by
  obtain ⟨r, hr, hatt⟩ := Option.map_eq_some_iff.mp h
  cases r with
  | error e => cases hatt
  | ok sig =>
    cases hatt
    obtain ⟨pub, hpub, hok⟩ := PrivateKey.sign_accepted hr
    refine ⟨?_, rfl, rfl, pub, hpub⟩
    rw [Attestation.verify, Identity.public, hpub]
    exact hok

lemma endorse_ok {rounds : ℕ} {minerPriv : PrivateKey} {operator : PublicKey} {e : Endorsement}
    (h : endorse rounds minerPriv operator = some (.ok e)) :
    e.verify = true ∧ e.operator = some operator ∧ e.miner = minerPriv.public := by
  obtain ⟨r, hr, he⟩ := Option.map_eq_some_iff.mp h
  cases r with
  | error e => cases he
  | ok sig =>
    cases he
    obtain ⟨pub, hpub, hok⟩ := PrivateKey.sign_accepted hr
    refine ⟨?_, rfl, rfl⟩
    rw [Endorsement.verify, hpub]
    exact hok

lemma FraudProof.verify_of_denies {att : Attestation} {p : Proof} (hd : att.Denies)
    (hleaf : p.leaf = att.statement.txID) (hv : p.verify = true) :
    (FraudProof.mk .falseNegative att none (some p) none).verify = (att.operator, none, true) := by
  simp only [verify, accused, proveFalseNegative_of_denies hd hleaf hv]

lemma FraudProof.verify_endorsed {att : Attestation} {p : Proof} (hd : att.Denies)
    (hleaf : p.leaf = att.statement.txID) (hv : p.verify = true) {operator : PublicKey}
    (ho : att.operator = some operator) {e : Endorsement} (he : e.verify = true)
    (heo : e.operator = some operator) :
    ((FraudProof.mk .falseNegative att none (some p) none).withEndorsement e).verify =
      (some operator, e.miner, true) := by
  have hequal : operator.equal operator = true := beq_self_eq_true _
  simp only [verify, withEndorsement, accused, proveFalseNegative_of_denies hd hleaf hv, he, heo,
    ho, Option.any_some, hequal, Bool.and_self, if_true]

end Attest

namespace Client

open Attest

/-- An operator, and its signed answers where it gives any. -/
structure AttestingOperator extends Operator where
  minedAttested : Option (Hash → Option (Api.MinedResult × Attestation)) := none

/-- The first attestation that the proof refutes. -/
def refuted (p : Proof) (txid : Hash) (ops : List AttestingOperator) : Option FraudProof :=
  match ops with
  | [] => none
  | op :: ops =>
    match op.minedAttested with
    | none => refuted p txid ops
    | some minedAttested =>
      match minedAttested txid with
      | none => refuted p txid ops
      | some (_, att) =>
        match proveFalseNegative att p with
        | .ok fp => some fp
        | .error _ => refuted p txid ops

def detectFraud (ops : List AttestingOperator) (txid : Hash) : Option FraudProof :=
  match merklePath (ops.map (·.toOperator)) txid with
  | .error _ => none
  | .ok p => refuted p txid ops

/-- The signed answer of an operator, if there is one. -/
def AttestingOperator.signed (op : AttestingOperator) (txid : Hash) : Option Attestation :=
  (op.minedAttested.bind fun f => f txid).map Prod.snd

/-- A denial of the txid with a valid signature. -/
def denial (txid : Hash) (att : Attestation) : Bool :=
  att.verify && att.statement.negative && att.statement.txID == txid

def firstDenial (ops : List AttestingOperator) (txid : Hash) : Option Attestation :=
  (ops.filterMap fun op => op.signed txid).find? (denial txid)

lemma denial_iff {txid : Hash} {att : Attestation} :
    denial txid att = true ↔ att.Denies ∧ att.statement.txID = txid := by
  simp [denial, Attestation.Denies]

lemma refuted_eq {p : Proof} {txid : Hash} (hleaf : p.leaf = txid) (hv : p.verify = true)
    (ops : List AttestingOperator) :
    refuted p txid ops = (firstDenial ops txid).map fun att =>
      ⟨.falseNegative, att, none, some p, none⟩ := by
  induction ops with
  | nil => rfl
  | cons op ops ih =>
    unfold refuted firstDenial AttestingOperator.signed
    rw [List.filterMap_cons]
    cases op.minedAttested with
    | none => exact ih
    | some f =>
      dsimp only [Option.bind_some]
      cases f txid with
      | none => exact ih
      | some r =>
        obtain ⟨res, att⟩ := r
        dsimp only [Option.map_some]
        rw [List.find?_cons]
        cases hd : denial txid att with
        | true =>
          obtain ⟨hdenies, hid⟩ := denial_iff.mp hd
          rw [proveFalseNegative_of_denies hdenies (hleaf.trans hid.symm) hv]
          rfl
        | false =>
          cases hprove : proveFalseNegative att p with
          | error e => exact ih
          | ok fp =>
            obtain ⟨hdenies, hid, -⟩ := proveFalseNegative_ok_iff.mp ⟨fp, hprove⟩
            rw [denial_iff.mpr ⟨hdenies, hid.symm.trans hleaf⟩] at hd
            cases hd

/-- **What the client accuses of**: the first proof of the txid against the first denial of it. -/
lemma detectFraud_eq_some {ops : List AttestingOperator} {txid : Hash} {fp : FraudProof} :
    detectFraud ops txid = some fp ↔ ∃ p att, firstPassing (ops.map (·.toOperator)) txid = some p ∧
      firstDenial ops txid = some att ∧ fp = ⟨.falseNegative, att, none, some p, none⟩ := by
  rw [detectFraud, merklePath_eq]
  cases hp : firstPassing (ops.map (·.toOperator)) txid with
  | none => simp
  | some p =>
    obtain ⟨hleaf, hv⟩ := firstPassing_some hp
    simp only [Option.elim_some, refuted_eq hleaf hv, Option.map_eq_some_iff, Option.some.injEq]
    constructor
    · rintro ⟨att, hatt, rfl⟩
      exact ⟨p, att, rfl, hatt, rfl⟩
    · rintro ⟨p', att, rfl, hatt, rfl⟩
      exact ⟨att, hatt, rfl⟩

lemma detectFraud_sound {ops : List AttestingOperator} {txid : Hash} {fp : FraudProof}
    (h : detectFraud ops txid = some fp) :
    ∃ op ∈ ops, op.signed txid = some fp.att ∧ fp.att.Denies ∧ fp.att.statement.txID = txid ∧
      fp.verify = (fp.att.operator, none, true) ∧
      ∀ operator e, fp.att.operator = some operator → e.verify = true → e.operator = some operator →
        (fp.withEndorsement e).verify = (some operator, e.miner, true) := by
  obtain ⟨p, att, hp, hatt, rfl⟩ := detectFraud_eq_some.mp h
  obtain ⟨hleaf, hv⟩ := firstPassing_some hp
  obtain ⟨hd, hid⟩ := denial_iff.mp (List.find?_some hatt)
  obtain ⟨op, hop, hsigned⟩ := List.mem_filterMap.mp (List.mem_of_find?_eq_some hatt)
  have hleaf' := hleaf.trans hid.symm
  exact ⟨op, hop, hsigned, hd, hid, FraudProof.verify_of_denies hd hleaf' hv,
    fun operator e ho he heo => FraudProof.verify_endorsed hd hleaf' hv ho he heo⟩

lemma firstPassing_isSome {ops : List Operator} {txid : Hash} :
    (firstPassing ops txid).isSome ↔ ∃ op ∈ ops,
      ∃ p, op.merklePath txid = some p ∧ p.leaf = txid ∧ p.verify = true := by
  simp only [firstPassing, List.find?_isSome, List.mem_filterMap, Bool.and_eq_true,
    decide_eq_true_eq]
  constructor
  · rintro ⟨p, ⟨op, hop, hp⟩, hleaf, hv⟩
    exact ⟨op, hop, p, hp, hleaf, hv⟩
  · rintro ⟨op, hop, p, hp, hleaf, hv⟩
    exact ⟨p, ⟨op, hop, hp⟩, hleaf, hv⟩

lemma firstDenial_isSome {ops : List AttestingOperator} {txid : Hash} :
    (firstDenial ops txid).isSome ↔ ∃ op ∈ ops,
      ∃ att, op.signed txid = some att ∧ denial txid att = true := by
  simp only [firstDenial, List.find?_isSome, List.mem_filterMap]
  constructor
  · rintro ⟨att, ⟨op, hop, hatt⟩, hd⟩
    exact ⟨op, hop, att, hatt, hd⟩
  · rintro ⟨op, hop, att, hatt, hd⟩
    exact ⟨att, ⟨op, hop, hatt⟩, hd⟩

lemma detectFraud_isSome {ops : List AttestingOperator} {txid : Hash} :
    (detectFraud ops txid).isSome ↔
      (∃ op ∈ ops, ∃ p, op.merklePath txid = some p ∧ p.leaf = txid ∧ p.verify = true) ∧
      ∃ op ∈ ops, ∃ att, op.signed txid = some att ∧ denial txid att = true := by
  have hops : (∃ op ∈ ops, ∃ p, op.merklePath txid = some p ∧ p.leaf = txid ∧ p.verify = true) ↔
      ∃ op ∈ ops.map (·.toOperator), ∃ p, op.merklePath txid = some p ∧ p.leaf = txid ∧
          p.verify = true := by
    simp only [List.mem_map, exists_exists_and_eq_and]
  rw [hops, ← firstPassing_isSome, ← firstDenial_isSome]
  simp only [Option.isSome_iff_exists, detectFraud_eq_some]
  constructor
  · rintro ⟨fp, p, att, hp, hatt, -⟩
    exact ⟨⟨p, hp⟩, att, hatt⟩
  · rintro ⟨⟨p, hp⟩, att, hatt⟩
    exact ⟨_, p, att, hp, hatt, rfl⟩

end Client

/-! ### Nodes of one chain -/

open Attest Client Ingest Teranode

/-- Blocks of which every transaction has a proof once it is indexed. -/
structure Provable (bs : List Block) : Prop where
  separate : Separate bs
  parallel : ∀ c ∈ bs, c.Parallel
  leaves : ∀ c ∈ bs, ∀ s ∈ c.subtrees, s.txIDs.length ≤ 2 ^ 20
  count : ∀ c ∈ bs, c.subtrees.length ≤ 2 ^ 32

lemma Separate.take {bs : List Block} (h : Separate bs) (n : ℕ) : Separate (bs.take n) := by
  rw [← List.take_append_drop n bs] at h
  exact h.left

/-- A node that answers from the first blocks of the chain. -/
structure Peer where
  cfg : Config := {}
  policy : Prune.Policy := {}
  ingested : ℕ
  identity : Option Identity := none

namespace Peer

variable (chain : List Block) (p : Peer)

def store : Mem.Store := (feed (fresh p.cfg p.policy) (chain.take p.ingested)).2

def tip : UInt32 := ((chain.take p.ingested).getLast?.map Block.height).getD 0

/-- `handleMined`, signed: the errors of the store and of the signer are passed over. -/
def minedResp (rounds : ℕ) (id : Identity) (txid : Hash) : Api.MinedResult × Attestation :=
  let res := ((Api.mined txid).run.run (p.store chain)).1.toOption.getD {}
  let att :=
    id.attest rounds ((Server.Query.mined txid).statement (Server.ofMined res) (p.tip chain))
  (res,
    (att.bind Except.toOption).getD ⟨{ kind := .seen, txID := default, flag := false, tip := 0 },
      none, none⟩)

def operator (rounds : ℕ) : AttestingOperator where
  seen txid := ((Api.seen txid).run.run (p.store chain)).1.toOption
  mined txid := ((Api.mined txid).run.run (p.store chain)).1.toOption
  merklePath txid := ((Api.merklePath txid).run.run (p.store chain)).1.toOption
  utxo op := ((Api.utxo op).run.run (p.store chain)).1.toOption
  minedAttested := p.identity.map fun id txid => some (p.minedResp chain rounds id txid)

/-- The node owns the transaction, and has its block in the window. -/
def Holds (c : Block) (tx : Tx) : Prop :=
  (Ingest.new none p.cfg).owns tx.txID = true ∧
    c ∈ retained p.policy.indexRetention (chain.take p.ingested)

variable {chain} {p} {c : Block} {tx : Tx}

lemma txindex_of_not_holds (h : Provable chain) (hc : c ∈ chain) (htx : tx ∈ c.txs)
    (hno : ¬p.Holds chain c tx) :
    (p.store chain).flatten.txindex tx.txID = none := by
  have hs := h.separate.take p.ingested
  have hidx := fresh_indexes p.cfg p.policy hs
  have hsub : (retained p.policy.indexRetention (chain.take p.ingested)).Sublist chain :=
    List.filter_sublist.trans (List.take_sublist _ _)
  rw [store, hidx.txindex, List.findSome?_eq_none_iff]
  intro b hb
  rw [List.mem_reverse] at hb
  by_contra hne
  obtain ⟨ix, hix⟩ := Option.ne_none_iff_exists'.mp hne
  obtain ⟨-, -, -, -, -, -, -, howns, -⟩ := blockEntry_eq_some hix
  obtain rfl : b = c := by
    by_contra hbc
    exact (h.separate.apart.forall (hsub.subset hb) hc hbc).txids
      (mem_txs_of_blockEntry (Option.isSome_iff_exists.mpr ⟨ix, hix⟩)) (List.mem_map_of_mem htx)
  exact hno ⟨howns, hb⟩

lemma answers_of_holds (h : Provable chain) (htx : tx ∈ c.txs) (hholds : p.Holds chain c tx) :
    (p.store chain).flatten.mined tx.txID =
      { mined := true, blockHash := c.hash, height := c.height, blockTime := c.time } ∧
      ∃ q, (p.store chain).flatten.merklePath tx.txID = .ok q ∧ q.leaf = tx.txID ∧
        q.verify = true := by
  obtain ⟨howns, hin⟩ := hholds
  have hs := h.separate.take p.ingested
  have hidx := fresh_indexes p.cfg p.policy hs
  have hsub : (retained p.policy.indexRetention (chain.take p.ingested)).Sublist
    (chain.take p.ingested) := List.filter_sublist
  have hc : c ∈ chain := (List.take_sublist _ _).subset (hsub.subset hin)
  have hroots : ∀ d ∈ chain.take p.ingested, d.subtrees.map Subtree.root = d.subtreeRoots :=
    fun d hd => (validateBlock_roots (hs.valid d hd)).1
  obtain ⟨⟨ix, hix, htxi⟩, hblk, hst⟩ :=
    hidx.of_mem (List.pairwise_reverse.mpr ((hs.apart.sublist hsub).imp symm))
    (fun d hd => hroots d (hsub.subset (List.mem_reverse.mp hd))) (List.mem_reverse.mpr hin)
    (List.mem_map_of_mem (List.mem_filter.mpr ⟨htx, howns⟩))
  obtain ⟨q, hq, hleaf, hv, -⟩ :=
    merklePath_of_entry (h.separate.valid c hc) (h.parallel c hc) (h.leaves c hc) (h.count c hc)
    ((List.nodup_flatMap.mp h.separate.roots).1 c hc) hix htxi hblk hst
  refine ⟨?_, q, hq, hleaf, hv⟩
  obtain ⟨si, li, -, -, -, -, -, -, rfl⟩ := blockEntry_eq_some hix
  simp only [Flat.mined, store, htxi]
  rfl

variable {rounds : ℕ}

lemma proves_iff_holds (h : Provable chain) (hc : c ∈ chain) (htx : tx ∈ c.txs) :
    (∃ q, (p.operator chain rounds).merklePath tx.txID = some q ∧ q.leaf = tx.txID ∧
      q.verify = true) ↔ p.Holds chain c tx := by
  have hpath : (p.operator chain rounds).merklePath tx.txID =
    ((p.store chain).flatten.merklePath tx.txID).toOption :=
    congrArg Except.toOption (congrArg Prod.fst (merklePath_mem (p.store chain) tx.txID))
  constructor
  · rintro ⟨q, hq, -⟩
    by_contra hno
    rw [hpath, Flat.merklePath, txindex_of_not_holds h hc htx hno] at hq
    cases hq
  · intro hholds
    obtain ⟨-, q, hq, hleaf, hv⟩ := answers_of_holds h htx hholds
    exact ⟨q, by rw [hpath, hq]; rfl, hleaf, hv⟩

/-- The statement of a node that does not know the transaction. -/
def denies (chain : List Block) (p : Peer) (txid : Hash) : Statement :=
  (Server.Query.mined txid).statement (Server.ofMined {}) (p.tip chain)

lemma signed_denial (h : Provable chain) (hc : c ∈ chain) (htx : tx ∈ c.txs) {att : Attestation}
    (hsigned : (p.operator chain rounds).signed tx.txID = some att)
    (hd : denial tx.txID att = true) :
    ∃ id, p.identity = some id ∧ ¬p.Holds chain c tx ∧
      id.attest rounds (p.denies chain tx.txID) = some (.ok att) := by
  cases hid : p.identity with
  | none => simp [AttestingOperator.signed, operator, hid] at hsigned
  | some id =>
    have hatt : (p.minedResp chain rounds id tx.txID).2 = att := by
      simpa [AttestingOperator.signed, operator, hid] using hsigned
    obtain ⟨⟨hverify, hneg⟩, -⟩ := denial_iff.mp hd
    unfold minedResp at hatt
    rw [mined_mem] at hatt
    dsimp only [Except.toOption, Option.getD_some] at hatt
    cases hres : id.attest rounds ((Server.Query.mined tx.txID).statement
      (Server.ofMined ((p.store chain).flatten.mined tx.txID)) (p.tip chain)) with
    | none =>
      rw [hres] at hatt
      subst hatt
      cases hverify
    | some r =>
      cases r with
      | error e =>
        rw [hres] at hatt
        subst hatt
        cases hverify
      | ok att' =>
        obtain rfl : att' = att := by
          rw [hres] at hatt
          exact hatt
        obtain ⟨-, hst, -⟩ := Identity.attest_ok hres
        have hno : ¬p.Holds chain c tx := by
          intro hholds
          rw [hst, (answers_of_holds h htx hholds).1] at hneg
          cases hneg
        refine ⟨id, rfl, hno, ?_⟩
        have hunknown : (p.store chain).flatten.mined tx.txID = {} := by
          rw [Flat.mined, txindex_of_not_holds h hc htx hno]
        rw [hunknown] at hres
        exact hres

lemma signed_of_not_holds (h : Provable chain) (hc : c ∈ chain) (htx : tx ∈ c.txs)
    (hno : ¬p.Holds chain c tx) {id : Identity} (hid : p.identity = some id) {att : Attestation}
    (hatt : id.attest rounds (p.denies chain tx.txID) = some (.ok att)) :
    (p.operator chain rounds).signed tx.txID = some att ∧ denial tx.txID att = true := by
  have hunknown : (p.store chain).flatten.mined tx.txID = {} := by
    rw [Flat.mined, txindex_of_not_holds h hc htx hno]
  have hresp : (p.minedResp chain rounds id tx.txID).2 = att := by
    unfold minedResp
    rw [mined_mem, hunknown]
    change ((id.attest rounds (p.denies chain tx.txID)).bind Except.toOption).getD _ = att
    rw [hatt]
    rfl
  obtain ⟨hverify, hst, -⟩ := Identity.attest_ok hatt
  refine ⟨by simp [AttestingOperator.signed, operator, hid, hresp],
    denial_iff.mpr ⟨⟨hverify, ?_⟩, ?_⟩⟩
  · rw [hst]
    rfl
  · rw [hst]
    rfl

end Peer

section

variable {chain : List Block} {c : Block} {tx : Tx}

/-- **Whom fraud detection accuses among honest nodes.** Of nodes that ingested parts of one chain,
and sign what they find, one is accused exactly when some node has the transaction and another, that
signs, has not: it is behind, has pruned the block, or serves another shard. The accused is always
such a node. -/
theorem honest_accused_iff (rounds : ℕ) (h : Provable chain) (hc : c ∈ chain) (htx : tx ∈ c.txs)
    (peers : List Peer)
    (hsign : ∀ p ∈ peers, ∀ id, p.identity = some id → ∃ att,
      id.attest rounds (p.denies chain tx.txID) = some (.ok att)) :
    let accused := detectFraud (peers.map (·.operator chain rounds)) tx.txID
    (accused.isSome ↔ (∃ p ∈ peers, p.Holds chain c tx) ∧ ∃ p ∈ peers,
      p.identity.isSome ∧ ¬p.Holds chain c tx) ∧
    ∀ fp, accused = some fp → ∃ p ∈ peers, ∃ id, p.identity = some id ∧ ¬p.Holds chain c tx ∧
      fp.att.statement = p.denies chain tx.txID ∧ fp.verify = (id.public, none, true) := by
  intro accused
  constructor
  · rw [detectFraud_isSome]
    simp only [List.mem_map, exists_exists_and_eq_and, Peer.proves_iff_holds h hc htx,
      Option.isSome_iff_exists]
    refine and_congr_right fun _ => ⟨?_, ?_⟩
    · rintro ⟨p, hp, att, hsigned, hd⟩
      obtain ⟨id, hid, hno, -⟩ := Peer.signed_denial h hc htx hsigned hd
      exact ⟨p, hp, ⟨id, hid⟩, hno⟩
    · rintro ⟨p, hp, ⟨id, hid⟩, hno⟩
      obtain ⟨att, hatt⟩ := hsign p hp id hid
      exact ⟨p, hp, att, Peer.signed_of_not_holds h hc htx hno hid hatt⟩
  · intro fp hfp
    obtain ⟨op, hop, hsigned, hd, hid, hverify, -⟩ := detectFraud_sound hfp
    obtain ⟨p, hp, rfl⟩ := List.mem_map.mp hop
    obtain ⟨id, hpid, hno, hatt⟩ := Peer.signed_denial h hc htx hsigned (denial_iff.mpr ⟨hd, hid⟩)
    obtain ⟨-, hst, hoper, -⟩ := Identity.attest_ok hatt
    exact ⟨p, hp, id, hpid, hno, hst, by rw [hverify, hoper]⟩

end

def lateTx : Tx := ⟨.fill 32 7, [], []⟩

def lateChain : List Block := [sealBlock 1 [[lateTx]]]

lemma lateChain_provable : Provable lateChain where
  separate := by
    refine ⟨?_, ?_, ?_, ?_, ?_⟩
    · simp [lateChain, validateBlock_sealBlock]
    · simp [lateChain]
    · simp [lateChain]
    · rw [lateChain, sealBlock_singleton]
      exact List.nodup_singleton _
    · exact List.nodup_singleton _
  parallel := by simp [lateChain, sealBlock_parallel]
  leaves := by simp [lateChain, sealBlock]
  count := by simp [lateChain, sealBlock]

/-- A node with the whole chain, and one before its first block. -/
def wholePeer : Peer := { ingested := 1 }

def latePeer : Peer := { ingested := 0, identity := some (newIdentity []) }

lemma wholePeer_holds : wholePeer.Holds lateChain (sealBlock 1 [[lateTx]]) lateTx := by
  refine ⟨rfl, ?_⟩
  rw [wholePeer, retained_zero]
  exact List.mem_singleton_self _

def lateSig : Signature :=
  ⟨0xbdea94d68209635cb59c99ccbaf2626ec637378022ac024c25e4372a3a502c9c,
    0x0514d8dbb2d42c20066930426db3097e00ec11f06cfd539840c94af231da04a6⟩

def lateDenial : Attestation :=
  ⟨latePeer.denies lateChain lateTx.txID, some ⟨curveGx, curveGy⟩, some lateSig⟩

lemma attest_late :
    (newIdentity []).attest 1 (latePeer.denies lateChain lateTx.txID) = some (.ok lateDenial) := by
  have hhash : (latePeer.denies lateChain lateTx.txID).sighash =
      ⟨beBytes 32 0x0792866e0de767d738f55a3573d4928af3136ad58de2474308547a4dc85f2312,
          length_beBytes _ _⟩ := by
    unfold Statement.sighash Commitment.doubleSHA256
    rw [Sha256.Eval.sum256_eq]
    exact ByteArr.ext (by decide +kernel)
  have hnonce : rfc6979Nonce 1 1
      (beBytes 32 0x0792866e0de767d738f55a3573d4928af3136ad58de2474308547a4dc85f2312) =
      some 0xb147c1314ba0e5f44fdd042a84428f44389b4848c314bae95e2b5e492a107e42 := by
    unfold rfc6979Nonce nonceLoop hmacSHA
    rw [Sha256.Eval.sum256_eq]
    decide +kernel
  have hkey : (newIdentity []).priv = ⟨1⟩ := by decide
  have hpublic : (newIdentity []).public = some ⟨curveGx, curveGy⟩ := by decide
  have hsign : PrivateKey.sign ⟨1⟩ 1 _ = some (.ok lateSig) :=
    sign_of_nonce (x := lateSig.r) (by decide) hnonce (by decide)
    ⟨by decide, by decide⟩ (by decide +kernel) (by decide)
  rw [Identity.attest, hhash, hkey, hsign, hpublic]
  rfl

/-- The node that is behind is accused by the other one. -/
theorem honest_accused_late :
    ∃ fp, detectFraud ([wholePeer, latePeer].map (·.operator lateChain 1)) lateTx.txID = some fp ∧
      fp.verify = (some ⟨curveGx, curveGy⟩, none, true) := by
  have hbehind : ¬latePeer.Holds lateChain (sealBlock 1 [[lateTx]]) lateTx :=
    fun h => List.not_mem_nil h.2
  obtain ⟨hiff, haccused⟩ :=
    honest_accused_iff 1 lateChain_provable (List.mem_singleton_self (sealBlock 1 [[lateTx]]))
    (List.mem_singleton_self lateTx) [wholePeer, latePeer] (by
      intro p hp id hid
      rw [List.mem_cons, List.mem_singleton] at hp
      obtain rfl | rfl := hp
      · cases hid
      · cases hid
        exact ⟨_, attest_late⟩)
  obtain ⟨fp, hfp⟩ := Option.isSome_iff_exists.mp (hiff.mpr
    ⟨⟨wholePeer, by simp, wholePeer_holds⟩, latePeer, by simp, rfl, hbehind⟩)
  obtain ⟨p, hp, id, hid, hno, -, hverify⟩ := haccused fp hfp
  refine ⟨fp, hfp, ?_⟩
  rw [List.mem_cons, List.mem_singleton] at hp
  obtain rfl | rfl := hp
  · exact absurd wholePeer_holds hno
  · cases hid
    rw [hverify]
    decide

section

variable {chain : List Block} {c : Block} {tx : Tx} {rounds : ℕ}

/-- **A liar is accused.** Among any operators one of which holds the transaction, an identity that
signs a denial of it leads to a proof of fraud. The proof stands, it names an operator that signed a
denial (the liar, where no other did), and with the endorsement of a miner the miner too. -/
theorem liar_accused (h : Provable chain) (htx : tx ∈ c.txs) {p : Peer}
    (hholds : p.Holds chain c tx) (ops : List AttestingOperator)
    (hp : (p.operator chain rounds).toOperator ∈ ops.map (·.toOperator)) {liar : AttestingOperator}
    (hliar : liar ∈ ops) {seed : Bytes} {s : Statement} (hneg : s.negative = true)
    (hid : s.txID = tx.txID) {att : Attestation}
    (hatt : (newIdentity seed).attest rounds s = some (.ok att))
    (hanswer : liar.signed tx.txID = some att) :
    ∃ fp accused, detectFraud ops tx.txID = some fp ∧ fp.verify = (some accused, none, true) ∧
      (∃ op ∈ ops, op.signed tx.txID = some fp.att ∧ fp.att.operator = some accused ∧
        fp.att.Denies) ∧
      ((∀ op ∈ ops, ∀ a, op.signed tx.txID = some a → denial tx.txID a = true → a = att) →
        (newIdentity seed).public = some accused) ∧
      ∀ minerRounds minerPriv e, endorse minerRounds minerPriv accused = some (.ok e) →
        (fp.withEndorsement e).verify = (some accused, minerPriv.public, true) := by
  have hc : c ∈ chain := (List.take_sublist _ _).subset (List.filter_sublist.subset hholds.2)
  obtain ⟨hverify, hst, hoper, -⟩ := Identity.attest_ok hatt
  subst hst
  obtain ⟨honest, hhonest, heq⟩ := List.mem_map.mp hp
  obtain ⟨q, hq⟩ := (Peer.proves_iff_holds h hc htx).mpr hholds
  rw [← heq] at hq
  obtain ⟨fp, hfp⟩ := Option.isSome_iff_exists.mp (detectFraud_isSome.mpr
    ⟨⟨honest, hhonest, q, hq⟩, liar, hliar, att, hanswer, denial_iff.mpr ⟨⟨hverify, hneg⟩, hid⟩⟩)
  obtain ⟨op, hop, hsigned, hd, hfid, hfv, hendorsed⟩ := detectFraud_sound hfp
  -- a signature that verifies has a key
  obtain ⟨accused, hacc⟩ : ∃ accused, fp.att.operator = some accused := by
    have hv := hd.1
    rw [Attestation.verify] at hv
    cases ho : fp.att.operator with
    | none =>
      rw [ho] at hv
      cases hv
    | some accused => exact ⟨accused, rfl⟩
  refine ⟨fp, accused, hfp, by rw [hfv, hacc], ⟨op, hop, hsigned, hacc, hd⟩,
    fun honly => ?_, fun minerRounds minerPriv e he => ?_⟩
  · rw [← hoper, ← honly op hop _ hsigned (denial_iff.mpr ⟨hd, hfid⟩), hacc]
  · obtain ⟨hev, heo, hem⟩ := endorse_ok he
    rw [hendorsed accused e hacc hev heo, hem]

end

/-- An operator that only denies. -/
def liarOperator : AttestingOperator where
  seen _ := none
  mined _ := none
  merklePath _ := none
  utxo _ := none
  minedAttested := some fun _ => some ({}, lateDenial)

theorem liar_accused_late :
    ∃ fp, detectFraud [liarOperator, wholePeer.operator lateChain 1] lateTx.txID = some fp ∧
      fp.verify = (some ⟨curveGx, curveGy⟩, none, true) := by
  obtain ⟨fp, accused, hfp, hverify, -, honly, -⟩ :=
    liar_accused lateChain_provable (List.mem_singleton_self lateTx) wholePeer_holds
    [liarOperator, wholePeer.operator lateChain 1] (List.mem_map_of_mem (by simp))
      (List.mem_cons_self (a := liarOperator))
    (by decide) rfl attest_late rfl
  refine ⟨fp, hfp, ?_⟩
  have hpublic : (newIdentity []).public = some ⟨curveGx, curveGy⟩ := by decide
  rw [hverify, ← honly, hpublic]
  intro op hop a ha _
  rw [List.mem_cons, List.mem_singleton] at hop
  obtain rfl | rfl := hop
  · exact (Option.some.inj ha).symm
  · cases ha

end MemServe
