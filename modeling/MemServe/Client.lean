import MemServe.Api
import MemServe.GoMap

/-!
The client that asks several operators and trusts none.

An inclusion answer is taken from the first operator whose proof folds to the root it comes
with. The root, the header and the block hash all come from the operator, and nothing ties
them to each other.
-/

namespace MemServe

namespace Proof

/-- What a proof that is complete shows of `txid`: it folds along both paths to the root in its
header, and its block is the one of that header. -/
structure Commits (p : Proof) (txid : Hash) : Prop where
  leaf : p.leaf = txid
  subtree : Commitment.fold p.leaf p.l1 = p.subtreeRoot
  block : Commitment.fold p.subtreeRoot p.l2 = p.blockRoot
  header : p.blockRoot = headerMerkleRoot p.header
  hash : p.blockHash = Commitment.doubleSHA256 p.header.1

/-- What `Verify` does not look at. -/
structure Bound (p : Proof) : Prop where
  subtree : Commitment.fold p.leaf p.l1 = p.subtreeRoot
  header : p.blockRoot = headerMerkleRoot p.header
  hash : p.blockHash = Commitment.doubleSHA256 p.header.1

lemma Commits.bound {p : Proof} {txid : Hash} (h : p.Commits txid) : p.Bound :=
  ⟨h.subtree, h.header, h.hash⟩

lemma Bound.commits {p : Proof} {txid : Hash} (h : p.Bound) (hleaf : p.leaf = txid)
    (hv : p.verify = true) :
    p.Commits txid :=
  ⟨hleaf, h.subtree, by rw [← h.subtree]; exact (verify_iff.mp hv).2.2, h.header, h.hash⟩

/-- A proof made of a root alone: both paths are empty and the leaf is its own root. -/
def bare (txid : Hash) : Proof := ⟨txid, [], txid, [], txid, default, 0, default⟩

lemma bare_verify (txid : Hash) : (bare txid).verify = true :=
  verify_iff.mpr ⟨Nat.zero_le _, Nat.zero_le _, rfl⟩

end Proof

namespace Client

/-- The answers of an operator, `none` for an error. -/
structure Operator where
  seen : Hash → Option Api.SeenResult
  mined : Hash → Option Api.MinedResult
  merklePath : Hash → Option Proof
  utxo : Outpoint → Option Api.UTXOResult

/-- How many operators responded, and how many are said to agree. -/
structure Agreement where
  responders : ℕ := 0
  agree : ℤ := 0
  deriving DecidableEq

inductive Error
  | noProof
  deriving DecidableEq

/-- The first proof of `txid` that verifies. -/
def merklePath (ops : List Operator) (txid : Hash) : Except Error Proof :=
  match ops with
  | [] => .error .noProof
  | op :: ops =>
    match op.merklePath txid with
    | none => merklePath ops txid
    | some p => if p.leaf = txid ∧ p.verify = true then .ok p else merklePath ops txid

/-- The poll of `Mined`: the last answer that says mined, the votes for it, the responders. -/
structure Poll where
  res : Api.MinedResult := {}
  minedVotes : ℕ := 0
  responders : ℕ := 0
  deriving DecidableEq

def poll (txid : Hash) (v : Poll) (op : Operator) : Poll :=
  match op.mined txid with
  | none => v
  | some r =>
    let v := { v with responders := v.responders + 1 }
    if r.mined then { v with minedVotes := v.minedVotes + 1, res := r } else v

/-- Mined status, whether it is proven, and how many operators agree. -/
def mined (ops : List Operator) (txid : Hash) : Api.MinedResult × Bool × Agreement :=
  match merklePath ops txid with
  | .ok p =>
    ({ mined := true, blockHash := p.blockHash, height := p.height }, true,
      ⟨ops.length, ops.length⟩)
  | .error _ =>
    let v := ops.foldl (poll txid) {}
    if v.minedVotes * 2 > v.responders then
      ({ v.res with mined := true }, false, ⟨v.responders, v.minedVotes⟩)
    else ({ mined := false }, false, ⟨v.responders, v.responders - v.minedVotes⟩)

def pollSeen (txid : Hash) (v : Api.SeenResult × Agreement) (op : Operator) :
    Api.SeenResult × Agreement :=
  match op.seen txid with
  | none => v
  | some r =>
    let ag := { v.2 with responders := v.2.responders + 1 }
    if r.seen then (r, { ag with agree := ag.agree + 1 }) else (v.1, ag)

def seen (ops : List Operator) (txid : Hash) : Api.SeenResult × Agreement :=
  let v := ops.foldl (pollSeen txid) ({}, {})
  ({ v.1 with seen := decide (0 < v.2.agree) }, v.2)

/-- The poll of `UTXO`: for each status the votes for it and the last answer that has it. -/
structure UTXOPoll where
  tally : GoMap Api.UTXOStatus ℕ
  results : GoMap Api.UTXOStatus Api.UTXOResult
  responders : ℕ

def pollUTXO (op : Outpoint) (v : UTXOPoll) (o : Operator) : UTXOPoll :=
  match o.utxo op with
  | none => v
  | some r =>
    { tally := v.tally.set r.status ((v.tally.get r.status).getD 0 + 1)
      results := v.results.set r.status r
      responders := v.responders + 1 }

/-- The first status of the most votes, in the order that the map is ranged over. -/
def plurality (tally : GoMap Api.UTXOStatus ℕ) (order : List Api.UTXOStatus) : Api.UTXOStatus × ℤ :=
  order.foldl (fun best s =>
    let n : ℤ := (tally.get s).getD 0
    if n > best.2 then (s, n) else best) (.unknown, -1)

/-- The poll of all operators. -/
def utxoVotes (ops : List Operator) (op : Outpoint) : UTXOPoll :=
  ops.foldl (pollUTXO op) ⟨.empty, .empty, 0⟩

/-- The status of the most operators. `order` is the order that the tally is ranged over, which the
language leaves open. -/
def utxo (ops : List Operator) (op : Outpoint) (order : List Api.UTXOStatus) :
    Api.UTXOResult × Agreement :=
  let v := utxoVotes ops op
  let best := plurality v.tally order
  let ag : Agreement := ⟨v.responders, best.2⟩
  if best.2 < 0 then ({ status := .unknown }, ag) else ((v.results.get best.1).getD {}, ag)

/-! ### What the returned proof shows -/

/-- The first answer to `txid` that passes the checks of the client. -/
def firstPassing (ops : List Operator) (txid : Hash) : Option Proof :=
  (ops.filterMap fun op => op.merklePath txid).find? fun p => p.leaf = txid && p.verify

lemma merklePath_eq (ops : List Operator) (txid : Hash) :
    merklePath ops txid = (firstPassing ops txid).elim (.error .noProof) .ok := by
  induction ops with
  | nil => rfl
  | cons op ops ih =>
    unfold merklePath firstPassing
    rw [List.filterMap_cons]
    cases op.merklePath txid with
    | none => exact ih
    | some p =>
      rw [List.find?_cons]
      dsimp only
      by_cases h : p.leaf = txid ∧ p.verify = true
      · simp [h]
      · have hb : (decide (p.leaf = txid) && p.verify) = false := by simpa using h
        rw [if_neg h, hb]
        exact ih

lemma firstPassing_some {ops : List Operator} {txid : Hash} {p : Proof}
    (h : firstPassing ops txid = some p) :
    p.leaf = txid ∧ p.verify = true := by
  simpa using List.find?_some h

lemma mined_proven {ops : List Operator} {txid : Hash} :
    (mined ops txid).2.1 = true ↔ ∃ p, merklePath ops txid = .ok p := by
  unfold mined
  cases merklePath ops txid with
  | ok p => simp
  | error e =>
    dsimp only
    split_ifs <;> simp

/-- **Inclusion is as good as the header the operator sends.** For every list of operators, however
they answer: what the client returns is included, and what it calls proven is, exactly when the
first answer to pass its checks has the subtree root its path folds to, the root of its header,
and the hash of its header. -/
theorem inclusion_iff_bound (ops : List Operator) (txid : Hash) :
    ((∀ p, merklePath ops txid = .ok p → p.Commits txid) ∧
      ((mined ops txid).2.1 = true → ∃ p : Proof, p.Commits txid ∧
        (mined ops txid).1 = { mined := true, blockHash := p.blockHash, height := p.height })) ↔
    ∀ p, firstPassing ops txid = some p → p.Bound := by
  constructor
  · rintro ⟨h, -⟩ p hp
    exact (h p (by rw [merklePath_eq, hp]; rfl)).bound
  · intro h
    have hcommits : ∀ p, merklePath ops txid = .ok p → p.Commits txid := by
      intro p hp
      rw [merklePath_eq] at hp
      cases hf : firstPassing ops txid with
      | none => simp [hf] at hp
      | some q =>
        obtain rfl : q = p := by simpa [hf] using hp
        obtain ⟨hleaf, hv⟩ := firstPassing_some hf
        exact (h q hf).commits hleaf hv
    refine ⟨hcommits, fun hproven => ?_⟩
    obtain ⟨p, hp⟩ := mined_proven.mp hproven
    exact ⟨p, hcommits p hp, by rw [mined, hp]⟩

/-- An operator that answers every query about inclusion with a bare root. -/
def forger : Operator :=
  ⟨fun _ => none, fun _ => none, fun txid => some (Proof.bare txid), fun _ => none⟩

/-- **A forged proof is taken.** The client returns the bare root of `txid` as a proof and calls it
proven; its header has another root. -/
theorem inclusion_forged :
    ∃ txid p, merklePath [forger] txid = .ok p ∧ (mined [forger] txid).2.1 = true ∧
      p.blockRoot ≠ Proof.headerMerkleRoot p.header ∧ ¬p.Commits txid := by
  have hroot : (Proof.bare (.fill 32 7)).blockRoot ≠
      Proof.headerMerkleRoot (Proof.bare (.fill 32 7)).header := by
    decide
  have hpath : merklePath [forger] (.fill 32 7) = .ok (Proof.bare (.fill 32 7)) := by
    simp only [merklePath, forger]
    exact if_pos ⟨rfl, Proof.bare_verify _⟩
  exact ⟨.fill 32 7, Proof.bare (.fill 32 7), hpath, mined_proven.mpr ⟨_, hpath⟩, hroot,
    fun h => hroot h.header⟩

end Client

end MemServe
