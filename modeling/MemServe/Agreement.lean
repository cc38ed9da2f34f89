import Mathlib.Data.List.MinMax
import MemServe.Client

/-!
What the agreement counts of the client count.

The three polls count votes for a flag or for a status. The answer they return has more to it, and
it is that of the last operator whose flag or status it has.
-/

namespace MemServe

/-- `for k := range m`: the order is open, and every key comes once. -/
structure GoMap.RangedBy {K V : Type} [DecidableEq K] (m : GoMap K V) (order : List K) : Prop where
  nodup : order.Nodup
  mem_iff : ∀ k, k ∈ order ↔ (m.get k).isSome

lemma countP_and_eq_iff {α : Type} {p q : α → Bool} {l : List α} :
    l.countP (fun a => q a && p a) = l.countP p ↔ ∀ a ∈ l, p a = true → q a = true := by
  rw [← List.countP_filter, List.countP_eq_length_filter (p := p), List.countP_eq_length]
  simp only [List.mem_filter, and_imp]

namespace Client

open Api

/-- The operators that answered, by their answers. -/
def seenAnswers (ops : List Operator) (txid : Hash) : List SeenResult :=
  ops.filterMap fun op => op.seen txid

def minedAnswers (ops : List Operator) (txid : Hash) : List MinedResult :=
  ops.filterMap fun op => op.mined txid

def utxoAnswers (ops : List Operator) (op : Outpoint) : List UTXOResult :=
  ops.filterMap fun o => o.utxo op

/-- Two answers of a mined transaction agree on its block. -/
def sameMined (a b : MinedResult) : Bool :=
  a.mined == b.mined && (!b.mined || (a.blockHash == b.blockHash && a.height == b.height))

/-- Two answers of one status agree on the value, or on who spent the output and when. -/
def sameUTXO (a b : UTXOResult) : Bool :=
  a.status == b.status && match b.status with
    | .unspent => a.value == b.value
    | .spent => a.spentBy == b.spentBy && a.spentHeight == b.spentHeight
    | _ => true

/-- The counts are what they are called: the answers there are, and those that are the same as the
one returned. -/
structure Agreement.Exact {α : Type} (ag : Agreement) (answers : List α)
    (same : α → Bool) : Prop where
  responders : ag.responders = answers.length
  agree : ag.agree = answers.countP same
  bounds : 0 ≤ ag.agree ∧ ag.agree ≤ ag.responders

lemma Agreement.exact_iff {α : Type} {ag : Agreement} {answers : List α} {same : α → Bool} :
    ag.Exact answers same ↔ ag.responders = answers.length ∧ ag.agree = answers.countP same := by
  refine ⟨fun h => ⟨h.responders, h.agree⟩, fun ⟨hr, ha⟩ => ⟨hr, ha, ?_⟩⟩
  have := answers.countP_le_length (p := same)
  omega

/-- A poll that keeps the last positive answer. -/
lemma foldl_keep {α β : Type} {count : β → α → β} {res : β → α} {p : α → Bool}
    (h : ∀ v r, res (count v r) = if p r then r else res v) (l : List α) (v : β) :
    res (l.foldl count v) = (l.reverse.find? p).getD (res v) := by
  induction l using List.reverseRecOn with
  | nil => rfl
  | append_singleton l r ih =>
    rw [List.foldl_concat, h, ih, List.reverse_append, List.reverse_singleton,
      List.singleton_append, List.find?_cons]
    cases p r <;> rfl

/-- A vote of `Seen`. -/
def countSeen (v : SeenResult × Agreement) (r : SeenResult) : SeenResult × Agreement :=
  if r.seen then (r, ⟨v.2.responders + 1, v.2.agree + 1⟩)
  else (v.1, ⟨v.2.responders + 1, v.2.agree⟩)

lemma foldl_countSeen (l : List SeenResult) (v : SeenResult × Agreement) :
    (l.foldl countSeen v).2 =
      ⟨v.2.responders + l.length, v.2.agree + l.countP SeenResult.seen⟩ := by
  induction l generalizing v with
  | nil => simp
  | cons r l ih =>
    rw [List.foldl_cons, ih, List.countP_cons, List.length_cons, countSeen]
    split_ifs with h
    · simp only [Agreement.mk.injEq]
      omega
    · simp only [Agreement.mk.injEq]
      omega

lemma foldl_countSeen_res (l : List SeenResult) (v : SeenResult × Agreement) :
    (l.foldl countSeen v).1 = (l.reverse.find? SeenResult.seen).getD v.1 :=
  foldl_keep (fun v r => by unfold countSeen; cases r.seen <;> rfl) l v

lemma seen_eq (ops : List Operator) (txid : Hash) :
    seen ops txid = (((seenAnswers ops txid).reverse.find? SeenResult.seen).getD {},
      ⟨(seenAnswers ops txid).length, (seenAnswers ops txid).countP SeenResult.seen⟩) := by
  have hfold : ops.foldl (pollSeen txid) ({}, {}) =
      (seenAnswers ops txid).foldl countSeen ({}, {}) := by
    rw [seenAnswers, List.foldl_filterMap]
    congr
    funext v op
    unfold pollSeen
    cases op.seen txid <;> rfl
  rw [seen, hfold, foldl_countSeen, foldl_countSeen_res]
  generalize seenAnswers ops txid = l
  dsimp only
  have hflag : decide (0 < (0 : ℤ) + l.countP SeenResult.seen) =
      ((l.reverse.find? SeenResult.seen).getD {}).seen := by
    cases hf : l.reverse.find? SeenResult.seen with
    | none =>
      have hnone : l.countP SeenResult.seen = 0 := List.countP_eq_zero.mpr fun r hr =>
        List.find?_eq_none.mp hf r (List.mem_reverse.mpr hr)
      rw [hnone]
      rfl
    | some r =>
      have hpos : 0 < l.countP SeenResult.seen := List.countP_pos_iff.mpr
        ⟨r, List.mem_reverse.mp (List.mem_of_find?_eq_some hf), List.find?_some hf⟩
      rw [Option.getD_some, List.find?_some hf]
      exact decide_eq_true (by omega)
  rw [hflag, Nat.zero_add, Int.zero_add]

lemma seen_exact_iff (ops : List Operator) (txid : Hash) :
    (seen ops txid).2.Exact (seenAnswers ops txid) (· == (seen ops txid).1) ↔
      (∀ r ∈ seenAnswers ops txid, ∀ r' ∈ seenAnswers ops txid,
        r.seen = true → r'.seen = true → r = r') ∧
      ({} ∈ seenAnswers ops txid → ∃ r ∈ seenAnswers ops txid, r.seen = true) := by
  rw [seen_eq, Agreement.exact_iff]
  generalize seenAnswers ops txid = l
  simp only [true_and, Int.natCast_inj]
  cases hf : l.reverse.find? SeenResult.seen with
  | none =>
    have hnone : ∀ r ∈ l, r.seen ≠ true := fun r hr =>
      List.find?_eq_none.mp hf r (List.mem_reverse.mpr hr)
    rw [List.countP_eq_zero.mpr hnone, eq_comm, List.countP_eq_zero]
    constructor
    · intro h
      exact ⟨fun r hr _ _ hseen => absurd hseen (hnone r hr), fun he => absurd BEq.rfl (h _ he)⟩
    · rintro ⟨-, h⟩ r hr heq
      have hr0 : r = {} := beq_iff_eq.mp heq
      obtain ⟨r', hr', hseen⟩ := h (hr0 ▸ hr)
      exact hnone r' hr' hseen
  | some out =>
    have hmem : out ∈ l := List.mem_reverse.mp (List.mem_of_find?_eq_some hf)
    have hseen : out.seen = true := List.find?_some hf
    have hand : (fun r => r == out) = fun r : SeenResult => (r == out) && r.seen := by
      funext r
      by_cases h : r = out
      · simp [h, hseen]
      · simp [h]
    rw [Option.getD_some, hand, eq_comm, countP_and_eq_iff]
    simp only [beq_iff_eq]
    constructor
    · intro h
      exact ⟨fun r hr r' hr' hs hs' => (h r hr hs).trans (h r' hr' hs').symm,
        fun _ => ⟨out, hmem, hseen⟩⟩
    · exact fun h r hr hs => h.1 r hr out hmem hs hseen

/-- A vote of `Mined`. -/
def countMined (v : Poll) (r : MinedResult) : Poll :=
  if r.mined then ⟨r, v.minedVotes + 1, v.responders + 1⟩
  else { v with responders := v.responders + 1 }

lemma foldl_countMined (l : List MinedResult) (v : Poll) :
    (l.foldl countMined v).responders = v.responders + l.length ∧
      (l.foldl countMined v).minedVotes = v.minedVotes + l.countP MinedResult.mined := by
  induction l generalizing v with
  | nil => exact ⟨rfl, rfl⟩
  | cons r l ih =>
    obtain ⟨hresp, hvotes⟩ := ih (countMined v r)
    rw [List.foldl_cons, hresp, hvotes, List.countP_cons, List.length_cons, countMined]
    split_ifs with h
    · dsimp only
      omega
    · dsimp only
      omega

lemma foldl_poll (ops : List Operator) (txid : Hash) :
    ops.foldl (poll txid) {} = (minedAnswers ops txid).foldl countMined {} := by
  rw [minedAnswers, List.foldl_filterMap]
  congr
  funext v op
  unfold poll
  cases op.mined txid <;> rfl

lemma foldl_countMined_res (l : List MinedResult) (v : Poll) :
    (l.foldl countMined v).res = (l.reverse.find? MinedResult.mined).getD v.res :=
  foldl_keep (fun v r => by unfold countMined; cases r.mined <;> rfl) l v

lemma sameMined_of_mined {a b : MinedResult} (hb : b.mined = true) :
    (sameMined a b && a.mined) = sameMined a b := by
  cases ha : a.mined <;> simp [sameMined, ha, hb]

lemma sameMined_of_not_mined {a b : MinedResult} (hb : b.mined = false) :
    sameMined a b = !a.mined := by
  cases ha : a.mined <;> simp [sameMined, ha, hb]

lemma sameMined_of_same {a b c : MinedResult} (ha : sameMined a c = true)
    (hb : sameMined b c = true) : sameMined a b = true := by
  simp only [sameMined, Bool.and_eq_true, Bool.or_eq_true, beq_iff_eq, Bool.not_eq_true'] at *
  grind

lemma mined_exact_iff {ops : List Operator} {txid : Hash}
    (hunproven : firstPassing ops txid = none) :
    (mined ops txid).2.2.Exact (minedAnswers ops txid) (sameMined · (mined ops txid).1) ↔
      ((minedAnswers ops txid).length < 2 * (minedAnswers ops txid).countP MinedResult.mined →
        ∀ r ∈ minedAnswers ops txid, ∀ r' ∈ minedAnswers ops txid,
          r.mined = true → r'.mined = true → sameMined r r' = true) := by
  obtain ⟨hresp, hvotes⟩ := foldl_countMined (minedAnswers ops txid) {}
  have hres := foldl_countMined_res (minedAnswers ops txid) {}
  rw [← foldl_poll] at hresp hvotes hres
  rw [Nat.zero_add] at hresp hvotes
  have hpath : merklePath ops txid = .error .noProof := by rw [merklePath_eq, hunproven]; rfl
  rw [mined, hpath]
  generalize minedAnswers ops txid = l at hresp hvotes hres ⊢
  generalize ops.foldl (poll txid) {} = v at hresp hvotes hres ⊢
  dsimp only
  have hmajor_iff : v.minedVotes * 2 > v.responders ↔
      l.length < 2 * l.countP MinedResult.mined := by
    omega
  split_ifs with hmajor
  · -- the votes are for mined, the answer is the last of them
    obtain ⟨out, hout⟩ : ∃ out, l.reverse.find? MinedResult.mined = some out := by
      have hpos : 0 < l.countP MinedResult.mined := by omega
      obtain ⟨r, hr, hm⟩ := List.countP_pos_iff.mp hpos
      exact Option.isSome_iff_exists.mp (List.find?_isSome.mpr ⟨r, List.mem_reverse.mpr hr, hm⟩)
    have hmem : out ∈ l := List.mem_reverse.mp (List.mem_of_find?_eq_some hout)
    have hmined : out.mined = true := List.find?_some hout
    have hself : { v.res with mined := true } = out := by
      rw [hres, hout, Option.getD_some]
      cases out
      cases hmined
      rfl
    have hand := funext fun r => (sameMined_of_mined (a := r) hmined).symm
    rw [hself, Agreement.exact_iff, hand, hvotes, Int.natCast_inj, eq_comm (a := l.countP _),
      countP_and_eq_iff]
    simp only [hresp, true_and, hmajor_iff.mp hmajor, forall_const]
    exact ⟨fun h r hr r' hr' hm hm' => sameMined_of_same (h r hr hm) (h r' hr' hm'),
      fun h r hr hm => h r hr out hmem hm hmined⟩
  · have hnot := funext fun r => sameMined_of_not_mined (a := r) (b := {}) rfl
    have hsum := l.length_eq_countP_add_countP MinedResult.mined
    have hcount : l.countP (fun r => !r.mined) = l.countP fun r => decide ¬r.mined = true :=
      List.countP_congr fun r _ => by simp
    refine iff_of_true ?_ fun h => absurd (hmajor_iff.mpr h) hmajor
    rw [Agreement.exact_iff, hnot]
    dsimp only
    omega

/-- A vote of `UTXO`. -/
def countUTXO (v : UTXOPoll) (r : UTXOResult) : UTXOPoll where
  tally := v.tally.set r.status ((v.tally.get r.status).getD 0 + 1)
  results := v.results.set r.status r
  responders := v.responders + 1

/-- What a poll has, of the answers so far. -/
structure UTXOPoll.Holds (v : UTXOPoll) (l : List UTXOResult) : Prop where
  responders : v.responders = l.length
  tally : ∀ s, (v.tally.get s).getD 0 = l.countP (·.status == s)
  keys : ∀ s, (v.tally.get s).isSome ↔ ∃ r ∈ l, r.status = s
  results : ∀ s, (v.tally.get s).isSome → ∃ r ∈ l, v.results.get s = some r ∧ r.status = s

lemma UTXOPoll.Holds.count {v : UTXOPoll} {l : List UTXOResult} (h : v.Holds l) (r : UTXOResult) :
    (countUTXO v r).Holds (l ++ [r]) where
  responders := by rw [countUTXO, h.responders, List.length_append, List.length_singleton]
  tally s := by
    rw [List.countP_append, List.countP_singleton, ← h.tally s, countUTXO, GoMap.get_set]
    by_cases hs : s = r.status
    · simp [hs]
    · simp [hs, Ne.symm hs]
  keys s := by
    rw [countUTXO, GoMap.get_set]
    by_cases hs : s = r.status
    · simp [hs]
    · simp [hs, Ne.symm hs, h.keys s]
  results s := by
    rw [countUTXO, GoMap.get_set, GoMap.get_set]
    by_cases hs : s = r.status
    · simp [hs]
    · intro hsome
      rw [if_neg hs] at hsome
      obtain ⟨r', hr', hget, hstatus⟩ := h.results s hsome
      exact ⟨r', List.mem_append_left _ hr', by rw [if_neg hs, hget], hstatus⟩

lemma utxoVotes_holds (ops : List Operator) (op : Outpoint) :
    (utxoVotes ops op).Holds (utxoAnswers ops op) := by
  have hfold : utxoVotes ops op = (utxoAnswers ops op).foldl countUTXO ⟨.empty, .empty, 0⟩ := by
    rw [utxoVotes, utxoAnswers, List.foldl_filterMap]
    congr
    funext v o
    unfold pollUTXO
    cases o.utxo op <;> rfl
  rw [hfold]
  induction utxoAnswers ops op using List.reverseRecOn with
  | nil => exact ⟨rfl, fun s => rfl, fun s => by simp, fun s => by simp⟩
  | append_singleton l r ih =>
    rw [List.foldl_concat]
    exact ih.count r

/-- The status of the most answers, the first of them in the order of the statuses. -/
def mostAnswered (order : List UTXOStatus) (answers : List UTXOResult) : Option UTXOStatus :=
  order.argmax fun s => answers.countP (·.status == s)

lemma plurality_eq {tally : GoMap UTXOStatus ℕ} {f : UTXOStatus → ℕ}
    (hf : ∀ s, (tally.get s).getD 0 = f s) (order : List UTXOStatus) :
    plurality tally order = (order.argmax f).elim (.unknown, -1) fun t => (t, (f t : ℤ)) := by
  induction order using List.reverseRecOn with
  | nil => rfl
  | append_singleton order s ih =>
    have hconcat : plurality tally (order ++ [s]) = if ((f s : ℕ) : ℤ) > (plurality tally order).2
        then (s, ((f s : ℕ) : ℤ)) else plurality tally order := by
      rw [← hf s]
      exact List.foldl_concat ..
    rw [hconcat, ih, List.argmax_concat]
    cases order.argmax f with
    | none =>
      -- the first one ranged over beats `-1`
      exact if_pos (show (-1 : ℤ) < f s by omega)
    | some t =>
      simp only [Option.elim_some]
      by_cases hlt : f t < f s
      · rw [if_pos hlt]
        exact if_pos (Int.ofNat_lt.mpr hlt)
      · rw [if_neg hlt]
        exact if_neg fun h => hlt (Int.ofNat_lt.mp h)

lemma sameUTXO_status (a b : UTXOResult) :
    (sameUTXO a b && a.status == b.status) = sameUTXO a b := by
  rw [sameUTXO, Bool.and_right_comm, Bool.and_self]

lemma sameUTXO_of_same {a b c : UTXOResult} (ha : sameUTXO a c = true) (hb : sameUTXO b c = true) :
    sameUTXO a b = true := by
  simp only [sameUTXO, Bool.and_eq_true, beq_iff_eq] at *
  obtain ⟨hsa, ha⟩ := ha
  obtain ⟨hsb, hb⟩ := hb
  refine ⟨hsa.trans hsb.symm, ?_⟩
  rw [hsb]
  cases hc : c.status <;> simp only [hc] at ha hb ⊢ <;> grind

lemma utxo_exact_iff {ops : List Operator} {op : Outpoint} {order : List UTXOStatus}
    (horder : (utxoVotes ops op).tally.RangedBy order) :
    (utxo ops op order).2.Exact (utxoAnswers ops op) (sameUTXO · (utxo ops op order).1) ↔
      utxoAnswers ops op ≠ [] ∧ ∀ s ∈ mostAnswered order (utxoAnswers ops op),
        ∀ r ∈ utxoAnswers ops op, ∀ r' ∈ utxoAnswers ops op,
          r.status = s → r'.status = s → sameUTXO r r' = true := by
  have hv := utxoVotes_holds ops op
  rw [utxo]
  generalize utxoVotes ops op = v at hv horder ⊢
  generalize utxoAnswers ops op = l at hv ⊢
  have hbest := plurality_eq hv.tally order
  change plurality v.tally order = (mostAnswered order l).elim _ _ at hbest
  cases hmost : mostAnswered order l with
  | none =>
    -- nobody answered: there is no status to range over, and the count is `-1`
    have hnil : order = [] := List.argmax_eq_none.mp hmost
    have hl : l = [] := List.eq_nil_iff_forall_not_mem.mpr fun r hr => by
      have := (horder.mem_iff r.status).mpr ((hv.keys _).mpr ⟨r, hr, rfl⟩)
      rw [hnil] at this
      exact List.not_mem_nil this
    subst hnil hl
    refine iff_of_false (fun h => ?_) fun h => h.1 rfl
    have hneg : ¬(0 : ℤ) ≤ -1 := by decide
    exact hneg h.bounds.1
  | some s =>
    rw [hmost, Option.elim] at hbest
    have hmem : s ∈ order := List.argmax_mem (show s ∈ order.argmax _ from hmost)
    obtain ⟨out, hout, hget, hstatus⟩ := hv.results s ((horder.mem_iff s).mp hmem)
    have hpos : ¬((l.countP (·.status == s) : ℕ) : ℤ) < 0 := by omega
    have hand := funext fun r => (sameUTXO_status r out).symm
    rw [hbest]
    dsimp only
    rw [if_neg hpos, hget, Option.getD_some, Agreement.exact_iff, hand, ← hstatus, Int.natCast_inj,
      eq_comm (a := l.countP _), countP_and_eq_iff]
    simp only [hv.responders, true_and, beq_iff_eq, ne_eq, List.ne_nil_of_mem hout,
      not_false_eq_true, Option.mem_def, Option.some.injEq, forall_eq']
    exact ⟨fun h r hr r' hr' hs hs' => sameUTXO_of_same (h r hr hs) (h r' hr' hs'),
      fun h r hr hs => h r hr out hout hs rfl⟩

/-- **When the counts are exact.** However the operators answer, `Responders` and `Agree` are the
answers there are and those that equal the one returned: for `Seen` exactly when all that have seen
the transaction give the same answer, and somebody has seen it or nobody gives the empty answer; for
`UTXO` exactly when somebody answers and all answers of the status that wins agree on its value, or
its spender and height; for an unproven `Mined` exactly when all that say mined, if they are the
majority, name one block. -/
theorem agreement_exact_iff (ops : List Operator) (txid : Hash) (op : Outpoint)
    (order : List UTXOStatus) (horder : (utxoVotes ops op).tally.RangedBy order) :
    ((seen ops txid).2.Exact (seenAnswers ops txid) (· == (seen ops txid).1) ↔
      (∀ r ∈ seenAnswers ops txid, ∀ r' ∈ seenAnswers ops txid,
        r.seen = true → r'.seen = true → r = r') ∧
      ({} ∈ seenAnswers ops txid → ∃ r ∈ seenAnswers ops txid, r.seen = true)) ∧
    ((utxo ops op order).2.Exact (utxoAnswers ops op) (sameUTXO · (utxo ops op order).1) ↔
      utxoAnswers ops op ≠ [] ∧ ∀ s ∈ mostAnswered order (utxoAnswers ops op),
        ∀ r ∈ utxoAnswers ops op, ∀ r' ∈ utxoAnswers ops op,
          r.status = s → r'.status = s → sameUTXO r r' = true) ∧
    (firstPassing ops txid = none →
      ((mined ops txid).2.2.Exact (minedAnswers ops txid) (sameMined · (mined ops txid).1) ↔
        ((minedAnswers ops txid).length < 2 * (minedAnswers ops txid).countP MinedResult.mined →
          ∀ r ∈ minedAnswers ops txid, ∀ r' ∈ minedAnswers ops txid,
            r.mined = true → r'.mined = true → sameMined r r' = true))) :=
  ⟨seen_exact_iff ops txid, utxo_exact_iff horder, mined_exact_iff⟩

/-- An operator that saw the transaction at time `t`, knows of an output of value `v` and says the
transaction is in the block `h`. -/
def teller (t : ℤ) (v : UInt64) (h : Hash) : Operator where
  seen _ := some ⟨true, t⟩
  mined _ := some { mined := true, blockHash := h }
  merklePath _ := none
  utxo _ := some { status := .unspent, value := v }

/-- An operator that knows of nothing. -/
def stranger : Operator := ⟨fun _ => some {}, fun _ => some {}, fun _ => none, fun _ => some {}⟩

lemma tellers_ranged (t t' : ℤ) (v v' : UInt64) (h h' : Hash) :
    (utxoVotes [teller t v h, teller t' v' h'] ⟨default, 0⟩).tally.RangedBy [.unspent] := by
  refine ⟨List.nodup_singleton _, fun k => ?_⟩
  rw [(utxoVotes_holds _ _).keys, utxoAnswers]
  simp [teller, eq_comm]

/-- Two tellers that agree are counted right. -/
theorem agreement_exact_tellers :
    (seen [teller 1 5 default, teller 1 5 default] default).2.Exact
      (seenAnswers [teller 1 5 default, teller 1 5 default] default)
      (· == (seen [teller 1 5 default, teller 1 5 default] default).1) ∧
    (utxo [teller 1 5 default, teller 1 5 default] ⟨default, 0⟩ [.unspent]).2.Exact
      (utxoAnswers [teller 1 5 default, teller 1 5 default] ⟨default, 0⟩)
      (sameUTXO · (utxo [teller 1 5 default, teller 1 5 default] ⟨default, 0⟩ [.unspent]).1) ∧
    (mined [teller 1 5 default, teller 1 5 default] default).2.2.Exact
      (minedAnswers [teller 1 5 default, teller 1 5 default] default)
      (sameMined · (mined [teller 1 5 default, teller 1 5 default] default).1) := by
  have h := agreement_exact_iff [teller 1 5 default, teller 1 5 default] default ⟨default, 0⟩
    [.unspent] (tellers_ranged ..)
  refine ⟨h.1.mpr ?_, h.2.1.mpr ?_, (h.2.2 ?_).mpr ?_⟩
  · decide
  · decide
  · decide
  · decide

/-- Two tellers that agree on nothing. -/
def divided : List Operator := [teller 1 5 (.fill 32 1), teller 2 6 (.fill 32 2)]

/-- **The counts are not exact.** An operator that has not seen the transaction agrees with the
answer that it is not seen and is not counted; two that saw it at different times, know different
values of the output and name different blocks are both counted for the answer of the second; with
no operator to ask, `-1` agree on an unknown output. -/
theorem agreement_not_exact :
    (seen [stranger] default = ({}, ⟨1, 0⟩) ∧ seenAnswers [stranger] default = [{}]) ∧
    (seen divided default = (⟨true, 2⟩, ⟨2, 2⟩) ∧
      (utxo divided ⟨default, 0⟩ [.unspent] = ({ status := .unspent, value := 6 }, ⟨2, 2⟩) ∧
        (utxoVotes divided ⟨default, 0⟩).tally.RangedBy [.unspent]) ∧
      mined divided default = ({ mined := true, blockHash := .fill 32 2 }, false, ⟨2, 2⟩)) ∧
    (utxo [] ⟨default, 0⟩ [] = ({}, ⟨0, -1⟩) ∧ (utxoVotes [] ⟨default, 0⟩).tally.RangedBy []) := by
  refine ⟨⟨by decide, by decide⟩, ⟨by decide, ⟨by decide, tellers_ranged ..⟩, by decide⟩, by decide,
    List.nodup_nil, fun k => ?_⟩
  exact iff_of_false List.not_mem_nil (by simp [utxoVotes])

end Client

end MemServe
