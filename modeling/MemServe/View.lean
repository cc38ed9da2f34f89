import MemServe.HeightIndex
import MemServe.Requests

/-!
What the calls of the backend contract can tell of a striped store.

A lookup reads the record under its key. A prune of spends also reads the index of spends, and
only those of its entries whose record was spent at that height. Nothing else of a store can be
seen: its view is made of the two, and every write and every answer is a function of the view.
An entry that outlived its record, or a spend that was never indexed, makes no difference to it
beyond that.
-/

namespace MemServe

@[ext] structure View where
  flat : Flat
  /-- The outpoints of a stripe that a prune of the height evicts. -/
  due : UInt8 → UInt32 → Finset Outpoint

/-- The outpoint whose record a write is for. -/
def Call.outpoint? (c : Call) : Option Outpoint :=
  match c with
  | .putUTXO op _ | .spendUTXO op _ _ | .unspendUTXO op | .deleteUTXO op => some op
  | _ => none

/-- The set with `op` in it or not. -/
def place (op : Outpoint) (p : Bool) (set : Finset Outpoint) : Finset Outpoint :=
  if p then insert op set else set.erase op

lemma mem_place {op t : Outpoint} {p : Bool} {set : Finset Outpoint} :
    t ∈ place op p set ↔ if t = op then p = true else t ∈ set := by
  unfold place
  cases p <;> by_cases h : t = op <;> simp [h]

lemma place_false_of_notMem {op : Outpoint} {set : Finset Outpoint} (h : op ∉ set) :
    place op false set = set :=
  Finset.erase_eq_of_notMem h

namespace View

/-- A write on what can be seen. -/
def apply (c : Call) (v : View) : View :=
  match c with
  | .pruneSpentAtHeight h =>
    { flat := { v.flat with
        utxo := fun op => if op ∈ v.due (Mem.striperOf op.txID) h then none else v.flat.utxo op }
      due := fun i h' => if h' = h then ∅ else v.due i h' }
  | c =>
    { flat := v.flat.apply c
      due := fun i h =>
        match c.outpoint? with
        | none => v.due i h
        | some op =>
          if i = Mem.striperOf op.txID then
            place op ((c.cell op (v.flat.utxo op)).any (·.spentAt h)) (v.due i h)
          else v.due i h }

def run (cs : List Call) (v : View) : View := Trace.run apply cs v

lemma run_append (cs ds : List Call) (v : View) : v.run (cs ++ ds) = (v.run cs).run ds :=
  Trace.run_append _ _ _ _

lemma apply_of_outpoint {c : Call} {op : Outpoint} (hc : c.outpoint? = some op) (v : View) :
    v.apply c = ⟨v.flat.apply c, fun i h =>
      if i = Mem.striperOf op.txID then
        place op ((c.cell op (v.flat.utxo op)).any (·.spentAt h)) (v.due i h)
      else v.due i h⟩ := by
  cases c with
  | putUTXO | spendUTXO | unspendUTXO | deleteUTXO => cases hc; rfl
  | _ => exact nomatch hc

lemma apply_of_utxoOnly {c : Call} (hc : c.utxoOnly = false) (v : View) :
    v.apply c = ⟨v.flat.apply c, v.due⟩ := by
  cases c with
  | putUTXO | spendUTXO | unspendUTXO | deleteUTXO | pruneSpentAtHeight => exact nomatch hc
  | _ => rfl

end View

namespace Mem

/-- The outpoints that a prune of `h` evicts from the stripe. -/
def Stripe.due (st : Stripe) (h : UInt32) : Finset Outpoint :=
  ((st.spentIdx.get h).getD ∅).filter fun op => (st.utxo.get op).any (·.spentAt h)

lemma Stripe.mem_due {st : Stripe} {h : UInt32} {op : Outpoint} :
    op ∈ st.due h ↔ op ∈ (st.spentIdx.get h).getD ∅ ∧ (st.utxo.get op).any (·.spentAt h) = true :=
  Finset.mem_filter

lemma mem_indexSpent {st : Stripe} {op t : Outpoint} {h h' : UInt32} :
    t ∈ ((indexSpent st op h).spentIdx.get h').getD ∅ ↔ t = op ∧ h' = h ∨
      t ∈ (st.spentIdx.get h').getD ∅ := by
  simp only [indexSpent, GoMap.get_set]
  by_cases hh : h' = h
  · subst hh; simp
  · simp [hh]

lemma mem_deindexSpent {st : Stripe} {op t : Outpoint} {h h' : UInt32} (hne : t ≠ op) :
    t ∈ ((deindexSpent st op h).spentIdx.get h').getD ∅ ↔ t ∈ (st.spentIdx.get h').getD ∅ := by
  unfold deindexSpent
  cases hset : st.spentIdx.get h with
  | none => rfl
  | some set =>
    dsimp only
    by_cases hh : h' = h
    · subst hh
      -- an entry that is dropped was empty but for `op`
      split_ifs with h0
      · have hmem : t ∉ set.erase op := by simp [h0]
        simpa [hset, hne] using hmem
      · simp [hset, hne]
    · split_ifs
      · rw [GoMap.get_delete_of_ne _ hh]
      · rw [GoMap.get_set_of_ne _ _ hh]

lemma Stripe.due_write {st st' : Stripe} {op : Outpoint} {x : Option UTXO}
    (hu : ∀ t, st'.utxo.get t = if t = op then x else st.utxo.get t)
    (hi : ∀ t h, t ≠ op → (t ∈ (st'.spentIdx.get h).getD ∅ ↔ t ∈ (st.spentIdx.get h).getD ∅))
    (hself : ∀ h, x.any (·.spentAt h) = true → op ∈ (st'.spentIdx.get h).getD ∅) (h : UInt32) :
    st'.due h = place op (x.any (·.spentAt h)) (st.due h) := by
  ext t
  rw [mem_due, mem_place, hu]
  by_cases ht : t = op
  · subst ht
    simp only [if_true]
    exact and_iff_right_of_imp (hself h)
  · simp only [if_neg ht, mem_due, hi t h ht]

lemma pruneStripe_get (h : UInt32) (st : Stripe) (op : Outpoint) :
    (Store.pruneStripe h st).2.utxo.get op = if op ∈ st.due h then none else st.utxo.get op := by
  unfold Store.pruneStripe
  cases hset : st.spentIdx.get h with
  | none => simp [Stripe.mem_due, hset]
  | some set =>
    simp only [GoMap.get_deleteRange, Stripe.mem_due, hset, Option.getD_some]
    rfl

lemma pruneStripe_card (h : UInt32) (st : Stripe) :
    (Store.pruneStripe h st).1 = (st.due h).card := by
  unfold Store.pruneStripe Stripe.due
  cases hset : st.spentIdx.get h with
  | none => rfl
  | some set => exact GoMap.deleteRange_count _ _ _

lemma pruneStripe_due (h : UInt32) (st : Stripe) (h' : UInt32) :
    (Store.pruneStripe h st).2.due h' = if h' = h then ∅ else st.due h' := by
  have hidx : (Store.pruneStripe h st).2.spentIdx = st.spentIdx.delete h := by
    unfold Store.pruneStripe
    cases hset : st.spentIdx.get h with
    | none =>
      refine GoMap.ext_get fun k => ?_
      rw [GoMap.get_delete]
      split_ifs with hk
      · rw [hk, hset]
      · rfl
    | some set => rfl
  ext t
  rw [Stripe.mem_due, hidx, pruneStripe_get]
  by_cases hh : h' = h
  · simp [hh]
  · rw [if_neg hh, GoMap.get_delete_of_ne _ hh]
    split_ifs with ht
    · -- evicted at `h`, so not spent at another height
      obtain ⟨-, hat⟩ := Stripe.mem_due.mp ht
      rw [Stripe.mem_due]
      cases hu : st.utxo.get t with
      | none => simp
      | some u =>
        simp only [hu, Option.any_some, UTXO.spentAt, Bool.and_eq_true, beq_iff_eq] at hat ⊢
        simp [hat.2, Ne.symm hh]
    · exact Stripe.mem_due.symm

/-! ### Stores -/

namespace Store

def view (s : Store) : View := ⟨s.flatten, fun i h => (s.st i).due h⟩

variable {s : Store} {op : Outpoint} {c : Call}

lemma view_update (hc : c.outpoint? = some op) {f : Stripe → Stripe}
    (hflat : (s.update op.txID f).flatten = s.flatten.apply c)
    (hf : ∀ h, (f (s.st (striperOf op.txID))).due h =
      place op ((c.cell op (s.getUTXO op)).any (·.spentAt h)) ((s.st (striperOf op.txID)).due h)) :
    (s.update op.txID f).view = s.view.apply c := by
  rw [View.apply_of_outpoint hc]
  refine View.ext hflat (funext fun i => funext fun h => ?_)
  simp only [view, update_st]
  split_ifs with hi
  · rw [hi, hf]
    rfl
  · rfl

lemma view_missing (hc : c.outpoint? = some op) (hflat : s.flatten = s.flatten.apply c)
    (hu : s.getUTXO op = none)
    (hcell : c.cell op none = none) : s.view = s.view.apply c := by
  rw [View.apply_of_outpoint hc]
  refine View.ext hflat (funext fun i => funext fun h => ?_)
  dsimp only
  split_ifs with hi
  · have hnone : (s.st i).utxo.get op = none := by rw [hi]; exact hu
    have hmem : op ∉ (s.st i).due h := by simp [Stripe.mem_due, hnone]
    have hu' : s.view.flat.utxo op = none := hu
    rw [hu', hcell]
    exact (place_false_of_notMem hmem).symm
  · rfl

variable (s op)

lemma view_putUTXO (u : UTXO) : (s.putUTXO op u).view = s.view.apply (.putUTXO op u) := by
  refine view_update rfl (flatten_putUTXO s op u) fun h => ?_
  have hcell : (Call.putUTXO op u).cell op (s.getUTXO op) = some u := if_pos rfl
  rw [hcell]
  dsimp only
  split_ifs with hsp
  · refine Stripe.due_write (fun t => ?_) (fun t h ht => ?_) (fun h hat => ?_) h
    · exact GoMap.get_set _ _ _ _
    · simp [mem_indexSpent, ht]
    · simp only [Option.any_some, UTXO.spentAt, Bool.and_eq_true, beq_iff_eq] at hat
      exact mem_indexSpent.mpr (.inl ⟨rfl, hat.2.symm⟩)
  · refine Stripe.due_write (fun t => ?_) (fun t h ht => ?_) (fun h hat => ?_) h
    · exact GoMap.get_set _ _ _ _
    · rfl
    · simp [UTXO.spentAt, hsp] at hat

lemma view_spendUTXO (spentBy : Hash) (h : UInt32) :
    (s.spendUTXO op spentBy h).2.view = s.view.apply (.spendUTXO op spentBy h) := by
  have hflat := flatten_spendUTXO s op spentBy h
  unfold spendUTXO at hflat ⊢
  cases hu : s.getUTXO op with
  | none =>
    rw [hu] at hflat
    exact view_missing rfl hflat hu (if_pos rfl)
  | some u =>
    rw [hu] at hflat
    dsimp only at hflat ⊢
    refine view_update rfl hflat fun h' => ?_
    have hcell : (Call.spendUTXO op spentBy h).cell op (s.getUTXO op) =
        some (u.spend spentBy h) := by
      simp [Call.cell, hu]
    rw [hcell]
    refine Stripe.due_write (fun t => ?_) (fun t h ht => ?_) (fun h hat => ?_) h'
    · exact GoMap.get_set _ _ _ _
    · simp [mem_indexSpent, ht]
    · simp only [Option.any_some, UTXO.spentAt, UTXO.spend, Bool.and_eq_true, beq_iff_eq] at hat
      exact mem_indexSpent.mpr (.inl ⟨rfl, hat.2.symm⟩)

lemma mem_freed (st : Stripe) (u : UTXO) {t : Outpoint} (h : UInt32) (ht : t ≠ op) :
    t ∈ ((if u.spent then deindexSpent st op u.spentHeight else st).spentIdx.get h).getD ∅ ↔
      t ∈ (st.spentIdx.get h).getD ∅ := by
  split_ifs
  · exact mem_deindexSpent ht
  · rfl

lemma view_unspendUTXO : (s.unspendUTXO op).2.view = s.view.apply (.unspendUTXO op) := by
  have hflat := flatten_unspendUTXO s op
  unfold unspendUTXO at hflat ⊢
  cases hu : s.getUTXO op with
  | none =>
    rw [hu] at hflat
    exact view_missing rfl hflat hu (if_pos rfl)
  | some u =>
    rw [hu] at hflat
    dsimp only at hflat ⊢
    refine view_update rfl hflat fun h' => ?_
    have hcell : (Call.unspendUTXO op).cell op (s.getUTXO op) = some u.unspend := by
      simp [Call.cell, hu]
    rw [hcell]
    refine Stripe.due_write (fun t => ?_) (fun t h ht => ?_) (fun h hat => ?_) h'
    · obtain ⟨idx, hidx⟩ := freed_eq (s.st (striperOf op.txID)) op u
      simp only [hidx]
      exact GoMap.get_set _ _ _ _
    · exact mem_freed op _ u h ht
    · simp [UTXO.spentAt, UTXO.unspend] at hat

lemma view_deleteUTXO : (s.deleteUTXO op).2.view = s.view.apply (.deleteUTXO op) := by
  have hflat := flatten_deleteUTXO s op
  unfold deleteUTXO at hflat ⊢
  cases hu : s.getUTXO op with
  | none =>
    rw [hu] at hflat
    exact view_missing rfl hflat hu (if_pos rfl)
  | some u =>
    rw [hu] at hflat
    dsimp only at hflat ⊢
    refine view_update rfl hflat fun h' => ?_
    have hcell : (Call.deleteUTXO op).cell op (s.getUTXO op) = none := if_pos rfl
    rw [hcell]
    refine Stripe.due_write (fun t => ?_) (fun t h ht => ?_) (fun h hat => ?_) h'
    · obtain ⟨idx, hidx⟩ := freed_eq (s.st (striperOf op.txID)) op u
      simp only [hidx]
      exact GoMap.get_delete _ _ _
    · exact mem_freed op _ u h ht
    · simp at hat

lemma view_pruneSpentAtHeight (h : UInt32) :
    (s.pruneSpentAtHeight h).2.view = s.view.apply (.pruneSpentAtHeight h) := by
  refine View.ext
    (Flat.ext (funext fun t => ?_) (funext fun op => ?_) (funext fun r => ?_) (funext fun r => ?_)
    rfl rfl) (funext fun i => funext fun h' => ?_)
  · exact congrArg (GoMap.get · t) (pruneStripe_txindex _ h)
  · exact pruneStripe_get h _ op
  · exact congrArg (GoMap.get · r) (pruneStripe_subtree _ h)
  · exact congrArg (GoMap.get · r) (pruneStripe_blocks _ h)
  · exact pruneStripe_due h (s.st i) h'

lemma view_of_utxoOnly (hc : c.utxoOnly = false) (hflat : (s.apply c).flatten = s.flatten.apply c) :
    (s.apply c).view = s.view.apply c := by
  rw [View.apply_of_utxoOnly hc]
  refine View.ext hflat (funext fun i => funext fun h => ?_)
  obtain ⟨hu, hi⟩ := apply_sameRecords s c hc i
  simp only [view, Stripe.due, hu, hi]

/-- **A write is a function of the view**, from every store. -/
theorem view_apply (c : Call) : (s.apply c).view = s.view.apply c := by
  cases c with
  | putUTXO op u => exact view_putUTXO s op u
  | spendUTXO op spentBy h => exact view_spendUTXO s op spentBy h
  | unspendUTXO op => exact view_unspendUTXO s op
  | deleteUTXO op => exact view_deleteUTXO s op
  | pruneSpentAtHeight h => exact view_pruneSpentAtHeight s h
  | putTxIndex txid ix => exact view_of_utxoOnly s rfl (flatten_putTxIndex s txid ix)
  | deleteTxIndex txid => exact view_of_utxoOnly s rfl (flatten_deleteTxIndex s txid)
  | putSubtree root leaves => exact view_of_utxoOnly s rfl (flatten_putSubtree s root leaves)
  | putBlock b => exact view_of_utxoOnly s rfl (flatten_putBlock s b)
  | putHeader height hdr => exact view_of_utxoOnly s rfl (flatten_putHeader s height hdr)
  | pruneIndexAtHeight h => exact view_of_utxoOnly s rfl (flatten_pruneIndexAtHeight s h)

theorem view_run (cs : List Call) : (s.run cs).view = s.view.run cs :=
  Trace.run_related (r := fun (s : Store) v => s.view = v) _
    (fun c _ s _ h => h ▸ view_apply s c) rfl

variable {s} {s' : Store}

lemma flatten_of_view (h : s.view = s'.view) : s.flatten = s'.flatten := congrArg View.flat h

lemma reply_of_view (h : s.view = s'.view) (c : Call) : s.reply c = s'.reply c := by
  have hflat := flatten_of_view h
  have htx : s.getTxIndex = s'.getTxIndex := congrArg Flat.txindex hflat
  have hutxo : s.getUTXO = s'.getUTXO := congrArg Flat.utxo hflat
  have hsub : s.getSubtree = s'.getSubtree := congrArg Flat.subtree hflat
  have hblk : s.getBlock = s'.getBlock := congrArg Flat.blocks hflat
  have hhdr : s.getHeader = s'.getHeader := congrArg Flat.hdr hflat
  have hdue : ∀ i h, (s.st i).due h = (s'.st i).due h :=
    fun i h' => congrArg (fun v : View => v.due i h') h
  cases c with
  | spendUTXO | unspendUTXO | deleteUTXO =>
    simp only [reply, spendUTXO_fst, unspendUTXO_fst, deleteUTXO_fst, hutxo]
  | deleteTxIndex txid => simp only [reply, deleteTxIndex_fst, htx]
  | pruneSpentAtHeight h => simp only [reply, pruneSpentAtHeight, pruneStripe_card, hdue]
  | pruneIndexAtHeight h =>
    simp only [reply, pruneIndexAtHeight_count, hflat, htx, hsub, hblk, hhdr]
  | _ => rfl

/-- Two runs that returned the same and left stores of one view. -/
def Alike {α : Type} (x y : α × Store) : Prop := x.1 = y.1 ∧ x.2.view = y.2.view

lemma serve_of_view (h : s.view = s'.view) (r : Request) :
    Alike (r.serve.run.run s) (r.serve.run.run s') := by
  have hget : ∀ g : Flat → Answer, (.ok (g s.flatten) : Except StoreError Answer) =
    .ok (g s'.flatten) :=
    fun g => by rw [flatten_of_view h]
  cases r with
  | write c =>
    rw [serve_write, serve_write, reply_of_view h]
    exact ⟨rfl, by rw [view_apply, view_apply, h]⟩
  | getTxIndex txid => exact ⟨hget fun f => .txIndex (f.txindex txid), h⟩
  | getUTXO op => exact ⟨hget fun f => .utxo (f.utxo op), h⟩
  | getSubtree root => exact ⟨hget fun f => .subtree (f.subtree root), h⟩
  | getBlock hash => exact ⟨hget fun f => .block (f.blocks hash), h⟩
  | getHeader height => exact ⟨hget fun f => .header (f.hdr height), h⟩

/-- **Nothing but the view can be seen**: stores of one view answer every list of requests alike. -/
theorem answers_of_view (h : s.view = s'.view) (rs : List Request) :
    answers rs s = answers rs s' := by
  induction rs generalizing s s' with
  | nil => rfl
  | cons r rs ih =>
    obtain ⟨hans, hview⟩ := serve_of_view h r
    rw [answers_cons, answers_cons, hans, ih hview]

end Store

end Mem

end MemServe
