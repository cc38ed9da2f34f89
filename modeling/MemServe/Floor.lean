import MemServe.Cells
import MemServe.Sweeps

/-!
No spend is pruned that a tolerated reorg could still roll back, as long as the prune depth fits
32 bits.

A sweep takes the bands that are at least as deep as the prune depth, whatever the tips before were.
The depth is the sum of the horizon and the window; where that wraps, it is less than the horizon,
and spends inside the horizon are pruned from the first block on.
-/

namespace MemServe.Prune

section Backend

variable {σ : Type} [Store σ]

/-- What the prune calls of a backend may do to the records that `utxo` reads, whether they succeed
or not: a record is removed only if it was spent at the height. -/
structure Respects (utxo : σ → Outpoint → Option UTXO) : Prop where
  spent : ∀ s h op u, utxo s op = some u →
    utxo (Store.pruneSpentAtHeight h s).2 op = some u ∨ u.spentAt h = true ∧
      utxo (Store.pruneSpentAtHeight h s).2 op = none
  index : ∀ s h op, utxo (Store.pruneIndexAtHeight h s).2 op = utxo s op

variable {utxo : σ → Outpoint → Option UTXO}

lemma Respects.sweepLoop_removed (hr : Respects utxo) {hs : List UInt32} {n : ℕ} {s : σ}
    {op : Outpoint} {u : UTXO} (h : utxo s op = some u)
    (hgone : utxo (sweepLoop Store.pruneSpentAtHeight hs n s).2 op = none) :
    ∃ a ∈ hs, u.spentAt a = true := by
  induction hs generalizing n s with
  | nil =>
    rw [sweepLoop, h] at hgone
    cases hgone
  | cons a hs ih =>
    rcases hr.spent s a op u h with hkeep | ⟨hspent, -⟩
    · rw [sweepLoop] at hgone
      cases hcall : Store.pruneSpentAtHeight a s with
      | mk r s' =>
        rw [hcall] at hgone hkeep
        cases r with
        | error e =>
          dsimp only at hgone hkeep
          rw [hkeep] at hgone
          cases hgone
        | ok m =>
          obtain ⟨b, hb, hspent⟩ := ih hkeep hgone
          exact ⟨b, List.mem_cons_of_mem a hb, hspent⟩
    · exact ⟨a, List.mem_cons_self, hspent⟩

lemma Respects.sweepLoop_index (hr : Respects utxo) (hs : List UInt32) (n : ℕ) (s : σ)
    (op : Outpoint) :
    utxo (sweepLoop Store.pruneIndexAtHeight hs n s).2 op = utxo s op := by
  induction hs generalizing n s with
  | nil => rfl
  | cons a hs ih =>
    have hsame := hr.index s a op
    rw [sweepLoop]
    cases hcall : Store.pruneIndexAtHeight a s with
    | mk r s' =>
      rw [hcall] at hsame
      cases r with
      | error e => exact hsame
      | ok m => exact (ih _ _).trans hsame

/-- **What `OnNewBlock` removes** was spent in a band of the spend sweep. -/
lemma Respects.onNewBlock_removed (hr : Respects utxo) {pr : Pruner} {tip : UInt32} {s : σ}
    {op : Outpoint} {u : UTXO} (h : utxo s op = some u)
    (hgone : utxo (onNewBlock pr tip s).2.2 op = none) :
    ∃ a ∈ bands pr.lastTip pr.hasTip tip pr.policy.d, u.spentAt a = true := by
  unfold onNewBlock sweep at hgone
  have hloop :=
    @Respects.sweepLoop_removed _ _ utxo hr (bands pr.lastTip pr.hasTip tip pr.policy.d) 0 s op u h
  cases hsweep : sweepLoop Store.pruneSpentAtHeight
      (bands pr.lastTip pr.hasTip tip pr.policy.d) 0 s with
  | mk r s' =>
    rw [hsweep] at hgone hloop
    obtain ⟨n, err⟩ := r
    cases err with
    | some e => exact hloop hgone
    | none =>
      dsimp only at hgone
      split_ifs at hgone with hret
      · refine hloop ?_
        rwa [hr.sweepLoop_index] at hgone
      · exact hloop hgone

/-- The pruner after calls of `OnNewBlock`, each with the store it found. -/
def after (p : Policy) (calls : List (UInt32 × σ)) : Pruner :=
  calls.foldl (fun pr c => (onNewBlock pr c.1 c.2).2.1) (new p)

lemma after_policy (p : Policy) (calls : List (UInt32 × σ)) : (after p calls).policy = p := by
  induction calls using List.reverseRecOn with
  | nil => rfl
  | append_singleton calls c ih =>
    rw [after, List.foldl_append]
    exact (onNewBlock_pruner _ c.1 c.2).1.trans ih

end Backend

lemma pruneStripe_get (h : UInt32) (st : Mem.Stripe) (op : Outpoint) :
    (Mem.Store.pruneStripe h st).2.utxo.get op = st.utxo.get op ∨
      (st.utxo.get op).any (·.spentAt h) = true ∧
        (Mem.Store.pruneStripe h st).2.utxo.get op = none := by
  unfold Mem.Store.pruneStripe
  cases st.spentIdx.get h with
  | none => exact .inl rfl
  | some set =>
    dsimp only
    rw [GoMap.get_deleteRange]
    split_ifs with hgone
    · exact .inr ⟨hgone.2, rfl⟩
    · exact .inl rfl

lemma respects_mem : Respects Mem.Store.getUTXO where
  spent s h op u hu := by
    change (s.st (Mem.striperOf op.txID)).utxo.get op = some u at hu
    have hget := pruneStripe_get h (s.st (Mem.striperOf op.txID)) op
    rw [hu, Option.any_some] at hget
    exact hget
  index s h op := by
    have hsame := (Mem.Store.SameRecords.pruneIndexAtHeight s h (Mem.striperOf op.txID)).1
    exact congrArg (GoMap.get · op) hsame

lemma Respects.faulty {σ : Type} [Store σ] {utxo : σ → Outpoint → Option UTXO}
    (hr : Respects utxo) :
    Respects fun s : Faulty σ => utxo s.base where
  spent s h op u hu := by
    obtain ⟨base, - | ⟨- | e, fs⟩⟩ := s
    · exact hr.spent base h op u hu
    · exact hr.spent base h op u hu
    · exact .inl hu
  index s h op := by
    obtain ⟨base, - | ⟨- | e, fs⟩⟩ := s
    · exact hr.index base h op
    · exact hr.index base h op
    · rfl

/-! ### The floor -/

/-- The spend is at or below the tip, and buried deeper than the reorg horizon, counted in
blocks. -/
def Buried (p : Policy) (tip : UInt32) (u : UTXO) : Prop :=
  u.spent = true ∧ u.spentHeight ≤ tip ∧ (p.reorgHorizon.toNat : ℤ) <
    tip.toNat - u.spentHeight.toNat + 1

/-- Every record that any call of `OnNewBlock` removes is buried, in any run over the in-memory
store and with any of its calls failing. -/
def Policy.KeepsFloor (p : Policy) : Prop :=
  ∀ (calls : List (UInt32 × Faulty Mem.Store)) (tip : UInt32) (s : Faulty Mem.Store) (op : Outpoint)
    (u : UTXO),
    s.base.getUTXO op = some u → (onNewBlock (after p calls) tip s).2.2.base.getUTXO op = none →
      Buried p tip u

lemma keepsFloor_of_fits {p : Policy} (hD : p.reorgHorizon.toNat + p.recencyWindow.toNat < 2 ^ 32) :
    p.KeepsFloor := by
  intro calls tip s op u hu hgone
  obtain ⟨a, ha, hspent⟩ := respects_mem.faulty.onNewBlock_removed hu hgone
  rw [after_policy] at ha
  have hdeep := add_le_of_mem_bands ha
  have hd := d_toNat hD
  rw [UTXO.spentAt, Bool.and_eq_true, beq_iff_eq] at hspent
  obtain ⟨hs, rfl⟩ := hspent
  refine ⟨hs, UInt32.le_iff_toNat_le.mpr (by omega), by omega⟩

def spentFirst : UTXO := { value := 1, scriptHash := default, spent := true }

def someOutpoint : Outpoint := ⟨default, 0⟩

lemma sweepLoop_faultless {σ : Type} [Store σ] (b : Band) (hs : List UInt32) (n : ℕ) (s : σ) :
    sweepLoop (pruneBand b) hs n (⟨s, []⟩ : Faulty σ) =
      ((sweepLoop (pruneBand b) hs n s).1, ⟨(sweepLoop (pruneBand b) hs n s).2, []⟩) := by
  induction hs generalizing n s with
  | nil => rfl
  | cons a hs ih =>
    have hcall : pruneBand b a (⟨s, []⟩ : Faulty σ) =
      ((pruneBand b a s).1, ⟨(pruneBand b a s).2, []⟩) := by cases b <;> rfl
    simp only [sweepLoop, hcall]
    cases pruneBand b a s with
    | mk r s' =>
      cases r with
      | error e => rfl
      | ok m => exact ih _ _

lemma onNewBlock_faultless {σ : Type} [Store σ] (pr : Pruner) (tip : UInt32) (s : σ) :
    (onNewBlock pr tip (⟨s, []⟩ : Faulty σ)).2.2.base = (onNewBlock pr tip s).2.2 := by
  have hspend := sweepLoop_faultless .spend (bands pr.lastTip pr.hasTip tip pr.policy.d) 0 s
  simp only [pruneBand] at hspend
  unfold onNewBlock sweep
  rw [hspend]
  cases sweepLoop Store.pruneSpentAtHeight (bands pr.lastTip pr.hasTip tip pr.policy.d) 0 s with
  | mk r s' =>
    obtain ⟨n, err⟩ := r
    cases err with
    | some e => rfl
    | none =>
      have hindex :=
        sweepLoop_faultless .index (bands pr.lastTip pr.hasTip tip pr.policy.indexRetention) 0 s'
      simp only [pruneBand] at hindex
      dsimp only
      rw [hindex]
      split_ifs <;> rfl

lemma getUTXO_putUTXO (op : Outpoint) (u : UTXO) : (Mem.new.putUTXO op u).getUTXO op = some u := by
  change (Mem.new.putUTXO op u).flatten.utxo op = some u
  rw [Mem.Store.flatten_putUTXO, Flat.apply_utxo]
  exact if_pos rfl

lemma prunes_spentFirst (p : Policy) (op : Outpoint) :
    (onNewBlock (new p) p.d (Mem.new.putUTXO op spentFirst)).2.2.getUTXO op = none := by
  have hidx : (Mem.new.putUTXO op spentFirst).Indexed := Mem.Store.new_indexed.putUTXO op spentFirst
  have hrec : (Mem.new.putUTXO op spentFirst).flatten.utxo op = some spentFirst :=
    getUTXO_putUTXO op spentFirst
  have hband : spentFirst.spentHeight ∈ bands (new p).lastTip (new p).hasTip p.d (new p).policy.d :=
    mem_bands_first.mpr (Nat.zero_add _)
  obtain ⟨n, t, hrun⟩ := Ingest.onNewBlock_mem (new p) p.d (Mem.new.putUTXO op spentFirst)
  rw [hrun]
  change ((Mem.new.putUTXO op spentFirst).run _).flatten.utxo op = none
  rw [Mem.Store.flatten_run hidx, Flat.run_utxo, hrec, cells_pruneCalls, evict]
  refine Option.filter_eq_none_iff.mpr fun u hu => ?_
  obtain rfl := Option.some.inj hu
  rw [decide_eq_true hband]
  exact Bool.false_ne_true

/-- **The floor holds for a policy exactly if its prune depth does not wrap.** -/
theorem keepsFloor_iff (p : Policy) :
    p.KeepsFloor ↔ p.reorgHorizon.toNat + p.recencyWindow.toNat < 2 ^ 32 := by
  refine ⟨fun hkeep => ?_, keepsFloor_of_fits⟩
  by_contra hwrap
  have hr := p.reorgHorizon.toNat_lt
  have hw := p.recencyWindow.toNat_lt
  have hd : p.d.toNat = p.reorgHorizon.toNat + p.recencyWindow.toNat - 2 ^ 32 := by
    rw [Policy.d, UInt32.toNat_add]
    omega
  have hgone : (onNewBlock (new p) p.d
      (⟨Mem.new.putUTXO someOutpoint spentFirst, []⟩ : Faulty Mem.Store)).2.2.base.getUTXO
          someOutpoint = none := by
    rw [onNewBlock_faultless]
    exact prunes_spentFirst p someOutpoint
  have hdeep := (hkeep [] p.d ⟨Mem.new.putUTXO someOutpoint spentFirst, []⟩ someOutpoint spentFirst
    (getUTXO_putUTXO someOutpoint spentFirst) hgone).2.2
  change (p.reorgHorizon.toNat : ℤ) < p.d.toNat - 0 + 1 at hdeep
  omega

/-- A horizon of `2 ^ 32 - 1` blocks with a window of one: the prune depth wraps to zero. -/
def boundless : Policy := { reorgHorizon := 0xFFFFFFFF, recencyWindow := 1 }

/-- Under that policy the record is pruned by the very block that spends it. -/
theorem floor_lost :
    boundless.d = 0 ∧
    (Mem.new.putUTXO someOutpoint spentFirst).getUTXO someOutpoint = some spentFirst ∧
    (onNewBlock (new boundless) 0 (Mem.new.putUTXO someOutpoint spentFirst)).2.2.getUTXO
      someOutpoint = none ∧
    ¬ Buried boundless 0 spentFirst := by
  refine ⟨rfl, getUTXO_putUTXO _ _, prunes_spentFirst boundless someOutpoint, ?_⟩
  rintro ⟨-, -, hdeep⟩
  exact absurd hdeep (by decide)

end MemServe.Prune
