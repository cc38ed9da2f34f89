import MemServe.Faults

/-!
Sweeps over a backend that may fail.

A sweep stops at the first store call that fails, and the tip of the sweep is recorded before
it starts. The next sweep begins where this one should have ended, so the bands it left are
not taken up again: every band is swept exactly if no sweep has failed.
-/

namespace MemServe

/-- A prune call that was made, and whether it succeeded. -/
structure Event where
  band : Band
  height : UInt32
  ok : Bool
  deriving DecidableEq

/-- A backend with a log of its prune calls. -/
structure Watched (σ : Type) where
  base : σ
  log : List Event := []

def Watched.lift {σ α : Type} (m : StoreM σ α) : StoreM (Watched σ) α := fun w =>
  ((m w.base).1, { w with base := (m w.base).2 })

/-- Notes the outcome of a prune call. -/
def Watched.note {σ : Type} (b : Band) (h : UInt32) (m : StoreM (Watched σ) ℕ) :
    StoreM (Watched σ) ℕ :=
  fun w => ((m w).1, { (m w).2 with log := (m w).2.log ++ [⟨b, h, (m w).1.isOk⟩] })

instance {σ : Type} [Store σ] : Store (Watched σ) := .lifted Watched.lift Watched.note

namespace Prune

/-- The depth at which bands are due. -/
def Policy.depth (p : Policy) (b : Band) : UInt32 :=
  match b with
  | .spend => p.d
  | .index => p.indexRetention

def pruneBand {σ : Type} [Store σ] (b : Band) : UInt32 → StoreM σ ℕ :=
  match b with
  | .spend => Store.pruneSpentAtHeight
  | .index => Store.pruneIndexAtHeight

/-- What a sweep over these bands logs: every band, or those before the first failure and the
failure. -/
def Logs (b : Band) (hs : List UInt32) (evs : List Event) (err : Option StoreError) : Prop :=
  (err = none ∧ evs = hs.map (⟨b, ·, true⟩)) ∨
    ∃ pre h post e, err = some e ∧ hs = pre ++ h :: post ∧
      evs = pre.map (⟨b, ·, true⟩) ++ [⟨b, h, false⟩]

variable {σ : Type} [Store σ]

lemma pruneBand_watched (b : Band) (h : UInt32) (w : Watched σ) :
    pruneBand b h w = ((pruneBand b h w.base).1,
      { base := (pruneBand b h w.base).2
        log := w.log ++ [⟨b, h, (pruneBand b h w.base).1.isOk⟩] }) := by
  cases b <;> rfl

lemma sweepLoop_watched (b : Band) (hs : List UInt32) (n : ℕ) (w : Watched σ) :
    ∃ evs, sweepLoop (pruneBand b) hs n w =
        ((sweepLoop (pruneBand b) hs n w.base).1,
          { base := (sweepLoop (pruneBand b) hs n w.base).2, log := w.log ++ evs }) ∧
      Logs b hs evs (sweepLoop (pruneBand b) hs n w.base).1.2 := by
  induction hs generalizing n w with
  | nil => exact ⟨[], by simp [sweepLoop], .inl ⟨rfl, rfl⟩⟩
  | cons h hs ih =>
    simp only [sweepLoop, pruneBand_watched b h w]
    rcases hr : pruneBand b h w.base with ⟨_ | k, s'⟩
    · next e => exact ⟨[⟨b, h, false⟩], rfl, .inr ⟨[], h, hs, e, rfl, rfl, rfl⟩⟩
    · obtain ⟨evs, heq, hlogs⟩ := ih (n + k) { base := s', log := w.log ++ [⟨b, h, true⟩] }
      refine ⟨⟨b, h, true⟩ :: evs, ?_, ?_⟩
      · simpa [Except.isOk, Except.toBool] using heq
      · rcases hlogs with ⟨herr, rfl⟩ | ⟨pre, h', post, e, herr, rfl, rfl⟩
        · exact .inl ⟨herr, rfl⟩
        · exact .inr ⟨h :: pre, h', post, e, herr, rfl, rfl⟩

/-- A call of `OnNewBlock`: the tip it found recorded, its own tip, the prune calls it made and its
error. -/
structure Turn where
  prevTip : UInt32
  hadTip : Bool
  tip : UInt32
  events : List Event
  err : Option StoreError
  deriving DecidableEq

def Turn.due (p : Policy) (b : Band) (t : Turn) : List UInt32 :=
  if b = .index ∧ p.indexRetention = 0 then [] else bands t.prevTip t.hadTip t.tip (p.depth b)

/-- The band was swept by a store call that succeeded. -/
def Turn.Swept (b : Band) (h : UInt32) (t : Turn) : Prop := ⟨b, h, true⟩ ∈ t.events

/-- Some store call of the turn failed. -/
def Turn.Failed (t : Turn) : Prop := ∃ e ∈ t.events, e.ok = false

/-- The turn that a new tip makes. -/
def turn (pr : Pruner) (tip : UInt32) (s : σ) : Turn where
  prevTip := pr.lastTip
  hadTip := pr.hasTip
  tip := tip
  events := (onNewBlock pr tip ({ base := s } : Watched σ)).2.2.log
  err := (onNewBlock pr tip s).1.2

/-- The turns of a sequence of tips. -/
def turns (pr : Pruner) : List UInt32 → σ → List Turn
  | [], _ => []
  | t :: ts, s => turn pr t s :: turns (onNewBlock pr t s).2.1 ts (onNewBlock pr t s).2.2

lemma onNewBlock_pruner (pr : Pruner) (tip : UInt32) (s : σ) :
    (onNewBlock pr tip s).2.1.policy = pr.policy ∧ (onNewBlock pr tip s).2.1.lastTip = tip ∧
      (onNewBlock pr tip s).2.1.hasTip = true := by
  unfold onNewBlock
  dsimp only
  split
  · exact ⟨rfl, rfl, rfl⟩
  · split_ifs
    · exact ⟨rfl, rfl, rfl⟩
    · exact ⟨rfl, rfl, rfl⟩

lemma turn_cases (pr : Pruner) (tip : UInt32) (s : σ) :
    ∃ spends err, Logs .spend ((turn pr tip s).due pr.policy .spend) spends err ∧
      ((err ≠ none ∧ (turn pr tip s).err = err ∧ (turn pr tip s).events = spends) ∨
        err = none ∧ ∃ idx, Logs .index ((turn pr tip s).due pr.policy .index) idx
          (turn pr tip s).err ∧
          (turn pr tip s).events = spends ++ idx) := by
  obtain ⟨spends, hspends, hlogs⟩ :=
    sweepLoop_watched (σ := σ) .spend (bands pr.lastTip pr.hasTip tip pr.policy.d) 0 { base := s }
  rcases hr : sweepLoop (pruneBand .spend) (bands pr.lastTip pr.hasTip tip pr.policy.d) 0 s with
    ⟨⟨n, err⟩, s1⟩
  rw [hr] at hspends hlogs
  refine ⟨spends, err, hlogs, ?_⟩
  have hsweep : sweep pr.lastTip pr.hasTip tip pr.policy.d Store.pruneSpentAtHeight s =
    ((n, err), s1) := hr
  have hsweep' : sweep pr.lastTip pr.hasTip tip pr.policy.d Store.pruneSpentAtHeight
      ({ base := s } : Watched σ) =
      ((n, err), { base := s1, log := spends }) := hspends
  cases err with
  | some e =>
    refine .inl ⟨nofun, ?_, ?_⟩
    · simp only [turn, onNewBlock, hsweep]
    · simp only [turn, onNewBlock, hsweep']
  | none =>
    refine .inr ⟨rfl, ?_⟩
    by_cases hR : 0 < pr.policy.indexRetention
    · obtain ⟨idx, hidx, hlogs'⟩ := sweepLoop_watched (σ := σ) .index
        (bands pr.lastTip pr.hasTip tip pr.policy.indexRetention) 0 { base := s1, log := spends }
      have hdue : (turn pr tip s).due pr.policy .index =
          bands pr.lastTip pr.hasTip tip pr.policy.indexRetention := by
        have hne : pr.policy.indexRetention ≠ 0 := by
          rintro h0
          rw [h0] at hR
          exact absurd hR (by decide)
        rw [Turn.due, if_neg fun hc => hne hc.2]
        rfl
      refine ⟨idx, ?_, ?_⟩
      · rw [hdue]
        convert hlogs' using 1
        simp only [turn, onNewBlock, hsweep, if_pos hR]
        rfl
      · have hi : sweep pr.lastTip pr.hasTip tip pr.policy.indexRetention Store.pruneIndexAtHeight
            ({ base := s1, log := spends } : Watched σ) = _ := hidx
        simp only [turn, onNewBlock, hsweep', if_pos hR, hi]
    · have h0 : pr.policy.indexRetention = 0 := by
        rw [UInt32.lt_iff_toNat_lt] at hR
        exact UInt32.toNat_inj.mp (Nat.eq_zero_of_not_pos hR)
      refine ⟨[], .inl ⟨?_, ?_⟩, ?_⟩
      · simp only [turn, onNewBlock, hsweep, if_neg hR]
      · rw [Turn.due, if_pos ⟨rfl, h0⟩]
        rfl
      · simp only [turn, onNewBlock, hsweep', if_neg hR, List.append_nil]

lemma heights_nodup (start target : UInt32) : (heights start target).Nodup := by
  have ht := target.toNat_lt
  refine List.Nodup.map_on ?_ (List.nodup_range' 1)
  intro a ha b hb hab
  have ha' := List.mem_range'_1.mp ha
  have hb' := List.mem_range'_1.mp hb
  have := congrArg UInt32.toNat hab
  by_cases hle : start.toNat ≤ target.toNat
  · rwa [UInt32.toNat_ofNat_of_lt' (by change a < 2 ^ 32; omega),
      UInt32.toNat_ofNat_of_lt' (by change b < 2 ^ 32; omega)] at this
  · omega

lemma bands_nodup (prev tip d : UInt32) (hadTip : Bool) : (bands prev hadTip tip d).Nodup := by
  unfold bands
  split
  · exact List.nodup_nil
  · dsimp only
    generalize (if (!hadTip) = true then tip - d else if d ≤ prev then prev - d + 1 else 0) = start
    split
    · exact List.nodup_nil
    · exact heights_nodup start (tip - d)

lemma due_nodup (p : Policy) (b : Band) (t : Turn) : (t.due p b).Nodup := by
  unfold Turn.due
  split_ifs
  · exact List.nodup_nil
  · exact bands_nodup _ _ _ _

namespace Logs

variable {b c : Band} {hs : List UInt32} {evs : List Event} {err : Option StoreError} {h : UInt32}

lemma band_eq (hl : Logs b hs evs err) {e : Event} (he : e ∈ evs) : e.band = b := by
  rcases hl with ⟨-, rfl⟩ | ⟨pre, x, post, -, -, -, rfl⟩
  · obtain ⟨x, -, rfl⟩ := List.mem_map.mp he
    rfl
  · rcases List.mem_append.mp he with he | he
    · obtain ⟨y, -, rfl⟩ := List.mem_map.mp he
      rfl
    · rw [List.mem_singleton.mp he]

lemma due (hl : Logs b hs evs err) (he : ⟨b, h, true⟩ ∈ evs) : h ∈ hs := by
  rcases hl with ⟨-, rfl⟩ | ⟨pre, x, post, -, -, rfl, rfl⟩
  · obtain ⟨y, hy, heq⟩ := List.mem_map.mp he
    cases heq
    exact hy
  · rcases List.mem_append.mp he with he | he
    · obtain ⟨y, hy, heq⟩ := List.mem_map.mp he
      cases heq
      exact List.mem_append_left _ hy
    · cases List.mem_singleton.mp he

lemma swept (hl : Logs b hs evs none) (hh : h ∈ hs) : ⟨b, h, true⟩ ∈ evs := by
  rcases hl with ⟨-, rfl⟩ | ⟨pre, x, post, e, he, -⟩
  · exact List.mem_map_of_mem hh
  · exact nomatch he

lemma ok (hl : Logs b hs evs none) : ∀ e ∈ evs, e.ok = true := by
  rcases hl with ⟨-, rfl⟩ | ⟨pre, x, post, e, he, -⟩
  · intro e he
    obtain ⟨y, -, rfl⟩ := List.mem_map.mp he
    rfl
  · exact nomatch he

lemma failed (hl : Logs b hs evs err) (herr : err ≠ none) (hnd : hs.Nodup) :
    (∃ e ∈ evs, e.ok = false) ∧ ∃ h ∈ hs, ⟨b, h, true⟩ ∉ evs := by
  rcases hl with ⟨h, -⟩ | ⟨pre, x, post, e, -, rfl, rfl⟩
  · exact absurd h herr
  · refine ⟨⟨_, List.mem_append_right _ (List.mem_singleton_self _), rfl⟩, x, by simp,
      fun hmem => ?_⟩
    rcases List.mem_append.mp hmem with hmem | hmem
    · obtain ⟨y, hy, heq⟩ := List.mem_map.mp hmem
      cases heq
      exact (List.nodup_middle.mp hnd).notMem (List.mem_append_left _ hy)
    · cases List.mem_singleton.mp hmem

end Logs

/-- What a turn does with the bands that are due in it. -/
structure Turn.Regular (p : Policy) (t : Turn) : Prop where
  due : ∀ b h, t.Swept b h → h ∈ t.due p b
  all : t.err = none → ∀ b, ∀ h ∈ t.due p b, t.Swept b h
  ok : t.err = none → ¬t.Failed
  failed : t.err ≠ none → t.Failed
  left : t.err ≠ none → (∃ h ∈ t.due p .spend, ¬t.Swept .spend h) ∨
    ∃ h ∈ t.due p .index, ¬t.Swept .index h
  left_index : t.err ≠ none → t.due p .index ≠ [] → ∃ h ∈ t.due p .index, ¬t.Swept .index h

lemma turn_regular (pr : Pruner) (tip : UInt32) (s : σ) : (turn pr tip s).Regular pr.policy := by
  obtain ⟨spends, err, hspends, ⟨herr, hterr, hevs⟩ | ⟨rfl, idx, hidx, hevs⟩⟩ := turn_cases pr tip s
  · have hne : (turn pr tip s).err ≠ none := by rwa [hterr]
    obtain ⟨hfailed, hleft⟩ := hspends.failed herr (due_nodup _ _ _)
    have hnoIndex : ∀ h, ¬(turn pr tip s).Swept .index h := by
      intro h hmem
      rw [Turn.Swept, hevs] at hmem
      exact nomatch hspends.band_eq hmem
    refine ⟨fun b h hsw => ?_, fun h => absurd h hne,
      fun h => absurd h hne, fun _ => ?_, fun _ => ?_, fun _ hdue => ?_⟩
    · cases b with
      | spend =>
        rw [Turn.Swept, hevs] at hsw
        exact hspends.due hsw
      | index => exact absurd hsw (hnoIndex h)
    · rw [Turn.Failed, hevs]
      exact hfailed
    · refine .inl ?_
      simp only [Turn.Swept, hevs]
      exact hleft
    · obtain ⟨h, hh⟩ := List.exists_mem_of_ne_nil _ hdue
      exact ⟨h, hh, hnoIndex h⟩
  · have hsw : ∀ b h, (turn pr tip s).Swept b h ↔ ⟨b, h, true⟩ ∈ spends ∨ ⟨b, h, true⟩ ∈ idx := by
      intro b h
      rw [Turn.Swept, hevs, List.mem_append]
    have hindex : ∀ h, (turn pr tip s).Swept .index h → ⟨.index, h, true⟩ ∈ idx := by
      intro h hmem
      rcases (hsw _ h).mp hmem with hmem | hmem
      · exact nomatch hspends.band_eq hmem
      · exact hmem
    have hleft : (turn pr tip s).err ≠ none → ∃ h ∈ (turn pr tip s).due pr.policy .index,
        ¬(turn pr tip s).Swept .index h := by
      intro hne
      obtain ⟨h, hh, hmem⟩ := (hidx.failed hne (due_nodup _ _ _)).2
      exact ⟨h, hh, fun hs => hmem (hindex h hs)⟩
    refine ⟨fun b h hmem => ?_, fun hnone b h hh => ?_,
      fun hnone => ?_, fun hne => ?_, fun hne => .inr (hleft hne),
      fun hne _ => hleft hne⟩
    · cases b with
      | spend =>
        rcases (hsw _ h).mp hmem with hmem | hmem
        · exact hspends.due hmem
        · exact nomatch hidx.band_eq hmem
      | index => exact hidx.due (hindex h hmem)
    · rw [hnone] at hidx
      rw [hsw]
      cases b with
      | spend => exact .inl (hspends.swept hh)
      | index => exact .inr (hidx.swept hh)
    · rw [hnone] at hidx
      rintro ⟨e, he, hok⟩
      rw [hevs] at he
      rcases List.mem_append.mp he with he | he
      · exact absurd (hspends.ok e he) (by simp [hok])
      · exact absurd (hidx.ok e he) (by simp [hok])
    · obtain ⟨e, he, hok⟩ := (hidx.failed hne (due_nodup _ _ _)).1
      refine ⟨e, ?_, hok⟩
      rw [hevs]
      exact List.mem_append_right _ he

/-! ### Runs of turns -/

/-- The turns follow each other: each finds the tip of the one before it, and no tip is below
that. -/
def Chained (hadTip : Bool) (prev : UInt32) : List Turn → Prop
  | [] => True
  | t :: ts =>
    t.hadTip = hadTip ∧ t.prevTip = prev ∧ (hadTip = true → prev ≤ t.tip) ∧ Chained true t.tip ts

lemma Chained.append_left {hadTip : Bool} {prev : UInt32} {ts us : List Turn}
    (h : Chained hadTip prev (ts ++ us)) :
    Chained hadTip prev ts := by
  induction ts generalizing hadTip prev with
  | nil => trivial
  | cons t ts ih => exact ⟨h.1, h.2.1, h.2.2.1, ih h.2.2.2⟩

lemma Chained.prevTip_le {prev : UInt32} {ts : List Turn} (h : Chained true prev ts) {u : Turn}
    (hu : u ∈ ts) :
    u.hadTip = true ∧ prev ≤ u.prevTip ∧ u.prevTip ≤ u.tip := by
  induction ts generalizing prev with
  | nil => simp at hu
  | cons t ts ih =>
    obtain ⟨hhad, hprev, hle, hts⟩ := h
    rcases List.mem_cons.mp hu with rfl | hu
    · exact ⟨hhad, hprev ▸ UInt32.le_refl _, hprev ▸ hle rfl⟩
    · obtain ⟨h1, h2, h3⟩ := ih hts hu
      exact ⟨h1, UInt32.le_trans (hle rfl) h2, h3⟩

lemma Chained.pairwise {hadTip : Bool} {prev : UInt32} {ts : List Turn}
    (h : Chained hadTip prev ts) :
    ts.Pairwise fun u v => v.hadTip = true ∧ u.tip ≤ v.prevTip := by
  induction ts generalizing hadTip prev with
  | nil => exact List.Pairwise.nil
  | cons t ts ih =>
    refine List.Pairwise.cons (fun v hv => ?_) (ih h.2.2.2)
    obtain ⟨h1, h2, -⟩ := h.2.2.2.prevTip_le hv
    exact ⟨h1, h2⟩

lemma Chained.passed {prev : UInt32} {ts : List Turn} (h : Chained true prev ts) {v : Turn}
    (hv : v ∈ ts) {x : ℕ} (hlo : prev.toNat < x) (hhi : x ≤ v.tip.toNat) :
    ∃ u ∈ ts, u.hadTip = true ∧ u.prevTip.toNat < x ∧ x ≤ u.tip.toNat := by
  induction ts generalizing prev with
  | nil => simp at hv
  | cons t ts ih =>
    obtain ⟨hhad, hprev, -, hts⟩ := h
    by_cases hx : x ≤ t.tip.toNat
    · exact ⟨t, List.mem_cons_self, hhad, hprev ▸ hlo, hx⟩
    · rcases List.mem_cons.mp hv with rfl | hv
      · exact absurd hhi hx
      · obtain ⟨u, hu, hrest⟩ := ih hts hv (by omega)
        exact ⟨u, List.mem_cons_of_mem t hu, hrest⟩

lemma turns_chained (pr : Pruner) (tips : List UInt32) (s : σ) (hsorted : tips.Pairwise (· ≤ ·))
    (hle : pr.hasTip = true → ∀ t ∈ tips, pr.lastTip ≤ t) :
    Chained pr.hasTip pr.lastTip (turns pr tips s) := by
  induction tips generalizing pr s with
  | nil => trivial
  | cons t ts ih =>
    obtain ⟨-, hlast, hhas⟩ := onNewBlock_pruner pr t s
    obtain ⟨ht, hts⟩ := List.pairwise_cons.mp hsorted
    refine ⟨rfl, rfl, fun h => hle h t List.mem_cons_self, ?_⟩
    have hrest := ih (onNewBlock pr t s).2.1 (onNewBlock pr t s).2.2 hts fun _ u hu => by
      rw [hlast]; exact ht u hu
    rwa [hlast, hhas] at hrest

lemma turns_regular (pr : Pruner) (tips : List UInt32) (s : σ) :
    ∀ t ∈ turns pr tips s, t.Regular pr.policy := by
  induction tips generalizing pr s with
  | nil => simp [turns]
  | cons t ts ih =>
    intro u hu
    rcases List.mem_cons.mp hu with rfl | hu
    · exact turn_regular pr t s
    · have := ih _ _ u hu
      rwa [(onNewBlock_pruner pr t s).1] at this

/-! ### Coverage -/

/-- A depth as the policy gives it. -/
def Policy.depthNat (p : Policy) (b : Band) : ℕ :=
  match b with
  | .spend => p.reorgHorizon.toNat + p.recencyWindow.toNat
  | .index => p.indexRetention.toNat

/-- Bands of this kind are evicted at all. -/
def Policy.Evicts (p : Policy) (b : Band) : Prop := b = .index → 0 < p.indexRetention

/-- Every band that became due from tip `first` to tip `last` was swept by a store call that
succeeded, made at a tip at which the band was due. -/
def Covered (p : Policy) (first last : UInt32) (ts : List Turn) : Prop :=
  ∀ b, p.Evicts b → ∀ h : UInt32, first.toNat - p.depthNat b ≤ h.toNat →
    h.toNat + p.depthNat b ≤ last.toNat →
    ∃ t ∈ ts, t.Swept b h ∧ h.toNat + p.depthNat b ≤ t.tip.toNat

/-- The failed turn left nothing behind that matters at the end: nothing of the index was due in it,
and the spends are swept once more, from 0, since the depth is 0 and the last tip there is came
twice. -/
def Excused (p : Policy) (last t : Turn) : Prop :=
  p.depthNat .spend = 0 ∧ last.prevTip.toNat = 2 ^ 32 - 1 ∧ t.due p .index = []

section Coverage

variable {p : Policy} {b : Band} {h : UInt32} {t u : Turn}

lemma depth_toNat (hD : p.reorgHorizon.toNat + p.recencyWindow.toNat < 2 ^ 32) (b : Band) :
    (p.depth b).toNat = p.depthNat b := by
  cases b with
  | spend => exact d_toNat hD
  | index => rfl

lemma due_eq (hb : p.Evicts b) (t : Turn) :
    t.due p b = bands t.prevTip t.hadTip t.tip (p.depth b) := by
  refine if_neg ?_
  rintro ⟨rfl, h0⟩
  have := hb rfl
  rw [h0] at this
  exact absurd this (by decide)

lemma evicts_of_mem (hmem : h ∈ t.due p b) : p.Evicts b := by
  rintro rfl
  by_contra hR
  have h0 : p.indexRetention = 0 :=
    UInt32.toNat_inj.mp (Nat.eq_zero_of_not_pos fun h => hR (UInt32.lt_iff_toNat_lt.mpr h))
  simp [Turn.due, h0] at hmem

variable (hD : p.reorgHorizon.toNat + p.recencyWindow.toNat < 2 ^ 32)

include hD

lemma le_tip_of_due (hmem : h ∈ t.due p b) : h.toNat + p.depthNat b ≤ t.tip.toNat := by
  rw [due_eq (evicts_of_mem hmem)] at hmem
  rw [← depth_toNat hD]
  exact add_le_of_mem_bands hmem

/-- A later turn takes the bands that were not due at the tip before, unless its range wraps
around. -/
lemma prevTip_lt_of_due (hhad : t.hadTip = true) (hmem : h ∈ t.due p b) :
    t.prevTip.toNat < h.toNat + p.depthNat b ∨ p.depthNat b = 0 ∧ t.prevTip.toNat = 2 ^ 32 - 1 := by
  rw [due_eq (evicts_of_mem hmem), hhad] at hmem
  rw [← depth_toNat hD]
  by_cases hw : 0 < (p.depth b).toNat ∨ t.prevTip.toNat < 2 ^ 32 - 1
  · exact .inl ((mem_bands_later hw).mp hmem).1
  · have := t.prevTip.toNat_lt
    exact .inr ⟨by omega, by omega⟩

lemma eq_of_due (hpair : t.hadTip = true ∧ u.tip ≤ t.prevTip) (ht : h ∈ t.due p b)
    (hu : h ∈ u.due p b) :
    p.depthNat b = 0 ∧ t.prevTip.toNat = 2 ^ 32 - 1 := by
  rcases prevTip_lt_of_due hD hpair.1 ht with hlt | hwrap
  · have h1 := le_tip_of_due hD hu
    have h2 := UInt32.le_iff_toNat_le.mp hpair.2
    omega
  · exact hwrap

variable {first last : Turn} {ts : List Turn}

lemma exists_due (hc : Chained false 0 (first :: ts)) (hlast : last ∈ first :: ts) (hb : p.Evicts b)
    (hlo : first.tip.toNat - p.depthNat b ≤ h.toNat)
    (hhi : h.toNat + p.depthNat b ≤ last.tip.toNat) :
    ∃ t ∈ first :: ts, h ∈ t.due p b := by
  obtain ⟨hhad, -, -, hts⟩ := hc
  by_cases hx : h.toNat + p.depthNat b ≤ first.tip.toNat
  · refine ⟨first, List.mem_cons_self, ?_⟩
    rw [due_eq hb, hhad, mem_bands_first, depth_toNat hD]
    omega
  · rcases List.mem_cons.mp hlast with rfl | hlast
    · exact absurd hhi hx
    · obtain ⟨t, ht, htrue, hprev, htip⟩ := hts.passed hlast (by omega) hhi
      refine ⟨t, List.mem_cons_of_mem _ ht, ?_⟩
      rw [due_eq hb, htrue]
      by_cases hw : 0 < (p.depth b).toNat ∨ t.prevTip.toNat < 2 ^ 32 - 1
      · rw [mem_bands_later hw, depth_toNat hD]
        exact ⟨hprev, htip⟩
      · have h1 := t.prevTip.toNat_lt
        have h2 := t.tip.toNat_lt
        omega

/-- What is due in a turn lies in the range, unless its own range wraps around. -/
lemma range_of_due (hc : Chained false 0 (first :: ts)) (ht : t ∈ first :: ts)
    (hmem : h ∈ t.due p b) :
    first.tip.toNat - p.depthNat b ≤ h.toNat ∨ t.hadTip = true ∧ p.depthNat b = 0 ∧
      t.prevTip.toNat = 2 ^ 32 - 1 := by
  obtain ⟨hhad, -, -, hts⟩ := hc
  rcases List.mem_cons.mp ht with rfl | ht
  · rw [due_eq (evicts_of_mem hmem), hhad, mem_bands_first, depth_toNat hD] at hmem
    omega
  · obtain ⟨htrue, hle, -⟩ := hts.prevTip_le ht
    rcases prevTip_lt_of_due hD htrue hmem with hlt | hwrap
    · have := UInt32.le_iff_toNat_le.mp hle
      omega
    · exact .inr ⟨htrue, hwrap⟩

end Coverage

section Last

variable {done : List Turn} {last t u : Turn} (hc : Chained false 0 (done ++ [last]))

include hc

lemma Chained.prevTip_le_tip (ht : t ∈ done ++ [last]) (htrue : t.hadTip = true) :
    t.prevTip ≤ t.tip := by
  cases hts : done ++ [last] with
  | nil => simp at hts
  | cons first ts =>
    rw [hts] at hc ht
    rcases List.mem_cons.mp ht with rfl | ht
    · rw [hc.1] at htrue
      exact nomatch htrue
    · exact (hc.2.2.2.prevTip_le ht).2.2

lemma Chained.le_last (ht : t ∈ done) :
    last.hadTip = true ∧ t.tip ≤ last.prevTip ∧ last.prevTip ≤ last.tip := by
  obtain ⟨h1, h2⟩ := (List.pairwise_append.mp hc.pairwise).2.2 t ht last (List.mem_singleton_self _)
  exact ⟨h1, h2, hc.prevTip_le_tip (List.mem_append_right _ (List.mem_singleton_self _)) h1⟩

/-- Once a turn finds the last tip there is, the last turn does so too. -/
lemma Chained.last_prevTip (ht : t ∈ done ++ [last]) (htrue : t.hadTip = true)
    (hprev : t.prevTip.toNat = 2 ^ 32 - 1) :
    last.prevTip.toNat = 2 ^ 32 - 1 := by
  rcases List.mem_append.mp ht with htd | htl
  · have h1 := UInt32.le_iff_toNat_le.mp (hc.prevTip_le_tip ht htrue)
    have h2 := UInt32.le_iff_toNat_le.mp (hc.le_last htd).2.1
    have h3 := last.prevTip.toNat_lt
    omega
  · rwa [← List.mem_singleton.mp htl]

lemma Chained.ordered (hu : u ∈ done ++ [last]) (ht : t ∈ done ++ [last]) (hne : u ≠ t) :
    (t.hadTip = true ∧ u.tip ≤ t.prevTip) ∨ (u.hadTip = true ∧ t.tip ≤ u.prevTip) := by
  refine List.Pairwise.forall_of_forall_of_flip (R := fun u t : Turn => u ≠ t →
    (t.hadTip = true ∧ u.tip ≤ t.prevTip) ∨ (u.hadTip = true ∧ t.tip ≤ u.prevTip)) ?_ ?_
      ?_ hu ht hne
  · exact fun _ _ h => absurd rfl h
  · exact hc.pairwise.imp fun hut _ => .inl hut
  · exact hc.pairwise.imp fun hut _ => .inr hut

/-- A band that a turn left is swept in no other one, unless the spends are swept from 0 again. -/
lemma Chained.left_of_covered {p : Policy}
    (hD : p.reorgHorizon.toNat + p.recencyWindow.toNat < 2 ^ 32) {first : Turn} {ts : List Turn}
    (hts : done ++ [last] = first :: ts) (hreg : ∀ t ∈ done ++ [last], t.Regular p)
    (hcov : Covered p first.tip last.tip (done ++ [last])) {b : Band} {h : UInt32} (ht : t ∈ done)
    (hdue : h ∈ t.due p b)
    (hns : ¬t.Swept b h) : p.depthNat b = 0 ∧ last.prevTip.toNat = 2 ^ 32 - 1 := by
  have htm : t ∈ done ++ [last] := List.mem_append_left _ ht
  rcases range_of_due hD (hts ▸ hc) (hts ▸ htm) hdue with hlo | ⟨htrue, h0, hprev⟩
  · have hhi : h.toNat + p.depthNat b ≤ last.tip.toNat := by
      have h1 := le_tip_of_due hD hdue
      obtain ⟨-, h2, h3⟩ := hc.le_last ht
      have h2' := UInt32.le_iff_toNat_le.mp h2
      have h3' := UInt32.le_iff_toNat_le.mp h3
      omega
    obtain ⟨u, hu, hsw, -⟩ := hcov b (evicts_of_mem hdue) h hlo hhi
    have hud := (hreg u hu).due b h hsw
    have hne : u ≠ t := by
      rintro rfl
      exact hns hsw
    rcases hc.ordered hu htm hne with hpair | hpair
    · obtain ⟨h0, hprev⟩ := eq_of_due hD hpair hdue hud
      exact ⟨h0, hc.last_prevTip htm hpair.1 hprev⟩
    · obtain ⟨h0, hprev⟩ := eq_of_due hD hpair hud hdue
      exact ⟨h0, hc.last_prevTip hu hpair.1 hprev⟩
  · exact ⟨h0, hc.last_prevTip htm htrue hprev⟩

end Last

/-- **Every band is swept exactly if no sweep before has failed.** Tips never go down, and any prune
call may fail. When a call of `OnNewBlock` returns without an error, every band that became due
since the first tip was swept by a call that succeeded, if and only if no store call had failed in
an earlier turn; a failed turn is excused only if the depth is 0, the tip before was already the
last there is, and nothing of the index was due in the turn. -/
theorem covered_iff (p : Policy) (hD : p.reorgHorizon.toNat + p.recencyWindow.toNat < 2 ^ 32)
    (s : σ) (t₀ : UInt32) (tips : List UInt32) (hsorted : (t₀ :: tips).Pairwise (· ≤ ·))
    (done : List Turn) (last : Turn) (rest : List Turn)
    (hturns : turns (new p) (t₀ :: tips) s = done ++ last :: rest) (hnil : last.err = none) :
    Covered p t₀ last.tip (done ++ [last]) ↔ ∀ t ∈ done, t.Failed → Excused p last t := by
  have hsplit : done ++ last :: rest = (done ++ [last]) ++ rest := by simp
  have hreg : ∀ t ∈ done ++ [last], t.Regular p := by
    intro t ht
    refine turns_regular (new p) (t₀ :: tips) s t ?_
    rw [hturns, hsplit]
    exact List.mem_append_left _ ht
  have hc : Chained false 0 (done ++ [last]) := by
    have hall := turns_chained (new p) (t₀ :: tips) s hsorted nofun
    rw [hturns, hsplit] at hall
    exact hall.append_left
  obtain ⟨first, ts, hts, rfl⟩ : ∃ first ts, done ++ [last] = first :: ts ∧ first.tip = t₀ := by
    cases done with
    | nil => exact ⟨last, [], rfl, by rw [← (List.cons.inj hturns).1]; rfl⟩
    | cons f done => exact ⟨f, done ++ [last], rfl, by rw [← (List.cons.inj hturns).1]; rfl⟩
  have hlastMem : last ∈ done ++ [last] := List.mem_append_right _ (List.mem_singleton_self _)
  constructor
  · intro hcov t ht hfailed
    have hregt := hreg t (List.mem_append_left _ ht)
    have herr : t.err ≠ none := fun hnone => hregt.ok hnone hfailed
    have hindex : t.due p .index = [] := by
      by_contra hne
      obtain ⟨h, hdue, hns⟩ := hregt.left_index herr hne
      have h0 := (hc.left_of_covered hD hts hreg hcov ht hdue hns).1
      have hR := UInt32.lt_iff_toNat_lt.mp (evicts_of_mem hdue rfl)
      change p.indexRetention.toNat = 0 at h0
      change 0 < p.indexRetention.toNat at hR
      omega
    rcases hregt.left herr with ⟨h, hdue, hns⟩ | ⟨h, hdue, -⟩
    · obtain ⟨h0, hprev⟩ := hc.left_of_covered hD hts hreg hcov ht hdue hns
      exact ⟨h0, hprev, hindex⟩
    · rw [hindex] at hdue
      simp at hdue
  · intro hex b hb h hlo hhi
    obtain ⟨t, ht, hdue⟩ := exists_due hD (hts ▸ hc) (hts ▸ hlastMem) hb hlo hhi
    rw [← hts] at ht
    by_cases hfailed : t.Failed
    · -- an excused failure: the last turn takes the band again
      have htd : t ∈ done := by
        rcases List.mem_append.mp ht with htd | htl
        · exact htd
        · rw [List.mem_singleton.mp htl] at hfailed
          exact absurd hfailed ((hreg last hlastMem).ok hnil)
      obtain ⟨h0, hprev, hindex⟩ := hex t htd hfailed
      cases b with
      | index =>
        rw [hindex] at hdue
        simp at hdue
      | spend =>
        obtain ⟨htrue, -, hle⟩ := hc.le_last htd
        have hle' := UInt32.le_iff_toNat_le.mp hle
        have hlt := last.tip.toNat_lt
        refine ⟨last, hlastMem, (hreg last hlastMem).all hnil .spend h ?_, hhi⟩
        rw [due_eq hb, htrue]
        exact mem_bands_wrap (by rw [depth_toNat hD]; exact h0) hprev (by omega)
    · have hregt := hreg t ht
      have herr : t.err = none := by
        by_contra hne
        exact hfailed (hregt.failed hne)
      exact ⟨t, ht, hregt.all herr b h hdue, le_tip_of_due hD hdue⟩

/-- The sweep of height 0 fails at tip 1, and tip 2 goes on with height 1. -/
theorem covered_failed_first :
    Covered { reorgHorizon := 1 } 1 2
      [⟨0, false, 1, [⟨.spend, 0, false⟩], some ⟨"store: call failed"⟩⟩,
      ⟨1, true, 2, [⟨.spend, 1, true⟩], none⟩] ↔
    ∀ t ∈ [(⟨0, false, 1, [⟨.spend, 0, false⟩], some ⟨"store: call failed"⟩⟩ : Turn)], t.Failed →
      Excused { reorgHorizon := 1 } ⟨1, true, 2, [⟨.spend, 1, true⟩], none⟩ t :=
  covered_iff { reorgHorizon := 1 } (by decide)
    ({ base := Mem.new, faults := [some ⟨"store: call failed"⟩] } : Faulty Mem.Store) 1 [2]
    (by decide)
    [⟨0, false, 1, [⟨.spend, 0, false⟩], some ⟨"store: call failed"⟩⟩]
      ⟨1, true, 2, [⟨.spend, 1, true⟩], none⟩ []
    (by decide) rfl

/-- The call for tip 2 returns without an error, and height 0 was never swept. -/
theorem not_covered_failed_first :
    ∃ done last, turns (new { reorgHorizon := 1 }) [1, 2]
      ({ base := Mem.new, faults := [some ⟨"store: call failed"⟩] } : Faulty Mem.Store) =
        done ++ [last] ∧ last.err = none ∧
          ¬Covered { reorgHorizon := 1 } 1 last.tip (done ++ [last]) := by
  refine ⟨[⟨0, false, 1, [⟨.spend, 0, false⟩], some ⟨"store: call failed"⟩⟩],
    ⟨1, true, 2, [⟨.spend, 1, true⟩], none⟩,
    by decide, rfl, fun hcov => ?_⟩
  obtain ⟨t, ht, hsw, -⟩ := hcov .spend nofun 0 (by decide) (by decide)
  rcases List.mem_cons.mp ht with rfl | ht
  · exact absurd hsw (by unfold Turn.Swept; decide)
  · rw [List.mem_singleton.mp ht] at hsw
    exact absurd hsw (by unfold Turn.Swept; decide)

end Prune

end MemServe
