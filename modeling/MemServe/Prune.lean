import MemServe.Store

/-!
Spend-depth retention: on each new tip the bands of heights that have become deeper than the
policy allows are evicted.
-/

namespace MemServe.Prune

structure Policy where
  reorgHorizon : UInt32 := 0
  recencyWindow : UInt32 := 0
  indexRetention : UInt32 := 0
  deriving DecidableEq

/-- The effective prune depth, a 32-bit sum. -/
def Policy.d (p : Policy) : UInt32 := p.reorgHorizon + p.recencyWindow

structure Pruner where
  policy : Policy
  lastTip : UInt32 := 0
  hasTip : Bool := false
  total : UInt64 := 0
  deriving DecidableEq

def new (p : Policy) : Pruner := { policy := p }

variable {σ : Type}

/-- The heights of `for h := start; ; h++ { ...; if h == target { break } }`. -/
def heights (start target : UInt32) : List UInt32 :=
  (List.range' start.toNat (target.toNat - start.toNat + 1)).map UInt32.ofNat

/-- The bands that reached depth `d + 1` between two tips; the first call sweeps one band. -/
def bands (prevTip : UInt32) (hadTip : Bool) (tip d : UInt32) : List UInt32 :=
  if tip < d then []
  else
    let target := tip - d
    let start := if !hadTip then target else if d ≤ prevTip then prevTip - d + 1 else 0
    if target < start then [] else heights start target

/-- The loop of `sweep`: it stops at the first error and keeps the count so far. -/
def sweepLoop (fn : UInt32 → StoreM σ ℕ) : List UInt32 → ℕ → σ → (ℕ × Option StoreError) × σ
  | [], total, s => ((total, none), s)
  | h :: hs, total, s =>
    match fn h s with
    | (.error e, s') => ((total, some e), s')
    | (.ok n, s') => sweepLoop fn hs (total + n) s'

def sweep (prevTip : UInt32) (hadTip : Bool) (tip d : UInt32) (fn : UInt32 → StoreM σ ℕ) (s : σ) :
    (ℕ × Option StoreError) × σ :=
  sweepLoop fn (bands prevTip hadTip tip d) 0 s

variable [Store σ]

/-- Runs the sweeps for a tip advance. The tip is recorded before anything is evicted. -/
def onNewBlock (pr : Pruner) (tip : UInt32) (s : σ) : (ℕ × Option StoreError) × Pruner × σ :=
  let pr' := { pr with lastTip := tip, hasTip := true }
  let booked (n : ℕ) : Pruner := { pr' with total := pr'.total + UInt64.ofNat n }
  match sweep pr.lastTip pr.hasTip tip pr.policy.d Store.pruneSpentAtHeight s with
  | ((n, some e), s1) => ((n, some e), booked n, s1)
  | ((n, none), s1) =>
    if 0 < pr.policy.indexRetention then
      match sweep pr.lastTip pr.hasTip tip pr.policy.indexRetention Store.pruneIndexAtHeight s1 with
      | ((ni, e), s2) => ((n + ni, e), booked (n + ni), s2)
    else ((n, none), booked n, s1)

/-! ### The bands of a sweep -/

lemma mem_heights {start target h : UInt32} (hle : start ≤ target) :
    h ∈ heights start target ↔ start ≤ h ∧ h ≤ target := by
  have hle' := UInt32.le_iff_toNat_le.mp hle
  have ht := target.toNat_lt
  rw [heights, List.mem_map, UInt32.le_iff_toNat_le, UInt32.le_iff_toNat_le]
  constructor
  · rintro ⟨n, hn, rfl⟩
    have hn' := List.mem_range'_1.mp hn
    have hmod : (UInt32.ofNat n).toNat = n := UInt32.toNat_ofNat_of_lt' (by
      change n < 2 ^ 32; omega)
    omega
  · rintro ⟨h1, h2⟩
    exact ⟨h.toNat, List.mem_range'_1.mpr (by omega), UInt32.ofNat_toNat⟩

lemma add_le_of_mem_bands {prev tip d h : UInt32} {hadTip : Bool}
    (hmem : h ∈ bands prev hadTip tip d) :
    h.toNat + d.toNat ≤ tip.toNat := by
  unfold bands at hmem
  split at hmem
  · simp at hmem
  · next hd =>
    have hd' := UInt32.not_lt.mp hd
    have hsub := UInt32.toNat_sub_of_le _ _ hd'
    have hle' := UInt32.le_iff_toNat_le.mp hd'
    dsimp only at hmem
    generalize (if (!hadTip) = true then tip - d else if d ≤ prev then prev - d + 1 else 0) =
      start at hmem
    split at hmem
    · simp at hmem
    · next hle =>
      have hh := UInt32.le_iff_toNat_le.mp ((mem_heights (UInt32.not_lt.mp hle)).mp hmem).2
      omega

lemma le_of_mem_bands {prev tip d h : UInt32} {hadTip : Bool} (hmem : h ∈ bands prev hadTip tip d) :
    h ≤ tip := by
  have := add_le_of_mem_bands hmem
  rw [UInt32.le_iff_toNat_le]
  omega

lemma mem_bands_first {prev tip d h : UInt32} :
    h ∈ bands prev false tip d ↔ h.toNat + d.toNat = tip.toNat := by
  unfold bands
  by_cases hd : tip < d
  · have hd' := UInt32.lt_iff_toNat_lt.mp hd
    rw [if_pos hd]
    simp only [List.not_mem_nil, false_iff]
    omega
  · have hd' : d ≤ tip := UInt32.not_lt.mp hd
    have hsub := UInt32.toNat_sub_of_le _ _ hd'
    have hd'' := UInt32.le_iff_toNat_le.mp hd'
    rw [if_neg hd]
    simp only [Bool.not_false, if_true, UInt32.lt_irrefl, if_false, mem_heights (UInt32.le_refl _)]
    rw [UInt32.le_iff_toNat_le, UInt32.le_iff_toNat_le, hsub]
    omega

/-- A later sweep takes every band that became deeper than `d` since the last tip, unless the start
of its range wraps around. -/
lemma mem_bands_later {prev tip d h : UInt32} (hw : 0 < d.toNat ∨ prev.toNat < 2 ^ 32 - 1) :
    h ∈ bands prev true tip d ↔ prev.toNat < h.toNat + d.toNat ∧ h.toNat + d.toNat ≤ tip.toNat := by
  have hprev := prev.toNat_lt
  have htip := tip.toNat_lt
  unfold bands
  by_cases hd : tip < d
  · have hd' := UInt32.lt_iff_toNat_lt.mp hd
    rw [if_pos hd]
    simp only [List.not_mem_nil, false_iff]
    omega
  · have hd' : d ≤ tip := UInt32.not_lt.mp hd
    have hsub := UInt32.toNat_sub_of_le _ _ hd'
    have hd'' := UInt32.le_iff_toNat_le.mp hd'
    rw [if_neg hd]
    simp only [Bool.not_true, Bool.false_eq_true, if_false]
    -- the start of the range, as a number
    obtain ⟨start, hs, hstart⟩ : ∃ start : UInt32, (if d ≤ prev then prev - d + 1 else 0) = start ∧
        start.toNat = prev.toNat + 1 - d.toNat := by
      refine ⟨_, rfl, ?_⟩
      split_ifs with hp
      · have hp' := UInt32.le_iff_toNat_le.mp hp
        rw [UInt32.toNat_add, UInt32.toNat_sub_of_le _ _ hp, show (1 : UInt32).toNat = 1 from rfl,
          Nat.mod_eq_of_lt (by omega)]
        omega
      · have hp' := UInt32.lt_iff_toNat_lt.mp (UInt32.not_le.mp hp)
        rw [show (0 : UInt32).toNat = 0 from rfl]
        omega
    rw [hs]
    split_ifs with hlt
    · have hlt' := UInt32.lt_iff_toNat_lt.mp hlt
      simp only [List.not_mem_nil, false_iff]
      omega
    · have hle := UInt32.not_lt.mp hlt
      have hle' := UInt32.le_iff_toNat_le.mp hle
      rw [mem_heights hle, UInt32.le_iff_toNat_le, UInt32.le_iff_toNat_le, hsub]
      omega

lemma mem_bands_next {prev tip d h : UInt32} (hw : 0 < d.toNat ∨ prev.toNat < tip.toNat) :
    h ∈ bands prev true tip d ↔ prev.toNat < h.toNat + d.toNat ∧ h.toNat + d.toNat ≤ tip.toNat := by
  refine mem_bands_later (hw.imp_right fun hlt => ?_)
  have := tip.toNat_lt
  omega

lemma mem_bands_wrap {prev tip d h : UInt32} (hd : d.toNat = 0) (hprev : prev.toNat = 2 ^ 32 - 1)
    (htip : tip.toNat = 2 ^ 32 - 1) : h ∈ bands prev true tip d := by
  obtain rfl : d = 0 := UInt32.toNat_inj.mp hd
  obtain rfl : prev = 0xFFFFFFFF := UInt32.toNat_inj.mp hprev
  obtain rfl : tip = 0xFFFFFFFF := UInt32.toNat_inj.mp htip
  have hbands : bands 0xFFFFFFFF true 0xFFFFFFFF 0 = heights 0 0xFFFFFFFF := by
    unfold bands
    rfl
  have hle : (0 : UInt32) ≤ 0xFFFFFFFF := by decide
  rw [hbands, mem_heights hle]
  have hh := h.toNat_lt
  refine ⟨UInt32.le_iff_toNat_le.mpr (Nat.zero_le _), UInt32.le_iff_toNat_le.mpr ?_⟩
  change h.toNat ≤ 2 ^ 32 - 1
  omega

lemma d_toNat {p : Policy} (h : p.reorgHorizon.toNat + p.recencyWindow.toNat < 2 ^ 32) :
    p.d.toNat = p.reorgHorizon.toNat + p.recencyWindow.toNat := by
  rw [Policy.d, UInt32.toNat_add, Nat.mod_eq_of_lt h]

end MemServe.Prune
