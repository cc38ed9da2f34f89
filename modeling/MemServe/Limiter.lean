import MemServe.Binary64
import MemServe.Collect
import MemServe.GoMap

/-!
The rate limiter of the server: a token bucket per client.

Tokens are binary64 numbers. Go may compute `tokens += elapsed * rate` with one rounding or with
two, so `fused` stands for the choice of the compiler. Time is the monotonic clock in nanoseconds.

What a client sees does not depend on the other clients, nor on the cleanup that forgets idle
buckets.
-/

namespace MemServe.RateLimit

open Binary64

/-- `Duration.Seconds`. -/
def seconds (d : ℤ) : ℚ :=
  fl (fl (d.tdiv 1000000000) + fl (fl (d.tmod 1000000000) / 1000000000))

structure Bucket where
  tokens : ℚ
  last : ℤ
  deriving DecidableEq

structure Limiter where
  rate : ℚ
  b : GoMap String Bucket

def newLimiter (ratePerSec : ℤ) : Limiter := ⟨fl ratePerSec, .empty⟩

section Code

variable (fused : Bool)

/-- `bk.tokens += elapsed * l.rate`. -/
def Bucket.grow (rate : ℚ) (now : ℤ) (bk : Bucket) : ℚ :=
  let elapsed := seconds (now - bk.last)
  if fused then fl (bk.tokens + elapsed * rate) else fl (bk.tokens + fl (elapsed * rate))

/-- The tokens of a bucket after they grew, with the cap. -/
def Bucket.refill (rate : ℚ) (now : ℤ) (bk : Bucket) : ℚ :=
  if rate < bk.grow fused rate now then rate else bk.grow fused rate now

def Bucket.take (rate : ℚ) (now : ℤ) (bk : Bucket) : Bool × Bucket :=
  if 1 ≤ bk.refill fused rate now then (true, ⟨fl (bk.refill fused rate now - 1), now⟩)
  else (false, ⟨bk.refill fused rate now, now⟩)

/-- The bucket of a client and the map it is in. A new bucket is not idle, so the cleanup leaves it
there. -/
def Limiter.bucket (now : ℤ) (ip : String) (l : Limiter) : Bucket × GoMap String Bucket :=
  match l.b.get ip with
  | some bk => (bk, l.b)
  | none =>
    let b := l.b.set ip ⟨l.rate, now⟩
    (⟨l.rate, now⟩, if 100000 < b.len then b.reject fun v => 60000000000 < now - v.last else b)

def Limiter.allow (now : ℤ) (ip : String) (l : Limiter) : Bool × Limiter :=
  let r := (l.bucket now ip).1.take fused l.rate now
  (r.1, { l with b := (l.bucket now ip).2.set ip r.2 })

end Code

structure Call where
  now : ℤ
  ip : String
  deriving DecidableEq

/-- A call with its answer. -/
def Limiter.serve (fused : Bool) (c : Call) (l : Limiter) : (Call × Bool) × Limiter :=
  ((c, (l.allow fused c.now c.ip).1), (l.allow fused c.now c.ip).2)

/-- One client with a limiter of its own, that forgets nothing. -/
def alone (fused : Bool) (rate : ℚ) (c : Call) (x : Option Bucket) :
    (Call × Bool) × Option Bucket :=
  let r := (x.getD ⟨rate, c.now⟩).take fused rate c.now
  ((c, r.1), some r.2)

lemma collect_alone_cons (fused : Bool) (rate : ℚ) (c : Call) (ds : List Call) (x : Option Bucket) :
    (collect (alone fused rate) (c :: ds) x).1 =
      (c, ((x.getD ⟨rate, c.now⟩).take fused rate c.now).1) ::
        (collect (alone fused rate) ds (some ((x.getD ⟨rate, c.now⟩).take fused rate c.now).2)).1 :=
  rfl

lemma seconds_zero : seconds 0 = 0 := by simp [seconds]

lemma seconds_nonneg {d : ℤ} (h : 0 ≤ d) : 0 ≤ seconds d := by
  have h1 : (0 : ℚ) ≤ (d.tdiv 1000000000 : ℤ) := by exact_mod_cast Int.tdiv_nonneg h (by decide)
  have h2 : (0 : ℚ) ≤ (d.tmod 1000000000 : ℤ) := by exact_mod_cast Int.tmod_nonneg _ h
  exact fl_nonneg (add_nonneg (fl_nonneg h1) (fl_nonneg (div_nonneg (fl_nonneg h2) (by norm_num))))

lemma representable_one : Representable 1 := by
  simpa using representable_natCast (n := 1) (by decide)

lemma one_le_seconds {d : ℤ} (h : 1000000000 ≤ d) : 1 ≤ seconds d := by
  have h1 : (1 : ℚ) ≤ (d.tdiv 1000000000 : ℤ) := by
    rw [Int.tdiv_eq_ediv_of_nonneg (by omega)]
    exact_mod_cast (show (1 : ℤ) ≤ d / 1000000000 by omega)
  have h2 : (0 : ℚ) ≤ (d.tmod 1000000000 : ℤ) := by exact_mod_cast Int.tmod_nonneg _ (by omega)
  have h3 : (0 : ℚ) ≤ fl (fl (d.tmod 1000000000) / 1000000000) :=
    fl_nonneg (div_nonneg (fl_nonneg h2) (by norm_num))
  have h4 := le_fl representable_one (by linarith) h1
  exact le_fl representable_one (by linarith) (by linarith)

/-- A bucket as it is found: its tokens are a number of the format, and no more than the rate. -/
structure Bucket.Good (rate : ℚ) (bk : Bucket) : Prop where
  tokens : Representable bk.tokens
  le : bk.tokens ≤ rate

section Bucket

variable (fused : Bool) {rate : ℚ} {now : ℤ} {bk : Bucket}

lemma refill_eq_min : bk.refill fused rate now = min rate (bk.grow fused rate now) := by
  unfold Bucket.refill
  split_ifs with h
  · rw [min_eq_left h.le]
  · rw [min_eq_right (not_lt.mp h)]

lemma refill_le (rate : ℚ) (now : ℤ) (bk : Bucket) : bk.refill fused rate now ≤ rate := by
  rw [refill_eq_min]
  exact min_le_left _ _

lemma le_refill {a : ℚ} (hrate : Representable rate) (hbk : bk.Good rate) (hnow : bk.last ≤ now)
    (ha : Representable a) (har : a ≤ rate)
    (h : a ≤ bk.tokens + fl (seconds (now - bk.last) * rate))
    (h' : a ≤ bk.tokens + seconds (now - bk.last) * rate) : a ≤ bk.refill fused rate now := by
  have hsec := seconds_nonneg (show 0 ≤ now - bk.last by omega)
  have hmul : 0 ≤ seconds (now - bk.last) * rate := mul_nonneg hsec hrate.nonneg
  rw [refill_eq_min]
  refine le_min har ?_
  unfold Bucket.grow
  dsimp only
  split_ifs
  · exact le_fl ha (add_nonneg hbk.tokens.nonneg hmul) h'
  · exact le_fl ha (add_nonneg hbk.tokens.nonneg (fl_nonneg hmul)) h

lemma tokens_le_refill (hrate : Representable rate) (hbk : bk.Good rate) (hnow : bk.last ≤ now) :
    bk.tokens ≤ bk.refill fused rate now := by
  have hsec := seconds_nonneg (show 0 ≤ now - bk.last by omega)
  have hmul : 0 ≤ seconds (now - bk.last) * rate := mul_nonneg hsec hrate.nonneg
  exact le_refill fused hrate hbk hnow hbk.tokens hbk.le (le_add_of_nonneg_right (fl_nonneg hmul))
    (le_add_of_nonneg_right hmul)

lemma refill_full (hrate : Representable rate) (hbk : bk.Good rate)
    (hnow : bk.last + 1000000000 ≤ now) :
    bk.refill fused rate now = rate := by
  have hsec := one_le_seconds (show 1000000000 ≤ now - bk.last by omega)
  have hmul : rate ≤ seconds (now - bk.last) * rate := le_mul_of_one_le_left hrate.nonneg hsec
  have hround : rate ≤ fl (seconds (now - bk.last) * rate) :=
    le_fl hrate (hrate.nonneg.trans hmul) hmul
  have htokens := hbk.tokens.nonneg
  exact le_antisymm (refill_le fused rate now bk)
    (le_refill fused hrate hbk (by omega) hrate le_rfl (by linarith) (by linarith))

lemma refill_new (hrate : Representable rate) :
    Bucket.refill fused rate now ⟨rate, now⟩ = rate := by
  rw [refill_eq_min]
  simp [Bucket.grow, seconds_zero, hrate.fl_eq]

lemma representable_refill (hrate : Representable rate) (hbk : bk.Good rate)
    (hnow : bk.last ≤ now) :
    Representable (bk.refill fused rate now) := by
  have hsec := seconds_nonneg (show 0 ≤ now - bk.last by omega)
  have hmul : 0 ≤ seconds (now - bk.last) * rate := mul_nonneg hsec hrate.nonneg
  unfold Bucket.refill
  split_ifs
  · exact hrate
  · unfold Bucket.grow
    dsimp only
    split_ifs
    · exact representable_fl (add_nonneg hbk.tokens.nonneg hmul)
    · exact representable_fl (add_nonneg hbk.tokens.nonneg (fl_nonneg hmul))

lemma take_last : (bk.take fused rate now).2.last = now := by
  unfold Bucket.take
  split_ifs <;> rfl

lemma good_take (hrate : Representable rate) (hbk : bk.Good rate) (hnow : bk.last ≤ now) :
    (bk.take fused rate now).2.Good rate := by
  unfold Bucket.take
  split_ifs with h
  · have hnonneg : 0 ≤ bk.refill fused rate now - 1 := by linarith
    have hle : bk.refill fused rate now - 1 ≤ rate := by linarith [refill_le fused rate now bk]
    exact ⟨representable_fl hnonneg, fl_le hrate hnonneg hle⟩
  · exact ⟨representable_refill fused hrate hbk hnow, refill_le fused rate now bk⟩

lemma take_congr {bk' : Bucket} (h : bk.refill fused rate now = bk'.refill fused rate now) :
    bk.take fused rate now = bk'.take fused rate now := by
  unfold Bucket.take
  rw [h]

end Bucket

/-! ### The map of buckets -/

section Map

variable (fused : Bool) {now : ℤ} {ip : String} {l : Limiter}

lemma allow_get_self :
    (l.allow fused now ip).2.b.get ip = some ((l.bucket now ip).1.take fused l.rate now).2 :=
  GoMap.get_set_self ..

lemma allow_get_other {j : String} (h : j ≠ ip) :
    (l.allow fused now ip).2.b.get j = l.b.get j ∨
      (l.allow fused now ip).2.b.get j = none ∧ ∃ bk, l.b.get j = some bk ∧
        bk.last + 60000000000 < now := by
  have hset : (l.allow fused now ip).2.b.get j = (l.bucket now ip).2.get j :=
    GoMap.get_set_of_ne _ _ h
  rw [hset]
  unfold Limiter.bucket
  cases hip : l.b.get ip with
  | some bk => exact .inl rfl
  | none =>
    dsimp only
    split_ifs
    · rw [GoMap.get_reject, GoMap.get_set_of_ne _ _ h]
      cases hj : l.b.get j with
      | none => exact .inl rfl
      | some bk =>
        by_cases hidle : 60000000000 < now - bk.last
        · refine .inr ⟨?_, bk, rfl, by omega⟩
          rw [Option.filter_some, decide_eq_true hidle]
          rfl
        · refine .inl ?_
          rw [Option.filter_some, decide_eq_false hidle]
          rfl
    · exact .inl (GoMap.get_set_of_ne _ _ h)

/-- What the limiter has of a client at time `t`, against the client's own bucket `x`: the same, or
nothing where the bucket would be full by now. -/
structure Tracks (t : ℤ) (l : Limiter) (ip : String) (x : Option Bucket) : Prop where
  good : ∀ bk, x = some bk → bk.Good l.rate ∧ bk.last ≤ t
  found : l.b.get ip = x ∨ l.b.get ip = none ∧ ∃ bk, x = some bk ∧ bk.last + 60000000000 < t

variable {t : ℤ} {x : Option Bucket}

lemma Tracks.later (h : Tracks t l ip x) {t' : ℤ} (ht : t ≤ t') : Tracks t' l ip x where
  good bk hbk := ⟨(h.good bk hbk).1, (h.good bk hbk).2.trans ht⟩
  found := by
    rcases h.found with hf | ⟨hn, bk, hbk, hidle⟩
    · exact .inl hf
    · exact .inr ⟨hn, bk, hbk, hidle.trans_le ht⟩

lemma Tracks.bucket (h : Tracks now l ip x) (hrate : Representable l.rate) :
    (l.bucket now ip).1.take fused l.rate now = (x.getD ⟨l.rate, now⟩).take fused l.rate now := by
  rcases h.found with hf | ⟨hn, bk, rfl, hidle⟩
  · unfold Limiter.bucket
    rw [hf]
    cases x <;> rfl
  · -- dropped: a new bucket is full, and so is the client's own
    unfold Limiter.bucket
    rw [hn]
    refine take_congr fused ?_
    rw [Option.getD_some, refill_new fused hrate,
      refill_full fused hrate (h.good bk rfl).1 (by omega)]

lemma Tracks.good_getD (h : Tracks now l ip x) (hrate : Representable l.rate) :
    (x.getD ⟨l.rate, now⟩).Good l.rate ∧ (x.getD ⟨l.rate, now⟩).last ≤ now := by
  cases x with
  | none => exact ⟨⟨hrate, le_rfl⟩, le_rfl⟩
  | some bk => exact h.good bk rfl

lemma Tracks.self (h : Tracks now l ip x) (hrate : Representable l.rate) :
    (l.serve fused ⟨now, ip⟩).1 = (alone fused l.rate ⟨now, ip⟩ x).1 ∧
      Tracks now (l.serve fused ⟨now, ip⟩).2 ip (alone fused l.rate ⟨now, ip⟩ x).2 := by
  have htake := h.bucket fused hrate
  refine ⟨congrArg (Prod.mk _) (congrArg Prod.fst htake), ⟨fun bk hbk => ?_, .inl ?_⟩⟩
  · cases hbk
    obtain ⟨hgood, hlast⟩ := h.good_getD hrate
    exact ⟨good_take fused hrate hgood hlast, (take_last fused).le⟩
  · exact (allow_get_self fused).trans (congrArg (fun r => some r.2) htake)

lemma Tracks.other (h : Tracks now l ip x) {c : Call} (hc : c.now = now) (hne : ip ≠ c.ip) :
    Tracks now (l.serve fused c).2 ip x where
  good := h.good
  found := by
    subst hc
    rcases h.found with hf | ⟨hn, hidle⟩
    · rcases allow_get_other fused (l := l) hne with hsame | ⟨hdrop, bk, hbk, hidle⟩
      · exact .inl (hsame.trans hf)
      · exact .inr ⟨hdrop, bk, hf.symm.trans hbk, hidle⟩
    · refine .inr ⟨?_, hidle⟩
      rcases allow_get_other fused (l := l) hne with hsame | ⟨hdrop, -⟩
      · exact hsame.trans hn
      · exact hdrop

lemma Tracks.run {cs : List Call} (hcs : cs.Pairwise fun c d => c.now ≤ d.now) (h : Tracks t l ip x)
    (ht : ∀ c ∈ cs, t ≤ c.now) (hrate : Representable l.rate) :
    ((collect (Limiter.serve fused) cs l).1.filter fun d => d.1.ip = ip) =
        (collect (alone fused l.rate) (cs.filter fun c => c.ip = ip) x).1 ∧
      ∃ t', Tracks t' (collect (Limiter.serve fused) cs l).2 ip
        (collect (alone fused l.rate) (cs.filter fun c => c.ip = ip) x).2 ∧
          (cs.getLast?.map Call.now).getD t = t' := by
  induction cs generalizing t l x with
  | nil => exact ⟨rfl, t, h, rfl⟩
  | cons c cs ih =>
    obtain ⟨hc, hcs⟩ := List.pairwise_cons.mp hcs
    have hnow := h.later (ht c List.mem_cons_self)
    have hlast : ((c :: cs).getLast?.map Call.now).getD t =
        (cs.getLast?.map Call.now).getD c.now := by
      rw [List.getLast?_cons]
      cases cs.getLast? <;> rfl
    rw [hlast]
    by_cases hip : c.ip = ip
    · subst hip
      obtain ⟨hans, htrack⟩ := hnow.self fused hrate
      obtain ⟨ih1, ih2⟩ := ih hcs htrack hc hrate
      rw [collect_cons, List.filter_cons_of_pos (by simp [Limiter.serve]),
        List.filter_cons_of_pos (by simp), collect_cons]
      exact ⟨congrArg₂ _ hans ih1, ih2⟩
    · have htrack := hnow.other fused rfl (Ne.symm hip)
      obtain ⟨ih1, ih2⟩ := ih hcs htrack hc hrate
      rw [collect_cons, List.filter_cons_of_neg (by simp [Limiter.serve, hip]),
        List.filter_cons_of_neg (by simp [hip])]
      exact ⟨ih1, ih2⟩

lemma collect_rate (fused : Bool) (cs : List Call) (l : Limiter) :
    (collect (Limiter.serve fused) cs l).2.rate = l.rate := by
  induction cs generalizing l with
  | nil => rfl
  | cons c cs ih => exact ih (l.serve fused c).2

lemma tracks_new (ratePerSec t : ℤ) (ip : String) : Tracks t (newLimiter ratePerSec) ip none where
  good := by simp
  found := .inl (GoMap.get_empty ip)

end Map

/-- **A client is served as if it were alone.** For calls in the order of time, the answers to a
client are those of a bucket of its own that is never dropped: other clients and the cleanup cannot
be observed. -/
theorem served_alone (fused : Bool) (ratePerSec : ℤ) (hrate : 0 < ratePerSec) (cs : List Call)
    (hcs : cs.Pairwise fun c d => c.now ≤ d.now) (ip : String) :
    ((collect (Limiter.serve fused) cs (newLimiter ratePerSec)).1.filter fun d => d.1.ip = ip) =
      (collect (alone fused (newLimiter ratePerSec).rate)
        (cs.filter fun c => c.ip = ip) none).1 := by
  have hrep : Representable (newLimiter ratePerSec).rate :=
    representable_fl (by exact_mod_cast hrate.le)
  cases cs with
  | nil => rfl
  | cons c cs =>
    refine ((tracks_new ratePerSec c.now ip).run fused hcs (fun d hd => ?_) hrep).1
    rcases List.mem_cons.mp hd with rfl | hd
    · exact le_rfl
    · exact (List.pairwise_cons.mp hcs).1 d hd

/-- A client between whose calls another one calls. -/
theorem served_alone_two :
    ((collect (Limiter.serve true) [⟨0, "a"⟩, ⟨5, "b"⟩, ⟨7, "a"⟩] (newLimiter 2)).1.filter fun d =>
      d.1.ip = "a") =
      (collect (alone true (newLimiter 2).rate) [⟨0, "a"⟩, ⟨7, "a"⟩] none).1 :=
  served_alone true 2 (by decide) [⟨0, "a"⟩, ⟨5, "b"⟩, ⟨7, "a"⟩] (by simp) "a"

section Burst

variable (fused : Bool) {rate : ℚ}

lemma alone_of_le_tokens {bk : Bucket} (hrate : Representable rate) {n : ℕ} (hn : n ≤ 2 ^ 53)
    {ds : List Call} (hds : ds.Pairwise fun c d => c.now ≤ d.now) (hbk : bk.Good rate)
    (hlast : ∀ d ∈ ds, bk.last ≤ d.now) (htokens : n ≤ bk.tokens) (hlen : ds.length ≤ n) :
    ∀ d ∈ (collect (alone fused rate) ds (some bk)).1, d.2 = true := by
  induction ds generalizing bk n with
  | nil => simp
  | cons c ds ih =>
    obtain ⟨hc, hds⟩ := List.pairwise_cons.mp hds
    obtain ⟨n, rfl⟩ :=
      Nat.exists_eq_succ_of_ne_zero (Nat.ne_of_gt (Nat.lt_of_lt_of_le (Nat.succ_pos _) hlen))
    have hnow := hlast c List.mem_cons_self
    have hrefill := htokens.trans (tokens_le_refill fused hrate hbk hnow)
    push_cast at hrefill
    have hone : 1 ≤ bk.refill fused rate c.now := by
      have : (0 : ℚ) ≤ n := by positivity
      linarith
    have htake : bk.take fused rate c.now = (true, ⟨fl (bk.refill fused rate c.now - 1), c.now⟩) :=
      if_pos hone
    have hgood := good_take fused hrate hbk hnow
    rw [htake] at hgood
    rw [collect_alone_cons, Option.getD_some, htake]
    intro d hd
    rcases List.mem_cons.mp hd with rfl | hd
    · rfl
    · refine ih (n := n) (by omega) hds hgood hc ?_ (by simpa using hlen) d hd
      exact le_fl (representable_natCast (by omega)) (by linarith) (by linarith)

lemma alone_last {ds : List Call} {x : Option Bucket} {bk : Bucket}
    (h : (collect (alone fused rate) ds x).2 = some bk) :
    x = some bk ∨ ∃ d ∈ ds, d.now = bk.last := by
  induction ds generalizing x with
  | nil => exact .inl h
  | cons c ds ih =>
    rw [collect_cons] at h
    rcases ih h with heq | ⟨d, hd, hlast⟩
    · refine .inr ⟨c, List.mem_cons_self, ?_⟩
      rw [← Option.some.inj heq]
      exact (take_last fused).symm
    · exact .inr ⟨d, List.mem_cons_of_mem c hd, hlast⟩

lemma alone_burst (hrate : Representable rate) {n : ℕ} (hn : n ≤ 2 ^ 53) (hnr : n ≤ rate)
    {ds : List Call} (hds : ds.Pairwise fun c d => c.now ≤ d.now) {x : Option Bucket}
    (hx : ∀ bk, x = some bk → bk.Good rate ∧ ∀ d ∈ ds, bk.last + 1000000000 ≤ d.now)
    (hlen : ds.length ≤ n) :
    ∀ d ∈ (collect (alone fused rate) ds x).1, d.2 = true := by
  cases ds with
  | nil => simp
  | cons c ds =>
    -- the first call finds a full bucket, as the call of a new client does
    have hfull : alone fused rate c x = alone fused rate c (some ⟨rate, c.now⟩) := by
      cases x with
      | none => rfl
      | some bk =>
        obtain ⟨hgood, hlast⟩ := hx bk rfl
        have htake : bk.take fused rate c.now = Bucket.take fused rate c.now ⟨rate, c.now⟩ :=
          take_congr fused
            ((refill_full fused hrate hgood (hlast c List.mem_cons_self)).trans
              (refill_new fused hrate).symm)
        simp only [alone, Option.getD_some, htake]
    rw [collect_cons, hfull, ← collect_cons]
    refine alone_of_le_tokens fused hrate hn hds ⟨hrate, le_rfl⟩ (fun d hd => ?_) hnr hlen
    rcases List.mem_cons.mp hd with rfl | hd
    · exact le_rfl
    · exact (List.pairwise_cons.mp hds).1 d hd

end Burst

/-- The calls of `win`, made after those of `pre`, with their answers. -/
def window (fused : Bool) (ratePerSec : ℤ) (pre win : List Call) (ip : String) :
    List (Call × Bool) :=
  (collect (Limiter.serve fused) win
    (collect (Limiter.serve fused) pre (newLimiter ratePerSec)).2).1.filter fun d => d.1.ip = ip

lemma window_alone (fused : Bool) {ratePerSec : ℤ} (hrate : 0 < ratePerSec) {pre win : List Call}
    (hcs : (pre ++ win).Pairwise fun c d => c.now ≤ d.now) (ip : String) :
    ∃ x, window fused ratePerSec pre win ip =
        (collect (alone fused (newLimiter ratePerSec).rate) (win.filter fun c => c.ip = ip) x).1 ∧
      ∀ bk, x = some bk → bk.Good (newLimiter ratePerSec).rate ∧
        ∃ c ∈ pre, c.ip = ip ∧ c.now = bk.last := by
  have hrep : Representable (newLimiter ratePerSec).rate :=
    representable_fl (by exact_mod_cast hrate.le)
  obtain ⟨hpre, hwin, hbetween⟩ := List.pairwise_append.mp hcs
  -- time starts with the first call of all
  obtain ⟨t, ht⟩ : ∃ t, ∀ c ∈ pre ++ win, t ≤ c.now := by
    cases hl : pre ++ win with
    | nil => exact ⟨0, by simp⟩
    | cons c cs =>
      rw [hl] at hcs
      refine ⟨c.now, fun d hd => ?_⟩
      rcases List.mem_cons.mp hd with rfl | hd
      · exact le_rfl
      · exact (List.pairwise_cons.mp hcs).1 d hd
  obtain ⟨-, t', htrack, ht'⟩ := (tracks_new ratePerSec t ip).run fused hpre
    (fun c hc => ht c (List.mem_append_left _ hc)) hrep
  have hlater : ∀ d ∈ win, t' ≤ d.now := by
    intro d hd
    rw [← ht']
    cases hl : pre.getLast? with
    | none => exact ht d (List.mem_append_right _ hd)
    | some c => exact hbetween c (List.mem_of_getLast? hl) d hd
  have hsame := collect_rate fused pre (newLimiter ratePerSec)
  refine ⟨(collect (alone fused (newLimiter ratePerSec).rate)
    (pre.filter fun c => c.ip = ip) none).2, ?_,
    fun bk hbk => ⟨?_, ?_⟩⟩
  · have hrun := (htrack.run fused hwin hlater (by rw [hsame]; exact hrep)).1
    rw [hsame] at hrun
    exact hrun
  · have := (htrack.good bk hbk).1
    rwa [hsame] at this
  · obtain ⟨d, hd, hlast⟩ := (alone_last fused hbk).resolve_left (by simp)
    obtain ⟨hd, hip⟩ := List.mem_filter.mp hd
    exact ⟨d, hd, by simpa using hip, hlast⟩

lemma newLimiter_rate {ratePerSec : ℤ} (h0 : 0 < ratePerSec) (h1 : ratePerSec ≤ 2 ^ 53) :
    (newLimiter ratePerSec).rate = ratePerSec := by
  have hrep : Representable (ratePerSec.toNat : ℚ) := representable_natCast (by omega)
  have hcast : (ratePerSec : ℚ) = (ratePerSec.toNat : ℚ) := by
    exact_mod_cast (Int.toNat_of_nonneg h0.le).symm
  rw [newLimiter, hcast]
  exact hrep.fl_eq

/-- **After a second of silence a client has its full burst.** Whatever other clients do, the next
`rate` calls of a client that was silent for a second, or is new, are all admitted. -/
theorem burst_admitted (fused : Bool) (ratePerSec : ℤ) (h0 : 0 < ratePerSec)
    (h1 : ratePerSec ≤ 2 ^ 53) (pre win : List Call)
    (hcs : (pre ++ win).Pairwise fun c d => c.now ≤ d.now) (ip : String)
    (hsilent : ∀ c ∈ pre, c.ip = ip → ∀ d ∈ win, d.ip = ip → c.now + 1000000000 ≤ d.now)
    (hlen : (win.filter fun c => c.ip = ip).length ≤ ratePerSec) :
    ∀ d ∈ window fused ratePerSec pre win ip, d.2 = true := by
  obtain ⟨x, hwindow, hx⟩ := window_alone fused h0 hcs ip
  have hrep : Representable (newLimiter ratePerSec).rate :=
    representable_fl (by exact_mod_cast h0.le)
  have hrate : ((ratePerSec.toNat : ℕ) : ℚ) ≤ (newLimiter ratePerSec).rate := by
    rw [newLimiter_rate h0 h1]
    exact_mod_cast (Int.toNat_of_nonneg h0.le).le
  rw [hwindow]
  refine alone_burst fused hrep (n := ratePerSec.toNat) (by omega) hrate
    ((List.pairwise_append.mp hcs).2.1.sublist List.filter_sublist) (fun bk hbk => ?_) (by omega)
  obtain ⟨hgood, c, hc, hip, hlast⟩ := hx bk hbk
  refine ⟨hgood, fun d hd => ?_⟩
  obtain ⟨hd, hdip⟩ := List.mem_filter.mp hd
  rw [← hlast]
  exact hsilent c hc hip d hd (by simpa using hdip)

/-- Two calls at once of a client that called a second ago. -/
theorem burst_admitted_two :
    (window false 2 [⟨0, "a"⟩] [⟨1000000000, "a"⟩, ⟨1000000000, "b"⟩, ⟨1000000000, "a"⟩] "a").all
      (·.2) = true :=
  List.all_eq_true.mpr (burst_admitted false 2 (by decide) (by decide) [⟨0, "a"⟩]
    [⟨1000000000, "a"⟩, ⟨1000000000, "b"⟩, ⟨1000000000, "a"⟩] (by simp) "a" (by simp) (by decide))

/-! ### How much is admitted at most -/

lemma fl_upper {x : ℚ} (hx : 0 ≤ x) : fl x ≤ x + x / 2 ^ 53 + 1 / 2 ^ 64 := by
  have h := (abs_le.mp (abs_fl_sub_le hx)).2
  have hmin : (2 : ℚ) ^ (-1075 : ℤ) ≤ 1 / 2 ^ 64 := by
    have hle : (2 : ℚ) ^ (-1075 : ℤ) ≤ 2 ^ (-64 : ℤ) :=
      zpow_le_zpow_right₀ (by norm_num) (by decide)
    have heq : (2 : ℚ) ^ (-64 : ℤ) = 1 / 2 ^ 64 := by norm_num [zpow_neg]
    rwa [heq] at hle
  linarith

lemma seconds_le {d : ℤ} (hd : 0 ≤ d) :
    seconds d ≤ d / 1000000000 + d / 1000000000 / 2 ^ 50 + 1 / 2 ^ 60 := by
  have hsec : (0 : ℚ) ≤ (d.tdiv 1000000000 : ℤ) := by exact_mod_cast Int.tdiv_nonneg hd (by decide)
  have hnsec : (0 : ℚ) ≤ (d.tmod 1000000000 : ℤ) := by exact_mod_cast Int.tmod_nonneg _ hd
  have hsplit : (d : ℚ) = 1000000000 * (d.tdiv 1000000000 : ℤ) + (d.tmod 1000000000 : ℤ) := by
    exact_mod_cast (Int.mul_tdiv_add_tmod d 1000000000).symm
  have h1 := fl_upper hsec
  have h2 := fl_upper hnsec
  have hn := fl_nonneg hnsec
  have h3 := fl_upper (div_nonneg hn (by norm_num : (0 : ℚ) ≤ 1000000000))
  have h4 := fl_upper
    (add_nonneg (fl_nonneg hsec) (fl_nonneg (div_nonneg hn (by norm_num : (0 : ℚ) ≤ 1000000000))))
  unfold seconds
  rw [hsplit]
  linarith

section Bound

variable (fused : Bool) {rate : ℚ} {now : ℤ} {bk : Bucket}

/-- **A refill is at most what the time since the last call gives**, up to rounding. -/
lemma refill_upper (hone : 1 ≤ rate) (hbk : bk.Good rate) (hnow : bk.last ≤ now) :
    bk.refill fused rate now ≤ bk.tokens + ((now - bk.last : ℤ) : ℚ) / 1000000000 * rate +
      rate / 2 ^ 48 := by
  have hnonneg : (0 : ℤ) ≤ now - bk.last := by omega
  have hsecs := seconds_nonneg hnonneg
  have hle := seconds_le hnonneg
  have htok := hbk.tokens.nonneg
  have hcap := hbk.le
  generalize hδ : ((now - bk.last : ℤ) : ℚ) / 1000000000 = δ at hle ⊢
  have hδ0 : 0 ≤ δ := by
    rw [← hδ]
    exact div_nonneg (by exact_mod_cast hnonneg) (by norm_num)
  rcases le_or_gt δ 2 with hsmall | hlarge
  · -- no term is larger than a few times the rate, and neither is its error
    have hprod : seconds (now - bk.last) * rate ≤ δ * rate + δ * rate / 2 ^ 50 + rate / 2 ^ 60 := by
      calc seconds (now - bk.last) * rate ≤ (δ + δ / 2 ^ 50 + 1 / 2 ^ 60) * rate :=
          mul_le_mul_of_nonneg_right hle (by linarith)
        _ = δ * rate + δ * rate / 2 ^ 50 + rate / 2 ^ 60 := by ring
    have hmul0 : 0 ≤ seconds (now - bk.last) * rate := mul_nonneg hsecs (by linarith)
    have hδr : δ * rate ≤ 2 * rate := mul_le_mul_of_nonneg_right hsmall (by linarith)
    have hδr0 : 0 ≤ δ * rate := mul_nonneg hδ0 (by linarith)
    have hp := fl_upper hmul0
    have h1 := fl_upper (add_nonneg htok hmul0)
    have h2 := fl_upper (add_nonneg htok (fl_nonneg hmul0))
    refine ((refill_eq_min fused).trans_le (min_le_right _ _)).trans ?_
    unfold Bucket.grow
    dsimp only
    split_ifs
    · linarith
    · linarith
  · -- the cap alone is below what two seconds give
    have hδr : 2 * rate ≤ δ * rate := mul_le_mul_of_nonneg_right hlarge.le (by linarith)
    have hpos : 0 ≤ rate / 2 ^ 48 := by positivity
    have := refill_le fused rate now bk
    linarith

lemma take_upper (now : ℤ) (bk : Bucket) (hone : 1 ≤ rate) :
    (if (bk.take fused rate now).1 then (1 : ℚ) else 0) + (bk.take fused rate now).2.tokens ≤
      bk.refill fused rate now + rate / 2 ^ 52 := by
  have hle := refill_le fused rate now bk
  have hpos : 0 ≤ rate / 2 ^ 52 := by positivity
  rcases le_or_gt 1 (bk.refill fused rate now) with h | h
  · have htake : bk.take fused rate now = (true, ⟨fl (bk.refill fused rate now - 1), now⟩) :=
      if_pos h
    have hfl := fl_upper (x := bk.refill fused rate now - 1) (by linarith)
    rw [htake, if_pos rfl]
    dsimp only
    linarith
  · have htake : bk.take fused rate now = (false, ⟨bk.refill fused rate now, now⟩) :=
      if_neg (not_le.mpr h)
    rw [htake, if_neg (by simp)]
    dsimp only
    linarith

/-- The number of calls that were admitted. -/
def admitted (ds : List (Call × Bool)) : ℚ := ((ds.filter fun d => d.2).length : ℚ)

lemma admitted_cons (d : Call × Bool) (ds : List (Call × Bool)) :
    admitted (d :: ds) = (if d.2 then 1 else 0) + admitted ds := by
  unfold admitted
  cases h : d.2
  · rw [List.filter_cons_of_neg (by simp [h])]
    simp
  · rw [List.filter_cons_of_pos (by simp [h])]
    simp only [List.length_cons, Nat.cast_add, Nat.cast_one, if_true]
    ring

/-- **The calls of a client until `b`** are paid for with its tokens and the time since its last
call. -/
lemma alone_upper (hrep : Representable rate) (hone : 1 ≤ rate) {ds : List Call}
    (hds : ds.Pairwise fun c d => c.now ≤ d.now) (hbk : bk.Good rate)
    (hlast : ∀ d ∈ ds, bk.last ≤ d.now) {b : ℤ} (hb : ∀ d ∈ ds, d.now ≤ b) (hb' : bk.last ≤ b) :
    admitted (collect (alone fused rate) ds (some bk)).1 ≤
      bk.tokens + ((b - bk.last : ℤ) : ℚ) / 1000000000 * rate + ds.length * (rate / 2 ^ 47) := by
  induction ds generalizing bk with
  | nil =>
    have h1 := hbk.tokens.nonneg
    have h2 : 0 ≤ ((b - bk.last : ℤ) : ℚ) / 1000000000 * rate :=
      mul_nonneg
        (div_nonneg (by exact_mod_cast (show (0 : ℤ) ≤ b - bk.last by omega)) (by norm_num))
        (by linarith)
    simp only [collect_nil, admitted, List.filter_nil, List.length_nil, Nat.cast_zero, zero_mul]
    linarith
  | cons c ds ih =>
    obtain ⟨hc, hds⟩ := List.pairwise_cons.mp hds
    have hnow := hlast c List.mem_cons_self
    have hrest := ih hds (good_take fused hrep hbk hnow) (by rw [take_last]; exact hc)
      (fun d hd => hb d (List.mem_cons_of_mem c hd))
        (by rw [take_last]; exact hb c List.mem_cons_self)
    rw [take_last] at hrest
    have hcall := take_upper fused c.now bk hone
    have hrefill := refill_upper fused hone hbk hnow
    rw [collect_alone_cons, admitted_cons, List.length_cons, Option.getD_some]
    have htime : ((b - bk.last : ℤ) : ℚ) / 1000000000 * rate =
        ((c.now - bk.last : ℤ) : ℚ) / 1000000000 * rate + ((b - c.now : ℤ) : ℚ) /
            1000000000 * rate := by
      push_cast
      ring
    rw [htime]
    push_cast
    push_cast at hrest hrefill
    linarith

end Bound

/-- **The limit.** Within any time from `a` to `b` a client has at most `rate` calls admitted, and
`rate` more for each second. The last term is the error of the rounding: under one call for up to
`2 ^ 47 / rate` calls. -/
theorem admitted_le (fused : Bool) (ratePerSec : ℤ) (h0 : 0 < ratePerSec) (h1 : ratePerSec ≤ 2 ^ 53)
    (pre win : List Call) (hcs : (pre ++ win).Pairwise fun c d => c.now ≤ d.now) (a b : ℤ)
    (hab : a ≤ b) (hwin : ∀ c ∈ win, a ≤ c.now ∧ c.now ≤ b) (ip : String) :
    admitted (window fused ratePerSec pre win ip) ≤
      ratePerSec * (1 + ((b - a : ℤ) : ℚ) / 1000000000) +
        (window fused ratePerSec pre win ip).length * (ratePerSec / 2 ^ 47) := by
  obtain ⟨x, hwindow, hx⟩ := window_alone fused h0 hcs ip
  have hrep : Representable (newLimiter ratePerSec).rate :=
    representable_fl (by exact_mod_cast h0.le)
  have hone : (1 : ℚ) ≤ ratePerSec := by exact_mod_cast h0
  rw [newLimiter_rate h0 h1] at hrep hx hwindow
  rw [hwindow, length_collect]
  have hmem : ∀ d ∈ win.filter (fun c => c.ip = ip), a ≤ d.now ∧ d.now ≤ b :=
    fun d hd => hwin d (List.mem_filter.mp hd).1
  have hordered : (win.filter fun c => c.ip = ip).Pairwise fun c d => c.now ≤ d.now :=
    (List.pairwise_append.mp hcs).2.1.sublist List.filter_sublist
  have hgood : ∀ bk, x = some bk → bk.Good ratePerSec ∧ ∀ d ∈ win.filter (fun c => c.ip = ip),
      bk.last ≤ d.now := by
    intro bk hbk
    obtain ⟨hgood, c, hc, -, hlast⟩ := hx bk hbk
    refine ⟨hgood, fun d hd => ?_⟩
    rw [← hlast]
    exact (List.pairwise_append.mp hcs).2.2 c hc d (List.mem_filter.mp hd).1
  generalize win.filter (fun c => c.ip = ip) = ds at *
  cases ds with
  | nil =>
    have htime : (0 : ℚ) ≤ ((b - a : ℤ) : ℚ) / 1000000000 :=
      div_nonneg (by exact_mod_cast (show (0 : ℤ) ≤ b - a by omega)) (by norm_num)
    simp only [collect_nil, admitted, List.filter_nil, List.length_nil, Nat.cast_zero, zero_mul,
      add_zero]
    positivity
  | cons c ds =>
    obtain ⟨hc, hds⟩ := List.pairwise_cons.mp hordered
    obtain ⟨hac, hcb⟩ := hmem c List.mem_cons_self
    have hfirst : (x.getD ⟨ratePerSec, c.now⟩).Good ratePerSec ∧
        (x.getD ⟨ratePerSec, c.now⟩).last ≤ c.now := by
      cases x with
      | none => exact ⟨⟨hrep, le_rfl⟩, le_rfl⟩
      | some bk => exact ⟨(hgood bk rfl).1, (hgood bk rfl).2 c List.mem_cons_self⟩
    rw [collect_alone_cons, admitted_cons, List.length_cons]
    generalize x.getD ⟨ratePerSec, c.now⟩ = bk at hfirst ⊢
    -- after the first call there is no more than the rate, and the rest is paid for by time
    have hcall := take_upper fused c.now bk hone
    have hcap := refill_le fused ratePerSec c.now bk
    have hrest := alone_upper fused hrep hone hds (good_take fused hrep hfirst.1 hfirst.2)
      (by rw [take_last]; exact hc) (fun d hd => (hmem d (List.mem_cons_of_mem c hd)).2)
        (by rw [take_last]; exact hcb)
    rw [take_last] at hrest
    have htime : ((b - c.now : ℤ) : ℚ) / 1000000000 * ratePerSec ≤
        ((b - a : ℤ) : ℚ) / 1000000000 * ratePerSec := by
      refine mul_le_mul_of_nonneg_right (div_le_div_of_nonneg_right ?_ (by norm_num)) (by linarith)
      exact_mod_cast (show b - c.now ≤ b - a by omega)
    push_cast at hrest htime ⊢
    linarith

/-- Of three calls at once two are admitted. -/
theorem admitted_le_two :
    admitted (window false 2 [] [⟨0, "a"⟩, ⟨0, "a"⟩, ⟨0, "a"⟩] "a") ≤ 2 + 3 * (2 / 2 ^ 47) := by
  have h := admitted_le false 2 (by decide) (by decide) [] [⟨0, "a"⟩, ⟨0, "a"⟩, ⟨0, "a"⟩]
    (by simp) 0 0 le_rfl (by simp) "a"
  have hlen : (window false 2 [] [⟨0, "a"⟩, ⟨0, "a"⟩, ⟨0, "a"⟩] "a").length = 3 := rfl
  rw [hlen] at h
  norm_num at h ⊢
  linarith

end MemServe.RateLimit
