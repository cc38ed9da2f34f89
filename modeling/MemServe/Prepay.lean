import Mathlib.Algebra.Order.Floor.Div
import MemServe.Channel
import MemServe.Sha256Eval
import MemServe.Trace
import MemServe.Verifier

/-!
Every access is prepaid, as long as the amounts fit 64 bits.

Along any run of a channel the cumulative payment covers what the authorized accesses cost. The
amount required for an access is a sum of three words, so this holds as long as no required
amount wraps; where one does, the access is sold for the remainder.
-/

namespace MemServe.Payment

open Crypto Bsvtx

/-- The part of the settlement fee due with the access of this number. -/
def Config.feeDue (cfg : Config) (accessNo : ℕ) : ℕ :=
  match cfg.pricing.feeMode with
  | .upfront => if accessNo = 1 then cfg.pricing.settleFee.toNat else 0
  | .amortized => cfg.pricing.settleFee.toNat ⌈/⌉ cfg.n.toNat
  | .other => 0

/-- The cost of accesses of these types, one after the other. -/
def Config.due (cfg : Config) (qs : List QueryType) : ℕ :=
  ((qs.zipIdx 1).map fun p => (cfg.pricing.service p.1).toNat + cfg.feeDue p.2).sum

@[simp] lemma Config.due_nil (cfg : Config) : cfg.due [] = 0 := rfl

lemma Config.due_concat (cfg : Config) (qs : List QueryType) (q : QueryType) :
    cfg.due (qs ++ [q]) = cfg.due qs +
      ((cfg.pricing.service q).toNat + cfg.feeDue (qs.length + 1)) := by
  simp [Config.due, List.zipIdx_append, Nat.add_comm]

/-! ### Runs of a channel -/

/-- A call on a channel. -/
inductive Op
  | quote (q : QueryType)
  | authorize (c : Option Commitment) (q : QueryType)
  | shouldSettle (now : UInt32)
  | settle

/-- A channel and the types of the accesses it has authorized. -/
structure Progress where
  ch : Channel
  log : List QueryType := []

def Progress.step (s : Progress) (op : Op) : Progress :=
  match op with
  | .quote _ => s
  | .shouldSettle _ => s
  | .settle => { s with ch := s.ch.settle.2 }
  | .authorize c q =>
    match s.ch.authorize c q with
    | (.ok (), ch') => ⟨ch', s.log ++ [q]⟩
    | (.error _, ch') => { s with ch := ch' }

def Progress.run (s : Progress) (ops : List Op) : Progress := ops.foldl Progress.step s

/-- The calls made on a channel that has authorized nothing yet. -/
def Channel.run (ch : Channel) (ops : List Op) : Progress := Progress.run ⟨ch, []⟩ ops

lemma Channel.run_append (ch : Channel) (pre post : List Op) :
    ch.run (pre ++ post) = (ch.run pre).run post :=
  List.foldl_append

/-- The next access of type `q` has a required amount that fits 64 bits, and so has the rounding of
an amortized fee. -/
def Channel.Fits (ch : Channel) (q : QueryType) : Prop :=
  ch.cumPaid.toNat + (ch.cfg.pricing.service q).toNat +
    (ch.feeComponent (ch.accesses + 1)).toNat < 2 ^ 64 ∧
    (ch.cfg.pricing.feeMode = .amortized → ch.cfg.pricing.settleFee.toNat + ch.cfg.n.toNat ≤ 2 ^ 64)

instance (ch : Channel) (q : QueryType) : Decidable (ch.Fits q) :=
  inferInstanceAs (Decidable (_ ∧ _))

lemma ceilDiv_toNat {a b : UInt64} (h : a.toNat + b.toNat ≤ 2 ^ 64) (hb : b ≠ 0) :
    (ceilDiv a b).toNat = a.toNat ⌈/⌉ b.toNat := by
  have hb' : 0 < b.toNat := Nat.pos_of_ne_zero fun h0 => hb (UInt64.toNat_inj.mp h0)
  have hone : (1 : UInt64).toNat = 1 := rfl
  rw [ceilDiv, if_neg hb, UInt64.toNat_div, Nat.ceilDiv_eq_add_pred_div]
  congr 1
  rw [UInt64.toNat_sub, UInt64.toNat_add, hone]
  omega

lemma ceilDiv_lt {a b : UInt64} (h : 2 ^ 64 < a.toNat + b.toNat) :
    (ceilDiv a b).toNat < a.toNat ⌈/⌉ b.toNat := by
  have ha := a.toNat_lt
  have hlt := b.toNat_lt
  have hb : 0 < b.toNat := by omega
  have hone : (1 : UInt64).toNat = 1 := rfl
  have hne : b ≠ 0 := by rintro rfl; exact absurd hb (lt_irrefl 0)
  rw [ceilDiv, if_neg hne, UInt64.toNat_div, Nat.ceilDiv_eq_add_pred_div, UInt64.toNat_sub,
    UInt64.toNat_add, hone]
  have hwrap : (2 ^ 64 - 1 + (a.toNat + b.toNat) % 2 ^ 64) % 2 ^ 64 =
    a.toNat + b.toNat - 1 - 2 ^ 64 := by omega
  rw [hwrap, Nat.div_lt_iff_lt_mul hb]
  have := Nat.div_add_mod (a.toNat + b.toNat - 1) b.toNat
  have := Nat.mod_lt (a.toNat + b.toNat - 1) hb
  rw [Nat.mul_comm]
  omega

/-- The condition a call is made under: an accepted commitment pays for an access that fits. -/
def Op.Fits (s : Progress) (op : Op) : Prop :=
  match op with
  | .authorize c q => (s.ch.authorize c q).1 = .ok () → s.ch.Fits q
  | _ => True

/-- The accesses so far are counted and paid for. -/
structure Progress.Covered (s : Progress) : Prop where
  amortized : s.ch.cfg.pricing.feeMode = .amortized → s.ch.cfg.n ≠ 0
  count : s.ch.accesses = UInt64.ofNat s.log.length
  paid : s.ch.cfg.due s.log ≤ s.ch.cumPaid.toNat

lemma Progress.Covered.feeDue_le {s : Progress} (h : s.Covered) {q : QueryType} (hf : s.ch.Fits q) :
    s.ch.cfg.feeDue (s.log.length + 1) ≤ (s.ch.feeComponent (s.ch.accesses + 1)).toNat := by
  unfold Config.feeDue Channel.feeComponent
  cases hm : s.ch.cfg.pricing.feeMode with
  | upfront =>
    dsimp only
    split_ifs with h1 h2
    · exact le_refl _
    · rw [h.count, Nat.succ_injective h1] at h2
      exact absurd rfl h2
    · exact Nat.zero_le _
    · exact Nat.zero_le _
  | amortized => exact (ceilDiv_toNat (hf.2 hm) (h.amortized hm)).ge
  | other => exact Nat.zero_le _

lemma Channel.quote_toNat {ch : Channel} {q : QueryType} (hf : ch.Fits q) :
    (ch.quote q).toNat = ch.cumPaid.toNat + (ch.cfg.pricing.service q).toNat +
      (ch.feeComponent (ch.accesses + 1)).toNat := by
  have h := hf.1
  rw [quote, UInt64.toNat_add, UInt64.toNat_add]
  omega

/-- **Exactly where an access fits**, the required amount covers what is paid and what it costs. -/
lemma Progress.Covered.fits_iff {s : Progress} (h : s.Covered) (q : QueryType) :
    s.ch.Fits q ↔
      s.ch.cumPaid.toNat + (s.ch.cfg.pricing.service q).toNat + s.ch.cfg.feeDue (s.log.length + 1) ≤
        (s.ch.quote q).toNat := by
  constructor
  · intro hf
    have := h.feeDue_le hf
    rw [Channel.quote_toNat hf]
    omega
  intro hcov
  have hsum : s.ch.cumPaid.toNat + (s.ch.cfg.pricing.service q).toNat +
      (s.ch.feeComponent (s.ch.accesses + 1)).toNat < 2 ^ 64 := by
    -- a sum that wraps falls below its own first two terms, as the third is below `2 ^ 64`
    by_contra hge
    have hfee := (s.ch.feeComponent (s.ch.accesses + 1)).toNat_lt
    rw [Channel.quote, UInt64.toNat_add, UInt64.toNat_add] at hcov
    omega
  refine ⟨hsum, fun hm => not_lt.mp fun hwrap => ?_⟩
  have hlt := ceilDiv_lt hwrap
  rw [Channel.quote, UInt64.toNat_add, UInt64.toNat_add, Config.feeDue] at hcov
  rw [Channel.feeComponent] at hcov hsum
  simp only [hm] at hcov hsum
  omega

/-- **One call** keeps accesses paid for, and never takes a payment back. -/
lemma Progress.Covered.step {s : Progress} (h : s.Covered) {op : Op} (hf : op.Fits s) :
    (s.step op).Covered ∧ s.ch.cumPaid ≤ (s.step op).ch.cumPaid ∧
      (s.step op).ch.cfg = s.ch.cfg := by
  cases op with
  | quote q => exact ⟨h, UInt64.le_refl _, rfl⟩
  | shouldSettle now => exact ⟨h, UInt64.le_refl _, rfl⟩
  | settle =>
    simp only [Progress.step, Channel.settle_eq]
    exact ⟨⟨h.amortized, h.count, h.paid⟩, UInt64.le_refl _, trivial⟩
  | authorize c q =>
    rcases s.ch.authorize_cases c q with ⟨com, rfl, hacc, hok⟩ | ⟨e, herr⟩
    · have hfit : s.ch.Fits q := hf (by rw [hok])
      have hcov := UInt64.le_iff_toNat_le.mp hacc.covers
      rw [Channel.quote_toNat hfit] at hcov
      have hfee := h.feeDue_le hfit
      have hpaid := h.paid
      simp only [Progress.step, hok]
      refine ⟨⟨h.amortized, ?_, ?_⟩, UInt64.le_iff_toNat_le.mpr ?_, rfl⟩
      · change s.ch.accesses + 1 = UInt64.ofNat (s.log ++ [q]).length
        rw [h.count, List.length_append, UInt64.ofNat_add]
        rfl
      · change s.ch.cfg.due (s.log ++ [q]) ≤ com.cumAmount.toNat
        rw [Config.due_concat]
        omega
      · change s.ch.cumPaid.toNat ≤ com.cumAmount.toNat
        omega
    · simp only [Progress.step, herr]
      exact ⟨h, UInt64.le_refl _, trivial⟩

/-- The calls of a run all fit. -/
abbrev Progress.Fit (s : Progress) (ops : List Op) : Prop :=
  Trace.Guarded (fun op s => s.step op) (fun op s => op.Fits s) ops s

/-- **A whole run.** -/
lemma Progress.Covered.run {s : Progress} (h : s.Covered) {ops : List Op} (hf : s.Fit ops) :
    (s.run ops).Covered ∧ s.ch.cumPaid ≤ (s.run ops).ch.cumPaid ∧
      (s.run ops).ch.cfg = s.ch.cfg := by
  refine hf.invariant
    (p := fun t => t.Covered ∧ s.ch.cumPaid ≤ t.ch.cumPaid ∧ t.ch.cfg = s.ch.cfg) ?_
    ⟨h, UInt64.le_refl _, rfl⟩
  rintro op t ⟨hcov, hle, hcfg⟩ hop
  obtain ⟨hcov', hle', hcfg'⟩ := hcov.step hop
  exact ⟨hcov', UInt64.le_trans hle hle', hcfg'.trans hcfg⟩

/-- **Prepayment.** A channel is opened and called in any way, such that no accepted commitment pays
for an access whose required amount wraps. Then the payment never falls and always covers the
authorized accesses; a call of `Authorize` that fails changes nothing. The condition is exact at
each access: where it fails, the amount required is too small. -/
theorem prepaid {cfg : Config} {ch : Channel} (hopen : Channel.openWith cfg = .ok ch)
    {ops : List Op} (hf : ∀ pre op post, ops = pre ++ op :: post → op.Fits (ch.run pre)) :
    (∀ pre post, ops = pre ++ post →
      cfg.due (ch.run pre).log ≤ (ch.run pre).ch.cumPaid.toNat ∧
        (ch.run pre).ch.cumPaid ≤ (ch.run ops).ch.cumPaid) ∧
    (∀ c q e ch', (ch.run ops).ch.authorize c q = (.error e, ch') → ch' = (ch.run ops).ch) ∧
    ∀ q, (ch.run ops).ch.Fits q ↔
      (ch.run ops).ch.cumPaid.toNat + (cfg.pricing.service q).toNat +
        cfg.feeDue ((ch.run ops).log.length + 1) ≤
        ((ch.run ops).ch.quote q).toNat := by
  obtain ⟨params, rfl, -, -, -, -, -, hn⟩ := Channel.openWith_ok hopen
  have hnew : Progress.Covered ⟨{ cfg := { cfg with params := params } }, []⟩ :=
    ⟨hn, rfl, Nat.le_refl _⟩
  have hfit : Progress.Fit ⟨{ cfg := { cfg with params := params } }, []⟩ ops := hf
  refine ⟨fun pre post hp => ?_, fun c q e ch' he => ?_, fun q => ?_⟩
  · subst hp
    obtain ⟨hpre, hpost⟩ := Trace.guarded_append_iff.mp hfit
    obtain ⟨hcov, -, hcfg⟩ := hnew.run hpre
    have hpaid := hcov.paid
    rw [hcfg] at hpaid
    refine ⟨hpaid, ?_⟩
    rw [Channel.run_append]
    exact (hcov.run hpost).2.1
  · rcases Channel.authorize_cases (Channel.run _ ops).ch c q with ⟨com, -, -, hok⟩ | ⟨e', herr⟩
    · rw [hok] at he
      cases he
    · rw [herr] at he
      exact (congrArg Prod.snd he).symm
  · obtain ⟨hcov, -, hcfg⟩ := hnew.run hfit
    have h := hcov.fits_iff q
    rw [hcfg] at h
    exact h

lemma verify_eq_true {pub : Option PublicKey} {p : Params} {cum : UInt64} {sig : Signature} :
    verify pub p cum sig = true ↔
      ∃ key h, pub = some key ∧ sig.isLowS = true ∧ p.channelTx.commitmentSighash cum = .ok h ∧
        Crypto.verify key h.1 sig = true := by
  unfold verify
  cases hlow : sig.isLowS with
  | false => simp
  | true =>
    cases hh : p.channelTx.commitmentSighash cum with
    | error e => simp
    | ok h => cases pub <;> simp

/-- The key of the scalar one. -/
def sampleKey : PublicKey := ⟨curveGx, curveGy⟩

def sampleParams : Params where
  channelID := deriveChannelID (.fill 32 0x11) 0
  fundingTxID := .fill 32 0x11
  fundingVout := 0
  clientPub := sampleKey.serializeCompressed
  serverPub := 0x02 :: beBytes 32 0xc6047f9441ed7d6d3045406e95c07cd85c778e4b8cef3ca7abac09b95c709ee5
  fundingValue := 100000
  fee := 200

/-- Of a payment of 1000, with the key of the scalar one. -/
def sampleSig : Signature :=
  ⟨0x2ee6446bf3b7eda566feeed8bc50064253668f3371cc0624c709dc1670c4f0d0,
    0x70b28f0b0bd4676a367b8bb97b045d5719c2f28d1814cb10d62e9e36d4469397⟩

def sampleCommitment : Commitment where
  cumAmount := 1000
  sig := some sampleSig

def sampleConfig (pricing : Pricing) : Config where
  params := sampleParams
  deposit := 100000
  clientPub := some sampleKey
  pricing := pricing
  n := 10

def sampleChannel (pricing : Pricing) : Channel := { cfg := sampleConfig pricing }

lemma sample_open (pricing : Pricing) :
    Channel.openWith (sampleConfig pricing) = .ok (sampleChannel pricing) := by
  have hn : ¬ (pricing.feeMode = .amortized ∧ (10 : UInt64) = 0) := fun h => absurd h.2 (by decide)
  change (if pricing.feeMode = .amortized ∧ (10 : UInt64) = 0 then _ else _) = _
  rw [if_neg hn]
  rfl

/-- What is signed for a payment of 1000 on the sample channel. -/
def sampleSighash : Hash :=
  ⟨beBytes 32 0xb65603a968f8bcdd9f35bb874468b747fdc7f77e6291033d92c97d88160cc1c8,
    length_beBytes _ _⟩

lemma sampleSighash_eq : sampleParams.channelTx.commitmentSighash 1000 = .ok sampleSighash := by
  unfold ChannelTx.commitmentSighash Tx.sighashForkID Commitment.doubleSHA256
  rw [Sha256.Eval.sum256_eq]
  decide +kernel

lemma sampleSig_verify : Crypto.verify sampleKey sampleSighash.1 sampleSig = true :=
  verify_of_checks (by decide +kernel)

lemma sample_signed :
    ∃ sig, sampleCommitment.sig = some sig ∧ verify (some sampleKey) sampleParams 1000 sig = true :=
  ⟨sampleSig, rfl,
    verify_eq_true.mpr ⟨sampleKey, sampleSighash, rfl, by decide, sampleSighash_eq,
      sampleSig_verify⟩⟩

lemma sample_accepts {pricing : Pricing} {q : QueryType}
    (h : (sampleChannel pricing).quote q ≤ 1000) :
    (sampleChannel pricing).Accepts sampleCommitment q :=
  ⟨rfl, h, (by decide : (1000 : UInt64) ≤ 100000), sample_signed⟩

lemma sample_run {pricing : Pricing} {q : QueryType} (h : (sampleChannel pricing).quote q ≤ 1000) :
    (sampleChannel pricing).run [.authorize (some sampleCommitment) q] =
      ⟨(sampleChannel pricing).book sampleCommitment, [q]⟩ := by
  have hok := Channel.authorize_of_accepts (sample_accepts h)
  simp only [Channel.run, Progress.run, List.foldl, Progress.step, hok]
  rfl

/-- 300 for an access and 700 for the settlement. -/
def fairPricing : Pricing := { flat := true, flatPrice := 300, settleFee := 700 }

/-- With the settlement fee, the price of an access wraps to 1000. -/
def wrapPricing : Pricing := { flat := true, flatPrice := 0xFFFFFFFFFFFFFFFF, settleFee := 1001 }

/-- The first access at the fair prices is paid for. -/
theorem prepaid_sample :
    Channel.openWith (sampleConfig fairPricing) = .ok (sampleChannel fairPricing) ∧
      (sampleConfig fairPricing).due [.mined] ≤ 1000 := by
  have hopen := sample_open fairPricing
  have hf : ∀ pre op post, [Op.authorize (some sampleCommitment) .mined] = pre ++ op :: post →
      op.Fits ((sampleChannel fairPricing).run pre) := by
    intro pre op post hp
    cases pre with
    | nil =>
      cases hp
      exact fun _ => by decide
    | cons p pre => simp at hp
  have h := (prepaid hopen hf).1 _ [] (List.append_nil _).symm
  rw [sample_run (by decide)] at h
  exact ⟨hopen, h.1⟩

/-- **A price near `2 ^ 64`** makes a required amount of 1000: the channel books an access that
costs more than there are coins. -/
theorem prepaid_wraps :
    Channel.openWith (sampleConfig wrapPricing) = .ok (sampleChannel wrapPricing) ∧
      ∃ ops, ((sampleChannel wrapPricing).run ops).log = [.mined] ∧
        ((sampleChannel wrapPricing).run ops).ch.cumPaid.toNat <
          (sampleConfig wrapPricing).due [.mined] := by
  refine ⟨sample_open _, [.authorize (some sampleCommitment) .mined], ?_⟩
  rw [sample_run (by decide)]
  exact ⟨rfl, by decide⟩

end MemServe.Payment
