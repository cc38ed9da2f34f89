import MemServe.Prepay

/-!
Settlement takes exactly what the client signed.

Whatever the prices, and whether or not the required amounts wrap, a channel never holds more
than the deposit, and what it holds is the amount of the last commitment it accepted. Settling
divides the deposit between the parties, once, and nothing happens on the channel afterwards.
-/

namespace MemServe.Payment

open Crypto Bsvtx

/-- The commitment is signed, in the low-S form, by the client of the channel over what it pays. -/
def Channel.Signed (ch : Channel) (com : Commitment) : Prop :=
  ∃ sig pub h, com.sig = some sig ∧ ch.cfg.clientPub = some pub ∧ sig.isLowS = true ∧
    ch.cfg.params.channelTx.commitmentSighash com.cumAmount = .ok h ∧
      Crypto.verify pub h.1 sig = true

lemma Channel.Accepts.isSigned {ch : Channel} {com : Commitment} {q : QueryType}
    (h : ch.Accepts com q) : ch.Signed com := by
  obtain ⟨sig, hsig, hv⟩ := h.signed
  obtain ⟨pub, hash, hpub, hlow, hhash, hver⟩ := verify_eq_true.mp hv
  exact ⟨sig, pub, hash, hsig, hpub, hlow, hhash, hver⟩

/-- What a channel holds was signed for and is within the deposit. -/
structure Progress.Backed (s : Progress) : Prop where
  within : s.ch.cumPaid ≤ s.ch.cfg.deposit
  best : s.log ≠ [] → ∃ com, s.ch.best = some com ∧ com.cumAmount = s.ch.cumPaid ∧ s.ch.Signed com

lemma Progress.Backed.step {s : Progress} (h : s.Backed) (op : Op) :
    (s.step op).Backed ∧ (s.step op).ch.cfg = s.ch.cfg := by
  cases op with
  | quote q => exact ⟨h, rfl⟩
  | shouldSettle now => exact ⟨h, rfl⟩
  | settle =>
    simp only [Progress.step, Channel.settle_eq]
    exact ⟨⟨h.within, h.best⟩, trivial⟩
  | authorize c q =>
    rcases s.ch.authorize_cases c q with ⟨com, rfl, hacc, hok⟩ | ⟨e, herr⟩
    · simp only [Progress.step, hok]
      exact ⟨⟨hacc.within, fun _ => ⟨com, rfl, rfl, hacc.isSigned⟩⟩, rfl⟩
    · simp only [Progress.step, herr]
      exact ⟨h, trivial⟩

lemma Progress.Backed.run {s : Progress} (h : s.Backed) (ops : List Op) :
    (s.run ops).Backed ∧ (s.run ops).ch.cfg = s.ch.cfg := by
  induction ops generalizing s with
  | nil => exact ⟨h, rfl⟩
  | cons op ops ih =>
    obtain ⟨hstep, hcfg⟩ := h.step op
    obtain ⟨hrun, hcfg'⟩ := ih hstep
    exact ⟨hrun, hcfg'.trans hcfg⟩

lemma backed_of_open {cfg : Config} {ch : Channel} (hopen : Channel.openWith cfg = .ok ch) :
    Progress.Backed ⟨ch, []⟩ ∧ ch.cfg.deposit = cfg.deposit ∧ ch.cfg.clientPub = cfg.clientPub := by
  obtain ⟨params, rfl, -⟩ := Channel.openWith_ok hopen
  exact ⟨⟨UInt64.le_iff_toNat_le.mpr (Nat.zero_le _), fun h => absurd rfl h⟩, rfl, rfl⟩

/-! ### Settling -/

/-- The sums that a settlement divides. -/
structure Settlement.Exact (st : Settlement) (deposit paid : UInt64) : Prop where
  paid : st.toServer = paid
  deposit : st.toServer.toNat + st.toClient.toNat = deposit.toNat
  fee : st.miningFee.toNat + st.netServer.toNat = st.toServer.toNat

lemma Channel.settle_ok {ch : Channel} (hwithin : ch.cumPaid ≤ ch.cfg.deposit) {st : Settlement}
    {ch' : Channel} (h : ch.settle = (.ok st, ch')) :
    st.Exact ch.cfg.deposit ch.cumPaid ∧ ch' = { ch with closed := true } := by
  have hlive : ¬ch.closed = true := by
    intro hclosed
    rw [settle, if_pos hclosed] at h
    cases h
  rw [settle, if_neg hlive] at h
  obtain ⟨hst, hch⟩ := Prod.mk.inj h
  cases hst
  have hle := UInt64.le_iff_toNat_le.mp hwithin
  refine ⟨⟨rfl, ?_, ?_⟩, hch.symm⟩
  · dsimp only
    rw [UInt64.toNat_sub_of_le _ _ hwithin]
    omega
  · have hmin :
        (if ch.cfg.pricing.settleFee > ch.cumPaid then ch.cumPaid else ch.cfg.pricing.settleFee) ≤
        ch.cumPaid := by
      split_ifs with hgt
      · exact UInt64.le_refl _
      · exact UInt64.not_lt.mp hgt
    have hmin' := UInt64.le_iff_toNat_le.mp hmin
    dsimp only
    rw [UInt64.toNat_sub_of_le _ _ hmin]
    omega

/-- No call changes a closed channel, and neither `Authorize` nor `Settle` succeeds on it. -/
def Channel.Dead (ch : Channel) : Prop :=
  (∀ c q, ch.authorize c q = (.error .closed, ch)) ∧ ch.settle = (.error .closed, ch)

lemma Channel.dead_of_closed {ch : Channel} (h : ch.closed = true) : ch.Dead :=
  ⟨fun _ _ => if_pos h, if_pos h⟩

lemma Progress.run_of_dead {s : Progress} (h : s.ch.Dead) (ops : List Op) : s.run ops = s := by
  induction ops with
  | nil => rfl
  | cons op ops ih =>
    have hstep : s.step op = s := by
      cases op with
      | quote q => rfl
      | shouldSettle now => rfl
      | settle => simp only [Progress.step, h.2]
      | authorize c q => simp only [Progress.step, h.1]
    rw [Progress.run, List.foldl_cons, hstep]
    exact ih

/-- **Settlement is exactly what the client signed.** Along any calls on an opened channel the
amount paid stays within the deposit; once an access was authorized, the best commitment is for
exactly that amount and carries a low-S signature of the client over it. A call of `Settle` that
succeeds divides the deposit without a wrap, pays the server what was paid, and is the last call
that succeeds or changes the channel. -/
theorem settlement_exact {cfg : Config} {ch : Channel} (hopen : Channel.openWith cfg = .ok ch)
    (ops : List Op) :
    (ch.run ops).ch.cumPaid ≤ cfg.deposit ∧
    ((ch.run ops).log ≠ [] → ∃ com sig pub h, (ch.run ops).ch.best = some com ∧
      com.cumAmount = (ch.run ops).ch.cumPaid ∧
      com.sig = some sig ∧ cfg.clientPub = some pub ∧ sig.isLowS = true ∧
      (ch.run ops).ch.cfg.params.channelTx.commitmentSighash (ch.run ops).ch.cumPaid = .ok h ∧
      Crypto.verify pub h.1 sig = true) ∧
    ∀ st ch', (ch.run ops).ch.settle = (.ok st, ch') →
      st.Exact cfg.deposit (ch.run ops).ch.cumPaid ∧
      ∀ post, (ch.run (ops ++ .settle :: post)).ch = ch' ∧
        (ch.run (ops ++ .settle :: post)).ch.Dead := by
  obtain ⟨hnew, hdep, hpub⟩ := backed_of_open hopen
  obtain ⟨hb, hcfg⟩ := hnew.run ops
  rw [← hdep, ← hpub]
  change (ch.run ops).Backed at hb
  change (ch.run ops).ch.cfg = ch.cfg at hcfg
  refine ⟨hcfg ▸ hb.within, fun hlog => ?_, fun st ch' hst => ?_⟩
  · obtain ⟨com, hbest, hcum, sig, pub, h, hsig, hp, hlow, hh, hver⟩ := hb.best hlog
    rw [hcfg] at hp
    exact ⟨com, sig, pub, h, hbest, hcum, hsig, hp, hlow, hcum ▸ hh, hver⟩
  · obtain ⟨hexact, rfl⟩ := Channel.settle_ok hb.within hst
    rw [hcfg] at hexact
    refine ⟨hexact, fun post => ?_⟩
    have hdead : Channel.Dead { (ch.run ops).ch with closed := true } := Channel.dead_of_closed rfl
    have hstep : (ch.run ops).step .settle =
        { ch.run ops with ch := { (ch.run ops).ch with closed := true } } := by
      rw [Progress.step, Channel.settle_eq]
    have hrun : (ch.run (ops ++ .settle :: post)).ch = { (ch.run ops).ch with closed := true } := by
      rw [Channel.run_append, Progress.run, List.foldl_cons, hstep]
      exact congrArg Progress.ch (Progress.run_of_dead hdead post)
    rw [hrun]
    exact ⟨rfl, hdead⟩

/-- The sample channel settles after one access. -/
theorem settlement_exact_sample :
    Channel.openWith (sampleConfig fairPricing) = .ok (sampleChannel fairPricing) ∧
      ((sampleChannel fairPricing).run [.authorize (some sampleCommitment) .mined,
        .settle]).ch.Dead := by
  have hopen := sample_open fairPricing
  have h := (settlement_exact hopen [.authorize (some sampleCommitment) .mined]).2.2
  rw [sample_run (by decide)] at h
  exact ⟨hopen, ((h _ _ rfl).2 []).2⟩

end MemServe.Payment
