import MemServe.Settle

/-!
A commitment is accepted once, as long as the next access costs something.

`Authorize` keeps no list of what it has accepted: a commitment is refused the second time only
because it does not cover one access more. An access that costs nothing, or whose required amount
wraps to at most what is paid, is sold for the commitment that paid for the last one.
-/

namespace MemServe.Payment

namespace Channel

/-- What the next access adds to the required amount, a 64-bit sum. -/
def charge (ch : Channel) (q : QueryType) : UInt64 :=
  ch.cfg.pricing.service q + ch.feeComponent (ch.accesses + 1)

/-- The next access is charged for, and the charge does not wrap the required amount. -/
def Charges (ch : Channel) (q : QueryType) : Prop :=
  ch.charge q ≠ 0 ∧ ch.cumPaid.toNat + (ch.charge q).toNat < 2 ^ 64

instance (ch : Channel) (q : QueryType) : Decidable (ch.Charges q) :=
  inferInstanceAs (Decidable (_ ∧ _))

lemma quote_eq (ch : Channel) (q : QueryType) : ch.quote q = ch.cumPaid + ch.charge q := by
  rw [quote, charge, UInt64.add_assoc]

/-- **Exactly where an access is charged for**, it requires more than is paid. -/
lemma lt_quote_iff (ch : Channel) (q : QueryType) : ch.cumPaid < ch.quote q ↔ ch.Charges q := by
  have hpaid := ch.cumPaid.toNat_lt
  have hcharge := (ch.charge q).toNat_lt
  have hzero : ch.charge q = 0 ↔ (ch.charge q).toNat = 0 := UInt64.toNat_inj.symm
  rw [UInt64.lt_iff_toNat_lt, quote_eq, UInt64.toNat_add, Charges, ne_eq, hzero]
  omega

end Channel

/-! ### The commitments of a run -/

/-- The commitment a call gets accepted, if any. -/
def Op.accepted (op : Op) (ch : Channel) : List Commitment :=
  match op with
  | .authorize c q => if (ch.authorize c q).1.isOk then c.toList else []
  | _ => []

/-- The commitments accepted along a run, in order. -/
def Progress.accepted (s : Progress) : List Op → List Commitment
  | [] => []
  | op :: ops => op.accepted s.ch ++ (s.step op).accepted ops

/-- The condition a call is made under: after the first access, what is accepted pays for an access
that is charged for. -/
def Op.Charged (op : Op) (s : Progress) : Prop :=
  match op with
  | .authorize c q => s.log ≠ [] → (s.ch.authorize c q).1 = .ok () → s.ch.Charges q
  | _ => True

lemma Progress.accepted_of_accepts {s : Progress} {com : Commitment} {q : QueryType}
    (h : s.ch.Accepts com q) (ops : List Op) :
    s.accepted (.authorize (some com) q :: ops) =
      com :: Progress.accepted ⟨s.ch.book com, s.log ++ [q]⟩ ops := by
  simp only [Progress.accepted, Op.accepted, Progress.step, Channel.authorize_of_accepts h]
  rfl

/-- **What a call does**: it books a commitment that the channel accepts, or accepts none and
changes nothing but whether the channel is closed. -/
lemma Progress.step_cases (s : Progress) (op : Op) :
    (∃ com q, op = .authorize (some com) q ∧ s.ch.Accepts com q ∧ op.accepted s.ch = [com] ∧
      s.step op = ⟨s.ch.book com, s.log ++ [q]⟩) ∨
    (op.accepted s.ch = [] ∧ ∃ closed,
      s.step op = { s with ch := { s.ch with closed := closed } }) := by
  cases op with
  | quote q => exact .inr ⟨rfl, s.ch.closed, rfl⟩
  | shouldSettle now => exact .inr ⟨rfl, s.ch.closed, rfl⟩
  | settle =>
    refine .inr ⟨rfl, true, ?_⟩
    rw [Progress.step, Channel.settle_eq]
  | authorize c q =>
    rcases s.ch.authorize_cases c q with ⟨com, rfl, hacc, hok⟩ | ⟨e, herr⟩
    · refine .inl ⟨com, q, rfl, hacc, ?_, ?_⟩
      · simp only [Op.accepted, hok]
        rfl
      · simp only [Progress.step, hok]
    · refine .inr ⟨?_, s.ch.closed, ?_⟩
      · simp only [Op.accepted, herr]
        rfl
      · simp only [Progress.step, herr]

lemma Progress.accepted_append (s : Progress) (ops ops' : List Op) :
    s.accepted (ops ++ ops') = s.accepted ops ++ (s.run ops).accepted ops' := by
  induction ops generalizing s with
  | nil => rfl
  | cons op ops ih =>
    rw [List.cons_append, Progress.accepted, Progress.accepted, ih, List.append_assoc]
    rfl

/-- The calls of a run are all made under that condition. -/
abbrev Progress.Charging (s : Progress) (ops : List Op) : Prop :=
  Trace.Guarded (fun op s => s.step op) Op.Charged ops s

lemma Progress.lt_of_mem_accepted {s : Progress} (hlog : s.log ≠ []) {ops : List Op}
    (hc : s.Charging ops) {com : Commitment}
    (hcom : com ∈ s.accepted ops) : s.ch.cumPaid < com.cumAmount := by
  induction ops generalizing s with
  | nil => cases hcom
  | cons op ops ih =>
    obtain ⟨hop, hrest⟩ := Trace.guarded_cons_iff.mp hc
    rw [Progress.accepted, List.mem_append] at hcom
    rcases s.step_cases op with ⟨com', q, rfl, hacc, hnew, hstep⟩ | ⟨hnone, closed, hstep⟩
    · have hlt : s.ch.cumPaid < com'.cumAmount := by
        have hcharged := hop hlog (by rw [Channel.authorize_of_accepts hacc])
        exact UInt64.lt_of_lt_of_le ((s.ch.lt_quote_iff q).mpr hcharged) hacc.covers
      rw [hnew, List.mem_singleton] at hcom
      rcases hcom with rfl | hcom
      · exact hlt
      · rw [hstep] at hrest hcom
        exact UInt64.lt_trans hlt
          (ih (List.append_ne_nil_of_right_ne_nil _ (List.cons_ne_nil _ _)) hrest hcom)
    · rw [hnone] at hcom
      rw [hstep] at hrest hcom
      have hlater :=
        @ih { s with ch := { s.ch with closed := closed } } hlog hrest
        (hcom.resolve_left List.not_mem_nil)
      exact hlater

lemma Progress.accepted_pairwise {s : Progress} {ops : List Op} (hc : s.Charging ops) :
    (s.accepted ops).Pairwise fun a b => a.cumAmount < b.cumAmount := by
  induction ops generalizing s with
  | nil => exact List.Pairwise.nil
  | cons op ops ih =>
    obtain ⟨-, hrest⟩ := Trace.guarded_cons_iff.mp hc
    rw [Progress.accepted]
    rcases s.step_cases op with ⟨com, q, -, -, hnew, hstep⟩ | ⟨hnone, -⟩
    · rw [hnew, List.singleton_append, List.pairwise_cons]
      refine ⟨fun b hb => ?_, ih hrest⟩
      rw [hstep] at hrest hb
      exact lt_of_mem_accepted
        (List.append_ne_nil_of_right_ne_nil _ (List.cons_ne_nil _ _)) hrest hb
    · rw [hnone]
      exact ih hrest

lemma Channel.best_mem_accepted (ch : Channel) {ops : List Op} (hlog : (ch.run ops).log ≠ []) :
    ∃ com ∈ Progress.accepted ⟨ch, []⟩ ops, (ch.run ops).ch.best = some com := by
  induction ops using List.reverseRecOn with
  | nil => exact absurd rfl hlog
  | append_singleton ops op ih =>
    rw [Progress.accepted_append, Progress.accepted]
    rw [Channel.run_append] at hlog ⊢
    change ((ch.run ops).step op).log ≠ [] at hlog
    change ∃ com ∈ _ ++ (op.accepted (ch.run ops).ch ++ []),
      ((ch.run ops).step op).ch.best = some com
    rcases (ch.run ops).step_cases op with ⟨com, q, -, -, hnew, hstep⟩ | ⟨hnone, closed, hstep⟩
    · rw [hnew, hstep]
      exact ⟨com, List.mem_append_right _ List.mem_cons_self, rfl⟩
    · rw [hstep] at hlog ⊢
      obtain ⟨com, hcom, hbest⟩ := ih hlog
      exact ⟨com, List.mem_append_left _ hcom, hbest⟩

/-- **A commitment is accepted once.** A channel is opened and called in any way, such that after
the first access no commitment is accepted for an access that is not charged for. Then the accepted
amounts grow strictly. The condition is exact: an open channel that has sold an access refuses all
the commitments it has accepted, for an access of a type, exactly if that access is charged for. -/
theorem commitment_accepted_once {cfg : Config} {ch : Channel}
    (hopen : Channel.openWith cfg = .ok ch) {ops : List Op}
    (hc : ∀ pre op post, ops = pre ++ op :: post → op.Charged (ch.run pre)) :
    ((Progress.accepted ⟨ch, []⟩ ops).Pairwise fun a b => a.cumAmount < b.cumAmount) ∧
    ∀ q, (ch.run ops).ch.closed = false → (ch.run ops).log ≠ [] →
      ((∀ com ∈ Progress.accepted ⟨ch, []⟩ ops,
        ((ch.run ops).ch.authorize (some com) q).1 ≠ .ok ()) ↔
        (ch.run ops).ch.Charges q) := by
  have hcharging : Progress.Charging ⟨ch, []⟩ ops := hc
  refine ⟨Progress.accepted_pairwise hcharging, fun q hlive hlog =>
    ⟨fun hreplay => ?_, fun hcharges com hcom hok => ?_⟩⟩
  · -- the best commitment would pay for the access too
    by_contra hfree
    obtain ⟨hb, -⟩ := (backed_of_open hopen).1.run ops
    change (ch.run ops).Backed at hb
    obtain ⟨com, hcom, hbest⟩ := ch.best_mem_accepted hlog
    obtain ⟨com', hbest', hcum, sig, pub, h, hsig, hpub, hlow, hh, hv⟩ := hb.best hlog
    rw [hbest', Option.some.injEq] at hbest
    subst hbest
    have hacc : (ch.run ops).ch.Accepts com' q := by
      refine ⟨hlive, ?_, hcum ▸ hb.within, sig, hsig,
        verify_eq_true.mpr ⟨pub, h, hpub, hlow, hh, hv⟩⟩
      rw [hcum]
      exact UInt64.not_lt.mp fun hlt => hfree (((ch.run ops).ch.lt_quote_iff q).mp hlt)
    exact hreplay com' hcom (by rw [Channel.authorize_of_accepts hacc])
  · -- the run that goes on with the replay has growing amounts too
    have hmore : Progress.Charging ⟨ch, []⟩ (ops ++ [.authorize (some com) q]) :=
      Trace.guarded_append_iff.mpr
        ⟨hcharging, Trace.guarded_cons_iff.mpr ⟨fun _ _ => hcharges, Trace.guarded_nil _⟩⟩
    have hgrow := Progress.accepted_pairwise hmore
    have hlast : Op.accepted (.authorize (some com) q) (ch.run ops).ch = [com] := by
      simp only [Op.accepted, hok]
      rfl
    rw [Progress.accepted_append, Progress.accepted, Progress.accepted, List.append_nil,
      List.pairwise_append] at hgrow
    have hlt := hgrow.2.2 com hcom com (by
      change com ∈ Op.accepted _ (ch.run ops).ch
      rw [hlast]
      exact List.mem_singleton_self com)
    exact absurd hlt (UInt64.lt_irrefl _)

/-- The first commitment of the sample channel is not accepted for a second access. -/
theorem commitment_accepted_once_sample :
    Channel.openWith (sampleConfig fairPricing) = .ok (sampleChannel fairPricing) ∧
      (((sampleChannel fairPricing).run [.authorize (some sampleCommitment) .mined]).ch.authorize
        (some sampleCommitment) .mined).1 ≠
        .ok () := by
  have hopen := sample_open fairPricing
  have hrun := @sample_run fairPricing .mined (by decide)
  have hc : ∀ pre op post, [Op.authorize (some sampleCommitment) .mined] = pre ++ op :: post →
      op.Charged ((sampleChannel fairPricing).run pre) := by
    intro pre op post hp
    cases pre with
    | nil =>
      cases hp
      exact fun hlog => absurd rfl hlog
    | cons p pre => simp at hp
  have h := (commitment_accepted_once hopen hc).2 .mined (by rw [hrun]; rfl) (by rw [hrun]; simp)
  obtain ⟨com, hcom, hbest⟩ :=
    @Channel.best_mem_accepted (sampleChannel fairPricing)
    [.authorize (some sampleCommitment) .mined]
    (by rw [hrun]; simp)
  rw [hrun] at h hbest ⊢
  cases hbest
  exact ⟨hopen, h.mpr (by decide) _ hcom⟩

/-- Metered prices with one type of query for free. -/
def freeSeenPricing : Pricing := { perType := #v[0, 300, 300, 300], settleFee := 700 }

/-- **A replay.** A commitment of 1000 pays for a first access; the same commitment is then accepted
for an access that costs nothing, as often as it is sent. -/
theorem commitment_accepted_twice :
    Channel.openWith (sampleConfig freeSeenPricing) = .ok (sampleChannel freeSeenPricing) ∧
      Progress.accepted ⟨sampleChannel freeSeenPricing, []⟩
        [.authorize (some sampleCommitment) .mined, .authorize (some sampleCommitment) .seen] =
          [sampleCommitment, sampleCommitment] := by
  have hfirst := @sample_accepts freeSeenPricing .mined (by decide)
  have hsecond : ((sampleChannel freeSeenPricing).book sampleCommitment).Accepts
    sampleCommitment .seen :=
    ⟨rfl, by decide, (by decide : (1000 : UInt64) ≤ 100000), sample_signed⟩
  refine ⟨sample_open _, ?_⟩
  rw [Progress.accepted_of_accepts hfirst, Progress.accepted_of_accepts hsecond, Progress.accepted]

end MemServe.Payment
