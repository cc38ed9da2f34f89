import MemServe.PaidPool

/-!
The abuse defences of the payment gate, under every interleaving of its callers.

The cap on channels is checked in one critical section and used in another, so it holds as long as
the channels on the way are counted in. The budget of bad attempts is exact up to the requests that
were past their lookup when it ran out. The budget belongs to the id and not to who spends it: the
client of a channel is cut off by bad attempts of anyone.
-/

namespace MemServe.Payment

open Crypto Pool

/-- The policy is never changed. -/
lemma Caller.next_policy (c : Caller) (s : Registry) : (c.next s).2.policy = s.policy := by
  cases c with
  | opening cfg => unfold next; dsimp only; split_ifs <;> rfl
  | deposited cfg => unfold next; dsimp only; split_ifs <;> rfl
  | admitted cfg => unfold next; dsimp only; cases Channel.openWith cfg <;> rfl
  | asking r => unfold next; dsimp only; cases s.lookup r.id <;> rfl
  | found r p =>
    unfold next
    dsimp only
    cases s.heap[p]? with
    | none => rfl
    | some ch =>
      dsimp only [Registry.authorize]
      rcases ch.authorize_cases r.commitment r.type with ⟨com, -, -, hok⟩ | ⟨e, herr⟩
      · rw [hok]
      · rw [herr]
  | refused r e =>
    unfold next Registry.recordBad
    dsimp only
    split_ifs <;> rfl
  | _ => rfl

/-- The caller has passed the cap check and not yet registered its channel. -/
def Caller.onTheWay (c : Caller) : Bool :=
  match c with
  | .admitted _ => true
  | .unregistered _ _ => true
  | _ => false

/-- The move is one that passes the cap check. -/
def Caller.passes (c : Caller) (s : Registry) : Bool :=
  match c with
  | .deposited _ => !decide s.full
  | _ => false

/-- **One move** adds to the channels that are registered or on the way only if it passes the cap
check. -/
lemma Caller.next_channels_le (c : Caller) (s : Registry) :
    (c.next s).2.channels.len + (c.next s).1.onTheWay.toNat ≤
      s.channels.len + c.onTheWay.toNat + (c.passes s).toNat := by
  cases c with
  | opening cfg =>
    unfold next
    dsimp only
    split_ifs <;> simp [onTheWay]
  | deposited cfg =>
    unfold next
    dsimp only
    split_ifs with hfull <;> simp [onTheWay, passes, hfull]
  | admitted cfg =>
    unfold next
    dsimp only
    cases Channel.openWith cfg <;> simp [onTheWay, passes]
  | unregistered cfg p =>
    have := s.channels.len_set_le cfg.params.channelID p
    simp only [next, onTheWay, passes, Bool.toNat_true, Bool.toNat_false]
    omega
  | asking r =>
    unfold next
    dsimp only
    cases s.lookup r.id <;> simp [onTheWay]
  | found r p =>
    unfold next
    dsimp only
    cases s.heap[p]? with
    | none => simp [onTheWay]
    | some ch =>
      dsimp only [Registry.authorize]
      rcases ch.authorize_cases r.commitment r.type with ⟨com, -, -, hok⟩ | ⟨e, herr⟩
      · simp [hok, onTheWay]
      · simp [herr, onTheWay]
  | refused r e =>
    unfold next Registry.recordBad
    dsimp only
    split_ifs <;> simp [onTheWay]
  | alerting a o => simp [next, onTheWay, Registry.notify]
  | done o => simp [next]

namespace GatePool

/-- The channels that are registered or on the way. -/
def admitted (s : GatePool) : ℕ := s.shared.channels.len + s.count Caller.onTheWay

/-- The condition an event happens under: a caller passes the cap check only where the channels on
the way leave room too. -/
def Roomy (e : GateEvent) (s : GatePool) : Prop :=
  match e with
  | .arrive _ => True
  | .move i =>
    (s.threads[i]?.any (·.passes s.shared)) = true → (s.admitted : ℤ) < s.shared.policy.maxChannels

instance : (e : GateEvent) → (s : GatePool) → Decidable (s.Roomy e)
  | .arrive _, _ => inferInstanceAs (Decidable True)
  | .move _, _ => inferInstanceAs (Decidable (_ → _))

lemma step_policy (e : GateEvent) (s : GatePool) :
    (s.step gate e).shared.policy = s.shared.policy := by
  rcases @step_cases _ _ _ gate e s with ⟨r, -, h⟩ | ⟨i, c, -, -, h⟩ | h <;> rw [h]
  exact c.next_policy s.shared

lemma admitted_step {e : GateEvent} {s : GatePool} (hroom : s.Roomy e)
    (h : (s.admitted : ℤ) ≤ s.shared.policy.maxChannels) :
    (admitted (s.step gate e) : ℤ) ≤ s.shared.policy.maxChannels := by
  rcases @step_cases _ _ _ gate e s with ⟨r, -, heq⟩ | ⟨i, c, he, hi, heq⟩ | heq
  · have hnew : (gate.start r).onTheWay = false := by cases r <;> rfl
    rw [heq, admitted, count_arrive, hnew]
    exact h
  · have hnext := c.next_channels_le s.shared
    have hcount := count_move Caller.onTheWay hi (c.next s.shared).1 (c.next s.shared).2
    subst he
    have hpass : c.passes s.shared = true → (s.admitted : ℤ) < s.shared.policy.maxChannels :=
      fun hp => hroom (by rw [hi]; exact hp)
    unfold admitted at h hpass ⊢
    rw [heq]
    change (((c.next s.shared).2.channels.len +
      count Caller.onTheWay ⟨(c.next s.shared).2, s.threads.set i (c.next s.shared).1⟩ : ℕ) : ℤ) ≤ _
    cases hp : c.passes s.shared with
    | false =>
      rw [hp, Bool.toNat_false] at hnext
      omega
    | true =>
      rw [hp, Bool.toNat_true] at hnext
      have := hpass hp
      omega
  · rw [heq]
    exact h

end GatePool

/-- **The cap holds**, as long as every caller that passes the check does so where the channels
registered and those on the way to be registered leave room. -/
theorem cap_holds {policy : Policy} (hmax : 0 < policy.maxChannels) {es : List GateEvent}
    (hroom : ∀ pre e post, es = pre ++ e :: post → (GatePool.after policy pre).Roomy e) :
    ∀ pre post, es = pre ++ post → ((GatePool.after policy pre).shared.channels.len : ℤ) ≤
      policy.maxChannels := by
  rintro pre post rfl
  have hguard : Trace.Guarded (step gate) GatePool.Roomy (pre ++ post) (GatePool.new policy) :=
    hroom
  have hinv : (GatePool.after policy pre).shared.policy = policy ∧
      ((GatePool.after policy pre).admitted : ℤ) ≤ policy.maxChannels := by
    refine (Trace.guarded_append_iff.mp hguard).1.invariant
      (p := fun s => s.shared.policy = policy ∧ (GatePool.admitted s : ℤ) ≤ policy.maxChannels) ?_
        ⟨rfl, hmax.le⟩
    rintro e s ⟨hpolicy, hle⟩ he
    rw [← hpolicy] at hle ⊢
    exact ⟨GatePool.step_policy e s, GatePool.admitted_step he hle⟩
  have hlen : (GatePool.after policy pre).shared.channels.len ≤
    (GatePool.after policy pre).admitted := Nat.le_add_right _ _
  omega

/-- The sample channel under another id. -/
def idConfig (id : Hash) : Config :=
  { sampleConfig fairPricing with params := { sampleParams with channelID := id } }

lemma id_accepts (id : Hash) : Channel.Accepts { cfg := idConfig id } sampleCommitment .mined := by
  have htx : (idConfig id).params.channelTx = sampleParams.channelTx := rfl
  have hsighash : (idConfig id).params.channelTx.commitmentSighash 1000 = .ok sampleSighash := by
    rw [htx, sampleSighash_eq]
  exact ⟨rfl, (by decide : (1000 : UInt64) ≤ 1000), (by decide : (1000 : UInt64) ≤ 100000),
    sampleSig, rfl,
    verify_eq_true.mpr ⟨sampleKey, sampleSighash, rfl, by decide, hsighash, sampleSig_verify⟩⟩

/-- Two callers of `OpenChannel`, one after the other. -/
def openInTurn : List GateEvent :=
  [.arrive (.openChannel (idConfig (.fill 32 1))), .arrive (.openChannel (idConfig (.fill 32 2))),
    .move 0, .move 0, .move 0, .move 0, .move 1, .move 1, .move 1, .move 1]

/-- With a cap of one, the first caller gets its channel and the second does not. -/
theorem cap_holds_in_turn :
    ((GatePool.after { maxChannels := 1 } openInTurn).shared.channels.len : ℤ) ≤ 1 := by
  have hguard : Trace.Guarded (step gate) GatePool.Roomy openInTurn
    (GatePool.new { maxChannels := 1 }) := by decide
  exact @cap_holds { maxChannels := 1 } (by decide) _ hguard openInTurn [] (List.append_nil _).symm

/-- The same two callers, in step with each other. -/
def openTogether : List GateEvent :=
  [.arrive (.openChannel (idConfig (.fill 32 1))), .arrive (.openChannel (idConfig (.fill 32 2))),
    .move 0, .move 1, .move 0, .move 1, .move 0, .move 1, .move 0, .move 1]

/-- **Two callers pass the check** of a cap of one before either has registered its channel. -/
theorem cap_exceeded :
    (GatePool.after { maxChannels := 1 } openTogether).shared.channels.len = 2 := by
  decide

/-! ### The budget of bad attempts -/

/-- The failing calls of `Authorize` for an id. -/
def Registry.failures (s : Registry) (id : Hash) : ℕ :=
  s.calls.countP fun c => decide (c.1.id = id) && !c.2

/-- The caller of a query for the id is past its lookup. -/
def Caller.inFlight (id : Hash) (c : Caller) : Bool :=
  match c with
  | .found r _ => decide (r.id = id)
  | .refused r _ => decide (r.id = id)
  | _ => false

/-- `Authorize` has refused a query for the id, which is not yet counted. -/
def Caller.uncounted (id : Hash) (c : Caller) : Bool :=
  match c with
  | .refused r _ => decide (r.id = id)
  | _ => false

/-- **What a move can do** to the calls of `Authorize` and to the counts of bad attempts. -/
inductive Caller.Move (s : Registry) : Caller → Caller → Registry → Prop
  | quiet {c c' : Caller} {s' : Registry} (bad : s'.bad = s.bad) (banned : s'.banned = s.banned)
      (calls : s'.calls = s.calls) (flight : ∀ id, c'.inFlight id = c.inFlight id)
      (counts : ∀ id, c'.uncounted id = c.uncounted id) : Move s c c' s'
  | look {r : PaidQuery} (p : ℕ) (free : s.isBanned r.id = false) :
      Move s (.asking r) (.found r p) s
  | accept {r : PaidQuery} {p : ℕ} {s' : Registry} (bad : s'.bad = s.bad)
      (banned : s'.banned = s.banned) (calls : s'.calls = s.calls ++ [(r, true)]) :
      Move s (.found r p) (.done (.query r (.ok ()))) s'
  | refuse {r : PaidQuery} {p : ℕ} {e : Error} {s' : Registry} (bad : s'.bad = s.bad)
      (banned : s'.banned = s.banned) (calls : s'.calls = s.calls ++ [(r, false)]) :
      Move s (.found r p) (.refused r e) s'
  | forget {r : PaidQuery} {e : Error} {c' : Caller} (off : s.policy.maxBadAttempts ≤ 0)
      (flight : ∀ id, c'.inFlight id = false) (counts : ∀ id, c'.uncounted id = false) :
      Move s (.refused r e) c' s
  | tally {r : PaidQuery} {e : Error} {c' : Caller} {s' : Registry}
      (on : 0 < s.policy.maxBadAttempts)
      (bad : ∀ id, s'.badCount id = s.badCount id + (decide (r.id = id)).toNat)
      (banned : ∀ id, s'.isBanned id =
        (s.isBanned id || decide (r.id = id ∧ s.policy.maxBadAttempts ≤ s'.badCount id)))
      (calls : s'.calls = s.calls) (flight : ∀ id, c'.inFlight id = false)
      (counts : ∀ id, c'.uncounted id = false) : Move s (.refused r e) c' s'

lemma Registry.recordBad_move (s : Registry) (r : PaidQuery) (e : Error) :
    Caller.Move s (.refused r e) (s.recordBad r (.query r (.error (.channel e)))).1
      (s.recordBad r (.query r (.error (.channel e)))).2 := by
  unfold Registry.recordBad
  by_cases hoff : s.policy.maxBadAttempts ≤ 0
  · rw [if_pos hoff]
    exact .forget hoff (fun _ => rfl) fun _ => rfl
  · rw [if_neg hoff]
    have hbad : ∀ id, ((s.bad.set r.id (s.badCount r.id + 1)).get id).getD 0 =
        s.badCount id + (decide (r.id = id)).toNat := by
      intro id
      rw [GoMap.get_set]
      by_cases hid : id = r.id
      · simp [hid]
      · simp [hid, Ne.symm hid, Registry.badCount]
    dsimp only
    split_ifs with hban
    · refine .tally (not_le.mp hoff) hbad (fun id => ?_) rfl (fun _ => rfl) fun _ => rfl
      change ((s.banned.set r.id true).get id).getD false =
        (s.isBanned id ||
          decide (r.id = id ∧ s.policy.maxBadAttempts ≤
            ((s.bad.set r.id (s.badCount r.id + 1)).get id).getD 0))
      rw [GoMap.get_set, hbad]
      by_cases hid : id = r.id
      · subst hid
        simpa using Or.inr hban.1
      · simp [hid, Ne.symm hid, Registry.isBanned]
    · refine .tally (not_le.mp hoff) hbad (fun id => ?_) rfl (fun _ => rfl) fun _ => rfl
      change s.isBanned id =
        (s.isBanned id ||
          decide (r.id = id ∧ s.policy.maxBadAttempts ≤
            ((s.bad.set r.id (s.badCount r.id + 1)).get id).getD 0))
      rw [hbad]
      cases hb : s.isBanned id with
      | true => rfl
      | false =>
        by_cases hid : id = r.id
        · subst hid
          have hfew : ¬s.policy.maxBadAttempts ≤ ((s.badCount r.id + 1 : ℕ) : ℤ) :=
            fun hle => hban ⟨hle, hb⟩
          simpa using hfew
        · simp [Ne.symm hid]

lemma Caller.next_move (c : Caller) (s : Registry) : Caller.Move s c (c.next s).1 (c.next s).2 := by
  cases c with
  | opening cfg =>
    unfold next
    dsimp only
    split_ifs <;> exact .quiet rfl rfl rfl (fun _ => rfl) fun _ => rfl
  | deposited cfg =>
    unfold next
    dsimp only
    split_ifs <;> exact .quiet rfl rfl rfl (fun _ => rfl) fun _ => rfl
  | admitted cfg =>
    unfold next
    dsimp only
    cases Channel.openWith cfg <;> exact .quiet rfl rfl rfl (fun _ => rfl) fun _ => rfl
  | unregistered cfg p => exact .quiet rfl rfl rfl (fun _ => rfl) fun _ => rfl
  | asking r =>
    unfold next
    dsimp only
    cases hl : s.lookup r.id with
    | error e => exact .quiet rfl rfl rfl (fun _ => rfl) fun _ => rfl
    | ok p =>
      refine .look p ?_
      unfold Registry.lookup at hl
      split_ifs at hl with hb
      exact Bool.not_eq_true _ ▸ hb
  | found r p =>
    unfold next
    dsimp only
    cases s.heap[p]? with
    | none => exact .quiet rfl rfl rfl (fun _ => rfl) fun _ => rfl
    | some ch =>
      dsimp only [Registry.authorize]
      rcases ch.authorize_cases r.commitment r.type with ⟨com, -, -, hok⟩ | ⟨e, herr⟩
      · rw [hok]
        exact .accept rfl rfl rfl
      · rw [herr]
        exact .refuse rfl rfl rfl
  | refused r e => exact s.recordBad_move r e
  | alerting a o => exact .quiet rfl rfl rfl (fun _ => rfl) fun _ => rfl
  | done o => exact .quiet rfl rfl rfl (fun _ => rfl) fun _ => rfl

lemma Registry.badCount_congr {s s' : Registry} (h : s'.bad = s.bad) (id : Hash) :
    s'.badCount id = s.badCount id := by
  rw [badCount, badCount, h]

lemma Registry.isBanned_congr {s s' : Registry} (h : s'.banned = s.banned) (id : Hash) :
    s'.isBanned id = s.isBanned id := by
  rw [isBanned, isBanned, h]

lemma Caller.Move.isBanned {s s' : Registry} {c c' : Caller} (hm : c.Move s c' s') {id : Hash}
    (h : s.isBanned id = true) :
    s'.isBanned id = true := by
  cases hm with
  | quiet bad banned calls flight counts => rwa [Registry.isBanned_congr banned]
  | look p free => exact h
  | accept bad banned calls => rwa [Registry.isBanned_congr banned]
  | refuse bad banned calls => rwa [Registry.isBanned_congr banned]
  | forget off flight counts => exact h
  | tally on bad banned calls flight counts => rw [banned, h, Bool.true_or]

lemma Registry.failures_congr {s s' : Registry} (h : s'.calls = s.calls) (id : Hash) :
    s'.failures id = s.failures id := by
  rw [failures, failures, h]

lemma Registry.failures_concat {s s' : Registry} {r : PaidQuery} {ok : Bool}
    (h : s'.calls = s.calls ++ [(r, ok)]) (id : Hash) :
    s'.failures id = s.failures id + (decide (r.id = id) && !ok).toNat := by
  rw [failures, failures, h, List.countP_append, List.countP_singleton, Pool.toNat_eq_ite]

namespace GatePool

/-- The books of an id: every failing call of `Authorize` is counted or about to be, and the id is
banned exactly once the budget is used up. -/
structure Tallied (id : Hash) (s : GatePool) : Prop where
  counted : 0 < s.shared.policy.maxBadAttempts →
    s.shared.failures id = s.shared.badCount id + s.count (Caller.uncounted id)
  banned : s.shared.isBanned id = true ↔
    0 < s.shared.policy.maxBadAttempts ∧ s.shared.policy.maxBadAttempts ≤ s.shared.badCount id

lemma Tallied.move {id : Hash} {s : GatePool} (h : s.Tallied id) {i : ℕ} {c c' : Caller}
    {s' : Registry} (hi : s.threads[i]? = some c) (hpolicy : s'.policy = s.shared.policy)
    (hm : c.Move s.shared c' s') :
    Tallied id ⟨s', s.threads.set i c'⟩ := by
  have hcount := count_move (Caller.uncounted id) hi c' s'
  obtain ⟨hcounted, hbanned⟩ := h
  constructor
  · intro hon
    rw [hpolicy] at hon
    have hold := hcounted hon
    change s'.failures id = s'.badCount id + _
    cases hm with
    | quiet bad banned calls flight counts =>
      rw [counts] at hcount
      rw [Registry.failures_congr calls, Registry.badCount_congr bad]
      omega
    | look p free =>
      simp only [Caller.uncounted] at hcount
      omega
    | accept bad banned calls =>
      rw [Registry.failures_concat calls, Registry.badCount_congr bad]
      simp only [Caller.uncounted, Bool.not_true, Bool.and_false, Bool.toNat_false] at hcount ⊢
      omega
    | refuse bad banned calls =>
      rw [Registry.failures_concat calls, Registry.badCount_congr bad]
      simp only [Caller.uncounted, Bool.not_false, Bool.and_true, Bool.toNat_false] at hcount ⊢
      omega
    | forget off flight counts => omega
    | tally on bad banned calls flight counts =>
      rw [counts] at hcount
      rw [Registry.failures_congr calls, bad]
      simp only [Caller.uncounted, Bool.toNat_false] at hcount
      omega
  · change s'.isBanned id = true ↔ 0 < s'.policy.maxBadAttempts ∧
      s'.policy.maxBadAttempts ≤ s'.badCount id
    rw [hpolicy]
    cases hm with
    | quiet bad banned calls flight counts =>
      rwa [Registry.badCount_congr bad, Registry.isBanned_congr banned]
    | look p free => exact hbanned
    | accept bad banned calls => rwa [Registry.badCount_congr bad, Registry.isBanned_congr banned]
    | refuse bad banned calls => rwa [Registry.badCount_congr bad, Registry.isBanned_congr banned]
    | forget off flight counts => exact hbanned
    | @tally r e _ _ on bad banned calls flight counts =>
      rw [banned, Bool.or_eq_true, hbanned, decide_eq_true_iff, bad]
      by_cases hid : r.id = id
      · simp only [hid, decide_true, Bool.toNat_true, true_and, and_iff_right on]
        omega
      · simp [hid]

lemma Tallied.step {id : Hash} {s : GatePool} (h : s.Tallied id) (e : GateEvent) :
    Tallied id (s.step gate e) := by
  rcases @step_cases _ _ _ gate e s with ⟨r, -, heq⟩ | ⟨i, c, -, hi, heq⟩ | heq
  · have hnew : (gate.start r).uncounted id = false := by cases r <;> rfl
    rw [heq]
    refine ⟨fun hon => ?_, h.banned⟩
    rw [count_arrive, hnew]
    exact h.counted hon
  · rw [heq]
    exact h.move hi (c.next_policy _) (c.next_move _)
  · rwa [heq]

lemma tallied_after (policy : Policy) (es : List GateEvent) (id : Hash) :
    (after policy es).Tallied id := by
  refine Trace.run_invariant (p := Tallied id) (step gate) (fun e _ s h => h.step e)
    ⟨fun _ => rfl, ?_⟩
  refine iff_of_false Bool.false_ne_true ?_
  rintro ⟨h1, h2⟩
  exact absurd (h1.trans_le h2) (lt_irrefl 0)

lemma after_policy (policy : Policy) (es : List GateEvent) :
    (after policy es).shared.policy = policy :=
  Trace.run_invariant (p := fun s : GatePool => s.shared.policy = policy) (step gate)
    (fun e _ s h => (step_policy e s).trans h) rfl

/-- The bad attempts counted for an id and the requests that may yet add to them. -/
def spent (s : GatePool) (id : Hash) : ℕ := s.shared.badCount id + s.count (Caller.inFlight id)

lemma spent_move {id : Hash} {s : GatePool} {i : ℕ} {c c' : Caller} {s' : Registry}
    (hi : s.threads[i]? = some c) (hm : c.Move s.shared c' s') :
    spent ⟨s', s.threads.set i c'⟩ id ≤ s.spent id ∨ s'.isBanned id = false := by
  have hcount := count_move (Caller.inFlight id) hi c' s'
  unfold spent
  change s'.badCount id + _ ≤ _ ∨ _
  cases hm with
  | quiet bad banned calls flight counts =>
    rw [flight] at hcount
    rw [Registry.badCount_congr bad]
    exact .inl (by omega)
  | @look r p free =>
    by_cases hid : r.id = id
    · exact .inr (hid ▸ free)
    · simp only [Caller.inFlight, hid, decide_false, Bool.toNat_false] at hcount
      exact .inl (by omega)
  | accept bad banned calls =>
    rw [Registry.badCount_congr bad]
    simp only [Caller.inFlight, Bool.toNat_false] at hcount
    exact .inl (by omega)
  | refuse bad banned calls =>
    rw [Registry.badCount_congr bad]
    simp only [Caller.inFlight] at hcount
    exact .inl (by omega)
  | forget off flight counts =>
    rw [flight, Bool.toNat_false] at hcount
    exact .inl (by omega)
  | tally on bad banned calls flight counts =>
    rw [flight] at hcount
    simp only [Caller.inFlight, Bool.toNat_false] at hcount
    rw [bad]
    exact .inl (by omega)

lemma spent_step (e : GateEvent) (s : GatePool) (id : Hash) :
    spent (s.step gate e) id ≤ s.spent id ∨ (s.step gate e).shared.isBanned id = false := by
  rcases @step_cases _ _ _ gate e s with ⟨r, -, heq⟩ | ⟨i, c, -, hi, heq⟩ | heq
  · have hnew : (gate.start r).inFlight id = false := by cases r <;> rfl
    rw [heq, spent, count_arrive, hnew]
    exact .inl (le_refl _)
  · rw [heq]
    exact spent_move hi (c.next_move _)
  · rw [heq]
    exact .inl (le_refl _)

lemma isBanned_run {s : GatePool} {id : Hash} (h : s.shared.isBanned id = true)
    (es : List GateEvent) :
    (s.run gate es).shared.isBanned id = true := by
  refine Trace.run_invariant (p := fun s : GatePool => s.shared.isBanned id = true) (step gate)
    (fun e _ s hs => ?_) h
  rcases @step_cases _ _ _ gate e s with ⟨r, -, heq⟩ | ⟨i, c, -, hi, heq⟩ | heq <;> rw [heq]
  · exact hs
  · exact (c.next_move s.shared).isBanned hs
  · exact hs

/-- A request past its lookup is in flight, so the uncounted ones are. -/
lemma uncounted_le (s : GatePool) (id : Hash) :
    s.count (Caller.uncounted id) ≤ s.count (Caller.inFlight id) := by
  refine List.countP_mono_left fun c _ hc => ?_
  cases c with
  | refused r e => exact hc
  | _ => exact absurd hc Bool.false_ne_true

lemma spent_after {policy : Policy} {M P : ℕ} (hM : policy.maxBadAttempts = M) (hpos : 0 < M)
    {id : Hash} (es : List GateEvent)
    (hP : ∀ pre post, es = pre ++ post → (after policy pre).count (Caller.inFlight id) ≤ P) :
    (after policy es).spent id + 1 ≤ M + P := by
  induction es using List.reverseRecOn with
  | nil => exact Nat.add_le_add_right hpos 0 |>.trans (Nat.le_add_right M P)
  | append_singleton es e ih =>
    have hes := ih fun pre post h => hP pre (post ++ [e]) (by rw [h, List.append_assoc])
    have hflight := hP (es ++ [e]) [] (List.append_nil _).symm
    have hbooks := (tallied_after policy (es ++ [e]) id).banned
    rw [after_policy, hM] at hbooks
    have hstep := spent_step e (after policy es) id
    have hrun : after policy (es ++ [e]) = (after policy es).step gate e := run_concat gate es e _
    rw [← hrun] at hstep
    rcases hstep with hle | hfree
    · omega
    · -- the budget is not used up
      rw [hfree] at hbooks
      have hfew : ¬(0 < (M : ℤ) ∧ (M : ℤ) ≤ (after policy (es ++ [e])).shared.badCount id) :=
        fun h => Bool.false_ne_true (hbooks.mpr h)
      unfold spent
      omega

end GatePool

lemma Registry.lookup_banned {s : Registry} {id : Hash} :
    s.lookup id = .error .channelBanned ↔ s.isBanned id = true := by
  unfold lookup
  split_ifs with h
  · exact iff_of_true rfl h
  · refine iff_of_false (fun hl => ?_) h
    cases hget : s.channels.get id <;> rw [hget] at hl <;> cases hl

lemma GatePool.after_move {policy : Policy} {es : List GateEvent} {i : ℕ} {c : Caller}
    (hi : (GatePool.after policy es).threads[i]? = some c) :
    GatePool.after policy (es ++ [.move i]) =
      ⟨(c.next (GatePool.after policy es).shared).2,
        (GatePool.after policy es).threads.set i (c.next (GatePool.after policy es).shared).1⟩ := by
  rw [GatePool.after, run_concat]
  exact step_move hi

/-- **The budget of bad attempts.** With a budget of `M` and at most `P` requests for an id past
their lookup at any time, `Authorize` fails at most `M + P - 1` times for the id. Once the id is
banned, a request that looks it up later is refused, with no call of `Authorize`, whatever happened
in between. -/
theorem bad_attempts_bounded {policy : Policy} {M P : ℕ} (hM : policy.maxBadAttempts = M)
    (hpos : 0 < M) {id : Hash} {es : List GateEvent}
    (hP : ∀ pre post, es = pre ++ post →
      (GatePool.after policy pre).count (Caller.inFlight id) ≤ P) :
    (GatePool.after policy es).shared.failures id ≤ M + P - 1 ∧
    ∀ pre post, es = pre ++ post → (GatePool.after policy pre).shared.isBanned id = true →
      ∀ i r, (GatePool.after policy es).threads[i]? = some (.asking r) → r.id = id →
        GatePool.after policy (es ++ [.move i]) =
          ⟨(GatePool.after policy es).shared,
            (GatePool.after policy es).threads.set i
              (.done (.query r (.error .channelBanned)))⟩ := by
  constructor
  · have hcounted := (GatePool.tallied_after policy es id).counted (by
      rw [GatePool.after_policy, hM]
      exact_mod_cast hpos)
    have hspent := GatePool.spent_after hM hpos es hP
    have hle := (GatePool.after policy es).uncounted_le id
    unfold GatePool.spent at hspent
    omega
  · rintro pre post rfl hban i r hi rfl
    have hstill : (GatePool.after policy (pre ++ post)).shared.isBanned r.id = true := by
      rw [GatePool.after, run_append]
      exact GatePool.isBanned_run hban post
    have hnext : (Caller.asking r).next (GatePool.after policy (pre ++ post)).shared =
        (.done (.query r (.error .channelBanned)),
            (GatePool.after policy (pre ++ post)).shared) := by
      rw [Caller.next, Registry.lookup_banned.mpr hstill]
    rw [GatePool.after_move hi, hnext]

/-- A commitment that nobody signed: its signature is not in the low-S form. -/
def badCommitment : Commitment := ⟨1000, some ⟨1, curveN - 1⟩⟩

/-- A query that somebody other than the client makes with it. -/
def badQuery : PaidQuery := ⟨.outsider, .fill 32 1, some badCommitment, .mined⟩

/-- A query of the client, with a commitment the client signed. -/
def goodQuery : PaidQuery := ⟨.client, .fill 32 1, some sampleCommitment, .mined⟩

/-- The sample channel is opened, and three bad queries are made for it, one after the other. -/
def attack : List GateEvent :=
  [.arrive (.openChannel (idConfig (.fill 32 1))), .move 0, .move 0, .move 0, .move 0,
    .arrive (.query badQuery), .move 1, .move 1, .move 1,
    .arrive (.query badQuery), .move 2, .move 2, .move 2,
    .arrive (.query badQuery), .move 3, .move 3, .move 3]

def attackThenAsk : List GateEvent := attack ++ [.arrive (.query goodQuery)]

/-- A budget of three, spent by one request at a time: `Authorize` fails three times, and the next
query is refused at its lookup. -/
theorem bad_attempts_bounded_sample :
    (GatePool.after { maxBadAttempts := 3 } attackThenAsk).shared.failures (.fill 32 1) ≤ 3 ∧
      (GatePool.after { maxBadAttempts := 3 } (attackThenAsk ++ [.move 4])).shared.calls =
        (GatePool.after { maxBadAttempts := 3 } attackThenAsk).shared.calls := by
  have hprefix : ∀ pre ∈ attackThenAsk.inits,
      (GatePool.after { maxBadAttempts := 3 } pre).count (Caller.inFlight (.fill 32 1)) ≤
        1 := by decide
  have h := @bad_attempts_bounded { maxBadAttempts := 3 } 3 1 rfl (by decide)
    (.fill 32 1) attackThenAsk
    fun pre post hp => hprefix pre ((List.mem_inits _ _).mpr ⟨post, hp.symm⟩)
  have hban : (GatePool.after { maxBadAttempts := 3 } attack).shared.isBanned (.fill 32 1) =
    true := by decide
  refine ⟨h.1, ?_⟩
  rw [h.2 attack _ rfl hban 4 goodQuery rfl rfl]

/-! ### Who spends the budget -/

/-- The failing calls of `Authorize` for an id on requests that are not the client's. -/
def Registry.outsiderFailures (s : Registry) (id : Hash) : ℕ :=
  s.calls.countP fun c => decide (c.1.id = id) && decide (c.1.sender = .outsider) && !c.2

/-- A caller that is told that the id of its query is banned. -/
def Caller.ToldBanned (r : PaidQuery) (c : Caller) : Prop :=
  c = .done (.query r (.error .channelBanned)) ∨ ∃ a,
    c = .alerting a (.query r (.error .channelBanned))

/-- A query that is told so by a move was told so before, or finds the ban at its lookup. -/
lemma Caller.toldBanned_next {c : Caller} {s : Registry} {r : PaidQuery}
    (h : (c.next s).1.ToldBanned r) :
    c.ToldBanned r ∨ s.isBanned r.id = true := by
  cases c with
  | opening cfg =>
    unfold next at h
    dsimp only at h
    split_ifs at h <;> rcases h with h | ⟨a, h⟩ <;> cases h
  | deposited cfg =>
    unfold next at h
    dsimp only at h
    split_ifs at h <;> rcases h with h | ⟨a, h⟩ <;> cases h
  | admitted cfg =>
    unfold next at h
    dsimp only at h
    cases hopen : Channel.openWith cfg <;> rw [hopen] at h <;> rcases h with h | ⟨a, h⟩ <;> cases h
  | unregistered cfg p => rcases h with h | ⟨a, h⟩ <;> cases h
  | asking r' =>
    unfold next at h
    dsimp only at h
    cases hl : s.lookup r'.id with
    | ok p => rw [hl] at h; rcases h with h | ⟨a, h⟩ <;> cases h
    | error e =>
      rw [hl] at h
      rcases h with h | ⟨a, h⟩
      · cases h
        exact .inr (Registry.lookup_banned.mp hl)
      · cases h
  | found r' p =>
    unfold next at h
    dsimp only at h
    cases hch : s.heap[p]? with
    | none => rw [hch] at h; rcases h with h | ⟨a, h⟩ <;> cases h
    | some ch =>
      rw [hch] at h
      dsimp only [Registry.authorize] at h
      rcases ch.authorize_cases r'.commitment r'.type with ⟨com, -, -, hok⟩ | ⟨e, herr⟩
      · rw [hok] at h
        rcases h with h | ⟨a, h⟩ <;> cases h
      · rw [herr] at h
        rcases h with h | ⟨a, h⟩ <;> cases h
  | refused r' e =>
    unfold next Registry.recordBad at h
    dsimp only at h
    split_ifs at h <;> rcases h with h | ⟨a, h⟩ <;> cases h
  | alerting a o =>
    rcases h with h | ⟨a', h⟩
    · cases h
      exact .inl (.inr ⟨a, rfl⟩)
    · cases h
  | done o => exact .inl h

/-- Only a query for a banned id is told so. -/
lemma toldBanned_keeps :
    gate.Keeps (fun _ => True) fun s c => ∀ r, c.ToldBanned r → s.isBanned r.id = true where
  start s a _ r h := by
    rcases h with h | ⟨alert, h⟩ <;> cases a <;> cases h
  next s c _ h := by
    refine ⟨trivial, fun r hr => (c.next_move s).isBanned ?_⟩
    exact (Caller.toldBanned_next hr).elim (h r) fun hb => hb
  others s c c' _ _ h r hr := (c.next_move s).isBanned (h r hr)

/-- **The client is served**, as long as the bad attempts of others leave some of the budget. Every
request that the client made for an id and that reached `Authorize` was accepted, and the budget is
off or the failing calls of others are fewer: then the client was never told that the id is banned.
The budget is what decides: a request for the id is told so exactly if the attempts counted have
used it up. -/
theorem client_not_banned {policy : Policy} {es : List GateEvent} {id : Hash}
    (hclient : ∀ call ∈ (GatePool.after policy es).shared.calls,
      call.1.sender = .client → call.1.id = id → call.2 = true)
    (hfew : policy.maxBadAttempts ≤ 0 ∨
      ((GatePool.after policy es).shared.outsiderFailures id : ℤ) < policy.maxBadAttempts) :
    (∀ r, r.sender = .client → r.id = id → .done (.query r (.error .channelBanned)) ∉
      (GatePool.after policy es).threads) ∧
    ∀ r, r.id = id →
      (((Caller.asking r).next (GatePool.after policy es).shared).1 =
        .done (.query r (.error .channelBanned)) ↔
      0 < policy.maxBadAttempts ∧ policy.maxBadAttempts ≤
        (GatePool.after policy es).shared.badCount id) := by
  have hbooks := GatePool.tallied_after policy es id
  have hcounted := hbooks.counted
  have hbanned := hbooks.banned
  rw [GatePool.after_policy] at hcounted hbanned
  refine ⟨fun r _ hid hr => ?_, fun r hid => ?_⟩
  · have hban :=
      (toldBanned_keeps.run es (s := GatePool.new policy) ⟨trivial, fun c hc => by cases hc⟩).2 _ hr
      r (.inl rfl)
    rw [hid] at hban
    obtain ⟨hon, hle⟩ := hbanned.mp hban
    -- every failing call was somebody else's
    have hsame : (GatePool.after policy es).shared.failures id =
        (GatePool.after policy es).shared.outsiderFailures id := by
      refine List.countP_congr fun call hcall => ?_
      simp only [Bool.and_eq_true, decide_eq_true_eq, Bool.not_eq_true']
      constructor
      · rintro ⟨hc, hbad⟩
        refine ⟨⟨hc, ?_⟩, hbad⟩
        cases hs : call.1.sender with
        | outsider => rfl
        | client => exact absurd (hclient call hcall hs hc) (by simp [hbad])
      · rintro ⟨⟨hc, -⟩, hbad⟩
        exact ⟨hc, hbad⟩
    have := hcounted hon
    omega
  · rw [← hbanned, ← hid, ← Registry.lookup_banned, Caller.next]
    cases (GatePool.after policy es).shared.lookup r.id with
    | ok p => simp
    | error e => simp

lemma Caller.next_found {s : Registry} {r : PaidQuery} {p : ℕ} {ch : Channel} {com : Commitment}
    (hch : s.heap[p]? = some ch) (hcom : r.commitment = some com) (hacc : ch.Accepts com r.type) :
    (Caller.found r p).next s = (.done (.query r (.ok ())),
      { s with heap := s.heap.set p (ch.book com), calls := s.calls ++ [(r, true)] }) := by
  simp only [Caller.next, hch, Registry.authorize, hcom, Channel.authorize_of_accepts hacc]

/-- The sample channel is opened, two bad queries are made for it, and the client asks. -/
def twoBadThenAsk : List GateEvent :=
  [.arrive (.openChannel (idConfig (.fill 32 1))), .move 0, .move 0, .move 0, .move 0,
    .arrive (.query badQuery), .move 1, .move 1, .move 1,
    .arrive (.query badQuery), .move 2, .move 2, .move 2,
    .arrive (.query goodQuery), .move 3]

lemma twoBadThenAsk_state : ∃ s, GatePool.after { maxBadAttempts := 3 } twoBadThenAsk = s ∧
    s.threads[3]? = some (.found goodQuery 0) ∧
    s.shared.heap[0]? = some { cfg := idConfig (.fill 32 1) } ∧
    s.shared.calls = [(badQuery, false), (badQuery, false)] ∧
    s.shared.badCount (.fill 32 1) = 2 :=
  ⟨_, rfl, rfl, by decide, by decide, by decide⟩

/-- Two of three bad attempts are used up by outsiders, and the client is served. -/
theorem client_not_banned_sample :
    ∃ s, GatePool.after { maxBadAttempts := 3 } (twoBadThenAsk ++ [.move 3]) = s ∧
      s.shared.outsiderFailures (.fill 32 1) = 2 ∧
      s.threads[3]? = some (.done (.query goodQuery (.ok ()))) ∧
      Caller.done (.query goodQuery (.error .channelBanned)) ∉ s.threads ∧
      ((Caller.asking goodQuery).next s.shared).1 ≠
        .done (.query goodQuery (.error .channelBanned)) := by
  obtain ⟨b, hb, hthread, hheap, hcalls, hbad⟩ := twoBadThenAsk_state
  have hrun := GatePool.after_move (i := 3) (hb.symm ▸ hthread)
  rw [hb, Caller.next_found hheap rfl (id_accepts _), hcalls] at hrun
  have hserved :=
    @client_not_banned { maxBadAttempts := 3 } (twoBadThenAsk ++ [.move 3]) (.fill 32 1)
  rw [hrun] at hserved
  have hfailures : [(badQuery, false), (badQuery, false), (goodQuery, true)].countP (fun c =>
      decide (c.1.id = .fill 32 1) && decide (c.1.sender = .outsider) && !c.2) = 2 := by decide
  have hclient : ∀ call ∈ [(badQuery, false), (badQuery, false), (goodQuery, true)],
      call.1.sender = .client → call.1.id = .fill 32 1 → call.2 = true := by decide
  obtain ⟨hnever, htold⟩ :=
    hserved hclient (.inr (Int.ofNat_lt.mpr (hfailures.trans_lt (by decide))))
  refine ⟨_, hrun, hfailures, ?_, hnever goodQuery rfl rfl, fun h => ?_⟩
  · exact List.getElem?_set_self (List.getElem?_eq_some_iff.mp hthread).1
  · have hspent : (3 : ℤ) ≤ b.shared.badCount (.fill 32 1) := ((htold goodQuery rfl).mp h).2
    rw [hbad] at hspent
    exact absurd hspent (by decide)

/-- **Outsiders cut the client off.** After three bad queries that nobody signed, the query of the
client is told that the id is banned, although the channel would accept its commitment. -/
theorem client_banned_by_outsiders :
    verify (idConfig (.fill 32 1)).clientPub (idConfig (.fill 32 1)).params 1000
      ⟨1, curveN - 1⟩ = false ∧
      (∃ ch, (GatePool.after { maxBadAttempts := 3 } attackThenAsk).shared.heap = [ch] ∧
        (GatePool.after { maxBadAttempts := 3 } attackThenAsk).shared.channels.get
          (.fill 32 1) = some 0 ∧
        ch.Accepts sampleCommitment .mined) ∧
      (GatePool.after { maxBadAttempts := 3 } (attackThenAsk ++ [.move 4])).threads[4]? =
        some (.done (.query goodQuery (.error .channelBanned))) := by
  have hheap : (GatePool.after { maxBadAttempts := 3 } attackThenAsk).shared.heap =
      [{ cfg := idConfig (.fill 32 1) }] := by
    decide
  have hget : (GatePool.after { maxBadAttempts := 3 } attackThenAsk).shared.channels.get
      (.fill 32 1) = some 0 := by
    decide
  exact ⟨by decide, ⟨_, hheap, hget, id_accepts _⟩, rfl⟩

end MemServe.Payment
