import MemServe.Gate

/-!
Runs of the batching gate: every request is in one batch or waits, every result is sent once, and a
queue that is not empty has a timer or a callback that will come for it.

Each part is kept by every move, so it holds under every interleaving.
-/

namespace MemServe.Accel

/-- The books of a run: an item of a batch has been sent its result or is owed it by one goroutine,
an item of the queue has been sent nothing, and what was sent is right. -/
structure Run.Settled (p : Run) : Prop where
  one : ∀ i < p.shared.batches.flatten.length,
    (p.shared.sent i).length + p.count (Thread.owes i) = 1
  none : ∀ i, p.shared.batches.flatten.length ≤ i → p.shared.sent i = []
  right : ∀ i r, p.shared.submitted[i]? = some r → ∀ b ∈ p.shared.sent i, b = reference r

lemma Thread.owes_iff {i : ℕ} {t : Thread} : t.owes i = true ↔ i ∈ t.owed.map Item.res := by
  simp [Thread.owes]

lemma count_owes_eq_zero {p : Run} (hq : p.shared.Queue) (hfit : ∀ t ∈ p.threads, t.Fit p.shared)
    {i : ℕ}
    (hi : p.shared.batches.flatten.length ≤ i) : p.count (Thread.owes i) = 0 := by
  refine List.countP_eq_zero.mpr fun t ht how => ?_
  obtain ⟨it, hit, rfl⟩ := List.mem_map.mp (Thread.owes_iff.mp how)
  have := (hq.item ((hfit t ht).taken it hit)).1
  omega

namespace Run.Settled

variable {p p' : Run}

lemma right_of_sent (h : p.Settled) (hq : p.shared.Queue)
    (hr : p.shared.submitted <+: p'.shared.submitted) (hs : ∀ i, p'.shared.sent i = p.shared.sent i)
    {i : ℕ} {r : Request} (hi : p'.shared.submitted[i]? = some r) {b : Bool}
    (hb : b ∈ p'.shared.sent i) : b = reference r := by
  rw [hs] at hb
  rcases lt_or_ge i p.shared.submitted.length with hlt | hge
  · obtain ⟨new, hnew⟩ := hr
    rw [← hnew, List.getElem?_append_left hlt] at hi
    exact h.right i r hi b hb
  · rw [h.none i (hq.length_le.trans hge)] at hb
    cases hb

lemma quiet (h : p.Settled) (hq : p.shared.Queue) (hr : p.shared.submitted <+: p'.shared.submitted)
    (hb : p'.shared.batches = p.shared.batches) (hs : ∀ i, p'.shared.sent i = p.shared.sent i)
    (hc : ∀ i, p'.count (Thread.owes i) = p.count (Thread.owes i)) : p'.Settled where
  one i hi := by
    rw [hb] at hi
    rw [hs, hc, h.one i hi]
  none i hi := by
    rw [hb] at hi
    rw [hs, h.none i hi]
  right i r hi b hb := h.right_of_sent hq hr hs hi hb

lemma take (h : p.Settled) (hq : p.shared.Queue) (hfit : ∀ t ∈ p.threads, t.Fit p.shared)
    (hr : p.shared.submitted <+: p'.shared.submitted) {n : ℕ}
    (hlen : p'.shared.batches.flatten.length = p.shared.batches.flatten.length + n)
    (hs : ∀ i, p'.shared.sent i = p.shared.sent i)
    (hold : ∀ i < p.shared.batches.flatten.length,
      p'.count (Thread.owes i) = p.count (Thread.owes i))
    (hnew : ∀ i, p.shared.batches.flatten.length ≤ i → i < p'.shared.batches.flatten.length →
      p'.count (Thread.owes i) = p.count (Thread.owes i) + 1) : p'.Settled where
  one i hi := by
    rw [hs]
    rcases lt_or_ge i p.shared.batches.flatten.length with hlt | hge
    · rw [hold i hlt, h.one i hlt]
    · rw [hnew i hge hi, count_owes_eq_zero hq hfit hge, h.none i hge]
      rfl
  none i hi := by rw [hs, h.none i (by omega)]
  right i r hi b hb := h.right_of_sent hq hr hs hi hb

lemma deliver (h : p.Settled) {it : Item} {b : Bool}
    (hit : it.res < p.shared.batches.flatten.length)
    (hreq : p.shared.submitted[it.res]? = some it.req) (hright : b = reference it.req)
    (hr : p'.shared.submitted = p.shared.submitted) (hb : p'.shared.batches = p.shared.batches)
    (hs : ∀ i, p'.shared.sent i = if i = it.res then p.shared.sent i ++ [b] else p.shared.sent i)
    (hself : p'.count (Thread.owes it.res) + 1 = p.count (Thread.owes it.res))
    (hothers : ∀ i, i ≠ it.res → p'.count (Thread.owes i) = p.count (Thread.owes i)) :
    p'.Settled where
  one i hi := by
    rw [hb] at hi
    have hone := h.one i hi
    rw [hs]
    split_ifs with heq
    · subst heq
      rw [List.length_append, List.length_singleton]
      omega
    · rw [hothers i heq, hone]
  none i hi := by
    rw [hb] at hi
    rw [hs, if_neg (by omega), h.none i hi]
  right i r hi c hc := by
    rw [hr] at hi
    rw [hs] at hc
    split_ifs at hc with heq
    · subst heq
      rcases List.mem_append.mp hc with hc | hc
      · exact h.right _ r hi c hc
      · rw [hreq] at hi
        cases hi
        rw [List.mem_singleton.mp hc, hright]
    · exact h.right i r hi c hc

lemma move {v : BatchVerifier} (h : p.Settled) (hq : p.shared.Queue)
    (hfit : ∀ t ∈ p.threads, t.Fit p.shared) {j : ℕ} {t : Thread} (hj : p.threads[j]? = some t) :
    Run.Settled ⟨(t.next v p.shared).2, p.threads.set j (t.next v p.shared).1⟩ := by
  have ht := hfit t (List.mem_of_getElem? hj)
  have hq' := t.next_queue v hq
  have hmove := t.next_move v p.shared
  generalize t.next v p.shared = r at hmove hq'
  obtain ⟨t', g'⟩ := r
  -- what `t` owed is traded for what `t'` owes
  have hcount := fun i => Pool.count_move (Thread.owes i) hj t' g'
  have hkeep : ∀ {i : ℕ}, t'.owes i = t.owes i →
      Pool.count (Thread.owes i) ⟨g', p.threads.set j t'⟩ = p.count (Thread.owes i) := by
    intro i howes
    have hc := hcount i
    rw [howes] at hc
    exact Nat.add_right_cancel hc
  cases hmove with
  | quiet hr hb hs ho =>
    refine h.quiet hq hr hb hs fun i => hkeep ?_
    rcases ho with rfl | ⟨ho, ho'⟩
    · rfl
    · rw [Thread.owes, Thread.owes, ho, ho']
  | take batch hr hb hs ho =>
    have hlen : g'.batches.flatten.length = p.shared.batches.flatten.length + batch.length := by
      rw [hb, List.flatten_append, List.flatten_singleton, List.length_append]
    have hids : ∀ i, (Thread.flush batch).owes i = true ↔
        p.shared.batches.flatten.length ≤ i ∧
            i < p.shared.batches.flatten.length + batch.length := by
      intro i
      rw [Thread.owes_iff]
      change i ∈ batch.map Item.res ↔ _
      rw [hq'.last_batch hb, List.mem_range'_1]
    have hnot : ∀ i, t.owes i = false := fun i => by rw [Thread.owes, ho]; rfl
    refine h.take hq hfit hr hlen hs (fun i hi => ?_) fun i hge hi => ?_
    · have hc := hcount i
      have hfl : (Thread.flush batch).owes i = false := by
        rw [Bool.eq_false_iff, ne_eq, hids]
        omega
      rw [hnot, hfl] at hc
      exact hc
    · have hc := hcount i
      rw [hnot, (hids i).mpr ⟨hge, hlen ▸ hi⟩] at hc
      exact hc
  | verify batch hg =>
    refine h.quiet hq (hg ▸ List.prefix_rfl) (by rw [hg]) (fun i => by rw [hg]) fun i => hkeep ?_
    rw [Thread.owes, results_owed]
    rfl
  | deliver it b rest hr hb hs =>
    obtain ⟨hlt, hreq⟩ := hq.item (ht.taken it List.mem_cons_self)
    refine h.deliver hlt hreq (ht.right _ rfl (it, b) List.mem_cons_self) hr hb hs ?_ fun i hi => ?_
    · have hc := hcount it.res
      have hown : (Thread.send ((it, b) :: rest)).owes it.res = true :=
        Thread.owes_iff.mpr List.mem_cons_self
      have hdone : (Thread.send rest).owes it.res = false := by
        rw [Bool.eq_false_iff, ne_eq, Thread.owes_iff]
        exact (List.nodup_cons.mp ht.once).1
      rw [hown, hdone] at hc
      exact hc
    · refine hkeep ?_
      rw [Bool.eq_iff_iff, Thread.owes_iff, Thread.owes_iff]
      change _ ↔ i ∈ it.res :: _
      rw [List.mem_cons, or_iff_right hi]
      rfl

end Run.Settled

lemma Gate.stop_fired {j k : ℕ} {ts : List Timer} (h : (Gate.stop j ts)[k]? = some .fired) :
    ts[k]? = some .fired := by
  unfold Gate.stop at h
  split_ifs at h
  · rw [List.getElem?_set] at h
    split_ifs at h
    · cases h
    · exact h
  · exact h

lemma Gate.takeLocked_fired {g : Gate} {k : ℕ} (h : g.takeLocked.2.timers[k]? = some .fired) :
    g.timers[k]? = some .fired := by
  cases ht : g.timer with
  | none =>
    simp only [Gate.takeLocked, ht] at h
    exact h
  | some j =>
    simp only [Gate.takeLocked, ht] at h
    exact Gate.stop_fired h

lemma Thread.next_fired {v : BatchVerifier} {t : Thread} {g : Gate} {k : ℕ}
    (h : (t.next v g).2.timers[k]? = some .fired) :
    g.timers[k]? = some .fired ∧ t ≠ .callback k ∨ (t.next v g).1 = .callback k := by
  rcases t.locks_cases with hout | ⟨req, rfl⟩ | ⟨j, rfl⟩ | ⟨j, rfl⟩
  · obtain ⟨-, cs, -, hg⟩ := Thread.next_outside v g hout
    rw [hg] at h
    exact .inl ⟨h, fun heq => by rw [heq] at hout; cases hout⟩
  · refine .inl ⟨?_, fun heq => by cases heq⟩
    simp only [Thread.next] at h
    split_ifs at h
    · exact Gate.takeLocked_fired (g := g.enqueue req) h
    · unfold Gate.arm at h
      cases ht : (g.enqueue req).timer with
      | some j =>
        simp only [ht] at h
        exact h
      | none =>
        simp only [ht] at h
        rw [List.getElem?_append] at h
        split_ifs at h
        · exact h
        · simp [List.getElem?_singleton] at h
  · simp only [Thread.next] at h ⊢
    split_ifs at h ⊢ with harmed
    · by_cases hjk : j = k
      · exact .inr (by rw [hjk])
      · rw [List.getElem?_set_ne hjk] at h
        exact .inl ⟨h, fun heq => by cases heq⟩
    · exact .inl ⟨h, fun heq => by cases heq⟩
  · have h' : (g.timers.set j .ran)[k]? = some .fired := by
      simp only [Thread.next] at h
      split_ifs at h
      · exact Gate.takeLocked_fired (g := { g with timers := g.timers.set j .ran }) h
      · exact Gate.takeLocked_fired (g := { g with timers := g.timers.set j .ran }) h
    rw [List.getElem?_set] at h'
    split_ifs at h' with hjk
    · cases h'
    · exact .inl ⟨h', fun heq => hjk (Thread.callback.inj heq)⟩

/-- Every timer that has fired has its callback outstanding. -/
def Run.Answered (p : Run) : Prop :=
  ∀ k, p.shared.timers[k]? = some .fired → .callback k ∈ p.threads

lemma Run.Answered.move {v : BatchVerifier} {p : Run} (h : p.Answered) {j : ℕ} {t : Thread}
    (hj : p.threads[j]? = some t) :
    Run.Answered ⟨(t.next v p.shared).2, p.threads.set j (t.next v p.shared).1⟩ := by
  intro k hk
  obtain ⟨hlt, hget⟩ := List.getElem?_eq_some_iff.mp hj
  rcases Thread.next_fired hk with ⟨hfired, hne⟩ | hnow
  · -- the goroutine that moves is another than the callback
    obtain ⟨i, hi, hcb⟩ := List.mem_iff_getElem.mp (h k hfired)
    have hij : j ≠ i := fun hij => hne (by subst hij; rw [← hget, hcb])
    refine List.mem_iff_getElem.mpr ⟨i, by rwa [List.length_set], ?_⟩
    rw [List.getElem_set_ne hij, hcb]
  · refine List.mem_iff_getElem.mpr ⟨j, by rwa [List.length_set], ?_⟩
    rw [List.getElem_set_self, hnow]

/-- A request of this content is submitted. -/
def submits (r : Request) : Pool.Event Arrival → Bool
  | .arrive (.submit r') => r' = r
  | _ => false

/-- `Submit` of a request of this content waits for the lock. -/
def Thread.waits (r : Request) : Thread → Bool
  | .submit r' => r' = r
  | _ => false

lemma Thread.waits_of_outside {t : Thread} (h : t.locks = false) {r : Request} :
    t.waits r = false := by
  cases t with
  | submit req => cases h
  | _ => rfl

/-- A request comes in exactly by the move of a waiting `Submit`. -/
lemma Thread.next_waits (v : BatchVerifier) (t : Thread) (g : Gate) (r : Request) :
    (t.next v g).2.submitted.count r = g.submitted.count r + (t.waits r).toNat ∧
      ((t.next v g).1.waits r) = false := by
  rcases t.locks_cases with hout | ⟨req, rfl⟩ | ⟨k, rfl⟩ | ⟨k, rfl⟩
  · obtain ⟨hout', cs, -, hg⟩ := Thread.next_outside v g hout
    rw [hg, Thread.waits_of_outside hout, Thread.waits_of_outside hout']
    exact ⟨rfl, rfl⟩
  · have hcount : (g.submitted ++ [req]).count r = g.submitted.count r +
        (decide (req = r)).toNat := by
      rw [List.count_append, List.count_singleton, Pool.toNat_eq_ite, beq_eq_decide]
    simp only [Thread.next]
    split_ifs
    · exact ⟨hcount, rfl⟩
    · obtain ⟨timer, timers, harm⟩ := (g.enqueue req).arm_eq
      rw [harm]
      exact ⟨hcount, rfl⟩
  · simp only [Thread.next]
    split_ifs <;> exact ⟨rfl, rfl⟩
  · simp only [Thread.next]
    split_ifs <;> exact ⟨rfl, rfl⟩

lemma Thread.next_maxBatch (v : BatchVerifier) (t : Thread) (g : Gate) :
    (t.next v g).2.maxBatch = g.maxBatch := by
  rcases t.locks_cases with hout | ⟨req, rfl⟩ | ⟨k, rfl⟩ | ⟨k, rfl⟩
  · obtain ⟨-, cs, -, hg⟩ := Thread.next_outside v g hout
    rw [hg]
  · simp only [Thread.next]
    split_ifs
    · rfl
    · obtain ⟨timer, timers, harm⟩ := (g.enqueue req).arm_eq
      rw [harm]
      rfl
  · simp only [Thread.next]
    split_ifs <;> rfl
  · simp only [Thread.next]
    split_ifs <;> rfl

/-! ### Runs -/

/-- What holds under every interleaving. -/
structure Run.Good (maxBatch : ℤ) (es : List (Pool.Event Arrival)) (p : Run) : Prop where
  limit : p.shared.maxBatch = (newGate maxBatch).maxBatch
  queue : p.shared.Queue
  fit : ∀ t ∈ p.threads, t.Fit p.shared
  settled : p.Settled
  answered : p.Answered
  arrived : ∀ r, es.countP (submits r) = p.shared.submitted.count r + p.count (Thread.waits r)

lemma runGate_good {v : BatchVerifier} (hv : ∀ reqs i, v reqs i = reference (reqs.get i))
    (maxBatch : ℤ)
    (es : List (Pool.Event Arrival)) : (runGate v maxBatch es).Good maxBatch es := by
  induction es using List.reverseRecOn with
  | nil =>
    exact ⟨rfl, newGate_queue maxBatch, nofun, ⟨nofun, fun _ _ => rfl, fun _ _ _ => nofun⟩, nofun,
      fun _ => rfl⟩
  | append_singleton es e h =>
    have hkeep := (fit_keeps hv).step e ⟨h.queue, h.fit⟩
    unfold runGate at hkeep h ⊢
    rw [Pool.run_concat]
    generalize Pool.run (gateProgram v) es ⟨newGate maxBatch, []⟩ = p at hkeep h ⊢
    cases e with
    | arrive a =>
      refine ⟨h.limit, hkeep.1, hkeep.2, ?_, fun k hk => List.mem_append_left _ (h.answered k hk),
        fun r => ?_⟩
      · refine h.settled.quiet h.queue List.prefix_rfl rfl (fun _ => rfl) fun i =>
          (Pool.count_arrive _ p _).trans ?_
        have howes : (Thread.start a).owes i = false := by rw [Thread.owes, Thread.start_owed]; rfl
        exact congrArg (p.count (Thread.owes i) + Bool.toNat ·) howes
      · have hstart : (Thread.start a).waits r = submits r (.arrive a) := by cases a <;> rfl
        have hcount := Pool.count_arrive (Thread.waits r) p (Thread.start a)
        rw [Pool.toNat_eq_ite, hstart] at hcount
        rw [List.countP_append, List.countP_singleton, h.arrived r, Nat.add_assoc, ← hcount]
        rfl
    | move j =>
      have hmoves : ∀ r, (es ++ [Pool.Event.move j]).countP (submits r) = es.countP (submits r) :=
          fun r => by
        rw [List.countP_append]
        rfl
      cases hj : p.threads[j]? with
      | none =>
        have hstay : Pool.step (gateProgram v) (.move j) p = p := by simp only [Pool.step, hj]
        rw [hstay]
        exact ⟨h.limit, h.queue, h.fit, h.settled, h.answered,
          fun r => (hmoves r).trans (h.arrived r)⟩
      | some t =>
        rw [Pool.step_move hj] at hkeep ⊢
        refine ⟨(t.next_maxBatch v p.shared).trans h.limit, hkeep.1, hkeep.2,
          h.settled.move h.queue h.fit hj,
          h.answered.move hj, fun r => ?_⟩
        obtain ⟨hin, hnot⟩ := t.next_waits v p.shared r
        have hcount :=
          Pool.count_move (Thread.waits r) hj (t.next v p.shared).1 (t.next v p.shared).2
        have := h.arrived r
        rw [hnot, Bool.toNat_false] at hcount
        rw [hmoves]
        change _ = (t.next v p.shared).2.submitted.count r +
          Pool.count _ ⟨(t.next v p.shared).2, p.threads.set j (t.next v p.shared).1⟩
        omega

namespace Run.Good

variable {v : BatchVerifier} {maxBatch : ℤ} {es : List (Pool.Event Arrival)} {p : Run}

lemma outcome (h : p.Good maxBatch es) {i : ℕ} {r : Request}
    (hi : p.shared.submitted[i]? = some r) :
    ⟨r, i⟩ ∈ p.shared.pending ∧ p.shared.sent i = [] ∧ p.count (Thread.owes i) = 0 ∨
      ⟨r, i⟩ ∈ p.shared.batches.flatten ∧ p.shared.sent i = [] ∧ p.count (Thread.owes i) = 1 ∨
      ⟨r, i⟩ ∈ p.shared.batches.flatten ∧ p.shared.sent i = [reference r] ∧
        p.count (Thread.owes i) = 0 := by
  have hitem : (p.shared.batches.flatten ++ p.shared.pending)[i]? = some ⟨r, i⟩ := by
    rw [h.queue.items, List.getElem?_map, List.getElem?_zipIdx, hi, Nat.zero_add]
    rfl
  rcases lt_or_ge i p.shared.batches.flatten.length with hlt | hge
  · rw [List.getElem?_append_left hlt] at hitem
    have hmem := List.mem_of_getElem? hitem
    have hone := h.settled.one i hlt
    cases hs : p.shared.sent i with
    | nil =>
      rw [hs, List.length_nil, Nat.zero_add] at hone
      exact .inr (.inl ⟨hmem, rfl, hone⟩)
    | cons b bs =>
      rw [hs, List.length_cons] at hone
      obtain rfl : bs = [] := List.eq_nil_of_length_eq_zero (by omega)
      have hb := h.settled.right i r hi b (by rw [hs]; exact List.mem_cons_self)
      exact .inr (.inr ⟨hmem, by rw [hb], by omega⟩)
  · rw [List.getElem?_append_right hge] at hitem
    exact .inl ⟨List.mem_of_getElem? hitem, h.settled.none i hge,
      count_owes_eq_zero h.queue h.fit hge⟩

/-- The channel of a result that is owed is empty, so the send goes through. -/
lemma next_send (h : p.Good maxBatch es) {it : Item} {b : Bool} {rest : List (Item × Bool)}
    (ht : .send ((it, b) :: rest) ∈ p.threads) : (Thread.send ((it, b) :: rest)).next v p.shared =
      (.send rest, { p.shared with chans := p.shared.chans.set it.res ⟨[b], []⟩ }) := by
  obtain ⟨hlt, -⟩ := h.queue.item ((h.fit _ ht).taken it List.mem_cons_self)
  have howed : 0 < p.count (Thread.owes it.res) :=
    List.countP_pos_iff.mpr ⟨_, ht, Thread.owes_iff.mpr List.mem_cons_self⟩
  have hsent : p.shared.sent it.res = [] := by
    have := h.settled.one it.res hlt
    exact List.eq_nil_of_length_eq_zero (by omega)
  have hchan : it.res < p.shared.chans.length := by
    rw [h.queue.chans]
    exact hlt.trans_le h.queue.length_le
  have hc := List.getElem?_eq_getElem hchan
  rw [Gate.sent, hc] at hsent
  obtain ⟨hgot, hbuf⟩ := List.append_eq_nil_iff.mp hsent
  simp only [Thread.next, hc, hbuf, hgot]
  rfl

end Run.Good

/-- **The gate loses and duplicates nothing**, under every interleaving of callers, timers and
callbacks: a request that was submitted waits for the lock or stands once in a batch or in the
queue; its channel has been sent nothing, with one goroutine about to send its result if its batch
was flushed, or its own result, once; no send has to wait; a queue that is not empty has an armed
timer or its callback outstanding; and no batch is over the limit. -/
theorem gate_exact {v : BatchVerifier} (hv : ∀ reqs i, v reqs i = reference (reqs.get i))
    (maxBatch : ℤ) (es : List (Pool.Event Arrival)) :
    let p := runGate v maxBatch es
    let g := p.shared
    (∀ r, es.countP (submits r) = g.submitted.count r + p.count (Thread.waits r)) ∧
    g.batches.flatten ++ g.pending = g.submitted.zipIdx.map (fun x => ⟨x.1, x.2⟩) ∧
    (∀ i r, g.submitted[i]? = some r →
      ⟨r, i⟩ ∈ g.pending ∧ g.sent i = [] ∧ p.count (Thread.owes i) = 0 ∨
      ⟨r, i⟩ ∈ g.batches.flatten ∧ g.sent i = [] ∧ p.count (Thread.owes i) = 1 ∨
      ⟨r, i⟩ ∈ g.batches.flatten ∧ g.sent i = [reference r] ∧ p.count (Thread.owes i) = 0) ∧
    (∀ it b rest, .send ((it, b) :: rest) ∈ p.threads → (Thread.send ((it, b) :: rest)).next v g =
      (.send rest, { g with chans := g.chans.set it.res ⟨[b], []⟩ })) ∧
    (g.pending ≠ [] → ∃ k, g.timer = some k ∧
      (g.timers[k]? = some .armed ∨ .callback k ∈ p.threads)) ∧
    ∀ batch ∈ g.batches, (batch.length : ℤ) ≤ max 1 maxBatch := by
  intro p g
  have h : p.Good maxBatch es := runGate_good hv maxBatch es
  refine ⟨h.arrived, h.queue.items, fun i r hi => ?_,
    fun it b rest ht => ?_, fun hne => ?_, fun batch hb => ?_⟩
  · exact h.outcome hi
  · exact h.next_send ht
  · obtain ⟨k, hk⟩ := Option.ne_none_iff_exists'.mp (h.queue.timed hne)
    exact ⟨k, hk, (h.queue.live k hk).imp_right (h.answered k)⟩
  · have hbound := h.queue.bound batch hb
    rw [h.limit] at hbound
    change batch.length ≤ (if maxBatch < 1 then 1 else maxBatch).toNat at hbound
    split_ifs at hbound <;> omega

/-- A request without a signature, submitted twice to a gate of two. The timer of the first fires
before the second comes, and its callback enters the gate only when the full batch is gone. -/
def raceEvents : List (Pool.Event Arrival) :=
  [.arrive (.submit ⟨none, [], none⟩), .move 0, .arrive (.fire 0), .move 1,
    .arrive (.submit ⟨none, [], none⟩), .move 2,
    .move 1, .move 2, .move 2, .move 2]

theorem gate_exact_race : (runGate Reference.verifyBatch 2 raceEvents).shared.sent 1 = [false] := by
  have hexact := gate_exact (v := Reference.verifyBatch) (fun _ _ => rfl) 2 raceEvents
  rcases hexact.2.2.1 1 ⟨none, [], none⟩ (by decide) with
    ⟨hpending, -⟩ | ⟨-, hnothing, -⟩ | ⟨-, hsent, -⟩
  · exact absurd hpending (by decide +kernel)
  · exact absurd hnothing (by decide)
  · exact hsent

end MemServe.Accel
