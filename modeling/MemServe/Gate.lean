import MemServe.Accel
import MemServe.Pool

/-!
The batching gate: requests wait until a batch is full or a timer fires, and each caller gets the
result of its own request.

A move of a caller, of a timer or of a timer's callback is one critical section of the gate or one
step outside it, so a run is any interleaving of them. A timer may fire while a full batch is being
taken; its callback then finds what has come since, or nothing.
-/

namespace MemServe.Accel

/-- What a backend leaves in `out`, one entry for each request. -/
abbrev BatchVerifier := (reqs : List Request) → Fin reqs.length → Bool

/-- The serial backend. -/
def Reference.verifyBatch : BatchVerifier := fun reqs i => reference (reqs.get i)

/-- A request in the gate. `res` is the number of its result channel. -/
structure Item where
  req : Request
  res : ℕ
  deriving DecidableEq

/-- A result channel: what is in its buffer, and what its caller has received. -/
structure Chan where
  buf : List Bool := []
  got : List Bool := []
  deriving DecidableEq

/-- All values the channel has been sent. -/
def Chan.sent (c : Chan) : List Bool := c.got ++ c.buf

/-- A timer has not fired yet, was stopped before it could, has fired with its callback not yet in
the gate, or has had its callback run. -/
inductive Timer
  | armed
  | stopped
  | fired
  | ran
  deriving DecidableEq

/-- The gate, its channels and its timers. `submitted` and `batches` record what has been put in and
what has been handed to `flush`. -/
structure Gate where
  maxBatch : ℕ
  pending : List Item := []
  timer : Option ℕ := none
  chans : List Chan := []
  timers : List Timer := []
  submitted : List Request := []
  batches : List (List Item) := []

/-- The delay only says when a timer may fire; here it may fire at any time. -/
def newGate (maxBatch : ℤ) : Gate where
  maxBatch := (if maxBatch < 1 then 1 else maxBatch).toNat

namespace Gate

/-- `Stop` keeps an armed timer from firing; it does nothing to one that has fired. -/
def stop (k : ℕ) (ts : List Timer) : List Timer :=
  if ts[k]? = some .armed then ts.set k .stopped else ts

def takeLocked (g : Gate) : List Item × Gate :=
  (g.pending,
    { g with pending := [], timer := none, timers := g.timer.elim g.timers (stop · g.timers) })

/-- `AfterFunc`, if no timer is set. -/
def arm (g : Gate) : Gate :=
  match g.timer with
  | none => { g with timer := some g.timers.length, timers := g.timers ++ [.armed] }
  | some _ => g

/-- The channel `res` of a new request and its place in the queue. -/
def enqueue (req : Request) (g : Gate) : Gate :=
  { g with
    chans := g.chans ++ [{}]
    pending := g.pending ++ [⟨req, g.chans.length⟩]
    submitted := g.submitted ++ [req] }

def record (batch : List Item) (g : Gate) : Gate := { g with batches := g.batches ++ [batch] }

/-- The values sent to channel `i`. -/
def sent (g : Gate) (i : ℕ) : List Bool := g.chans[i]?.elim [] Chan.sent

end Gate

/-- The results of a batch, each with the item it is for. -/
def results (v : BatchVerifier) (batch : List Item) : List (Item × Bool) :=
  List.ofFn fun i : Fin batch.length =>
    (batch.get i, v (batch.map Item.req) (i.cast (List.length_map _).symm))

/-- Where a goroutine stands. -/
inductive Thread
  /-- `Submit`, before the lock. -/
  | submit (req : Request)
  /-- The runtime, about to fire a timer. -/
  | fire (k : ℕ)
  /-- `onTimer` of a timer, before the lock. -/
  | callback (k : ℕ)
  /-- `flush`, before the backend is called. -/
  | flush (batch : List Item)
  /-- `flush`, with these results still to be sent. -/
  | send (rest : List (Item × Bool))
  /-- The caller of a request, receiving its result. -/
  | receive (i : ℕ)
  | returned

/-- What may happen from outside: a request is submitted, a timer's time is up, a caller asks for
its result. -/
inductive Arrival
  | submit (req : Request)
  | fire (k : ℕ)
  | receive (i : ℕ)

def Thread.start : Arrival → Thread
  | .submit req => .submit req
  | .fire k => .fire k
  | .receive i => .receive i

def Thread.next (v : BatchVerifier) (t : Thread) (g : Gate) : Thread × Gate :=
  match t with
  | .submit req =>
    let g := g.enqueue req
    if g.maxBatch ≤ g.pending.length then
      let (batch, g) := g.takeLocked
      (.flush batch, g.record batch)
    else (.returned, g.arm)
  | .fire k =>
    if g.timers[k]? = some .armed then (.callback k, { g with timers := g.timers.set k .fired })
    else (.returned, g)
  | .callback k =>
    let (batch, g) := { g with timers := g.timers.set k .ran }.takeLocked
    if batch.length > 0 then (.flush batch, g.record batch) else (.returned, g)
  | .flush batch => (.send (results v batch), g)
  | .send [] => (.returned, g)
  | .send ((it, b) :: rest) =>
    match g.chans[it.res]? with
    | none => (.send ((it, b) :: rest), g)
    | some c =>
      -- the channel has room for one value; a send to a full one waits
      if c.buf.length < 1 then
        (.send rest, { g with chans := g.chans.set it.res { c with buf := c.buf ++ [b] } })
      else (.send ((it, b) :: rest), g)
  | .receive i =>
    match g.chans[i]? with
    | none => (.receive i, g)
    | some c =>
      match c.buf with
      | [] => (.receive i, g)
      | b :: bs => (.returned, { g with chans := g.chans.set i ⟨bs, c.got ++ [b]⟩ })
  | .returned => (.returned, g)

def gateProgram (v : BatchVerifier) : Pool.Program Gate Thread Arrival :=
  ⟨Thread.start, Thread.next v⟩

abbrev Run := Pool Gate Thread

def runGate (v : BatchVerifier) (maxBatch : ℤ) (es : List (Pool.Event Arrival)) : Run :=
  Pool.run (gateProgram v) es ⟨newGate maxBatch, []⟩

/-- Whether the next move is a critical section of the gate or of the runtime's timers. -/
def Thread.locks : Thread → Bool
  | .submit _ => true
  | .fire _ => true
  | .callback _ => true
  | _ => false

lemma Thread.locks_cases (t : Thread) :
    t.locks = false ∨ (∃ req, t = .submit req) ∨ (∃ k, t = .fire k) ∨ ∃ k, t = .callback k := by
  cases t with
  | submit req => exact .inr (.inl ⟨req, rfl⟩)
  | fire k => exact .inr (.inr (.inl ⟨k, rfl⟩))
  | callback k => exact .inr (.inr (.inr ⟨k, rfl⟩))
  | _ => exact .inl rfl

lemma Thread.next_outside (v : BatchVerifier) {t : Thread} (g : Gate) (h : t.locks = false) :
    (t.next v g).1.locks = false ∧
      ∃ cs : List Chan, cs.length = g.chans.length ∧ (t.next v g).2 = { g with chans := cs } := by
  cases t with
  | submit req => cases h
  | fire k => cases h
  | callback k => cases h
  | flush batch => exact ⟨rfl, g.chans, rfl, rfl⟩
  | send rest =>
    match rest with
    | [] => exact ⟨rfl, g.chans, rfl, rfl⟩
    | (it, b) :: rest =>
      simp only [Thread.next]
      cases g.chans[it.res]? with
      | none => exact ⟨rfl, g.chans, rfl, rfl⟩
      | some c =>
        dsimp only
        split_ifs
        · exact ⟨rfl, _, List.length_set .., rfl⟩
        · exact ⟨rfl, g.chans, rfl, rfl⟩
  | receive i =>
    simp only [Thread.next]
    cases g.chans[i]? with
    | none => exact ⟨rfl, g.chans, rfl, rfl⟩
    | some c =>
      obtain ⟨buf, got⟩ := c
      cases buf with
      | nil => exact ⟨rfl, g.chans, rfl, rfl⟩
      | cons b bs => exact ⟨rfl, _, List.length_set .., rfl⟩
  | returned => exact ⟨rfl, g.chans, rfl, rfl⟩

/-- Every request that was submitted stands in one batch or in the queue, in the order of
submission, and has a channel. No batch is empty or over the limit. -/
structure Gate.Books (g : Gate) : Prop where
  items : g.batches.flatten ++ g.pending = g.submitted.zipIdx.map fun x => ⟨x.1, x.2⟩
  chans : g.chans.length = g.submitted.length
  bound : ∀ batch ∈ g.batches, batch.length ≤ g.maxBatch

/-- Between critical sections the queue is not full, and where it is not empty its timer is set. -/
structure Gate.Queue (g : Gate) : Prop extends g.Books where
  room : g.pending.length < g.maxBatch
  timed : g.pending ≠ [] → g.timer ≠ none
  live : ∀ k, g.timer = some k → g.timers[k]? = some .armed ∨ g.timers[k]? = some .fired

lemma newGate_queue (maxBatch : ℤ) : (newGate maxBatch).Queue where
  items := rfl
  chans := rfl
  bound := nofun
  room := by
    change 0 < (if maxBatch < 1 then 1 else maxBatch).toNat
    split_ifs <;> omega
  timed h := absurd rfl h
  live := nofun

namespace Gate

variable {g : Gate}

lemma Books.enqueue (h : g.Books) (req : Request) : (g.enqueue req).Books where
  items := by
    change g.batches.flatten ++ (g.pending ++ [⟨req, g.chans.length⟩]) =
      (g.submitted ++ [req]).zipIdx.map _
    rw [← List.append_assoc, h.items, List.zipIdx_append, List.map_append, h.chans, Nat.zero_add]
    rfl
  chans := by
    change (g.chans ++ [({} : Chan)]).length = (g.submitted ++ [req]).length
    rw [List.length_append, List.length_append, h.chans]
    rfl
  bound := h.bound

lemma Books.take (h : g.Books) (hpos : 0 < g.maxBatch) (hlen : g.pending.length ≤ g.maxBatch) :
    (g.takeLocked.2.record g.pending).Queue where
  items := by
    change (g.batches ++ [g.pending]).flatten ++ [] = _
    rw [List.flatten_append, List.flatten_singleton, List.append_nil]
    exact h.items
  chans := h.chans
  bound batch hb := by
    rcases List.mem_append.mp hb with hb | hb
    · exact h.bound batch hb
    · rw [List.mem_singleton.mp hb]
      exact hlen
  room := hpos
  timed h := absurd rfl h
  live := nofun

lemma Books.take_empty (h : g.Books) (hpos : 0 < g.maxBatch) (hnil : g.pending = []) :
    g.takeLocked.2.Queue where
  items := by
    have := h.items
    rwa [hnil] at this
  chans := h.chans
  bound := h.bound
  room := hpos
  timed h := absurd rfl h
  live := nofun

lemma Books.arm (h : g.Books) (hroom : g.pending.length < g.maxBatch)
    (hlive : ∀ k, g.timer = some k → g.timers[k]? = some .armed ∨ g.timers[k]? = some .fired) :
    g.arm.Queue := by
  unfold Gate.arm
  cases ht : g.timer with
  | none =>
    refine ⟨⟨h.items, h.chans, h.bound⟩, hroom, fun _ => nofun, ?_⟩
    rintro k ⟨⟩
    exact .inl List.getElem?_concat_length
  | some k => exact ⟨h, hroom, fun _ => by rw [ht]; nofun, hlive⟩

lemma Books.congr {g' : Gate} (h : g.Books) (hb : g'.batches = g.batches)
    (hp : g'.pending = g.pending) (hs : g'.submitted = g.submitted)
    (hc : g'.chans.length = g.chans.length)
    (hm : g'.maxBatch = g.maxBatch) : g'.Books where
  items := by rw [hb, hp, hs, h.items]
  chans := by rw [hc, hs, h.chans]
  bound := by
    rw [hb, hm]
    exact h.bound

end Gate

lemma Thread.next_queue (v : BatchVerifier) (t : Thread) {g : Gate} (h : g.Queue) :
    (t.next v g).2.Queue := by
  have hpos : 0 < g.maxBatch := by have := h.room; omega
  rcases t.locks_cases with hout | ⟨req, rfl⟩ | ⟨k, rfl⟩ | ⟨k, rfl⟩
  · obtain ⟨-, cs, hlen, hg⟩ := Thread.next_outside v g hout
    rw [hg]
    exact ⟨h.toBooks.congr rfl rfl rfl hlen rfl, h.room, h.timed, h.live⟩
  · have henq := h.toBooks.enqueue req
    have hlen : (g.enqueue req).pending.length = g.pending.length + 1 := List.length_append
    have hroom : g.pending.length < (g.enqueue req).maxBatch := h.room
    simp only [Thread.next]
    split_ifs with hfull
    · exact henq.take hpos (by omega)
    · exact henq.arm (by omega) h.live
  · simp only [Thread.next]
    split_ifs with harmed
    · refine ⟨h.toBooks.congr rfl rfl rfl rfl rfl, h.room, h.timed, fun j hj => ?_⟩
      dsimp only at hj ⊢
      by_cases hjk : k = j
      · subst hjk
        exact .inr (List.getElem?_set_self (List.getElem?_eq_some_iff.mp harmed).1)
      · rw [List.getElem?_set_ne hjk]
        exact h.live j hj
    · exact h
  · have hb : ({ g with timers := g.timers.set k .ran } : Gate).Books :=
      h.toBooks.congr rfl rfl rfl rfl rfl
    simp only [Thread.next]
    split_ifs with hne
    · exact hb.take hpos h.room.le
    · exact hb.take_empty hpos
        (List.eq_nil_of_length_eq_zero (by simpa [Gate.takeLocked] using hne))

/-! ### The results -/

/-- The items whose results a goroutine has still to send. -/
def Thread.owed : Thread → List Item
  | .flush batch => batch
  | .send rest => rest.map Prod.fst
  | _ => []

def Thread.owes (i : ℕ) (t : Thread) : Bool := t.owed.any fun it => it.res == i

lemma results_fst (v : BatchVerifier) (batch : List Item) :
    (results v batch).map Prod.fst = batch := by
  rw [results, List.map_ofFn]
  exact List.ofFn_getElem

lemma results_owed (v : BatchVerifier) (batch : List Item) :
    (Thread.send (results v batch)).owed = batch :=
  results_fst v batch

lemma results_right {v : BatchVerifier} (hv : ∀ reqs i, v reqs i = reference (reqs.get i))
    {batch : List Item}
    {p : Item × Bool} (hp : p ∈ results v batch) : p.2 = reference p.1.req := by
  obtain ⟨i, rfl⟩ := (List.mem_ofFn ..).mp hp
  rw [hv]
  simp

/-- What a move does to the batches, to the values sent and to what the goroutine owes: nothing, or
it takes the queue, or it calls the backend, or it sends the first result it owes. -/
inductive Thread.Move (v : BatchVerifier) (g g' : Gate) : Thread → Thread → Prop
  | quiet {t t' : Thread} (hr : g.submitted <+: g'.submitted) (hb : g'.batches = g.batches)
      (hs : ∀ i, g'.sent i = g.sent i) (ho : t' = t ∨ t.owed = [] ∧ t'.owed = []) : Move v g g' t t'
  | take {t : Thread} (batch : List Item) (hr : g.submitted <+: g'.submitted)
      (hb : g'.batches = g.batches ++ [batch]) (hs : ∀ i, g'.sent i = g.sent i)
      (ho : t.owed = []) : Move v g g' t (.flush batch)
  | verify (batch : List Item) (hg : g' = g) : Move v g g' (.flush batch) (.send (results v batch))
  | deliver (it : Item) (b : Bool) (rest : List (Item × Bool)) (hr : g'.submitted = g.submitted)
      (hb : g'.batches = g.batches)
      (hs : ∀ i, g'.sent i = if i = it.res then g.sent i ++ [b] else g.sent i) :
      Move v g g' (.send ((it, b) :: rest)) (.send rest)

lemma Thread.Move.still {v : BatchVerifier} {g g' : Gate} {t t' : Thread}
    (hr : g'.submitted = g.submitted) (hb : g'.batches = g.batches) (hc : g'.chans = g.chans)
    (ho : t' = t ∨ t.owed = [] ∧ t'.owed = []) : Move v g g' t t' :=
  .quiet (hr ▸ List.prefix_rfl) hb (fun i => by rw [Gate.sent, hc, Gate.sent]) ho

namespace Gate

lemma sent_enqueue (g : Gate) (req : Request) (i : ℕ) : (g.enqueue req).sent i = g.sent i := by
  unfold sent enqueue
  rcases lt_trichotomy i g.chans.length with hi | rfl | hi
  · rw [List.getElem?_append_left hi]
  · rw [List.getElem?_concat_length, List.getElem?_eq_none le_rfl]
    rfl
  · rw [List.getElem?_eq_none (by rw [List.length_append]; exact hi), List.getElem?_eq_none hi.le]

lemma arm_eq (g : Gate) : ∃ timer timers, g.arm = { g with timer := timer, timers := timers } := by
  unfold arm
  cases ht : g.timer with
  | none => exact ⟨_, _, rfl⟩
  | some k => exact ⟨g.timer, g.timers, rfl⟩

lemma sent_set (g : Gate) {j : ℕ} {c : Chan} (hc : g.chans[j]? = some c) (c' : Chan) (i : ℕ) :
    ({ g with chans := g.chans.set j c' } : Gate).sent i = if i = j then c'.sent else g.sent i := by
  unfold sent
  split_ifs with hij
  · subst hij
    rw [List.getElem?_set_self (List.getElem?_eq_some_iff.mp hc).1]
    rfl
  · rw [List.getElem?_set_ne (Ne.symm hij)]

end Gate

lemma Thread.next_move (v : BatchVerifier) (t : Thread) (g : Gate) :
    Move v g (t.next v g).2 t (t.next v g).1 := by
  cases t with
  | submit req =>
    simp only [Thread.next]
    split_ifs
    · exact .take _ (List.prefix_append _ _) rfl (g.sent_enqueue req) rfl
    · obtain ⟨timer, timers, harm⟩ := (g.enqueue req).arm_eq
      rw [harm]
      exact .quiet (List.prefix_append _ _) rfl (g.sent_enqueue req) (.inr ⟨rfl, rfl⟩)
  | fire k =>
    simp only [Thread.next]
    split_ifs
    · exact .still rfl rfl rfl (.inr ⟨rfl, rfl⟩)
    · exact .still rfl rfl rfl (.inr ⟨rfl, rfl⟩)
  | callback k =>
    simp only [Thread.next]
    split_ifs
    · exact .take _ List.prefix_rfl rfl (fun _ => rfl) rfl
    · exact .still rfl rfl rfl (.inr ⟨rfl, rfl⟩)
  | flush batch => exact .verify batch rfl
  | send rest =>
    match rest with
    | [] => exact .still rfl rfl rfl (.inr ⟨rfl, rfl⟩)
    | (it, b) :: rest =>
      simp only [Thread.next]
      cases hc : g.chans[it.res]? with
      | none => exact .still rfl rfl rfl (.inl rfl)
      | some c =>
        dsimp only
        split_ifs
        · refine .deliver it b rest rfl rfl fun i => ?_
          rw [g.sent_set hc]
          split_ifs with hi
          · rw [hi, Gate.sent, hc]
            exact (List.append_assoc ..).symm
          · rfl
        · exact .still rfl rfl rfl (.inl rfl)
  | receive i =>
    simp only [Thread.next]
    cases hc : g.chans[i]? with
    | none => exact .still rfl rfl rfl (.inl rfl)
    | some c =>
      obtain ⟨buf, got⟩ := c
      cases buf with
      | nil => exact .still rfl rfl rfl (.inl rfl)
      | cons b bs =>
        refine .quiet List.prefix_rfl rfl (fun j => ?_) (.inr ⟨rfl, rfl⟩)
        rw [g.sent_set hc]
        split_ifs with hj
        · rw [hj, Gate.sent, hc]
          exact List.append_assoc ..
        · rfl
  | returned => exact .still rfl rfl rfl (.inl rfl)

lemma Gate.Books.res {g : Gate} (h : g.Books) :
    (g.batches.flatten ++ g.pending).map Item.res = List.range' 0 g.submitted.length := by
  rw [h.items, List.map_map]
  exact List.zipIdx_map_snd 0 g.submitted

lemma Gate.Books.length_le {g : Gate} (h : g.Books) :
    g.batches.flatten.length ≤ g.submitted.length := by
  have hlen := congrArg List.length h.res
  rw [List.length_map, List.length_append, List.length_range'] at hlen
  omega

lemma Gate.Books.item {g : Gate} (h : g.Books) {it : Item} (hit : it ∈ g.batches.flatten) :
    it.res < g.batches.flatten.length ∧ g.submitted[it.res]? = some it.req := by
  obtain ⟨i, hi, hget⟩ := List.mem_iff_getElem.mp hit
  have hall : (g.submitted.zipIdx.map fun x => (⟨x.1, x.2⟩ : Item))[i]? = some it := by
    rw [← h.items, List.getElem?_append_left hi, List.getElem?_eq_getElem hi, hget]
  rw [List.getElem?_map, List.getElem?_zipIdx] at hall
  cases hr : g.submitted[i]? with
  | none =>
    rw [hr] at hall
    cases hall
  | some r =>
    rw [hr, Nat.zero_add] at hall
    cases hall
    exact ⟨hi, hr⟩

lemma Gate.Books.last_batch {g : Gate} (h : g.Books) {bs : List (List Item)} {batch : List Item}
    (hb : g.batches = bs ++ [batch]) :
    batch.map Item.res = List.range' bs.flatten.length batch.length := by
  have hres := h.res
  rw [hb, List.flatten_append, List.flatten_singleton, List.append_assoc, List.map_append,
    List.map_append] at hres
  obtain ⟨k, -, hbs, hrest⟩ := List.range'_eq_append_iff.mp hres.symm
  obtain ⟨m, -, hbatch, -⟩ := List.range'_eq_append_iff.mp hrest.symm
  obtain rfl : bs.flatten.length = k := by
    have hlen := congrArg List.length hbs
    rwa [List.length_map, List.length_range'] at hlen
  obtain rfl : batch.length = m := by
    have hlen := congrArg List.length hbatch
    rwa [List.length_map, List.length_range'] at hlen
  rw [hbatch, Nat.zero_add, Nat.mul_one]

/-- What a goroutine owes comes from the batches, each item once, and what it sends is right. -/
structure Thread.Fit (g : Gate) (t : Thread) : Prop where
  taken : ∀ it ∈ t.owed, it ∈ g.batches.flatten
  once : (t.owed.map Item.res).Nodup
  right : ∀ rest, t = .send rest → ∀ p ∈ rest, p.2 = reference p.1.req

lemma Thread.start_owed (a : Arrival) : (Thread.start a).owed = [] := by cases a <;> rfl

lemma Thread.next_right {v : BatchVerifier} (hv : ∀ reqs i, v reqs i = reference (reqs.get i))
    {t : Thread} {g : Gate} (h : ∀ rest, t = .send rest → ∀ p ∈ rest, p.2 = reference p.1.req)
    (rest : List (Item × Bool))
    (hsend : (t.next v g).1 = .send rest) : ∀ p ∈ rest, p.2 = reference p.1.req := by
  have hmove := t.next_move v g
  rw [hsend] at hmove
  cases hmove with
  | quiet hr hb hs ho =>
    rcases ho with ho | ⟨-, ho⟩
    · exact h rest ho.symm
    · rw [List.map_eq_nil_iff.mp ho]
      exact nofun
  | verify batch hg => exact fun p hp => results_right hv hp
  | deliver it b rest hr hb hs => exact fun p hp => h _ rfl p (List.mem_cons_of_mem _ hp)

lemma Thread.Fit.start (g : Gate) (a : Arrival) : (Thread.start a).Fit g where
  taken it hit := by
    rw [start_owed] at hit
    cases hit
  once := by
    rw [start_owed]
    exact List.nodup_nil
  right rest h := by cases a <;> cases h

lemma Thread.Move.batches_subset {v : BatchVerifier} {g g' : Gate} {t t' : Thread}
    (h : Move v g g' t t') :
    g.batches.flatten ⊆ g'.batches.flatten := by
  cases h with
  | quiet hr hb hs ho => rw [hb]; exact List.Subset.refl _
  | take batch hr hb hs ho =>
    rw [hb, List.flatten_append]
    exact List.subset_append_left _ _
  | verify batch hg => rw [hg]; exact List.Subset.refl _
  | deliver it b rest hr hb hs => rw [hb]; exact List.Subset.refl _

/-- **Goroutines stay fit**: the one that moves, and the others beside it. -/
lemma fit_keeps {v : BatchVerifier} (hv : ∀ reqs i, v reqs i = reference (reqs.get i)) :
    (gateProgram v).Keeps Gate.Queue fun g t => t.Fit g where
  start g a _ := .start g a
  next g t hg ht := by
    have hq := t.next_queue v hg
    have hright := Thread.next_right hv ht.right (g := g)
    change (t.next v g).2.Queue ∧ (t.next v g).1.Fit (t.next v g).2
    refine ⟨hq, ?_⟩
    have hmove := t.next_move v g
    generalize t.next v g = r at hmove hq hright
    obtain ⟨t', g'⟩ := r
    have hsub := hmove.batches_subset
    cases hmove with
    | quiet hr hb hs ho =>
      rcases ho with rfl | ⟨-, ho⟩
      · exact ⟨fun it hit => hsub (ht.taken it hit), ht.once, hright⟩
      · exact ⟨by rw [ho]; exact nofun, by rw [ho]; exact List.nodup_nil, hright⟩
    | take batch hr hb hs ho =>
      refine ⟨fun it hit => ?_, ?_, hright⟩
      · rw [hb, List.flatten_append, List.flatten_singleton]
        exact List.mem_append_right _ hit
      · change (batch.map Item.res).Nodup
        rw [hq.last_batch hb]
        exact List.nodup_range'
    | verify batch hg' =>
      refine ⟨fun it hit => hsub (ht.taken it ?_), ?_, hright⟩
      · rwa [results_owed] at hit
      · rw [results_owed]
        exact ht.once
    | deliver it b rest hr hb hs =>
      exact ⟨fun it hit => hsub (ht.taken it (List.mem_cons_of_mem _ hit)),
        (List.nodup_cons.mp ht.once).2, hright⟩
  others g t u hg ht hu :=
    ⟨fun it hit => (t.next_move v g).batches_subset (hu.taken it hit), hu.once, hu.right⟩

end MemServe.Accel
