import MemServe.Paid
import MemServe.Pool

/-!
The payment gate under concurrent callers.

`OpenChannel` and the paid queries are cut at their critical sections: the registry is locked for
the cap check, for the registration, for a lookup and for the count of a bad attempt, and a channel
is locked for `Authorize`. A caller holds the channel it has found by reference, so it is charged
against that channel even if the id is opened again meanwhile.
-/

namespace MemServe.Payment

/-- Who sends a request: the holder of the client key, or anyone else. -/
inductive Party
  | client
  | outsider
  deriving DecidableEq

structure PaidQuery where
  sender : Party
  id : Hash
  commitment : Option Commitment
  type : QueryType
  deriving DecidableEq

/-- What concurrent callers share. Channels are allocated one after the other and the registry
refers to them by number. `calls` is the history of the calls of `Authorize`, each with its
outcome. -/
structure Registry where
  policy : Policy
  heap : List Channel := []
  channels : GoMap Hash ℕ := .empty
  bad : GoMap Hash ℕ := .empty
  banned : GoMap Hash Bool := .empty
  alerts : List Alert := []
  calls : List (PaidQuery × Bool) := []

/-- What a call returns. -/
inductive Outcome
  | opened (r : Except PaidError ℕ)
  | query (r : PaidQuery) (res : Except PaidError Unit)

/-- Where a caller stands. -/
inductive Caller
  /-- `OpenChannel` was called. -/
  | opening (cfg : Config)
  /-- The deposit is enough. -/
  | deposited (cfg : Config)
  /-- There was room for the channel. -/
  | admitted (cfg : Config)
  /-- The channel is open and not yet registered. -/
  | unregistered (cfg : Config) (p : ℕ)
  /-- A paid query was made. -/
  | asking (r : PaidQuery)
  /-- The channel is found. -/
  | found (r : PaidQuery) (p : ℕ)
  /-- `Authorize` has refused, which is not yet counted. -/
  | refused (r : PaidQuery) (e : Error)
  | alerting (a : Alert) (o : Outcome)
  | done (o : Outcome)

namespace Registry

def notify (s : Registry) (a : Alert) : Registry := { s with alerts := s.alerts ++ [a] }

def isBanned (s : Registry) (id : Hash) : Bool := (s.banned.get id).getD false

def badCount (s : Registry) (id : Hash) : ℕ := (s.bad.get id).getD 0

def lookup (s : Registry) (id : Hash) : Except PaidError ℕ :=
  if s.isBanned id then .error .channelBanned
  else
    match s.channels.get id with
    | none => .error .noChannel
    | some p => .ok p

/-- The cap refuses another channel. -/
def full (s : Registry) : Prop := 0 < s.policy.maxChannels ∧ s.policy.maxChannels ≤ s.channels.len

instance (s : Registry) : Decidable s.full := inferInstanceAs (Decidable (_ ∧ _))

/-- `Authorize` on the channel `p` for a query. -/
def authorize (s : Registry) (r : PaidQuery) (p : ℕ) (ch : Channel) : Caller × Registry :=
  match ch.authorize r.commitment r.type with
  | (.ok (), ch) =>
    (.done (.query r (.ok ())), { s with heap := s.heap.set p ch, calls := s.calls ++ [(r, true)] })
  | (.error e, ch) =>
    (.refused r e, { s with heap := s.heap.set p ch, calls := s.calls ++ [(r, false)] })

/-- Counts a bad attempt of a refused query, and bans the id once it has used up its budget. -/
def recordBad (s : Registry) (r : PaidQuery) (o : Outcome) : Caller × Registry :=
  if s.policy.maxBadAttempts ≤ 0 then (.done o, s)
  else
    let n := s.badCount r.id + 1
    let s := { s with bad := s.bad.set r.id n }
    if s.policy.maxBadAttempts ≤ (n : ℤ) ∧ s.isBanned r.id = false then
      (.alerting ⟨.channelBanned, r.id, "bad-attempt budget exceeded", n⟩ o,
        { s with banned := s.banned.set r.id true })
    else (.done o, s)

end Registry

/-- One critical section of a caller. -/
def Caller.next (c : Caller) (s : Registry) : Caller × Registry :=
  match c with
  | .opening cfg =>
    if 0 < s.policy.minDeposit ∧ cfg.deposit < s.policy.minDeposit then
      (.alerting ⟨.openRejected, cfg.params.channelID, "deposit below MinDeposit", 0⟩
        (.opened (.error .depositTooSmall)), s)
    else (.deposited cfg, s)
  | .deposited cfg =>
    if s.full then
      (.alerting ⟨.openFlood, cfg.params.channelID, "MaxChannels reached", s.channels.len⟩
        (.opened (.error .tooManyChannels)), s)
    else (.admitted cfg, s)
  | .admitted cfg =>
    match Channel.openWith cfg with
    | .error e => (.done (.opened (.error (.channel e))), s)
    | .ok ch => (.unregistered cfg s.heap.length, { s with heap := s.heap ++ [ch] })
  | .unregistered cfg p =>
    (.done (.opened (.ok p)), { s with channels := s.channels.set cfg.params.channelID p })
  | .asking r =>
    match s.lookup r.id with
    | .error e => (.done (.query r (.error e)), s)
    | .ok p => (.found r p, s)
  | .found r p =>
    match s.heap[p]? with
    -- a reference is to a channel that was allocated
    | none => (.found r p, s)
    | some ch => s.authorize r p ch
  | .refused r e => s.recordBad r (.query r (.error (.channel e)))
  | .alerting a o => (.done o, s.notify a)
  | .done o => (.done o, s)

inductive Arrival
  | openChannel (cfg : Config)
  | query (r : PaidQuery)

def gate : Pool.Program Registry Caller Arrival where
  start
    | .openChannel cfg => .opening cfg
    | .query r => .asking r
  next := Caller.next

abbrev GatePool : Type := Pool Registry Caller

def GatePool.new (policy : Policy) : GatePool := ⟨{ policy := policy }, []⟩

abbrev GateEvent : Type := Pool.Event Arrival

/-- A new server after some events. -/
def GatePool.after (policy : Policy) (es : List GateEvent) : GatePool :=
  (GatePool.new policy).run gate es

/-! ### One caller alone -/

/-- The registry as the server without concurrency has it. No two ids share a channel. -/
structure Registry.Views {σ : Type} (s : Registry) (ps : PaidServer σ) : Prop where
  policy : ps.policy = s.policy
  channels : ∀ id, ps.channels.get id = (s.channels.get id).bind (s.heap[·]?)
  allocated : ∀ id p, s.channels.get id = some p → p < s.heap.length
  apart : ∀ id id' p, s.channels.get id = some p → s.channels.get id' = some p → id = id'
  bad : ps.bad = s.bad
  banned : ps.banned = s.banned
  alerts : ps.alerts = s.alerts

/-- A caller that moves `n` times with nobody else there. -/
def Caller.alone : ℕ → Caller → Registry → Caller × Registry
  | 0, c, s => (c, s)
  | n + 1, c, s => Caller.alone n (c.next s).1 (c.next s).2

lemma Caller.alone_of_next {n : ℕ} {c c' : Caller} {s s' : Registry} (h : c.next s = (c', s')) :
    Caller.alone (n + 1) c s = Caller.alone n c' s' := by rw [Caller.alone, h]

@[simp] lemma Caller.alone_done (n : ℕ) (o : Outcome) (s : Registry) :
    Caller.alone n (.done o) s = (.done o, s) := by
  induction n with
  | zero => rfl
  | succ n ih => exact ih

@[simp] lemma Caller.alone_alerting (n : ℕ) (a : Alert) (o : Outcome) (s : Registry) :
    Caller.alone (n + 1) (.alerting a o) s = (.done o, s.notify a) := Caller.alone_done _ _ _

namespace Registry.Views

variable {σ : Type} {s : Registry} {ps : PaidServer σ}

lemma len (h : s.Views ps) : ps.channels.len = s.channels.len := by
  refine congrArg Finset.card (Finset.ext fun id => ?_)
  rw [GoMap.mem_keys, GoMap.mem_keys, h.channels]
  cases hp : s.channels.get id with
  | none => rfl
  | some p => simp [h.allocated id p hp]

lemma notify (h : s.Views ps) (a : Alert) : (s.notify a).Views (ps.notify a) :=
  ⟨h.policy, h.channels, h.allocated, h.apart, h.bad, h.banned, congrArg (· ++ [a]) h.alerts⟩

lemma register (h : s.Views ps) (id : Hash) (ch : Channel) :
    Registry.Views { s with heap := s.heap ++ [ch], channels := s.channels.set id s.heap.length }
      { ps with channels := ps.channels.set id ch } where
  policy := h.policy
  bad := h.bad
  banned := h.banned
  alerts := h.alerts
  channels id' := by
    dsimp only
    rw [GoMap.get_set, GoMap.get_set]
    split_ifs with hid
    · simp
    · rw [h.channels]
      cases hp : s.channels.get id' with
      | none => rfl
      | some p => exact (List.getElem?_append_left (h.allocated id' p hp)).symm
  allocated id' p hp := by
    dsimp only at hp ⊢
    rw [List.length_append, List.length_singleton]
    rcases GoMap.get_set_eq_some hp with ⟨-, rfl⟩ | ⟨-, hp⟩
    · omega
    · have := h.allocated id' p hp
      omega
  apart id₁ id₂ p h₁ h₂ := by
    dsimp only at h₁ h₂
    rcases GoMap.get_set_eq_some h₁ with ⟨e₁, rfl⟩ | ⟨-, h₁⟩ <;>
      rcases GoMap.get_set_eq_some h₂ with ⟨e₂, e⟩ | ⟨-, h₂⟩
    · rw [e₁, e₂]
    · exact absurd (h.allocated _ _ h₂) (lt_irrefl _)
    · exact absurd (h.allocated _ _ (e ▸ h₁)) (lt_irrefl _)
    · exact h.apart _ _ _ h₁ h₂

lemma write (h : s.Views ps) {id : Hash} {p : ℕ} (hp : s.channels.get id = some p) (ch : Channel)
    (calls : List (PaidQuery × Bool)) :
    Registry.Views { s with heap := s.heap.set p ch, calls := calls }
      { ps with channels := ps.channels.set id ch } where
  policy := h.policy
  bad := h.bad
  banned := h.banned
  alerts := h.alerts
  channels id' := by
    have hlt := h.allocated id p hp
    dsimp only
    rw [GoMap.get_set]
    split_ifs with hid
    · simp [hid, hp, hlt]
    · rw [h.channels]
      cases hp' : s.channels.get id' with
      | none => rfl
      | some p' =>
        have hne : p ≠ p' := fun heq => hid (h.apart id' id p (heq ▸ hp') hp)
        exact (List.getElem?_set_ne hne).symm
  allocated id' p' hp' := by
    rw [List.length_set]
    exact h.allocated id' p' hp'
  apart := h.apart

lemma recordBad_alone (h : s.Views ps) (r : PaidQuery) (e : Error) :
    ∃ s', Caller.alone 2 (.refused r e) s = (.done (.query r (.error (.channel e))), s') ∧
      s'.Views (ps.recordBad r.id) := by
  have hnext : (Caller.refused r e).next s = s.recordBad r (.query r (.error (.channel e))) := rfl
  obtain ⟨api, policy, channels, bad, banned, alerts⟩ := ps
  obtain ⟨hpolicy, hchannels, hallocated, hapart, hbad, hbanned, halerts⟩ := h
  dsimp only at hpolicy hbad hbanned halerts
  subst hpolicy hbad hbanned halerts
  unfold PaidServer.recordBad
  unfold Registry.recordBad Registry.badCount Registry.isBanned at hnext
  by_cases hoff : s.policy.maxBadAttempts ≤ 0
  · rw [if_pos hoff] at hnext ⊢
    exact ⟨s, by rw [Caller.alone_of_next hnext, Caller.alone_done],
      ⟨rfl, hchannels, hallocated, hapart, rfl, rfl, rfl⟩⟩
  rw [if_neg hoff] at hnext ⊢
  dsimp only at hnext ⊢
  split_ifs at hnext ⊢ with hban
  · refine ⟨_, (Caller.alone_of_next hnext).trans (Caller.alone_alerting _ _ _ _), ?_⟩
    exact ⟨rfl, hchannels, hallocated, hapart, rfl, rfl, rfl⟩
  · refine ⟨_, (Caller.alone_of_next hnext).trans (Caller.alone_done _ _ _), ?_⟩
    exact ⟨rfl, hchannels, hallocated, hapart, rfl, rfl, rfl⟩

/-- **`OpenChannel` with nobody else there** is the call of the server without concurrency. -/
lemma openChannel_alone (h : s.Views ps) (cfg : Config) :
    ∃ r s', Caller.alone 4 (.opening cfg) s = (.done (.opened r), s') ∧
      s'.Views (ps.openChannel cfg).2 ∧
      (r.map (s'.heap[·]?)) = ((ps.openChannel cfg).1.map some) := by
  have hlen := h.len
  obtain ⟨api, policy, channels, bad, banned, alerts⟩ := ps
  have hpolicy := h.policy
  dsimp only at hpolicy
  subst hpolicy
  unfold PaidServer.openChannel
  rw [hlen]
  dsimp only
  by_cases hdep : 0 < s.policy.minDeposit ∧ cfg.deposit < s.policy.minDeposit
  · have h1 : (Caller.opening cfg).next s = _ := if_pos hdep
    rw [if_pos hdep]
    exact ⟨.error .depositTooSmall, _, by rw [Caller.alone_of_next h1, Caller.alone_alerting],
      h.notify _, rfl⟩
  have h1 : (Caller.opening cfg).next s = (.deposited cfg, s) := if_neg hdep
  rw [if_neg hdep, Caller.alone_of_next h1]
  by_cases hfull : 0 < s.policy.maxChannels ∧ s.policy.maxChannels ≤ s.channels.len
  · have h2 : (Caller.deposited cfg).next s = _ := if_pos (show s.full from hfull)
    rw [if_pos hfull]
    exact ⟨.error .tooManyChannels, _, by rw [Caller.alone_of_next h2, Caller.alone_alerting],
      h.notify _, rfl⟩
  have h2 : (Caller.deposited cfg).next s = (.admitted cfg, s) := if_neg (show ¬s.full from hfull)
  rw [if_neg hfull, Caller.alone_of_next h2]
  cases hopen : Channel.openWith cfg with
  | error e =>
    have h3 : (Caller.admitted cfg).next s = (.done (.opened (.error (.channel e))), s) := by
      rw [Caller.next, hopen]
    exact ⟨.error (.channel e), s, by rw [Caller.alone_of_next h3, Caller.alone_done], h, rfl⟩
  | ok ch =>
    have h3 : (Caller.admitted cfg).next s =
        (.unregistered cfg s.heap.length, { s with heap := s.heap ++ [ch] }) := by
      rw [Caller.next, hopen]
    have hlast : (s.heap ++ [ch])[s.heap.length]? = some ch := List.getElem?_concat_length
    exact ⟨.ok s.heap.length, _, Caller.alone_of_next h3, h.register _ ch, congrArg Except.ok hlast⟩

/-- **A paid query with nobody else there** is authorized as by the server without concurrency. -/
lemma query_alone (h : s.Views ps) (r : PaidQuery) :
    ∃ s', Caller.alone 4 (.asking r) s =
      (.done (.query r (ps.authorize r.id r.commitment r.type).1), s') ∧
      s'.Views (ps.authorize r.id r.commitment r.type).2 := by
  have hban : (ps.banned.get r.id).getD false = s.isBanned r.id := by
    rw [h.banned, Registry.isBanned]
  have h1 : (Caller.asking r).next s = match s.lookup r.id with
    | .error e => (.done (.query r (.error e)), s)
    | .ok p => (.found r p, s) := rfl
  unfold PaidServer.authorize PaidServer.lookup
  unfold Registry.lookup at h1
  rw [hban, h.channels]
  by_cases hb : s.isBanned r.id = true
  · rw [if_pos hb] at h1 ⊢
    exact ⟨s, by rw [Caller.alone_of_next h1, Caller.alone_done], h⟩
  rw [if_neg hb] at h1 ⊢
  cases hp : s.channels.get r.id with
  | none =>
    rw [hp] at h1
    exact ⟨s, by rw [Caller.alone_of_next h1, Caller.alone_done]; rfl, h⟩
  | some p =>
    rw [hp] at h1
    rw [Caller.alone_of_next h1]
    have hlt := h.allocated r.id p hp
    have hch : s.heap[p]? = some s.heap[p] := List.getElem?_eq_getElem hlt
    generalize s.heap[p] = ch at hch
    have h2 : (Caller.found r p).next s = s.authorize r p ch := by rw [Caller.next, hch]
    simp only [Option.bind_some, hch]
    unfold Registry.authorize at h2
    rcases ch.authorize_cases r.commitment r.type with ⟨com, hcom, -, hok⟩ | ⟨e, herr⟩
    · rw [hok] at h2 ⊢
      exact ⟨_, by rw [Caller.alone_of_next h2, Caller.alone_done], h.write hp _ _⟩
    · rw [herr] at h2 ⊢
      rw [Caller.alone_of_next h2]
      exact (h.write hp ch _).recordBad_alone r e

end Registry.Views

end MemServe.Payment
