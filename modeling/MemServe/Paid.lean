import Mathlib.Data.UInt
import MemServe.Api
import MemServe.GoMap
import MemServe.Prepay

/-!
The payment gate in front of the query surface: a registry of channels by id, a budget of bad
attempts for each, and four queries that authorize a payment before they are answered.

`OpenChannel` registers what it opens under the id of the request, whatever is there already.
-/

namespace MemServe.Payment

structure Policy where
  minDeposit : UInt64 := 0
  maxChannels : ℤ := 0
  maxBadAttempts : ℤ := 64

inductive AlertKind
  | channelBanned
  | openRejected
  | openFlood

structure Alert where
  kind : AlertKind
  channelID : Hash
  detail : String
  count : ℕ := 0

inductive PaidError
  | noChannel
  | channelBanned
  | depositTooSmall
  | tooManyChannels
  | channel (e : Error)

/-- The server over an API state of type `σ`. The alerts are those the notifier has received. -/
structure PaidServer (σ : Type) where
  api : σ
  policy : Policy := {}
  channels : GoMap Hash Channel := .empty
  bad : GoMap Hash ℕ := .empty
  banned : GoMap Hash Bool := .empty
  alerts : List Alert := []

namespace PaidServer

variable {σ : Type}

def notify (s : PaidServer σ) (a : Alert) : PaidServer σ := { s with alerts := s.alerts ++ [a] }

def openChannel (s : PaidServer σ) (cfg : Config) : Except PaidError Channel × PaidServer σ :=
  let id := cfg.params.channelID
  if 0 < s.policy.minDeposit ∧ cfg.deposit < s.policy.minDeposit then
    (.error .depositTooSmall, s.notify ⟨.openRejected, id, "deposit below MinDeposit", 0⟩)
  else if 0 < s.policy.maxChannels ∧ s.policy.maxChannels ≤ s.channels.len then
    (.error .tooManyChannels, s.notify ⟨.openFlood, id, "MaxChannels reached", s.channels.len⟩)
  else
    match Channel.openWith cfg with
    | .error e => (.error (.channel e), s)
    | .ok ch => (.ok ch, { s with channels := s.channels.set id ch })

def lookup (s : PaidServer σ) (id : Hash) : Except PaidError Channel :=
  if (s.banned.get id).getD false then .error .channelBanned
  else
    match s.channels.get id with
    | none => .error .noChannel
    | some ch => .ok ch

/-- Counts a bad attempt, and bans the channel once it has used up its budget. -/
def recordBad (s : PaidServer σ) (id : Hash) : PaidServer σ :=
  if s.policy.maxBadAttempts ≤ 0 then s
  else
    let n : ℕ := (s.bad.get id).getD 0 + 1
    let s := { s with bad := s.bad.set id n }
    if s.policy.maxBadAttempts ≤ (n : ℤ) ∧ (s.banned.get id).getD false = false then
      { s with banned := s.banned.set id true }.notify
        ⟨.channelBanned, id, "bad-attempt budget exceeded", n⟩
    else s

/-- Books the payment of an access, before the access is served. -/
def authorize (s : PaidServer σ) (id : Hash) (c : Option Commitment) (q : QueryType) :
    Except PaidError Unit × PaidServer σ :=
  match s.lookup id with
  | .error e => (.error e, s)
  | .ok ch =>
    match ch.authorize c q with
    | (.error e, ch) =>
      (.error (.channel e), recordBad { s with channels := s.channels.set id ch } id)
    | (.ok (), ch) => (.ok (), { s with channels := s.channels.set id ch })

/-- What was prepaid, over all channels. -/
def revenue (s : PaidServer σ) : UInt64 := s.channels.sum (·.cumPaid)

end PaidServer

/-- A query fails at the gate or behind it. -/
inductive QueryError (ε : Type)
  | payment (e : PaidError)
  | api (e : ε)

namespace PaidServer

variable {σ : Type} {ε α : Type}

/-- A query of type `q`: prepay, then answer. -/
def query (q : QueryType) (answer : ExceptT ε (StateM σ) α) (s : PaidServer σ) (id : Hash)
    (c : Option Commitment) :
    Except (QueryError ε) α × PaidServer σ :=
  match s.authorize id c q with
  | (.error e, s) => (.error (.payment e), s)
  | (.ok (), s) =>
    match answer.run.run s.api with
    | (.error e, api) => (.error (.api e), { s with api := api })
    | (.ok a, api) => (.ok a, { s with api := api })

variable [Store σ]

def seen (s : PaidServer σ) (id : Hash) (c : Option Commitment) (txid : Hash) :=
  s.query .seen (Api.seen txid) id c

def mined (s : PaidServer σ) (id : Hash) (c : Option Commitment) (txid : Hash) :=
  s.query .mined (Api.mined txid) id c

def merklePath (s : PaidServer σ) (id : Hash) (c : Option Commitment) (txid : Hash) :=
  s.query .merklePath (Api.merklePath txid) id c

def utxo (s : PaidServer σ) (id : Hash) (c : Option Commitment) (op : Outpoint) :=
  s.query .utxo (Api.utxo op) id c

/-! ### What a call does to the registry -/

omit [Store σ]

@[simp] lemma recordBad_channels (s : PaidServer σ) (id : Hash) :
    (s.recordBad id).channels = s.channels := by
  unfold recordBad
  dsimp only
  split_ifs <;> rfl

lemma openChannel_cases (s : PaidServer σ) (cfg : Config) :
    (∃ ch, Channel.openWith cfg = .ok ch ∧
      s.openChannel cfg = (.ok ch, { s with channels := s.channels.set cfg.params.channelID ch })) ∨
    ∃ e s', s.openChannel cfg = (.error e, s') ∧ s'.channels = s.channels := by
  unfold openChannel
  dsimp only
  split_ifs
  · exact .inr ⟨_, _, rfl, rfl⟩
  · exact .inr ⟨_, _, rfl, rfl⟩
  · cases hopen : Channel.openWith cfg with
    | ok ch => exact .inl ⟨ch, rfl, rfl⟩
    | error e => exact .inr ⟨_, _, rfl, rfl⟩

lemma lookup_ok {s : PaidServer σ} {id : Hash} {ch : Channel} (h : s.lookup id = .ok ch) :
    s.channels.get id = some ch := by
  unfold lookup at h
  split_ifs at h
  cases hget : s.channels.get id with
  | none => simp [hget] at h
  | some ch' =>
    simp only [hget] at h
    cases h
    rfl

/-- **An accepted payment is booked in the channel of the id**; a refused one leaves the registry
alone. -/
lemma authorize_cases (s : PaidServer σ) (id : Hash) (c : Option Commitment) (q : QueryType) :
    (∃ ch com, s.lookup id = .ok ch ∧ c = some com ∧ ch.Accepts com q ∧
      s.authorize id c q = (.ok (), { s with channels := s.channels.set id (ch.book com) })) ∨
    ∃ e s', s.authorize id c q = (.error e, s') ∧ s'.channels = s.channels := by
  unfold authorize
  cases hl : s.lookup id with
  | error e => exact .inr ⟨e, s, rfl, rfl⟩
  | ok ch =>
    dsimp only
    rcases ch.authorize_cases c q with ⟨com, hc, hacc, hok⟩ | ⟨e, herr⟩
    · exact .inl ⟨ch, com, rfl, hc, hacc, by rw [hok]⟩
    · refine .inr ⟨_, _, by rw [herr], ?_⟩
      rw [recordBad_channels]
      -- the channel put back is the one that was there
      refine GoMap.ext_get fun j => ?_
      rw [GoMap.get_set]
      split_ifs with hj
      · rw [hj, lookup_ok hl]
      · rfl

lemma lookup_of_get {s : PaidServer σ} {id : Hash} {ch : Channel} (hban : s.banned.get id = none)
    (hget : s.channels.get id = some ch) : s.lookup id = .ok ch := by
  rw [lookup, hban, hget]
  rfl

lemma authorize_of_accepts {s : PaidServer σ} {id : Hash} {ch : Channel} {com : Commitment}
    {q : QueryType} (hl : s.lookup id = .ok ch) (hacc : ch.Accepts com q) :
    s.authorize id (some com) q =
      (.ok (), { s with channels := s.channels.set id (ch.book com) }) := by
  rw [authorize, hl]
  dsimp only
  rw [Channel.authorize_of_accepts hacc]

lemma query_of_accepts {s : PaidServer σ} {id : Hash} {ch : Channel} {com : Commitment}
    {q : QueryType} (hl : s.lookup id = .ok ch) (hacc : ch.Accepts com q)
    (answer : ExceptT ε (StateM σ) α) :
    ∃ api, (s.query q answer id (some com)).2 =
      { s with api := api, channels := s.channels.set id (ch.book com) } := by
  rw [query, authorize_of_accepts hl hacc]
  dsimp only
  cases hans : answer.run.run s.api with
  | mk r api => cases r <;> exact ⟨api, rfl⟩

lemma query_channels (q : QueryType) (answer : ExceptT ε (StateM σ) α) (s : PaidServer σ)
    (id : Hash) (c : Option Commitment) :
    (s.query q answer id c).2.channels = (s.authorize id c q).2.channels := by
  unfold query
  cases hauth : s.authorize id c q with
  | mk r s' =>
    cases r with
    | error e => rfl
    | ok u =>
      dsimp only
      cases hans : answer.run.run s'.api with
      | mk r' api => cases r' <;> rfl

end PaidServer

end MemServe.Payment
