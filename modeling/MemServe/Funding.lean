import Mathlib.Data.List.MinMax
import MemServe.Mem
import MemServe.Paid

/-!
A funding output buys what was signed for, as long as no channel with accesses is opened again.

A commitment is bound to the funding output and not to the state of a channel, so a channel that
starts over accepts the old commitments once more. Along a run in which no channel that has
served an access is replaced, and no output funds two registered channels, the accesses served
against an output cost at most the largest amount accepted for it.
-/

namespace MemServe.Payment

open Bsvtx

def Params.outpoint (p : Params) : OutPoint := ⟨p.fundingTxID, p.fundingVout⟩

/-- An access served: what funded it, what it cost and the amount accepted for it. -/
structure Access where
  outpoint : OutPoint
  charge : ℕ
  cum : UInt64

def charges (l : List Access) : ℕ := (l.map (·.charge)).sum

/-- The largest amount accepted. -/
def largest (l : List Access) : ℕ := (l.map (·.cum.toNat)).foldr max 0

lemma charges_concat (l : List Access) (a : Access) :
    charges (l ++ [a]) = charges l + a.charge := by
  simp [charges]

lemma le_largest {l : List Access} {a : Access} (h : a ∈ l) : a.cum.toNat ≤ largest l :=
  List.le_max_of_le (List.mem_map_of_mem h) (le_refl _)

namespace Channel

def outpoint (ch : Channel) : OutPoint := ch.cfg.params.outpoint

/-- The access that a channel serves for a commitment: its price and its part of the fee. -/
def access (ch : Channel) (com : Commitment) (q : QueryType) : Access where
  outpoint := ch.outpoint
  charge := (ch.cfg.pricing.service q).toNat + (ch.feeComponent (ch.accesses + 1)).toNat
  cum := com.cumAmount

end Channel

/-- Prices are not zero and no required amount wraps: not that of the first access, nor that of a
later one with the whole deposit paid. -/
structure Config.Priced (cfg : Config) : Prop where
  price : ∀ q, q ≠ .other → cfg.pricing.service q ≠ 0
  first : ∀ q, ({ cfg := cfg } : Channel).Fits q
  later : ∀ q, ({ cfg := cfg, accesses := 1, cumPaid := cfg.deposit } : Channel).Fits q

lemma Channel.feeComponent_later (ch : Channel) {i j : UInt64} (hi : i ≠ 1) (hj : j ≠ 1) :
    ch.feeComponent i = ch.feeComponent j := by
  unfold feeComponent
  rw [if_neg hi, if_neg hj]

/-- The state of a channel against the accesses served for its output. -/
structure Account (ch : Channel) (l : List Access) : Prop where
  best : ch.best = none ↔ l = []
  within : ch.cumPaid ≤ ch.cfg.deposit
  largest : ch.cumPaid.toNat ≤ largest l
  count : ch.cfg.Priced → ch.accesses.toNat = l.length
  length : ch.cfg.Priced → l.length ≤ charges l
  covers : ch.cfg.Priced → charges l ≤ ch.cumPaid.toNat

namespace Account

variable {ch : Channel} {l : List Access} {com : Commitment} {q : QueryType}

lemma fresh (cfg : Config) : Account { cfg := cfg } [] :=
  ⟨⟨fun _ => rfl, fun _ => rfl⟩, UInt64.zero_le, le_refl 0,
    fun _ => rfl, fun _ => le_refl 0, fun _ => le_refl 0⟩

lemma cumPaid_eq_zero (h : Account ch l) (hb : ch.best = none) : ch.cumPaid.toNat = 0 := by
  have hle := h.largest
  rw [h.best.mp hb] at hle
  exact Nat.le_zero.mp hle

lemma fits (h : Account ch l) (hp : ch.cfg.Priced) (q : QueryType) : ch.Fits q := by
  have hcount := h.count hp
  refine ⟨?_, (hp.first q).2⟩
  cases hl : l with
  | nil =>
    rw [hl] at hcount
    have hacc : ch.accesses = 0 := UInt64.toNat_inj.mp hcount
    have hcum := h.cumPaid_eq_zero (h.best.mpr hl)
    have hfirst := (hp.first q).1
    rw [hcum, hacc]
    exact hfirst
  | cons a l' =>
    have hne : ch.accesses + 1 ≠ 1 := by
      intro h1
      have h0 : ch.accesses = 0 := by simpa using h1
      rw [h0, hl] at hcount
      cases hcount
    have hlater := (hp.later q).1
    have hwithin := UInt64.le_iff_toNat_le.mp h.within
    rw [ch.feeComponent_later hne (by decide : (1 + 1 : UInt64) ≠ 1)]
    change ch.cfg.deposit.toNat + (ch.cfg.pricing.service q).toNat +
      (ch.feeComponent (1 + 1)).toNat < 2 ^ 64 at hlater
    omega

lemma cum_ge (h : Account ch l) (hacc : ch.Accepts com q) (hp : ch.cfg.Priced) :
    ch.cumPaid.toNat + (ch.access com q).charge ≤ com.cumAmount.toNat := by
  have hcov := UInt64.le_iff_toNat_le.mp hacc.covers
  rw [Channel.quote_toNat (h.fits hp q), Nat.add_assoc] at hcov
  exact hcov

lemma charge_pos (hp : ch.cfg.Priced) (hq : q ≠ .other) : 0 < (ch.access com q).charge :=
  Nat.add_pos_left (Nat.pos_of_ne_zero fun h0 => hp.price q hq (UInt64.toNat_inj.mp h0)) _

lemma book (h : Account ch l) (hacc : ch.Accepts com q) (hq : q ≠ .other) :
    Account (ch.book com) (l ++ [ch.access com q]) := by
  have hmem : ch.access com q ∈ l ++ [ch.access com q] := List.mem_append_right l List.mem_cons_self
  have hlarge := le_largest hmem
  refine ⟨?_, hacc.within, hlarge, fun hp => ?_, fun hp => ?_, fun hp => ?_⟩
  · exact iff_of_false nofun (List.append_ne_nil_of_right_ne_nil l (List.cons_ne_nil _ _))
  · -- the counter does not wrap: there are no more accesses than coins paid
    change (ch.accesses + 1).toNat = _
    have hlen := h.length hp
    have hcov := h.covers hp
    have hcum := h.cum_ge hacc hp
    have hpos := @charge_pos ch com q hp hq
    have hlt := com.cumAmount.toNat_lt
    rw [UInt64.toNat_add, h.count hp, List.length_append, List.length_singleton]
    exact Nat.mod_eq_of_lt (by change l.length + 1 < 2 ^ 64; omega)
  · have hlen := h.length hp
    have hpos := @charge_pos ch com q hp hq
    rw [charges_concat, List.length_append, List.length_singleton]
    omega
  · have hcov := h.covers hp
    have hcum := h.cum_ge hacc hp
    rw [charges_concat]
    change _ ≤ com.cumAmount.toNat
    omega

lemma le_book (h : Account ch l) (hacc : ch.Accepts com q) (hq : q ≠ .other) (hp : ch.cfg.Priced) :
    ch.accesses ≤ (ch.book com).accesses ∧ ch.cumPaid ≤ (ch.book com).cumPaid := by
  have hcount := (h.book hacc hq).count hp
  have hcum := h.cum_ge hacc hp
  rw [List.length_append, List.length_singleton, ← h.count hp] at hcount
  rw [UInt64.le_iff_toNat_le, UInt64.le_iff_toNat_le]
  constructor
  · omega
  · change _ ≤ com.cumAmount.toNat
    omega

end Account

/-! ### Runs of the server -/

/-- A call on the server. -/
inductive Request
  | openChannel (cfg : Config)
  | seen (id : Hash) (c : Option Commitment) (txid : Hash)
  | mined (id : Hash) (c : Option Commitment) (txid : Hash)
  | merklePath (id : Hash) (c : Option Commitment) (txid : Hash)
  | utxo (id : Hash) (c : Option Commitment) (op : Outpoint)

/-- The payment a query comes with: the channel, the commitment and the type of access. -/
def Request.payment (r : Request) : Option (Hash × Option Commitment × QueryType) :=
  match r with
  | .openChannel _ => none
  | .seen id c _ => some (id, c, .seen)
  | .mined id c _ => some (id, c, .mined)
  | .merklePath id c _ => some (id, c, .merklePath)
  | .utxo id c _ => some (id, c, .utxo)

namespace PaidServer

variable {σ : Type} [Store σ]

def serve (s : PaidServer σ) (r : Request) : PaidServer σ :=
  match r with
  | .openChannel cfg => (s.openChannel cfg).2
  | .seen id c txid => (s.seen id c txid).2
  | .mined id c txid => (s.mined id c txid).2
  | .merklePath id c txid => (s.merklePath id c txid).2
  | .utxo id c op => (s.utxo id c op).2

omit [Store σ] in
/-- The access a call serves, if it passes the gate. -/
def access (s : PaidServer σ) (r : Request) : Option Access := do
  let (id, c, q) ← r.payment
  let com ← c
  match s.lookup id, (s.authorize id c q).1 with
  | .ok ch, .ok () => some (ch.access com q)
  | _, _ => none

lemma serve_payment {s : PaidServer σ} {r : Request} {id : Hash} {c : Option Commitment}
    {q : QueryType} (h : r.payment = some (id, c, q)) :
    (s.serve r).channels = (s.authorize id c q).2.channels ∧ q ≠ .other := by
  cases r with
  | openChannel cfg => cases h
  | _ =>
    cases h
    exact ⟨query_channels _ _ _ _ _, nofun⟩

/-- **What one call does to the registry**: it registers a new channel, books an access, or
neither. -/
lemma serve_cases (s : PaidServer σ) (r : Request) :
    (∃ cfg ch, r = .openChannel cfg ∧ Channel.openWith cfg = .ok ch ∧
      (s.openChannel cfg).1 = .ok ch ∧
      (s.serve r).channels = s.channels.set cfg.params.channelID ch ∧ s.access r = none) ∨
    (∃ id ch com q, r.payment = some (id, some com, q) ∧ q ≠ .other ∧ s.channels.get id = some ch ∧
      ch.Accepts com q ∧
      (s.serve r).channels = s.channels.set id (ch.book com) ∧
        s.access r = some (ch.access com q)) ∨
    ((s.serve r).channels = s.channels ∧ s.access r = none) := by
  cases hpay : r.payment with
  | none =>
    cases r with
    | openChannel cfg =>
      rcases s.openChannel_cases cfg with ⟨ch, hopen, hok⟩ | ⟨e, s', herr, hs'⟩
      · exact .inl ⟨cfg, ch, rfl, hopen, by rw [hok], by rw [serve, hok], rfl⟩
      · exact .inr (.inr ⟨by rw [serve, herr]; exact hs', rfl⟩)
    | _ => cases hpay
  | some p =>
    obtain ⟨id, c, q⟩ := p
    obtain ⟨hserve, hq⟩ := serve_payment hpay (s := s)
    rcases s.authorize_cases id c q with ⟨ch, com, hl, rfl, hacc, hok⟩ | ⟨e, s', herr, hs'⟩
    · refine .inr (.inl ⟨id, ch, com, q, rfl, hq, lookup_ok hl, hacc, by rw [hserve, hok], ?_⟩)
      simp [access, hpay, hl, hok]
    · refine .inr (.inr ⟨by rw [hserve, herr]; exact hs', ?_⟩)
      cases c with
      | none => simp [access, hpay]
      | some com => cases hl : s.lookup id <;> simp [access, hpay, hl, herr]

end PaidServer

/-- The server and the accesses it has served. -/
structure Books (σ : Type) where
  server : PaidServer σ
  log : List Access := []

namespace Books

variable {σ : Type} [Store σ]

def step (b : Books σ) (r : Request) : Books σ :=
  ⟨b.server.serve r, b.log ++ (b.server.access r).toList⟩

def run (b : Books σ) (rs : List Request) : Books σ := rs.foldl step b

lemma run_append (b : Books σ) (pre post : List Request) :
    b.run (pre ++ post) = (b.run pre).run post :=
  List.foldl_append

omit [Store σ] in
/-- The accesses served against an output. -/
def served (b : Books σ) (o : OutPoint) : List Access := b.log.filter (·.outpoint = o)

end Books

/-- Where a call may be made: an accepted `OpenChannel` finds no other channel of its output, and
under its id no channel that has served an access. -/
def Request.Fresh {σ : Type} (r : Request) (s : PaidServer σ) : Prop :=
  match r with
  | .openChannel cfg =>
    (∃ ch, (s.openChannel cfg).1 = .ok ch) →
      (∀ id ch, s.channels.get id = some ch → ch.outpoint = cfg.params.outpoint →
        id = cfg.params.channelID) ∧
        ∀ ch, s.channels.get cfg.params.channelID = some ch → ch.best = none
  | _ => True

namespace Books

variable {σ : Type}

/-- The registry against the accesses served. Every access is in the account of the one channel of
its output, and every channel is of a config from `P`. -/
structure Kept (P : Config → Prop) (b : Books σ) : Prop where
  unique : ∀ id ch id' ch', b.server.channels.get id = some ch →
    b.server.channels.get id' = some ch' →
    ch.outpoint = ch'.outpoint → id = id'
  home : ∀ a ∈ b.log, ∃ id ch, b.server.channels.get id = some ch ∧ ch.outpoint = a.outpoint
  account : ∀ id ch, b.server.channels.get id = some ch → Account ch (b.served ch.outpoint)
  opened : ∀ id ch, b.server.channels.get id = some ch →
    ∃ cfg, P cfg ∧ cfg.params.outpoint = ch.outpoint ∧ (cfg.Priced → ch.cfg.Priced)

/-- A channel that has served an access stays, and the counters of a priced one do not fall. -/
def Keeps (s s' : PaidServer σ) : Prop :=
  ∀ id ch, s.channels.get id = some ch → ch.best ≠ none →
    ∃ ch', s'.channels.get id = some ch' ∧ ch'.cfg = ch.cfg ∧ ch'.best ≠ none ∧
      (ch.cfg.Priced → ch.accesses ≤ ch'.accesses ∧ ch.cumPaid ≤ ch'.cumPaid)

lemma Keeps.refl (s : PaidServer σ) : Keeps s s := fun _ ch h hb =>
  ⟨ch, h, rfl, hb, fun _ => ⟨UInt64.le_refl _, UInt64.le_refl _⟩⟩

lemma Keeps.of_channels {s s' : PaidServer σ} (h : s'.channels = s.channels) : Keeps s s' := by
  intro id ch hget hb
  rw [← h] at hget
  exact ⟨ch, hget, rfl, hb, fun _ => ⟨UInt64.le_refl _, UInt64.le_refl _⟩⟩

lemma Keeps.trans {s s' s'' : PaidServer σ} (h : Keeps s s') (h' : Keeps s' s'') : Keeps s s'' := by
  intro id ch hget hb
  obtain ⟨ch', hget', hcfg, hb', hle⟩ := h id ch hget hb
  obtain ⟨ch'', hget'', hcfg', hb'', hle'⟩ := h' id ch' hget' hb'
  refine ⟨ch'', hget'', hcfg'.trans hcfg, hb'', fun hp => ?_⟩
  obtain ⟨h1, h2⟩ := hle hp
  obtain ⟨h1', h2'⟩ := hle' (hcfg ▸ hp)
  exact ⟨UInt64.le_trans h1 h1', UInt64.le_trans h2 h2'⟩

variable {P : Config → Prop} {b : Books σ}

lemma Kept.served_eq_nil (h : Kept P b) {o : OutPoint}
    (ho : ∀ id ch, b.server.channels.get id = some ch → ch.outpoint = o → ch.best = none) :
    b.served o = [] := by
  by_contra hne
  obtain ⟨a, ha⟩ := List.exists_mem_of_ne_nil _ hne
  obtain ⟨hlog, hao⟩ := List.mem_filter.mp ha
  obtain ⟨id, ch, hget, hch⟩ := h.home a hlog
  have hout : ch.outpoint = o := hch.trans (of_decide_eq_true hao)
  have hacc := h.account id ch hget
  rw [hout] at hacc
  exact hne (hacc.best.mp (ho id ch hget hout))

lemma Kept.open (h : Kept P b) {cfg : Config} {ch : Channel} (hP : P cfg)
    (hopen : Channel.openWith cfg = .ok ch)
    (hout : ∀ id ch, b.server.channels.get id = some ch → ch.outpoint = cfg.params.outpoint →
      id = cfg.params.channelID)
    (hid : ∀ ch, b.server.channels.get cfg.params.channelID = some ch → ch.best = none)
    {s : PaidServer σ} (hs : s.channels = b.server.channels.set cfg.params.channelID ch) :
    Kept P ⟨s, b.log⟩ ∧ Keeps b.server s := by
  obtain ⟨params, rfl, -, -, -, htx, hvout, -⟩ := Channel.openWith_ok hopen
  have ho : Channel.outpoint { cfg := { cfg with params := params } } = cfg.params.outpoint := by
    rw [Channel.outpoint, Params.outpoint, Params.outpoint, htx, hvout]
  have hnil : b.served cfg.params.outpoint = [] := h.served_eq_nil fun id ch' hget ho' => by
    rw [hout id ch' hget ho'] at hget
    exact hid ch' hget
  constructor
  · constructor
    · intro id ch id' ch' hget hget' heq
      rw [hs] at hget hget'
      rcases GoMap.get_set_eq_some hget with ⟨h1, rfl⟩ | ⟨h1, hget⟩ <;>
        rcases GoMap.get_set_eq_some hget' with ⟨h2, rfl⟩ | ⟨h2, hget'⟩
      · exact h1.trans h2.symm
      · exact absurd (hout id' ch' hget' (heq.symm.trans ho)) h2
      · exact absurd (hout id ch hget (heq.trans ho)) h1
      · exact h.unique id ch id' ch' hget hget' heq
    · intro a ha
      obtain ⟨id, ch, hget, hch⟩ := h.home a ha
      refine ⟨id, ch, ?_, hch⟩
      rw [hs, GoMap.get_set_of_ne _ _ ?_]
      · exact hget
      -- the channel replaced has served nothing
      rintro rfl
      have hacc := h.account _ ch hget
      have hmem : a ∈ b.served ch.outpoint := List.mem_filter.mpr ⟨ha, decide_eq_true hch.symm⟩
      rw [hacc.best.mp (hid ch hget)] at hmem
      exact absurd hmem List.not_mem_nil
    · intro id ch hget
      rw [hs] at hget
      rcases GoMap.get_set_eq_some hget with ⟨-, rfl⟩ | ⟨-, hget⟩
      · rw [ho]
        change Account _ (b.served _)
        rw [hnil]
        exact Account.fresh _
      · exact h.account id ch hget
    · intro id ch hget
      rw [hs] at hget
      rcases GoMap.get_set_eq_some hget with ⟨-, rfl⟩ | ⟨-, hget⟩
      · exact ⟨cfg, hP, ho.symm, fun hp => ⟨hp.price, hp.first, hp.later⟩⟩
      · exact h.opened id ch hget
  · intro id ch hget hb
    rw [hs, GoMap.get_set_of_ne _ _ ?_]
    · exact Keeps.refl b.server id ch hget hb
    rintro rfl
    exact hb (hid ch hget)

lemma Kept.book (h : Kept P b) {id : Hash} {ch : Channel} {com : Commitment} {q : QueryType}
    (hget : b.server.channels.get id = some ch) (hacc : ch.Accepts com q) (hq : q ≠ .other)
    {s : PaidServer σ} (hs : s.channels = b.server.channels.set id (ch.book com)) :
    Kept P ⟨s, b.log ++ [ch.access com q]⟩ ∧ Keeps b.server s := by
  -- the registry afterwards: the same outputs under the same ids
  have hback : ∀ id' ch', s.channels.get id' = some ch' →
      id' = id ∧ ch' = ch.book com ∨ id' ≠ id ∧ b.server.channels.get id' = some ch' := by
    intro id' ch' hget'
    rw [hs] at hget'
    rcases GoMap.get_set_eq_some hget' with ⟨h1, rfl⟩ | h0
    · exact .inl ⟨h1, rfl⟩
    · exact .inr h0
  have hold : ∀ id' ch', s.channels.get id' = some ch' →
      ∃ ch₀, b.server.channels.get id' = some ch₀ ∧ ch₀.outpoint = ch'.outpoint ∧
          ch₀.cfg = ch'.cfg := by
    intro id' ch' hget'
    rcases hback id' ch' hget' with ⟨rfl, rfl⟩ | ⟨-, h0⟩
    · exact ⟨ch, hget, rfl, rfl⟩
    · exact ⟨ch', h0, rfl, rfl⟩
  have hself : s.channels.get id = some (ch.book com) := by rw [hs, GoMap.get_set_self]
  have hnew : ∀ id' ch', b.server.channels.get id' = some ch' →
      ∃ ch₁, s.channels.get id' = some ch₁ ∧ ch₁.outpoint = ch'.outpoint := by
    intro id' ch' hget'
    by_cases h1 : id' = id
    · subst h1
      rw [hget] at hget'
      cases hget'
      exact ⟨_, hself, rfl⟩
    · exact ⟨ch', by rw [hs, GoMap.get_set_of_ne _ _ h1, hget'], rfl⟩
  have hserved : ∀ o, Books.served ⟨s, b.log ++ [ch.access com q]⟩ o =
      b.served o ++ if ch.outpoint = o then [ch.access com q] else [] := by
    intro o
    by_cases ho : ch.outpoint = o <;> simp [served, Channel.access, ho]
  constructor
  · constructor
    · intro id₁ ch₁ id₂ ch₂ h1 h2 heq
      obtain ⟨c1, hc1, ho1, -⟩ := hold id₁ ch₁ h1
      obtain ⟨c2, hc2, ho2, -⟩ := hold id₂ ch₂ h2
      exact h.unique id₁ c1 id₂ c2 hc1 hc2 (ho1.trans (heq.trans ho2.symm))
    · intro a ha
      rcases List.mem_append.mp ha with ha | ha
      · obtain ⟨id', ch', h', ho⟩ := h.home a ha
        obtain ⟨ch₁, h1, ho1⟩ := hnew id' ch' h'
        exact ⟨id', ch₁, h1, ho1.trans ho⟩
      · rw [List.mem_singleton] at ha
        subst ha
        exact ⟨id, ch.book com, hself, rfl⟩
    · intro id' ch' hget'
      rw [hserved]
      rcases hback id' ch' hget' with ⟨rfl, rfl⟩ | ⟨hne, h0⟩
      · rw [if_pos (show ch.outpoint = (ch.book com).outpoint from rfl)]
        exact (h.account _ ch hget).book hacc hq
      · rw [if_neg fun ho => hne (h.unique id' ch' id ch h0 hget ho.symm), List.append_nil]
        exact h.account id' ch' h0
    · intro id' ch' hget'
      obtain ⟨c0, hc0, ho, hcfg⟩ := hold id' ch' hget'
      obtain ⟨cfg, hP, hout, hpr⟩ := h.opened id' c0 hc0
      exact ⟨cfg, hP, hout.trans ho, fun hp => hcfg ▸ hpr hp⟩
  · intro id' ch' hget' hb
    by_cases h1 : id' = id
    · subst h1
      rw [hget] at hget'
      cases hget'
      exact ⟨ch.book com, hself, rfl, nofun, (h.account _ ch hget).le_book hacc hq⟩
    · rw [hs, GoMap.get_set_of_ne _ _ h1]
      exact Keeps.refl b.server id' ch' hget' hb

variable [Store σ]

lemma Kept.step (h : Kept P b) {r : Request} (hP : ∀ cfg, r = .openChannel cfg → P cfg)
    (hf : r.Fresh b.server) :
    Kept P (b.step r) ∧ Keeps b.server (b.step r).server := by
  unfold Books.step
  rcases b.server.serve_cases r with
    ⟨cfg, ch, rfl, hopen, hok, hch, hnone⟩ | ⟨id, ch, com, q, -, hq, hget, hacc, hch,
      hsome⟩ | ⟨hch, hnone⟩
  · obtain ⟨hout, hid⟩ := hf ⟨ch, hok⟩
    rw [hnone, Option.toList_none, List.append_nil]
    exact h.open (hP cfg rfl) hopen hout hid hch
  · rw [hsome]
    exact h.book hget hacc hq hch
  · rw [hnone, Option.toList_none, List.append_nil]
    refine ⟨⟨?_, ?_, ?_, ?_⟩, Keeps.of_channels hch⟩
    all_goals simp only [hch]
    · exact h.unique
    · exact h.home
    · exact h.account
    · exact h.opened

/-- A run of calls that are made where they may be, opening channels of configs from `P`. -/
abbrev Careful (P : Config → Prop) (b : Books σ) (rs : List Request) : Prop :=
  Trace.Guarded (fun r b => b.step r)
    (fun r b => r.Fresh b.server ∧ ∀ cfg, r = .openChannel cfg → P cfg) rs b

/-- **A whole run** keeps the books. -/
lemma Kept.run (h : Kept P b) {rs : List Request} (hc : Careful P b rs) :
    Kept P (b.run rs) ∧ Keeps b.server (b.run rs).server := by
  refine hc.invariant (p := fun c => Kept P c ∧ Keeps b.server c.server) ?_ ⟨h, Keeps.refl _⟩
  rintro r c ⟨hkept, hkeeps⟩ ⟨hf, hP⟩
  obtain ⟨hkept', hkeeps'⟩ := hkept.step hP hf
  exact ⟨hkept', hkeeps.trans hkeeps'⟩

end Books

/-! ### Revenue -/

lemma toNat_finset_sum {ι : Type} [DecidableEq ι] (t : Finset ι) (f : ι → UInt64) :
    (∑ i ∈ t, f i).toNat = (∑ i ∈ t, (f i).toNat) % 2 ^ 64 := by
  induction t using Finset.induction_on with
  | empty => rfl
  | insert i t hi ih =>
    rw [Finset.sum_insert hi, Finset.sum_insert hi, UInt64.toNat_add, ih, Nat.add_mod_mod]

/-- What was prepaid, as a number. -/
def PaidServer.total {σ : Type} (s : PaidServer σ) : ℕ := s.channels.sum (·.cumPaid.toNat)

lemma PaidServer.revenue_toNat {σ : Type} (s : PaidServer σ) :
    s.revenue.toNat = s.total % 2 ^ 64 := by
  rw [revenue, total, GoMap.sum, GoMap.sum, toNat_finset_sum]
  congr 1
  refine Finset.sum_congr rfl fun id _ => ?_
  cases s.channels.get id <;> rfl

/-- Where a call may be made for the revenue: an accepted commitment leaves the total below
`2 ^ 64`. -/
def Request.Earns {σ : Type} (r : Request) (s : PaidServer σ) : Prop :=
  ∀ id ch com q, r.payment = some (id, some com, q) → s.channels.get id = some ch →
    ch.Accepts com q →
    s.total + com.cumAmount.toNat < 2 ^ 64 + ch.cumPaid.toNat

namespace Books

variable {σ : Type} [Store σ] {P : Config → Prop} {b : Books σ}

lemma Kept.total_step (h : Kept P b) (hp : ∀ cfg, P cfg → cfg.Priced) {r : Request}
    (hf : r.Fresh b.server) (he : r.Earns b.server) (ht : b.server.total < 2 ^ 64) :
    b.server.total ≤ (b.step r).server.total ∧ (b.step r).server.total < 2 ^ 64 := by
  change _ ≤ (b.server.serve r).total ∧ (b.server.serve r).total < _
  unfold PaidServer.total at ht ⊢
  rcases b.server.serve_cases r with
    ⟨cfg, ch, rfl, hopen, hok, hch, -⟩ | ⟨id, ch, com, q, hpay, hq, hget, hacc, hch, -⟩ | ⟨hch, -⟩
  · -- neither the new channel nor the one it replaces has been paid anything
    obtain ⟨-, hid⟩ := hf ⟨ch, hok⟩
    obtain ⟨params, rfl, -⟩ := Channel.openWith_ok hopen
    have hsum :=
      b.server.channels.sum_set cfg.params.channelID { cfg := { cfg with params := params } }
      (·.cumPaid.toNat)
    have hzero : ((b.server.channels.get cfg.params.channelID).map (·.cumPaid.toNat)).getD
        0 = 0 := by
      cases hget : b.server.channels.get cfg.params.channelID with
      | none => rfl
      | some ch' => exact (h.account _ ch' hget).cumPaid_eq_zero (hid ch' hget)
    rw [hzero] at hsum
    change _ = b.server.channels.sum (·.cumPaid.toNat) + 0 at hsum
    rw [hch]
    omega
  · obtain ⟨cfg, hPcfg, -, hpr⟩ := h.opened id ch hget
    have hcum := (h.account id ch hget).cum_ge hacc (hpr (hp cfg hPcfg))
    have hlt : b.server.channels.sum (·.cumPaid.toNat) + com.cumAmount.toNat <
      2 ^ 64 + ch.cumPaid.toNat :=
      he id ch com q hpay hget hacc
    have hsum := b.server.channels.sum_set id (ch.book com) (·.cumPaid.toNat)
    rw [hget, Option.map_some, Option.getD_some] at hsum
    change _ = _ + com.cumAmount.toNat at hsum
    rw [hch]
    omega
  · rw [hch]
    exact ⟨le_refl _, ht⟩

/-- A run of calls that leave the total below `2 ^ 64`. -/
abbrev Earning (b : Books σ) (rs : List Request) : Prop :=
  Trace.Guarded (fun r b => b.step r) (fun r b => r.Earns b.server) rs b

/-- **A whole run** and the total. -/
lemma Kept.total_run (h : Kept P b) (hp : ∀ cfg, P cfg → cfg.Priced) {rs : List Request}
    (hc : Careful P b rs) (he : b.Earning rs) (ht : b.server.total < 2 ^ 64) :
    b.server.total ≤ (b.run rs).server.total ∧ (b.run rs).server.total < 2 ^ 64 := by
  have hboth : Trace.Guarded (fun r b => b.step r)
      (fun r b => (r.Fresh b.server ∧ ∀ cfg, r = .openChannel cfg → P cfg) ∧ r.Earns b.server) rs
        b :=
    fun pre r post hrs => ⟨hc pre r post hrs, he pre r post hrs⟩
  refine (hboth.invariant
    (p := fun c => Kept P c ∧ b.server.total ≤ c.server.total ∧ c.server.total < 2 ^ 64) ?_
    ⟨h, le_refl _, ht⟩).2
  rintro r c ⟨hkept, hle, hlt⟩ ⟨⟨hf, hP⟩, hearns⟩
  obtain ⟨hle', hlt'⟩ := hkept.total_step hp hf hearns hlt
  exact ⟨(hkept.step hP hf).1, le_trans hle hle', hlt'⟩

omit [Store σ] in
/-- A server without channels. -/
def fresh (api : σ) (policy : Policy) : Books σ := ⟨{ api := api, policy := policy }, []⟩

omit [Store σ] in
lemma kept_fresh (api : σ) (policy : Policy) : Kept P (fresh api policy) := by
  constructor
  · intro _ _ _ _ h
    cases h
  · intro _ h
    cases h
  · intro _ _ h
    cases h
  · intro _ _ h
    cases h

omit [Store σ] in
lemma Kept.charges_le (h : Kept P b) {o : OutPoint}
    (hp : ∀ cfg, P cfg → cfg.params.outpoint = o → cfg.Priced) :
    charges (b.served o) ≤ largest (b.served o) := by
  by_cases hnil : b.served o = []
  · rw [hnil]
    exact le_refl 0
  obtain ⟨a, ha⟩ := List.exists_mem_of_ne_nil _ hnil
  obtain ⟨hlog, hao⟩ := List.mem_filter.mp ha
  obtain ⟨id, ch, hget, hch⟩ := h.home a hlog
  obtain rfl : ch.outpoint = o := hch.trans (of_decide_eq_true hao)
  obtain ⟨cfg, hPcfg, hout, hpr⟩ := h.opened id ch hget
  have hacc := h.account id ch hget
  calc charges (b.served ch.outpoint)
      ≤ ch.cumPaid.toNat := hacc.covers (hpr (hp cfg hPcfg hout))
    _ ≤ largest (b.served ch.outpoint) := hacc.largest

end Books

variable {σ : Type} [Store σ]

/-- **An output buys what was signed for.** In a run of the server in which no accepted
`OpenChannel` replaces a channel that has served an access or funds a second channel from the output
of a registered one: the accesses served against an output cost at most the largest amount accepted
for it, and channels with accesses are kept. The revenue never falls as long as all channels are
priced and the total fits 64 bits. -/
theorem output_buys_signed (api : σ) (policy : Policy) {rs : List Request}
    (hf : ∀ pre r post, rs = pre ++ r :: post → r.Fresh ((Books.fresh api policy).run pre).server) :
    (∀ o, (∀ cfg, .openChannel cfg ∈ rs → cfg.params.outpoint = o → cfg.Priced) →
      charges (((Books.fresh api policy).run rs).served o) ≤
        largest (((Books.fresh api policy).run rs).served o)) ∧
    (∀ pre post, rs = pre ++ post →
      Books.Keeps ((Books.fresh api policy).run pre).server
        ((Books.fresh api policy).run rs).server) ∧
    ((∀ cfg, .openChannel cfg ∈ rs → cfg.Priced) →
      (∀ pre r post, rs = pre ++ r :: post → r.Earns ((Books.fresh api policy).run pre).server) →
      ∀ pre post, rs = pre ++ post →
        ((Books.fresh api policy).run pre).server.revenue ≤
          ((Books.fresh api policy).run rs).server.revenue) := by
  have hnew := @Books.kept_fresh σ (.openChannel · ∈ rs) api policy
  have hc : Books.Careful (.openChannel · ∈ rs) (Books.fresh api policy) rs := fun pre r post hrs =>
    ⟨hf pre r post hrs, fun cfg hr => by rw [hrs, hr]; simp⟩
  refine ⟨fun o ho => ?_, fun pre post hp => ?_, fun hpriced hearns pre post hp => ?_⟩
  · exact (hnew.run hc).1.charges_le ho
  · -- from the state after `pre` to the end
    subst hp
    obtain ⟨hpre, hpost⟩ := Trace.guarded_append_iff.mp hc
    rw [Books.run_append]
    exact ((hnew.run hpre).1.run hpost).2
  · subst hp
    have hzero : (Books.fresh api policy).server.total < 2 ^ 64 := Nat.two_pow_pos 64
    obtain ⟨hpre, hpost⟩ := Trace.guarded_append_iff.mp hc
    have he : (Books.fresh api policy).Earning (pre ++ post) := hearns
    obtain ⟨hepre, hepost⟩ := Trace.guarded_append_iff.mp he
    obtain ⟨-, hlt⟩ := hnew.total_run hpriced hpre hepre hzero
    obtain ⟨hle, hlt'⟩ := (hnew.run hpre).1.total_run hpriced hpost hepost hlt
    rw [Books.run_append, UInt64.le_iff_toNat_le, PaidServer.revenue_toNat,
      PaidServer.revenue_toNat, Nat.mod_eq_of_lt hlt, Nat.mod_eq_of_lt hlt']
    exact hle

/-- The sample channel is opened and its first access paid. -/
def samplePurchase (pricing : Pricing) (txid : Hash) : List Request :=
  [.openChannel (sampleConfig pricing), .seen sampleParams.channelID (some sampleCommitment) txid]

omit [Store σ] in
lemma openChannel_sample (pricing : Pricing) {s : PaidServer σ} (hs : s.policy = {}) :
    s.openChannel (sampleConfig pricing) =
      (.ok (sampleChannel pricing),
        { s with channels := s.channels.set sampleParams.channelID (sampleChannel pricing) }) := by
  simp [PaidServer.openChannel, hs, sample_open pricing]
  rfl

lemma samplePurchase_run {pricing : Pricing} (h : (sampleChannel pricing).quote .seen ≤ 1000)
    (txid : Hash) {b : Books σ} (hpolicy : b.server.policy = {})
    (hbanned : b.server.banned = .empty) :
    ∃ api, b.run (samplePurchase pricing txid) =
      ⟨{ b.server with
          api := api
          channels := (b.server.channels.set sampleParams.channelID (sampleChannel pricing)).set
            sampleParams.channelID ((sampleChannel pricing).book sampleCommitment) },
        b.log ++ [(sampleChannel pricing).access sampleCommitment .seen]⟩ := by
  have hacc := sample_accepts h
  have h1 : b.step (.openChannel (sampleConfig pricing)) =
      ⟨{ b.server with
          channels := b.server.channels.set sampleParams.channelID (sampleChannel pricing) },
          b.log⟩ := by
    rw [Books.step, PaidServer.serve, openChannel_sample pricing hpolicy]
    exact congrArg (Books.mk _) (List.append_nil b.log)
  have hl : PaidServer.lookup
      { b.server with
        channels := b.server.channels.set sampleParams.channelID (sampleChannel pricing) }
      sampleParams.channelID = .ok (sampleChannel pricing) :=
    PaidServer.lookup_of_get (by rw [hbanned]; rfl) (GoMap.get_set_self _ _ _)
  obtain ⟨api, hapi⟩ := PaidServer.query_of_accepts hl hacc (Api.seen txid)
  refine ⟨api, ?_⟩
  change (b.step _).step _ = _
  rw [h1, Books.step, PaidServer.serve, PaidServer.seen, hapi]
  congr 2
  simp [PaidServer.access, Request.payment, hl, PaidServer.authorize_of_accepts hl hacc]

/-- 1000 for an access. -/
def thousandPricing : Pricing := { flat := true, flatPrice := 1000 }

lemma thousandPricing_priced : (sampleConfig thousandPricing).Priced := by
  refine ⟨fun q _ => (by decide : (1000 : UInt64) ≠ 0), fun q => ?_, fun q => ?_⟩ <;>
    cases q <;> decide

/-- One purchase on a new server. -/
theorem output_buys_signed_once :
    ∃ b : Books Mem.Store,
      b = (Books.fresh Mem.new {}).run (samplePurchase thousandPricing default) ∧ b.log ≠ [] ∧
      charges (b.served sampleParams.outpoint) ≤ largest (b.served sampleParams.outpoint) := by
  have hf : ∀ pre r post, samplePurchase thousandPricing default = pre ++ r :: post →
      r.Fresh ((Books.fresh Mem.new {}).run pre).server := by
    intro pre r post hp
    rcases pre with _ | ⟨p, pre⟩
    · cases hp
      rintro -
      have hempty : ∀ id, ((Books.fresh Mem.new {}).run []).server.channels.get id = none :=
        fun _ => rfl
      refine ⟨fun id ch h => ?_, fun ch h => ?_⟩ <;> rw [hempty] at h <;> cases h
    · rcases pre with _ | ⟨p', pre⟩
      · cases hp
        exact trivial
      · simp [samplePurchase] at hp
  have hcharges := (output_buys_signed Mem.new {} hf).1 sampleParams.outpoint fun cfg hcfg _ => by
    rcases List.mem_cons.mp hcfg with h | h
    · cases h
      exact thousandPricing_priced
    · simp at h
  obtain ⟨api, hrun⟩ :=
    @samplePurchase_run Mem.Store _ thousandPricing (by decide) default
    (Books.fresh Mem.new {}) rfl rfl
  refine ⟨_, rfl, ?_, hcharges⟩
  rw [hrun]
  exact List.append_ne_nil_of_right_ne_nil _ (List.cons_ne_nil _ _)

/-- **A replay.** The channel is opened again after its first access, and the commitment of 1000
that paid for it pays for a second access: 2000 were charged. -/
theorem output_buys_signed_replayed :
    (sampleConfig thousandPricing).Priced ∧ ∃ b : Books Mem.Store,
      b = (Books.fresh Mem.new {}).run
        (samplePurchase thousandPricing default ++ samplePurchase thousandPricing default) ∧
        charges (b.served sampleParams.outpoint) = 2000 ∧
          largest (b.served sampleParams.outpoint) = 1000 := by
  refine ⟨thousandPricing_priced, _, rfl, ?_⟩
  obtain ⟨api, h1⟩ :=
    @samplePurchase_run Mem.Store _ thousandPricing (by decide) default
    (Books.fresh Mem.new {}) rfl rfl
  obtain ⟨api', h2⟩ := @samplePurchase_run Mem.Store _ thousandPricing (by decide) default
    ((Books.fresh Mem.new {}).run (samplePurchase thousandPricing default)) (by rw [h1]; rfl)
      (by rw [h1]; rfl)
  rw [Books.run_append, h2, h1]
  constructor
  · rfl
  · rfl

end MemServe.Payment
