import MemServe.HttpRuns
import MemServe.SettlementTx

/-!
What the HTTP service has earned can be collected on chain.

A channel that a request opens is of the output that its id was derived from, pays to the key of the
server, and is funded with the deposit. So a channel that holds a payment has a settlement, and no
two channels settle the same output. Whether the output exists is not asked: the client says what it
holds.
-/

namespace MemServe.Http

open Crypto Payment Bsvtx
open MemServe.Server
  (parseHash hexHash encodeToString parseBytes_encodeToString decodeHex_encodeToString)

/-- What holds of a channel in the registry, under its id, of a server with these keys. -/
structure Lodged (key : KeyPair) (id : Hash) (ch : Channel) : Prop where
  id : id = deriveChannelID ch.cfg.params.fundingTxID ch.cfg.params.fundingVout
  funding : ch.cfg.params.fundingValue = ch.cfg.deposit
  server : ch.cfg.params.serverPub = key.pub.serializeCompressed
  client : ∃ pub, ch.cfg.clientPub = some pub ∧ ch.cfg.params.clientPub = pub.serializeCompressed
  within : ch.cumPaid ≤ ch.cfg.deposit
  unpaid : ch.best = none → ch.cumPaid = 0
  signed : ∀ com, ch.best = some com → com.cumAmount = ch.cumPaid ∧ ch.Signed com

/-- The terms that every request to open a channel is given. -/
structure Posted (server : PublicKey) (cfg : Config) : Prop where
  id : cfg.params.channelID = deriveChannelID cfg.params.fundingTxID cfg.params.fundingVout
  funding : cfg.params.fundingValue = cfg.deposit
  server : cfg.params.serverPub = server.serializeCompressed
  client : ∃ pub, cfg.clientPub = some pub ∧ cfg.params.clientPub = pub.serializeCompressed

lemma OpenReq.config_posted {server : PublicKey} {req : OpenReq} {cfg : Config}
    (h : req.config server = .ok cfg) :
    Posted server cfg := by
  unfold OpenReq.config at h
  split at h
  · cases h
  split at h
  · cases h
  split at h
  · cases h
  cases h
  exact ⟨rfl, rfl, rfl, _, rfl, rfl⟩

lemma PaidReq.call_ne_openChannel {req : PaidReq} {cfg : Config} :
    req.call ≠ some (.openChannel cfg) := by
  intro h
  unfold PaidReq.call at h
  split at h
  · cases h
  · split at h <;> cases h

lemma Request.call_posted {server : PublicKey} {r : Request} {cfg : Config}
    (h : r.call server = some (.openChannel cfg)) :
    Posted server cfg := by
  unfold Request.call at h
  split at h
  · rename_i req
    cases hcfg : req.config server with
    | error text => rw [hcfg] at h; cases h
    | ok cfg' =>
      rw [hcfg] at h
      cases h
      exact OpenReq.config_posted hcfg
  · exact absurd h PaidReq.call_ne_openChannel
  · cases h

lemma Lodged.of_open {key : KeyPair} {cfg : Config} {ch : Channel} (hcfg : Posted key.pub cfg)
    (hopen : Channel.openWith cfg = .ok ch) : Lodged key cfg.params.channelID ch := by
  obtain ⟨pub, hpub, hser⟩ := hcfg.client
  have hne : cfg.params.clientPub.length ≠ 0 := by
    rw [hser]
    simp [PublicKey.serializeCompressed]
  obtain ⟨hcp, hsp, htx, hvout⟩ := Channel.openWith_params hopen hne
  obtain ⟨params, rfl, hfund, -⟩ := Channel.openWith_ok hopen
  refine ⟨?_, ?_, hsp.trans hcfg.server, ⟨pub, hpub, hcp.trans hser⟩, ?_,
    fun _ => rfl, fun _ h => absurd h (by simp)⟩
  · rw [htx, hvout]
    exact hcfg.id
  · change params.fundingValue = cfg.deposit
    rw [hfund, hcfg.funding, ite_id]
  · exact UInt64.le_iff_toNat_le.mpr (Nat.zero_le _)

lemma Lodged.book {key : KeyPair} {id : Hash} {ch : Channel} (h : Lodged key id ch)
    {com : Payment.Commitment} {q : QueryType}
    (hacc : ch.Accepts com q) : Lodged key id (ch.book com) := by
  refine ⟨h.id, h.funding, h.server, h.client, hacc.within,
    fun hnone => absurd hnone (Option.some_ne_none com), ?_⟩
  intro com' hcom
  cases hcom
  exact ⟨rfl, hacc.isSigned⟩

variable {σ : Type} [StoreWithStats σ]

/-- Every channel of the registry is lodged. -/
def AllLodged (key : KeyPair) (p : PaidServer σ) : Prop :=
  ∀ id ch, p.channels.get id = some ch → Lodged key id ch

lemma AllLodged.serve {key : KeyPair} {p : PaidServer σ} (h : AllLodged key p) {c : Payment.Request}
    (hc : ∀ cfg, c = .openChannel cfg → Posted key.pub cfg) : AllLodged key (p.serve c) := by
  intro id ch hget
  rcases p.serve_cases c with
    ⟨cfg, ch', rfl, hopen, -, hset, -⟩ | ⟨id', ch', com, q, -, -, hget', hacc, hset, -⟩ | ⟨hsame, -⟩
  · rw [hset] at hget
    rcases GoMap.get_set_eq_some hget with ⟨rfl, rfl⟩ | ⟨-, hold⟩
    · exact .of_open (hc cfg rfl) hopen
    · exact h id ch hold
  · rw [hset] at hget
    rcases GoMap.get_set_eq_some hget with ⟨rfl, rfl⟩ | ⟨-, hold⟩
    · exact (h _ ch' hget').book hacc
    · exact h id ch hold
  · rw [hsame] at hget
    exact h id ch hget

/-- **The calls of a run.** -/
lemma AllLodged.run {key : KeyPair} {b : Books σ} (h : AllLodged key b.server)
    {cs : List Payment.Request} (hcs : ∀ c ∈ cs, ∀ cfg, c = .openChannel cfg → Posted key.pub cfg) :
    AllLodged key (b.run cs).server := by
  induction cs generalizing b with
  | nil => exact h
  | cons c cs ih =>
    have hstep : AllLodged key (b.step c).server := h.serve (hcs c List.mem_cons_self)
    exact ih hstep fun x hx => hcs x (List.mem_cons_of_mem c hx)

/-- **The requests of a run**, whatever the loop writes in between. A request that panics behind the
gate has booked its access. -/
lemma AllLodged.after (fused : Bool) {s : Server σ} (hpay : s.paymentRequired = true)
    (h : AllLodged s.payKey s.paid) (es : List (Event σ)) :
    AllLodged s.payKey (s.after fused es).paid := by
  let Inv : List (Event σ) → List (Option Turn) → Server σ → Prop := fun _ _ s' =>
    AllLodged s.payKey s'.paid ∧ s'.paymentRequired = true ∧ s'.payKey = s.payKey
  have hstep : ∀ e is ts s', Inv is ts s' →
      Inv (is ++ [e]) (ts ++ [(Server.step fused e s').1]) (Server.step fused e s').2 := by
    rintro e is ts s' ⟨hlodged, hpay', hkey⟩
    cases e with
    | chain store tip => exact ⟨hlodged, hpay', hkey⟩
    | request a =>
      obtain ⟨hpaid, hrequired, hkey'⟩ := Server.wrap_registry hpay' fused a
      refine ⟨?_, hrequired.trans hpay', hkey'.trans hkey⟩
      change AllLodged s.payKey (s'.wrap fused a).2.paid
      rw [hpaid]
      cases hc : s'.callOf fused a with
      | none => exact hlodged
      | some c =>
        rw [Server.callOf] at hc
        split_ifs at hc
        rw [hkey] at hc
        exact hlodged.serve fun cfg hcfg => Request.call_posted (hcfg ▸ hc)
  have hinit : Inv [] [] s := ⟨h, hpay, rfl⟩
  exact (@collect_invariant _ _ _ _ Inv hstep es [] [] s hinit).1

end MemServe.Http
