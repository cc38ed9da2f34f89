import Mathlib.Data.List.ReduceOption
import MemServe.Http
import MemServe.Collect
import MemServe.Pool

/-!
What a run of the HTTP service books, answers and counts.

With payment required, nothing is answered unless the payment gate has booked an access for it. The
registry of channels goes through the calls of the requests that decode, as a server without HTTP
would.
-/

namespace MemServe

namespace Proof

open Trace

lemma exists_assemble {txid root : Hash} {ix : TxIndex} {blk : BlockRec} {leaves : List Hash}
    (hleaf : ix.leafIndex.toNat < leaves.length)
    (hsub : blk.subtreeRoots[ix.subtreeIndex.toNat]? = some root) :
    ∃ p, assemble txid ix blk root leaves = .ok p := by
  have hpath : ∀ {l : List Hash} {i : ℕ}, i < l.length →
      ∃ r p, Commitment.buildMerkleTree l = .ok (r, MerkleTree.layers Commitment.hashPair l) ∧
        Commitment.merklePath (MerkleTree.layers Commitment.hashPair l) i = .ok p := by
    intro l i hi
    obtain ⟨r, hr⟩ : ∃ r, Commitment.merkleRoot l = .ok r := by
      unfold Commitment.merkleRoot Commitment.buildMerkleTree
      rw [if_neg (by omega)]
      exact ⟨_, rfl⟩
    obtain ⟨p, hp, -⟩ := Commitment.merklePath_complete (List.getElem?_eq_getElem hi) hr
    exact ⟨r, p, Commitment.buildMerkleTree_layers hr, hp⟩
  obtain ⟨r1, l1, hb1, hl1⟩ := hpath hleaf
  obtain ⟨r2, l2, hb2, hl2⟩ := hpath (List.getElem?_eq_some_iff.mp hsub).1
  refine ⟨⟨txid, l1, root, l2, blk.merkleRoot, blk.hash, ix.height, blk.header⟩, ?_⟩
  simp only [assemble, hb1, hl1, hb2, hl2, bind, Except.bind]
  rfl

lemma error_of_call {σ α β : Type} {m : StoreM σ α} {f : α → BuildM σ β} {P : Error → Prop}
    (hstore : ∀ e, P (.store e)) (hf : ∀ a st e, ((f a).run.run st).1 = .error e → P e) (st : σ)
    (e : Error) (h : ((call m >>= f).run.run st).1 = .error e) :
    P e := by
  cases hm : m st with
  | mk r st' =>
    cases r with
    | error e' =>
      rw [run_bind_error
        (show (call m).run.run st =
          (.error (.store e'), st') by change call m st = _; simp only [call, hm])] at h
      cases h
      exact hstore e'
    | ok a =>
      rw [run_bind_ok
        (show (call m).run.run st = (.ok a, st') by change call m st = _; simp only [call, hm])]
        at h
      exact hf a st' e h

/-- **`Build` does not panic**, whatever the store holds. -/
lemma message_of_build {σ : Type} [Store σ] (txid : Hash) :
    ∀ (st : σ) (e : Error), ((build txid).run.run st).1 = .error e → e.message.isSome := by
  refine error_of_call (fun _ => rfl) fun x st e h => ?_
  cases x with
  | none => cases h; rfl
  | some ix =>
    dsimp only at h
    split_ifs at h
    · cases h; rfl
    refine error_of_call (P := fun e => e.message.isSome) (fun _ => rfl) (fun y st e h => ?_) st e h
    cases y with
    | none => cases h; rfl
    | some blk =>
      dsimp only at h
      cases hsub : blk.subtreeRoots[ix.subtreeIndex.toNat]? with
      | none => rw [hsub] at h; cases h; rfl
      | some root =>
        rw [hsub] at h
        refine error_of_call (P := fun e => e.message.isSome) (fun _ => rfl)
          (fun z st e h => ?_) st e h
        cases z with
        | none => cases h; rfl
        | some leaves =>
          dsimp only at h
          split_ifs at h with hlen
          · cases h; rfl
          obtain ⟨p, hp⟩ : ∃ p, assemble txid ix blk root leaves = .ok p :=
            exists_assemble (Nat.not_le.mp hlen) hsub
          rw [hp] at h
          cases h

end Proof

namespace Http

open Crypto Payment Attest
open Httpsource (decodeHex)
open MemServe.Server
  (parseHash hexHash encodeToString parseBytes_encodeToString decodeHex_encodeToString
  Query ofSeen ofMined ofUTXO)

/-- The query that a request asks for, once it is decoded. -/
def PaidReq.call (req : PaidReq) : Option Payment.Request :=
  match req.decode with
  | .error _ => none
  | .ok (ch, c, txid) =>
    match queryTypeOf req.type.toNat with
    | some .seen => some (.seen ch c txid)
    | some .mined => some (.mined ch c txid)
    | some .merklePath => some (.merklePath ch c txid)
    | some .utxo => some (.utxo ch c ⟨txid, req.vout⟩)
    | _ => none

/-- The call on the payment gate that a request makes. -/
def Request.call (server : PublicKey) (r : Request) : Option Payment.Request :=
  match r with
  | .channelOpen true (some req) => (req.config server).toOption.map .openChannel
  | .paidQuery true (some req) => req.call
  | _ => none

namespace Server

variable {σ : Type}

/-- The operator can sign. -/
def Attests (s : Server σ) : Prop :=
  ∀ id, s.identity = some id → ∀ st, (encodeAttestation (id.attest st)).isSome

/-- The server with another state of the payment gate. -/
def pay (s : Server σ) (paid : PaidServer σ) : Server σ := { s with paid := paid }

end Server

variable {σ : Type} [StoreWithStats σ]

/-- What a request leaves, with payment required: the response and the server. -/
inductive Outcome (s : Server σ) (r : Request) : Handled σ → Prop
  /-- Nothing is asked of the gate but a quote. -/
  | plain {resp : Response} (call : r.call s.payKey.pub = none)
      (unanswered : resp.answers = false) : Outcome s r (some resp, s)
  | opened {cfg : Config} {resp : Response} (call : r.call s.payKey.pub = some (.openChannel cfg))
      (unanswered : resp.answers = false) (status : resp.status = 200) :
      Outcome s r (some resp, s.pay (s.paid.serve (.openChannel cfg)))
  | denied {cfg : Config} {text : String} (call : r.call s.payKey.pub = some (.openChannel cfg)) :
      Outcome s r ((s.pay (s.paid.serve (.openChannel cfg))).reject.refuse text 400)
  | unpaid {c : Payment.Request} {e : PaidError} (call : r.call s.payKey.pub = some c)
      (access : s.paid.access c = none) :
      Outcome s r ((s.pay (s.paid.serve c)).reject.refuse e.message 402)
  /-- The access is charged, and the API fails. -/
  | failed {c : Payment.Request} {text : String} (call : r.call s.payKey.pub = some c)
      (access : (s.paid.access c).isSome) :
      Outcome s r ((s.pay (s.paid.serve c)).reject.refuse text 402)
  | answered {c : Payment.Request} {resp : Response} (call : r.call s.payKey.pub = some c)
      (access : (s.paid.access c).isSome) (answers : resp.answers = true)
      (status : resp.status = 200) : Outcome s r (some resp, (s.pay (s.paid.serve c)).serve)
  /-- The access is charged, and the answer cannot be signed. -/
  | panicked {c : Payment.Request} (call : r.call s.payKey.pub = some c) (unsigned : ¬s.Attests) :
      Outcome s r (none, (s.pay (s.paid.serve c)).serve)

section Cases

variable {s : Server σ}

omit [StoreWithStats σ] in
lemma attestation_isSome (h : s.Attests) (t : Server σ) (ht : t.identity = s.identity)
    (st : Statement) :
    ∃ att, t.attestation st = some att := by
  unfold Server.attestation
  rw [ht]
  cases hs : s.identity with
  | none => exact ⟨_, rfl⟩
  | some id =>
    obtain ⟨att, hatt⟩ := Option.isSome_iff_exists.mp (h id hs st)
    exact ⟨some att, by simp only [hatt, Option.map_some]⟩

omit [StoreWithStats σ] in
lemma attested {t : Server σ} (ht : t.identity = s.identity) {st : Statement}
    {make : Option AttestationJSON → Response}
    (hmake : ∀ att, (make att).answers = true ∧ (make att).status = 200) :
    (∃ x, (do let att ← t.attestation st; return make att) = some x ∧ x.answers = true ∧
      x.status = 200) ∨
      (do let att ← t.attestation st; return make att) = none ∧ ¬s.Attests := by
  cases hatt : t.attestation st with
  | some att => exact .inl ⟨make att, rfl, hmake att⟩
  | none =>
    refine .inr ⟨rfl, fun h => ?_⟩
    obtain ⟨att, hsome⟩ := attestation_isSome h t ht st
    rw [hatt] at hsome
    cases hsome

omit [StoreWithStats σ] in
/-- A query is charged if and only if its payment is authorized. -/
lemma access_cases {c : Payment.Request} {id : Hash} {com : Option Payment.Commitment}
    {q : QueryType} (hc : c.payment = some (id, com, q)) (p : PaidServer σ) :
    (∃ p', p.authorize id com q = (.ok (), p') ∧ (p.access c).isSome) ∨
      ∃ e p', p.authorize id com q = (.error e, p') ∧ p.access c = none := by
  rcases p.authorize_cases id com q with ⟨ch, x, hl, rfl, -, hok⟩ | ⟨e, p', herr, -⟩
  · exact .inl ⟨_, hok, by simp [PaidServer.access, hc, hl, hok]⟩
  · refine .inr ⟨e, p', herr, ?_⟩
    cases com with
    | none => simp [PaidServer.access, hc]
    | some x => cases hl : p.lookup id <;> simp [PaidServer.access, hc, hl, herr]

omit [StoreWithStats σ] in
lemma answerPaid_query {ε α : Type} {message : ε → Option String}
    {resp : Server σ → α → Option Response} {q : QueryType} {answer : ExceptT ε (StateM σ) α}
    {id : Hash} {com : Option Payment.Commitment} :
    (∀ e p', s.paid.authorize id com q = (.error e, p') →
      answerPaid message resp (s.paid.query q answer id com) s =
        (s.pay (s.paid.query q answer id com).2).reject.refuse e.message 402) ∧
    ∀ p', s.paid.authorize id com q = (.ok (), p') →
      (∀ a, (answer.run.run p'.api).1 = .ok a →
        answerPaid message resp (s.paid.query q answer id com) s =
          (resp (s.pay (s.paid.query q answer id com).2).serve a,
            (s.pay (s.paid.query q answer id com).2).serve)) ∧
      ∀ e text, (answer.run.run p'.api).1 = .error e → message e = some text →
        answerPaid message resp (s.paid.query q answer id com) s =
          (s.pay (s.paid.query q answer id com).2).reject.refuse text 402 := by
  refine ⟨fun e p' h => ?_, fun p' h => ?_⟩
  · simp only [PaidServer.query, h, answerPaid]
    rfl
  · cases hr : answer.run.run p'.api with
    | mk r api =>
      refine ⟨fun a ha => ?_, fun e text he htext => ?_⟩
      · simp only at ha
        subst ha
        simp only [PaidServer.query, h, hr, answerPaid]
        rfl
      · simp only at he
        subst he
        simp only [PaidServer.query, h, hr, answerPaid, htext]
        rfl

variable {r : Request}

lemma answerPaid_outcome {ε α : Type} {message : ε → Option String}
    {resp : Server σ → α → Option Response} {q : QueryType} {answer : ExceptT ε (StateM σ) α}
    {id : Hash} {com : Option Payment.Commitment} {c : Payment.Request}
    (hcall : r.call s.payKey.pub = some c) (hc : c.payment = some (id, com, q))
    (hserve : s.paid.serve c = (s.paid.query q answer id com).2)
    (hmsg : ∀ st e, (answer.run.run st).1 = .error e → (message e).isSome)
    (hresp : ∀ (t : Server σ) (a : α), t.identity = s.identity →
      (∃ x, resp t a = some x ∧ x.answers = true ∧ x.status = 200) ∨ resp t a = none ∧ ¬s.Attests) :
    Outcome s r (answerPaid message resp (s.paid.query q answer id com) s) := by
  obtain ⟨hunpaid, hpaid⟩ := @answerPaid_query σ s ε α message resp q answer id com
  rcases access_cases hc s.paid with ⟨p', hok, hacc⟩ | ⟨e, p', herr, hacc⟩
  · cases hr : (answer.run.run p'.api).1 with
    | ok a =>
      rw [(hpaid p' hok).1 a hr, ← hserve]
      rcases hresp (s.pay (s.paid.serve c)).serve a rfl with ⟨x, hx, hans, hstatus⟩ | ⟨hx, hatt⟩
      · rw [hx]
        exact .answered hcall hacc hans hstatus
      · rw [hx]
        exact .panicked hcall hatt
    | error e =>
      obtain ⟨text, htext⟩ := Option.isSome_iff_exists.mp (hmsg _ _ hr)
      rw [(hpaid p' hok).2 e text hr htext, ← hserve]
      exact .failed hcall hacc
  · rw [hunpaid e p' herr, ← hserve]
    exact .unpaid hcall hacc

lemma handlePaidQuery_outcome (post : Bool) (body : Option PaidReq) :
    Outcome s (.paidQuery post body) (handlePaidQuery post body s) := by
  unfold handlePaidQuery
  cases post with
  | false => exact .plain rfl rfl
  | true =>
    cases body with
    | none => exact .plain rfl rfl
    | some req =>
      rw [if_neg (by decide)]
      dsimp only
      cases hdec : req.decode with
      | error text => exact .plain (by simp only [Request.call, PaidReq.call, hdec]) rfl
      | ok x =>
        obtain ⟨ch, com, txid⟩ := x
        dsimp only
        cases hq : queryTypeOf req.type.toNat with
        | none => exact .plain (by simp only [Request.call, PaidReq.call, hdec, hq]) rfl
        | some q =>
          have hstore : ∀ {α : Type} {answer : StoreM σ α} (st : σ) (e : StoreError),
              (answer.run.run st).1 = .error e → (some e.msg).isSome = true := fun _ _ _ => rfl
          cases q with
          | seen =>
            have hcall : Request.call s.payKey.pub (.paidQuery true (some req)) =
                some (.seen ch com txid) := by
              simp only [Request.call, PaidReq.call, hdec, hq]
            dsimp only
            refine answerPaid_outcome hcall rfl rfl hstore fun t a ht => ?_
            exact attested ht fun _ => ⟨rfl, rfl⟩
          | mined =>
            have hcall : Request.call s.payKey.pub (.paidQuery true (some req)) =
                some (.mined ch com txid) := by
              simp only [Request.call, PaidReq.call, hdec, hq]
            dsimp only
            refine answerPaid_outcome hcall rfl rfl hstore fun t a ht => ?_
            exact attested ht fun _ => ⟨rfl, rfl⟩
          | merklePath =>
            have hcall : Request.call s.payKey.pub (.paidQuery true (some req)) =
                some (.merklePath ch com txid) := by
              simp only [Request.call, PaidReq.call, hdec, hq]
            dsimp only
            exact answerPaid_outcome hcall rfl rfl (Proof.message_of_build txid)
              fun t a _ => .inl ⟨_, rfl, rfl, rfl⟩
          | utxo =>
            have hcall : Request.call s.payKey.pub (.paidQuery true (some req)) =
                some (.utxo ch com ⟨txid, req.vout⟩) := by
              simp only [Request.call, PaidReq.call, hdec, hq]
            dsimp only
            refine answerPaid_outcome hcall rfl rfl hstore fun t a ht => ?_
            exact attested ht fun _ => ⟨rfl, rfl⟩
          | other => exact .plain (by simp only [Request.call, PaidReq.call, hdec, hq]) rfl

lemma handleChannelOpen_outcome (post : Bool) (body : Option OpenReq) :
    Outcome s (.channelOpen post body) (handleChannelOpen post body s) := by
  unfold handleChannelOpen
  cases post with
  | false => exact .plain rfl rfl
  | true =>
    cases body with
    | none => exact .plain rfl rfl
    | some req =>
      dsimp only [Bool.not_true, Bool.false_eq_true, if_false]
      cases hcfg : req.config s.payKey.pub with
      | error text => exact .plain (by simp only [Request.call, hcfg]; rfl) rfl
      | ok cfg =>
        have hcall : Request.call s.payKey.pub (.channelOpen true (some req)) =
            some (.openChannel cfg) := by
          simp only [Request.call, hcfg]
          rfl
        dsimp only
        cases hopen : s.paid.openChannel cfg with
        | mk res paid =>
          have hserve : s.paid.serve (.openChannel cfg) = paid := congrArg Prod.snd hopen
          subst hserve
          cases res with
          | error e => exact .denied hcall
          | ok ch => exact .opened hcall rfl rfl

lemma handleQuote_outcome (channel : Bytes) (type : Option ℤ) :
    Outcome s (.quote channel type) (handleQuote channel type s) := by
  have hplain : ∀ {resp : Response}, resp.answers = false →
    Outcome s (.quote channel type) (some resp, s) := fun h => .plain rfl h
  unfold handleQuote
  split
  · exact hplain rfl
  · split
    · exact hplain rfl
    · split <;> exact hplain rfl

lemma handleAdminStats_outcome (authorization : String) :
    Outcome s (.adminStats authorization) (handleAdminStats authorization s) := by
  unfold handleAdminStats
  split <;> exact .plain rfl rfl

lemma handle_outcome (hpay : s.paymentRequired = true) (r : Request) :
    Outcome s r (handle r s) := by
  have hfree : ∀ {r : Request}, handle r s = s.refuse paymentRequiredText 402 →
      r.call s.payKey.pub = none →
      Outcome s r (handle r s) := by
    intro r h hcall
    rw [h]
    exact .plain hcall rfl
  cases r with
  | channelOpen post body => exact handleChannelOpen_outcome post body
  | quote channel type => exact handleQuote_outcome channel type
  | paidQuery post body => exact handlePaidQuery_outcome post body
  | adminStats authorization => exact handleAdminStats_outcome authorization
  | seen txid => exact hfree (if_pos hpay) rfl
  | mined txid => exact hfree (if_pos hpay) rfl
  | merklePath txid => exact hfree (if_pos hpay) rfl
  | utxo txid vout => exact hfree (if_pos hpay) rfl

end Cases

/-! ### Runs -/

/-- A request arrives, or the loop has written the store and the tip, and is ready. -/
inductive Event (σ : Type)
  | request (a : Arrival)
  | chain (store : σ) (tip : UInt32)

/-- A request that was served: the call that it made on the gate and the access that it was charged
for, if it came that far. -/
structure Turn where
  arrival : Arrival
  call : Option Payment.Request
  access : Option Payment.Access
  response : Response

/-- The request asked something of the gate, and was refused. -/
def Turn.rejected (t : Turn) : Bool := t.call.isSome && t.response.status != 200

namespace Server

/-- The call of a request that the limiter lets through. -/
def callOf (fused : Bool) (s : Server σ) (a : Arrival) : Option Payment.Request :=
  if (s.limit fused a).1 then a.request.call s.payKey.pub else none

def turn (fused : Bool) (s : Server σ) (a : Arrival) : Turn where
  arrival := a
  call := s.callOf fused a
  access := (s.callOf fused a).bind s.paid.access
  response := (s.wrap fused a).1

def step (fused : Bool) (e : Event σ) (s : Server σ) : Option Turn × Server σ :=
  match e with
  | .request a => (some (s.turn fused a), (s.wrap fused a).2)
  | .chain store tip =>
    (none, { s with paid := { s.paid with api := store }, tip := tip, ready := true })

/-- The requests of a run, in the order in which they were served. -/
def turns (fused : Bool) (es : List (Event σ)) (s : Server σ) : List Turn :=
  (collect (step fused) es s).1.reduceOption

def after (fused : Bool) (es : List (Event σ)) (s : Server σ) : Server σ :=
  (collect (step fused) es s).2

end Server

section Api

variable (p : PaidServer σ) (x : σ)

omit [StoreWithStats σ] in
lemma recordBad_api (id : Hash) :
    { p with api := x }.recordBad id = { p.recordBad id with api := x } := by
  unfold PaidServer.recordBad
  dsimp only
  split_ifs <;> rfl

omit [StoreWithStats σ] in
lemma authorize_api (id : Hash) (c : Option Payment.Commitment) (q : QueryType) :
    { p with api := x }.authorize id c q =
      ((p.authorize id c q).1, { (p.authorize id c q).2 with api := x }) := by
  unfold PaidServer.authorize
  have hlookup : PaidServer.lookup { p with api := x } id = p.lookup id := rfl
  rw [hlookup]
  cases p.lookup id with
  | error e => rfl
  | ok ch =>
    dsimp only
    cases ch.authorize c q with
    | mk r ch' =>
      cases r with
      | error e =>
        exact congrArg (Prod.mk _) (recordBad_api { p with channels := p.channels.set id ch' } x id)
      | ok u => rfl

omit [StoreWithStats σ] in
lemma openChannel_api (cfg : Config) :
    { p with api := x }.openChannel cfg =
      ((p.openChannel cfg).1, { (p.openChannel cfg).2 with api := x }) := by
  unfold PaidServer.openChannel
  dsimp only
  split_ifs
  · rfl
  · rfl
  · cases Channel.openWith cfg <;> rfl

omit [StoreWithStats σ] in
lemma query_api {ε α : Type} (q : QueryType) (answer : ExceptT ε (StateM σ) α) (id : Hash)
    (c : Option Payment.Commitment) :
    ∃ y, ({ p with api := x }.query q answer id c).2 =
      { (p.query q answer id c).2 with api := y } := by
  unfold PaidServer.query
  rw [authorize_api]
  cases p.authorize id c q with
  | mk r p' =>
    cases r with
    | error e => exact ⟨x, rfl⟩
    | ok u =>
      dsimp only
      cases answer.run.run x with
      | mk r' y =>
        refine ⟨y, ?_⟩
        cases hr : answer.run.run p'.api with
        | mk r'' z => cases r' <;> cases r'' <;> rfl

lemma serve_api (c : Payment.Request) :
    ∃ y, { p with api := x }.serve c = { p.serve c with api := y } := by
  cases c with
  | openChannel cfg => exact ⟨x, congrArg Prod.snd (openChannel_api p x cfg)⟩
  | seen id c txid => exact query_api p x _ _ id c
  | mined id c txid => exact query_api p x _ _ id c
  | merklePath id c txid => exact query_api p x _ _ id c
  | utxo id c op => exact query_api p x _ _ id c

omit [StoreWithStats σ] in
lemma access_api (c : Payment.Request) : { p with api := x }.access c = p.access c := by
  unfold PaidServer.access
  simp only [authorize_api]
  rfl

end Api

/-! ### The accounts of a run -/

/-- The accounts of a server that went from `s` to `s'` with payment required. -/
structure Accounts (s : Server σ) (ts : List Turn) (s' : Server σ) : Prop where
  /-- Every request is counted, and none ends in a panic. -/
  requests : s'.met.requests = s.met.requests + .ofNat ts.length
  errors : s'.met.errors = s.met.errors
  served : s'.met.served = s.met.served + .ofNat (ts.countP (·.response.answers))
  rejected : s'.met.rejected = s.met.rejected + .ofNat (ts.countP Turn.rejected)
  /-- No answer without an access that is charged. -/
  prepaid : ∀ t ∈ ts, t.response.answers = true → t.access.isSome
  /-- What is charged is answered, or the API has failed. -/
  charged : ∀ t ∈ ts, t.access.isSome → t.response.answers = true ∨ t.response.status = 402
  /-- A call is what its request decodes to. -/
  decoded : ∀ t ∈ ts, ∀ c, t.call = some c → t.arrival.request.call s.payKey.pub = some c
  /-- The gate is where the calls alone lead, and has booked the accesses. -/
  booked :
    ∃ api, s'.paid = { (Books.run ⟨s.paid, []⟩ (ts.filterMap (·.call))).server with api := api } ∧
    (Books.run ⟨s.paid, []⟩ (ts.filterMap (·.call))).log = ts.filterMap (·.access)

omit [StoreWithStats σ] in
lemma Server.limit_eq (fused : Bool) (a : Arrival) (s : Server σ) (m : Metrics) :
    ∃ l, Server.limit fused a { s with met := m } =
      ((s.limit fused a).1, { s with met := m, limiter := l }) := by
  obtain ⟨paymentRequired, adminToken, prune, limiter, identity, payKey, paid, tip, ready, met⟩ := s
  cases limiter with
  | none => exact ⟨none, rfl⟩
  | some l => exact ⟨_, rfl⟩

/-- One more request. -/
def Metrics.count (m : Metrics) (answered rejected : Bool) : Metrics :=
  { m with
    requests := m.requests + 1
    served := if answered then m.served + 1 else m.served
    rejected := if rejected then m.rejected + 1 else m.rejected }

lemma add_ofNat_toNat (x : UInt64) (n : ℕ) (b : Bool) :
    x + .ofNat (n + b.toNat) = if b then x + .ofNat n + 1 else x + .ofNat n := by
  rw [UInt64.ofNat_add, ← UInt64.add_assoc]
  cases b with
  | false => exact UInt64.add_zero _
  | true => rfl

/-- What one request does to the server and its counters. -/
structure Effect (s : Server σ) (t : Turn) (s' : Server σ) : Prop where
  same : s'.paymentRequired = s.paymentRequired ∧ s'.identity = s.identity ∧ s'.payKey = s.payKey
  paid : s'.paid = t.call.elim s.paid s.paid.serve
  decoded : ∀ c, t.call = some c → t.arrival.request.call s.payKey.pub = some c
  access : t.access = t.call.bind s.paid.access
  met : s'.met = s.met.count t.response.answers t.rejected
  prepaid : t.response.answers = true → t.access.isSome
  charged : t.access.isSome → t.response.answers = true ∨ t.response.status = 402

lemma Effect.of_wrap {s s' : Server σ} {fused : Bool} {a : Arrival} {c : Option Payment.Request}
    {resp : Response} (hc : s.callOf fused a = c) (hwrap : s.wrap fused a = (resp, s'))
    (same : s'.paymentRequired = s.paymentRequired ∧ s'.identity = s.identity ∧
      s'.payKey = s.payKey)
    (paid : s'.paid = c.elim s.paid s.paid.serve)
    (met : s'.met = s.met.count resp.answers (c.isSome && resp.status != 200))
    (prepaid : resp.answers = true → (c.bind s.paid.access).isSome)
    (charged : (c.bind s.paid.access).isSome → resp.answers = true ∨ resp.status = 402) :
    Effect s (s.turn fused a) (s.wrap fused a).2 := by
  have ht : s.turn fused a = ⟨a, c, c.bind s.paid.access, resp⟩ := by rw [Server.turn, hc, hwrap]
  have hdecoded : ∀ x, c = some x → a.request.call s.payKey.pub = some x := by
    rintro x rfl
    rw [Server.callOf] at hc
    split_ifs at hc
    exact hc
  rw [ht, hwrap]
  exact ⟨same, paid, hdecoded, rfl, met, prepaid, charged⟩

lemma Outcome.registry {s : Server σ} {r : Request} {h : Handled σ} (hout : Outcome s r h) :
    h.2.paid = (r.call s.payKey.pub).elim s.paid s.paid.serve ∧
      h.2.paymentRequired = s.paymentRequired ∧ h.2.payKey = s.payKey := by
  cases hout with
  | plain hc => exact ⟨by rw [hc]; rfl, rfl, rfl⟩
  | opened hc => exact ⟨by rw [hc]; rfl, rfl, rfl⟩
  | denied hc => exact ⟨by rw [hc]; rfl, rfl, rfl⟩
  | unpaid hc => exact ⟨by rw [hc]; rfl, rfl, rfl⟩
  | failed hc => exact ⟨by rw [hc]; rfl, rfl, rfl⟩
  | answered hc => exact ⟨by rw [hc]; rfl, rfl, rfl⟩
  | panicked hc => exact ⟨by rw [hc]; rfl, rfl, rfl⟩

omit [StoreWithStats σ] in
lemma Server.recover_registry (h : Handled σ) :
    (Server.recover h).2.paid = h.2.paid ∧
      (Server.recover h).2.paymentRequired = h.2.paymentRequired ∧
      (Server.recover h).2.payKey = h.2.payKey := by
  obtain ⟨resp, s⟩ := h
  cases resp <;> exact ⟨rfl, rfl, rfl⟩

lemma Server.wrap_eq (fused : Bool) (a : Arrival) (s : Server σ) : ∃ l,
    s.wrap fused a = if !(s.limit fused a).1 then
      (httpError "rate limited" 429,
        { s with met := { s.met with requests := s.met.requests + 1 }, limiter := l })
      else Server.recover (handle a.request
        { s with met := { s.met with requests := s.met.requests + 1 }, limiter := l }) := by
  obtain ⟨l, hl⟩ := s.limit_eq fused a { s.met with requests := s.met.requests + 1 }
  refine ⟨l, ?_⟩
  unfold Server.wrap
  dsimp only
  rw [hl]

/-- **The registry** after a request is that of its call, whatever the response, and the server is
else as it was. -/
lemma Server.wrap_registry {s : Server σ} (hpay : s.paymentRequired = true) (fused : Bool)
    (a : Arrival) :
    (s.wrap fused a).2.paid = (s.callOf fused a).elim s.paid s.paid.serve ∧
      (s.wrap fused a).2.paymentRequired = s.paymentRequired ∧
      (s.wrap fused a).2.payKey = s.payKey := by
  obtain ⟨l, hwrap⟩ := s.wrap_eq fused a
  rw [hwrap, Server.callOf]
  cases (s.limit fused a).1 with
  | false => exact ⟨rfl, rfl, rfl⟩
  | true =>
    have hout := @handle_outcome σ _
      { s with met := { s.met with requests := s.met.requests + 1 }, limiter := l } hpay a.request
    obtain ⟨hpaid, hrequired, hkey⟩ := hout.registry
    obtain ⟨hpaid', hrequired', hkey'⟩ := recover_registry (handle a.request
      { s with met := { s.met with requests := s.met.requests + 1 }, limiter := l })
    exact ⟨hpaid'.trans hpaid, hrequired'.trans hrequired, hkey'.trans hkey⟩

/-- **One request**, whatever it is. -/
lemma Server.wrap_effect {s : Server σ} (hpay : s.paymentRequired = true) (hatt : s.Attests)
    (fused : Bool) (a : Arrival) :
    Effect s (s.turn fused a) (s.wrap fused a).2 := by
  obtain ⟨l, hwrap⟩ := s.wrap_eq fused a
  cases hadm : (s.limit fused a).1 with
  | false =>
    have hcall : s.callOf fused a = none := by rw [Server.callOf, hadm]; rfl
    rw [hadm, if_pos (by decide)] at hwrap
    exact .of_wrap hcall hwrap ⟨rfl, rfl, rfl⟩ rfl rfl (fun h => absurd h Bool.false_ne_true)
      fun h => absurd h Bool.false_ne_true
  | true =>
    have hcall : s.callOf fused a = a.request.call s.payKey.pub := by rw [Server.callOf, hadm]; rfl
    rw [hadm, if_neg (by decide)] at hwrap
    have hout := @handle_outcome σ _
      { s with met := { s.met with requests := s.met.requests + 1 }, limiter := l } hpay a.request
    generalize handle a.request
      { s with met := { s.met with requests := s.met.requests + 1 }, limiter := l } = h
      at hwrap hout
    cases hout with
    | plain hc hans =>
      refine .of_wrap (hcall.trans hc) hwrap ⟨rfl, rfl, rfl⟩ rfl ?_ ?_ fun h =>
        absurd h Bool.false_ne_true
      · rw [hans]
        rfl
      · exact fun h => absurd (hans.symm.trans h) Bool.false_ne_true
    | opened hc hans hstatus =>
      refine .of_wrap (hcall.trans hc) hwrap ⟨rfl, rfl, rfl⟩ rfl ?_ ?_ fun h =>
        absurd h Bool.false_ne_true
      · rw [hans, hstatus]
        rfl
      · exact fun h => absurd (hans.symm.trans h) Bool.false_ne_true
    | denied hc =>
      exact .of_wrap (hcall.trans hc) hwrap ⟨rfl, rfl, rfl⟩ rfl rfl
        (fun h => absurd h Bool.false_ne_true)
        fun h => absurd h Bool.false_ne_true
    | unpaid hc hacc =>
      refine .of_wrap (hcall.trans hc) hwrap ⟨rfl, rfl, rfl⟩ rfl rfl
        (fun h => absurd h Bool.false_ne_true) fun _ => .inr rfl
    | failed hc hacc =>
      refine .of_wrap (hcall.trans hc) hwrap ⟨rfl, rfl, rfl⟩ rfl rfl
        (fun h => absurd h Bool.false_ne_true) fun _ => .inr rfl
    | answered hc hacc hans hstatus =>
      refine .of_wrap (hcall.trans hc) hwrap ⟨rfl, rfl, rfl⟩ rfl ?_ (fun _ => hacc)
        fun _ => .inl hans
      rw [hans, hstatus]
      rfl
    | panicked hc hunsigned => exact absurd hatt hunsigned

lemma Accounts.refl (s : Server σ) : Accounts s [] s where
  requests := (UInt64.add_zero _).symm
  errors := rfl
  served := (UInt64.add_zero _).symm
  rejected := (UInt64.add_zero _).symm
  prepaid := fun _ ht => absurd ht List.not_mem_nil
  charged := fun _ ht => absurd ht List.not_mem_nil
  decoded := fun _ ht => absurd ht List.not_mem_nil
  booked := ⟨s.paid.api, rfl, rfl⟩

lemma Accounts.request {s s' s'' : Server σ} {ts : List Turn} (h : Accounts s ts s')
    (hkey : s'.payKey = s.payKey) {t : Turn} (he : Effect s' t s'') :
    Accounts s (ts ++ [t]) s'' := by
  have hmem : ∀ {P : Turn → Prop}, (∀ x ∈ ts, P x) → P t → ∀ x ∈ ts ++ [t], P x := by
    intro P hts ht x hx
    rcases List.mem_append.mp hx with hx | hx
    · exact hts x hx
    · rwa [List.mem_singleton.mp hx]
  refine ⟨?_, ?_, ?_, ?_, hmem h.prepaid he.prepaid, hmem h.charged he.charged,
    hmem h.decoded (hkey ▸ he.decoded), ?_⟩
  · rw [congrArg Metrics.requests he.met, List.length_append, List.length_singleton,
      UInt64.ofNat_add, ← UInt64.add_assoc, ← h.requests]
    rfl
  · rw [congrArg Metrics.errors he.met]
    exact h.errors
  · rw [congrArg Metrics.served he.met, List.countP_append, List.countP_singleton,
      ← Pool.toNat_eq_ite, add_ofNat_toNat, ← h.served]
    rfl
  · rw [congrArg Metrics.rejected he.met, List.countP_append, List.countP_singleton,
      ← Pool.toNat_eq_ite, add_ofNat_toNat, ← h.rejected]
    rfl
  · obtain ⟨api, hpaid, hlog⟩ := h.booked
    rw [he.paid, List.filterMap_append, List.filterMap_append, Books.run_append]
    generalize Books.run ⟨s.paid, []⟩ (ts.filterMap (·.call)) = b at hpaid hlog
    have haccess := he.access
    cases hc : t.call with
    | none =>
      rw [hc] at haccess
      rw [List.filterMap_cons_none hc, List.filterMap_cons_none haccess]
      exact ⟨api, hpaid, hlog.trans (List.append_nil _).symm⟩
    | some c =>
      rw [hc, Option.bind_some, hpaid, access_api] at haccess
      obtain ⟨y, hy⟩ := serve_api b.server api c
      rw [List.filterMap_cons_some hc, hpaid]
      refine ⟨y, hy, ?_⟩
      change b.log ++ (b.server.access c).toList = _
      rw [hlog, ← haccess]
      cases ha : t.access with
      | none => rw [List.filterMap_cons_none ha]; rfl
      | some x => rw [List.filterMap_cons_some ha]; rfl

omit [StoreWithStats σ] in
lemma Accounts.chain [StoreWithStats σ] {s s' : Server σ} {ts : List Turn} (h : Accounts s ts s')
    (store : σ) (tip : UInt32) :
    Accounts s ts { s' with paid := { s'.paid with api := store }, tip := tip, ready := true } := by
  obtain ⟨api, hpaid, hlog⟩ := h.booked
  exact ⟨h.requests, h.errors, h.served, h.rejected, h.prepaid, h.charged, h.decoded,
    store, by rw [hpaid], hlog⟩

/-- **A whole run** keeps the accounts. -/
lemma accounts_run (fused : Bool) {s : Server σ} (hpay : s.paymentRequired = true)
    (hatt : s.Attests) (es : List (Event σ)) :
    Accounts s (s.turns fused es) (s.after fused es) := by
  let Inv : List (Event σ) → List (Option Turn) → Server σ → Prop := fun _ ts s' =>
    Accounts s ts.reduceOption s' ∧ s'.paymentRequired = true ∧ s'.identity = s.identity ∧
      s'.payKey = s.payKey
  have hstep : ∀ e is ts s', Inv is ts s' →
      Inv (is ++ [e]) (ts ++ [(Server.step fused e s').1]) (Server.step fused e s').2 := by
    intro e is ts s' h
    obtain ⟨hacc, hpay', hatt', hkey⟩ := h
    dsimp only [Inv]
    rw [List.reduceOption_append, List.reduceOption_singleton]
    cases e with
    | request a =>
      have hsign : s'.Attests := fun attest hs => hatt attest (hatt' ▸ hs)
      have heff := Server.wrap_effect hpay' hsign fused a
      exact ⟨hacc.request hkey heff, heff.same.1.trans hpay', heff.same.2.1.trans hatt',
        heff.same.2.2.trans hkey⟩
    | chain store tip =>
      refine ⟨?_, hpay', hatt', hkey⟩
      rw [show (Server.step fused (.chain store tip) s').1 = none from rfl, Option.toList_none,
        List.append_nil]
      exact hacc.chain store tip
  have hinit : Inv [] [] s := ⟨Accounts.refl s, hpay, rfl, rfl⟩
  exact (@collect_invariant _ _ _ _ Inv hstep es [] [] s hinit).1

/-- The request was charged, and not answered. -/
def Turn.lost (t : Turn) : Bool := t.access.isSome && !t.response.answers

lemma countP_access {ts : List Turn} (h : ∀ t ∈ ts, t.response.answers = true → t.access.isSome) :
    ts.countP (·.response.answers) + ts.countP Turn.lost = (ts.filterMap (·.access)).length := by
  induction ts with
  | nil => rfl
  | cons t ts ih =>
    have ht := ih fun x hx => h x (List.mem_cons_of_mem t hx)
    rw [List.countP_cons, List.countP_cons]
    cases hacc : t.access with
    | none =>
      have hans : t.response.answers = false := by
        cases hb : t.response.answers with
        | false => rfl
        | true => exact absurd (h t List.mem_cons_self hb) (by rw [hacc]; exact Bool.false_ne_true)
      rw [List.filterMap_cons_none hacc, ← ht, Turn.lost, hans, hacc]
      rfl
    | some x =>
      rw [List.filterMap_cons_some hacc, List.length_cons, ← ht, Turn.lost, hacc]
      cases t.response.answers with
      | false =>
        change _ + 0 + (_ + 1) = _
        omega
      | true =>
        change _ + 1 + (_ + 0) = _
        omega

/-- **The accounts of the HTTP service.** With payment required and an operator who can sign,
whatever requests arrive and whatever the loop writes in between: no answer leaves without an access
that is charged, and every access that is charged is answered or fails behind the gate. The gate
goes through the calls that decode and has booked what was charged. The counters are those of the
responses: what is booked is what was served, and what was lost. -/
theorem paid_accounts (fused : Bool) {s : Server σ} (hpay : s.paymentRequired = true)
    (hatt : s.Attests) (es : List (Event σ)) :
    Accounts s (s.turns fused es) (s.after fused es) ∧
      (s.after fused es).met.served + .ofNat ((s.turns fused es).countP Turn.lost) =
        s.met.served +
          .ofNat (Books.run ⟨s.paid, []⟩ ((s.turns fused es).filterMap (·.call))).log.length := by
  have h := accounts_run fused hpay hatt es
  obtain ⟨-, -, hlog⟩ := h.booked
  have hcount := countP_access h.prepaid
  refine ⟨h, ?_⟩
  rw [hlog, h.served, ← hcount, UInt64.ofNat_add, UInt64.add_assoc]

/-- A server that requires payment and attests, before its first block. The accounts do not look at
the signature. -/
def sampleService : Server Mem.Store where
  paymentRequired := true
  identity := some ⟨sampleServer, fun st => ⟨st, some sampleServer, some sampleSig⟩⟩
  payKey := ⟨⟨2⟩, sampleServer, sample_server_public⟩
  paid := { api := Mem.new }

lemma sampleService_attests : sampleService.Attests := by
  intro id h st
  cases h
  rfl

/-- The sample channel, at 1000 for an access. -/
def sampleOpen : OpenReq where
  fundingTxID := hexHash (.fill 32 0x11)
  vout := 0
  deposit := 100000
  clientPub := encodeToString sampleKey.serializeCompressed
  flat := true
  flatPrice := 1000
  perType := .replicate 4 0
  settleFee := 0
  feeMode := 0
  fee := 200
  n := 10
  refundLockTime := 0
  settleBefore := 0

/-- Its first access. -/
def samplePaid : PaidReq :=
  ⟨hexHash sampleParams.channelID, 0, hexHash default, 0, 1000, encodeToString sampleSig.serialize⟩

/-- The channel is opened, and a query is paid from it. -/
def sampleSale : List (Event Mem.Store) :=
  [.request ⟨"", 0, .channelOpen true (some sampleOpen)⟩,
    .request ⟨"", 0, .paidQuery true (some samplePaid)⟩]

lemma parseHash_hexHash (h : Hash) : parseHash (hexHash h) = some h := by
  rw [parseHash, hexHash, parseBytes_encodeToString]

lemma sampleOpen_config : sampleOpen.config sampleServer = .ok (sampleConfig thousandPricing) := by
  have hkey : parseCompressed sampleKey.serializeCompressed = .ok sampleKey :=
    parseCompressed_ok_iff.mpr
      ⟨(serializeCompressed_eq_iff ⟨by decide, by decide⟩).mp rfl, by decide⟩
  unfold OpenReq.config
  simp only [sampleOpen, parseHash_hexHash, decodeHex_encodeToString, hkey]
  rfl

lemma samplePaid_decode :
    samplePaid.decode = .ok (sampleParams.channelID, sampleCommitment, default) := by
  have hsig : parseSignature sampleSig.serialize = .ok sampleSig :=
    parseSignature_serialize (inRange_of_verify sampleSig_verify)
  unfold PaidReq.decode
  simp only [samplePaid, parseHash_hexHash, decodeHex_encodeToString, hsig]
  rfl

lemma Server.wrap_of_limiter {s : Server σ} (h : s.limiter = none) (fused : Bool) (a : Arrival) :
    s.wrap fused a = Server.recover
      (handle a.request { s with met := { s.met with requests := s.met.requests + 1 } }) := by
  unfold Server.wrap Server.limit
  simp only [h]
  rfl

lemma Server.turns_request (fused : Bool) (s : Server σ) (a : Arrival) (es : List (Event σ)) :
    s.turns fused (.request a :: es) = s.turn fused a :: (s.wrap fused a).2.turns fused es := rfl

lemma Server.turn_response (fused : Bool) (s : Server σ) (a : Arrival) :
    (s.turn fused a).response = (s.wrap fused a).1 := rfl

/-- The server with the sample channel. -/
def sampleOpened : Server Mem.Store :=
  { sampleService with
    paid := { sampleService.paid with
      channels := GoMap.empty.set sampleParams.channelID (sampleChannel thousandPricing) }
    met := { requests := 1 } }

lemma wrap_sampleOpen :
    sampleService.wrap false ⟨"", 0, .channelOpen true (some sampleOpen)⟩ =
      (⟨200, .opened (hexHash sampleParams.channelID)⟩, sampleOpened) := by
  have hopen := openChannel_sample thousandPricing (s := sampleService.paid) rfl
  have hcfg : sampleOpen.config sampleService.payKey.pub = .ok (sampleConfig thousandPricing) :=
    sampleOpen_config
  rw [Server.wrap_of_limiter rfl]
  simp only [handle, handleChannelOpen, hcfg, hopen, Bool.not_true, Bool.false_eq_true, if_false]
  rfl

lemma handlePaidQuery_samplePaid {s : Server Mem.Store} (hid : s.identity = sampleService.identity)
    (hpaid : s.paid = sampleOpened.paid) :
    ∃ resp s', handlePaidQuery true (some samplePaid) s = (some resp, s') ∧ resp.answers = true ∧
      s'.paid.channels.get sampleParams.channelID =
        some ((sampleChannel thousandPricing).book sampleCommitment) := by
  have hl : s.paid.lookup sampleParams.channelID = .ok (sampleChannel thousandPricing) := by
    rw [hpaid]
    exact PaidServer.lookup_of_get rfl (GoMap.get_set_self _ _ _)
  have hauth :=
    PaidServer.authorize_of_accepts hl (@sample_accepts thousandPricing .seen (by decide))
  have hseen : ((Api.seen default).run.run s.paid.api).1 = .ok {} := by
    rw [hpaid]
    rfl
  have htype : queryTypeOf samplePaid.type.toNat = some .seen := rfl
  have hbooked : ((s.paid.query .seen (Api.seen default) sampleParams.channelID
      (some sampleCommitment)).2).channels.get sampleParams.channelID =
        some ((sampleChannel thousandPricing).book sampleCommitment) := by
    simp only [PaidServer.query, hauth]
    split <;> exact GoMap.get_set_self _ _ _
  simp only [handlePaidQuery, samplePaid_decode, htype, Bool.not_true, Bool.false_eq_true, if_false,
    PaidServer.seen]
  rw [(answerPaid_query.2 _ hauth).1 {} hseen]
  simp only [Server.seenResp, Server.attestation, Server.pay, Server.serve, hid]
  exact ⟨_, _, rfl, rfl, hbooked⟩

lemma wrap_samplePaid :
    (sampleOpened.wrap false ⟨"", 0, .paidQuery true (some samplePaid)⟩).1.answers = true ∧
      (sampleOpened.wrap false ⟨"", 0, .paidQuery true (some samplePaid)⟩).2.paid.channels.get
        sampleParams.channelID = some ((sampleChannel thousandPricing).book sampleCommitment) := by
  rw [Server.wrap_of_limiter rfl, handle]
  obtain ⟨resp, s', hresp, hans, hget⟩ := @handlePaidQuery_samplePaid
    { sampleOpened with met := { sampleOpened.met with
      requests := sampleOpened.met.requests + 1 } } rfl rfl
  rw [hresp]
  exact ⟨hans, hget⟩

lemma sampleSale_turns : sampleService.turns false sampleSale =
    [sampleService.turn false ⟨"", 0, .channelOpen true (some sampleOpen)⟩,
      sampleOpened.turn false ⟨"", 0, .paidQuery true (some samplePaid)⟩] := by
  rw [sampleSale, Server.turns_request, Server.turns_request, wrap_sampleOpen]
  rfl

/-- Two requests are counted, and one of them is an answer that was paid for. -/
theorem paid_accounts_sale :
    sampleService.identity.isSome ∧
      ∃ t t', sampleService.turns false sampleSale = [t, t'] ∧ t'.response.answers = true ∧
        t'.access.isSome ∧ (sampleService.after false sampleSale).met.requests = 2 ∧
        (sampleService.after false sampleSale).met.served = 1 := by
  have h := (paid_accounts false rfl sampleService_attests sampleSale).1
  rw [sampleSale_turns] at h
  have hopened : (sampleService.turn false
      ⟨"", 0, .channelOpen true (some sampleOpen)⟩).response.answers = false := by
    rw [Server.turn_response, wrap_sampleOpen]
    rfl
  have hans : (sampleOpened.turn false
      ⟨"", 0, .paidQuery true (some samplePaid)⟩).response.answers = true := by
    rw [Server.turn_response]
    exact wrap_samplePaid.1
  refine ⟨rfl, _, _, sampleSale_turns, hans, h.prepaid _ ?_ hans, h.requests, ?_⟩
  · exact List.mem_cons_of_mem _ List.mem_cons_self
  · have hcount : ∀ {t t' : Turn}, t.response.answers = false → t'.response.answers = true →
        [t, t'].countP (·.response.answers) = 1 := fun ht ht' => by simp [ht, ht']
    rw [h.served, hcount hopened hans]
    rfl

end Http

end MemServe
