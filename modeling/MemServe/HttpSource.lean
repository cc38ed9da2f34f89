import MemServe.Teranode

/-!
The HTTP source: blocks fetched by height from an endpoint that is not trusted.

Three numbers come from three places: the cursor from the source itself, the tip from one answer of
the endpoint and the height of a block from another. Only the first two are compared; the height a
block declares goes through unchecked.
-/

namespace MemServe.Httpsource

open Teranode

structure Config where
  baseURL : String := ""
  startHeight : UInt32 := 0
  endHeight : UInt32 := 0
  bestHeightPath : String := ""
  blockPathFmt : String := ""
  maxRetries : ℤ := 0
  maxBodyBytes : ℤ := 0

/-- `sent` counts the requests made so far: an endpoint may answer each of them differently. -/
structure Source where
  cfg : Config
  height : UInt32
  tip : UInt32 := 0
  sent : ℕ := 0

def new (cfg : Config) : Source where
  cfg := { cfg with
    bestHeightPath := if cfg.bestHeightPath = "" then "/api/v1/bestheight" else cfg.bestHeightPath
    blockPathFmt := if cfg.blockPathFmt = "" then "/api/v1/block/%d" else cfg.blockPathFmt
    maxRetries := if cfg.maxRetries ≤ 0 then 4 else cfg.maxRetries
    maxBodyBytes := if cfg.maxBodyBytes ≤ 0 then 67108864 else cfg.maxBodyBytes }
  height := cfg.startHeight

/-! ### The adapter's JSON contract

Strings are byte strings, as the source's are. -/

structure JsonInput where
  txID : Bytes
  vout : UInt32

structure JsonOutput where
  value : UInt64
  scriptHash : Bytes

structure JsonTx where
  txID : Bytes
  inputs : List JsonInput
  outputs : List JsonOutput

structure JsonSubtree where
  root : Bytes
  txs : List JsonTx

structure JsonBlock where
  hash : Bytes
  height : UInt32
  time : UInt32
  header : Bytes
  subtrees : List JsonSubtree

structure JsonTip where
  height : UInt32

/-- The errors of the package and of the libraries under it. -/
inductive Error
  /-- `http.NewRequest` refuses the URL. -/
  | request (url : String)
  | network (text : String)
  | json (text : String)
  /-- `httpsource: GET %s -> %d: %s` -/
  | status (url : String) (code : ℕ) (body : Bytes)
  /-- `httpsource: exhausted %d retries: %w` -/
  | exhausted (retries : ℤ) (last : Option Error)
  | hexLength
  | hexByte (c : UInt8)
  /-- `httpsource: hash must be 32 bytes, got %d` -/
  | hash (n : ℕ)
  /-- `httpsource: header must be 80 bytes hex` -/
  | header

def hexDigit (c : UInt8) : Except Error UInt8 :=
  if 48 ≤ c ∧ c ≤ 57 then .ok (c - 48)
  else if 97 ≤ c ∧ c ≤ 102 then .ok (c - 87)
  else if 65 ≤ c ∧ c ≤ 70 then .ok (c - 55)
  else .error (.hexByte c)

/-- `hex.DecodeString`: a last digit without a partner is an error of its own. -/
def decodeHex : Bytes → Except Error Bytes
  | [] => .ok []
  | [c] => do
    let _ ← hexDigit c
    .error .hexLength
  | c :: d :: cs => do
    let hi ← hexDigit c
    let lo ← hexDigit d
    let bs ← decodeHex cs
    .ok ((hi * 16 + lo) :: bs)

def hexHash (s : Bytes) : Except Error Hash := do
  let b ← decodeHex s
  if b.length ≠ 32 then .error (.hash b.length) else .ok (.copy 32 b)

def convertInput (j : JsonInput) : Except Error Outpoint := do
  let itx ← hexHash j.txID
  .ok ⟨itx, j.vout⟩

def convertOutput (j : JsonOutput) : Except Error TxOut := do
  let sh ← hexHash j.scriptHash
  .ok ⟨j.value, sh⟩

def convertTx (j : JsonTx) : Except Error Tx := do
  let txid ← hexHash j.txID
  let inputs ← j.inputs.mapM convertInput
  let outputs ← j.outputs.mapM convertOutput
  .ok ⟨txid, inputs, outputs⟩

def convertSubtree (j : JsonSubtree) : Except Error Subtree := do
  let root ← hexHash j.root
  let txs ← j.txs.mapM convertTx
  .ok ⟨root, txs.map Tx.txID, txs⟩

/-- The header's own error hides what `hex` said. -/
def convertHeader (s : Bytes) : Except Error Header :=
  match decodeHex s with
  | .error _ => .error .header
  | .ok hb => if hb.length ≠ 80 then .error .header else .ok (.copy 80 hb)

lemma merkleRoot_le : 36 + 32 ≤ 80 := by decide

def convert (j : JsonBlock) : Except Error Block := do
  let header ← convertHeader j.header
  let hash ← hexHash j.hash
  let subtrees ← j.subtrees.mapM convertSubtree
  .ok { hash := hash
        height := j.height
        time := j.time
        merkleRoot := header.slice 36 32 merkleRoot_le
        subtreeRoots := subtrees.map Subtree.root
        header := header
        subtrees := subtrees }

lemma bind_eq_ok {α β : Type} {x : Except Error α} {f : α → Except Error β} {b : β} :
    x >>= f = .ok b ↔ ∃ a, x = .ok a ∧ f a = .ok b := by
  cases x with
  | error e => simp [bind, Except.bind]
  | ok a => simp [bind, Except.bind]

lemma convert_height {j : JsonBlock} {b : Block} (h : convert j = .ok b) : b.height = j.height := by
  obtain ⟨header, -, h⟩ := bind_eq_ok.mp h
  obtain ⟨hash, -, h⟩ := bind_eq_ok.mp h
  obtain ⟨subtrees, -, h⟩ := bind_eq_ok.mp h
  cases h
  rfl

/-- What comes of a request: no response, or one with its status and as much of its body as can be
read. -/
inductive Reply
  | failed (text : String)
  | response (code : ℕ) (body : Bytes)

/-- The world outside the package: which URLs make a request, what the endpoint replies to the
`n`-th request, and what `encoding/json` reads in a text. -/
structure Web where
  wellFormed : String → Bool
  reply : ℕ → String → Reply
  readTip : Bytes → Except String JsonTip
  readBlock : Bytes → Except String JsonBlock

/-- `getJSON` with `k` attempts left, after the failure `last`. -/
def getLoop {α : Type} (w : Web) (cfg : Config) (read : Bytes → Except String α) (url : String) :
    ℕ → Option Error → ℕ → Except Error α × ℕ
  | 0, last, sent => (.error (.exhausted cfg.maxRetries last), sent)
  | k + 1, _, sent =>
    if !w.wellFormed url then (.error (.request url), sent)
    else
      match w.reply sent url with
      | .failed text => getLoop w cfg read url k (some (.network text)) (sent + 1)
      | .response code body =>
        if code = 200 then ((read (body.take cfg.maxBodyBytes.toNat)).mapError .json, sent + 1)
        else
          let lastErr := .status url code (body.take 512)
          -- too many requests, or the server's fault: worth another attempt
          if code = 429 ∨ 500 ≤ code then getLoop w cfg read url k (some lastErr) (sent + 1)
          else (.error lastErr, sent + 1)

def getJSON {α : Type} (w : Web) (cfg : Config) (read : Bytes → Except String α) (url : String)
    (sent : ℕ) :
    Except Error α × ℕ :=
  getLoop w cfg read url (cfg.maxRetries + 1).toNat none sent

/-- `fmt.Sprintf` of a format with one `%d`. -/
def sprintf : List Char → List Char → List Char
  | '%' :: 'd' :: cs, arg => arg ++ cs
  | c :: cs, arg => c :: sprintf cs arg
  | [], _ => []

def Config.bestHeightURL (cfg : Config) : String := cfg.baseURL ++ cfg.bestHeightPath

def Config.blockURL (cfg : Config) (h : UInt32) : String :=
  cfg.baseURL ++ String.ofList (sprintf cfg.blockPathFmt.toList (toString h.toNat).toList)

namespace Source

variable (w : Web)

def refreshTip (s : Source) : Except Error Unit × Source :=
  match getJSON w s.cfg w.readTip s.cfg.bestHeightURL s.sent with
  | (.error e, sent) => (.error e, { s with sent := sent })
  | (.ok t, sent) => (.ok (), { s with tip := t.height, sent := sent })

def fetchBlock (s : Source) (h : UInt32) : Except Error Block × Source :=
  match getJSON w s.cfg w.readBlock (s.cfg.blockURL h) s.sent with
  | (.error e, sent) => (.error e, { s with sent := sent })
  | (.ok jb, sent) => (convert jb, { s with sent := sent })

/-- The second half of `Next`: the block at the cursor. -/
def advance (s : Source) : Except Error (Option Block) × Source :=
  match s.fetchBlock w s.height with
  | (.error e, s) => (.error e, s)
  | (.ok blk, s) => (.ok (some blk), { s with height := s.height + 1 })

/-- `Next`; `none` where the source returns `ok = false` and no error. -/
def next (s : Source) : Except Error (Option Block) × Source :=
  if s.cfg.endHeight ≠ 0 ∧ s.cfg.endHeight < s.height then (.ok none, s)
  else if s.tip < s.height then
    match s.refreshTip w with
    | (.error e, s) => (.error e, s)
    | (.ok _, s) => if s.tip < s.height then (.ok none, s) else s.advance w
  else s.advance w

end Source

/-- Some request for the block at a height is answered with this block. -/
def Web.Serves (w : Web) (cfg : Config) (h : UInt32) (jb : JsonBlock) : Prop :=
  ∃ n body, w.reply n (cfg.blockURL h) = .response 200 body ∧
    w.readBlock (body.take cfg.maxBodyBytes.toNat) = .ok jb

/-- What the endpoint serves for a height of the range declares that height. -/
def Web.Declares (w : Web) (cfg : Config) : Prop :=
  ∀ h jb, cfg.startHeight ≤ h → (cfg.endHeight ≠ 0 → h ≤ cfg.endHeight) →
    w.Serves (new cfg).cfg h jb → jb.height = h

lemma getLoop_ok {α : Type} {w : Web} {cfg : Config} {read : Bytes → Except String α} {url : String}
    {x : α} (k : ℕ) (last : Option Error) (sent : ℕ)
    (h : (getLoop w cfg read url k last sent).1 = .ok x) :
    ∃ n body, w.reply n url = .response 200 body ∧ read (body.take cfg.maxBodyBytes.toNat) =
      .ok x := by
  induction k generalizing last sent with
  | zero => cases h
  | succ k ih =>
    rw [getLoop] at h
    split_ifs at h
    cases hr : w.reply sent url with
    | failed text =>
      rw [hr] at h
      exact ih _ _ h
    | response code body =>
      rw [hr] at h
      dsimp only at h
      split_ifs at h with hok hagain
      · refine ⟨sent, body, by rw [hr, hok], ?_⟩
        cases hread : read (body.take cfg.maxBodyBytes.toNat) with
        | error e =>
          rw [hread] at h
          cases h
        | ok y =>
          rw [hread] at h
          cases h
          rfl
      · exact ih _ _ h

namespace Source

variable (w : Web)

/-- No block came of the call, and the cursor stayed where it was. -/
def Stays (s : Source) (r : Except Error (Option Block) × Source) : Prop :=
  (∀ b, r.1 ≠ .ok (some b)) ∧ ∃ tip sent, r.2 = { s with tip := tip, sent := sent }

/-- A block served for the cursor was returned, and the cursor went on to the next height. -/
def Delivers (s : Source) (b : Block) (r : Except Error (Option Block) × Source) : Prop :=
  (∃ jb, w.Serves s.cfg s.height jb ∧ convert jb = .ok b) ∧
    ∃ tip sent, r = (.ok (some b), { s with height := s.height + 1, tip := tip, sent := sent })

lemma advance_cases (s : Source) : s.Stays (s.advance w) ∨ ∃ b, s.Delivers w b (s.advance w) := by
  unfold advance fetchBlock
  cases hget : getJSON w s.cfg w.readBlock (s.cfg.blockURL s.height) s.sent with
  | mk r sent =>
    cases r with
    | error e => exact .inl ⟨nofun, s.tip, sent, rfl⟩
    | ok jb =>
      dsimp only
      cases hconv : convert jb with
      | error e => exact .inl ⟨nofun, s.tip, sent, rfl⟩
      | ok b =>
        exact .inr ⟨b, ⟨jb, getLoop_ok _ _ _ (congrArg Prod.fst hget), hconv⟩, s.tip, sent, rfl⟩

/-- **One call**: it delivers the block at the cursor, which is not past the end, or changes nothing
but the tip. -/
lemma next_cases (s : Source) :
    s.Stays (s.next w) ∨
      (s.cfg.endHeight ≠ 0 → s.height ≤ s.cfg.endHeight) ∧ ∃ b, s.Delivers w b (s.next w) := by
  unfold next
  by_cases hend : s.cfg.endHeight ≠ 0 ∧ s.cfg.endHeight < s.height
  · rw [if_pos hend]
    exact .inl ⟨nofun, s.tip, s.sent, rfl⟩
  have hbelow : s.cfg.endHeight ≠ 0 → s.height ≤ s.cfg.endHeight :=
    fun h0 => UInt32.not_lt.mp fun hlt => hend ⟨h0, hlt⟩
  rw [if_neg hend]
  split_ifs with htip
  · unfold refreshTip
    cases getJSON w s.cfg w.readTip s.cfg.bestHeightURL s.sent with
    | mk r sent =>
      cases r with
      | error e => exact .inl ⟨nofun, s.tip, sent, rfl⟩
      | ok t =>
        dsimp only
        split_ifs with hcaught
        · exact .inl ⟨nofun, t.height, sent, rfl⟩
        · rcases advance_cases w { s with tip := t.height, sent := sent } with hstay | ⟨b, hb⟩
          · exact .inl hstay
          · exact .inr ⟨hbelow, b, hb⟩
  · exact (advance_cases w s).imp_right fun h => ⟨hbelow, h⟩

end Source

/-! ### Runs -/

/-- A block that was returned, with the height it was fetched for. -/
structure Delivery where
  asked : UInt32
  block : Block

/-- A source and what its calls have returned so far, in order. -/
structure Session where
  src : Source
  got : List Delivery := []

def Session.call (w : Web) (s : Session) : Session :=
  match s.src.next w with
  | (.ok (some b), src) => ⟨src, s.got ++ [⟨s.src.height, b⟩]⟩
  | (_, src) => ⟨src, s.got⟩

/-- After `k` calls of `Next`. -/
def session (w : Web) (cfg : Config) (k : ℕ) : Session := (Session.call w)^[k] ⟨new cfg, []⟩

lemma session_succ (w : Web) (cfg : Config) (k : ℕ) :
    session w cfg (k + 1) = (session w cfg k).call w :=
  Function.iterate_succ_apply' _ _ _

/-- The books of a session: the cursor has gone up by one for each block, and each block was fetched
for the height the cursor had then. -/
structure Session.Books (w : Web) (cfg : Config) (s : Session) : Prop where
  config : s.src.cfg = (new cfg).cfg
  cursor : s.src.height = cfg.startHeight + UInt32.ofNat s.got.length
  asked : s.got.map Delivery.asked = (List.range s.got.length).map fun i =>
    cfg.startHeight + UInt32.ofNat i
  below : cfg.endHeight ≠ 0 → ∀ d ∈ s.got, d.asked ≤ cfg.endHeight
  served : ∀ d ∈ s.got, ∃ jb, w.Serves (new cfg).cfg d.asked jb ∧ convert jb = .ok d.block

variable {w : Web} {cfg : Config}

lemma Session.call_none {s : Session} (h : ∀ b, (s.src.next w).1 ≠ .ok (some b)) :
    s.call w = ⟨(s.src.next w).2, s.got⟩ := by
  unfold Session.call
  cases hn : s.src.next w with
  | mk r src =>
    rw [hn] at h
    match r with
    | .error e => rfl
    | .ok none => rfl
    | .ok (some b) => exact absurd rfl (h b)

lemma Session.call_some {s : Session} {b : Block} {src : Source}
    (h : s.src.next w = (.ok (some b), src)) :
    s.call w = ⟨src, s.got ++ [⟨s.src.height, b⟩]⟩ := by
  unfold Session.call
  rw [h]

lemma session_got_length_le (k : ℕ) : (session w cfg k).got.length ≤ k := by
  induction k with
  | zero => exact le_rfl
  | succ k ih =>
    rw [session_succ]
    rcases (session w cfg k).src.next_cases w with hstay | ⟨-, b, -, tip, sent, hnext⟩
    · rw [Session.call_none hstay.1]
      exact ih.trans k.le_succ
    · rw [Session.call_some hnext, List.length_append]
      exact Nat.succ_le_succ ih

lemma Session.Books.call {s : Session} (h : s.Books w cfg) : (s.call w).Books w cfg := by
  rcases s.src.next_cases w with hstay | ⟨hend, b, hserved, tip, sent, hnext⟩
  · rw [Session.call_none hstay.1]
    obtain ⟨-, tip, sent, hsrc⟩ := hstay
    rw [hsrc]
    exact ⟨h.config, h.cursor, h.asked, h.below, h.served⟩
  · rw [h.config] at hend hserved
    rw [Session.call_some hnext]
    refine ⟨h.config, ?_, ?_, fun h0 d hd => ?_, fun d hd => ?_⟩
    · simp only [List.length_append, List.length_singleton]
      rw [h.cursor, UInt32.ofNat_add, UInt32.add_assoc]
      rfl
    · simp only [List.length_append, List.length_singleton, List.range_succ, List.map_append,
        List.map_singleton]
      rw [h.asked, h.cursor]
    · rcases List.mem_append.mp hd with hd | hd
      · exact h.below h0 d hd
      · rw [List.mem_singleton.mp hd]
        exact hend h0
    · rcases List.mem_append.mp hd with hd | hd
      · exact h.served d hd
      · rw [List.mem_singleton.mp hd]
        exact hserved

lemma session_books (w : Web) (cfg : Config) (k : ℕ) : (session w cfg k).Books w cfg := by
  induction k with
  | zero => exact ⟨rfl, (UInt32.add_zero _).symm, rfl, fun _ => nofun, nofun⟩
  | succ k ih =>
    rw [session_succ]
    exact ih.call

lemma session_fits (hne : cfg.endHeight ≠ 0) (hend : cfg.endHeight.toNat < 2 ^ 32 - 1) (k : ℕ) :
    cfg.startHeight.toNat + (session w cfg k).got.length < 2 ^ 32 := by
  induction k with
  | zero => exact cfg.startHeight.toNat_lt
  | succ k ih =>
    have hb := session_books w cfg k
    rw [session_succ]
    rcases (session w cfg k).src.next_cases w with hstay | ⟨hbelow, b, -, tip, sent, hnext⟩
    · rw [Session.call_none hstay.1]
      exact ih
    · have hcursor : (session w cfg k).src.height.toNat =
          cfg.startHeight.toNat + (session w cfg k).got.length := by
        rw [hb.cursor, UInt32.toNat_add, UInt32.toNat_ofNat', Nat.add_mod_mod, Nat.mod_eq_of_lt ih]
      rw [hb.config] at hbelow
      have hle := UInt32.le_iff_toNat_le.mp (hbelow hne)
      change _ ≤ cfg.endHeight.toNat at hle
      rw [Session.call_some hnext, List.length_append, List.length_singleton]
      omega

lemma session_range_le {k : ℕ} (hfit : cfg.endHeight ≠ 0 ∧ cfg.endHeight.toNat < 2 ^ 32 - 1 ∨
      cfg.startHeight.toNat + k ≤ 2 ^ 32) :
    cfg.startHeight.toNat + (session w cfg k).got.length ≤ 2 ^ 32 := by
  rcases hfit with ⟨hne, hend⟩ | hfit
  · exact (session_fits hne hend k).le
  · have hle : (session w cfg k).got.length ≤ k := session_got_length_le k
    omega

section Books

variable {s : Session} (h : s.Books w cfg) (hlen : cfg.startHeight.toNat + s.got.length ≤ 2 ^ 32)

include h hlen

lemma Session.Books.asked_toNat :
    (s.got.map fun d => d.asked.toNat) = List.range' cfg.startHeight.toNat s.got.length := by
  change s.got.map (UInt32.toNat ∘ Delivery.asked) = _
  rw [← List.map_map, h.asked, List.map_map, List.range'_eq_map_range]
  refine List.map_congr_left fun i hi => ?_
  have hi' := List.mem_range.mp hi
  change (cfg.startHeight + UInt32.ofNat i).toNat = cfg.startHeight.toNat + i
  rw [UInt32.toNat_add, UInt32.toNat_ofNat', Nat.add_mod_mod, Nat.mod_eq_of_lt (by omega)]

lemma Session.Books.height_eq (hdecl : w.Declares cfg) :
    ∀ d ∈ s.got, d.block.height = d.asked := by
  intro d hd
  obtain ⟨jb, hserves, hconv⟩ := h.served d hd
  have hmem : d.asked.toNat ∈ List.range' cfg.startHeight.toNat s.got.length :=
    h.asked_toNat hlen ▸ List.mem_map_of_mem hd
  have hstart : cfg.startHeight ≤ d.asked :=
    UInt32.le_iff_toNat_le.mpr (List.mem_range'_1.mp hmem).1
  rw [convert_height hconv]
  exact hdecl d.asked jb hstart (fun h0 => h.below h0 d hd) hserves

lemma Session.Books.heights_toNat (hdecl : w.Declares cfg) :
    (s.got.map fun d => d.block.height.toNat) =
      List.range' cfg.startHeight.toNat s.got.length := by
  rw [← h.asked_toNat hlen]
  exact List.map_congr_left fun d hd => congrArg UInt32.toNat (h.height_eq hlen hdecl d hd)

end Books

/-- `n` zero bytes in hex. -/
def zeros (n : ℕ) : Bytes := List.replicate (2 * n) 48

def tipText : Bytes := "\x7b\"height\":9\x7d".toUTF8.data.toList

/-- The endpoint's answer to every request for a block, a block of height 9 without subtrees. -/
def strayText : Bytes :=
  ("\x7b\"hash\":\"0000000000000000000000000000000000000000000000000000000000000000\",".toUTF8 ++
    "\"height\":9,\"time\":0,\"header\":\"".toUTF8 ++
    "00000000000000000000000000000000000000000000000000000000000000000000000000000000".toUTF8 ++
    "00000000000000000000000000000000000000000000000000000000000000000000000000000000\",".toUTF8 ++
    "\"subtrees\":[]\x7d".toUTF8).data.toList

def strayJson : JsonBlock := ⟨zeros 32, 9, 0, zeros 80, []⟩

/-- An endpoint that is at height 9 and serves its last block for every height. -/
def strayWeb : Web where
  wellFormed _ := true
  reply
    | 0, _ => .response 200 tipText
    | _ + 1, _ => .response 200 strayText
  readTip text := if text = tipText then .ok ⟨9⟩ else .error ""
  readBlock text := if text = strayText then .ok strayJson else .error ""

/-- A block with one transaction, named by a repeated hex digit. -/
def soloJson (c : UInt8) (h : UInt32) : JsonBlock where
  hash := List.replicate 64 c
  height := h
  time := 0
  -- the Merkle root stands in bytes 36 to 68
  header := List.replicate 72 48 ++ List.replicate 64 c ++ List.replicate 24 48
  subtrees := [⟨List.replicate 64 c, [⟨List.replicate 64 c, [], []⟩]⟩]

/-- An endpoint at height 2, whose texts for the blocks name the height. -/
def soloWeb : Web where
  wellFormed _ := true
  reply _ url := .response 200
    (if url = "/api/v1/block/1" then [1] else if url = "/api/v1/block/2" then [2] else [])
  readTip _ := .ok ⟨2⟩
  readBlock text := .ok (soloJson (48 + text.headI) text.headI.toUInt32)

lemma soloWeb_declares : soloWeb.Declares { startHeight := 1, endHeight := 2 } := by
  rintro h jb hlo hhi ⟨n, body, hreply, hread⟩
  have hlo' : 1 ≤ h.toNat := UInt32.le_iff_toNat_le.mp hlo
  have hhi' : h.toNat ≤ 2 := UInt32.le_iff_toNat_le.mp (hhi (by decide))
  have hurl : ∀ h : UInt32, (new { startHeight := 1, endHeight := 2 }).cfg.blockURL h =
      "" ++ String.ofList (sprintf "/api/v1/block/%d".toList (toString h.toNat).toList) :=
        fun _ => rfl
  rw [hurl] at hreply
  have hh : h.toNat = 1 ∨ h.toNat = 2 := by omega
  rcases hh with hh | hh
  · rw [hh] at hreply
    cases hreply
    cases hread
    exact UInt32.toNat_inj.mp hh.symm
  · rw [hh] at hreply
    cases hreply
    cases hread
    exact UInt32.toNat_inj.mp hh.symm

/-- **Blocks come in the order of the heights they are fetched for**, each height once, none past
the end, and a call that returns no block leaves the cursor. No call compares the height a block
carries with the one it was fetched for: the heights are in order where the endpoint declares what
it serves. -/
theorem delivered_in_order (w : Web) (cfg : Config) (k : ℕ)
    (hfit : cfg.endHeight ≠ 0 ∧ cfg.endHeight.toNat < 2 ^ 32 - 1 ∨
      cfg.startHeight.toNat + k ≤ 2 ^ 32) :
    let s := session w cfg k
    (s.got.map fun d => d.asked.toNat) = List.range' cfg.startHeight.toNat s.got.length ∧
    (∀ d ∈ s.got, ∃ jb, w.Serves (new cfg).cfg d.asked jb ∧ convert jb = .ok d.block ∧
      d.block.height = jb.height) ∧
    (cfg.endHeight ≠ 0 → ∀ d ∈ s.got, d.asked ≤ cfg.endHeight) ∧
    ((∀ b, (s.src.next w).1 ≠ .ok (some b)) → (s.src.next w).2.height = s.src.height) ∧
    (w.Declares cfg →
      (s.got.map fun d => d.block.height.toNat) =
        List.range' cfg.startHeight.toNat s.got.length) := by
  intro s
  have hb : s.Books w cfg := session_books w cfg k
  have hlen := session_range_le (w := w) hfit
  refine ⟨hb.asked_toNat hlen, fun d hd => ?_, hb.below, fun hnone => ?_, hb.heights_toNat hlen⟩
  · obtain ⟨jb, hserves, hconv⟩ := hb.served d hd
    exact ⟨jb, hserves, hconv, convert_height hconv⟩
  · rcases s.src.next_cases w with ⟨-, tip, sent, hsrc⟩ | ⟨-, b, -, tip, sent, hnext⟩
    · rw [hsrc]
    · exact absurd (by rw [hnext]) (hnone b)

/-- The two blocks of a range, from an endpoint that declares what it serves. -/
theorem delivered_in_order_solo :
    ((session soloWeb { startHeight := 1, endHeight := 2 } 3).got.map
      fun d => d.block.height.toNat) = [1, 2] := by
  have horder := delivered_in_order soloWeb { startHeight := 1, endHeight := 2 } 3
    (.inl ⟨by decide, by decide⟩)
  refine (horder.2.2.2.2 soloWeb_declares).trans ?_
  decide +kernel

/-- **One block under two heights**: fetched for heights 3 and 4, it is returned as height 9 twice,
past the end of the range. -/
theorem heights_out_of_order :
    ((session strayWeb { startHeight := 3, endHeight := 4 } 2).got.map
      fun d => (d.asked, d.block.height)) = [(3, 9), (4, 9)] := by
  decide +kernel

end MemServe.Httpsource
