import MemServe.Collect
import MemServe.Drain

/-!
The mock source: a deterministic chain for tests and benchmarks.

Each block spends a share of the outputs that are still live and makes one output in each of its
transactions. The chain it hands out is one that ingest accepts as it is: blocks check out, heights
follow each other, every input refers back and no output is spent twice.
-/

namespace MemServe

namespace Teranode

structure MockConfig where
  blocks : ℤ := 0
  subtreesPer : ℤ := 0
  txsPerSubtree : ℤ := 0
  spendFraction : ℤ := 0
  startHeight : UInt32 := 0
  seed : UInt64 := 0
  deriving DecidableEq

structure MockSource where
  cfg : MockConfig
  height : UInt32
  made : ℤ := 0
  rng : UInt64
  live : List Outpoint := []
  deriving DecidableEq

/-- A count as `NewMock` takes it: at least one. -/
def atLeastOne (n : ℤ) : ℤ := if n ≤ 0 then 1 else n

def newMock (cfg : MockConfig) : MockSource :=
  let seed := if cfg.seed = 0 then 0x9e3779b97f4a7c15 else cfg.seed
  { cfg := { cfg with
      blocks := atLeastOne cfg.blocks
      subtreesPer := atLeastOne cfg.subtreesPer
      txsPerSubtree := atLeastOne cfg.txsPerSubtree }
    height := cfg.startHeight
    rng := seed }

/-- The next number and the state after it. -/
def next64 (rng : UInt64) : UInt64 × UInt64 :=
  let rng := rng + 0x9e3779b97f4a7c15
  let z := (rng ^^^ (rng >>> 30)) * 0xbf58476d1ce4e5b9
  let z := (z ^^^ (z >>> 27)) * 0x94d049bb133111eb
  (z ^^^ (z >>> 31), rng)

/-- What is hashed to the id of a transaction: its place, and a number. -/
def txidBuf (blk : UInt32) (sub idx : ℕ) (r : UInt64) : Bytes :=
  beBytes 4 blk.toNat ++ beBytes 4 sub ++ beBytes 4 idx ++ beBytes 8 r.toNat

/-- What the loops of `Next` change: the generator, the outputs left to spend, and the live ones. -/
structure Mint where
  rng : UInt64
  toSpend : List Outpoint
  live : List Outpoint
  deriving DecidableEq

/-- One transaction: it spends the next output, if one is left, and makes one. -/
def mintTx (h : UInt32) (s i : ℕ) (m : Mint) : Tx × Mint :=
  let r := next64 m.rng
  let id := Commitment.doubleSHA256 (txidBuf h s i r.1)
  let v := next64 r.2
  (⟨id, m.toSpend.take 1, [⟨1000 + v.1 % 9000, Commitment.doubleSHA256 id.1⟩]⟩,
    ⟨v.2, m.toSpend.drop 1, m.live ++ [⟨id, 0⟩]⟩)

/-- The transactions of a block, subtree by subtree. -/
def mintSubtrees (cfg : MockConfig) (h : UInt32) (m : Mint) : List (List Tx) × Mint :=
  collect (fun s => collect (mintTx h s) (List.range cfg.txsPerSubtree.toNat))
    (List.range cfg.subtreesPer.toNat) m

namespace MockSource

def tipHeight (m : MockSource) : UInt32 := if m.made = 0 then m.cfg.startHeight else m.height - 1

/-- How many of the live outputs the next block is to spend. -/
def spendCount (m : MockSource) : ℕ :=
  if 0 < m.cfg.spendFraction ∧ 0 < m.live.length then
    m.live.length / m.cfg.spendFraction.toNat else 0

/-- The subtrees of the next block, and what its loops leave. -/
def mint (m : MockSource) : List (List Tx) × Mint :=
  mintSubtrees m.cfg m.height ⟨m.rng, m.live.take m.spendCount, m.live.drop m.spendCount⟩

def next (m : MockSource) : Except Empty (Option Block) × MockSource :=
  if m.cfg.blocks ≤ m.made then (.ok none, m)
  else
    (.ok (some (sealBlock m.height m.mint.1)),
      { m with
        height := m.height + 1, made := m.made + 1, rng := m.mint.2.rng, live := m.mint.2.live })

end MockSource

/-- Where a transaction stands in the chain. -/
structure Place where
  height : UInt32
  sub : ℕ
  idx : ℕ
  deriving DecidableEq

def blockPlaces (cfg : MockConfig) (h : UInt32) : List Place :=
  (List.range cfg.subtreesPer.toNat).flatMap fun s =>
    (List.range cfg.txsPerSubtree.toNat).map (Place.mk h s)

/-- The generator's state after `n` numbers. -/
def rngAt (seed : UInt64) (n : ℕ) : UInt64 := seed + UInt64.ofNat n * 0x9e3779b97f4a7c15

/-- The id of the transaction that is the `n`-th to be made. -/
def idAt (seed : UInt64) (p : Place) (n : ℕ) : Hash :=
  Commitment.doubleSHA256 (txidBuf p.height p.sub p.idx (next64 (rngAt seed (2 * n))).1)

/-- The output of the transaction that is the `n`-th to be made. -/
def outAt (seed : UInt64) (p : Place) (n : ℕ) : TxOut :=
  ⟨1000 + (next64 (rngAt seed (2 * n + 1))).1 % 9000, Commitment.doubleSHA256 (idAt seed p n).1⟩

def onlyOutput (tx : Tx) : Outpoint := ⟨tx.txID, 0⟩

/-- What holds between the transactions `txs` made at `ps` and the state the loops are in: ids and
outputs are those of their places, inputs refer back, and outputs are spent in the order they were
made. -/
structure Minted (seed : UInt64) (ps : List Place) (txs : List Tx) (m : Mint) : Prop where
  rng : m.rng = rngAt seed (2 * ps.length)
  made : (txs.map fun tx => (tx.txID, tx.outputs)) = ps.zipIdx.map fun q =>
    (idAt seed q.1 q.2, [outAt seed q.1 q.2])
  back : ∀ i, (h : i < txs.length) → ∀ op ∈ txs[i].inputs, op ∈ (txs.take i).map onlyOutput
  queue : txs.flatMap Tx.inputs ++ (m.toSpend ++ m.live) = txs.map onlyOutput

lemma next64_snd (seed : UInt64) (n : ℕ) : (next64 (rngAt seed n)).2 = rngAt seed (n + 1) := by
  simp only [next64, rngAt, UInt64.ofNat_add, UInt64.add_mul, UInt64.add_assoc]
  rfl

lemma minted_nil (seed : UInt64) : Minted seed [] [] ⟨seed, [], []⟩ where
  rng := by simp [rngAt]
  made := rfl
  back := by simp
  queue := rfl

namespace Minted

variable {seed : UInt64} {ps : List Place} {txs : List Tx} {m : Mint}

lemma length_eq (h : Minted seed ps txs m) : txs.length = ps.length := by
  simpa using congrArg List.length h.made

lemma mintTx (h : Minted seed ps txs m) (p : Place) :
    Minted seed (ps ++ [p]) (txs ++ [(mintTx p.height p.sub p.idx m).1])
      (Teranode.mintTx p.height p.sub p.idx m).2 where
  rng := by
    rw [List.length_append, List.length_singleton, Nat.mul_add, Teranode.mintTx]
    dsimp only
    rw [h.rng, next64_snd, next64_snd]
  made := by
    rw [List.map_append, List.zipIdx_append, List.map_append, h.made, Teranode.mintTx, h.rng]
    simp [idAt, outAt, next64_snd]
  back := by
    intro i hi op hop
    rw [List.length_append, List.length_singleton] at hi
    rcases Nat.lt_succ_iff_lt_or_eq.mp hi with hi | rfl
    · rw [List.take_append_of_le_length hi.le]
      exact h.back i hi op (by rwa [List.getElem_append_left hi] at hop)
    · -- the input is the first of the outputs to be spent, all of them made before
      rw [List.getElem_concat_length rfl] at hop
      have hmem : op ∈ m.toSpend := List.mem_of_mem_take hop
      rw [List.take_left, ← h.queue]
      exact List.mem_append_right _ (List.mem_append_left _ hmem)
  queue := by
    have htake : m.toSpend.take 1 ++ m.toSpend.drop 1 = m.toSpend := List.take_append_drop ..
    rw [List.flatMap_append, List.map_append, ← h.queue]
    simp only [Teranode.mintTx, List.flatMap_singleton, List.map_singleton, onlyOutput,
      List.append_assoc]
    rw [← List.append_assoc (m.toSpend.take 1), htake]

end Minted

lemma mintSubtrees_eq (cfg : MockConfig) (h : UInt32) (m : Mint) :
    collect (fun p : Place => mintTx p.height p.sub p.idx) (blockPlaces cfg h) m =
      ((mintSubtrees cfg h m).1.flatten, (mintSubtrees cfg h m).2) := by
  have hinner : ∀ s, collect (fun p : Place => mintTx p.height p.sub p.idx)
      ((List.range cfg.txsPerSubtree.toNat).map (Place.mk h s)) =
        collect (mintTx h s) (List.range cfg.txsPerSubtree.toNat) :=
    fun s => funext (collect_map _ _)
  unfold blockPlaces mintSubtrees
  rw [collect_collect]
  simp only [hinner]

lemma collect_mintTx (l : List Place) (m : Mint) :
    (collect (fun p : Place => mintTx p.height p.sub p.idx) l m).2.toSpend =
      m.toSpend.drop l.length ∧
      (collect (fun p : Place => mintTx p.height p.sub p.idx) l m).2.live.length =
        m.live.length + l.length := by
  induction l generalizing m with
  | nil => exact ⟨rfl, rfl⟩
  | cons p l ih =>
    obtain ⟨h1, h2⟩ := ih (mintTx p.height p.sub p.idx m).2
    rw [collect_cons, h1, h2]
    simp only [mintTx, List.drop_drop, List.length_append, List.length_cons, List.length_nil]
    exact ⟨by rw [Nat.add_comm], by omega⟩

lemma length_blockPlaces (cfg : MockConfig) (h : UInt32) :
    (blockPlaces cfg h).length = cfg.subtreesPer.toNat * cfg.txsPerSubtree.toNat := by
  simp [blockPlaces, List.length_flatMap]

lemma sealBlock_txs (h : UInt32) (subs : List (List Tx)) :
    (sealBlock h subs).txs = subs.flatten := by
  simp only [Block.txs, sealBlock, List.flatMap_map, List.flatMap_id']

namespace MockSource

variable {seed : UInt64} {ps : List Place} {txs : List Tx} {m : MockSource}

/-- There are never more live outputs than `SpendFraction` blocks make. -/
def Capped (m : MockSource) : Prop :=
  0 < m.cfg.spendFraction →
    m.live.length ≤ m.cfg.spendFraction.toNat *
      (m.cfg.subtreesPer.toNat * m.cfg.txsPerSubtree.toNat)

lemma drain_le {n f c : ℕ} (hf : 0 < f) (h : n ≤ f * c) : n / f ≤ c ∧ n - n / f + c ≤ f * c := by
  have hq : n / f ≤ c := Nat.div_le_of_le_mul h
  refine ⟨hq, ?_⟩
  have hdiv := Nat.div_add_mod n f
  have hmod := Nat.mod_lt n hf
  obtain ⟨d, rfl⟩ := Nat.exists_eq_add_of_le hq
  generalize n / f = q at *
  generalize n % f = r at *
  obtain ⟨f, rfl⟩ := Nat.exists_eq_succ_of_ne_zero hf.ne'
  cases d with
  | zero => grind
  | succ d => grind

lemma spendCount_le (h : m.Capped) :
    m.spendCount ≤ m.live.length ∧ m.spendCount ≤ m.cfg.subtreesPer.toNat *
      m.cfg.txsPerSubtree.toNat ∧
      (0 < m.cfg.spendFraction →
        m.live.length - m.spendCount + m.cfg.subtreesPer.toNat * m.cfg.txsPerSubtree.toNat ≤
          m.cfg.spendFraction.toNat * (m.cfg.subtreesPer.toNat * m.cfg.txsPerSubtree.toNat)) := by
  unfold spendCount
  split_ifs with hc
  · obtain ⟨h1, h2⟩ := drain_le (Int.pos_iff_toNat_pos.mp hc.1) (h hc.1)
    exact ⟨Nat.div_le_self _ _, h1, fun _ => h2⟩
  · refine ⟨Nat.zero_le _, Nat.zero_le _, fun hf => ?_⟩
    have hlive : m.live.length = 0 := by omega
    rw [hlive, Nat.sub_zero, Nat.zero_add]
    exact Nat.le_mul_of_pos_left _ (Int.pos_iff_toNat_pos.mp hf)

/-- The state of a source between two blocks, as its loops have it. -/
def between (m : MockSource) : Mint := ⟨m.rng, [], m.live⟩

lemma minted_mint (h : Minted seed ps txs m.between) (hcap : m.Capped) :
    Minted seed (ps ++ blockPlaces m.cfg m.height) (txs ++ m.mint.1.flatten)
      ⟨m.mint.2.rng, [], m.mint.2.live⟩ ∧
      m.mint.2.live.length =
        m.live.length - m.spendCount + m.cfg.subtreesPer.toNat * m.cfg.txsPerSubtree.toNat := by
  obtain ⟨hle, hcount, -⟩ := spendCount_le hcap
  have hstart : Minted seed ps txs ⟨m.rng, m.live.take m.spendCount, m.live.drop m.spendCount⟩ :=
    ⟨h.rng, h.made, h.back, by rw [List.take_append_drop]; exact h.queue⟩
  have hend := collect_invariant (I := Minted seed) (fun p _ _ _ h => h.mintTx p)
    (blockPlaces m.cfg m.height) hstart
  obtain ⟨hspend, hlive⟩ := collect_mintTx (blockPlaces m.cfg m.height)
    ⟨m.rng, m.live.take m.spendCount, m.live.drop m.spendCount⟩
  rw [mintSubtrees_eq] at hend hspend hlive
  change Minted seed _ (txs ++ m.mint.1.flatten) m.mint.2 at hend
  change m.mint.2.toSpend = _ at hspend
  change m.mint.2.live.length = _ at hlive
  rw [length_blockPlaces] at hspend hlive
  have hnone : m.mint.2.toSpend = [] := by
    rw [hspend, List.drop_eq_nil_iff, List.length_take]
    omega
  refine ⟨⟨hend.rng, hend.made, hend.back, ?_⟩, by rw [hlive, List.length_drop]⟩
  rw [← hend.queue, hnone]

/-- The source after it made a block. -/
def advance (m : MockSource) : MockSource :=
  { m with height := m.height + 1, made := m.made + 1, rng := m.mint.2.rng, live := m.mint.2.live }

lemma minted_advance (h : Minted seed ps txs m.between) (hcap : m.Capped) :
    Minted seed (ps ++ blockPlaces m.cfg m.height) (txs ++ (sealBlock m.height m.mint.1).txs)
      m.advance.between ∧
      m.advance.Capped := by
  obtain ⟨hminted, hlive⟩ := minted_mint h hcap
  rw [sealBlock_txs]
  refine ⟨hminted, fun hf => ?_⟩
  change m.mint.2.live.length ≤ _
  rw [hlive]
  exact (spendCount_le hcap).2.2 hf

/-- Blocks as the source seals them: `S` subtrees of `T` transactions each. -/
def Shaped (cfg : MockConfig) (b : Block) : Prop :=
  ∃ subs, b = sealBlock b.height subs ∧ subs.length = cfg.subtreesPer.toNat ∧
    ∀ txs ∈ subs, txs.length = cfg.txsPerSubtree.toNat

lemma shaped_mint (m : MockSource) : Shaped m.cfg (sealBlock m.height m.mint.1) := by
  refine ⟨m.mint.1, rfl, ?_, ?_⟩
  · rw [mint, mintSubtrees, length_collect, List.length_range]
  · exact forall_mem_collect (fun s m => by rw [length_collect, List.length_range]) _ _

/-- **The blocks of a source**, from any state between two blocks. -/
lemma delivers (k : ℕ) (hk : m.cfg.blocks = m.made + k) (h : Minted seed ps txs m.between)
    (hcap : m.Capped) :
    ∃ bs last, Ingest.Delivers next m bs last ∧
      bs.map Block.height = (List.range k).map (fun j => m.height + UInt32.ofNat j) ∧
        (∀ b ∈ bs, Shaped m.cfg b) ∧
      Minted seed (ps ++ (bs.map Block.height).flatMap (blockPlaces m.cfg))
        (txs ++ bs.flatMap Block.txs) last.between ∧
      last.made = m.made + k ∧ last.height = m.height + UInt32.ofNat k := by
  induction k generalizing m ps txs with
  | zero =>
    refine ⟨[], m, .done ?_, rfl, by simp, by simpa using h, by simp, by simp⟩
    rw [next, if_pos (by omega)]
  | succ k ih =>
    obtain ⟨hminted, hcap'⟩ := minted_advance h hcap
    obtain ⟨bs, last, hdel, hheights, hshape, hlast, hmade, hheight⟩ := ih (m := m.advance)
      (by change m.cfg.blocks = m.made + 1 + k; omega) hminted hcap'
    refine ⟨sealBlock m.height m.mint.1 :: bs, last, .block ?_ hdel, ?_, ?_, ?_, ?_, ?_⟩
    · rw [next, if_neg (by omega)]
      rfl
    · rw [List.map_cons, hheights, List.range_succ_eq_map, List.map_cons, List.map_map]
      refine congrArg₂ _ (by simp [sealBlock]) (List.map_congr_left fun j _ => ?_)
      change m.height + 1 + UInt32.ofNat j = m.height + UInt32.ofNat (j + 1)
      rw [UInt32.ofNat_add, UInt32.add_assoc, UInt32.add_comm 1]
      rfl
    · intro b hb
      rcases List.mem_cons.mp hb with rfl | hb
      · exact shaped_mint m
      · exact hshape b hb
    · rw [List.append_assoc, List.append_assoc] at hlast
      exact hlast
    · rw [hmade]
      change m.made + 1 + k = m.made + (k + 1 : ℕ)
      omega
    · rw [hheight]
      change m.height + 1 + UInt32.ofNat k = m.height + UInt32.ofNat (k + 1)
      rw [UInt32.ofNat_add, UInt32.add_assoc, UInt32.add_comm 1]
      rfl

end MockSource

/-! ### The chain is valid -/

lemma output?_onlyOutput {tx : Tx} (h : tx.outputs.length = 1) :
    (tx.output? (onlyOutput tx)).isSome :=
  output?_isSome.mpr ⟨0, by omega, rfl⟩

namespace Minted

variable {seed : UInt64} {ps : List Place} {txs : List Tx} {m : Mint}

lemma ids (h : Minted seed ps txs m) :
    txs.map Tx.txID = ps.zipIdx.map fun q => idAt seed q.1 q.2 := by
  have := congrArg (List.map Prod.fst) h.made
  rwa [List.map_map, List.map_map] at this

lemma one_output (h : Minted seed ps txs m) {tx : Tx} (htx : tx ∈ txs) : tx.outputs.length = 1 := by
  have hmem : (tx.txID, tx.outputs) ∈ txs.map fun tx => (tx.txID, tx.outputs) :=
    List.mem_map_of_mem htx
  rw [h.made] at hmem
  obtain ⟨q, -, hq⟩ := List.mem_map.mp hmem
  rw [← (Prod.mk.inj hq).2]
  rfl

/-- With distinct ids, no output is made twice, so none is spent twice. -/
lemma outputs_nodup (hids : (txs.map Tx.txID).Nodup) : (txs.map onlyOutput).Nodup := by
  have : (txs.map onlyOutput).map Outpoint.txID = txs.map Tx.txID := by
    rw [List.map_map]
    rfl
  exact List.Nodup.of_map _ (this ▸ hids)

lemma length_outpoints (h : Minted seed ps txs m) :
    (txs.flatMap Ingest.outpoints).length = txs.length := by
  rw [List.length_flatMap, List.map_congr_left (g := fun _ => 1)]
  · simp
  · intro tx htx
    rw [Ingest.outpoints, List.length_map, List.length_zipIdx, h.one_output htx]

lemma validTxs (h : Minted seed ps txs m) (hids : (txs.map Tx.txID).Nodup) : ValidTxs txs where
  distinct := hids
  inputs i hi op hop := by
    obtain ⟨t, ht, rfl⟩ := List.mem_map.mp (h.back i hi op hop)
    have hone := h.one_output (List.mem_of_mem_take ht)
    exact .inl ⟨t, ht, output?_isSome_iff.mp (output?_onlyOutput hone)⟩
  spentOnce op hop _ := by
    have hnd := outputs_nodup hids
    rw [← h.queue] at hnd
    exact List.count_eq_one_of_mem hnd.of_append_left hop

lemma mem_queue_iff (h : Minted seed ps txs m) (hids : (txs.map Tx.txID).Nodup) {op : Outpoint} :
    op ∈ m.toSpend ++ m.live ↔ op ∈ txs.map onlyOutput ∧ op ∉ txs.flatMap Tx.inputs := by
  have hnd := outputs_nodup hids
  rw [← h.queue] at hnd
  rw [← h.queue]
  constructor
  · exact fun hop =>
      ⟨List.mem_append_right _ hop, fun hin => (List.nodup_append.mp hnd).2.2 op hin op hop rfl⟩
  · exact fun ⟨hop, hnot⟩ => (List.mem_append.mp hop).resolve_left hnot

end Minted

namespace MockSource

/-- The places of all transactions of the chain. -/
def places (m : MockSource) : List Place :=
  ((List.range m.cfg.blocks.toNat).map fun j => m.height + UInt32.ofNat j).flatMap
    (blockPlaces m.cfg)

/-- The strings that are hashed to the ids of the transactions. -/
def hashed (m : MockSource) : List Bytes :=
  m.places.zipIdx.map fun q => txidBuf q.1.height q.1.sub q.1.idx (next64 (rngAt m.rng (2 * q.2))).1

def ids (m : MockSource) : List Hash := m.hashed.map Commitment.doubleSHA256

lemma ids_eq (m : MockSource) : m.ids = m.places.zipIdx.map fun q => idAt m.rng q.1 q.2 := by
  unfold ids hashed
  rw [List.map_map]
  rfl

lemma txidBuf_inj {p q : Place} {r r' : UInt64} (hp : p.sub < 2 ^ 32 ∧ p.idx < 2 ^ 32)
    (hq : q.sub < 2 ^ 32 ∧ q.idx < 2 ^ 32)
    (h : txidBuf p.height p.sub p.idx r = txidBuf q.height q.sub q.idx r') : p = q := by
  unfold txidBuf at h
  obtain ⟨h, -⟩ := List.append_inj h (by simp)
  obtain ⟨h, hidx⟩ := List.append_inj h (by simp)
  obtain ⟨hheight, hsub⟩ := List.append_inj h (by simp)
  have hsub' := eq_of_mod_pow (by simpa using hp.1) (by simpa using hq.1) (beBytes_inj hsub)
  have hidx' := eq_of_mod_pow (by simpa using hp.2) (by simpa using hq.2) (beBytes_inj hidx)
  cases p
  cases q
  exact Place.mk.injEq .. ▸ ⟨beBytes_uint32_inj hheight, hsub', hidx'⟩

lemma mem_blockPlaces {cfg : MockConfig} {h : UInt32} {p : Place} :
    p ∈ blockPlaces cfg h ↔ p.height = h ∧ p.sub < cfg.subtreesPer.toNat ∧
      p.idx < cfg.txsPerSubtree.toNat := by
  simp only [blockPlaces, List.mem_flatMap, List.mem_map, List.mem_range]
  constructor
  · rintro ⟨s, hs, i, hi, rfl⟩
    exact ⟨rfl, hs, hi⟩
  · rintro ⟨rfl, hs, hi⟩
    exact ⟨p.sub, hs, p.idx, hi, rfl⟩

lemma blockPlaces_nodup (cfg : MockConfig) (h : UInt32) : (blockPlaces cfg h).Nodup := by
  refine List.nodup_flatMap.mpr
    ⟨fun s _ => List.nodup_range.map fun i j hij => (Place.mk.inj hij).2.2, ?_⟩
  refine List.nodup_range.imp fun hne p hp hq => ?_
  obtain ⟨i, -, rfl⟩ := List.mem_map.mp hp
  obtain ⟨j, -, hj⟩ := List.mem_map.mp hq
  exact hne (Place.mk.inj hj).2.1.symm

variable {m : MockSource}

lemma heights_nodup (hh : m.height.toNat + m.cfg.blocks.toNat ≤ 2 ^ 32) :
    ((List.range m.cfg.blocks.toNat).map fun j => m.height + UInt32.ofNat j).Pairwise (· < ·) := by
  rw [List.pairwise_map]
  refine List.Pairwise.imp_of_mem (fun {i j} hi hj hij => ?_) List.pairwise_lt_range
  rw [List.mem_range] at hi hj
  rw [UInt32.lt_iff_toNat_lt, UInt32.toNat_add, UInt32.toNat_add,
    UInt32.toNat_ofNat_of_lt' (by change i < 2 ^ 32; omega),
    UInt32.toNat_ofNat_of_lt' (by change j < 2 ^ 32; omega), Nat.mod_eq_of_lt (by omega),
    Nat.mod_eq_of_lt (by omega)]
  omega

/-- **The strings that are hashed are distinct**, so ids can be equal only if the hash collides on
them. -/
lemma hashed_nodup (hh : m.height.toNat + m.cfg.blocks.toNat ≤ 2 ^ 32)
    (hs : m.cfg.subtreesPer ≤ 2 ^ 32)
    (ht : m.cfg.txsPerSubtree ≤ 2 ^ 32) : m.hashed.Nodup := by
  have hplaces : m.places.Nodup := by
    refine List.nodup_flatMap.mpr ⟨fun h _ => blockPlaces_nodup m.cfg h, ?_⟩
    refine (heights_nodup hh).imp fun {a b} hab p hp hq => ?_
    rw [← (mem_blockPlaces.mp hp).1, ← (mem_blockPlaces.mp hq).1] at hab
    exact UInt32.lt_irrefl _ hab
  have hbound : ∀ q ∈ m.places.zipIdx, q.1.sub < 2 ^ 32 ∧ q.1.idx < 2 ^ 32 := by
    intro q hq
    obtain ⟨h, -, hp⟩ := List.mem_flatMap.mp (List.fst_mem_of_mem_zipIdx hq)
    have := mem_blockPlaces.mp hp
    omega
  have hfst : (m.places.zipIdx.map Prod.fst).Nodup := by
    rw [List.zipIdx_map_fst]
    exact hplaces
  exact List.Nodup.map_on (fun a ha b hb hab =>
    List.inj_on_of_nodup_map hfst ha hb (txidBuf_inj (hbound a ha) (hbound b hb) hab))
      (List.Nodup.of_map _ hfst)

lemma newMock_pos (cfg : MockConfig) :
    0 < (newMock cfg).cfg.blocks ∧ 0 < (newMock cfg).cfg.subtreesPer ∧
      0 < (newMock cfg).cfg.txsPerSubtree := by
  simp only [newMock, atLeastOne]
  omega

/-- The blocks have subtrees and transactions, so they pass validation. -/
lemma Shaped.validateBlock {cfg : MockConfig} (hs : 0 < cfg.subtreesPer)
    (ht : 0 < cfg.txsPerSubtree) {b : Block}
    (h : Shaped cfg b) : Ingest.validateBlock b = true := by
  obtain ⟨subs, hb, hlen, hsub⟩ := h
  rw [hb]
  refine Ingest.validateBlock_sealBlock (fun hnil => ?_) fun txs htxs hnil => ?_
  · rw [hnil, List.length_nil] at hlen
    omega
  · have := hsub txs htxs
    rw [hnil, List.length_nil] at this
    omega

lemma delivers_newMock (cfg : MockConfig) :
    ∃ bs last, Ingest.Delivers next (newMock cfg) bs last ∧
      bs.map Block.height =
        (List.range (newMock cfg).cfg.blocks.toNat).map
          (fun j => cfg.startHeight + UInt32.ofNat j) ∧
      (∀ b ∈ bs, Shaped (newMock cfg).cfg b) ∧
      Minted (newMock cfg).rng (newMock cfg).places (bs.flatMap Block.txs) last.between ∧
      last.made = (newMock cfg).cfg.blocks ∧
      last.height = cfg.startHeight + UInt32.ofNat (newMock cfg).cfg.blocks.toNat := by
  have hpos := newMock_pos cfg
  obtain ⟨bs, last, hdel, hheights, hshape, hminted, hmade, hheight⟩ := delivers (m := newMock cfg)
    (newMock cfg).cfg.blocks.toNat (by change _ = (0 : ℤ) + _; omega) (minted_nil (newMock cfg).rng)
    (fun _ => Nat.zero_le _)
  refine ⟨bs, last, hdel, hheights, hshape, ?_,
    hmade.trans (by change (0 : ℤ) + _ = _; omega), hheight⟩
  rw [hheights] at hminted
  exact hminted

end MockSource

/-- **The chain of the mock source.** It has as many blocks as asked for, of consecutive heights;
each passes validation. The ids and outputs of its transactions are given by their places, the ids
as hashes of distinct strings, and outputs are spent in the order they are made: no output is lost.
With distinct ids the transactions are valid. -/
theorem mock_chain (cfg : MockConfig)
    (hh : cfg.startHeight.toNat + (newMock cfg).cfg.blocks.toNat ≤ 2 ^ 32)
    (hs : cfg.subtreesPer ≤ 2 ^ 32) (ht : cfg.txsPerSubtree ≤ 2 ^ 32) :
    ∃ bs last, Ingest.Delivers MockSource.next (newMock cfg) bs last ∧
      bs.map (fun b => b.height.toNat) = List.range' cfg.startHeight.toNat
        (newMock cfg).cfg.blocks.toNat ∧
      (∀ b ∈ bs, Ingest.validateBlock b = true ∧ b.Parallel ∧
        MockSource.Shaped (newMock cfg).cfg b) ∧
      ((bs.flatMap Block.txs).map fun tx => (tx.txID, tx.outputs)) =
        (newMock cfg).places.zipIdx.map
          (fun q => (idAt (newMock cfg).rng q.1 q.2, [outAt (newMock cfg).rng q.1 q.2])) ∧
      (bs.flatMap Block.txs).map Tx.txID = (newMock cfg).hashed.map Commitment.doubleSHA256 ∧
      (newMock cfg).hashed.Nodup ∧
      (bs.flatMap Block.txs).flatMap Tx.inputs ++ last.live =
        (bs.flatMap Block.txs).map onlyOutput ∧
      (((bs.flatMap Block.txs).map Tx.txID).Nodup → ValidTxs (bs.flatMap Block.txs)) := by
  obtain ⟨bs, last, hdel, hheights, hshape, hminted, -, -⟩ := MockSource.delivers_newMock cfg
  obtain ⟨-, hspos, htpos⟩ := MockSource.newMock_pos cfg
  refine ⟨bs, last, hdel, ?_,
    fun b hb => ⟨(hshape b hb).validateBlock hspos htpos, ?_, hshape b hb⟩, hminted.made,
    hminted.ids.trans (MockSource.ids_eq _).symm, MockSource.hashed_nodup hh ?_ ?_, hminted.queue,
      hminted.validTxs⟩
  · have := congrArg (List.map UInt32.toNat) hheights
    rw [List.map_map, List.map_map] at this
    refine this.trans ?_
    rw [List.range'_eq_map_range]
    refine List.map_congr_left fun j hj => ?_
    rw [List.mem_range] at hj
    change (cfg.startHeight + UInt32.ofNat j).toNat = _
    rw [UInt32.toNat_add, UInt32.toNat_ofNat_of_lt' (by change j < 2 ^ 32; omega),
      Nat.mod_eq_of_lt (by omega)]
  · obtain ⟨subs, hb, -⟩ := hshape b hb
    rw [hb]
    exact sealBlock_parallel b.height subs
  · simp only [newMock, atLeastOne]
    omega
  · simp only [newMock, atLeastOne]
    omega

/-- Three blocks of one transaction each. -/
theorem mock_chain_three :
    ∃ bs last,
      Ingest.Delivers MockSource.next
      (newMock { blocks := 3, spendFraction := 2, startHeight := 7 }) bs last ∧
      bs.map (fun b => b.height.toNat) = [7, 8, 9] ∧ (bs.flatMap Block.txs).length = 3 ∧
      (bs.flatMap Block.txs).flatMap Tx.inputs ++ last.live =
        (bs.flatMap Block.txs).map onlyOutput := by
  obtain ⟨bs, last, hdel, hheights, -, hmade, -, -, hqueue, -⟩ :=
    mock_chain { blocks := 3, spendFraction := 2, startHeight := 7 } (by decide) (by decide)
      (by decide)
  refine ⟨bs, last, hdel, hheights, ?_, hqueue⟩
  have hlen := congrArg List.length hmade
  rw [List.length_map, List.length_map, List.length_zipIdx] at hlen
  exact hlen

end Teranode

open Teranode Ingest

lemma record_unspent_iff {c : List (UInt32 × Tx)} (hv : ValidTxs (c.map Prod.snd)) {e : ℕ}
    {op : Outpoint} :
    (record c e op).any (fun u => !u.spent) = true ↔
      (∃ t ∈ c.map Prod.snd, (t.output? op).isSome) ∧ op ∉ (c.map Prod.snd).flatMap Tx.inputs := by
  constructor
  · intro h
    unfold record at h
    cases ho : c.findSome? fun p => p.2.output? op with
    | none => simp [ho] at h
    | some o =>
      obtain ⟨p, hp, hpo⟩ := List.exists_of_findSome?_eq_some ho
      refine ⟨⟨p.2, List.mem_map_of_mem hp, by rw [hpo]; rfl⟩, fun hin => ?_⟩
      obtain ⟨t, ht, hop⟩ := List.mem_flatMap.mp hin
      obtain ⟨q, hq, rfl⟩ := List.mem_map.mp ht
      cases hf : c.find? fun p => op ∈ p.2.inputs with
      | none => exact absurd hop (by simpa using List.find?_eq_none.mp hf q hq)
      | some r =>
        rw [ho, hf] at h
        dsimp only at h
        split_ifs at h
        · simp at h
        · simp [UTXO.spend] at h
  · rintro ⟨⟨t, ht, hout⟩, hnot⟩
    obtain ⟨o, ho⟩ := Option.isSome_iff_exists.mp hout
    rw [record_of_unspent hv ht ho fun t' ht' hop => hnot (List.mem_flatMap.mpr ⟨t', ht', hop⟩)]
    rfl

/-- The answer is `unspent` exactly for an unspent record. -/
lemma Flat.answer_unspent_iff (x : Option UTXO) (ix : Option TxIndex) :
    (Flat.answer x ix).status = .unspent ↔ x.any (fun u => !u.spent) = true := by
  cases x with
  | none =>
    refine iff_of_false ?_ (by simp)
    cases ix with
    | none => simp [Flat.answer, Flat.missing]
    | some ix =>
      simp only [Flat.answer, Flat.missing]
      split_ifs <;> simp
  | some u => cases hu : u.spent <;> simp [Flat.answer, hu]

lemma utxo_unspent_iff (s : Mem.Store) (op : Outpoint) :
    (∃ r, ((Api.utxo op).run.run s).1 = .ok r ∧ r.status = .unspent) ↔
      ((s.flatten.utxo op).any fun u => !u.spent) = true := by
  rw [utxo_mem, ← Flat.answer_unspent_iff _ (s.flatten.txindex op.txID)]
  constructor
  · rintro ⟨r, hr, hstatus⟩
    cases hr
    exact hstatus
  · exact fun h => ⟨_, rfl, h⟩

lemma feed_minted {seed : UInt64} {ps : List Place} {bs : List Block} {m : Mint} (cfg : Config)
    (hk : cfg.k = 0) (policy : Prune.Policy) (hacc : ∀ b ∈ bs, validateBlock b = true)
    (hinc : bs.Pairwise fun a b => a.height < b.height)
    (h : Minted seed ps (bs.flatMap Block.txs) m)
    (hids : ((bs.flatMap Block.txs).map Tx.txID).Nodup) (op : Outpoint) :
    (((feed (fresh cfg policy) bs).2.flatten.utxo op).any fun u => !u.spent) = true ↔
      op ∈ m.toSpend ++ m.live := by
  have hv := h.validTxs hids
  have hacc' : ∀ b ∈ bs, (cfg.skipValidate || validateBlock b) = true :=
    fun b hb => by simp [hacc b hb]
  have hing : ingested cfg bs = bs := List.filter_eq_self.mpr hacc'
  have hflat : (feed (fresh cfg policy) bs).2.flatten = ((Node.start cfg policy).feed bs).flat := by
    conv_rhs => rw [← hing]
    exact congrArg Node.flat (Node.of_feed_fresh cfg policy bs).2
  rw [hflat, feed_utxo policy hk hacc' hinc hv,
    record_unspent_iff (by rw [ledger_map_snd]; exact hv), ledger_map_snd, h.mem_queue_iff hids]
  refine and_congr_left fun _ => ?_
  constructor
  · rintro ⟨t, ht, hout⟩
    obtain ⟨v, hv, rfl⟩ := output?_isSome.mp hout
    obtain rfl : v = 0 := by
      have := h.one_output ht
      omega
    exact List.mem_map_of_mem ht
  · intro hop
    obtain ⟨t, ht, rfl⟩ := List.mem_map.mp hop
    exact ⟨t, ht, output?_onlyOutput (h.one_output ht)⟩

lemma feed_live {seed : UInt64} {ps : List Place} {bs : List Block} {m : Mint} (cfg : Config)
    (hk : cfg.k = 0) (policy : Prune.Policy) (hacc : ∀ b ∈ bs, validateBlock b = true)
    (hinc : bs.Pairwise fun a b => a.height < b.height)
    (h : Minted seed ps (bs.flatMap Block.txs) m)
    (hids : ((bs.flatMap Block.txs).map Tx.txID).Nodup) :
    (feed (fresh cfg policy) bs).2.stats.utxoLive = (m.toSpend ++ m.live).length := by
  have hcounted :=
    Mem.Store.stats_counted (feed_home (p := fresh cfg policy) Mem.Store.new_home bs)
  have hnd := Minted.outputs_nodup hids
  rw [← h.queue] at hnd
  rw [← hcounted.live_eq]
  exact Tally.tally_eq_length hnd.of_append_right fun op =>
    (feed_minted cfg hk policy hacc hinc h hids op).symm

lemma length_places (m : MockSource) :
    m.places.length = m.cfg.blocks.toNat *
      (m.cfg.subtreesPer.toNat * m.cfg.txsPerSubtree.toNat) := by
  simp [MockSource.places, List.length_flatMap, length_blockPlaces, Function.comp_def]

/-- **A node that drains the mock source agrees with it.** The run ends without an error, counts
every block and transaction, finds every output that is spent, and says `unspent` exactly of the
outputs that the source has as live. -/
theorem mock_run (mc : MockConfig)
    (hh : mc.startHeight.toNat + (newMock mc).cfg.blocks.toNat ≤ 2 ^ 32)
    (hids : (newMock mc).ids.Nodup) (cfg : Config) (hk : cfg.k = 0) (policy : Prune.Policy)
    (fuel : ℕ) (hfuel : (newMock mc).cfg.blocks.toNat < fuel) :
    ∃ total src ing s,
      run MockSource.next fuel {} (newMock mc) (fresh cfg policy) =
        some ((total, none), src, ing, s) ∧
      total.blocks = (newMock mc).cfg.blocks.toNat ∧
      total.txsIndexed =
        (newMock mc).cfg.blocks.toNat *
          ((newMock mc).cfg.subtreesPer.toNat * (newMock mc).cfg.txsPerSubtree.toNat) ∧
      total.utxosMade = total.txsIndexed ∧
      total.utxosSpent + src.live.length = total.utxosMade ∧
      s.stats.utxoLive = src.live.length ∧
      (∀ op, (∃ r, ((Api.utxo op).run.run s).1 = .ok r ∧ r.status = .unspent) ↔ op ∈ src.live) ∧
      src.tipHeight.toNat + 1 = mc.startHeight.toNat + (newMock mc).cfg.blocks.toNat := by
  obtain ⟨hbpos, hspos, htpos⟩ := MockSource.newMock_pos mc
  obtain ⟨bs, last, hdel, hheights, hshape, hminted, hlastmade, hlastheight⟩ :=
    MockSource.delivers_newMock mc
  have hids' : ((bs.flatMap Block.txs).map Tx.txID).Nodup := by
    rw [hminted.ids, ← MockSource.ids_eq]
    exact hids
  have hacc : ∀ b ∈ bs, validateBlock b = true :=
    fun b hb => (hshape b hb).validateBlock hspos htpos
  have hinc : bs.Pairwise fun a b => a.height < b.height := by
    rw [← List.pairwise_map, hheights]
    exact MockSource.heights_nodup (m := newMock mc) hh
  have hlen : bs.length = (newMock mc).cfg.blocks.toNat := by
    simpa using congrArg List.length hheights
  -- the run takes all blocks
  let ing₀ := (fresh cfg policy).1
  have haccepts : ∀ b ∈ bs, ing₀.accepts b = true := fun b hb => by
    change (cfg.skipValidate || validateBlock b) = true
    rw [hacc b hb, Bool.or_true]
  obtain ⟨src, hsrc, hrun⟩ := run_mem hdel (hlen ▸ hfuel) {} ing₀ Mem.new
  rw [List.takeWhile_eq_self_iff.mpr haccepts, if_pos (List.all_eq_true.mpr haccepts),
    Stats.zero_add] at hrun
  obtain rfl : src = last := hsrc (List.all_eq_true.mpr haccepts)
  -- the counts
  have hone : ∀ tx ∈ bs.flatMap Block.txs, tx.outputs.length ≤ 2 ^ 32 := fun tx htx => by
    rw [hminted.one_output htx]
    omega
  obtain ⟨hcount, htxs, hmade⟩ :=
    counted_feedCalls (orderlyUtxo_feedCalls (hminted.validTxs hids') hone ing₀)
  obtain ⟨hstore, -⟩ := feed_books haccepts rfl Mem.new
  have hk' : ing₀.k = 0 := hk
  have howned : bs.flatMap (owned ing₀) = bs.flatMap Block.txs :=
    List.flatMap_congr fun b _ => owned_of_unsharded hk' b
  have hunspent : ∀ op, (((feed (fresh cfg policy) bs).2.flatten.utxo op).any fun u => !u.spent) =
    true ↔ op ∈ src.live :=
    feed_minted cfg hk policy hacc hinc hminted hids'
  have hlive : (feed (fresh cfg policy) bs).2.stats.utxoLive = src.live.length :=
    feed_live cfg hk policy hacc hinc hminted hids'
  rw [howned] at htxs hmade
  refine ⟨_, src, _, _, hrun, hlen, ?_, hmade.trans (hminted.length_outpoints.trans htxs.symm), ?_,
    hlive, fun op => ?_, ?_⟩
  · rw [← length_places, ← hminted.length_eq]
    exact htxs
  · change (Mem.new.counted (feedCalls ing₀ bs)).utxosSpent + src.live.length =
      (Mem.new.counted (feedCalls ing₀ bs)).utxosMade
    rw [← hstore] at hcount
    rw [← hcount, ← hlive, Nat.add_comm]
    rfl
  · rw [← hunspent op]
    exact utxo_unspent_iff _ op
  · rw [MockSource.tipHeight, if_neg (by omega), hlastheight]
    rw [UInt32.toNat_sub, UInt32.toNat_add, UInt32.toNat_ofNat',
      show (1 : UInt32).toNat = 1 from rfl]
    omega

/-- Two blocks, where the second spends the output of the first. -/
theorem mock_run_two :
    ∃ total src ing s,
      run MockSource.next 3 {} (newMock { blocks := 2, spendFraction := 1, startHeight := 5 })
        (fresh {} {}) =
        some ((total, none), src, ing, s) ∧
      total.blocks = 2 ∧ total.txsIndexed = 2 ∧ s.stats.utxoLive = src.live.length ∧
        src.tipHeight = 6 := by
  have hids : (newMock { blocks := 2, spendFraction := 1, startHeight := 5 }).ids.Nodup := by
    unfold MockSource.ids Commitment.doubleSHA256
    rw [Sha256.Eval.sum256_eq]
    decide +kernel
  obtain ⟨total, src, ing, s, hrun, hblocks, htxs, -, -, hlive, -, htip⟩ :=
    mock_run { blocks := 2, spendFraction := 1, startHeight := 5 } (by decide) hids {} rfl {} 3
      (by decide)
  exact ⟨total, src, ing, s, hrun, hblocks, htxs, hlive, UInt32.toNat_inj.mp (Nat.succ.inj htip)⟩

end MemServe
