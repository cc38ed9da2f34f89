import MemServe.Commitment

/-!
Hash-prefix sharding: shard `id` at width `k` owns the hashes whose top `k` bits read `id`.
-/

namespace MemServe.Shard

def maxK : ℕ := 32

/-- The number of shards, a 32-bit word. -/
def count (k : ℕ) : UInt32 := if k = 0 then 1 else UInt32.ofNat (1 <<< k)

/-- The shard that owns `h` at width `k`. -/
def of (h : Hash) (k : ℕ) : UInt32 :=
  if k = 0 then 0
  else
    let k := if maxK < k then maxK else k
    let v := ofBytesBE (h.1.take 4)
    UInt32.ofNat (v >>> (32 - k))

def owns (h : Hash) (k : ℕ) (id : UInt32) : Bool := of h k == id

/-- The name of a shard: its number in `k` binary digits. -/
def prefixBits (k : ℕ) (id : UInt32) : Bytes :=
  if k = 0 then []
  else (List.range k).map fun i =>
    let bit := (id.toNat >>> (k - 1 - i)) &&& 1
    UInt8.ofNat (48 + bit)

/-- The two shards at width `k + 1` that a shard at width `k` divides into. -/
def split (_k : ℕ) (id : UInt32) : UInt32 × UInt32 := (id <<< 1, (id <<< 1) ||| 1)

structure Router where
  k : ℕ
  servers : List String
  deriving DecidableEq

inductive RouterError
  /-- `shard: k=%d exceeds MaxK=%d` -/
  | width (k : ℕ)
  /-- `shard: need %d servers for k=%d, got %d` -/
  | servers (need : UInt32) (k got : ℕ)
  deriving DecidableEq

/-- The length of the list is compared as a 32-bit word. -/
def newRouter (k : ℕ) (servers : List String) : Except RouterError Router :=
  if maxK < k then .error (.width k)
  else if UInt32.ofNat servers.length ≠ count k then .error (.servers (count k) k servers.length)
  else .ok ⟨k, servers⟩

def Router.shardFor (r : Router) (h : Hash) : UInt32 := of h r.k

/-- The server of a hash; `none` is an index out of range. -/
def Router.serverFor (r : Router) (h : Hash) : Option String := r.servers[(of h r.k).toNat]?

end MemServe.Shard
