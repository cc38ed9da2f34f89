import MemServe.GoMap
import MemServe.Bytes
import MemServe.Sha256
import MemServe.GoSlice
import MemServe.MerkleTree
import MemServe.Commitment
import MemServe.Inclusion
import MemServe.Store
import MemServe.Mem
import MemServe.Trace
import MemServe.Flat
import MemServe.MemFlat
import MemServe.Teranode
import MemServe.Shard
import MemServe.Routing
import MemServe.Proof
import MemServe.Prune
import MemServe.Ingest
import MemServe.Api
import MemServe.Node
import MemServe.Faults
import MemServe.Cells
import MemServe.Ledger
import MemServe.Reorg
import MemServe.IndexWindow
import MemServe.Sharding
import MemServe.Client
import MemServe.Secp256k1
import MemServe.Bsvtx
import MemServe.Channel
import MemServe.Prepay
import MemServe.Conserve
import MemServe.Paid
import MemServe.Pool
import MemServe.Fan
import MemServe.PaidPool
import MemServe.Funding
import MemServe.Attest
import MemServe.Server
import MemServe.Equivocation
import MemServe.Requests
import MemServe.UtxoMap
import MemServe.HeightIndex
import MemServe.Aerospike
import MemServe.AerospikeMem
import MemServe.Sweeps
import MemServe.Evicted
import MemServe.Settle
import MemServe.Replay
import MemServe.Codes
import MemServe.Binding
import MemServe.Serialize
import MemServe.Radix
import MemServe.Utf8
import MemServe.Base58
import MemServe.ShortWeierstrass
import MemServe.Ladder
import MemServe.Words
import MemServe.Lucas
import MemServe.CurveGroup
import MemServe.Compressed
import MemServe.Ct
import MemServe.CtField
import MemServe.Ecdsa
import MemServe.Accel
import MemServe.Cuda
import MemServe.Verifier
import MemServe.Sign
import MemServe.SignVerify
import MemServe.CudaVerify
import MemServe.Der
import MemServe.SettlementTx
import MemServe.Accounts
import MemServe.Abuse
import MemServe.Floor
import MemServe.HttpSource
import MemServe.Wire
import MemServe.Gate
import MemServe.SharedKeys
import MemServe.CpuBatch
import MemServe.GateRuns
import MemServe.IngestLoop
import MemServe.Sha256Eval
import MemServe.ProofReads
import MemServe.HashTree
import MemServe.TxList
import MemServe.Agreement
import MemServe.Canonical
import MemServe.ScalarMult
import MemServe.LowS
import MemServe.Quote
import MemServe.View
import MemServe.Retry
import MemServe.Tally
import MemServe.Census
import MemServe.Totals
import MemServe.Drain
import MemServe.Capacity
import MemServe.Collect
import MemServe.Mock
import MemServe.Binary64
import MemServe.Limiter
import MemServe.Ripemd160
import MemServe.Channeltestnet
import MemServe.Locks
import MemServe.Accountability
import MemServe.Fields
import MemServe.MessageTree
import MemServe.Http
import MemServe.HttpRuns
import MemServe.Collectable
