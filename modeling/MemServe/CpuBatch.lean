import MemServe.Fan
import MemServe.SharedKeys

/-!
The batch verifier that fans a batch out to the cores.

Its workers fill one slice of results, each the numbers of its own chunk. They also share the keys
of the batch, and a call that reduces a key changes what later calls see of it. So the slice ends as
the serial loop leaves it, whatever the schedule, exactly if no such change matters to another
request.
-/

namespace MemServe.Accel

open Crypto

/-- What the workers share: the numbers of the keys, and the slice of results. -/
structure Shared where
  keys : Heap
  out : List Bool

/-- `out[i] = reference(reqs[i])`; `none` is a panic, an index out of range. -/
def assign (reqs : List PtrRequest) (s : Shared) (i : ℕ) : Option Shared := do
  let r ← reqs[i]?
  let res := r.reference s.keys
  if i < s.out.length then some ⟨res.2, s.out.set i res.1⟩ else none

/-- `Reference.VerifyBatch` on the slice it is given. -/
def Reference.fill (reqs : List PtrRequest) (s : Shared) : Option Shared :=
  (List.range reqs.length).foldlM (assign reqs) s

structure CPU where
  workers : ℤ

/-- What a call comes to: a panic, the wait for its workers, or its return, with who assigned which
result. -/
inductive Outcome
  | panics
  | waiting
  | returns (s : Shared) (log : List (ℕ × ℕ))

/-- `w`, where `runtime.NumCPU()` is `numCPU`. -/
def CPU.count (c : CPU) (numCPU : ℤ) (n : ℕ) : ℤ :=
  let w := if c.workers ≤ 0 then numCPU else c.workers
  if w > n then n else w

/-- `chunk`. A request takes more than two bytes, so `n + w - 1` does not overflow. -/
def CPU.chunk (c : CPU) (numCPU : ℤ) (n : ℕ) : ℕ :=
  let w := (c.count numCPU n).toNat
  (n + w - 1) / w

/-- The goroutines after the events `es`. A call of `reference` is one step. -/
def CPU.fan (c : CPU) (numCPU : ℤ) (reqs : List PtrRequest) (s : Shared) (es : List Fan.Event) :
    Fan.State Shared :=
  Fan.run (assign reqs) reqs.length (c.chunk numCPU reqs.length) es (Fan.init s)

/-- `CPU.VerifyBatch` after the events `es`. -/
def CPU.verifyBatch (c : CPU) (numCPU : ℤ) (reqs : List PtrRequest) (s : Shared)
    (es : List Fan.Event) : Outcome :=
  if c.count numCPU reqs.length ≤ 1 then
    -- the caller is the one worker
    match (List.range reqs.length).foldlM (assign reqs) s with
    | none => .panics
    | some s => .returns s ((List.range reqs.length).map fun i => (0, i))
  else
    let t := c.fan numCPU reqs s es
    match t.shared with
    | none => .panics
    | some s => if Fan.Finished reqs.length t then .returns s t.log else .waiting

section Assign

variable {reqs : List PtrRequest} {h : Heap} {out : List Bool} (hlen : reqs.length ≤ out.length)

include hlen

end Assign

/-- The answers to the requests as they are given, and the rest of the slice. -/
def filled (h : Heap) (reqs : List PtrRequest) (out : List Bool) : List Bool :=
  (reqs.map fun r => reference (r.load h)) ++ out.drop reqs.length

section Schedule

variable {c : CPU} {numCPU : ℤ} {reqs : List PtrRequest} {h : Heap} {out : List Bool}

lemma CPU.count_le (c : CPU) (numCPU : ℤ) (n : ℕ) : c.count numCPU n ≤ n := by
  unfold CPU.count
  dsimp only
  split_ifs <;> omega

section Returns

variable (hlen : reqs.length ≤ out.length)

include hlen

end Returns

end Schedule

end MemServe.Accel
