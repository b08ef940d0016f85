import OtelNetwork.TDigest.Basic

/-!
# `LatencyAccumulator`: percentiles of latencies over a sliding window

A model of `reducer/latency_accumulator.{h,inl}`. The accumulator keeps a queue of windows, each
with a start time and, per key, a digest of the latencies added in it and their maximum. A
latency more than `delta_ns_` after the start of the last window opens a new one, drops the
oldest past `queue_max_size_`, and recomputes each key's 90th, 95th and 99th percentiles from
the digests of all windows merged.

A `flat_hash_map` is the list of its entries, each key once, in the order they were made;
`latencies_` follows that order. Times are `u64` and their difference wraps.
-/

namespace OtelNetwork

open TDigest

/-- `m[k]` read on a map kept as its entries: the value of `k`, or the default `operator[]`
    makes. -/
def lookupD {Key V : Type} [DecidableEq Key] (m : List (Key × V)) (k : Key) (d : V) : V :=
  (m.lookup k).getD d

/-- `m[k] = v`: the entry of `k` replaced, or made at the end. -/
def upsert {Key V : Type} [DecidableEq Key] (m : List (Key × V)) (k : Key) (v : V) :
    List (Key × V) :=
  if (m.lookup k).isSome then m.map fun e => if e.1 = k then (k, v) else e else m ++ [(k, v)]

/-- `LatencyAccumulator::PLatencies`. -/
structure PLatencies (Key : Type) where
  key : Key
  p90 : ℚ
  p95 : ℚ
  p99 : ℚ
deriving DecidableEq, Repr

/-- `LatencyAccumulator::QueueElem`. -/
structure QueueElem (Key : Type) where
  t : UInt64 := 0
  digests : List (Key × TDigest) := []
  maxLatencies : List (Key × ℚ) := []

/-- `LatencyAccumulator<Key>`. -/
structure LatencyAccumulator (Key : Type) where
  queue : List (QueueElem Key) := []
  latencies : List (PLatencies Key) := []
  maxLatencies : List (Key × ℚ) := []

namespace LatencyAccumulator

variable {Key : Type} [DecidableEq Key]

/-- `queue_max_size_`. -/
def queueMaxSize : Nat := 30

/-- `delta_ns_`. -/
def deltaNs : UInt64 := 10000000000

/-- `if (m[k] < v) m[k] = v;`: the read makes the entry `0` when there is none. -/
def raiseMax (m : List (Key × ℚ)) (k : Key) (v : ℚ) : List (Key × ℚ) :=
  let cur := lookupD m k 0
  upsert m k (if cur < v then v else cur)

/-- One turn of `digests[k].merge(v)` over a window's digests. -/
def mergeDigest (digests : List (Key × TDigest)) (kv : Key × TDigest) :
    Except String (List (Key × TDigest)) := do
  let d ← (lookupD digests kv.1 {}).merge kv.2
  return upsert digests kv.1 d

/-- One turn of the loop of `compute_latencies` over the windows. -/
def mergeWindow (acc : List (Key × TDigest) × List (Key × ℚ)) (w : QueueElem Key) :
    Except String (List (Key × TDigest) × List (Key × ℚ)) := do
  let digests ← w.digests.foldlM mergeDigest acc.1
  return (digests, w.maxLatencies.foldl (fun m kv => raiseMax m kv.1 kv.2) acc.2)

/-- `LatencyAccumulator::compute_latencies`. -/
def computeLatencies (a : LatencyAccumulator Key) : Except String (LatencyAccumulator Key) := do
  let (digests, maxLatencies) ← a.queue.foldlM mergeWindow ([], [])
  let latencies := digests.map fun kv =>
    { key := kv.1, p90 := kv.2.estimateValueAtQuantile (90 / 100),
      p95 := kv.2.estimateValueAtQuantile (95 / 100),
      p99 := kv.2.estimateValueAtQuantile (99 / 100) }
  return { a with latencies, maxLatencies }

/-- `LatencyAccumulator::rotate_window`. -/
def rotateWindow (a : LatencyAccumulator Key) (t : UInt64) :
    Except String (LatencyAccumulator Key) :=
  match a.queue.getLast? with
  | none => return { a with queue := [{ t }] }
  | some back =>
    let delta := t - back.t
    if delta > deltaNs then
      let queue := a.queue ++ [({ t } : QueueElem Key)]
      let queue := if queue.length > queueMaxSize then queue.tail else queue
      computeLatencies { a with queue }
    else return a

/-- `LatencyAccumulator::add`: the latency goes through an accumulator over the key's digest in
    the last window, which is flushed at once. -/
def add (a : LatencyAccumulator Key) (t : UInt64) (key : Key) (latency : ℚ) :
    Except String (LatencyAccumulator Key) := do
  let a ← a.rotateWindow t
  match a.queue.getLast? with
  | none => throw "queue_.back() of an empty queue"
  | some back =>
    let acc ← ({ tdigest := lookupD back.digests key {} } : TDigestAccumulator).add latency
    let acc ← acc.flush
    let back := { back with digests := upsert back.digests key acc.tdigest,
                            maxLatencies := raiseMax back.maxLatencies key latency }
    return { a with queue := a.queue.dropLast ++ [back] }

end LatencyAccumulator

end OtelNetwork
