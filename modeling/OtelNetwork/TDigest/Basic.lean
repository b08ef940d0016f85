import Mathlib

/-!
# `TDigest`: the quantile sketch of `util/tdigest.{h,cc}`

A digest keeps the count, sum, minimum and maximum of the values it has consumed and at most
`TDIGEST_CENTROID_COUNT_MAX` centroids, each a mean with a weight. An accumulator buffers up to
`TDIGEST_VALUE_BUFFER_SIZE` values and flushes them into its digest; a merger merges a batch of
values, or a second digest, into a digest.

Doubles are exact rationals. Arrays are lists of the entries in use; a write past the end of
`merging_buffer_` or of `centroids_` and a failed `assert` are the error side of
`Except String`. Both merges read the centroids of their two sorted inputs in order of mean,
the first input's only when its mean is strictly smaller; that order is `mergeIn`, and the loop
over it is `compress`. `std::sort` is an insertion sort by mean: it gives the one sorted order
of a list of values, and keeps centroids of equal means in the order the loop made them, where
`std::sort` may swap them.
-/

namespace OtelNetwork.TDigest

/-- `TDIGEST_CENTROID_COUNT_MAX`. -/
def centroidCountMax : Nat := 100

/-- `TDIGEST_VALUE_BUFFER_SIZE`. -/
def valueBufferSize : Nat := 500

/-- `k_to_q`. -/
def kToQ (k d : ℚ) : ℚ :=
  let kDivD := k / d
  if kDivD ≥ 1 / 2 then
    let base := 1 - kDivD
    1 - 2 * base * base
  else 2 * kDivD * kDivD

/-- `clamp`. -/
def clamp (v lo hi : ℚ) : ℚ :=
  if v > hi then hi else if v < lo then lo else v

/-- `TDigest::Centroid`. -/
structure Centroid where
  mean : ℚ := 0
  weight : ℚ := 1
deriving DecidableEq, Repr

/-- `Centroid::add`: merges the sum and weight in, and returns the merged sum. -/
def Centroid.add (c : Centroid) (newSum newWeight : ℚ) : ℚ × Centroid :=
  let newSum := newSum + c.mean * c.weight
  let weight := c.weight + newWeight
  (newSum, { mean := newSum / weight, weight })

end OtelNetwork.TDigest

namespace OtelNetwork

open TDigest

/-- `TDigest`: `centroids` is `centroids_[0 .. centroid_count_)`. -/
structure TDigest where
  valueCount : Nat := 0
  sum : ℚ := 0
  min : ℚ := 0
  max : ℚ := 0
  centroids : List Centroid := []
deriving DecidableEq, Repr

namespace TDigest

/-- The centroids of `xs`, the first input, and `ys` in the order the merge loops read them: the
    one of `xs` first only when its mean is strictly smaller. The head of `ys` is held while the
    rest of `xs` is merged in front of it. -/
def mergeCons (x : Centroid) (rest : List Centroid → List Centroid) :
    List Centroid → List Centroid
  | [] => x :: rest []
  | y :: ys => if x.mean < y.mean then x :: rest (y :: ys) else y :: mergeCons x rest ys

/-- See `mergeCons`. -/
def mergeIn : List Centroid → List Centroid → List Centroid
  | [], ys => ys
  | x :: xs, ys => mergeCons x (mergeIn xs) ys

/-- The state of the merge loop: `closed` is `merging_buffer_[0 .. curr)`. -/
structure MergeState where
  closed : List Centroid
  curr : Centroid
  weightsSoFar : ℚ
  sumsToMerge : ℚ
  weightsToMerge : ℚ
  kLimit : ℚ
  qLimitTimesCount : ℚ
  sum : ℚ

/-- One turn of the merge loop on the next centroid read, with `count` the new value count. -/
def mergeStep (count : ℚ) (s : MergeState) (next : Centroid) : Except String MergeState := do
  -- `*next = ...` writes `merging_buffer_[curr + 1]`, of `TDIGEST_CENTROID_COUNT_MAX + 1`
  if s.closed.length + 1 > centroidCountMax then throw "merging_buffer_ overrun"
  let nextSum := next.mean * next.weight
  let weightsSoFar := s.weightsSoFar + next.weight
  if weightsSoFar ≤ s.qLimitTimesCount then
    -- will merge this centroid into curr
    return { s with weightsSoFar, sumsToMerge := s.sumsToMerge + nextSum,
                    weightsToMerge := s.weightsToMerge + next.weight }
  else
    -- close the centroid
    let (added, curr) := s.curr.add s.sumsToMerge s.weightsToMerge
    return { closed := s.closed ++ [curr], curr := next, weightsSoFar, sumsToMerge := 0,
             weightsToMerge := 0, kLimit := s.kLimit + 1,
             qLimitTimesCount := kToQ s.kLimit centroidCountMax * count, sum := s.sum + added }

/-- The loop shared by both merges, over the centroids in the order it reads them, the first of
    which starts `curr`: the sum it recomputes and the centroids it leaves, sorted by mean. -/
def compress (count : ℚ) : List Centroid → Except String (ℚ × List Centroid)
  | [] => throw "no centroid"
  | first :: rest => do
    let s₀ : MergeState :=
      { closed := [], curr := first, weightsSoFar := first.weight, sumsToMerge := 0,
        weightsToMerge := 0, kLimit := 2, qLimitTimesCount := kToQ 1 centroidCountMax * count,
        sum := 0 }
    let s ← rest.foldlM (mergeStep count) s₀
    let (added, curr) := s.curr.add s.sumsToMerge s.weightsToMerge
    let buffer := (s.closed ++ [curr]).insertionSort fun a b => a.mean ≤ b.mean
    -- `std::copy` into `centroids_`
    if buffer.length > centroidCountMax then throw "centroids_ overrun"
    return (s.sum + added, buffer)

/-- `TDigestMerger::merge_from_values`. -/
def mergeFromValues (d : TDigest) (values : List ℚ) : Except String TDigest := do
  if values.length = 0 then return d
  if ¬ values.length ≤ valueBufferSize then
    throw "assert: value_count <= TDIGEST_VALUE_BUFFER_SIZE"
  match values.insertionSort (· ≤ ·) with
  | [] => return d
  | first :: rest =>
    let last := (first :: rest).getLast (List.cons_ne_nil first rest)
    let min := if d.valueCount = 0 then first else Min.min d.min first
    let max := if d.valueCount = 0 then last else Max.max d.max last
    let valueCount := d.valueCount + values.length
    let (sum, centroids) ← compress valueCount
      (mergeIn d.centroids ((first :: rest).map fun v => { mean := v, weight := 1 }))
    return { valueCount, sum, min, max, centroids }

/-- `TDigestMerger::merge`. -/
def merge (left right : TDigest) : Except String TDigest := do
  if right.valueCount = 0 then return left
  if left.valueCount = 0 then return right
  let valueCount := left.valueCount + right.valueCount
  let (sum, centroids) ← compress valueCount (mergeIn left.centroids right.centroids)
  return { valueCount, sum, min := Min.min left.min right.min,
           max := Max.max left.max right.max, centroids }

/-- The backward scan of `estimate_value_at_quantile` over the centroids from the last one: the
    position and the weight `t` below it where `rank ≥ t` first holds, or position `0` when the
    scan runs out. -/
def scan (rank : ℚ) : List Centroid → Nat → ℚ → Nat × ℚ
  | [], pos, t => (pos, t)
  | c :: cs, pos, t =>
    let pos := pos - 1
    let t := t - c.weight
    if rank ≥ t then (pos, t) else scan rank cs pos t

/-- `TDigest::estimate_value_at_quantile`. -/
def estimateValueAtQuantile (d : TDigest) (q : ℚ) : ℚ :=
  if d.centroids.length = 0 then 0
  else if q ≥ 1 then d.max
  else if q ≤ 0 then d.min
  else
    let rank := q * d.valueCount
    let n := d.centroids.length
    let (pos, t) := scan rank d.centroids.reverse n d.valueCount
    let c := fun i => d.centroids.getD i {}
    let (delta, min, max) :=
      if n > 1 then
        if pos = 0 then ((c (pos + 1)).mean - (c pos).mean, d.min, (c (pos + 1)).mean)
        else if pos = n - 1 then ((c pos).mean - (c (pos - 1)).mean, (c (pos - 1)).mean, d.max)
        else (((c (pos + 1)).mean - (c (pos - 1)).mean) / 2, (c (pos - 1)).mean,
          (c (pos + 1)).mean)
      else (0, d.min, d.max)
    let value := (c pos).mean + ((rank - t) / (c pos).weight - 1 / 2) * delta
    clamp value min max

end TDigest

/-- `TDigestAccumulator`, owning the digest it feeds: `valueBuffer` is
    `value_buffer_[0 .. value_count_)`. -/
structure TDigestAccumulator where
  tdigest : TDigest := {}
  valueBuffer : List ℚ := []
deriving DecidableEq, Repr

namespace TDigestAccumulator

/-- `TDigestAccumulator::flush`. -/
def flush (a : TDigestAccumulator) : Except String TDigestAccumulator := do
  if a.valueBuffer.length = 0 then return a
  let tdigest ← a.tdigest.mergeFromValues a.valueBuffer
  return { tdigest, valueBuffer := [] }

/-- `TDigestAccumulator::add`. -/
def add (a : TDigestAccumulator) (value : ℚ) : Except String TDigestAccumulator := do
  if ¬ a.valueBuffer.length < valueBufferSize then
    throw "assert: value_count_ < TDIGEST_VALUE_BUFFER_SIZE"
  let a := { a with valueBuffer := a.valueBuffer ++ [value] }
  if a.valueBuffer.length = valueBufferSize then a.flush else return a

/-- A call on an accumulator. -/
inductive Call where
  | add (value : ℚ)
  | flush

/-- Making a call. -/
def Call.apply (a : TDigestAccumulator) : Call → Except String TDigestAccumulator
  | .add value => a.add value
  | .flush => a.flush

/-- The values a call adds. -/
def Call.values : Call → List ℚ
  | .add value => [value]
  | .flush => []

end TDigestAccumulator

end OtelNetwork
