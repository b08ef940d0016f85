import Mathlib

/-!
# `PerfectHash`: the rpc-id hash that `renderc` generates

A model of `PerfectHash.xtend`, the generator of the hash of an app's rpc ids, and of the C and
Rust functions `HashGenerator.xtend` emits from it. The rpc ids are the non-negative Java `int`s
the generator gets; the generator's `long` values stay below `2^32` and are `Nat`s here. A Java
`HashSet` is a list read up to order and repeats, and `TreeMap` and `LinkedHashMap` are
association lists. A `throw` is the error side of `Except String`, with the message the generator
puts in its exception.

`hash_bits` is the bit length of `(n_keys * 1.2 + 1).intValue`. That `double` expression is
`6 * n_keys / 5 + 1` for `n_keys ≤ 2^16`: `n_keys * 1.2` misses `6 * n_keys / 5` by less than
half a unit in its last place, so it rounds to it when that is a whole number.
-/

namespace OtelNetwork.Render

/-- `bit_length(x)`, for `x ≥ 0`. -/
def bitLength (x : Nat) : Nat := x.size

/-- `isUnique(lst)`: `lst.toSet.size == lst.size`. -/
def isUnique (lst : List Nat) : Bool := lst.dedup.length == lst.length

/-- One element added to the groups of Xtend's `groupBy`: to the end of its key's group, or in a
    new group at the end. -/
def addToGroup : List (Nat × List Nat) → Nat → Nat → List (Nat × List Nat)
  | [], key, k => [(key, [k])]
  | (key', bin) :: bins, key, k =>
    if key' = key then (key', bin ++ [k]) :: bins else (key', bin) :: addToGroup bins key k

/-- Xtend's `groupBy`, whose `LinkedHashMap` keeps the keys in the order they first appear. -/
def groupBy (f : Nat → Nat) (l : List Nat) : List (Nat × List Nat) :=
  l.foldl (fun bins k => addToGroup bins (f k) k) []

/-- `map.put(key, value)`. -/
def put (m : List (Nat × Nat)) (key value : Nat) : List (Nat × Nat) :=
  match m with
  | [] => [(key, value)]
  | (key', value') :: m => if key' = key then (key, value) :: m else (key', value') :: put m key value

/-- `KNUTH_A`. -/
def knuthA : Nat := 2654435761

/-- `MULTIPLIERS`: the Knuth multiplier and random 32-bit primes. -/
def multipliers : List Nat :=
  [knuthA, 3692456357, 2257312319, 3145181107, 2857830571, 3361085821, 4185606979, 2982027877]

/-- `longMask`. -/
def longMask : Nat := 2 ^ 32 - 1

/-- The final fields that the constructor computes before it looks for a seed. -/
structure Params where
  nKeys : Nat
  nBits : Nat
  gSize : Nat
  gShift : Nat
  hashBits : Nat
  hashShift : Nat
  hashMask : Nat
deriving DecidableEq, Repr

def params (keys : List Nat) : Params :=
  let nKeys := keys.length
  let nBits := bitLength ((nKeys + 4) / 5)
  let hashBits := bitLength (6 * nKeys / 5 + 1)
  ⟨nKeys, nBits, 2 ^ nBits, if nBits = 0 then 0 else 32 - nBits, hashBits, 32 - nBits - hashBits,
    2 ^ hashBits - 1⟩

/-- `(k.longValue.bitwiseXor(seed) * mul).bitwiseAnd(longMask)`. -/
def mapKey (seed mul k : Nat) : Nat := ((k ^^^ seed) * mul) &&& longMask

/-- The bins of one seed and multiplier, if no two keys of a bin meet in
    `(k >> hash_shift) & hash_mask`. -/
def trySeed (P : Params) (keys : List Nat) (seed mul : Nat) : Option (List (Nat × List Nat)) :=
  let bins := groupBy (· >>> P.gShift) (keys.map (mapKey seed mul))
  if bins.all fun bin => isUnique (bin.2.map fun k => (k >>> P.hashShift) &&& P.hashMask) then
    some bins
  else none

/-- `findSeed`, with the seed and multiplier it stores. -/
def findSeed (P : Params) (keys : List Nat) : Except String (Nat × Nat × List (Nat × List Nat)) :=
  let tries := (List.range 1).flatMap fun seed => multipliers.map fun mul => (seed, mul)
  match tries.findSome? fun (seed, mul) => (trySeed P keys seed mul).map fun bins => (seed, mul, bins)
  with
  | some found => .ok found
  | none =>
    .error "Could not find seed - check for duplicate RPC IDs or exhausted namespace allocations"

/-- The loop of `find_gval` from `gval`, with `fuel` values left to try. -/
def findGvalLoop (P : Params) (bin assigned : List Nat) (gval : Nat) :
    Nat → Except String (Nat × List Nat)
  | 0 => .error "could not find g value!"
  | fuel + 1 =>
    let slots := (bin.map fun k => ((k >>> P.hashShift) + gval) &&& P.hashMask).dedup
    if slots.length ≠ bin.length then .error "find_gval: slots not unique"
    else if slots.all (· ∉ assigned) then .ok (gval, assigned ++ slots)
    else findGvalLoop P bin assigned (gval + 1) fuel

/-- `find_gval(bin, already_assigned_slots)`: the g value and the slots assigned after it. -/
def findGval (P : Params) (bin assigned : List Nat) : Except String (Nat × List Nat) :=
  findGvalLoop P bin assigned 0 (P.hashMask + 1)

/-- `bin.get(0)`. -/
def first (bin : List Nat) : Except String Nat :=
  match bin with
  | k :: _ => .ok k
  | [] => .error "IndexOutOfBoundsException"

/-- The loop over the bins of several keys. -/
def assignBin (P : Params) (acc : List (Nat × Nat) × List Nat) (bin : List Nat) :
    Except String (List (Nat × Nat) × List Nat) := do
  let (g, assigned) := acc
  let idx := (← first bin) >>> P.gShift
  if (g.lookup idx).isSome then throw "assertion failed"
  let (gval, assigned) ← findGval P bin assigned
  return (put g idx gval, assigned)

/-- The loop over the bins of one key, which take the lowest free slots. -/
def assignSingleton (P : Params) (acc : List (Nat × Nat) × List Nat) (bin : List Nat) :
    Except String (List (Nat × Nat) × List Nat) := do
  let (g, freeSlots) := acc
  match freeSlots with
  | [] => throw "NoSuchElementException"
  | slot :: freeSlots =>
    let elem ← first bin
    -- `bitwiseAnd(hash_mask)` of a `long` that may be negative
    let gval := ((slot : Int) - (elem >>> P.hashShift : Nat) + P.hashMask + 1) % (P.hashMask + 1)
    return (put g (elem >>> P.gShift) gval.toNat, freeSlots)

/-- Where a key lands: `((k >> hash_shift) + g.get((k >> g_shift).intValue)).bitwiseAnd(hash_mask)`. -/
def loc (P : Params) (g : List (Nat × Nat)) (k : Nat) : Except String Nat :=
  match g.lookup (k >>> P.gShift) with
  | some gv => .ok (((k >>> P.hashShift) + gv) &&& P.hashMask)
  | none => .error "NullPointerException"

/-- The type of the emitted g array. -/
inductive GType where
  | u8
  | u16
  | u32
deriving DecidableEq, Repr

/-- One more than the largest value of the type. -/
def GType.bound : GType → Nat
  | .u8 => 2 ^ 8
  | .u16 => 2 ^ 16
  | .u32 => 2 ^ 32

/-- A generated hash: its parameters, seed and multiplier, and its g array. -/
structure PerfectHash extends Params where
  hashSeed : Nat
  multiplier : Nat
  gType : GType
  gArray : List Nat
deriving DecidableEq, Repr

namespace PerfectHash

/-- The constructor `new(int_keys, verbose)`. -/
def new (keys : List Nat) : Except String PerfectHash := do
  let P := params keys
  let (hashSeed, multiplier, binsMap) ← findSeed P keys
  let bins := ((binsMap.map Prod.snd).mergeSort fun a b => a.length ≤ b.length).reverse
  if P.nKeys > 0 ∧ (bins.map List.length).sum ≠ keys.length then throw "size sanity check failed!"
  let (g, assigned) ← (bins.filter fun bin => bin.length > 1).foldlM (assignBin P) ([], [])
  let freeSlots := (List.range (P.hashMask + 1)).filter (· ∉ assigned)
  let (g, _) ← (bins.filter fun bin => bin.length = 1).foldlM (assignSingleton P) (g, freeSlots)
  if g.length ≠ bins.length then throw "somehow didn't compute enough g values"
  let locs ← bins.flatten.mapM (loc P g)
  if locs.dedup.length ≠ keys.length then throw "somehow locs doesn't contain enough vals"
  let gType :=
    if P.hashMask + 1 ≤ 256 then GType.u8 else if P.hashMask + 1 ≤ 2 ^ 16 then .u16 else .u32
  return {
    toParams := P
    hashSeed := hashSeed
    multiplier := multiplier
    gType := gType
    gArray := (List.range P.gSize).map fun i => (g.lookup i).getD 0 }

/-- A shift of a `u32` in Rust, which panics in a debug build when it shifts by 32 or more. -/
def rustShr (x : UInt32) (s : Nat) : Except String UInt32 :=
  if s < 32 then .ok (x >>> s.toUInt32) else .error "attempt to shift right with overflow"

/-- The emitted Rust function. -/
def rustHash (ph : PerfectHash) (rpcId : UInt32) : Except String UInt32 := do
  let k := (rpcId ^^^ ph.hashSeed.toUInt32) * ph.multiplier.toUInt32
  let i ← rustShr k ph.gShift
  let g ← match ph.gArray[i.toNat]? with
    | some g => pure g.toUInt32
    | none => throw "index out of bounds"
  let s ← rustShr k ph.hashShift
  return (s + g) &&& ph.hashMask.toUInt32

/-- The emitted Rust function as the `HashFn` a `PerfectHashMap` is built with. A panic has no
    value; it is `0` here. -/
def rustHashFn (ph : PerfectHash) (rpcId : UInt32) : UInt32 :=
  match ph.rustHash rpcId with
  | .ok h => h
  | .error _ => 0

/-- A shift of a `u32` in C, undefined by 32 or more. -/
def cShr (x : UInt32) (s : Nat) : Except String UInt32 :=
  if s < 32 then .ok (x >>> s.toUInt32) else .error "shift by the width of the type"

/-- The emitted C function. A multiplier above `INT_MAX` is a `long` literal, so the product is
    a `long`, whose overflow is undefined. -/
def cHash (ph : PerfectHash) (rpcId : UInt32) : Except String UInt32 := do
  let x := rpcId ^^^ ph.hashSeed.toUInt32
  let k ← if ph.multiplier < 2 ^ 31 then pure (x * ph.multiplier.toUInt32)
    else if x.toNat * ph.multiplier < 2 ^ 63 then pure (x.toNat * ph.multiplier).toUInt32
    else throw "signed overflow"
  let i ← cShr k ph.gShift
  let g ← match ph.gArray[i.toNat]? with
    | some g => pure g.toUInt32
    | none => throw "read past the end of the g array"
  let s ← cShr k ph.hashShift
  return (s + g) &&& ph.hashMask.toUInt32

end PerfectHash

end OtelNetwork.Render
