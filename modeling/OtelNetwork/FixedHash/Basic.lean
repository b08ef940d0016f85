import Mathlib

/-!
# `FixedHash`: a hash map whose values live in a fixed pool

A model of `util/pool_allocator.{h,c}`, `util/pool.h` and `util/fixed_hash.h`.

`pool_allocator` hands out slot indices of a pool of `n_elems` slots. Slots below `alloc_end`
have been handed out at least once; the freed ones form a list linked through the first `u32` of
each slot, which ends at `alloc_end` (`~0` once every slot has been handed out). The model keeps
that first word of every slot (`words`) and no other byte of the pool: an object's bytes are
only ever read while its slot is allocated, and its first word only while it is free.

`Pool<T, SIZE>` adds the objects, the bitmap of allocated slots and the count; `FixedHash` maps
keys to slot indices with an `absl::flat_hash_map`, modelled as a finite map. A constructor of
`T` may throw: the argument of an insertion is the constructed object, or `none` for a throw,
and the exception is the `.error ()` of the answer. Failed `assert`s are the error side of
`Except String`. Indices are naturals: `index_type` (`u16` below a size of `2^16 - 1`, `u32`
above) holds every slot index, and `IterableBitmap` limits the size to `2^30`.
-/

namespace OtelNetwork

/-- `POOL_ALLOCATOR_NULL_ELEM`. -/
def poolAllocatorNullElem : UInt32 := 0xFFFFFFFF

/-- `struct pool_allocator`, with the first word of every slot of its pool. -/
structure PoolAllocator where
  words : UInt32 → UInt32
  freeList : UInt32
  allocEnd : UInt32
  nElems : UInt32

namespace PoolAllocator

/-- `pool_allocator_init` over a pool whose memory holds `words`. Its `-EINVAL` cases (an empty
    pool, a slot smaller than a `u32`) do not arise from `Pool`, whose size is positive and whose
    slots hold a `u32`. -/
def init (words : UInt32 → UInt32) (nElems : UInt32) : PoolAllocator :=
  { words, freeList := 0, allocEnd := 0, nElems }

/-- `pool_allocator_alloc`: the head of the free list, `~0` when there is none. -/
def alloc (m : PoolAllocator) : Except String (UInt32 × PoolAllocator) := do
  if ¬ m.freeList ≤ m.allocEnd then throw "assert: free_list <= alloc_end"
  if m.freeList = poolAllocatorNullElem then return (0xFFFFFFFF, m)
  let id := m.freeList
  let (next, allocEnd) :=
    if id = m.allocEnd then
      -- the element was never allocated: the frontier moves
      let next := if id < m.nElems - 1 then id + 1 else poolAllocatorNullElem
      (next, next)
    else (m.words id, m.allocEnd)
  -- the `memset` zeroes the slot
  return (id, { m with freeList := next, allocEnd, words := Function.update m.words id 0 })

/-- `pool_allocator_free`: the slot is linked in front of the free list. -/
def free (m : PoolAllocator) (id : UInt32) : Except String PoolAllocator := do
  if ¬ id < m.nElems then throw "assert: id < n_elems"
  return { m with words := Function.update m.words id m.freeList, freeList := id }

end PoolAllocator

/-- `Pool::position`: an index and the slot `entry` points to (`none` for `nullptr`). -/
structure Position where
  index : Nat
  entry : Option Nat
deriving DecidableEq, Repr

/-- `Pool<T, SIZE>`. The size is the template parameter `size` of each operation. -/
structure Pool (T : Type) where
  elements : Nat → Option T
  allocated : Nat → Bool
  poolAlloc : PoolAllocator
  elemCount : Nat
  maxElemCount : Nat

namespace Pool

variable {T : Type}

/-- `Pool::invalid`, the largest `index_type`. -/
def invalid (size : Nat) : Nat := if size ≥ 2 ^ 16 - 1 then 2 ^ 32 - 1 else 2 ^ 16 - 1

/-- The conversion of a slot index to `index_type`. -/
def toIndexType (size : Nat) (x : UInt32) : Nat :=
  if size ≥ 2 ^ 16 - 1 then x.toNat else x.toNat % 2 ^ 16

/-- `{invalid, nullptr}`. -/
def invalidPosition (size : Nat) : Position := ⟨invalid size, none⟩

/-- `Pool::Pool()` over storage whose memory holds `mem`. -/
def new (size : Nat) (mem : UInt32 → UInt32) : Pool T :=
  { elements := fun _ => none, allocated := fun _ => false,
    poolAlloc := PoolAllocator.init mem (UInt32.ofNat size), elemCount := 0, maxElemCount := 0 }

/-- `Pool::full`. -/
def full (p : Pool T) (size : Nat) : Bool := p.elemCount == size

/-- `Pool::emplace`. When the constructor throws, the guard frees the slot and the exception
    propagates. -/
def emplace (p : Pool T) (size : Nat) (arg : Option T) :
    Except String (Except Unit Position × Pool T) := do
  if p.full size then return (.ok (invalidPosition size), p)
  let (index, poolAlloc) ← p.poolAlloc.alloc
  if index = 0xFFFFFFFF then throw "assert: index != ~0u"
  match arg with
  | none =>
    let poolAlloc ← poolAlloc.free index
    return (.error (), { p with poolAlloc })
  | some t =>
    let elemCount := p.elemCount + 1
    return (.ok ⟨toIndexType size index, some index.toNat⟩,
      { p with
        poolAlloc, elements := Function.update p.elements index.toNat (some t)
        allocated := Function.update p.allocated index.toNat true, elemCount
        maxElemCount := max p.maxElemCount elemCount })

/-- `&pool_[index]`: `operator[]` asserts that the slot is allocated. -/
def slot (p : Pool T) (size : Nat) (index : Nat) : Except String Nat :=
  if index < size ∧ p.allocated index = true then return index
  else throw "assert: index < pool_size && allocated_.get(index)"

/-- `Pool::remove`: destroys the object and frees its slot. -/
def remove (p : Pool T) (size : Nat) (index : Nat) : Except String (Pool T) := do
  if ¬ (index < size ∧ p.allocated index = true) then
    throw "assert: index < pool_size && allocated_.get(index)"
  let poolAlloc ← p.poolAlloc.free (UInt32.ofNat index)
  return { p with
    elements := Function.update p.elements index none, poolAlloc, elemCount := p.elemCount - 1
    allocated := Function.update p.allocated index false }

end Pool

/-- `FixedHash<K, T, SIZE>`: the key map `map_` and the pool. -/
structure FixedHash (K T : Type) where
  map : K → Option Nat
  pool : Pool T

namespace FixedHash

variable {K T : Type} [DecidableEq K]

/-- `FixedHash::FixedHash()`. -/
def new (size : Nat) (mem : UInt32 → UInt32) : FixedHash K T := ⟨fun _ => none, Pool.new size mem⟩

/-- `FixedHash::find`. -/
def find (h : FixedHash K T) (size : Nat) (k : K) : Except String Position :=
  match h.map k with
  | none => return Pool.invalidPosition size
  | some index => do
    let entry ← h.pool.slot size index
    return ⟨index, some entry⟩

/-- `FixedHash::insert`. The key first maps to `invalid` (`map_.insert({key, -1})`); the guard
    erases it again when the pool gives no slot or the constructor throws. -/
def insert (h : FixedHash K T) (size : Nat) (k : K) (arg : Option T) :
    Except String (Except Unit Position × FixedHash K T) := do
  if h.pool.full size then return (.ok (Pool.invalidPosition size), h)
  if (h.map k).isSome then return (.ok (Pool.invalidPosition size), h)
  let map := Function.update h.map k (some (Pool.invalid size))
  let (pos, pool) ← h.pool.emplace size arg
  match pos with
  | .error () => return (.error (), ⟨Function.update map k none, pool⟩)
  | .ok pos =>
    if pos.index = Pool.invalid size then
      return (.ok (Pool.invalidPosition size), ⟨Function.update map k none, pool⟩)
    return (.ok pos, ⟨Function.update map k (some pos.index), pool⟩)

/-- `FixedHash::erase`. -/
def erase (h : FixedHash K T) (size : Nat) (k : K) : Except String (Bool × FixedHash K T) :=
  match h.map k with
  | none => return (false, h)
  | some index => do
    let pool ← h.pool.remove size index
    return (true, ⟨Function.update h.map k none, pool⟩)

/-- `FixedHash::erase` of a key passed by reference: `key` reads the referenced key in a state.
    The key is read to find its slot and, after the pool has freed that slot, read again by
    `map_.erase(key)`. -/
def eraseRef (h : FixedHash K T) (size : Nat) (key : FixedHash K T → K) :
    Except String (Bool × FixedHash K T) :=
  match h.map (key h) with
  | none => return (false, h)
  | some index => do
    let pool ← h.pool.remove size index
    return (true, ⟨Function.update h.map (key ⟨h.map, pool⟩) none, pool⟩)

end FixedHash

/-- A call on a `FixedHash`. -/
inductive FixedHash.Op (K T : Type) where
  | insert (k : K) (arg : Option T)
  | erase (k : K)
  | find (k : K)

/-- The answer of a call. -/
inductive FixedHash.Out where
  | insert (p : Except Unit Position)
  | erase (b : Bool)
  | find (p : Position)

namespace FixedHash

variable {K T : Type} [DecidableEq K]

/-- One call. -/
def step (size : Nat) (h : FixedHash K T) : Op K T → Except String (Out × FixedHash K T)
  | .insert k arg => do
    let (p, h') ← h.insert size k arg
    return (.insert p, h')
  | .erase k => do
    let (b, h') ← h.erase size k
    return (.erase b, h')
  | .find k => do
    let p ← h.find size k
    return (.find p, h)

end FixedHash

end OtelNetwork
