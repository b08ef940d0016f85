import OtelNetwork.FixedHash.Basic

/-!
# `LRU`: a least-recently-used cache over a `FixedHash`

A model of `util/LRU.h`. The cache keeps its entries (the key, the value and a `list_node`) in a
`FixedHash` from keys to entries, and threads the entries' nodes on the intrusive `ccan` list
`lru_`, from the least to the most recently used. The model keeps that list as the slots of the
entries it links, in its order: `list_add_tail` appends a slot, `list_del` drops it and
`list_pop` takes the first.

A `nullptr` is `none`. `list_pop` of an empty list is `NULL`, and reading its key is the error
side of `Except String`, as is any other dereference of a null entry; the value handed to
`FixedHash::insert` is already constructed, so that insertion never throws.

The key of an entry is the first member of `value_type`, and so the first bytes of its pool slot.
`map_.erase(entry->key)` hands `FixedHash::erase` that key by reference, and `pool_allocator_free`
writes the free-list link over the slot's first word before `map_.erase(key)` reads it. What the
key reads then depends on its layout: `overlay k w` is the key `k` with its first word replaced by
`w` (for an `int` key, `w` itself).
-/

namespace OtelNetwork

/-- `LRU::value_type` without its `list_node`: the node's place is the slot's place in `lru`. -/
structure LruEntry (K T : Type) where
  key : K
  value : T
deriving DecidableEq, Repr

/-- `LRU<Key, T, ELEM_POOL_SZ>`: the map `map_` and the list `lru_`. The size is the template
    parameter `size` of each operation. -/
structure LRU (K T : Type) where
  map : FixedHash K (LruEntry K T)
  lru : List Nat

namespace LRU

variable {K T : Type} [DecidableEq K]

/-- `LRU::LRU()`: an empty map over storage holding `mem`, and an empty list. -/
def new (size : Nat) (mem : UInt32 → UInt32) : LRU K T := ⟨FixedHash.new size mem, []⟩

/-- `LRU::full`. -/
def full (c : LRU K T) (size : Nat) : Bool := c.map.pool.full size

/-- `LRU::find`: the value of the key, whose entry moves to the end of the list. -/
def find (c : LRU K T) (size : Nat) (k : K) : Except String (Option T × LRU K T) := do
  let pos ← c.map.find size k
  if pos.index = Pool.invalid size then return (none, c)
  match pos.entry with
  | none => throw "null entry"
  | some i =>
    -- used; update LRU
    let lru := c.lru.erase i ++ [i]
    return ((c.map.pool.elements i).map LruEntry.value, { c with lru })

/-- `entry->key` for the entry `key` of slot `i`, read in a state of the map: the entry's key while
    the slot holds it, and the key under the slot's first word once the slot is free. -/
def keyRef (overlay : K → UInt32 → K) (key : K) (i : Nat) (h : FixedHash K (LruEntry K T)) : K :=
  match h.pool.elements i with
  | some e => e.key
  | none => overlay key (h.pool.poolAlloc.words (UInt32.ofNat i))

/-- The eviction at the head of `LRU::insert`: `list_pop` unlinks the first entry, and
    `map_.erase(entry->key)` erases the key its slot holds by reference. -/
def evict (c : LRU K T) (size : Nat) (overlay : K → UInt32 → K) : Except String (LRU K T) :=
  match c.lru with
  | [] => throw "list_pop: NULL entry"
  | i :: lru =>
    match c.map.pool.elements i with
    | none => throw "null entry"
    | some entry => do
      let (_, map) ← c.map.eraseRef size (keyRef overlay entry.key i)
      return { map, lru }

/-- The insertion proper of `LRU::insert`: it fails on a key that is there. -/
def insertEntry (c : LRU K T) (size : Nat) (k : K) (v : T) :
    Except String (Option T × LRU K T) := do
  let (pos, map) ← c.map.insert size k (some ⟨k, v⟩)
  match pos with
  | .error () => throw "exception"
  | .ok pos =>
    if pos.index = Pool.invalid size then return (none, { c with map })
    match pos.entry with
    | none => throw "null entry"
    | some i => return ((map.pool.elements i).map LruEntry.value, { map, lru := c.lru ++ [i] })

/-- `LRU::insert`: a full cache first evicts its least recently used entry, and only then tries
    the insertion. -/
def insert (c : LRU K T) (size : Nat) (overlay : K → UInt32 → K) (k : K) (v : T) :
    Except String (Option T × LRU K T) := do
  let c ← if c.full size then c.evict size overlay else pure c
  c.insertEntry size k v

/-- `LRU::remove`. -/
def remove (c : LRU K T) (size : Nat) (k : K) : Except String (LRU K T) := do
  let pos ← c.map.find size k
  if pos.index = Pool.invalid size then return c
  match pos.entry with
  | none => throw "null entry"
  | some i =>
    let (_, map) ← c.map.erase size k
    return { map, lru := c.lru.erase i }

end LRU

/-- A call on an `LRU`. -/
inductive LRU.Op (K T : Type) where
  | find (k : K)
  | insert (k : K) (v : T)
  | remove (k : K)

/-- The answer of a call: the value pointed to, `none` for `nullptr`. -/
inductive LRU.Out (T : Type) where
  | find (r : Option T)
  | insert (r : Option T)
  | remove
deriving DecidableEq, Repr

namespace LRU

variable {K T : Type} [DecidableEq K]

/-- One call. -/
def step (size : Nat) (overlay : K → UInt32 → K) (c : LRU K T) :
    Op K T → Except String (Out T × LRU K T)
  | .find k => do
    let (r, c') ← c.find size k
    return (.find r, c')
  | .insert k v => do
    let (r, c') ← c.insert size overlay k v
    return (.insert r, c')
  | .remove k => do
    let c' ← c.remove size k
    return (.remove, c')

end LRU

end OtelNetwork
