import OtelNetwork.Lib.Rust

/-!
# `perfect_hash_map`: a fixed-capacity map over a generator-provided hash

A model of `crates/perfect_hash_map/src/lib.rs`. The storage is a vector of `hash_size` optional
entries; a key lives in the slot its hash names, and each slot keeps its key so that lookups
check it. Inserting a key whose slot holds another key is a `Collision`, never a probe.

Mutable borrows are modelled by what the caller does through them: `get_mut` takes the function
applied to the value it lends, `try_insert` answers with the value it stored, and an `Occupied`
error carries the value already in the map (the `OccupiedEntry` handle's `get`). The writing
methods panic when the hash names a slot past the end; that panic is the error side of `Except`.
-/

namespace OtelNetwork

open RustSem

/-- Key type for the map (rpc_id). -/
abbrev PerfectHashMap.Key := UInt32

/-- An entry stored in a map slot, keeping the key for validation. -/
structure PerfectHashMap.Entry (V : Type) where
  key : PerfectHashMap.Key
  value : V

/-- Error for `insert` when the slot is occupied by a different key. -/
structure PerfectHashMap.CollisionError where
  existingKey : PerfectHashMap.Key
deriving DecidableEq, Repr

/-- Error for `try_insert`. -/
inductive PerfectHashMap.TryInsertError (V : Type) where
  /-- The same key is already present: the value that could not be inserted, and the value in
      the map. -/
  | occupied (value : V) (existing : V)
  /-- A different key occupies the slot. -/
  | collision (value : V) (existingKey : PerfectHashMap.Key)

/-- `PerfectHashMap<V, F>`: the hash function, the slots and the number of occupied slots. -/
structure PerfectHashMap (V : Type) where
  hash : PerfectHashMap.Key → UInt32
  slots : List (Option (PerfectHashMap.Entry V))
  len : Nat

namespace PerfectHashMap

variable {V : Type}

/-- `PerfectHashMap::new`: `hash_size` empty slots. -/
def new (hashSize : Nat) (hash : Key → UInt32) : PerfectHashMap V :=
  { hash, slots := List.replicate hashSize none, len := 0 }

/-- `PerfectHashMap::capacity`. -/
def capacity (m : PerfectHashMap V) : Nat := m.slots.length

/-- `PerfectHashMap::get`: the value in the key's slot, if that slot holds this key. A slot past
    the end is `None`. -/
def get (m : PerfectHashMap V) (key : Key) : Option V :=
  match m.slots[(m.hash key).toNat]? with
  | some (some e) => if e.key = key then some e.value else none
  | _ => none

/-- `PerfectHashMap::contains_key`. -/
def containsKey (m : PerfectHashMap V) (key : Key) : Bool := (m.get key).isSome

/-- `PerfectHashMap::get_mut`, with the caller writing `f v` through the reference it gets. -/
def getMut (m : PerfectHashMap V) (key : Key) (f : V → V) : Option V × PerfectHashMap V :=
  let i := (m.hash key).toNat
  match m.slots[i]? with
  | some (some e) =>
    if e.key = key then
      (some e.value, { m with slots := m.slots.set i (some { e with value := f e.value }) })
    else (none, m)
  | _ => (none, m)

/-- `PerfectHashMap::remove`. -/
def remove (m : PerfectHashMap V) (key : Key) : Option V × PerfectHashMap V :=
  let i := (m.hash key).toNat
  if i ≥ m.slots.length then (none, m)
  else
    match m.slots[i]? with
    | some (some e) =>
      if e.key = key then (some e.value, { m with slots := m.slots.set i none, len := m.len - 1 })
      else (none, m)
    | _ => (none, m)

/-- `PerfectHashMap::clear`. -/
def clear (m : PerfectHashMap V) : PerfectHashMap V :=
  { m with slots := m.slots.map (fun _ => none), len := 0 }

/-- `PerfectHashMap::insert`. -/
def insert (m : PerfectHashMap V) (key : Key) (value : V) :
    Except String (Except CollisionError (Option V) × PerfectHashMap V) :=
  let i := (m.hash key).toNat
  match m.slots[i]? with
  | some none =>
    return (.ok none, { m with slots := m.slots.set i (some ⟨key, value⟩), len := m.len + 1 })
  | some (some e) =>
    if e.key = key then
      return (.ok (some e.value), { m with slots := m.slots.set i (some ⟨key, value⟩) })
    else
      return (.error ⟨e.key⟩, m)
  | none => throw "hash function returned out-of-range slot"

/-- `PerfectHashMap::try_insert`; on success, the value now in the map. -/
def tryInsert (m : PerfectHashMap V) (key : Key) (value : V) :
    Except String (Except (TryInsertError V) V × PerfectHashMap V) :=
  let i := (m.hash key).toNat
  match m.slots[i]? with
  | some none =>
    return (.ok value, { m with slots := m.slots.set i (some ⟨key, value⟩), len := m.len + 1 })
  | some (some e) =>
    if e.key = key then return (.error (.occupied value e.value), m)
    else return (.error (.collision value e.key), m)
  | none => throw "hash function returned out-of-range slot"

/-- `PerfectHashMap::iter`: the occupied slots, in slot order. -/
def iter (m : PerfectHashMap V) : List (Key × V) :=
  m.slots.filterMap fun s => s.map fun e => (e.key, e.value)

/-- A call on the map. -/
inductive Op (V : Type) where
  | insert (key : Key) (value : V)
  | tryInsert (key : Key) (value : V)
  | remove (key : Key)
  | get (key : Key)
  | getMut (key : Key) (f : V → V)
  | clear
  | len
  | iter

/-- What a call returns. -/
inductive Out (V : Type) where
  | insert (r : Except CollisionError (Option V))
  | tryInsert (r : Except (TryInsertError V) V)
  | remove (r : Option V)
  | get (r : Option V)
  | getMut (r : Option V)
  | clear
  | len (n : Nat)
  | iter (entries : List (Key × V))

/-- One call on the map. -/
def step (m : PerfectHashMap V) : Op V → Except String (Out V × PerfectHashMap V)
  | .insert k v => do
    let (r, m') ← m.insert k v
    return (.insert r, m')
  | .tryInsert k v => do
    let (r, m') ← m.tryInsert k v
    return (.tryInsert r, m')
  | .remove k => let (r, m') := m.remove k; return (.remove r, m')
  | .get k => return (.get (m.get k), m)
  | .getMut k f => let (r, m') := m.getMut k f; return (.getMut r, m')
  | .clear => return (.clear, m.clear)
  | .len => return (.len m.len, m)
  | .iter => return (.iter m.iter, m)

end PerfectHashMap

end OtelNetwork
