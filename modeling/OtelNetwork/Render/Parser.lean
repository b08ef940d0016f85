import OtelNetwork.PerfectHashMap.Basic
import OtelNetwork.Lib.Endian

/-!
# `render_parser`: framing and dispatch of render messages

A model of `crates/render_parser/src/lib.rs` and `message.rs`. A parser is a `PerfectHashMap`
from the `u32` of a message's `_rpc_id` to its metadata and a user value; `handle` reads one
message from the front of a buffer: an 8-byte timestamp, then the message, whose first two bytes
are its `_rpc_id` and, for a dynamic message, whose next two are its length `_len`. Both are read
in the machine's native byte order, the parameter `o`. A slice `&data[a..b]` is
`(data.take b).drop a`, and `usize` lengths are naturals.
-/

namespace OtelNetwork.RenderParser

open RustSem PerfectHashMap

instance neZeroFixedSizeBound : NeZero (2 ^ 64 - 8) := ⟨by decide⟩

/-- `Size`: a fixed size after the timestamp, or a size read from `_len`. A fixed size is a `usize`
    below `usize::MAX - 7`: for a larger one, `handle`'s `8usize + n` overflows and panics (in a
    debug build, or at `&data[8..need]` in a release one), so the model registers only these. -/
inductive Size where
  | fixed (n : Fin (2 ^ 64 - 8))
  | dynamic
deriving DecidableEq, Repr

/-- `MessageMetadata`. -/
structure MessageMetadata where
  rpcId : UInt16
  size : Size
deriving DecidableEq, Repr

namespace MessageMetadata

/-- `MessageMetadata::new_fixed`; the third parameter is ignored. -/
def newFixed (rpcId : UInt16) (size : Fin (2 ^ 64 - 8)) (_needsAuth : Bool) : MessageMetadata :=
  ⟨rpcId, .fixed size⟩

/-- `MessageMetadata::new_dynamic`; the second parameter is ignored. -/
def newDynamic (rpcId : UInt16) (_needsAuth : Bool) : MessageMetadata :=
  ⟨rpcId, .dynamic⟩

end MessageMetadata

/-- `Error`, the error of `Parser::handle`. -/
inductive Error where
  | bufferTooSmall
  | messageNotRegistered (rpcId : UInt16)
  | invalidLength (rpcId len : UInt16)
deriving DecidableEq, Repr

/-- `Entry<V>`. -/
structure Entry (V : Type) where
  metadata : MessageMetadata
  value : V

/-- `HandleOk`: the message after the timestamp, the value registered for it, and the
    timestamp. -/
structure HandleOk (V : Type) where
  message : List UInt8
  value : V
  timestamp : UInt64

/-- `Parser<V, F>`. -/
structure Parser (V : Type) where
  map : PerfectHashMap (Entry V)

namespace Parser

variable {V : Type}

/-- `Parser::new`. -/
def new (hashSize : Nat) (hash : Key → UInt32) : Parser V :=
  ⟨PerfectHashMap.new hashSize hash⟩

/-- `Parser::add_message`: the map's `insert`, with the old entry's value. It panics where the
    map's `insert` does. -/
def addMessage (p : Parser V) (metadata : MessageMetadata) (value : V) :
    Except String (Except CollisionError (Option V) × Parser V) := do
  let key := metadata.rpcId.toUInt32
  let (r, map) ← p.map.insert key { metadata, value }
  return (r.map fun opt => opt.map Entry.value, ⟨map⟩)

/-- The registration the apps' message handlers make: `let _ = parser.add_message(..)` for each
    message in turn, its answer dropped. -/
def addMessages (p : Parser V) : List (MessageMetadata × V) → Except String (Parser V)
  | [] => pure p
  | (metadata, value) :: rest => do
    let (_, p) ← p.addMessage metadata value
    p.addMessages rest

/-- `Parser::handle` on a machine of byte order `o`. -/
def handle (p : Parser V) (o : Endian) (data : List UInt8) : Except Error (HandleOk V) := do
  -- timestamp and `_rpc_id`
  if data.length < 8 + 2 then throw .bufferTooSmall
  let timestamp := o.u64FromBytes (data.take 8)
  let rpcId := o.u16FromBytes ((data.take 10).drop 8)
  let key := rpcId.toUInt32
  let entry ← match p.map.get key with
    | some e => pure e
    | none => throw (.messageNotRegistered rpcId)
  let msgSlice ← match entry.metadata.size with
    | .fixed n =>
      let need := 8 + n.val
      if data.length < need then throw .bufferTooSmall
      pure ((data.take need).drop 8)
    | .dynamic => do
      if data.length < 8 + 4 then throw .bufferTooSmall
      let lenField := o.u16FromBytes ((data.take 12).drop 10)
      if lenField < 4 then throw (.invalidLength rpcId lenField)
      let need := 8 + lenField.toNat
      if data.length < need then throw .bufferTooSmall
      pure ((data.take need).drop 8)
  return { message := msgSlice, value := entry.value, timestamp }

end Parser

end OtelNetwork.RenderParser
