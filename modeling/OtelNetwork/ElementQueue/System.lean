import OtelNetwork.ElementQueue.Raw

/-!
# A producer and a consumer sharing one element queue

The queue is used by two processes: one producer writes in batches through its handle, one
consumer reads in batches through its own, and they share only the memory. Each call of either
side is one step, and any interleaving of the two sides' calls is a run. A side sees the other's
indices only through the header, which each side writes only in `finish`.

A batch is open from its `start_*` to its `finish` or to its drop (the guard going out of scope
without `finish`); a call that Rust's borrows rule out (a `write` with no open batch, a second
`start_write` while one is open) changes nothing. The filling of a slice returned by `write` is
part of the `write` step: `fill j` is the byte stored at position `j` of the slice.

A panic stops the run. The events are what the callers see.
-/

namespace OtelNetwork

/-- A call of one of the two sides. -/
inductive EqAction where
  | startWrite
  | write (len : UInt32) (fill : Nat → UInt8)
  | finishWrite
  | dropWrite
  | startRead
  | peekLen
  | peek
  | read
  | finishRead
  | dropRead

/-- What a call returns to its caller. -/
inductive EqEvent where
  | wrote (bytes : List UInt8)
  | writeFailed (e : EqError)
  | writeCommitted
  | writeDropped
  | peekedLen (r : Except EqError UInt32)
  | peeked (r : Except EqError (List UInt8))
  | readOk (bytes : List UInt8)
  | readFailed (e : EqError)
  | readCommitted
  | readDropped

/-- The two processes and their shared memory. -/
structure EqSystem where
  mem : EqMemory
  producer : ElementQueue
  writeBatch : Option WriteBatch
  consumer : ElementQueue
  readBatch : Option ReadBatch

namespace EqSystem

/-- Both handles made by `new_from_contiguous` over zeroed memory whose ring and buffer hold
    `elems` and `data`. -/
def init (nElems bufLen : UInt32) (elems : Nat → UInt32) (data : Nat → UInt8) :
    Except EqError EqSystem := do
  let shared : EqShared := ⟨0, 0, 0, 0⟩
  let producer ← ElementQueue.newFromContiguous nElems bufLen shared
  let consumer ← ElementQueue.newFromContiguous nElems bufLen shared
  return ⟨⟨shared, elems, data⟩, producer, none, consumer, none⟩

/-- The data buffer after the slice from `start` is filled with `len` bytes of `fill`. -/
def fillSlice (data : Nat → UInt8) (start len : Nat) (fill : Nat → UInt8) : Nat → UInt8 :=
  fun k => if start ≤ k ∧ k < start + len then fill (k - start) else data k

/-- One call. -/
def step (s : EqSystem) : EqAction → Except String (Option EqEvent × EqSystem)
  | .startWrite =>
    match s.writeBatch with
    | none =>
      let (q, b) := s.producer.startWrite s.mem.shared
      return (none, { s with producer := q, writeBatch := some b })
    | some _ => return (none, s)
  | .write len fill =>
    match s.writeBatch with
    | none => return (none, s)
    | some b => do
      match ← b.write s.producer s.mem.elems len with
      | .error e => return (some (.writeFailed e), s)
      | .ok (start, b', elems) =>
        let data := fillSlice s.mem.data start len.toNat fill
        return (some (.wrote (dataSlice data start len.toNat)),
          { s with mem := { s.mem with elems, data }, writeBatch := some b' })
  | .finishWrite =>
    match s.writeBatch with
    | none => return (none, s)
    | some b =>
      let (q, shared) := b.finish s.producer s.mem.shared
      return (some .writeCommitted,
        { s with producer := q, mem := { s.mem with shared }, writeBatch := none })
  | .dropWrite =>
    match s.writeBatch with
    | none => return (none, s)
    | some _ => return (some .writeDropped, { s with writeBatch := none })
  | .startRead =>
    match s.readBatch with
    | none =>
      let (q, b) := s.consumer.startRead s.mem.shared
      return (none, { s with consumer := q, readBatch := some b })
    | some _ => return (none, s)
  | .peekLen =>
    match s.readBatch with
    | none => return (none, s)
    | some b => return (some (.peekedLen (b.peekLen s.consumer s.mem.elems)), s)
  | .peek =>
    match s.readBatch with
    | none => return (none, s)
    | some b => do
      let r ← b.peek s.consumer s.mem
      return (some (.peeked r), s)
  | .read =>
    match s.readBatch with
    | none => return (none, s)
    | some b => do
      match ← b.read s.consumer s.mem with
      | .error e => return (some (.readFailed e), s)
      | .ok (bytes, b') => return (some (.readOk bytes), { s with readBatch := some b' })
  | .finishRead =>
    match s.readBatch with
    | none => return (none, s)
    | some b =>
      let (q, shared) := b.finish s.consumer s.mem.shared
      return (some .readCommitted,
        { s with consumer := q, mem := { s.mem with shared }, readBatch := none })
  | .dropRead =>
    match s.readBatch with
    | none => return (none, s)
    | some _ => return (some .readDropped, { s with readBatch := none })

/-- A run: the events, the last state, and the panic that stopped it, if any. -/
def run (s : EqSystem) : List EqAction → List EqEvent × EqSystem × Option String
  | [] => ([], s, none)
  | a :: as =>
    match s.step a with
    | .error e => ([], s, some e)
    | .ok (ev, s') =>
      let (evs, s'', err) := run s' as
      (ev.toList ++ evs, s'', err)

end EqSystem

end OtelNetwork
