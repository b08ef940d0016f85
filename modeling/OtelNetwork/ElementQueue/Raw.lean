import Mathlib.Logic.Function.Basic

/-!
# `element-queue`: the raw queue and its batches

A model of `crates/element-queue/src/raw.rs`. The shared memory of a queue is its header of four
published indices (`ElementQueueShared`), the element ring of `n_elems` lengths and the data
buffer of `buf_len` bytes. Each side holds an `ElementQueue` handle with its own cached copies of
the indices; a batch keeps local copies of the side's own indices and publishes them on `finish`.
All indices are free-running `u32` counters, wrapped by the masks.

Arithmetic is that of Rust's release builds: `u32` additions wrap, and the `debug_assert!`s of
`start_write` are not checked. Slicing past the end of the data buffer panics, the error side
of `Except String`. A returned slice is described by its start in the data buffer; its length is
the requested one.
-/

namespace OtelNetwork

/-- `EqError`. -/
inductive EqError where
  | invalidArg
  | noSpace
  | noEntry
  | tryAgain
  | unexpected
deriving DecidableEq, Repr

/-- `EqError::code`: the crate's `errno` constants, which are negative. -/
def EqError.code : EqError → Int
  | .invalidArg => -22
  | .noSpace => -28
  | .noEntry => -2
  | .tryAgain => -11
  | .unexpected => -38

/-- `ElementQueueShared`: the indices each side publishes. -/
structure EqShared where
  elemHead : UInt32
  bufHead : UInt32
  elemTail : UInt32
  bufTail : UInt32
deriving DecidableEq, Repr

/-- The shared memory: the header, the element ring and the data buffer. -/
structure EqMemory where
  shared : EqShared
  elems : Nat → UInt32
  data : Nat → UInt8

/-- `ElementQueue`: one side's handle, without its pointers. -/
structure ElementQueue where
  elemMask : UInt32
  bufMask : UInt32
  elemHead : UInt32
  bufHead : UInt32
  elemTail : UInt32
  bufTail : UInt32
deriving DecidableEq, Repr

/-- `WriteBatch`: the producer's local tails. -/
structure WriteBatch where
  elemTail : UInt32
  bufTail : UInt32
deriving DecidableEq, Repr

/-- `ReadBatch`: the consumer's local heads. -/
structure ReadBatch where
  elemHead : UInt32
  bufHead : UInt32
deriving DecidableEq, Repr

/-- The bytes of the data buffer from `start`, `len` of them. -/
def dataSlice (data : Nat → UInt8) (start len : Nat) : List UInt8 :=
  (List.range len).map fun j => data (start + j)

namespace ElementQueue

/-- `ElementQueue::new_from_contiguous` over memory whose header holds `shared` (the null check of
    the pointer is not modelled). -/
def newFromContiguous (nElems bufLen : UInt32) (shared : EqShared) : Except EqError ElementQueue :=
  if nElems = 0 ∨ nElems &&& (nElems - 1) ≠ 0 then .error .invalidArg
  else if bufLen = 0 ∨ bufLen &&& (bufLen - 1) ≠ 0 then .error .invalidArg
  else .ok ⟨nElems - 1, bufLen - 1, shared.elemHead, shared.bufHead, shared.elemTail,
    shared.bufTail⟩

/-- `(len + 7) & !7`. -/
def alignedLen (len : UInt32) : UInt32 := (len + 7) &&& ~~~7

/-- `ElementQueue::__next_offset_by_len`: the offset itself, or the start of the next page of the
    buffer when an element of `len` bytes there would cross the end of its page. -/
def nextOffsetByLen (bufOffset bufMask len : UInt32) : UInt32 :=
  let end_ := bufOffset + len - 1
  let pageEnd := end_ &&& ~~~bufMask
  let pageStart := bufOffset &&& ~~~bufMask
  if (pageEnd - pageStart).toInt32 > 0 then pageEnd else bufOffset

/-- `ElementQueue::start_write`: the consumer's published heads are loaded. -/
def startWrite (q : ElementQueue) (shared : EqShared) : ElementQueue × WriteBatch :=
  let q := { q with elemHead := shared.elemHead, bufHead := shared.bufHead }
  (q, ⟨q.elemTail, q.bufTail⟩)

/-- `ElementQueue::start_read`: the producer's published element tail is loaded. -/
def startRead (q : ElementQueue) (shared : EqShared) : ElementQueue × ReadBatch :=
  let q := { q with elemTail := shared.elemTail }
  (q, ⟨q.elemHead, q.bufHead⟩)

end ElementQueue

open ElementQueue

namespace WriteBatch

/-- `WriteBatch::write`: reserves an element of `len` bytes. On success the element's length is
    in the ring and the answer is the start of its slice. -/
def write (q : ElementQueue) (elems : Nat → UInt32) (b : WriteBatch) (len : UInt32) :
    Except String (Except EqError (Nat × WriteBatch × (Nat → UInt32))) := do
  let alignedLen := alignedLen len
  if alignedLen > q.bufMask then return .error .invalidArg
  if b.elemTail - q.elemHead ≥ q.elemMask + 1 then return .error .noSpace
  let bufTail := nextOffsetByLen b.bufTail q.bufMask alignedLen
  let used := bufTail + alignedLen - q.bufHead
  if used > q.bufMask + 1 then return .error .noSpace
  let idx := (b.elemTail &&& q.elemMask).toNat
  let elems := Function.update elems idx len
  let start := (bufTail &&& q.bufMask).toNat
  if start + len.toNat > q.bufMask.toNat + 1 then
    throw "range end index out of range for slice"
  return .ok (start, ⟨b.elemTail + 1, bufTail + alignedLen⟩, elems)

/-- `WriteBatch::finish`: commits the local tails and publishes them. -/
def finish (q : ElementQueue) (shared : EqShared) (b : WriteBatch) : ElementQueue × EqShared :=
  let q := { q with elemTail := b.elemTail, bufTail := b.bufTail }
  (q, { shared with bufTail := q.bufTail, elemTail := q.elemTail })

end WriteBatch

namespace ReadBatch

/-- `ReadBatch::peek_len`. -/
def peekLen (q : ElementQueue) (elems : Nat → UInt32) (b : ReadBatch) : Except EqError UInt32 :=
  if q.elemTail = b.elemHead then .error .noEntry
  else .ok (elems (b.elemHead &&& q.elemMask).toNat)

/-- `ReadBatch::peek`: the next element's bytes. -/
def peek (q : ElementQueue) (m : EqMemory) (b : ReadBatch) :
    Except String (Except EqError (List UInt8)) :=
  match peekLen q m.elems b with
  | .error e => return .error e
  | .ok len => do
    let alignedLen := alignedLen len
    let offset := nextOffsetByLen b.bufHead q.bufMask alignedLen &&& q.bufMask
    let start := offset.toNat
    if start + len.toNat > q.bufMask.toNat + 1 then
      throw "range end index out of range for slice"
    return .ok (dataSlice m.data start len.toNat)

/-- `ReadBatch::read`: the next element's bytes, and the local heads moved past it. -/
def read (q : ElementQueue) (m : EqMemory) (b : ReadBatch) :
    Except String (Except EqError (List UInt8 × ReadBatch)) :=
  match peekLen q m.elems b with
  | .error e => return .error e
  | .ok len => do
    let alignedLen := alignedLen len
    let offset := nextOffsetByLen b.bufHead q.bufMask alignedLen
    let start := (offset &&& q.bufMask).toNat
    if start + len.toNat > q.bufMask.toNat + 1 then
      throw "range end index out of range for slice"
    return .ok (dataSlice m.data start len.toNat, ⟨b.elemHead + 1, offset + alignedLen⟩)

/-- `ReadBatch::finish`: commits the local heads and publishes them. -/
def finish (q : ElementQueue) (shared : EqShared) (b : ReadBatch) : ElementQueue × EqShared :=
  let q := { q with elemHead := b.elemHead, bufHead := b.bufHead }
  (q, { shared with bufHead := q.bufHead, elemHead := q.elemHead })

end ReadBatch

end OtelNetwork
