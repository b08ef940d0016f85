import OtelNetwork.ElementQueue.Raw
import OtelNetwork.Lib.Cpp

/-!
# `element_queue.c`: the C element queue

A model of `util/element_queue.{h,c}`, of which `Raw` models the Rust port. A
`struct element_queue` holds the six index fields of the Rust `ElementQueue` and pointers into
the same contiguous area, so it is that structure here. The C handle has no batch object:
between `eq_start_write_batch` and `eq_finish_write_batch` each `eq_write` moves the handle's own
tails, and each `eq_read` of a read batch its own heads.

A function returns its `int`, a negative `errno` or an offset, with the handle and the element
ring after the call. A `u32` returned as an `int` is converted modulo `2^32`, as the compilers
do. The NULL checks of pointer arguments are left out (every pointer is valid), and the
`assert`s of the batch functions are compiled out.
-/

namespace OtelNetwork.CElementQueue

/-- A `u32` returned as an `int`. -/
def toInt (x : UInt32) : Int := x.toInt32.toInt

/-- `__eq_next_offset_by_len`. -/
def eqNextOffsetByLen (bufOffset bufMask len : UInt32) : UInt32 :=
  -- an element that would cross the end of its page starts at the next page
  if (((bufOffset + len - 1) &&& ~~~bufMask) - (bufOffset &&& ~~~bufMask)).toInt32 > 0 then
    (bufOffset + len - 1) &&& ~~~bufMask
  else bufOffset

/-- `eq_init_contig(eq, n_elems, buf_len, data)` over an area whose header holds `shared`: `0`
    and the handle, or `-EINVAL`. -/
def eqInitContig (nElems bufLen : UInt32) (shared : EqShared) : Int × Option ElementQueue :=
  if nElems &&& (nElems - 1) ≠ 0 then (-CppSem.EINVAL, none)
  else if bufLen &&& (bufLen - 1) ≠ 0 then (-CppSem.EINVAL, none)
  else
    (0, some ⟨nElems - 1, bufLen - 1, shared.elemHead, shared.bufHead, shared.elemTail,
      shared.bufTail⟩)

/-- `eq_write(eq, len)`. -/
def eqWrite (eq : ElementQueue) (elems : Nat → UInt32) (len : UInt32) :
    Int × ElementQueue × (Nat → UInt32) :=
  let alignedLen := (len + 7) &&& ~~~7
  if alignedLen > eq.bufMask then (-CppSem.EINVAL, eq, elems)
  else if eq.elemTail - eq.elemHead ≥ eq.elemMask + 1 then (-CppSem.ENOSPC, eq, elems)
  else
    let bufMask := eq.bufMask
    let bufTail := eqNextOffsetByLen eq.bufTail bufMask alignedLen
    if bufTail + alignedLen - eq.bufHead > bufMask + 1 then (-CppSem.ENOSPC, eq, elems)
    else
      (toInt (bufTail &&& bufMask),
        { eq with bufTail := bufTail + alignedLen, elemTail := eq.elemTail + 1 },
        Function.update elems (eq.elemTail &&& eq.elemMask).toNat len)

/-- `eq_peek(eq)`. -/
def eqPeek (eq : ElementQueue) (elems : Nat → UInt32) : Int :=
  if eq.elemTail = eq.elemHead then -CppSem.ENOENT
  else toInt (elems (eq.elemHead &&& eq.elemMask).toNat)

/-- `eq_read(eq, lenp)`, with what it stores in `*lenp` and the handle after it. -/
def eqRead (eq : ElementQueue) (elems : Nat → UInt32) : Int × Option UInt32 × ElementQueue :=
  if eq.elemTail = eq.elemHead then (-CppSem.EAGAIN, none, eq)
  else
    let len := elems (eq.elemHead &&& eq.elemMask).toNat
    let eq := { eq with elemHead := eq.elemHead + 1 }
    let alignedLen := (len + 7) &&& ~~~7
    let bufMask := eq.bufMask
    let offset := eqNextOffsetByLen eq.bufHead bufMask alignedLen
    (toInt (offset &&& bufMask), some len, { eq with bufHead := offset + alignedLen })

/-- `eq_start_write_batch`: the consumer's published heads are loaded. -/
def eqStartWriteBatch (eq : ElementQueue) (shared : EqShared) : ElementQueue :=
  { eq with elemHead := shared.elemHead, bufHead := shared.bufHead }

/-- `eq_finish_write_batch`: the tails are published. -/
def eqFinishWriteBatch (eq : ElementQueue) (shared : EqShared) : EqShared :=
  { shared with bufTail := eq.bufTail, elemTail := eq.elemTail }

/-- `eq_start_read_batch`: the producer's published element tail is loaded. -/
def eqStartReadBatch (eq : ElementQueue) (shared : EqShared) : ElementQueue :=
  { eq with elemTail := shared.elemTail }

/-- `eq_finish_read_batch`: the heads are published. -/
def eqFinishReadBatch (eq : ElementQueue) (shared : EqShared) : EqShared :=
  { shared with bufHead := eq.bufHead, elemHead := eq.elemHead }

end OtelNetwork.CElementQueue
