import OtelNetwork.Lib.Word64

/-!
# `IterableBitmap`: a bitmap with summary levels

A model of `util/iterable_bitmap.h`, with the bit helpers of `platform/generic.h` it uses. Level
`0` has one bit per index; each level above has one bit per word of the level below, set when
that word is nonzero, and the top level is a single word. `set` and `clear` keep the levels
above in step with level `0`; the iterator walks down from the top word along the lowest bits,
and `operator++` drops the bit it stood on, climbs while a level's word runs out, and walks down
again.

`SIZE` is the parameter `size` of each operation, and `mask{k}` is `masks k`, its words indexed
by position. The source writes the levels out one by one; here level `k` is a number, and a
step the source repeats for levels `1` to `4` is written once for level `k`, read where the
source writes it for `k = 1, 2, 3, 4`. The iterator's arrays `i` and `mask` are functions of the
level, the bitmap it points to is passed to `operator++`, and `end()` is only read through
`operator!=`, which looks at the left side only.
-/

namespace OtelNetwork

open Word64

/-- `__set_bit64(nr, addr)`. -/
def setBit64 (addr : Nat → UInt64) (nr : Nat) : Nat → UInt64 :=
  Function.update addr (nr / 64) (addr (nr / 64) ||| ((1 : UInt64) <<< UInt64.ofNat (nr % 64)))

/-- `__clear_bit64(nr, addr)`. -/
def clearBit64 (addr : Nat → UInt64) (nr : Nat) : Nat → UInt64 :=
  Function.update addr (nr / 64) (addr (nr / 64) &&& ~~~((1 : UInt64) <<< UInt64.ofNat (nr % 64)))

/-- `test_bit(nr, addr)`, on words of 64 bits. -/
def testBit (addr : Nat → UInt64) (nr : Nat) : Nat :=
  ((addr (nr / 64) >>> UInt64.ofNat (nr % 64)) &&& 1).toNat

namespace IterableBitmap

/-- `l0`: one word for every `2^6` bits. -/
def l0 (size : Nat) : Nat := (size + 63) / 64

/-- `l1`: one word for every `2^12` bits. -/
def l1 (size : Nat) : Nat := if l0 size = 1 then 0 else (l0 size + 63) / 64

/-- `l2`: one word for every `2^18` bits. -/
def l2 (size : Nat) : Nat := if l1 size = 1 then 0 else (l1 size + 63) / 64

/-- `l3`: one word for every `2^24` bits. -/
def l3 (size : Nat) : Nat := if l2 size = 1 then 0 else (l2 size + 63) / 64

/-- `l4`: one word for every `2^30` bits. -/
def l4 (size : Nat) : Nat := if l3 size = 1 then 0 else (l3 size + 63) / 64

/-- The number of words of level `k`, `l{k}`; there is no level past `4`. -/
def wordCount (size : Nat) : Nat → Nat
  | 0 => l0 size
  | 1 => l1 size
  | 2 => l2 size
  | 3 => l3 size
  | 4 => l4 size
  | _ => 0

/-- `l{k} > 0`. -/
def hasLevel (size k : Nat) : Bool := 0 < wordCount size k

/-- `levels`. -/
def levels (size : Nat) : Nat :=
  if l4 size > 0 then 5 else if l3 size > 0 then 4 else if l2 size > 0 then 3
  else if l1 size > 0 then 2 else 1

end IterableBitmap

/-- `IterableBitmap<SIZE>`: `masks k` is `mask{k}`. -/
structure IterableBitmap where
  masks : Nat → Nat → UInt64

namespace IterableBitmap

/-- `IterableBitmap()`: every word zero. -/
def new : IterableBitmap := ⟨fun _ _ => 0⟩

/-- Level `k`'s words replaced. -/
def setLevel (b : IterableBitmap) (k : Nat) (words : Nat → UInt64) : IterableBitmap :=
  ⟨Function.update b.masks k words⟩

/-- `if (l{k} > 0) __set_bit64(index >> 6k, mask{k}.data());` -/
def setSummary (size index : Nat) (b : IterableBitmap) (k : Nat) : IterableBitmap :=
  if hasLevel size k then b.setLevel k (setBit64 (b.masks k) (index >>> (6 * k))) else b

/-- `IterableBitmap::set`. -/
def set (b : IterableBitmap) (size index : Nat) : IterableBitmap :=
  [1, 2, 3, 4].foldl (setSummary size index) (b.setLevel 0 (setBit64 (b.masks 0) index))

/-- `if ((l{k} > 0) && (mask{k-1}[index >> 6k] == 0)) __clear_bit64(index >> 6k, mask{k}.data());`
    The test reads level `k - 1` as the lines before left it. -/
def clearSummary (size index : Nat) (b : IterableBitmap) (k : Nat) : IterableBitmap :=
  if hasLevel size k ∧ b.masks (k - 1) (index >>> (6 * k)) = 0 then
    b.setLevel k (clearBit64 (b.masks k) (index >>> (6 * k)))
  else b

/-- `IterableBitmap::clear`. -/
def clear (b : IterableBitmap) (size index : Nat) : IterableBitmap :=
  [1, 2, 3, 4].foldl (clearSummary size index) (b.setLevel 0 (clearBit64 (b.masks 0) index))

/-- `IterableBitmap::get`. -/
def get (b : IterableBitmap) (index : Nat) : Nat := testBit (b.masks 0) index

/-- `IterableBitmap::iterator`: `i k` and `mask k` are `i[k]` and `mask[k]`. -/
structure Iterator where
  i : Nat → Nat
  mask : Nat → UInt64

/-- The walk down shared by `begin()` and `operator++`, from level `k`: the lowest bit of
    `mask[k]` names a word of level `k - 1`, which becomes `mask[k - 1]`, and `i[k]` keeps that
    word's position shifted to the first index it covers; at level `0`, `i[0]` is the index. -/
def descend (b : IterableBitmap) (size : Nat) : Nat → Iterator → Iterator
  | 0, it =>
    let i0 := ctz (it.mask 0) + if hasLevel size 1 then it.i 1 else 0
    { it with i := Function.update it.i 0 i0 }
  | k + 1, it =>
    let ik := ctz (it.mask (k + 1)) + if hasLevel size (k + 2) then it.i (k + 2) else 0
    b.descend size k
      { i := Function.update it.i (k + 1) (ik <<< 6),
        mask := Function.update it.mask k (b.masks k ik) }

/-- `IterableBitmap::begin`. -/
def begin (b : IterableBitmap) (size : Nat) : Iterator :=
  -- the root is the one word of the top level
  let root := b.masks (levels size - 1) 0
  let res : Iterator :=
    { i := fun _ => 0, mask := Function.update (fun _ => 0) (levels size - 1) root }
  if root = 0 then res else b.descend size (levels size - 1) res

/-- The climb of `operator++` from level `k`, with `n + 1` levels from `k` to the top: drop
    the lowest bit of `mask[k]`; a word that runs out sends the climb a level up, unless `k` is
    the top (`levels == k + 1`), and a word with bits left is walked down from. -/
def climb (b : IterableBitmap) (size : Nat) (k : Nat) : Nat → Iterator → Iterator
  | 0, it => it
  | n + 1, it =>
    let m := it.mask k &&& (it.mask k - 1)
    let it := { it with mask := Function.update it.mask k m }
    if m = 0 then
      if n = 0 then it else b.climb size (k + 1) n it
    else b.descend size k it

/-- `iterator::operator++`. -/
def next (b : IterableBitmap) (size : Nat) (it : Iterator) : Iterator :=
  b.climb size 0 (levels size) it

/-- `iterator::operator!=`, with `end()` on the right. -/
def Iterator.neEnd (it : Iterator) (size : Nat) : Bool := it.mask (levels size - 1) != 0

/-- A call on the bitmap. -/
inductive Op where
  | set (index : Nat)
  | clear (index : Nat)

/-- The index a call names. -/
def Op.index : Op → Nat
  | .set index => index
  | .clear index => index

/-- Making a call. -/
def Op.apply (size : Nat) (b : IterableBitmap) : Op → IterableBitmap
  | .set index => b.set size index
  | .clear index => b.clear size index

/-- The bitmap a sequence of calls leaves, from `IterableBitmap()`. -/
def run (size : Nat) (ops : List Op) : IterableBitmap := ops.foldl (Op.apply size) new

end IterableBitmap

end OtelNetwork
