import OtelNetwork.Lib.Rust

/-!
# `timeslot`: the fast divider and the virtual clock

A model of `crates/timeslot/src/{fast_div,virtual_clock}.rs`. Timestamps are `u64`; the fast
divider maps them to `u32` by a wrapping multiplication and a shift, and the clock keeps the low
16 bits as a timeslot on the 16-bit ring. The clock has one optional timeslot per input and an
optional current timeslot; an input may be updated only while it is current (or while both are
unset), and the clock advances to the nearest input once every input has moved past it.

Panics (`inputs[i]` past the end, the `unwrap`s of `earliest_input_timeslot`) are the error side
of `Except String`. Here the divider is a parameter, given by its multiplier and shift;
`Timeslot.FastDivNew` models `FastDiv::new`, which computes them in `f64`, over the reals.
`estimated_reciprocal` and `timeslot_duration` are not modelled.
-/

namespace OtelNetwork

open RustSem

/-- `FastDiv`: approximate division by multiplying by `mul` and shifting right by `shift`. -/
structure FastDiv where
  mul : UInt32
  shift : UInt32
deriving DecidableEq, Repr

/-- `FastDiv::divide_u64`: `((x.wrapping_mul(mul as u64)) >> shift) as u32`. A shift of 64 or more
    wraps its amount modulo 64, as Rust's release builds do. -/
def FastDiv.divideU64 (d : FastDiv) (x : UInt64) : UInt32 :=
  ((x * d.mul.toUInt64) >>> d.shift.toUInt64).toUInt32

/-- `FastDiv::remainder`: `d` times the low `shift` bits of `x * mul`, shifted back by `shift`,
    computed in `u128` and narrowed to `u64`. -/
def FastDiv.remainder (fd : FastDiv) (x d : UInt64) : UInt64 :=
  let xm := x * fd.mul.toUInt64
  let mask : UInt64 := if fd.shift = 0 then 0 else ((1 : UInt64) <<< fd.shift.toUInt64) - 1
  let frac := xm &&& mask
  UInt64.ofNat ((d.toNat * frac.toNat) >>> fd.shift.toNat)

/-- Timeslot index type (16-bit ring). -/
abbrev Timeslot := UInt16

/-- Signed timeslot delta (wrap-around aware, via narrowing to `i16`). -/
abbrev TimeslotDiff := Int16

/-- Error codes for `VirtualClock::update`. -/
inductive UpdateError where
  /-- The specified input cannot be updated at this time (EPERM). -/
  | notPermitted
  /-- The supplied timestamp points to a past timeslot (EINVAL). -/
  | pastTimeslot
deriving DecidableEq, Repr

/-- One input of the clock. -/
structure VirtualClock.Input where
  timeslot : Option Timeslot
deriving DecidableEq, Repr

/-- `VirtualClock`. The `timeslot_duration` field is an `f64` read only by its getter. -/
structure VirtualClock where
  inputs : List VirtualClock.Input
  divider : FastDiv
  currentTimeslot : Option Timeslot
deriving DecidableEq, Repr

/-- `signed_delta_u16`: the modular difference on the `u16` ring, narrowed to `i16`. -/
def signedDeltaU16 (new old : Timeslot) : TimeslotDiff := (new - old).toInt16

namespace VirtualClock

/-- `VirtualClock::new`. -/
def new (divider : FastDiv) : VirtualClock :=
  { inputs := [], divider, currentTimeslot := none }

/-- `VirtualClock::add_inputs`: appends `n` unset inputs. -/
def addInputs (c : VirtualClock) (n : Nat) : VirtualClock :=
  { c with inputs := c.inputs ++ List.replicate n ⟨none⟩ }

/-- `VirtualClock::n_inputs`. -/
def nInputs (c : VirtualClock) : Nat := c.inputs.length

/-- `VirtualClock::is_current`. The `&&` does not index the inputs while the clock is unset. -/
def isCurrent (c : VirtualClock) (inputIndex : Nat) : Except String Bool :=
  if c.currentTimeslot.isSome then do
    let input ← index c.inputs inputIndex
    return input.timeslot == c.currentTimeslot
  else
    return false

/-- `VirtualClock::can_update`. -/
def canUpdate (c : VirtualClock) (inputIndex : Nat) : Except String Bool := do
  let input ← index c.inputs inputIndex
  return input.timeslot == c.currentTimeslot

/-- `VirtualClock::map_timestamp`: the divided timestamp truncated to `u16`. -/
def mapTimestamp (c : VirtualClock) (ts : UInt64) : Timeslot :=
  (c.divider.divideU64 ts).toUInt16

/-- Replaces input `i` (the write through `&mut self.inputs[i]`). -/
def setInput (c : VirtualClock) (i : Nat) (input : Input) : VirtualClock :=
  { c with inputs := c.inputs.set i input }

@[simp] theorem setInput_inputs (c : VirtualClock) (i : Nat) (x : Input) :
    (c.setInput i x).inputs = c.inputs.set i x := rfl

@[simp] theorem setInput_divider (c : VirtualClock) (i : Nat) (x : Input) :
    (c.setInput i x).divider = c.divider := rfl

@[simp] theorem setInput_currentTimeslot (c : VirtualClock) (i : Nat) (x : Input) :
    (c.setInput i x).currentTimeslot = c.currentTimeslot := rfl

@[simp] theorem mapTimestamp_setInput (c : VirtualClock) (i : Nat) (x : Input) :
    (c.setInput i x).mapTimestamp = c.mapTimestamp := rfl

/-- `VirtualClock::update`. The outer `Except` is a panic (index out of bounds); the inner result
    is the one the function returns. -/
def update (c : VirtualClock) (inputIndex : Nat) (timestamp : UInt64) :
    Except String (Except UpdateError Unit × VirtualClock) := do
  let newTimeslot := c.mapTimestamp timestamp
  let input ← index c.inputs inputIndex
  if input.timeslot != c.currentTimeslot then
    return (.error .notPermitted, c)
  match input.timeslot with
  | some old =>
    let diff := signedDeltaU16 newTimeslot old
    if diff ≥ 0 then
      return (.ok (), c.setInput inputIndex ⟨some (old + diff.toUInt16)⟩)
    else
      return (.error .pastTimeslot, c)
  | none => return (.ok (), c.setInput inputIndex ⟨some newTimeslot⟩)

/-- `earliest_input_timeslot`: `None` while some input is unset; otherwise the numeric minimum
    `m` of the input timeslots, moved by the most negative narrowed offset of an input from `m`.
    The final `unwrap` panics when there are no inputs. -/
def earliestInputTimeslot (c : VirtualClock) : Except String (Option Timeslot) := do
  if c.inputs.any (fun i => i.timeslot.isNone) then
    return none
  let minTimeslot ← c.inputs.foldlM (fun (m : Option Timeslot) input => do
      let ts ← unwrap input.timeslot
      return minStep m ts) none
  let minTimeslot ← unwrap minTimeslot
  let minDiff ← c.inputs.foldlM (fun (m : Option TimeslotDiff) input => do
      let ts ← unwrap input.timeslot
      return minStep m (signedDeltaU16 ts minTimeslot)) none
  let minDiff ← unwrap minDiff
  return some (minTimeslot + minDiff.toUInt16)

/-- `min_input_advance`: the least narrowed offset of an input from the current timeslot; `None`
    (through `?`) when the clock or some input is unset, and for an empty input list. -/
def minInputAdvance (c : VirtualClock) : Option TimeslotDiff := do
  let cur ← c.currentTimeslot
  let minAdv ← c.inputs.foldlM (fun (m : Option TimeslotDiff) input => do
      let ts ← input.timeslot
      return minStep m (signedDeltaU16 ts cur)) none
  minAdv

/-- `VirtualClock::advance`: moves a set clock forward by the least input offset when that is
    positive (returning `true`); initialises an unset clock to the earliest input timeslot. -/
def advance (c : VirtualClock) : Except String (Bool × VirtualClock) :=
  match c.currentTimeslot with
  | some cur =>
    match c.minInputAdvance with
    | some advanceSlots =>
      if advanceSlots > 0 then
        return (true, { c with currentTimeslot := some (cur + advanceSlots.toUInt16) })
      else
        return (false, c)
    | none => return (false, c)
  | none => do
    let e ← c.earliestInputTimeslot
    return (false, { c with currentTimeslot := e })

end VirtualClock

/-- A call made on the clock once its inputs are added: `update(i, ts)` or `advance()`. -/
inductive ClockOp where
  | update (inputIndex : Nat) (timestamp : UInt64)
  | advance
deriving DecidableEq, Repr

namespace VirtualClock

/-- The state after one call (the returned values are dropped). -/
def step (c : VirtualClock) : ClockOp → Except String VirtualClock
  | .update i ts => do
    let (_, c') ← c.update i ts
    return c'
  | .advance => do
    let (_, c') ← c.advance
    return c'

/-- The state after a sequence of calls. -/
def run (c : VirtualClock) (ops : List ClockOp) : Except String VirtualClock :=
  ops.foldlM step c

end VirtualClock

/-- A call on the whole interface of the clock. -/
inductive ClockCall where
  | addInputs (n : Nat)
  | update (inputIndex : Nat) (timestamp : UInt64)
  | advance
  | isCurrent (inputIndex : Nat)
  | canUpdate (inputIndex : Nat)
deriving DecidableEq, Repr

namespace VirtualClock

/-- What a method returns. -/
inductive Answer where
  | unit
  | update (r : Except UpdateError Unit)
  | bool (b : Bool)
deriving DecidableEq, Repr

/-- One call, with what it returns. -/
def call (c : VirtualClock) : ClockCall → Except String (Answer × VirtualClock)
  | .addInputs n => return (.unit, c.addInputs n)
  | .update i ts => do
    let (r, c') ← c.update i ts
    return (.update r, c')
  | .advance => do
    let (b, c') ← c.advance
    return (.bool b, c')
  | .isCurrent i => do
    let b ← c.isCurrent i
    return (.bool b, c)
  | .canUpdate i => do
    let b ← c.canUpdate i
    return (.bool b, c)

end VirtualClock

end OtelNetwork
