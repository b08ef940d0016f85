import OtelNetwork.Timeslot.VirtualClock
import OtelNetwork.Lib.Cpp

/-!
# The C++ virtual clock

A model of `reducer/util/virtual_clock.{h,cc}` and of the division by a `fast_div` in
`util/fast_div.h` that it uses. The clock is the one the Rust crate ports: a vector of inputs,
each with an optional `u16` timeslot, and an optional current timeslot.

The C++ code gets its arithmetic on the 16-bit ring from the promotions of `u16` and `s16` to
`int` and the narrowing back on assignment (`castS16`, `castU16`). `inputs_.at(i)` throws past
the end, and `*` on an empty optional is undefined behaviour; both are the error side of
`Except String`, and so is a shift by 64 or more in the division. `update` answers `0`, `-EPERM`
or `-EINVAL`.
-/

namespace OtelNetwork.Cpp

open CppSem RustSem

/-- `fast_div`: `mul_` and `shift_`. -/
structure FastDiv where
  mul : UInt32
  shift : UInt32
deriving DecidableEq, Repr

/-- `operator/(uint64_t x, const fast_div &divisor)`: `(uint32_t)((x * mul_) >> shift_)`, the
    product in `uint64_t`. A shift by the width or more is undefined. -/
def FastDiv.divide (x : UInt64) (d : FastDiv) : Except String UInt32 :=
  if d.shift.toNat < 64 then .ok ((x * d.mul.toUInt64) >>> d.shift.toUInt64).toUInt32
  else .error "shift count >= width of type"

/-- `VirtualClock::Input`. -/
structure VirtualClock.Input where
  timeslot : Option UInt16
deriving DecidableEq, Repr

/-- `VirtualClock`. `timeslot_duration_` is read only by its getter. -/
structure VirtualClock where
  inputs : List VirtualClock.Input
  divider : FastDiv
  currentTimeslot : Option UInt16
deriving DecidableEq, Repr

namespace VirtualClock

/-- `VirtualClock(divider)`. -/
def new (divider : FastDiv) : VirtualClock :=
  { inputs := [], divider, currentTimeslot := none }

/-- `add_inputs`: `inputs_.resize(inputs_.size() + n)`. -/
def addInputs (c : VirtualClock) (n : Nat) : VirtualClock :=
  { c with inputs := c.inputs ++ List.replicate n ⟨none⟩ }

/-- `is_current`: the `&&` reads the input only when the clock is set. -/
def isCurrent (c : VirtualClock) (inputIndex : Nat) : Except String Bool :=
  if c.currentTimeslot.isSome then do
    let input ← vectorAt c.inputs inputIndex
    return input.timeslot == c.currentTimeslot
  else
    return false

/-- `can_update`. -/
def canUpdate (c : VirtualClock) (inputIndex : Nat) : Except String Bool := do
  let input ← vectorAt c.inputs inputIndex
  return input.timeslot == c.currentTimeslot

/-- Writes input `i` through the reference `inputs_.at(i)` holds. -/
def setInput (c : VirtualClock) (i : Nat) (input : Input) : VirtualClock :=
  { c with inputs := c.inputs.set i input }

/-- `update`: the input is checked before the timestamp is divided. -/
def update (c : VirtualClock) (inputIndex : Nat) (timestamp : UInt64) :
    Except String (Int × VirtualClock) := do
  let input ← vectorAt c.inputs inputIndex
  if input.timeslot != c.currentTimeslot then
    return (-EPERM, c)
  let timeslot := (← FastDiv.divide timestamp c.divider).toUInt16
  match input.timeslot with
  | some old =>
    -- `(timeslot_diff_t)timeslot - *input.timeslot` is computed in `int`
    let timeslotDiff := castS16 (timeslot.toInt16.toInt - old.toNat)
    if timeslotDiff ≥ 0 then
      return (0, c.setInput inputIndex ⟨some (castU16 (old.toNat + timeslotDiff.toInt))⟩)
    else
      return (-EINVAL, c)
  | none => return (0, c.setInput inputIndex ⟨some timeslot⟩)

/-- The loop of `min_input_advance`: `nullopt` as soon as an input is unset. The current
    timeslot is read in each turn. -/
def minInputAdvanceLoop (cur : Option UInt16) :
    Option Int16 → List Input → Except String (Option Int16)
  | minAdvance, [] => return minAdvance
  | minAdvance, input :: inputs =>
    match input.timeslot with
    | none => return none
    | some ts => do
      let c ← deref cur
      let advance := castS16 (ts.toInt16.toInt - c.toNat)
      minInputAdvanceLoop cur (minStep minAdvance advance) inputs

/-- `min_input_advance`. -/
def minInputAdvance (c : VirtualClock) : Except String (Option Int16) :=
  minInputAdvanceLoop c.currentTimeslot none c.inputs

/-- The first loop of `earliest_input_timeslot`: `nullopt` (the outer `none`) as soon as an
    input is unset, and otherwise the least timeslot, `nullopt` for no inputs. -/
def earliestLoop : Option UInt16 → List Input → Option (Option UInt16)
  | minTimeslot, [] => some minTimeslot
  | minTimeslot, input :: inputs =>
    match input.timeslot with
    | none => none
    | some ts => earliestLoop (minStep minTimeslot ts) inputs

/-- `earliest_input_timeslot`. -/
def earliestInputTimeslot (c : VirtualClock) : Except String (Option UInt16) :=
  match earliestLoop none c.inputs with
  | none => return none
  | some minTimeslot => do
    let minDiff ← c.inputs.foldlM (fun (minDiff : Option Int16) input => do
        let ts ← deref input.timeslot
        let m ← deref minTimeslot
        return minStep minDiff (castS16 (ts.toInt16.toInt - m.toNat))) none
    let m ← deref minTimeslot
    let d ← deref minDiff
    return some (castU16 (m.toNat + d.toInt))

/-- `advance`. -/
def advance (c : VirtualClock) : Except String (Bool × VirtualClock) :=
  match c.currentTimeslot with
  | some cur => do
    let advanceSlots := (← c.minInputAdvance).getD 0
    if advanceSlots > 0 then
      return (true, { c with currentTimeslot := some (castU16 (cur.toNat + advanceSlots.toInt)) })
    else
      return (false, c)
  | none => do
    let e ← c.earliestInputTimeslot
    return (false, { c with currentTimeslot := e })

/-- What a method returns. -/
inductive Answer where
  | unit
  | code (r : Int)
  | bool (b : Bool)
deriving DecidableEq, Repr

/-- One call, with what it returns. -/
def call (c : VirtualClock) : ClockCall → Except String (Answer × VirtualClock)
  | .addInputs n => return (.unit, c.addInputs n)
  | .update i ts => do
    let (r, c') ← c.update i ts
    return (.code r, c')
  | .advance => do
    let (b, c') ← c.advance
    return (.bool b, c')
  | .isCurrent i => do
    let b ← c.isCurrent i
    return (.bool b, c)
  | .canUpdate i => do
    let b ← c.canUpdate i
    return (.bool b, c)

end VirtualClock

end OtelNetwork.Cpp
