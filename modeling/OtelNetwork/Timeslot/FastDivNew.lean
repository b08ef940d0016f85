import OtelNetwork.Timeslot.CppVirtualClock
import Mathlib

/-!
# Constructing a fast divider from a division amount

A model of `FastDiv::new(amt, required_bits)` in `crates/timeslot/src/fast_div.rs` and of the C++
constructor `fast_div::fast_div(double amt, uint32_t required_bits)` in `util/fast_div.h`. Both
compute in `f64`; here `log2`, `floor` and the division are the exact operations on reals, and
`2^shift` converted to `f64` is exact. The casts to `u32` differ: Rust's `as u32` saturates
(`asU32`), while the C++ conversion of a value out of range is undefined (`toU32`), and so is the
C++ shift `1ull << shift_` by 64 or more.
-/

namespace OtelNetwork

open RustSem CppSem

/-- `FastDiv::new`: `bits_removed = amt.log2().floor() as u32`,
    `shift = 64u32.saturating_sub(required_bits).min(32 + bits_removed)` and
    `mul = ((1u64 << shift) as f64 / amt) as u32`. -/
noncomputable def FastDiv.new (amt : ℝ) (requiredBits : UInt32) : FastDiv :=
  let bitsRemoved := asU32 (⌊Real.logb 2 amt⌋ : ℝ)
  -- `64u32.saturating_sub(required_bits)`
  let shift := min (if requiredBits ≤ 64 then 64 - requiredBits else 0) (32 + bitsRemoved)
  let twoPowShift : ℝ := ((1 : UInt64) <<< shift.toUInt64).toNat
  { mul := asU32 (twoPowShift / amt), shift }

/-- `fast_div::fast_div(double amt, uint32_t required_bits)`: `bits_removed = (uint32_t)log2(amt)`,
    `shift_ = min(64 - required_bits, 32 + bits_removed)` in `uint32_t` and
    `mul_ = (uint32_t)((double)(1ull << shift_) / amt)`. -/
noncomputable def Cpp.FastDiv.new (amt : ℝ) (requiredBits : UInt32) : Except String Cpp.FastDiv := do
  let bitsRemoved ← toU32 (Real.logb 2 amt)
  let shift := min (64 - requiredBits) (32 + bitsRemoved)
  if shift.toNat < 64 then
    let mul ← toU32 ((2 : ℝ) ^ shift.toNat / amt)
    return ⟨mul, shift⟩
  else
    .error "shift count >= width of type"

end OtelNetwork
