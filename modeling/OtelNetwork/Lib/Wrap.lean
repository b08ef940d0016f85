import Mathlib

/-!
# Modular counters and their signed readings

Counters that run freely on a `2 ^ w`-element ring are compared by a wrapped subtraction, which
is then either read back unsigned (how far ahead one counter is) or narrowed to a signed integer
of the same width (whether it is ahead or behind). This file fixes the vocabulary for the 16-bit
case: `dist16 a b` is the number of increments from `a` to `b`, and the narrowed difference
`(b - a).toInt16` is non-negative exactly when `b` lies less than half the ring ahead of `a`.

A *cyclic window* of `w` slots starting at `base` is the set of values at most `w - 1` increments
after `base`; two values of a window of at most half the ring are ordered by their distances from
its base, which is what makes signed comparisons meaningful inside it.
-/

namespace Wrap

/-- The forward distance from `a` to `b` on the 16-bit ring. -/
def dist16 (a b : UInt16) : Nat := (b - a).toNat

theorem dist16_lt (a b : UInt16) : dist16 a b < 2 ^ 16 := (b - a).toNat_lt

theorem dist16_eq (a b : UInt16) : dist16 a b = (2 ^ 16 - a.toNat + b.toNat) % 2 ^ 16 := by
  simp [dist16, UInt16.toNat_sub]

@[simp]
theorem dist16_self (a : UInt16) : dist16 a a = 0 := by
  simp [dist16]

@[simp]
theorem dist16_add_right (a x : UInt16) : dist16 a (a + x) = x.toNat := by
  simp [dist16]

/-- Moving the origin forward along the way to `c` shortens the distance to `c` accordingly. -/
theorem dist16_sub_of_le {a b c : UInt16} (h : dist16 a b ≤ dist16 a c) :
    dist16 b c = dist16 a c - dist16 a b := by
  simp only [dist16_eq] at *
  have := a.toNat_lt; have := b.toNat_lt; have := c.toNat_lt
  omega

/-- Narrowing a wrapped difference to `i16` reads the distance in two's complement. -/
theorem toInt_toInt16_sub (a b : UInt16) :
    (b - a).toInt16.toInt =
      if dist16 a b < 2 ^ 15 then (dist16 a b : Int) else (dist16 a b : Int) - 2 ^ 16 := by
  have h := BitVec.toInt_eq_toNat_cond (b - a).toBitVec
  simp only [Int16.toInt, UInt16.toBitVec_toInt16, dist16, h, UInt16.toNat_toBitVec]
  split_ifs <;> first | rfl | omega

theorem toInt16_sub_nonneg_iff (a b : UInt16) : 0 ≤ (b - a).toInt16 ↔ dist16 a b < 2 ^ 15 := by
  rw [Int16.le_iff_toInt_le, toInt_toInt16_sub]
  have := dist16_lt a b
  simp only [Int16.toInt_zero]
  split_ifs <;> omega

theorem toInt_toInt16_sub_of_lt {a b : UInt16} (h : dist16 a b < 2 ^ 15) :
    (b - a).toInt16.toInt = dist16 a b := by
  rw [toInt_toInt16_sub, if_pos h]

/-- Adding back the bits of a narrowed difference recovers the minuend, whatever its sign. -/
@[simp]
theorem add_toUInt16_toInt16_sub (a b : UInt16) : a + (b - a).toInt16.toUInt16 = b := by
  simp [UInt16.toInt16]

/-- A non-negative `i16` reinterpreted as `u16` keeps its value. -/
theorem toNat_toUInt16_of_nonneg {d : Int16} (h : 0 ≤ d) : d.toUInt16.toNat = d.toInt.toNat := by
  rw [Int16.le_iff_toInt_le, Int16.toInt_zero] at h
  have hd := BitVec.toInt_eq_toNat_cond d.toBitVec
  have hlt := d.toBitVec.isLt
  simp only [Int16.toInt] at h ⊢
  rw [hd] at h ⊢
  simp only [Int16.toNat_toBitVec] at *
  split_ifs at h ⊢ with hc <;> omega

/-- `b` lies in the cyclic window of `w` slots starting at `base`. -/
def InWindow (base : UInt16) (w : Nat) (b : UInt16) : Prop := dist16 base b < w

instance (base : UInt16) (w : Nat) (b : UInt16) : Decidable (InWindow base w b) :=
  inferInstanceAs (Decidable (dist16 base b < w))

end Wrap
