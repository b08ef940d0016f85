import Mathlib.Algebra.Order.Archimedean.Real.Basic

/-!
# C and C++ semantics used by the models

A thrown exception and undefined behaviour are the error side of `Except String`, as a panic is
for the Rust models: `std::vector::at` past the end throws `std::out_of_range`, and `*` on an
empty `std::optional` is undefined.

Arithmetic on `int16_t` and `uint16_t` promotes both sides to `int`, and the result is narrowed
back where it is stored, modulo `2^16` (as C++20 defines it and as compilers did before it).
`castS16` and `castU16` are those narrowings; the lemmas say that they compute what the wrapping
operations of Rust compute. `errno` values are those of Linux.
-/

namespace CppSem

/-- `std::vector::at`, which throws `std::out_of_range` past the end. -/
def vectorAt {α : Type} (xs : List α) (i : Nat) : Except String α :=
  match xs[i]? with
  | some a => .ok a
  | none => .error "vector::_M_range_check: __n >= this->size()"

/-- `*opt`: undefined on an empty `std::optional`. -/
def deref {α : Type} : Option α → Except String α
  | some a => .ok a
  | none => .error "dereference of an empty std::optional"

/-- An `int` stored into an `int16_t`. -/
def castS16 (x : Int) : Int16 := Int16.ofInt x

/-- An `int` stored into a `uint16_t`. -/
def castU16 (x : Int) : UInt16 := UInt16.ofInt x

/-- `EPERM`. -/
def EPERM : Int := 1

/-- `EINVAL`. -/
def EINVAL : Int := 22

/-- `ENOENT`. -/
def ENOENT : Int := 2

/-- `EAGAIN`. -/
def EAGAIN : Int := 11

/-- `ENOSPC`. -/
def ENOSPC : Int := 28

theorem vectorAt_of_lt {α : Type} {xs : List α} {i : Nat} (h : i < xs.length) :
    vectorAt xs i = .ok xs[i] := by
  simp [vectorAt, List.getElem?_eq_getElem h]

@[simp]
theorem deref_some {α : Type} (a : α) : deref (some a) = .ok a := rfl

/-! ## Narrowing -/

theorem ofInt_toNat (a : UInt16) : UInt16.ofInt (a.toNat : Int) = a := by
  have h : ((a.toNat : Int) % 2 ^ 16).toNat = a.toNat := by
    have := a.toNat_lt
    omega
  simp only [UInt16.ofInt, h, UInt16.ofNat_toNat]

/-- A 16-bit word read as a signed number is its unsigned value modulo `2^16`. -/
theorem toInt_emod (x : BitVec 16) : x.toInt % 2 ^ 16 = (x.toNat : Int) := by
  have := x.isLt
  rw [BitVec.toInt_eq_toNat_cond]
  split_ifs <;> omega

theorem ofInt_toInt (d : Int16) : UInt16.ofInt d.toInt = d.toUInt16 := by
  apply UInt16.toNat_inj.mp
  have h : (d.toInt % 2 ^ 16).toNat = d.toBitVec.toNat := by
    rw [Int16.toInt, toInt_emod]
    simp
  rw [UInt16.ofInt, h, UInt16.toNat_ofNat', Int16.toNat_toBitVec]
  have := d.toUInt16.toNat_lt
  omega

/-- `(int16_t)a - b` narrowed to `int16_t` is Rust's `a.wrapping_sub(b) as i16`. -/
theorem castS16_sub (a b : UInt16) : castS16 (a.toInt16.toInt - b.toNat) = (a - b).toInt16 := by
  apply Int16.toBitVec_inj.mp
  simp [castS16]

/-- `a += d` on a `uint16_t` with an `int16_t` is Rust's `a.wrapping_add(d as u16)`. -/
theorem castU16_add (a : UInt16) (d : Int16) : castU16 (a.toNat + d.toInt) = a + d.toUInt16 := by
  rw [castU16, UInt16.ofInt_add, ofInt_toNat, ofInt_toInt]

/-! ## Conversions from floating point -/

/-- `(uint32_t)x` for a `double` holding the real `x`: truncation toward zero, undefined when the
    truncated value is not representable. -/
noncomputable def toU32 (x : ℝ) : Except String UInt32 :=
  if -1 < x ∧ x < ((2 ^ 32 : ℕ) : ℝ) then .ok (UInt32.ofNat ⌊x⌋₊)
  else .error "floating-point value out of range of uint32_t"

theorem toU32_of_lt {x : ℝ} (h₀ : 0 ≤ x) (h : x < 2 ^ 32) : toU32 x = .ok (UInt32.ofNat ⌊x⌋₊) :=
  if_pos ⟨by linarith, by exact_mod_cast h⟩

theorem toU32_of_le {x : ℝ} (h : 2 ^ 32 ≤ x) : ∃ e, toU32 x = .error e :=
  ⟨_, if_neg fun ⟨_, hlt⟩ => absurd h (not_le.mpr (by exact_mod_cast hlt))⟩

end CppSem
