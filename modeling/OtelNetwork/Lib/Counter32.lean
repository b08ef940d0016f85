import Mathlib.Data.Nat.Bitwise

/-!
# Free-running 32-bit counters

Queues and rings keep their positions in `u32` counters that only ever grow and wrap modulo
`2^32`; a power-of-two mask then picks the position in a buffer of `2^k` entries, and the
complement of the mask picks the start of the position's page. The lemmas read these operations
on `UInt32.ofNat a` back as arithmetic on the unwrapped count `a`: a difference of counters is
the true difference as long as it is below `2^32`, a masked counter is the count modulo `2^k`,
the page start is the count rounded down to a multiple of `2^k`, and a difference read as `i32`
is positive exactly when it lies in `(0, 2^31)`.

The last lemmas are about positions modulo a buffer size `L`: positions closer than `L` land in
distinct entries, and the page of a position is determined by any multiple of `L` below it by
less than `L`.
-/

namespace Counter32

theorem toNat_ofNat_sub_ofNat {a b : Nat} (hba : b ≤ a) :
    (UInt32.ofNat a - UInt32.ofNat b).toNat = (a - b) % 2 ^ 32 := by
  rw [UInt32.toNat_sub, UInt32.toNat_ofNat', UInt32.toNat_ofNat']
  omega

theorem toNat_mask {k : Nat} (hk : k ≤ 32) : (UInt32.ofNat (2 ^ k - 1)).toNat = 2 ^ k - 1 := by
  rw [UInt32.toNat_ofNat']
  apply Nat.mod_eq_of_lt
  have : 2 ^ k ≤ 2 ^ 32 := Nat.pow_le_pow_right (by decide) hk
  omega

/-- A masked counter is the count modulo the buffer size. -/
theorem toNat_and_mask (x : UInt32) {k : Nat} (hk : k ≤ 32) :
    (x &&& UInt32.ofNat (2 ^ k - 1)).toNat = x.toNat % 2 ^ k := by
  rw [UInt32.toNat_and, toNat_mask hk, Nat.and_two_pow_sub_one_eq_mod]

/-- The complement of the mask rounds down to the start of the page. -/
theorem toNat_and_not_mask (x : UInt32) {k : Nat} (hk : k ≤ 32) :
    (x &&& ~~~UInt32.ofNat (2 ^ k - 1)).toNat = x.toNat - x.toNat % 2 ^ k := by
  rw [UInt32.toNat_and, UInt32.toNat_not, toNat_mask hk]
  have hx := x.toNat_lt
  have hrhs : x.toNat - x.toNat % 2 ^ k = x.toNat / 2 ^ k * 2 ^ k := by
    have := Nat.div_add_mod x.toNat (2 ^ k)
    rw [Nat.mul_comm] at this
    omega
  -- the complement is the bits from `k` to `31`
  have hmask : UInt32.size - 1 - (2 ^ k - 1) = (2 ^ (32 - k) - 1) * 2 ^ k := by
    have h32 : (2 : Nat) ^ 32 = 2 ^ (32 - k) * 2 ^ k := by
      rw [← Nat.pow_add]
      congr 1
      omega
    have hpos : 0 < 2 ^ k := Nat.two_pow_pos k
    simp only [UInt32.size]
    rw [Nat.sub_one_mul]
    omega
  apply Nat.eq_of_testBit_eq
  intro i
  rw [Nat.testBit_and, hrhs, hmask, Nat.testBit_mul_two_pow, Nat.testBit_mul_two_pow,
    Nat.testBit_two_pow_sub_one, Nat.testBit_div_two_pow]
  by_cases hki : k ≤ i
  · simp only [hki, decide_true, Bool.true_and, Nat.sub_add_cancel hki]
    by_cases hi : i < 32
    · have : i - k < 32 - k := by omega
      simp [this]
    · have : ¬ (i - k < 32 - k) := by omega
      simp only [this, decide_false, Bool.and_false]
      rw [Nat.testBit_lt_two_pow (Nat.lt_of_lt_of_le hx (Nat.pow_le_pow_right (by decide) (by omega)))]
  · simp [hki]

/-- An `i32` reading of a difference is positive exactly on `(0, 2^31)`. -/
theorem toInt32_pos_iff (x : UInt32) : x.toInt32 > 0 ↔ 0 < x.toNat ∧ x.toNat < 2 ^ 31 := by
  rw [gt_iff_lt, Int32.lt_iff_toInt_lt, ← Int32.toInt_toBitVec]
  change (0 : Int32).toInt < x.toBitVec.toInt ↔ _
  rw [BitVec.toInt_eq_toNat_cond]
  have : x.toBitVec.toNat = x.toNat := rfl
  rw [this]
  simp only [Int32.toInt_zero]
  split_ifs with h <;> omega

/-- A counter below `2^31` reads as itself as an `i32`. -/
theorem toInt_toInt32_of_lt {x : UInt32} (h : x.toNat < 2 ^ 31) : x.toInt32.toInt = x.toNat := by
  rw [← Int32.toInt_toBitVec]
  change x.toBitVec.toInt = _
  rw [BitVec.toInt_eq_toNat_cond]
  have : x.toBitVec.toNat = x.toNat := rfl
  rw [this, if_pos (by omega)]

/-- A position lies in the page that starts at a multiple of `L` less than `L` below it. -/
theorem mod_eq_sub_of_dvd {L P x : Nat} (hP : L ∣ P) (h₁ : P ≤ x) (h₂ : x < P + L) :
    x % L = x - P := by
  obtain ⟨c, rfl⟩ := hP
  have hx : x = L * c + (x - L * c) := by omega
  rw [hx, Nat.mul_add_mod, Nat.mod_eq_of_lt (by omega)]
  omega

end Counter32
