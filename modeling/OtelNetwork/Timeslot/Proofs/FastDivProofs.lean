import OtelNetwork.Timeslot.FastDivNew

/-!
# The fast divider: its constants and the bits it keeps

For `1 ≤ amt < 2^(64 - B)` and `1 ≤ B ≤ 32`, `FastDiv::new(amt, B)` picks the shift
`S = min(64 - B, 32 + k)` where `2^k ≤ amt < 2^(k+1)`, and then `2^S / amt` lies in `(1, 2^32]`.
Its floor is the multiplier `M` unless `2^S / amt` is exactly `2^32`, which happens when `amt` is
a power of two `2^k` and `S = 32 + k`: there `as u32` saturates to `2^32 - 1`, and the C++
conversion is undefined (`fastDiv_new_mul_saturates`). Either way the effective divisor `2^S / M`
stays within `amt ≤ 2^S / M ≤ amt (1 + 1/M)`.

The division itself multiplies with wrap-around in 64 bits; since `S + B ≤ 64` the wrap only drops
bits above those the shift keeps, so the low `B` bits of the quotient are those of
`⌊x M / 2^S⌋` (`divideU64_low_bits`), and differences of timeslots are differences of these
quotients on the 16-bit ring (`mapTimestamp_sub`).
-/

namespace OtelNetwork

open RustSem CppSem

namespace FastDiv

/-! ## The divider picked for an amount -/

section New

variable {amt : ℝ}

theorem two_pow_floor_logb_le (h1 : 1 ≤ amt) : (2 : ℝ) ^ ⌊Real.logb 2 amt⌋₊ ≤ amt := by
  have hy : 0 ≤ Real.logb 2 amt := Real.logb_nonneg (by norm_num) h1
  calc (2 : ℝ) ^ ⌊Real.logb 2 amt⌋₊ = 2 ^ (⌊Real.logb 2 amt⌋₊ : ℝ) := (Real.rpow_natCast 2 _).symm
    _ ≤ 2 ^ Real.logb 2 amt := Real.rpow_le_rpow_of_exponent_le (by norm_num) (Nat.floor_le hy)
    _ = amt := Real.rpow_logb (by norm_num) (by norm_num) (by linarith)

theorem lt_two_pow_floor_logb_succ (h1 : 1 ≤ amt) :
    amt < 2 ^ (⌊Real.logb 2 amt⌋₊ + 1) := by
  calc amt = 2 ^ Real.logb 2 amt := (Real.rpow_logb (by norm_num) (by norm_num) (by linarith)).symm
    _ < 2 ^ ((⌊Real.logb 2 amt⌋₊ + 1 : ℕ) : ℝ) := by
      apply Real.rpow_lt_rpow_of_exponent_lt (by norm_num)
      push_cast
      exact Nat.lt_floor_add_one _
    _ = 2 ^ (⌊Real.logb 2 amt⌋₊ + 1) := Real.rpow_natCast 2 _

theorem floor_logb_lt {n : ℕ} (h1 : 1 ≤ amt) (h : amt < 2 ^ n) : ⌊Real.logb 2 amt⌋₊ < n :=
  (pow_lt_pow_iff_right₀ (by norm_num : (1 : ℝ) < 2)).mp ((two_pow_floor_logb_le h1).trans_lt h)

variable {B : UInt32}

/-- `bits_removed` is `⌊log₂ amt⌋`. -/
theorem toNat_bitsRemoved (h1 : 1 ≤ amt) (hamt : amt < 2 ^ 64) :
    (asU32 (⌊Real.logb 2 amt⌋ : ℝ)).toNat = ⌊Real.logb 2 amt⌋₊ := by
  have hk := floor_logb_lt h1 hamt
  rw [toNat_asU32, ← Int.floor_toNat, Int.floor_intCast, Int.floor_toNat]
  omega

/-- The shift is `min(64 - B, 32 + ⌊log₂ amt⌋)`. -/
theorem new_shift (h1 : 1 ≤ amt) (hamt : amt < 2 ^ 64) (hB : B.toNat ≤ 64) :
    (new amt B).shift.toNat = min (64 - B.toNat) (32 + ⌊Real.logb 2 amt⌋₊) := by
  have hk := floor_logb_lt h1 hamt
  have hbits := toNat_bitsRemoved h1 hamt
  have hB' : B ≤ 64 := UInt32.le_iff_toNat_le.mpr hB
  simp only [new, if_pos hB', UInt32.toNat_min, UInt32.toNat_sub_of_le _ _ hB', UInt32.toNat_add,
    hbits]
  simp only [UInt32.reduceToNat]
  omega

theorem new_shift_lt (h1 : 1 ≤ amt) (hamt : amt < 2 ^ 64) (hB1 : 1 ≤ B.toNat)
    (hB : B.toNat ≤ 64) : (new amt B).shift.toNat < 64 := by
  rw [new_shift h1 hamt hB]
  omega

/-- The multiplier is `2^S / amt` cast with saturation. -/
theorem new_mul (h1 : 1 ≤ amt) (hamt : amt < 2 ^ 64) (hB1 : 1 ≤ B.toNat) (hB : B.toNat ≤ 64) :
    (new amt B).mul.toNat = min ⌊(2 : ℝ) ^ (new amt B).shift.toNat / amt⌋₊ (2 ^ 32 - 1) := by
  have hS := new_shift_lt h1 hamt hB1 hB
  have hpow : ((1 : UInt64) <<< (new amt B).shift.toUInt64).toNat = 2 ^ (new amt B).shift.toNat := by
    rw [UInt64.toNat_shiftLeft, UInt32.toNat_toUInt64, Nat.mod_eq_of_lt hS, UInt64.toNat_one,
      Nat.one_shiftLeft, Nat.mod_eq_of_lt (Nat.pow_lt_pow_right (by norm_num) hS)]
  -- `new` computes the shift once; its multiplier reads that shift
  change (asU32 ((((1 : UInt64) <<< (new amt B).shift.toUInt64).toNat : ℝ) / amt)).toNat = _
  rw [toNat_asU32, hpow]
  push_cast
  rfl

theorem amt_lt_two_pow_64 (hamt : amt < 2 ^ (64 - B.toNat)) : amt < 2 ^ 64 :=
  hamt.trans_le (pow_le_pow_right₀ (by norm_num) (by omega))

variable (h1 : 1 ≤ amt) (hB1 : 1 ≤ B.toNat) (hB : B.toNat ≤ 32) (hamt : amt < 2 ^ (64 - B.toNat))
include h1 hB1 hB hamt

theorem new_shift_add_le : (new amt B).shift.toNat + B.toNat ≤ 64 := by
  rw [new_shift h1 (amt_lt_two_pow_64 hamt) (show B.toNat ≤ 64 by omega)]
  omega

/-- `2^S / amt ≤ 2^32`: the shift is at most `32 + k` with `2^k ≤ amt`. -/
theorem two_pow_shift_div_le : (2 : ℝ) ^ (new amt B).shift.toNat / amt ≤ 2 ^ 32 := by
  have hS := new_shift h1 (amt_lt_two_pow_64 hamt) (show B.toNat ≤ 64 by omega)
  have hle : (2 : ℝ) ^ (new amt B).shift.toNat ≤ 2 ^ 32 * 2 ^ ⌊Real.logb 2 amt⌋₊ := by
    rw [← pow_add]
    exact pow_le_pow_right₀ (by norm_num) (by omega)
  rw [div_le_iff₀ (by linarith)]
  exact hle.trans (mul_le_mul_of_nonneg_left (two_pow_floor_logb_le h1) (by norm_num))

/-- `1 < 2^S / amt`: with `S = 64 - B` because `amt < 2^(64 - B)`, and with `S = 32 + k` because
    `amt < 2^(k+1)`. -/
theorem one_lt_two_pow_shift_div : 1 < (2 : ℝ) ^ (new amt B).shift.toNat / amt := by
  have hS := new_shift h1 (amt_lt_two_pow_64 hamt) (show B.toNat ≤ 64 by omega)
  rw [one_lt_div (by linarith)]
  rcases min_cases (64 - B.toNat) (32 + ⌊Real.logb 2 amt⌋₊) with ⟨hmin, -⟩ | ⟨hmin, -⟩
  · rwa [hS, hmin]
  · calc amt < 2 ^ (⌊Real.logb 2 amt⌋₊ + 1) := lt_two_pow_floor_logb_succ h1
      _ ≤ 2 ^ (new amt B).shift.toNat := pow_le_pow_right₀ (by norm_num) (by omega)

theorem one_le_new_mul : 1 ≤ (new amt B).mul.toNat := by
  rw [new_mul h1 (amt_lt_two_pow_64 hamt) hB1 (show B.toNat ≤ 64 by omega)]
  have : 1 ≤ ⌊(2 : ℝ) ^ (new amt B).shift.toNat / amt⌋₊ :=
    Nat.le_floor (by exact_mod_cast (one_lt_two_pow_shift_div h1 hB1 hB hamt).le)
  omega

/-- The multiplier is the floor of `2^S / amt` whenever that is below `2^32`. -/
theorem new_mul_eq_floor (hq : (2 : ℝ) ^ (new amt B).shift.toNat / amt < 2 ^ 32) :
    (new amt B).mul.toNat = ⌊(2 : ℝ) ^ (new amt B).shift.toNat / amt⌋₊ := by
  rw [new_mul h1 (amt_lt_two_pow_64 hamt) hB1 (show B.toNat ≤ 64 by omega)]
  have : ⌊(2 : ℝ) ^ (new amt B).shift.toNat / amt⌋₊ < 2 ^ 32 := Nat.floor_lt' (by norm_num) |>.mpr
    (by exact_mod_cast hq)
  omega

/-- Wherever `2^S / amt < 2^32` the C++ constructor is defined and picks the divider of the port. -/
theorem cppNew_eq (hq : (2 : ℝ) ^ (new amt B).shift.toNat / amt < 2 ^ 32) :
    Cpp.FastDiv.new amt B = .ok ⟨(new amt B).mul, (new amt B).shift⟩ := by
  have hamt64 := amt_lt_two_pow_64 hamt
  have hk := floor_logb_lt h1 hamt64
  have hy : 0 ≤ Real.logb 2 amt := Real.logb_nonneg (by norm_num) h1
  -- `(uint32_t)log2(amt)` truncates to the `bits_removed` of the port
  have hbits : toU32 (Real.logb 2 amt) = .ok (asU32 (⌊Real.logb 2 amt⌋ : ℝ)) := by
    have hlt : Real.logb 2 amt < 2 ^ 32 := by
      have := Nat.lt_floor_add_one (Real.logb 2 amt)
      have hk' : (⌊Real.logb 2 amt⌋₊ : ℝ) + 1 ≤ 2 ^ 32 := by exact_mod_cast (by omega)
      linarith
    rw [toU32_of_lt hy hlt]
    congr 1
    apply UInt32.toNat_inj.mp
    rw [toNat_bitsRemoved h1 hamt64, UInt32.toNat_ofNat', Nat.mod_eq_of_lt (by omega)]
  have hB' : B ≤ 64 := UInt32.le_iff_toNat_le.mpr (by simp; omega)
  have hshift : min (64 - B) (32 + asU32 (⌊Real.logb 2 amt⌋ : ℝ)) = (new amt B).shift := by
    simp [new, if_pos hB']
  have hmul : UInt32.ofNat ⌊(2 : ℝ) ^ (new amt B).shift.toNat / amt⌋₊ = (new amt B).mul := by
    apply UInt32.toNat_inj.mp
    have hfloor : ⌊(2 : ℝ) ^ (new amt B).shift.toNat / amt⌋₊ < 2 ^ 32 :=
      (Nat.floor_lt' (by norm_num)).mpr (by exact_mod_cast hq)
    rw [new_mul_eq_floor h1 hB1 hB hamt hq, UInt32.toNat_ofNat', Nat.mod_eq_of_lt hfloor]
  simp only [Cpp.FastDiv.new, hbits, ok_bind, hshift]
  rw [if_pos (new_shift_lt h1 hamt64 hB1 (by omega)),
    toU32_of_lt (div_nonneg (by positivity) (by linarith)) hq, hmul]
  rfl

/-- `M ≤ 2^S / amt ≤ M + 1`, also where the cast saturates. -/
theorem new_mul_le_and_le_succ :
    ((new amt B).mul.toNat : ℝ) ≤ 2 ^ (new amt B).shift.toNat / amt ∧
      (2 : ℝ) ^ (new amt B).shift.toNat / amt ≤ (new amt B).mul.toNat + 1 := by
  have hq := two_pow_shift_div_le h1 hB1 hB hamt
  have hq0 := (one_lt_two_pow_shift_div h1 hB1 hB hamt).le
  rw [new_mul h1 (amt_lt_two_pow_64 hamt) hB1 (show B.toNat ≤ 64 by omega)]
  set q := (2 : ℝ) ^ (new amt B).shift.toNat / amt
  rcases min_cases ⌊q⌋₊ (2 ^ 32 - 1) with ⟨hmin, -⟩ | ⟨hmin, hlt⟩
  · rw [hmin]
    exact ⟨Nat.floor_le (by linarith), (Nat.lt_floor_add_one q).le⟩
  -- saturated: then `q ≥ 2^32 - 1` and `q ≤ 2^32`
  · rw [hmin]
    have hle : ((2 ^ 32 - 1 : ℕ) : ℝ) ≤ ⌊q⌋₊ := by exact_mod_cast hlt.le
    refine ⟨hle.trans (Nat.floor_le (by linarith)), ?_⟩
    push_cast
    linarith

/-- The effective divisor `2^S / M` is within a factor `1 + 1/M` above `amt`. -/
theorem amt_le_effective_divisor :
    amt ≤ (2 : ℝ) ^ (new amt B).shift.toNat / (new amt B).mul.toNat ∧
      (2 : ℝ) ^ (new amt B).shift.toNat / (new amt B).mul.toNat ≤
        amt * (1 + 1 / (new amt B).mul.toNat) := by
  obtain ⟨hle, hsucc⟩ := new_mul_le_and_le_succ h1 hB1 hB hamt
  have hM : (0 : ℝ) < (new amt B).mul.toNat := by
    exact_mod_cast one_le_new_mul h1 hB1 hB hamt
  have ha : 0 < amt := by linarith
  rw [le_div_iff₀ ha] at hle
  rw [div_le_iff₀ ha] at hsucc
  constructor
  · rw [le_div_iff₀ hM]
    linarith
  · have hexp : amt * (1 + 1 / ((new amt B).mul.toNat : ℝ)) * (new amt B).mul.toNat =
        ((new amt B).mul.toNat + 1) * amt := by
      field_simp
    rw [div_le_iff₀ hM, hexp]
    exact hsucc

/-- The divider `FastDiv::new(amt, B)` picks: `S + B ≤ 64`, `1 ≤ M`, an effective divisor
    `2^S / M` within `[amt, amt (1 + 1/M)]`, and, wherever `2^S / amt < 2^32`, the multiplier
    `⌊2^S / amt⌋` that the C++ constructor picks too. -/
theorem fastDiv_new_divider_bounds :
    (new amt B).shift.toNat + B.toNat ≤ 64 ∧ 1 ≤ (new amt B).mul.toNat ∧
      (amt ≤ (2 : ℝ) ^ (new amt B).shift.toNat / (new amt B).mul.toNat ∧
        (2 : ℝ) ^ (new amt B).shift.toNat / (new amt B).mul.toNat ≤
          amt * (1 + 1 / (new amt B).mul.toNat)) ∧
      ((2 : ℝ) ^ (new amt B).shift.toNat / amt < 2 ^ 32 →
        (new amt B).mul.toNat = ⌊(2 : ℝ) ^ (new amt B).shift.toNat / amt⌋₊ ∧
          Cpp.FastDiv.new amt B = .ok ⟨(new amt B).mul, (new amt B).shift⟩) :=
  ⟨new_shift_add_le h1 hB1 hB hamt, one_le_new_mul h1 hB1 hB hamt,
    amt_le_effective_divisor h1 hB1 hB hamt,
    fun hq => ⟨new_mul_eq_floor h1 hB1 hB hamt hq, cppNew_eq h1 hB1 hB hamt hq⟩⟩

end New

/-- The reducer's divider of 30-second time slots, `FastDiv::new(30e9, 16)`. -/
theorem fastDiv_new_divider_bounds_slot :
    1 ≤ (30000000000 : ℝ) ∧ 1 ≤ (16 : UInt32).toNat ∧ (16 : UInt32).toNat ≤ 32 ∧
      (30000000000 : ℝ) < 2 ^ (64 - (16 : UInt32).toNat) ∧
      (new 30000000000 16).shift.toNat + (16 : UInt32).toNat ≤ 64 ∧
      1 ≤ (new 30000000000 16).mul.toNat ∧
      (30000000000 ≤ (2 : ℝ) ^ (new 30000000000 16).shift.toNat / (new 30000000000 16).mul.toNat ∧
        (2 : ℝ) ^ (new 30000000000 16).shift.toNat / (new 30000000000 16).mul.toNat ≤
          30000000000 * (1 + 1 / (new 30000000000 16).mul.toNat)) ∧
      ((2 : ℝ) ^ (new 30000000000 16).shift.toNat / 30000000000 < 2 ^ 32 →
        (new 30000000000 16).mul.toNat =
            ⌊(2 : ℝ) ^ (new 30000000000 16).shift.toNat / 30000000000⌋₊ ∧
          Cpp.FastDiv.new 30000000000 16 =
            .ok ⟨(new 30000000000 16).mul, (new 30000000000 16).shift⟩) := by
  have h1 : 1 ≤ (30000000000 : ℝ) := by norm_num
  have hB1 : 1 ≤ (16 : UInt32).toNat := by decide
  have hB : (16 : UInt32).toNat ≤ 32 := by decide
  have hamt : (30000000000 : ℝ) < 2 ^ (64 - (16 : UInt32).toNat) := by
    rw [show 64 - (16 : UInt32).toNat = 48 by decide]
    norm_num
  exact ⟨h1, hB1, hB, hamt, fastDiv_new_divider_bounds h1 hB1 hB hamt⟩

/-! ## The bits the division keeps -/

/-- The low `B` bits of `divide_u64(x)` are those of `⌊x M / 2^S⌋`: the product wraps at `2^64`,
    which removes only bits above the `S + B` the result keeps. -/
theorem divideU64_low_bits (d : FastDiv) {B : ℕ} (hB : B ≤ 32) (hSB : d.shift.toNat + B ≤ 64)
    (x : UInt64) :
    (d.divideU64 x).toNat % 2 ^ B = x.toNat * d.mul.toNat / 2 ^ d.shift.toNat % 2 ^ B := by
  rcases Nat.eq_zero_or_pos B with rfl | hB0
  · simp [Nat.mod_one]
  have hS : d.shift.toNat % 64 = d.shift.toNat := Nat.mod_eq_of_lt (by omega)
  have hwrap : 2 ^ 64 = 2 ^ d.shift.toNat * 2 ^ (64 - d.shift.toNat) := by
    rw [← pow_add]
    congr 1
    omega
  rw [divideU64, UInt64.toNat_toUInt32, UInt64.toNat_shiftRight, UInt64.toNat_mul,
    UInt32.toNat_toUInt64, UInt32.toNat_toUInt64, hS, Nat.shiftRight_eq_div_pow,
    Nat.mod_mod_of_dvd _ (pow_dvd_pow 2 hB), hwrap, Nat.mod_mul_right_div_self,
    Nat.mod_mod_of_dvd _ (pow_dvd_pow 2 (by omega))]

/-- On the 16-bit ring, the difference of two mapped timestamps is the difference of the exact
    quotients. -/
theorem mapTimestamp_sub (c : VirtualClock) (hS : c.divider.shift.toNat ≤ 48) (x y : UInt64) :
    ((c.mapTimestamp y - c.mapTimestamp x).toNat : ℤ) =
      (((y.toNat * c.divider.mul.toNat / 2 ^ c.divider.shift.toNat : ℕ) : ℤ) -
        (x.toNat * c.divider.mul.toNat / 2 ^ c.divider.shift.toNat : ℕ)) % 2 ^ 16 := by
  have hy := divideU64_low_bits c.divider (B := 16) (by norm_num) (by omega) y
  have hx := divideU64_low_bits c.divider (B := 16) (by norm_num) (by omega) x
  simp only [VirtualClock.mapTimestamp, UInt16.toNat_sub, UInt32.toNat_toUInt16] at hx hy ⊢
  omega

/-- Two timestamps 30 seconds apart, on a clock with the divider `fast_div{1e9, 16}`. -/
theorem mapTimestamp_sub_slot :
    (VirtualClock.new ⟨281474, 48⟩).divider.shift.toNat ≤ 48 ∧
      (((VirtualClock.new ⟨281474, 48⟩).mapTimestamp 60000000000 -
          (VirtualClock.new ⟨281474, 48⟩).mapTimestamp 30000000000).toNat : ℤ) =
        (((60000000000 * 281474 / 2 ^ 48 : ℕ) : ℤ) - (30000000000 * 281474 / 2 ^ 48 : ℕ)) %
          2 ^ 16 := by
  have hS : (VirtualClock.new ⟨281474, 48⟩).divider.shift.toNat ≤ 48 := by decide
  exact ⟨hS, mapTimestamp_sub _ hS 30000000000 60000000000⟩

end FastDiv

/-- At `amt = 1` and `B = 16` the shift is `32`, so `2^S / amt` is `2^32`: `FastDiv::new` saturates
    the multiplier to `2^32 - 1` where the floor is `2^32`, and the C++ constructor converts an
    out-of-range `double`. -/
theorem fastDiv_new_mul_saturates :
    (FastDiv.new 1 16).shift.toNat = 32 ∧ ⌊(2 : ℝ) ^ (FastDiv.new 1 16).shift.toNat / 1⌋₊ = 2 ^ 32 ∧
      (FastDiv.new 1 16).mul.toNat = 2 ^ 32 - 1 ∧ ∃ e, Cpp.FastDiv.new 1 16 = .error e := by
  have hS : (FastDiv.new 1 16).shift.toNat = 32 := by
    rw [FastDiv.new_shift le_rfl (by norm_num) (by decide)]
    simp
  have hfloor : ⌊(2 : ℝ) ^ (FastDiv.new 1 16).shift.toNat / 1⌋₊ = 2 ^ 32 := by
    rw [hS, div_one]
    exact_mod_cast Nat.floor_natCast (2 ^ 32)
  refine ⟨hS, hfloor, ?_, ?_⟩
  · rw [FastDiv.new_mul le_rfl (by norm_num) (by decide) (by decide), hfloor]
    norm_num
  -- the C++ constructor: `bits_removed = 0`, `shift_ = 32`, then `(uint32_t)4294967296.0`
  · have hbits : toU32 (Real.logb 2 1) = .ok 0 := by
      rw [Real.logb_one, toU32_of_lt le_rfl (by norm_num), Nat.floor_zero]
      rfl
    obtain ⟨e, he⟩ := toU32_of_le (x := (2 : ℝ) ^ 32) le_rfl
    have hshift : min (64 - 16 : UInt32) (32 + 0) = 32 := by decide
    refine ⟨e, ?_⟩
    simp only [Cpp.FastDiv.new, hbits, ok_bind, hshift]
    rw [if_pos (by decide)]
    simp only [UInt32.reduceToNat, div_one, he]
    rfl

end OtelNetwork
