import Mathlib.Data.Nat.Bitwise

/-!
# 64-bit words as sets of bits

A `u64` word holds the bits `t < 64` where `bit w t` is true. The lemmas read the word
operations of bitmap code as operations on that set: or-ing in `1 << b` adds bit `b`, and-ing
with its complement drops it, `(w >> b) & 1` tests it, a word is zero when it has no bit, and
`w & (w - 1)` drops the lowest bit, the one `ctz` (`__builtin_ctzll`) counts up to.
-/

namespace Word64

/-- Bit `t` of a word. -/
def bit (w : UInt64) (t : Nat) : Bool := w.toBitVec.getLsbD t

/-- `__builtin_ctzll`: the number of trailing zero bits. The builtin is undefined on `0`, where
    this is `64`. -/
def ctz (w : UInt64) : Nat := w.toBitVec.ctz.toNat

theorem bit_eq_testBit (w : UInt64) (t : Nat) : bit w t = w.toNat.testBit t := rfl

theorem bit_of_le (w : UInt64) {t : Nat} (ht : 64 ≤ t) : bit w t = false := by
  simp [bit, BitVec.getLsbD_of_ge _ _ ht]

theorem eq_zero_iff (w : UInt64) : w = 0 ↔ ∀ t, bit w t = false := by
  constructor
  · rintro rfl t
    simp [bit]
  · intro h
    apply UInt64.toBitVec_inj.mp
    apply BitVec.eq_of_getLsbD_eq
    intro i hi
    have hi' := h i
    simp only [bit] at hi'
    simp [hi']

/-- Or-ing in `1 << b` adds bit `b`. -/
theorem bit_or_shiftLeft_one (w : UInt64) {b : Nat} (hb : b < 64) (t : Nat) :
    bit (w ||| (1 <<< UInt64.ofNat b)) t = (bit w t || decide (t = b)) := by
  simp only [bit, UInt64.toBitVec_or, UInt64.toBitVec_shiftLeft, BitVec.getLsbD_or]
  congr 1
  simp [Nat.mod_eq_of_lt hb]
  rw [Bool.eq_iff_iff]
  simp only [Bool.and_eq_true, decide_eq_true_eq, Bool.not_eq_true', decide_eq_false_iff_not]
  omega

/-- And-ing with the complement of `1 << b` drops bit `b`. -/
theorem bit_and_not_shiftLeft_one (w : UInt64) {b : Nat} (hb : b < 64) (t : Nat) :
    bit (w &&& ~~~(1 <<< UInt64.ofNat b)) t = (bit w t && decide (t ≠ b)) := by
  by_cases ht : t < 64
  · simp [bit, Nat.mod_eq_of_lt hb, ht]
    congr 1
    rw [Bool.eq_iff_iff]
    simp only [Bool.or_eq_true, decide_eq_true_eq, Bool.not_eq_true', decide_eq_false_iff_not]
    omega
  · simp [bit, BitVec.getLsbD_of_ge _ _ (not_lt.mp ht)]

/-- `(w >> b) & 1` is bit `b`. -/
theorem shiftRight_and_one (w : UInt64) {b : Nat} (hb : b < 64) :
    ((w >>> UInt64.ofNat b) &&& 1).toNat = (bit w b).toNat := by
  simp [bit, Nat.mod_eq_of_lt hb, BitVec.getLsbD, Nat.testBit]
  rcases Nat.mod_two_eq_zero_or_one (w.toNat >>> b) with h | h <;> simp [h]

theorem bit_ctz {w : UInt64} (hw : w ≠ 0) : bit w (ctz w) = true :=
  BitVec.getLsbD_true_ctz_of_ne_zero (by simpa [← UInt64.toBitVec_inj] using hw)

theorem bit_of_lt_ctz {w : UInt64} {t : Nat} (ht : t < ctz w) : bit w t = false :=
  BitVec.getLsbD_false_of_lt_ctz ht

/-- `ctz` counts up to the lowest bit. -/
theorem ctz_le_of_bit {w : UInt64} {t : Nat} (h : bit w t = true) : ctz w ≤ t := by
  by_contra hlt
  rw [bit_of_lt_ctz (not_le.mp hlt)] at h
  exact Bool.false_ne_true h

/-- `n & (n - 1)` drops the lowest bit `c` of `n`. -/
theorem testBit_and_sub_one {n c : Nat} (hc : n.testBit c = true)
    (hlow : ∀ j < c, n.testBit j = false) (t : Nat) :
    (n &&& (n - 1)).testBit t = (n.testBit t && decide (t ≠ c)) := by
  -- `n` is `2 ^ (c + 1) * q + 2 ^ c`, and `n - 1` is `2 ^ (c + 1) * q + (2 ^ c - 1)`
  have hmod : n % 2 ^ (c + 1) = 2 ^ c := by
    apply Nat.eq_of_testBit_eq
    intro j
    rw [Nat.testBit_mod_two_pow, Nat.testBit_two_pow]
    rcases lt_trichotomy j c with hj | rfl | hj
    · simp [hlow j hj, Nat.ne_of_gt hj]
    · simp [hc]
    · simp [Nat.ne_of_lt hj]
      omega
  have hpow : 0 < 2 ^ c := Nat.two_pow_pos c
  have hn : n = 2 ^ (c + 1) * (n / 2 ^ (c + 1)) + 2 ^ c := by
    rw [← hmod]; exact (Nat.div_add_mod n _).symm
  generalize n / 2 ^ (c + 1) = q at hn
  have hn1 : n - 1 = 2 ^ (c + 1) * q + (2 ^ c - 1) := by omega
  have hlt : 2 ^ c < 2 ^ (c + 1) := Nat.pow_lt_pow_right (by decide) (Nat.lt_succ_self c)
  rw [Nat.testBit_and, hn1, hn, Nat.testBit_two_pow_mul_add _ hlt,
    Nat.testBit_two_pow_mul_add _ (by omega)]
  by_cases ht : t < c + 1
  · simp only [ht, if_true, Nat.testBit_two_pow, Nat.testBit_two_pow_sub_one]
    by_cases htc : t = c
    · simp [htc]
    · simp [htc, Ne.symm htc]
  · simp only [ht, if_false]
    simp [show t ≠ c by omega]

/-- `w & (w - 1)` drops the lowest bit of a nonzero word, the one `ctz` names. -/
theorem bit_and_sub_one {w : UInt64} (hw : w ≠ 0) (t : Nat) :
    bit (w &&& (w - 1)) t = (bit w t && decide (t ≠ ctz w)) := by
  have hpos : w.toNat ≠ 0 := fun h => hw (UInt64.toNat_inj.mp (by simpa using h))
  have h1 : (w - 1).toNat = w.toNat - 1 :=
    UInt64.toNat_sub_of_le _ _ (UInt64.le_iff_toNat_le.mpr (by simp; omega))
  simp only [bit_eq_testBit, UInt64.toNat_and, h1]
  exact testBit_and_sub_one (bit_ctz hw) (fun j hj => bit_of_lt_ctz hj) t

/-- A word is zero when it has none of the bits `t < 64`. -/
theorem eq_zero_iff_forall_lt (w : UInt64) : w = 0 ↔ ∀ t < 64, bit w t = false := by
  rw [eq_zero_iff]
  exact ⟨fun h t _ => h t, fun h t => if ht : t < 64 then h t ht else bit_of_le w (not_lt.mp ht)⟩

end Word64
