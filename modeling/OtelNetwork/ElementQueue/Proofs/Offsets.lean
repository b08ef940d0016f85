import OtelNetwork.ElementQueue.Raw
import OtelNetwork.Lib.Counter32

/-!
# Element offsets on unwrapped counters

The queue's `u32` arithmetic on a byte counter `UInt32.ofNat b` is arithmetic on `b` itself:
`alignedLen` rounds a length up to a multiple of 8 (`align`), and `__next_offset_by_len` moves
an element of aligned length `a` to the start of the next page when it would cross the end of
its page (`place`). For a buffer of `2^31` bytes the page size read as `i32` is negative, and
the function never moves an element.
-/

namespace OtelNetwork.ElementQueue

open Counter32

/-- `(len + 7) & !7` on an unwrapped length. -/
def align (len : Nat) : Nat := (len + 7) / 8 * 8

/-- Where an element of aligned length `a` starts when the free space starts at byte count `b`,
    in a buffer of `L` bytes. -/
def place (L b a : Nat) : Nat := if L < 2 ^ 31 ∧ L < b % L + a then b + (L - b % L) else b

theorem toNat_alignedLen {len : UInt32} (h : len.toNat + 7 < 2 ^ 32) :
    (alignedLen len).toNat = align len.toNat := by
  have h7 : alignedLen len = (len + 7) &&& ~~~UInt32.ofNat (2 ^ 3 - 1) := rfl
  have hsum : (len + 7).toNat = len.toNat + 7 := by
    rw [UInt32.toNat_add]
    exact Nat.mod_eq_of_lt h
  rw [h7, toNat_and_not_mask _ (by decide), hsum, align]
  have := Nat.div_add_mod (len.toNat + 7) (2 ^ 3)
  rw [Nat.mul_comm] at this
  omega

theorem len_le_align (len : Nat) : len ≤ align len := by
  unfold align
  have := Nat.div_add_mod (len + 7) 8
  have := Nat.mod_lt (len + 7) (by decide : 0 < 8)
  rw [Nat.mul_comm] at *
  omega

theorem le_place (L b a : Nat) : b ≤ place L b a := by
  unfold place
  split_ifs <;> omega

theorem place_sub_lt {L : Nat} (hL : 0 < L) (b : Nat) {a : Nat} (ha : a ≤ L) :
    place L b a - b < L := by
  unfold place
  split_ifs with hc
  · have := Nat.mod_lt b hL
    omega
  · omega

/-- Below `2^31` bytes an element never crosses the end of the buffer. -/
theorem place_fits {L : Nat} (hL : 0 < L) (hL31 : L < 2 ^ 31) (b : Nat) {a : Nat} (ha : a ≤ L) :
    place L b a % L + a ≤ L := by
  unfold place
  split_ifs with hc
  · have hmod : (b + (L - b % L)) % L = 0 := by
      have := Nat.div_add_mod b L
      have hb : b + (L - b % L) = L * (b / L + 1) := by
        rw [Nat.mul_add, Nat.mul_one]
        have := Nat.mod_lt b hL
        omega
      rw [hb, Nat.mul_mod_right]
    omega
  · omega

/-- The byte before counter `x`, on the `u32` ring. -/
theorem pred_mod_two_pow_32 {x : Nat} (h₀ : 0 < x) (h₁ : x ≤ 2 ^ 32) :
    (x % 2 ^ 32 + (2 ^ 32 - 1)) % 2 ^ 32 = x - 1 := by
  rcases Nat.lt_or_ge x (2 ^ 32) with hlt | hge
  · rw [Nat.mod_eq_of_lt hlt]
    omega
  · have hx : x = 2 ^ 32 := by omega
    subst hx
    rfl

section NextOffset

variable {L k : Nat} (hL : L = 2 ^ k) (hk : k ≤ 31)
include hL hk

theorem dvd_two_pow_32 : L ∣ 2 ^ 32 := hL ▸ Nat.pow_dvd_pow 2 (by omega)

theorem le_two_pow_31 : L ≤ 2 ^ 31 := hL ▸ Nat.pow_le_pow_right (by decide) hk

omit hk in
theorem pos_of_two_pow : 0 < L := hL ▸ Nat.two_pow_pos k

/-- The page start of a counter, on its unwrapped value. -/
theorem toNat_pageStart (x : UInt32) :
    (x &&& ~~~UInt32.ofNat (L - 1)).toNat = x.toNat - x.toNat % L := by
  subst hL
  exact toNat_and_not_mask x (by omega)

/-- The difference of the pages of the last byte of an element of `a` bytes and of its first
    byte, from counter value `o`: a page when it crosses, minus a page for an empty element at a
    page start, and none otherwise. -/
theorem pageDiff {o a e : Nat} (ho : o < 2 ^ 32) (ha : a < L)
    (he : e = ((o + a) % 2 ^ 32 + (2 ^ 32 - 1)) % 2 ^ 32) :
    (2 ^ 32 - (o - o % L) + (e - e % L)) % 2 ^ 32 =
      if L < o % L + a then L else if a = 0 ∧ o % L = 0 then 2 ^ 32 - L else 0 := by
  have hLpos := pos_of_two_pow hL
  have hL32 := dvd_two_pow_32 hL hk
  have hLle := le_two_pow_31 hL hk
  have hP : L ∣ o - o % L := Nat.dvd_sub_mod o
  have hr := Nat.mod_lt o hLpos
  have hro := Nat.mod_le o L
  have hP32 : o - o % L + L ≤ 2 ^ 32 := by
    obtain ⟨c, hc⟩ := hP
    obtain ⟨d, hd⟩ := hL32
    -- a multiple of `L` below `2^32` is at most `2^32 - L`
    have hcd : c < d := by
      by_contra hle
      have : L * d ≤ L * c := Nat.mul_le_mul_left L (by omega)
      omega
    have : L * (c + 1) ≤ L * d := Nat.mul_le_mul_left L hcd
    rw [Nat.mul_add, Nat.mul_one] at this
    omega
  by_cases hcross : L < o % L + a
  · rw [if_pos hcross]
    by_cases hwrap : o + a ≤ 2 ^ 32
    · -- the last byte is on the next page, below `2^32`
      replace he : e = o + a - 1 := he ▸ pred_mod_two_pow_32 (by omega) hwrap
      have hpage : e % L = e - (o - o % L + L) :=
        mod_eq_sub_of_dvd (Nat.dvd_add hP (Nat.dvd_refl L)) (by omega) (by omega)
      omega
    · -- the last byte wraps past `2^32`, onto the first page
      have hsum : (o + a) % 2 ^ 32 = (o + a - 2 ^ 32) % 2 ^ 32 := by
        rw [Nat.mod_eq_sub_mod (by omega)]
      replace he : e = o + a - 2 ^ 32 - 1 := by
        rw [he, hsum]
        exact pred_mod_two_pow_32 (by omega) (by omega)
      have hpage : e % L = e - 0 := mod_eq_sub_of_dvd (Nat.dvd_zero L) (by omega) (by omega)
      have hstart : o % L = o - (2 ^ 32 - L) :=
        mod_eq_sub_of_dvd (Nat.dvd_sub hL32 (Nat.dvd_refl L)) (by omega) (by omega)
      omega
  · rw [if_neg hcross]
    by_cases ha0 : a = 0
    · subst ha0
      by_cases hr0 : o % L = 0
      · rw [if_pos ⟨rfl, hr0⟩]
        by_cases ho0 : o = 0
        · -- the byte before counter 0 is the last byte of the last page
          replace he : e = 2 ^ 32 - 1 := by
            rw [he, ho0]
            rfl
          have hpage : e % L = e - (2 ^ 32 - L) :=
            mod_eq_sub_of_dvd (Nat.dvd_sub hL32 (Nat.dvd_refl L)) (by omega) (by omega)
          omega
        · -- the byte before a page start is on the page before
          replace he : e = o - 1 := he ▸ pred_mod_two_pow_32 (by omega) (by omega)
          have hPL : L ≤ o := by
            obtain ⟨c, hc⟩ := Nat.dvd_of_mod_eq_zero hr0
            rcases c with _ | c
            · omega
            · rw [hc, Nat.mul_succ]
              omega
          have hpage : e % L = e - (o - L) :=
            mod_eq_sub_of_dvd (Nat.dvd_sub (Nat.dvd_of_mod_eq_zero hr0) (Nat.dvd_refl L))
              (by omega) (by omega)
          omega
      · rw [if_neg (fun h => hr0 h.2)]
        have ho0 : 0 < o := Nat.pos_of_ne_zero (by rintro rfl; exact hr0 (Nat.zero_mod L))
        replace he : e = o - 1 := he ▸ pred_mod_two_pow_32 (by omega) (by omega)
        have hpage : e % L = e - (o - o % L) := mod_eq_sub_of_dvd hP (by omega) (by omega)
        omega
    · rw [if_neg (fun h => ha0 h.1)]
      -- the element stays on its page
      replace he : e = o + a - 1 := he ▸ pred_mod_two_pow_32 (by omega) (by omega)
      have hpage : e % L = e - (o - o % L) := mod_eq_sub_of_dvd hP (by omega) (by omega)
      omega

/-- `__next_offset_by_len` on a counter is `place` on its unwrapped value. -/
theorem nextOffsetByLen_ofNat {b a : Nat} (ha : a < L) :
    nextOffsetByLen (UInt32.ofNat b) (UInt32.ofNat (L - 1)) (UInt32.ofNat a) =
      UInt32.ofNat (place L b a) := by
  have hLpos := pos_of_two_pow hL
  have hL32 := dvd_two_pow_32 hL hk
  have hLle := le_two_pow_31 hL hk
  have hb : (UInt32.ofNat b).toNat = b % 2 ^ 32 := UInt32.toNat_ofNat'
  have hao : (UInt32.ofNat a).toNat = a := by
    rw [UInt32.toNat_ofNat']
    exact Nat.mod_eq_of_lt (by omega)
  have ho := Nat.mod_lt b (by decide : 0 < 2 ^ 32)
  have hmod : b % 2 ^ 32 % L = b % L := Nat.mod_mod_of_dvd b hL32
  have hend : (UInt32.ofNat b + UInt32.ofNat a - 1).toNat =
      ((b % 2 ^ 32 + a) % 2 ^ 32 + (2 ^ 32 - 1)) % 2 ^ 32 := by
    rw [UInt32.toNat_sub, UInt32.toNat_add, hb, hao]
    simp only [UInt32.toNat_one]
    omega
  have hdiff := pageDiff hL hk ho ha rfl
  rw [hmod] at hdiff
  unfold nextOffsetByLen
  simp only
  rw [← UInt32.toNat_inj]
  have hdiff' : (((UInt32.ofNat b + UInt32.ofNat a - 1) &&& ~~~UInt32.ofNat (L - 1)) -
      (UInt32.ofNat b &&& ~~~UInt32.ofNat (L - 1))).toNat =
      if L < b % L + a then L else if a = 0 ∧ b % L = 0 then 2 ^ 32 - L else 0 := by
    rw [UInt32.toNat_sub, toNat_pageStart hL hk, toNat_pageStart hL hk, hend, hb, hmod]
    rw [← hdiff]
  split_ifs with hpos
  · -- the element moves to the next page
    rw [toInt32_pos_iff, hdiff'] at hpos
    have hcross : L < b % L + a ∧ L < 2 ^ 31 := by
      by_cases hc : L < b % L + a
      · simp only [hc, if_true] at hpos
        exact ⟨hc, hpos.2⟩
      · simp only [hc, if_false] at hpos
        split_ifs at hpos <;> omega
    rw [place, if_pos ⟨hcross.2, hcross.1⟩, toNat_pageStart hL hk, hend, UInt32.toNat_ofNat']
    -- both sides are the next page start, modulo `2^32`
    have hcongr : (b + (L - b % L)) % 2 ^ 32 = (b % 2 ^ 32 + (L - b % L)) % 2 ^ 32 := by
      exact (Nat.mod_add_mod b _ _).symm
    rw [hcongr]
    have hnext := hdiff
    simp only [hcross.1, if_true] at hnext
    generalize hE : ((b % 2 ^ 32 + a) % 2 ^ 32 + (2 ^ 32 - 1)) % 2 ^ 32 = E at hnext ⊢
    have hE32 : E < 2 ^ 32 := hE ▸ Nat.mod_lt _ (by decide)
    have hEL := Nat.mod_le E L
    have hbL : b % L ≤ b % 2 ^ 32 := hmod ▸ Nat.mod_le (b % 2 ^ 32) L
    have hbr := Nat.mod_lt b hLpos
    clear hdiff hdiff' hpos hend hb
    omega
  · rw [toInt32_pos_iff, hdiff'] at hpos
    have hnot : ¬ (L < 2 ^ 31 ∧ L < b % L + a) := by
      rintro ⟨h31, hc⟩
      simp only [hc, if_true] at hpos
      exact hpos ⟨hLpos, h31⟩
    rw [place, if_neg hnot]

end NextOffset

end OtelNetwork.ElementQueue
