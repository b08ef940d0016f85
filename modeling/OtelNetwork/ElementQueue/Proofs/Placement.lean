import OtelNetwork.ElementQueue.Proofs.Offsets

/-!
# Where `__next_offset_by_len` puts an element

For a buffer of `2^k` bytes with `k ≤ 30`, an element of aligned length `a` (`0 < a < 2^k`) put
at `__next_offset_by_len(off, mask, a)` fits in the buffer from its masked position, and lies
less than `a` bytes after `off`, for every `u32` offset `off`.

A buffer of `2^31` bytes is also accepted by `new_from_contiguous`, but there the page size read
as `i32` is negative: the difference of two page starts is `0` or `2^31`, never positive, so the
function never moves an element to the next page, and an element that crosses the end of the
buffer stays where it is.
-/

namespace OtelNetwork.ElementQueue

open Counter32

/-- The masked position of a counter. -/
theorem toNat_and_ofNat_mask {L k : Nat} (hL : L = 2 ^ k) (hk : k ≤ 32) (x : UInt32) :
    (x &&& UInt32.ofNat (L - 1)).toNat = x.toNat % L := by
  subst hL
  exact toNat_and_mask x hk

/-- Below `2^31` bytes, the element lands inside the buffer, less than its length after `off`. -/
theorem nextOffsetByLen_in_bounds {L k : Nat} (hL : L = 2 ^ k) (hk : k ≤ 30) (off : UInt32)
    {a : Nat} (ha₀ : 0 < a) (ha : a < L) :
    (nextOffsetByLen off (UInt32.ofNat (L - 1)) (UInt32.ofNat a) &&& UInt32.ofNat (L - 1)).toNat +
        a ≤ L ∧
      (nextOffsetByLen off (UInt32.ofNat (L - 1)) (UInt32.ofNat a) - off).toNat < a := by
  have hLpos : 0 < L := hL ▸ Nat.two_pow_pos k
  have hL30 : L ≤ 2 ^ 30 := hL ▸ Nat.pow_le_pow_right (by decide) hk
  have hoff : UInt32.ofNat off.toNat = off := UInt32.ofNat_toNat
  have hp := nextOffsetByLen_ofNat hL (by omega) (b := off.toNat) ha
  rw [hoff] at hp
  rw [hp, toNat_and_ofNat_mask hL (by omega), UInt32.toNat_ofNat']
  have hoffL := off.toNat_lt
  -- the place is at most a page after `off`, so it is below `2^32` plus a page
  have hsub := place_sub_lt hLpos off.toNat ha.le
  have hle := le_place L off.toNat a
  constructor
  · have hmod : place L off.toNat a % 2 ^ 32 % L = place L off.toNat a % L :=
      Nat.mod_mod_of_dvd _ (dvd_two_pow_32 hL (by omega))
    rw [hmod]
    exact place_fits hLpos (by omega) off.toNat ha.le
  · -- the element moves by the rest of its page, which is less than its length
    rw [show UInt32.ofNat (place L off.toNat a) - off =
        UInt32.ofNat (place L off.toNat a) - UInt32.ofNat off.toNat by rw [hoff],
      toNat_ofNat_sub_ofNat hle]
    unfold place at hsub hle ⊢
    split_ifs with hc
    · have := Nat.mod_lt off.toNat hLpos
      rw [Nat.mod_eq_of_lt (by omega)]
      omega
    · simp only [Nat.sub_self, Nat.zero_mod]
      exact ha₀

/-- A buffer of `2^31` bytes: page starts differ by `0` or `2^31`, and
    `__next_offset_by_len` returns its offset unchanged. -/
theorem nextOffsetByLen_of_two_pow_31 (off len : UInt32) :
    nextOffsetByLen off (UInt32.ofNat (2 ^ 31 - 1)) len = off := by
  unfold nextOffsetByLen
  simp only
  rw [if_neg]
  rw [toInt32_pos_iff, UInt32.toNat_sub, toNat_and_not_mask _ (by decide),
    toNat_and_not_mask _ (by decide)]
  intro ⟨hpos, hlt⟩
  -- both page starts are `0` or `2^31`
  have hpage : ∀ x : UInt32, x.toNat - x.toNat % 2 ^ 31 = 0 ∨ x.toNat - x.toNat % 2 ^ 31 = 2 ^ 31 := by
    intro x
    have := x.toNat_lt
    omega
  rcases hpage (off + len - 1) with h₁ | h₁ <;> rcases hpage off with h₂ | h₂ <;>
    · rw [h₁, h₂] at hpos hlt
      omega

/-- A buffer of `2^31` bytes is accepted, and an element of aligned length 16 at offset
    `2^31 - 8` stays there, eight bytes past the end of the buffer. -/
theorem nextOffsetByLen_overruns_at_two_pow_31 :
    (∃ q, ElementQueue.newFromContiguous 1 (UInt32.ofNat (2 ^ 31)) ⟨0, 0, 0, 0⟩ = .ok q ∧
        q.bufMask = UInt32.ofNat (2 ^ 31 - 1)) ∧
      (∀ off len : UInt32, nextOffsetByLen off (UInt32.ofNat (2 ^ 31 - 1)) len = off) ∧
      (nextOffsetByLen (UInt32.ofNat (2 ^ 31 - 8)) (UInt32.ofNat (2 ^ 31 - 1)) 16 &&&
          UInt32.ofNat (2 ^ 31 - 1)).toNat + 16 > 2 ^ 31 := by
  refine ⟨⟨_, rfl, rfl⟩, nextOffsetByLen_of_two_pow_31, ?_⟩
  rw [nextOffsetByLen_of_two_pow_31]
  decide

end OtelNetwork.ElementQueue
