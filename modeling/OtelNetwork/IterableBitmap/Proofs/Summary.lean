import OtelNetwork.IterableBitmap.Basic

/-!
# The summary levels

Level `0` of a bitmap is its set of indices. Position `p` of level `k` stands for the block of
indices `i` with `i >> 6k = p`, and the bitmap is in step when every level's bit `p` is set
exactly when that block holds an index of the set (`Summarizes`). The empty bitmap is in step,
`set` and `clear` keep it so, and from it follows what the source's comments promise: a bit of
level `k` is set exactly when the word it stands for at level `k - 1` is nonzero.

`set` adds the index's position at every level. `clear` goes up the levels in order, and each
line reads the level below as the line before left it: the word there is zero exactly when the
block lost its last index, and only then is the bit dropped.
-/

namespace OtelNetwork.IterableBitmap

open Word64

/-! ## The levels a size has -/

section Levels

variable {size : Nat}

/-- A level exists, `l{k} > 0`, exactly below `levels`. -/
theorem hasLevel_iff (hpos : 0 < size) (hle : size ≤ 2 ^ 30) (k : Nat) :
    hasLevel size k = true ↔ k < levels size := by
  have e0 : l0 size = (size + 63) / 64 := rfl
  have e1 : l1 size = if l0 size = 1 then 0 else (l0 size + 63) / 64 := rfl
  have e2 : l2 size = if l1 size = 1 then 0 else (l1 size + 63) / 64 := rfl
  have e3 : l3 size = if l2 size = 1 then 0 else (l2 size + 63) / 64 := rfl
  have e4 : l4 size = if l3 size = 1 then 0 else (l3 size + 63) / 64 := rfl
  simp only [hasLevel, levels, decide_eq_true_eq]
  -- each count is a division of the one below, so the cases are the branches of the `if`s
  match k with
  | 0 => simp only [wordCount]; split_ifs at e1 e2 e3 e4 ⊢ <;> omega
  | 1 => simp only [wordCount]; split_ifs at e1 e2 e3 e4 ⊢ <;> omega
  | 2 => simp only [wordCount]; split_ifs at e1 e2 e3 e4 ⊢ <;> omega
  | 3 => simp only [wordCount]; split_ifs at e1 e2 e3 e4 ⊢ <;> omega
  | 4 => simp only [wordCount]; split_ifs at e1 e2 e3 e4 ⊢ <;> omega
  | k + 5 => simp only [wordCount]; split_ifs <;> omega

/-- The top level's one word covers every index. -/
theorem size_le_pow_levels (hpos : 0 < size) (hle : size ≤ 2 ^ 30) :
    size ≤ 2 ^ (6 * levels size) := by
  have e0 : l0 size = (size + 63) / 64 := rfl
  have e1 : l1 size = if l0 size = 1 then 0 else (l0 size + 63) / 64 := rfl
  have e2 : l2 size = if l1 size = 1 then 0 else (l1 size + 63) / 64 := rfl
  have e3 : l3 size = if l2 size = 1 then 0 else (l2 size + 63) / 64 := rfl
  have e4 : l4 size = if l3 size = 1 then 0 else (l3 size + 63) / 64 := rfl
  simp only [levels]
  split_ifs at e1 e2 e3 e4 ⊢ <;> simp only [Nat.reduceMul, Nat.reducePow] <;> omega

theorem levels_pos : 0 < levels size := by
  unfold levels
  split_ifs <;> omega

theorem levels_le_five : levels size ≤ 5 := by
  unfold levels
  split_ifs <;> omega

end Levels

/-! ## Positions -/

theorem shiftRight_level_succ (i k : Nat) : i >>> (6 * (k + 1)) = i >>> (6 * k) / 64 := by
  rw [show 6 * (k + 1) = 6 * k + 6 by omega, Nat.shiftRight_add, Nat.shiftRight_eq_div_pow]

theorem shiftRight_level_mono {i j : Nat} (h : i ≤ j) (k : Nat) :
    i >>> (6 * k) ≤ j >>> (6 * k) := by
  rw [Nat.shiftRight_eq_div_pow, Nat.shiftRight_eq_div_pow]
  exact Nat.div_le_div_right h

theorem lt_of_shiftRight_lt {i j k : Nat} (h : i >>> (6 * k) < j >>> (6 * k)) : i < j := by
  by_contra hle
  exact absurd (shiftRight_level_mono (not_lt.mp hle) k) (not_le.mpr h)

/-! ## Arrays of words -/

/-- Bit `p` of an array of words: bit `p % 64` of word `p / 64`. -/
def bitAt (addr : Nat → UInt64) (p : Nat) : Bool := bit (addr (p / 64)) (p % 64)

theorem bitAt_word (addr : Nat → UInt64) (w : Nat) {t : Nat} (ht : t < 64) :
    bitAt addr (64 * w + t) = bit (addr w) t := by
  simp only [bitAt]
  rw [show (64 * w + t) / 64 = w by omega, show (64 * w + t) % 64 = t by omega]

theorem bitAt_setBit64 (addr : Nat → UInt64) (nr p : Nat) :
    bitAt (setBit64 addr nr) p = (bitAt addr p || decide (p = nr)) := by
  unfold bitAt setBit64
  by_cases hw : p / 64 = nr / 64
  · rw [hw, Function.update_self, bit_or_shiftLeft_one _ (Nat.mod_lt _ (by decide))]
    congr 1
    exact decide_eq_decide.mpr (by omega)
  · rw [Function.update_of_ne hw]
    have hp : p ≠ nr := fun h => hw (h ▸ rfl)
    simp [hp]

theorem bitAt_clearBit64 (addr : Nat → UInt64) (nr p : Nat) :
    bitAt (clearBit64 addr nr) p = (bitAt addr p && decide (p ≠ nr)) := by
  unfold bitAt clearBit64
  by_cases hw : p / 64 = nr / 64
  · rw [hw, Function.update_self, bit_and_not_shiftLeft_one _ (Nat.mod_lt _ (by decide))]
    congr 1
    exact decide_eq_decide.mpr (by omega)
  · rw [Function.update_of_ne hw]
    have hp : p ≠ nr := fun h => hw (h ▸ rfl)
    simp [hp]

theorem testBit_eq (addr : Nat → UInt64) (nr : Nat) : testBit addr nr = (bitAt addr nr).toNat :=
  shiftRight_and_one _ (Nat.mod_lt _ (by decide))

/-! ## Levels in step with level `0` -/

/-- Some index of the set `w0` (level `0`, below `size`) lies in the block of position `p` of
    level `k`. -/
def Occupied (w0 : Nat → UInt64) (size k p : Nat) : Prop :=
  ∃ i < size, bitAt w0 i = true ∧ i >>> (6 * k) = p

/-- A block of level `k + 1` is occupied when one of the 64 blocks of level `k` it is made of
    is. -/
theorem occupied_succ {w0 : Nat → UInt64} {size k P : Nat} :
    Occupied w0 size (k + 1) P ↔ ∃ t < 64, Occupied w0 size k (64 * P + t) := by
  constructor
  · rintro ⟨i, hi, hb, rfl⟩
    refine ⟨i >>> (6 * k) % 64, Nat.mod_lt _ (by decide), i, hi, hb, ?_⟩
    rw [shiftRight_level_succ]
    omega
  · rintro ⟨t, ht, i, hi, hb, hpos⟩
    refine ⟨i, hi, hb, ?_⟩
    rw [shiftRight_level_succ, hpos]
    omega

theorem Occupied.mono {w0 w0' : Nat → UInt64} {size k p : Nat}
    (hsub : ∀ i, bitAt w0' i = true → bitAt w0 i = true) (h : Occupied w0' size k p) :
    Occupied w0 size k p := by
  obtain ⟨i, hi, hb, hp⟩ := h
  exact ⟨i, hi, hsub i hb, hp⟩

/-- The words of level `k` summarize the set `w0`: bit `p` is set exactly when block `p` is
    occupied. -/
def LevelSums (words w0 : Nat → UInt64) (size k : Nat) : Prop :=
  ∀ p, bitAt words p = true ↔ Occupied w0 size k p

/-- A word of a level in step is nonzero exactly when the block of the level above it stands
    for is occupied. -/
theorem LevelSums.word_eq_zero_iff {words w0 : Nat → UInt64} {size k : Nat}
    (h : LevelSums words w0 size k) (w : Nat) :
    words w = 0 ↔ ¬ Occupied w0 size (k + 1) w := by
  rw [eq_zero_iff_forall_lt, occupied_succ]
  constructor
  · rintro hz ⟨t, ht, hocc⟩
    rw [← h, bitAt_word _ _ ht, hz t ht] at hocc
    exact Bool.false_ne_true hocc
  · intro hnot t ht
    rw [← bitAt_word _ _ ht]
    cases hb : bitAt words (64 * w + t)
    · rfl
    · exact absurd ⟨t, ht, (h _).mp hb⟩ hnot

/-- Level `0` is in step with itself when it has no bit at or past `size`. -/
theorem levelSums_zero_iff {w0 : Nat → UInt64} {size : Nat} :
    LevelSums w0 w0 size 0 ↔ ∀ p, bitAt w0 p = true → p < size := by
  constructor
  · intro h p hp
    obtain ⟨i, hi, -, rfl⟩ := (h p).mp hp
    simpa using hi
  · intro h p
    constructor
    · intro hp
      exact ⟨p, h p hp, hp, by simp⟩
    · rintro ⟨i, -, hb, rfl⟩
      simpa using hb

/-- Every level of the bitmap is in step with level `0`. -/
def Summarizes (b : IterableBitmap) (size : Nat) : Prop :=
  ∀ k < levels size, LevelSums (b.masks k) (b.masks 0) size k

theorem summarizes_new (size : Nat) : Summarizes new size := by
  intro k _ p
  constructor
  · intro h
    simp [bitAt, new, bit] at h
  · rintro ⟨i, -, hb, -⟩
    simp [bitAt, new, bit] at hb

/-- The bit of level `k` stands for a word of level `k - 1`: it is set exactly when that word is
    nonzero. -/
theorem Summarizes.bit_iff_word_ne_zero {b : IterableBitmap} {size : Nat} (h : Summarizes b size)
    {k : Nat} (hk : k + 1 < levels size) (j : Nat) :
    bitAt (b.masks (k + 1)) j = true ↔ b.masks k j ≠ 0 := by
  rw [h (k + 1) hk j, Ne, (h k (by omega)).word_eq_zero_iff, not_not]

/-! ## One line of `set` or `clear` -/

/-- Blocks that do not hold `index` see no change when only `index` changes. -/
theorem occupied_iff_of_ne {w0 w0' : Nat → UInt64} {size k index p : Nat}
    (hw : ∀ i, i ≠ index → bitAt w0' i = bitAt w0 i) (hp : index >>> (6 * k) ≠ p) :
    Occupied w0' size k p ↔ Occupied w0 size k p := by
  have hi : ∀ i, i >>> (6 * k) = p → i ≠ index := fun i hip hidx => hp (hidx ▸ hip)
  constructor
  · rintro ⟨i, hlt, hb, hip⟩
    exact ⟨i, hlt, hw i (hi i hip) ▸ hb, hip⟩
  · rintro ⟨i, hlt, hb, hip⟩
    exact ⟨i, hlt, (hw i (hi i hip)).symm ▸ hb, hip⟩

/-- A line of `set`: with `index` added to the set, its block's bit is set. -/
theorem LevelSums.setLine {cur w0 w0' : Nat → UInt64} {size k index : Nat}
    (hcur : LevelSums cur w0 size k) (hw0 : ∀ i, bitAt w0' i = (bitAt w0 i || decide (i = index)))
    (hidx : index < size) :
    LevelSums (setBit64 cur (index >>> (6 * k))) w0' size k := by
  intro p
  rw [bitAt_setBit64]
  by_cases hp : p = index >>> (6 * k)
  · subst hp
    simp only [decide_true, Bool.or_true, true_iff]
    exact ⟨index, hidx, by simp [hw0], rfl⟩
  · have hw : ∀ i, i ≠ index → bitAt w0' i = bitAt w0 i := fun i hi => by simp [hw0, hi]
    simp only [hp, decide_false, Bool.or_false]
    rw [hcur p, occupied_iff_of_ne hw (Ne.symm hp)]

/-- A line of `clear`, read with level `k` already in step with the new set `w0'`, which is `w0`
    without `index`: the bit of index's block at level `k + 1` is dropped exactly when the word of
    level `k` it stands for ran out. -/
theorem LevelSums.clearLine {below cur w0 w0' : Nat → UInt64} {size k index : Nat}
    (hbelow : LevelSums below w0' size k) (hcur : LevelSums cur w0 size (k + 1))
    (hw0 : ∀ i, bitAt w0' i = (bitAt w0 i && decide (i ≠ index))) :
    LevelSums (if below (index >>> (6 * (k + 1))) = 0
      then clearBit64 cur (index >>> (6 * (k + 1))) else cur) w0' size (k + 1) := by
  have hsub : ∀ i, bitAt w0' i = true → bitAt w0 i = true := by
    intro i hi
    rw [hw0, Bool.and_eq_true] at hi
    exact hi.1
  intro p
  by_cases hp : p = index >>> (6 * (k + 1))
  · subst hp
    split_ifs with hz
    -- the word below ran out: the block lost its last index
    · simp only [bitAt_clearBit64, ne_eq, not_true_eq_false, decide_false, Bool.and_false,
        Bool.false_eq_true, false_iff]
      exact (hbelow.word_eq_zero_iff _).mp hz
    -- the word below still has a bit: the block keeps an index
    · rw [hcur]
      have hocc := not_not.mp ((hbelow.word_eq_zero_iff _).not.mp hz)
      exact ⟨fun _ => hocc, Occupied.mono hsub⟩
  · have hbit : bitAt (if below (index >>> (6 * (k + 1))) = 0
        then clearBit64 cur (index >>> (6 * (k + 1))) else cur) p = bitAt cur p := by
      split_ifs <;> simp [bitAt_clearBit64, hp]
    have hw : ∀ i, i ≠ index → bitAt w0' i = bitAt w0 i := fun i hi => by simp [hw0, hi]
    rw [hbit, hcur p, occupied_iff_of_ne hw (Ne.symm hp)]

/-! ## `set` and `clear` keep the levels in step -/

section Calls

variable {b : IterableBitmap} {size index : Nat}

@[simp]
theorem setLevel_masks (b : IterableBitmap) (k : Nat) (words : Nat → UInt64) (m : Nat) :
    (b.setLevel k words).masks m = if m = k then words else b.masks m := by
  simp only [setLevel, Function.update_apply]

theorem setSummary_masks (size index : Nat) (b : IterableBitmap) (k m : Nat) :
    (setSummary size index b k).masks m =
      if m = k ∧ hasLevel size k = true then setBit64 (b.masks m) (index >>> (6 * m))
      else b.masks m := by
  unfold setSummary
  by_cases hm : m = k
  · subst hm
    split_ifs <;> simp_all
  · split_ifs <;> simp_all

theorem clearSummary_masks (size index : Nat) (b : IterableBitmap) (k m : Nat) :
    (clearSummary size index b k).masks m =
      if m = k ∧ hasLevel size k = true ∧ b.masks (k - 1) (index >>> (6 * k)) = 0
      then clearBit64 (b.masks m) (index >>> (6 * m)) else b.masks m := by
  unfold clearSummary
  by_cases hm : m = k
  · subst hm
    split_ifs <;> simp_all
  · split_ifs <;> simp_all

/-- `set` adds `index`'s position to every level there is. -/
theorem set_masks_of_lt (hpos : 0 < size) (hle : size ≤ 2 ^ 30) (b : IterableBitmap) {m : Nat}
    (hm : m < levels size) :
    (b.set size index).masks m = setBit64 (b.masks m) (index >>> (6 * m)) := by
  have hlev := hasLevel_iff hpos hle
  have h5 : m < 5 := lt_of_lt_of_le hm levels_le_five
  simp only [set, List.foldl_cons, List.foldl_nil, setSummary_masks, setLevel_masks]
  rcases (by omega : m = 0 ∨ m = 1 ∨ m = 2 ∨ m = 3 ∨ m = 4) with rfl | rfl | rfl | rfl | rfl <;>
    simp [hlev, hm]

theorem Summarizes.set (h : Summarizes b size) (hpos : 0 < size) (hle : size ≤ 2 ^ 30)
    (hidx : index < size) : Summarizes (b.set size index) size := by
  intro k hk
  have h0 : (b.set size index).masks 0 = setBit64 (b.masks 0) index := by
    simpa using set_masks_of_lt hpos hle b levels_pos
  rw [set_masks_of_lt hpos hle b hk, h0]
  exact (h k hk).setLine (fun i => bitAt_setBit64 _ _ i) hidx

/-- Partway through `clear`: level `0` has lost `index`, the levels up to `j` are in step with
    it, and the levels above `j` are as they were. -/
structure ClearedUpTo (b b' : IterableBitmap) (size index j : Nat) : Prop where
  zero : b'.masks 0 = clearBit64 (b.masks 0) index
  below : ∀ k ≤ j, k < levels size → LevelSums (b'.masks k) (b'.masks 0) size k
  above : ∀ k, j < k → b'.masks k = b.masks k

/-- Level `0` alone is in step after the first line of `clear`. -/
theorem clearedUpTo_zero (h : Summarizes b size) :
    ClearedUpTo b (b.setLevel 0 (clearBit64 (b.masks 0) index)) size index 0 where
  zero := by simp
  below := by
    intro k hk _
    obtain rfl : k = 0 := Nat.le_zero.mp hk
    simp only [setLevel_masks, if_true]
    refine levelSums_zero_iff.mpr fun p hp => ?_
    rw [bitAt_clearBit64, Bool.and_eq_true] at hp
    exact levelSums_zero_iff.mp (h 0 levels_pos) p hp.1
  above := by
    intro k hk
    simp [Nat.ne_of_gt hk]

/-- The line of `clear` for level `j + 1` brings that level in step. -/
theorem ClearedUpTo.step (h : Summarizes b size) (hpos : 0 < size) (hle : size ≤ 2 ^ 30)
    {b' : IterableBitmap} {j : Nat} (hc : ClearedUpTo b b' size index j) :
    ClearedUpTo b (clearSummary size index b' (j + 1)) size index (j + 1) := by
  have hmasks := clearSummary_masks size index b' (j + 1)
  have h0 : (clearSummary size index b' (j + 1)).masks 0 = b'.masks 0 := by simp [hmasks]
  refine ⟨h0.trans hc.zero, fun k hk hkl => ?_, fun k hk => ?_⟩
  · rw [h0]
    rcases Nat.lt_or_eq_of_le hk with hk | rfl
    · rw [hmasks k, if_neg (by omega)]
      exact hc.below k (by omega) hkl
    -- the new line: level `j` is in step, level `j + 1` is still the old one
    · have hw0 : ∀ i, bitAt (b'.masks 0) i = (bitAt (b.masks 0) i && decide (i ≠ index)) :=
        fun i => by rw [hc.zero, bitAt_clearBit64]
      have hline := (hc.below j le_rfl (by omega)).clearLine
        (hc.above (j + 1) (by omega) ▸ h (j + 1) hkl) hw0
      rw [hmasks (j + 1), hc.above (j + 1) (by omega)]
      simpa [(hasLevel_iff hpos hle (j + 1)).mpr hkl, ← hc.above (j + 1) (by omega)] using hline
  · rw [hmasks k, if_neg (by omega)]
    exact hc.above k (by omega)

/-- The lines of `clear` for the levels `j + 1` to `j + n`. -/
theorem ClearedUpTo.lines (h : Summarizes b size) (hpos : 0 < size) (hle : size ≤ 2 ^ 30) :
    ∀ (n : Nat) {b' : IterableBitmap} {j : Nat}, ClearedUpTo b b' size index j →
      ClearedUpTo b ((List.range' (j + 1) n).foldl (clearSummary size index) b') size index (j + n)
  | 0, _, _, hc => hc
  | n + 1, _, j, hc => by
    rw [List.range'_succ, List.foldl_cons, show j + (n + 1) = j + 1 + n by omega]
    exact ClearedUpTo.lines h hpos hle n (hc.step h hpos hle)

theorem Summarizes.clear (h : Summarizes b size) (hpos : 0 < size) (hle : size ≤ 2 ^ 30) :
    Summarizes (b.clear size index) size := by
  have h0 : ClearedUpTo b (b.setLevel 0 (clearBit64 (b.masks 0) index)) size index 0 :=
    clearedUpTo_zero h
  have hc := ClearedUpTo.lines h hpos hle 4 h0
  have h5 : levels size ≤ 5 := levels_le_five
  intro k hk
  exact hc.below k (by omega) hk

/-- Every run of calls on indices below `size` leaves the levels in step. -/
theorem summarizes_run (hpos : 0 < size) (hle : size ≤ 2 ^ 30) {ops : List Op}
    (hops : ∀ op ∈ ops, op.index < size) : Summarizes (run size ops) size := by
  unfold run
  -- the invariant is carried along the calls from any bitmap in step
  suffices hrun : ∀ b, Summarizes b size → Summarizes (ops.foldl (Op.apply size) b) size from
    hrun new (summarizes_new size)
  induction ops with
  | nil => exact fun b hb => hb
  | cons op ops ih =>
    intro b hb
    have hstep : Summarizes (op.apply size b) size := by
      cases op with
      | set index => exact hb.set hpos hle (hops _ List.mem_cons_self)
      | clear index => exact hb.clear hpos hle
    exact ih (fun o ho => hops o (List.mem_cons_of_mem op ho)) _ hstep

end Calls

/-- What the source's comments promise of the levels, read with `test_bit`: bit `j` of level `k`
    is set exactly when word `j` of level `k - 1` is nonzero. -/
theorem Summarizes.testBit_ne_zero_iff {b : IterableBitmap} {size : Nat} (h : Summarizes b size)
    {k : Nat} (hk1 : 1 ≤ k) (hk : k < levels size) (j : Nat) :
    testBit (b.masks k) j ≠ 0 ↔ b.masks (k - 1) j ≠ 0 := by
  obtain ⟨k, rfl⟩ : ∃ k', k = k' + 1 := ⟨k - 1, by omega⟩
  rw [testBit_eq, Nat.add_sub_cancel, ← h.bit_iff_word_ne_zero hk j]
  cases bitAt (b.masks (k + 1)) j <;> simp

end OtelNetwork.IterableBitmap
