import OtelNetwork.IterableBitmap.Proofs.Summary
import OtelNetwork.Lib.Enumeration

/-!
# Iteration

On a bitmap whose levels are in step, the iterator enumerates the set in increasing order. An
iterator stands at an index `cur` of the set (`StandsAt`) when, at each level `m`, `i[m]` holds
the first index of cur's block shifted to the level above (`iAt`) and `mask[m]` holds the
occupied blocks of cur's word from cur's block on (`MaskBit`): the lowest bit of each mask is
cur's block.

The walk down from level `k` (`descend`) picks at each level the lowest occupied block, so it
stands at the first index of the set in the blocks its word holds (`Descended`). `operator++`
drops the lowest bit of `mask[0]`; while a mask runs out, no larger index shares the block one
level up (`ClimbAt.gap`), so the climb goes on, and the first mask with a bit left is walked down
from, which gives the next index. From `Enumeration` the run follows: `begin()` and `n` steps of
`operator++` stand at the `n`-th index of the set, and one more step after the last compares
equal to `end()`.
-/

namespace OtelNetwork.IterableBitmap

open Word64 Enumeration

/-- The indices the bitmap holds. -/
def members (b : IterableBitmap) (size : Nat) : Set Nat :=
  {j | j < size ∧ bitAt (b.masks 0) j = true}

/-- What `i[m]` holds when the iterator stands at `cur`: `cur` itself at level `0`, and above, the
    position of cur's block of level `m` shifted by `6`. -/
def iAt (cur : Nat) : Nat → Nat
  | 0 => cur
  | m + 1 => (cur >>> (6 * (m + 1))) <<< 6

/-- Bit `t` of what `mask[m]` holds when the iterator stands at `cur`: block `t` of cur's word of
    level `m`, from cur's block on, if it is occupied. -/
def MaskBit (b : IterableBitmap) (size cur m t : Nat) : Prop :=
  t < 64 ∧ (cur >>> (6 * m)) % 64 ≤ t ∧
    Occupied (b.masks 0) size m (64 * (cur >>> (6 * (m + 1))) + t)

/-- Level `m` of the iterator `it` stands at `cur`. -/
structure LevelAt (b : IterableBitmap) (size : Nat) (it : Iterator) (cur m : Nat) : Prop where
  i_eq : it.i m = iAt cur m
  mask_bit : ∀ t, bit (it.mask m) t = true ↔ MaskBit b size cur m t

/-- The iterator `it` stands at the index `cur` of the set. -/
structure StandsAt (b : IterableBitmap) (size : Nat) (it : Iterator) (cur : Nat) : Prop where
  mem : cur ∈ members b size
  level : ∀ m < levels size, LevelAt b size it cur m

/-! ## Positions -/

theorem pos_eq (cur k : Nat) :
    64 * (cur >>> (6 * (k + 1))) + (cur >>> (6 * k)) % 64 = cur >>> (6 * k) := by
  rw [shiftRight_level_succ]
  omega

/-- Indices with one block at level `k` share their blocks at every level above. -/
theorem shiftRight_eq_of_le {i j k m : Nat} (h : i >>> (6 * k) = j >>> (6 * k)) (hkm : k ≤ m) :
    i >>> (6 * m) = j >>> (6 * m) := by
  obtain ⟨d, rfl⟩ := Nat.exists_eq_add_of_le hkm
  rw [Nat.mul_add, Nat.shiftRight_add, Nat.shiftRight_add, h]

theorem iAt_congr {cur cur' m : Nat} (h : cur >>> (6 * m) = cur' >>> (6 * m)) :
    iAt cur m = iAt cur' m := by
  cases m with
  | zero => simpa [iAt] using h
  | succ m => simp only [iAt, h]

section Walk

variable {b : IterableBitmap} {size : Nat}

theorem occupied_self {cur : Nat} (hcur : cur ∈ members b size) (k : Nat) :
    Occupied (b.masks 0) size k (cur >>> (6 * k)) :=
  ⟨cur, hcur.1, hcur.2, rfl⟩

/-- Every index of the set has position `0` at the top level. -/
theorem shiftRight_levels_eq_zero (hpos : 0 < size) (hle : size ≤ 2 ^ 30) {j : Nat}
    (hj : j < size) : j >>> (6 * levels size) = 0 := by
  rw [Nat.shiftRight_eq_div_pow]
  exact Nat.div_eq_of_lt (lt_of_lt_of_le hj (size_le_pow_levels hpos hle))

/-- The word at position `P` of a level in step holds the occupied blocks `64 * P + t`. -/
theorem word_bit_iff (hs : Summarizes b size) {m : Nat} (hm : m < levels size) (P t : Nat) :
    bit (b.masks m P) t = true ↔ t < 64 ∧ 0 ≤ t ∧ Occupied (b.masks 0) size m (64 * P + t) := by
  by_cases ht : t < 64
  · rw [← bitAt_word _ _ ht, hs m hm]
    exact ⟨fun h => ⟨ht, Nat.zero_le t, h⟩, fun h => h.2.2⟩
  · simp [bit_of_le _ (not_lt.mp ht), ht]

/-! ## The lowest bit of a word of blocks -/

section Lowest

variable {w : UInt64} {Q t₀ k : Nat}
  (hw : ∀ t, bit w t = true ↔ t < 64 ∧ t₀ ≤ t ∧ Occupied (b.masks 0) size k (64 * Q + t))
include hw

/-- The lowest bit of a word holding the occupied blocks from offset `t₀` on is such a block. -/
theorem ctz_mem (hne : w ≠ 0) :
    ctz w < 64 ∧ t₀ ≤ ctz w ∧ Occupied (b.masks 0) size k (64 * Q + ctz w) :=
  (hw _).mp (bit_ctz hne)

/-- Every index of the set at or past offset `t₀` is at or past the lowest bit. -/
theorem le_shiftRight_of_ctz (hne : w ≠ 0) {j : Nat} (hj : j ∈ members b size)
    (hge : 64 * Q + t₀ ≤ j >>> (6 * k)) : 64 * Q + ctz w ≤ j >>> (6 * k) := by
  by_contra hlt
  have hc := (ctz_mem hw hne).1
  have hocc : Occupied (b.masks 0) size k (64 * Q + (j >>> (6 * k) - 64 * Q)) :=
    ⟨j, hj.1, hj.2, by omega⟩
  have hbit := (hw (j >>> (6 * k) - 64 * Q)).mpr ⟨by omega, by omega, hocc⟩
  rw [bit_of_lt_ctz (by omega)] at hbit
  exact Bool.false_ne_true hbit

end Lowest

/-- A word holding the occupied blocks from offset `t₀` on holds, for the first index `cur` of
    the set in them, the blocks from cur's on. -/
theorem maskBit_iff_of_least {Q t₀ k cur : Nat} (hQ : cur >>> (6 * (k + 1)) = Q)
    (ht₀ : t₀ ≤ (cur >>> (6 * k)) % 64)
    (hleast : ∀ j ∈ members b size, 64 * Q + t₀ ≤ j >>> (6 * k) → cur ≤ j) (t : Nat) :
    (t < 64 ∧ t₀ ≤ t ∧ Occupied (b.masks 0) size k (64 * Q + t)) ↔ MaskBit b size cur k t := by
  unfold MaskBit
  rw [hQ]
  constructor
  · rintro ⟨ht, ht0, hocc⟩
    refine ⟨ht, ?_, hocc⟩
    obtain ⟨j, hj, hjb, hjp⟩ := hocc
    have hmono := shiftRight_level_mono (hleast j ⟨hj, hjb⟩ (by omega)) k
    have hcur := pos_eq cur k
    rw [hQ] at hcur
    omega
  · rintro ⟨ht, hle, hocc⟩
    exact ⟨ht, le_trans ht₀ hle, hocc⟩

/-! ## Levels of an iterator -/

theorem LevelAt.bit_self {it : Iterator} {cur m : Nat} (h : LevelAt b size it cur m)
    (hcur : cur ∈ members b size) : bit (it.mask m) ((cur >>> (6 * m)) % 64) = true := by
  refine (h.mask_bit _).mpr ⟨Nat.mod_lt _ (by decide), le_rfl, ?_⟩
  rw [pos_eq]
  exact occupied_self hcur m

theorem LevelAt.mask_ne_zero {it : Iterator} {cur m : Nat} (h : LevelAt b size it cur m)
    (hcur : cur ∈ members b size) : it.mask m ≠ 0 := by
  intro h0
  have hbit := h.bit_self hcur
  rw [h0] at hbit
  exact Bool.false_ne_true ((eq_zero_iff 0).mp rfl _ ▸ hbit)

/-- The lowest bit of a mask standing at `cur` is cur's block. -/
theorem LevelAt.ctz_mask {it : Iterator} {cur m : Nat} (h : LevelAt b size it cur m)
    (hcur : cur ∈ members b size) : ctz (it.mask m) = (cur >>> (6 * m)) % 64 :=
  le_antisymm (ctz_le_of_bit (h.bit_self hcur))
    ((h.mask_bit _).mp (bit_ctz (h.mask_ne_zero hcur))).2.1

/-- A level reads only its own `i` and `mask`, and of `cur` only its block there. -/
theorem LevelAt.congr {it it' : Iterator} {cur cur' m : Nat} (h : LevelAt b size it cur m)
    (hi : it'.i m = it.i m) (hmask : it'.mask m = it.mask m)
    (hpos : cur >>> (6 * m) = cur' >>> (6 * m)) : LevelAt b size it' cur' m := by
  have hpos' : cur >>> (6 * (m + 1)) = cur' >>> (6 * (m + 1)) :=
    shiftRight_eq_of_le hpos (Nat.le_succ m)
  refine ⟨by rw [hi, h.i_eq, iAt_congr hpos], fun t => ?_⟩
  rw [hmask, h.mask_bit t]
  unfold MaskBit
  rw [hpos, hpos']

/-! ## Walking down -/

/-- What `descend` from level `k` leaves, started on a word of level `k` that holds the occupied
    blocks from offset `t₀` of the word at position `Q` of level `k + 1`: it stands at the first
    index of the set in those blocks at the levels below `k`, and leaves the levels above as
    they were. -/
structure Descended (b : IterableBitmap) (size k Q t₀ : Nat) (it it' : Iterator) : Prop where
  mem : it'.i 0 ∈ members b size
  pos_succ : it'.i 0 >>> (6 * (k + 1)) = Q
  pos_ge : t₀ ≤ (it'.i 0 >>> (6 * k)) % 64
  least : ∀ j ∈ members b size, 64 * Q + t₀ ≤ j >>> (6 * k) → it'.i 0 ≤ j
  below : ∀ m < k, LevelAt b size it' (it'.i 0) m
  i_self : it'.i k = iAt (it'.i 0) k
  i_above : ∀ m, k < m → it'.i m = it.i m
  mask_above : ∀ m, k ≤ m → it'.mask m = it.mask m

/-- Level `k` itself, whose word `descend` reads and leaves, stands at the index found. -/
theorem Descended.levelAt_self {k Q t₀ : Nat} {it it' : Iterator}
    (hd : Descended b size k Q t₀ it it')
    (hmask : ∀ t, bit (it.mask k) t = true ↔
      t < 64 ∧ t₀ ≤ t ∧ Occupied (b.masks 0) size k (64 * Q + t)) :
    LevelAt b size it' (it'.i 0) k :=
  ⟨hd.i_self, fun t => by
    rw [hd.mask_above k le_rfl, hmask t, maskBit_iff_of_least hd.pos_succ hd.pos_ge hd.least]⟩

theorem Descended.levelAt_le {k Q t₀ : Nat} {it it' : Iterator}
    (hd : Descended b size k Q t₀ it it')
    (hmask : ∀ t, bit (it.mask k) t = true ↔
      t < 64 ∧ t₀ ≤ t ∧ Occupied (b.masks 0) size k (64 * Q + t))
    {m : Nat} (hm : m ≤ k) : LevelAt b size it' (it'.i 0) m := by
  rcases Nat.lt_or_eq_of_le hm with hm | rfl
  · exact hd.below m hm
  · exact hd.levelAt_self hmask

/-- The walk down from level `k`, on a word of blocks that is not empty, with `i[k + 1]` (read
    only where level `k + 1` exists) at the start of the word's position `Q`. -/
theorem descend_spec (hs : Summarizes b size) (hpos : 0 < size) (hle : size ≤ 2 ^ 30) :
    ∀ (k : Nat) (it : Iterator) (Q t₀ : Nat), k < levels size →
      (if hasLevel size (k + 1) then it.i (k + 1) else 0) = 64 * Q →
      (∀ t, bit (it.mask k) t = true ↔
        t < 64 ∧ t₀ ≤ t ∧ Occupied (b.masks 0) size k (64 * Q + t)) →
      it.mask k ≠ 0 → Descended b size k Q t₀ it (b.descend size k it) := by
  intro k
  induction k with
  | zero =>
    intro it Q t₀ _ hbase hmask hne
    obtain ⟨hct, hct0, j, hj, hjb, hjp⟩ := ctz_mem hmask hne
    have hi0 : (b.descend size 0 it).i 0 = 64 * Q + ctz (it.mask 0) := by
      simp only [descend, Function.update_self, hbase]
      omega
    simp only [Nat.mul_zero, Nat.shiftRight_zero] at hjp
    refine ⟨?mem, ?pos_succ, ?pos_ge, ?least, ?below, ?i_self, ?i_above, ?mask_above⟩
    case mem => exact hi0 ▸ hjp ▸ ⟨hj, hjb⟩
    case pos_succ =>
      rw [hi0, Nat.shiftRight_eq_div_pow]
      omega
    case pos_ge =>
      rw [hi0]
      simp only [Nat.mul_zero, Nat.shiftRight_zero]
      omega
    case least =>
      intro j' hj' hge
      have := le_shiftRight_of_ctz hmask hne hj' hge
      simp only [Nat.mul_zero, Nat.shiftRight_zero] at this
      omega
    case below => exact fun m hm => absurd hm (Nat.not_lt_zero m)
    case i_self => rfl
    case i_above =>
      intro m hm
      simp [descend, Function.update_of_ne (Nat.ne_of_gt hm)]
    case mask_above => exact fun m _ => rfl
  | succ k ih =>
    intro it Q t₀ hk hbase hmask hne
    obtain ⟨hct, hct0, hocc⟩ := ctz_mem hmask hne
    -- the walk goes down at the block `P` of level `k + 1`, the lowest in the word
    have hP : ctz (it.mask (k + 1)) + (if hasLevel size (k + 1 + 1) then it.i (k + 1 + 1) else 0)
        = 64 * Q + ctz (it.mask (k + 1)) := by
      rw [hbase]
      omega
    generalize hPdef : 64 * Q + ctz (it.mask (k + 1)) = P at hP hocc
    have hstep : b.descend size (k + 1) it = b.descend size k
        ⟨Function.update it.i (k + 1) (P <<< 6), Function.update it.mask k (b.masks k P)⟩ := by
      simp only [descend, hP]
    have hmask1 := word_bit_iff hs (m := k) (by omega) P
    have hd := ih ⟨Function.update it.i (k + 1) (P <<< 6), Function.update it.mask k (b.masks k P)⟩
      P 0 (by omega)
      (by simp [(hasLevel_iff hpos hle _).mpr hk, Nat.shiftLeft_eq, Nat.mul_comm])
      (by simpa using hmask1)
      (by simpa using (hs k (by omega)).word_eq_zero_iff P |>.not.mpr (not_not.mpr hocc))
    rw [hstep]
    refine ⟨hd.mem, ?pos_succ, ?pos_ge, ?least, ?below, ?i_self, ?i_above, ?mask_above⟩
    case pos_succ =>
      rw [shiftRight_level_succ, hd.pos_succ]
      omega
    case pos_ge =>
      rw [hd.pos_succ]
      omega
    case least =>
      -- an index before `P` would be in a lower block of the word
      intro j hj hge
      have hP := le_shiftRight_of_ctz hmask hne hj hge
      rw [hPdef, shiftRight_level_succ] at hP
      exact hd.least j hj (by omega)
    case below =>
      intro m hm
      exact hd.levelAt_le (by simpa using hmask1) (Nat.lt_succ_iff.mp hm)
    case i_self =>
      rw [hd.i_above (k + 1) (by omega)]
      simp only [Function.update_self, iAt, hd.pos_succ]
    case i_above =>
      intro m hm
      rw [hd.i_above m (by omega)]
      exact Function.update_of_ne (by omega) _ _
    case mask_above =>
      intro m hm
      rw [hd.mask_above m (by omega)]
      exact Function.update_of_ne (by omega) _ _

/-! ## `begin()` -/

/-- The iterator is past the end: `operator!=` with `end()` is false. -/
def Done (size : Nat) (it : Iterator) : Prop := it.neEnd size = false

theorem done_iff {size : Nat} {it : Iterator} : Done size it ↔ it.mask (levels size - 1) = 0 := by
  simp [Done, Iterator.neEnd]

theorem StandsAt.neEnd {it : Iterator} {cur : Nat} (h : StandsAt b size it cur) :
    it.neEnd size = true := by
  have hne := (h.level (levels size - 1) (Nat.sub_lt levels_pos Nat.one_pos)).mask_ne_zero h.mem
  simpa [Iterator.neEnd] using hne

theorem begin_spec (hs : Summarizes b size) (hpos : 0 < size) (hle : size ≤ 2 ^ 30) :
    StartsAtLeast (members b size) (b.StandsAt size) (Done size) (b.begin size) := by
  have htop : levels size - 1 < levels size := Nat.sub_lt levels_pos Nat.one_pos
  have hroot := word_bit_iff hs htop 0
  simp only [Nat.mul_zero, Nat.zero_add] at hroot
  unfold begin
  dsimp only
  split_ifs with h0
  -- an empty root word: no block of the top level is occupied
  · refine .inr ⟨done_iff.mpr (by simp [h0]), Set.eq_empty_of_forall_notMem fun j hj => ?_⟩
    have hbit := (hroot (j >>> (6 * (levels size - 1)))).mpr ⟨?_, Nat.zero_le _, occupied_self hj _⟩
    · rw [h0] at hbit
      exact Bool.false_ne_true ((eq_zero_iff 0).mp rfl _ ▸ hbit)
    · have := pos_eq j (levels size - 1)
      rw [Nat.sub_add_cancel levels_pos, shiftRight_levels_eq_zero hpos hle hj.1] at this
      omega
  · have hmask : ∀ t, bit ((Function.update (fun _ => 0) (levels size - 1)
        (b.masks (levels size - 1) 0) : Nat → UInt64) (levels size - 1)) t = true ↔
        t < 64 ∧ 0 ≤ t ∧ Occupied (b.masks 0) size (levels size - 1) (64 * 0 + t) := by
      simpa using hroot
    have hd := descend_spec hs hpos hle (levels size - 1)
      { i := fun _ => 0, mask := Function.update (fun _ => 0) (levels size - 1)
          (b.masks (levels size - 1) 0) } 0 0 htop
      (by rw [Nat.sub_add_cancel levels_pos, if_neg (by simp [hasLevel_iff hpos hle])])
      hmask (by simpa using h0)
    refine .inl ⟨_, ⟨hd.mem, fun j hj => hd.least j hj (Nat.zero_le _)⟩, hd.mem, fun m hm => ?_⟩
    exact hd.levelAt_le hmask (Nat.le_sub_one_of_lt hm)

/-! ## `operator++` -/

/-- Before the climb of `operator++` reaches level `k`: the iterator stands at `cur` at the levels
    from `k` up, and no larger index of the set shares cur's block of level `k`. -/
structure ClimbAt (b : IterableBitmap) (size : Nat) (it : Iterator) (cur k : Nat) : Prop where
  mem : cur ∈ members b size
  level : ∀ m, k ≤ m → m < levels size → LevelAt b size it cur m
  gap : ∀ j ∈ members b size, cur < j → cur >>> (6 * k) < j >>> (6 * k)

/-- With cur's bit dropped, a word that runs out leaves no larger index in cur's block one level
    up. -/
theorem gap_succ {cur k : Nat} {m : UInt64} (hm0 : m = 0)
    (hm : ∀ t, bit m t = true ↔ t < 64 ∧ (cur >>> (6 * k)) % 64 + 1 ≤ t ∧
      Occupied (b.masks 0) size k (64 * (cur >>> (6 * (k + 1))) + t))
    (hgap : ∀ j ∈ members b size, cur < j → cur >>> (6 * k) < j >>> (6 * k)) :
    ∀ j ∈ members b size, cur < j → cur >>> (6 * (k + 1)) < j >>> (6 * (k + 1)) := by
  intro j hj hlt
  have h1 := hgap j hj hlt
  have hmono := shiftRight_level_mono hlt.le (k + 1)
  have hcur := pos_eq cur k
  have hjpos := pos_eq j k
  by_contra hge
  have heq : j >>> (6 * (k + 1)) = cur >>> (6 * (k + 1)) := by omega
  -- then `j`'s block is a bit of the word after cur's
  have hbit := (hm ((j >>> (6 * k)) % 64)).mpr ⟨Nat.mod_lt _ (by decide), by omega,
    by rw [← heq, pos_eq]; exact occupied_self hj k⟩
  rw [hm0] at hbit
  exact Bool.false_ne_true ((eq_zero_iff 0).mp rfl _ ▸ hbit)

/-- The climb from level `k`, with `n` levels from `k` to the top: the iterator moves to the next
    index of the set, or is past the end when there is none. -/
theorem climb_spec (hs : Summarizes b size) (hpos : 0 < size) (hle : size ≤ 2 ^ 30) {cur : Nat} :
    ∀ (n k : Nat) (it : Iterator), k + n = levels size → k < levels size →
      ClimbAt b size it cur k →
      NextOrDone (members b size) (b.StandsAt size) (Done size) cur (b.climb size k n it) := by
  intro n
  induction n with
  | zero => intro k _ hkn hk; omega
  | succ n ih =>
    intro k it hkn hk hc
    have hlev := hc.level k le_rfl hk
    have hne := hlev.mask_ne_zero hc.mem
    -- dropping the lowest bit drops cur's block
    have hm : ∀ t, bit (it.mask k &&& (it.mask k - 1)) t = true ↔
        t < 64 ∧ (cur >>> (6 * k)) % 64 + 1 ≤ t ∧
          Occupied (b.masks 0) size k (64 * (cur >>> (6 * (k + 1))) + t) := by
      intro t
      rw [bit_and_sub_one hne, hlev.ctz_mask hc.mem, Bool.and_eq_true, hlev.mask_bit t,
        decide_eq_true_eq]
      unfold MaskBit
      constructor
      · rintro ⟨⟨ht, hge, hocc⟩, hne⟩
        exact ⟨ht, by omega, hocc⟩
      · rintro ⟨ht, hge, hocc⟩
        exact ⟨⟨ht, by omega, hocc⟩, by omega⟩
    generalize hmdef : it.mask k &&& (it.mask k - 1) = m at hm
    have hit : ∀ m', m' ≠ k →
        ({ it with mask := Function.update it.mask k m } : Iterator).mask m' = it.mask m' :=
      fun m' hm' => Function.update_of_ne hm' _ _
    simp only [climb, hmdef]
    split_ifs with hm0 hn0
    -- the top word ran out: past the end
    · refine .inr ⟨done_iff.mpr ?_, fun j hj => ?_⟩
      · simp [show levels size - 1 = k by omega, hm0]
      · by_contra hlt
        have := gap_succ hm0 hm hc.gap j hj (not_le.mp hlt)
        rw [show k + 1 = levels size by omega, shiftRight_levels_eq_zero hpos hle hc.mem.1,
          shiftRight_levels_eq_zero hpos hle hj.1] at this
        exact Nat.lt_irrefl 0 this
    -- the word ran out below the top: climb on
    · refine ih (k + 1) _ (by omega) (by omega) ⟨hc.mem, fun m' hm' hm'L => ?_, gap_succ hm0 hm hc.gap⟩
      exact (hc.level m' (by omega) hm'L).congr rfl (hit m' (by omega)) rfl
    -- the word has a bit left: walk down from it
    · have hbase : (if hasLevel size (k + 1) then
          ({ it with mask := Function.update it.mask k m } : Iterator).i (k + 1) else 0) =
          64 * (cur >>> (6 * (k + 1))) := by
        by_cases hk1 : k + 1 < levels size
        · rw [if_pos ((hasLevel_iff hpos hle _).mpr hk1), (hc.level (k + 1) (by omega) hk1).i_eq]
          simp [iAt, Nat.shiftLeft_eq, Nat.mul_comm]
        · rw [if_neg (by simpa [hasLevel_iff hpos hle] using hk1),
            show k + 1 = levels size by omega, shiftRight_levels_eq_zero hpos hle hc.mem.1]
      have hmask : ∀ t, bit (({ it with mask := Function.update it.mask k m } : Iterator).mask k) t
          = true ↔ t < 64 ∧ (cur >>> (6 * k)) % 64 + 1 ≤ t ∧
            Occupied (b.masks 0) size k (64 * (cur >>> (6 * (k + 1))) + t) := by
        simpa using hm
      have hd := descend_spec hs hpos hle k _ _ _ hk hbase hmask (by simpa using hm0)
      have hcur := pos_eq cur k
      have hnext := pos_eq ((b.descend size k { it with mask := Function.update it.mask k m }).i 0) k
      rw [hd.pos_succ] at hnext
      have hpos_ge := hd.pos_ge
      refine .inl ⟨_, ⟨⟨hd.mem, ?_⟩, fun j ⟨hj, hlt⟩ => ?_⟩, hd.mem, fun m' hm' => ?_⟩
      · exact lt_of_shiftRight_lt (k := k) (by omega)
      · have := hc.gap j hj hlt
        exact hd.least j hj (by omega)
      · rcases Nat.lt_or_ge k m' with hkm | hmk
        -- above `k` the levels are as they were, and the new index shares their blocks
        · exact (hc.level m' (by omega) hm').congr (hd.i_above m' hkm)
            ((hd.mask_above m' (by omega)).trans (hit m' (by omega)))
            (shiftRight_eq_of_le (hd.pos_succ.symm) hkm)
        · exact hd.levelAt_le hmask hmk

theorem next_spec (hs : Summarizes b size) (hpos : 0 < size) (hle : size ≤ 2 ^ 30) :
    StepsToNext (members b size) (b.StandsAt size) (Done size) (b.next size) := by
  intro it cur h
  exact climb_spec hs hpos hle (levels size) 0 it (Nat.zero_add _) levels_pos
    ⟨h.mem, fun m _ hm => h.level m hm, fun j _ hlt => by simpa using hlt⟩

/-! ## Runs of `operator++` -/

theorem get_ne_zero_iff (b : IterableBitmap) (i : Nat) :
    b.get i ≠ 0 ↔ bitAt (b.masks 0) i = true := by
  rw [get, testBit_eq]
  cases bitAt (b.masks 0) i <;> simp

/-- On a bitmap in step, the set is what `get` reports: level `0` has no bit at or past
    `size`. -/
theorem Summarizes.mem_members_iff (hs : Summarizes b size) (i : Nat) :
    i ∈ members b size ↔ b.get i ≠ 0 := by
  rw [get_ne_zero_iff]
  exact ⟨And.right, fun h => ⟨levelSums_zero_iff.mp (hs 0 levels_pos) i h, h⟩⟩

theorem Summarizes.mem_filter_get_iff (hs : Summarizes b size) (i : Nat) :
    i ∈ (List.range size).filter (fun i => b.get i ≠ 0) ↔ b.get i ≠ 0 := by
  rw [List.mem_filter, List.mem_range, decide_eq_true_iff]
  exact ⟨And.right, fun h => ⟨((hs.mem_members_iff i).mpr h).1, h⟩⟩

/-- On a bitmap in step, `begin()` and `n` steps of `operator++` stand at the `n`-th index the
    bitmap holds, and after the last one the iterator compares equal to `end()`. -/
theorem Summarizes.iterate (hs : Summarizes b size) (hpos : 0 < size) (hle : size ≤ 2 ^ 30) :
    let l := (List.range size).filter (fun i => b.get i ≠ 0)
    (∀ n (hn : n < l.length), ((b.next size)^[n] (b.begin size)).neEnd size = true ∧
      ((b.next size)^[n] (b.begin size)).i 0 = l[n]) ∧
    ((b.next size)^[l.length] (b.begin size)).neEnd size = false := by
  intro l
  have hl : l.Pairwise (· < ·) := List.pairwise_lt_range.filter _
  have hmem : ∀ x, x ∈ l ↔ x ∈ members b size := fun x =>
    (hs.mem_filter_get_iff x).trans (hs.mem_members_iff x).symm
  refine ⟨fun n hn => ?_, iterate_done (begin_spec hs hpos hle) (next_spec hs hpos hle) hl hmem⟩
  have hat := iterate_at (begin_spec hs hpos hle) (next_spec hs hpos hle) hl hmem n hn
  exact ⟨hat.neEnd, (hat.level 0 levels_pos).i_eq⟩

end Walk

theorem iterableBitmap_summaries_and_iteration (size : Nat) (hpos : 0 < size)
    (hle : size ≤ 2 ^ 30) (ops : List Op) (hops : ∀ op ∈ ops, op.index < size) :
    let b := run size ops
    (∀ k, 1 ≤ k → k < levels size → ∀ j, testBit (b.masks k) j ≠ 0 ↔ b.masks (k - 1) j ≠ 0) ∧
    let l := (List.range size).filter (fun i => b.get i ≠ 0)
    (∀ i, i ∈ l ↔ b.get i ≠ 0) ∧ l.Pairwise (· < ·) ∧
    (∀ n (hn : n < l.length), ((b.next size)^[n] (b.begin size)).neEnd size = true ∧
      ((b.next size)^[n] (b.begin size)).i 0 = l[n]) ∧
    ((b.next size)^[l.length] (b.begin size)).neEnd size = false := by
  intro b
  have hs : Summarizes b size := summarizes_run hpos hle hops
  exact ⟨fun k hk1 hk => hs.testBit_ne_zero_iff hk1 hk, hs.mem_filter_get_iff,
    List.pairwise_lt_range.filter _, hs.iterate hpos hle⟩

theorem iterableBitmap_summaries_and_iteration_fifty :
    0 < 50 ∧ 50 ≤ 2 ^ 30 ∧ (∀ op ∈ [Op.set 3, .set 49, .set 10, .clear 3], op.index < 50) ∧
    let b := run 50 [.set 3, .set 49, .set 10, .clear 3]
    (∀ k, 1 ≤ k → k < levels 50 → ∀ j, testBit (b.masks k) j ≠ 0 ↔ b.masks (k - 1) j ≠ 0) ∧
    let l := (List.range 50).filter (fun i => b.get i ≠ 0)
    (∀ i, i ∈ l ↔ b.get i ≠ 0) ∧ l.Pairwise (· < ·) ∧
    (∀ n (hn : n < l.length), ((b.next 50)^[n] (b.begin 50)).neEnd 50 = true ∧
      ((b.next 50)^[n] (b.begin 50)).i 0 = l[n]) ∧
    ((b.next 50)^[l.length] (b.begin 50)).neEnd 50 = false :=
  ⟨by decide, by decide, by decide,
    iterableBitmap_summaries_and_iteration 50 (by decide) (by decide) _ (by decide)⟩

end OtelNetwork.IterableBitmap
