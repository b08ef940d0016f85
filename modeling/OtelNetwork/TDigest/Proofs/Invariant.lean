import OtelNetwork.TDigest.Basic
import OtelNetwork.Lib.Rust
import Mathlib.Algebra.Order.BigOperators.Group.List
import Mathlib.Order.Bounds.Basic
import Mathlib.Tactic.Linarith

/-!
# The digest's invariant

Every digest the accumulator and the merger build has at most `TDIGEST_CENTROID_COUNT_MAX`
centroids, whose weights are positive whole numbers summing to the value count, whose means are
sorted and lie between the minimum and the maximum; the minimum, maximum and sum are those of the
values it has consumed, and neither merge writes past `merging_buffer_` or `centroids_`.

The merge loop closes a centroid only while the running weight exceeds
`k_to_q(k, 100) * count`, and the running weight never exceeds the count, which the weights of
its inputs sum to. After 99 closings `k` is 100, `k_to_q(100, 100) = 1`, and the loop closes no
more: at most 100 centroids come out. Each is a weighted mean of input centroids, so it lies
between their smallest and largest means, and the sum the loop recomputes is the total mass of
its inputs.
-/

namespace OtelNetwork.TDigest

open RustSem

/-- The mass of a centroid, its mean times its weight. -/
def Centroid.mass (c : Centroid) : ℚ := c.mean * c.weight

/-- A weight a digest may hold: a positive whole number. -/
def IsCount (w : ℚ) : Prop := ∃ n : ℕ, 0 < n ∧ w = n

theorem IsCount.pos {w : ℚ} (h : IsCount w) : 0 < w := by
  obtain ⟨n, hn, rfl⟩ := h
  exact_mod_cast hn

theorem isCount_one : IsCount 1 := ⟨1, Nat.one_pos, by simp⟩

theorem IsCount.add_nat {w v : ℚ} (h : IsCount w) (hv : ∃ n : ℕ, v = n) :
    IsCount (w + v) := by
  obtain ⟨n, hn, rfl⟩ := h
  obtain ⟨m, rfl⟩ := hv
  exact ⟨n + m, by omega, by push_cast; rfl⟩

/-! ## The order the merge loops read -/

theorem mergeCons_perm (x : Centroid) {xs : List Centroid} {rest : List Centroid → List Centroid}
    (hrest : ∀ zs, (rest zs).Perm (xs ++ zs)) (ys : List Centroid) :
    (mergeCons x rest ys).Perm (x :: xs ++ ys) := by
  induction ys with
  | nil => exact (hrest []).cons x
  | cons y ys ih =>
    unfold mergeCons
    split
    · exact (hrest (y :: ys)).cons x
    · -- `y` goes first; it moves past the block of `x :: xs`
      exact (ih.cons y).trans List.perm_middle.symm

theorem mergeIn_perm (xs ys : List Centroid) : (mergeIn xs ys).Perm (xs ++ ys) := by
  induction xs generalizing ys with
  | nil => exact List.Perm.refl ys
  | cons x xs ih => exact mergeCons_perm x ih ys

/-! ## Closing a centroid -/

theorem Centroid.add_weight (c : Centroid) (newSum newWeight : ℚ) :
    (c.add newSum newWeight).2.weight = c.weight + newWeight := rfl

theorem Centroid.add_fst (c : Centroid) (newSum newWeight : ℚ) :
    (c.add newSum newWeight).1 = newSum + c.mass := rfl

/-- The sum `add` returns is the mass of the centroid it leaves. -/
theorem Centroid.add_mass (c : Centroid) (newSum newWeight : ℚ) (hw : 0 < c.weight + newWeight) :
    (c.add newSum newWeight).2.mass = (c.add newSum newWeight).1 := by
  show (newSum + c.mean * c.weight) / (c.weight + newWeight) * (c.weight + newWeight) = _
  exact div_mul_cancel₀ _ hw.ne'

/-- A weighted mean stays between the bounds of what it averages. -/
theorem Centroid.add_mean_mem {lo hi : ℚ} (c : Centroid) {newSum newWeight : ℚ}
    (hw : 0 < c.weight) (hnw : 0 ≤ newWeight) (hc : lo ≤ c.mean ∧ c.mean ≤ hi)
    (hs : lo * newWeight ≤ newSum ∧ newSum ≤ hi * newWeight) :
    lo ≤ (c.add newSum newWeight).2.mean ∧ (c.add newSum newWeight).2.mean ≤ hi := by
  have hpos : 0 < c.weight + newWeight := by linarith
  have hlo : lo * (c.weight + newWeight) ≤ newSum + c.mean * c.weight := by nlinarith
  have hhi : newSum + c.mean * c.weight ≤ hi * (c.weight + newWeight) := by nlinarith
  constructor
  · show lo ≤ (newSum + c.mean * c.weight) / (c.weight + newWeight)
    rwa [le_div_iff₀ hpos]
  · show (newSum + c.mean * c.weight) / (c.weight + newWeight) ≤ hi
    rwa [div_le_iff₀ hpos]

/-- `k_to_q(100, 100) = 1`: from the hundredth centroid on, the limit is the whole count. -/
theorem kToQ_self : kToQ centroidCountMax centroidCountMax = 1 := by
  norm_num [kToQ, centroidCountMax]

/-! ## One turn of the merge loop -/

section MergeStep

variable {count : ℚ} {s : MergeState} {next : Centroid}

theorem mergeStep_of_le (hroom : s.closed.length + 1 ≤ centroidCountMax)
    (hle : s.weightsSoFar + next.weight ≤ s.qLimitTimesCount) :
    mergeStep count s next = .ok
      { s with weightsSoFar := s.weightsSoFar + next.weight,
               sumsToMerge := s.sumsToMerge + next.mass,
               weightsToMerge := s.weightsToMerge + next.weight } := by
  have hfit : ¬ s.closed.length + 1 > centroidCountMax := by omega
  simp [mergeStep, hfit, hle, Centroid.mass]

theorem mergeStep_of_lt (hroom : s.closed.length + 1 ≤ centroidCountMax)
    (hlt : s.qLimitTimesCount < s.weightsSoFar + next.weight) :
    mergeStep count s next = .ok
      { closed := s.closed ++ [(s.curr.add s.sumsToMerge s.weightsToMerge).2], curr := next,
        weightsSoFar := s.weightsSoFar + next.weight, sumsToMerge := 0, weightsToMerge := 0,
        kLimit := s.kLimit + 1, qLimitTimesCount := kToQ s.kLimit centroidCountMax * count,
        sum := s.sum + (s.curr.add s.sumsToMerge s.weightsToMerge).1 } := by
  have hfit : ¬ s.closed.length + 1 > centroidCountMax := by omega
  simp [mergeStep, hfit, not_le.mpr hlt]

end MergeStep

/-! ## The merge loop's invariant -/

/-- What the merge loop keeps, `seen` being the centroids it has read, `count` the weight they are
    drawn from and `[lo, hi]` a range holding every mean read. The closed centroids are at most 99,
    with `k` and the limit of the next closing; the running weight is what was read, and is split
    between the closed centroids, `curr` and the weight to merge into it; the sum so far is the
    mass of the closed centroids, and the mass read is split the same way. -/
structure LoopInv (count lo hi : ℚ) (seen : List Centroid) (s : MergeState) : Prop where
  closed_le : s.closed.length + 1 ≤ centroidCountMax
  kLimit_eq : s.kLimit = s.closed.length + 2
  qLimit_eq : s.qLimitTimesCount = kToQ (s.closed.length + 1) centroidCountMax * count
  weightsSoFar_eq : s.weightsSoFar = (seen.map Centroid.weight).sum
  closed_count : ∀ c ∈ s.closed, IsCount c.weight
  curr_count : IsCount s.curr.weight
  toMerge_nat : ∃ n : ℕ, s.weightsToMerge = n
  weight_eq : (s.closed.map Centroid.weight).sum + s.curr.weight + s.weightsToMerge = s.weightsSoFar
  sum_eq : (s.closed.map Centroid.mass).sum = s.sum
  mass_eq : s.sum + s.curr.mass + s.sumsToMerge = (seen.map Centroid.mass).sum
  closed_mem : ∀ c ∈ s.closed, lo ≤ c.mean ∧ c.mean ≤ hi
  curr_mem : lo ≤ s.curr.mean ∧ s.curr.mean ≤ hi
  toMerge_mem : lo * s.weightsToMerge ≤ s.sumsToMerge ∧ s.sumsToMerge ≤ hi * s.weightsToMerge

section LoopInv

variable {count lo hi : ℚ} {seen : List Centroid} {s : MergeState} {next : Centroid}

/-- The state `compress` starts the loop from, `curr` holding the first centroid read. -/
theorem loopInv_init (first : Centroid) (hc : IsCount first.weight)
    (hm : lo ≤ first.mean ∧ first.mean ≤ hi) :
    LoopInv count lo hi [first]
      { closed := [], curr := first, weightsSoFar := first.weight, sumsToMerge := 0,
        weightsToMerge := 0, kLimit := 2, qLimitTimesCount := kToQ 1 centroidCountMax * count,
        sum := 0 } where
  closed_le := by simp [centroidCountMax]
  kLimit_eq := by simp
  qLimit_eq := by simp
  weightsSoFar_eq := by simp
  closed_count := by simp
  curr_count := hc
  toMerge_nat := ⟨0, by simp⟩
  weight_eq := by simp
  sum_eq := by simp
  mass_eq := by simp
  closed_mem := by simp
  curr_mem := hm
  toMerge_mem := by simp

/-- A turn that merges the centroid read into `curr`. -/
theorem LoopInv.merge (h : LoopInv count lo hi seen s) (hn : IsCount next.weight)
    (hm : lo ≤ next.mean ∧ next.mean ≤ hi) :
    LoopInv count lo hi (seen ++ [next])
      { s with weightsSoFar := s.weightsSoFar + next.weight,
               sumsToMerge := s.sumsToMerge + next.mass,
               weightsToMerge := s.weightsToMerge + next.weight } where
  closed_le := h.closed_le
  kLimit_eq := h.kLimit_eq
  qLimit_eq := h.qLimit_eq
  weightsSoFar_eq := by simp [h.weightsSoFar_eq]
  closed_count := h.closed_count
  curr_count := h.curr_count
  toMerge_nat := by
    obtain ⟨n, hn'⟩ := h.toMerge_nat
    obtain ⟨k, -, hk⟩ := hn
    exact ⟨n + k, by rw [hn', hk]; push_cast; rfl⟩
  weight_eq := by
    show _ + _ + (s.weightsToMerge + next.weight) = s.weightsSoFar + next.weight
    linarith [h.weight_eq]
  sum_eq := h.sum_eq
  mass_eq := by
    show s.sum + s.curr.mass + (s.sumsToMerge + next.mass) = _
    simp only [List.map_append, List.sum_append, List.map_cons, List.map_nil, List.sum_cons,
      List.sum_nil, add_zero]
    linarith [h.mass_eq]
  closed_mem := h.closed_mem
  curr_mem := h.curr_mem
  toMerge_mem := by
    have hw : 0 ≤ next.weight := hn.pos.le
    have hlo : lo * next.weight ≤ next.mass := mul_le_mul_of_nonneg_right hm.1 hw
    have hhi : next.mass ≤ hi * next.weight := mul_le_mul_of_nonneg_right hm.2 hw
    constructor <;> simp only [mul_add] <;> linarith [h.toMerge_mem.1, h.toMerge_mem.2]

/-- A closing needs a limit below the count: with 99 centroids closed the limit is the count
    itself, so at most 98 are closed before one more is. -/
theorem LoopInv.room_of_close (h : LoopInv count lo hi seen s)
    (hw : (seen.map Centroid.weight).sum + next.weight ≤ count)
    (hlt : s.qLimitTimesCount < s.weightsSoFar + next.weight) :
    s.closed.length + 2 ≤ centroidCountMax := by
  by_contra hfull
  have hlast : (s.closed.length : ℚ) + 1 = centroidCountMax := by
    have := h.closed_le
    exact_mod_cast (by omega : s.closed.length + 1 = centroidCountMax)
  rw [h.qLimit_eq, hlast, kToQ_self, one_mul, h.weightsSoFar_eq] at hlt
  linarith

/-- The centroid `add` closes from `curr`: its weight is a count, its mean in range, and its mass
    the sum `add` returns. -/
theorem LoopInv.curr_add (h : LoopInv count lo hi seen s) :
    IsCount (s.curr.add s.sumsToMerge s.weightsToMerge).2.weight ∧
      (lo ≤ (s.curr.add s.sumsToMerge s.weightsToMerge).2.mean ∧
        (s.curr.add s.sumsToMerge s.weightsToMerge).2.mean ≤ hi) ∧
      (s.curr.add s.sumsToMerge s.weightsToMerge).2.mass =
        (s.curr.add s.sumsToMerge s.weightsToMerge).1 := by
  obtain ⟨n, hn⟩ := h.toMerge_nat
  have hwm : 0 ≤ s.weightsToMerge := by rw [hn]; exact Nat.cast_nonneg n
  have hpos : 0 < s.curr.weight + s.weightsToMerge := by linarith [h.curr_count.pos]
  exact ⟨h.curr_count.add_nat ⟨n, hn⟩,
    s.curr.add_mean_mem h.curr_count.pos hwm h.curr_mem h.toMerge_mem,
    s.curr.add_mass s.sumsToMerge s.weightsToMerge hpos⟩

/-- A turn that closes `curr` and starts the next one from the centroid read. -/
theorem LoopInv.close (h : LoopInv count lo hi seen s) (hn : IsCount next.weight)
    (hm : lo ≤ next.mean ∧ next.mean ≤ hi)
    (hroom : s.closed.length + 2 ≤ centroidCountMax) :
    LoopInv count lo hi (seen ++ [next])
      { closed := s.closed ++ [(s.curr.add s.sumsToMerge s.weightsToMerge).2], curr := next,
        weightsSoFar := s.weightsSoFar + next.weight, sumsToMerge := 0, weightsToMerge := 0,
        kLimit := s.kLimit + 1, qLimitTimesCount := kToQ s.kLimit centroidCountMax * count,
        sum := s.sum + (s.curr.add s.sumsToMerge s.weightsToMerge).1 } := by
  obtain ⟨hcount, hmean, hmass⟩ := h.curr_add
  refine
    { closed_le := by simp only [List.length_append, List.length_singleton]; omega
      kLimit_eq := by
        rw [h.kLimit_eq]; simp only [List.length_append, List.length_singleton]; push_cast; ring
      qLimit_eq := by
        rw [h.kLimit_eq]; simp only [List.length_append, List.length_singleton]; push_cast; ring_nf
      weightsSoFar_eq := by simp [h.weightsSoFar_eq]
      closed_count := ?closed_count
      curr_count := hn
      toMerge_nat := ⟨0, by simp⟩
      weight_eq := ?weight_eq
      sum_eq := ?sum_eq
      mass_eq := ?mass_eq
      closed_mem := ?closed_mem
      curr_mem := hm
      toMerge_mem := by simp }
  case closed_count =>
    intro c hc
    rcases List.mem_append.mp hc with hc | hc
    · exact h.closed_count c hc
    · rw [List.mem_singleton.mp hc]; exact hcount
  case weight_eq =>
    simp only [List.map_append, List.sum_append, List.map_cons, List.map_nil, List.sum_cons,
      List.sum_nil, add_zero, Centroid.add_weight]
    linarith [h.weight_eq]
  case sum_eq =>
    simp only [List.map_append, List.sum_append, List.map_cons, List.map_nil, List.sum_cons,
      List.sum_nil, add_zero, hmass, h.sum_eq]
  case mass_eq =>
    simp only [List.map_append, List.sum_append, List.map_cons, List.map_nil, List.sum_cons,
      List.sum_nil, add_zero, Centroid.add_fst]
    linarith [h.mass_eq]
  case closed_mem =>
    intro c hc
    rcases List.mem_append.mp hc with hc | hc
    · exact h.closed_mem c hc
    · rw [List.mem_singleton.mp hc]; exact hmean

/-- One turn of the loop keeps its invariant, and never writes past `merging_buffer_`. -/
theorem LoopInv.step (h : LoopInv count lo hi seen s) (hn : IsCount next.weight)
    (hm : lo ≤ next.mean ∧ next.mean ≤ hi)
    (hw : (seen.map Centroid.weight).sum + next.weight ≤ count) :
    ∃ s', mergeStep count s next = .ok s' ∧ LoopInv count lo hi (seen ++ [next]) s' := by
  by_cases hle : s.weightsSoFar + next.weight ≤ s.qLimitTimesCount
  · exact ⟨_, mergeStep_of_le h.closed_le hle, h.merge hn hm⟩
  · have hlt := not_le.mp hle
    exact ⟨_, mergeStep_of_lt h.closed_le hlt, h.close hn hm (h.room_of_close hw hlt)⟩

end LoopInv

/-! ## What the loop leaves -/

/-- Centroids a digest may hold for `count` values, bounds `[lo, hi]` and sum `sum`: at most
    `TDIGEST_CENTROID_COUNT_MAX`, of positive whole weights summing to the count, sorted by mean,
    with means in the bounds and masses summing to the sum. -/
structure WellFormed (count lo hi sum : ℚ) (cs : List Centroid) : Prop where
  length_le : cs.length ≤ centroidCountMax
  weight_count : ∀ c ∈ cs, IsCount c.weight
  weight_sum : (cs.map Centroid.weight).sum = count
  sorted : cs.Pairwise fun a b => a.mean ≤ b.mean
  mean_mem : ∀ c ∈ cs, lo ≤ c.mean ∧ c.mean ≤ hi
  mass_sum : (cs.map Centroid.mass).sum = sum

instance : Std.Total (fun a b : Centroid => a.mean ≤ b.mean) :=
  ⟨fun a b => le_total a.mean b.mean⟩

instance : IsTrans Centroid (fun a b => a.mean ≤ b.mean) := ⟨fun _ _ _ => le_trans⟩

section Finish

variable {count lo hi : ℚ} {seen : List Centroid} {s : MergeState}

/-- The close after the loop: with the whole count read, the centroids sorted into `centroids_`
    are well formed, and the sum is the mass read. -/
theorem LoopInv.finish (h : LoopInv count lo hi seen s)
    (hsum : (seen.map Centroid.weight).sum = count) :
    WellFormed count lo hi (seen.map Centroid.mass).sum
        ((s.closed ++ [(s.curr.add s.sumsToMerge s.weightsToMerge).2]).insertionSort
          fun a b => a.mean ≤ b.mean) ∧
      s.sum + (s.curr.add s.sumsToMerge s.weightsToMerge).1 = (seen.map Centroid.mass).sum := by
  obtain ⟨hcount, hmean, hmass⟩ := h.curr_add
  have hp := List.perm_insertionSort (fun a b : Centroid => a.mean ≤ b.mean)
    (s.closed ++ [(s.curr.add s.sumsToMerge s.weightsToMerge).2])
  have hadded : s.sum + (s.curr.add s.sumsToMerge s.weightsToMerge).1 =
      (seen.map Centroid.mass).sum := by
    rw [Centroid.add_fst, ← h.mass_eq]; ring
  refine ⟨{ length_le := ?_, weight_count := ?_, weight_sum := ?_,
             sorted := List.pairwise_insertionSort _ _, mean_mem := ?_, mass_sum := ?_ }, hadded⟩
  · have := h.closed_le
    rw [hp.length_eq, List.length_append, List.length_singleton]
    omega
  · intro c hc
    rcases List.mem_append.mp (hp.mem_iff.mp hc) with hc | hc
    · exact h.closed_count c hc
    · rw [List.mem_singleton.mp hc]; exact hcount
  · rw [(hp.map _).sum_eq, ← hsum, ← h.weightsSoFar_eq, ← h.weight_eq]
    simp only [List.map_append, List.sum_append, List.map_cons, List.map_nil, List.sum_cons,
      List.sum_nil, add_zero, Centroid.add_weight]
    ring
  · intro c hc
    rcases List.mem_append.mp (hp.mem_iff.mp hc) with hc | hc
    · exact h.closed_mem c hc
    · rw [List.mem_singleton.mp hc]; exact hmean
  · rw [(hp.map _).sum_eq, ← hadded, ← h.sum_eq]
    simp only [List.map_append, List.sum_append, List.map_cons, List.map_nil, List.sum_cons,
      List.sum_nil, add_zero, hmass]

end Finish

/-- `compress` over centroids of positive whole weights summing to `count`, whose means lie in
    `[lo, hi]`, never writes past `merging_buffer_` or `centroids_`; it leaves well-formed
    centroids and recomputes the sum as their total mass. -/
theorem compress_spec {count lo hi : ℚ} {cs : List Centroid} (hne : cs ≠ [])
    (hcount : ∀ c ∈ cs, IsCount c.weight) (hmem : ∀ c ∈ cs, lo ≤ c.mean ∧ c.mean ≤ hi)
    (hsum : (cs.map Centroid.weight).sum = count) :
    ∃ out, compress count cs = .ok ((cs.map Centroid.mass).sum, out) ∧
      WellFormed count lo hi (cs.map Centroid.mass).sum out := by
  obtain ⟨first, rest, rfl⟩ := List.exists_cons_of_ne_nil hne
  -- the loop over the rest, with its invariant over the prefix read
  have hstep : ∀ pre a post s, pre ++ a :: post = rest →
      LoopInv count lo hi (first :: pre) s →
      ∃ s', mergeStep count s a = .ok s' ∧ LoopInv count lo hi (first :: (pre ++ [a])) s' := by
    intro pre a post s hl hs
    have hin : ∀ c ∈ post, c ∈ first :: rest := fun c hc => by simp [← hl, hc]
    have ha : a ∈ first :: rest := by simp [← hl]
    have hpost : 0 ≤ (post.map Centroid.weight).sum :=
      List.sum_nonneg fun w hw => by
        obtain ⟨c, hc, rfl⟩ := List.mem_map.mp hw
        exact (hcount c (hin c hc)).pos.le
    refine hs.step (hcount a ha) (hmem a ha) ?_
    rw [← hsum, ← hl]
    simp only [List.map_cons, List.map_append, List.sum_cons, List.sum_append]
    linarith
  obtain ⟨s, hs, hinv⟩ := foldlM_except_inv_prefix
    (fun pre s => LoopInv count lo hi (first :: pre) s) rest hstep
    (loopInv_init first (hcount first List.mem_cons_self) (hmem first List.mem_cons_self))
  obtain ⟨hwf, hadded⟩ := hinv.finish hsum
  refine ⟨_, ?_, hwf⟩
  have hroom := hinv.closed_le
  simp only [compress, hs, ok_bind]
  simp only [hadded, List.length_insertionSort, List.length_append, List.length_singleton]
  rw [if_neg (by omega)]
  rfl

/-- `compress` over the order the merges read two inputs in: what `compress_spec` says, with the
    hypotheses on the two inputs together. -/
theorem compress_mergeIn {count lo hi : ℚ} {xs ys : List Centroid} (hne : xs ++ ys ≠ [])
    (hcount : ∀ c ∈ xs ++ ys, IsCount c.weight)
    (hmem : ∀ c ∈ xs ++ ys, lo ≤ c.mean ∧ c.mean ≤ hi)
    (hsum : ((xs ++ ys).map Centroid.weight).sum = count) :
    ∃ out, compress count (mergeIn xs ys) = .ok (((xs ++ ys).map Centroid.mass).sum, out) ∧
      WellFormed count lo hi ((xs ++ ys).map Centroid.mass).sum out := by
  have hp := mergeIn_perm xs ys
  have hmass := (hp.map Centroid.mass).sum_eq
  rw [← hmass]
  have hne' : mergeIn xs ys ≠ [] := fun h => by
    rw [h] at hp
    exact hne hp.nil_eq.symm
  exact compress_spec hne'
    (fun c hc => hcount c (hp.mem_iff.mp hc)) (fun c hc => hmem c (hp.mem_iff.mp hc))
    ((hp.map Centroid.weight).sum_eq.trans hsum)

/-! ## Digests -/

/-- A value as the centroid of weight one both merges read it as. -/
def unit (v : ℚ) : Centroid := { mean := v, weight := 1 }

theorem weight_sum_map_unit (l : List ℚ) : ((l.map unit).map Centroid.weight).sum = l.length := by
  induction l with
  | nil => simp
  | cons v l ih =>
    rw [List.map_cons, List.map_cons, List.sum_cons, ih]
    simp only [unit, List.length_cons, Nat.cast_succ]
    ring

theorem mass_sum_map_unit (l : List ℚ) : ((l.map unit).map Centroid.mass).sum = l.sum := by
  induction l with
  | nil => simp
  | cons v l ih =>
    rw [List.map_cons, List.map_cons, List.sum_cons, ih, List.sum_cons]
    simp [unit, Centroid.mass]

/-- The values of a list, as a set. -/
theorem setOf_mem_append (vs ws : List ℚ) :
    {v | v ∈ vs ++ ws} = {v | v ∈ vs} ∪ {v | v ∈ ws} :=
  Set.ext fun _ => List.mem_append

/-- What holds of a digest that has consumed the values `vs`: its centroids are well formed for
    its count, bounds and sum; the count and sum are those of `vs`, and the minimum and maximum
    are the least and greatest of them. -/
structure Inv (d : TDigest) (vs : List ℚ) : Prop where
  centroids : WellFormed d.valueCount d.min d.max d.sum d.centroids
  valueCount_eq : d.valueCount = vs.length
  sum_eq : d.sum = vs.sum
  isLeast_min : vs ≠ [] → IsLeast {v | v ∈ vs} d.min
  isGreatest_max : vs ≠ [] → IsGreatest {v | v ∈ vs} d.max

theorem inv_empty : Inv {} [] where
  centroids :=
    { length_le := by simp
      weight_count := by simp
      weight_sum := by simp
      sorted := List.Pairwise.nil
      mean_mem := by simp
      mass_sum := by simp }
  valueCount_eq := rfl
  sum_eq := rfl
  isLeast_min := fun h => absurd rfl h
  isGreatest_max := fun h => absurd rfl h

section Inv

variable {d : TDigest} {vs : List ℚ}

/-- A digest has centroids exactly when it has consumed values: the weights are positive and sum
    to the count. -/
theorem Inv.centroids_eq_nil_iff (h : Inv d vs) : d.centroids = [] ↔ vs = [] := by
  rw [← List.length_eq_zero_iff (l := vs), ← h.valueCount_eq]
  constructor
  · intro hnil
    have hsum := h.centroids.weight_sum
    rw [hnil, List.map_nil, List.sum_nil] at hsum
    exact_mod_cast hsum.symm
  · intro h0
    by_contra hne
    have hpos : 0 < (d.centroids.map Centroid.weight).sum :=
      List.sum_pos _ (fun w hw => by
        obtain ⟨c, hc, rfl⟩ := List.mem_map.mp hw
        exact (h.centroids.weight_count c hc).pos) (by simpa using hne)
    rw [h.centroids.weight_sum, h0] at hpos
    simp at hpos

/-- The centroids' means lie within any bounds of the values consumed. -/
theorem Inv.mean_mem_of_bounds {lo hi : ℚ} (h : Inv d vs)
    (hlo : lo ∈ lowerBounds {v | v ∈ vs}) (hhi : hi ∈ upperBounds {v | v ∈ vs}) :
    ∀ c ∈ d.centroids, lo ≤ c.mean ∧ c.mean ≤ hi := by
  intro c hc
  have hvs : vs ≠ [] := fun hnil => by
    rw [(h.centroids_eq_nil_iff).mpr hnil] at hc
    exact List.not_mem_nil hc
  obtain ⟨hmin, hmax⟩ := h.centroids.mean_mem c hc
  exact ⟨(hlo (h.isLeast_min hvs).1).trans hmin, hmax.trans (hhi (h.isGreatest_max hvs).1)⟩

/-- The minimum `merge_from_values` keeps, from a batch whose least value is `b`. -/
theorem Inv.isLeast_mergeFromValues {values : List ℚ} {b : ℚ} (h : Inv d vs)
    (hb : IsLeast {v | v ∈ values} b) :
    IsLeast {v | v ∈ vs ++ values} (if d.valueCount = 0 then b else Min.min d.min b) := by
  by_cases hvs : vs = []
  · have h0 : d.valueCount = 0 := by rw [h.valueCount_eq, hvs]; rfl
    rw [if_pos h0, hvs, List.nil_append]
    exact hb
  · have h0 : d.valueCount ≠ 0 := by rw [h.valueCount_eq]; simpa using hvs
    rw [if_neg h0, setOf_mem_append]
    exact (h.isLeast_min hvs).union hb

/-- The maximum `merge_from_values` keeps, from a batch whose greatest value is `b`. -/
theorem Inv.isGreatest_mergeFromValues {values : List ℚ} {b : ℚ} (h : Inv d vs)
    (hb : IsGreatest {v | v ∈ values} b) :
    IsGreatest {v | v ∈ vs ++ values} (if d.valueCount = 0 then b else Max.max d.max b) := by
  by_cases hvs : vs = []
  · have h0 : d.valueCount = 0 := by rw [h.valueCount_eq, hvs]; rfl
    rw [if_pos h0, hvs, List.nil_append]
    exact hb
  · have h0 : d.valueCount ≠ 0 := by rw [h.valueCount_eq]; simpa using hvs
    rw [if_neg h0, setOf_mem_append]
    exact (h.isGreatest_max hvs).union hb

end Inv

/-! ## The two merges -/

section Merges

variable {d l r : TDigest} {vs vl vr : List ℚ}

/-- `merge_from_values` on a digest with its invariant and a batch the assertion accepts never
    writes past `merging_buffer_` or `centroids_`, and keeps the invariant over the values the
    digest has now consumed. -/
theorem Inv.mergeFromValues {values : List ℚ} (h : Inv d vs)
    (hlen : values.length ≤ valueBufferSize) :
    ∃ d', d.mergeFromValues values = .ok d' ∧ Inv d' (vs ++ values) := by
  by_cases hnil : values = []
  · subst hnil
    exact ⟨d, rfl, by simpa using h⟩
  have h0 : values.length ≠ 0 := by simpa using hnil
  simp only [TDigest.mergeFromValues, h0, hlen, if_false, not_true_eq_false]
  rw [show (fun v : ℚ => ({ mean := v, weight := 1 } : Centroid)) = unit from rfl]
  -- the batch sorted: its least value first and its greatest last
  have hp := List.perm_insertionSort (· ≤ ·) values
  have hs := List.pairwise_insertionSort (· ≤ ·) values
  generalize values.insertionSort (· ≤ ·) = sorted at hp hs ⊢
  have hne : sorted ≠ [] := fun h' => hnil (by rw [h'] at hp; exact hp.nil_eq.symm)
  obtain ⟨first, rest, rfl⟩ := List.exists_cons_of_ne_nil hne
  have hset : {v | v ∈ values} = {v | v ∈ first :: rest} := Set.ext fun _ => hp.mem_iff.symm
  have hlo := h.isLeast_mergeFromValues
    (hset ▸ ⟨List.mem_cons_self, fun _ hv => hs.rel_head hv⟩ : IsLeast {v | v ∈ values} first)
  have hhi := h.isGreatest_mergeFromValues
    (hset ▸ ⟨List.getLast_mem _, fun _ hv => hs.rel_getLast hv⟩ :
    IsGreatest {v | v ∈ values} ((first :: rest).getLast (List.cons_ne_nil first rest)))
  -- the centroids read: the digest's, and the batch as centroids of weight one
  have hcount : ∀ c ∈ d.centroids ++ (first :: rest).map unit, IsCount c.weight := by
    intro c hc
    rcases List.mem_append.mp hc with hc | hc
    · exact h.centroids.weight_count c hc
    · obtain ⟨v, -, rfl⟩ := List.mem_map.mp hc
      exact isCount_one
  have hmem : ∀ c ∈ d.centroids ++ (first :: rest).map unit,
      (if d.valueCount = 0 then first else Min.min d.min first) ≤ c.mean ∧
        c.mean ≤ (if d.valueCount = 0 then (first :: rest).getLast (List.cons_ne_nil first rest)
          else Max.max d.max ((first :: rest).getLast (List.cons_ne_nil first rest))) := by
    intro c hc
    rcases List.mem_append.mp hc with hc | hc
    · refine h.mean_mem_of_bounds (fun v hv => hlo.2 ?_) (fun v hv => hhi.2 ?_) c hc <;>
        exact List.mem_append_left _ hv
    · obtain ⟨v, hv, rfl⟩ := List.mem_map.mp hc
      have hv' : v ∈ vs ++ values := List.mem_append_right _ (hp.mem_iff.mp hv)
      exact ⟨hlo.2 hv', hhi.2 hv'⟩
  have hsum : ((d.centroids ++ (first :: rest).map unit).map Centroid.weight).sum =
      ((d.valueCount + values.length : ℕ) : ℚ) := by
    rw [List.map_append, List.sum_append, h.centroids.weight_sum, weight_sum_map_unit,
      hp.length_eq]
    push_cast; rfl
  obtain ⟨out, hout, hwf⟩ := compress_mergeIn (List.append_ne_nil_of_right_ne_nil _
    (by simp)) hcount hmem hsum
  have hmass : ((d.centroids ++ (first :: rest).map unit).map Centroid.mass).sum =
      (vs ++ values).sum := by
    rw [List.map_append, List.sum_append, h.centroids.mass_sum, mass_sum_map_unit, hp.sum_eq,
      h.sum_eq, List.sum_append]
  rw [hmass] at hout hwf
  refine ⟨_, by dsimp only; rw [hout]; rfl, ?_⟩
  exact
    { centroids := hwf
      valueCount_eq := by rw [List.length_append, h.valueCount_eq]
      sum_eq := rfl
      isLeast_min := fun _ => hlo
      isGreatest_max := fun _ => hhi }

/-- `merge` of two digests with their invariants never writes past `merging_buffer_` or
    `centroids_`, and keeps the invariant over the values of both. -/
theorem Inv.merge (hl : Inv l vl) (hr : Inv r vr) :
    ∃ d, l.merge r = .ok d ∧ Inv d (vl ++ vr) := by
  by_cases hr0 : r.valueCount = 0
  · have hvr : vr = [] := List.length_eq_zero_iff.mp (hr.valueCount_eq ▸ hr0)
    subst hvr
    exact ⟨l, by simp [TDigest.merge, hr0], by simpa using hl⟩
  by_cases hl0 : l.valueCount = 0
  · have hvl : vl = [] := List.length_eq_zero_iff.mp (hl.valueCount_eq ▸ hl0)
    subst hvl
    exact ⟨r, by simp [TDigest.merge, hr0, hl0], by simpa using hr⟩
  -- both have values: the loop runs over the centroids of both
  have hvl : vl ≠ [] := fun h => hl0 (by rw [hl.valueCount_eq, h]; rfl)
  have hvr : vr ≠ [] := fun h => hr0 (by rw [hr.valueCount_eq, h]; rfl)
  have hlo : IsLeast {v | v ∈ vl ++ vr} (Min.min l.min r.min) := by
    rw [setOf_mem_append]
    exact (hl.isLeast_min hvl).union (hr.isLeast_min hvr)
  have hhi : IsGreatest {v | v ∈ vl ++ vr} (Max.max l.max r.max) := by
    rw [setOf_mem_append]
    exact (hl.isGreatest_max hvl).union (hr.isGreatest_max hvr)
  have hcount : ∀ c ∈ l.centroids ++ r.centroids, IsCount c.weight := by
    intro c hc
    rcases List.mem_append.mp hc with hc | hc
    · exact hl.centroids.weight_count c hc
    · exact hr.centroids.weight_count c hc
  have hmem : ∀ c ∈ l.centroids ++ r.centroids,
      Min.min l.min r.min ≤ c.mean ∧ c.mean ≤ Max.max l.max r.max := by
    intro c hc
    rcases List.mem_append.mp hc with hc | hc
    · exact hl.mean_mem_of_bounds (lowerBounds_mono_set (fun _ => List.mem_append_left _) hlo.2)
        (upperBounds_mono_set (fun _ => List.mem_append_left _) hhi.2) c hc
    · exact hr.mean_mem_of_bounds (lowerBounds_mono_set (fun _ => List.mem_append_right _) hlo.2)
        (upperBounds_mono_set (fun _ => List.mem_append_right _) hhi.2) c hc
  have hsum : ((l.centroids ++ r.centroids).map Centroid.weight).sum =
      ((l.valueCount + r.valueCount : ℕ) : ℚ) := by
    rw [List.map_append, List.sum_append, hl.centroids.weight_sum, hr.centroids.weight_sum]
    push_cast; rfl
  have hne : l.centroids ++ r.centroids ≠ [] :=
    List.append_ne_nil_of_left_ne_nil (mt hl.centroids_eq_nil_iff.mp hvl) _
  obtain ⟨out, hout, hwf⟩ := compress_mergeIn hne hcount hmem hsum
  have hmass : ((l.centroids ++ r.centroids).map Centroid.mass).sum = (vl ++ vr).sum := by
    rw [List.map_append, List.sum_append, hl.centroids.mass_sum, hr.centroids.mass_sum, hl.sum_eq,
      hr.sum_eq, List.sum_append]
  rw [hmass] at hout hwf
  refine ⟨_, by simp only [TDigest.merge, hr0, hl0, if_false, hout]; rfl, ?_⟩
  exact
    { centroids := hwf
      valueCount_eq := by rw [List.length_append, hl.valueCount_eq, hr.valueCount_eq]
      sum_eq := rfl
      isLeast_min := fun _ => hlo
      isGreatest_max := fun _ => hhi }

/-- `merge_from_values` asserts that the batch fits the value buffer. -/
theorem mergeFromValues_length_le {values : List ℚ} {d' : TDigest}
    (h : d.mergeFromValues values = .ok d') : values.length ≤ valueBufferSize := by
  by_contra hlen
  have h0 : values.length ≠ 0 := by
    simp only [valueBufferSize] at hlen
    omega
  simp [TDigest.mergeFromValues, h0, hlen, throw, throwThe, MonadExceptOf.throw] at h

end Merges

/-! ## Every digest the calls build -/

/-- The digests the calls build, with the values each has consumed: the empty digest, and what
    `merge_from_values` and `merge` return on digests built so. An accumulator feeds its digest
    only through `merge_from_values`. -/
inductive Built : TDigest → List ℚ → Prop
  | empty : Built {} []
  | mergeFromValues {d d' : TDigest} {vs values : List ℚ} :
      Built d vs → d.mergeFromValues values = .ok d' → Built d' (vs ++ values)
  | merge {l r d : TDigest} {vl vr : List ℚ} :
      Built l vl → Built r vr → l.merge r = .ok d → Built d (vl ++ vr)

section Built

variable {d l r : TDigest} {vs vl vr : List ℚ}

/-- Every digest the calls build keeps the invariant: by induction on how it was built. -/
theorem Built.inv (h : Built d vs) : Inv d vs := by
  induction h with
  | empty => exact inv_empty
  | mergeFromValues _ hd ih =>
    obtain ⟨d'', hd'', hinv⟩ := ih.mergeFromValues (mergeFromValues_length_le hd)
    rw [hd] at hd''
    obtain rfl := Except.ok.inj hd''
    exact hinv
  | merge _ _ hd ihl ihr =>
    obtain ⟨d'', hd'', hinv⟩ := ihl.merge ihr
    rw [hd] at hd''
    obtain rfl := Except.ok.inj hd''
    exact hinv

theorem Built.mergeFromValues_ok {values : List ℚ} (h : Built d vs)
    (hlen : values.length ≤ valueBufferSize) :
    ∃ d', d.mergeFromValues values = .ok d' ∧ Built d' (vs ++ values) := by
  obtain ⟨d', hd', -⟩ := h.inv.mergeFromValues hlen
  exact ⟨d', hd', h.mergeFromValues hd'⟩

theorem Built.merge_ok (hl : Built l vl) (hr : Built r vr) :
    ∃ d, l.merge r = .ok d ∧ Built d (vl ++ vr) := by
  obtain ⟨d, hd, -⟩ := hl.inv.merge hr.inv
  exact ⟨d, hd, hl.merge hr hd⟩

end Built

end OtelNetwork.TDigest

namespace OtelNetwork.TDigestAccumulator

open TDigest RustSem

/-- An accumulator over a digest the calls build, with room in its buffer; `vals` are the values
    added to it, those its digest has consumed first. -/
def Valid (a : TDigestAccumulator) (vals : List ℚ) : Prop :=
  ∃ vs, Built a.tdigest vs ∧ vs ++ a.valueBuffer = vals ∧
    a.valueBuffer.length < valueBufferSize

/-- `flush` of a buffer that fits hands it to `merge_from_values`, and never fails. -/
theorem flush_ok {a : TDigestAccumulator} {vs : List ℚ} (h : Built a.tdigest vs)
    (hlen : a.valueBuffer.length ≤ valueBufferSize) :
    ∃ a', a.flush = .ok a' ∧ Built a'.tdigest (vs ++ a.valueBuffer) ∧
      a'.valueBuffer = [] := by
  by_cases hnil : a.valueBuffer = []
  · exact ⟨a, by simp [flush, hnil], by simpa [hnil] using h, hnil⟩
  · obtain ⟨d', hd', hb⟩ := h.mergeFromValues_ok hlen
    exact ⟨{ tdigest := d', valueBuffer := [] }, by simp [flush, hnil, hd'], hb, rfl⟩

section Valid

variable {a : TDigestAccumulator} {vals : List ℚ}

theorem Valid.flush (h : Valid a vals) :
    ∃ a', a.flush = .ok a' ∧ Valid a' vals ∧ a'.valueBuffer = [] := by
  obtain ⟨vs, hb, rfl, hlen⟩ := h
  obtain ⟨a', hf, hb', hnil⟩ := flush_ok hb hlen.le
  exact ⟨a', hf, ⟨_, hb', by simp [hnil], by simp [hnil, valueBufferSize]⟩, hnil⟩

/-- `add` never trips its assertion on a valid accumulator, and flushes a buffer it fills. -/
theorem Valid.add (h : Valid a vals) (v : ℚ) :
    ∃ a', a.add v = .ok a' ∧ Valid a' (vals ++ [v]) := by
  obtain ⟨vs, hb, rfl, hlen⟩ := h
  have hb₁ :
      Built ({ a with valueBuffer := a.valueBuffer ++ [v] } : TDigestAccumulator).tdigest vs := hb
  by_cases hfull : a.valueBuffer.length + 1 = valueBufferSize
  · -- the buffer fills up and is flushed
    obtain ⟨a', hf, hb', hnil⟩ := flush_ok hb₁ (by simp; omega)
    refine ⟨a', by simp [TDigestAccumulator.add, hlen, hfull, hf], vs ++ a.valueBuffer ++ [v], ?_,
      by simp [hnil], by simp [hnil, valueBufferSize]⟩
    simpa using hb'
  · refine ⟨{ a with valueBuffer := a.valueBuffer ++ [v] },
      by simp [TDigestAccumulator.add, hlen, hfull], vs, hb, by simp, ?_⟩
    simp only [List.length_append, List.length_singleton]
    omega

theorem Valid.apply (h : Valid a vals) (c : Call) :
    ∃ a', c.apply a = .ok a' ∧ Valid a' (vals ++ c.values) := by
  cases c with
  | add v => exact h.add v
  | flush =>
    obtain ⟨a', hf, ha', -⟩ := h.flush
    exact ⟨a', hf, by simpa [Call.values] using ha'⟩

/-- A run of calls on a valid accumulator never fails, and keeps it valid over every value added. -/
theorem Valid.run (h : Valid a vals) (calls : List Call) :
    ∃ a', calls.foldlM Call.apply a = .ok a' ∧
      Valid a' (vals ++ calls.flatMap Call.values) := by
  refine foldlM_except_inv_prefix (fun pre a' => Valid a' (vals ++ pre.flatMap Call.values)) calls
    (fun pre c _ a' _ ha' => ?_) (by simpa using h)
  obtain ⟨a'', hc, hv⟩ := ha'.apply c
  exact ⟨a'', hc, by simpa using hv⟩

end Valid

end OtelNetwork.TDigestAccumulator

namespace OtelNetwork.TDigest

theorem tdigest_calls_keep_invariant :
    (∀ d vs, Built d vs → Inv d vs) ∧
    (∀ d vs values, Built d vs → values.length ≤ valueBufferSize →
      ∃ d', d.mergeFromValues values = .ok d' ∧ Built d' (vs ++ values)) ∧
    (∀ l r vl vr, Built l vl → Built r vr →
      ∃ d, l.merge r = .ok d ∧ Built d (vl ++ vr)) ∧
    (∀ (a : TDigestAccumulator) (vals : List ℚ) (calls : List TDigestAccumulator.Call),
      a.Valid vals → ∃ a', calls.foldlM TDigestAccumulator.Call.apply a = .ok a' ∧
        a'.Valid (vals ++ calls.flatMap TDigestAccumulator.Call.values)) :=
  ⟨fun _ _ h => h.inv, fun _ _ _ h hlen => h.mergeFromValues_ok hlen,
    fun _ _ _ _ hl hr => hl.merge_ok hr, fun _ _ calls h => h.run calls⟩

end OtelNetwork.TDigest
