import OtelNetwork.TDigest.Proofs.Invariant
import OtelNetwork.Reducer.LatencyAccumulator

/-!
# Quantile estimates

`estimate_value_at_quantile` finds the centroid holding the rank by a backward scan, interpolates
inside it with a slope taken from its neighbours, and clamps the value between the neighbours'
means. On every digest the calls build, the estimate lies between the minimum and the maximum.

It is not monotone in the quantile. Just below the start of a centroid the estimate is
interpolated upwards from the centroid before, towards the next mean; at the start of the
centroid it is interpolated downwards from that centroid's mean, half a slope below, and the
slope there may be much steeper. With unit centroids at `0, …, 0, 95, 100` (thirteen latencies)
the 90th percentile is clamped to `100` and the 95th is `99.25`.
-/

namespace OtelNetwork.TDigest

/-- `clamp` between bounds in order lands between them. -/
theorem clamp_mem {v lo hi : ℚ} (h : lo ≤ hi) : lo ≤ clamp v lo hi ∧ clamp v lo hi ≤ hi := by
  unfold clamp
  split_ifs with hgt hlt
  · exact ⟨h, le_rfl⟩
  · exact ⟨le_rfl, h⟩
  · exact ⟨not_lt.mp hlt, not_lt.mp hgt⟩

/-- The backward scan never moves its position up. -/
theorem scan_fst_le (rank : ℚ) (cs : List Centroid) (pos : Nat) (t : ℚ) :
    (scan rank cs pos t).1 ≤ pos := by
  induction cs generalizing pos t with
  | nil => exact le_rfl
  | cons c cs ih =>
    unfold scan
    dsimp only
    split
    · exact Nat.sub_le pos 1
    · exact (ih _ _).trans (Nat.sub_le pos 1)

/-- A scan over at least one centroid stops below where it started. -/
theorem scan_fst_lt (rank : ℚ) (c : Centroid) (cs : List Centroid) {pos : Nat} (t : ℚ)
    (hpos : 0 < pos) : (scan rank (c :: cs) pos t).1 < pos := by
  unfold scan
  dsimp only
  split
  · omega
  · have := scan_fst_le rank cs (pos - 1) (t - c.weight)
    omega

section Estimate

variable {d : TDigest} {vs : List ℚ}

theorem Inv.getD_mean_mem (h : Inv d vs) {i : Nat} (hi : i < d.centroids.length) :
    d.min ≤ (d.centroids.getD i {}).mean ∧ (d.centroids.getD i {}).mean ≤ d.max := by
  rw [List.getD_eq_getElem _ _ hi]
  exact h.centroids.mean_mem _ (List.getElem_mem hi)

theorem Inv.getD_mean_le (h : Inv d vs) {i j : Nat} (hij : i ≤ j) (hj : j < d.centroids.length) :
    (d.centroids.getD i {}).mean ≤ (d.centroids.getD j {}).mean := by
  rw [List.getD_eq_getElem _ _ (by omega), List.getD_eq_getElem _ _ hj]
  rcases Nat.lt_or_eq_of_le hij with hlt | rfl
  · exact List.pairwise_iff_getElem.mp h.centroids.sorted i j (by omega) hj hlt
  · exact le_rfl

/-- The value clamped between bounds within `[min, max]` in order is within `[min, max]`. -/
theorem clamp_mem_of_within {v lo hi : ℚ} (hlo : d.min ≤ lo) (h : lo ≤ hi) (hhi : hi ≤ d.max) :
    d.min ≤ clamp v lo hi ∧ clamp v lo hi ≤ d.max :=
  ⟨hlo.trans (clamp_mem h).1, (clamp_mem h).2.trans hhi⟩

/-- On a digest with values, every estimate lies in `[min(), max()]`: the bounds of the clamp
    are neighbouring means in order, or the minimum or maximum themselves. -/
theorem Inv.estimate_between (h : Inv d vs) (hvs : vs ≠ []) (q : ℚ) :
    d.min ≤ d.estimateValueAtQuantile q ∧ d.estimateValueAtQuantile q ≤ d.max := by
  obtain ⟨c, cs, hrev⟩ := List.exists_cons_of_ne_nil
    (List.reverse_ne_nil_iff.mpr (mt h.centroids_eq_nil_iff.mp hvs))
  have hn : 0 < d.centroids.length := by
    rw [← List.length_reverse, hrev]; exact Nat.succ_pos _
  have hminmax : d.min ≤ d.max := (h.getD_mean_mem hn).1.trans (h.getD_mean_mem hn).2
  unfold estimateValueAtQuantile
  rw [if_neg (by omega)]
  split_ifs with hq1 hq0
  · exact ⟨hminmax, le_rfl⟩
  · exact ⟨le_rfl, hminmax⟩
  -- the position the scan stops at is a centroid's
  have hpos := scan_fst_lt (q * d.valueCount) c cs d.valueCount hn
  rw [← hrev] at hpos
  dsimp only
  generalize scan (q * d.valueCount) d.centroids.reverse d.centroids.length d.valueCount = p at hpos
  obtain ⟨pos, t⟩ := p
  dsimp only at hpos ⊢
  split_ifs with hmany hfirst hlast
  · exact clamp_mem_of_within le_rfl (h.getD_mean_mem (by omega)).1 (h.getD_mean_mem (by omega)).2
  · exact clamp_mem_of_within (h.getD_mean_mem (by omega)).1 (h.getD_mean_mem (by omega)).2 le_rfl
  · exact clamp_mem_of_within (h.getD_mean_mem (by omega)).1 (h.getD_mean_le (by omega) (by omega))
      (h.getD_mean_mem (by omega)).2
  · exact clamp_mem_of_within le_rfl hminmax le_rfl

end Estimate

/-- A digest the calls build without values is the empty digest: every call without values
    returns one of its inputs. -/
theorem Built.eq_empty {d : TDigest} {vs : List ℚ} (h : Built d vs) : vs = [] → d = {} := by
  induction h with
  | empty => intro; rfl
  | mergeFromValues _ hd ih =>
    intro hvs
    obtain ⟨hvs₁, rfl⟩ := List.append_eq_nil_iff.mp hvs
    rw [ih hvs₁] at hd
    exact (Except.ok.inj hd).symm
  | merge _ _ hd ihl ihr =>
    intro hvs
    obtain ⟨hvl, hvr⟩ := List.append_eq_nil_iff.mp hvs
    rw [ihl hvl, ihr hvr] at hd
    exact (Except.ok.inj hd).symm

/-- Every estimate of a digest the calls build lies in `[min(), max()]`. -/
theorem Built.estimate_mem {d : TDigest} {vs : List ℚ} (h : Built d vs) (q : ℚ) :
    d.min ≤ d.estimateValueAtQuantile q ∧ d.estimateValueAtQuantile q ≤ d.max := by
  by_cases hvs : vs = []
  · rw [h.eq_empty hvs]
    simp [estimateValueAtQuantile]
  · exact h.inv.estimate_between hvs q

/-- The digest of the values `0` and `10`: its median lies between them. -/
theorem Built.estimate_mem_two_values :
    Built ⟨2, 10, 0, 10, [⟨0, 1⟩, ⟨10, 1⟩]⟩ ([] ++ [0, 10]) ∧
      (⟨2, 10, 0, 10, [⟨0, 1⟩, ⟨10, 1⟩]⟩ : TDigest).min ≤
        (⟨2, 10, 0, 10, [⟨0, 1⟩, ⟨10, 1⟩]⟩ : TDigest).estimateValueAtQuantile (1 / 2) ∧
      (⟨2, 10, 0, 10, [⟨0, 1⟩, ⟨10, 1⟩]⟩ : TDigest).estimateValueAtQuantile (1 / 2) ≤
        (⟨2, 10, 0, 10, [⟨0, 1⟩, ⟨10, 1⟩]⟩ : TDigest).max := by
  have h : Built ⟨2, 10, 0, 10, [⟨0, 1⟩, ⟨10, 1⟩]⟩ ([] ++ [0, 10]) :=
    .mergeFromValues .empty (by decide +kernel)
  exact ⟨h, Built.estimate_mem h _⟩

theorem latency_percentiles_out_of_order :
    ((([0, 0, 0, 0, 0, 0, 0, 0, 0, 0, 0, 95, 100] : List ℚ).foldlM
        (fun a v => a.add 0 0 v) ({} : LatencyAccumulator Nat)) >>= fun a =>
          a.add 10000000001 0 0).map LatencyAccumulator.latencies =
      .ok [{ key := 0, p90 := 100, p95 := 397 / 4, p99 := 100 }] ∧
    (397 / 4 : ℚ) < 100 :=
  ⟨by decide +kernel, by norm_num⟩

end OtelNetwork.TDigest
