import OtelNetwork.K8s.Proofs.MatcherView

/-!
# The matcher's live set and the reducer's set part at a new epoch

`try_emit_pod` is the only place a pod becomes live, and it does so only with `PodNew`. A new
epoch sends `PodResync`, which empties the reducer's set, and re-announces the stored pods that
`try_emit_pod` emits, but it never clears `live_pods`. A live pod that is not re-announced (its
stored entry lost its IP, or the relist dropped it) stays live on the matcher's side while the
reducer no longer has it.
-/

namespace OtelNetwork.K8s

namespace Matcher

variable {m : Matcher} {a : AgentSpan} {u : String}

/-- `try_emit_pod` emits for pods with an IP only. -/
theorem tryEmitPod_hasIp (m : Matcher) (p : PodMeta) (h : (m.tryEmitPod p).1 ≠ []) :
    p.hasIp = true := by
  unfold tryEmitPod at h
  cases hip : p.hasIp
  · simp [hip] at h
  · rfl

theorem tryEmitPod_keeps_live (p : PodMeta) (hu : u ∈ m.livePods) :
    u ∈ (m.tryEmitPod p).2.livePods := by
  rcases tryEmitPod_cases m p with ⟨-, hlive⟩ | ⟨o, -, hlive⟩
  · rw [hlive]
    exact hu
  · rw [hlive]
    exact List.mem_insert_of_mem hu

/-- A pod `try_emit_pod` adds to the reducer's set has an IP. -/
theorem mem_renderAll_tryEmitPod_cases (p : PodMeta)
    (hu : u ∈ (a.renderAll (m.tryEmitPod p).1).k8sPods) :
    u ∈ a.k8sPods ∨ (u = p.uid ∧ p.hasIp = true) := by
  rcases tryEmitPod_cases m p with ⟨hout, -⟩ | ⟨o, hout, -⟩
  · rw [hout] at hu
    exact .inl hu
  · have hip := tryEmitPod_hasIp m p (by rw [hout]; simp [RenderEvent.fromPodNew])
    rw [hout] at hu
    rcases AgentSpan.mem_renderAll_fromPodNew.mp hu with rfl | hu
    · exact .inr ⟨rfl, hip⟩
    · exact .inl hu

/-- Through the epoch loop, live pods stay live, and a pod enters the reducer's set only if it is
    one of the walked pods with an IP. -/
theorem emitPods_live (ps : List PodMeta) (acc : List RenderEvent × Matcher)
    (hlive : u ∈ acc.2.livePods) : u ∈ (ps.foldl emitPodsStep acc).2.livePods := by
  induction ps generalizing acc with
  | nil => exact hlive
  | cons p ps ih => exact ih _ (tryEmitPod_keeps_live p hlive)

theorem emitPods_mem (ps : List PodMeta) (acc : List RenderEvent × Matcher)
    (hu : u ∈ (a.renderAll (ps.foldl emitPodsStep acc).1).k8sPods) :
    u ∈ (a.renderAll acc.1).k8sPods ∨ ∃ p ∈ ps, p.uid = u ∧ p.hasIp = true := by
  induction ps generalizing acc with
  | nil => exact .inl hu
  | cons p ps ih =>
    rcases ih _ hu with hu | ⟨q, hq, hqu, hqip⟩
    · simp only [emitPodsStep, AgentSpan.renderAll_append] at hu
      rcases mem_renderAll_tryEmitPod_cases p hu with hu | ⟨rfl, hip⟩
      · exact .inl hu
      · exact .inr ⟨p, List.mem_cons_self, rfl, hip⟩
    · exact .inr ⟨q, List.mem_cons_of_mem p hq, hqu, hqip⟩

/-- A new epoch keeps every live pod live; the reducer's set it leaves holds stored pods with an
    IP only. -/
theorem startNewEpoch_live (m : Matcher) (hu : u ∈ m.livePods) : u ∈ m.startNewEpoch.2.livePods :=
  emitPods_live _ _ hu

theorem startNewEpoch_mem (m : Matcher) (a : AgentSpan)
    (hu : u ∈ (a.renderAll m.startNewEpoch.1).k8sPods) :
    ∃ p ∈ m.pods.items, p.uid = u ∧ p.hasIp = true := by
  simp only [startNewEpoch, AgentSpan.renderAll_cons, AgentSpan.render] at hu
  rcases emitPods_mem _ _ hu with hu | h
  · simp at hu
  · exact h

end Matcher

/-- A live pod none of whose stored entries has an IP stays live through `start_new_epoch`,
    while the reducer's set, rebuilt by the `PodResync`, no longer has it. -/
theorem livePods_diverge_on_resync (s : Pipeline) (u : String) (hu : u ∈ s.matcher.livePods)
    (hnoip : ∀ p ∈ s.matcher.pods.items, p.uid = u → p.hasIp = false) :
    u ∈ (s.step .startNewEpoch).matcher.livePods ∧ u ∉ (s.step .startNewEpoch).span.k8sPods := by
  refine ⟨Matcher.startNewEpoch_live _ hu, fun hmem => ?_⟩
  obtain ⟨p, hp, hpu, hip⟩ := Matcher.startNewEpoch_mem s.matcher s.span hmem
  rw [hnoip p hp hpu] at hip
  exact Bool.false_ne_true hip

/-- `podA` goes live, then loses its IP: a new epoch leaves it live and outside the reducer. -/
theorem livePods_diverge_on_resync_podA :
    "a" ∈ (Pipeline.init.run (liveThenResync.take 2)).matcher.livePods ∧
    (∀ p ∈ (Pipeline.init.run (liveThenResync.take 2)).matcher.pods.items, p.uid = "a" →
      p.hasIp = false) ∧
    "a" ∈ ((Pipeline.init.run (liveThenResync.take 2)).step .startNewEpoch).matcher.livePods ∧
    "a" ∉ ((Pipeline.init.run (liveThenResync.take 2)).step .startNewEpoch).span.k8sPods :=
  have hu : "a" ∈ (Pipeline.init.run (liveThenResync.take 2)).matcher.livePods := by decide
  have hnoip : ∀ p ∈ (Pipeline.init.run (liveThenResync.take 2)).matcher.pods.items,
      p.uid = "a" → p.hasIp = false := by decide
  ⟨hu, hnoip, livePods_diverge_on_resync _ "a" hu hnoip⟩

end OtelNetwork.K8s
