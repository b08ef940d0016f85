import OtelNetwork.K8s.Matcher

/-!
# The reducer's pod set against the reflector stores

`ViewInv` says that every pod the reducer holds is live in the matcher and present in the pod
store. It holds initially and every input of the collector keeps it (`Pipeline.viewInv_step`), so
it holds after every run (`reducer_pods_in_store`): the reducer never holds a pod the store lacks.

The converse fails. `start_new_epoch` rebuilds the reducer's set from the store
(`startNewEpoch_complete`), but it keeps `live_pods`, and `handle_pod` answers an `Apply` of a
live pod with its containers only. A pod that is live before a resync and skipped by it (no IP at
that moment) is therefore never announced again once it gets its IP back
(`resync_loses_live_pod`).
-/

namespace OtelNetwork.K8s

@[simp] theorem lookup_uid_pod (p : PodMeta) : Lookup.uid p = p.uid := rfl

@[simp] theorem lookup_uid_owner (o : OwnerMeta) : Lookup.uid o = o.uid := rfl

/-! ## Stores -/

namespace Store

variable {K : Type} [Lookup K] {s : Store K} {u : String}

theorem get_isSome_iff : (s.get u).isSome ↔ ∃ o ∈ s.items, Lookup.uid o = u := by
  simp [get, List.find?_isSome]

theorem uid_of_get {o : K} (h : s.get u = some o) : Lookup.uid o = u := by
  simpa using List.find?_some h

theorem get_insert_isSome (obj : K) :
    ((s.insert obj).get u).isSome ↔ Lookup.uid obj = u ∨ (s.get u).isSome := by
  simp only [get_isSome_iff, insert, List.mem_cons, List.mem_filter]
  constructor
  · rintro ⟨o, rfl | ⟨ho, -⟩, rfl⟩
    · exact .inl rfl
    · exact .inr ⟨o, ho, rfl⟩
  · rintro (h | ⟨o, ho, rfl⟩)
    · exact ⟨obj, .inl rfl, h⟩
    · by_cases heq : Lookup.uid o = Lookup.uid obj
      · exact ⟨obj, .inl rfl, heq.symm⟩
      · exact ⟨o, .inr ⟨ho, by simpa using heq⟩, rfl⟩

theorem get_remove_isSome (v : String) :
    ((s.remove v).get u).isSome ↔ u ≠ v ∧ (s.get u).isSome := by
  simp only [get_isSome_iff, remove, List.mem_filter]
  constructor
  · rintro ⟨o, ⟨ho, hne⟩, rfl⟩
    exact ⟨by simpa using hne, o, ho, rfl⟩
  · rintro ⟨hne, o, ho, rfl⟩
    exact ⟨o, ⟨ho, by simpa using hne⟩, rfl⟩

end Store

/-! ## The reducer's set -/

namespace AgentSpan

variable {a : AgentSpan}

@[simp] theorem renderAll_nil : a.renderAll [] = a := rfl

theorem renderAll_cons (e : RenderEvent) (es : List RenderEvent) :
    a.renderAll (e :: es) = (a.render e).renderAll es := rfl

theorem renderAll_append (xs ys : List RenderEvent) :
    a.renderAll (xs ++ ys) = (a.renderAll xs).renderAll ys :=
  List.foldl_append

theorem renderAll_podContainers (u : String) (cs : List ContainerMeta) :
    a.renderAll (cs.map fun c => .podContainer u c) = a := by
  induction cs with
  | nil => rfl
  | cons c cs ih => exact ih

theorem renderAll_fromPodNew (p : PodMeta) (o : Option OwnerRef) :
    a.renderAll (RenderEvent.fromPodNew p o) = ⟨p.uid :: a.k8sPods.filter (· != p.uid)⟩ := by
  rcases o with _ | o <;>
    simp only [RenderEvent.fromPodNew, renderAll_cons, render, renderAll_podContainers]

/-- `PodNew` and its containers add the pod and keep the others. -/
theorem mem_renderAll_fromPodNew {p : PodMeta} {o : Option OwnerRef} {u : String} :
    u ∈ (a.renderAll (RenderEvent.fromPodNew p o)).k8sPods ↔ u = p.uid ∨ u ∈ a.k8sPods := by
  rw [renderAll_fromPodNew]
  by_cases hu : u = p.uid
  · simp [hu]
  · simp [hu]

end AgentSpan

/-! ## What the matcher's steps do -/

namespace Matcher

variable {m : Matcher} {p : PodMeta} {a : AgentSpan}

/-- Queueing a pod touches the waiting lists only. -/
theorem enqueue_eq (m : Matcher) (owner pod : String) :
    ∃ w, m.enqueue owner pod = { m with waitingByOwner := w } := by
  unfold enqueue
  split
  · exact ⟨_, rfl⟩
  · split
    · exact ⟨_, rfl⟩
    · exact ⟨_, rfl⟩

/-- `try_emit_pod` leaves the stores alone. -/
theorem tryEmitPod_stores (m : Matcher) (p : PodMeta) :
    (m.tryEmitPod p).2.pods = m.pods ∧ (m.tryEmitPod p).2.rsOwners = m.rsOwners ∧
      (m.tryEmitPod p).2.jobOwners = m.jobOwners := by
  unfold tryEmitPod
  split
  · exact ⟨rfl, rfl, rfl⟩
  · split
    · exact ⟨rfl, rfl, rfl⟩
    · split
      · exact ⟨rfl, rfl, rfl⟩
      · split
        · exact ⟨rfl, rfl, rfl⟩
        · obtain ⟨w, hw⟩ := enqueue_eq m _ p.uid
          rw [hw]
          exact ⟨rfl, rfl, rfl⟩

/-- What `try_emit_pod` can do: emit nothing with the live set unchanged (no IP, or the owner is
    not known yet), or emit `PodNew` for the pod and make it live. -/
theorem tryEmitPod_cases (m : Matcher) (p : PodMeta) :
    ((m.tryEmitPod p).1 = [] ∧ (m.tryEmitPod p).2.livePods = m.livePods) ∨
      ∃ o, (m.tryEmitPod p).1 = RenderEvent.fromPodNew p o ∧
        (m.tryEmitPod p).2.livePods = m.livePods.insert p.uid := by
  unfold tryEmitPod
  split
  · exact .inl ⟨rfl, rfl⟩
  · split
    · exact .inr ⟨none, rfl, rfl⟩
    · split
      · exact .inr ⟨some _, rfl, rfl⟩
      · split
        · exact .inr ⟨some _, rfl, rfl⟩
        · obtain ⟨w, hw⟩ := enqueue_eq m _ p.uid
          rw [hw]
          exact .inl ⟨rfl, rfl⟩

theorem getOwnerMeta_isSome (m : Matcher) (uid : String) :
    (m.getOwnerMeta uid).isSome = m.ownerExists uid := by
  unfold getOwnerMeta ownerExists
  rcases m.rsOwners.get uid with _ | o <;> rfl

/-- The contract's resolvable owner: none, a kind other than ReplicaSet and Job, or an owner
    present in one of the owner stores. -/
def ownerResolvable (m : Matcher) (p : PodMeta) : Bool :=
  match p.owner with
  | none => true
  | some o => !o.kind.isRsOrJob || m.ownerExists o.uid

/-- A pod with an IP and a resolvable owner is emitted. -/
theorem tryEmitPod_emits (hip : p.hasIp = true) (hres : ownerResolvable m p = true) :
    ∃ o, (m.tryEmitPod p).1 = RenderEvent.fromPodNew p o := by
  unfold ownerResolvable at hres
  unfold tryEmitPod
  rcases hown : p.owner with _ | owner
  · exact ⟨none, by simp [hip]⟩
  · simp only [hown] at hres
    by_cases hk : owner.kind.isRsOrJob = true
    · -- a ReplicaSet or Job owner: it is in one of the stores, so its meta is found
      rw [hk, Bool.not_true, Bool.false_or, ← getOwnerMeta_isSome] at hres
      obtain ⟨om, hom⟩ := Option.isSome_iff_exists.mp hres
      exact ⟨some (escalate owner om), by simp [hip, hk, hom]⟩
    · exact ⟨some owner, by simp [hip, hk]⟩

theorem ownerResolvable_tryEmitPod (m : Matcher) (q p : PodMeta) :
    ownerResolvable (m.tryEmitPod q).2 p = ownerResolvable m p := by
  obtain ⟨-, hrs, hjob⟩ := tryEmitPod_stores m q
  simp only [ownerResolvable, ownerExists, hrs, hjob]

/-- The reducer's set only grows through the events of `try_emit_pod`. -/
theorem mem_renderAll_tryEmitPod {u : String} (hu : u ∈ a.k8sPods) :
    u ∈ (a.renderAll (m.tryEmitPod p).1).k8sPods := by
  rcases tryEmitPod_cases m p with ⟨hout, -⟩ | ⟨o, hout, -⟩
  · rw [hout]
    exact hu
  · rw [hout]
    exact AgentSpan.mem_renderAll_fromPodNew.mpr (.inr hu)

end Matcher

/-! ## The pods of the reducer are live and stored -/

/-- Every pod of the reducer's set is live and in the pod store. -/
structure ViewInv (m : Matcher) (a : AgentSpan) : Prop where
  live : ∀ u ∈ a.k8sPods, u ∈ m.livePods
  stored : ∀ u ∈ a.k8sPods, (m.pods.get u).isSome

namespace ViewInv

open Matcher

variable {m m' : Matcher} {a : AgentSpan} {p : PodMeta}

theorem empty (m : Matcher) : ViewInv m ⟨[]⟩ :=
  ⟨(fun _ hu => by cases hu), (fun _ hu => by cases hu)⟩

/-- The invariant reads the live set and the pod store only. -/
theorem of_eq (h : ViewInv m a) (hl : m'.livePods = m.livePods) (hp : m'.pods = m.pods) :
    ViewInv m' a :=
  ⟨fun u hu => hl ▸ h.live u hu, fun u hu => hp ▸ h.stored u hu⟩

theorem tryEmitPod (h : ViewInv m a) (hp : (m.pods.get p.uid).isSome) :
    ViewInv (m.tryEmitPod p).2 (a.renderAll (m.tryEmitPod p).1) := by
  have hpods := (tryEmitPod_stores m p).1
  rcases tryEmitPod_cases m p with ⟨hout, hlive⟩ | ⟨o, hout, hlive⟩
  · rw [hout]
    exact h.of_eq hlive hpods
  · rw [hout]
    constructor
    · intro u hu
      rw [hlive, List.mem_insert_iff]
      rcases AgentSpan.mem_renderAll_fromPodNew.mp hu with rfl | hu
      · exact .inl rfl
      · exact .inr (h.live u hu)
    · intro u hu
      rw [hpods]
      rcases AgentSpan.mem_renderAll_fromPodNew.mp hu with rfl | hu
      · exact hp
      · exact h.stored u hu

theorem emitWaitingStep {acc : List RenderEvent × Matcher} (h : ViewInv acc.2 (a.renderAll acc.1))
    (puid : String) :
    ViewInv (Matcher.emitWaitingStep acc puid).2 (a.renderAll (Matcher.emitWaitingStep acc puid).1) := by
  unfold Matcher.emitWaitingStep
  rcases hget : acc.2.pods.get puid with _ | q
  · exact h
  · -- the pod found under `puid` has that uid, so it is in the store
    have hq : (acc.2.pods.get q.uid).isSome := by
      rw [← lookup_uid_pod, Store.uid_of_get hget, hget]
      rfl
    rw [AgentSpan.renderAll_append]
    exact h.tryEmitPod hq

theorem emitWaiting (h : ViewInv m a) (puids : List String) :
    ViewInv (m.emitWaiting puids).2 (a.renderAll (m.emitWaiting puids).1) :=
  List.foldlRecOn (motive := fun acc => ViewInv acc.2 (a.renderAll acc.1)) puids
    Matcher.emitWaitingStep h fun _ hacc puid _ => hacc.emitWaitingStep puid

theorem takeWaiting (h : ViewInv m a) (owner : String) : ViewInv (m.takeWaiting owner).2 a :=
  h.of_eq rfl rfl

theorem drainIfExists {acc : List RenderEvent × Matcher} (h : ViewInv acc.2 (a.renderAll acc.1))
    (owner : String) :
    ViewInv (Matcher.drainIfExists acc owner).2 (a.renderAll (Matcher.drainIfExists acc owner).1) := by
  unfold Matcher.drainIfExists
  split
  · split
    · rename_i pods m₁ htake
      have h₁ : ViewInv m₁ (a.renderAll acc.1) := by
        have := h.takeWaiting owner
        rw [htake] at this
        exact this
      rw [AgentSpan.renderAll_append]
      exact h₁.emitWaiting pods
    · rename_i m₁ htake
      have h₁ := h.takeWaiting owner
      rw [htake] at h₁
      exact h₁
  · exact h

theorem handleOwner (h : ViewInv m a) (ev : Event OwnerMeta) :
    ViewInv (m.handleOwner ev).2 (a.renderAll (m.handleOwner ev).1) := by
  cases ev with
  | init | initApply _ | delete _ => exact h
  | apply o =>
    simp only [Matcher.handleOwner]
    have h₁ := h.takeWaiting o.uid
    rcases htake : m.takeWaiting o.uid with ⟨_ | pods, m₁⟩
    · rw [htake] at h₁
      exact h₁
    · rw [htake] at h₁
      exact h₁.emitWaiting pods
  | initDone =>
    simp only [Matcher.handleOwner]
    exact List.foldlRecOn (motive := fun acc => ViewInv acc.2 (a.renderAll acc.1)) _
      Matcher.drainIfExists (show ViewInv ([], m).2 (a.renderAll ([], m).1) from h)
      fun _ hacc owner _ => hacc.drainIfExists owner

/-- A new epoch rebuilds the reducer's set from the store, whatever it was. -/
theorem startNewEpoch (m : Matcher) (a : AgentSpan) :
    ViewInv m.startNewEpoch.2 (a.renderAll m.startNewEpoch.1) := by
  let m₁ : Matcher := { m with epoch := m.epoch + 1, waitingByOwner := [] }
  -- the loop keeps the invariant from the cleared set, and the store it walks
  have hloop := List.foldlRecOn
    (motive := fun acc => ViewInv acc.2 ((⟨[]⟩ : AgentSpan).renderAll acc.1) ∧
      acc.2.pods = m₁.pods) m₁.pods.state Matcher.emitPodsStep
    (show ViewInv ([], m₁).2 ((⟨[]⟩ : AgentSpan).renderAll ([], m₁).1) ∧ ([], m₁).2.pods = m₁.pods
      from ⟨empty m₁, rfl⟩)
    fun acc hacc q hq => by
      obtain ⟨hinv, hpods⟩ := hacc
      have hq' : (acc.2.pods.get q.uid).isSome := by
        rw [hpods]
        exact Store.get_isSome_iff.mpr ⟨q, hq, rfl⟩
      refine ⟨?_, (tryEmitPod_stores acc.2 q).1.trans hpods⟩
      simp only [Matcher.emitPodsStep, AgentSpan.renderAll_append]
      exact hinv.tryEmitPod hq'
  exact hloop.1

theorem handlePod_apply (h : ViewInv m a) (hp : (m.pods.get p.uid).isSome) :
    ViewInv (m.handlePod (.apply p)).2 (a.renderAll (m.handlePod (.apply p)).1) := by
  simp only [Matcher.handlePod]
  split
  · -- a live pod: only its containers, which leave the set alone
    rw [AgentSpan.renderAll_podContainers]
    exact h
  · exact h.tryEmitPod hp

/-- A deleted pod leaves the store, the live set and (if it was live) the reducer's set. -/
theorem handlePod_delete (h : ViewInv m a) (p : PodMeta) :
    ViewInv ({ m with pods := m.pods.remove p.uid }.handlePod (.delete p)).2
      (a.renderAll ({ m with pods := m.pods.remove p.uid }.handlePod (.delete p)).1) := by
  -- a pod of the set that is still there after the step is not the deleted one
  have hkeep : ∀ u ∈ a.k8sPods, u ≠ p.uid →
      u ∈ m.livePods.filter (· != p.uid) ∧ ((m.pods.remove p.uid).get u).isSome := by
    intro u hu hne
    exact ⟨List.mem_filter.mpr ⟨h.live u hu, by simpa using hne⟩,
      (Store.get_remove_isSome p.uid).mpr ⟨hne, h.stored u hu⟩⟩
  simp only [Matcher.handlePod]
  by_cases hlive : m.livePods.contains p.uid = true
  · simp only [hlive, if_true]
    constructor
    · intro u hu
      simp only [AgentSpan.renderAll_cons, AgentSpan.render, AgentSpan.renderAll_nil,
        List.mem_filter] at hu
      exact (hkeep u hu.1 (by simpa using hu.2)).1
    · intro u hu
      simp only [AgentSpan.renderAll_cons, AgentSpan.render, AgentSpan.renderAll_nil,
        List.mem_filter] at hu
      exact (hkeep u hu.1 (by simpa using hu.2)).2
  · -- the pod was not live, so it is not in the set either
    have hne : ∀ u ∈ a.k8sPods, u ≠ p.uid := by
      rintro u hu rfl
      exact hlive (List.elem_eq_true_of_mem (h.live _ hu))
    simp only [hlive, Bool.false_eq_true, if_false]
    exact ⟨fun u hu => (hkeep u hu (hne u hu)).1, fun u hu => (hkeep u hu (hne u hu)).2⟩

end ViewInv

/-! ## Runs of the collector -/

namespace Pipeline

open Matcher

/-- Every input of the collector keeps the reducer's set among the live, stored pods. -/
theorem viewInv_step (s : Pipeline) (h : ViewInv s.matcher s.span) (i : Input) :
    ViewInv (s.step i).matcher (s.step i).span := by
  cases i with
  | pod ev =>
    cases ev with
    | init | initApply _ => exact h
    | apply p =>
      -- the store takes the pod first, so the pod is there when the matcher sees it
      have hp : ((s.matcher.pods.insert p).get p.uid).isSome :=
        (Store.get_insert_isSome p).mpr (.inl rfl)
      have h₁ : ViewInv { s.matcher with pods := s.matcher.pods.insert p } s.span :=
        ⟨h.live, fun u hu => (Store.get_insert_isSome p).mpr (.inr (h.stored u hu))⟩
      exact h₁.handlePod_apply hp
    | delete p => exact h.handlePod_delete p
    | initDone => exact ViewInv.startNewEpoch _ _
  | rsOwner ev =>
    -- the owner store changes, which the invariant does not read
    have h₁ : ViewInv { s.matcher with rsOwners :=
        (Writer.applyWatcherEvent ⟨s.matcher.rsOwners, s.rsOwnersBuffer⟩ ev).store } s.span :=
      h.of_eq rfl rfl
    exact h₁.handleOwner ev
  | jobOwner ev =>
    have h₁ : ViewInv { s.matcher with jobOwners :=
        (Writer.applyWatcherEvent ⟨s.matcher.jobOwners, s.jobOwnersBuffer⟩ ev).store } s.span :=
      h.of_eq rfl rfl
    exact h₁.handleOwner ev
  | startNewEpoch => exact ViewInv.startNewEpoch _ _

theorem viewInv_run (s : Pipeline) (h : ViewInv s.matcher s.span) (inputs : List Input) :
    ViewInv (s.run inputs).matcher (s.run inputs).span :=
  List.foldlRecOn (motive := fun s => ViewInv s.matcher s.span) inputs step h
    fun s hs i _ => viewInv_step s hs i

end Pipeline

/-- After any sequence of watcher events and new epochs, every pod the reducer holds is a key of
    the pod store. -/
theorem reducer_pods_in_store (inputs : List Input) :
    ∀ u ∈ (Pipeline.init.run inputs).span.k8sPods,
      ((Pipeline.init.run inputs).matcher.pods.get u).isSome :=
  (Pipeline.viewInv_run Pipeline.init (ViewInv.empty _) inputs).stored

/-! ## A resync rebuilds the whole set, and only a resync does -/

/-- Every stored pod with an IP and a resolvable owner is in the reducer's set. -/
def ViewComplete (m : Matcher) (a : AgentSpan) : Prop :=
  ∀ p ∈ m.pods.items, p.hasIp = true → m.ownerResolvable p = true → p.uid ∈ a.k8sPods

namespace Matcher

variable {a : AgentSpan}

/-- The pods already in the set stay there through the rest of the epoch loop. -/
theorem mem_emitPods_of_mem {u : String} (ps : List PodMeta) {acc : List RenderEvent × Matcher}
    (hu : u ∈ (a.renderAll acc.1).k8sPods) :
    u ∈ (a.renderAll (ps.foldl emitPodsStep acc).1).k8sPods :=
  List.foldlRecOn (motive := fun acc => u ∈ (a.renderAll acc.1).k8sPods) ps emitPodsStep hu
    fun acc hacc q _ => by
      simp only [emitPodsStep, AgentSpan.renderAll_append]
      exact mem_renderAll_tryEmitPod hacc

/-- The epoch loop puts in the set every pod it walks that has an IP and a resolvable owner. -/
theorem emitPods_complete (a : AgentSpan) :
    ∀ (ps : List PodMeta) (acc : List RenderEvent × Matcher), ∀ p ∈ ps, p.hasIp = true →
      acc.2.ownerResolvable p = true → p.uid ∈ (a.renderAll (ps.foldl emitPodsStep acc).1).k8sPods
  | [], _, _, hp, _, _ => by cases hp
  | q :: qs, acc, p, hp, hip, hres => by
    rw [List.foldl_cons]
    rcases List.mem_cons.mp hp with rfl | hp
    · -- the pod is emitted at its turn and stays
      obtain ⟨o, hout⟩ := tryEmitPod_emits hip hres
      refine mem_emitPods_of_mem qs ?_
      simp only [emitPodsStep, AgentSpan.renderAll_append, hout]
      exact AgentSpan.mem_renderAll_fromPodNew.mpr (.inl rfl)
    · refine emitPods_complete a qs _ p hp hip ?_
      simp only [emitPodsStep]
      rw [ownerResolvable_tryEmitPod]
      exact hres

/-- Right after `start_new_epoch`, the reducer's set has every stored pod with an IP and a
    resolvable owner. -/
theorem startNewEpoch_complete (m : Matcher) (a : AgentSpan) :
    ViewComplete m.startNewEpoch.2 (a.renderAll m.startNewEpoch.1) := by
  let m₁ : Matcher := { m with epoch := m.epoch + 1, waitingByOwner := [] }
  -- the loop leaves the stores as they were
  have hstores := List.foldlRecOn
    (motive := fun acc => acc.2.pods = m₁.pods ∧ acc.2.rsOwners = m₁.rsOwners ∧
      acc.2.jobOwners = m₁.jobOwners) m₁.pods.state emitPodsStep
    (show ([], m₁).2.pods = m₁.pods ∧ ([], m₁).2.rsOwners = m₁.rsOwners ∧
      ([], m₁).2.jobOwners = m₁.jobOwners from ⟨rfl, rfl, rfl⟩)
    fun acc hacc q _ => by
      obtain ⟨hp, hrs, hjob⟩ := tryEmitPod_stores acc.2 q
      exact ⟨hp.trans hacc.1, hrs.trans hacc.2.1, hjob.trans hacc.2.2⟩
  intro p hp hip hres
  obtain ⟨hpods, hrs, hjob⟩ := hstores
  have hp₁ : p ∈ m₁.pods.state := by
    change p ∈ (m₁.emitPods m₁.pods.state).2.pods.items at hp
    rw [emitPods, hpods] at hp
    exact hp
  have hres₁ : m₁.ownerResolvable p = true := by
    change ownerResolvable (m₁.emitPods m₁.pods.state).2 p = true at hres
    simp only [emitPods, ownerResolvable, ownerExists, hrs, hjob] at hres
    exact hres
  exact emitPods_complete ⟨[]⟩ m₁.pods.state ([], m₁) p hp₁ hip hres₁

end Matcher

/-- Both ways of starting an epoch leave the reducer's set complete. -/
theorem Pipeline.viewComplete_of_resync (s : Pipeline) {i : Input}
    (hi : i = .startNewEpoch ∨ i = .pod .initDone) :
    ViewComplete (s.step i).matcher (s.step i).span := by
  rcases hi with rfl | rfl
  · exact Matcher.startNewEpoch_complete _ _
  · exact Matcher.startNewEpoch_complete _ _

/-- After any sequence of watcher events and new epochs, every pod the reducer holds is in the pod
    store, and a new epoch or an `InitDone` of the pod watcher from there makes the reducer's set
    complete. -/
theorem reducer_view_stored_and_resync_complete (inputs : List Input) :
    (∀ u ∈ (Pipeline.init.run inputs).span.k8sPods,
      ((Pipeline.init.run inputs).matcher.pods.get u).isSome) ∧
    ∀ i, (i = .startNewEpoch ∨ i = .pod .initDone) →
      ViewComplete ((Pipeline.init.run inputs).step i).matcher
        ((Pipeline.init.run inputs).step i).span :=
  ⟨reducer_pods_in_store inputs, fun _ hi => Pipeline.viewComplete_of_resync _ hi⟩

/-- A pod with an IP and no owner. -/
def podA : PodMeta :=
  { uid := "a", ip := "10.0.0.1", name := "a", ns := "default", owner := none,
    hostNetwork := false, version := "", containers := [] }

/-- The pod goes live, loses its IP, a new epoch starts, and it gets its IP back. -/
def liveThenResync : List Input :=
  [.pod (.apply podA), .pod (.apply { podA with ip := "" }), .startNewEpoch, .pod (.apply podA)]

/-- After `liveThenResync` the pod store holds `podA`, which has an IP and no owner, but the
    reducer's set is missing it: the last `Apply` found the pod live and sent its containers only. -/
theorem resync_loses_live_pod :
    podA ∈ (Pipeline.init.run liveThenResync).matcher.pods.items ∧ podA.hasIp = true ∧
      (Pipeline.init.run liveThenResync).matcher.ownerResolvable podA = true ∧
      podA.uid ∉ (Pipeline.init.run liveThenResync).span.k8sPods := by
  decide

end OtelNetwork.K8s
