import OtelNetwork.Collector.ProcessHandler
import OtelNetwork.Lib.Rust

/-!
# The references of `ProcessHandler`

`Inv`: the thread groups are distinct, every handle of `processes_` is valid, and the references
held are those of the handles, one each. With the `assert`s compiled in, every call that succeeds
keeps `Inv` (`Inv.step`), and so does every run that succeeds; the destructor then puts every
reference back (`processHandler_run_balanced`). A call fails exactly when `on_new_process` comes
for a thread group that is still tracked (`onNewProcess_error_iff`): `processes_[pid] = ...`
move-assigns to a valid handle. Without the `assert`s the old reference is lost
(`processHandler_leaks_duplicate_tgid`).
-/

namespace OtelNetwork.Collector

open RustSem

theorem assign_of_lookup_none {ps : List (UInt32 × Handle)} {pid : UInt32} (h : Handle)
    (hnone : ps.lookup pid = none) : assign ps pid h = ps ++ [(pid, h)] := by
  induction ps with
  | nil => rfl
  | cons e ps ih =>
    obtain ⟨pid', h'⟩ := e
    have hne : pid' ≠ pid := by
      intro heq
      simp [heq] at hnone
    have hrest : ps.lookup pid = none := by
      simp only [List.lookup_eq_none_iff, List.mem_cons, forall_eq_or_imp] at hnone ⊢
      exact hnone.2
    simp [assign, hne, ih hrest]

theorem mem_of_lookup {ps : List (UInt32 × Handle)} {pid : UInt32} {h : Handle}
    (hs : ps.lookup pid = some h) : (pid, h) ∈ ps := by
  obtain ⟨l₁, l₂, rfl, _⟩ := List.lookup_eq_some_iff.mp hs
  simp

namespace ProcessHandler

/-- One reference per tracked thread group. -/
structure Inv (p : ProcessHandler) : Prop where
  nodup : (p.processes.map Prod.fst).Nodup
  valid : ∀ e ∈ p.processes, e.2.isSome
  held : p.collectorIndex.held.Perm (p.processes.filterMap Prod.snd)

theorem inv_new : new.Inv := ⟨List.nodup_nil, by simp [new], by simp [new]⟩

/-! ## One call -/

section Step

variable {p p' : ProcessHandler} {pid : UInt32}

theorem onNewProcess_of_lookup_none (asserts : Bool) (cgroup : UInt64)
    (hs : p.processes.lookup pid = none) :
    p.onNewProcess asserts pid cgroup =
      .ok ⟨p.processes ++ [(pid, some ⟨cgroup, pid⟩)], ⟨⟨cgroup, pid⟩ :: p.collectorIndex.held⟩,
        p.duplicateTgid, p.missingTgid⟩ := by
  simp [onNewProcess, hs, Handle.moveAssign, Handle.destroy, Handle.valid, Index.byKeyToHandle,
    assign_of_lookup_none _ hs]

theorem onNewProcess_of_lookup_some (cgroup : UInt64) {loc : TrackedProcessKey}
    (hs : p.processes.lookup pid = some (some loc)) :
    p.onNewProcess true pid cgroup = .error "assert(!valid())" := by
  simp [onNewProcess, hs, Handle.moveAssign, Handle.valid]

theorem onProcessEnd_of_lookup_some (asserts : Bool) {loc : TrackedProcessKey}
    (hs : p.processes.lookup pid = some (some loc)) :
    p.onProcessEnd asserts pid =
      .ok ⟨p.processes.eraseP (fun e => e.1 == pid), ⟨p.collectorIndex.held.erase loc⟩,
        p.duplicateTgid, p.missingTgid⟩ := by
  simp [onProcessEnd, hs, Handle.put, Handle.destroy, Handle.valid]

theorem Inv.lookup_some (hI : p.Inv) {h : Handle} (hs : p.processes.lookup pid = some h) :
    ∃ loc, h = some loc :=
  Option.isSome_iff_exists.mp (hI.valid _ (mem_of_lookup hs))

theorem onNewProcess_error_iff (hI : p.Inv) (cgroup : UInt64) :
    (∃ e, p.onNewProcess true pid cgroup = .error e) ↔ (p.processes.lookup pid).isSome := by
  cases hs : p.processes.lookup pid with
  | none => simp [onNewProcess_of_lookup_none true cgroup hs]
  | some h =>
    obtain ⟨loc, rfl⟩ := hI.lookup_some hs
    simp [onNewProcess_of_lookup_some cgroup hs]

theorem Inv.onNewProcess (hI : p.Inv) {cgroup : UInt64}
    (hok : p.onNewProcess true pid cgroup = .ok p') : p'.Inv := by
  cases hs : p.processes.lookup pid with
  | some h =>
    obtain ⟨loc, rfl⟩ := hI.lookup_some hs
    rw [onNewProcess_of_lookup_some cgroup hs] at hok
    cases hok
  | none =>
    rw [onNewProcess_of_lookup_none true cgroup hs] at hok
    cases hok
    have hfresh : ∀ e ∈ p.processes, pid ≠ e.1 := by
      simpa using List.lookup_eq_none_iff.mp hs
    refine ⟨?_, ?_, ?_⟩
    · rw [List.map_append, List.nodup_append]
      refine ⟨hI.nodup, by simp, fun a ha b hb => ?_⟩
      obtain ⟨e, he, rfl⟩ := List.mem_map.mp ha
      rw [List.map_singleton, List.mem_singleton] at hb
      exact hb ▸ (hfresh e he).symm
    · intro e he
      rcases List.mem_append.mp he with he | he
      · exact hI.valid e he
      · rw [List.mem_singleton] at he
        simp [he]
    · rw [List.filterMap_append]
      simpa using (hI.held.cons _).trans (List.perm_append_singleton _ _).symm

theorem Inv.onProcessEnd (hI : p.Inv) (hok : p.onProcessEnd true pid = .ok p') : p'.Inv := by
  cases hs : p.processes.lookup pid with
  | none =>
    simp only [ProcessHandler.onProcessEnd, hs] at hok
    cases hok
    exact ⟨hI.nodup, hI.valid, hI.held⟩
  | some h =>
    obtain ⟨loc, rfl⟩ := hI.lookup_some hs
    rw [onProcessEnd_of_lookup_some true hs] at hok
    cases hok
    have hsub := (List.eraseP_sublist (p := fun e : UInt32 × Handle => e.1 == pid)
      (l := p.processes))
    refine ⟨hI.nodup.sublist (hsub.map _), fun e he => hI.valid e (hsub.subset he), ?_⟩
    -- the entry found splits the list, and its reference is the one erased
    obtain ⟨l₁, l₂, hps, hbefore⟩ := List.lookup_eq_some_iff.mp hs
    have herase : p.processes.eraseP (fun e => e.1 == pid) = l₁ ++ l₂ := by
      have hne : ∀ e ∈ l₁, ¬(e.1 == pid) = true := fun e he => by
        simpa [bne_iff_ne, beq_iff_eq, Ne.symm] using (bne_iff_ne.mp (hbefore e he)).symm
      rw [hps, List.eraseP_append_right _ hne]
      simp
    have hheld := hI.held
    rw [hps, List.filterMap_append, List.filterMap_cons_some (f := Prod.snd) rfl] at hheld
    have hmid : ((l₁.filterMap Prod.snd ++ loc :: l₂.filterMap Prod.snd).erase loc).Perm
        ((loc :: (l₁.filterMap Prod.snd ++ l₂.filterMap Prod.snd)).erase loc) :=
      List.perm_middle.erase loc
    rw [List.erase_cons_head] at hmid
    show (p.collectorIndex.held.erase loc).Perm _
    rw [herase, List.filterMap_append]
    exact (hheld.erase loc).trans hmid

theorem Inv.accessProcess (hI : p.Inv) (hok : p.accessProcess pid = .ok p') : p'.Inv := by
  cases hs : p.processes.lookup pid with
  | none =>
    simp only [ProcessHandler.accessProcess, hs] at hok
    cases hok
    exact ⟨hI.nodup, hI.valid, hI.held⟩
  | some h =>
    obtain ⟨loc, rfl⟩ := hI.lookup_some hs
    simp only [ProcessHandler.accessProcess, hs, Handle.valid, Option.isSome_some, ↓reduceIte] at hok
    cases hok
    exact hI

theorem Inv.step (hI : p.Inv) {c : ProcessCall} (hok : p.step true c = .ok p') : p'.Inv := by
  cases c with
  | onNewProcess pid cgroup => exact hI.onNewProcess hok
  | onProcessEnd pid => exact hI.onProcessEnd hok
  | onCgroupMove pid cgroup => exact hI.accessProcess hok
  | setProcessCommand pid => exact hI.accessProcess hok
  | pidExit tgid pid => exact hI.accessProcess hok

end Step

/-! ## Runs and the destructor -/

theorem putAll_spec : ∀ (ps : List (UInt32 × Handle)) (ai : Index) (extra : List TrackedProcessKey),
    (∀ e ∈ ps, e.2.isSome) → ai.held.Perm (ps.filterMap Prod.snd ++ extra) →
      (putAll ai ps).2.held.Perm extra ∧ ∀ e ∈ (putAll ai ps).1, e.2 = none
  | [], _, _, _, hheld => ⟨by simpa [putAll] using hheld, by simp [putAll]⟩
  | (pid, h) :: ps, ai, extra, hv, hheld => by
    obtain ⟨loc, rfl⟩ := Option.isSome_iff_exists.mp (hv _ List.mem_cons_self)
    have hheld' : (ai.held.erase loc).Perm (ps.filterMap Prod.snd ++ extra) := by
      simpa using hheld.erase loc
    obtain ⟨hrest, hnone⟩ := putAll_spec ps ⟨ai.held.erase loc⟩ extra
      (fun e he => hv e (List.mem_cons_of_mem _ he)) hheld'
    refine ⟨hrest, fun e he => ?_⟩
    simp only [putAll, Handle.put, List.mem_cons] at he
    rcases he with rfl | he
    · rfl
    · exact hnone e he

theorem forM_destroy_of_invalid (asserts : Bool) :
    ∀ ps : List (UInt32 × Handle), (∀ e ∈ ps, e.2 = none) →
      ps.forM (fun e => Handle.destroy asserts e.2) = .ok ()
  | [], _ => rfl
  | e :: ps, hnone => by
    have he : Handle.destroy asserts e.2 = .ok () := by
      simp [Handle.destroy, Handle.valid, hnone e List.mem_cons_self]
    simp only [List.forM, he, ok_bind]
    exact forM_destroy_of_invalid asserts ps fun e' he' => hnone e' (List.mem_cons_of_mem e he')

/-- The destructor puts back every reference the handler holds. -/
theorem Inv.destroy {p : ProcessHandler} (hI : p.Inv) : p.destroy true = .ok ⟨[]⟩ := by
  obtain ⟨hheld, hnone⟩ := putAll_spec p.processes p.collectorIndex [] hI.valid
    (by simpa using hI.held)
  have hput : putAll p.collectorIndex p.processes = ((putAll p.collectorIndex p.processes).1,
      ⟨[]⟩) := by
    rw [← hheld.eq_nil]
  rw [ProcessHandler.destroy, hput]
  simp only [forM_destroy_of_invalid true _ (hput ▸ hnone), ok_bind]
  rfl

/-- With the `assert`s compiled in, a run that succeeds keeps one reference per tracked thread
    group, and the destructor then puts back every reference the run took; from there
    `on_new_process` fails exactly for a thread group it tracks. -/
theorem processHandler_run_balanced {calls : List ProcessCall} {p : ProcessHandler}
    (hrun : calls.foldlM (step true) new = .ok p) :
    p.Inv ∧ p.destroy true = .ok ⟨[]⟩ ∧
      ∀ pid cgroup, (∃ e, p.onNewProcess true pid cgroup = .error e) ↔
        (p.processes.lookup pid).isSome := by
  have hI : p.Inv :=
    foldlM_except_inv_of_ok Inv calls (fun _ _ _ _ hI hok => hI.step hok) inv_new hrun
  exact ⟨hI, hI.destroy, fun _ cgroup => onNewProcess_error_iff hI cgroup⟩

/-- One thread group tracked, and put back by the destructor. -/
theorem processHandler_run_balanced_one_process :
    [ProcessCall.onNewProcess 7 1].foldlM (step true) new =
        .ok ⟨[(7, some ⟨1, 7⟩)], ⟨[⟨1, 7⟩]⟩, 0, 0⟩ ∧
      ProcessHandler.Inv ⟨[(7, some ⟨1, 7⟩)], ⟨[⟨1, 7⟩]⟩, 0, 0⟩ ∧
      ProcessHandler.destroy true ⟨[(7, some ⟨1, 7⟩)], ⟨[⟨1, 7⟩]⟩, 0, 0⟩ = .ok ⟨[]⟩ ∧
      ∀ pid cgroup,
        (∃ e, ProcessHandler.onNewProcess true ⟨[(7, some ⟨1, 7⟩)], ⟨[⟨1, 7⟩]⟩, 0, 0⟩ pid cgroup =
            .error e) ↔ ([((7 : UInt32), (some ⟨1, 7⟩ : Handle))].lookup pid).isSome := by
  have hrun : [ProcessCall.onNewProcess 7 1].foldlM (step true) new =
      .ok ⟨[(7, some ⟨1, 7⟩)], ⟨[⟨1, 7⟩]⟩, 0, 0⟩ := by decide
  exact ⟨hrun, processHandler_run_balanced hrun⟩

end ProcessHandler

/-- A second `on_new_process` for a tracked thread group move-assigns to its valid handle: the
    `assert` fails, and without it the first reference is never put back. -/
theorem processHandler_leaks_duplicate_tgid :
    ProcessHandler.runThenDestroy true [.onNewProcess 7 1, .onNewProcess 7 1] =
        .error "assert(!valid())" ∧
      ProcessHandler.runThenDestroy false [.onNewProcess 7 1, .onNewProcess 7 1] =
        .ok ⟨[⟨1, 7⟩]⟩ := by
  decide

end OtelNetwork.Collector
