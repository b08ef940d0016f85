import Mathlib.Data.List.Basic

/-!
# `ProcessHandler`: the `tracked_process` handles of the thread groups

A model of `collector/kernel/process_handler.{h,cc}` and of the generated handles of
`SpanGenerator`. A span of `tracked_process` is named by its key, which stands for its location.
The index keeps the references the handler took and has not put back: `to_handle` takes one, and
`put` gives one back. `processes_` is an association list, in the order of insertion.

`asserts` says whether the `assert`s of the generated handles are compiled in. A failed one is
an error. Writing the span's fields through `access` is left out, as are the statistics' log
lines. Reading the span of an invalid handle is an error too.
-/

namespace OtelNetwork.Collector

/-- The key of a `tracked_process` span. -/
structure TrackedProcessKey where
  cgroup : UInt64
  tgid : UInt32
deriving DecidableEq, Repr

/-- The references to `tracked_process` spans that the handler holds. -/
structure Index where
  held : List TrackedProcessKey
deriving DecidableEq, Repr

/-- `tracked_process.by_key(key).to_handle()`, which takes one reference. -/
def Index.byKeyToHandle (ai : Index) (key : TrackedProcessKey) : Option TrackedProcessKey × Index :=
  (some key, ⟨key :: ai.held⟩)

/-- `handles::tracked_process`: the span it holds, or `invalid`. -/
abbrev Handle := Option TrackedProcessKey

namespace Handle

def valid (h : Handle) : Bool := h.isSome

/-- `put(ai)`. -/
def put (h : Handle) (ai : Index) : Handle × Index :=
  match h with
  | some loc => (none, ⟨ai.held.erase loc⟩)
  | none => (none, ai)

/-- `operator=(&&other)`: the target, then `other`. -/
def moveAssign (asserts : Bool) (h other : Handle) : Except String (Handle × Handle) :=
  if asserts && h.valid then .error "assert(!valid())" else .ok (other, none)

/-- `~tracked_process()`. -/
def destroy (asserts : Bool) (h : Handle) : Except String Unit :=
  if asserts && h.valid then .error "assert(!valid())" else .ok ()

end Handle

/-- The state of `ProcessHandler`. -/
structure ProcessHandler where
  processes : List (UInt32 × Handle)
  collectorIndex : Index
  duplicateTgid : Nat
  missingTgid : Nat
deriving DecidableEq, Repr

/-- `processes_[pid] = data`: the entry's data is replaced, or the entry is added. -/
def assign (processes : List (UInt32 × Handle)) (pid : UInt32) (h : Handle) :
    List (UInt32 × Handle) :=
  match processes with
  | [] => [(pid, h)]
  | (pid', h') :: processes =>
    if pid' = pid then (pid, h) :: processes else (pid', h') :: assign processes pid h

namespace ProcessHandler

def new : ProcessHandler := ⟨[], ⟨[]⟩, 0, 0⟩

/-- `on_new_process`. -/
def onNewProcess (asserts : Bool) (p : ProcessHandler) (pid : UInt32) (cgroup : UInt64) :
    Except String ProcessHandler := do
  let duplicateTgid :=
    if (p.processes.lookup pid).isSome then p.duplicateTgid + 1 else p.duplicateTgid
  let (handle, collectorIndex) := p.collectorIndex.byKeyToHandle ⟨cgroup, pid⟩
  -- `operator[]` makes a missing entry with an invalid handle; the temporary is destroyed after
  -- the move
  let (assigned, temp) ← Handle.moveAssign asserts ((p.processes.lookup pid).getD none) handle
  Handle.destroy asserts temp
  return ⟨assign p.processes pid assigned, collectorIndex, duplicateTgid, p.missingTgid⟩

/-- `on_process_end`. -/
def onProcessEnd (asserts : Bool) (p : ProcessHandler) (pid : UInt32) :
    Except String ProcessHandler :=
  match p.processes.lookup pid with
  | some h => do
    let (h, collectorIndex) := h.put p.collectorIndex
    Handle.destroy asserts h
    return { p with
      processes := p.processes.eraseP (fun e => e.1 == pid), collectorIndex := collectorIndex }
  | none => .ok { p with missingTgid := p.missingTgid + 1 }

/-- The handlers that write the span of a known thread group through `access`. -/
def accessProcess (p : ProcessHandler) (pid : UInt32) : Except String ProcessHandler :=
  match p.processes.lookup pid with
  | some h => if h.valid then .ok p else .error "access of an invalid handle"
  | none => .ok { p with missingTgid := p.missingTgid + 1 }

/-- `on_cgroup_move`. -/
def onCgroupMove (p : ProcessHandler) (pid : UInt32) (_cgroup : UInt64) :
    Except String ProcessHandler :=
  p.accessProcess pid

/-- `set_process_command`. -/
def setProcessCommand (p : ProcessHandler) (pid : UInt32) : Except String ProcessHandler :=
  p.accessProcess pid

/-- `pid_exit`, which finds the thread group by `tgid`. -/
def pidExit (p : ProcessHandler) (tgid _pid : UInt32) : Except String ProcessHandler :=
  p.accessProcess tgid

/-- The loop of `~ProcessHandler`: each entry's handle is put. -/
def putAll (ai : Index) : List (UInt32 × Handle) → List (UInt32 × Handle) × Index
  | [] => ([], ai)
  | (pid, h) :: processes =>
    let (h, ai) := h.put ai
    let (processes, ai) := putAll ai processes
    ((pid, h) :: processes, ai)

/-- `~ProcessHandler`, with the references still held afterwards. -/
def destroy (asserts : Bool) (p : ProcessHandler) : Except String Index := do
  let (processes, collectorIndex) := putAll p.collectorIndex p.processes
  -- `processes_.clear()` destroys every handle
  processes.forM fun e => Handle.destroy asserts e.2
  return collectorIndex

end ProcessHandler

/-- The calls of `ProcessHandler`. -/
inductive ProcessCall where
  | onNewProcess (pid : UInt32) (cgroup : UInt64)
  | onProcessEnd (pid : UInt32)
  | onCgroupMove (pid : UInt32) (cgroup : UInt64)
  | setProcessCommand (pid : UInt32)
  | pidExit (tgid pid : UInt32)
deriving DecidableEq, Repr

namespace ProcessHandler

def step (asserts : Bool) (p : ProcessHandler) : ProcessCall → Except String ProcessHandler
  | .onNewProcess pid cgroup => p.onNewProcess asserts pid cgroup
  | .onProcessEnd pid => p.onProcessEnd asserts pid
  | .onCgroupMove pid cgroup => p.onCgroupMove pid cgroup
  | .setProcessCommand pid => p.setProcessCommand pid
  | .pidExit tgid pid => p.pidExit tgid pid

/-- A sequence of calls, then the destruction of the handler. -/
def runThenDestroy (asserts : Bool) (calls : List ProcessCall) : Except String Index := do
  let p ← calls.foldlM (step asserts) new
  p.destroy asserts

end ProcessHandler

end OtelNetwork.Collector
