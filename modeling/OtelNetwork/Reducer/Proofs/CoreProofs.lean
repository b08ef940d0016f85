import OtelNetwork.Reducer.Core
import OtelNetwork.Timeslot.Proofs.VirtualClockProofs

/-!
# `handle_rpc` never gets past an empty element

The inner loop tests `peek() > 0`, and `eq_peek` returns the length of the head element: an empty
element ends the loop before it is read or skipped (`batchLoop_eq_of_empty_head`). With a single
client it stays at the head of its queue through every call and every write (`Blocked.run`): the
clock never sees a timestamp, and nothing is ever handled.
-/

namespace OtelNetwork.Core

open RustSem VirtualClock

/-- An empty element at the head of the queue ends the inner loop before it is read. -/
theorem batchLoop_eq_of_empty_head {o : Endian} {i n : Nat} {r : List Bytes} {s : BatchState}
    (hq : s.queue = [] :: r) {ok : Bool} (hok : s.clock.canUpdate i = .ok ok) :
    batchLoop o i n s = .ok s := by
  cases n with
  | zero => rfl
  | succ n => simp [batchLoop, eqPeek, hq, hok]

/-! ## One client -/

/-- One client, whose queue starts with an empty element, and the clock unset with its one input
    unset. -/
structure Blocked (c : Core) : Prop where
  queue : ∃ rest, c.rpcClients = [[] :: rest]
  inputs : c.virtualClock.inputs = [⟨none⟩]
  unset : c.virtualClock.currentTimeslot = none
  next : c.nextRpcClient = 0

variable {o : Endian} {c : Core}

theorem Blocked.canUpdate (h : Blocked c) : c.virtualClock.canUpdate 0 = .ok true := by
  have hi : 0 < c.virtualClock.inputs.length := by simp [h.inputs]
  rw [canUpdate_of_lt hi]
  simp [h.inputs, h.unset]

theorem Blocked.advance (h : Blocked c) : c.virtualClock.advance = .ok (false, c.virtualClock) := by
  have he : c.virtualClock.earliestInputTimeslot = .ok none :=
    earliestInputTimeslot_of_unset ⟨⟨none⟩, by simp [h.inputs], rfl⟩
  rw [advance_of_none h.unset he, ← h.unset]

theorem Blocked.serveClient (h : Blocked c) (K : Nat) (any : Bool) (t : List Bool)
    (tr : List CoreEvent) :
    serveClient o K ⟨c, any, false, t, tr⟩ = .ok ⟨c, any, false, t, tr⟩ := by
  obtain ⟨rest, hq⟩ := h.queue
  have hloop := batchLoop_eq_of_empty_head (o := o) (i := 0) (n := K)
    (s := ⟨c.virtualClock, [] :: rest, c.currentTimestamp, any, false, t, tr⟩) rfl h.canUpdate
  have hc : { c with rpcClients := [[] :: rest], nextRpcClient := 0 } = c := by
    rw [← hq, ← h.next]
  simp only [Core.serveClient, h.next, hq, index, List.length_singleton, Nat.zero_add,
    Nat.mod_self, List.getElem?_cons_zero, ok_bind]
  rw [show ({ c with nextRpcClient := 0 } : Core).virtualClock = c.virtualClock from rfl,
    h.canUpdate]
  simp [hloop, List.set_cons_zero, hc]

theorem Blocked.handleRpc (h : Blocked c) (K : Nat) (t : List Bool) :
    Core.handleRpc o K c t = .ok (false, c, t, []) := by
  obtain ⟨rest, hq⟩ := h.queue
  simp only [Core.handleRpc, hq, List.length_singleton, List.range_one, List.foldlM_cons,
    List.foldlM_nil]
  simp [h.serveClient K false t [], h.advance]

theorem Blocked.step (h : Blocked c) (K : Nat) (t : List Bool) (tr : List CoreEvent)
    (inp : CoreInput) :
    ∃ c', Core.step o K ⟨c, t, tr⟩ inp = .ok ⟨c', t, tr⟩ ∧ Blocked c' := by
  cases inp with
  | write i e =>
    obtain ⟨rest, hq⟩ := h.queue
    refine ⟨_, rfl, ⟨?_, h.inputs, h.unset, h.next⟩⟩
    show ∃ rest', (c.rpcClients.modify i (· ++ [e])) = [[] :: rest']
    rw [hq]
    rcases i with _ | i
    · exact ⟨rest ++ [e], rfl⟩
    · exact ⟨rest, by simp⟩
  | rpcTimer =>
    refine ⟨c, ?_, h⟩
    simp [Core.step, h.handleRpc K t]

theorem Blocked.run (h : Blocked c) (K : Nat) (t : List Bool) (tr : List CoreEvent)
    (inputs : List CoreInput) :
    ∃ c', Core.run o K ⟨c, t, tr⟩ inputs = .ok ⟨c', t, tr⟩ ∧ Blocked c' := by
  induction inputs generalizing c with
  | nil => exact ⟨c, rfl, h⟩
  | cons inp inputs ih =>
    obtain ⟨c₁, hstep, h₁⟩ := h.step (o := o) K t tr inp
    obtain ⟨c', hrun, h'⟩ := ih h₁
    refine ⟨c', ?_, h'⟩
    simp only [Core.run, List.foldlM_cons, hstep, ok_bind]
    exact hrun

theorem blocked_new (initialTimestamp : UInt64) (rest : List Bytes) :
    Blocked ((Core.new initialTimestamp).addRpcClients [[] :: rest]) :=
  ⟨⟨rest, rfl⟩, rfl, rfl, rfl⟩

theorem handleRpc_never_consumes_empty_element (o : Endian) (maxBatch : Nat)
    (initialTimestamp : UInt64) (rest : List Bytes) (timeouts : List Bool)
    (inputs : List CoreInput) :
    ∃ s, Core.run o maxBatch ⟨(Core.new initialTimestamp).addRpcClients [[] :: rest], timeouts, []⟩
        inputs = .ok s ∧
      s.trace = [] ∧ s.core.virtualClock.currentTimeslot = none ∧
      ∃ rest', s.core.rpcClients = [[] :: rest'] := by
  obtain ⟨c', hrun, h'⟩ := (blocked_new initialTimestamp rest).run (o := o) maxBatch timeouts [] inputs
  exact ⟨_, hrun, rfl, h'.unset, h'.queue⟩

end OtelNetwork.Core
