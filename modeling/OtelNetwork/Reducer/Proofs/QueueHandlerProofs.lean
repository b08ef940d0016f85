import OtelNetwork.Reducer.QueueHandler
import OtelNetwork.Timeslot.Proofs.VirtualClockProofs
import OtelNetwork.Lib.Segments

/-!
# `QueueHandler::run` delivers in timeslot order

The trace of a run keeps `TraceInv`: every message carries the timeslot of its own timestamp,
which is the clock's current one; every dropped element of 8 bytes or more is behind its queue's
input; and the clock's current timeslot changes only at `handle_timeslot_end`, or while it is
unset and so no message has been delivered, so that the messages between two timeslot ends
share one timeslot (`Segments`). Each read appends one event for the element it pops, so the
reads of a queue, in trace order, followed by what is left of it, are the queue (`readsOf`).

The proof follows the loops of the source: one iteration of the inner loop (`readStep_cases`,
`ReadInv.readStep`), the inner loop by induction on its fuel, one turn of the `for` loop
(`RunInv.serveQueue`), one pass (`RunInv.cycle`), and the run. `readLoop_fuel_stable` shows that
the fuel given to the inner loop never cuts it short.
-/

namespace OtelNetwork

open RustSem VirtualClock

namespace RunEvent

/-- The timeslot a `handle_message` call was made in. -/
def slot : RunEvent → Option Timeslot
  | .message _ _ c => c
  | _ => none

def isTimeslotEnd : RunEvent → Bool
  | .timeslotEnd _ => true
  | _ => false

/-- The element a message or a drop read from queue `i`. -/
def readFrom (i : Nat) : RunEvent → Option Bytes
  | .message j b _ | .drained j b _ => if j = i then some b else none
  | .timeslotEnd _ => none

end RunEvent

/-- The elements of queue `i` that a trace has read, in order. -/
def readsOf (i : Nat) (tr : List RunEvent) : List Bytes := tr.filterMap (RunEvent.readFrom i)

@[simp] theorem readsOf_append (i : Nat) (tr tr' : List RunEvent) :
    readsOf i (tr ++ tr') = readsOf i tr ++ readsOf i tr' :=
  List.filterMap_append

@[simp] theorem readsOf_timeslotEnd (i : Nat) (w : UInt64) : readsOf i [.timeslotEnd w] = [] :=
  rfl

theorem peekValueU64_eq_none {o : Endian} {e : Bytes} : peekValueU64 o e = none ↔ e.length < 8 := by
  unfold peekValueU64
  split_ifs with h <;> simp [h]

/-! ## The trace -/

/-- What the trace says about timeslots, with `cur` the clock's current timeslot. -/
structure TraceInv (o : Endian) (d : FastDiv) (tr : List RunEvent) (cur : Option Timeslot) : Prop where
  messages : ∀ i b c, RunEvent.message i b c ∈ tr →
    ∃ ts, peekValueU64 o b = some ts ∧ c = some (d.divideU64 ts).toUInt16
  drains : ∀ i b r, RunEvent.drained i b r ∈ tr → 8 ≤ b.length →
    ∃ ts old, peekValueU64 o b = some ts ∧ r = some old ∧
      signedDeltaU16 (d.divideU64 ts).toUInt16 old < 0
  uniform : Segments.Uniform RunEvent.isTimeslotEnd RunEvent.slot tr
  openSeg : Segments.OpenLabel RunEvent.isTimeslotEnd RunEvent.slot tr cur

namespace TraceInv

variable {o : Endian} {d : FastDiv} {tr : List RunEvent} {cur : Option Timeslot}

theorem nil (o : Endian) (d : FastDiv) (cur : Option Timeslot) : TraceInv o d [] cur :=
  ⟨(fun _ _ _ h => by cases h), (fun _ _ _ h => by cases h), Segments.uniform_nil,
    Segments.openLabel_nil cur⟩

theorem of_none (h : TraceInv o d tr none) (cur : Option Timeslot) : TraceInv o d tr cur :=
  { h with openSeg := h.openSeg.of_none cur }

/-- A message in the current timeslot, which is the timeslot of its timestamp. -/
theorem message (h : TraceInv o d tr (some t)) {i : Nat} {b : Bytes} {ts : UInt64}
    (hts : peekValueU64 o b = some ts) (ht : t = (d.divideU64 ts).toUInt16) :
    TraceInv o d (tr ++ [.message i b (some t)]) (some t) := by
  have hlabel : ∀ t', RunEvent.slot (.message i b (some t)) = some t' → some t = some t' :=
    fun _ h => h
  refine ⟨?_, ?_, h.uniform.append h.openSeg hlabel, h.openSeg.append hlabel⟩
  · intro j b' c hm
    rcases List.mem_append.mp hm with hm | hm
    · exact h.messages j b' c hm
    · cases List.mem_singleton.mp hm
      exact ⟨ts, hts, by rw [ht]⟩
  · intro j b' r hm
    rcases List.mem_append.mp hm with hm | hm
    · exact h.drains j b' r hm
    · cases List.mem_singleton.mp hm

/-- A dropped element: one that is malformed, or behind its queue. -/
theorem drained (h : TraceInv o d tr cur) {i : Nat} {b : Bytes} {r : Option Timeslot}
    (hb : 8 ≤ b.length → ∃ ts old, peekValueU64 o b = some ts ∧ r = some old ∧
      signedDeltaU16 (d.divideU64 ts).toUInt16 old < 0) :
    TraceInv o d (tr ++ [.drained i b r]) cur := by
  have hlabel : ∀ t', RunEvent.slot (.drained i b r) = some t' → cur = some t' :=
    fun _ h => by cases h
  refine ⟨?_, ?_, h.uniform.append h.openSeg hlabel, h.openSeg.append hlabel⟩
  · intro j b' c hm
    rcases List.mem_append.mp hm with hm | hm
    · exact h.messages j b' c hm
    · cases List.mem_singleton.mp hm
  · intro j b' r' hm
    rcases List.mem_append.mp hm with hm | hm
    · exact h.drains j b' r' hm
    · cases List.mem_singleton.mp hm
      exact hb

/-- `handle_timeslot_end` closes the timeslot: the clock may move on. -/
theorem timeslotEnd (h : TraceInv o d tr cur) (w : UInt64) (cur' : Option Timeslot) :
    TraceInv o d (tr ++ [.timeslotEnd w]) cur' := by
  have hlabel : ∀ t', RunEvent.slot (.timeslotEnd w) = some t' → cur = some t' :=
    fun _ h => by cases h
  refine ⟨?_, ?_, h.uniform.append h.openSeg hlabel, Segments.OpenLabel.append_end rfl rfl cur'⟩
  · intro j b' c hm
    rcases List.mem_append.mp hm with hm | hm
    · exact h.messages j b' c hm
    · cases List.mem_singleton.mp hm
  · intro j b' r' hm
    rcases List.mem_append.mp hm with hm | hm
    · exact h.drains j b' r' hm
    · cases List.mem_singleton.mp hm

end TraceInv

/-! ## One iteration of the inner loop -/

namespace QueueHandler

variable {o : Endian} {d : FastDiv} {n i : Nat} {s : ReadState} {e : Bytes} {rest : List Bytes}

/-- What one iteration does once the loop is entered (the input can be updated and an element is
    there): drop a malformed element, drop an element behind its input, or move the input to the
    element's timeslot and then read the element if that is the current timeslot. -/
theorem readStep_cases (hi : i < s.clock.inputs.length) (hcan : s.clock.canUpdate i = .ok true)
    (hb : s.batch = e :: rest) :
    (peekValueU64 o e = none ∧ readStep o i s = .ok (true,
      { s with batch := rest, trace := s.trace ++ [.drained i e (inputTimeslot s.clock i)] })) ∨
    (∃ ts old, peekValueU64 o e = some ts ∧ inputTimeslot s.clock i = some old ∧
      signedDeltaU16 (s.clock.mapTimestamp ts) old < 0 ∧ readStep o i s = .ok (true,
        { s with batch := rest, trace := s.trace ++ [.drained i e (some old)] })) ∨
    (∃ ts c', peekValueU64 o e = some ts ∧
      c' = s.clock.setInput i ⟨some (s.clock.mapTimestamp ts)⟩ ∧
      ((c'.currentTimeslot = some (s.clock.mapTimestamp ts) ∧
        readStep o i s = .ok (!(budgetSpent s.elapsed).1,
          { s with clock := c', batch := rest, handled := s.handled + 1, lastProcessedTs := ts,
                   trace := s.trace ++ [.message i e c'.currentTimeslot],
                   elapsed := (budgetSpent s.elapsed).2 })) ∨
       (c'.canUpdate i = .ok false ∧
        readStep o i s = .ok (!(budgetSpent s.elapsed).1,
          { s with clock := c', elapsed := (budgetSpent s.elapsed).2 })))) := by
  have hcan' : (s.clock.inputs[i].timeslot == s.clock.currentTimeslot) = true := by
    rw [canUpdate_of_lt hi] at hcan
    exact Except.ok.inj hcan
  rcases hpeek : peekValueU64 o e with _ | ts
  · exact .inl ⟨rfl, by simp [readStep, hb, hpeek]⟩
  obtain ⟨r, c', hupd⟩ := update_ok ts hi
  have hslot : inputTimeslot s.clock i = s.clock.inputs[i].timeslot := by
    simp [inputTimeslot, List.getElem?_eq_getElem hi]
  obtain ⟨hi', hnp | ⟨hnone, hcur, rfl, rfl⟩ | ⟨old, hold, hcur, hd, rfl, rfl⟩ |
      ⟨old, hold, hcur, hd, rfl, rfl⟩⟩ := update_cases hupd
  · -- the loop only runs while the input can be updated, so `update` permits it
    exact absurd (beq_iff_eq.mp hcan') hnp.1
  · -- the first timestamp of an input while the clock is unset: never current
    refine .inr (.inr ⟨ts, _, rfl, rfl, .inr ⟨?_, ?_⟩⟩)
    · rw [canUpdate_of_lt (by simpa using hi)]
      simp [hcur]
    · have hic : (s.clock.setInput i ⟨some (s.clock.mapTimestamp ts)⟩).isCurrent i = .ok false := by
        simp [isCurrent, hcur]
      simp [readStep, hb, hpeek, hupd, hic]
  · -- the input moves forward, to the element's timeslot
    have hlen : i < (s.clock.setInput i ⟨some (s.clock.mapTimestamp ts)⟩).inputs.length := by
      simpa using hi
    by_cases hnow : s.clock.mapTimestamp ts = old
    · refine .inr (.inr ⟨ts, _, rfl, rfl, .inl ⟨by simp [hcur, hnow], ?_⟩⟩)
      have hic : (s.clock.setInput i ⟨some (s.clock.mapTimestamp ts)⟩).isCurrent i = .ok true := by
        rw [isCurrent_of_lt hlen]
        simp [hcur, hnow]
      simp [readStep, hb, hpeek, hupd, hic]
    · refine .inr (.inr ⟨ts, _, rfl, rfl, .inr ⟨?_, ?_⟩⟩)
      · rw [canUpdate_of_lt hlen]
        simp [hcur, hnow]
      · have hic : (s.clock.setInput i ⟨some (s.clock.mapTimestamp ts)⟩).isCurrent i =
            .ok false := by
          rw [isCurrent_of_lt hlen]
          simp [hcur, hnow]
        simp [readStep, hb, hpeek, hupd, hic]
  · -- the element is behind its input: it is drained
    refine .inr (.inl ⟨ts, old, rfl, hslot.trans hold, Int16.not_le.mp hd, ?_⟩)
    simp [readStep, hb, hpeek, hupd, hslot, hold]

/-- The loop's invariant on queue `i`. -/
structure ReadInv (o : Endian) (d : FastDiv) (n i : Nat) (s : ReadState) : Prop where
  lt : i < n
  length : s.clock.inputs.length = n
  divider : s.clock.divider = d
  trace : TraceInv o d s.trace s.clock.currentTimeslot

/-- The reads of every queue, followed by what is left of it, do not change: queue `i` is the
    batch, and any other queue is `X`. -/
def ReadsKept (i : Nat) (s s' : ReadState) : Prop :=
  ∀ j (X : List Bytes), readsOf j s'.trace ++ (if j = i then s'.batch else X) =
    readsOf j s.trace ++ (if j = i then s.batch else X)

theorem ReadsKept.refl (s : ReadState) : ReadsKept i s s := fun _ _ => rfl

theorem ReadsKept.trans {s₁ s₂ s₃ : ReadState} (h₁ : ReadsKept i s₁ s₂) (h₂ : ReadsKept i s₂ s₃) :
    ReadsKept i s₁ s₃ :=
  fun j X => (h₂ j X).trans (h₁ j X)

/-- Popping the batch's head with an event that reads it keeps the reads. -/
theorem ReadsKept.pop {s' : ReadState} {x : RunEvent} (hb : s.batch = e :: rest)
    (hb' : s'.batch = rest) (htr : s'.trace = s.trace ++ [x])
    (hx : ∀ j, RunEvent.readFrom j x = if j = i then some e else none) : ReadsKept i s s' := by
  intro j X
  rw [htr, readsOf_append, hb, hb']
  by_cases hj : j = i
  · simp [readsOf, hx, hj]
  · simp [readsOf, hx, hj]

/-- How far the loop is from stopping: it pops an element, or stops at the next check. -/
def fuelNeeded (i : Nat) (s : ReadState) : Nat :=
  2 * s.batch.length + if s.clock.canUpdate i = .ok true then 1 else 0

/-- One iteration keeps the invariant and the reads, and brings the loop closer to its end. -/
theorem ReadInv.readStep (h : ReadInv o d n i s) (hcan : s.clock.canUpdate i = .ok true)
    (hb : s.batch = e :: rest) :
    ∃ cont s', QueueHandler.readStep o i s = .ok (cont, s') ∧ ReadInv o d n i s' ∧
      ReadsKept i s s' ∧ fuelNeeded i s' < fuelNeeded i s := by
  have hi : i < s.clock.inputs.length := h.length ▸ h.lt
  have hmap : s.clock.mapTimestamp = fun ts => (d.divideU64 ts).toUInt16 := by
    rw [mapTimestamp_eq h.divider]
    rfl
  have hfuel : fuelNeeded i s = 2 * (rest.length + 1) + 1 := by
    simp [fuelNeeded, hb, hcan]
  have hfuel_pop : ∀ s' : ReadState, s'.batch = rest → fuelNeeded i s' < fuelNeeded i s := by
    intro s' hb'
    rw [hfuel]
    unfold fuelNeeded
    rw [hb']
    split_ifs <;> omega
  have hread : ∀ j (x : Option Timeslot), RunEvent.readFrom j (.drained i e x) =
      if j = i then some e else none := fun j x => by
    by_cases hj : i = j <;> simp [RunEvent.readFrom, hj, eq_comm]
  rcases readStep_cases hi hcan hb with ⟨hpeek, hstep⟩ | ⟨ts, old, hpeek, hold, hd, hstep⟩ |
      ⟨ts, c', hpeek, rfl, ⟨hcur, hstep⟩ | ⟨hcan', hstep⟩⟩
  · -- a malformed element: shorter than 8 bytes
    refine ⟨_, _, hstep, ⟨h.lt, h.length, h.divider, h.trace.drained fun hlen => ?_⟩,
      ReadsKept.pop hb rfl rfl (hread · _), hfuel_pop _ rfl⟩
    have := peekValueU64_eq_none.mp hpeek
    omega
  · -- an element behind its input
    refine ⟨_, _, hstep, ⟨h.lt, h.length, h.divider, h.trace.drained fun _ => ?_⟩,
      ReadsKept.pop hb rfl rfl (hread · _), hfuel_pop _ rfl⟩
    exact ⟨ts, old, hpeek, rfl, by simpa [hmap] using hd⟩
  · -- an element of the current timeslot: `handle_message`
    have hcur' : s.clock.currentTimeslot = some (s.clock.mapTimestamp ts) := by simpa using hcur
    have htr : TraceInv o d (s.trace ++ [.message i e (some (s.clock.mapTimestamp ts))])
        (some (s.clock.mapTimestamp ts)) :=
      (hcur' ▸ h.trace).message hpeek (by simp [hmap])
    refine ⟨_, _, hstep, ⟨h.lt, by simpa using h.length, h.divider, ?_⟩,
      ReadsKept.pop hb rfl rfl fun j => ?_, hfuel_pop _ rfl⟩
    · rw [hcur]
      exact htr
    · by_cases hj : i = j <;> simp [RunEvent.readFrom, hj, eq_comm]
  · -- an element of a later timeslot: it stays, and the loop stops at its next check
    refine ⟨_, _, hstep, ⟨h.lt, by simpa using h.length, h.divider, by simpa using h.trace⟩,
      fun j X => rfl, ?_⟩
    simp [fuelNeeded, hb, hcan, hcan']

/-! ## The inner loop -/

/-- The inner loop keeps the invariant and the reads, whatever its fuel. -/
theorem ReadInv.readLoop (K : Nat) :
    ∀ (fuel : Nat) (s : ReadState), ReadInv o d n i s →
      ∃ s', QueueHandler.readLoop o K i fuel s = .ok s' ∧ ReadInv o d n i s' ∧ ReadsKept i s s'
  | 0, s, h => ⟨s, rfl, h, ReadsKept.refl s⟩
  | fuel + 1, s, h => by
    have hi : i < s.clock.inputs.length := h.length ▸ h.lt
    unfold QueueHandler.readLoop
    by_cases hK : s.handled < K
    · rw [if_pos hK, canUpdate_of_lt hi, ok_bind]
      rcases hb : s.batch with _ | ⟨e, rest⟩
      · exact ⟨s, by simp, h, ReadsKept.refl s⟩
      by_cases hcan : (s.clock.inputs[i].timeslot == s.clock.currentTimeslot) = true
      · obtain ⟨cont, s', hstep, h', hkept, -⟩ :=
          h.readStep (by rw [canUpdate_of_lt hi, hcan]) hb
        simp only [hcan, List.isEmpty_cons, Bool.not_false, Bool.and_self, if_true, hstep,
          ok_bind]
        cases cont
        · exact ⟨s', rfl, h', hkept⟩
        · obtain ⟨s'', hloop, h'', hkept'⟩ := ReadInv.readLoop K fuel s' h'
          exact ⟨s'', by simpa using hloop, h'', hkept.trans hkept'⟩
      · simp only [Bool.not_eq_true] at hcan
        exact ⟨s, by simp [hcan], h, ReadsKept.refl s⟩
    · exact ⟨s, by simp [hK], h, ReadsKept.refl s⟩

/-- With more fuel than `fuelNeeded`, one more unit of fuel changes nothing: the loop has stopped
    by its own condition. -/
theorem readLoop_succ_of_fuelNeeded (K : Nat) :
    ∀ (fuel : Nat) (s : ReadState), ReadInv o d n i s → fuelNeeded i s < fuel →
      QueueHandler.readLoop o K i (fuel + 1) s = QueueHandler.readLoop o K i fuel s
  | 0, _, _, hf => absurd hf (Nat.not_lt_zero _)
  | fuel + 1, s, h, hf => by
    have hi : i < s.clock.inputs.length := h.length ▸ h.lt
    unfold QueueHandler.readLoop
    by_cases hK : s.handled < K
    · rw [if_pos hK, if_pos hK, canUpdate_of_lt hi, ok_bind, ok_bind]
      rcases hb : s.batch with _ | ⟨e, rest⟩
      · simp
      by_cases hcan : (s.clock.inputs[i].timeslot == s.clock.currentTimeslot) = true
      · obtain ⟨cont, s', hstep, h', -, hless⟩ :=
          h.readStep (by rw [canUpdate_of_lt hi, hcan]) hb
        simp only [hcan, List.isEmpty_cons, Bool.not_false, Bool.and_self, if_true, hstep,
          ok_bind]
        cases cont
        · rfl
        · simp only [if_true]
          exact readLoop_succ_of_fuelNeeded K fuel s' h' (by omega)
      · simp only [Bool.not_eq_true] at hcan
        simp [hcan]
    · simp [hK]

/-- The fuel `serveQueue` gives is enough: any more gives the same result. -/
theorem readLoop_fuel_stable (K : Nat) {s : ReadState} (h : ReadInv o d n i s) (k : Nat) :
    QueueHandler.readLoop o K i (2 * s.batch.length + 2 + k) s =
      QueueHandler.readLoop o K i (2 * s.batch.length + 2) s := by
  have hneed : fuelNeeded i s < 2 * s.batch.length + 2 := by
    unfold fuelNeeded
    split_ifs <;> omega
  induction k with
  | zero => rfl
  | succ k ih =>
    rw [← Nat.add_assoc, readLoop_succ_of_fuelNeeded K _ s h (by omega), ih]

/-! ## The outer loop -/

theorem getD_set {α : Type} {l : List α} {i : Nat} (hi : i < l.length) (x : α) (j : Nat)
    (dflt : α) : (l.set i x).getD j dflt = if j = i then x else l.getD j dflt := by
  simp only [List.getD_eq_getElem?_getD, List.getElem?_set]
  by_cases hj : j = i
  · subst hj
    simp [hi]
  · simp [Ne.symm hj, hj]

/-- The invariant of the outer loop, in a run on the queues `q₀` with the divider `d`. -/
structure RunInv (o : Endian) (d : FastDiv) (n : Nat) (q₀ : List (List Bytes)) (s : RunState) : Prop where
  queues : s.handler.queues.length = n
  inputs : s.handler.clock.inputs.length = n
  divider : s.handler.clock.divider = d
  nextIdx : s.nextIdx < n
  trace : TraceInv o d s.trace s.handler.clock.currentTimeslot
  reads : ∀ j, readsOf j s.trace ++ s.handler.queues.getD j [] = q₀.getD j []

variable {q₀ : List (List Bytes)} {s : RunState}

/-- One turn of the `for` loop keeps the invariant. -/
theorem RunInv.serveQueue (h : RunInv o d n q₀ s) (K : Nat) :
    ∃ s', QueueHandler.serveQueue o K s = .ok s' ∧ RunInv o d n q₀ s' := by
  have hi : s.nextIdx < s.handler.clock.inputs.length := h.inputs ▸ h.nextIdx
  have hq : s.nextIdx < s.handler.queues.length := h.queues ▸ h.nextIdx
  have hnext : (s.nextIdx + 1) % s.handler.queues.length < n := by
    rw [h.queues]
    exact Nat.mod_lt _ (by have := h.nextIdx; omega)
  simp only [QueueHandler.serveQueue, canUpdate_of_lt hi, ok_bind, index_of_lt hq]
  split
  · -- the input cannot be updated: the queue is skipped
    exact ⟨_, rfl, ⟨h.queues, h.inputs, h.divider, hnext, h.trace, h.reads⟩⟩
  · -- the queue is read under a batch
    obtain ⟨r, hloop, hr, hkept⟩ := ReadInv.readLoop K (2 * s.handler.queues[s.nextIdx].length + 2)
      ⟨s.handler.clock, s.handler.queues[s.nextIdx], 0, s.handler.lastProcessedTs, s.elapsed,
        s.trace⟩ ⟨h.nextIdx, h.inputs, h.divider, h.trace⟩
    rw [hloop, ok_bind]
    refine ⟨_, rfl, ⟨by simpa using h.queues, hr.length, hr.divider, hnext, hr.trace, ?_⟩⟩
    intro j
    have hj := hkept j (s.handler.queues.getD j [])
    simp only at hj ⊢
    rw [getD_set hq, hj, ← h.reads j]
    congr 1
    split_ifs with hji
    · subst hji
      simp [List.getD_eq_getElem?_getD, List.getElem?_eq_getElem hq]
    · rfl

/-- One pass keeps the invariant: the `for` loop, then `advance`, which moves the current
    timeslot only when it reports it (and `handle_timeslot_end` is called) or while it is unset. -/
theorem RunInv.cycle (h : RunInv o d n q₀ s) (hn : 0 < n) (K : Nat) (slotNs : UInt64) :
    ∃ s', QueueHandler.cycle o K slotNs s = .ok s' ∧ RunInv o d n q₀ s' := by
  obtain ⟨s₁, hfor, h₁⟩ := foldlM_except_inv (RunInv o d n q₀)
    (List.range s.handler.queues.length) (fun b _ _ hb => hb.serveQueue K) h
  have hne : s₁.handler.clock.inputs ≠ [] := by
    intro hnil
    have := h₁.inputs
    rw [hnil] at this
    simp at this
    omega
  obtain ⟨b, c', hadv, hc', hfalse⟩ := advance_ok hne
  have hinputs : c'.inputs = s₁.handler.clock.inputs := by rw [hc']
  have hdiv : c'.divider = s₁.handler.clock.divider := by rw [hc']
  simp only [QueueHandler.cycle, hfor, hadv, ok_bind]
  cases b
  · -- no timeslot end: the current timeslot is unchanged, or was unset
    have htr : TraceInv o d s₁.trace c'.currentTimeslot := by
      rcases hfalse rfl with hcur | hcur
      · exact hcur ▸ h₁.trace
      · exact (hcur ▸ h₁.trace).of_none _
    exact ⟨_, rfl, ⟨h₁.queues, hinputs ▸ h₁.inputs, hdiv.trans h₁.divider, h₁.nextIdx, htr,
      h₁.reads⟩⟩
  · refine ⟨_, rfl, ⟨h₁.queues, hinputs ▸ h₁.inputs, hdiv.trans h₁.divider, h₁.nextIdx,
      h₁.trace.timeslotEnd _ _, fun j => ?_⟩⟩
    rw [readsOf_append, readsOf_timeslotEnd, List.append_nil]
    exact h₁.reads j

theorem runInv_new (o : Endian) (q₀ : List (List Bytes)) (hn : 0 < q₀.length) (d : FastDiv) (elapsed : List Bool) :
    RunInv o d q₀.length q₀ ⟨QueueHandler.new q₀ d, 0, elapsed, []⟩ :=
  ⟨rfl, by simp [QueueHandler.new, VirtualClock.addInputs, VirtualClock.new], rfl, hn,
    TraceInv.nil o d _, fun j => by simp [readsOf, QueueHandler.new]⟩

end QueueHandler

/-- `QueueHandler::run` on `n ≥ 1` queues, under any choice of batch limit, budget answers and
    stop time, does not panic, and: every element is read at most once, either passed to
    `handle_message` or dropped, in its queue's order (what the trace read of each queue,
    followed by what is left of it, is the queue); every delivered element's timestamp maps under
    the handler's divider to the clock's current timeslot at the call, so none is delivered
    before the clock is set; the elements delivered between two `handle_timeslot_end` calls
    share one timeslot; and an element of 8 bytes or more is dropped only when its timeslot is
    behind (negative `i16` delta) the timeslot its queue's input had reached. -/
theorem queueHandler_delivers_in_timeslot_order (queues : List (List Bytes))
    (hn : 1 ≤ queues.length) (d : FastDiv) (o : Endian) (sched : Sched) (slotNs : UInt64) :
    ∃ h tr, (QueueHandler.new queues d).run o sched slotNs = .ok (h, tr) ∧
      (∀ j, readsOf j tr ++ h.queues.getD j [] = queues.getD j []) ∧
      (∀ i b c, RunEvent.message i b c ∈ tr →
        ∃ ts, peekValueU64 o b = some ts ∧ c = some (d.divideU64 ts).toUInt16) ∧
      Segments.Uniform RunEvent.isTimeslotEnd RunEvent.slot tr ∧
      (∀ i b r, RunEvent.drained i b r ∈ tr → 8 ≤ b.length →
        ∃ ts old, peekValueU64 o b = some ts ∧ r = some old ∧
          signedDeltaU16 (d.divideU64 ts).toUInt16 old < 0) := by
  obtain ⟨s, hrun, hs⟩ := foldlM_except_inv (QueueHandler.RunInv o d queues.length queues)
    (List.range sched.cycles) (fun b _ _ hb => hb.cycle (by omega) sched.batchLimit slotNs)
    (QueueHandler.runInv_new o queues (by omega) d sched.elapsed)
  have hne : queues.isEmpty = false := by
    cases queues with
    | nil => simp at hn
    | cons _ _ => rfl
  refine ⟨s.handler, s.trace, ?_, hs.reads, hs.trace.messages, hs.trace.uniform, hs.trace.drains⟩
  simp only [QueueHandler.run, QueueHandler.new, hne, Bool.false_eq_true, if_false]
  rw [show (QueueHandler.mk queues ((VirtualClock.new d).addInputs queues.length) d 0) =
    QueueHandler.new queues d from rfl, hrun, ok_bind]
  rfl

theorem queueHandler_delivers_in_timeslot_order_one_queue :
    1 ≤ [[([5, 0, 0, 0, 0, 0, 0, 0] : Bytes)]].length ∧
    ∃ h tr, (QueueHandler.new [[[5, 0, 0, 0, 0, 0, 0, 0]]] ⟨1, 0⟩).run .little ⟨10, 2, []⟩ 100 =
        .ok (h, tr) ∧
      (∀ j, readsOf j tr ++ h.queues.getD j [] = [[([5, 0, 0, 0, 0, 0, 0, 0] : Bytes)]].getD j []) ∧
      (∀ i b c, RunEvent.message i b c ∈ tr →
        ∃ ts, peekValueU64 .little b = some ts ∧ c = some ((⟨1, 0⟩ : FastDiv).divideU64 ts).toUInt16) ∧
      Segments.Uniform RunEvent.isTimeslotEnd RunEvent.slot tr ∧
      (∀ i b r, RunEvent.drained i b r ∈ tr → 8 ≤ b.length →
        ∃ ts old, peekValueU64 .little b = some ts ∧ r = some old ∧
          signedDeltaU16 ((⟨1, 0⟩ : FastDiv).divideU64 ts).toUInt16 old < 0) :=
  ⟨by decide, queueHandler_delivers_in_timeslot_order _ (by decide) _ _ _ _⟩

end OtelNetwork
