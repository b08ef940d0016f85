import OtelNetwork.Timeslot.VirtualClock
import OtelNetwork.Lib.Endian

/-!
# `QueueHandler`: reading element queues in timeslot order

A model of `crates/reducer/src/queue_handler.rs`. Each element queue is a FIFO list of byte
strings; a read batch pops from the front, and `finish` writes the rest back. The loop runs
`cycles` passes before it sees `stop` set; in each pass it visits every queue once, round robin,
and then advances the clock. The batch limit, the number of passes and every answer of
`start_cycle.elapsed() >= time_budget` are scheduler choices (`Sched`).

The callbacks are the trace of the run (`RunEvent`). A message event also records the clock's
current timeslot when `handle_message` is called, and an element that the loop reads and drops
is recorded with the timeslot its queue's input had reached. The window end passed to
`handle_timeslot_end` uses `timeslot_div.estimated_reciprocal().round()`, an `f64`
computation; its value is the parameter `slotNs`.
-/

namespace OtelNetwork

open RustSem

/-- An element: a byte string. -/
abbrev Bytes := List UInt8

/-- `ReadBatch::peek_value::<u64>`: the first 8 bytes of the element as a `u64` in the target's
    native byte order `o`; `None` (`InvalidArg`) for a shorter element. -/
def peekValueU64 (o : Endian) (e : Bytes) : Option UInt64 :=
  if e.length < 8 then none else some (o.u64FromBytes (e.take 8))

/-- The handler's callbacks, and the elements it drops. -/
inductive RunEvent where
  /-- `handle_message(queue_idx, bytes)`; `current` is the clock's current timeslot then. -/
  | message (queueIdx : Nat) (bytes : Bytes) (current : Option Timeslot)
  /-- `let _ = rb.read()`: an element read and dropped; `reached` is its queue's input timeslot
      then. -/
  | drained (queueIdx : Nat) (bytes : Bytes) (reached : Option Timeslot)
  /-- `handle_timeslot_end(window_end_ns)`. -/
  | timeslotEnd (windowEndNs : UInt64)
deriving DecidableEq, Repr

/-- The scheduler's choices. -/
structure Sched where
  /-- `K_MAX_RPC_BATCH_PER_QUEUE`. -/
  batchLimit : Nat
  /-- The passes of the outer loop before `stop` is seen set. -/
  cycles : Nat
  /-- The answers of `start_cycle.elapsed() >= time_budget`, in order; `false` once used up. -/
  elapsed : List Bool

/-- `QueueHandler`. The `stop` flag is the scheduler's `cycles`. -/
structure QueueHandler where
  queues : List (List Bytes)
  clock : VirtualClock
  timeslotDiv : FastDiv
  lastProcessedTs : UInt64

namespace QueueHandler

/-- `QueueHandler::new_from_views`, given the queues' contents and the divider that
    `FastDiv::new(30e9, 16)` computes. -/
def new (queues : List (List Bytes)) (timeslotDiv : FastDiv) : QueueHandler :=
  { queues, clock := (VirtualClock.new timeslotDiv).addInputs queues.length, timeslotDiv,
    lastProcessedTs := 0 }

/-- The timeslot input `i` of the clock has reached. -/
def inputTimeslot (c : VirtualClock) (i : Nat) : Option Timeslot :=
  c.inputs[i]?.bind VirtualClock.Input.timeslot

/-- The state of the inner loop over queue `i`: the clock, the unread elements of the batch, the
    count of handled elements, and what the run has produced so far. -/
structure ReadState where
  clock : VirtualClock
  batch : List Bytes
  handled : Nat
  lastProcessedTs : UInt64
  elapsed : List Bool
  trace : List RunEvent

/-- One answer of `start_cycle.elapsed() >= time_budget`. -/
def budgetSpent (elapsed : List Bool) : Bool × List Bool :=
  match elapsed with
  | b :: rest => (b, rest)
  | [] => (false, [])

/-- One iteration of the inner `while` loop on queue `i`, entered with an element to peek:
    whether the loop goes on, and the new state. -/
def readStep (o : Endian) (i : Nat) (s : ReadState) : Except String (Bool × ReadState) :=
  match s.batch with
  | [] => return (false, s)
  | e :: rest =>
    match peekValueU64 o e with
    | none =>
      -- a malformed element is drained
      return (true,
        { s with batch := rest, trace := s.trace ++ [.drained i e (inputTimeslot s.clock i)] })
    | some ts => do
      let (r, clock) ← s.clock.update i ts
      match r with
      | .error .pastTimeslot =>
        return (true,
          { s with
            clock, batch := rest, trace := s.trace ++ [.drained i e (inputTimeslot s.clock i)] })
      | .error .notPermitted => return (false, { s with clock })
      | .ok () => do
        let current ← clock.isCurrent i
        -- a current element is read and handled; a future one stays for a later timeslot
        let s' : ReadState :=
          if current then
            { s with
              clock, batch := rest, handled := s.handled + 1, lastProcessedTs := ts
              trace := s.trace ++ [.message i e clock.currentTimeslot] }
          else { s with clock }
        let (spent, elapsed) := budgetSpent s'.elapsed
        return (!spent, { s' with elapsed })

/-- The inner `while` loop: `handled < batchLimit && can_update(i) && peek_len().is_ok()`.
    The fuel only bounds the recursion; `serveQueue` gives enough for the loop to stop by itself. -/
def readLoop (o : Endian) (batchLimit i : Nat) : Nat → ReadState → Except String ReadState
  | 0, s => return s
  | fuel + 1, s => do
    if s.handled < batchLimit then
      let ok ← s.clock.canUpdate i
      if ok && !s.batch.isEmpty then
        let (cont, s') ← readStep o i s
        if cont then readLoop o batchLimit i fuel s' else return s'
      else return s
    else return s

/-- The state of the outer loop: the handler, `next_idx`, and the scheduler's remaining answers
    and the run's trace. -/
structure RunState where
  handler : QueueHandler
  nextIdx : Nat
  elapsed : List Bool
  trace : List RunEvent

/-- One turn of the `for` loop: serve queue `next_idx` if its input can be updated, reading under
    a batch that `finish` commits. -/
def serveQueue (o : Endian) (batchLimit : Nat) (s : RunState) : Except String RunState := do
  let h := s.handler
  let i := s.nextIdx
  let s := { s with nextIdx := (i + 1) % h.queues.length }
  let ok ← h.clock.canUpdate i
  if !ok then return s
  let batch ← index h.queues i
  let r ← readLoop o batchLimit i (2 * batch.length + 2)
    ⟨h.clock, batch, 0, h.lastProcessedTs, s.elapsed, s.trace⟩
  let h' := { h with
    clock := r.clock, queues := h.queues.set i r.batch, lastProcessedTs := r.lastProcessedTs }
  return { s with handler := h', elapsed := r.elapsed, trace := r.trace }

/-- One pass of the outer loop: every queue once, then `advance`, and `handle_timeslot_end` with
    the window end when the clock moved. -/
def cycle (o : Endian) (batchLimit : Nat) (slotNs : UInt64) (s : RunState) :
    Except String RunState := do
  let s ← (List.range s.handler.queues.length).foldlM (fun s _ => serveQueue o batchLimit s) s
  let (advanced, clock) ← s.handler.clock.advance
  let h := { s.handler with clock }
  if advanced then
    let rem := h.timeslotDiv.remainder h.lastProcessedTs slotNs
    let windowEndNs := saturatingAdd (saturatingSub h.lastProcessedTs rem) slotNs
    return { s with handler := h, trace := s.trace ++ [.timeslotEnd windowEndNs] }
  else return { s with handler := h }

/-- `QueueHandler::run` on a target of byte order `o`, under the scheduler's choices: the handler
    after the run, and the trace. -/
def run (h : QueueHandler) (o : Endian) (sched : Sched) (slotNs : UInt64) :
    Except String (QueueHandler × List RunEvent) :=
  if h.queues.isEmpty then return (h, [])
  else do
    let s ← (List.range sched.cycles).foldlM (fun s _ => cycle o sched.batchLimit slotNs s)
      ⟨h, 0, sched.elapsed, []⟩
    return (s.handler, s.trace)

end QueueHandler

end OtelNetwork
