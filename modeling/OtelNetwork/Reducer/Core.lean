import OtelNetwork.Reducer.QueueHandler

/-!
# `Core::handle_rpc`: the C++ reducer core reading its RPC queues

A model of `reducer/core.cc` and `reducer/core_base.h`. Each RPC client has an element queue, a
FIFO list of byte strings; `eq_peek` returns the length of the head element (its entry in
`elems`) or `-ENOENT`, and `peek_value` reads the element's 8-byte timestamp in the target's
byte order `o` and fails with `-EINVAL` on a shorter element. The handlers and client types are
not modelled: a handled message is an event of the trace, with the timestamp passed to `handle`.

The clock of `reducer/util/virtual_clock.cc` computes as the model of `Timeslot.VirtualClock`
(the Rust crate is its port): its `timeslot_diff_t` and `timeslot_t` casts wrap as the Rust
narrowing does, `inputs_.at` throws where Rust panics, and `update`'s `-EPERM` and `-EINVAL` are
`UpdateError.notPermitted` and `.pastTimeslot`. Each answer of `monotonic() >= timeout_ns` is a
scheduler choice, read as `QueueHandler.budgetSpent` reads the Rust loop's.
-/

namespace OtelNetwork

open RustSem

/-- `ENOENT`. -/
def ENOENT : Int := 2

/-- `eq_peek`: the length of the head element, `-ENOENT` for an empty queue. Lengths are below
    `buf_len`, which keeps them positive as an `int`. -/
def eqPeek (q : List Bytes) : Int :=
  match q with
  | [] => -ENOENT
  | e :: _ => e.length

/-- `fast_div{1e9, 16}`, the divider `VirtualClock` is built with by default: shift
    `min(64 - 16, 32 + 29) = 48` and multiplier `u32(2^48 / 1e9)`. -/
def defaultDivider : FastDiv := ⟨281474, 48⟩

/-- What `handle_rpc` produces. -/
inductive CoreEvent where
  /-- `rpc_client.handler->handle(current_timestamp_, msg_buf, msg_len)`. -/
  | handle (client : Nat) (timestamp : UInt64) (bytes : Bytes)
  /-- `(void)rpc_client.queue.read(msg_buf)` of an element with no timestamp. -/
  | discard (client : Nat) (bytes : Bytes)
  /-- `on_timeslot_complete()`. -/
  | timeslotComplete
deriving DecidableEq, Repr

/-- `Core`: the queue of each of `rpc_clients_`, the clock, `next_rpc_client_` and
    `current_timestamp_`. -/
structure Core where
  rpcClients : List (List Bytes)
  virtualClock : VirtualClock
  nextRpcClient : Nat
  currentTimestamp : UInt64
deriving DecidableEq, Repr

namespace Core

/-- `Core::Core(app_name, shard_num, initial_timestamp)`. -/
def new (initialTimestamp : UInt64) : Core :=
  { rpcClients := [], virtualClock := VirtualClock.new defaultDivider, nextRpcClient := 0,
    currentTimestamp := initialTimestamp }

/-- `CoreBase::add_rpc_clients`: one client per queue, and as many clock inputs. -/
def addRpcClients (c : Core) (queues : List (List Bytes)) : Core :=
  { c with
    rpcClients := c.rpcClients ++ queues, virtualClock := c.virtualClock.addInputs queues.length }

/-- The state of the inner `for` loop over one client's queue. -/
structure BatchState where
  clock : VirtualClock
  queue : List Bytes
  currentTimestamp : UInt64
  anyHandled : Bool
  timedOut : Bool
  timeouts : List Bool
  trace : List CoreEvent

/-- The body of the inner loop over client `i`, entered with `peek() > 0`. -/
def batchStep (o : Endian) (i : Nat) (s : BatchState) : Except String BatchState :=
  match s.queue with
  | [] => return s
  | e :: rest =>
    match peekValueU64 o e with
    | none =>
      -- the element is read and skipped; the `continue` skips the time check
      return { s with queue := rest, trace := s.trace ++ [.discard i e] }
    | some msgTimestamp => do
      let (r, clock) ← s.clock.update i msgTimestamp
      match r with
      | .error .pastTimeslot => throw "out-of-order message"
      | .error .notPermitted => throw "unexpected error"
      | .ok () => do
        let current ← clock.isCurrent i
        let s' : BatchState :=
          if current then
            let ts := max s.currentTimestamp msgTimestamp
            { s with
              clock, queue := rest, currentTimestamp := ts, anyHandled := true
              trace := s.trace ++ [.handle i ts e] }
          else { s with clock }
        let (timedOut, timeouts) := QueueHandler.budgetSpent s'.timeouts
        return { s' with timedOut, timeouts }

/-- The inner `for` loop over client `i`: `msg_i < kMaxRpcBatchPerQueue && can_update(i) &&
    peek() > 0 && !timed_out`, where `remaining` is `kMaxRpcBatchPerQueue - msg_i`. -/
def batchLoop (o : Endian) (i : Nat) : Nat → BatchState → Except String BatchState
  | 0, s => return s
  | remaining + 1, s => do
    let ok ← s.clock.canUpdate i
    if ok && eqPeek s.queue > 0 && !s.timedOut then
      let s' ← batchStep o i s
      batchLoop o i remaining s'
    else return s

/-- The state of the outer `for` loop of one call. -/
structure RpcState where
  core : Core
  anyHandled : Bool
  timedOut : Bool
  timeouts : List Bool
  trace : List CoreEvent

/-- One turn of the outer loop: client `next_rpc_client_`, whose queue is read in a batch of at
    most `maxBatch` (`kMaxRpcBatchPerQueue`) iterations when its clock input can be updated. -/
def serveClient (o : Endian) (maxBatch : Nat) (s : RpcState) : Except String RpcState := do
  let i := s.core.nextRpcClient
  let c := { s.core with nextRpcClient := (i + 1) % s.core.rpcClients.length }
  let queue ← index c.rpcClients i
  let ok ← c.virtualClock.canUpdate i
  if !ok then return { s with core := c }
  let b ← batchLoop o i maxBatch
    ⟨c.virtualClock, queue, c.currentTimestamp, s.anyHandled, s.timedOut, s.timeouts, s.trace⟩
  let c' := { c with
    rpcClients := c.rpcClients.set i b.queue, virtualClock := b.clock
    currentTimestamp := b.currentTimestamp }
  return ⟨c', b.anyHandled, b.timedOut, b.timeouts, b.trace⟩

/-- `Core::handle_rpc`: every client once from `next_rpc_client_` on until the time runs out, then
    `advance`. Returns `any_handled`, the core, the unused answers of the time check and the
    events of the call. -/
def handleRpc (o : Endian) (maxBatch : Nat) (c : Core) (timeouts : List Bool) :
    Except String (Bool × Core × List Bool × List CoreEvent) := do
  let s ← (List.range c.rpcClients.length).foldlM
    (fun s _ => if s.timedOut then return s else serveClient o maxBatch s)
    ⟨c, false, false, timeouts, []⟩
  let (advanced, clock) ← s.core.virtualClock.advance
  let trace := if advanced then s.trace ++ [.timeslotComplete] else s.trace
  return (s.anyHandled, { s.core with virtualClock := clock }, s.timeouts, trace)

end Core

/-- What happens to a running core: a client's sender writes an element to its queue, or the RPC
    timer fires and calls `handle_rpc`. -/
inductive CoreInput where
  | write (client : Nat) (e : Bytes)
  | rpcTimer
deriving DecidableEq, Repr

namespace Core

/-- A running core with the scheduler's remaining answers and the events so far. -/
structure RunState where
  core : Core
  timeouts : List Bool
  trace : List CoreEvent

/-- One input. A write to a client that does not exist changes nothing. -/
def step (o : Endian) (maxBatch : Nat) (s : RunState) : CoreInput → Except String RunState
  | .write i e => return { s with core := { s.core with rpcClients := s.core.rpcClients.modify i (· ++ [e]) } }
  | .rpcTimer => do
    let (_, core, timeouts, tr) ← handleRpc o maxBatch s.core s.timeouts
    return ⟨core, timeouts, s.trace ++ tr⟩

/-- A run over a sequence of inputs. -/
def run (o : Endian) (maxBatch : Nat) (s : RunState) (inputs : List CoreInput) :
    Except String RunState :=
  inputs.foldlM (step o maxBatch) s

end Core

end OtelNetwork
