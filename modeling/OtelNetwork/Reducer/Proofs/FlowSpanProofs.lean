import OtelNetwork.Reducer.FlowSpan

/-!
# One side accounts a flow's metrics

`Accounting.accounted owner m` is what a message `m` should add to a span that `owner` owns: an
update from the owner in full, to its direction, and from the other side only what the owner
cannot report (the RTT fields of a TCP transmit update, the other end's HTTP or DNS time).

`metrics_update_direction` makes the first side to update a span its owner and never changes it
(`metricsUpdateDirection_eq`); each handler then adds what `accounted` says for the owner of the
moment (`handle_eq`), and over a whole run the owner is the side of the first message
(`flowSpan_accounts_one_side`).
-/

namespace OtelNetwork.Matching

open FlowSpan

namespace Accounting

/-- The opposite direction. -/
def opposite : UpdateDirection → UpdateDirection
  | .none => .none
  | .aToB => .bToA
  | .bToA => .aToB

/-- The RTT fields of a TCP point, every other field zero. -/
def rttOnly (p : TcpMetrics) : TcpMetrics := { sumSrtt := p.sumSrtt, activeRtts := p.activeRtts }

/-- A TCP point without its RTT fields. -/
def withoutRtts (p : TcpMetrics) : TcpMetrics := { p with sumSrtt := 0, activeRtts := 0 }

variable {P : Type}

/-- An HTTP or DNS update from the owner: a server's without its total time, a client's without
    its processing time, to its direction. -/
def timedOwned (T : TimeFields P) (side : FlowSide) (clientServer : UInt8) (metrics : P) :
    List FlowUpdate :=
  if clientServer = scServer then [⟨directionOf side 1, T.toPoint (T.setTotalTimeNs metrics 0)⟩]
  else [⟨directionOf side 0, T.toPoint (T.setProcessingTimeNs metrics 0)⟩]

/-- An HTTP or DNS update from the other side: its own time field alone, to its direction. -/
def timedForeign (T : TimeFields P) (side : FlowSide) (clientServer : UInt8) (metrics : P) :
    List FlowUpdate :=
  if clientServer = scServer then
    [⟨directionOf side 1, T.toPoint (T.ofTimes 0 (T.sumProcessingTimeNs metrics))⟩]
  else [⟨directionOf side 0, T.toPoint (T.ofTimes (T.sumTotalTimeNs metrics) 0)⟩]

/-- The updates a message from the owning side makes. -/
def owned : FlowMessage → List FlowUpdate
  | .tcpUpdate m =>
    if m.isRx = 0 then
      [⟨directionOf m.side 0, .tcp m.metrics⟩,
        ⟨opposite (directionOf m.side 0), .tcp (rttOnly m.metrics)⟩]
    else [⟨directionOf m.side m.isRx, .tcp (withoutRtts m.metrics)⟩]
  | .udpUpdate m => [⟨directionOf m.side m.isRx, .udp m.metrics⟩]
  | .httpUpdate m => timedOwned httpTimes m.side m.clientServer m.metrics
  | .dnsUpdate m => timedOwned dnsTimes m.side m.clientServer m.metrics

/-- The updates a message from the other side makes. -/
def foreign : FlowMessage → List FlowUpdate
  | .tcpUpdate m =>
    if m.isRx = 0 then [⟨.aToB, .tcp (rttOnly m.metrics)⟩, ⟨.bToA, .tcp (rttOnly m.metrics)⟩]
    else []
  | .udpUpdate _ => []
  | .httpUpdate m => timedForeign httpTimes m.side m.clientServer m.metrics
  | .dnsUpdate m => timedForeign dnsTimes m.side m.clientServer m.metrics

/-- The updates a message makes on a span that `owner` owns. -/
def accounted (owner : FlowSide) (m : FlowMessage) : List FlowUpdate :=
  if m.side = owner then owned m else foreign m

theorem accounted_of_owner {o : FlowSide} {m : FlowMessage} (h : m.side = o) :
    accounted o m = owned m :=
  if_pos h

theorem accounted_of_other {o : FlowSide} {m : FlowMessage} (h : ¬ m.side = o) :
    accounted o m = foreign m :=
  if_neg h

end Accounting

open Accounting

namespace FlowSpan

/-- The owner of the span once `side` has tried to update it. -/
def owner (f : FlowSpan) (side : FlowSide) : FlowSide := f.metricsUpdateSide.getD side

/-- The span once `side` has tried to update it. -/
def claim (f : FlowSpan) (side : FlowSide) : FlowSpan := { metricsUpdateSide := some (f.owner side) }

theorem claim_of_owner {f : FlowSpan} {o : FlowSide} (h : f.metricsUpdateSide = some o)
    (side : FlowSide) : f.claim side = f := by
  cases f
  simp_all [claim, owner]

theorem metricsUpdateDirection_eq (f : FlowSpan) (side : FlowSide) (isRx : UInt8) :
    f.metricsUpdateDirection side isRx =
      (if side = f.owner side then directionOf side isRx else .none, f.claim side) := by
  rcases f with ⟨_ | s⟩
  · simp [metricsUpdateDirection, owner, claim]
  · by_cases h : s = side
    · subst h
      simp [metricsUpdateDirection, owner, claim]
    · simp [metricsUpdateDirection, owner, claim, h, Ne.symm h]

theorem metricsUpdateDirection_force (f : FlowSpan) (side : FlowSide) (isRx : UInt8) :
    f.metricsUpdateDirection side isRx true = (directionOf side isRx, f) := rfl

theorem tcpUpdate_eq (f : FlowSpan) (msg : TcpUpdate) :
    f.tcpUpdate msg = (accounted (f.owner msg.side) (.tcpUpdate msg), f.claim msg.side) := by
  by_cases hown : msg.side = f.owner msg.side
  · rw [accounted_of_owner (m := .tcpUpdate msg) hown]
    simp only [tcpUpdate, metricsUpdateDirection_eq, if_pos hown]
    rcases msg with ⟨side, isRx, metrics⟩
    by_cases hrx : isRx = 0 <;> cases side <;>
      simp [hrx, owned, directionOf, sendIn, opposite, rttOnly, withoutRtts]
  · rw [accounted_of_other (m := .tcpUpdate msg) hown]
    simp only [tcpUpdate, metricsUpdateDirection_eq, if_neg hown]
    by_cases hrx : msg.isRx = 0 <;> simp [hrx, foreign, sendIn, rttOnly]

theorem udpUpdate_eq (f : FlowSpan) (msg : UdpUpdate) :
    f.udpUpdate msg = (accounted (f.owner msg.side) (.udpUpdate msg), f.claim msg.side) := by
  by_cases hown : msg.side = f.owner msg.side
  · rw [accounted_of_owner (m := .udpUpdate msg) hown]
    simp only [udpUpdate, metricsUpdateDirection_eq, if_pos hown]
    rcases msg with ⟨side, isRx, metrics⟩
    by_cases hrx : isRx = 0 <;> cases side <;> simp [hrx, owned, directionOf, sendIn]
  · rw [accounted_of_other (m := .udpUpdate msg) hown]
    simp [udpUpdate, metricsUpdateDirection_eq, if_neg hown, foreign, sendIn]

theorem timedUpdate_eq {P : Type} (T : TimeFields P) (f : FlowSpan) (side : FlowSide)
    (clientServer : UInt8) (metrics : P) :
    timedUpdate T f side clientServer metrics =
      (if side = f.owner side then timedOwned T side clientServer metrics
        else timedForeign T side clientServer metrics, f.claim side) := by
  simp only [timedUpdate, metricsUpdateDirection_eq, metricsUpdateDirection_force]
  by_cases hown : side = f.owner side
  · simp only [if_pos hown]
    by_cases hs : clientServer = scServer <;> cases side <;>
      simp [hs, timedOwned, directionOf, sendIn, Bool.toUInt8]
  · simp only [if_neg hown]
    by_cases hs : clientServer = scServer <;> cases side <;>
      simp [hs, timedForeign, directionOf, sendIn, Bool.toUInt8, T.total_setProcessing,
        T.processing_setProcessing, T.total_setTotal, T.processing_setTotal]

/-- Each message adds what `accounted` says for the owner it leaves the span with. -/
theorem handle_eq (f : FlowSpan) (m : FlowMessage) :
    f.handle m = (accounted (f.owner m.side) m, f.claim m.side) := by
  cases m with
  | tcpUpdate msg => exact tcpUpdate_eq f msg
  | udpUpdate msg => exact udpUpdate_eq f msg
  | httpUpdate msg =>
    rw [handle, httpUpdate, timedUpdate_eq]
    rfl
  | dnsUpdate msg =>
    rw [handle, dnsUpdate, timedUpdate_eq]
    rfl

/-- Once a span has an owner, every message is accounted for it and the span stays as it is. -/
theorem run_of_owner {f : FlowSpan} {o : FlowSide} (h : f.metricsUpdateSide = some o) :
    ∀ ms, f.run ms = (ms.flatMap (accounted o), f)
  | [] => rfl
  | m :: ms => by
    have howner : f.owner m.side = o := by simp [owner, h]
    simp only [run, handle_eq, howner, claim_of_owner h, run_of_owner h ms, List.flatMap_cons]

end FlowSpan

/-- Over every run of a new span, the side of the first message owns it, and each message adds
    what `accounted` says for that owner. -/
theorem flowSpan_accounts_one_side (m : FlowMessage) (ms : List FlowMessage) :
    FlowSpan.new.run (m :: ms) =
      ((m :: ms).flatMap (accounted m.side), { metricsUpdateSide := some m.side }) := by
  have hclaim : FlowSpan.new.claim m.side = { metricsUpdateSide := some m.side } := rfl
  simp only [run, handle_eq, hclaim, run_of_owner (o := m.side) rfl, List.flatMap_cons]
  rfl

/-- The owner's updates are not all accounted in full, to the direction `is_rx = 1` would give: a
    client's HTTP update loses its processing time, and a TCP update from side B with `is_rx = 2`
    counts as received. -/
theorem flowSpan_owner_updates_not_in_full :
    (FlowSpan.new.run
        [.httpUpdate ⟨.sideA, 0, { sumTotalTimeNs := 5, sumProcessingTimeNs := 7 }⟩]).1 =
        [⟨.aToB, .http { sumTotalTimeNs := 5 }⟩] ∧
      (FlowSpan.new.run [.tcpUpdate ⟨.sideB, 2, { sumBytes := 9 }⟩]).1 =
        [⟨.aToB, .tcp { sumBytes := 9 }⟩] := by
  decide

end OtelNetwork.Matching
