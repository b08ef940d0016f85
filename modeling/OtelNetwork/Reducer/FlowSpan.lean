import Mathlib.Logic.Basic

/-!
# `FlowSpan`: which side of a flow accounts its metrics

A model of the metric updates of `reducer/matching/flow_span.cc`. Both ends of a flow may run an
agent, and each reports the flow's TCP, UDP, HTTP and DNS metrics. To count them once, the span
remembers the side of the first update (`metrics_update_side_`), and `metrics_update_direction`
gives every update from the other side the direction `NONE`. `tcp_update` still sends the RTT
fields of a transmit-side update to the direction its full metrics did not go, and `http_update`
and `dns_update` send the other side's time field alone, in a forced direction.

A call `span_ref.X_a_to_b_update(t, point)` is modelled by what it adds: a `FlowUpdate` of the
`a_to_b` aggregate of protocol `X` by `point`. The timestamp is left out, since no branch reads
it. A message's side is a `FlowSide`, as `u8_to_side` asserts it is 0 or 1; `is_rx` is the
`int` that the callers fill from a `u8` field or from a `bool`.
-/

namespace OtelNetwork.Matching

/-- `FlowSide`. -/
inductive FlowSide where
  | sideA
  | sideB
deriving DecidableEq, Repr

/-- `UpdateDirection`. -/
inductive UpdateDirection where
  | none
  | aToB
  | bToA
deriving DecidableEq, Repr

/-- `tcp_metrics`. -/
structure TcpMetrics where
  activeSockets : UInt32 := 0
  sumRetrans : UInt32 := 0
  sumBytes : UInt64 := 0
  sumSrtt : UInt64 := 0
  sumDelivered : UInt64 := 0
  activeRtts : UInt32 := 0
  synTimeouts : UInt32 := 0
  newSockets : UInt32 := 0
  tcpResets : UInt32 := 0
deriving DecidableEq, Repr

/-- `udp_metrics`. -/
structure UdpMetrics where
  activeSockets : UInt32 := 0
  addrChanges : UInt32 := 0
  packets : UInt32 := 0
  bytes : UInt64 := 0
  drops : UInt32 := 0
deriving DecidableEq, Repr

/-- `http_metrics`. -/
structure HttpMetrics where
  activeSockets : UInt32 := 0
  sumCode200 : UInt32 := 0
  sumCode400 : UInt32 := 0
  sumCode500 : UInt32 := 0
  sumCodeOther : UInt32 := 0
  sumTotalTimeNs : UInt64 := 0
  sumProcessingTimeNs : UInt64 := 0
deriving DecidableEq, Repr

/-- `dns_metrics`. -/
structure DnsMetrics where
  activeSockets : UInt32 := 0
  requestsA : UInt32 := 0
  requestsAaaa : UInt32 := 0
  responses : UInt32 := 0
  timeouts : UInt32 := 0
  sumTotalTimeNs : UInt64 := 0
  sumProcessingTimeNs : UInt64 := 0
deriving DecidableEq, Repr

/-- A metrics point of one of the four protocols. -/
inductive MetricsPoint where
  | tcp (p : TcpMetrics)
  | udp (p : UdpMetrics)
  | http (p : HttpMetrics)
  | dns (p : DnsMetrics)
deriving DecidableEq, Repr

/-- `span_ref.X_a_to_b_update(t, point)` (direction `aToB`) or `X_b_to_a_update(t, point)`. -/
structure FlowUpdate where
  direction : UpdateDirection
  point : MetricsPoint
deriving DecidableEq, Repr

/-- `jsrv_matching__tcp_update`: the side, `is_rx`, and the counters `copy_tcp_metrics` copies. -/
structure TcpUpdate where
  side : FlowSide
  isRx : UInt8
  metrics : TcpMetrics
deriving DecidableEq, Repr

/-- `jsrv_matching__udp_update`. -/
structure UdpUpdate where
  side : FlowSide
  isRx : UInt8
  metrics : UdpMetrics
deriving DecidableEq, Repr

/-- `jsrv_matching__http_update`: `client_server` in place of `is_rx`. -/
structure HttpUpdate where
  side : FlowSide
  clientServer : UInt8
  metrics : HttpMetrics
deriving DecidableEq, Repr

/-- `jsrv_matching__dns_update`. -/
structure DnsUpdate where
  side : FlowSide
  clientServer : UInt8
  metrics : DnsMetrics
deriving DecidableEq, Repr

/-- The metric messages of a flow span. -/
inductive FlowMessage where
  | tcpUpdate (msg : TcpUpdate)
  | udpUpdate (msg : UdpUpdate)
  | httpUpdate (msg : HttpUpdate)
  | dnsUpdate (msg : DnsUpdate)
deriving DecidableEq, Repr

/-- The side a message comes from. -/
def FlowMessage.side : FlowMessage → FlowSide
  | .tcpUpdate msg => msg.side
  | .udpUpdate msg => msg.side
  | .httpUpdate msg => msg.side
  | .dnsUpdate msg => msg.side

/-- `SC_SERVER`; `SC_CLIENT` is 0. -/
def scServer : UInt8 := 1

/-- The time fields of an HTTP or a DNS point, which `http_update` and `dns_update` treat alike,
    with the laws of their setters. -/
structure TimeFields (P : Type) where
  sumTotalTimeNs : P → UInt64
  sumProcessingTimeNs : P → UInt64
  setTotalTimeNs : P → UInt64 → P
  setProcessingTimeNs : P → UInt64 → P
  /-- `{.sum_total_time_ns = t, .sum_processing_time_ns = p}`, every other field zero. -/
  ofTimes : UInt64 → UInt64 → P
  toPoint : P → MetricsPoint
  total_setTotal : ∀ p v, sumTotalTimeNs (setTotalTimeNs p v) = v
  processing_setTotal : ∀ p v, sumProcessingTimeNs (setTotalTimeNs p v) = sumProcessingTimeNs p
  total_setProcessing : ∀ p v, sumTotalTimeNs (setProcessingTimeNs p v) = sumTotalTimeNs p
  processing_setProcessing : ∀ p v, sumProcessingTimeNs (setProcessingTimeNs p v) = v

/-- The fields of `http_metrics`. -/
def httpTimes : TimeFields HttpMetrics where
  sumTotalTimeNs := HttpMetrics.sumTotalTimeNs
  sumProcessingTimeNs := HttpMetrics.sumProcessingTimeNs
  setTotalTimeNs p v := { p with sumTotalTimeNs := v }
  setProcessingTimeNs p v := { p with sumProcessingTimeNs := v }
  ofTimes t p := { sumTotalTimeNs := t, sumProcessingTimeNs := p }
  toPoint := .http
  total_setTotal _ _ := rfl
  processing_setTotal _ _ := rfl
  total_setProcessing _ _ := rfl
  processing_setProcessing _ _ := rfl

/-- The fields of `dns_metrics`. -/
def dnsTimes : TimeFields DnsMetrics where
  sumTotalTimeNs := DnsMetrics.sumTotalTimeNs
  sumProcessingTimeNs := DnsMetrics.sumProcessingTimeNs
  setTotalTimeNs p v := { p with sumTotalTimeNs := v }
  setProcessingTimeNs p v := { p with sumProcessingTimeNs := v }
  ofTimes t p := { sumTotalTimeNs := t, sumProcessingTimeNs := p }
  toPoint := .dns
  total_setTotal _ _ := rfl
  processing_setTotal _ _ := rfl
  total_setProcessing _ _ := rfl
  processing_setProcessing _ _ := rfl

/-- The state of `FlowSpan` that its metric updates read and write. -/
structure FlowSpan where
  metricsUpdateSide : Option FlowSide := none
deriving DecidableEq, Repr

namespace FlowSpan

/-- A new span: no side has sent metrics yet. -/
def new : FlowSpan := {}

/-- The last lines of `metrics_update_direction`: the direction of an update from `side`. -/
def directionOf : FlowSide → UInt8 → UpdateDirection
  | .sideA, isRx => if isRx = 0 then .aToB else .bToA
  | .sideB, isRx => if isRx = 0 then .bToA else .aToB

/-- `metrics_update_direction(side, is_rx, force_both_sides)`. -/
def metricsUpdateDirection (f : FlowSpan) (side : FlowSide) (isRx : UInt8)
    (forceBothSides : Bool := false) : UpdateDirection × FlowSpan :=
  match forceBothSides, f.metricsUpdateSide with
  -- the first side to try gets to send metric updates
  | false, none => (directionOf side isRx, { f with metricsUpdateSide := some side })
  | false, some s => if s ≠ side then (.none, f) else (directionOf side isRx, f)
  | true, _ => (directionOf side isRx, f)

/-- `if (direction == A_TO_B) X_a_to_b_update(point); else if (direction == B_TO_A)
    X_b_to_a_update(point);` -/
def sendIn (direction : UpdateDirection) (point : MetricsPoint) : List FlowUpdate :=
  match direction with
  | .none => []
  | .aToB => [⟨.aToB, point⟩]
  | .bToA => [⟨.bToA, point⟩]

/-- `tcp_update`. -/
def tcpUpdate (f : FlowSpan) (msg : TcpUpdate) : List FlowUpdate × FlowSpan :=
  let (direction, f) := f.metricsUpdateDirection msg.side msg.isRx
  -- RTT measurements of the receiving side are skipped
  let skipRtts := msg.isRx ≠ 0
  let point := if skipRtts then { msg.metrics with sumSrtt := 0, activeRtts := 0 } else msg.metrics
  let rttMetrics : TcpMetrics := { sumSrtt := point.sumSrtt, activeRtts := point.activeRtts }
  let rtt :=
    if skipRtts then []
    else
      match direction with
      | .aToB => [⟨.bToA, .tcp rttMetrics⟩]
      | .bToA => [⟨.aToB, .tcp rttMetrics⟩]
      | .none => [⟨.aToB, .tcp rttMetrics⟩, ⟨.bToA, .tcp rttMetrics⟩]
  (sendIn direction (.tcp point) ++ rtt, f)

/-- `udp_update`. -/
def udpUpdate (f : FlowSpan) (msg : UdpUpdate) : List FlowUpdate × FlowSpan :=
  let (direction, f) := f.metricsUpdateDirection msg.side msg.isRx
  (sendIn direction (.udp msg.metrics), f)

/-- The body of `http_update` and `dns_update`. -/
def timedUpdate {P : Type} (T : TimeFields P) (f : FlowSpan) (side : FlowSide)
    (clientServer : UInt8) (metrics : P) : List FlowUpdate × FlowSpan :=
  let isRx := clientServer == scServer
  let (direction, f) := f.metricsUpdateDirection side isRx.toUInt8
  -- the client never gets processing time, the server never gets total time
  let point :=
    if !isRx then T.setProcessingTimeNs metrics 0 else T.setTotalTimeNs metrics 0
  -- an update the other side also sends keeps only its time fields, in a forced direction
  let (point, direction) :=
    if direction = .none then
      (T.ofTimes (T.sumTotalTimeNs point) (T.sumProcessingTimeNs point),
        (f.metricsUpdateDirection side isRx.toUInt8 true).1)
    else (point, direction)
  (sendIn direction (T.toPoint point), f)

/-- `http_update`. -/
def httpUpdate (f : FlowSpan) (msg : HttpUpdate) : List FlowUpdate × FlowSpan :=
  timedUpdate httpTimes f msg.side msg.clientServer msg.metrics

/-- `dns_update`. -/
def dnsUpdate (f : FlowSpan) (msg : DnsUpdate) : List FlowUpdate × FlowSpan :=
  timedUpdate dnsTimes f msg.side msg.clientServer msg.metrics

/-- One message. -/
def handle (f : FlowSpan) : FlowMessage → List FlowUpdate × FlowSpan
  | .tcpUpdate msg => f.tcpUpdate msg
  | .udpUpdate msg => f.udpUpdate msg
  | .httpUpdate msg => f.httpUpdate msg
  | .dnsUpdate msg => f.dnsUpdate msg

/-- A sequence of messages, and the updates they make in order. -/
def run (f : FlowSpan) : List FlowMessage → List FlowUpdate × FlowSpan
  | [] => ([], f)
  | m :: ms =>
    let (us, f) := f.handle m
    let (us', f) := f.run ms
    (us ++ us', f)

end FlowSpan

end OtelNetwork.Matching
