import Mathlib.Data.UInt
import OtelNetwork.Reducer.Aggregator
import OtelNetwork.Lib.GroupBy

/-!
# `output_metrics`: the end of a time slot

A model of `Aggregator::output_metrics`, `AllMetrics::add` and `should_emit_any`
(`crates/reducer/src/aggregator.rs`), of `aggregate_with` and `aggregate`
(`aggregation_framework.rs`), of the `is_zero` methods of `metrics.rs` and of
`OtlpExporter::emit_all_metrics` (`otlp_encoding.rs`).

At the end of a slot the aggregator sums the node-node entries into node-az and az-node maps and
the node-az map into an az-az map, emits every series that should emit, and then resets each
entry, remembering which protocols had samples. `Aggregator.lean` leaves out the
`*_prev_window_had_samples` flags of an entry's `AllMetrics`, which the message handlers never
touch; `Windowed` keeps them beside the aggregator, with the two feature flags this function
reads. `HashMap` and `RcHashMap` iteration orders are unspecified, so the orders in which the
store and the three maps are walked are parameters (`IterOrder`). An emission is a call of
`emit_tcp`, `emit_udp`, `emit_http` or `emit_dns`, under the series of its key; the labels that
`to_otlp_labels` renders from the key and the OTLP points each call publishes are left out.

The model keeps an entry whose last reference is dropped; `OutputMetricsProofs` shows that the
cleanup leaves such an entry with default sums and cleared flags, as the entry inserted afresh in
its place has (`cleanup_of_no_samples`).
-/

namespace OtelNetwork.Aggregation

open Function

/-! ## `aggregation_framework.rs` -/

section Framework

variable {E R T : Type} [DecidableEq R]

/-- `aggregate_with`: each item is added by `add` into the entry of its key, made by `init` where
    there is none. -/
def aggregateWith (dest : R → Option T) (iter : List E) (project : E → R) (init : T)
    (add : T → E → T) : R → Option T :=
  iter.foldl (GroupBy.accumulate project add init) dest

/-- `aggregate`: `aggregate_with` into a fresh map, with `T::default`. -/
def aggregate [Inhabited T] (iter : List E) (project : E → R) (add : T → E → T) : R → Option T :=
  aggregateWith (fun _ => none) iter project default add

end Framework

/-! ## `metrics.rs` and `AllMetrics` -/

/-- `TcpMetrics::is_zero`: no samples this window. -/
def TcpMetrics.isZero (m : TcpMetrics) : Bool := m.activeSockets == 0

/-- `UdpMetrics::is_zero`. -/
def UdpMetrics.isZero (m : UdpMetrics) : Bool := m.activeSockets == 0

/-- `HttpMetrics::is_zero`. -/
def HttpMetrics.isZero (m : HttpMetrics) : Bool := m.activeSockets == 0

/-- `DnsMetrics::is_zero`. -/
def DnsMetrics.isZero (m : DnsMetrics) : Bool := m.activeSockets == 0

/-- The `*_prev_window_had_samples` flags of `AllMetrics`. -/
structure PrevWindow where
  tcp : Bool := false
  udp : Bool := false
  http : Bool := false
  dns : Bool := false
deriving DecidableEq, Repr

/-- `AllMetrics` whole: the sums the handlers add into, and the flags of the window before. -/
structure WindowMetrics where
  sums : AllMetrics := {}
  prev : PrevWindow := {}
deriving DecidableEq, Repr

/-- `AllMetrics::default()`. -/
instance : Inhabited WindowMetrics := ⟨{}⟩

/-- `AllMetrics::add`. -/
def WindowMetrics.add (self other : WindowMetrics) : WindowMetrics where
  sums :=
    { tcp := self.sums.tcp.addFrom other.sums.tcp
      udp := self.sums.udp.addFrom other.sums.udp
      http := self.sums.http.addFrom other.sums.http
      dns := self.sums.dns.addFrom other.sums.dns }
  prev :=
    { tcp := self.prev.tcp || other.prev.tcp
      udp := self.prev.udp || other.prev.udp
      http := self.prev.http || other.prev.http
      dns := self.prev.dns || other.prev.dns }

/-- `AllMetrics::should_emit_any`. -/
def WindowMetrics.shouldEmitAny (m : WindowMetrics) : Bool :=
  let tcpEmit := !m.sums.tcp.isZero || m.prev.tcp
  let udpEmit := !m.sums.udp.isZero || m.prev.udp
  let httpEmit := !m.sums.http.isZero || m.prev.http
  let dnsEmit := !m.sums.dns.isZero || m.prev.dns
  tcpEmit || udpEmit || httpEmit || dnsEmit

/-! ## Keys and emissions -/

/-- `NodeAzKey`. -/
structure NodeAzKey where
  srcAz : Az
  srcNode : Node
  dstAz : Az
deriving DecidableEq, Repr

/-- `AzNodeKey`. -/
structure AzNodeKey where
  srcAz : Az
  dstNode : Node
  dstAz : Az
deriving DecidableEq, Repr

/-- `AzAzKey`. -/
structure AzAzKey where
  srcAz : Az
  dstAz : Az
deriving DecidableEq, Repr

/-- The series an emission goes to: a key, and the `aggregation` label of its kind. -/
inductive Series where
  | idId (k : NodeNodeKey)
  | idAz (k : NodeAzKey)
  | azId (k : AzNodeKey)
  | azAz (k : AzAzKey)
deriving DecidableEq, Repr

/-- The metrics one of `emit_tcp`, `emit_udp`, `emit_http` and `emit_dns` publishes. -/
inductive Emission where
  | tcp (m : TcpMetrics)
  | udp (m : UdpMetrics)
  | http (m : HttpMetrics)
  | dns (m : DnsMetrics)
deriving DecidableEq, Repr

/-- One `emit_*` call: its timestamp, series and metrics. -/
structure Emitted where
  ts : Int64
  series : Series
  emission : Emission
deriving DecidableEq, Repr

/-- `OtlpExporter::emit_all_metrics`: each protocol with samples in this window or the one
    before. -/
def emitAllMetrics (ts : Int64) (series : Series) (m : WindowMetrics) : List Emitted :=
  (if !m.sums.tcp.isZero || m.prev.tcp then [⟨ts, series, .tcp m.sums.tcp⟩] else []) ++
  (if !m.sums.udp.isZero || m.prev.udp then [⟨ts, series, .udp m.sums.udp⟩] else []) ++
  (if !m.sums.http.isZero || m.prev.http then [⟨ts, series, .http m.sums.http⟩] else []) ++
  (if !m.sums.dns.isZero || m.prev.dns then [⟨ts, series, .dns m.sums.dns⟩] else [])

/-- The body of the four emitting loops of `output_metrics`: each entry that should emit any goes
    to `emit_all_metrics` under its series. -/
def emitSeries {K : Type} (ts : Int64) (series : K → Series) (items : List (K × WindowMetrics)) :
    List Emitted :=
  items.flatMap fun it => if !it.2.shouldEmitAny then [] else emitAllMetrics ts (series it.1) it.2

/-! ## The rollups -/

/-- The projection of `node_az_map`. -/
def NodeNodeKey.nodeAz (k : NodeNodeKey) : NodeAzKey := ⟨k.srcAz, k.srcNode, k.dstAz⟩

/-- The projection of `az_node_map`. -/
def NodeNodeKey.azNode (k : NodeNodeKey) : AzNodeKey := ⟨k.srcAz, k.dstNode, k.dstAz⟩

/-- The projection of `az_az_map`, from a node-az key. -/
def NodeAzKey.azAz (k : NodeAzKey) : AzAzKey := ⟨k.srcAz, k.dstAz⟩

/-- `node_az_map`, aggregated from the node-node entries. -/
def nodeAzMap (items : List (NodeNodeKey × WindowMetrics)) : NodeAzKey → Option WindowMetrics :=
  aggregate items (fun it => it.1.nodeAz) fun t it => t.add it.2

/-- `az_node_map`, aggregated from the node-node entries. -/
def azNodeMap (items : List (NodeNodeKey × WindowMetrics)) : AzNodeKey → Option WindowMetrics :=
  aggregate items (fun it => it.1.azNode) fun t it => t.add it.2

/-- `az_az_map`, aggregated from `node_az_map` walked along `order`. -/
def azAzMap (nodeAz : NodeAzKey → Option WindowMetrics) (order : List NodeAzKey) :
    AzAzKey → Option WindowMetrics :=
  aggregate (GroupBy.entries nodeAz order) (fun it => it.1.azAz) fun t it => t.add it.2

/-! ## The aggregator across windows -/

/-- The orders in which `output_metrics` walks the node-node store and the three maps. -/
structure IterOrder where
  nodeNode : List NodeNodeKey
  nodeAz : List NodeAzKey
  azNode : List AzNodeKey
  azAz : List AzAzKey

/-- The aggregator with the flags of its entries' `AllMetrics` and its flags `enable_id_id` and
    `enable_az_id`. -/
structure Windowed where
  agg : Aggregator
  prev : NodeNodeKey → PrevWindow
  enableIdId : Bool
  enableAzId : Bool

namespace Windowed

/-- `AggregationCore::new`: `Aggregator::new()` with the three flags set. -/
def new (enableIdId enableAzId disableNodeIpField : Bool) : Windowed where
  agg := { Aggregator.new with disableNodeIpField }
  prev := fun _ => {}
  enableIdId
  enableAzId

/-- The `AllMetrics` of the entry of a key. -/
def metricsAt (w : Windowed) (k : NodeNodeKey) : Option WindowMetrics :=
  (w.agg.nodeNodeStore k).map fun e => ⟨e.metrics, w.prev k⟩

/-- The body of the cleanup loop: the sums reset, the flags set to the protocols that had samples,
    and the keepalive dropped when none had. -/
def cleanupEntry (e : NodeNodeEntry) : NodeNodeEntry × PrevWindow :=
  let hadTcp := !e.metrics.tcp.isZero
  let hadUdp := !e.metrics.udp.isZero
  let hadHttp := !e.metrics.http.isZero
  let hadDns := !e.metrics.dns.isZero
  let next : PrevWindow := { tcp := hadTcp, udp := hadUdp, http := hadHttp, dns := hadDns }
  let keepalive := if !(hadTcp || hadUdp || hadHttp || hadDns) then none else e.keepalive
  ({ metrics := {}, keepalive }, next)

/-- The cleanup loop: `iter_mut` visits each entry once, and its body changes that entry alone. -/
def cleanup (w : Windowed) : Windowed :=
  { w with
    agg := { w.agg with
      nodeNodeStore := fun k => (w.agg.nodeNodeStore k).map fun e => (cleanupEntry e).1 }
    prev := fun k =>
      match w.agg.nodeNodeStore k with
      | some e => (cleanupEntry e).2
      | none => w.prev k }

/-- `Aggregator::output_metrics`: the emissions, in order, and the aggregator after the cleanup;
    `exporter.flush()` is left out. -/
def outputMetrics (w : Windowed) (order : IterOrder) (windowEndNs : UInt64) :
    List Emitted × Windowed :=
  let ts := windowEndNs.toInt64
  let items := GroupBy.entries w.metricsAt order.nodeNode
  let maps := if w.enableAzId then
      let nodeAz := nodeAzMap items
      some (nodeAz, azNodeMap items, azAzMap nodeAz order.nodeAz)
    else none
  let idId := if w.enableIdId then emitSeries ts .idId items else []
  let rollups := match maps with
    | some (nodeAz, azNode, azAz) =>
      emitSeries ts .idAz (GroupBy.entries nodeAz order.nodeAz) ++
        emitSeries ts .azId (GroupBy.entries azNode order.azNode) ++
        emitSeries ts .azAz (GroupBy.entries azAz order.azAz)
    | none => []
  (idId ++ rollups, w.cleanup)

/-- What the aggregation core hands the aggregator: a decoded message, or the end of a time slot
    with the orders its maps are walked in. -/
inductive Event where
  | message (msg : AggMessage)
  | windowEnd (windowEndNs : UInt64) (order : IterOrder)

/-- One event: a message goes to its handler, which keeps the flags. -/
def step (w : Windowed) : Event → List Emitted × Windowed
  | .message msg => ([], { w with agg := w.agg.handle msg })
  | .windowEnd windowEndNs order => w.outputMetrics order windowEndNs

/-- The emissions of a sequence of events, in order, and the aggregator after them. -/
def run (w : Windowed) : List Event → List Emitted × Windowed
  | [] => ([], w)
  | ev :: evs =>
    let (out, w) := w.step ev
    let (rest, w) := w.run evs
    (out ++ rest, w)

end Windowed

end OtelNetwork.Aggregation
