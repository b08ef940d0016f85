import Mathlib.Logic.Function.Basic

/-!
# `Aggregator`: the reducer's node-to-node metric aggregation

A model of `crates/reducer/src/aggregator.rs` and of the decoded branches of
`aggregation_message_handler.rs`. An aggregation root, keyed by its queue and `_ref`, holds the
zone and node of each side and two cached references into the node-node store, one per
direction; a metric update goes to the entry its direction's reference names.

`RcHashMap` interns its keys, and a `Ref` to an entry denotes its key: the zone and node stores
are left out and their references are the interned values, and a node-node reference is its
key. Reference counts are left out too. An entry whose last reference is dropped never received
a metric (the first one sets its `keepalive`), so it holds default metrics, and finding it again
gives what inserting it afresh gives. The inserts after a failed `find` cannot fail.

Metric fields are `u64` sums and wrap as the Rust release build does.
-/

namespace OtelNetwork.Aggregation

open Function

/-- `Side`. -/
inductive Side where
  | a
  | b
deriving DecidableEq, Repr

/-- `Direction`. -/
inductive Direction where
  | atoB
  | btoA
deriving DecidableEq, Repr

/-- `AggRootKey`: the queue index and the root's `_ref`. -/
abbrev AggRootKey := Nat × UInt64

/-- `Az`. -/
structure Az where
  az : String
  role : String
  version : String
  env : String
  ns : String
  nodeType : UInt8
  process : String
  container : String
  roleUid : String
deriving DecidableEq, Repr

/-- `Node`. -/
structure Node where
  id : String
  address : String
  podName : String
deriving DecidableEq, Repr

/-- `NodeNodeKey`. -/
structure NodeNodeKey where
  srcAz : Az
  srcNode : Node
  dstAz : Az
  dstNode : Node
deriving DecidableEq, Repr

/-- `AggRoot`; its `Default` has every field `None`. -/
structure AggRoot where
  aNode : Option Node := none
  aAz : Option Az := none
  bNode : Option Node := none
  bAz : Option Az := none
  aToB : Option NodeNodeKey := none
  bToA : Option NodeNodeKey := none
deriving DecidableEq, Repr

/-- `TcpMetrics`. -/
structure TcpMetrics where
  activeSockets : UInt64 := 0
  sumBytes : UInt64 := 0
  sumSrtt : UInt64 := 0
  sumDelivered : UInt64 := 0
  sumRetrans : UInt64 := 0
  activeRtts : UInt64 := 0
  synTimeouts : UInt64 := 0
  newSockets : UInt64 := 0
  tcpResets : UInt64 := 0
deriving DecidableEq, Repr

/-- `TcpMetrics::add_from`. -/
def TcpMetrics.addFrom (self other : TcpMetrics) : TcpMetrics where
  activeSockets := self.activeSockets + other.activeSockets
  sumBytes := self.sumBytes + other.sumBytes
  sumSrtt := self.sumSrtt + other.sumSrtt
  sumDelivered := self.sumDelivered + other.sumDelivered
  sumRetrans := self.sumRetrans + other.sumRetrans
  activeRtts := self.activeRtts + other.activeRtts
  synTimeouts := self.synTimeouts + other.synTimeouts
  newSockets := self.newSockets + other.newSockets
  tcpResets := self.tcpResets + other.tcpResets

/-- `UdpMetrics`. -/
structure UdpMetrics where
  activeSockets : UInt64 := 0
  bytes : UInt64 := 0
  addrChanges : UInt64 := 0
  packets : UInt64 := 0
  drops : UInt64 := 0
deriving DecidableEq, Repr

/-- `UdpMetrics::add_from`. -/
def UdpMetrics.addFrom (self other : UdpMetrics) : UdpMetrics where
  activeSockets := self.activeSockets + other.activeSockets
  bytes := self.bytes + other.bytes
  addrChanges := self.addrChanges + other.addrChanges
  packets := self.packets + other.packets
  drops := self.drops + other.drops

/-- `HttpMetrics`. -/
structure HttpMetrics where
  activeSockets : UInt64 := 0
  sumTotalTimeNs : UInt64 := 0
  sumProcessingTimeNs : UInt64 := 0
  sumCode200 : UInt64 := 0
  sumCode400 : UInt64 := 0
  sumCode500 : UInt64 := 0
  sumCodeOther : UInt64 := 0
deriving DecidableEq, Repr

/-- `HttpMetrics::add_from`. -/
def HttpMetrics.addFrom (self other : HttpMetrics) : HttpMetrics where
  activeSockets := self.activeSockets + other.activeSockets
  sumTotalTimeNs := self.sumTotalTimeNs + other.sumTotalTimeNs
  sumProcessingTimeNs := self.sumProcessingTimeNs + other.sumProcessingTimeNs
  sumCode200 := self.sumCode200 + other.sumCode200
  sumCode400 := self.sumCode400 + other.sumCode400
  sumCode500 := self.sumCode500 + other.sumCode500
  sumCodeOther := self.sumCodeOther + other.sumCodeOther

/-- `DnsMetrics`. -/
structure DnsMetrics where
  activeSockets : UInt64 := 0
  sumTotalTimeNs : UInt64 := 0
  sumProcessingTimeNs : UInt64 := 0
  requestsA : UInt64 := 0
  requestsAaaa : UInt64 := 0
  responses : UInt64 := 0
  timeouts : UInt64 := 0
deriving DecidableEq, Repr

/-- `DnsMetrics::add_from`. -/
def DnsMetrics.addFrom (self other : DnsMetrics) : DnsMetrics where
  activeSockets := self.activeSockets + other.activeSockets
  sumTotalTimeNs := self.sumTotalTimeNs + other.sumTotalTimeNs
  sumProcessingTimeNs := self.sumProcessingTimeNs + other.sumProcessingTimeNs
  requestsA := self.requestsA + other.requestsA
  requestsAaaa := self.requestsAaaa + other.requestsAaaa
  responses := self.responses + other.responses
  timeouts := self.timeouts + other.timeouts

/-- `AllMetrics`; the `*_prev_window_had_samples` flags are read and written by
    `output_metrics` only, which is not modelled. -/
structure AllMetrics where
  tcp : TcpMetrics := {}
  udp : UdpMetrics := {}
  http : HttpMetrics := {}
  dns : DnsMetrics := {}
deriving DecidableEq, Repr

/-- `NodeNodeEntry`; `keepalive` is the entry's reference to itself once it holds a metric. -/
structure NodeNodeEntry where
  metrics : AllMetrics := {}
  keepalive : Option NodeNodeKey := none
deriving DecidableEq, Repr

/-- The two counters of `Counters` that the aggregator itself bumps. -/
structure Counters where
  missingRootForMetric : UInt64 := 0
  metricBeforeSidesResolved : UInt64 := 0
deriving DecidableEq, Repr

/-- `Aggregator`, with the one feature flag `update_node` reads. -/
structure Aggregator where
  events : Counters
  aggRoots : AggRootKey → Option AggRoot
  nodeNodeStore : NodeNodeKey → Option NodeNodeEntry
  disableNodeIpField : Bool

namespace Aggregator

/-- `Aggregator::new`. -/
def new : Aggregator where
  events := {}
  aggRoots := fun _ => none
  nodeNodeStore := fun _ => none
  disableNodeIpField := false

/-- `agg_root_start`: insert or reset the root. -/
def aggRootStart (g : Aggregator) (key : AggRootKey) : Aggregator :=
  { g with aggRoots := update g.aggRoots key (some {}) }

/-- `agg_root_end`: remove the root; its node-node entries stay. -/
def aggRootEnd (g : Aggregator) (key : AggRootKey) : Aggregator :=
  { g with aggRoots := update g.aggRoots key none }

/-- `node_node_store.find(&k)`, or an insert of a default entry when there is none. -/
def findOrInsert (store : NodeNodeKey → Option NodeNodeEntry) (k : NodeNodeKey) :
    NodeNodeKey → Option NodeNodeEntry :=
  match store k with
  | some _ => store
  | none => update store k (some {})

/-- The second half of `update_node`: the root, with one side just set, is stored, and its two
    references are wired if both are unset and both sides are known. -/
def wireRoot (g : Aggregator) (key : AggRootKey) (root : AggRoot) : Aggregator :=
  -- the references are wired once, while both are still unset
  if root.aToB.isNone && root.bToA.isNone then
    match root.aNode, root.aAz, root.bNode, root.bAz with
    | some aNode, some aAz, some bNode, some bAz =>
      let a2bKey : NodeNodeKey := ⟨aAz, aNode, bAz, bNode⟩
      let b2aKey : NodeNodeKey := ⟨bAz, bNode, aAz, aNode⟩
      { g with
        aggRoots := update g.aggRoots key (some { root with aToB := some a2bKey, bToA := some b2aKey })
        nodeNodeStore := findOrInsert (findOrInsert g.nodeNodeStore a2bKey) b2aKey }
    | _, _, _, _ => { g with aggRoots := update g.aggRoots key (some root) }
  else { g with aggRoots := update g.aggRoots key (some root) }

/-- `update_node`. -/
def updateNode (g : Aggregator) (key : AggRootKey) (side : Side) (az : Az) (node : Node) :
    Aggregator :=
  let node := if g.disableNodeIpField then { node with address := "" } else node
  let root := (g.aggRoots key).getD {}
  let root := match side with
    | .a => { root with aAz := some az, aNode := some node }
    | .b => { root with bAz := some az, bNode := some node }
  g.wireRoot key root

/-- `find_node_node_ref`: the cached reference of the direction, and a count of a missing root. -/
def findNodeNodeRef (g : Aggregator) (key : AggRootKey) (dir : Direction) :
    Option NodeNodeKey × Aggregator :=
  match g.aggRoots key with
  | none =>
    (none, { g with events := { g.events with
      missingRootForMetric := g.events.missingRootForMetric + 1 } })
  | some root =>
    let entryRef := match dir with
      | .atoB => root.aToB
      | .btoA => root.bToA
    (entryRef, g)

/-- The body shared by `add_tcp`, `add_udp`, `add_http` and `add_dns`; `addFrom` adds the
    update into the entry's metrics of its protocol. -/
def addMetrics (addFrom : AllMetrics → AllMetrics) (g : Aggregator) (key : AggRootKey)
    (dir : Direction) : Aggregator :=
  match g.findNodeNodeRef key dir with
  | (some entryRef, g) =>
    match g.nodeNodeStore entryRef with
    | some entry =>
      let keepalive := if entry.keepalive.isNone then some entryRef else entry.keepalive
      let entry : NodeNodeEntry := { metrics := addFrom entry.metrics, keepalive := keepalive }
      { g with nodeNodeStore := update g.nodeNodeStore entryRef (some entry) }
    | none => g
  | (none, g) =>
    { g with events := { g.events with
      metricBeforeSidesResolved := g.events.metricBeforeSidesResolved + 1 } }

/-- `add_tcp`. -/
def addTcp (g : Aggregator) (key : AggRootKey) (dir : Direction) (m : TcpMetrics) : Aggregator :=
  addMetrics (fun all => { all with tcp := all.tcp.addFrom m }) g key dir

/-- `add_udp`. -/
def addUdp (g : Aggregator) (key : AggRootKey) (dir : Direction) (m : UdpMetrics) : Aggregator :=
  addMetrics (fun all => { all with udp := all.udp.addFrom m }) g key dir

/-- `add_http`. -/
def addHttp (g : Aggregator) (key : AggRootKey) (dir : Direction) (m : HttpMetrics) :
    Aggregator :=
  addMetrics (fun all => { all with http := all.http.addFrom m }) g key dir

/-- `add_dns`. -/
def addDns (g : Aggregator) (key : AggRootKey) (dir : Direction) (m : DnsMetrics) : Aggregator :=
  addMetrics (fun all => { all with dns := all.dns.addFrom m }) g key dir

end Aggregator

/-- A decoded aggregation message, with the root key `(queue_idx, msg._ref)` it is handled
    under. -/
inductive AggMessage where
  | aggRootStart (key : AggRootKey)
  | aggRootEnd (key : AggRootKey)
  | updateNode (key : AggRootKey) (side : UInt8) (az : Az) (node : Node)
  | updateTcp (key : AggRootKey) (direction : UInt8) (m : TcpMetrics)
  | updateUdp (key : AggRootKey) (direction : UInt8) (m : UdpMetrics)
  | updateHttp (key : AggRootKey) (direction : UInt8) (m : HttpMetrics)
  | updateDns (key : AggRootKey) (direction : UInt8) (m : DnsMetrics)

namespace Aggregator

/-- `msg.direction == 0` is `AtoB`. -/
def direction (d : UInt8) : Direction := if d = 0 then .atoB else .btoA

/-- The `Ok` branches of the `on_*` handlers of `AggregationMessageHandler`. -/
def handle (g : Aggregator) : AggMessage → Aggregator
  | .aggRootStart key => g.aggRootStart key
  | .aggRootEnd key => g.aggRootEnd key
  | .updateNode key side az node => g.updateNode key (if side = 0 then .a else .b) az node
  | .updateTcp key d m => g.addTcp key (direction d) m
  | .updateUdp key d m => g.addUdp key (direction d) m
  | .updateHttp key d m => g.addHttp key (direction d) m
  | .updateDns key d m => g.addDns key (direction d) m

/-- The aggregator after a sequence of messages. -/
def run (g : Aggregator) (msgs : List AggMessage) : Aggregator :=
  msgs.foldl handle g

end Aggregator

end OtelNetwork.Aggregation
