import OtelNetwork.Render.Parser
import OtelNetwork.Render.PerfectHash

/-!
# The aggregation core's parser

The parser that `AggregationCore::new` (`crates/reducer/src/aggregation_core.rs`) builds for the
`ebpf_net::aggregation` app: `Parser::new(AGGREGATION_HASH_SIZE as usize, aggregation_hash)`, with
the render-generated hash of `crates/render/ebpf_net/aggregation/src/hash.rs`, and then the
registrations of `AggregationMessageHandler::new` (`aggregation_message_handler.rs`), one for the
`metadata()` of each message of `wire_messages.rs`. The boxed closures it registers are named by
the `on_*` method each one calls.
-/

namespace OtelNetwork.Aggregation

open RenderParser Render

/-- `AGGREGATION_HASH_SIZE`. -/
def aggregationHashSize : UInt32 := 16

/-- `G_ARRAY`. -/
def gArray : List UInt8 := [0, 9, 0, 0]

/-- `aggregation_hash`. The index `k >> 30` is below 4, so `G_ARRAY` is read within its
    entries. -/
def aggregationHash (rpcId : UInt32) : UInt32 :=
  let k := (rpcId ^^^ 0) * 2654435761
  let g := (gArray.getD (k >>> 30).toNat 0).toUInt32
  ((k >>> 26) + g) &&& 15

/-- The generator's hash behind `hash.rs`, with the values its header prints. -/
def aggregationPerfectHash : PerfectHash :=
  { nKeys := 8, nBits := 2, gSize := 4, gShift := 30, hashBits := 4, hashShift := 26,
    hashMask := 15, hashSeed := 0, multiplier := 2654435761, gType := .u8, gArray := [0, 9, 0, 0] }

/-- `jb_aggregation__agg_root_start::metadata()`. -/
def aggRootStartMetadata : MessageMetadata := .newFixed 461 16 true

/-- `jb_aggregation__agg_root_end::metadata()`. -/
def aggRootEndMetadata : MessageMetadata := .newFixed 462 16 true

/-- `jb_aggregation__update_node::metadata()`. -/
def updateNodeMetadata : MessageMetadata := .newDynamic 463 true

/-- `jb_aggregation__update_tcp_metrics::metadata()`. -/
def updateTcpMetricsMetadata : MessageMetadata := .newFixed 465 60 true

/-- `jb_aggregation__update_udp_metrics::metadata()`. -/
def updateUdpMetricsMetadata : MessageMetadata := .newFixed 466 36 true

/-- `jb_aggregation__update_http_metrics::metadata()`. -/
def updateHttpMetricsMetadata : MessageMetadata := .newFixed 467 48 true

/-- `jb_aggregation__update_dns_metrics::metadata()`. -/
def updateDnsMetricsMetadata : MessageMetadata := .newFixed 468 48 true

/-- `jb_aggregation__pulse::metadata()`. -/
def pulseMetadata : MessageMetadata := .newFixed 65535 2 true

/-- `all_message_metadata()`. -/
def allMessageMetadata : List MessageMetadata :=
  [aggRootStartMetadata, aggRootEndMetadata, updateNodeMetadata, updateTcpMetricsMetadata,
    updateUdpMetricsMetadata, updateHttpMetricsMetadata, updateDnsMetricsMetadata, pulseMetadata]

/-- A closure that `AggregationMessageHandler::new` registers, by the method it calls. -/
inductive Handler where
  | onAggRootStart
  | onAggRootEnd
  | onUpdateNode
  | onUpdateTcp
  | onUpdateUdp
  | onUpdateHttp
  | onUpdateDns
  | onPulse
deriving DecidableEq, Repr

/-- The registrations of `AggregationMessageHandler::new`, in order. -/
def handlerRegistrations : List (MessageMetadata × Handler) :=
  [(aggRootStartMetadata, .onAggRootStart), (aggRootEndMetadata, .onAggRootEnd),
    (updateNodeMetadata, .onUpdateNode), (updateTcpMetricsMetadata, .onUpdateTcp),
    (updateUdpMetricsMetadata, .onUpdateUdp), (updateHttpMetricsMetadata, .onUpdateHttp),
    (updateDnsMetricsMetadata, .onUpdateDns), (pulseMetadata, .onPulse)]

/-- The parser of `AggregationCore::new`, after `AggregationMessageHandler::new` has registered
    its handlers. -/
def aggregationParser : Except String (Parser Handler) :=
  (Parser.new aggregationHashSize.toNat aggregationHash).addMessages handlerRegistrations

end OtelNetwork.Aggregation
