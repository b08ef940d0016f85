import OtelNetwork.Lib.Wrap
import OtelNetwork.Lib.Rust
import OtelNetwork.Lib.Simulation
import OtelNetwork.Lib.Segments
import OtelNetwork.Lib.Links
import OtelNetwork.Timeslot.VirtualClock
import OtelNetwork.Timeslot.Proofs.VirtualClockProofs
import OtelNetwork.PerfectHashMap.Basic
import OtelNetwork.PerfectHashMap.Spec
import OtelNetwork.PerfectHashMap.Proofs.Refinement
import OtelNetwork.K8s.Matcher
import OtelNetwork.K8s.Proofs.MatcherView
import OtelNetwork.Reducer.QueueHandler
import OtelNetwork.Reducer.Proofs.QueueHandlerProofs
import OtelNetwork.Reducer.Core
import OtelNetwork.Reducer.Proofs.CoreProofs
import OtelNetwork.FixedHash.Basic
import OtelNetwork.FixedHash.Spec
import OtelNetwork.FixedHash.Proofs.PoolProofs
import OtelNetwork.FixedHash.Proofs.Refinement
import OtelNetwork.ElementQueue.Raw
import OtelNetwork.ElementQueue.System
import OtelNetwork.ElementQueue.Proofs.Offsets
import OtelNetwork.Lib.Counter32
import OtelNetwork.ElementQueue.Spec
import OtelNetwork.Lib.BiMap
import OtelNetwork.NatHandler.Basic
import OtelNetwork.NatHandler.Proofs.Tables
import OtelNetwork.NatHandler.Proofs.Remapping
import OtelNetwork.ElementQueue.Proofs.Placement
import OtelNetwork.K8s.Proofs.LiveSet
import OtelNetwork.Reducer.Aggregator
import OtelNetwork.Reducer.Proofs.AggregatorRouting
import OtelNetwork.FixedHash.Lru
import OtelNetwork.FixedHash.LruSpec
import OtelNetwork.FixedHash.Proofs.LruProofs
import OtelNetwork.TDigest.Basic
import OtelNetwork.TDigest.Proofs.Invariant
import OtelNetwork.Reducer.LatencyAccumulator
import OtelNetwork.TDigest.Proofs.Quantile
import OtelNetwork.IterableBitmap.Basic
import OtelNetwork.Lib.Word64
import OtelNetwork.Lib.Enumeration
import OtelNetwork.IterableBitmap.Proofs.Summary
import OtelNetwork.IterableBitmap.Proofs.Iteration
import OtelNetwork.Lib.Cpp
import OtelNetwork.Timeslot.CppVirtualClock
import OtelNetwork.Timeslot.Proofs.CppRefinement
import OtelNetwork.Timeslot.FastDivNew
import OtelNetwork.Timeslot.Proofs.FastDivProofs
import OtelNetwork.Channel.BufferedWriter
import OtelNetwork.Channel.Proofs.BufferedWriterProofs
import OtelNetwork.Lib.StateTriple
import OtelNetwork.Util.CGroupParser
import OtelNetwork.Util.Proofs.CGroupParserProofs
import OtelNetwork.Reducer.FlowSpan
import OtelNetwork.Reducer.Proofs.FlowSpanProofs
import OtelNetwork.ElementQueue.CQueue
import OtelNetwork.ElementQueue.Proofs.CPort
import OtelNetwork.ElementQueue.Proofs.Chain
import OtelNetwork.ElementQueue.Proofs.Fifo
import OtelNetwork.Collector.DnsRequests
import OtelNetwork.Collector.DnsSpec
import OtelNetwork.Collector.Proofs.DnsIndex
import OtelNetwork.Collector.Proofs.DnsRefinement
import OtelNetwork.Collector.ProcessHandler
import OtelNetwork.Collector.Proofs.ProcessHandlerProofs
import OtelNetwork.Render.PerfectHash
import OtelNetwork.Render.Proofs.PerfectHashProofs
import OtelNetwork.Reducer.TsdbFormatter
import OtelNetwork.Reducer.Proofs.TsdbFormatterProofs
import OtelNetwork.Lib.Endian
import OtelNetwork.Render.Parser
import OtelNetwork.Render.Proofs.ParserProofs
import OtelNetwork.Reducer.AggregationParser
import OtelNetwork.Reducer.Proofs.AggregationParserProofs
import OtelNetwork.Lib.GroupBy
import OtelNetwork.Reducer.OutputMetrics
import OtelNetwork.Reducer.Proofs.MetricsAlgebra
import OtelNetwork.Reducer.Proofs.OutputMetricsProofs
