import Mathlib.Data.List.Basic

/-!
# `TsdbFormatter`: the text formats the reducer publishes

A model of `reducer/tsdb_formatter.{h,cc}` and of its Prometheus and JSON implementations
(`prometheus_formatter.cc`, `json_formatter.cc`). A `std::string` is its bytes. The label map
`labels_t` is a `std::map`, listed in its order, which `insert_or_assign` keeps sorted.

The formatters cache the parts of a line that change rarely (the labels, the timestamp) and
recompute them when the flags of `TsdbFormatter` say their inputs changed, or when the cache is
empty. The writer that receives the three parts of a line appends them to its queue.

`fmt`'s formatting of a value, and `strftime` of `gmtime` in the JSON suffix, are left out: a value
is given by the text `fmt` writes for it, and the JSON formatter by the text of a time in seconds.
-/

namespace OtelNetwork.Reducer

/-- The bytes of a `std::string`. -/
abbrev Bytes := List UInt8

/-! ## The bytes the formatters write themselves -/

namespace Byte

def newline : UInt8 := 10
def space : UInt8 := 32
def quote : UInt8 := 34
def comma : UInt8 := 44
def minus : UInt8 := 45
def dot : UInt8 := 46
def zero : UInt8 := 48
def colon : UInt8 := 58
def equals : UInt8 := 61
def upperZ : UInt8 := 90
def underscore : UInt8 := 95
def lbrace : UInt8 := 123
def rbrace : UInt8 := 125

end Byte

/-- The text `aggregation`. -/
def aggregationText : Bytes := [97, 103, 103, 114, 101, 103, 97, 116, 105, 111, 110]

/-- The text `timestamp`. -/
def timestampText : Bytes := [116, 105, 109, 101, 115, 116, 97, 109, 112]

/-- The decimal digits of `n`. -/
def digits (n : Nat) : Bytes := (Nat.toDigits 10 n).map fun c => c.toNat.toUInt8

/-- `std::to_string` of a signed integer. -/
def toDecimal (n : Int) : Bytes :=
  if n < 0 then Byte.minus :: digits n.natAbs else digits n.natAbs

/-- `fmt`'s `{:03}`: the sign, then the digits padded with zeros to three places in all. -/
def zeroPad3 (n : Int) : Bytes :=
  let ds := digits n.natAbs
  if n < 0 then Byte.minus :: (List.replicate (2 - ds.length) Byte.zero ++ ds)
  else List.replicate (3 - ds.length) Byte.zero ++ ds

/-- `integer_time<milliseconds>` of a time in nanoseconds: `duration_cast` truncates toward
    zero. -/
def toMillis (t : Int) : Int := t.tdiv 1000000

/-- `integer_time<seconds>`, and `system_clock::to_time_t`. -/
def toSeconds (t : Int) : Int := t.tdiv 1000000000

/-- The names' sanitization: `c == '.' ? '_' : c`. -/
def sanitize (name : Bytes) : Bytes :=
  name.map fun c => if c = Byte.dot then Byte.underscore else c

/-! ## The label map -/

/-- `labels_t`, a `std::map<std::string, std::string>` listed in its order. -/
abbrev Labels := List (Bytes × Bytes)

/-- `insert_or_assign(name, value)` of the sorted map. -/
def insertOrAssign (labels : Labels) (name value : Bytes) : Labels :=
  match labels with
  | [] => [(name, value)]
  | (n, v) :: labels =>
    if name < n then (name, value) :: (n, v) :: labels
    else if name = n then (name, value) :: labels
    else (n, v) :: insertOrAssign labels name value

/-- `erase(name)`. -/
def erase (labels : Labels) (name : Bytes) : Labels := labels.eraseP fun e => e.1 == name

/-! ## Formatting -/

/-- The `write` lambda of the label formatters: as much of `s` as fits in the buffer after what
    is written, `std::min(len, buff_size - written)` bytes. -/
def boundedWrite (buffSize : Nat) (written s : Bytes) : Bytes :=
  written ++ s.take (buffSize - written.length)

/-- `write_label` of `prom_format_labels`, with the number of labels written before. -/
def promWriteLabel (buffSize : Nat) (acc : Bytes × Nat) (name value : Bytes) : Bytes × Nat :=
  let (written, numLabels) := acc
  let written := if numLabels > 0 then boundedWrite buffSize written [Byte.comma] else written
  let written := boundedWrite buffSize written name
  let written := boundedWrite buffSize written [Byte.equals, Byte.quote]
  let written := boundedWrite buffSize written value
  (boundedWrite buffSize written [Byte.quote], numLabels + 1)

/-- `prom_format_labels`: `{name="value",...}` with the names sanitized. -/
def promFormatLabels (buffSize : Nat) (labels : Labels) : Bytes :=
  let (written, _) := labels.foldl (fun acc e => promWriteLabel buffSize acc (sanitize e.1) e.2)
    (boundedWrite buffSize [] [Byte.lbrace], 0)
  boundedWrite buffSize written [Byte.rbrace]

/-- `prom_format_suffix`: `" {} {}\n"` of the value and the timestamp, cut at the buffer. -/
def promFormatSuffix (bufSize : Nat) (value timestamp : Bytes) : Bytes :=
  ([Byte.space] ++ value ++ [Byte.space] ++ timestamp ++ [Byte.newline]).take bufSize

/-- `json_format_prefix`: `{"aggregation":"<aggregation_label>","<metric>":<value>,`, cut at the
    buffer. -/
def jsonFormatPrefix (bufSize : Nat) (metric aggregationLabel value : Bytes) : Bytes :=
  ([Byte.lbrace, Byte.quote] ++ aggregationText ++ [Byte.quote, Byte.colon, Byte.quote] ++
    aggregationLabel ++ [Byte.quote, Byte.comma, Byte.quote] ++ metric ++ [Byte.quote, Byte.colon] ++
    value ++ [Byte.comma]).take bufSize

/-- `write_label` of `json_format_labels`: `"name":"value",`, nothing for an empty value. -/
def jsonWriteLabel (buffSize : Nat) (written name value : Bytes) : Bytes :=
  if value.isEmpty then written
  else
    let written := boundedWrite buffSize written [Byte.quote]
    let written := boundedWrite buffSize written name
    let written := boundedWrite buffSize written [Byte.quote, Byte.colon, Byte.quote]
    let written := boundedWrite buffSize written value
    boundedWrite buffSize written [Byte.quote, Byte.comma]

/-- `json_format_labels`. -/
def jsonFormatLabels (buffSize : Nat) (labels : Labels) : Bytes :=
  labels.foldl (fun written e => jsonWriteLabel buffSize written e.1 e.2) []

/-- `json_format_suffix`: `"timestamp":"<%FT%T>.<millis:03>Z"}` and a newline, cut at the buffer.
    `isoTime` is the text `strftime` writes for a time in seconds. -/
def jsonFormatSuffix (bufSize : Nat) (isoTime : Int → Bytes) (timestamp : Int) : Bytes :=
  let millis := toMillis timestamp - toSeconds timestamp * 1000
  ([Byte.quote] ++ timestampText ++ [Byte.quote, Byte.colon, Byte.quote] ++
    isoTime (toSeconds timestamp) ++ [Byte.dot] ++ zeroPad3 millis ++
    [Byte.upperZ, Byte.quote, Byte.rbrace, Byte.newline]).take bufSize

/-- The arguments of the virtual `format`. -/
structure FormatArgs where
  metric : Bytes
  value : Bytes
  aggregation : Bytes
  aggregationChanged : Bool
  rollup : Option Int
  rollupChanged : Bool
  labels : Labels
  labelsChanged : Bool
  timestamp : Int
  timestampChanged : Bool
deriving DecidableEq, Repr

/-- The three parts of a line that `format` passes to `Writer::write`. -/
structure Line where
  lead : Bytes
  labels : Bytes
  suffix : Bytes
deriving DecidableEq, Repr

/-- The bytes `Writer::write` puts in its queue. -/
def Line.bytes (l : Line) : Bytes := l.lead ++ l.labels ++ l.suffix

/-- The caches of `PrometheusFormatter`: `labels_`, a view of `labels_buf_`, and
    `timestamp_str_`. -/
structure PrometheusFormatter where
  labels : Bytes
  timestampStr : Bytes
deriving DecidableEq, Repr

namespace PrometheusFormatter

def new : PrometheusFormatter := ⟨[], []⟩

/-- `PrometheusFormatter::format`. -/
def format (f : PrometheusFormatter) (a : FormatArgs) : PrometheusFormatter × Line :=
  let timestampStr :=
    if a.timestampChanged || f.timestampStr.isEmpty then toDecimal (toMillis a.timestamp)
    else f.timestampStr
  let labels :=
    if a.aggregationChanged || a.rollupChanged || a.labelsChanged || f.labels.isEmpty then
      promFormatLabels 8192 a.labels
    else f.labels
  let suffix := promFormatSuffix 64 a.value timestampStr
  (⟨labels, timestampStr⟩, ⟨sanitize a.metric, labels, suffix⟩)

end PrometheusFormatter

/-- The caches of `JsonTsdbFormatter`: `labels_`, `suffix_` and `aggregation_label_`, which
    nothing assigns. -/
structure JsonTsdbFormatter where
  labels : Bytes
  suffix : Bytes
  aggregationLabel : Bytes
deriving DecidableEq, Repr

namespace JsonTsdbFormatter

def new : JsonTsdbFormatter := ⟨[], [], []⟩

/-- `JsonTsdbFormatter::format`. -/
def format (isoTime : Int → Bytes) (f : JsonTsdbFormatter) (a : FormatArgs) :
    JsonTsdbFormatter × Line :=
  let lead := jsonFormatPrefix 512 a.metric f.aggregationLabel a.value
  let labels :=
    if a.labelsChanged || f.labels.isEmpty then jsonFormatLabels 8192 a.labels else f.labels
  let suffix :=
    if a.timestampChanged || f.suffix.isEmpty then jsonFormatSuffix 64 isoTime a.timestamp
    else f.suffix
  (⟨labels, suffix, f.aggregationLabel⟩, ⟨lead, labels, suffix⟩)

end JsonTsdbFormatter

/-! ## The base class -/

/-- The members of `TsdbFormatter`. -/
structure TsdbFormatter where
  aggregation : Bytes
  aggregationChanged : Bool
  rollup : Option Int
  rollupChanged : Bool
  labels : Labels
  labelsChanged : Bool
  timestamp : Int
  timestampChanged : Bool
deriving DecidableEq, Repr

namespace TsdbFormatter

def new : TsdbFormatter := ⟨[], false, none, false, [], false, 0, false⟩

/-- `assign_label`. -/
def assignLabel (f : TsdbFormatter) (name value : Bytes) : TsdbFormatter :=
  { f with labels := insertOrAssign f.labels name value, labelsChanged := true }

/-- `set_aggregation`, which also assigns the label `aggregation`. -/
def setAggregation (f : TsdbFormatter) (aggregation : Bytes) : TsdbFormatter :=
  { f.assignLabel aggregationText aggregation with
    aggregation := aggregation
    aggregationChanged := true }

/-- `set_rollup`. -/
def setRollup (f : TsdbFormatter) (rollup : Option Int) : TsdbFormatter :=
  { f with rollup := rollup, rollupChanged := true }

/-- `set_timestamp`. -/
def setTimestamp (f : TsdbFormatter) (timestamp : Int) : TsdbFormatter :=
  { f with timestamp := timestamp, timestampChanged := true }

/-- `set_labels(labels_t)`. -/
def setLabels (f : TsdbFormatter) (labels : Labels) : TsdbFormatter :=
  { f with labels := labels, labelsChanged := true }

/-- `set_labels` of an initializer list: the labels are assigned one by one. -/
def setLabelsList (f : TsdbFormatter) (labels : List (Bytes × Bytes)) : TsdbFormatter :=
  { labels.foldl (fun f e => f.assignLabel e.1 e.2) { f with labels := [] } with
    labelsChanged := true }

/-- The template `set_labels(Labels const &)`: the labels are cleared, and the non-empty ones of
    `foreach` assigned. -/
def setLabelsFrom (f : TsdbFormatter) (labels : List (Bytes × Bytes)) : TsdbFormatter :=
  labels.foldl (fun f e => if e.2.isEmpty then f else f.assignLabel e.1 e.2) { f with labels := [] }

/-- `remove_label`. -/
def removeLabel (f : TsdbFormatter) (name : Bytes) : TsdbFormatter :=
  { f with labels := erase f.labels name, labelsChanged := true }

/-- `clear_labels`. -/
def clearLabels (f : TsdbFormatter) : TsdbFormatter :=
  { f with labels := [], labelsChanged := true }

/-- What `write` passes to `format`. -/
def args (f : TsdbFormatter) (metric value : Bytes) : FormatArgs :=
  ⟨metric, value, f.aggregation, f.aggregationChanged, f.rollup, f.rollupChanged, f.labels,
    f.labelsChanged, f.timestamp, f.timestampChanged⟩

/-- The flags, cleared after a line is written. -/
def clearChanged (f : TsdbFormatter) : TsdbFormatter :=
  { f with
    aggregationChanged := false
    rollupChanged := false
    labelsChanged := false
    timestampChanged := false }

end TsdbFormatter

/-- The calls of a `TsdbFormatter`. `writeFlowLog` is that of a formatter whose `format_flow_log`
    is the default one, which writes nothing. -/
inductive FormatterCall where
  | setAggregation (aggregation : Bytes)
  | setRollup (rollup : Option Int)
  | setTimestamp (timestamp : Int)
  | setLabels (labels : Labels)
  | setLabelsList (labels : List (Bytes × Bytes))
  | setLabelsFrom (labels : List (Bytes × Bytes))
  | assignLabel (name value : Bytes)
  | removeLabel (name : Bytes)
  | clearLabels
  | write (metric value : Bytes)
  | writeFlowLog
deriving DecidableEq, Repr

/-- A formatter: the base class, the implementation's caches `σ`, and the bytes its writer has
    queued. -/
structure Formatter (σ : Type) where
  tsdb : TsdbFormatter
  cache : σ
  queued : Bytes

namespace Formatter

variable {σ : Type}

def new (cache : σ) : Formatter σ := ⟨TsdbFormatter.new, cache, []⟩

/-- A call, with the implementation's `format`. -/
def step (format : σ → FormatArgs → σ × Line) (s : Formatter σ) : FormatterCall → Formatter σ
  | .setAggregation aggregation => { s with tsdb := s.tsdb.setAggregation aggregation }
  | .setRollup rollup => { s with tsdb := s.tsdb.setRollup rollup }
  | .setTimestamp timestamp => { s with tsdb := s.tsdb.setTimestamp timestamp }
  | .setLabels labels => { s with tsdb := s.tsdb.setLabels labels }
  | .setLabelsList labels => { s with tsdb := s.tsdb.setLabelsList labels }
  | .setLabelsFrom labels => { s with tsdb := s.tsdb.setLabelsFrom labels }
  | .assignLabel name value => { s with tsdb := s.tsdb.assignLabel name value }
  | .removeLabel name => { s with tsdb := s.tsdb.removeLabel name }
  | .clearLabels => { s with tsdb := s.tsdb.clearLabels }
  | .write metric value =>
    let (cache, line) := format s.cache (s.tsdb.args metric value)
    ⟨s.tsdb.clearChanged, cache, s.queued ++ line.bytes⟩
  | .writeFlowLog => { s with tsdb := s.tsdb.clearChanged }

def run (format : σ → FormatArgs → σ × Line) (s : Formatter σ) (calls : List FormatterCall) :
    Formatter σ :=
  calls.foldl (step format) s

end Formatter

end OtelNetwork.Reducer
