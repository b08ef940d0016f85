import OtelNetwork.Reducer.TsdbFormatter
import OtelNetwork.Lib.Simulation

/-!
# The formatters' caches, and what a label value does to a line

The base class raises a flag with every change it makes to the labels or the timestamp
(`Flagged`), except in two calls that nothing in the reducer makes: `write_flow_log` clears the
flags of a formatter whose `format_flow_log` writes nothing, and the template `set_labels`
raises no flag when it assigns no label. Over every run of the other calls, each formatter's
caches hold what they cache, or nothing, whenever the flags say their input did not change
(`Coherent`), so the formatters write the same bytes as formatters that compute every line
afresh (`run_agrees`).

A label value is copied into the line as it is: one that holds a newline splits the line.
-/

namespace OtelNetwork.Reducer

open Simulation

/-! ## The cache pattern -/

/-- A cache recomputed when its input changed or when it is empty holds the fresh value, if it
    held it, or nothing, whenever its input did not change. -/
theorem refresh_eq {α : Type} {changed : Bool} {cell fresh : List α}
    (h : changed = false → cell = fresh ∨ cell = []) :
    (if changed || cell.isEmpty then fresh else cell) = fresh := by
  cases hc : changed
  · rcases h hc with rfl | rfl <;> simp
  · simp

/-! ## The flags of the base class -/

/-- The calls after which the caches can be trusted. -/
def FormatterCall.KeepsCaches : FormatterCall → Prop
  | .setLabelsFrom labels => ∃ e ∈ labels, e.2 ≠ []
  | .writeFlowLog => False
  | _ => True

instance : DecidablePred FormatterCall.KeepsCaches := fun c => by
  cases c <;> unfold FormatterCall.KeepsCaches <;> infer_instance

/-- What a call other than `write` does to the base class. -/
def FormatterCall.apply (t : TsdbFormatter) : FormatterCall → TsdbFormatter
  | .setAggregation aggregation => t.setAggregation aggregation
  | .setRollup rollup => t.setRollup rollup
  | .setTimestamp timestamp => t.setTimestamp timestamp
  | .setLabels labels => t.setLabels labels
  | .setLabelsList labels => t.setLabelsList labels
  | .setLabelsFrom labels => t.setLabelsFrom labels
  | .assignLabel name value => t.assignLabel name value
  | .removeLabel name => t.removeLabel name
  | .clearLabels => t.clearLabels
  | .write _ _ => t
  | .writeFlowLog => t.clearChanged

theorem step_of_ne_write {σ : Type} (format : σ → FormatArgs → σ × Line) (s : Formatter σ)
    {call : FormatterCall} (hw : ∀ m v, call ≠ .write m v) :
    Formatter.step format s call = { s with tsdb := call.apply s.tsdb } := by
  cases call with
  | write m v => exact absurd rfl (hw m v)
  | _ => rfl

/-- `t'` differs from `t` in its labels, or in its timestamp, only where it raised the flag. -/
structure Flagged (t t' : TsdbFormatter) : Prop where
  labels : t'.labelsChanged = true ∨ t'.labels = t.labels ∧ t'.labelsChanged = t.labelsChanged
  timestamp : t'.timestampChanged = true ∨
    t'.timestamp = t.timestamp ∧ t'.timestampChanged = t.timestampChanged

theorem Flagged.of_labelsChanged {t t' : TsdbFormatter} (hl : t'.labelsChanged = true)
    (ht : t'.timestamp = t.timestamp) (htc : t'.timestampChanged = t.timestampChanged) :
    Flagged t t' :=
  ⟨.inl hl, .inr ⟨ht, htc⟩⟩

/-- A loop over labels whose body keeps the timestamp and its flag keeps them. -/
theorem foldl_keeps_timestamp {g : TsdbFormatter → Bytes × Bytes → TsdbFormatter}
    (hg : ∀ t e, (g t e).timestamp = t.timestamp ∧ (g t e).timestampChanged = t.timestampChanged) :
    ∀ (labels : List (Bytes × Bytes)) (t : TsdbFormatter),
      (labels.foldl g t).timestamp = t.timestamp ∧
        (labels.foldl g t).timestampChanged = t.timestampChanged
  | [], _ => ⟨rfl, rfl⟩
  | e :: labels, t => by
    obtain ⟨ht, htc⟩ := foldl_keeps_timestamp hg labels (g t e)
    rw [List.foldl_cons, ht, htc]
    exact hg t e

/-- The loop of the template `set_labels` raises the labels' flag if it assigns a label or the
    flag was up. -/
theorem foldl_setLabelsFrom_labelsChanged :
    ∀ (labels : List (Bytes × Bytes)) (t : TsdbFormatter),
      (∃ e ∈ labels, e.2 ≠ []) ∨ t.labelsChanged = true →
        (labels.foldl (fun f e => if e.2.isEmpty then f else f.assignLabel e.1 e.2) t).labelsChanged
          = true
  | [], _, h => by
    rcases h with ⟨_, he, _⟩ | h
    · cases he
    · exact h
  | e :: labels, t, h => by
    rw [List.foldl_cons]
    refine foldl_setLabelsFrom_labelsChanged labels _ ?_
    by_cases he : e.2 = []
    · -- an empty value is skipped: the label that raises the flag comes later, or it was up
      rw [he, List.isEmpty_nil, if_pos rfl]
      rcases h with ⟨e', he', hne⟩ | h
      · rcases List.mem_cons.mp he' with rfl | he'
        · exact absurd he hne
        · exact .inl ⟨e', he', hne⟩
      · exact .inr h
    · rw [if_neg (by simpa using he)]
      exact .inr rfl

/-- Every call that keeps the caches raises the flag of what it changes. -/
theorem flagged_apply (t : TsdbFormatter) {call : FormatterCall} (hc : call.KeepsCaches)
    (hw : ∀ m v, call ≠ .write m v) : Flagged t (call.apply t) := by
  have hassign : ∀ (t : TsdbFormatter) (e : Bytes × Bytes),
      (t.assignLabel e.1 e.2).timestamp = t.timestamp ∧
        (t.assignLabel e.1 e.2).timestampChanged = t.timestampChanged := fun _ _ => ⟨rfl, rfl⟩
  cases call with
  | setAggregation _ | setLabels _ | assignLabel _ _ | removeLabel _ | clearLabels =>
    exact .of_labelsChanged rfl rfl rfl
  | setRollup _ => exact ⟨.inr ⟨rfl, rfl⟩, .inr ⟨rfl, rfl⟩⟩
  | setTimestamp _ => exact ⟨.inr ⟨rfl, rfl⟩, .inl rfl⟩
  | setLabelsList labels =>
    obtain ⟨ht, htc⟩ := foldl_keeps_timestamp hassign labels { t with labels := [] }
    exact .of_labelsChanged rfl ht htc
  | setLabelsFrom labels =>
    have hskip : ∀ (t : TsdbFormatter) (e : Bytes × Bytes),
        (if e.2.isEmpty then t else t.assignLabel e.1 e.2).timestamp = t.timestamp ∧
          (if e.2.isEmpty then t else t.assignLabel e.1 e.2).timestampChanged =
            t.timestampChanged := by
      intro t e
      split <;> exact ⟨rfl, rfl⟩
    obtain ⟨ht, htc⟩ := foldl_keeps_timestamp hskip labels { t with labels := [] }
    exact .of_labelsChanged (foldl_setLabelsFrom_labelsChanged labels _ (.inl hc)) ht htc
  | write m v => exact absurd rfl (hw m v)
  | writeFlowLog => exact hc.elim

/-! ## Caches that agree with the lines they stand for -/

section Agreement

variable {σ : Type} {format : σ → FormatArgs → σ × Line} (render : FormatArgs → Line)
  (Coh : TsdbFormatter → σ → Prop)

/-- The formatter that computes every line afresh. -/
def plainFormat (_ : Unit) (a : FormatArgs) : Unit × Line := ((), render a)

/-- A formatter and a plain one with the same base class and queue, whose caches are coherent
    with the base class. -/
def Agree (s : Formatter σ) (t : Formatter Unit) : Prop :=
  s.tsdb = t.tsdb ∧ s.queued = t.queued ∧ Coh s.tsdb s.cache

variable {render Coh}

theorem Agree.step (hflag : ∀ t t' c, Coh t c → Flagged t t' → Coh t' c)
    (hwrite : ∀ t c m v, Coh t c →
      (format c (t.args m v)).2 = render (t.args m v) ∧ Coh t.clearChanged (format c (t.args m v)).1)
    {s : Formatter σ} {t : Formatter Unit} (h : Agree Coh s t) {call : FormatterCall}
    (hc : call.KeepsCaches) :
    Agree Coh (Formatter.step format s call) (Formatter.step (plainFormat render) t call) := by
  obtain ⟨htsdb, hqueued, hcoh⟩ := h
  by_cases hw : ∃ m v, call = .write m v
  · -- a write: the cached line is the fresh one, and the caches hold what they cache
    obtain ⟨m, v, rfl⟩ := hw
    obtain ⟨hline, hcoh'⟩ := hwrite s.tsdb s.cache m v hcoh
    refine ⟨by simp [Formatter.step, htsdb], ?_, hcoh'⟩
    simp only [Formatter.step, plainFormat, ← htsdb, hline, hqueued]
  · have hw' : ∀ m v, call ≠ .write m v := fun m v h => hw ⟨m, v, h⟩
    rw [step_of_ne_write _ _ hw', step_of_ne_write _ _ hw']
    exact ⟨by rw [htsdb], hqueued, hflag _ _ _ hcoh (flagged_apply _ hc hw')⟩

/-- Over every run of calls that keep the caches, a formatter whose caches are coherent queues
    the bytes of the formatter that computes every line afresh. -/
theorem run_agrees (hflag : ∀ t t' c, Coh t c → Flagged t t' → Coh t' c)
    (hwrite : ∀ t c m v, Coh t c →
      (format c (t.args m v)).2 = render (t.args m v) ∧ Coh t.clearChanged (format c (t.args m v)).1)
    (calls : List FormatterCall) (hcalls : ∀ c ∈ calls, c.KeepsCaches) (s : Formatter σ)
    (hs : Coh s.tsdb s.cache) :
    (Formatter.run format s calls).queued =
      (Formatter.run (plainFormat render) ⟨s.tsdb, (), s.queued⟩ calls).queued :=
  (@foldl_lockstep (Formatter σ) (Formatter Unit) FormatterCall (Formatter.step format)
    (Formatter.step (plainFormat render)) FormatterCall.KeepsCaches (Agree Coh)
    (fun _ _ _ h hc => h.step hflag hwrite hc) calls s ⟨s.tsdb, (), s.queued⟩ ⟨rfl, rfl, hs⟩
    hcalls).2.1

end Agreement

/-! ## `PrometheusFormatter` -/

namespace PrometheusFormatter

/-- The line of a write, computed afresh. -/
def render (a : FormatArgs) : Line :=
  ⟨sanitize a.metric, promFormatLabels 8192 a.labels,
    promFormatSuffix 64 a.value (toDecimal (toMillis a.timestamp))⟩

/-- `labels_` and `timestamp_str_` hold what they cache, or nothing, unless the base class says
    their input changed. -/
structure Coherent (t : TsdbFormatter) (c : PrometheusFormatter) : Prop where
  labels : t.labelsChanged = false → c.labels = promFormatLabels 8192 t.labels ∨ c.labels = []
  timestampStr : t.timestampChanged = false →
    c.timestampStr = toDecimal (toMillis t.timestamp) ∨ c.timestampStr = []

theorem Coherent.flagged {t t' : TsdbFormatter} {c : PrometheusFormatter} (h : Coherent t c)
    (hf : Flagged t t') : Coherent t' c := by
  constructor
  · intro hl
    rcases hf.labels with hl' | ⟨heq, hch⟩
    · rw [hl] at hl'
      cases hl'
    · rw [heq]
      exact h.labels (hch ▸ hl)
  · intro ht
    rcases hf.timestamp with ht' | ⟨heq, hch⟩
    · rw [ht] at ht'
      cases ht'
    · rw [heq]
      exact h.timestampStr (hch ▸ ht)

theorem Coherent.format {t : TsdbFormatter} {c : PrometheusFormatter} (h : Coherent t c)
    (m v : Bytes) :
    (c.format (t.args m v)).2 = render (t.args m v) ∧
      Coherent t.clearChanged (c.format (t.args m v)).1 := by
  have hts : (if (t.args m v).timestampChanged || c.timestampStr.isEmpty then
      toDecimal (toMillis (t.args m v).timestamp) else c.timestampStr) =
      toDecimal (toMillis t.timestamp) := refresh_eq h.timestampStr
  have hl : (if (t.args m v).aggregationChanged || (t.args m v).rollupChanged ||
      (t.args m v).labelsChanged || c.labels.isEmpty then
      promFormatLabels 8192 (t.args m v).labels else c.labels) = promFormatLabels 8192 t.labels := by
    -- the labels are also recomputed when the aggregation or the rollup changed
    refine refresh_eq fun hf => h.labels ?_
    simp only [Bool.or_eq_false_iff] at hf
    exact hf.2
  simp only [PrometheusFormatter.format, hts, hl]
  exact ⟨rfl, fun _ => .inl rfl, fun _ => .inl rfl⟩

theorem coherent_new : Coherent TsdbFormatter.new new :=
  ⟨fun _ => .inr rfl, fun _ => .inr rfl⟩

end PrometheusFormatter

/-- Over every run of calls that keep the caches, `PrometheusFormatter` queues the bytes of the
    formatter that computes each line afresh from the base class. -/
theorem prometheusFormatter_cache_agrees (calls : List FormatterCall)
    (hcalls : ∀ c ∈ calls, c.KeepsCaches) :
    (Formatter.run PrometheusFormatter.format (Formatter.new PrometheusFormatter.new) calls).queued =
      (Formatter.run (plainFormat PrometheusFormatter.render) (Formatter.new ()) calls).queued :=
  run_agrees (fun _ _ _ h hf => h.flagged hf) (fun _ _ m v h => h.format m v) calls hcalls _
    PrometheusFormatter.coherent_new

/-- Two writes around a relabelling, the second through the template `set_labels` with one empty
    value. -/
theorem prometheusFormatter_cache_agrees_of_relabel :
    (∀ c ∈ [FormatterCall.setLabels [([104], [97])], .setTimestamp 1000000, .write [109] [49],
      .setLabelsFrom [([104], [98]), ([105], [])], .write [109] [50]], c.KeepsCaches) ∧
    (Formatter.run PrometheusFormatter.format (Formatter.new PrometheusFormatter.new)
        [.setLabels [([104], [97])], .setTimestamp 1000000, .write [109] [49],
          .setLabelsFrom [([104], [98]), ([105], [])], .write [109] [50]]).queued =
      (Formatter.run (plainFormat PrometheusFormatter.render) (Formatter.new ())
        [.setLabels [([104], [97])], .setTimestamp 1000000, .write [109] [49],
          .setLabelsFrom [([104], [98]), ([105], [])], .write [109] [50]]).queued :=
  ⟨by decide, prometheusFormatter_cache_agrees _ (by decide)⟩

/-! ## `JsonTsdbFormatter` -/

namespace JsonTsdbFormatter

variable (isoTime : Int → Bytes)

/-- The line of a write, computed afresh, with the aggregation label nothing assigns. -/
def render (a : FormatArgs) : Line :=
  ⟨jsonFormatPrefix 512 a.metric [] a.value, jsonFormatLabels 8192 a.labels,
    jsonFormatSuffix 64 isoTime a.timestamp⟩

/-- `labels_` and `suffix_` hold what they cache, or nothing, unless the base class says their
    input changed, and `aggregation_label_` is empty. -/
structure Coherent (t : TsdbFormatter) (c : JsonTsdbFormatter) : Prop where
  labels : t.labelsChanged = false → c.labels = jsonFormatLabels 8192 t.labels ∨ c.labels = []
  suffix : t.timestampChanged = false →
    c.suffix = jsonFormatSuffix 64 isoTime t.timestamp ∨ c.suffix = []
  aggregationLabel : c.aggregationLabel = []

variable {isoTime}

theorem Coherent.flagged {t t' : TsdbFormatter} {c : JsonTsdbFormatter}
    (h : Coherent isoTime t c) (hf : Flagged t t') : Coherent isoTime t' c := by
  refine ⟨?_, ?_, h.aggregationLabel⟩
  · intro hl
    rcases hf.labels with hl' | ⟨heq, hch⟩
    · rw [hl] at hl'
      cases hl'
    · rw [heq]
      exact h.labels (hch ▸ hl)
  · intro ht
    rcases hf.timestamp with ht' | ⟨heq, hch⟩
    · rw [ht] at ht'
      cases ht'
    · rw [heq]
      exact h.suffix (hch ▸ ht)

theorem Coherent.format {t : TsdbFormatter} {c : JsonTsdbFormatter} (h : Coherent isoTime t c)
    (m v : Bytes) :
    (c.format isoTime (t.args m v)).2 = render isoTime (t.args m v) ∧
      Coherent isoTime t.clearChanged (c.format isoTime (t.args m v)).1 := by
  have hs : (if (t.args m v).timestampChanged || c.suffix.isEmpty then
      jsonFormatSuffix 64 isoTime (t.args m v).timestamp else c.suffix) =
      jsonFormatSuffix 64 isoTime t.timestamp := refresh_eq h.suffix
  have hl : (if (t.args m v).labelsChanged || c.labels.isEmpty then
      jsonFormatLabels 8192 (t.args m v).labels else c.labels) = jsonFormatLabels 8192 t.labels :=
    refresh_eq h.labels
  simp only [JsonTsdbFormatter.format, hs, hl, h.aggregationLabel]
  exact ⟨rfl, fun _ => .inl rfl, fun _ => .inl rfl, rfl⟩

theorem coherent_new : Coherent isoTime TsdbFormatter.new new :=
  ⟨fun _ => .inr rfl, fun _ => .inr rfl, rfl⟩

end JsonTsdbFormatter

/-- Over every run of calls that keep the caches, `JsonTsdbFormatter` queues the bytes of the
    formatter that computes each line afresh from the base class, with an empty aggregation
    label. -/
theorem jsonTsdbFormatter_cache_agrees (isoTime : Int → Bytes) (calls : List FormatterCall)
    (hcalls : ∀ c ∈ calls, c.KeepsCaches) :
    (Formatter.run (JsonTsdbFormatter.format isoTime) (Formatter.new JsonTsdbFormatter.new)
        calls).queued =
      (Formatter.run (plainFormat (JsonTsdbFormatter.render isoTime)) (Formatter.new ())
        calls).queued :=
  run_agrees (fun _ _ _ h hf => h.flagged hf) (fun _ _ m v h => h.format m v) calls hcalls _
    JsonTsdbFormatter.coherent_new

/-- The same calls, with no ISO time text. -/
theorem jsonTsdbFormatter_cache_agrees_of_relabel :
    (∀ c ∈ [FormatterCall.setLabels [([104], [97])], .setTimestamp 1000000, .write [109] [49],
      .setLabelsFrom [([104], [98]), ([105], [])], .write [109] [50]], c.KeepsCaches) ∧
    (Formatter.run (JsonTsdbFormatter.format fun _ => []) (Formatter.new JsonTsdbFormatter.new)
        [.setLabels [([104], [97])], .setTimestamp 1000000, .write [109] [49],
          .setLabelsFrom [([104], [98]), ([105], [])], .write [109] [50]]).queued =
      (Formatter.run (plainFormat (JsonTsdbFormatter.render fun _ => [])) (Formatter.new ())
        [.setLabels [([104], [97])], .setTimestamp 1000000, .write [109] [49],
          .setLabelsFrom [([104], [98]), ([105], [])], .write [109] [50]]).queued :=
  ⟨by decide, jsonTsdbFormatter_cache_agrees _ _ (by decide)⟩

/-! ## A label value in a line -/

/-- The label `host` with the value `a`, newline, `b`, a timestamp of one millisecond, and a
    write of the metric `m` with the value `1`: both formatters copy the newline into the line. -/
theorem tsdbFormatters_copy_newline_into_line :
    (Formatter.run PrometheusFormatter.format (Formatter.new PrometheusFormatter.new)
        [.setLabels [([104, 111, 115, 116], [97, 10, 98])], .setTimestamp 1000000,
          .write [109] [49]]).queued =
      [109, 123, 104, 111, 115, 116, 61, 34, 97, 10, 98, 34, 125, 32, 49, 32, 49, 10] ∧
    ∀ isoTime : Int → Bytes, ∃ suffix,
      (Formatter.run (JsonTsdbFormatter.format isoTime) (Formatter.new JsonTsdbFormatter.new)
          [.setLabels [([104, 111, 115, 116], [97, 10, 98])], .setTimestamp 1000000,
            .write [109] [49]]).queued =
        [123, 34] ++ aggregationText ++ [34, 58, 34, 34, 44, 34, 109, 34, 58, 49, 44] ++
          [34, 104, 111, 115, 116, 34, 58, 34, 97, 10, 98, 34, 44] ++ suffix :=
  ⟨by decide, fun _ => ⟨_, rfl⟩⟩

end OtelNetwork.Reducer
