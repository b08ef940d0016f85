import Mathlib.Algebra.BigOperators.Group.List.Basic
import OtelNetwork.Reducer.OutputMetrics

/-!
# The metric records as commutative monoids

`add_from` adds a metric record counter by counter, so each record is a commutative monoid under
it with the default record as zero; `AllMetrics::add` adds the sums and ors the flags, so it too
is one. The rollups of `output_metrics` are then group-by sums (`nodeAzMap_eq`, `azAzMap_eq`),
whatever the order the maps are walked in, and the emissions of an entry are read protocol by
protocol (`mem_emitAllMetrics`).
-/

namespace OtelNetwork.Aggregation

open Function

attribute [ext] TcpMetrics UdpMetrics HttpMetrics DnsMetrics AllMetrics PrevWindow WindowMetrics

/-! ## The monoids -/

instance : Add TcpMetrics := ⟨TcpMetrics.addFrom⟩

instance : Zero TcpMetrics := ⟨{}⟩

instance : AddCommMonoid TcpMetrics where
  add_assoc _ _ _ := by ext1 <;> exact add_assoc ..
  zero_add _ := by ext1 <;> exact zero_add _
  add_zero _ := by ext1 <;> exact add_zero _
  add_comm _ _ := by ext1 <;> exact add_comm ..
  nsmul := nsmulRec

instance : Add UdpMetrics := ⟨UdpMetrics.addFrom⟩

instance : Zero UdpMetrics := ⟨{}⟩

instance : AddCommMonoid UdpMetrics where
  add_assoc _ _ _ := by ext1 <;> exact add_assoc ..
  zero_add _ := by ext1 <;> exact zero_add _
  add_zero _ := by ext1 <;> exact add_zero _
  add_comm _ _ := by ext1 <;> exact add_comm ..
  nsmul := nsmulRec

instance : Add HttpMetrics := ⟨HttpMetrics.addFrom⟩

instance : Zero HttpMetrics := ⟨{}⟩

instance : AddCommMonoid HttpMetrics where
  add_assoc _ _ _ := by ext1 <;> exact add_assoc ..
  zero_add _ := by ext1 <;> exact zero_add _
  add_zero _ := by ext1 <;> exact add_zero _
  add_comm _ _ := by ext1 <;> exact add_comm ..
  nsmul := nsmulRec

instance : Add DnsMetrics := ⟨DnsMetrics.addFrom⟩

instance : Zero DnsMetrics := ⟨{}⟩

instance : AddCommMonoid DnsMetrics where
  add_assoc _ _ _ := by ext1 <;> exact add_assoc ..
  zero_add _ := by ext1 <;> exact zero_add _
  add_zero _ := by ext1 <;> exact add_zero _
  add_comm _ _ := by ext1 <;> exact add_comm ..
  nsmul := nsmulRec

/-- `AllMetrics` adds protocol by protocol. -/
instance : Add AllMetrics :=
  ⟨fun a b => ⟨a.tcp + b.tcp, a.udp + b.udp, a.http + b.http, a.dns + b.dns⟩⟩

instance : Zero AllMetrics := ⟨{}⟩

instance : AddCommMonoid AllMetrics where
  add_assoc _ _ _ := by ext1 <;> exact add_assoc ..
  zero_add _ := by ext1 <;> exact zero_add _
  add_zero _ := by ext1 <;> exact add_zero _
  add_comm _ _ := by ext1 <;> exact add_comm ..
  nsmul := nsmulRec

/-- The flags of a merged entry: a protocol had samples when it had them in any part. -/
instance : Add PrevWindow :=
  ⟨fun a b => ⟨a.tcp || b.tcp, a.udp || b.udp, a.http || b.http, a.dns || b.dns⟩⟩

instance : Zero PrevWindow := ⟨{}⟩

instance : AddCommMonoid PrevWindow where
  add_assoc _ _ _ := by ext1 <;> exact Bool.or_assoc ..
  zero_add _ := by ext1 <;> exact Bool.false_or _
  add_zero _ := by ext1 <;> exact Bool.or_false _
  add_comm _ _ := by ext1 <;> exact Bool.or_comm ..
  nsmul := nsmulRec

instance : Add WindowMetrics := ⟨WindowMetrics.add⟩

instance : Zero WindowMetrics := ⟨{}⟩

instance : AddCommMonoid WindowMetrics where
  add_assoc _ _ _ := by ext1 <;> exact add_assoc ..
  zero_add _ := by ext1 <;> exact zero_add _
  add_zero _ := by ext1 <;> exact add_zero _
  add_comm _ _ := by ext1 <;> exact add_comm ..
  nsmul := nsmulRec

/-- The sums of `AllMetrics`, as a homomorphism. -/
def WindowMetrics.sumsHom : WindowMetrics →+ AllMetrics where
  toFun := WindowMetrics.sums
  map_zero' := rfl
  map_add' _ _ := rfl

/-- The flags of `AllMetrics`, as a homomorphism. -/
def WindowMetrics.prevHom : WindowMetrics →+ PrevWindow where
  toFun := WindowMetrics.prev
  map_zero' := rfl
  map_add' _ _ := rfl

/-! ## Protocol by protocol -/

/-- The four protocols of `AllMetrics`. -/
inductive Protocol where
  | tcp
  | udp
  | http
  | dns
deriving DecidableEq, Repr

namespace Protocol

/-- The `active_sockets` of the protocol, which its `is_zero` reads. -/
def activeSockets : Protocol → AllMetrics → UInt64
  | tcp, m => m.tcp.activeSockets
  | udp, m => m.udp.activeSockets
  | http, m => m.http.activeSockets
  | dns, m => m.dns.activeSockets

/-- The protocol's `*_prev_window_had_samples` flag. -/
def prevFlag : Protocol → PrevWindow → Bool
  | tcp, p => p.tcp
  | udp, p => p.udp
  | http, p => p.http
  | dns, p => p.dns

/-- The `emit_*` call of the protocol, with its metrics. -/
def emission : Protocol → AllMetrics → Emission
  | tcp, m => .tcp m.tcp
  | udp, m => .udp m.udp
  | http, m => .http m.http
  | dns, m => .dns m.dns

theorem exists_iff {p : Protocol → Prop} : (∃ P, p P) ↔ p tcp ∨ p udp ∨ p http ∨ p dns := by
  constructor
  · rintro ⟨P, hP⟩
    cases P <;> simp [hP]
  · rintro (h | h | h | h) <;> exact ⟨_, h⟩

@[simp] theorem activeSockets_zero (P : Protocol) : P.activeSockets 0 = 0 := by
  cases P <;> rfl

@[simp] theorem prevFlag_add (P : Protocol) (a b : PrevWindow) :
    P.prevFlag (a + b) = (P.prevFlag a || P.prevFlag b) := by
  cases P <;> rfl

@[simp] theorem prevFlag_zero (P : Protocol) : P.prevFlag 0 = false := by
  cases P <;> rfl

theorem fiber_ne_zero_of_activeSockets {E R : Type} [DecidableEq R] {f : E → R}
    {v : E → AllMetrics} {xs : List E} {r : R} (P : Protocol)
    (h : P.activeSockets (GroupBy.fiber f v xs r) ≠ 0) : GroupBy.fiber f v xs r ≠ 0 := by
  intro h0
  rw [h0, activeSockets_zero] at h
  exact h rfl

/-- A merged flag is set when it is set in one of the merged entries. -/
theorem prevFlag_fiber {E R : Type} [DecidableEq R] (P : Protocol) (f : E → R)
    (v : E → PrevWindow) (xs : List E) (r : R) :
    P.prevFlag (GroupBy.fiber f v xs r) = true ↔ ∃ x ∈ xs, f x = r ∧ P.prevFlag (v x) = true := by
  induction xs with
  | nil => simp
  | cons x xs ih =>
    rw [GroupBy.fiber_cons, prevFlag_add, Bool.or_eq_true, ih]
    by_cases hx : f x = r <;> simp [hx]

end Protocol

/-- The protocol of an emission. -/
def Emission.protocol : Emission → Protocol
  | .tcp _ => .tcp
  | .udp _ => .udp
  | .http _ => .http
  | .dns _ => .dns

/-! ## `emit_all_metrics` and the emitting loops -/

section Emit

variable {ts : Int64} {s : Series} {m : WindowMetrics}

/-- `emit_all_metrics` emits the metrics of each protocol with samples in this window or the
    one before, under the timestamp and series it is given. -/
theorem mem_emitAllMetrics {x : Emitted} :
    x ∈ emitAllMetrics ts s m ↔ x.ts = ts ∧ x.series = s ∧
      ∃ P : Protocol, x.emission = P.emission m.sums ∧
        (P.activeSockets m.sums ≠ 0 ∨ P.prevFlag m.prev = true) := by
  obtain ⟨ts', s', e⟩ := x
  cases e <;>
    simp [emitAllMetrics, Protocol.exists_iff, Protocol.emission, Protocol.activeSockets,
      Protocol.prevFlag, TcpMetrics.isZero, UdpMetrics.isZero, HttpMetrics.isZero,
      DnsMetrics.isZero] <;> tauto

/-- An entry that should not emit any emits nothing: the test of the emitting loops only skips
    what `emit_all_metrics` would not emit. -/
theorem emitAllMetrics_of_not_shouldEmitAny (h : m.shouldEmitAny = false) :
    emitAllMetrics ts s m = [] := by
  simp only [WindowMetrics.shouldEmitAny, Bool.or_eq_false_iff] at h
  obtain ⟨⟨⟨htcp, hudp⟩, hhttp⟩, hdns⟩ := h
  simp [emitAllMetrics, htcp, hudp, hhttp, hdns]

/-- The emissions of one entry name each protocol at most once. -/
theorem nodup_emitAllMetrics :
    ((emitAllMetrics ts s m).map fun x => (x.series, x.emission.protocol)).Nodup := by
  unfold emitAllMetrics
  split_ifs <;> simp [Emission.protocol]

variable {K : Type} {series : K → Series} {items : List (K × WindowMetrics)}

theorem emitSeries_eq :
    emitSeries ts series items = items.flatMap fun it => emitAllMetrics ts (series it.1) it.2 := by
  unfold emitSeries
  congr 1
  funext it
  cases h : it.2.shouldEmitAny
  · simp [emitAllMetrics_of_not_shouldEmitAny h]
  · rfl

theorem mem_emitSeries {x : Emitted} :
    x ∈ emitSeries ts series items ↔ ∃ it ∈ items, x ∈ emitAllMetrics ts (series it.1) it.2 := by
  rw [emitSeries_eq, List.mem_flatMap]

/-- Over entries of distinct keys and an injective series, each series and protocol is emitted
    at most once. -/
theorem nodup_emitSeries (hseries : Injective series) (hkeys : (items.map Prod.fst).Nodup) :
    ((emitSeries ts series items).map fun x => (x.series, x.emission.protocol)).Nodup := by
  rw [emitSeries_eq, List.map_flatMap, List.nodup_flatMap]
  refine ⟨fun it _ => nodup_emitAllMetrics, ?_⟩
  -- entries of distinct keys emit under distinct series
  refine (List.pairwise_map.mp hkeys).imp fun {a b} hab => ?_
  rw [Function.onFun, List.disjoint_left]
  simp only [List.mem_map, mem_emitAllMetrics]
  rintro _ ⟨x, ⟨-, hxs, -⟩, rfl⟩ ⟨y, ⟨-, hys, -⟩, hxy⟩
  rw [Prod.mk.injEq, hxs, hys] at hxy
  exact hab (hseries hxy.1.symm)

end Emit

/-! ## The rollups are group-by sums -/

theorem aggregate_add_eq_groupSum {K R : Type} [DecidableEq R] (items : List (K × WindowMetrics))
    (proj : K → R) :
    aggregate items (fun it => proj it.1) (fun t it => t.add it.2) =
      GroupBy.groupSum (fun it => proj it.1) Prod.snd items :=
  GroupBy.foldl_accumulate_empty _ _ items

theorem nodeAzMap_eq (items : List (NodeNodeKey × WindowMetrics)) :
    nodeAzMap items = GroupBy.groupSum (fun it => it.1.nodeAz) Prod.snd items :=
  aggregate_add_eq_groupSum items _

theorem azNodeMap_eq (items : List (NodeNodeKey × WindowMetrics)) :
    azNodeMap items = GroupBy.groupSum (fun it => it.1.azNode) Prod.snd items :=
  aggregate_add_eq_groupSum items _

/-- `az_az_map`, summed from `node_az_map` along any walk of it, sums the node-node entries by
    their zones. -/
theorem azAzMap_eq {items : List (NodeNodeKey × WindowMetrics)} {order : List NodeAzKey}
    (horder : GroupBy.Walks (nodeAzMap items) order) :
    azAzMap (nodeAzMap items) order =
      GroupBy.groupSum (fun it => it.1.nodeAz.azAz) Prod.snd items := by
  rw [nodeAzMap_eq] at horder ⊢
  rw [azAzMap, aggregate_add_eq_groupSum]
  exact GroupBy.groupSum_of_listing _ _ NodeAzKey.azAz items horder.isListing

end OtelNetwork.Aggregation
