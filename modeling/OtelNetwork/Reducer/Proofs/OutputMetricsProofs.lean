import OtelNetwork.Reducer.Proofs.MetricsAlgebra
import OtelNetwork.Reducer.Proofs.AggregatorRouting

/-!
# What a window emits

The messages of a window add their metrics into the node-node entries their roots' references
name; `output_metrics` then emits, at each enabled level and for each key of that level and each
protocol, the sum of the adds of the window that project to the key, when it has samples or one
of the entries that project to the key had samples in the window before; and it resets every
entry. The adds a window makes are `Aggregator.windowAdds`, each with the entry it resolved to,
so the sums to emit are group-by sums of them (`seriesSum`), whatever orders the hash maps are
walked in.

The proof reads the store at the end of a window through `WindowView`: each entry holds the sum
of its adds, and its flags are those of its adds of the window before. The rollups of
`MetricsAlgebra` turn that into the sums and flags of each level
(`WindowView.mem_emitSeries_level`).
Entries are never dropped in the model, and the view holds whichever entries are kept: the
cleanup leaves an entry without samples, whose keepalive it drops, with default sums and clear
flags (`cleanup_of_no_samples`), which is the entry inserted afresh in its place.
-/

namespace OtelNetwork.Aggregation

open Function GroupBy

/-! ## The adds of a window -/

namespace Aggregator

/-- The entry an `add_*` call of the direction adds into: its root's reference, when that names
    an entry of the store. -/
def resolve (g : Aggregator) (key : AggRootKey) (dir : Direction) : Option NodeNodeKey :=
  (g.findNodeNodeRef key dir).1.filter fun r => (g.nodeNodeStore r).isSome

/-- The entry a message adds into, with what it adds: its update, the other protocols zero. -/
def resolvedAdd (g : Aggregator) : AggMessage → Option (NodeNodeKey × AllMetrics)
  | .updateTcp key d m => (g.resolve key (direction d)).map (·, { tcp := m })
  | .updateUdp key d m => (g.resolve key (direction d)).map (·, { udp := m })
  | .updateHttp key d m => (g.resolve key (direction d)).map (·, { http := m })
  | .updateDns key d m => (g.resolve key (direction d)).map (·, { dns := m })
  | _ => none

/-- The adds of a sequence of messages, in order, each with the entry it resolved to. -/
def windowAdds (g : Aggregator) : List AggMessage → List (NodeNodeKey × AllMetrics)
  | [] => []
  | msg :: msgs => (g.resolvedAdd msg).toList ++ (g.handle msg).windowAdds msgs

/-- The metrics of the entry of a key, zero where there is none. -/
def metricsOf (g : Aggregator) (k : NodeNodeKey) : AllMetrics :=
  ((g.nodeNodeStore k).map NodeNodeEntry.metrics).getD 0

variable {g : Aggregator} {k : NodeNodeKey}

theorem metricsOf_of_some {e : NodeNodeEntry} (he : g.nodeNodeStore k = some e) :
    g.metricsOf k = e.metrics := by
  simp [metricsOf, he]

theorem run_cons (g : Aggregator) (msg : AggMessage) (msgs : List AggMessage) :
    g.run (msg :: msgs) = (g.handle msg).run msgs := rfl

theorem isSome_of_resolve {key : AggRootKey} {dir : Direction} {r : NodeNodeKey}
    (h : g.resolve key dir = some r) : (g.nodeNodeStore r).isSome := by
  unfold resolve at h
  exact (Option.filter_eq_some_iff.mp h).2

theorem updateNode_store (g : Aggregator) (key : AggRootKey) (side : Side) (az : Az) (node : Node) :
    (g.updateNode key side az node).nodeNodeStore = g.nodeNodeStore ∨
      ∃ k', (g.updateNode key side az node).nodeNodeStore =
        findOrInsert (findOrInsert g.nodeNodeStore k') k'.swap := by
  rw [updateNode_eq]
  rcases wireRoot_cases g key (((g.aggRoots key).getD {}).attach side az (g.blank node)) with
    ⟨-, -, k', -, heq⟩ | ⟨-, heq⟩
  · exact .inr ⟨k', by rw [heq]⟩
  · exact .inl (by rw [heq])

theorem metrics_findOrInsert (store : NodeNodeKey → Option NodeNodeEntry) (k' x : NodeNodeKey) :
    ((findOrInsert store k' x).map NodeNodeEntry.metrics).getD 0 =
      ((store x).map NodeNodeEntry.metrics).getD 0 := by
  by_cases hx : x = k'
  · subst hx
    rw [findOrInsert_self]
    cases store x <;> rfl
  · rw [findOrInsert_of_ne hx]

/-- An `add_*` call adds its update into the entry it resolves to, and nowhere else. -/
theorem metricsOf_addMetrics (f : AllMetrics → AllMetrics) (δ : AllMetrics) (hf : ∀ a, f a = a + δ)
    (key : AggRootKey) (dir : Direction) (k : NodeNodeKey) :
    (g.addMetrics f key dir).metricsOf k =
      g.metricsOf k + if g.resolve key dir = some k then δ else 0 := by
  cases hroot : g.aggRoots key with
  | none => simp [addMetrics, resolve, findNodeNodeRef, hroot, metricsOf]
  | some root =>
    cases href : root.ref dir with
    | none =>
      have hres : g.resolve key dir = none := by simp [resolve, findNodeNodeRef_of_root hroot, href]
      simp [addMetrics, findNodeNodeRef_of_root hroot, href, hres, metricsOf]
    | some r =>
      cases he : g.nodeNodeStore r with
      | none =>
        have hres : g.resolve key dir = none := by
          simp [resolve, findNodeNodeRef_of_root hroot, href, he]
        simp [addMetrics, findNodeNodeRef_of_root hroot, href, he, hres]
      | some e =>
        have hres : g.resolve key dir = some r := by
          simp [resolve, findNodeNodeRef_of_root hroot, href, he]
        rw [addMetrics_of_ref f dir hroot href he, hres]
        by_cases hk : k = r
        · subst hk
          simp [metricsOf, he, NodeNodeEntry.added, hf]
        · simp [metricsOf, update_of_ne hk, Ne.symm hk]

theorem fiber_map_toList (o : Option NodeNodeKey) (δ : AllMetrics) (k : NodeNodeKey) :
    fiber Prod.fst Prod.snd (o.map (·, δ)).toList k = if o = some k then δ else 0 := by
  cases o with
  | none => rfl
  | some r => by_cases h : r = k <;> simp [fiber, h]

theorem metricsOf_handle (g : Aggregator) (msg : AggMessage) (k : NodeNodeKey) :
    (g.handle msg).metricsOf k =
      g.metricsOf k + fiber Prod.fst Prod.snd (g.resolvedAdd msg).toList k := by
  cases msg with
  | aggRootStart key => simp [handle, aggRootStart, metricsOf, resolvedAdd]
  | aggRootEnd key => simp [handle, aggRootEnd, metricsOf, resolvedAdd]
  | updateNode key side az node =>
    rcases updateNode_store g key (if side = 0 then .a else .b) az node with heq | ⟨k', heq⟩ <;>
      simp [handle, metricsOf, resolvedAdd, heq, metrics_findOrInsert]
  | updateTcp key d m | updateUdp key d m | updateHttp key d m | updateDns key d m =>
    -- each `add_*` adds its update, the other protocols zero
    rw [handle, resolvedAdd, fiber_map_toList]
    refine metricsOf_addMetrics _ _ (fun a => ?_) _ _ k
    ext1 <;> first | rfl | exact (add_zero _).symm

/-- No message removes an entry. -/
theorem isSome_handle (h : (g.nodeNodeStore k).isSome) (msg : AggMessage) :
    ((g.handle msg).nodeNodeStore k).isSome := by
  cases msg with
  | aggRootStart key => exact h
  | aggRootEnd key => exact h
  | updateNode key side az node =>
    rcases updateNode_store g key (if side = 0 then .a else .b) az node with heq | ⟨k', heq⟩
    · rw [handle, heq]
      exact h
    · rw [handle, heq]
      exact isSome_findOrInsert (.inl (isSome_findOrInsert (.inl h)))
  | updateTcp key d m | updateUdp key d m | updateHttp key d m | updateDns key d m =>
    rw [handle]
    exact (isSome_addMetrics _ _ k).trans h

theorem isSome_run (h : (g.nodeNodeStore k).isSome) (msgs : List AggMessage) :
    ((g.run msgs).nodeNodeStore k).isSome := by
  induction msgs generalizing g with
  | nil => exact h
  | cons msg msgs ih => exact ih (isSome_handle h msg)

theorem eq_none_of_handle {msg : AggMessage} (h : (g.handle msg).nodeNodeStore k = none) :
    g.nodeNodeStore k = none := by
  cases hg : g.nodeNodeStore k with
  | none => rfl
  | some e =>
    have hsome := isSome_handle (g := g) (k := k) (by simp [hg]) msg
    simp [h] at hsome

theorem eq_none_of_run {msgs : List AggMessage} (h : (g.run msgs).nodeNodeStore k = none) :
    g.nodeNodeStore k = none := by
  cases hg : g.nodeNodeStore k with
  | none => rfl
  | some e =>
    have hsome := isSome_run (g := g) (k := k) (by simp [hg]) msgs
    simp [h] at hsome

/-- The metrics of a store whose entries are all reset are zero everywhere. -/
theorem metricsOf_eq_zero (h : ∀ k e, g.nodeNodeStore k = some e → e.metrics = {})
    (k : NodeNodeKey) : g.metricsOf k = 0 := by
  cases hk : g.nodeNodeStore k with
  | none => simp [metricsOf, hk]
  | some e =>
    rw [metricsOf_of_some hk, h k e hk]
    rfl

theorem isSome_of_resolvedAdd {msg : AggMessage} {a : NodeNodeKey × AllMetrics}
    (ha : a ∈ (g.resolvedAdd msg).toList) : (g.nodeNodeStore a.1).isSome := by
  rw [Option.mem_toList] at ha
  cases msg <;> simp only [resolvedAdd, Option.map_eq_some_iff, reduceCtorEq] at ha <;>
    · obtain ⟨r, hr, rfl⟩ := ha
      exact isSome_of_resolve hr

theorem isSome_of_mem_windowAdds {msgs : List AggMessage} {a : NodeNodeKey × AllMetrics}
    (ha : a ∈ g.windowAdds msgs) : ((g.run msgs).nodeNodeStore a.1).isSome := by
  induction msgs generalizing g with
  | nil => cases ha
  | cons msg msgs ih =>
    rw [windowAdds, List.mem_append] at ha
    rcases ha with ha | ha
    · exact isSome_run (isSome_handle (isSome_of_resolvedAdd ha) msg) msgs
    · exact ih ha

/-- Over a window, each entry's metrics grow by the sum of the adds it received. -/
theorem metricsOf_run (g : Aggregator) (msgs : List AggMessage) (k : NodeNodeKey) :
    (g.run msgs).metricsOf k = g.metricsOf k + fiber Prod.fst Prod.snd (g.windowAdds msgs) k := by
  induction msgs generalizing g with
  | nil => simp [run, windowAdds]
  | cons msg msgs ih =>
    rw [run_cons, ih, metricsOf_handle, windowAdds, fiber_append, add_assoc]

end Aggregator

/-! ## Runs of windows -/

namespace Windowed

variable {w : Windowed}

/-- The events of one window: its messages, then the `output_metrics` that ends it. -/
def windowEvents (msgs : List AggMessage) (windowEndNs : UInt64) (order : IterOrder) :
    List Event :=
  msgs.map .message ++ [.windowEnd windowEndNs order]

/-- The states of runs from `AggregationCore::new`. -/
def Reachable (w : Windowed) : Prop :=
  ∃ enableIdId enableAzId disableNodeIpField evs,
    w = ((new enableIdId enableAzId disableNodeIpField).run evs).2

/-- A key without an entry has clear flags, as a fresh entry does. -/
def PrevCleared (w : Windowed) : Prop :=
  ∀ k, w.agg.nodeNodeStore k = none → w.prev k = {}

theorem run_cons (w : Windowed) (ev : Event) (evs : List Event) :
    w.run (ev :: evs) = ((w.step ev).1 ++ ((w.step ev).2.run evs).1, ((w.step ev).2.run evs).2) :=
  rfl

theorem run_messages (w : Windowed) (msgs : List AggMessage) (evs : List Event) :
    w.run (msgs.map .message ++ evs) = ({ w with agg := w.agg.run msgs } : Windowed).run evs := by
  induction msgs generalizing w with
  | nil => rfl
  | cons msg msgs ih =>
    rw [List.map_cons, List.cons_append, run_cons, ih]
    rfl

theorem run_windowEvents (w : Windowed) (msgs : List AggMessage) (windowEndNs : UInt64)
    (order : IterOrder) :
    w.run (windowEvents msgs windowEndNs order) =
      ({ w with agg := w.agg.run msgs } : Windowed).outputMetrics order windowEndNs := by
  rw [windowEvents, run_messages]
  simp [run, step]

theorem outputMetrics_snd (w : Windowed) (order : IterOrder) (windowEndNs : UInt64) :
    (w.outputMetrics order windowEndNs).2 = w.cleanup := rfl

theorem cleanup_store (w : Windowed) (k : NodeNodeKey) :
    w.cleanup.agg.nodeNodeStore k = (w.agg.nodeNodeStore k).map fun e => (cleanupEntry e).1 := rfl

theorem cleanup_prev_of_some {k : NodeNodeKey} {e : NodeNodeEntry}
    (he : w.agg.nodeNodeStore k = some e) : w.cleanup.prev k = (cleanupEntry e).2 := by
  simp [cleanup, he]

theorem cleanup_prev_of_none {k : NodeNodeKey} (he : w.agg.nodeNodeStore k = none) :
    w.cleanup.prev k = w.prev k := by
  simp [cleanup, he]

theorem metrics_cleanup {k : NodeNodeKey} {e : NodeNodeEntry}
    (he : w.cleanup.agg.nodeNodeStore k = some e) : e.metrics = {} := by
  rw [cleanup_store, Option.map_eq_some_iff] at he
  obtain ⟨e', -, rfl⟩ := he
  rfl

theorem prevFlag_cleanupEntry (P : Protocol) (e : NodeNodeEntry) :
    P.prevFlag (cleanupEntry e).2 = true ↔ P.activeSockets e.metrics ≠ 0 := by
  cases P <;>
    simp [cleanupEntry, Protocol.prevFlag, Protocol.activeSockets, TcpMetrics.isZero,
      UdpMetrics.isZero, HttpMetrics.isZero, DnsMetrics.isZero]

/-- The cleanup drops the keepalive of an entry without samples, which then holds default sums
    and clear flags: the entry inserted afresh in its place, once it is freed, is the same. -/
theorem cleanup_of_no_samples {k : NodeNodeKey} {e : NodeNodeEntry}
    (he : w.agg.nodeNodeStore k = some e) (hnone : ∀ P : Protocol, P.activeSockets e.metrics = 0) :
    w.cleanup.agg.nodeNodeStore k = some {} ∧ w.cleanup.prev k = {} := by
  have htcp := hnone .tcp
  have hudp := hnone .udp
  have hhttp := hnone .http
  have hdns := hnone .dns
  simp only [Protocol.activeSockets] at htcp hudp hhttp hdns
  rw [cleanup_store, cleanup_prev_of_some he, he]
  simp [cleanupEntry, TcpMetrics.isZero, UdpMetrics.isZero, HttpMetrics.isZero, DnsMetrics.isZero,
    htcp, hudp, hhttp, hdns]

theorem run_preserves {P : Windowed → Prop} (hstep : ∀ w ev, P w → P (w.step ev).2) (h : P w)
    (evs : List Event) : P (w.run evs).2 := by
  induction evs generalizing w with
  | nil => exact h
  | cons ev evs ih => exact ih (hstep w ev h)

theorem PrevCleared.step (h : w.PrevCleared) (ev : Event) : (w.step ev).2.PrevCleared := by
  intro k hk
  cases ev with
  | message msg =>
    simp only [Windowed.step] at hk ⊢
    exact h k (Aggregator.eq_none_of_handle hk)
  | windowEnd windowEndNs order =>
    rw [Windowed.step, outputMetrics_snd, cleanup_store, Option.map_eq_none_iff] at hk
    rw [Windowed.step, outputMetrics_snd, cleanup_prev_of_none hk]
    exact h k hk

theorem Reachable.prevCleared (h : w.Reachable) : w.PrevCleared := by
  obtain ⟨_, _, _, evs, rfl⟩ := h
  exact run_preserves (fun _ ev h => h.step ev) (fun _ _ => rfl) evs

theorem flags_run (w : Windowed) (evs : List Event) :
    (w.run evs).2.enableIdId = w.enableIdId ∧ (w.run evs).2.enableAzId = w.enableAzId := by
  induction evs generalizing w with
  | nil => exact ⟨rfl, rfl⟩
  | cons ev evs ih =>
    refine (ih _).imp (fun h => h.trans ?_) (fun h => h.trans ?_) <;> cases ev <;> rfl

theorem metricsAt_eq_some {k : NodeNodeKey} {v : WindowMetrics} :
    w.metricsAt k = some v ↔ ∃ e, w.agg.nodeNodeStore k = some e ∧ v = ⟨e.metrics, w.prev k⟩ := by
  simp only [metricsAt, Option.map_eq_some_iff]
  constructor
  · rintro ⟨e, he, rfl⟩
    exact ⟨e, he, rfl⟩
  · rintro ⟨e, he, rfl⟩
    exact ⟨e, he, rfl⟩

theorem isSome_metricsAt {k : NodeNodeKey} :
    (w.metricsAt k).isSome = (w.agg.nodeNodeStore k).isSome := by
  simp [metricsAt]

end Windowed

/-! ## The store at the end of a window -/

/-- The store view `M` at the end of a window with the adds `cur`, after a window with the adds
    `prev`: an entry holds the sum of its adds and the flags of its adds before, and every add
    went to an entry. -/
structure WindowView (M : NodeNodeKey → Option WindowMetrics)
    (prev cur : List (NodeNodeKey × AllMetrics)) : Prop where
  sums : ∀ k v, M k = some v → v.sums = fiber Prod.fst Prod.snd cur k
  flags : ∀ k v (P : Protocol), M k = some v →
    (P.prevFlag v.prev = true ↔ P.activeSockets (fiber Prod.fst Prod.snd prev k) ≠ 0)
  cur_mem : ∀ a ∈ cur, (M a.1).isSome
  prev_mem : ∀ a ∈ prev, (M a.1).isSome

/-- The levels of `output_metrics`: `id_id`, `id_az`, `az_id` and `az_az`. -/
inductive Level where
  | idId
  | idAz
  | azId
  | azAz
deriving DecidableEq, Repr

/-- The level of a series. -/
def Series.level : Series → Level
  | .idId _ => .idId
  | .idAz _ => .idAz
  | .azId _ => .azId
  | .azAz _ => .azAz

/-- The series of the level that a node-node key rolls up into. -/
def Level.series : Level → NodeNodeKey → Series
  | .idId, k => .idId k
  | .idAz, k => .idAz k.nodeAz
  | .azId, k => .azId k.azNode
  | .azAz, k => .azAz k.nodeAz.azAz

/-- Whether `output_metrics` emits the level: `enable_id_id` for node-node series,
    `enable_az_id` for the rollups. -/
def Level.enabled (enableIdId enableAzId : Bool) : Level → Bool
  | .idId => enableIdId
  | _ => enableAzId

/-- The sum of the adds under a series: those to the entries that roll up into it. -/
def seriesSum (adds : List (NodeNodeKey × AllMetrics)) (s : Series) : AllMetrics :=
  fiber (fun a => s.level.series a.1) Prod.snd adds s

/-- The orders in which `output_metrics` walks the store of `w` and the maps it builds from it
    visit each key once. -/
structure IterOrder.Walks (order : IterOrder) (w : Windowed) : Prop where
  nodeNode : GroupBy.Walks w.metricsAt order.nodeNode
  nodeAz : GroupBy.Walks (nodeAzMap (entries w.metricsAt order.nodeNode)) order.nodeAz
  azNode : GroupBy.Walks (azNodeMap (entries w.metricsAt order.nodeNode)) order.azNode
  azAz : GroupBy.Walks (azAzMap (nodeAzMap (entries w.metricsAt order.nodeNode)) order.nodeAz)
    order.azAz

namespace WindowView

section Rollup

variable {M : NodeNodeKey → Option WindowMetrics} {prev cur : List (NodeNodeKey × AllMetrics)}
  {items : List (NodeNodeKey × WindowMetrics)} (hv : WindowView M prev cur)
  (hl : IsListing M items) {ρ : Type} [DecidableEq ρ] (π : NodeNodeKey → ρ)
include hv hl

omit hv in
theorem mem_keys {k : NodeNodeKey} (hk : (M k).isSome) : k ∈ (items.map Prod.fst).toFinset := by
  obtain ⟨t, ht⟩ := Option.isSome_iff_exists.mp hk
  exact List.mem_toFinset.mpr (List.mem_map.mpr ⟨(k, t), (hl.mem k t).mpr ht, rfl⟩)

/-- The sums of a rollup entry are the adds to the entries that project to it. -/
theorem groupSum_sums {R : ρ} {v : WindowMetrics}
    (h : groupSum (fun it => π it.1) Prod.snd items R = some v) :
    v.sums = fiber (fun a => π a.1) Prod.snd cur R := by
  rw [groupSum] at h
  split_ifs at h
  obtain rfl := Option.some.inj h
  have hval : ∀ it ∈ items, it.2.sums = fiber Prod.fst Prod.snd cur it.1 :=
    fun it hit => hv.sums _ _ ((hl.mem _ _).mp hit)
  calc (fiber (fun it => π it.1) Prod.snd items R).sums
      = fiber (fun it => π it.1) (fun it => it.2.sums) items R :=
        map_fiber _ _ WindowMetrics.sumsHom items R
    _ = fiber (fun it => π it.1) (fun it => fiber Prod.fst Prod.snd cur it.1) items R :=
        fiber_congr _ _ hval R
    _ = ∑ k ∈ (items.map Prod.fst).toFinset with π k = R, fiber Prod.fst Prod.snd cur k :=
        hl.fiber_keys π _ R
    _ = fiber (π ∘ Prod.fst) Prod.snd cur R :=
        sum_fiber_comp _ _ π cur _ (fun a ha => mem_keys hl (hv.cur_mem a ha)) R

/-- The flag of a rollup entry is set when one of the entries that project to it had samples of
    the protocol in the window before. -/
theorem groupSum_prevFlag {R : ρ} {v : WindowMetrics}
    (h : groupSum (fun it => π it.1) Prod.snd items R = some v) (P : Protocol) :
    P.prevFlag v.prev = true ↔
      ∃ k, π k = R ∧ P.activeSockets (fiber Prod.fst Prod.snd prev k) ≠ 0 := by
  rw [groupSum] at h
  split_ifs at h
  obtain rfl := Option.some.inj h
  rw [show (fiber (fun it => π it.1) Prod.snd items R).prev =
      fiber (fun it => π it.1) (fun it => it.2.prev) items R from
      map_fiber _ _ WindowMetrics.prevHom items R, Protocol.prevFlag_fiber]
  constructor
  · rintro ⟨it, hit, hπ, hflag⟩
    exact ⟨it.1, hπ, (hv.flags _ _ P ((hl.mem _ _).mp hit)).mp hflag⟩
  · rintro ⟨k, hπ, hk⟩
    -- a key with adds in the window before has an entry, so it is listed
    obtain ⟨a, ha, rfl⟩ := exists_mem_of_fiber_ne_zero _ _ (P.fiber_ne_zero_of_activeSockets hk)
    obtain ⟨t, ht⟩ := Option.isSome_iff_exists.mp (hv.prev_mem a ha)
    exact ⟨(a.1, t), (hl.mem _ _).mpr ht, hπ, (hv.flags _ _ P ht).mpr hk⟩

/-- A key of the level that no entry projects to received no add, now or in the window before. -/
theorem groupSum_none {R : ρ} (h : groupSum (fun it => π it.1) Prod.snd items R = none) :
    fiber (fun a => π a.1) Prod.snd cur R = 0 ∧
      ∀ k, π k = R → fiber Prod.fst Prod.snd prev k = 0 := by
  rw [groupSum] at h
  split_ifs at h with hany
  have hnot : ∀ k, (M k).isSome → π k ≠ R := by
    intro k hk hπ
    obtain ⟨t, ht⟩ := Option.isSome_iff_exists.mp hk
    exact hany (List.any_eq_true.mpr ⟨(k, t), (hl.mem _ _).mpr ht, by simpa using hπ⟩)
  refine ⟨fiber_eq_zero _ _ (List.any_eq_false.mpr fun a ha hπ => ?_),
    fun k hk => fiber_eq_zero _ _ (List.any_eq_false.mpr fun a ha hak => ?_)⟩
  · exact hnot a.1 (hv.cur_mem a ha) (of_decide_eq_true hπ)
  · exact hnot a.1 (hv.prev_mem a ha) ((of_decide_eq_true hak) ▸ hk)

end Rollup

/-- What one emitting loop of `output_metrics` emits: under each key of its level, each protocol
    whose adds to the entries that roll up into the key have samples, or whose entries that roll
    up into it had samples in the window before, with the sum of those adds. -/
theorem mem_emitSeries_level {M : NodeNodeKey → Option WindowMetrics}
    {prev cur : List (NodeNodeKey × AllMetrics)} {items : List (NodeNodeKey × WindowMetrics)}
    (hv : WindowView M prev cur) (hl : IsListing M items) {ρ : Type} [DecidableEq ρ]
    {σ : ρ → Series} (hσ : Injective σ) {π : NodeNodeKey → ρ} {L : Level}
    (hL : ∀ k, L.series k = σ (π k)) (hlevel : ∀ R, (σ R).level = L)
    {N : ρ → Option WindowMetrics} (hN : N = groupSum (fun it => π it.1) Prod.snd items)
    {l : List ρ} (hwalk : Walks N l) (ts ts' : Int64) (R : ρ) (e : Emission) :
    ⟨ts', σ R, e⟩ ∈ emitSeries ts σ (entries N l) ↔
      ts' = ts ∧ ∃ P : Protocol, e = P.emission (seriesSum cur (σ R)) ∧
        (P.activeSockets (seriesSum cur (σ R)) ≠ 0 ∨
          ∃ k, (σ R).level.series k = σ R ∧
            P.activeSockets (fiber Prod.fst Prod.snd prev k) ≠ 0) := by
  subst hN
  have hsum : seriesSum cur (σ R) = fiber (fun a => π a.1) Prod.snd cur R := by
    rw [seriesSum, hlevel]
    simp only [hL]
    exact fiber_comp_of_injective _ _ hσ cur R
  have hkey : ∀ k, (σ R).level.series k = σ R ↔ π k = R := by
    intro k
    rw [hlevel, hL, hσ.eq_iff]
  simp only [hsum, hkey, mem_emitSeries, mem_emitAllMetrics]
  constructor
  · rintro ⟨⟨R', v⟩, hit, hts, hR, P, he, hgate⟩
    obtain rfl := hσ hR
    have hNv := (hwalk.isListing.mem _ _).mp hit
    rw [hv.groupSum_sums hl π hNv] at he hgate
    rw [hv.groupSum_prevFlag hl π hNv P] at hgate
    exact ⟨hts, P, he, hgate⟩
  · rintro ⟨hts, P, he, hgate⟩
    cases hN : groupSum (fun it => π it.1) Prod.snd items R with
    | none =>
      -- no entry rolls up into the key, so nothing was added under it
      obtain ⟨hcur, hprev⟩ := hv.groupSum_none hl π hN
      exfalso
      rcases hgate with h | ⟨k, hk, h⟩
      · exact h (by rw [hcur, P.activeSockets_zero])
      · exact h (by rw [hprev k hk, P.activeSockets_zero])
    | some v =>
      refine ⟨(R, v), (hwalk.isListing.mem _ _).mpr hN, hts, rfl, P, ?_, ?_⟩
      · rw [hv.groupSum_sums hl π hN]
        exact he
      · rw [hv.groupSum_sums hl π hN, hv.groupSum_prevFlag hl π hN P]
        exact hgate

end WindowView

/-! ## `output_metrics` loop by loop -/

section Loops

variable {K : Type} {σ : K → Series} {L : Level}

theorem level_of_mem_emitSeries {ts : Int64} {items : List (K × WindowMetrics)} {x : Emitted}
    (hx : x ∈ emitSeries ts σ items) (hσ : ∀ k, (σ k).level = L) : x.series.level = L := by
  obtain ⟨it, -, hx⟩ := mem_emitSeries.mp hx
  rw [(mem_emitAllMetrics.mp hx).2.1, hσ]

theorem nodup_append_of_level {A B : List Emitted}
    (hA : (A.map fun x => (x.series, x.emission.protocol)).Nodup)
    (hB : (B.map fun x => (x.series, x.emission.protocol)).Nodup)
    (hAB : ∀ x ∈ A, ∀ y ∈ B, x.series.level ≠ y.series.level) :
    ((A ++ B).map fun x => (x.series, x.emission.protocol)).Nodup := by
  rw [List.map_append, List.nodup_append]
  refine ⟨hA, hB, ?_⟩
  simp only [List.mem_map]
  rintro _ ⟨x, hx, rfl⟩ _ ⟨y, hy, rfl⟩ hxy
  exact hAB x hx y hy (congrArg (fun p => p.1.level) hxy)

theorem nodup_emitSeries_walk (ts : Int64) (hσ : Injective σ) {N : K → Option WindowMetrics}
    {l : List K} (hwalk : Walks N l) :
    ((emitSeries ts σ (entries N l)).map fun x => (x.series, x.emission.protocol)).Nodup :=
  nodup_emitSeries hσ hwalk.isListing.nodup

end Loops

namespace Windowed

/-- The emissions of `output_metrics`: those of the node-node loop under `enable_id_id`, and those
    of the three rollup loops under `enable_az_id`. -/
theorem mem_outputMetrics (w : Windowed) (order : IterOrder) (windowEndNs : UInt64)
    (x : Emitted) :
    x ∈ (w.outputMetrics order windowEndNs).1 ↔
      (w.enableIdId = true ∧
        x ∈ emitSeries windowEndNs.toInt64 .idId (entries w.metricsAt order.nodeNode)) ∨
      (w.enableAzId = true ∧
        (x ∈ emitSeries windowEndNs.toInt64 .idAz
            (entries (nodeAzMap (entries w.metricsAt order.nodeNode)) order.nodeAz) ∨
          x ∈ emitSeries windowEndNs.toInt64 .azId
            (entries (azNodeMap (entries w.metricsAt order.nodeNode)) order.azNode) ∨
          x ∈ emitSeries windowEndNs.toInt64 .azAz
            (entries (azAzMap (nodeAzMap (entries w.metricsAt order.nodeNode)) order.nodeAz)
              order.azAz))) := by
  unfold outputMetrics
  cases w.enableIdId <;> cases w.enableAzId <;> simp

theorem outputMetrics_sublist (w : Windowed) (order : IterOrder) (windowEndNs : UInt64) :
    List.Sublist (w.outputMetrics order windowEndNs).1
      (emitSeries windowEndNs.toInt64 .idId (entries w.metricsAt order.nodeNode) ++
        (emitSeries windowEndNs.toInt64 .idAz
            (entries (nodeAzMap (entries w.metricsAt order.nodeNode)) order.nodeAz) ++
          emitSeries windowEndNs.toInt64 .azId
            (entries (azNodeMap (entries w.metricsAt order.nodeNode)) order.azNode) ++
          emitSeries windowEndNs.toInt64 .azAz
            (entries (azAzMap (nodeAzMap (entries w.metricsAt order.nodeNode)) order.nodeAz)
              order.azAz))) := by
  unfold outputMetrics
  cases w.enableIdId <;> cases w.enableAzId <;> simp

/-- Each series and protocol is emitted at most once per window. -/
theorem nodup_outputMetrics {w : Windowed} {order : IterOrder} (horder : order.Walks w)
    (windowEndNs : UInt64) :
    ((w.outputMetrics order windowEndNs).1.map fun x => (x.series, x.emission.protocol)).Nodup := by
  refine ((outputMetrics_sublist w order windowEndNs).map _).nodup ?_
  have h₁ := nodup_emitSeries_walk windowEndNs.toInt64
    (fun _ _ h => Series.idId.inj h) horder.nodeNode
  have h₂ := nodup_emitSeries_walk windowEndNs.toInt64
    (fun _ _ h => Series.idAz.inj h) horder.nodeAz
  have h₃ := nodup_emitSeries_walk windowEndNs.toInt64
    (fun _ _ h => Series.azId.inj h) horder.azNode
  have h₄ := nodup_emitSeries_walk windowEndNs.toInt64
    (fun _ _ h => Series.azAz.inj h) horder.azAz
  -- the loops emit under series of distinct levels
  refine nodup_append_of_level h₁
    (nodup_append_of_level (nodup_append_of_level h₂ h₃ ?_) h₄ ?_) ?_
  · intro x hx y hy
    rw [level_of_mem_emitSeries hx (fun _ => rfl), level_of_mem_emitSeries hy (fun _ => rfl)]
    decide
  · intro x hx y hy
    rw [level_of_mem_emitSeries hy (fun _ => rfl)]
    rcases List.mem_append.mp hx with hx | hx <;>
      · rw [level_of_mem_emitSeries hx (fun _ => rfl)]
        decide
  · intro x hx y hy
    rw [level_of_mem_emitSeries hx (fun _ => rfl)]
    rcases List.mem_append.mp hy with hy | hy
    · rcases List.mem_append.mp hy with hy | hy <;>
        · rw [level_of_mem_emitSeries hy (fun _ => rfl)]
          decide
    · rw [level_of_mem_emitSeries hy (fun _ => rfl)]
      decide

end Windowed

namespace WindowView

variable {w : Windowed} {prev cur : List (NodeNodeKey × AllMetrics)}

/-- Over a view of the store, `output_metrics` emits under each series of an enabled level each
    protocol whose adds under the series have samples, or whose entries that roll up into the
    series had samples in the window before, with the sum of the adds under the series. -/
theorem mem_outputMetrics (hv : WindowView w.metricsAt prev cur) {order : IterOrder}
    (horder : order.Walks w) (windowEndNs : UInt64) (ts : Int64) (s : Series) (e : Emission) :
    ⟨ts, s, e⟩ ∈ (w.outputMetrics order windowEndNs).1 ↔
      s.level.enabled w.enableIdId w.enableAzId = true ∧ ts = windowEndNs.toInt64 ∧
        ∃ P : Protocol, e = P.emission (seriesSum cur s) ∧
          (P.activeSockets (seriesSum cur s) ≠ 0 ∨
            ∃ k, s.level.series k = s ∧ P.activeSockets (fiber Prod.fst Prod.snd prev k) ≠ 0) := by
  have hl := horder.nodeNode.isListing
  rw [Windowed.mem_outputMetrics]
  -- each series is emitted by the loop of its level alone
  cases s with
  | idId k =>
    rw [hv.mem_emitSeries_level hl (fun _ _ h => Series.idId.inj h)
      (show ∀ k, Level.idId.series k = Series.idId (id k) from fun _ => rfl) (fun _ => rfl)
      hl.groupSum_fst.symm horder.nodeNode]
    simp [mem_emitSeries, mem_emitAllMetrics, Level.enabled, Series.level]
  | idAz k =>
    rw [hv.mem_emitSeries_level hl (fun _ _ h => Series.idAz.inj h)
      (show ∀ k, Level.idAz.series k = Series.idAz k.nodeAz from fun _ => rfl) (fun _ => rfl)
      (nodeAzMap_eq _) horder.nodeAz]
    simp [mem_emitSeries, mem_emitAllMetrics, Level.enabled, Series.level]
  | azId k =>
    rw [hv.mem_emitSeries_level hl (fun _ _ h => Series.azId.inj h)
      (show ∀ k, Level.azId.series k = Series.azId k.azNode from fun _ => rfl) (fun _ => rfl)
      (azNodeMap_eq _) horder.azNode]
    simp [mem_emitSeries, mem_emitAllMetrics, Level.enabled, Series.level]
  | azAz k =>
    rw [hv.mem_emitSeries_level hl (fun _ _ h => Series.azAz.inj h)
      (show ∀ k, Level.azAz.series k = Series.azAz k.nodeAz.azAz from fun _ => rfl)
      (fun _ => rfl) (azAzMap_eq horder.nodeAz) horder.azAz]
    simp [mem_emitSeries, mem_emitAllMetrics, Level.enabled, Series.level]

end WindowView

/-! ## Two windows in a row -/

namespace Windowed

variable {w₀ w₁ : Windowed}

theorem metricsOf_cleanup (w : Windowed) (k : NodeNodeKey) : w.cleanup.agg.metricsOf k = 0 :=
  Aggregator.metricsOf_eq_zero (fun _ _ => metrics_cleanup) k

/-- At the end of a window that follows a window from a state with reset entries, the store holds
    the adds of the window, with the flags of the adds of the window before. -/
theorem windowView_end (hw₀ : w₀.PrevCleared) (hquiet : ∀ k, w₀.agg.metricsOf k = 0)
    (prevMsgs msgs : List AggMessage) (prevEnd : UInt64) (prevOrder : IterOrder)
    (hw₁ : (w₀.run (windowEvents prevMsgs prevEnd prevOrder)).2 = w₁) :
    WindowView ({ w₁ with agg := w₁.agg.run msgs } : Windowed).metricsAt
      (w₀.agg.windowAdds prevMsgs) (w₁.agg.windowAdds msgs) := by
  rw [run_windowEvents, outputMetrics_snd] at hw₁
  subst hw₁
  set v : Windowed := { w₀ with agg := w₀.agg.run prevMsgs } with hv_def
  -- the entries hold the adds of the window before, then, after the cleanup, those of this one
  have hprevSums : ∀ k,
      v.agg.metricsOf k = fiber Prod.fst Prod.snd (w₀.agg.windowAdds prevMsgs) k :=
    fun k => by rw [hv_def, Aggregator.metricsOf_run, hquiet, zero_add]
  have hcurSums : ∀ k, (v.cleanup.agg.run msgs).metricsOf k =
      fiber Prod.fst Prod.snd (v.cleanup.agg.windowAdds msgs) k :=
    fun k => by rw [Aggregator.metricsOf_run, metricsOf_cleanup, zero_add]
  refine ⟨fun k t ht => ?_, fun k t P ht => ?_, fun a ha => ?_, fun a ha => ?_⟩
  · obtain ⟨e, he, rfl⟩ := metricsAt_eq_some.mp ht
    rw [← hcurSums, Aggregator.metricsOf_of_some he]
  · obtain ⟨e, -, rfl⟩ := metricsAt_eq_some.mp ht
    show P.prevFlag (v.cleanup.prev k) = true ↔ _
    cases hvk : v.agg.nodeNodeStore k with
    | some e' =>
      rw [cleanup_prev_of_some hvk, prevFlag_cleanupEntry, ← hprevSums,
        Aggregator.metricsOf_of_some hvk]
    | none =>
      -- a key without an entry had none at the start of the window before, and got no add
      have h₀ : w₀.agg.nodeNodeStore k = none :=
        Aggregator.eq_none_of_run (show (w₀.agg.run prevMsgs).nodeNodeStore k = none from hvk)
      have hfib : fiber Prod.fst Prod.snd (w₀.agg.windowAdds prevMsgs) k = 0 := by
        rw [← hprevSums]
        simp [Aggregator.metricsOf, hvk]
      rw [cleanup_prev_of_none hvk, hv_def, hw₀ k h₀, hfib, P.activeSockets_zero]
      cases P <;> decide
  · rw [isSome_metricsAt]
    exact Aggregator.isSome_of_mem_windowAdds ha
  · rw [isSome_metricsAt]
    -- an add of the window before went to an entry, which the cleanup and this window keep
    refine Aggregator.isSome_run ?_ msgs
    rw [cleanup_store, Option.isSome_map]
    exact Aggregator.isSome_of_mem_windowAdds ha

/-- The window semantics of the aggregator. Let a window end, at `windowEnd`, a window that itself
    followed a window end, and let `prev` and `cur` be the adds of the two windows, each with the
    node-node entry it resolved to. Then, with the hash maps walked in any orders, the emissions
    are exactly these: under each series of an enabled level, each protocol whose sum of the adds
    under the series has samples, or some of whose node-node entries that roll up into the series
    had samples in the window before, with the sum of the adds under the series as its metrics.
    Each series and protocol is emitted once at most, and every entry is reset afterwards. -/
theorem outputMetrics_window_semantics (hw₀ : w₀.Reachable)
    (hquiet : ∀ k e, w₀.agg.nodeNodeStore k = some e → e.metrics = {})
    (prevMsgs msgs : List AggMessage) (prevEnd windowEnd : UInt64) (prevOrder order : IterOrder)
    (hw₁ : (w₀.run (windowEvents prevMsgs prevEnd prevOrder)).2 = w₁)
    (horder : order.Walks { w₁ with agg := w₁.agg.run msgs }) :
    let prev := w₀.agg.windowAdds prevMsgs
    let cur := w₁.agg.windowAdds msgs
    let r := w₁.run (windowEvents msgs windowEnd order)
    (∀ ts s e, ⟨ts, s, e⟩ ∈ r.1 ↔
      s.level.enabled w₀.enableIdId w₀.enableAzId = true ∧ ts = windowEnd.toInt64 ∧
        ∃ P : Protocol, e = P.emission (seriesSum cur s) ∧
          (P.activeSockets (seriesSum cur s) ≠ 0 ∨
            ∃ k, s.level.series k = s ∧ P.activeSockets (fiber Prod.fst Prod.snd prev k) ≠ 0)) ∧
    (r.1.map fun x => (x.series, x.emission.protocol)).Nodup ∧
    ∀ k e, r.2.agg.nodeNodeStore k = some e → e.metrics = {} := by
  intro prev cur r
  have hview := windowView_end hw₀.prevCleared (Aggregator.metricsOf_eq_zero hquiet) prevMsgs msgs
    prevEnd prevOrder hw₁
  have hr : r = ({ w₁ with agg := w₁.agg.run msgs } : Windowed).outputMetrics order windowEnd :=
    run_windowEvents w₁ msgs windowEnd order
  obtain ⟨hid, haz⟩ := flags_run w₀ (windowEvents prevMsgs prevEnd prevOrder)
  rw [hw₁] at hid haz
  refine ⟨fun ts s e => ?_, ?_, fun k e he => ?_⟩
  · rw [hr, hview.mem_outputMetrics horder windowEnd ts s e]
    exact Iff.of_eq (by rw [← hid, ← haz])
  · rw [hr]
    exact nodup_outputMetrics horder windowEnd
  · rw [hr, outputMetrics_snd] at he
    exact metrics_cleanup he

/-- A new aggregator's first window: its `output_metrics` leaves the aggregator as it was. -/
theorem run_windowEvents_new (enableIdId enableAzId disableNodeIpField : Bool)
    (windowEndNs : UInt64) (order : IterOrder) :
    ((new enableIdId enableAzId disableNodeIpField).run (windowEvents [] windowEndNs order)).2 =
      new enableIdId enableAzId disableNodeIpField := by
  rw [run_windowEvents, outputMetrics_snd]
  simp only [cleanup, new, Aggregator.run, List.foldl_nil]
  rfl

theorem outputMetrics_window_semantics_first_window :
    let az : Az := ⟨"", "", "", "", "", 0, "", "", ""⟩
    let node : Node := ⟨"", "", ""⟩
    let k : NodeNodeKey := ⟨az, node, az, node⟩
    let msgs : List AggMessage := [.aggRootStart (0, 0), .updateNode (0, 0) 0 az node,
      .updateNode (0, 0) 1 az node, .updateTcp (0, 0) 0 { activeSockets := 1 }]
    let w := new true true false
    let r := w.run (windowEvents msgs 10 ⟨[k], [k.nodeAz], [k.azNode], [k.nodeAz.azAz]⟩)
    (∀ ts s e, ⟨ts, s, e⟩ ∈ r.1 ↔
      s.level.enabled true true = true ∧ ts = (10 : UInt64).toInt64 ∧
        ∃ P : Protocol, e = P.emission (seriesSum (w.agg.windowAdds msgs) s) ∧
          (P.activeSockets (seriesSum (w.agg.windowAdds msgs) s) ≠ 0 ∨
            ∃ k, s.level.series k = s ∧
              P.activeSockets (fiber Prod.fst Prod.snd (w.agg.windowAdds []) k) ≠ 0)) ∧
    (r.1.map fun x => (x.series, x.emission.protocol)).Nodup ∧
    ∀ k e, r.2.agg.nodeNodeStore k = some e → e.metrics = {} := by
  intro az node k msgs w r
  -- the window wires one root over one key and adds one socket to it
  have hstore : (w.agg.run msgs).nodeNodeStore =
      fun r => if r = k then some ⟨{ tcp := { activeSockets := 1 } }, some k⟩ else none := by
    funext r
    simp [w, msgs, Aggregator.run, Aggregator.handle, new, Aggregator.new,
      Aggregator.aggRootStart, Aggregator.updateNode, Aggregator.wireRoot,
      Aggregator.findOrInsert, Aggregator.addTcp, Aggregator.addMetrics,
      Aggregator.findNodeNodeRef, Aggregator.direction, update_apply]
    rfl
  have horder : IterOrder.Walks ⟨[k], [k.nodeAz], [k.azNode], [k.nodeAz.azAz]⟩
      { w with agg := w.agg.run msgs } := by
    refine ⟨⟨List.nodup_singleton _, fun r => ?_⟩, ⟨List.nodup_singleton _, fun r => ?_⟩,
      ⟨List.nodup_singleton _, fun r => ?_⟩, ⟨List.nodup_singleton _, fun r => ?_⟩⟩
    · by_cases h : r = k <;> simp [h, metricsAt, hstore]
    · by_cases h : r = k.nodeAz <;>
        simp [h, metricsAt, hstore, entries, nodeAzMap, aggregate, aggregateWith, accumulate]
    · by_cases h : r = k.azNode <;>
        simp [h, metricsAt, hstore, entries, azNodeMap, aggregate, aggregateWith, accumulate]
    · by_cases h : r = k.nodeAz.azAz <;>
        simp [h, metricsAt, hstore, entries, nodeAzMap, azAzMap, aggregate, aggregateWith,
          accumulate, update_apply]
  exact outputMetrics_window_semantics ⟨true, true, false, [], rfl⟩ (fun _ e h => absurd h.symm (Option.some_ne_none e))
    [] msgs 0 10 _ _ (run_windowEvents_new true true false 0 ⟨[], [], [], []⟩) horder

end Windowed

end OtelNetwork.Aggregation
