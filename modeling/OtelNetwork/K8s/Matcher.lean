import Mathlib.Data.List.Basic

/-!
# The k8s-collector matcher and the reducer's pod view

A model of `crates/k8s-collector/src/matcher.rs` together with the parts of its surroundings that
the matcher's contract is about:

* the kube reflector `Store`s and the `Writer` that feeds each one (`apply_watcher_event`):
  `Apply` inserts or replaces by uid, `Delete` removes, `Init`/`InitApply` fill a buffer that
  `InitDone` installs as the whole store;
* the `Matcher` with its waiting lists and live-pod set (`handle_owner`, `handle_pod`,
  `start_new_epoch`, `try_emit_pod`);
* the collector loop (`collector.rs`), which applies each watcher event to its store and then
  passes it to the matcher;
* the reducer's set of pods (`AgentSpan::k8s_pods_` in `reducer/ingest/agent_span.cc`), rebuilt
  from the render events: `PodResync` clears it, `PodNew` adds the uid, `PodDelete` removes it.

Hash maps and hash sets are lists; where the source iterates one (`Store::state`,
`waiting_by_owner.keys()`), the model iterates the list in its order.
-/

namespace OtelNetwork.K8s

/-- `OwnerKind`. -/
inductive OwnerKind where
  | replicaSet
  | deployment
  | job
  | cronJob
  | noOwner
  | other
deriving DecidableEq, Repr

/-- `OwnerKind::is_rs_or_job`. -/
def OwnerKind.isRsOrJob : OwnerKind → Bool
  | .replicaSet | .job => true
  | _ => false

/-- `OwnerRef`. -/
structure OwnerRef where
  kind : OwnerKind
  uid : String
  name : String
deriving DecidableEq, Repr

/-- `ContainerMeta`. -/
structure ContainerMeta where
  id : String
  name : String
  image : String
deriving DecidableEq, Repr

/-- `PodMeta`. -/
structure PodMeta where
  uid : String
  ip : String
  name : String
  /-- `namespace`. -/
  ns : String
  owner : Option OwnerRef
  hostNetwork : Bool
  version : String
  containers : List ContainerMeta
deriving DecidableEq, Repr

/-- `PodMeta::has_ip`. -/
def PodMeta.hasIp (p : PodMeta) : Bool := !p.ip.isEmpty

/-- `OwnerMeta`. -/
structure OwnerMeta where
  uid : String
  controller : Option OwnerRef
deriving DecidableEq, Repr

/-- `RenderEvent`. -/
inductive RenderEvent where
  | podResync (epoch : UInt64)
  | podNew (uid ip podName ns version : String) (ownerKind : OwnerKind)
      (ownerUid ownerName : String) (isHostNetwork : Bool)
  | podContainer (uid : String) (container : ContainerMeta)
  | podDelete (uid : String)
deriving DecidableEq, Repr

/-- `RenderEvent::from_pod_new`: `PodNew` followed by one `PodContainer` per container. -/
def RenderEvent.fromPodNew (pod : PodMeta) (owner : Option OwnerRef) : List RenderEvent :=
  let (ownerKind, ownerUid, ownerName) := match owner with
    | some o => (o.kind, o.uid, o.name)
    | none => (OwnerKind.noOwner, "", pod.name)
  .podNew pod.uid pod.ip pod.name pod.ns pod.version ownerKind ownerUid ownerName
      pod.hostNetwork ::
    pod.containers.map fun c => .podContainer pod.uid c

/-! ## Reflector stores -/

/-- kube's `Lookup`, reduced to what the stores here key by: the object's uid. -/
class Lookup (K : Type) where
  uid : K → String

instance : Lookup PodMeta := ⟨PodMeta.uid⟩
instance : Lookup OwnerMeta := ⟨OwnerMeta.uid⟩

/-- `kube::runtime::watcher::Event`. -/
inductive Event (K : Type) where
  | init
  | initApply (obj : K)
  | apply (obj : K)
  | delete (obj : K)
  | initDone

/-- A reflector `Store`: the objects it holds, one per uid. -/
structure Store (K : Type) where
  items : List K

namespace Store

variable {K : Type} [Lookup K]

def empty : Store K := ⟨[]⟩

/-- `Store::get` by uid. -/
def get (s : Store K) (uid : String) : Option K := s.items.find? fun o => Lookup.uid o == uid

/-- Insert or replace the object of `obj`'s uid. -/
def insert (s : Store K) (obj : K) : Store K :=
  ⟨obj :: s.items.filter fun o => Lookup.uid o != Lookup.uid obj⟩

/-- Remove the object of uid `uid`. -/
def remove (s : Store K) (uid : String) : Store K :=
  ⟨s.items.filter fun o => Lookup.uid o != uid⟩

/-- `Store::state`. -/
def state (s : Store K) : List K := s.items

end Store

/-- The reflector `Writer` of a store: the store it publishes, and the buffer of a relist in
    progress. -/
structure Writer (K : Type) where
  store : Store K
  buffer : List K

/-- `Writer::apply_watcher_event`. -/
def Writer.applyWatcherEvent {K : Type} [Lookup K] (w : Writer K) : Event K → Writer K
  | .apply obj => { w with store := w.store.insert obj }
  | .delete obj => { w with store := w.store.remove (Lookup.uid obj) }
  | .init => { w with buffer := [] }
  | .initApply obj =>
    { w with buffer := obj :: w.buffer.filter fun o => Lookup.uid o != Lookup.uid obj }
  | .initDone => { store := ⟨w.buffer⟩, buffer := [] }

/-! ## The matcher -/

/-- `Matcher`. `waiting_by_owner` maps an owner uid to the pod uids waiting for it. -/
structure Matcher where
  epoch : UInt64
  rsOwners : Store OwnerMeta
  jobOwners : Store OwnerMeta
  waitingByOwner : List (String × List String)
  pods : Store PodMeta
  livePods : List String

namespace Matcher

/-- `Matcher::new`. -/
def new (rsOwners jobOwners : Store OwnerMeta) (pods : Store PodMeta) : Matcher :=
  { epoch := 0, rsOwners, jobOwners, waitingByOwner := [], pods, livePods := [] }

/-- `Matcher::get_owner_meta`: the ReplicaSet store first, then the Job store. -/
def getOwnerMeta (m : Matcher) (uid : String) : Option OwnerMeta :=
  (m.rsOwners.get uid).or (m.jobOwners.get uid)

/-- `Matcher::owner_exists`. -/
def ownerExists (m : Matcher) (uid : String) : Bool :=
  (m.rsOwners.get uid).isSome || (m.jobOwners.get uid).isSome

/-- `HashSet::insert` on `live_pods`. -/
def insertLive (m : Matcher) (uid : String) : Matcher :=
  { m with livePods := m.livePods.insert uid }

/-- `waiting_by_owner.entry(owner).or_default()`, then push `pod` unless it is already there. -/
def enqueue (m : Matcher) (owner pod : String) : Matcher :=
  match m.waitingByOwner.lookup owner with
  | none => { m with waitingByOwner := m.waitingByOwner ++ [(owner, [pod])] }
  | some w =>
    if w.any (· == pod) then m
    else
      { m with waitingByOwner :=
          m.waitingByOwner.map fun e => if e.1 == owner then (e.1, e.2 ++ [pod]) else e }

/-- `waiting_by_owner.remove(owner)`. -/
def takeWaiting (m : Matcher) (owner : String) : Option (List String) × Matcher :=
  (m.waitingByOwner.lookup owner,
    { m with waitingByOwner := m.waitingByOwner.filter fun e => e.1 != owner })

/-- The owner a pod is reported under once its owner is known: a ReplicaSet's Deployment or a
    Job's CronJob when the owner has such a controller. -/
def escalate (owner : OwnerRef) (om : OwnerMeta) : OwnerRef :=
  match om.controller with
  | some ctrl => if ctrl.kind = .deployment ∨ ctrl.kind = .cronJob then ctrl else owner
  | none => owner

/-- `Matcher::try_emit_pod`: `PodNew` (with containers) for a pod with an IP whose owner is
    resolved, which becomes live; a pod whose ReplicaSet/Job owner is unknown waits for it. -/
def tryEmitPod (m : Matcher) (p : PodMeta) : List RenderEvent × Matcher :=
  if !p.hasIp then ([], m)
  else
    match p.owner with
    | none => (RenderEvent.fromPodNew p none, m.insertLive p.uid)
    | some owner =>
      if !owner.kind.isRsOrJob then (RenderEvent.fromPodNew p (some owner), m.insertLive p.uid)
      else
        match m.getOwnerMeta owner.uid with
        | some om => (RenderEvent.fromPodNew p (some (escalate owner om)), m.insertLive p.uid)
        | none => ([], m.enqueue owner.uid p.uid)

/-- One turn of the loop `for puid in pods { if let Some(p) = self.pods.get(..) { .. } }` that
    drains a waiting list: the pod, if still in the store, goes through `try_emit_pod`. -/
def emitWaitingStep (acc : List RenderEvent × Matcher) (puid : String) :
    List RenderEvent × Matcher :=
  match acc.2.pods.get puid with
  | some p => let r := acc.2.tryEmitPod p; (acc.1 ++ r.1, r.2)
  | none => acc

def emitWaiting (m : Matcher) (puids : List String) : List RenderEvent × Matcher :=
  puids.foldl emitWaitingStep ([], m)

/-- One turn of the `InitDone` scan of `handle_owner`: drain the waiters of an owner that now
    exists. -/
def drainIfExists (acc : List RenderEvent × Matcher) (ownerUid : String) :
    List RenderEvent × Matcher :=
  if acc.2.ownerExists ownerUid then
    match acc.2.takeWaiting ownerUid with
    | (some pods, m) => let r := m.emitWaiting pods; (acc.1 ++ r.1, r.2)
    | (none, m) => (acc.1, m)
  else acc

/-- `Matcher::handle_owner`, after the event has been applied to the owner's store. -/
def handleOwner (m : Matcher) : Event OwnerMeta → List RenderEvent × Matcher
  | .init | .initApply _ | .delete _ => ([], m)
  | .apply o =>
    match m.takeWaiting o.uid with
    | (some pods, m') => m'.emitWaiting pods
    | (none, m') => ([], m')
  | .initDone => (m.waitingByOwner.map Prod.fst).foldl drainIfExists ([], m)

/-- One turn of the loop of `start_new_epoch` over the pod store. -/
def emitPodsStep (acc : List RenderEvent × Matcher) (p : PodMeta) : List RenderEvent × Matcher :=
  let r := acc.2.tryEmitPod p
  (acc.1 ++ r.1, r.2)

def emitPods (m : Matcher) (ps : List PodMeta) : List RenderEvent × Matcher :=
  ps.foldl emitPodsStep ([], m)

/-- `Matcher::start_new_epoch`: a new epoch, no waiters, `PodResync` and then every pod of the
    store that `try_emit_pod` emits. The live-pod set is kept. -/
def startNewEpoch (m : Matcher) : List RenderEvent × Matcher :=
  let m₁ := { m with epoch := m.epoch + 1, waitingByOwner := [] }
  let r := m₁.emitPods m₁.pods.state
  (.podResync m₁.epoch :: r.1, r.2)

/-- `Matcher::handle_pod`, after the event has been applied to the pod store. -/
def handlePod (m : Matcher) : Event PodMeta → List RenderEvent × Matcher
  | .init | .initApply _ => ([], m)
  | .apply p =>
    if m.livePods.contains p.uid then
      -- a live pod only reports its containers
      (p.containers.map fun c => .podContainer p.uid c, m)
    else m.tryEmitPod p
  | .delete p =>
    let out := if m.livePods.contains p.uid then [RenderEvent.podDelete p.uid] else []
    (out, { m with livePods := m.livePods.filter (· != p.uid),
                   waitingByOwner := m.waitingByOwner.map fun e => (e.1, e.2.filter (· != p.uid)) })
  | .initDone => m.startNewEpoch

end Matcher

/-! ## The reducer's pod set -/

/-- The pods the reducer's `AgentSpan` holds for this collector (the keys of `k8s_pods_`). -/
structure AgentSpan where
  k8sPods : List String

namespace AgentSpan

/-- The reducer's handling of one render event: `pod_resync` clears the set, `set_pod_new`
    replaces the pod's entry, `pod_delete` drops it, and `pod_container` leaves the set alone. -/
def render (a : AgentSpan) : RenderEvent → AgentSpan
  | .podResync _ => ⟨[]⟩
  | .podNew uid .. => ⟨uid :: a.k8sPods.filter (· != uid)⟩
  | .podDelete uid => ⟨a.k8sPods.filter (· != uid)⟩
  | .podContainer .. => a

def renderAll (a : AgentSpan) (evs : List RenderEvent) : AgentSpan := evs.foldl render a

end AgentSpan

/-! ## The collector loop -/

/-- An input of the collector: an event of one of the three watcher streams, or a new epoch
    (on a reducer connection). -/
inductive Input where
  | pod (ev : Event PodMeta)
  | rsOwner (ev : Event OwnerMeta)
  | jobOwner (ev : Event OwnerMeta)
  | startNewEpoch

/-- The collector with the reducer connected to it: the matcher (holding the three stores), the
    writers' relist buffers, and the reducer's pod set. -/
structure Pipeline where
  matcher : Matcher
  rsOwnersBuffer : List OwnerMeta
  jobOwnersBuffer : List OwnerMeta
  podsBuffer : List PodMeta
  span : AgentSpan

namespace Pipeline

def init : Pipeline :=
  { matcher := Matcher.new Store.empty Store.empty Store.empty, rsOwnersBuffer := [],
    jobOwnersBuffer := [], podsBuffer := [], span := ⟨[]⟩ }

/-- One input: apply the event to its store's writer, pass it to the matcher, and render the
    resulting events at the reducer. -/
def step (s : Pipeline) : Input → Pipeline
  | .pod ev =>
    let w := Writer.applyWatcherEvent ⟨s.matcher.pods, s.podsBuffer⟩ ev
    let r := { s.matcher with pods := w.store }.handlePod ev
    { s with matcher := r.2, podsBuffer := w.buffer, span := s.span.renderAll r.1 }
  | .rsOwner ev =>
    let w := Writer.applyWatcherEvent ⟨s.matcher.rsOwners, s.rsOwnersBuffer⟩ ev
    let r := { s.matcher with rsOwners := w.store }.handleOwner ev
    { s with matcher := r.2, rsOwnersBuffer := w.buffer, span := s.span.renderAll r.1 }
  | .jobOwner ev =>
    let w := Writer.applyWatcherEvent ⟨s.matcher.jobOwners, s.jobOwnersBuffer⟩ ev
    let r := { s.matcher with jobOwners := w.store }.handleOwner ev
    { s with matcher := r.2, jobOwnersBuffer := w.buffer, span := s.span.renderAll r.1 }
  | .startNewEpoch =>
    let r := s.matcher.startNewEpoch
    { s with matcher := r.2, span := s.span.renderAll r.1 }

def run (s : Pipeline) (inputs : List Input) : Pipeline := inputs.foldl step s

end Pipeline

end OtelNetwork.K8s
