import OtelNetwork.Collector.DnsRequests

/-!
# What the DNS request tracking is for

The poller keeps the sockets it knows and, oldest first, the DNS requests still waiting for their
response: distinct nodes (`Fresh`) of known sockets. A request enters when a known socket sends
or receives a query. It leaves when a response with the same query id, type and name comes on a
known socket, when its socket is destroyed, or when it is older than `dnsTimeoutTimeNs`. A
response is reported for each request it removes when it carried addresses. A destroyed socket
or a timeout reports each request it removes.

The direction of a request takes no part in the matching (`answers`): the key's `is_rx` is left
out by its hash and its equality, so a response is matched with the requests of both directions.

`Pending` carries both invariants as fields, so that every state of the specification has them.
-/

namespace OtelNetwork.Collector

/-- Requests of distinct identities below `nextId`: distinct nodes of the list, none of them the
    next node. -/
structure Fresh (rs : List Request) (nextId : Nat) : Prop where
  nodup : (rs.map Request.id).Nodup
  id_lt : ∀ r ∈ rs, r.id < nextId

namespace Fresh

variable {rs rs' : List Request} {n : Nat}

theorem nil (n : Nat) : Fresh [] n := ⟨List.nodup_nil, by simp⟩

theorem sublist (h : Fresh rs n) (hs : rs'.Sublist rs) : Fresh rs' n :=
  ⟨h.nodup.sublist (hs.map _), fun r hr => h.id_lt r (hs.subset hr)⟩

theorem append (h : Fresh rs n) (key : DnsRequestKey) (value : DnsRequestValue) :
    Fresh (rs ++ [⟨n, key, value⟩]) (n + 1) := by
  constructor
  · have hnew : n ∉ rs.map Request.id := by
      simp only [List.mem_map, not_exists, not_and]
      exact fun r hr hid => (h.id_lt r hr).ne hid
    simpa [List.nodup_append] using ⟨h.nodup, fun r hr hid => hnew (hid ▸ List.mem_map_of_mem hr)⟩
  · intro r hr
    rcases List.mem_append.mp hr with hr | hr
    · exact Nat.lt_succ_of_lt (h.id_lt r hr)
    · rw [List.mem_singleton.mp hr]
      exact Nat.lt_succ_self n

end Fresh

/-- The response to the query `q` answers the request `r`: same query id, type and name. -/
def answers (q : DnsQuery) (r : Request) : Bool :=
  r.key.qid == q.qid && r.key.type == q.type && r.key.name == q.hostname

/-- The `dns_timeout` message of a request that times out at `timestampNs`. -/
def timeoutOf (timestampNs : UInt64) (r : Request) : PollerOutput :=
  .dnsTimeout r (timestampNs - r.value.timestampNs)

/-- The `dns_response` message of a request that `msg` answers: a client receives the response, a
    server sends it. -/
def responseOf (msg : DnsMessage) (r : Request) : PollerOutput :=
  .dnsResponse r (msg.timestamp - r.value.timestampNs) (if msg.isRx then 0 else 1)

/-- The sockets the poller knows, and the requests waiting for their response, oldest first. -/
structure Pending where
  sockets : Finset UInt64
  requests : List Request
  nextId : Nat
  fresh : Fresh requests nextId
  sk_mem : ∀ r ∈ requests, r.value.sk ∈ sockets

namespace Pending

/-- No socket, no request. -/
def empty : Pending := ⟨∅, [], 0, .nil 0, by simp⟩

/-- The requests of which `p` holds stay, the others leave. -/
def keep (t : Pending) (p : Request → Bool) : Pending :=
  ⟨t.sockets, t.requests.filter p, t.nextId, t.fresh.sublist List.filter_sublist,
    fun r hr => t.sk_mem r (List.mem_of_mem_filter hr)⟩

/-- A request of a known socket enters, as a new node. -/
def record (t : Pending) (key : DnsRequestKey) (value : DnsRequestValue)
    (h : value.sk ∈ t.sockets) : Pending :=
  ⟨t.sockets, t.requests ++ [⟨t.nextId, key, value⟩], t.nextId + 1, t.fresh.append key value, by
    intro r hr
    rcases List.mem_append.mp hr with hr | hr
    · exact t.sk_mem r hr
    · rw [List.mem_singleton.mp hr]
      exact h⟩

/-- A socket becomes known. -/
def addSocket (t : Pending) (sk : UInt64) : Pending :=
  ⟨insert sk t.sockets, t.requests, t.nextId, t.fresh,
    fun r hr => Finset.mem_insert_of_mem (t.sk_mem r hr)⟩

/-- A socket is forgotten, and its requests leave. -/
def dropSocket (t : Pending) (sk : UInt64) : Pending :=
  ⟨t.sockets.erase sk, t.requests.filter (fun r => r.value.sk != sk), t.nextId,
    t.fresh.sublist List.filter_sublist, by
    intro r hr
    obtain ⟨hr, hsk⟩ := List.mem_filter.mp hr
    exact Finset.mem_erase.mpr ⟨by simpa using hsk, t.sk_mem r hr⟩⟩

/-- The messages of one call and the state after it. -/
def step (t : Pending) : PollerCall → List PollerOutput × Pending
  | .handleUdpNewSocket sk =>
    ([], if t.sockets.card = udpSocketTableMaxSockets then t else t.addSocket sk)
  | .handleDnsMessage msg =>
    if h : msg.sk ∈ t.sockets then
      match msg.query with
      | none => ([], t)
      | some q =>
        if q.isResponse then
          let answered := t.requests.filter (answers q)
          (if msg.aaaaReply then answered.map (responseOf msg) else [],
            t.keep fun r => !answers q r)
        else ([], t.record ⟨q.qid, q.type, q.hostname, msg.isRx⟩ ⟨msg.timestamp, msg.sk⟩ h)
    else ([], t)
  | .handleUdpDestroySocket timestamp sk =>
    if sk ∈ t.sockets then
      ((t.requests.filter fun r => r.value.sk == sk).map (timeoutOf timestamp), t.dropSocket sk)
    else ([], t)
  | .processDnsTimeouts ts =>
    -- `ts - dnsTimeoutTimeNs` wraps around, as the `u64` difference does
    let old := t.requests.takeWhile fun r => r.value.timestampNs < ts - dnsTimeoutTimeNs
    (old.map (timeoutOf ts), t.keep fun r => r ∉ old)

end Pending

end OtelNetwork.Collector
