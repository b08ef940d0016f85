import Mathlib.Data.Finset.Card

/-!
# `DnsRequests`: DNS requests waiting for their response

A model of `collector/kernel/dns_requests.{h,cc}` and of the DNS handlers of
`collector/kernel/buffered_poller.cc`. The requests are the nodes of the `std::list`
`dns_requests_`. An iterator to a node is a `Request`: it carries the node's key and value,
which never change while the node lives, and an identity `id`, since iterators compare by node.
The two `unordered_multimap`s are lists of pairs; the order in which they are walked is the
library's, here the order of insertion.

`dns_request_key_hash` and `dns_request_key_equal_to` leave out `is_rx`, and so do the lookups
by key. The DNS packet comes parsed: `dns_parse_query` gives the query or fails, and
`dns_parse_a_aaaa_reply` finds a host name and addresses or not. A `dns_response` or
`dns_timeout` message the poller writes is given with the request it was computed from. Log calls,
the sanity check of the packet length, the socket's fields that `handle_udp_new_socket` fills and
the messages it and `handle_udp_destroy_socket` send are left out. Dereferencing the table entry of a socket that is not in `udp_socket_table_` is
undefined, the error side of `Except String`.
-/

namespace OtelNetwork.Collector

/-- `DnsRequests::dns_request_key`. -/
structure DnsRequestKey where
  qid : UInt16
  type : UInt16
  name : List Char
  /-- Whether the request was received (a server's) rather than sent (a client's). -/
  isRx : Bool
deriving DecidableEq, Repr

/-- `DnsRequests::dns_request_value`. -/
structure DnsRequestValue where
  timestampNs : UInt64
  sk : UInt64
deriving DecidableEq, Repr

/-- `DnsRequests::Request`, an iterator to a node of `dns_requests_`. -/
structure Request where
  id : Nat
  key : DnsRequestKey
  value : DnsRequestValue
deriving DecidableEq, Repr

/-- `dns_request_key_equal_to`. -/
def keyEqualTo (k k2 : DnsRequestKey) : Bool :=
  k.qid == k2.qid && k.type == k2.type && k.name == k2.name

/-- `DnsRequests`, with the identity of the next node. -/
structure DnsRequests where
  dnsRequestsByKey : List (DnsRequestKey × Request)
  dnsRequests : List Request
  dnsRequestsBySock : List (UInt64 × Request)
  nextId : Nat
deriving DecidableEq, Repr

namespace DnsRequests

/-- No request. -/
def empty : DnsRequests := ⟨[], [], [], 0⟩

/-- `add(key, value)`. -/
def add (d : DnsRequests) (key : DnsRequestKey) (value : DnsRequestValue) : DnsRequests :=
  let iter : Request := ⟨d.nextId, key, value⟩
  { dnsRequests := d.dnsRequests ++ [iter],
    dnsRequestsByKey := d.dnsRequestsByKey ++ [(key, iter)],
    dnsRequestsBySock := d.dnsRequestsBySock ++ [(value.sk, iter)],
    nextId := d.nextId + 1 }

/-- `lookup(key, out)`: the requests of the key's equal range. -/
def lookup (d : DnsRequests) (key : DnsRequestKey) : List Request :=
  (d.dnsRequestsByKey.filter fun e => keyEqualTo e.1 key).map Prod.snd

/-- `lookup_older_than(timestamp_ns, out)`: the requests from the front of the list up to the
    first one that is not older. -/
def lookupOlderThan (d : DnsRequests) (timestampNs : UInt64) : List Request :=
  d.dnsRequests.takeWhile fun r => r.value.timestampNs < timestampNs

/-- `lookup_socket(sk, out)`. -/
def lookupSocket (d : DnsRequests) (sk : UInt64) : List Request :=
  (d.dnsRequestsBySock.filter fun e => e.1 == sk).map Prod.snd

/-- `dns_requests_by_sock_` without the first entry of the socket's range that holds `req`. -/
def eraseBySock (bySock : List (UInt64 × Request)) (req : Request) : List (UInt64 × Request) :=
  bySock.eraseP fun e => e.1 == req.value.sk && e.2.id == req.id

/-- The socket entry and the node of a request, which `remove` and `remove_all_with_key` both
    erase. -/
def unlink (d : DnsRequests) (req : Request) : DnsRequests :=
  { d with
    dnsRequestsBySock := eraseBySock d.dnsRequestsBySock req,
    dnsRequests := d.dnsRequests.eraseP fun r => r.id == req.id }

/-- `remove(req)`: the first entry of the key's equal range that holds `req`, then the socket
    entry and the node. -/
def remove (d : DnsRequests) (req : Request) : DnsRequests :=
  { d.unlink req with
    dnsRequestsByKey :=
      d.dnsRequestsByKey.eraseP fun e => keyEqualTo e.1 req.key && e.2.id == req.id }

/-- `remove_all_with_key(key)`: for each entry of the key's equal range, the socket entry and the
    node of its request, then the entry. -/
def removeAllWithKey (d : DnsRequests) (key : DnsRequestKey) : DnsRequests :=
  let d' := (d.lookup key).foldl unlink d
  { d' with dnsRequestsByKey := d'.dnsRequestsByKey.filter fun e => !keyEqualTo e.1 key }

end DnsRequests

/-- What `dns_parse_query` reads from a packet. -/
structure DnsQuery where
  isResponse : Bool
  type : UInt16
  qid : UInt16
  hostname : List Char
deriving DecidableEq, Repr

/-- `jb_agent_internal__dns_packet`, parsed. -/
structure DnsMessage where
  timestamp : UInt64
  sk : UInt64
  isRx : Bool
  /-- The query `dns_parse_query` reads, `none` when it fails. -/
  query : Option DnsQuery
  /-- `dns_parse_a_aaaa_reply` found a host name and at least one address. -/
  aaaaReply : Bool
deriving DecidableEq, Repr

/-- The calls of `BufferedPoller` that touch the DNS requests or the sockets they name. -/
inductive PollerCall where
  | handleUdpNewSocket (sk : UInt64)
  | handleDnsMessage (msg : DnsMessage)
  | handleUdpDestroySocket (timestamp sk : UInt64)
  | processDnsTimeouts (t : UInt64)
deriving DecidableEq, Repr

/-- A message the poller writes. -/
inductive PollerOutput where
  /-- `dns_response_tstamp` for a request: the latency and `SC_CLIENT` (0) or `SC_SERVER` (1). -/
  | dnsResponse (req : Request) (latencyNs : UInt64) (clientServer : UInt8)
  /-- `dns_timeout_tstamp` for a request. -/
  | dnsTimeout (req : Request) (durationNs : UInt64)
deriving DecidableEq, Repr

/-- `udp_socket_table_max_sockets`, that is `TABLE_SIZE__UDP_OPEN_SOCKETS`. -/
def udpSocketTableMaxSockets : Nat := 256 * 1024

/-- `DNS_TIMEOUT_TIME_NS`. -/
def dnsTimeoutTimeNs : UInt64 := 10000000000

/-- The state of `BufferedPoller` that its DNS handlers read and write: the sockets of
    `udp_socket_table_` and `dns_requests_`. -/
structure Poller where
  udpSocketTable : Finset UInt64
  dnsRequests : DnsRequests
deriving DecidableEq

namespace Poller

/-- A new poller: no socket, no request. -/
def empty : Poller := ⟨∅, .empty⟩

/-- `handle_udp_new_socket`: the socket enters the table, unless the table is full or holds it. -/
def handleUdpNewSocket (p : Poller) (sk : UInt64) : Poller :=
  if p.udpSocketTable.card = udpSocketTableMaxSockets then p
  else { p with udpSocketTable := insert sk p.udpSocketTable }

/-- `timeout_dns_request(timestamp_ns, req)`: a timeout message if the socket is known, and the
    request removed. -/
def timeoutDnsRequest (p : Poller) (timestampNs : UInt64) (req : Request) :
    List PollerOutput × Poller :=
  let out :=
    if req.value.sk ∈ p.udpSocketTable then
      [.dnsTimeout req (timestampNs - req.value.timestampNs)]
    else []
  (out, { p with dnsRequests := p.dnsRequests.remove req })

/-- `for (auto &req : reqs) timeout_dns_request(timestamp_ns, req);` -/
def timeoutAll (p : Poller) (timestampNs : UInt64) : List Request → List PollerOutput × Poller
  | [] => ([], p)
  | req :: reqs =>
    let (out, p) := p.timeoutDnsRequest timestampNs req
    let (outs, p) := p.timeoutAll timestampNs reqs
    (out ++ outs, p)

/-- `process_dns_timeouts(t)`. -/
def processDnsTimeouts (p : Poller) (t : UInt64) : List PollerOutput × Poller :=
  p.timeoutAll t (p.dnsRequests.lookupOlderThan (t - dnsTimeoutTimeNs))

/-- `handle_udp_destroy_socket`: the socket's requests time out, and the socket leaves the
    table. -/
def handleUdpDestroySocket (p : Poller) (timestamp sk : UInt64) : List PollerOutput × Poller :=
  if sk ∉ p.udpSocketTable then ([], p)
  else
    let (out, p) := p.timeoutAll timestamp (p.dnsRequests.lookupSocket sk)
    (out, { p with udpSocketTable := p.udpSocketTable.erase sk })

/-- The body of the loop over the matching requests of `handle_dns_message`. -/
def respondTo (p : Poller) (msg : DnsMessage) (req : Request) : Except String (List PollerOutput) :=
  if msg.aaaaReply then
    -- a request of another socket: the table entries of both sockets are read
    if msg.sk ≠ req.value.sk ∧ req.value.sk ∉ p.udpSocketTable then
      .error "pos2.entry of a socket not in udp_socket_table_"
    else
      .ok [.dnsResponse req (msg.timestamp - req.value.timestampNs) (if msg.isRx then 0 else 1)]
  else .ok []

/-- `handle_dns_message`. -/
def handleDnsMessage (p : Poller) (msg : DnsMessage) : Except String (List PollerOutput × Poller) :=
  if msg.sk ∉ p.udpSocketTable then .ok ([], p)
  else
    match msg.query with
    | none => .ok ([], p)
    | some q =>
      if !q.isResponse then
        let key : DnsRequestKey := ⟨q.qid, q.type, q.hostname, msg.isRx⟩
        .ok ([], { p with dnsRequests := p.dnsRequests.add key ⟨msg.timestamp, msg.sk⟩ })
      else
        -- the requests of the other direction
        let key : DnsRequestKey := ⟨q.qid, q.type, q.hostname, !msg.isRx⟩
        let reqs := p.dnsRequests.lookup key
        if reqs.length > 0 then do
          let outs ← reqs.mapM (p.respondTo msg)
          return (outs.flatten, { p with dnsRequests := p.dnsRequests.removeAllWithKey key })
        else .ok ([], p)

/-- One call. -/
def step (p : Poller) : PollerCall → Except String (List PollerOutput × Poller)
  | .handleUdpNewSocket sk => .ok ([], p.handleUdpNewSocket sk)
  | .handleDnsMessage msg => p.handleDnsMessage msg
  | .handleUdpDestroySocket timestamp sk => .ok (p.handleUdpDestroySocket timestamp sk)
  | .processDnsTimeouts t => .ok (p.processDnsTimeouts t)

end Poller

end OtelNetwork.Collector
