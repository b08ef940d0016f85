import Mathlib.Logic.Function.Basic
import Mathlib.Data.Fintype.Basic

/-!
# `NatHandler`: NAT mappings and the sockets they apply to

A model of `collector/kernel/nat_handler.{h,cc}`. The handler keeps five `flat_hash_map`s,
modelled as functions to `Option`: the NAT table from the original tuple of a conntrack entry to
its reply tuple and its reverse, the tuples of conntrack entries met while dumping the existing
ones, and the socket of each four-tuple and its reverse. Its output is the `nat_remapping`
messages it writes; logging is left out.

The `assert` of `remove_sk` is the error side of `Except String`. Ports go through `htons` on a
little-endian host, a swap of the two bytes; an IPv6 address is read as the eight native-order
hextets of its sixteen bytes, as `IPv6Address::from` does.
-/

namespace OtelNetwork

/-- `hostport_tuple`. -/
structure HostportTuple where
  srcIp : UInt32
  dstIp : UInt32
  srcPort : UInt16
  dstPort : UInt16
  proto : UInt32
deriving DecidableEq, Repr

/-- `hostport_tuple::reversed`. -/
def HostportTuple.reversed (t : HostportTuple) : HostportTuple :=
  ⟨t.dstIp, t.srcIp, t.dstPort, t.srcPort, t.proto⟩

/-- `htons` on a little-endian host. -/
def htons (x : UInt16) : UInt16 := (x <<< 8) ||| (x >>> 8)

/-- `IPPROTO_TCP`. -/
def ipprotoTcp : UInt32 := 6

/-- `SIZEOF_STRUCT_NF_CONNTRACK_TUPLE_HASH`. -/
def sizeofStructNfConntrackTupleHash : UInt64 := 56

/-- `IPv6Address`: its eight hextets as they lie in memory. -/
structure IPv6Address where
  hextets : Fin 8 → UInt16

namespace IPv6Address

/-- `IPv6Address::from(const uint8_t[16])`: each hextet is read in the host's (little-endian)
    order. -/
def «from» (buffer : Fin 16 → UInt8) : IPv6Address :=
  ⟨fun i => (buffer ⟨2 * i.val, by omega⟩).toUInt16 |||
    ((buffer ⟨2 * i.val + 1, by omega⟩).toUInt16 <<< 8)⟩

/-- `IPv6Address::is_ipv4`: the form `::ffff:a.b.c.d`. -/
def isIpv4 (a : IPv6Address) : Bool :=
  (List.finRange 5).all (fun i => a.hextets (Fin.castLE (by omega) i) == 0) &&
    a.hextets 5 == 0xFFFF

/-- `IPv6Address::to_ipv4(...).value().as_int()`: the last two hextets read as one `u32`. -/
def toIpv4 (a : IPv6Address) : Option UInt32 :=
  if a.isIpv4 then some ((a.hextets 6).toUInt32 ||| ((a.hextets 7).toUInt32 <<< 16)) else none

end IPv6Address

/-- The messages the handler takes, with the fields it reads. -/
inductive NatMessage where
  | nfNatCleanupConntrack (ct : UInt64) (srcIp : UInt32) (srcPort : UInt16) (dstIp : UInt32)
      (dstPort : UInt16) (proto : UInt8)
  | nfConntrackAlterReply (ct : UInt64) (srcIp : UInt32) (srcPort : UInt16) (dstIp : UInt32)
      (dstPort : UInt16) (proto : UInt8) (natSrcIp : UInt32) (natSrcPort : UInt16)
      (natDstIp : UInt32) (natDstPort : UInt16) (natProto : UInt8)
  | existingConntrackTuple (ct : UInt64) (srcIp : UInt32) (srcPort : UInt16) (dstIp : UInt32)
      (dstPort : UInt16) (proto : UInt8) (dir : UInt8)
  | setStateIpv4 (dest src : UInt32) (dport sport : UInt16) (sk : UInt64) (txRx : UInt32)
  | setStateIpv6 (dest src : Fin 16 → UInt8) (dport sport : UInt16) (sk : UInt64)
      (txRx : UInt32)
  | closeSockInfo (sk : UInt64)

/-- A `nat_remapping` message: the socket and the tuple it is told. -/
structure NatRemapping where
  timestamp : UInt64
  sk : UInt64
  srcIp : UInt32
  dstIp : UInt32
  srcPort : UInt16
  dstPort : UInt16
deriving DecidableEq, Repr

/-- `NatHandler`'s tables. -/
structure NatHandler where
  natTable : HostportTuple → Option HostportTuple
  natTableRev : HostportTuple → Option HostportTuple
  existingConntrackTable : UInt64 → Option HostportTuple
  existingSkTable : HostportTuple → Option UInt64
  existingSkTableRev : UInt64 → Option HostportTuple

namespace NatHandler

open Function

/-- A handler with empty tables, as constructed. -/
def empty : NatHandler := ⟨fun _ => none, fun _ => none, fun _ => none, fun _ => none, fun _ => none⟩

/-- `NatHandler::send_nat_remapping`. -/
def sendNatRemapping (timestamp sk : UInt64) (ft : HostportTuple) : NatRemapping :=
  ⟨timestamp, sk, ft.srcIp, ft.dstIp, ft.srcPort, ft.dstPort⟩

/-- `NatHandler::record_nat`: the old entries of either tuple are cleaned up first. -/
def recordNat (h : NatHandler) (mapFrom mapTo : HostportTuple) : NatHandler :=
  let h := match h.natTable mapFrom with
    | some someTo => { h with natTableRev := update h.natTableRev someTo none }
    | none => h
  let h := match h.natTableRev mapTo with
    | some someFrom => { h with natTable := update h.natTable someFrom none }
    | none => h
  { h with natTable := update h.natTable mapFrom (some mapTo),
           natTableRev := update h.natTableRev mapTo (some mapFrom) }

/-- `NatHandler::remove_nat`. -/
def removeNat (h : NatHandler) (mapFrom : HostportTuple) : NatHandler :=
  match h.natTable mapFrom with
  | some mapTo =>
    { h with natTableRev := update h.natTableRev mapTo none,
             natTable := update h.natTable mapFrom none }
  | none => h

/-- `NatHandler::remove_sk`. -/
def removeSk (h : NatHandler) (sk : UInt64) : Except String NatHandler :=
  match h.existingSkTableRev sk with
  | none => pure h
  | some ft =>
    match h.existingSkTable ft with
    | none => throw "assert: search != existing_sk_table_.end()"
    | some _ =>
      pure { h with existingSkTableRev := update h.existingSkTableRev sk none,
                    existingSkTable := update h.existingSkTable ft none }

/-- `NatHandler::record_sk`: a socket already on the tuple, and a tuple already of the socket,
    are removed first. -/
def recordSk (h : NatHandler) (sk : UInt64) (ft : HostportTuple) : Except String NatHandler := do
  let h ← match h.existingSkTable ft with
    | some existingSk => h.removeSk existingSk
    | none => pure h
  let h ← match h.existingSkTableRev sk with
    | some _ => h.removeSk sk
    | none => pure h
  pure { h with existingSkTable := update h.existingSkTable ft (some sk),
                existingSkTableRev := update h.existingSkTableRev sk (some ft) }

/-- `NatHandler::get_nat_mapping`. -/
def getNatMapping (h : NatHandler) (src dst : UInt32) (sport dport : UInt16) (proto : UInt32) :
    Option HostportTuple :=
  h.natTable ⟨src, dst, htons sport, htons dport, proto⟩

/-- `NatHandler::handle_nf_nat_cleanup_conntrack`. -/
def handleNfNatCleanupConntrack (h : NatHandler) (srcIp : UInt32) (srcPort : UInt16)
    (dstIp : UInt32) (dstPort : UInt16) (proto : UInt8) : NatHandler :=
  h.removeNat ⟨srcIp, dstIp, srcPort, dstPort, proto.toUInt32⟩

/-- `NatHandler::handle_nf_conntrack_alter_reply`: the mapping is recorded, and the socket of the
    original tuple, if one is known, is told the reply tuple. The reply tuple takes the
    message's `proto`, not its `nat_proto`. -/
def handleNfConntrackAlterReply (h : NatHandler) (timestamp : UInt64) (srcIp : UInt32)
    (srcPort : UInt16) (dstIp : UInt32) (dstPort : UInt16) (proto : UInt8) (natSrcIp : UInt32)
    (natSrcPort : UInt16) (natDstIp : UInt32) (natDstPort : UInt16) :
    List NatRemapping × NatHandler :=
  let mapFrom : HostportTuple := ⟨srcIp, dstIp, srcPort, dstPort, proto.toUInt32⟩
  let mapTo : HostportTuple := ⟨natSrcIp, natDstIp, natSrcPort, natDstPort, proto.toUInt32⟩
  let h := h.recordNat mapFrom mapTo
  match h.existingSkTable mapFrom with
  | some sk => ([sendNatRemapping timestamp sk mapTo], h)
  | none => ([], h)

/-- `NatHandler::handle_existing_conntrack_tuple`: a `dir = 0` tuple is kept under `ct`; a later
    tuple at `ct` is paired with it and recorded when the two differ, after which the entry at
    `ct - sizeof(struct nf_conntrack_tuple_hash)` is removed. -/
def handleExistingConntrackTuple (h : NatHandler) (ct : UInt64) (srcIp : UInt32)
    (srcPort : UInt16) (dstIp : UInt32) (dstPort : UInt16) (proto : UInt8) (dir : UInt8) :
    NatHandler :=
  let ft : HostportTuple := ⟨srcIp, dstIp, srcPort, dstPort, proto.toUInt32⟩
  if dir = 0 then { h with existingConntrackTable := update h.existingConntrackTable ct (some ft) }
  else
    match h.existingConntrackTable ct with
    | none => h
    | some mapFrom =>
      if mapFrom = ft then h
      else
        let h := h.recordNat mapFrom ft
        { h with existingConntrackTable :=
            update h.existingConntrackTable (ct - sizeofStructNfConntrackTupleHash) none }

/-- The common part of `handle_set_state_ipv4` and `handle_set_state_ipv6`: the socket is
    recorded, and told the reply tuple of a mapping from its tuple and the reversed original
    tuple of a mapping to its reversed tuple. -/
def setState (h : NatHandler) (timestamp sk : UInt64) (ft : HostportTuple) :
    Except String (List NatRemapping × NatHandler) := do
  let h ← h.recordSk sk ft
  let out₁ := match h.natTable ft with
    | some mapping => [sendNatRemapping timestamp sk mapping]
    | none => []
  let out₂ := match h.natTableRev ft.reversed with
    | some revMapping => [sendNatRemapping timestamp sk revMapping.reversed]
    | none => []
  pure (out₁ ++ out₂, h)

/-- `NatHandler::handle_set_state_ipv4`. -/
def handleSetStateIpv4 (h : NatHandler) (timestamp : UInt64) (dest src : UInt32)
    (dport sport : UInt16) (sk : UInt64) : Except String (List NatRemapping × NatHandler) :=
  h.setState timestamp sk ⟨src, dest, htons sport, htons dport, ipprotoTcp⟩

/-- `NatHandler::handle_set_state_ipv6`: only sockets between two IPv4 addresses are handled. -/
def handleSetStateIpv6 (h : NatHandler) (timestamp : UInt64) (dest src : Fin 16 → UInt8)
    (dport sport : UInt16) (sk : UInt64) : Except String (List NatRemapping × NatHandler) :=
  match (IPv6Address.from src).toIpv4, (IPv6Address.from dest).toIpv4 with
  | some srcIp, some dstIp => h.setState timestamp sk ⟨srcIp, dstIp, htons sport, htons dport, ipprotoTcp⟩
  | _, _ => pure ([], h)

/-- `NatHandler::handle_close_socket`. -/
def handleCloseSocket (h : NatHandler) (sk : UInt64) : Except String NatHandler :=
  h.removeSk sk

/-- One message, at its timestamp. -/
def step (h : NatHandler) (timestamp : UInt64) :
    NatMessage → Except String (List NatRemapping × NatHandler)
  | .nfNatCleanupConntrack _ srcIp srcPort dstIp dstPort proto =>
    pure ([], h.handleNfNatCleanupConntrack srcIp srcPort dstIp dstPort proto)
  | .nfConntrackAlterReply _ srcIp srcPort dstIp dstPort proto natSrcIp natSrcPort natDstIp
      natDstPort _ =>
    pure (h.handleNfConntrackAlterReply timestamp srcIp srcPort dstIp dstPort proto natSrcIp
      natSrcPort natDstIp natDstPort)
  | .existingConntrackTuple ct srcIp srcPort dstIp dstPort proto dir =>
    pure ([], h.handleExistingConntrackTuple ct srcIp srcPort dstIp dstPort proto dir)
  | .setStateIpv4 dest src dport sport sk _ => h.handleSetStateIpv4 timestamp dest src dport sport sk
  | .setStateIpv6 dest src dport sport sk _ => h.handleSetStateIpv6 timestamp dest src dport sport sk
  | .closeSockInfo sk => do
    let h ← h.handleCloseSocket sk
    pure ([], h)

/-- A sequence of timestamped messages: the messages written, and the last handler; a failed
    `assert` stops it. -/
def run (h : NatHandler) : List (UInt64 × NatMessage) → Except String (List NatRemapping × NatHandler)
  | [] => pure ([], h)
  | (t, m) :: ms => do
    let (out, h) ← h.step t m
    let (out', h) ← h.run ms
    pure (out ++ out', h)

end NatHandler

end OtelNetwork
