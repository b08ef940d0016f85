import OtelNetwork.NatHandler.Proofs.Tables

/-!
# What the handler sends, and what it keeps, for two messages in either order

A server-side socket, whose tuple is the reversed reply tuple of a NAT mapping, is told the
reversed original tuple by `set_state` when the mapping is already known; when the socket comes
first, `handle_nf_conntrack_alter_reply` looks up only the socket of the original tuple and tells
it nothing.

The dump of existing conntrack entries reports both tuples of an entry at the address of the
first one. A reply tuple is paired with the first tuple at that address, and the handler then
removes the entry `sizeof(struct nf_conntrack_tuple_hash)` bytes below it: the pair's own entry
stays.
-/

namespace OtelNetwork.NatHandler

open BiMap Function

/-- An altered reply records the mapping and tells the socket on its original tuple, if any. -/
theorem step_nfConntrackAlterReply (h : NatHandler) (t ct : UInt64) (srcIp dstIp : UInt32)
    (srcPort dstPort : UInt16) (proto : UInt8) (natSrcIp natDstIp : UInt32)
    (natSrcPort natDstPort : UInt16) (natProto : UInt8) :
    h.step t (.nfConntrackAlterReply ct srcIp srcPort dstIp dstPort proto natSrcIp natSrcPort
        natDstIp natDstPort natProto) =
      .ok ((match h.existingSkTable ⟨srcIp, dstIp, srcPort, dstPort, proto.toUInt32⟩ with
          | some sk => [sendNatRemapping t sk ⟨natSrcIp, natDstIp, natSrcPort, natDstPort,
              proto.toUInt32⟩]
          | none => []),
        h.recordNat ⟨srcIp, dstIp, srcPort, dstPort, proto.toUInt32⟩
          ⟨natSrcIp, natDstIp, natSrcPort, natDstPort, proto.toUInt32⟩) := by
  have hsk : (h.recordNat ⟨srcIp, dstIp, srcPort, dstPort, proto.toUInt32⟩
      ⟨natSrcIp, natDstIp, natSrcPort, natDstPort, proto.toUInt32⟩).existingSkTable =
      h.existingSkTable := by
    rw [recordNat_eq]
  simp only [step, handleNfConntrackAlterReply, hsk]
  cases h.existingSkTable ⟨srcIp, dstIp, srcPort, dstPort, proto.toUInt32⟩ <;> rfl

theorem step_setStateIpv4 (h : NatHandler) (t : UInt64) (dest src : UInt32) (dport sport : UInt16)
    (sk : UInt64) (txRx : UInt32) :
    h.step t (.setStateIpv4 dest src dport sport sk txRx) =
      h.setState t sk ⟨src, dest, htons sport, htons dport, ipprotoTcp⟩ := rfl

/-- A mapping written into empty NAT tables. -/
theorem recordNat_empty (a b : HostportTuple) :
    (empty.recordNat a b).natTable = update (fun _ => none) a (some b) ∧
      (empty.recordNat a b).natTableRev = update (fun _ => none) b (some a) := by
  rw [recordNat_eq]
  exact ⟨rfl, rfl⟩

/-- The socket of the reversed reply tuple of a mapping `from → to` (with `from` another tuple)
    is told the reversed `from` when the mapping comes first, and nothing when the socket comes
    first. -/
theorem natRemapping_depends_on_order (t₁ t₂ ct sk : UInt64) (srcIp dstIp dest src txRx : UInt32)
    (srcPort dstPort dport sport : UInt16)
    (hne : (⟨srcIp, dstIp, srcPort, dstPort, ipprotoTcp⟩ : HostportTuple) ≠
      ⟨src, dest, htons sport, htons dport, ipprotoTcp⟩) :
    (empty.run [(t₁, .setStateIpv4 dest src dport sport sk txRx),
        (t₂, .nfConntrackAlterReply ct srcIp srcPort dstIp dstPort 6 dest (htons dport) src
          (htons sport) 6)]).map Prod.fst = .ok [] ∧
    (empty.run [(t₂, .nfConntrackAlterReply ct srcIp srcPort dstIp dstPort 6 dest (htons dport)
          src (htons sport) 6),
        (t₁, .setStateIpv4 dest src dport sport sk txRx)]).map Prod.fst =
      .ok [⟨t₁, sk, dstIp, srcIp, dstPort, srcPort⟩] := by
  have hproto : (6 : UInt8).toUInt32 = ipprotoTcp := rfl
  constructor
  · -- the socket first: nothing to tell it yet, and the mapping does not look for it
    obtain ⟨h₁, hset, -, -, -, -, hother⟩ := setState_post tablesInv_empty t₁ sk
      ⟨src, dest, htons sport, htons dport, ipprotoTcp⟩
    have hfrom := hother _ hne rfl
    simp only [run, step_setStateIpv4, hset, step_nfConntrackAlterReply, hproto, hfrom,
      bind, Except.bind, pure, Except.pure, Except.map, List.append_nil]
    rfl
  · -- the mapping first: the socket finds it through the reverse table
    have hinv₁ := (recordNat_post tablesInv_empty ⟨srcIp, dstIp, srcPort, dstPort, ipprotoTcp⟩
      ⟨dest, src, htons dport, htons sport, ipprotoTcp⟩).1
    obtain ⟨hnat₁, hrev₁⟩ := recordNat_empty ⟨srcIp, dstIp, srcPort, dstPort, ipprotoTcp⟩
      ⟨dest, src, htons dport, htons sport, ipprotoTcp⟩
    obtain ⟨h₂, hset, -⟩ := setState_post hinv₁ t₁ sk ⟨src, dest, htons sport, htons dport, ipprotoTcp⟩
    have hft : (empty.recordNat ⟨srcIp, dstIp, srcPort, dstPort, ipprotoTcp⟩
        ⟨dest, src, htons dport, htons sport, ipprotoTcp⟩).natTable
        ⟨src, dest, htons sport, htons dport, ipprotoTcp⟩ = none := by
      rw [hnat₁, update_of_ne (Ne.symm hne)]
    have hrev : (empty.recordNat ⟨srcIp, dstIp, srcPort, dstPort, ipprotoTcp⟩
        ⟨dest, src, htons dport, htons sport, ipprotoTcp⟩).natTableRev
        (HostportTuple.reversed ⟨src, dest, htons sport, htons dport, ipprotoTcp⟩) =
        some ⟨srcIp, dstIp, srcPort, dstPort, ipprotoTcp⟩ := by
      rw [hrev₁]
      exact update_self ..
    simp only [run, step_nfConntrackAlterReply, hproto, step_setStateIpv4, hset, hft, hrev,
      bind, Except.bind, pure, Except.pure, Except.map, List.append_nil, List.nil_append]
    rfl

theorem natRemapping_depends_on_order_server_socket :
    (⟨1, 2, 5, 6, ipprotoTcp⟩ : HostportTuple) ≠ ⟨4, 3, htons 8, htons 7, ipprotoTcp⟩ ∧
    (empty.run [(1, .setStateIpv4 3 4 7 8 9 0),
        (2, .nfConntrackAlterReply 0 1 5 2 6 6 3 (htons 7) 4 (htons 8) 6)]).map Prod.fst = .ok [] ∧
    (empty.run [(2, .nfConntrackAlterReply 0 1 5 2 6 6 3 (htons 7) 4 (htons 8) 6),
        (1, .setStateIpv4 3 4 7 8 9 0)]).map Prod.fst = .ok [⟨1, 9, 2, 1, 6, 5⟩] :=
  have hne : (⟨1, 2, 5, 6, ipprotoTcp⟩ : HostportTuple) ≠ ⟨4, 3, htons 8, htons 7, ipprotoTcp⟩ := by
    decide
  ⟨hne, natRemapping_depends_on_order 1 2 0 9 1 2 3 4 0 5 6 7 8 hne⟩

/-- The address the dump reports a reply tuple at is not the one the handler clears. -/
theorem sub_sizeof_ne (ct : UInt64) : ct - sizeofStructNfConntrackTupleHash ≠ ct := by
  intro h
  have h₁ := congrArg UInt64.toNat h
  rw [UInt64.toNat_sub, show sizeofStructNfConntrackTupleHash.toNat = 56 from rfl] at h₁
  have h₂ := ct.toNat_lt
  omega

/-- A pair of tuples dumped at one address, as `on_ctnetlink_dump_tuples` reports them: after the
    second, the entry of the first is still there, whether the pair is NAT-ed or not. -/
theorem existingConntrack_pair_stays_pending (h : NatHandler) (t₀ t₁ ct : UInt64)
    (srcIp dstIp srcIp' dstIp' : UInt32) (srcPort dstPort srcPort' dstPort' : UInt16)
    (proto : UInt8) :
    ∃ h', h.run [(t₀, .existingConntrackTuple ct srcIp srcPort dstIp dstPort proto 0),
        (t₁, .existingConntrackTuple ct srcIp' srcPort' dstIp' dstPort' proto 1)] = .ok ([], h') ∧
      h'.existingConntrackTable ct = some ⟨srcIp, dstIp, srcPort, dstPort, proto.toUInt32⟩ := by
  refine ⟨_, rfl, ?_⟩
  have hdir : (1 : UInt8) ≠ 0 := by decide
  simp only [handleExistingConntrackTuple, if_true, hdir, if_false, update_self]
  split_ifs with heq
  · -- the pair is not NAT-ed, and the handler returns early
    exact update_self ..
  · -- the pair is NAT-ed: the mapping is recorded and the entry below the address cleared
    simp only [recordNat_eq]
    rw [update_of_ne (sub_sizeof_ne ct).symm]
    exact update_self ..

end OtelNetwork.NatHandler
