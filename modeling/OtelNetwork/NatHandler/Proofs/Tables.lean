import OtelNetwork.NatHandler.Basic
import OtelNetwork.Lib.BiMap

/-!
# The NAT handler's tables stay in step

Each table of the handler is kept with its reverse index: the NAT table with `nat_table_rev_`,
the socket table with `existing_sk_table_rev_`. `record_nat` and `record_sk` evict the stale
entries of both keys before writing, `remove_nat` and `remove_sk` drop pairs, so each pair of
tables stays a pair of inverse partial bijections over every run, and the `assert` of `remove_sk`
never fires. The NAT table is then the table of the history of NAT updates the messages make:
`get_nat_mapping` answers the last mapping recorded for the tuple that no later update ended.
-/

namespace OtelNetwork.NatHandler

open BiMap Function

variable {h : NatHandler}

/-- Both tables are kept with their reverse indexes. -/
structure TablesInv (h : NatHandler) : Prop where
  nat : Inverse h.natTable h.natTableRev
  sk : Inverse h.existingSkTable h.existingSkTableRev

theorem tablesInv_empty : TablesInv empty := ⟨inverse_empty, inverse_empty⟩

/-! ## One lemma per table operation -/

theorem recordNat_eq (h : NatHandler) (a b : HostportTuple) :
    h.recordNat a b = { h with
      natTable := update (evictFwd h.natTable (evictBwd h.natTable h.natTableRev a) b) a (some b),
      natTableRev := update (evictBwd h.natTable h.natTableRev a) b (some a) } := by
  unfold recordNat evictBwd evictFwd
  split <;> split <;> simp_all

theorem removeNat_eq (h : NatHandler) (a : HostportTuple) :
    h.removeNat a = { h with natTable := (unlinkFwd h.natTable h.natTableRev a).1,
                             natTableRev := (unlinkFwd h.natTable h.natTableRev a).2 } := by
  unfold removeNat unlinkFwd
  cases h.natTable a <;> rfl

/-- With the socket tables in step, `remove_sk` drops the socket's pair and its `assert` holds. -/
theorem removeSk_eq (hsk : Inverse h.existingSkTable h.existingSkTableRev) (sk : UInt64) :
    h.removeSk sk =
      .ok { h with existingSkTable := (unlinkBwd h.existingSkTable h.existingSkTableRev sk).1,
                   existingSkTableRev := (unlinkBwd h.existingSkTable h.existingSkTableRev sk).2 } := by
  unfold removeSk unlinkBwd
  cases hft : h.existingSkTableRev sk with
  | none => rfl
  | some ft =>
    have hsk' : h.existingSkTable ft = some sk := (hsk ft sk).mpr hft
    simp only [hsk']
    rfl

/-- `record_sk` never fails with the socket tables in step: it writes the pair `(ft, sk)` over
    tables in step in which `ft` and `sk` are free, and no other tuple gains a socket. -/
theorem recordSk_spec (hsk : Inverse h.existingSkTable h.existingSkTableRev) (sk : UInt64)
    (ft : HostportTuple) :
    ∃ f g, Inverse f g ∧ f ft = none ∧ g sk = none ∧
      (∀ x, h.existingSkTable x = none → f x = none) ∧
      h.recordSk sk ft = .ok { h with existingSkTable := update f ft (some sk),
                                      existingSkTableRev := update g sk (some ft) } := by
  unfold recordSk
  cases hes : h.existingSkTable ft with
  | none =>
    cases hs : h.existingSkTableRev sk with
    | none =>
      refine ⟨_, _, hsk, hes, hs, fun x hx => hx, ?_⟩
      simp only [bind, Except.bind, pure, Except.pure, hs]
    | some ft' =>
      refine ⟨_, _, hsk.unlinkBwd sk, unlinkBwd_fst_of_none _ _ sk hes, unlinkBwd_snd_self _ _ sk,
        fun x hx => unlinkBwd_fst_of_none _ _ sk hx, ?_⟩
      simp only [removeSk_eq hsk, bind, Except.bind, pure, Except.pure, hs]
  | some esk =>
    -- the socket on `ft` goes first
    have hrev : h.existingSkTableRev esk = some ft := (hsk ft esk).mp hes
    have hft₁ : (unlinkBwd h.existingSkTable h.existingSkTableRev esk).1 ft = none := by
      simp [unlinkBwd, hrev]
    have hinv₁ := hsk.unlinkBwd esk
    cases hs : (unlinkBwd h.existingSkTable h.existingSkTableRev esk).2 sk with
    | none =>
      refine ⟨_, _, hinv₁, hft₁, hs, fun x hx => unlinkBwd_fst_of_none _ _ esk hx, ?_⟩
      simp only [removeSk_eq hsk, bind, Except.bind, pure, Except.pure, hs]
    | some ft' =>
      refine ⟨_, _, hinv₁.unlinkBwd sk, unlinkBwd_fst_of_none _ _ sk hft₁,
        unlinkBwd_snd_self _ _ sk,
        fun x hx => unlinkBwd_fst_of_none _ _ sk (unlinkBwd_fst_of_none _ _ esk hx), ?_⟩
      simp only [removeSk_eq hsk, bind, Except.bind, pure, Except.pure, hs]
      rw [removeSk_eq hinv₁]

/-! ## The NAT updates a message makes -/

/-- The updates of the NAT mapping a message stands for: a cleanup erases its tuple, an altered
    reply maps its original tuple to the NAT-ed one, and a dumped reply tuple that differs from
    the original tuple paired with it at the same address maps the one to the other. -/
def natOps (h : NatHandler) : NatMessage → List (Op HostportTuple HostportTuple)
  | .nfNatCleanupConntrack _ srcIp srcPort dstIp dstPort proto =>
    [.erase ⟨srcIp, dstIp, srcPort, dstPort, proto.toUInt32⟩]
  | .nfConntrackAlterReply _ srcIp srcPort dstIp dstPort proto natSrcIp natSrcPort natDstIp
      natDstPort _ =>
    [.write ⟨srcIp, dstIp, srcPort, dstPort, proto.toUInt32⟩
      ⟨natSrcIp, natDstIp, natSrcPort, natDstPort, proto.toUInt32⟩]
  | .existingConntrackTuple ct srcIp srcPort dstIp dstPort proto dir =>
    let ft : HostportTuple := ⟨srcIp, dstIp, srcPort, dstPort, proto.toUInt32⟩
    match h.existingConntrackTable ct with
    | some mapFrom => if dir ≠ 0 ∧ mapFrom ≠ ft then [.write mapFrom ft] else []
    | none => []
  | .setStateIpv4 .. | .setStateIpv6 .. | .closeSockInfo _ => []

/-- The NAT updates of a run, message by message. -/
def runNatOps (h : NatHandler) : List (UInt64 × NatMessage) → List (Op HostportTuple HostportTuple)
  | [] => []
  | (t, m) :: ms =>
    natOps h m ++ match h.step t m with
      | .ok (_, h') => runNatOps h' ms
      | .error _ => []

/-! ## One message -/

/-- What a message leaves: the tables in step, and the NAT table updated by its `natOps`. -/
def StepPost (h h' : NatHandler) (m : NatMessage) : Prop :=
  TablesInv h' ∧ h'.natTable = (natOps h m).foldl Op.apply h.natTable

theorem recordNat_post (hi : TablesInv h) (a b : HostportTuple) :
    TablesInv (h.recordNat a b) ∧ (h.recordNat a b).natTable = Op.apply h.natTable (.write a b) := by
  rw [recordNat_eq]
  exact ⟨⟨hi.nat.overwrite a b, hi.sk⟩, hi.nat.overwrite_eq_apply a b⟩

theorem removeNat_post (hi : TablesInv h) (a : HostportTuple) :
    TablesInv (h.removeNat a) ∧ (h.removeNat a).natTable = Op.apply h.natTable (.erase a) := by
  rw [removeNat_eq]
  exact ⟨⟨hi.nat.unlinkFwd a, hi.sk⟩, unlinkFwd_fst_eq_apply _ _ a⟩

/-- A socket's `set_state` records it, leaves the NAT tables alone, and sends what they held for
    its tuple and its reversed tuple. -/
theorem setState_post (hi : TablesInv h) (t sk : UInt64) (ft : HostportTuple) :
    ∃ h', h.setState t sk ft =
        .ok ((match h.natTable ft with
              | some mapping => [sendNatRemapping t sk mapping]
              | none => []) ++
            (match h.natTableRev ft.reversed with
              | some revMapping => [sendNatRemapping t sk revMapping.reversed]
              | none => []), h') ∧
      TablesInv h' ∧ h'.natTable = h.natTable ∧ h'.natTableRev = h.natTableRev ∧
      h'.existingSkTable ft = some sk ∧ ∀ ft', ft' ≠ ft → h.existingSkTable ft' = none →
        h'.existingSkTable ft' = none := by
  obtain ⟨f, g, hfg, hf, hg, hclear, hrec⟩ := recordSk_spec hi.sk sk ft
  simp only [setState, hrec, bind, Except.bind, pure, Except.pure]
  refine ⟨_, rfl, ⟨hi.nat, hfg.insert hf hg⟩, rfl, rfl, update_self .., ?_⟩
  intro ft' hne hnone
  exact (update_of_ne hne _ _).trans (hclear ft' hnone)

theorem step_post (hi : TablesInv h) (t : UInt64) (m : NatMessage) :
    ∃ out h', h.step t m = .ok (out, h') ∧ StepPost h h' m := by
  cases m with
  | nfNatCleanupConntrack ct srcIp srcPort dstIp dstPort proto =>
    exact ⟨_, _, rfl, removeNat_post hi _⟩
  | nfConntrackAlterReply ct srcIp srcPort dstIp dstPort proto natSrcIp natSrcPort natDstIp
      natDstPort natProto =>
    obtain ⟨hinv, hnat⟩ := recordNat_post hi ⟨srcIp, dstIp, srcPort, dstPort, proto.toUInt32⟩
      ⟨natSrcIp, natDstIp, natSrcPort, natDstPort, proto.toUInt32⟩
    refine ⟨_, _, rfl, ?_⟩
    split <;> exact ⟨hinv, hnat⟩
  | existingConntrackTuple ct srcIp srcPort dstIp dstPort proto dir =>
    refine ⟨_, _, rfl, ?_⟩
    simp only [StepPost, natOps, handleExistingConntrackTuple]
    by_cases hdir : dir = 0
    · -- a first tuple is only kept
      simp only [hdir, if_true, ne_eq, not_true_eq_false, false_and, if_false]
      refine ⟨⟨hi.nat, hi.sk⟩, ?_⟩
      split <;> rfl
    · rw [if_neg hdir]
      cases hct : h.existingConntrackTable ct with
      | none => exact ⟨hi, rfl⟩
      | some mapFrom =>
        by_cases heq : mapFrom = ⟨srcIp, dstIp, srcPort, dstPort, proto.toUInt32⟩
        · simp only [heq, if_true, ne_eq, not_true_eq_false, and_false, if_false]
          exact ⟨hi, rfl⟩
        · obtain ⟨hinv, hnat⟩ := recordNat_post hi mapFrom ⟨srcIp, dstIp, srcPort, dstPort, proto.toUInt32⟩
          simp only [heq, if_false, ne_eq, hdir, not_false_eq_true, and_self, if_true]
          exact ⟨⟨hinv.nat, hinv.sk⟩, hnat⟩
  | setStateIpv4 dest src dport sport sk txRx =>
    obtain ⟨h', hset, hinv, hnat, -⟩ :=
      setState_post hi t sk ⟨src, dest, htons sport, htons dport, ipprotoTcp⟩
    exact ⟨_, h', hset, hinv, hnat⟩
  | setStateIpv6 dest src dport sport sk txRx =>
    show ∃ out h', h.handleSetStateIpv6 t dest src dport sport sk = .ok (out, h') ∧ _
    unfold handleSetStateIpv6
    split
    · rename_i srcIp dstIp _ _
      obtain ⟨h', hset, hinv, hnat, -⟩ :=
        setState_post hi t sk ⟨srcIp, dstIp, htons sport, htons dport, ipprotoTcp⟩
      exact ⟨_, h', hset, hinv, hnat⟩
    · exact ⟨_, _, rfl, hi, rfl⟩
  | closeSockInfo sk =>
    simp only [step, handleCloseSocket, removeSk_eq hi.sk, bind, Except.bind, pure, Except.pure]
    exact ⟨[], _, rfl, ⟨hi.nat, hi.sk.unlinkBwd sk⟩, rfl⟩

/-! ## Whole runs -/

theorem run_post (hi : TablesInv h) (ms : List (UInt64 × NatMessage)) :
    ∃ out h', h.run ms = .ok (out, h') ∧ TablesInv h' ∧
      h'.natTable = (runNatOps h ms).foldl Op.apply h.natTable := by
  induction ms generalizing h with
  | nil => exact ⟨[], h, rfl, hi, rfl⟩
  | cons tm ms ih =>
    obtain ⟨t, m⟩ := tm
    obtain ⟨out, h₁, hstep, hinv₁, hnat₁⟩ := step_post hi t m
    obtain ⟨out', h', hrun, hinv', hnat'⟩ := ih hinv₁
    refine ⟨out ++ out', h', ?_, hinv', ?_⟩
    · simp only [run, hstep, hrun, bind, Except.bind, pure, Except.pure]
    · rw [runNatOps, hstep, List.foldl_append, ← hnat₁]
      exact hnat'

/-- From a new handler, over every run of messages: no `assert` fires, both tables stay in step
    with their reverse indexes, and `get_nat_mapping` answers the last mapping recorded for the
    tuple, as long as no later NAT update has ended it. -/
theorem natHandler_tables_consistent (msgs : List (UInt64 × NatMessage)) :
    ∃ out h, empty.run msgs = .ok (out, h) ∧
      Inverse h.natTable h.natTableRev ∧ Inverse h.existingSkTable h.existingSkTableRev ∧
      ∀ (src dst : UInt32) (sport dport : UInt16) (proto : UInt32) (mapping : HostportTuple),
        h.getNatMapping src dst sport dport proto = some mapping ↔
          ∃ pre post, empty.runNatOps msgs =
              pre ++ .write ⟨src, dst, htons sport, htons dport, proto⟩ mapping :: post ∧
            ∀ op ∈ post, ¬ op.Ends ⟨src, dst, htons sport, htons dport, proto⟩ mapping := by
  obtain ⟨out, h, hrun, hinv, hnat⟩ := run_post tablesInv_empty msgs
  refine ⟨out, h, hrun, hinv.nat, hinv.sk, ?_⟩
  intro src dst sport dport proto mapping
  rw [getNatMapping, hnat, ← live_eq_some_iff]
  rfl

end OtelNetwork.NatHandler
