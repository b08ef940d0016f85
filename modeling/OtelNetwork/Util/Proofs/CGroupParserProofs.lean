import OtelNetwork.Util.CGroupParser
import OtelNetwork.Lib.StateTriple

/-!
# What `CGroupParser` guarantees of its output

Every helper moves the read head forward within the name (`Moves`): the read head stays a
suffix of the name, so the parser never reads past its end, and each helper writes only its own
fields. The container id is only ever built by `parse_container_id`, which either reads 64 hex
digits in a row or clears it; each format that fails leaves the container id, the quality of
service and the service empty (`AltSpec`). Hence the container id of every result is empty or 64
consecutive hex digits of the name, and an invalid result has no container id, quality of
service or service (`parse_spec`).

The pod id and the runtime are different: `parse_uid` appends to the pod id as it reads, and
`parse_pod_id` and `parse_cri` return `false` without clearing what they appended
(`cgroupParser_keeps_partial_pod_id`).
-/

namespace OtelNetwork.CGroupParser

open StateTriple

/-! ## Moving the read head -/

/-- `s'` comes from `s` by helpers that write at most the fields `W`: the same name, a read head
    further on, and every other field as it was. -/
def Moves (W : List Field) (s s' : State) : Prop :=
  s'.name = s.name ∧ s'.readHead <:+ s.readHead ∧ s'.info.valid = s.info.valid ∧
    ∀ f ∉ W, fieldOf s'.info f = fieldOf s.info f

namespace Moves

variable {W W' : List Field} {s s' s'' : State}

theorem refl (W : List Field) (s : State) : Moves W s s :=
  ⟨rfl, List.suffix_refl _, rfl, fun _ _ => rfl⟩

theorem trans (h : Moves W s s') (h' : Moves W s' s'') : Moves W s s'' :=
  ⟨h'.1.trans h.1, h'.2.1.trans h.2.1, h'.2.2.1.trans h.2.2.1,
    fun f hf => (h'.2.2.2 f hf).trans (h.2.2.2 f hf)⟩

instance : Std.Refl (Moves W) := ⟨refl W⟩

instance : IsTrans State (Moves W) := ⟨fun _ _ _ => trans⟩

theorem mono (hW : W ⊆ W') (h : Moves W s s') : Moves W' s s' :=
  ⟨h.1, h.2.1, h.2.2.1, fun f hf => h.2.2.2 f fun hfW => hf (hW hfW)⟩

/-- The read head stays within the name. -/
theorem suffix (h : Moves W s s') (hs : s.readHead <:+ s.name) : s'.readHead <:+ s'.name :=
  h.1 ▸ h.2.1.trans hs

theorem fieldOf_eq (h : Moves W s s') {f : Field} (hf : f ∉ W) :
    fieldOf s'.info f = fieldOf s.info f :=
  h.2.2.2 f hf

end Moves

/-- A parser that writes at most the fields `W`. -/
abbrev Writes {α : Type} (W : List Field) (p : Parser α) : Prop := Preserves (Moves W) p

theorem Writes.mono {α : Type} {W W' : List Field} {p : Parser α} (h : Writes W p) (hW : W ⊆ W') :
    Writes W' p :=
  Preserves.mono h fun _ _ => Moves.mono hW

/-! ## The helpers of `parser_utils.h` -/

theorem peek_writes : Writes [] peek := fun s => Moves.refl _ s

theorem consume_writes : Writes [] consume :=
  fun _ => ⟨rfl, List.drop_suffix 1 _, rfl, fun _ _ => rfl⟩

theorem store_writes (out : Option Field) (cs : List Char) : Writes out.toList (store out cs) := by
  intro s
  cases out with
  | none => exact Moves.refl _ s
  | some f =>
    refine ⟨rfl, List.suffix_refl _, ?_, fun g hg => ?_⟩
    · cases f <;> rfl
    · have hgf : g ≠ f := by simpa using hg
      cases f <;> cases g <;> first | exact absurd rfl hgf | rfl

theorem parseMatchStr_run (str : List Char) (out : Option Field) (s : State) :
    (parseMatchStr str out).run s =
      if str.isPrefixOf s.readHead then
        (true, ((store out str).run { s with readHead := s.readHead.drop str.length }).2)
      else (false, s) := by
  show (if str.isPrefixOf s.readHead = true then _ else _ : Parser Bool).run s = _
  split <;> rfl

theorem parseMatchStr_writes (str : List Char) (out : Option Field) :
    Writes out.toList (parseMatchStr str out) := by
  intro s
  rw [parseMatchStr_run]
  split
  · have hdrop : Moves out.toList s { s with readHead := s.readHead.drop str.length } :=
      ⟨rfl, List.drop_suffix _ _, rfl, fun _ _ => rfl⟩
    exact hdrop.trans (store_writes out str _)
  · exact Moves.refl _ s

/-- A failed `parse_match` of a string changes nothing. -/
theorem parseMatchStr_false {str : List Char} {out : Option Field} {s : State}
    (h : ((parseMatchStr str out).run s).1 = false) : ((parseMatchStr str out).run s).2 = s := by
  rw [parseMatchStr_run] at h ⊢
  split at h
  · cases h
  · simp_all

theorem parseMatchPred_run (pred : Char → Bool) (out : Option Field) (s : State) :
    (parseMatchPred pred out).run s =
      match s.readHead with
      | c :: _ => if pred c then (true, (consume.run ((store out [c]).run s).2).2) else (false, s)
      | [] => (false, s) := by
  show (match s.readHead with
    | c :: _ => if pred c = true then _ else _
    | [] => _ : Parser Bool).run s = _
  split
  · split <;> rfl
  · rfl

theorem parseMatchPred_writes (pred : Char → Bool) (out : Option Field) :
    Writes out.toList (parseMatchPred pred out) := by
  intro s
  rw [parseMatchPred_run]
  split
  · split
    · exact Moves.trans (store_writes out _ s) ((consume_writes _).mono (List.nil_subset _))
    · exact Moves.refl _ s
  · exact Moves.refl _ s

theorem tokenLoop_suffix (token : Char) : ∀ cs : List Char, (tokenLoop token cs).2.2 <:+ cs
  | [] => List.suffix_refl _
  | p :: cs => by
    simp only [tokenLoop]
    split
    · exact List.suffix_cons _ _
    · exact (tokenLoop_suffix token cs).trans (List.suffix_cons _ _)

theorem parseToken_writes (token : Char) (out : Option Field) :
    Writes out.toList (parseToken token out) := by
  intro s
  have hloop : Moves out.toList s { s with readHead := (tokenLoop token s.readHead).2.2 } :=
    ⟨rfl, tokenLoop_suffix token s.readHead, rfl, fun _ _ => rfl⟩
  exact hloop.trans (store_writes out _ _)

/-! ## What each method of `CGroupParser` writes -/

theorem parseQos_writes : Writes [.qos] parseQos := by
  unfold parseQos
  refine Preserves.bind (parseMatchStr_writes _ _) fun _ => Preserves.ite (Preserves.pure _) ?_
  refine Preserves.bind (parseMatchStr_writes _ _) fun _ => Preserves.ite (Preserves.pure _) ?_
  exact Preserves.bind (parseMatchStr_writes _ _) fun _ =>
    Preserves.ite (Preserves.pure _) (Preserves.pure _)

theorem parseUidGroup_writes : ∀ n, Writes [.podId] (parseUidGroup n)
  | 0 => Preserves.pure _
  | n + 1 => Preserves.bind (parseMatchPred_writes _ _) fun _ =>
      Preserves.ite (parseUidGroup_writes n) (Preserves.pure _)

theorem parseUidGroups_writes : ∀ l, Writes [.podId] (parseUidGroups l)
  | [] => Preserves.pure _
  | ii :: rest => by
    unfold parseUidGroups
    refine Preserves.bind (parseUidGroup_writes ii) fun _ => Preserves.ite (Preserves.pure _) ?_
    refine Preserves.ite ?_ (parseUidGroups_writes rest)
    refine Preserves.bind (peek_writes.mono (List.nil_subset _)) fun o => ?_
    -- after a group: an optional separator, then the canonical `-`
    split
    · refine Preserves.ite ?_ ?_
      · exact Preserves.bind (consume_writes.mono (List.nil_subset _)) fun _ =>
          Preserves.bind (store_writes _ _) fun _ => parseUidGroups_writes rest
      · exact Preserves.bind (store_writes _ _) fun _ => parseUidGroups_writes rest
    · exact Preserves.pure _

theorem parsePodId_writes : Writes [.podId] parsePodId :=
  Preserves.bind ((parseMatchStr_writes _ _).mono (List.nil_subset _)) fun _ =>
    Preserves.ite (Preserves.pure _) (parseUidGroups_writes _)

theorem clearContainerId_writes :
    Writes [.containerId]
      (modify fun s => { s with info := { s.info with containerId := [] } } : Parser Unit) :=
  fun _ => ⟨rfl, List.suffix_refl _, rfl, fun f hf => by cases f <;> first | rfl | simp at hf⟩

theorem parseContainerIdLoop_writes : ∀ n, Writes [.containerId] (parseContainerIdLoop n)
  | 0 => Preserves.pure _
  | n + 1 => Preserves.bind (parseMatchPred_writes _ _) fun _ =>
      Preserves.ite (parseContainerIdLoop_writes n)
        (Preserves.bind clearContainerId_writes fun _ => Preserves.pure _)

theorem parseService_writes : Writes [.service] parseService := by
  intro s
  show Moves _ s ((if ".service".toList.isSuffixOf s.name = true then _ else _ : Parser Bool).run s).2
  split
  · exact ⟨rfl, List.suffix_refl _, rfl, fun f hf => by cases f <;> first | rfl | simp at hf⟩
  · exact Moves.refl _ s

theorem parseSystemd_writes : Writes [.qos, .podId, .runtime, .containerId] parseSystemd := by
  unfold parseSystemd
  refine Preserves.bind ((parseMatchStr_writes _ _).mono (List.nil_subset _)) fun _ =>
    Preserves.ite (Preserves.pure _) ?_
  refine Preserves.bind (parseQos_writes.mono (by simp)) fun _ =>
    Preserves.ite (Preserves.pure _) ?_
  refine Preserves.bind ((parseToken_writes _ _).mono (List.nil_subset _)) fun _ =>
    Preserves.bind (parsePodId_writes.mono (by simp)) fun _ => Preserves.ite (Preserves.pure _) ?_
  refine Preserves.bind ((parseToken_writes _ _).mono (List.nil_subset _)) fun _ =>
    Preserves.bind ((parseToken_writes _ _).mono (by simp)) fun _ =>
      Preserves.ite (Preserves.pure _) ?_
  exact Preserves.bind ((parseContainerIdLoop_writes _).mono (by simp)) fun _ => Preserves.pure _

theorem parseCri_writes : Writes [.runtime, .containerId] parseCri := by
  unfold parseCri
  refine Preserves.bind ((parseMatchStr_writes _ _).mono (List.nil_subset _)) fun _ =>
    Preserves.ite (Preserves.pure _) ?_
  exact Preserves.bind ((parseToken_writes _ _).mono (by simp)) fun _ =>
    Preserves.ite (Preserves.pure _) ((parseContainerIdLoop_writes _).mono (by simp))

/-- All fields, for the parser as a whole. -/
def allFields : List Field := [.containerId, .runtime, .podId, .qos, .service]

theorem parseCgroup_writes : Writes allFields parseCgroup := by
  unfold parseCgroup
  refine Preserves.bind (parseSystemd_writes.mono (by simp [allFields])) fun _ =>
    Preserves.ite (Preserves.pure _) ?_
  refine Preserves.bind (parseCri_writes.mono (by simp [allFields])) fun _ =>
    Preserves.ite (Preserves.pure _) ?_
  refine Preserves.bind (parsePodId_writes.mono (by simp [allFields])) fun _ =>
    Preserves.ite (Preserves.pure _) ?_
  refine Preserves.bind ((parseContainerIdLoop_writes _).mono (by simp [allFields])) fun _ =>
    Preserves.ite (Preserves.pure _) ?_
  exact Preserves.bind (parseService_writes.mono (by simp [allFields])) fun _ =>
    Preserves.ite (Preserves.pure _) (Preserves.pure _)

/-- The read head never leaves the name. -/
theorem parseCgroup_readHead (name : List Char) :
    (parseCgroup.run { name, readHead := name, info := {} }).2.readHead <:+ name :=
  (parseCgroup_writes _).2.1

/-! ## Formats tried in turn -/

/-- `if (p()) return true;` followed by `q`. -/
theorem run_orElse (p q : Parser Bool) (s : State) :
    (p >>= fun b => if b = true then pure true else q).run s =
      if (p.run s).1 = true then (true, (p.run s).2) else q.run (p.run s).2 := by
  show (if (p.run s).1 = true then pure true else q).run (p.run s).2 = _
  split <;> rfl

/-- `p` changes nothing when it returns `false`. -/
def FailsClean (p : Parser Bool) : Prop := ∀ s, (p.run s).1 = false → (p.run s).2 = s

theorem FailsClean.orElse {p q : Parser Bool} (hp : FailsClean p) (hq : FailsClean q) :
    FailsClean (p >>= fun b => if b = true then pure true else q) := by
  intro s h
  rw [run_orElse] at h ⊢
  split at h
  · cases h
  · rename_i hp'
    have hs := hp s (by simpa using hp')
    rw [if_neg hp']
    rw [hs] at h ⊢
    exact hq s h

theorem parseQos_failsClean : FailsClean parseQos :=
  FailsClean.orElse (fun _ => parseMatchStr_false) <| FailsClean.orElse (fun _ => parseMatchStr_false) <|
    FailsClean.orElse (fun _ => parseMatchStr_false) fun _ _ => rfl

theorem parseService_failsClean : FailsClean parseService := by
  intro s h
  change ((if ".service".toList.isSuffixOf s.name = true then _ else _ : Parser Bool).run s).1 = false at h
  show ((if ".service".toList.isSuffixOf s.name = true then _ else _ : Parser Bool).run s).2 = s
  split at h
  · cases h
  · rw [if_neg (by assumption)]
    rfl

/-! ## The container id -/

/-- The container id is empty or 64 hex digits that stand in a row in the name. -/
def ContainerOk (s : State) : Prop :=
  s.info.containerId = [] ∨
    (s.info.containerId.length = 64 ∧ (∀ c ∈ s.info.containerId, isHexDigit c = true) ∧
      s.info.containerId <:+: s.name)

/-- No container id yet, and a read head within the name. -/
def NoContainer (s : State) : Prop := s.info.containerId = [] ∧ s.readHead <:+ s.name

theorem Writes.noContainer {α : Type} {W : List Field} {p : Parser α} (h : Writes W p)
    (hW : .containerId ∉ W) : Triple NoContainer p fun _ => NoContainer :=
  fun s hs => ⟨((h s).fieldOf_eq hW).trans hs.1, (h s).suffix hs.2⟩

/-- The loop of `parse_container_id`: on success it read `n` hex digits, which it appended to
    the container id; on failure the container id is empty. -/
theorem parseContainerIdLoop_spec : ∀ (n : Nat) (s : State),
    (((parseContainerIdLoop n).run s).1 = true →
      ∃ h : List Char, h.length = n ∧ (∀ c ∈ h, isHexDigit c = true) ∧
        s.readHead = h ++ ((parseContainerIdLoop n).run s).2.readHead ∧
        ((parseContainerIdLoop n).run s).2.info.containerId = s.info.containerId ++ h) ∧
    (((parseContainerIdLoop n).run s).1 = false →
      ((parseContainerIdLoop n).run s).2.info.containerId = [])
  | 0, s => ⟨fun _ => ⟨[], rfl, by simp, rfl, (List.append_nil _).symm⟩, fun h => by cases h⟩
  | n + 1, s => by
    have hstep : (parseContainerIdLoop (n + 1)).run s =
        (if ((parseMatchPred isHexDigit (some .containerId)).run s).1 = true then
          parseContainerIdLoop n
        else
          (modify fun s => { s with info := { s.info with containerId := [] } }) >>= fun _ =>
            (pure false : Parser Bool)).run ((parseMatchPred isHexDigit (some .containerId)).run s).2 :=
      rfl
    rw [hstep, parseMatchPred_run]
    rcases hs : s.readHead with _ | ⟨c, cs⟩
    -- at the end of the name the loop fails and clears the container id
    · exact ⟨fun h => (by cases h), fun _ => rfl⟩
    by_cases hc : isHexDigit c = true
    -- a hex digit joins the container id, and the loop goes on after it
    · simp only [hc, if_true]
      set t : State := (consume.run ((store (some .containerId) [c]).run s).2).2
      have ht : t.readHead = cs ∧ t.info.containerId = s.info.containerId ++ [c] :=
        ⟨show s.readHead.drop 1 = cs by rw [hs]; rfl, rfl⟩
      obtain ⟨ih₁, ih₂⟩ := parseContainerIdLoop_spec n t
      refine ⟨fun h => ?_, ih₂⟩
      obtain ⟨h', hlen, hhex, hhead, hid⟩ := ih₁ h
      refine ⟨c :: h', by simp [hlen], ?_, by rw [List.cons_append, ← hhead, ht.1], by simp [hid, ht.2]⟩
      intro x hx
      rcases List.mem_cons.mp hx with rfl | hx
      · exact hc
      · exact hhex x hx
    -- any other character stops the loop, which clears the container id
    · simp only [hc, Bool.false_eq_true, if_false]
      exact ⟨fun h => (by cases h), fun _ => rfl⟩

/-- `parse_container_id` from an empty container id: a good container id, which is still empty
    when it fails. -/
theorem parseContainerId_spec :
    Triple NoContainer parseContainerId fun r s => ContainerOk s ∧ s.readHead <:+ s.name ∧ (r = false → s.info.containerId = []) := by
  unfold parseContainerId
  intro s ⟨hnil, hsuf⟩
  have hmoves := parseContainerIdLoop_writes 64 s
  obtain ⟨hok, hfail⟩ := parseContainerIdLoop_spec 64 s
  refine ⟨?_, hmoves.suffix hsuf, hfail⟩
  cases hr : ((parseContainerIdLoop 64).run s).1
  · exact Or.inl (hfail hr)
  · obtain ⟨h, hlen, hhex, hhead, hid⟩ := hok hr
    rw [hnil, List.nil_append] at hid
    have hpre : h <+: s.readHead := ⟨_, hhead.symm⟩
    refine Or.inr ⟨by rw [hid, hlen], by rw [hid]; exact hhex, ?_⟩
    rw [hid, hmoves.1]
    exact hpre.isInfix.trans hsuf.isInfix

/-! ## What a failed format leaves -/

/-- No container id, quality of service or service yet, and a read head within the name. -/
def Clean (s : State) : Prop :=
  s.info.containerId = [] ∧ s.info.qos = [] ∧ s.info.service = [] ∧ s.readHead <:+ s.name

/-- The spec of a format: from a clean state it leaves a good container id and a read head
    within the name, and a state that is still clean when it fails. -/
def AltSpec (p : Parser Bool) : Prop :=
  Triple Clean p fun r s => ContainerOk s ∧ s.readHead <:+ s.name ∧ (r = false → Clean s)

variable {s s' : State} {W : List Field}

theorem Clean.post (hc : Clean s) (r : Bool) :
    ContainerOk s ∧ s.readHead <:+ s.name ∧ (r = false → Clean s) :=
  ⟨Or.inl hc.1, hc.2.2.2, fun _ => hc⟩

/-- Helpers that write only the pod id and the runtime keep a state clean. -/
theorem NoContainer.post (hs : NoContainer s) :
    ContainerOk s ∧ s.readHead <:+ s.name ∧ (true = false → Clean s) :=
  ⟨Or.inl hs.1, hs.2, fun h => (by cases h)⟩

theorem Clean.of_moves (hc : Clean s) (h : Moves W s s') (hW : ∀ f ∈ W, f = .podId ∨ f = .runtime) :
    Clean s' := by
  have hkeep : ∀ f, f ≠ .podId → f ≠ .runtime → fieldOf s'.info f = fieldOf s.info f :=
    fun f h₁ h₂ => h.fieldOf_eq fun hf => (hW f hf).elim h₁ h₂
  exact ⟨(hkeep .containerId (by decide) (by decide)).trans hc.1,
    (hkeep .qos (by decide) (by decide)).trans hc.2.1,
    (hkeep .service (by decide) (by decide)).trans hc.2.2.1, h.suffix hc.2.2.2⟩

theorem Writes.clean {α : Type} {p : Parser α} (h : Writes W p)
    (hW : ∀ f ∈ W, f = .podId ∨ f = .runtime) : Triple Clean p fun _ => Clean :=
  fun s hc => hc.of_moves (h s) hW

theorem altSpec_of_writes {p : Parser Bool} (h : Writes W p)
    (hW : ∀ f ∈ W, f = .podId ∨ f = .runtime) : AltSpec p :=
  fun s hc => (hc.of_moves (h s) hW).post _

theorem altSpec_orElse {p q : Parser Bool} (hp : AltSpec p) (hq : AltSpec q) :
    AltSpec (p >>= fun b => if b = true then pure true else q) :=
  Triple.bind hp fun b => Triple.ite
    (fun _ => Triple.pure fun _ h => ⟨h.1, h.2.1, fun hb => by cases hb⟩)
    (fun hb => Triple.conseq hq (fun _ h => h.2.2 (by simpa using hb)) fun _ _ h => h)

theorem parsePodId_spec : AltSpec parsePodId :=
  altSpec_of_writes parsePodId_writes (by simp)

theorem parseContainerId_altSpec : AltSpec parseContainerId := by
  intro s hc
  obtain ⟨hok, hsuf, hfail⟩ := parseContainerId_spec s ⟨hc.1, hc.2.2.2⟩
  have hmoves := parseContainerIdLoop_writes 64 s
  refine ⟨hok, hsuf, fun hr => ⟨hfail hr, ?_, ?_, hsuf⟩⟩
  · exact (hmoves.fieldOf_eq (f := .qos) (by decide)).trans hc.2.1
  · exact (hmoves.fieldOf_eq (f := .service) (by decide)).trans hc.2.2.1

theorem parseService_spec : AltSpec parseService := by
  intro s hc
  have hmoves := parseService_writes s
  refine ⟨Or.inl ((hmoves.fieldOf_eq (f := .containerId) (by decide)).trans hc.1),
    hmoves.suffix hc.2.2.2, fun hr => ?_⟩
  rw [parseService_failsClean s hr]
  exact hc

theorem parseCri_spec : AltSpec parseCri := by
  unfold parseCri
  refine Triple.bind ((parseMatchStr_writes _ _).clean (by simp)) fun _ =>
    Triple.ite (fun _ => Triple.pure fun _ hc => hc.post _) fun _ => ?_
  exact Triple.bind ((parseToken_writes _ _).clean (by simp)) fun _ =>
    Triple.ite (fun _ => Triple.pure fun _ hc => hc.post _) fun _ => parseContainerId_altSpec

/-- Once the quality of service is read, `parse_systemd` succeeds: what follows keeps the
    container id empty until `parse_container_id`. -/
theorem parseSystemd_spec : AltSpec parseSystemd := by
  unfold parseSystemd
  refine Triple.bind ((parseMatchStr_writes _ _).clean (by simp)) fun _ =>
    Triple.ite (fun _ => Triple.pure fun _ hc => hc.post _) fun _ => ?_
  -- `parse_qos` either fails and changes nothing or writes the quality of service only
  refine Triple.bind (R := fun b s => (b = false → Clean s) ∧ NoContainer s) (fun s hc => ?_) fun _ =>
    Triple.ite (fun hb => Triple.pure fun _ h => (h.1 (by simpa using hb)).post _) fun _ => ?_
  · have hmoves := parseQos_writes s
    exact ⟨fun hr => by rw [parseQos_failsClean s hr]; exact hc,
      (hmoves.fieldOf_eq (f := .containerId) (by decide)).trans hc.1, hmoves.suffix hc.2.2.2⟩
  -- the rest writes the pod id and the runtime, then the container id
  refine Triple.conseq (P := NoContainer) ?_ (fun _ h => h.2) fun _ _ h => h
  refine Triple.bind ((parseToken_writes _ _).noContainer (by simp)) fun _ =>
    Triple.bind (parsePodId_writes.noContainer (by simp)) fun _ =>
      Triple.ite (fun _ => Triple.pure fun _ h => h.post) fun _ => ?_
  refine Triple.bind ((parseToken_writes _ _).noContainer (by simp)) fun _ =>
    Triple.bind ((parseToken_writes _ _).noContainer (by simp)) fun _ =>
      Triple.ite (fun _ => Triple.pure fun _ h => h.post) fun _ => ?_
  exact Triple.bind parseContainerId_spec fun _ =>
    Triple.pure fun _ h => ⟨h.1, h.2.1, fun h => by cases h⟩

theorem parseCgroup_spec : AltSpec parseCgroup :=
  altSpec_orElse parseSystemd_spec <| altSpec_orElse parseCri_spec <|
    altSpec_orElse parsePodId_spec <| altSpec_orElse parseContainerId_altSpec <|
      altSpec_orElse parseService_spec <| Triple.pure fun _ hc => hc.post _

/-! ## The result -/

/-- The container id of every result is empty or 64 consecutive hex digits of the name, an
    invalid result has no container id, quality of service or service, and the read head never
    leaves the name. -/
theorem parse_spec (name : List Char) :
    ((CGroupParser.parse name).containerId = [] ∨
      ((CGroupParser.parse name).containerId.length = 64 ∧
        (∀ c ∈ (CGroupParser.parse name).containerId, isHexDigit c = true) ∧
        (CGroupParser.parse name).containerId <:+: name)) ∧
    ((CGroupParser.parse name).valid = false →
      (CGroupParser.parse name).containerId = [] ∧ (CGroupParser.parse name).qos = [] ∧
        (CGroupParser.parse name).service = []) ∧
    (parseCgroup.run { name, readHead := name, info := {} }).2.readHead <:+ name := by
  let s₀ : State := { name, readHead := name, info := {} }
  obtain ⟨hok, -, hfail⟩ := parseCgroup_spec s₀ ⟨rfl, rfl, rfl, List.suffix_refl _⟩
  have hname : (parseCgroup.run s₀).2.name = name := (parseCgroup_writes s₀).1
  refine ⟨?_, fun hv => ?_, parseCgroup_readHead name⟩
  · unfold ContainerOk at hok
    rw [hname] at hok
    exact hok
  · obtain ⟨h₁, h₂, h₃, -⟩ := hfail hv
    exact ⟨h₁, h₂, h₃⟩

/-- A pod id cut short: `parse_uid` appended the digits it read before failing. -/
theorem cgroupParser_keeps_partial_pod_id :
    CGroupParser.parse "pod1234".toList = { podId := "1234".toList, valid := false } ∧
      CGroupParser.parse "cri-containerd-xyz".toList =
        { runtime := "containerd".toList, valid := false } ∧
      (CGroupParser.parse "kubepods-burstable-pod1234".toList).valid = true ∧
      (CGroupParser.parse "kubepods-burstable-pod1234".toList).podId = "1234".toList := by
  decide +kernel

end OtelNetwork.CGroupParser
