import Mathlib.Tactic.Set
import OtelNetwork.Reducer.Aggregator

/-!
# Where the aggregator puts a metric

An aggregation root caches one node-node reference per direction. `update_node` sets both
references together, to the keys of the two sides it then knows, the first time both sides are
known, and never again: both references stay in the node-node store for as long as the root
lives, and every metric of a direction is added to the entry its reference names. A later
`update_node` changes the side it names but not the references, so metrics keep going to the
entry of the sides as they were when the root was first wired.
-/

namespace OtelNetwork.Aggregation

open Function

/-- The key of the other direction. -/
def NodeNodeKey.swap (k : NodeNodeKey) : NodeNodeKey := ⟨k.dstAz, k.dstNode, k.srcAz, k.srcNode⟩

/-- The key of the direction from side A to side B, once both sides are known. -/
def AggRoot.sides (root : AggRoot) : Option NodeNodeKey :=
  match root.aNode, root.aAz, root.bNode, root.bAz with
  | some aNode, some aAz, some bNode, some bAz => some ⟨aAz, aNode, bAz, bNode⟩
  | _, _, _, _ => none

/-- The root with one side's zone and node set. -/
def AggRoot.attach (root : AggRoot) (side : Side) (az : Az) (node : Node) : AggRoot :=
  match side with
  | .a => { root with aAz := some az, aNode := some node }
  | .b => { root with bAz := some az, bNode := some node }

/-- The node `update_node` stores: its address is blanked under `disable_node_ip_field`. -/
def Aggregator.blank (g : Aggregator) (node : Node) : Node :=
  if g.disableNodeIpField then { node with address := "" } else node

@[simp] theorem AggRoot.attach_aToB (root : AggRoot) (side : Side) (az : Az) (node : Node) :
    (root.attach side az node).aToB = root.aToB := by
  cases side <;> rfl

@[simp] theorem AggRoot.attach_bToA (root : AggRoot) (side : Side) (az : Az) (node : Node) :
    (root.attach side az node).bToA = root.bToA := by
  cases side <;> rfl

/-- The reference a metric of the direction follows. -/
def AggRoot.ref (root : AggRoot) : Direction → Option NodeNodeKey
  | .atoB => root.aToB
  | .btoA => root.bToA

/-- The entry after `add_*` adds a metric into it through the reference `r`. -/
def NodeNodeEntry.added (e : NodeNodeEntry) (f : AllMetrics → AllMetrics) (r : NodeNodeKey) :
    NodeNodeEntry :=
  { metrics := f e.metrics, keepalive := if e.keepalive.isNone then some r else e.keepalive }

/-- The messages that reset or remove the root at `key`. -/
def AggMessage.Resets (key : AggRootKey) : AggMessage → Prop
  | .aggRootStart k => k = key
  | .aggRootEnd k => k = key
  | _ => False

/-! ## The node-node store -/

section FindOrInsert

variable {store : NodeNodeKey → Option NodeNodeEntry} {k x : NodeNodeKey}

theorem findOrInsert_self : Aggregator.findOrInsert store k k = some ((store k).getD {}) := by
  unfold Aggregator.findOrInsert
  cases h : store k <;> simp [h]

theorem findOrInsert_of_ne (hx : x ≠ k) : Aggregator.findOrInsert store k x = store x := by
  unfold Aggregator.findOrInsert
  cases store k <;> simp [update_of_ne hx]

/-- A find-or-insert never changes an entry that is there. -/
theorem findOrInsert_of_isSome (hx : (store x).isSome) :
    (Aggregator.findOrInsert store k x) = store x := by
  by_cases hxk : x = k
  · subst hxk
    obtain ⟨e, he⟩ := Option.isSome_iff_exists.mp hx
    simp [findOrInsert_self, he]
  · exact findOrInsert_of_ne hxk

theorem isSome_findOrInsert (hx : (store x).isSome ∨ x = k) :
    (Aggregator.findOrInsert store k x).isSome := by
  rcases hx with hx | rfl
  · rwa [findOrInsert_of_isSome hx]
  · simp [findOrInsert_self]

end FindOrInsert

namespace Aggregator

variable {g : Aggregator} {key : AggRootKey}

/-! ## One lemma per operation -/

theorem updateNode_eq (g : Aggregator) (key : AggRootKey) (side : Side) (az : Az) (node : Node) :
    g.updateNode key side az node =
      g.wireRoot key (((g.aggRoots key).getD {}).attach side az (g.blank node)) := by
  cases side <;> rfl

/-- The root is stored, and wired if it was unwired and knows both sides. -/
theorem wireRoot_cases (g : Aggregator) (key : AggRootKey) (root : AggRoot) :
    (root.aToB = none ∧ root.bToA = none ∧ ∃ k, root.sides = some k ∧
      g.wireRoot key root = { g with
        aggRoots := update g.aggRoots key (some { root with aToB := some k, bToA := some k.swap })
        nodeNodeStore := findOrInsert (findOrInsert g.nodeNodeStore k) k.swap }) ∨
    ((root.aToB.isSome ∨ root.bToA.isSome ∨ root.sides = none) ∧
      g.wireRoot key root = { g with aggRoots := update g.aggRoots key (some root) }) := by
  unfold wireRoot
  split
  · rename_i hunset
    simp only [Bool.and_eq_true, Option.isNone_iff_eq_none] at hunset
    split
    · rename_i aNode aAz bNode bAz ha hb hc hd
      exact .inl ⟨hunset.1, hunset.2, _, by simp [AggRoot.sides, ha, hb, hc, hd], rfl⟩
    · rename_i hnot
      refine .inr ⟨.inr (.inr ?_), rfl⟩
      unfold AggRoot.sides
      split
      · rename_i ha hb hc hd
        exact absurd hd (hnot _ _ _ _ ha hb hc)
      · rfl
  · rename_i hset
    refine .inr ⟨?_, rfl⟩
    cases ha : root.aToB <;> cases hb : root.bToA <;> simp_all

theorem wireRoot_of_unset {root : AggRoot} {k : NodeNodeKey} (ha : root.aToB = none)
    (hb : root.bToA = none) (hs : root.sides = some k) :
    g.wireRoot key root = { g with
      aggRoots := update g.aggRoots key (some { root with aToB := some k, bToA := some k.swap })
      nodeNodeStore := findOrInsert (findOrInsert g.nodeNodeStore k) k.swap } := by
  rcases wireRoot_cases g key root with ⟨-, -, k', hs', heq⟩ | ⟨hnot, -⟩
  · rw [hs] at hs'
    cases hs'
    exact heq
  · simp [ha, hb, hs] at hnot

theorem wireRoot_of_not_unset {root : AggRoot}
    (h : root.aToB.isSome ∨ root.bToA.isSome ∨ root.sides = none) :
    g.wireRoot key root = { g with aggRoots := update g.aggRoots key (some root) } := by
  rcases wireRoot_cases g key root with ⟨ha, hb, k, hs, -⟩ | ⟨-, heq⟩
  · simp [ha, hb, hs] at h
  · exact heq

theorem updateNode_of_root {root : AggRoot} (hroot : g.aggRoots key = some root) (side : Side)
    (az : Az) (node : Node) :
    g.updateNode key side az node = g.wireRoot key (root.attach side az (g.blank node)) := by
  rw [updateNode_eq, hroot]
  rfl

/-- `update_node` keeps the feature flag, so it blanks every node alike. -/
theorem blank_updateNode (g : Aggregator) (key : AggRootKey) (side : Side) (az : Az)
    (node : Node) : (g.updateNode key side az node).blank = g.blank := by
  rw [updateNode_eq]
  generalize ((g.aggRoots key).getD {}).attach side az (g.blank node) = root
  rcases wireRoot_cases g key root with ⟨-, -, k, -, heq⟩ | ⟨-, heq⟩ <;>
  · rw [heq]
    rfl

/-- `update_node` on a root it does not wire: the root gets the side, the store stays. -/
theorem updateNode_self_of_not_unset {root : AggRoot} (hroot : g.aggRoots key = some root)
    (side : Side) (az : Az) (node : Node)
    (h : (root.attach side az (g.blank node)).aToB.isSome ∨
      (root.attach side az (g.blank node)).bToA.isSome ∨
      (root.attach side az (g.blank node)).sides = none) :
    (g.updateNode key side az node).aggRoots key = some (root.attach side az (g.blank node)) ∧
      (g.updateNode key side az node).nodeNodeStore = g.nodeNodeStore := by
  rw [updateNode_of_root hroot, wireRoot_of_not_unset h]
  exact ⟨update_self key _ g.aggRoots, rfl⟩

/-- `update_node` on a root it wires: the references are the keys of the two sides, and both
    are found or inserted. -/
theorem updateNode_self_of_unset {root : AggRoot} {k : NodeNodeKey}
    (hroot : g.aggRoots key = some root) (side : Side) (az : Az) (node : Node)
    (ha : root.aToB = none) (hb : root.bToA = none)
    (hs : (root.attach side az (g.blank node)).sides = some k) :
    (g.updateNode key side az node).aggRoots key =
        some { root.attach side az (g.blank node) with aToB := some k, bToA := some k.swap } ∧
      (g.updateNode key side az node).nodeNodeStore =
        findOrInsert (findOrInsert g.nodeNodeStore k) k.swap := by
  rw [updateNode_of_root hroot, wireRoot_of_unset (by simpa using ha) (by simpa using hb) hs]
  exact ⟨update_self key _ g.aggRoots, rfl⟩

/-- `find_node_node_ref` on a present root gives the reference of the direction. -/
theorem findNodeNodeRef_of_root {root : AggRoot} (hroot : g.aggRoots key = some root)
    (dir : Direction) : g.findNodeNodeRef key dir = (root.ref dir, g) := by
  unfold findNodeNodeRef
  rw [hroot]
  cases dir <;> rfl

/-- `find_node_node_ref` only counts. -/
theorem findNodeNodeRef_snd (g : Aggregator) (key : AggRootKey) (dir : Direction) :
    (g.findNodeNodeRef key dir).2.aggRoots = g.aggRoots ∧
      (g.findNodeNodeRef key dir).2.nodeNodeStore = g.nodeNodeStore := by
  unfold findNodeNodeRef
  cases g.aggRoots key <;> exact ⟨rfl, rfl⟩

/-- A metric of a direction whose reference names an entry is added into that entry. -/
theorem addMetrics_of_ref (f : AllMetrics → AllMetrics) (dir : Direction) {root : AggRoot}
    {r : NodeNodeKey} {e : NodeNodeEntry} (hroot : g.aggRoots key = some root)
    (href : root.ref dir = some r) (he : g.nodeNodeStore r = some e) :
    g.addMetrics f key dir = { g with nodeNodeStore := update g.nodeNodeStore r (some (e.added f r)) } := by
  unfold addMetrics
  rw [findNodeNodeRef_of_root hroot, href]
  simp only [he]
  rfl

/-- Adding a metric changes no root. -/
theorem addMetrics_aggRoots (f : AllMetrics → AllMetrics) (dir : Direction) :
    (g.addMetrics f key dir).aggRoots = g.aggRoots := by
  have hsnd := (findNodeNodeRef_snd g key dir).1
  unfold addMetrics
  revert hsnd
  cases g.findNodeNodeRef key dir with
  | mk o g' =>
    intro hsnd
    cases o with
    | none => exact hsnd
    | some r =>
      dsimp only
      cases g'.nodeNodeStore r <;> exact hsnd

/-- Adding a metric neither adds nor removes a node-node entry. -/
theorem isSome_addMetrics (f : AllMetrics → AllMetrics) (dir : Direction) (x : NodeNodeKey) :
    ((g.addMetrics f key dir).nodeNodeStore x).isSome = (g.nodeNodeStore x).isSome := by
  have hsnd := (findNodeNodeRef_snd g key dir).2
  unfold addMetrics
  revert hsnd
  cases g.findNodeNodeRef key dir with
  | mk o g' =>
    intro hsnd
    dsimp only at hsnd
    rw [← hsnd]
    cases o with
    | none => rfl
    | some r =>
      dsimp only
      cases he : g'.nodeNodeStore r with
      | none => rfl
      | some e =>
        by_cases hx : x = r
        · subst hx
          simp [he]
        · simp [update_of_ne hx]

/-- Storing the root of one key leaves the roots of the other keys as they were. -/
theorem wireRoot_aggRoots_of_ne {key' : AggRootKey} (root : AggRoot) (hne : key ≠ key') :
    (g.wireRoot key' root).aggRoots key = g.aggRoots key := by
  rcases wireRoot_cases g key' root with ⟨-, -, k, -, heq⟩ | ⟨-, heq⟩ <;>
    · rw [heq]
      exact update_of_ne hne _ _

/-! ## The invariant: both references of a root name entries of the store -/

/-- A root's references are a key and its swap, and both name entries of the store. -/
structure RootWired (store : NodeNodeKey → Option NodeNodeEntry) (root : AggRoot) : Prop where
  paired : root.bToA = root.aToB.map NodeNodeKey.swap
  stored : ∀ k, root.aToB = some k → (store k).isSome ∧ (store k.swap).isSome

/-- Every root of the aggregator is wired so. -/
def Wired (g : Aggregator) : Prop :=
  ∀ key root, g.aggRoots key = some root → RootWired g.nodeNodeStore root

section RootWired

variable {store store' : NodeNodeKey → Option NodeNodeEntry} {root : AggRoot}

theorem rootWired_default : RootWired store {} := ⟨rfl, fun _ h => by cases h⟩

theorem RootWired.mono (h : RootWired store root)
    (hs : ∀ x, (store x).isSome → (store' x).isSome) : RootWired store' root :=
  ⟨h.paired, fun k hk => ⟨hs _ (h.stored k hk).1, hs _ (h.stored k hk).2⟩⟩

theorem RootWired.attach (h : RootWired store root) (side : Side) (az : Az) (node : Node) :
    RootWired store (root.attach side az node) := by
  constructor
  · simpa using h.paired
  · simpa using h.stored

end RootWired

theorem Wired.getD (hw : Wired g) (key : AggRootKey) :
    RootWired g.nodeNodeStore ((g.aggRoots key).getD {}) := by
  cases h : g.aggRoots key with
  | none => exact rootWired_default
  | some root => exact hw key root h

/-- Storing a wired root at a key, over a store that keeps every entry, keeps the invariant. -/
theorem Wired.update (hw : Wired g) {root : AggRoot} {store : NodeNodeKey → Option NodeNodeEntry}
    (hroot : RootWired store root) (hs : ∀ x, (g.nodeNodeStore x).isSome → (store x).isSome) :
    Wired { g with aggRoots := update g.aggRoots key (some root), nodeNodeStore := store } := by
  intro key' root' h
  by_cases hk : key' = key
  · subst hk
    simp only [update_self, Option.some.injEq] at h
    exact h ▸ hroot
  · simp only [update_of_ne hk] at h
    exact (hw key' root' h).mono hs

theorem Wired.wireRoot (hw : Wired g) {root : AggRoot} (hr : RootWired g.nodeNodeStore root) :
    Wired (g.wireRoot key root) := by
  rcases wireRoot_cases g key root with ⟨-, -, k, -, heq⟩ | ⟨-, heq⟩
  · -- both references are found or inserted, and no entry goes
    rw [heq]
    have hmono : ∀ x, (g.nodeNodeStore x).isSome →
        (findOrInsert (findOrInsert g.nodeNodeStore k) k.swap x).isSome :=
      fun x hx => isSome_findOrInsert (.inl (isSome_findOrInsert (.inl hx)))
    refine hw.update ⟨rfl, ?_⟩ hmono
    rintro k' ⟨⟩
    exact ⟨isSome_findOrInsert (.inl (isSome_findOrInsert (.inr rfl))),
      isSome_findOrInsert (.inr rfl)⟩
  · rw [heq]
    exact hw.update hr fun _ hx => hx

theorem Wired.updateNode (hw : Wired g) (key : AggRootKey) (side : Side) (az : Az)
    (node : Node) : Wired (g.updateNode key side az node) := by
  rw [updateNode_eq]
  exact hw.wireRoot ((hw.getD key).attach side az _)

theorem Wired.aggRootStart (hw : Wired g) (key : AggRootKey) : Wired (g.aggRootStart key) :=
  hw.update rootWired_default fun _ hx => hx

theorem Wired.aggRootEnd (hw : Wired g) (key : AggRootKey) : Wired (g.aggRootEnd key) := by
  intro key' root' h
  by_cases hk : key' = key
  · subst hk
    simp [Aggregator.aggRootEnd] at h
  · simp only [Aggregator.aggRootEnd, update_of_ne hk] at h
    exact hw key' root' h

theorem Wired.addMetrics (hw : Wired g) (f : AllMetrics → AllMetrics) (key : AggRootKey)
    (dir : Direction) : Wired (g.addMetrics f key dir) := by
  intro key' root' h
  rw [addMetrics_aggRoots] at h
  exact (hw key' root' h).mono fun x hx => by rwa [isSome_addMetrics]

theorem Wired.handle (hw : Wired g) (msg : AggMessage) : Wired (g.handle msg) := by
  cases msg with
  | aggRootStart key => exact hw.aggRootStart key
  | aggRootEnd key => exact hw.aggRootEnd key
  | updateNode key side az node => exact hw.updateNode key _ az node
  | updateTcp key d m => exact hw.addMetrics _ key _
  | updateUdp key d m => exact hw.addMetrics _ key _
  | updateHttp key d m => exact hw.addMetrics _ key _
  | updateDns key d m => exact hw.addMetrics _ key _

/-! ## The references of a root never change -/

/-- Every message but `agg_root_start` and `agg_root_end` of its key keeps a root wired to
    the references it has, whatever sides `update_node` later sets. -/
theorem handle_keeps_ref {root : AggRoot} {k : NodeNodeKey} (hroot : g.aggRoots key = some root)
    (hk : root.aToB = some k) (msg : AggMessage) (hmsg : ¬ msg.Resets key) :
    ∃ root', (g.handle msg).aggRoots key = some root' ∧ root'.aToB = some k := by
  cases msg with
  | aggRootStart key' =>
    have hne : key ≠ key' := fun h => hmsg h.symm
    exact ⟨root, by simp [handle, Aggregator.aggRootStart, update_of_ne hne, hroot], hk⟩
  | aggRootEnd key' =>
    have hne : key ≠ key' := fun h => hmsg h.symm
    exact ⟨root, by simp [handle, Aggregator.aggRootEnd, update_of_ne hne, hroot], hk⟩
  | updateNode key' side az node =>
    simp only [handle, updateNode_eq]
    by_cases hkey : key = key'
    · -- the root is set a side, and keeps its references
      subst hkey
      have hset : (((g.aggRoots key).getD {}).attach (if side = 0 then .a else .b) az
          (g.blank node)).aToB.isSome := by simp [hroot, hk]
      rw [wireRoot_of_not_unset (.inl hset)]
      exact ⟨_, update_self .., by simp [hroot, hk]⟩
    · rw [wireRoot_aggRoots_of_ne _ hkey]
      exact ⟨root, hroot, hk⟩
  | updateTcp key' d m => exact ⟨root, by simp only [handle, addTcp, addMetrics_aggRoots, hroot], hk⟩
  | updateUdp key' d m => exact ⟨root, by simp only [handle, addUdp, addMetrics_aggRoots, hroot], hk⟩
  | updateHttp key' d m =>
    exact ⟨root, by simp only [handle, addHttp, addMetrics_aggRoots, hroot], hk⟩
  | updateDns key' d m => exact ⟨root, by simp only [handle, addDns, addMetrics_aggRoots, hroot], hk⟩

/-- A root keeps its wired reference through every sequence of messages without an
    `agg_root_start` or `agg_root_end` of its key. -/
theorem run_keeps_ref {root : AggRoot} {k : NodeNodeKey} (hroot : g.aggRoots key = some root)
    (hk : root.aToB = some k) (msgs : List AggMessage) (hmsgs : ∀ msg ∈ msgs, ¬ msg.Resets key) :
    ∃ root', (g.run msgs).aggRoots key = some root' ∧ root'.aToB = some k := by
  induction msgs generalizing g root with
  | nil => exact ⟨root, hroot, hk⟩
  | cons msg msgs ih =>
    obtain ⟨root', hroot', hk'⟩ := handle_keeps_ref hroot hk msg (hmsgs msg List.mem_cons_self)
    exact ih hroot' hk' fun msg' hm => hmsgs msg' (List.mem_cons_of_mem _ hm)

/-- A root wired to the nodes `n1` and `n2` keeps its reference when side A moves to `n3`. -/
theorem run_keeps_ref_moved_node :
    ∃ root k, (new.run [.aggRootStart (0, 0),
        .updateNode (0, 0) 0 ⟨"z", "", "", "", "", 0, "", "", ""⟩ ⟨"n1", "10.0.0.1", ""⟩,
        .updateNode (0, 0) 1 ⟨"z", "", "", "", "", 0, "", "", ""⟩ ⟨"n2", "10.0.0.2", ""⟩]).aggRoots
        (0, 0) = some root ∧ root.aToB = some k ∧
      (∀ msg ∈ [AggMessage.updateNode (0, 0) 0 ⟨"z", "", "", "", "", 0, "", "", ""⟩
          ⟨"n3", "10.0.0.3", ""⟩], ¬ msg.Resets (0, 0)) ∧
      ∃ root', ((new.run [.aggRootStart (0, 0),
          .updateNode (0, 0) 0 ⟨"z", "", "", "", "", 0, "", "", ""⟩ ⟨"n1", "10.0.0.1", ""⟩,
          .updateNode (0, 0) 1 ⟨"z", "", "", "", "", 0, "", "", ""⟩ ⟨"n2", "10.0.0.2", ""⟩]).run
          [.updateNode (0, 0) 0 ⟨"z", "", "", "", "", 0, "", "", ""⟩ ⟨"n3", "10.0.0.3", ""⟩]).aggRoots
          (0, 0) = some root' ∧ root'.aToB = some k := by
  have hroot : (new.run [.aggRootStart (0, 0),
      .updateNode (0, 0) 0 ⟨"z", "", "", "", "", 0, "", "", ""⟩ ⟨"n1", "10.0.0.1", ""⟩,
      .updateNode (0, 0) 1 ⟨"z", "", "", "", "", 0, "", "", ""⟩ ⟨"n2", "10.0.0.2", ""⟩]).aggRoots
      (0, 0) = some _ := rfl
  have hmsgs : ∀ msg ∈ [AggMessage.updateNode (0, 0) 0 ⟨"z", "", "", "", "", 0, "", "", ""⟩
      ⟨"n3", "10.0.0.3", ""⟩], ¬ msg.Resets (0, 0) := by
    simp [AggMessage.Resets]
  exact ⟨_, _, hroot, rfl, hmsgs, run_keeps_ref hroot rfl _ hmsgs⟩

/-! ## A side that moves after the root is wired -/

/-- Side A of a root moves after both sides are known: the root has the new side, but a metric
    from A to B still goes to the entry of the sides as they were first known, and the entry of
    the sides as they now are gets nothing. -/
theorem addTcp_follows_first_wiring (g : Aggregator) (key : AggRootKey) (azA azB azA' : Az)
    (nA nB nA' : Node) (m : TcpMetrics)
    (hne : (⟨azA', g.blank nA', azB, g.blank nB⟩ : NodeNodeKey) ≠
      ⟨azA, g.blank nA, azB, g.blank nB⟩) :
    ∃ root, (g.run [.aggRootStart key, .updateNode key 0 azA nA, .updateNode key 1 azB nB,
        .updateNode key 0 azA' nA', .updateTcp key 0 m]).aggRoots key = some root ∧
      root.aAz = some azA' ∧ root.aNode = some (g.blank nA') ∧
      root.bAz = some azB ∧ root.bNode = some (g.blank nB) ∧
      ((g.run [.aggRootStart key, .updateNode key 0 azA nA, .updateNode key 1 azB nB,
          .updateNode key 0 azA' nA', .updateTcp key 0 m]).nodeNodeStore
          ⟨azA, g.blank nA, azB, g.blank nB⟩).map (fun e => e.metrics.tcp) =
        some (((g.nodeNodeStore ⟨azA, g.blank nA, azB, g.blank nB⟩).getD {}).metrics.tcp.addFrom m) ∧
      (g.run [.aggRootStart key, .updateNode key 0 azA nA, .updateNode key 1 azB nB,
          .updateNode key 0 azA' nA', .updateTcp key 0 m]).nodeNodeStore
          ⟨azA', g.blank nA', azB, g.blank nB⟩ =
        g.nodeNodeStore ⟨azA', g.blank nA', azB, g.blank nB⟩ := by
  set stale : NodeNodeKey := ⟨azA, g.blank nA, azB, g.blank nB⟩ with hstale
  set latest : NodeNodeKey := ⟨azA', g.blank nA', azB, g.blank nB⟩ with hlatest
  -- the five messages are these calls
  have hrun : g.run [.aggRootStart key, .updateNode key 0 azA nA, .updateNode key 1 azB nB,
      .updateNode key 0 azA' nA', .updateTcp key 0 m] =
      ((((g.aggRootStart key).updateNode key .a azA nA).updateNode key .b azB nB).updateNode key .a
        azA' nA').addTcp key .atoB m := rfl
  rw [hrun]
  -- the first `update_node` knows side A only
  have hr₁ : (g.aggRootStart key).aggRoots key = some {} := update_self key _ g.aggRoots
  obtain ⟨hr₂, hst₂⟩ := updateNode_self_of_not_unset hr₁ .a azA nA (.inr (.inr rfl))
  -- the second knows both sides and wires the root to them
  obtain ⟨hr₃, hst₃⟩ := updateNode_self_of_unset (k := stale) hr₂ .b azB nB rfl rfl
    (by rw [blank_updateNode]; rfl)
  -- the third moves side A, and the references stay
  obtain ⟨hr₄, hst₄⟩ := updateNode_self_of_not_unset hr₃ .a azA' nA' (.inl rfl)
  have he : ((((g.aggRootStart key).updateNode key .a azA nA).updateNode key .b azB nB).updateNode
      key .a azA' nA').nodeNodeStore stale = some ((g.nodeNodeStore stale).getD {}) := by
    rw [hst₄, hst₃, hst₂, findOrInsert_of_isSome (by simp [findOrInsert_self]), findOrInsert_self]
    rfl
  -- the metric goes to the entry of the wired sides
  have hg₅ := addMetrics_of_ref (fun all => { all with tcp := all.tcp.addFrom m }) .atoB hr₄ rfl he
  have hswap : latest ≠ stale.swap := by
    intro h
    simp only [hlatest, hstale, NodeNodeKey.swap, NodeNodeKey.mk.injEq] at h
    obtain ⟨h₁, h₂, h₃, h₄⟩ := h
    apply hne
    rw [hlatest, hstale, h₁, h₂, ← h₃, ← h₄]
  rw [addTcp, addMetrics_aggRoots, hr₄, hg₅]
  refine ⟨_, rfl, rfl, ?_, rfl, ?_, ?_, ?_⟩
  · simp only [blank_updateNode]
    rfl
  · simp only [blank_updateNode]
    rfl
  · simp only [update_self, Option.map_some]
    rfl
  · simp only [update_of_ne hne]
    rw [hst₄, hst₃, hst₂, findOrInsert_of_ne hswap, findOrInsert_of_ne hne]
    rfl
theorem addTcp_follows_first_wiring_moved_node :
    (⟨⟨"z", "", "", "", "", 0, "", "", ""⟩, new.blank ⟨"n3", "10.0.0.3", ""⟩,
        ⟨"z", "", "", "", "", 0, "", "", ""⟩, new.blank ⟨"n2", "10.0.0.2", ""⟩⟩ : NodeNodeKey) ≠
      ⟨⟨"z", "", "", "", "", 0, "", "", ""⟩, new.blank ⟨"n1", "10.0.0.1", ""⟩,
        ⟨"z", "", "", "", "", 0, "", "", ""⟩, new.blank ⟨"n2", "10.0.0.2", ""⟩⟩ ∧
    ∃ root, (new.run [.aggRootStart (0, 0),
        .updateNode (0, 0) 0 ⟨"z", "", "", "", "", 0, "", "", ""⟩ ⟨"n1", "10.0.0.1", ""⟩,
        .updateNode (0, 0) 1 ⟨"z", "", "", "", "", 0, "", "", ""⟩ ⟨"n2", "10.0.0.2", ""⟩,
        .updateNode (0, 0) 0 ⟨"z", "", "", "", "", 0, "", "", ""⟩ ⟨"n3", "10.0.0.3", ""⟩,
        .updateTcp (0, 0) 0 { activeSockets := 1 }]).aggRoots (0, 0) = some root ∧
      root.aAz = some ⟨"z", "", "", "", "", 0, "", "", ""⟩ ∧
      root.aNode = some (new.blank ⟨"n3", "10.0.0.3", ""⟩) ∧
      root.bAz = some ⟨"z", "", "", "", "", 0, "", "", ""⟩ ∧
      root.bNode = some (new.blank ⟨"n2", "10.0.0.2", ""⟩) ∧
      ((new.run [.aggRootStart (0, 0),
          .updateNode (0, 0) 0 ⟨"z", "", "", "", "", 0, "", "", ""⟩ ⟨"n1", "10.0.0.1", ""⟩,
          .updateNode (0, 0) 1 ⟨"z", "", "", "", "", 0, "", "", ""⟩ ⟨"n2", "10.0.0.2", ""⟩,
          .updateNode (0, 0) 0 ⟨"z", "", "", "", "", 0, "", "", ""⟩ ⟨"n3", "10.0.0.3", ""⟩,
          .updateTcp (0, 0) 0 { activeSockets := 1 }]).nodeNodeStore
          ⟨⟨"z", "", "", "", "", 0, "", "", ""⟩, new.blank ⟨"n1", "10.0.0.1", ""⟩,
            ⟨"z", "", "", "", "", 0, "", "", ""⟩, new.blank ⟨"n2", "10.0.0.2", ""⟩⟩).map
          (fun e => e.metrics.tcp) =
        some (((new.nodeNodeStore ⟨⟨"z", "", "", "", "", 0, "", "", ""⟩,
          new.blank ⟨"n1", "10.0.0.1", ""⟩, ⟨"z", "", "", "", "", 0, "", "", ""⟩,
          new.blank ⟨"n2", "10.0.0.2", ""⟩⟩).getD {}).metrics.tcp.addFrom { activeSockets := 1 }) ∧
      (new.run [.aggRootStart (0, 0),
          .updateNode (0, 0) 0 ⟨"z", "", "", "", "", 0, "", "", ""⟩ ⟨"n1", "10.0.0.1", ""⟩,
          .updateNode (0, 0) 1 ⟨"z", "", "", "", "", 0, "", "", ""⟩ ⟨"n2", "10.0.0.2", ""⟩,
          .updateNode (0, 0) 0 ⟨"z", "", "", "", "", 0, "", "", ""⟩ ⟨"n3", "10.0.0.3", ""⟩,
          .updateTcp (0, 0) 0 { activeSockets := 1 }]).nodeNodeStore
          ⟨⟨"z", "", "", "", "", 0, "", "", ""⟩, new.blank ⟨"n3", "10.0.0.3", ""⟩,
            ⟨"z", "", "", "", "", 0, "", "", ""⟩, new.blank ⟨"n2", "10.0.0.2", ""⟩⟩ =
        new.nodeNodeStore ⟨⟨"z", "", "", "", "", 0, "", "", ""⟩, new.blank ⟨"n3", "10.0.0.3", ""⟩,
          ⟨"z", "", "", "", "", 0, "", "", ""⟩, new.blank ⟨"n2", "10.0.0.2", ""⟩⟩ :=
  have hne : (⟨⟨"z", "", "", "", "", 0, "", "", ""⟩, new.blank ⟨"n3", "10.0.0.3", ""⟩,
      ⟨"z", "", "", "", "", 0, "", "", ""⟩, new.blank ⟨"n2", "10.0.0.2", ""⟩⟩ : NodeNodeKey) ≠
      ⟨⟨"z", "", "", "", "", 0, "", "", ""⟩, new.blank ⟨"n1", "10.0.0.1", ""⟩,
        ⟨"z", "", "", "", "", 0, "", "", ""⟩, new.blank ⟨"n2", "10.0.0.2", ""⟩⟩ := by
    decide
  ⟨hne, addTcp_follows_first_wiring new (0, 0) _ _ _ _ _ _ { activeSockets := 1 } hne⟩

end Aggregator

end OtelNetwork.Aggregation
