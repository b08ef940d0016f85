import OtelNetwork.Timeslot.VirtualClock
import OtelNetwork.Lib.Wrap

/-!
# The virtual clock: every reachable state keeps its inputs ahead of the clock

A clock is *settled* at `cur` when every input is set and lies less than half the 16-bit ring
ahead of `cur`; then every signed comparison the clock makes reads the true order. Updates keep
a settled clock settled (an update that would go behind is refused), and so does an advance by
the least offset. The clock becomes settled when it starts: `earliest_input_timeslot` takes the
numeric minimum of the input timeslots and moves it by the most negative narrowed offset, which
lands on the input that is earliest in the cyclic order provided the first timeslots lie in a
window of at most half the ring (`earliest_settles`).

`ClockInv` is the invariant of a run of calls from a fresh clock with `n` inputs: before the
clock starts, each input holds the timeslot of its first timestamp; after, every input has had
its first update and the clock is settled. `virtualClock_reachable_invariant` reads off what the
callers of the clock rely on.
-/

namespace OtelNetwork
open RustSem Wrap

namespace VirtualClock

variable {c c' : VirtualClock} {i : Nat} {ts : UInt64}

/-! ## Spec lemmas -/

/-- What `update` can do: refuse an input that is not current, set an input for the first time,
    move a current input to a timeslot not behind it, or refuse one that is. -/
theorem update_cases {r : Except UpdateError Unit} (h : c.update i ts = .ok (r, c')) :
    ∃ hi : i < c.inputs.length,
      (c.inputs[i].timeslot ≠ c.currentTimeslot ∧ r = .error .notPermitted ∧ c' = c) ∨
      (c.inputs[i].timeslot = none ∧ c.currentTimeslot = none ∧ r = .ok () ∧
        c' = c.setInput i ⟨some (c.mapTimestamp ts)⟩) ∨
      (∃ old, c.inputs[i].timeslot = some old ∧ c.currentTimeslot = some old ∧
        0 ≤ signedDeltaU16 (c.mapTimestamp ts) old ∧ r = .ok () ∧
        c' = c.setInput i ⟨some (c.mapTimestamp ts)⟩) ∨
      (∃ old, c.inputs[i].timeslot = some old ∧ c.currentTimeslot = some old ∧
        ¬ 0 ≤ signedDeltaU16 (c.mapTimestamp ts) old ∧ r = .error .pastTimeslot ∧ c' = c) := by
  have hi : i < c.inputs.length := by
    by_contra hn
    simp [update, index, List.getElem?_eq_none (Nat.le_of_not_lt hn)] at h
  refine ⟨hi, ?_⟩
  simp only [update, index_of_lt hi, ok_bind] at h
  by_cases hne : c.inputs[i].timeslot = c.currentTimeslot
  · simp only [hne, bne_self_eq_false, Bool.false_eq_true, if_false] at h
    rcases hcur : c.currentTimeslot with _ | old
    · rw [hcur] at h
      simp only [pure_eq_ok, Except.ok.injEq, Prod.mk.injEq] at h
      exact .inr (.inl ⟨hne.trans hcur, rfl, h.1.symm, h.2.symm⟩)
    · rw [hcur] at h
      simp only [signedDeltaU16, add_toUInt16_toInt16_sub] at h
      split_ifs at h with hd
      · simp only [pure_eq_ok, Except.ok.injEq, Prod.mk.injEq] at h
        exact .inr (.inr (.inl ⟨old, hne.trans hcur, rfl, hd, h.1.symm, h.2.symm⟩))
      · simp only [pure_eq_ok, Except.ok.injEq, Prod.mk.injEq] at h
        exact .inr (.inr (.inr ⟨old, hne.trans hcur, rfl, hd, h.1.symm, h.2.symm⟩))
  · simp only [bne_iff_ne, ne_eq, hne, not_false_eq_true, if_true, pure_eq_ok,
      Except.ok.injEq, Prod.mk.injEq] at h
    exact .inl ⟨hne, h.1.symm, h.2.symm⟩

theorem update_ok (ts : UInt64) (hi : i < c.inputs.length) : ∃ r c', c.update i ts = .ok (r, c') := by
  simp only [update, index_of_lt hi, ok_bind]
  split_ifs
  · exact ⟨_, _, rfl⟩
  · split
    · split_ifs <;> exact ⟨_, _, rfl⟩
    · exact ⟨_, _, rfl⟩

/-- The inputs of `c` are all set, to `slots`. -/
def SetTo (c : VirtualClock) (slots : List Timeslot) : Prop :=
  c.inputs = slots.map fun t => ⟨some t⟩

theorem exists_setTo {c : VirtualClock} (h : ∀ x ∈ c.inputs, x.timeslot.isSome) :
    ∃ slots, c.SetTo slots := by
  unfold SetTo
  generalize c.inputs = l at h
  induction l with
  | nil => exact ⟨[], rfl⟩
  | cons x l ih =>
    obtain ⟨slots, hs⟩ := ih (fun y hy => h y (List.mem_cons_of_mem x hy))
    obtain ⟨t, ht⟩ := Option.isSome_iff_exists.mp (h x List.mem_cons_self)
    exact ⟨t :: slots, by rw [List.map_cons, ← hs, ← ht]⟩

/-- With every input set, `min_input_advance` is the `List.min?` of the offsets. -/
theorem minInputAdvance_of_setTo {cur : Timeslot} {slots : List Timeslot}
    (hcur : c.currentTimeslot = some cur) (hset : c.SetTo slots) :
    c.minInputAdvance = (slots.map fun t => signedDeltaU16 t cur).min? := by
  unfold SetTo at hset
  simp only [minInputAdvance, hcur, hset, Option.bind_eq_bind, Option.bind_some, List.foldlM_map,
    Option.pure_def]
  rw [foldlM_option_of_some (fun m t => minStep m (signedDeltaU16 t cur)) slots
    (fun _ _ _ => rfl), Option.bind_some, ← List.foldl_map, foldl_minStep_none]

/-- While some input is unset, `min_input_advance` is `None`. -/
theorem minInputAdvance_of_unset (h : ∃ x ∈ c.inputs, x.timeslot = none) :
    c.minInputAdvance = none := by
  obtain ⟨x, hx, hnone⟩ := h
  unfold minInputAdvance
  rcases c.currentTimeslot with _ | cur
  · rfl
  · rw [Option.bind_eq_bind, Option.bind_some, foldlM_option_eq_none _ ⟨x, hx, by simp [hnone]⟩]
    rfl

/-- With every input set, `earliest_input_timeslot` is the numeric minimum `m` moved by the least
    narrowed offset `d` from `m`. -/
theorem earliestInputTimeslot_of_setTo {slots : List Timeslot} {m : Timeslot} {d : TimeslotDiff}
    (hset : c.SetTo slots) (hm : slots.min? = some m)
    (hd : (slots.map fun t => signedDeltaU16 t m).min? = some d) :
    c.earliestInputTimeslot = .ok (some (m + d.toUInt16)) := by
  unfold SetTo at hset
  have hany : c.inputs.any (fun i => i.timeslot.isNone) = false := by
    simp [hset]
  rw [hset] at hany
  simp only [earliestInputTimeslot, hany, Bool.false_eq_true, if_false, hset, List.foldlM_map,
    unwrap_some, ok_bind, pure_eq_ok]
  rw [foldlM_except_of_ok minStep slots (fun _ _ _ => rfl), ok_bind, foldl_minStep_none,
    hm, unwrap_some, ok_bind,
    foldlM_except_of_ok (fun acc t => minStep acc (signedDeltaU16 t m)) slots
      (fun _ _ _ => rfl), ok_bind, ← List.foldl_map, foldl_minStep_none, hd, unwrap_some, ok_bind]

theorem earliestInputTimeslot_of_unset (h : ∃ x ∈ c.inputs, x.timeslot = none) :
    c.earliestInputTimeslot = .ok none := by
  have hany : c.inputs.any (fun i => i.timeslot.isNone) = true := by
    simpa using h
  simp [earliestInputTimeslot, hany]

theorem advance_of_pos {cur : Timeslot} {a : TimeslotDiff} (hcur : c.currentTimeslot = some cur)
    (ha : c.minInputAdvance = some a) (hpos : 0 < a) :
    c.advance = .ok (true, { c with currentTimeslot := some (cur + a.toUInt16) }) := by
  simp [advance, hcur, ha, hpos]

theorem advance_of_not_pos {cur : Timeslot} (hcur : c.currentTimeslot = some cur)
    (ha : ∀ a, c.minInputAdvance = some a → ¬ 0 < a) : c.advance = .ok (false, c) := by
  simp only [advance, hcur]
  rcases hm : c.minInputAdvance with _ | a
  · rfl
  · simp [ha a hm]

theorem advance_of_none {e : Option Timeslot} (hcur : c.currentTimeslot = none)
    (he : c.earliestInputTimeslot = .ok e) :
    c.advance = .ok (false, { c with currentTimeslot := e }) := by
  simp [advance, hcur, he]

theorem canUpdate_of_lt (hi : i < c.inputs.length) :
    c.canUpdate i = .ok (c.inputs[i].timeslot == c.currentTimeslot) := by
  simp [canUpdate, index_of_lt hi]

theorem isCurrent_of_lt (hi : i < c.inputs.length) :
    c.isCurrent i = .ok (c.currentTimeslot.isSome && c.inputs[i].timeslot == c.currentTimeslot) := by
  unfold isCurrent
  rcases c.currentTimeslot with _ | cur
  · rfl
  · simp [index_of_lt hi]

/-- A clock with inputs has an earliest input timeslot (`None` while one is unset). -/
theorem earliestInputTimeslot_ok (hn : c.inputs ≠ []) : ∃ e, c.earliestInputTimeslot = .ok e := by
  by_cases hset : ∀ x ∈ c.inputs, x.timeslot.isSome
  · obtain ⟨slots, hs⟩ := exists_setTo hset
    have hne : slots ≠ [] := by
      rintro rfl
      exact hn (by simpa [SetTo] using hs)
    obtain ⟨m, hm⟩ := Option.isSome_iff_exists.mp (List.isSome_min?_of_ne_nil hne)
    obtain ⟨d, hd⟩ := Option.isSome_iff_exists.mp
      (List.isSome_min?_of_ne_nil (l := slots.map fun t => signedDeltaU16 t m) (by simpa using hne))
    exact ⟨_, earliestInputTimeslot_of_setTo hs hm hd⟩
  · push Not at hset
    obtain ⟨x, hx, hnone⟩ := hset
    exact ⟨none, earliestInputTimeslot_of_unset ⟨x, hx, by simpa using hnone⟩⟩

/-- With inputs, `advance` does not panic; it changes the current timeslot only, and when it
    answers `false` it leaves it alone unless it was unset. -/
theorem advance_ok (hn : c.inputs ≠ []) :
    ∃ b c', c.advance = .ok (b, c') ∧ c' = { c with currentTimeslot := c'.currentTimeslot } ∧
      (b = false → c'.currentTimeslot = c.currentTimeslot ∨ c.currentTimeslot = none) := by
  rcases hcur : c.currentTimeslot with _ | cur
  · obtain ⟨e, he⟩ := earliestInputTimeslot_ok hn
    exact ⟨false, _, advance_of_none hcur he, rfl, fun _ => .inr rfl⟩
  · rcases ha : c.minInputAdvance with _ | a
    · exact ⟨false, c, by simp [advance, hcur, ha], rfl, fun _ => .inl hcur⟩
    · by_cases hpos : 0 < a
      · exact ⟨true, _, advance_of_pos hcur ha hpos, rfl, fun h => by cases h⟩
      · refine ⟨false, c, advance_of_not_pos hcur fun a' ha' => ?_, rfl, fun _ => .inl hcur⟩
        rw [ha, Option.some_inj] at ha'
        exact ha' ▸ hpos

/-! ## Settled clocks -/

/-- Every input is set, and lies less than half the ring ahead of `cur`. -/
def Settled (cur : Timeslot) (c : VirtualClock) : Prop :=
  ∀ x ∈ c.inputs, ∃ t, x.timeslot = some t ∧ dist16 cur t < 2 ^ 15

theorem Settled.setTo {cur : Timeslot} (hs : Settled cur c) :
    ∃ slots, c.SetTo slots ∧ ∀ t ∈ slots, dist16 cur t < 2 ^ 15 := by
  obtain ⟨slots, hset⟩ := exists_setTo fun x hx => by
    obtain ⟨t, ht, -⟩ := hs x hx
    simp [ht]
  refine ⟨slots, hset, fun t ht => ?_⟩
  obtain ⟨t', ht', hlt⟩ := hs ⟨some t⟩ (by rw [hset]; exact List.mem_map_of_mem ht)
  cases ht'
  exact hlt

/-- An update of a settled clock keeps it settled, and leaves the clock where it is. -/
theorem Settled.update {cur : Timeslot} (hs : Settled cur c) (hcur : c.currentTimeslot = some cur)
    (ts : UInt64) (hi : i < c.inputs.length) :
    ∃ r c', c.update i ts = .ok (r, c') ∧ c'.currentTimeslot = some cur ∧ c'.divider = c.divider ∧
      c'.inputs.length = c.inputs.length ∧ Settled cur c' := by
  obtain ⟨r, c', h⟩ := update_ok ts hi
  refine ⟨r, c', h, ?_⟩
  obtain ⟨_, ⟨-, -, rfl⟩ | ⟨-, hnone, -⟩ | ⟨old, -, hold, hd, -, rfl⟩ | ⟨_, -, -, -, -, rfl⟩⟩ :=
    update_cases h
  · exact ⟨hcur, rfl, rfl, hs⟩
  · rw [hcur] at hnone; cases hnone
  · rw [hcur] at hold
    cases hold
    refine ⟨hcur, rfl, List.length_set .., fun x hx => ?_⟩
    rcases List.mem_or_eq_of_mem_set hx with hx | rfl
    · exact hs x hx
    · exact ⟨_, rfl, (toInt16_sub_nonneg_iff _ _).mp hd⟩
  · exact ⟨hcur, rfl, rfl, hs⟩

/-- On a settled clock, `min_input_advance` is the least offset of an input, and is not negative. -/
theorem Settled.minInputAdvance {cur : Timeslot} (hs : Settled cur c)
    (hcur : c.currentTimeslot = some cur) (hne : c.inputs ≠ []) :
    ∃ a, c.minInputAdvance = some a ∧ 0 ≤ a ∧
      (∀ x ∈ c.inputs, ∀ t, x.timeslot = some t → a ≤ signedDeltaU16 t cur) ∧
      ∃ x ∈ c.inputs, ∃ t, x.timeslot = some t ∧ signedDeltaU16 t cur = a := by
  obtain ⟨slots, hset, hlt⟩ := hs.setTo
  have hsl : slots ≠ [] := by
    rintro rfl
    exact hne (by rw [hset]; rfl)
  rcases hmin : (slots.map fun t => signedDeltaU16 t cur).min? with _ | a
  · exact absurd (List.min?_eq_none_iff.mp hmin) (by simpa using hsl)
  obtain ⟨hamem, hale⟩ := List.min?_eq_some_iff.mp hmin
  obtain ⟨t, ht, rfl⟩ := List.mem_map.mp hamem
  refine ⟨_, by rw [minInputAdvance_of_setTo hcur hset, hmin], ?_, ?_, ?_⟩
  · exact (toInt16_sub_nonneg_iff _ _).mpr (hlt t ht)
  · intro x hx t' ht'
    rw [hset] at hx
    obtain ⟨t'', ht'', rfl⟩ := List.mem_map.mp hx
    cases ht'
    exact hale _ (List.mem_map_of_mem ht'')
  · exact ⟨⟨some t⟩, by rw [hset]; exact List.mem_map_of_mem ht, t, rfl, rfl⟩

/-- Moving a settled clock forward by at most the least offset keeps it settled. -/
theorem Settled.forward {cur : Timeslot} {a : TimeslotDiff} (hs : Settled cur c) (ha : 0 ≤ a)
    (hle : ∀ x ∈ c.inputs, ∀ t, x.timeslot = some t → a ≤ signedDeltaU16 t cur) :
    Settled (cur + a.toUInt16) c := by
  intro x hx
  obtain ⟨t, ht, hlt⟩ := hs x hx
  refine ⟨t, ht, ?_⟩
  have hat : a.toInt ≤ (t - cur).toInt16.toInt := Int16.le_iff_toInt_le.mp (hle x hx t ht)
  rw [toInt_toInt16_sub_of_lt hlt] at hat
  have hda : dist16 cur (cur + a.toUInt16) = a.toInt.toNat := by
    rw [dist16_add_right, toNat_toUInt16_of_nonneg ha]
  have ha' : 0 ≤ a.toInt := by simpa using Int16.le_iff_toInt_le.mp ha
  have hle' : dist16 cur (cur + a.toUInt16) ≤ dist16 cur t := by omega
  rw [dist16_sub_of_le hle']
  omega

/-- The input an advance lands on is current afterwards. -/
theorem isCurrent_of_landed {cur : Timeslot} {a : TimeslotDiff} {x : Input} (hx : x ∈ c.inputs)
    {t : Timeslot} (ht : x.timeslot = some t) (hta : signedDeltaU16 t cur = a) :
    ∃ i < c.inputs.length,
      ({ c with currentTimeslot := some (cur + a.toUInt16) } : VirtualClock).isCurrent i = .ok true := by
  obtain ⟨i, hi, rfl⟩ := List.mem_iff_getElem.mp hx
  refine ⟨i, hi, ?_⟩
  have hlt : i < ({ c with currentTimeslot := some (cur + a.toUInt16) } : VirtualClock).inputs.length := hi
  simp only [isCurrent, Option.isSome_some, if_true, index_of_lt hlt, ok_bind, pure_eq_ok]
  simp [ht, ← hta, signedDeltaU16]

/-! ## Starting the clock -/

/-- The numeric minimum of a list of timeslots is one of them, and below each of them. -/
theorem toNat_le_of_min? {slots : List Timeslot} {m : Timeslot} (hm : slots.min? = some m) :
    m ∈ slots ∧ ∀ t ∈ slots, m.toNat ≤ t.toNat := by
  obtain ⟨hmem, hle⟩ := List.min?_eq_some_iff.mp hm
  exact ⟨hmem, fun t ht => UInt16.le_iff_toNat_le.mp (hle t ht)⟩

/-- Starting the clock at the earliest input settles every input, when the inputs lie in a cyclic
    window of at most half the ring. The start is the input `h` with the least narrowed offset
    from the numeric minimum `m`: `m` itself when no input is half a ring past `m`, and otherwise
    the first input past the wrap of the window. -/
theorem earliest_settles {slots : List Timeslot} {m : Timeslot} {d : TimeslotDiff}
    {base : Timeslot} {w : Nat} (hw : w ≤ 2 ^ 15) (hm : slots.min? = some m)
    (hd : (slots.map fun t => signedDeltaU16 t m).min? = some d)
    (hwin : ∀ t ∈ slots, InWindow base w t) : ∀ t ∈ slots, dist16 (m + d.toUInt16) t < 2 ^ 15 := by
  obtain ⟨hmem, hmin⟩ := toNat_le_of_min? hm
  obtain ⟨hdmem, hdle⟩ := List.min?_eq_some_iff.mp hd
  obtain ⟨h, hh, rfl⟩ := List.mem_map.mp hdmem
  have hstart : m + (signedDeltaU16 h m).toUInt16 = h := add_toUInt16_toInt16_sub m h
  rw [hstart]
  intro t ht
  have hle : (h - m).toInt16.toInt ≤ (t - m).toInt16.toInt :=
    Int16.le_iff_toInt_le.mp (hdle _ (List.mem_map_of_mem ht))
  have hle0 : (h - m).toInt16.toInt ≤ (m - m).toInt16.toInt :=
    Int16.le_iff_toInt_le.mp (hdle _ (List.mem_map_of_mem hmem))
  rw [toInt_toInt16_sub, toInt_toInt16_sub] at hle hle0
  -- `t` below half a ring past `m` while `h` is beyond it is where the window is needed
  have wm := hwin m hmem; have wh := hwin h hh; have wt := hwin t ht
  unfold InWindow at wm wh wt
  have := hmin h hh; have := hmin t ht
  simp only [dist16_eq] at *
  have := m.toNat_lt; have := h.toNat_lt; have := t.toNat_lt; have := base.toNat_lt
  split_ifs at hle hle0 <;> omega

end VirtualClock

/-! ## Runs from a fresh clock -/

/-- The timestamp of the first `update` of input `i` in a sequence of calls. -/
def firstTimestamp (ops : List ClockOp) (i : Nat) : Option UInt64 :=
  ops.findSome? fun
    | .update j ts => if j = i then some ts else none
    | .advance => none

/-- Every `update` names one of the `n` inputs. -/
def ClockOp.InRange (n : Nat) : ClockOp → Prop
  | .update i _ => i < n
  | .advance => True

/-- The timeslots of the first timestamps of the `n` inputs lie in a cyclic window of `w` slots. -/
def FirstSlotsInWindow (d : FastDiv) (n : Nat) (ops : List ClockOp) (w : Nat) : Prop :=
  ∃ base, ∀ i < n, ∀ ts, firstTimestamp ops i = some ts →
    InWindow base w ((VirtualClock.new d).mapTimestamp ts)

theorem firstTimestamp_append_update (ops : List ClockOp) (j i : Nat) (ts : UInt64) :
    firstTimestamp (ops ++ [.update j ts]) i =
      (firstTimestamp ops i).or (if j = i then some ts else none) := by
  simp [firstTimestamp, List.findSome?_append]

theorem firstTimestamp_append_advance (ops : List ClockOp) (i : Nat) :
    firstTimestamp (ops ++ [.advance]) i = firstTimestamp ops i := by
  simp [firstTimestamp, List.findSome?_append]

theorem firstSlotsInWindow_of_append {d : FastDiv} {n w : Nat} {ops : List ClockOp} {op : ClockOp}
    (h : FirstSlotsInWindow d n (ops ++ [op]) w) : FirstSlotsInWindow d n ops w := by
  obtain ⟨base, hb⟩ := h
  refine ⟨base, fun i hi ts hts => hb i hi ts ?_⟩
  unfold firstTimestamp at hts ⊢
  rw [List.findSome?_append, hts, Option.some_or]

theorem firstTimestamp_append_update_of_isSome {ops : List ClockOp} {i j : Nat} {ts : UInt64}
    (h : (firstTimestamp ops i).isSome) :
    firstTimestamp (ops ++ [.update j ts]) i = firstTimestamp ops i := by
  obtain ⟨t, ht⟩ := Option.isSome_iff_exists.mp h
  rw [firstTimestamp_append_update, ht, Option.some_or]

theorem firstTimestamp_append_update_of_ne {ops : List ClockOp} {i j : Nat} {ts : UInt64}
    (h : j ≠ i) : firstTimestamp (ops ++ [.update j ts]) i = firstTimestamp ops i := by
  rw [firstTimestamp_append_update, if_neg h, Option.or_none]

namespace VirtualClock

theorem mapTimestamp_eq {s : VirtualClock} {d : FastDiv} (h : s.divider = d) :
    s.mapTimestamp = (new d).mapTimestamp := by
  funext ts
  simp [mapTimestamp, h, new]

/-- What holds after the calls `ops` on the clock `(new d).addInputs n`. -/
structure ClockInv (d : FastDiv) (n : Nat) (ops : List ClockOp) (s : VirtualClock) : Prop where
  divider : s.divider = d
  length : s.inputs.length = n
  /-- Before the clock starts, each input holds the timeslot of its first timestamp, if any. -/
  unset : s.currentTimeslot = none →
    ∀ i < n, s.inputs[i]? = some ⟨(firstTimestamp ops i).map s.mapTimestamp⟩
  /-- Once it has started, every input has had its first update and lies ahead of the clock. -/
  started : ∀ cur, s.currentTimeslot = some cur →
    (∀ i < n, (firstTimestamp ops i).isSome) ∧ s.Settled cur

theorem clockInv_init (d : FastDiv) (n : Nat) : ClockInv d n [] ((new d).addInputs n) where
  divider := rfl
  length := by simp [addInputs, new]
  unset := fun _ i hi => by simp [addInputs, new, hi, firstTimestamp]
  started := fun _ h => by simp [addInputs, new] at h

variable {d : FastDiv} {n : Nat} {ops : List ClockOp} {s : VirtualClock}

/-- The invariant only reads the first timestamps of the calls. -/
theorem ClockInv.of_firstTimestamp_eq {ops' : List ClockOp} (hinv : ClockInv d n ops s)
    (h : ∀ i < n, firstTimestamp ops' i = firstTimestamp ops i) : ClockInv d n ops' s where
  divider := hinv.divider
  length := hinv.length
  unset := fun hcur i hi => by rw [h i hi]; exact hinv.unset hcur i hi
  started := fun cur hcur => ⟨fun i hi => by rw [h i hi]; exact (hinv.started cur hcur).1 i hi,
    (hinv.started cur hcur).2⟩

/-- Before the clock starts, an input is set exactly when it has had an update. -/
theorem ClockInv.timeslot_eq_none_iff (hinv : ClockInv d n ops s) (hcur : s.currentTimeslot = none)
    {i : Nat} (hi : i < s.inputs.length) :
    s.inputs[i].timeslot = none ↔ firstTimestamp ops i = none := by
  have h := hinv.unset hcur i (hinv.length ▸ hi)
  rw [List.getElem?_eq_getElem hi, Option.some.injEq] at h
  rw [h, Option.map_eq_none_iff]

theorem ClockInv.update (hinv : ClockInv d n ops s) {i : Nat} (hi : i < n) (ts : UInt64) :
    ∃ r s', s.update i ts = .ok (r, s') ∧ ClockInv d n (ops ++ [.update i ts]) s' := by
  have hi' : i < s.inputs.length := hinv.length ▸ hi
  rcases hcur : s.currentTimeslot with _ | cur
  · obtain ⟨r, s', h⟩ := update_ok ts hi'
    refine ⟨r, s', h, ?_⟩
    obtain ⟨hi'', ⟨hne, -, rfl⟩ | ⟨hnone, -, -, rfl⟩ | ⟨_, -, hold, -⟩ | ⟨_, -, hold, -⟩⟩ :=
      update_cases h
    · -- refused: the input is already set, so its first update is behind us
      have hsome : (firstTimestamp ops i).isSome := by
        rw [hcur] at hne
        rw [Option.isSome_iff_ne_none]
        exact fun h0 => hne ((hinv.timeslot_eq_none_iff hcur hi'').mpr h0)
      exact hinv.of_firstTimestamp_eq fun j hj => by
        by_cases hji : j = i
        · subst hji; exact firstTimestamp_append_update_of_isSome hsome
        · exact firstTimestamp_append_update_of_ne (Ne.symm hji)
    · -- the first update of input `i`
      have hfirst : firstTimestamp ops i = none := (hinv.timeslot_eq_none_iff hcur hi').mp hnone
      refine ⟨hinv.divider, by simp [setInput, hinv.length], fun _ j hj => ?_, fun cur' h => ?_⟩
      · by_cases hji : j = i
        · subst hji
          simp [firstTimestamp_append_update, hfirst, hi']
        · rw [firstTimestamp_append_update_of_ne (Ne.symm hji)]
          simpa [List.getElem?_set, Ne.symm hji] using hinv.unset hcur j hj
      · simp [hcur] at h
    · rw [hcur] at hold; cases hold
    · rw [hcur] at hold; cases hold
  · obtain ⟨hfirst, hs⟩ := hinv.started cur hcur
    obtain ⟨r, s', h, hcur', hdiv, hlen, hs'⟩ := hs.update hcur ts hi'
    refine ⟨r, s', h, ⟨hdiv.trans hinv.divider, hlen.trans hinv.length, ?_, ?_⟩⟩
    · intro h'; rw [hcur'] at h'; cases h'
    · intro cur' h'
      rw [hcur'] at h'
      cases h'
      exact ⟨fun j hj => by rw [firstTimestamp_append_update_of_isSome (hfirst j hj)]; exact hfirst j hj,
        hs'⟩

/-- Before the clock starts, a set input holds the timeslot of its first timestamp, which the
    window hypothesis places. -/
theorem ClockInv.inWindow_of_unset {w : Nat} (hinv : ClockInv d n ops s)
    (hcur : s.currentTimeslot = none) (hwin : FirstSlotsInWindow d n ops w) :
    ∃ base, ∀ x ∈ s.inputs, ∀ t, x.timeslot = some t → InWindow base w t := by
  obtain ⟨base, hb⟩ := hwin
  refine ⟨base, fun x hx t ht => ?_⟩
  obtain ⟨j, hj, rfl⟩ := List.mem_iff_getElem.mp hx
  have hu := hinv.unset hcur j (hinv.length ▸ hj)
  rw [List.getElem?_eq_getElem hj, Option.some.injEq] at hu
  have hu' := congrArg Input.timeslot hu
  rw [ht] at hu'
  obtain ⟨ts, hts, hmap⟩ := Option.map_eq_some_iff.mp hu'.symm
  rw [← hmap, mapTimestamp_eq hinv.divider]
  exact hb j (hinv.length ▸ hj) ts hts

theorem ClockInv.advance {w : Nat} (hinv : ClockInv d n ops s) (hn : 0 < n)
    (hwin : FirstSlotsInWindow d n (ops ++ [.advance]) w) (hw : w ≤ 2 ^ 15) :
    ∃ b s', s.advance = .ok (b, s') ∧ ClockInv d n (ops ++ [.advance]) s' := by
  have hinv' : ClockInv d n (ops ++ [.advance]) s :=
    hinv.of_firstTimestamp_eq fun i _ => firstTimestamp_append_advance ops i
  have hne : s.inputs ≠ [] := by
    intro h
    have := hinv.length
    rw [h] at this
    simp at this
    omega
  rcases hcur : s.currentTimeslot with _ | cur
  · by_cases hall : ∀ x ∈ s.inputs, x.timeslot.isSome
    · -- every input has had its first update: the clock starts at the earliest of them
      obtain ⟨slots, hset⟩ := exists_setTo hall
      have hsl : slots ≠ [] := by rintro rfl; exact hne hset
      obtain ⟨m, hm⟩ := Option.ne_none_iff_exists'.mp (mt List.min?_eq_none_iff.mp hsl)
      obtain ⟨d', hd⟩ : ∃ d', (slots.map fun t => signedDeltaU16 t m).min? = some d' :=
        Option.ne_none_iff_exists'.mp (mt List.min?_eq_none_iff.mp (by simpa using hsl))
      refine ⟨false, _, advance_of_none hcur (earliestInputTimeslot_of_setTo hset hm hd), ?_⟩
      obtain ⟨base, hb⟩ := hinv'.inWindow_of_unset hcur hwin
      refine ⟨hinv.divider, hinv.length, (fun h => by simp at h), fun cur' h => ?_⟩
      cases h
      refine ⟨fun i hi => ?_, fun x hx => ?_⟩
      · have hu := hinv'.unset hcur i hi
        obtain ⟨t, ht⟩ := Option.isSome_iff_exists.mp (hall _ (List.mem_of_getElem? hu))
        simpa using congrArg Option.isSome ht
      · change x ∈ s.inputs at hx
        rw [hset] at hx
        obtain ⟨t, ht, rfl⟩ := List.mem_map.mp hx
        have hslots : ∀ t ∈ slots, InWindow base w t := fun t' ht' =>
          hb _ (by rw [hset]; exact List.mem_map_of_mem ht') t' rfl
        exact ⟨t, rfl, earliest_settles hw hm hd hslots t ht⟩
    · -- some input is unset: the clock stays unset
      push Not at hall
      obtain ⟨x, hx, hxn⟩ := hall
      refine ⟨false, _, advance_of_none hcur (earliestInputTimeslot_of_unset
        ⟨x, hx, Option.not_isSome_iff_eq_none.mp hxn⟩), ?_⟩
      have : ({ s with currentTimeslot := none } : VirtualClock) = s := by
        cases s; simp only at hcur; rw [hcur]
      rw [this]
      exact hinv'
  · obtain ⟨hfirst, hs⟩ := hinv.started cur hcur
    obtain ⟨a, ha, ha0, hale, -⟩ := hs.minInputAdvance hcur hne
    by_cases hpos : 0 < a
    · refine ⟨true, _, advance_of_pos hcur ha hpos, ⟨hinv.divider, hinv.length,
        (fun h => by simp at h), fun cur' h => ?_⟩⟩
      cases h
      exact ⟨fun i hi => by rw [firstTimestamp_append_advance]; exact hfirst i hi,
        hs.forward ha0 hale⟩
    · refine ⟨false, s, advance_of_not_pos hcur fun a' ha' => ?_, hinv'⟩
      rw [ha] at ha'
      cases ha'
      exact hpos

theorem run_append (c : VirtualClock) (ops : List ClockOp) (op : ClockOp) :
    c.run (ops ++ [op]) = c.run ops >>= fun s => s.step op := by
  simp only [run, List.foldlM_append, List.foldlM_cons, List.foldlM_nil, bind_pure]

theorem ClockInv.step {w : Nat} (hinv : ClockInv d n ops s) (hn : 0 < n) {op : ClockOp}
    (hop : op.InRange n) (hwin : FirstSlotsInWindow d n (ops ++ [op]) w) (hw : w ≤ 2 ^ 15) :
    ∃ s', s.step op = .ok s' ∧ ClockInv d n (ops ++ [op]) s' := by
  cases op with
  | update i ts =>
    obtain ⟨r, s', h, hinv'⟩ := hinv.update hop ts
    exact ⟨s', by simp [VirtualClock.step, h], hinv'⟩
  | advance =>
    obtain ⟨b, s', h, hinv'⟩ := hinv.advance hn hwin hw
    exact ⟨s', by simp [VirtualClock.step, h], hinv'⟩

/-- Every run of in-range calls from a fresh clock with `n ≥ 1` inputs whose first timeslots lie
    in a window of at most half the ring succeeds, and keeps the invariant. -/
theorem clockInv_run {w : Nat} (hn : 0 < n) (hw : w ≤ 2 ^ 15) (ops : List ClockOp)
    (hops : ∀ op ∈ ops, op.InRange n) (hwin : FirstSlotsInWindow d n ops w) :
    ∃ s, ((new d).addInputs n).run ops = .ok s ∧ ClockInv d n ops s := by
  induction ops using List.reverseRecOn with
  | nil => exact ⟨_, rfl, clockInv_init d n⟩
  | append_singleton ops op ih =>
    obtain ⟨s, hrun, hinv⟩ := ih (fun o ho => hops o (List.mem_append_left _ ho))
      (firstSlotsInWindow_of_append hwin)
    obtain ⟨s', hstep, hinv'⟩ :=
      hinv.step hn (hops op (List.mem_append_right _ (List.mem_singleton_self op))) hwin hw
    exact ⟨s', by rw [run_append, hrun, ok_bind, hstep], hinv'⟩

/-! ## The reachable-state invariant -/

/-- The input is set, and its signed `i16` delta from `cur` lies in `[0, 2^15)`. -/
def AheadOf (cur : Timeslot) (x : Input) : Prop :=
  ∃ t, x.timeslot = some t ∧ 0 ≤ (signedDeltaU16 t cur).toInt ∧ (signedDeltaU16 t cur).toInt < 2 ^ 15

theorem Settled.aheadOf {cur : Timeslot} (hs : Settled cur s) :
    ∀ i < s.inputs.length, ∃ x, s.inputs[i]? = some x ∧ AheadOf cur x := by
  intro i hi
  obtain ⟨t, ht, hlt⟩ := hs _ (List.getElem_mem hi)
  refine ⟨_, List.getElem?_eq_getElem hi, t, ht, ?_⟩
  rw [signedDeltaU16, toInt_toInt16_sub_of_lt hlt]
  omega

/-- A positive `i16` moves a timeslot to a different one. -/
theorem add_toUInt16_ne_self (cur : Timeslot) {a : TimeslotDiff} (ha : 0 < a) :
    cur + a.toUInt16 ≠ cur := by
  intro h
  have h0 : dist16 cur (cur + a.toUInt16) = 0 := by rw [h, dist16_self]
  rw [dist16_add_right, toNat_toUInt16_of_nonneg (Int16.le_of_lt ha)] at h0
  have : 0 < a.toInt := by simpa using Int16.lt_iff_toInt_lt.mp ha
  omega

theorem virtualClock_reachable_invariant (d : FastDiv) (n : Nat) (hn : 1 ≤ n)
    (ops : List ClockOp) (hops : ∀ op ∈ ops, op.InRange n)
    (hwin : FirstSlotsInWindow d n ops (2 ^ 15 - 1)) :
    ∃ s, ((new d).addInputs n).run ops = .ok s ∧
      ∀ cur, s.currentTimeslot = some cur →
        (∀ i < n, ∃ x, s.inputs[i]? = some x ∧ AheadOf cur x) ∧
        (∀ i < n, ∀ ts, ∃ r s', s.update i ts = .ok (r, s') ∧ s'.currentTimeslot = some cur ∧
          ∃ x, s'.inputs[i]? = some x ∧ AheadOf cur x) ∧
        (∃ b s', s.advance = .ok (b, s') ∧ (b = true ↔ s'.currentTimeslot ≠ some cur) ∧
          (b = true → ∃ a : TimeslotDiff, 0 < a ∧
            (∀ i < n, ∀ t, s.inputs[i]? = some ⟨some t⟩ → a ≤ signedDeltaU16 t cur) ∧
            (∃ i < n, ∃ t, s.inputs[i]? = some ⟨some t⟩ ∧ signedDeltaU16 t cur = a) ∧
            s'.currentTimeslot = some (cur + a.toUInt16) ∧
            (∀ i < n, ∃ x, s'.inputs[i]? = some x ∧ AheadOf (cur + a.toUInt16) x) ∧
            ∃ i < n, s'.isCurrent i = .ok true)) := by
  obtain ⟨s, hrun, hinv⟩ := clockInv_run hn (by norm_num) ops hops hwin
  refine ⟨s, hrun, fun cur hcur => ?_⟩
  obtain ⟨-, hs⟩ := hinv.started cur hcur
  have hlen := hinv.length
  have hne : s.inputs ≠ [] := by
    intro h
    rw [h] at hlen
    simp at hlen
    omega
  refine ⟨fun i hi => hs.aheadOf i (hlen ▸ hi), fun i hi ts => ?_, ?_⟩
  · obtain ⟨r, s', h, hcur', -, hlen', hs'⟩ := hs.update hcur ts (hlen ▸ hi)
    exact ⟨r, s', h, hcur', hs'.aheadOf i (by omega)⟩
  · obtain ⟨a, ha, ha0, hale, x, hx, t, ht, hta⟩ := hs.minInputAdvance hcur hne
    by_cases hpos : 0 < a
    · -- the clock moves by the least offset, onto the input that attains it
      refine ⟨true, _, advance_of_pos hcur ha hpos, ?_, fun _ => ⟨a, hpos, ?_, ?_, rfl, ?_, ?_⟩⟩
      · simpa using add_toUInt16_ne_self cur hpos
      · intro i hi t' ht'
        exact hale _ (List.mem_of_getElem? ht') t' rfl
      · obtain ⟨i, hi, rfl⟩ := List.mem_iff_getElem.mp hx
        exact ⟨i, hlen ▸ hi, t, by rw [List.getElem?_eq_getElem hi, ← ht], hta⟩
      · exact fun i hi => (hs.forward ha0 hale).aheadOf i (hlen ▸ hi)
      · obtain ⟨i, hi, hcur'⟩ := isCurrent_of_landed hx ht hta
        exact ⟨i, hlen ▸ hi, hcur'⟩
    · -- the least offset is zero: some input is still current, and the clock stays
      refine ⟨false, s, advance_of_not_pos hcur fun a' ha' => ?_, by simp [hcur],
        fun h => absurd h Bool.false_ne_true⟩
      rw [ha] at ha'
      cases ha'
      exact hpos

theorem virtualClock_reachable_invariant_one_input :
    1 ≤ 1 ∧ (∀ op ∈ [ClockOp.update 0 7, .advance], op.InRange 1) ∧
      FirstSlotsInWindow ⟨1, 0⟩ 1 [.update 0 7, .advance] (2 ^ 15 - 1) ∧
    ∃ s, ((new ⟨1, 0⟩).addInputs 1).run [.update 0 7, .advance] = .ok s ∧
      ∀ cur, s.currentTimeslot = some cur →
        (∀ i < 1, ∃ x, s.inputs[i]? = some x ∧ AheadOf cur x) ∧
        (∀ i < 1, ∀ ts, ∃ r s', s.update i ts = .ok (r, s') ∧ s'.currentTimeslot = some cur ∧
          ∃ x, s'.inputs[i]? = some x ∧ AheadOf cur x) ∧
        (∃ b s', s.advance = .ok (b, s') ∧ (b = true ↔ s'.currentTimeslot ≠ some cur) ∧
          (b = true → ∃ a : TimeslotDiff, 0 < a ∧
            (∀ i < 1, ∀ t, s.inputs[i]? = some ⟨some t⟩ → a ≤ signedDeltaU16 t cur) ∧
            (∃ i < 1, ∃ t, s.inputs[i]? = some ⟨some t⟩ ∧ signedDeltaU16 t cur = a) ∧
            s'.currentTimeslot = some (cur + a.toUInt16) ∧
            (∀ i < 1, ∃ x, s'.inputs[i]? = some x ∧ AheadOf (cur + a.toUInt16) x) ∧
            ∃ i < 1, s'.isCurrent i = .ok true)) := by
  have hops : ∀ op ∈ [ClockOp.update 0 7, .advance], op.InRange 1 := by
    simp [ClockOp.InRange]
  have hwin : FirstSlotsInWindow ⟨1, 0⟩ 1 [.update 0 7, .advance] (2 ^ 15 - 1) := by
    refine ⟨7, fun i hi ts hts => ?_⟩
    obtain rfl : i = 0 := by omega
    simp [firstTimestamp] at hts
    subst hts
    decide
  exact ⟨le_refl 1, hops, hwin, virtualClock_reachable_invariant ⟨1, 0⟩ 1 (le_refl 1) _ hops hwin⟩

end VirtualClock
end OtelNetwork
