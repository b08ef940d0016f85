import OtelNetwork.Timeslot.CppVirtualClock
import OtelNetwork.Timeslot.Proofs.VirtualClockProofs
import OtelNetwork.Lib.Simulation

/-!
# The Rust virtual clock is a port of the C++ one

The Rust crate `timeslot` ports `reducer/util/virtual_clock.cc`. `ClockAgree r c` says that the
Rust clock `r` and the C++ clock `c` are in the same state: the same timeslot at every input,
the same current timeslot and the same divider, with a shift the C++ division defines. From
agreeing states each method returns the same answer in both, up to the encoding of `update`'s
result (`updateCode`), and leads to agreeing states; or it fails in both (an index past the end).
`Simulation.lockstep` carries this over every sequence of calls.

The two codes reach their modular arithmetic differently: the C++ code by promotion to `int`
and narrowing on assignment, the Rust one by `wrapping_sub` and `as` casts (`castS16_sub`,
`castU16_add` relate them). They also test for unset inputs in different places: the C++
`earliest_input_timeslot` finds out within its first loop, the Rust one before it.
-/

namespace OtelNetwork
open RustSem CppSem Simulation

/-! ## Spec lemmas of the C++ clock -/

namespace Cpp.VirtualClock

variable {c : Cpp.VirtualClock} {slots : List UInt16}

theorem minInputAdvanceLoop_of_setTo (cur : UInt16) :
    ∀ (slots : List UInt16) (acc : Option Int16),
      minInputAdvanceLoop (some cur) acc (slots.map fun t => ⟨some t⟩) =
        .ok (slots.foldl (fun m t => minStep m (signedDeltaU16 t cur)) acc)
  | [], _ => rfl
  | t :: slots, acc => by
    simp only [List.map_cons, List.foldl_cons, minInputAdvanceLoop, deref_some, ok_bind,
      castS16_sub]
    exact minInputAdvanceLoop_of_setTo cur slots _

/-- The loop stops with `nullopt` at the first unset input. -/
theorem minInputAdvanceLoop_of_unset (cur : UInt16) :
    ∀ (xs : List Input) (acc : Option Int16), (∃ x ∈ xs, x.timeslot = none) →
      minInputAdvanceLoop (some cur) acc xs = .ok none
  | [], _, ⟨_, hx, _⟩ => absurd hx List.not_mem_nil
  | x :: xs, acc, ⟨y, hy, hnone⟩ => by
    rcases hx : x.timeslot with _ | t
    · simp [minInputAdvanceLoop, hx]
    -- `x` is set, so the unset input is further on
    · have hrest : ∃ y ∈ xs, y.timeslot = none := by
        rcases List.mem_cons.mp hy with rfl | hy
        · rw [hx] at hnone
          cases hnone
        · exact ⟨y, hy, hnone⟩
      simp only [minInputAdvanceLoop, hx, deref_some, ok_bind]
      exact minInputAdvanceLoop_of_unset cur xs _ hrest

theorem earliestLoop_of_setTo :
    ∀ (slots : List UInt16) (acc : Option UInt16),
      earliestLoop acc (slots.map fun t => ⟨some t⟩) = some (slots.foldl minStep acc)
  | [], _ => rfl
  | t :: slots, acc => earliestLoop_of_setTo slots (minStep acc t)

theorem earliestLoop_of_unset :
    ∀ (xs : List Input) (acc : Option UInt16), (∃ x ∈ xs, x.timeslot = none) →
      earliestLoop acc xs = none
  | [], _, ⟨_, hx, _⟩ => absurd hx List.not_mem_nil
  | x :: xs, acc, ⟨y, hy, hnone⟩ => by
    rcases hx : x.timeslot with _ | t
    · simp [earliestLoop, hx]
    · have hrest : ∃ y ∈ xs, y.timeslot = none := by
        rcases List.mem_cons.mp hy with rfl | hy
        · rw [hx] at hnone
          cases hnone
        · exact ⟨y, hy, hnone⟩
      simp only [earliestLoop, hx]
      exact earliestLoop_of_unset xs _ hrest

/-- With every input set, the C++ `earliest_input_timeslot` computes what the Rust one does
    (`VirtualClock.earliestInputTimeslot_of_setTo`). -/
theorem earliestInputTimeslot_of_setTo {m : UInt16} {d : Int16}
    (hset : c.inputs = slots.map fun t => ⟨some t⟩) (hm : slots.min? = some m)
    (hd : (slots.map fun t => signedDeltaU16 t m).min? = some d) :
    c.earliestInputTimeslot = .ok (some (m + d.toUInt16)) := by
  have hbody : ∀ t ∈ slots, ∀ acc : Option Int16,
      (fun (minDiff : Option Int16) (t : UInt16) => do
        let ts ← deref (some t)
        let m ← deref (some m)
        return minStep minDiff (castS16 (ts.toInt16.toInt - m.toNat))) acc t =
        .ok (minStep acc (signedDeltaU16 t m)) := by
    intro t _ acc
    simp [castS16_sub, signedDeltaU16]
  simp only [earliestInputTimeslot, hset, earliestLoop_of_setTo, foldl_minStep_none, hm,
    List.foldlM_map]
  rw [foldlM_except_of_ok _ slots hbody, ok_bind, ← List.foldl_map, foldl_minStep_none, hd]
  simp [castU16_add]

theorem earliestInputTimeslot_of_unset (h : ∃ x ∈ c.inputs, x.timeslot = none) :
    c.earliestInputTimeslot = .ok none := by
  simp [earliestInputTimeslot, earliestLoop_of_unset c.inputs none h]

end Cpp.VirtualClock

/-! ## Agreeing clocks -/

namespace VirtualClock

/-- What the C++ `update` returns where the port returns `Ok(())`, `NotPermitted` or
    `PastTimeslot`. -/
def updateCode : Except UpdateError Unit → Int
  | .ok () => 0
  | .error .notPermitted => -EPERM
  | .error .pastTimeslot => -EINVAL

/-- The C++ answer a Rust answer stands for. -/
def Answer.toCpp : Answer → Cpp.VirtualClock.Answer
  | .unit => .unit
  | .update r => .code (updateCode r)
  | .bool b => .bool b

/-- The Rust clock `r` and the C++ clock `c` are in the same state. -/
structure ClockAgree (r : VirtualClock) (c : Cpp.VirtualClock) : Prop where
  timeslots : r.inputs.map (·.timeslot) = c.inputs.map (·.timeslot)
  current : r.currentTimeslot = c.currentTimeslot
  mul : r.divider.mul = c.divider.mul
  shift : r.divider.shift = c.divider.shift
  /-- The C++ division is defined. -/
  shift_lt : c.divider.shift.toNat < 64

variable {r : VirtualClock} {c : Cpp.VirtualClock} {slots : List Timeslot}

/-- Indexing agreeing lists: both succeed, at entries that agree, or both fail. -/
theorem index_agree {α β γ : Type} {xs : List α} {ys : List β} {f : α → γ} {g : β → γ}
    (h : xs.map f = ys.map g) (i : Nat) :
    OutcomesAgree (fun x y => f x = g y) (index xs i) (vectorAt ys i) := by
  have hlen : xs.length = ys.length := by simpa using congrArg List.length h
  by_cases hi : i < xs.length
  · have hget := congrArg (·[i]?) h
    simp only [List.getElem?_map, List.getElem?_eq_getElem hi,
      List.getElem?_eq_getElem (hlen ▸ hi), Option.map_some, Option.some_inj] at hget
    rw [index_of_lt hi, vectorAt_of_lt (hlen ▸ hi)]
    exact hget
  · simp [index, vectorAt, List.getElem?_eq_none (Nat.le_of_not_lt hi),
      List.getElem?_eq_none (hlen ▸ Nat.le_of_not_lt hi)]

namespace ClockAgree

theorem divide (h : ClockAgree r c) (ts : UInt64) :
    Cpp.FastDiv.divide ts c.divider = .ok (r.divider.divideU64 ts) := by
  rw [Cpp.FastDiv.divide, if_pos h.shift_lt, FastDiv.divideU64, h.mul, h.shift]

theorem setTo (h : ClockAgree r c) (hs : r.SetTo slots) :
    c.inputs = slots.map fun t => ⟨some t⟩ := by
  have hc : c.inputs = (c.inputs.map (·.timeslot)).map Cpp.VirtualClock.Input.mk := by
    simp [List.map_map, Function.comp_def]
  rw [hc, ← h.timeslots, hs, List.map_map, List.map_map]
  rfl

theorem unset (h : ClockAgree r c) (hr : ∃ x ∈ r.inputs, x.timeslot = none) :
    ∃ x ∈ c.inputs, x.timeslot = none := by
  obtain ⟨x, hx, hnone⟩ := hr
  have hmem : none ∈ c.inputs.map (·.timeslot) := h.timeslots ▸ List.mem_map.mpr ⟨x, hx, hnone⟩
  simpa using hmem

theorem setInput (h : ClockAgree r c) (i : Nat) (t : Option Timeslot) :
    ClockAgree (r.setInput i ⟨t⟩) (c.setInput i ⟨t⟩) :=
  { h with timeslots := by simp [Cpp.VirtualClock.setInput, List.map_set, h.timeslots] }

theorem withCurrent (h : ClockAgree r c) (t : Option Timeslot) :
    ClockAgree { r with currentTimeslot := t } { c with currentTimeslot := t } :=
  { h with current := rfl }

theorem addInputs (h : ClockAgree r c) (n : Nat) :
    ClockAgree (r.addInputs n) (c.addInputs n) :=
  { h with
    timeslots := by
      simp [VirtualClock.addInputs, Cpp.VirtualClock.addInputs, List.map_append, h.timeslots] }

/-- The C++ `min_input_advance` of a set clock computes the Rust one. -/
theorem minInputAdvance (h : ClockAgree r c) {cur : Timeslot}
    (hcur : c.currentTimeslot = some cur) : c.minInputAdvance = .ok r.minInputAdvance := by
  by_cases hset : ∀ x ∈ r.inputs, x.timeslot.isSome
  · obtain ⟨slots, hs⟩ := exists_setTo hset
    rw [minInputAdvance_of_setTo (h.current.trans hcur) hs, Cpp.VirtualClock.minInputAdvance,
      hcur, h.setTo hs, Cpp.VirtualClock.minInputAdvanceLoop_of_setTo, ← List.foldl_map,
      foldl_minStep_none]
  · push Not at hset
    obtain ⟨x, hx, hnone⟩ := hset
    have hr : ∃ x ∈ r.inputs, x.timeslot = none := ⟨x, hx, by simpa using hnone⟩
    rw [minInputAdvance_of_unset hr, Cpp.VirtualClock.minInputAdvance, hcur,
      Cpp.VirtualClock.minInputAdvanceLoop_of_unset cur _ _ (h.unset hr)]

/-- The C++ `earliest_input_timeslot` computes the Rust one, on clocks with inputs. -/
theorem earliestInputTimeslot_eq (h : ClockAgree r c) (hn : r.inputs ≠ []) :
    c.earliestInputTimeslot = r.earliestInputTimeslot := by
  by_cases hset : ∀ x ∈ r.inputs, x.timeslot.isSome
  · obtain ⟨slots, hs⟩ := exists_setTo hset
    have hne : slots ≠ [] := by
      rintro rfl
      exact hn (by simpa [SetTo] using hs)
    obtain ⟨m, hm⟩ := Option.isSome_iff_exists.mp (List.isSome_min?_of_ne_nil hne)
    obtain ⟨d, hd⟩ := Option.isSome_iff_exists.mp
      (List.isSome_min?_of_ne_nil (l := slots.map fun t => signedDeltaU16 t m) (by simpa using hne))
    rw [earliestInputTimeslot_of_setTo hs hm hd,
      Cpp.VirtualClock.earliestInputTimeslot_of_setTo (h.setTo hs) hm hd]
  · push Not at hset
    obtain ⟨x, hx, hnone⟩ := hset
    have hr : ∃ x ∈ r.inputs, x.timeslot = none := ⟨x, hx, by simpa using hnone⟩
    rw [earliestInputTimeslot_of_unset hr,
      Cpp.VirtualClock.earliestInputTimeslot_of_unset (h.unset hr)]

/-- Without inputs both fail: the port on the `unwrap` of the minimum of nothing, the C++ code on
    dereferencing it. -/
theorem earliestInputTimeslot (h : ClockAgree r c) :
    OutcomesAgree Eq r.earliestInputTimeslot c.earliestInputTimeslot := by
  by_cases hn : r.inputs = []
  · have hc : c.inputs = [] := by simpa [hn] using h.timeslots.symm
    simp [VirtualClock.earliestInputTimeslot, Cpp.VirtualClock.earliestInputTimeslot, hn, hc,
      unwrap, Cpp.VirtualClock.earliestLoop, deref]
  · obtain ⟨e, he⟩ := earliestInputTimeslot_ok hn
    rw [h.earliestInputTimeslot_eq hn, he]
    exact rfl

/-! ### One method at a time -/

theorem isCurrent (h : ClockAgree r c) (i : Nat) :
    OutcomesAgree Eq (r.isCurrent i) (c.isCurrent i) := by
  unfold VirtualClock.isCurrent Cpp.VirtualClock.isCurrent
  rw [h.current]
  split_ifs
  · exact (index_agree h.timeslots i).bind fun x y hxy => by simp [hxy]
  · exact rfl

theorem canUpdate (h : ClockAgree r c) (i : Nat) :
    OutcomesAgree Eq (r.canUpdate i) (c.canUpdate i) := by
  unfold VirtualClock.canUpdate Cpp.VirtualClock.canUpdate
  rw [h.current]
  exact (index_agree h.timeslots i).bind fun x y hxy => by simp [hxy]

theorem update (h : ClockAgree r c) (i : Nat) (ts : UInt64) :
    OutcomesAgree (fun p q => updateCode p.1 = q.1 ∧ ClockAgree p.2 q.2)
      (r.update i ts) (c.update i ts) := by
  unfold VirtualClock.update Cpp.VirtualClock.update
  refine (index_agree h.timeslots i).bind fun x y (hxy : x.timeslot = y.timeslot) => ?_
  rw [← hxy, ← h.current]
  by_cases hne : x.timeslot = r.currentTimeslot
  · simp only [hne, bne_self_eq_false, Bool.false_eq_true, if_false, h.divide ts, ok_bind,
      mapTimestamp]
    rcases r.currentTimeslot with _ | old
    -- the first update of an input, while the clock is unset
    · exact ⟨rfl, h.setInput i _⟩
    -- the `int` arithmetic of the C++ code is the wrapping arithmetic of the port
    · simp only [castS16_sub, castU16_add, signedDeltaU16]
      by_cases hd : 0 ≤ ((r.divider.divideU64 ts).toUInt16 - old).toInt16
      · simp only [ge_iff_le, hd, if_true, pure_eq_ok, outcomesAgree_ok]
        exact ⟨rfl, h.setInput i _⟩
      · simp only [ge_iff_le, hd, if_false, pure_eq_ok, outcomesAgree_ok]
        exact ⟨rfl, h⟩
  · simp only [bne_iff_ne, ne_eq, hne, not_false_eq_true, if_true]
    exact ⟨rfl, h⟩

theorem advance (h : ClockAgree r c) :
    OutcomesAgree (fun p q => p.1 = q.1 ∧ ClockAgree p.2 q.2) r.advance c.advance := by
  unfold VirtualClock.advance Cpp.VirtualClock.advance
  rw [h.current]
  rcases hcur : c.currentTimeslot with _ | cur
  -- an unset clock starts at the earliest input timeslot, the same in both
  · exact h.earliestInputTimeslot.bind fun e e' (he : e = e') => he ▸ ⟨rfl, h.withCurrent e⟩
  · dsimp only
    rw [h.minInputAdvance hcur, ok_bind]
    rcases r.minInputAdvance with _ | a
    · exact ⟨rfl, h⟩
    · simp only [Option.getD_some, castU16_add]
      split_ifs
      · exact ⟨rfl, h.withCurrent _⟩
      · exact ⟨rfl, h⟩

/-- One call of either clock from agreeing states. -/
theorem call (h : ClockAgree r c) (a : ClockCall) :
    OutcomesAgree (fun p q => p.1.toCpp = q.1 ∧ ClockAgree p.2 q.2) (r.call a) (c.call a) := by
  cases a with
  | addInputs n => exact ⟨rfl, h.addInputs n⟩
  | update i ts =>
    exact (h.update i ts).bind fun ⟨_, _⟩ ⟨_, _⟩ ⟨hcode, h'⟩ => ⟨congrArg _ hcode, h'⟩
  | advance => exact h.advance.bind fun ⟨_, _⟩ ⟨_, _⟩ ⟨hb, h'⟩ => ⟨congrArg _ hb, h'⟩
  | isCurrent i => exact (h.isCurrent i).bind fun _ _ hb => ⟨congrArg _ hb, h⟩
  | canUpdate i => exact (h.canUpdate i).bind fun _ _ hb => ⟨congrArg _ hb, h⟩

end ClockAgree

end VirtualClock

/-! ## Runs -/

/-- A call names only an input that exists when it is made: the precondition that the headers of
    both clocks state for `is_current`, `can_update` and `update`. -/
def ClockCall.IndexOk (n : Nat) : ClockCall → Prop
  | .update i _ | .isCurrent i | .canUpdate i => i < n
  | .addInputs _ | .advance => True

/-- The number of inputs after a call. -/
def ClockCall.nInputsAfter (n : Nat) : ClockCall → Nat
  | .addInputs m => n + m
  | _ => n

namespace VirtualClock

variable {r r' : VirtualClock} {i : Nat} {ts : UInt64}

theorem update_length {res : Except UpdateError Unit} (h : r.update i ts = .ok (res, r')) :
    r'.inputs.length = r.inputs.length := by
  obtain ⟨-, ⟨-, -, rfl⟩ | ⟨-, -, -, rfl⟩ | ⟨_, -, -, -, -, rfl⟩ | ⟨_, -, -, -, -, rfl⟩⟩ :=
    update_cases h
  all_goals simp

/-- A call that names existing inputs does not panic on a clock with inputs. -/
theorem call_ok (hn : r.inputs ≠ []) {a : ClockCall} (ha : a.IndexOk r.inputs.length) :
    ∃ b r', r.call a = .ok (b, r') ∧ r'.inputs.length = a.nInputsAfter r.inputs.length ∧
      r'.inputs ≠ [] := by
  cases a with
  | addInputs m =>
    exact ⟨.unit, r.addInputs m, rfl, by simp [addInputs, ClockCall.nInputsAfter],
      by simp [addInputs, hn]⟩
  | update i ts =>
    obtain ⟨res, r', h⟩ := update_ok ts ha
    have hlen := update_length h
    refine ⟨.update res, r', by simp [call, h], hlen, ?_⟩
    rw [← List.length_pos_iff] at hn ⊢
    exact hlen ▸ hn
  | advance =>
    obtain ⟨b, r', h, hr', -⟩ := advance_ok hn
    exact ⟨.bool b, r', by simp [call, h], by rw [hr']; rfl, by rw [hr']; exact hn⟩
  | isCurrent i => exact ⟨_, r, by rw [call, isCurrent_of_lt ha]; rfl, rfl, hn⟩
  | canUpdate i => exact ⟨_, r, by rw [call, canUpdate_of_lt ha]; rfl, rfl, hn⟩

end VirtualClock

/-- The port and the C++ clock, started with the same divider (with a shift below 64) and the
    same `n ≥ 1` inputs, agree on every sequence of calls: while the calls name existing inputs
    both run, every answer of the port stands for the C++ answer and the final clocks agree; in
    any case both runs succeed with agreeing answers and clocks, or both fail. -/
theorem rust_virtualClock_refines_cpp (mul shift : UInt32) (hshift : shift.toNat < 64) (n : Nat)
    (hn : 1 ≤ n) (calls : List ClockCall) :
    (Guarded ClockCall.IndexOk ClockCall.nInputsAfter n calls →
      ∃ as r as' c,
        runImpl VirtualClock.call ((VirtualClock.new ⟨mul, shift⟩).addInputs n) calls =
          .ok (as, r) ∧
        runImpl Cpp.VirtualClock.call ((Cpp.VirtualClock.new ⟨mul, shift⟩).addInputs n) calls =
          .ok (as', c) ∧
        as.map VirtualClock.Answer.toCpp = as' ∧ VirtualClock.ClockAgree r c) ∧
    RunsAgree (fun a a' => a.toCpp = a') VirtualClock.ClockAgree
      (runImpl VirtualClock.call ((VirtualClock.new ⟨mul, shift⟩).addInputs n) calls)
      (runImpl Cpp.VirtualClock.call ((Cpp.VirtualClock.new ⟨mul, shift⟩).addInputs n) calls) := by
  have hne : ((VirtualClock.new ⟨mul, shift⟩).addInputs n).inputs ≠ [] := by
    simp [VirtualClock.new, VirtualClock.addInputs]
    omega
  have h₀ : VirtualClock.ClockAgree ((VirtualClock.new ⟨mul, shift⟩).addInputs n)
      ((Cpp.VirtualClock.new ⟨mul, shift⟩).addInputs n) :=
    { timeslots := by simp [VirtualClock.new, VirtualClock.addInputs, Cpp.VirtualClock.new,
        Cpp.VirtualClock.addInputs]
      current := rfl, mul := rfl, shift := rfl, shift_lt := hshift }
  have hagree := lockstep VirtualClock.ClockAgree
    (fun (a : VirtualClock.Answer) (a' : Cpp.VirtualClock.Answer) => a.toCpp = a')
    (fun r c a (h : VirtualClock.ClockAgree r c) => h.call a) calls _ _ h₀
  refine ⟨fun hcalls => ?_, hagree⟩
  -- calls on existing inputs do not panic in the port, and so neither in the C++ clock
  obtain ⟨as, r, hrun⟩ := runImpl_ok_of_guarded
    (fun k (r : VirtualClock) => r.inputs.length = k ∧ r.inputs ≠ [])
    (fun k r a hkn ha => by
      obtain ⟨hk, hn⟩ := hkn
      obtain ⟨b, r', h, hlen, hn'⟩ := VirtualClock.call_ok hn (hk ▸ ha)
      exact ⟨b, r', h, hk ▸ hlen, hn'⟩)
    calls n _ ⟨by simp [VirtualClock.new, VirtualClock.addInputs], hne⟩ hcalls
  rw [hrun] at hagree
  revert hagree
  rcases runImpl Cpp.VirtualClock.call ((Cpp.VirtualClock.new ⟨mul, shift⟩).addInputs n) calls
    with _ | ⟨as', c⟩
  · exact False.elim
  · rintro ⟨hAs, h⟩
    exact ⟨as, r, as', c, hrun, rfl, List.forall₂_eq_eq_eq ▸ List.forall₂_map_left_iff.mpr hAs, h⟩

theorem rust_virtualClock_refines_cpp_one_input :
    (0 : UInt32).toNat < 64 ∧ 1 ≤ 1 ∧
    (Guarded ClockCall.IndexOk ClockCall.nInputsAfter 1 [.update 0 7, .advance, .isCurrent 0] →
      ∃ as r as' c,
        runImpl VirtualClock.call ((VirtualClock.new ⟨1, 0⟩).addInputs 1)
          [.update 0 7, .advance, .isCurrent 0] = .ok (as, r) ∧
        runImpl Cpp.VirtualClock.call ((Cpp.VirtualClock.new ⟨1, 0⟩).addInputs 1)
          [.update 0 7, .advance, .isCurrent 0] = .ok (as', c) ∧
        as.map VirtualClock.Answer.toCpp = as' ∧ VirtualClock.ClockAgree r c) ∧
    RunsAgree (fun a a' => a.toCpp = a') VirtualClock.ClockAgree
      (runImpl VirtualClock.call ((VirtualClock.new ⟨1, 0⟩).addInputs 1)
        [.update 0 7, .advance, .isCurrent 0])
      (runImpl Cpp.VirtualClock.call ((Cpp.VirtualClock.new ⟨1, 0⟩).addInputs 1)
        [.update 0 7, .advance, .isCurrent 0]) :=
  ⟨by decide, le_refl 1, rust_virtualClock_refines_cpp 1 0 (by decide) 1 (le_refl 1) _⟩

end OtelNetwork
