import Mathlib.Order.Bounds.Basic
import Mathlib.Logic.Function.Iterate

/-!
# Cursors that enumerate a set in order

An iterator over a set `s` of a linear order is a cursor with a first position `start` and a step
`next`; `At c a` says that the cursor `c` stands at the member `a`, and `Done c` that it is past
the end. When `start` stands at the least member (or is done on the empty set) and `next` moves
from a member to the least larger one (or is done when there is none), the cursor visits the
members in order: after `n` steps it stands at the `n`-th entry of any strictly increasing list
of the members, and after as many steps as there are members it is done.
-/

namespace Enumeration

variable {σ α : Type} [LinearOrder α]

/-! ## Strictly increasing lists of a set -/

section Sorted

variable {l : List α} {s : Set α}

theorem getElem_le_of_le (hl : l.Pairwise (· < ·)) {i j : Nat} (hij : i ≤ j) (hj : j < l.length) :
    l[i] ≤ l[j] := by
  rcases Nat.lt_or_eq_of_le hij with h | rfl
  · exact le_of_lt (List.pairwise_iff_getElem.mp hl i j (by omega) hj h)
  · exact le_rfl

/-- The first entry is the least member. -/
theorem isLeast_getElem_zero (hl : l.Pairwise (· < ·)) (hs : ∀ x, x ∈ l ↔ x ∈ s)
    (h : 0 < l.length) : IsLeast s l[0] := by
  refine ⟨(hs _).mp (List.getElem_mem h), fun x hx => ?_⟩
  obtain ⟨j, hj, rfl⟩ := List.getElem_of_mem ((hs x).mpr hx)
  exact getElem_le_of_le hl (Nat.zero_le j) hj

/-- Each entry after the first is the least member larger than the one before. -/
theorem isLeast_getElem_succ (hl : l.Pairwise (· < ·)) (hs : ∀ x, x ∈ l ↔ x ∈ s) {n : Nat}
    (h : n + 1 < l.length) : IsLeast {x | x ∈ s ∧ l[n] < x} l[n + 1] := by
  refine ⟨⟨(hs _).mp (List.getElem_mem h),
    List.pairwise_iff_getElem.mp hl n (n + 1) (by omega) h (by omega)⟩, ?_⟩
  rintro x ⟨hx, hlt⟩
  obtain ⟨j, hj, rfl⟩ := List.getElem_of_mem ((hs x).mpr hx)
  -- a member larger than entry `n` stands after it
  have hnj : n < j := by
    by_contra hle
    exact absurd (getElem_le_of_le hl (not_lt.mp hle) (by omega)) (not_le.mpr hlt)
  exact getElem_le_of_le hl hnj hj

/-- The last entry is the greatest member. -/
theorem le_getElem_last (hl : l.Pairwise (· < ·)) (hs : ∀ x, x ∈ l ↔ x ∈ s) {n : Nat}
    (h : n + 1 = l.length) : ∀ x ∈ s, x ≤ l[n] := by
  intro x hx
  obtain ⟨j, hj, rfl⟩ := List.getElem_of_mem ((hs x).mpr hx)
  exact getElem_le_of_le hl (by omega) _

end Sorted

/-! ## Cursors -/

section Cursor

variable (s : Set α) (At : σ → α → Prop) (Done : σ → Prop)

/-- `c` stands at the least member of `s` larger than `a`, or is done when there is none. -/
def NextOrDone (a : α) (c : σ) : Prop :=
  (∃ a', IsLeast {x | x ∈ s ∧ a < x} a' ∧ At c a') ∨ (Done c ∧ ∀ x ∈ s, x ≤ a)

/-- `start` stands at the least member of `s`, or is done when `s` is empty. -/
def StartsAtLeast (start : σ) : Prop :=
  (∃ a, IsLeast s a ∧ At start a) ∨ (Done start ∧ s = ∅)

/-- From a cursor at any member, `next` moves to the next member or is done. -/
def StepsToNext (next : σ → σ) : Prop :=
  ∀ c a, At c a → NextOrDone s At Done a (next c)

variable {s At Done} {next : σ → σ} {start : σ} {l : List α}
  (hstart : StartsAtLeast s At Done start) (hnext : StepsToNext s At Done next)
  (hl : l.Pairwise (· < ·)) (hs : ∀ x, x ∈ l ↔ x ∈ s)
include hstart hnext hl hs

/-- After `n` steps the cursor stands at the `n`-th member. -/
theorem iterate_at : ∀ n (hn : n < l.length), At (next^[n] start) l[n] := by
  intro n
  induction n with
  | zero =>
    intro hn
    rcases hstart with ⟨a, ha, hat⟩ | ⟨-, hempty⟩
    · rwa [(isLeast_getElem_zero hl hs hn).unique ha]
    · have hmem := (hs _).mp (List.getElem_mem hn)
      rw [hempty] at hmem
      exact absurd hmem (Set.notMem_empty _)
  | succ n ih =>
    intro hn
    rw [Function.iterate_succ_apply']
    have hleast := isLeast_getElem_succ hl hs hn
    rcases hnext _ _ (ih (by omega)) with ⟨a, ha, hat⟩ | ⟨-, hmax⟩
    · rwa [hleast.unique ha]
    -- the step cannot be done while a larger member is left
    · exact absurd (hmax _ hleast.1.1) (not_le.mpr hleast.1.2)

/-- After as many steps as there are members the cursor is done. -/
theorem iterate_done : Done (next^[l.length] start) := by
  cases hlen : l.length with
  | zero =>
    rcases hstart with ⟨a, ha, -⟩ | ⟨hdone, -⟩
    · have hmem := (hs a).mpr ha.1
      rw [List.length_eq_zero_iff.mp hlen] at hmem
      exact absurd hmem List.not_mem_nil
    · exact hdone
  | succ n =>
    rw [Function.iterate_succ_apply']
    rcases hnext _ _ (iterate_at hstart hnext hl hs n (by omega)) with ⟨a, ha, -⟩ | ⟨hdone, -⟩
    -- a member after the last one cannot be found
    · exact absurd (le_getElem_last hl hs hlen.symm a ha.1.1) (not_le.mpr ha.1.2)
    · exact hdone

end Cursor

end Enumeration
