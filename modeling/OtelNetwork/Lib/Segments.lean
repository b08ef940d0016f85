import Mathlib.Data.List.Basic

/-!
# Traces cut into segments by end markers

A trace is a list of events; some events end a segment (`isEnd`) and some carry a label
(`label`). `Uniform` says that two labelled events with no end marker between them carry the same
label: the trace is a sequence of segments, each with a single label. `OpenLabel tr cur` says
that every labelled event after the last end marker carries `cur` (and that there is none when
`cur` is `none`).

A trace built by appending events keeps both properties when each labelled event carries the
current label, the label changes only at an end marker or while no label is set, and an end
marker carries no label. The lemmas below are the append rules.
-/

namespace Segments

variable {α β : Type} (isEnd : α → Bool) (label : α → Option β)

/-- Two labelled events with no end marker between them carry the same label. -/
def Uniform (tr : List α) : Prop :=
  ∀ (j k : Nat) (b₁ b₂ : β), j < k → tr[j]?.bind label = some b₁ → tr[k]?.bind label = some b₂ →
    (∀ (l : Nat) x, j < l → l < k → tr[l]? = some x → isEnd x = false) → b₁ = b₂

/-- Every labelled event after the last end marker carries `cur`. -/
def OpenLabel (tr : List α) (cur : Option β) : Prop :=
  ∀ (j : Nat) (b : β), tr[j]?.bind label = some b → (∀ (l : Nat) x, j < l → tr[l]? = some x → isEnd x = false) →
    cur = some b

variable {isEnd label} {tr : List α} {x : α} {cur : Option β}

theorem uniform_nil : Uniform isEnd label [] := by
  intro j k b₁ b₂ _ h₁
  simp at h₁

theorem openLabel_nil (cur : Option β) : OpenLabel isEnd label [] cur := by
  intro j b h
  simp at h

/-- With no labelled event open, any label may be set. -/
theorem OpenLabel.of_none (h : OpenLabel isEnd label tr none) (cur : Option β) :
    OpenLabel isEnd label tr cur := by
  intro j b hj hl
  cases h j b hj hl

theorem getElem?_append_singleton_of_lt {j : Nat} (hj : j < tr.length) :
    (tr ++ [x])[j]? = tr[j]? :=
  List.getElem?_append_left hj

theorem getElem?_append_singleton_length : (tr ++ [x])[tr.length]? = some x := by
  simp

theorem getElem?_append_singleton_of_gt {j : Nat} (hj : tr.length < j) : (tr ++ [x])[j]? = none := by
  rw [List.getElem?_eq_none]
  simp only [List.length_append, List.length_singleton]
  omega

/-- Appending an event that carries the open label, or none: the old pairs keep their
    in-between events, and the new event meets the open segment. -/
theorem Uniform.append (hu : Uniform isEnd label tr) (ho : OpenLabel isEnd label tr cur)
    (hx : ∀ b, label x = some b → cur = some b) :
    Uniform isEnd label (tr ++ [x]) := by
  intro j k b₁ b₂ hjk h₁ h₂ hl
  have hj : j < tr.length := by
    rcases Nat.lt_trichotomy j tr.length with hj | rfl | hj
    · exact hj
    · rcases Nat.lt_trichotomy k tr.length with hk | rfl | hk
      · omega
      · omega
      · rw [getElem?_append_singleton_of_gt hk] at h₂
        cases h₂
    · rw [getElem?_append_singleton_of_gt hj] at h₁
      cases h₁
  rw [getElem?_append_singleton_of_lt hj] at h₁
  rcases Nat.lt_trichotomy k tr.length with hk | rfl | hk
  · -- both events are old
    rw [getElem?_append_singleton_of_lt hk] at h₂
    refine hu j k b₁ b₂ hjk h₁ h₂ fun l y hjl hlk hy => hl l y hjl hlk ?_
    rw [getElem?_append_singleton_of_lt (by omega), hy]
  · -- the second event is the new one, which carries the open label
    rw [getElem?_append_singleton_length, Option.bind_some] at h₂
    have hcur₁ := ho j b₁ h₁ fun l y hjl hy => by
      rcases Nat.lt_trichotomy l tr.length with hl' | rfl | hl'
      · exact hl l y hjl hl' (by rw [getElem?_append_singleton_of_lt hl', hy])
      · simp at hy
      · rw [List.getElem?_eq_none (by omega)] at hy
        cases hy
    rw [hx b₂ h₂, Option.some_inj] at hcur₁
    exact hcur₁.symm
  · rw [getElem?_append_singleton_of_gt hk] at h₂
    cases h₂

theorem OpenLabel.append (ho : OpenLabel isEnd label tr cur)
    (hx : ∀ b, label x = some b → cur = some b) : OpenLabel isEnd label (tr ++ [x]) cur := by
  intro j b hj hl
  rcases Nat.lt_trichotomy j tr.length with hj' | rfl | hj'
  · rw [getElem?_append_singleton_of_lt hj'] at hj
    refine ho j b hj fun l y hjl hy => hl l y hjl ?_
    rw [getElem?_append_singleton_of_lt (List.getElem?_eq_some_iff.mp hy).1, hy]
  · rw [getElem?_append_singleton_length, Option.bind_some] at hj
    exact hx b hj
  · rw [getElem?_append_singleton_of_gt hj'] at hj
    cases hj

/-- Appending an end marker closes the open segment: any label may follow. -/
theorem OpenLabel.append_end (hend : isEnd x = true) (hx : label x = none) (cur : Option β) :
    OpenLabel isEnd label (tr ++ [x]) cur := by
  intro j b hj hl
  rcases Nat.lt_trichotomy j tr.length with hj' | rfl | hj'
  · -- an old event: the new end marker lies after it
    have := hl tr.length x hj' getElem?_append_singleton_length
    rw [hend] at this
    cases this
  · rw [getElem?_append_singleton_length, Option.bind_some, hx] at hj
    cases hj
  · rw [getElem?_append_singleton_of_gt hj'] at hj
    cases hj

end Segments
