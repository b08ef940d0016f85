import Mathlib.Logic.Function.Basic
import Mathlib.Data.List.Basic
import Mathlib.Data.List.Induction

/-!
# A table and its reverse index

A table `f : α → Option β` and its reverse index `g : β → Option α` are kept in step when
`f a = some b` exactly when `g b = some a`: the two are inverse partial bijections. Entries leave
in pairs, through the table (`unlinkFwd`) or through the index (`unlinkBwd`), and a pair may be
written once both of its keys are free (`Inverse.insert`). `Inverse.overwrite` is the other way
of writing a pair: evict the old partner of `a` from the index and the old partner of `b` from
the table, then overwrite both entries.

What the table means is a history of updates (`Op`): a pair is in the table exactly when it was
written and no later update wrote either of its keys with another partner or erased its key
(`live_eq_some_iff`).
-/

namespace BiMap

variable {α β : Type}

/-- `f` and `g` are inverse partial bijections. -/
def Inverse (f : α → Option β) (g : β → Option α) : Prop := ∀ a b, f a = some b ↔ g b = some a

variable {f : α → Option β} {g : β → Option α} {a a' : α} {b b' : β}

theorem inverse_empty : Inverse (fun _ : α => (none : Option β)) (fun _ : β => (none : Option α)) := by
  intro a b
  simp

theorem Inverse.symm (h : Inverse f g) : Inverse g f := fun b a => (h a b).symm

/-- Two keys with the same partner are the same key. -/
theorem Inverse.inj (h : Inverse f g) (ha : f a = some b) (ha' : f a' = some b) : a = a' := by
  have h₁ := (h a b).mp ha
  have h₂ := (h a' b).mp ha'
  rw [h₁] at h₂
  exact Option.some.inj h₂

variable [DecidableEq α] [DecidableEq β]

/-- Drop the pair of `a`, through the table. -/
def unlinkFwd (f : α → Option β) (g : β → Option α) (a : α) : (α → Option β) × (β → Option α) :=
  match f a with
  | some b => (Function.update f a none, Function.update g b none)
  | none => (f, g)

/-- Drop the pair of `b`, through the reverse index. -/
def unlinkBwd (f : α → Option β) (g : β → Option α) (b : β) : (α → Option β) × (β → Option α) :=
  match g b with
  | some a => (Function.update f a none, Function.update g b none)
  | none => (f, g)

theorem unlinkBwd_eq_swap (f : α → Option β) (g : β → Option α) (b : β) :
    unlinkBwd f g b = (unlinkFwd g f b).swap := by
  unfold unlinkBwd unlinkFwd
  cases g b <;> rfl

/-- Dropping a pair keeps the other pairs. -/
theorem Inverse.erase (h : Inverse f g) (hab : f a = some b) :
    Inverse (Function.update f a none) (Function.update g b none) := by
  intro x y
  by_cases hx : x = a
  · subst hx
    simp only [Function.update_self, reduceCtorEq, false_iff]
    intro hy
    by_cases hyb : y = b
    · subst hyb
      simp at hy
    · rw [Function.update_of_ne hyb] at hy
      exact hyb (Option.some.inj (((h x y).mpr hy).symm.trans hab))
  · rw [Function.update_of_ne hx]
    by_cases hyb : y = b
    · subst hyb
      simp only [Function.update_self, reduceCtorEq, iff_false]
      exact fun hxy => hx (h.inj hxy hab)
    · rw [Function.update_of_ne hyb]
      exact h x y

theorem Inverse.unlinkFwd (h : Inverse f g) (a : α) :
    Inverse (unlinkFwd f g a).1 (unlinkFwd f g a).2 := by
  unfold BiMap.unlinkFwd
  split
  · exact h.erase ‹_›
  · exact h

theorem Inverse.unlinkBwd (h : Inverse f g) (b : β) :
    Inverse (unlinkBwd f g b).1 (unlinkBwd f g b).2 := by
  rw [unlinkBwd_eq_swap]
  exact (h.symm.unlinkFwd b).symm

theorem unlinkFwd_fst_self (f : α → Option β) (g : β → Option α) (a : α) :
    (unlinkFwd f g a).1 a = none := by
  unfold unlinkFwd
  split
  · exact Function.update_self ..
  · assumption

theorem unlinkBwd_snd_self (f : α → Option β) (g : β → Option α) (b : β) :
    (unlinkBwd f g b).2 b = none := by
  rw [unlinkBwd_eq_swap]
  exact unlinkFwd_fst_self g f b

/-- Unlinking only ever clears entries. -/
theorem unlinkBwd_fst_of_none (f : α → Option β) (g : β → Option α) (b : β) (ha : f a = none) :
    (unlinkBwd f g b).1 a = none := by
  unfold unlinkBwd
  split
  · rename_i a' _
    by_cases hx : a = a'
    · subst hx
      exact Function.update_self ..
    · exact (Function.update_of_ne hx _ _).trans ha
  · exact ha

/-- A pair may be written once both of its keys are free. -/
theorem Inverse.insert (h : Inverse f g) (ha : f a = none) (hb : g b = none) :
    Inverse (Function.update f a (some b)) (Function.update g b (some a)) := by
  intro x y
  by_cases hx : x = a
  · subst hx
    by_cases hy : y = b
    · subst hy
      simp
    · rw [Function.update_self, Function.update_of_ne hy]
      constructor
      · intro hxy
        exact absurd (Option.some.inj hxy).symm hy
      · intro hyx
        exact absurd ((h x y).mpr hyx) (by rw [ha]; simp)
  · rw [Function.update_of_ne hx]
    by_cases hy : y = b
    · subst hy
      rw [Function.update_self]
      constructor
      · intro hxy
        rw [(h x y).mp hxy] at hb
        exact absurd hb (by simp)
      · intro hyx
        exact absurd (Option.some.inj hyx).symm hx
    · rw [Function.update_of_ne hy]
      exact h x y

/-- The index after the old partner of `a` is evicted from it. -/
def evictBwd (f : α → Option β) (g : β → Option α) (a : α) : β → Option α :=
  match f a with
  | some b' => Function.update g b' none
  | none => g

/-- The table after the old partner of `b` is evicted from it. -/
def evictFwd (f : α → Option β) (g : β → Option α) (b : β) : α → Option β :=
  match g b with
  | some a' => Function.update f a' none
  | none => f

/-- Evicting `a`'s old partner from the index, then `b`'s old partner from the table, and
    overwriting both entries writes the pair `(a, b)`. -/
theorem Inverse.overwrite (h : Inverse f g) (a : α) (b : β) :
    Inverse (Function.update (evictFwd f (evictBwd f g a) b) a (some b))
      (Function.update (evictBwd f g a) b (some a)) := by
  -- the first eviction is `unlinkFwd` with the table entry of `a` left to be overwritten
  have h₁ : Inverse (Function.update f a none) (evictBwd f g a) := by
    unfold evictBwd
    cases hfa : f a with
    | none =>
      rw [Function.update_eq_self_iff.mpr hfa.symm]
      exact h
    | some b' => exact h.erase hfa
  -- the second is `unlinkBwd` with the index entry of `b` left to be overwritten
  have h₂ := h₁.unlinkBwd b
  have hfst : (BiMap.unlinkBwd (Function.update f a none) (evictBwd f g a) b).1 =
      Function.update (evictFwd f (evictBwd f g a) b) a none := by
    unfold BiMap.unlinkBwd evictFwd
    cases hb : evictBwd f g a b with
    | none => rfl
    | some a' =>
      have ha'a : a' ≠ a := by
        rintro rfl
        have := (h₁ a' b).mpr hb
        simp at this
      dsimp only
      exact Function.update_comm (Ne.symm ha'a) _ _ _
  have hsnd : (BiMap.unlinkBwd (Function.update f a none) (evictBwd f g a) b).2 =
      Function.update (evictBwd f g a) b none := by
    unfold BiMap.unlinkBwd
    cases hb : evictBwd f g a b with
    | none => exact (Function.update_eq_self_iff.mpr hb.symm).symm
    | some a' => rfl
  rw [hfst, hsnd] at h₂
  have h₃ := h₂.insert (a := a) (b := b) (Function.update_self ..) (Function.update_self ..)
  rwa [Function.update_idem, Function.update_idem] at h₃

/-- An update of a table of pairs: write a pair, or erase a key. -/
inductive Op (α β : Type) where
  | write (a : α) (b : β)
  | erase (a : α)

/-- A later update ends the pair `(a, b)` when it writes `a` or `b` anew, or erases `a`. -/
def Op.Ends : Op α β → α → β → Prop
  | .write a' b', a, b => a' = a ∨ b' = b
  | .erase a', a, _ => a' = a

/-- What an update does to a table whose pairs stay one-to-one. -/
def Op.apply (m : α → Option β) : Op α β → α → Option β
  | .write a b => fun x => if x = a then some b else if m x = some b then none else m x
  | .erase a => Function.update m a none

/-- The table after a history of updates. -/
def live (ops : List (Op α β)) : α → Option β := ops.foldl Op.apply fun _ => none

theorem live_append_singleton (ops : List (Op α β)) (op : Op α β) :
    live (ops ++ [op]) = Op.apply (live ops) op := by
  simp [live]

theorem Op.apply_eq_some_iff (m : α → Option β) (op : Op α β) (a : α) (b : β) :
    Op.apply m op a = some b ↔ op = .write a b ∨ (m a = some b ∧ ¬ op.Ends a b) := by
  cases op with
  | write a' b' =>
    simp only [Op.apply, Op.Ends, Op.write.injEq]
    by_cases ha : a = a'
    · subst ha
      simp [eq_comm]
    · rw [if_neg ha]
      by_cases hm : m a = some b'
      · rw [if_pos hm]
        constructor
        · intro h
          exact absurd h (by simp)
        · rintro (⟨rfl, -⟩ | ⟨hb, hne⟩)
          · exact absurd rfl ha
          · rw [hm] at hb
            exact absurd (Or.inr (Option.some.inj hb)) hne
      · rw [if_neg hm]
        constructor
        · intro h
          refine .inr ⟨h, ?_⟩
          rintro (rfl | rfl)
          · exact ha rfl
          · exact hm h
        · rintro (⟨rfl, -⟩ | ⟨hb, -⟩)
          · exact absurd rfl ha
          · exact hb
  | erase a' =>
    simp only [Op.apply, Op.Ends, reduceCtorEq, false_or]
    by_cases ha : a = a'
    · subst ha
      simp
    · rw [Function.update_of_ne ha]
      exact ⟨fun h => ⟨h, fun h' => ha h'.symm⟩, fun h => h.1⟩

/-- The last pair written for `a` is in the table as long as no later update has ended it. -/
theorem live_eq_some_iff (ops : List (Op α β)) (a : α) (b : β) :
    live ops a = some b ↔
      ∃ pre post, ops = pre ++ .write a b :: post ∧ ∀ op ∈ post, ¬ op.Ends a b := by
  induction ops using List.reverseRecOn with
  | nil =>
    simp only [live, List.foldl_nil, reduceCtorEq, false_iff, not_exists, not_and]
    intro pre post h
    exact absurd h.symm (by simp)
  | append_singleton ops op ih =>
    rw [live_append_singleton, Op.apply_eq_some_iff, ih]
    constructor
    · rintro (rfl | ⟨⟨pre, post, rfl, hpost⟩, hend⟩)
      · exact ⟨ops, [], by simp, by simp⟩
      · refine ⟨pre, post ++ [op], by simp, ?_⟩
        intro o ho
        rcases List.mem_append.mp ho with ho | ho
        · exact hpost o ho
        · rw [List.mem_singleton.mp ho]
          exact hend
    · rintro ⟨pre, post, hops, hpost⟩
      -- the last update is the write itself, or came after it
      rcases List.eq_nil_or_concat' post with rfl | ⟨post', o, rfl⟩
      · exact .inl (List.append_singleton_inj.mp hops).2
      · rw [show pre ++ Op.write a b :: (post' ++ [o]) = (pre ++ Op.write a b :: post') ++ [o] by
          simp] at hops
        obtain ⟨rfl, rfl⟩ := List.append_singleton_inj.mp hops
        refine .inr ⟨⟨pre, post', rfl, fun o' ho' => hpost o' (by simp [ho'])⟩, ?_⟩
        exact hpost op (by simp)

/-- A table kept with its reverse index follows `Op.apply` on a write. -/
theorem Inverse.overwrite_eq_apply (h : Inverse f g) (a : α) (b : β) :
    Function.update (evictFwd f (evictBwd f g a) b) a (some b) = Op.apply f (.write a b) := by
  funext x
  simp only [Op.apply]
  by_cases hx : x = a
  · subst hx
    simp
  · rw [Function.update_of_ne hx, if_neg hx]
    -- the first eviction clears the index entry of `b` only when `a` was mapped to `b`
    have hev : evictBwd f g a b = if f a = some b then none else g b := by
      unfold evictBwd
      cases hfa : f a with
      | none => simp
      | some b' =>
        by_cases hbb' : b = b'
        · subst hbb'
          simp
        · simp [Function.update_of_ne hbb', Ne.symm hbb']
    unfold evictFwd
    rw [hev]
    by_cases hxb : f x = some b
    · -- then `b`'s index entry names `x`, and `a` was not mapped to `b`
      have hgb : g b = some x := (h x b).mp hxb
      have hfa : f a ≠ some b := fun hab => hx (h.inj hxb hab)
      simp [hfa, hgb, hxb]
    · rw [if_neg hxb]
      split_ifs with hab
      · rfl
      · cases hgb : g b with
        | none => rfl
        | some a' =>
          have hxa' : x ≠ a' := by
            rintro rfl
            exact hxb ((h x b).mpr hgb)
          exact Function.update_of_ne hxa' _ _

theorem unlinkFwd_fst_eq_apply (f : α → Option β) (g : β → Option α) (a : α) :
    (unlinkFwd f g a).1 = Op.apply f (.erase a) := by
  unfold unlinkFwd
  split
  · rfl
  · exact (Function.update_eq_self_iff.mpr (by assumption : f a = none).symm).symm

end BiMap
