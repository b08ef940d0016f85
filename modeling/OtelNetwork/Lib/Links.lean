import Mathlib.Logic.Function.Basic
import Mathlib.Data.List.Basic

/-!
# Intrusive singly linked lists

Free lists and queues of slots keep their links in the slots themselves: the links form one
array `next : α → α`, and a list is a starting node. `Path next a l b` says that following
`next` from `a` visits the nodes of `l` in order and then stands at `b` (the list's end marker,
or the node where the list joins something else).

The rules are those of a heap of cells: a path does not see links off it (`Path.congr`), a node
off the path can be pushed in front by pointing it at the old start (`Path.push`), and the
first node can be popped, after which its own link may be overwritten (`Path.pop`).
-/

namespace Links

variable {α : Type}

/-- Following `next` from `a` visits `l` in order and arrives at `b`. -/
inductive Path (next : α → α) : α → List α → α → Prop where
  | nil (a : α) : Path next a [] a
  | cons {a b : α} {l : List α} : Path next (next a) l b → Path next a (a :: l) b

variable {next next' : α → α} {a b x : α} {l : List α}

theorem Path.nil_iff : Path next a [] b ↔ a = b := by
  constructor
  · rintro ⟨⟩
    rfl
  · rintro rfl
    exact .nil a

theorem Path.cons_iff : Path next a (x :: l) b ↔ a = x ∧ Path next (next x) l b := by
  constructor
  · rintro (_ | h)
    exact ⟨rfl, h⟩
  · rintro ⟨rfl, h⟩
    exact .cons h

/-- A path reads only the links of its own nodes. -/
theorem Path.congr (h : Path next a l b) (hnext : ∀ y ∈ l, next' y = next y) :
    Path next' a l b := by
  induction h with
  | nil a => exact .nil a
  | @cons a b l _ ih =>
    refine .cons ?_
    rw [hnext a List.mem_cons_self]
    exact ih fun y hy => hnext y (List.mem_cons_of_mem a hy)

variable [DecidableEq α]

/-- Linking a node off the path to its start puts it in front. -/
theorem Path.push (h : Path next a l b) (hx : x ∉ l) :
    Path (Function.update next x a) x (x :: l) b := by
  refine .cons ?_
  rw [Function.update_self]
  refine h.congr fun y hy => Function.update_of_ne ?_ _ _
  rintro rfl
  exact hx hy

/-- After the first node is popped, its link no longer matters. -/
theorem Path.pop (h : Path next a (x :: l) b) (hx : x ∉ l) (v : α) :
    a = x ∧ Path (Function.update next x v) (next x) l b := by
  obtain ⟨rfl, h⟩ := Path.cons_iff.mp h
  refine ⟨rfl, h.congr fun y hy => Function.update_of_ne ?_ _ _⟩
  rintro rfl
  exact hx hy

end Links
