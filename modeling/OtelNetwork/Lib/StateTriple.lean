import Mathlib.Order.Basic

/-!
# Pre- and postconditions for state-passing programs

A program `x : StateM σ α` runs from a state to a value and a new state. `Triple P x Q` says
that from every state satisfying `P`, `x` ends in a value and a state satisfying `Q`. The rules
follow the shape of a program (`pure`, `bind`, `if`) and weaken or strengthen its conditions.

`Preserves R x` says that every run of `x` relates its start and end states by `R`. For a
reflexive and transitive `R` (a frame condition: what a program leaves alone, how far a cursor
may move) it is closed under the same program forms.
-/

namespace StateTriple

variable {σ α β : Type}

/-! ## Triples -/

/-- From every state satisfying `P`, `x` ends with a value and a state satisfying `Q`. -/
def Triple (P : σ → Prop) (x : StateM σ α) (Q : α → σ → Prop) : Prop :=
  ∀ s, P s → Q (x.run s).1 (x.run s).2

variable {P P' : σ → Prop} {Q Q' : α → σ → Prop}

theorem Triple.pure {a : α} (h : ∀ s, P s → Q a s) : Triple P (pure a) Q := h

theorem Triple.bind {x : StateM σ α} {f : α → StateM σ β} {R : α → σ → Prop}
    {Q : β → σ → Prop} (hx : Triple P x R) (hf : ∀ a, Triple (R a) (f a) Q) :
    Triple P (x >>= f) Q :=
  fun s hs => hf _ _ (hx s hs)

theorem Triple.ite {c : Prop} [Decidable c] {x y : StateM σ α} (ht : c → Triple P x Q)
    (he : ¬ c → Triple P y Q) : Triple P (if c then x else y) Q := by
  by_cases hc : c
  · simpa [hc] using ht hc
  · simpa [hc] using he hc

theorem Triple.conseq {x : StateM σ α} (h : Triple P x Q) (hP : ∀ s, P' s → P s)
    (hQ : ∀ a s, Q a s → Q' a s) : Triple P' x Q' :=
  fun s hs => hQ _ _ (h s (hP s hs))

/-! ## Frame conditions -/

section Preserves

variable (R : σ → σ → Prop)

/-- Every run of `x` relates its start state to its end state by `R`. -/
def Preserves (x : StateM σ α) : Prop := ∀ s, R s (x.run s).2

variable {R} {R' : σ → σ → Prop}

theorem Preserves.pure [Std.Refl R] (a : α) : Preserves R (pure a : StateM σ α) :=
  fun s => Std.Refl.refl s

theorem Preserves.bind [IsTrans σ R] {x : StateM σ α} {f : α → StateM σ β} (hx : Preserves R x)
    (hf : ∀ a, Preserves R (f a)) : Preserves R (x >>= f) :=
  fun s => trans_of R (hx s) (hf _ _)

theorem Preserves.ite {c : Prop} [Decidable c] {x y : StateM σ α} (hx : Preserves R x)
    (hy : Preserves R y) : Preserves R (if c then x else y) := by
  by_cases hc : c
  · simpa [hc] using hx
  · simpa [hc] using hy

theorem Preserves.mono {x : StateM σ α} (h : Preserves R x) (hR : ∀ s s', R s s' → R' s s') :
    Preserves R' x :=
  fun s => hR _ _ (h s)

end Preserves

end StateTriple
