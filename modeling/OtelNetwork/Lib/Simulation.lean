import OtelNetwork.Lib.Rust

/-!
# Forward simulation of an implementation by a relational specification

An implementation is a step function `impl : σ → α → Except ε (β × σ)`: on a call `a` it either
fails (a panic) or answers `b` and moves to a new state. A specification is a relation
`spec : τ → α → β → τ → Prop` saying which answers and successor states a call may have.
`runImpl` runs a list of calls through the implementation; `SpecRun` is the set of answer lists
the specification allows.

`simulation` is the usual forward-simulation rule: if a relation `R` between implementation and
specification states is such that from related states every call succeeds with an answer the
specification allows and leads to related states, then every run of the implementation from a
related pair succeeds, and its answers are allowed by a run of the specification that ends in
a related state.
-/

namespace Simulation

open RustSem

variable {σ τ α β ε : Type}

/-- The answers and final state of a list of calls, or the first failure. -/
def runImpl (impl : σ → α → Except ε (β × σ)) : σ → List α → Except ε (List β × σ)
  | s, [] => .ok ([], s)
  | s, a :: as => do
    let (b, s') ← impl s a
    let (bs, s'') ← runImpl impl s' as
    return (b :: bs, s'')

/-- The answers and final state of a list of calls on a step function that always answers. -/
def runFn (step : τ → α → β × τ) : τ → List α → List β × τ
  | t, [] => ([], t)
  | t, a :: as =>
    let (b, t') := step t a
    let (bs, t'') := runFn step t' as
    (b :: bs, t'')

/-- A run of `as₁ ++ as₂` is the run of `as₁`, then the run of `as₂` from where it ends. -/
theorem runImpl_append_of_ok {impl : σ → α → Except ε (β × σ)} {s s₁ : σ} {as₁ : List α}
    {bs₁ : List β} (h₁ : runImpl impl s as₁ = .ok (bs₁, s₁)) (as₂ : List α) :
    runImpl impl s (as₁ ++ as₂) = (runImpl impl s₁ as₂).map fun r => (bs₁ ++ r.1, r.2) := by
  induction as₁ generalizing s bs₁ with
  | nil =>
    cases h₁
    rw [List.nil_append]
    cases runImpl impl s₁ as₂ <;> rfl
  | cons a as₁ ih =>
    obtain ⟨⟨b, s'⟩, himpl, hrest⟩ := bind_eq_ok.mp h₁
    obtain ⟨⟨bs, s''⟩, hrun, hret⟩ := bind_eq_ok.mp hrest
    cases hret
    rw [List.cons_append, runImpl, himpl, ok_bind]
    dsimp only
    rw [ih hrun]
    cases runImpl impl s₁ as₂ <;> rfl

theorem runFn_append (step : τ → α → β × τ) (t : τ) (as₁ as₂ : List α) :
    runFn step t (as₁ ++ as₂) =
      ((runFn step t as₁).1 ++ (runFn step (runFn step t as₁).2 as₂).1,
        (runFn step (runFn step t as₁).2 as₂).2) := by
  induction as₁ generalizing t with
  | nil => rfl
  | cons a as₁ ih => simp [runFn, ih]

/-- The specification allows the answers `bs` to the calls `as` from `t`, ending in `t'`. -/
inductive SpecRun (spec : τ → α → β → τ → Prop) : τ → List α → List β → τ → Prop where
  | nil (t : τ) : SpecRun spec t [] [] t
  | cons {t t' t'' : τ} {a : α} {b : β} {as : List α} {bs : List β} :
      spec t a b t' → SpecRun spec t' as bs t'' → SpecRun spec t (a :: as) (b :: bs) t''

/-- Forward simulation: a relation preserved by every call, with allowed answers, carries over
    to whole runs. -/
theorem simulation {impl : σ → α → Except ε (β × σ)} {spec : τ → α → β → τ → Prop}
    (R : σ → τ → Prop)
    (hstep : ∀ s t a, R s t → ∃ b s', impl s a = .ok (b, s') ∧ ∃ t', spec t a b t' ∧ R s' t') :
    ∀ (as : List α) (s : σ) (t : τ), R s t →
      ∃ bs s', runImpl impl s as = .ok (bs, s') ∧ ∃ t', SpecRun spec t as bs t' ∧ R s' t' := by
  intro as
  induction as with
  | nil => exact fun s t hR => ⟨[], s, rfl, t, .nil t, hR⟩
  | cons a as ih =>
    intro s t hR
    obtain ⟨b, s', himpl, t', hspec, hR'⟩ := hstep s t a hR
    obtain ⟨bs, s'', hrun, t'', hspecs, hR''⟩ := ih s' t' hR'
    refine ⟨b :: bs, s'', ?_, t'', .cons hspec hspecs, hR''⟩
    simp [runImpl, himpl, hrun]

/-- A property of single answers that the specification guarantees, for calls of a given kind,
    from states satisfying an invariant it keeps, holds of every answer of a run of such calls. -/
theorem SpecRun.forall_answers {spec : τ → α → β → τ → Prop} (I : τ → Prop) (Q : α → Prop)
    (P : β → Prop) (hinv : ∀ t a b t', Q a → I t → spec t a b t' → I t' ∧ P b) :
    ∀ {t : τ} {as : List α} {bs : List β} {t' : τ}, SpecRun spec t as bs t' →
      (∀ a ∈ as, Q a) → I t → ∀ b ∈ bs, P b := by
  intro t as bs t' hrun
  induction hrun with
  | nil => intro _ _ b hb; cases hb
  | cons hs _ ih =>
    intro hQ hI b hb
    obtain ⟨hI', hP⟩ := hinv _ _ _ _ (hQ _ List.mem_cons_self) hI hs
    rcases List.mem_cons.mp hb with rfl | hb
    · exact hP
    · exact ih (fun a ha => hQ a (List.mem_cons_of_mem _ ha)) hI' b hb

/-- A specification that is deterministic from the states of an invariant it keeps fixes the
    answers and the final state of every run from such a state. -/
theorem SpecRun.deterministic {spec : τ → α → β → τ → Prop} (I : τ → Prop)
    (hinv : ∀ t a b t', I t → spec t a b t' → I t')
    (hdet : ∀ t a b₁ t₁ b₂ t₂, I t → spec t a b₁ t₁ → spec t a b₂ t₂ → b₁ = b₂ ∧ t₁ = t₂) :
    ∀ {t : τ} {as : List α} {bs₁ bs₂ : List β} {t₁ t₂ : τ}, SpecRun spec t as bs₁ t₁ →
      SpecRun spec t as bs₂ t₂ → I t → bs₁ = bs₂ ∧ t₁ = t₂ := by
  intro t as bs₁ bs₂ t₁ t₂ h₁
  induction h₁ generalizing bs₂ t₂ with
  | nil => intro h₂ _; cases h₂; exact ⟨rfl, rfl⟩
  | cons hs _ ih =>
    intro h₂ hI
    cases h₂ with
    | cons hs' hrun' =>
      obtain ⟨rfl, rfl⟩ := hdet _ _ _ _ _ _ hI hs hs'
      obtain ⟨rfl, rfl⟩ := ih hrun' (hinv _ _ _ _ hI hs)
      exact ⟨rfl, rfl⟩

/-! ## Lockstep runs of two implementations -/

section Lockstep

variable {γ β' γ' : Type}

/-- Two outcomes agree: both succeed, with values related by `A`, or both fail. -/
def OutcomesAgree (A : β → γ → Prop) : Except ε β → Except ε γ → Prop
  | .ok b, .ok c => A b c
  | .error _, .error _ => True
  | _, _ => False

@[simp]
theorem outcomesAgree_ok {A : β → γ → Prop} (b : β) (c : γ) :
    OutcomesAgree (ε := ε) A (.ok b) (.ok c) ↔ A b c := Iff.rfl

@[simp]
theorem outcomesAgree_error {A : β → γ → Prop} (e₁ e₂ : ε) :
    OutcomesAgree A (.error e₁ : Except ε β) (.error e₂ : Except ε γ) := trivial

/-- Agreement is carried through a bind by continuations that agree on related values. -/
theorem OutcomesAgree.bind {A : β → γ → Prop} {B : β' → γ' → Prop} {x : Except ε β}
    {y : Except ε γ} {f : β → Except ε β'} {g : γ → Except ε γ'} (h : OutcomesAgree A x y)
    (hfg : ∀ b c, A b c → OutcomesAgree B (f b) (g c)) : OutcomesAgree B (x >>= f) (y >>= g) := by
  cases x <;> cases y
  case ok.ok b c => exact hfg b c h
  case error.error => trivial
  -- one side fails and the other does not: `h` is `False`
  all_goals exact False.elim h

/-- Two runs agree step by step: both succeed, with answers related by `A` and final states
    related by `R`, or both fail. -/
def RunsAgree (A : β → γ → Prop) (R : σ → τ → Prop) :
    Except ε (List β × σ) → Except ε (List γ × τ) → Prop :=
  OutcomesAgree fun p q => List.Forall₂ A p.1 q.1 ∧ R p.2 q.2

/-- Lockstep simulation: when from related states every call either succeeds in both
    implementations, with related answers and related states, or fails in both, then the runs
    of every list of calls from related states agree. -/
theorem lockstep {impl₁ : σ → α → Except ε (β × σ)} {impl₂ : τ → α → Except ε (γ × τ)}
    (R : σ → τ → Prop) (A : β → γ → Prop)
    (hstep : ∀ s t a, R s t →
      OutcomesAgree (fun p q => A p.1 q.1 ∧ R p.2 q.2) (impl₁ s a) (impl₂ t a)) :
    ∀ (as : List α) (s : σ) (t : τ), R s t →
      RunsAgree A R (runImpl impl₁ s as) (runImpl impl₂ t as) := by
  intro as
  induction as with
  | nil => exact fun s t hR => ⟨.nil, hR⟩
  | cons a as ih =>
    intro s t hR
    -- the call, then the rest of the run from the related states it leads to
    refine (hstep s t a hR).bind fun ⟨b, s'⟩ ⟨c, t'⟩ ⟨hA, hR'⟩ => ?_
    exact (ih s' t' hR').bind fun ⟨bs, s''⟩ ⟨cs, t''⟩ ⟨hAs, hR''⟩ => ⟨.cons hA hAs, hR''⟩

end Lockstep

/-! ## Runs of guarded calls -/

section Guarded

variable {κ : Type}

/-- Each call meets the guard `G` at the ghost value `k` reached so far; `next` moves the
    ghost value along a call (the size of a structure that calls can grow, say). -/
def Guarded (G : κ → α → Prop) (next : κ → α → κ) : κ → List α → Prop
  | _, [] => True
  | k, a :: as => G k a ∧ Guarded G next (next k a) as

/-- When every guarded call from a state of the invariant `I` succeeds and keeps `I` at the
    moved ghost value, every run of guarded calls succeeds. -/
theorem runImpl_ok_of_guarded {impl : σ → α → Except ε (β × σ)} (I : κ → σ → Prop)
    {G : κ → α → Prop} {next : κ → α → κ}
    (hstep : ∀ k s a, I k s → G k a → ∃ b s', impl s a = .ok (b, s') ∧ I (next k a) s') :
    ∀ (as : List α) (k : κ) (s : σ), I k s → Guarded G next k as →
      ∃ bs s', runImpl impl s as = .ok (bs, s') := by
  intro as
  induction as with
  | nil => exact fun _ s _ _ => ⟨[], s, rfl⟩
  | cons a as ih =>
    rintro k s hI ⟨hG, hrest⟩
    obtain ⟨b, s', h₁, hI'⟩ := hstep k s a hI hG
    obtain ⟨bs, s'', h₂⟩ := ih (next k a) s' hI' hrest
    exact ⟨b :: bs, s'', by simp [runImpl, h₁, h₂]⟩

/-- Refinement of a step function along guarded calls: when from related states every call that
    meets the guard at the specification's state answers as the specification does and leads to
    related states, every run of guarded calls answers as the specification's run. -/
theorem refines_guarded {impl : σ → α → Except ε (β × σ)} {spec : τ → α → β × τ}
    (R : σ → τ → Prop) {G : τ → α → Prop}
    (hstep : ∀ s t a, R s t → G t a → ∃ s', impl s a = .ok ((spec t a).1, s') ∧ R s' (spec t a).2) :
    ∀ (as : List α) (s : σ) (t : τ), R s t → Guarded G (fun t a => (spec t a).2) t as →
      ∃ s', runImpl impl s as = .ok ((runFn spec t as).1, s') ∧ R s' (runFn spec t as).2 := by
  intro as
  induction as with
  | nil => exact fun s t hR _ => ⟨s, rfl, hR⟩
  | cons a as ih =>
    rintro s t hR ⟨hG, hrest⟩
    obtain ⟨s', h₁, hR'⟩ := hstep s t a hR hG
    obtain ⟨s'', h₂, hR''⟩ := ih s' _ hR' hrest
    exact ⟨s'', by simp [runImpl, runFn, h₁, h₂], hR''⟩

end Guarded

/-! ## Invariants of runs of a step function -/

section Allowed

/-- Each call meets the guard `G` in the state it is made in. -/
def Allowed (step : σ → α → σ) (G : σ → α → Prop) : σ → List α → Prop
  | _, [] => True
  | s, a :: as => G s a ∧ Allowed step G (step s a) as

instance instDecidableAllowed {step : σ → α → σ} {G : σ → α → Prop} [∀ s a, Decidable (G s a)] :
    (s : σ) → (as : List α) → Decidable (Allowed step G s as)
  | _, [] => isTrue trivial
  | s, a :: as => @instDecidableAnd _ _ _ (instDecidableAllowed (step s a) as)

/-- An invariant that every allowed call keeps holds after every allowed run. -/
theorem foldl_inv {step : σ → α → σ} {G : σ → α → Prop} (I : σ → Prop)
    (hstep : ∀ s a, I s → G s a → I (step s a)) :
    ∀ (as : List α) (s : σ), I s → Allowed step G s as → I (as.foldl step s) := by
  intro as
  induction as with
  | nil => exact fun s hI _ => hI
  | cons a as ih =>
    rintro s hI ⟨hG, hrest⟩
    exact ih (step s a) (hstep s a hI hG) hrest

/-- Two step functions that keep a relation along every call meeting the guard `G` keep it along
    every run of such calls. -/
theorem foldl_lockstep {step₁ : σ → α → σ} {step₂ : τ → α → τ} (G : α → Prop)
    (R : σ → τ → Prop) (hstep : ∀ s t a, R s t → G a → R (step₁ s a) (step₂ t a)) :
    ∀ (as : List α) (s : σ) (t : τ), R s t → (∀ a ∈ as, G a) →
      R (as.foldl step₁ s) (as.foldl step₂ t) := by
  intro as
  induction as with
  | nil => exact fun s t hR _ => hR
  | cons a as ih =>
    intro s t hR hG
    exact ih _ _ (hstep s t a hR (hG a List.mem_cons_self))
      (fun b hb => hG b (List.mem_cons_of_mem a hb))

end Allowed

end Simulation
