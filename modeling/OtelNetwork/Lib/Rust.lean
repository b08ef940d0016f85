import Mathlib

/-!
# Rust semantics used by the models

A panic (`unwrap` of `None`, an index past the end of a slice) is the error side of
`Except String`; its text is Rust's panic message. Loops of the source are folds, and a loop in
a failure monad whose body cannot fail on the data at hand is the pure fold (`foldlM_except_of_ok`,
`foldlM_option_of_some`). The `Option`-seeded minimum loop that the sources write out by hand
(`minStep`) computes `List.min?`.
-/

namespace RustSem

/-- `Option::unwrap`: a panic on `None`. Panics are the error side of `Except String`. -/
def unwrap {α : Type} : Option α → Except String α
  | some a => .ok a
  | none => .error "called Option::unwrap() on a None value"

/-- Slice indexing `xs[i]`, which panics past the end. -/
def index {α : Type} (xs : List α) (i : Nat) : Except String α :=
  match xs[i]? with
  | some a => .ok a
  | none => .error "index out of bounds"

/-- `u64::saturating_sub`. -/
def saturatingSub (a b : UInt64) : UInt64 := if b ≤ a then a - b else 0

/-- `u64::saturating_add`. -/
def saturatingAdd (a b : UInt64) : UInt64 :=
  if a.toNat + b.toNat < 2 ^ 64 then a + b else UInt64.ofNat (2 ^ 64 - 1)

/-! ## The `Except` monad -/

section ExceptMonad

variable {α β ε : Type}

@[simp]
theorem ok_bind (a : α) (f : α → Except ε β) : (Except.ok a >>= f) = f a := rfl

@[simp]
theorem error_bind (e : ε) (f : α → Except ε β) : (Except.error e >>= f) = .error e := rfl

@[simp]
theorem pure_eq_ok (a : α) : (pure a : Except ε α) = .ok a := rfl

/-- A bound computation succeeds exactly when its first part does and the rest succeeds on its
    value. -/
theorem bind_eq_ok {x : Except ε α} {f : α → Except ε β} {b : β} :
    (x >>= f) = .ok b ↔ ∃ a, x = .ok a ∧ f a = .ok b := by
  cases x with
  | error e => simp
  | ok a => simp

/-- Mapping the value of a computation keeps its error. -/
theorem map_eq_error {x : Except ε α} {f : α → β} {e : ε} : x.map f = .error e ↔ x = .error e := by
  cases x <;> simp [Except.map]

end ExceptMonad

/-! ## Panicking primitives -/

@[simp]
theorem unwrap_some {α : Type} (a : α) : unwrap (some a) = .ok a := rfl

theorem index_of_lt {α : Type} {xs : List α} {i : Nat} (h : i < xs.length) :
    index xs i = .ok xs[i] := by
  simp [index, List.getElem?_eq_getElem h]

/-- A loop in `Except` whose body succeeds on every element is the pure loop. -/
theorem foldlM_except_of_ok {α β ε : Type} {f : β → α → Except ε β} (g : β → α → β)
    (l : List α) (hfg : ∀ a ∈ l, ∀ b, f b a = .ok (g b a)) (init : β) :
    l.foldlM f init = .ok (l.foldl g init) := by
  induction l generalizing init with
  | nil => rfl
  | cons a l ih =>
    simp only [List.foldlM_cons, List.foldl_cons, hfg a List.mem_cons_self]
    exact ih (fun x hx => hfg x (List.mem_cons_of_mem a hx)) _

/-- A loop in `Except` whose body, from a state with property `P`, succeeds with a state with
    property `P`, succeeds with a final state with property `P`. -/
theorem foldlM_except_inv {α β ε : Type} {f : β → α → Except ε β} (P : β → Prop) (l : List α)
    (hstep : ∀ b a, a ∈ l → P b → ∃ b', f b a = .ok b' ∧ P b') {init : β} (hinit : P init) :
    ∃ r, l.foldlM f init = .ok r ∧ P r := by
  induction l generalizing init with
  | nil => exact ⟨init, rfl, hinit⟩
  | cons a l ih =>
    obtain ⟨b', hb', hP⟩ := hstep init a List.mem_cons_self hinit
    obtain ⟨r, hr, hPr⟩ := ih (fun b x hx hb => hstep b x (List.mem_cons_of_mem a hx) hb) hP
    refine ⟨r, ?_, hPr⟩
    rw [List.foldlM_cons, hb', ok_bind]
    exact hr

/-- A loop in `Except` whose body, from a state with property `P` of the elements consumed so far,
    succeeds on the next element with a state with property `P` of one more, succeeds on the whole
    list. `P` may depend on what is consumed, and the step may use what is left. -/
theorem foldlM_except_inv_prefix {α β ε : Type} {f : β → α → Except ε β} (P : List α → β → Prop)
    (l : List α) (hstep : ∀ pre a post b, pre ++ a :: post = l → P pre b →
      ∃ b', f b a = .ok b' ∧ P (pre ++ [a]) b') {init : β} (hinit : P [] init) :
    ∃ r, l.foldlM f init = .ok r ∧ P l r := by
  -- induction on what is left, with the consumed prefix generalized
  suffices h : ∀ post pre b, pre ++ post = l → P pre b → ∃ r, post.foldlM f b = .ok r ∧ P l r from
    h l [] init rfl hinit
  intro post
  induction post with
  | nil =>
    intro pre b hl hb
    rw [List.append_nil] at hl
    exact ⟨b, rfl, hl ▸ hb⟩
  | cons a post ih =>
    intro pre b hl hb
    obtain ⟨b', hb', hP⟩ := hstep pre a post b hl hb
    obtain ⟨r, hr, hPr⟩ := ih (pre ++ [a]) b' (by rw [List.append_assoc]; exact hl) hP
    refine ⟨r, ?_, hPr⟩
    rw [List.foldlM_cons, hb', ok_bind]
    exact hr

/-- A loop in `Except` whose body keeps `P` whenever it succeeds ends, if it succeeds, with a state
    with property `P`. -/
theorem foldlM_except_inv_of_ok {α β ε : Type} {f : β → α → Except ε β} (P : β → Prop) (l : List α)
    (hstep : ∀ b a b', a ∈ l → P b → f b a = .ok b' → P b') {init r : β} (hinit : P init)
    (h : l.foldlM f init = .ok r) : P r := by
  induction l generalizing init with
  | nil =>
    cases h
    exact hinit
  | cons a l ih =>
    rw [List.foldlM_cons, bind_eq_ok] at h
    obtain ⟨b', hb', hrest⟩ := h
    exact ih (fun b x b'' hx hb => hstep b x b'' (List.mem_cons_of_mem a hx) hb)
      (hstep init a b' List.mem_cons_self hinit hb') hrest

/-- A map in `Except` whose function computes `g` wherever it succeeds computes, if it succeeds,
    the pure map by `g`. -/
theorem mapM_except_eq_map {α β ε : Type} {f : α → Except ε β} (g : α → β)
    (hfg : ∀ a b, f a = .ok b → b = g a) :
    ∀ {l : List α} {bs : List β}, l.mapM f = .ok bs → bs = l.map g
  | [], _, h => by
    cases h
    rfl
  | a :: l, bs, h => by
    rw [List.mapM_cons, bind_eq_ok] at h
    obtain ⟨b, hb, h⟩ := h
    obtain ⟨bs', hbs, h⟩ := bind_eq_ok.mp h
    cases h
    rw [List.map_cons, hfg a b hb, mapM_except_eq_map g hfg hbs]

/-- A loop in `Option` whose body succeeds on every element is the pure loop. -/
theorem foldlM_option_of_some {α β : Type} {f : β → α → Option β} (g : β → α → β)
    (l : List α) (hfg : ∀ a ∈ l, ∀ b, f b a = some (g b a)) (init : β) :
    l.foldlM f init = some (l.foldl g init) := by
  induction l generalizing init with
  | nil => rfl
  | cons a l ih =>
    simp only [List.foldlM_cons, List.foldl_cons, hfg a List.mem_cons_self, Option.bind_eq_bind,
      Option.bind_some]
    exact ih (fun x hx => hfg x (List.mem_cons_of_mem a hx)) _

/-- A loop in `Option` whose body fails on some element, whatever the state, fails (the `?` of
    the body returns early). -/
theorem foldlM_option_eq_none {α β : Type} {f : β → α → Option β} (l : List α)
    (h : ∃ a ∈ l, ∀ b, f b a = none) (init : β) : l.foldlM f init = none := by
  induction l generalizing init with
  | nil => obtain ⟨a, ha, -⟩ := h; cases ha
  | cons a l ih =>
    obtain ⟨x, hx, hnone⟩ := h
    rw [List.foldlM_cons]
    rcases List.mem_cons.mp hx with rfl | hx
    · simp [hnone]
    · rcases f init a with _ | b
      · rfl
      · exact ih ⟨x, hx, hnone⟩ b

/-- One step of the `Option`-seeded minimum loop `m = Some(match m { Some(m) => m.min(x),
    None => x })`. -/
def minStep {α : Type} [Min α] (acc : Option α) (x : α) : Option α :=
  some (match acc with
    | some m => min m x
    | none => x)

theorem foldl_minStep_some {α : Type} [Min α] (l : List α) (a : α) :
    l.foldl minStep (some a) = some (l.foldl min a) := by
  induction l generalizing a with
  | nil => rfl
  | cons x l ih => exact ih (min a x)

/-- The minimum loop computes `List.min?`. -/
theorem foldl_minStep_none {α : Type} [Min α] (l : List α) : l.foldl minStep none = l.min? := by
  cases l with
  | nil => rfl
  | cons x l => exact foldl_minStep_some l x

/-! ## Casts from floats -/

/-- `x as u32` for an `f64` holding the real `x`: truncation toward zero, saturating at `0` and
    at `u32::MAX`. -/
noncomputable def asU32 (x : ℝ) : UInt32 := UInt32.ofNat (min ⌊x⌋₊ (2 ^ 32 - 1))

theorem toNat_asU32 (x : ℝ) : (asU32 x).toNat = min ⌊x⌋₊ (2 ^ 32 - 1) := by
  rw [asU32, UInt32.toNat_ofNat', Nat.mod_eq_of_lt (by omega)]

end RustSem
