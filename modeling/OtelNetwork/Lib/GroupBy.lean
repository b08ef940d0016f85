import Mathlib.Algebra.BigOperators.Group.Finset.Piecewise
import Mathlib.Data.List.Dedup

/-!
# Group-by sums into finite maps

Items are folded one at a time into a map from keys to values (`accumulate`): an item's key gets
a fresh value when it is absent, and the item is added to it. Over a commutative monoid, with the
item's value added to a zero start, the fold gives the group-by sum of the items (`groupSum`):
each key of an item, with the sum of its items' values, whatever their order.

A finite map is read through a listing (`IsListing`), each key once with its value, in an order
nobody fixes. Grouping a group-by sum again, through any listing of it, by a coarser key is
grouping the items by the composed key (`groupSum_of_listing`): a rollup may be computed from a
finer rollup instead of from the items.
-/

namespace GroupBy

open Finset

variable {E R S T : Type}

/-- `l` lists the finite map `M`: each key once, with its value. -/
structure IsListing (M : R → Option T) (l : List (R × T)) : Prop where
  nodup : (l.map Prod.fst).Nodup
  mem : ∀ r t, (r, t) ∈ l ↔ M r = some t

/-- `l` walks the keys of `M`, each once. -/
def Walks (M : R → Option T) (l : List R) : Prop :=
  l.Nodup ∧ ∀ r, r ∈ l ↔ (M r).isSome

/-- The entries of `M` whose keys `l` walks, in its order. -/
def entries (M : R → Option T) (l : List R) : List (R × T) :=
  l.filterMap fun r => (M r).map (r, ·)

theorem mem_entries {M : R → Option T} {l : List R} {r : R} {t : T} :
    (r, t) ∈ entries M l ↔ r ∈ l ∧ M r = some t := by
  simp only [entries, List.mem_filterMap, Option.map_eq_some_iff, Prod.mk.injEq]
  constructor
  · rintro ⟨r', hr', t', ht', rfl, rfl⟩
    exact ⟨hr', ht'⟩
  · rintro ⟨hr, ht⟩
    exact ⟨r, hr, t, ht, rfl, rfl⟩

/-- A walk of the keys of a map lists its entries. -/
theorem Walks.isListing {M : R → Option T} {l : List R} (hl : Walks M l) :
    IsListing M (entries M l) := by
  obtain ⟨hnodup, hkeys⟩ := hl
  -- every walked key has an entry, so the entries' keys are the walk
  have hfst : ∀ l' : List R, (∀ r ∈ l', (M r).isSome) → (entries M l').map Prod.fst = l' := by
    intro l' hsome
    induction l' with
    | nil => rfl
    | cons r l' ih =>
      obtain ⟨t, ht⟩ := Option.isSome_iff_exists.mp (hsome r List.mem_cons_self)
      have hrest := ih fun r' hr' => hsome r' (List.mem_cons_of_mem r hr')
      simp only [entries, List.filterMap_cons, ht, Option.map_some] at hrest ⊢
      rw [List.map_cons, hrest]
  refine ⟨by rw [hfst l fun r hr => (hkeys r).mp hr]; exact hnodup, fun r t => ?_⟩
  rw [mem_entries]
  constructor
  · exact And.right
  · intro ht
    exact ⟨(hkeys r).mpr (by simp [ht]), ht⟩

variable [DecidableEq R] [DecidableEq S]

/-- One item folded into a map: its key's value, or `init` when the key is absent, with the item
    added by `add`. -/
def accumulate (f : E → R) (add : T → E → T) (init : T) (dest : R → Option T) (x : E) :
    R → Option T :=
  Function.update dest (f x) (some (add ((dest (f x)).getD init) x))

section Sum

variable [AddCommMonoid T] (f : E → R) (v : E → T)

/-- The sum of the values of the items of key `r`. -/
def fiber (xs : List E) (r : R) : T := ((xs.filter fun x => f x = r).map v).sum

/-- The group-by sum of `xs`: the keys of its items, each with the sum of its items' values. -/
def groupSum (xs : List E) (r : R) : Option T :=
  if xs.any fun x => f x = r then some (fiber f v xs r) else none

theorem fiber_cons (x : E) (xs : List E) (r : R) :
    fiber f v (x :: xs) r = (if f x = r then v x else 0) + fiber f v xs r := by
  by_cases h : f x = r <;> simp [fiber, h]

theorem fiber_eq_zero {xs : List E} {r : R} (h : (xs.any fun x => f x = r) = false) :
    fiber f v xs r = 0 := by
  rw [fiber, List.filter_eq_nil_iff.mpr (by simpa using h)]
  rfl

theorem exists_mem_of_fiber_ne_zero {xs : List E} {r : R} (h : fiber f v xs r ≠ 0) :
    ∃ x ∈ xs, f x = r := by
  by_contra hnone
  exact h (fiber_eq_zero f v (by simpa using hnone))

@[simp] theorem fiber_nil (r : R) : fiber f v [] r = 0 := rfl

theorem fiber_append (xs ys : List E) (r : R) :
    fiber f v (xs ++ ys) r = fiber f v xs r + fiber f v ys r := by
  simp [fiber, List.filter_append]

theorem fiber_congr {v' : E → T} {xs : List E} (h : ∀ x ∈ xs, v x = v' x) (r : R) :
    fiber f v xs r = fiber f v' xs r := by
  rw [fiber, fiber, List.map_congr_left fun x hx => h x (List.mem_filter.mp hx).1]

/-- Relabelling the keys injectively keeps each fiber. -/
theorem fiber_comp_of_injective {g : R → S} (hg : Function.Injective g) (xs : List E) (r : R) :
    fiber (g ∘ f) v xs (g r) = fiber f v xs r := by
  simp [fiber, hg.eq_iff]

/-- A homomorphism of the values maps each fiber. -/
theorem map_fiber {U : Type} [AddCommMonoid U] (φ : T →+ U) (xs : List E) (r : R) :
    φ (fiber f v xs r) = fiber f (fun x => φ (v x)) xs r := by
  simp [fiber, map_list_sum, List.map_map, Function.comp_def]

/-- Folded from `dest`, the items add to each of their keys the sum of their values there. -/
theorem foldl_accumulate (xs : List E) (dest : R → Option T) (r : R) :
    xs.foldl (accumulate f (fun t x => t + v x) 0) dest r =
      if xs.any (fun x => f x = r) then some ((dest r).getD 0 + fiber f v xs r) else dest r := by
  induction xs generalizing dest with
  | nil => simp
  | cons x xs ih =>
    rw [List.foldl_cons, ih]
    by_cases hx : f x = r
    · -- the item's own key: it is present from now on, with the item's value added
      subst hx
      cases hany : xs.any fun y => f y = f x
      · simp [accumulate, fiber_cons, fiber_eq_zero f v hany]
      · simp [accumulate, fiber_cons, add_assoc]
    · simp [accumulate, Function.update_of_ne (Ne.symm hx), fiber_cons, hx]

/-- Folded from the empty map, the items give their group-by sum. -/
theorem foldl_accumulate_empty (xs : List E) :
    xs.foldl (accumulate f (fun t x => t + v x) 0) (fun _ => none) = groupSum f v xs := by
  funext r
  rw [foldl_accumulate]
  simp [groupSum]

/-- Summing the fibers of `f` over the keys that `g` sends to `s` is the fiber of `g ∘ f`. -/
theorem sum_fiber_comp (g : R → S) (xs : List E) (K : Finset R) (hK : ∀ x ∈ xs, f x ∈ K)
    (s : S) : ∑ r ∈ K with g r = s, fiber f v xs r = fiber (g ∘ f) v xs s := by
  induction xs with
  | nil => simp [fiber]
  | cons x xs ih =>
    have hx : f x ∈ K := hK x List.mem_cons_self
    simp only [fiber_cons, sum_add_distrib, ih (fun y hy => hK y (List.mem_cons_of_mem x hy))]
    congr 1
    -- the item's value lands on its own key alone
    rw [sum_ite_eq]
    simp [hx]

omit [AddCommMonoid T] in
/-- Over a listing, the fiber of values that depend on the key alone is a sum over the listed
    keys. -/
theorem IsListing.fiber_keys {M : R → Option T} {l : List (R × T)} (hl : IsListing M l)
    {U : Type} [AddCommMonoid U] (g : R → S) (u : R → U) (s : S) :
    fiber (fun p : R × T => g p.1) (fun p => u p.1) l s =
      ∑ r ∈ (l.map Prod.fst).toFinset with g r = s, u r := by
  have hkeys : {r ∈ (l.map Prod.fst).toFinset | g r = s} =
      ((l.map Prod.fst).filter fun r => g r = s).toFinset := by
    ext r
    simp
  rw [hkeys, List.sum_toFinset _ (hl.nodup.filter _), fiber, List.filter_map, List.map_map]
  rfl

/-- A listed map is the group-by sum of its listing by key. -/
theorem IsListing.groupSum_fst {M : R → Option T} {l : List (R × T)} (hl : IsListing M l) :
    groupSum Prod.fst Prod.snd l = M := by
  funext r
  have hval : ∀ p ∈ l, p.2 = (M p.1).getD 0 := fun p hp => by
    rw [(hl.mem p.1 p.2).mp hp]
    rfl
  have hsum : fiber Prod.fst Prod.snd l r =
      ∑ r' ∈ (l.map Prod.fst).toFinset with r' = r, (M r').getD 0 :=
    (fiber_congr _ _ hval r).trans (hl.fiber_keys id (fun r' => (M r').getD 0) r)
  rw [groupSum, hsum]
  cases hr : M r with
  | none =>
    have hnot : ¬ ∃ p ∈ l, p.1 = r := fun ⟨p, hp, hpr⟩ => by
      subst hpr
      simp [(hl.mem _ _).mp hp] at hr
    simpa using hnot
  | some t =>
    have hmem : r ∈ l.map Prod.fst := List.mem_map.mpr ⟨(r, t), (hl.mem r t).mpr hr, rfl⟩
    have hany : ∃ p ∈ l, p.1 = r := ⟨(r, t), (hl.mem r t).mpr hr, rfl⟩
    simp [hany, Finset.filter_eq', List.mem_toFinset.mpr hmem, hr]

/-- Every listing of a group-by sum is a permutation of the one in the order of the items' first
    keys. -/
theorem IsListing.perm_groupSum (xs : List E) {l : List (R × T)}
    (hl : IsListing (groupSum f v xs) l) :
    l.Perm ((xs.map f).dedup.map fun r => (r, fiber f v xs r)) := by
  have hnodup : ((xs.map f).dedup.map fun r => (r, fiber f v xs r)).Nodup :=
    (List.nodup_dedup _).map fun _ _ h => (Prod.mk.inj h).1
  refine (List.perm_ext_iff_of_nodup (List.Nodup.of_map _ hl.nodup) hnodup).mpr ?_
  rintro ⟨r, t⟩
  rw [hl.mem, groupSum]
  simp only [List.any_eq_true, decide_eq_true_eq, List.mem_map, List.mem_dedup, Prod.mk.injEq]
  constructor
  · intro h
    split_ifs at h with hr
    cases h
    obtain ⟨x, hx, rfl⟩ := hr
    exact ⟨f x, ⟨x, hx, rfl⟩, rfl, rfl⟩
  · rintro ⟨_, ⟨x, hx, rfl⟩, rfl, rfl⟩
    rw [if_pos ⟨x, hx, rfl⟩]

/-- Grouping a group-by sum again, through any listing of it, by a coarser key `g` is grouping
    the items by `g ∘ f`. -/
theorem groupSum_of_listing (g : R → S) (xs : List E) {l : List (R × T)}
    (hl : IsListing (groupSum f v xs) l) :
    groupSum (fun p : R × T => g p.1) Prod.snd l = groupSum (g ∘ f) v xs := by
  have hperm := hl.perm_groupSum f v xs
  funext s
  -- the keys: a listed key that `g` sends to `s` is the key of an item that `g ∘ f` sends there
  have hany : (l.any fun p => g p.1 = s) = (xs.any fun x => (g ∘ f) x = s) := by
    rw [Bool.eq_iff_iff, List.any_eq_true, List.any_eq_true]
    simp only [hperm.mem_iff, List.mem_map, List.mem_dedup, Function.comp_apply,
      decide_eq_true_eq]
    constructor
    · rintro ⟨_, ⟨_, ⟨x, hx, rfl⟩, rfl⟩, hs⟩
      exact ⟨x, hx, hs⟩
    · rintro ⟨x, hx, hs⟩
      exact ⟨_, ⟨f x, ⟨x, hx, rfl⟩, rfl⟩, hs⟩
  -- the sums: the listed sums of the keys that `g` sends to `s`
  have hkeys : {r ∈ (xs.map f).toFinset | g r = s} =
      ((xs.map f).dedup.filter fun r => g r = s).toFinset := by
    ext r
    simp
  have hsum : fiber (fun p : R × T => g p.1) Prod.snd l s =
      ∑ r ∈ (xs.map f).toFinset with g r = s, fiber f v xs r := by
    rw [hkeys, List.sum_toFinset _ ((List.nodup_dedup _).filter _), fiber,
      ((hperm.filter _).map _).sum_eq, List.filter_map, List.map_map]
    rfl
  rw [groupSum, groupSum, hany, hsum,
    sum_fiber_comp f v g xs _ (fun x hx => List.mem_toFinset.mpr (List.mem_map_of_mem hx))]

end Sum

end GroupBy
