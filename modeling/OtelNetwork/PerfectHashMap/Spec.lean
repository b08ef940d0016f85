import OtelNetwork.PerfectHashMap.Basic
import Mathlib.Data.Fintype.Card
import Mathlib.Data.Finset.Card

/-!
# What a perfect-hash map is for

The abstract map is a partial map `M` from keys to values (finite, since keys are `u32`), and the
hash function only decides when an insertion is refused: inserting `k` fails with `Collision k'`
exactly when another key `k'` of the same hash is in `M`. `AbsStep` gives the answer and the
successor map of each call; `len` answers the number of keys of `M`, and `iter` a listing of `M`
with each key once, in increasing hash order.

A map built by these calls from the empty one holds at most one key per hash value
(`HashInjOn`), and from such a map the specification is deterministic (`AbsStep.deterministic`),
so it fixes the answer to every call.
-/

namespace OtelNetwork.PerfectHashMap

variable {V : Type}

/-- The abstract map. -/
abbrev AbsMap (V : Type) := Key → Option V

/-- The number of keys of the map. -/
noncomputable def AbsMap.card (M : AbsMap V) : Nat :=
  (Finset.univ.filter fun k => (M k).isSome).card

/-- Another key `k'` of the same hash as `k` is in `M`. -/
def Collides (hash : Key → UInt32) (M : AbsMap V) (k k' : Key) : Prop :=
  k' ≠ k ∧ hash k' = hash k ∧ (M k').isSome

/-- `l` lists `M`: its pairs are those of `M`, each key once, in increasing hash order. -/
structure Listing (hash : Key → UInt32) (M : AbsMap V) (l : List (Key × V)) : Prop where
  mem : ∀ k v, (k, v) ∈ l ↔ M k = some v
  nodup : (l.map Prod.fst).Nodup
  sorted : l.Pairwise fun a b => hash a.1 < hash b.1

/-- The abstract semantics of one call. -/
inductive AbsStep (hash : Key → UInt32) : AbsMap V → Op V → Out V → AbsMap V → Prop where
  | insertCollision {M : AbsMap V} {k k' : Key} {v : V} : Collides hash M k k' →
      AbsStep hash M (.insert k v) (.insert (.error ⟨k'⟩)) M
  | insert {M : AbsMap V} {k : Key} {v : V} : (∀ k', ¬ Collides hash M k k') →
      AbsStep hash M (.insert k v) (.insert (.ok (M k))) (Function.update M k (some v))
  | tryInsertCollision {M : AbsMap V} {k k' : Key} {v : V} : Collides hash M k k' →
      AbsStep hash M (.tryInsert k v) (.tryInsert (.error (.collision v k'))) M
  | tryInsertOccupied {M : AbsMap V} {k : Key} {v old : V} : (∀ k', ¬ Collides hash M k k') →
      M k = some old → AbsStep hash M (.tryInsert k v) (.tryInsert (.error (.occupied v old))) M
  | tryInsert {M : AbsMap V} {k : Key} {v : V} : (∀ k', ¬ Collides hash M k k') → M k = none →
      AbsStep hash M (.tryInsert k v) (.tryInsert (.ok v)) (Function.update M k (some v))
  | remove {M : AbsMap V} {k : Key} :
      AbsStep hash M (.remove k) (.remove (M k)) (Function.update M k none)
  | get {M : AbsMap V} {k : Key} : AbsStep hash M (.get k) (.get (M k)) M
  | getMut {M : AbsMap V} {k : Key} {f : V → V} :
      AbsStep hash M (.getMut k f) (.getMut (M k)) (Function.update M k ((M k).map f))
  | clear {M : AbsMap V} : AbsStep hash M .clear .clear fun _ => none
  | len {M : AbsMap V} : AbsStep hash M .len (.len M.card) M
  | iter {M : AbsMap V} {l : List (Key × V)} : Listing hash M l → AbsStep hash M .iter (.iter l) M

/-- At most one key of `M` per hash value. -/
def HashInjOn (hash : Key → UInt32) (M : AbsMap V) : Prop :=
  ∀ k₁ k₂, (M k₁).isSome → (M k₂).isSome → hash k₁ = hash k₂ → k₁ = k₂

/-- The key a call names, if any. -/
def Op.key? : Op V → Option Key
  | .insert k _ | .tryInsert k _ | .remove k | .get k | .getMut k _ => some k
  | .clear | .len | .iter => none

/-- The answer is a `Collision` error of `insert` or `try_insert`. -/
def Out.isCollision : Out V → Bool
  | .insert (.error _) => true
  | .tryInsert (.error (.collision _ _)) => true
  | _ => false

section Abstract

variable {hash : Key → UInt32} {M M₁ M₂ : AbsMap V} {a : Op V} {b b₁ b₂ : Out V}

theorem hashInjOn_empty : HashInjOn hash (fun _ => (none : Option V)) := by
  intro k₁ k₂ h₁
  cases h₁

/-- With one key per hash, the colliding key is unique. -/
theorem Collides.eq_of_hashInjOn (hinj : HashInjOn hash M) {k k₁ k₂ : Key}
    (h₁ : Collides hash M k k₁) (h₂ : Collides hash M k k₂) : k₁ = k₂ :=
  hinj k₁ k₂ h₁.2.2 h₂.2.2 (h₁.2.1.trans h₂.2.1.symm)

/-- A key of `k`'s hash that does not collide with `k` is absent. -/
theorem eq_none_of_not_collides {k k' : Key} (hnc : ¬ Collides hash M k k') (hne : k' ≠ k)
    (hh : hash k' = hash k) : M k' = none := by
  rw [← Option.not_isSome_iff_eq_none]
  exact fun hsome => hnc ⟨hne, hh, hsome⟩

/-- A listing of a map is unique: it is strictly sorted by hash and has the map's pairs. -/
theorem Listing.eq {l₁ l₂ : List (Key × V)} (h₁ : Listing hash M l₁) (h₂ : Listing hash M l₂) :
    l₁ = l₂ := by
  have hnd₁ : l₁.Nodup := List.Nodup.of_map Prod.fst h₁.nodup
  have hnd₂ : l₂.Nodup := List.Nodup.of_map Prod.fst h₂.nodup
  have hperm : l₁.Perm l₂ := by
    rw [List.perm_ext_iff_of_nodup hnd₁ hnd₂]
    rintro ⟨k, v⟩
    rw [h₁.mem, h₂.mem]
  refine hperm.eq_of_pairwise (fun x y _ _ hxy hyx => ?_) h₁.sorted h₂.sorted
  have := UInt32.lt_iff_toNat_lt.mp hxy
  have := UInt32.lt_iff_toNat_lt.mp hyx
  omega

/-- Inserting a key that collides with nothing keeps one key per hash. -/
theorem HashInjOn.update_some (hinj : HashInjOn hash M) {k : Key} {v : V}
    (hnc : ∀ k', ¬ Collides hash M k k') : HashInjOn hash (Function.update M k (some v)) := by
  intro k₁ k₂ h₁ h₂ hh
  by_cases hk₁ : k₁ = k <;> by_cases hk₂ : k₂ = k
  · rw [hk₁, hk₂]
  · rw [Function.update_of_ne hk₂] at h₂
    exact absurd ⟨hk₂, hk₁ ▸ hh.symm, h₂⟩ (hnc k₂)
  · rw [Function.update_of_ne hk₁] at h₁
    exact absurd ⟨hk₁, hk₂ ▸ hh, h₁⟩ (hnc k₁)
  · rw [Function.update_of_ne hk₁] at h₁
    rw [Function.update_of_ne hk₂] at h₂
    exact hinj k₁ k₂ h₁ h₂ hh

/-- Changing a map only where it already has keys, or removing keys, keeps one key per hash. -/
theorem HashInjOn.mono {M' : AbsMap V} (hinj : HashInjOn hash M)
    (hsub : ∀ k, (M' k).isSome → (M k).isSome) : HashInjOn hash M' :=
  fun k₁ k₂ h₁ h₂ hh => hinj k₁ k₂ (hsub k₁ h₁) (hsub k₂ h₂) hh

/-- Changing the value at `k` without adding `k` keeps one key per hash. -/
theorem HashInjOn.update_of_isSome (hinj : HashInjOn hash M) {k : Key} {x : Option V}
    (hx : x.isSome → (M k).isSome) : HashInjOn hash (Function.update M k x) := by
  refine hinj.mono fun k' hk' => ?_
  by_cases hkk : k' = k
  · subst hkk
    rw [Function.update_self] at hk'
    exact hx hk'
  · rwa [Function.update_of_ne hkk] at hk'

/-- Every call keeps one key per hash. -/
theorem AbsStep.hashInjOn (hinj : HashInjOn hash M) (h : AbsStep hash M a b M') :
    HashInjOn hash M' := by
  cases h with
  | insert hnc | tryInsert hnc _ => exact hinj.update_some hnc
  | remove => exact hinj.update_of_isSome (fun h => by simp at h)
  | getMut => exact hinj.update_of_isSome (fun h => by simpa using h)
  | clear => exact hashInjOn_empty
  | insertCollision _ | tryInsertCollision _ | tryInsertOccupied _ _ | get | len | iter _ =>
    exact hinj

/-- With one key per hash, the specification fixes the answer and the next map. -/
theorem AbsStep.deterministic (hinj : HashInjOn hash M) (h₁ : AbsStep hash M a b₁ M₁)
    (h₂ : AbsStep hash M a b₂ M₂) : b₁ = b₂ ∧ M₁ = M₂ := by
  cases h₁ with
  | insertCollision hc =>
    cases h₂ with
    | insertCollision hc' => rw [hc.eq_of_hashInjOn hinj hc']; exact ⟨rfl, rfl⟩
    | insert hnc => exact absurd hc (hnc _)
  | insert hnc =>
    cases h₂ with
    | insertCollision hc => exact absurd hc (hnc _)
    | insert => exact ⟨rfl, rfl⟩
  | tryInsertCollision hc =>
    cases h₂ with
    | tryInsertCollision hc' => rw [hc.eq_of_hashInjOn hinj hc']; exact ⟨rfl, rfl⟩
    | tryInsertOccupied hnc _ | tryInsert hnc _ => exact absurd hc (hnc _)
  | tryInsertOccupied hnc hold =>
    cases h₂ with
    | tryInsertCollision hc => exact absurd hc (hnc _)
    | tryInsertOccupied _ hold' =>
      rw [hold] at hold'
      cases hold'
      exact ⟨rfl, rfl⟩
    | tryInsert _ hnone => rw [hold] at hnone; cases hnone
  | tryInsert hnc hnone =>
    cases h₂ with
    | tryInsertCollision hc => exact absurd hc (hnc _)
    | tryInsertOccupied _ hold => rw [hold] at hnone; cases hnone
    | tryInsert => exact ⟨rfl, rfl⟩
  | iter hl =>
    cases h₂ with
    | iter hl' => rw [hl.eq hl']; exact ⟨rfl, rfl⟩
  | remove | get | getMut | clear | len => cases h₂; exact ⟨rfl, rfl⟩

/-- When the keys of the map and of the call hash apart, the call answers no `Collision`, and the
    map keeps its keys among them. -/
theorem AbsStep.not_isCollision {K : List Key}
    (hK : ∀ k₁ ∈ K, ∀ k₂ ∈ K, hash k₁ = hash k₂ → k₁ = k₂) (hM : ∀ k, (M k).isSome → k ∈ K)
    (ha : ∀ k, a.key? = some k → k ∈ K) (h : AbsStep hash M a b M') :
    (∀ k, (M' k).isSome → k ∈ K) ∧ b.isCollision = false := by
  have hnc : ∀ {k k'}, k ∈ K → ¬ Collides hash M k k' := by
    rintro k k' hk ⟨hne, hh, hsome⟩
    exact hne (hK k' (hM k' hsome) k hk hh)
  have hupd : ∀ {k : Key} {x : Option V}, k ∈ K → ∀ k', (Function.update M k x k').isSome → k' ∈ K := by
    intro k x hk k' hk'
    by_cases hkk : k' = k
    · exact hkk ▸ hk
    · rw [Function.update_of_ne hkk] at hk'
      exact hM k' hk'
  cases h with
  | insertCollision hc => exact absurd hc (hnc (ha _ rfl))
  | tryInsertCollision hc => exact absurd hc (hnc (ha _ rfl))
  | insert | tryInsert | remove | getMut => exact ⟨hupd (ha _ rfl), rfl⟩
  | clear => exact ⟨(fun k hk => by cases hk), rfl⟩
  | tryInsertOccupied | get | len | iter => exact ⟨hM, rfl⟩

end Abstract

end OtelNetwork.PerfectHashMap
