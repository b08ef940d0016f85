import OtelNetwork.FixedHash.Basic
import Mathlib.Data.Finmap

/-!
# What `FixedHash` is for

The abstract map holds, for each key, the slot of its value and the value: a finite map with no
more keys than `size` slots, distinct keys in distinct slots below `size` (`Slots`). Inserting a
new key takes any slot that no key holds, and fails, leaving the map as it is, when the key is
present or every slot is taken; a constructor that throws also leaves it as it is. Erasing frees
the key's slot; finding answers the key's slot.

Whenever fewer keys than slots are held, some slot below `size` is free (`exists_slotFree`), so
an insertion of a new key into a map that is not full always has a slot to take.
-/

namespace OtelNetwork.FixedHash

variable {K T : Type} [DecidableEq K]

/-- Each key with its slot and its value. -/
abbrev AbsMap (K T : Type) := Finmap fun _ : K => Nat × T

/-- The slots of the keys lie below `size` and are distinct, so at most `size` keys are held. -/
structure Slots (size : Nat) (M : AbsMap K T) : Prop where
  lt : ∀ k e, M.lookup k = some e → e.1 < size
  inj : ∀ k k' e e', M.lookup k = some e → M.lookup k' = some e' → e.1 = e'.1 → k = k'
  card : M.keys.card ≤ size

/-- No key holds slot `i`. -/
def SlotFree (M : AbsMap K T) (i : Nat) : Prop := ∀ k e, M.lookup k = some e → e.1 ≠ i

/-- The abstract semantics of one call. -/
inductive AbsStep (size : Nat) : AbsMap K T → Op K T → Out → AbsMap K T → Prop where
  | insertPresent {M : AbsMap K T} {k : K} {arg : Option T} : k ∈ M →
      AbsStep size M (.insert k arg) (.insert (.ok (Pool.invalidPosition size))) M
  | insertFull {M : AbsMap K T} {k : K} {arg : Option T} : M.keys.card = size →
      AbsStep size M (.insert k arg) (.insert (.ok (Pool.invalidPosition size))) M
  | insertThrows {M : AbsMap K T} {k : K} : k ∉ M → M.keys.card < size →
      AbsStep size M (.insert k none) (.insert (.error ())) M
  | insert {M : AbsMap K T} {k : K} {v : T} {i : Nat} : k ∉ M → M.keys.card < size → i < size →
      SlotFree M i → AbsStep size M (.insert k (some v)) (.insert (.ok ⟨i, some i⟩)) (M.insert k (i, v))
  | erasePresent {M : AbsMap K T} {k : K} : k ∈ M →
      AbsStep size M (.erase k) (.erase true) (M.erase k)
  | eraseAbsent {M : AbsMap K T} {k : K} : k ∉ M → AbsStep size M (.erase k) (.erase false) M
  | findPresent {M : AbsMap K T} {k : K} {i : Nat} {v : T} : M.lookup k = some (i, v) →
      AbsStep size M (.find k) (.find ⟨i, some i⟩) M
  | findAbsent {M : AbsMap K T} {k : K} : k ∉ M →
      AbsStep size M (.find k) (.find (Pool.invalidPosition size)) M

theorem keys_insert (M : AbsMap K T) (k : K) (e : Nat × T) :
    (M.insert k e).keys = Insert.insert k M.keys := by
  ext k'
  simp [Finmap.mem_keys, Finmap.mem_insert]

variable {size : Nat} {M : AbsMap K T}

theorem slots_empty : Slots size (∅ : AbsMap K T) where
  lt k e h := by simp at h
  inj k k' e e' h := by simp at h
  card := by simp

/-- Pigeonhole: fewer keys than slots leave a slot free. -/
theorem exists_slotFree (hlt : M.keys.card < size) :
    ∃ i < size, SlotFree M i := by
  let slotOf : K → Nat := fun k => ((M.lookup k).map Prod.fst).getD 0
  have hcard : (M.keys.image slotOf).card < (Finset.range size).card := by
    rw [Finset.card_range]
    exact lt_of_le_of_lt Finset.card_image_le hlt
  obtain ⟨i, hi, hfree⟩ := Finset.exists_mem_notMem_of_card_lt_card hcard
  refine ⟨i, Finset.mem_range.mp hi, fun k e hk hki => hfree ?_⟩
  have hmem : k ∈ M.keys := Finmap.mem_keys.mpr (Finmap.lookup_isSome.mp (by simp [hk]))
  exact Finset.mem_image.mpr ⟨k, hmem, by simp [slotOf, hk, hki]⟩

/-- Pigeonhole: as many keys as slots take every slot. -/
theorem Slots.exists_of_full (hs : Slots size M) (hfull : M.keys.card = size) {i : Nat}
    (hi : i < size) : ∃ k e, M.lookup k = some e ∧ e.1 = i := by
  let slotOf : K → Nat := fun k => ((M.lookup k).map Prod.fst).getD 0
  have hsub : M.keys.image slotOf ⊆ Finset.range size := by
    intro j hj
    obtain ⟨k, hk, rfl⟩ := Finset.mem_image.mp hj
    obtain ⟨e, he⟩ := Option.isSome_iff_exists.mp (Finmap.lookup_isSome.mpr (Finmap.mem_keys.mp hk))
    simpa [slotOf, he] using hs.lt k e he
  have hinj : Set.InjOn slotOf M.keys := by
    intro k hk k' hk' hkk
    obtain ⟨e, he⟩ := Option.isSome_iff_exists.mp (Finmap.lookup_isSome.mpr (Finmap.mem_keys.mp hk))
    obtain ⟨e', he'⟩ :=
      Option.isSome_iff_exists.mp (Finmap.lookup_isSome.mpr (Finmap.mem_keys.mp hk'))
    exact hs.inj k k' e e' he he' (by simpa [slotOf, he, he'] using hkk)
  have heq : M.keys.image slotOf = Finset.range size :=
    Finset.eq_of_subset_of_card_le hsub (by rw [Finset.card_image_of_injOn hinj, hfull]; simp)
  obtain ⟨k, hk, hki⟩ := Finset.mem_image.mp (heq ▸ Finset.mem_range.mpr hi)
  obtain ⟨e, he⟩ := Option.isSome_iff_exists.mp (Finmap.lookup_isSome.mpr (Finmap.mem_keys.mp hk))
  exact ⟨k, e, he, by simpa [slotOf, he] using hki⟩

theorem Slots.insert (hs : Slots size M) {k : K} {i : Nat} (v : T) (hk : k ∉ M)
    (hlt : M.keys.card < size) (hi : i < size) (hfree : SlotFree M i) :
    Slots size (M.insert k (i, v)) where
  lt k' e h := by
    by_cases hk' : k' = k
    · subst hk'
      simp only [Finmap.lookup_insert, Option.some.injEq] at h
      subst h
      exact hi
    · rw [Finmap.lookup_insert_of_ne _ hk'] at h
      exact hs.lt k' e h
  inj k₁ k₂ e₁ e₂ h₁ h₂ he := by
    by_cases hk₁ : k₁ = k <;> by_cases hk₂ : k₂ = k
    · rw [hk₁, hk₂]
    · -- `k` took the free slot, which `k₂` cannot hold
      subst hk₁
      rw [Finmap.lookup_insert, Option.some.injEq] at h₁
      rw [Finmap.lookup_insert_of_ne _ hk₂] at h₂
      exact absurd (he ▸ h₁ ▸ rfl) (hfree k₂ e₂ h₂)
    · subst hk₂
      rw [Finmap.lookup_insert, Option.some.injEq] at h₂
      rw [Finmap.lookup_insert_of_ne _ hk₁] at h₁
      exact absurd (he.symm ▸ h₂ ▸ rfl) (hfree k₁ e₁ h₁)
    · rw [Finmap.lookup_insert_of_ne _ hk₁] at h₁
      rw [Finmap.lookup_insert_of_ne _ hk₂] at h₂
      exact hs.inj k₁ k₂ e₁ e₂ h₁ h₂ he
  card := by
    rw [keys_insert, Finset.card_insert_of_notMem (fun h => hk (Finmap.mem_keys.mp h))]
    omega

theorem Slots.erase (hs : Slots size M) (k : K) : Slots size (M.erase k) where
  lt k' e h := by
    by_cases hk' : k' = k
    · subst hk'
      simp at h
    · rw [Finmap.lookup_erase_ne hk'] at h
      exact hs.lt k' e h
  inj k₁ k₂ e₁ e₂ h₁ h₂ he := by
    have hk₁ : k₁ ≠ k := by
      rintro rfl
      simp at h₁
    have hk₂ : k₂ ≠ k := by
      rintro rfl
      simp at h₂
    rw [Finmap.lookup_erase_ne hk₁] at h₁
    rw [Finmap.lookup_erase_ne hk₂] at h₂
    exact hs.inj k₁ k₂ e₁ e₂ h₁ h₂ he
  card := by
    rw [Finmap.keys_erase]
    exact le_trans (Finset.card_erase_le) hs.card

/-- The specification keeps its invariant. -/
theorem AbsStep.slots {a : Op K T} {b : Out} {M' : AbsMap K T} (hs : Slots size M)
    (h : AbsStep size M a b M') : Slots size M' := by
  cases h with
  | insertPresent => exact hs
  | insertFull => exact hs
  | insertThrows => exact hs
  | insert hk hlt hi hfree => exact hs.insert _ hk hlt hi hfree
  | erasePresent => exact hs.erase _
  | eraseAbsent => exact hs
  | findPresent => exact hs
  | findAbsent => exact hs

end OtelNetwork.FixedHash
