import OtelNetwork.FixedHash.Spec
import OtelNetwork.FixedHash.Proofs.PoolProofs
import OtelNetwork.Lib.Simulation

/-!
# `FixedHash` refines the bounded map

`Represents size h M` relates a `FixedHash` to the abstract map: the key map holds each key's
slot, each slot holds its key's value, the bitmap marks exactly the slots of the keys, the count
is the number of keys, and the allocator keeps `AllocInv` for the bitmap. From a related pair
every call succeeds, with an answer the specification allows, and leads to a related pair; the
forward-simulation rule lifts this to every sequence of calls from a new `FixedHash`.
-/

namespace OtelNetwork.FixedHash

open RustSem Simulation PoolAllocator

variable {K T : Type} [DecidableEq K] {size : Nat}

/-- The representation invariant. -/
structure Represents (size : Nat) (h : FixedHash K T) (M : AbsMap K T) : Prop where
  alloc : AllocInv size h.pool.poolAlloc h.pool.allocated
  slots : Slots size M
  map : ∀ k, h.map k = (M.lookup k).map Prod.fst
  elements : ∀ k e, M.lookup k = some e → h.pool.elements e.1 = some e.2
  allocated : ∀ i, h.pool.allocated i = true ↔ ∃ k e, M.lookup k = some e ∧ e.1 = i
  count : h.pool.elemCount = M.keys.card

variable {h : FixedHash K T} {M : AbsMap K T}

theorem represents_new (mem : UInt32 → UInt32) (hpos : 0 < size) (hle : size ≤ 2 ^ 30) :
    Represents size (FixedHash.new size mem : FixedHash K T) ∅ where
  alloc := allocInv_init mem hpos hle
  slots := slots_empty
  map _ := by simp [FixedHash.new]
  elements _ _ he := by simp at he
  allocated _ := by simp [FixedHash.new, Pool.new]
  count := by simp [FixedHash.new, Pool.new]

theorem Represents.slotFree (hr : Represents size h M) {i : Nat}
    (hi : h.pool.allocated i = false) : SlotFree M i := by
  rintro k e hk rfl
  have := (hr.allocated e.1).mpr ⟨k, e, hk, rfl⟩
  rw [hi] at this
  cases this

theorem Represents.exists_free (hr : Represents size h M) (hlt : M.keys.card < size) :
    ∃ i < size, h.pool.allocated i = false := by
  obtain ⟨i, hi, hfree⟩ := exists_slotFree hlt
  refine ⟨i, hi, ?_⟩
  cases ha : h.pool.allocated i
  · rfl
  · obtain ⟨k, e, hk, rfl⟩ := (hr.allocated _).mp ha
    exact absurd rfl (hfree k e hk)

/-! ## Spec lemmas of the calls -/

theorem insert_of_full (hfull : h.pool.elemCount = size) (k : K) (arg : Option T) :
    h.insert size k arg = .ok (.ok (Pool.invalidPosition size), h) := by
  simp [FixedHash.insert, Pool.full, hfull]

theorem insert_of_present (hk : (h.map k).isSome) (arg : Option T) :
    h.insert size k arg = .ok (.ok (Pool.invalidPosition size), h) := by
  simp [FixedHash.insert, hk]

/-- A new key into a pool that is not full: the answer follows `emplace`'s, and the guard
    leaves the key map as it was unless the object got a slot. -/
theorem insert_of_emplace {k : K} {arg : Option T} (hnf : h.pool.elemCount ≠ size)
    (hk : h.map k = none) {r : Except Unit Position} {pool : Pool T}
    (he : h.pool.emplace size arg = .ok (r, pool)) :
    h.insert size k arg = .ok (match r with
      | .error () => (.error (), ⟨h.map, pool⟩)
      | .ok pos =>
        if pos.index = Pool.invalid size then (.ok (Pool.invalidPosition size), ⟨h.map, pool⟩)
        else (.ok pos, ⟨Function.update h.map k (some pos.index), pool⟩)) := by
  have hback : Function.update (Function.update h.map k (some (Pool.invalid size))) k none =
      h.map := by
    rw [Function.update_idem, ← hk, Function.update_eq_self]
  simp only [FixedHash.insert, Pool.full, beq_iff_eq, hnf, hk, he]
  rcases r with _ | pos
  · simp [hback]
  · by_cases hinv : pos.index = Pool.invalid size
    · simp [hinv, hback]
    · simp [hinv, Function.update_idem]

/-- An insertion of a present key, or into a full map, answers `{invalid, nullptr}` and changes
    nothing. -/
theorem Represents.insert_of_fails (hr : Represents size h M) (k : K) (arg : Option T)
    (hk : k ∈ M ∨ M.keys.card = size) :
    h.insert size k arg = .ok (.ok (Pool.invalidPosition size), h) := by
  rcases hk with hk | hfull
  · by_cases hnf : h.pool.elemCount = size
    · exact insert_of_full hnf k arg
    · refine insert_of_present ?_ arg
      rw [hr.map]
      simpa using Finmap.lookup_isSome.mpr hk
  · exact insert_of_full (hr.count.trans hfull) k arg

/-! ## The calls keep the invariant -/

/-- The representation after a new key takes the free slot `i`. -/
theorem Represents.insertNew (hr : Represents size h M) {k : K} (hk : k ∉ M) {i : Nat} (v : T)
    (hlt : M.keys.card < size) (hi : i < size) (hfa : h.pool.allocated i = false)
    {a : PoolAllocator} (hinv : AllocInv size a (Function.update h.pool.allocated i true)) :
    Represents size
      ⟨Function.update h.map k (some i),
        { h.pool with
          poolAlloc := a, elements := Function.update h.pool.elements i (some v)
          allocated := Function.update h.pool.allocated i true, elemCount := h.pool.elemCount + 1
          maxElemCount := max h.pool.maxElemCount (h.pool.elemCount + 1) }⟩
      (M.insert k (i, v)) where
  alloc := hinv
  slots := hr.slots.insert v hk hlt hi (hr.slotFree hfa)
  map k' := by
    by_cases hk' : k' = k
    · subst hk'
      simp
    · simp [Function.update_of_ne hk', Finmap.lookup_insert_of_ne _ hk', hr.map k']
  elements k' e he := by
    by_cases hk' : k' = k
    · subst hk'
      simp only [Finmap.lookup_insert, Option.some.injEq] at he
      subst he
      simp
    · rw [Finmap.lookup_insert_of_ne _ hk'] at he
      have hne : e.1 ≠ i := hr.slotFree hfa k' e he
      simp only [Function.update_of_ne hne]
      exact hr.elements k' e he
  allocated j := by
    by_cases hj : j = i
    · subst hj
      simp only [Function.update_self, true_iff]
      exact ⟨k, (j, v), Finmap.lookup_insert _, rfl⟩
    · -- the new key holds `i`, so slot `j` is held by an old key
      simp only [Function.update_of_ne hj, hr.allocated j]
      constructor
      · rintro ⟨k', e, he, rfl⟩
        have hk' : k' ≠ k := by
          rintro rfl
          exact hk (Finmap.lookup_isSome.mp (by simp [he]))
        exact ⟨k', e, by rw [Finmap.lookup_insert_of_ne _ hk']; exact he, rfl⟩
      · rintro ⟨k', e, he, rfl⟩
        by_cases hk' : k' = k
        · subst hk'
          simp only [Finmap.lookup_insert, Option.some.injEq] at he
          subst he
          exact absurd rfl hj
        · rw [Finmap.lookup_insert_of_ne _ hk'] at he
          exact ⟨k', e, he, rfl⟩
  count := by
    show h.pool.elemCount + 1 = _
    rw [keys_insert, Finset.card_insert_of_notMem (fun hm => hk (Finmap.mem_keys.mp hm)), hr.count]

/-- The representation after key `k`, in slot `i`, is erased. -/
theorem Represents.eraseKey (hr : Represents size h M) {k : K} {i : Nat} {v : T}
    (hk : M.lookup k = some (i, v)) {a : PoolAllocator}
    (hinv : AllocInv size a (Function.update h.pool.allocated i false)) :
    Represents size
      ⟨Function.update h.map k none,
        { h.pool with
          elements := Function.update h.pool.elements i none, poolAlloc := a
          elemCount := h.pool.elemCount - 1, allocated := Function.update h.pool.allocated i false }⟩
      (M.erase k) where
  alloc := hinv
  slots := hr.slots.erase k
  map k' := by
    by_cases hk' : k' = k
    · subst hk'
      simp
    · simp [Function.update_of_ne hk', Finmap.lookup_erase_ne hk', hr.map k']
  elements k' e he := by
    have hk' : k' ≠ k := by
      rintro rfl
      simp at he
    rw [Finmap.lookup_erase_ne hk'] at he
    have hne : e.1 ≠ i := fun hei => hk' (hr.slots.inj k' k e (i, v) he hk hei)
    simp only [Function.update_of_ne hne]
    exact hr.elements k' e he
  allocated j := by
    by_cases hj : j = i
    · subst hj
      simp only [Function.update_self, Bool.false_eq_true, false_iff, not_exists, not_and]
      intro k' e he hej
      have hk' : k' ≠ k := by
        rintro rfl
        simp at he
      rw [Finmap.lookup_erase_ne hk'] at he
      exact hk' (hr.slots.inj k' k e (j, v) he hk hej)
    · simp only [Function.update_of_ne hj, hr.allocated j]
      constructor
      · rintro ⟨k', e, he, rfl⟩
        have hk' : k' ≠ k := by
          rintro rfl
          rw [hk] at he
          cases he
          exact hj rfl
        exact ⟨k', e, by rw [Finmap.lookup_erase_ne hk']; exact he, rfl⟩
      · rintro ⟨k', e, he, rfl⟩
        have hk' : k' ≠ k := by
          rintro rfl
          simp at he
        rw [Finmap.lookup_erase_ne hk'] at he
        exact ⟨k', e, he, rfl⟩
  count := by
    have hmem : k ∈ M.keys := Finmap.mem_keys.mpr (Finmap.lookup_isSome.mp (by simp [hk]))
    show h.pool.elemCount - 1 = _
    rw [Finmap.keys_erase, Finset.card_erase_of_mem hmem, hr.count]

theorem Represents.find (hr : Represents size h M) (k : K) :
    ∃ p, h.find size k = .ok p ∧ AbsStep size M (.find k) (.find p) M := by
  rcases hk : M.lookup k with _ | ⟨i, v⟩
  · have hmap : h.map k = none := by simp [hr.map, hk]
    exact ⟨_, by simp [FixedHash.find, hmap], .findAbsent (Finmap.lookup_eq_none.mp hk)⟩
  · have hmap : h.map k = some i := by simp [hr.map, hk]
    have hi : i < size := hr.slots.lt k (i, v) hk
    have ha : h.pool.allocated i = true := (hr.allocated i).mpr ⟨k, (i, v), hk, rfl⟩
    refine ⟨_, ?_, .findPresent hk⟩
    simp [FixedHash.find, hmap, Pool.slot_of_allocated hi ha]

theorem Represents.erase (hr : Represents size h M) (k : K) :
    ∃ b h', h.erase size k = .ok (b, h') ∧ ∃ M', AbsStep size M (.erase k) (.erase b) M' ∧
      Represents size h' M' := by
  rcases hk : M.lookup k with _ | ⟨i, v⟩
  · have hmap : h.map k = none := by simp [hr.map, hk]
    exact ⟨false, h, by simp [FixedHash.erase, hmap], M,
      .eraseAbsent (Finmap.lookup_eq_none.mp hk), hr⟩
  · have hmap : h.map k = some i := by simp [hr.map, hk]
    have ha : h.pool.allocated i = true := (hr.allocated i).mpr ⟨k, (i, v), hk, rfl⟩
    obtain ⟨a, hremove, hinv⟩ := Pool.remove_of_allocated hr.alloc ha
    refine ⟨true, _, by simp [FixedHash.erase, hmap, hremove], M.erase k,
      .erasePresent (Finmap.lookup_isSome.mp (by simp [hk])), hr.eraseKey hk hinv⟩

theorem Represents.insert (hr : Represents size h M) (k : K) (arg : Option T) :
    ∃ p h', h.insert size k arg = .ok (p, h') ∧ ∃ M', AbsStep size M (.insert k arg) (.insert p) M' ∧
      Represents size h' M' := by
  by_cases hfull : h.pool.elemCount = size
  · exact ⟨_, _, insert_of_full hfull k arg, M, .insertFull (hr.count ▸ hfull), hr⟩
  by_cases hk : k ∈ M
  · have hmap : (h.map k).isSome := by
      rw [hr.map]
      simpa using Finmap.lookup_isSome.mpr hk
    exact ⟨_, _, insert_of_present hmap arg, M, .insertPresent hk, hr⟩
  -- a new key, and a free slot to take
  have hmap : h.map k = none := by simp [hr.map, Finmap.lookup_eq_none.mpr hk]
  have hlt : M.keys.card < size := by
    have := hr.slots.card
    rw [← hr.count] at this ⊢
    omega
  have hfree := hr.exists_free hlt
  cases arg with
  | none =>
    obtain ⟨a, hemp, hinv⟩ := Pool.emplace_none hr.alloc hfull hfree
    exact ⟨_, _, insert_of_emplace hfull hmap hemp, M, .insertThrows hk hlt,
      { hr with alloc := hinv }⟩
  | some v =>
    obtain ⟨i, a, hemp, hi, hfa, hinv⟩ := Pool.emplace_some hr.alloc hfull hfree v
    have hne : i ≠ Pool.invalid size := Nat.ne_of_lt (Pool.lt_invalid hi hr.alloc.size_le)
    refine ⟨_, _, (insert_of_emplace hfull hmap hemp).trans (by simp [hne]), _,
      .insert hk hlt hi (hr.slotFree hfa), hr.insertNew hk v hlt hi hfa hinv⟩

/-- One call from a related pair. -/
theorem Represents.simulates (hr : Represents size h M) (a : Op K T) :
    ∃ b h', step size h a = .ok (b, h') ∧ ∃ M', AbsStep size M a b M' ∧ Represents size h' M' := by
  cases a with
  | insert k arg =>
    obtain ⟨p, h', hins, M', hs, hr'⟩ := hr.insert k arg
    exact ⟨_, h', by simp [step, hins], M', hs, hr'⟩
  | erase k =>
    obtain ⟨b, h', hera, M', hs, hr'⟩ := hr.erase k
    exact ⟨_, h', by simp [step, hera], M', hs, hr'⟩
  | find k =>
    obtain ⟨p, hfind, hs⟩ := hr.find k
    exact ⟨_, h, by simp [step, hfind], M, hs, hr⟩

theorem fixedHash_refines_bounded_map (size : Nat) (hsize : 0 < size ∧ size ≤ 2 ^ 30)
    (mem : UInt32 → UInt32) (ops : List (Op K T)) :
    ∃ outs h, runImpl (step size) (FixedHash.new size mem) ops = .ok (outs, h) ∧
      (∃ M, SpecRun (AbsStep size) ∅ ops outs M ∧ Represents size h M ∧
        ∀ (k : K) (arg : Option T), (k ∈ M ∨ M.keys.card = size) →
          h.insert size k arg = .ok (.ok (Pool.invalidPosition size), h)) ∧
      ∀ id m', h.pool.poolAlloc.alloc = .ok (id, m') →
        id = poolAllocatorNullElem ∨ (id.toNat < size ∧ h.pool.allocated id.toNat = false) := by
  obtain ⟨outs, h, hrun, M, hspec, hr⟩ :=
    simulation (Represents size) (fun _ _ a hr => hr.simulates a) ops _ _
      (represents_new mem hsize.1 hsize.2)
  refine ⟨outs, h, hrun, ⟨M, hspec, hr, hr.insert_of_fails⟩, fun id m' ha => ?_⟩
  exact hr.alloc.alloc_result ha

theorem fixedHash_refines_bounded_map_two_slots :
    (0 < 2 ∧ 2 ≤ 2 ^ 30) ∧
      ∃ outs h, runImpl (step 2) (FixedHash.new 2 fun _ => 0)
          [Op.insert 7 (some true), .insert 8 none, .erase 7, .insert 9 (some false), .find 9] =
          .ok (outs, h) ∧
        (∃ M, SpecRun (AbsStep 2) ∅
          [Op.insert 7 (some true), .insert 8 none, .erase 7, .insert 9 (some false), .find 9]
          outs M ∧ Represents 2 h M ∧
          ∀ (k : Nat) (arg : Option Bool), (k ∈ M ∨ M.keys.card = 2) →
            h.insert 2 k arg = .ok (.ok (Pool.invalidPosition 2), h)) ∧
        ∀ id m', h.pool.poolAlloc.alloc = .ok (id, m') →
          id = poolAllocatorNullElem ∨ (id.toNat < 2 ∧ h.pool.allocated id.toNat = false) :=
  ⟨⟨by decide, by decide⟩, fixedHash_refines_bounded_map 2 ⟨by decide, by decide⟩ _ _⟩

end OtelNetwork.FixedHash
