import OtelNetwork.FixedHash.LruSpec
import OtelNetwork.FixedHash.Proofs.Refinement

/-!
# The LRU cache against what it is for

Read off its list, the cache is an abstract LRU cache. A run of calls keeps the list linking
exactly the entries of its map, each once, with the map keeping the representation invariant of
`FixedHash`, and answers as the abstract cache does, as long as no insertion into a full cache
goes wrong. Two do. The eviction comes before the key is looked at, so inserting a key that is
there loses the oldest entry. And `map_.erase(entry->key)` reads the evicted key through a
reference into the slot that `pool_allocator_free` has just overwritten: unless the link leaves the
key as it was, the key erased is another one, the evicted key keeps naming its slot, and once a new key
takes that slot, finding the evicted key answers the new key's value.
-/

namespace OtelNetwork

namespace FixedHash

variable {K T : Type} [DecidableEq K] {size : Nat} {h : FixedHash K T} {M : AbsMap K T} {k : K}

/-! ## The calls of `FixedHash` on a key that is there or not -/

theorem Represents.find_of_lookup (hr : Represents size h M) {i : Nat} {v : T}
    (hk : M.lookup k = some (i, v)) : h.find size k = .ok ⟨i, some i⟩ := by
  obtain ⟨p, hfind, hs⟩ := hr.find k
  cases hs with
  | findPresent hk' =>
    rw [hk] at hk'
    cases hk'
    exact hfind
  | findAbsent hk' => exact absurd (Finmap.mem_of_lookup_eq_some hk) hk'

theorem Represents.find_of_not_mem (hr : Represents size h M) (hk : k ∉ M) :
    h.find size k = .ok (Pool.invalidPosition size) := by
  obtain ⟨p, hfind, hs⟩ := hr.find k
  cases hs with
  | findPresent hk' => exact absurd (Finmap.mem_of_lookup_eq_some hk') hk
  | findAbsent => exact hfind

theorem Represents.erase_of_mem (hr : Represents size h M) (hk : k ∈ M) :
    ∃ h', h.erase size k = .ok (true, h') ∧ Represents size h' (M.erase k) := by
  obtain ⟨b, h', hera, M', hs, hr'⟩ := hr.erase k
  cases hs with
  | erasePresent => exact ⟨h', hera, hr'⟩
  | eraseAbsent hk' => exact absurd hk hk'

theorem Represents.insert_of_not_mem (hr : Represents size h M) (hk : k ∉ M)
    (hlt : M.keys.card < size) (v : T) :
    ∃ i h', h.insert size k (some v) = .ok (.ok ⟨i, some i⟩, h') ∧ i < size ∧ SlotFree M i ∧
      Represents size h' (M.insert k (i, v)) := by
  obtain ⟨p, h', hins, M', hs, hr'⟩ := hr.insert k (some v)
  cases hs with
  | insertPresent hk' => exact absurd hk' hk
  | insertFull hfull => omega
  | insert _ _ hi hfree => exact ⟨_, h', hins, hi, hfree, hr'⟩

theorem Represents.insert_of_mem (hr : Represents size h M) (hk : k ∈ M) (arg : Option T) :
    h.insert size k arg = .ok (.ok (Pool.invalidPosition size), h) := by
  apply insert_of_present
  rw [hr.map]
  simpa using Finmap.lookup_isSome.mpr hk

end FixedHash

namespace LRU

open FixedHash RustSem PoolAllocator

variable {K T : Type} [DecidableEq K] {size : Nat}

/-! ## The abstract cache read off the list -/

/-- The key and the value of the entry in slot `i`. -/
def slotEntry (c : LRU K T) (i : Nat) : Option ((_ : K) × T) :=
  (c.map.pool.elements i).map fun e => ⟨e.key, e.value⟩

/-- The cache as an abstract cache: the entries its list links, in the list's order. -/
def toAbs (c : LRU K T) : AbsLru K T := c.lru.filterMap c.slotEntry

/-- Dropping slot `i` from a list of slots drops key `k` from the entries read off it, when `i`
    is the one slot of the list whose entry has key `k`. -/
theorem filterMap_erase {β : Type} {f : Nat → Option ((_ : K) × β)} {l : List Nat} {i : Nat}
    {k : K} (hf : ∀ j ∈ l, ∃ x, f j = some x ∧ (x.1 = k ↔ j = i)) :
    (l.erase i).filterMap f = (l.filterMap f).kerase k := by
  induction l with
  | nil => rfl
  | cons j l ih =>
    obtain ⟨x, hx, hxk⟩ := hf j List.mem_cons_self
    have ih' := ih fun j' hj' => hf j' (List.mem_cons_of_mem j hj')
    by_cases hji : j = i
    · subst hji
      rw [List.erase_cons_head, List.filterMap_cons_some hx,
        List.kerase_cons_eq (hxk.mpr rfl).symm]
    · rw [List.erase_cons_tail (by simpa using hji), List.filterMap_cons_some hx,
        List.filterMap_cons_some hx, List.kerase_cons_ne (fun h => hji (hxk.mp h.symm)), ih']

/-! ## The invariant: the list links exactly the entries of the map -/

/-- The map represents the abstract map `M`, and the list links each slot of `M` once; each
    entry holds its own key. -/
structure LruInv (size : Nat) (c : LRU K T) (M : AbsMap K (LruEntry K T)) : Prop where
  rep : Represents size c.map M
  nodup : c.lru.Nodup
  mem : ∀ i, i ∈ c.lru ↔ ∃ k e, M.lookup k = some e ∧ e.1 = i
  key : ∀ k e, M.lookup k = some e → e.2.key = k
  length : c.lru.length = M.keys.card

variable {c : LRU K T} {M : AbsMap K (LruEntry K T)} {k : K} {i : Nat} {e : LruEntry K T}

theorem lruInv_new (mem : UInt32 → UInt32) (hpos : 0 < size) (hle : size ≤ 2 ^ 30) :
    LruInv size (new size mem : LRU K T) ∅ where
  rep := represents_new mem hpos hle
  nodup := List.nodup_nil
  mem i := by simp [new]
  key k e h := by simp at h
  length := by simp [new]

theorem LruInv.slotEntry_of_lookup (hc : LruInv size c M) (hk : M.lookup k = some (i, e)) :
    c.slotEntry i = some ⟨k, e.value⟩ := by
  have he : c.map.pool.elements i = some e := hc.rep.elements k (i, e) hk
  have hkey : e.key = k := hc.key k (i, e) hk
  simp [slotEntry, he, hkey]

theorem LruInv.mem_of_lookup (hc : LruInv size c M) (hk : M.lookup k = some (i, e)) :
    i ∈ c.lru :=
  (hc.mem i).mpr ⟨k, (i, e), hk, rfl⟩

theorem LruInv.exists_of_mem (hc : LruInv size c M) {j : Nat} (hj : j ∈ c.lru) :
    ∃ k e, M.lookup k = some (j, e) ∧ c.slotEntry j = some ⟨k, e.value⟩ := by
  obtain ⟨k, ⟨j', e⟩, hk, rfl⟩ := (hc.mem j).mp hj
  exact ⟨k, e, hk, hc.slotEntry_of_lookup hk⟩

/-- Two keys share a slot only if they are one key. -/
theorem LruInv.slot_eq_iff (hc : LruInv size c M) (hk : M.lookup k = some (i, e)) {k' : K}
    {i' : Nat} {e' : LruEntry K T} (hk' : M.lookup k' = some (i', e')) : k' = k ↔ i' = i := by
  constructor
  · rintro rfl
    rw [hk] at hk'
    cases hk'
    rfl
  · intro hi
    exact hc.rep.slots.inj k' k (i', e') (i, e) hk' hk hi

/-- The abstract cache of the list without slot `i` is the abstract cache without key `k`. -/
theorem LruInv.filterMap_erase (hc : LruInv size c M) (hk : M.lookup k = some (i, e)) :
    (c.lru.erase i).filterMap c.slotEntry = (toAbs c).kerase k := by
  apply LRU.filterMap_erase
  intro j hj
  obtain ⟨k', e', hk', hs⟩ := hc.exists_of_mem hj
  exact ⟨_, hs, hc.slot_eq_iff hk hk'⟩

theorem LruInv.length_toAbs (hc : LruInv size c M) : (toAbs c).length = M.keys.card := by
  rw [toAbs, List.filterMap_length_eq_length.mpr, hc.length]
  intro j hj
  obtain ⟨k, e, -, hs⟩ := hc.exists_of_mem hj
  simp [hs]

theorem LruInv.mem_toAbs (hc : LruInv size c M) (hk : M.lookup k = some (i, e)) :
    ⟨k, e.value⟩ ∈ toAbs c :=
  List.mem_filterMap.mpr ⟨i, hc.mem_of_lookup hk, hc.slotEntry_of_lookup hk⟩

theorem LruInv.mem_keys_toAbs (hc : LruInv size c M) : k ∈ (toAbs c).keys ↔ k ∈ M := by
  constructor
  · intro hk
    obtain ⟨v, hv⟩ := List.exists_of_mem_keys hk
    obtain ⟨j, hj, hs⟩ := List.mem_filterMap.mp hv
    obtain ⟨k', e', hk', hs'⟩ := hc.exists_of_mem hj
    rw [hs] at hs'
    cases hs'
    exact Finmap.mem_of_lookup_eq_some hk'
  · intro hk
    obtain ⟨⟨i, e⟩, hke⟩ := Option.isSome_iff_exists.mp (Finmap.lookup_isSome.mpr hk)
    exact List.mem_keys_of_mem (hc.mem_toAbs hke)

/-- Distinct slots of the list hold distinct keys. -/
theorem LruInv.nodupKeys (hc : LruInv size c M) : (toAbs c).NodupKeys := by
  rw [List.nodupKeys_iff_pairwise, toAbs, List.pairwise_filterMap]
  refine List.Pairwise.imp_of_mem ?_ hc.nodup
  intro j j' hj hj' hne x hx x' hx' hkey
  obtain ⟨k, e, hk, hs⟩ := hc.exists_of_mem hj
  obtain ⟨k', e', hk', hs'⟩ := hc.exists_of_mem hj'
  rw [hs] at hx
  rw [hs'] at hx'
  cases hx
  cases hx'
  exact hne ((hc.slot_eq_iff hk' hk).mp hkey)

theorem LruInv.dlookup_toAbs (hc : LruInv size c M) (hk : M.lookup k = some (i, e)) :
    (toAbs c).dlookup k = some e.value :=
  List.mem_dlookup hc.nodupKeys (hc.mem_toAbs hk)

theorem LruInv.dlookup_toAbs_of_not_mem (hc : LruInv size c M) (hk : k ∉ M) :
    (toAbs c).dlookup k = none :=
  List.dlookup_eq_none.mpr fun h => hk (hc.mem_keys_toAbs.mp h)

/-- Two caches whose maps agree on the key of slot `j` read the same entry there. -/
theorem LruInv.slotEntry_congr (hc : LruInv size c M) (c' : LRU K T)
    {M' : AbsMap K (LruEntry K T)} (hr' : Represents size c'.map M') {j : Nat} (hj : j ∈ c.lru)
    (hM : ∀ k' e', M.lookup k' = some (j, e') → M'.lookup k' = some (j, e')) :
    c'.slotEntry j = c.slotEntry j := by
  obtain ⟨k', e', hk', hs⟩ := hc.exists_of_mem hj
  have he' : c'.map.pool.elements j = some e' := hr'.elements k' (j, e') (hM k' e' hk')
  have hkey : e'.key = k' := hc.key k' (j, e') hk'
  rw [hs, slotEntry, he']
  simp [hkey]

theorem LruInv.full_iff (hc : LruInv size c M) : c.full size = true ↔ M.keys.card = size := by
  simp [full, Pool.full, hc.rep.count]

/-! ## One lemma per call -/

theorem LruInv.lt_invalid (hc : LruInv size c M) (hk : M.lookup k = some (i, e)) :
    i ≠ Pool.invalid size :=
  Nat.ne_of_lt (Pool.lt_invalid (hc.rep.slots.lt k (i, e) hk) hc.rep.alloc.size_le)

theorem LruInv.find_of_lookup (hc : LruInv size c M) (hk : M.lookup k = some (i, e)) :
    c.find size k = .ok (some e.value, { c with lru := c.lru.erase i ++ [i] }) := by
  have he : c.map.pool.elements i = some e := hc.rep.elements k (i, e) hk
  simp [find, hc.rep.find_of_lookup hk, hc.lt_invalid hk, he]

theorem LruInv.find_of_not_mem (hc : LruInv size c M) (hk : k ∉ M) :
    c.find size k = .ok (none, c) := by
  simp [find, hc.rep.find_of_not_mem hk, Pool.invalidPosition]

/-- A found entry moves to the end of the list, and the invariant holds of the same map. -/
theorem LruInv.moveToEnd (hc : LruInv size c M) (hk : M.lookup k = some (i, e)) :
    LruInv size { c with lru := c.lru.erase i ++ [i] } M where
  rep := hc.rep
  nodup := by
    simp only [List.nodup_append, hc.nodup.erase i, List.nodup_singleton, List.mem_singleton,
      true_and]
    rintro a ha b rfl rfl
    exact hc.nodup.not_mem_erase ha
  mem j := by
    rw [← hc.mem j, List.mem_append, List.mem_singleton, hc.nodup.mem_erase_iff]
    by_cases hji : j = i
    · simp [hji, hc.mem_of_lookup hk]
    · simp [hji]
  length := by
    have := List.length_pos_of_mem (hc.mem_of_lookup hk)
    rw [List.length_append, List.length_erase_of_mem (hc.mem_of_lookup hk), ← hc.length]
    simp only [List.length_singleton]
    omega
  key := hc.key

theorem LruInv.toAbs_moveToEnd (hc : LruInv size c M) (hk : M.lookup k = some (i, e)) :
    toAbs { c with lru := c.lru.erase i ++ [i] } = (toAbs c).kerase k ++ [⟨k, e.value⟩] := by
  have hs : c.slotEntry i = some ⟨k, e.value⟩ := hc.slotEntry_of_lookup hk
  show (c.lru.erase i ++ [i]).filterMap c.slotEntry = _
  rw [List.filterMap_append, hc.filterMap_erase hk]
  simp [hs]

/-- Erasing the key of slot `i` from the map and slot `i` from the list keeps the invariant, and
    drops the key from the abstract cache. -/
theorem LruInv.eraseSlot (hc : LruInv size c M) (hk : M.lookup k = some (i, e))
    {h' : FixedHash K (LruEntry K T)} (hr' : Represents size h' (M.erase k)) :
    LruInv size ⟨h', c.lru.erase i⟩ (M.erase k) ∧
      toAbs ⟨h', c.lru.erase i⟩ = (toAbs c).kerase k := by
  have hmem : k ∈ M := Finmap.mem_of_lookup_eq_some hk
  -- the other keys keep their slots
  have hother : ∀ j ∈ c.lru.erase i, ∀ k' e', M.lookup k' = some (j, e') →
      (M.erase k).lookup k' = some (j, e') := by
    intro j hj k' e' hk'
    have hji : j ≠ i := ((hc.nodup.mem_erase_iff).mp hj).1
    have hkk : k' ≠ k := fun h => hji ((hc.slot_eq_iff hk hk').mp h)
    rwa [Finmap.lookup_erase_ne hkk]
  refine ⟨⟨hr', hc.nodup.erase i, fun j => ?_, fun k' e' hk' => ?_, ?_⟩, ?_⟩
  · rw [hc.nodup.mem_erase_iff, hc.mem j]
    constructor
    · rintro ⟨hji, k', e', hk', rfl⟩
      have hkk : k' ≠ k := fun h => hji (by rw [h, hk] at hk'; cases hk'; rfl)
      exact ⟨k', e', by rwa [Finmap.lookup_erase_ne hkk], rfl⟩
    · rintro ⟨k', e', hk', rfl⟩
      have hkk : k' ≠ k := by
        rintro rfl
        simp at hk'
      rw [Finmap.lookup_erase_ne hkk] at hk'
      exact ⟨fun h => hkk ((hc.slot_eq_iff hk hk').mpr h), k', e', hk', rfl⟩
  · have hkk : k' ≠ k := by
      rintro rfl
      simp at hk'
    rw [Finmap.lookup_erase_ne hkk] at hk'
    exact hc.key k' e' hk'
  · have hin := hc.mem_of_lookup hk
    have hkeys : k ∈ M.keys := Finmap.mem_keys.mpr hmem
    show (c.lru.erase i).length = (M.erase k).keys.card
    rw [List.length_erase_of_mem hin, Finmap.keys_erase, Finset.card_erase_of_mem hkeys, hc.length]
  · show (c.lru.erase i).filterMap (slotEntry ⟨h', c.lru.erase i⟩) = _
    rw [← hc.filterMap_erase hk]
    apply List.filterMap_congr
    intro j hj
    exact hc.slotEntry_congr ⟨h', c.lru.erase i⟩ hr' (List.mem_of_mem_erase hj)
      (hother j hj)

theorem LruInv.remove_of_lookup (hc : LruInv size c M) (hk : M.lookup k = some (i, e)) :
    ∃ c', c.remove size k = .ok c' ∧ LruInv size c' (M.erase k) ∧
      toAbs c' = (toAbs c).kerase k := by
  have hmem : k ∈ M := Finmap.mem_of_lookup_eq_some hk
  obtain ⟨h', hera, hr'⟩ := hc.rep.erase_of_mem hmem
  refine ⟨⟨h', c.lru.erase i⟩, ?_, hc.eraseSlot hk hr'⟩
  simp [remove, hc.rep.find_of_lookup hk, hc.lt_invalid hk, hera]

theorem LruInv.remove_of_not_mem (hc : LruInv size c M) (hk : k ∉ M) :
    c.remove size k = .ok c := by
  simp [remove, hc.rep.find_of_not_mem hk, Pool.invalidPosition]

/-- A full cache: the head of its list is the slot of its least recently used key, and every
    slot is taken, so the free list is empty. -/
theorem LruInv.head_of_full (hc : LruInv size c M) (hpos : 0 < size) (hfull : M.keys.card = size) :
    ∃ i₀ rest k₀ e₀, c.lru = i₀ :: rest ∧ M.lookup k₀ = some (i₀, e₀) ∧
      toAbs c = ⟨k₀, e₀.value⟩ :: rest.filterMap c.slotEntry ∧
      c.map.pool.poolAlloc.freeList = poolAllocatorNullElem ∧
      c.map.pool.poolAlloc.allocEnd = poolAllocatorNullElem := by
  obtain ⟨i₀, rest, hlru⟩ : ∃ i₀ rest, c.lru = i₀ :: rest := by
    cases hl : c.lru with
    | nil =>
      have := hc.length
      rw [hl] at this
      simp at this
      omega
    | cons i₀ rest => exact ⟨i₀, rest, rfl⟩
  obtain ⟨k₀, e₀, hk₀, hs₀⟩ := hc.exists_of_mem (hlru ▸ List.mem_cons_self)
  have hall : ∀ i < size, c.map.pool.allocated i = true := by
    intro i hi
    obtain ⟨k, e, hk, rfl⟩ := hc.rep.slots.exists_of_full hfull hi
    exact (hc.rep.allocated _).mpr ⟨k, e, hk, rfl⟩
  obtain ⟨hfl, hend⟩ := hc.rep.alloc.null_of_full hall
  exact ⟨i₀, rest, k₀, e₀, hlru, hk₀, by rw [toAbs, hlru, List.filterMap_cons_some hs₀], hfl, hend⟩

section Evict

variable (overlay : K → UInt32 → K)

/-- The eviction of a full cache: the key of the head slot finds the slot, which is freed with the
    empty free list's link written over its first word; the key then read through the reference is
    erased from the map in place of the evicted key. -/
theorem LruInv.evict_of_full (hc : LruInv size c M) (hpos : 0 < size) (hfull : M.keys.card = size) :
    ∃ i₀ rest k₀ e₀ h', c.lru = i₀ :: rest ∧ M.lookup k₀ = some (i₀, e₀) ∧
      toAbs c = ⟨k₀, e₀.value⟩ :: rest.filterMap c.slotEntry ∧
      c.map.erase size k₀ = .ok (true, h') ∧ h'.map = Function.update c.map.map k₀ none ∧
      c.evict size overlay =
        .ok ⟨{ h' with map := Function.update c.map.map (overlay k₀ poolAllocatorNullElem) none },
          rest⟩ := by
  obtain ⟨i₀, rest, k₀, e₀, hlru, hk₀, habs, hfl, -⟩ := hc.head_of_full hpos hfull
  have he₀ : c.map.pool.elements i₀ = some e₀ := hc.rep.elements k₀ (i₀, e₀) hk₀
  have hkey : e₀.key = k₀ := hc.key k₀ (i₀, e₀) hk₀
  have hmap : c.map.map k₀ = some i₀ := by simp [hc.rep.map, hk₀]
  obtain ⟨p', hremove, hfreed, hlink⟩ : ∃ p', c.map.pool.remove size i₀ = .ok p' ∧
      p'.elements i₀ = none ∧ p'.poolAlloc.words (UInt32.ofNat i₀) = poolAllocatorNullElem :=
    ⟨_, Pool.remove_eq hc.rep.alloc ((hc.rep.allocated i₀).mpr ⟨k₀, _, hk₀, rfl⟩), by simp,
      by simp [hfl]⟩
  refine ⟨i₀, rest, k₀, e₀, ⟨Function.update c.map.map k₀ none, p'⟩, hlru, hk₀, habs,
    by simp [FixedHash.erase, hmap, hremove], rfl, ?_⟩
  -- the reference reads the key before the slot is freed, and the link over it after
  simp [evict, hlru, he₀, FixedHash.eraseRef, keyRef, hkey, hmap, hremove, hfreed, hlink]

/-- A full cache whose least recently used key the link leaves as it was evicts that key: the
    invariant holds of the map without it, and the abstract cache loses its first entry. -/
theorem LruInv.evict_of_fixed (hc : LruInv size c M) (hpos : 0 < size)
    (hfull : M.keys.card = size)
    (hfix : ∀ e ∈ (toAbs c).head?, overlay e.1 poolAllocatorNullElem = e.1) :
    ∃ k₀, k₀ ∈ M ∧ ∃ c', c.evict size overlay = .ok c' ∧ LruInv size c' (M.erase k₀) ∧
      toAbs c' = (toAbs c).tail := by
  obtain ⟨i₀, rest, k₀, e₀, h', hlru, hk₀, habs, hera, hmap, hevict⟩ :=
    hc.evict_of_full overlay hpos hfull
  have hmem : k₀ ∈ M := Finmap.mem_of_lookup_eq_some hk₀
  have hov : overlay k₀ poolAllocatorNullElem = k₀ := hfix ⟨k₀, e₀.value⟩ (by simp [habs])
  obtain ⟨h'', hera', hr'⟩ := hc.rep.erase_of_mem hmem
  rw [hera] at hera'
  cases hera'
  obtain ⟨hinv, htoAbs⟩ := hc.eraseSlot hk₀ hr'
  have hrest : c.lru.erase i₀ = rest := by rw [hlru, List.erase_cons_head]
  rw [hrest] at hinv htoAbs
  -- the key read after the free is the evicted one, so the map is the one `erase` leaves
  refine ⟨k₀, hmem, ⟨h', rest⟩, by rw [hevict, hov, ← hmap], hinv, ?_⟩
  rw [htoAbs, habs]
  exact List.kerase_cons_eq rfl

end Evict

/-- A key that is not there, in a cache that is not full, is inserted in a free slot, at the
    end of the list. -/
theorem LruInv.insertEntry_of_not_mem (hc : LruInv size c M) (hk : k ∉ M)
    (hlt : M.keys.card < size) (v : T) :
    ∃ i c', c.insertEntry size k v = .ok (some v, c') ∧
      LruInv size c' (M.insert k (i, ⟨k, v⟩)) ∧ toAbs c' = toAbs c ++ [⟨k, v⟩] := by
  obtain ⟨i, h', hins, hi, hfree, hr'⟩ := hc.rep.insert_of_not_mem hk hlt ⟨k, v⟩
  have hlook : (M.insert k (i, ⟨k, v⟩)).lookup k = some (i, ⟨k, v⟩) := Finmap.lookup_insert _
  have hne : i ≠ Pool.invalid size := Nat.ne_of_lt (Pool.lt_invalid hi hc.rep.alloc.size_le)
  have he : h'.pool.elements i = some ⟨k, v⟩ := hr'.elements k (i, ⟨k, v⟩) hlook
  -- the free slot is not on the list, and the other keys keep their slots
  have hnot : i ∉ c.lru := by
    intro hi'
    obtain ⟨k', e', hk', -⟩ := hc.exists_of_mem hi'
    exact hfree k' (i, e') hk' rfl
  have hother : ∀ k' e', M.lookup k' = some e' → (M.insert k (i, ⟨k, v⟩)).lookup k' = some e' := by
    intro k' e' hk'
    have hkk : k' ≠ k := by
      rintro rfl
      exact hk (Finmap.mem_of_lookup_eq_some hk')
    rwa [Finmap.lookup_insert_of_ne _ hkk]
  refine ⟨i, ⟨h', c.lru ++ [i]⟩, by simp [insertEntry, hins, hne, he], ⟨hr', ?_, fun j => ?_,
    fun k' e' hk' => ?_, ?_⟩, ?_⟩
  · simp only [List.nodup_append, hc.nodup, List.nodup_singleton, List.mem_singleton, true_and]
    rintro a ha b rfl rfl
    exact hnot ha
  · rw [List.mem_append, hc.mem j, List.mem_singleton]
    constructor
    · rintro (⟨k', e', hk', rfl⟩ | rfl)
      · exact ⟨k', e', hother k' e' hk', rfl⟩
      · exact ⟨k, _, hlook, rfl⟩
    · rintro ⟨k', e', hk', rfl⟩
      by_cases hkk : k' = k
      · subst hkk
        rw [hlook] at hk'
        cases hk'
        exact .inr rfl
      · rw [Finmap.lookup_insert_of_ne _ hkk] at hk'
        exact .inl ⟨k', e', hk', rfl⟩
  · by_cases hkk : k' = k
    · subst hkk
      rw [hlook] at hk'
      cases hk'
      rfl
    · rw [Finmap.lookup_insert_of_ne _ hkk] at hk'
      exact hc.key k' e' hk'
  · show (c.lru ++ [i]).length = (M.insert k (i, ⟨k, v⟩)).keys.card
    rw [keys_insert, Finset.card_insert_of_notMem (fun h => hk (Finmap.mem_keys.mp h)),
      List.length_append, hc.length]
    rfl
  · show (c.lru ++ [i]).filterMap (slotEntry ⟨h', c.lru ++ [i]⟩) = _
    have hs : (slotEntry ⟨h', c.lru ++ [i]⟩) i = some ⟨k, v⟩ := by simp [slotEntry, he]
    rw [List.filterMap_append, toAbs]
    congr 1
    · apply List.filterMap_congr
      intro j hj
      exact hc.slotEntry_congr ⟨h', c.lru ++ [i]⟩ hr' hj fun k' e' hk' => hother k' _ hk'
    · simp [hs]

theorem LruInv.insertEntry_of_mem (hc : LruInv size c M) (hk : k ∈ M) (v : T) :
    c.insertEntry size k v = .ok (none, c) := by
  simp [insertEntry, hc.rep.insert_of_mem hk, Pool.invalidPosition]

theorem card_erase_of_full {M : AbsMap K (LruEntry K T)} {k : K} (hk : k ∈ M) (hpos : 0 < size)
    (hfull : M.keys.card = size) : (M.erase k).keys.card < size := by
  rw [Finmap.keys_erase, Finset.card_erase_of_mem (Finmap.mem_keys.mpr hk)]
  omega

/-- The calls on which the cache answers as the abstract cache does: all but the insertions into
    a full cache of a key that is there, or of any key when the link written over the evicted slot
    changes its key. -/
def Faithful (size : Nat) (overlay : K → UInt32 → K) (A : AbsLru K T) : Op K T → Prop
  | .insert k _ =>
    A.length < size ∨ (k ∉ A.keys ∧ ∀ e ∈ A.head?, overlay e.1 poolAllocatorNullElem = e.1)
  | .find _ => True
  | .remove _ => True

instance (size : Nat) (overlay : K → UInt32 → K) (A : AbsLru K T) :
    (op : Op K T) → Decidable (Faithful size overlay A op)
  | .insert _ _ => inferInstanceAs (Decidable (_ ∨ _))
  | .find _ => inferInstanceAs (Decidable True)
  | .remove _ => inferInstanceAs (Decidable True)

section Insert

variable (overlay : K → UInt32 → K)

theorem LruInv.insert_of_not_full (hc : LruInv size c M) (hlt : M.keys.card < size) (v : T) :
    c.insert size overlay k v = c.insertEntry size k v := by
  have hnf : c.full size = false := by
    cases hf : c.full size
    · rfl
    · have := hc.full_iff.mp hf
      omega
  simp [insert, hnf]

theorem LruInv.insert_of_full (hc : LruInv size c M) (hfull : M.keys.card = size) (v : T) :
    c.insert size overlay k v = c.evict size overlay >>= fun c₁ => c₁.insertEntry size k v := by
  simp [insert, hc.full_iff.mpr hfull]

/-- Every faithful insertion keeps the invariant, and answers and moves as the abstract cache. -/
theorem LruInv.insert_spec (hc : LruInv size c M) (hpos : 0 < size) (k : K) (v : T)
    (hf : Faithful size overlay (toAbs c) (.insert k v)) :
    ∃ c' M', c.insert size overlay k v = .ok ((absInsert size (toAbs c) k v).1, c') ∧
      LruInv size c' M' ∧ toAbs c' = (absInsert size (toAbs c) k v).2 := by
  have hle : M.keys.card ≤ size := hc.rep.slots.card
  by_cases hfull : M.keys.card = size
  · -- a new key, and the oldest entry makes room
    obtain ⟨hkA, hfix⟩ := hf.resolve_left (by rw [hc.length_toAbs]; omega)
    have hk : k ∉ M := fun h => hkA (hc.mem_keys_toAbs.mpr h)
    obtain ⟨k₀, hk₀, c₁, hevict, hc₁, habs₁⟩ := hc.evict_of_fixed overlay hpos hfull hfix
    have hnot : k ∉ M.erase k₀ := fun h => hk (Finmap.mem_erase.mp h).2
    obtain ⟨i, c', hins, hc', habs'⟩ :=
      hc₁.insertEntry_of_not_mem hnot (card_erase_of_full hk₀ hpos hfull) v
    have habsIns : absInsert size (toAbs c) k v = (some v, (toAbs c).tail ++ [⟨k, v⟩]) := by
      simp [absInsert, hkA, hc.length_toAbs, hfull]
    refine ⟨c', _, ?_, hc', by rw [habs', habs₁, habsIns]⟩
    rw [hc.insert_of_full overlay hfull, hevict, habsIns]
    exact hins
  · rw [hc.insert_of_not_full overlay (by omega)]
    by_cases hk : k ∈ M
    · -- the insertion fails and changes nothing
      have hkA : k ∈ (toAbs c).keys := hc.mem_keys_toAbs.mpr hk
      refine ⟨c, M, ?_, hc, by simp [absInsert, hkA]⟩
      rw [hc.insertEntry_of_mem hk]
      simp [absInsert, hkA]
    · have hkA : k ∉ (toAbs c).keys := fun h => hk (hc.mem_keys_toAbs.mp h)
      obtain ⟨i, c', hins, hc', habs'⟩ := hc.insertEntry_of_not_mem hk (by omega) v
      have habsIns : absInsert size (toAbs c) k v = (some v, toAbs c ++ [⟨k, v⟩]) := by
        simp [absInsert, hkA, hc.length_toAbs, hfull]
      exact ⟨c', _, by rw [habsIns]; exact hins, hc', by rw [habs', habsIns]⟩

/-- Every faithful call keeps the invariant, and answers and moves as the abstract cache read off
    the list. -/
theorem LruInv.step (hc : LruInv size c M) (hpos : 0 < size) (op : Op K T)
    (hf : Faithful size overlay (toAbs c) op) :
    ∃ c' M', step size overlay c op = .ok ((absStep size (toAbs c) op).1, c') ∧
      LruInv size c' M' ∧ toAbs c' = (absStep size (toAbs c) op).2 := by
  cases op with
  | find k =>
    rcases hk : M.lookup k with _ | ⟨i, e⟩
    · have hnot : k ∉ M := Finmap.lookup_eq_none.mp hk
      refine ⟨c, M, ?_, hc, ?_⟩
      · simp [LRU.step, hc.find_of_not_mem hnot, absStep, absFind, hc.dlookup_toAbs_of_not_mem hnot]
      · simp [absStep, absFind, hc.dlookup_toAbs_of_not_mem hnot]
    · refine ⟨_, M, ?_, hc.moveToEnd hk, ?_⟩
      · simp [LRU.step, hc.find_of_lookup hk, absStep, absFind, hc.dlookup_toAbs hk]
      · simp [absStep, absFind, hc.dlookup_toAbs hk, hc.toAbs_moveToEnd hk]
  | insert k v =>
    obtain ⟨c', M', hins, hc', habs⟩ := hc.insert_spec overlay hpos k v hf
    exact ⟨c', M', by simp [LRU.step, hins, absStep], hc', habs⟩
  | remove k =>
    rcases hk : M.lookup k with _ | ⟨i, e⟩
    · have hnot : k ∉ (toAbs c).keys := fun h =>
        (Finmap.lookup_eq_none.mp hk) (hc.mem_keys_toAbs.mp h)
      refine ⟨c, M, ?_, hc, ?_⟩
      · simp [LRU.step, hc.remove_of_not_mem (Finmap.lookup_eq_none.mp hk), absStep]
      · simp [absStep, absRemove, List.kerase_of_notMem_keys hnot]
    · obtain ⟨c', hrem, hc', habs⟩ := hc.remove_of_lookup hk
      exact ⟨c', _, by simp [LRU.step, hrem, absStep], hc', by simp [absStep, absRemove, habs]⟩

end Insert

/-! ## Whole runs -/

/-- A run of faithful calls from a cache of the invariant answers as the abstract cache read off
    its list, and keeps the invariant. -/
theorem LruInv.run_faithful (overlay : K → UInt32 → K) (hc : LruInv size c M) (hpos : 0 < size)
    (ops : List (Op K T))
    (hops : Simulation.Guarded (Faithful size overlay) (fun A op => (absStep size A op).2)
      (toAbs c) ops) :
    ∃ c', Simulation.runImpl (LRU.step size overlay) c ops = .ok ((absRun size (toAbs c) ops).1, c') ∧
      (∃ M', LruInv size c' M') ∧ toAbs c' = (absRun size (toAbs c) ops).2 := by
  have hstep : ∀ (c : LRU K T) A op, ((∃ M, LruInv size c M) ∧ toAbs c = A) →
      Faithful size overlay A op → ∃ c', LRU.step size overlay c op = .ok ((absStep size A op).1, c') ∧
        (∃ M', LruInv size c' M') ∧ toAbs c' = (absStep size A op).2 := by
    rintro c A op ⟨⟨M, hc⟩, rfl⟩ hf
    obtain ⟨c', M', hstep, hc', habs⟩ := hc.step overlay hpos op hf
    exact ⟨c', hstep, ⟨M', hc'⟩, habs⟩
  obtain ⟨c', hrun, hR⟩ := Simulation.refines_guarded _ hstep ops c (toAbs c) ⟨⟨M, hc⟩, rfl⟩ hops
  exact ⟨c', hrun, hR⟩

/-- Every run of faithful calls from a new cache succeeds and answers as the abstract cache, and
    its list always links exactly the entries of its map. -/
theorem lru_refines_abstract_cache (size : Nat) (hsize : 0 < size ∧ size ≤ 2 ^ 30)
    (mem : UInt32 → UInt32) (overlay : K → UInt32 → K) (ops : List (Op K T))
    (hops : Simulation.Guarded (Faithful size overlay) (fun A op => (absStep size A op).2) [] ops) :
    ∃ c, Simulation.runImpl (step size overlay) (new size mem) ops = .ok ((absRun size [] ops).1, c) ∧
      (∃ M, LruInv size c M) ∧ toAbs c = (absRun size [] ops).2 :=
  (lruInv_new mem hsize.1 hsize.2).run_faithful overlay hsize.1 ops hops

/-- With `int` keys a key reads as the link written over it, and the evicted key `-1` is the one
    the empty free list's link leaves as it was. -/
theorem lru_refines_abstract_cache_int_keys :
    Simulation.Guarded (Faithful 2 fun _ w => w.toInt32) (fun A op => (absStep 2 A op).2) []
        [.insert (-1 : Int32) (10 : Int32), .insert 2 20, .insert 3 30, .find (-1), .find 2] ∧
      ∃ c, Simulation.runImpl (step 2 fun _ w => w.toInt32) (new 2 fun _ => 0)
          [.insert (-1 : Int32) (10 : Int32), .insert 2 20, .insert 3 30, .find (-1), .find 2] =
          .ok ((absRun 2 [] [.insert (-1 : Int32) (10 : Int32), .insert 2 20, .insert 3 30,
            .find (-1), .find 2]).1, c) ∧
        (∃ M, LruInv 2 c M) ∧ toAbs c = (absRun 2 [] [.insert (-1 : Int32) (10 : Int32),
          .insert 2 20, .insert 3 30, .find (-1), .find 2]).2 := by
  have hops : Simulation.Guarded (Faithful 2 fun _ w => w.toInt32) (fun A op => (absStep 2 A op).2) []
      [.insert (-1 : Int32) (10 : Int32), .insert 2 20, .insert 3 30, .find (-1), .find 2] := by
    simp only [Simulation.Guarded]
    decide
  exact ⟨hops, lru_refines_abstract_cache 2 ⟨by decide, by decide⟩ _ _ _ hops⟩

/-! ## The evicted key stays in the map -/

/-- Inserting keys that are not there into a cache with room for them, the abstract cache appends
    them and answers each value. -/
theorem guarded_inserts (overlay : K → UInt32 → K) (kvs : List (K × T)) :
    ∀ A : AbsLru K T, (A.keys ++ kvs.map Prod.fst).Nodup → A.length + kvs.length ≤ size →
      Simulation.Guarded (Faithful size overlay) (fun A op => (absStep size A op).2) A
          (kvs.map fun p => .insert p.1 p.2) ∧
        absRun size A (kvs.map fun p => .insert p.1 p.2) =
          (kvs.map fun p => .insert (some p.2), A ++ kvs.map fun p => ⟨p.1, p.2⟩) := by
  induction kvs with
  | nil =>
    intro A _ _
    exact ⟨trivial, by simp [absRun, Simulation.runFn]⟩
  | cons p kvs ih =>
    intro A hnodup hlen
    have hp : p.1 ∉ A.keys := by
      intro h
      exact (List.nodup_append.mp hnodup).2.2 _ h _ List.mem_cons_self rfl
    have hins : absStep size A (.insert p.1 p.2) = (.insert (some p.2), A ++ [⟨p.1, p.2⟩]) := by
      simp only [List.length_cons] at hlen
      simp [absStep, absInsert, hp, show A.length ≠ size by omega]
    have hnodup' : ((A ++ [(⟨p.1, p.2⟩ : (_ : K) × T)]).keys ++ kvs.map Prod.fst).Nodup := by
      simpa [List.keys, List.nodup_append, or_imp, forall_and] using hnodup
    obtain ⟨hG, hrun⟩ := ih (A ++ [⟨p.1, p.2⟩]) hnodup' (by simp at hlen ⊢; omega)
    refine ⟨⟨Or.inl (by simp at hlen; omega), by simpa only [hins] using hG⟩, ?_⟩
    simp only [List.map_cons, absRun, Simulation.runFn, hins]
    simp only [absRun] at hrun
    rw [hrun]
    simp

/-- A full cache whose least recently used key `k₀` the link changes: `map_.erase` erases the
    changed key and `k₀` keeps naming its freed slot; a new key takes that slot, and finding `k₀`
    then answers the new key's value. -/
theorem LruInv.insert_find_of_unfixed (overlay : K → UInt32 → K) (hc : LruInv size c M)
    (hpos : 0 < size) (hfull : M.keys.card = size) {k₀ : K} {v₀ : T}
    (hhead : (toAbs c).head? = some ⟨k₀, v₀⟩) (hov : overlay k₀ poolAllocatorNullElem ≠ k₀)
    {k : K} (hk : k ∉ M) (v : T) :
    ∃ c₁ c₂, c.insert size overlay k v = .ok (some v, c₁) ∧ c₁.find size k₀ = .ok (some v, c₂) := by
  obtain ⟨i₀, rest, k₀', e₀, h', hlru, hk₀, habs, hera, -, hevict⟩ :=
    hc.evict_of_full overlay hpos hfull
  obtain ⟨-, -, -, -, -, -, -, hfl, hend⟩ := hc.head_of_full hpos hfull
  have hk₀' : k₀' = k₀ := by
    rw [habs] at hhead
    simp only [List.head?_cons, Option.some.injEq, Sigma.mk.injEq] at hhead
    exact hhead.1
  subst hk₀'
  have hmap : c.map.map k₀' = some i₀ := by simp [hc.rep.map, hk₀]
  have hi₀ : i₀ < size := hc.rep.slots.lt _ _ hk₀
  have hsize := hc.rep.alloc.size_le
  have hremove := Pool.remove_eq hc.rep.alloc ((hc.rep.allocated i₀).mpr ⟨k₀', _, hk₀, rfl⟩)
  simp only [FixedHash.erase, hmap, hremove, pure_eq_ok, ok_bind, Except.ok.injEq,
    Prod.mk.injEq, true_and] at hera
  subst hera
  have hkk : k ≠ k₀' := fun h => hk (h ▸ Finmap.mem_of_lookup_eq_some hk₀)
  have hmapk : c.map.map k = none := by simp [hc.rep.map, Finmap.lookup_eq_none.mpr hk]
  have hcount : c.map.pool.elemCount = size := hc.rep.count.trans hfull
  have hi₀' : (UInt32.ofNat i₀).toNat = i₀ := toNat_ofNat_of_lt (by omega)
  have hnull : UInt32.ofNat i₀ ≠ poolAllocatorNullElem := ne_null_of_lt (by omega)
  have hle : UInt32.ofNat i₀ ≤ c.map.pool.poolAlloc.allocEnd := by
    rw [hend, UInt32.le_iff_toNat_le, hi₀', toNat_null]
    omega
  have halloc := PoolAllocator.alloc_of_freed
    (m := { c.map.pool.poolAlloc with
      words := Function.update c.map.pool.poolAlloc.words (UInt32.ofNat i₀) c.map.pool.poolAlloc.freeList
      freeList := UInt32.ofNat i₀ }) hle hnull (hend ▸ hnull)
  -- the freed slot is the only free one: the new key takes it
  have hsub : size - 1 ≠ size := by omega
  have hmapk' : Function.update c.map.map (overlay k₀' poolAllocatorNullElem) none k = none := by
    rw [Function.update_apply]
    split_ifs
    · rfl
    · exact hmapk
  have hmod : i₀ % 4294967296 = i₀ := Nat.mod_eq_of_lt (by omega)
  have hidx : Pool.toIndexType size (UInt32.ofNat i₀) = i₀ := by
    rw [Pool.toIndexType_of_lt (by rw [hi₀']; exact hi₀), hi₀']
  have hinv : i₀ ≠ Pool.invalid size := hc.lt_invalid hk₀
  have hnull' : UInt32.ofNat i₀ ≠ 4294967295 := hnull
  simp only [LRU.insert, hc.full_iff.mpr hfull]
  simp [hevict, insertEntry, FixedHash.insert, Pool.full, hcount, Pool.emplace, halloc, hsub, hmapk',
    hmod, hidx, hinv, hnull']
  -- the evicted key still names the slot, which now holds the new entry
  have hmap₀ : Function.update (Function.update c.map.map (overlay k₀' poolAllocatorNullElem) none) k
      (some i₀) k₀' = some i₀ := by
    rw [Function.update_of_ne (Ne.symm hkk), Function.update_of_ne (Ne.symm hov), hmap]
  simp [find, FixedHash.find, hmap₀, Pool.slot, hi₀, hinv]

omit [DecidableEq K] in
theorem toAbs_new (size : Nat) (mem : UInt32 → UInt32) : toAbs (new size mem : LRU K T) = [] := rfl

/-- Filling a new cache with distinct keys and inserting one more new key evicts the first key
    `k₀`. When the link written over its slot changes it, `map_.erase` erases the changed key,
    `k₀` keeps naming the freed slot, the new key takes that slot, and finding `k₀` answers the
    new key's value, where the abstract cache, which evicted `k₀`, answers `nullptr`. -/
theorem lru_evicted_key_finds_new_value (size : Nat) (hsize : 0 < size ∧ size ≤ 2 ^ 30)
    (mem : UInt32 → UInt32) (overlay : K → UInt32 → K) (kvs : List (K × T))
    (hnodup : (kvs.map Prod.fst).Nodup) (hlen : kvs.length = size) (k₀ : K) (v₀ : T)
    (hhead : kvs.head? = some (k₀, v₀)) (hov : overlay k₀ poolAllocatorNullElem ≠ k₀) (k : K)
    (v : T) (hk : k ∉ kvs.map Prod.fst) :
    (∃ c, Simulation.runImpl (step size overlay) (new size mem)
        (kvs.map (fun p => Op.insert p.1 p.2) ++ [.insert k v, .find k₀]) =
        .ok (kvs.map (fun p => Out.insert (some p.2)) ++ [.insert (some v), .find (some v)], c)) ∧
      (absRun size [] (kvs.map (fun p => Op.insert p.1 p.2) ++ [.insert k v, .find k₀])).1 =
        kvs.map (fun p => Out.insert (some p.2)) ++ [.insert (some v), .find none] := by
  -- the insertions fill the cache as they fill the abstract one
  obtain ⟨hG, habsIns⟩ := guarded_inserts overlay kvs [] (by simpa using hnodup)
    (show [].length + kvs.length ≤ size by simp [hlen])
  obtain ⟨c, hrun, ⟨M, hc⟩, habs⟩ :=
    (lruInv_new (K := K) (T := T) mem hsize.1 hsize.2).run_faithful overlay hsize.1 _ hG
  rw [toAbs_new, habsIns] at hrun habs
  simp only [List.nil_append] at habs
  have hkeys : (toAbs c).keys = kvs.map Prod.fst := by simp [habs, List.keys]
  have hfull : M.keys.card = size := by rw [← hc.length_toAbs, habs, List.length_map, hlen]
  have hhead' : (toAbs c).head? = some ⟨k₀, v₀⟩ := by
    rw [habs, List.head?_map, hhead]
    rfl
  have hkM : k ∉ M := fun h => hk (hkeys ▸ hc.mem_keys_toAbs.mpr h)
  obtain ⟨c₁, c₂, hins, hfind⟩ := hc.insert_find_of_unfixed overlay hsize.1 hfull hhead' hov hkM v
  refine ⟨⟨c₂, ?_⟩, ?_⟩
  · rw [Simulation.runImpl_append_of_ok hrun]
    simp [Simulation.runImpl, LRU.step, hins, hfind]
    rfl
  · -- the abstract cache evicts `k₀` and cannot find it again
    simp only [absRun, Simulation.runFn_append]
    simp only [absRun] at habsIns
    rw [habsIns]
    obtain ⟨⟨k₀', v₀'⟩, rest, hkvs⟩ : ∃ p rest, kvs = p :: rest := by
      cases kvs with
      | nil => simp at hhead
      | cons p rest => exact ⟨p, rest, rfl⟩
    subst hkvs
    simp only [List.head?_cons, Option.some.injEq, Prod.mk.injEq] at hhead
    obtain ⟨rfl, rfl⟩ := hhead
    have hkk : k ≠ k₀' := fun h => hk (by simp [h])
    have hcond : ¬(k = k₀' ∨ k ∈ (rest.map fun p => (⟨p.1, p.2⟩ : (_ : K) × T)).keys) := by
      simpa [List.keys] using hk
    have hlen' : rest.length + 1 = size := by simpa using hlen
    have hlook : List.dlookup k₀' (rest.map fun p => (⟨p.1, p.2⟩ : (_ : K) × T)) = none :=
      List.dlookup_eq_none.mpr (by simpa [List.keys] using (List.nodup_cons.mp hnodup).1)
    have hlook' : List.dlookup k₀' [(⟨k, v⟩ : (_ : K) × T)] = none :=
      List.dlookup_eq_none.mpr (by simpa [List.keys] using Ne.symm hkk)
    simp [Simulation.runFn, absStep, absInsert, absFind, hcond, hlen', hlook, hlook']

/-- The failing run with `int` keys and values: `insert(1, 10)`, `insert(2, 20)`,
    `insert(3, 30)`, then `find(1)` answers key 3's value 30. -/
theorem lru_evicted_key_finds_new_value_int :
    ([(1, 10), (2, 20)].map Prod.fst : List Int32).Nodup ∧ [((1 : Int32), (10 : Int32)), (2, 20)].length = 2 ∧
      (0 < 2 ∧ 2 ≤ 2 ^ 30) ∧ (0xFFFFFFFF : UInt32).toInt32 ≠ 1 ∧ (3 : Int32) ∉ [(1, 10), (2, 20)].map Prod.fst ∧
      (∃ c, Simulation.runImpl (step 2 fun _ w => w.toInt32) (new 2 fun _ => 0)
          [.insert (1 : Int32) (10 : Int32), .insert 2 20, .insert 3 30, .find 1] =
          .ok ([.insert (some 10), .insert (some 20), .insert (some 30), .find (some 30)], c)) ∧
      (absRun 2 [] [.insert (1 : Int32) (10 : Int32), .insert 2 20, .insert 3 30, .find 1]).1 =
        [.insert (some 10), .insert (some 20), .insert (some 30), .find none] :=
  ⟨by decide, rfl, ⟨by decide, by decide⟩, by decide, by decide,
    lru_evicted_key_finds_new_value 2 ⟨by decide, by decide⟩ (fun _ => 0) (fun _ w => w.toInt32)
      [(1, 10), (2, 20)] (by decide) rfl 1 10 rfl (by decide) 3 30 (by decide)⟩

end LRU

end OtelNetwork
