import OtelNetwork.FixedHash.Basic
import OtelNetwork.Lib.Links
import OtelNetwork.Lib.Rust

/-!
# `pool_allocator` never hands out an allocated slot

`AllocInv` ties the allocator to the pool's bitmap of allocated slots: no slot at or above the
frontier (the first slot never handed out) is allocated, and the free list runs from `free_list`
through every free slot below the frontier, each once, to `alloc_end`. `alloc` then returns a
free slot whenever one exists, `free` links an allocated slot back in, and each keeps the
invariant for the bitmap with that slot set or cleared; neither ever fails an `assert`. The
`Pool` lemmas lift this to `emplace` (also when the constructor throws and the slot goes back)
and `remove`.
-/

namespace OtelNetwork

open Links RustSem

namespace PoolAllocator

/-- The first slot never handed out: `alloc_end`, or `n_elems` once every slot has been. -/
def frontier (m : PoolAllocator) : Nat :=
  if m.allocEnd = poolAllocatorNullElem then m.nElems.toNat else m.allocEnd.toNat

/-- The allocator of a pool of `size` slots, with `allocated` its bitmap. -/
structure AllocInv (size : Nat) (m : PoolAllocator) (allocated : Nat → Bool) : Prop where
  size_pos : 0 < size
  size_le : size ≤ 2 ^ 30
  nElems : m.nElems.toNat = size
  allocEnd : m.allocEnd = poolAllocatorNullElem ∨ m.allocEnd.toNat < size
  bound : ∀ i, allocated i = true → i < size
  fresh : ∀ i, m.frontier ≤ i → allocated i = false
  chain : ∃ l, Path m.words m.freeList l m.allocEnd ∧ l.Nodup ∧
    ∀ x : UInt32, x ∈ l ↔ x.toNat < m.frontier ∧ allocated x.toNat = false

theorem toNat_null : poolAllocatorNullElem.toNat = 2 ^ 32 - 1 := rfl

theorem ne_null_of_lt {x : UInt32} (hx : x.toNat < 2 ^ 30) : x ≠ poolAllocatorNullElem := by
  rintro rfl
  rw [toNat_null] at hx
  omega

theorem toNat_ofNat_of_lt {i : Nat} (hi : i < 2 ^ 32) : (UInt32.ofNat i).toNat = i := by
  rw [UInt32.toNat_ofNat']
  exact Nat.mod_eq_of_lt hi

/-! ## Spec lemmas -/

variable {m : PoolAllocator}

theorem alloc_of_freed (hle : m.freeList ≤ m.allocEnd) (hnull : m.freeList ≠ poolAllocatorNullElem)
    (hne : m.freeList ≠ m.allocEnd) :
    m.alloc = .ok (m.freeList,
      { m with freeList := m.words m.freeList, words := Function.update m.words m.freeList 0 }) := by
  simp [alloc, hle, hnull, hne]

theorem alloc_of_frontier (hnull : m.allocEnd ≠ poolAllocatorNullElem)
    (heq : m.freeList = m.allocEnd) :
    m.alloc = .ok (m.allocEnd,
      let next := if m.allocEnd < m.nElems - 1 then m.allocEnd + 1 else poolAllocatorNullElem
      { m with freeList := next, allocEnd := next, words := Function.update m.words m.allocEnd 0 }) := by
  simp [alloc, heq, hnull]

theorem free_of_lt {id : UInt32} (hid : id < m.nElems) :
    m.free id = .ok { m with words := Function.update m.words id m.freeList, freeList := id } := by
  simp [free, hid]

/-- The frontier after slot `alloc_end` is handed out for the first time. -/
theorem frontier_moved (ha : m.allocEnd.toNat < m.nElems.toNat) (hn : m.nElems.toNat ≤ 2 ^ 30)
    (f : UInt32) (w : UInt32 → UInt32) :
    let next := if m.allocEnd < m.nElems - 1 then m.allocEnd + 1 else poolAllocatorNullElem
    ({ m with freeList := f, allocEnd := next, words := w } : PoolAllocator).frontier =
        m.allocEnd.toNat + 1 ∧
      (next = poolAllocatorNullElem ∨ next.toNat < m.nElems.toNat) := by
  intro next
  have hsub : (m.nElems - 1).toNat = m.nElems.toNat - 1 := by
    rw [UInt32.toNat_sub_of_le _ _ (by rw [UInt32.le_iff_toNat_le]; simp; omega)]
    rfl
  by_cases hlast : m.allocEnd < m.nElems - 1
  · -- the next slot is the new frontier
    have hlt : m.allocEnd.toNat < m.nElems.toNat - 1 := by
      rw [UInt32.lt_iff_toNat_lt, hsub] at hlast
      exact hlast
    have hsucc : (m.allocEnd + 1).toNat = m.allocEnd.toNat + 1 := by
      rw [UInt32.toNat_add]
      simp only [UInt32.toNat_one]
      omega
    have hnext : next = m.allocEnd + 1 := if_pos hlast
    have hnull : m.allocEnd + 1 ≠ poolAllocatorNullElem := ne_null_of_lt (by omega)
    refine ⟨?_, Or.inr (by rw [hnext, hsucc]; omega)⟩
    simp only [frontier, hnext, hnull, if_false, hsucc]
  · -- the last slot: every slot has now been handed out
    have hge : m.nElems.toNat - 1 ≤ m.allocEnd.toNat := by
      rw [UInt32.lt_iff_toNat_lt, hsub] at hlast
      omega
    have hnext : next = poolAllocatorNullElem := if_neg hlast
    refine ⟨?_, Or.inl hnext⟩
    simp only [frontier, hnext, if_true]
    omega

/-! ## The invariant -/

variable {size : Nat} {allocated : Nat → Bool}

theorem AllocInv.frontier_le (h : AllocInv size m allocated) : m.frontier ≤ size := by
  unfold frontier
  split_ifs with hnull
  · exact Nat.le_of_eq h.nElems
  · exact Nat.le_of_lt (h.allocEnd.resolve_left hnull)

theorem AllocInv.lt_frontier (h : AllocInv size m allocated) {i : Nat}
    (hi : allocated i = true) : i < m.frontier := by
  by_contra hle
  rw [h.fresh i (Nat.le_of_not_lt hle)] at hi
  cases hi

theorem allocInv_init (words : UInt32 → UInt32) (hpos : 0 < size) (hle : size ≤ 2 ^ 30) :
    AllocInv size (init words (UInt32.ofNat size)) fun _ => false where
  size_pos := hpos
  size_le := hle
  nElems := toNat_ofNat_of_lt (by omega)
  allocEnd := Or.inr (by simpa [init] using hpos)
  bound _ h := by cases h
  fresh _ _ := rfl
  chain := ⟨[], .nil 0, List.nodup_nil, fun x => by simp [frontier, init, poolAllocatorNullElem]⟩

/-- `alloc` hands out a free slot whenever there is one, with no failed `assert`. -/
theorem AllocInv.alloc (h : AllocInv size m allocated) (hfree : ∃ i < size, allocated i = false) :
    ∃ id m', m.alloc = .ok (id, m') ∧ id.toNat < size ∧ allocated id.toNat = false ∧
      AllocInv size m' (Function.update allocated id.toNat true) := by
  obtain ⟨l, hpath, hnodup, hmem⟩ := h.chain
  cases l with
  | nil =>
    -- the free list is down to the frontier, which moves
    have heq : m.freeList = m.allocEnd := Path.nil_iff.mp hpath
    have hend : m.allocEnd ≠ poolAllocatorNullElem := by
      intro hnull
      obtain ⟨i, hi, hai⟩ := hfree
      have hfr : m.frontier = size := by simp [frontier, hnull, h.nElems]
      have hx := (hmem (UInt32.ofNat i)).mpr
      rw [toNat_ofNat_of_lt (by have := h.size_le; omega), hfr] at hx
      exact List.not_mem_nil (hx ⟨hi, hai⟩)
    have hlt : m.allocEnd.toNat < size := h.allocEnd.resolve_left hend
    have hfront : m.frontier = m.allocEnd.toNat := by simp [frontier, hend]
    obtain ⟨hfront', hend'⟩ := frontier_moved (m := m) (h.nElems ▸ hlt) (h.nElems ▸ h.size_le)
      (if m.allocEnd < m.nElems - 1 then m.allocEnd + 1 else poolAllocatorNullElem)
      (Function.update m.words m.allocEnd 0)
    rw [alloc_of_frontier hend heq]
    refine ⟨_, _, rfl, hlt, h.fresh _ (Nat.le_of_eq hfront), ⟨h.size_pos, h.size_le, h.nElems, ?_, ?_, ?_, ?_⟩⟩
    · rw [← h.nElems]
      exact hend'
    · intro i hi
      by_cases hia : i = m.allocEnd.toNat
      · exact hia ▸ hlt
      · rw [Function.update_of_ne hia] at hi
        exact h.bound i hi
    · intro i hi
      rw [hfront'] at hi
      rw [Function.update_of_ne (by omega)]
      exact h.fresh i (by omega)
    · refine ⟨[], .nil _, List.nodup_nil, fun x => ?_⟩
      simp only [List.not_mem_nil, false_iff, not_and, hfront']
      intro hx
      by_cases hxa : x.toNat = m.allocEnd.toNat
      · simp [hxa]
      · -- a slot below the old frontier is not on the (empty) free list, so it is allocated
        have hold := (hmem x).not.mp (List.not_mem_nil)
        rw [Function.update_of_ne hxa]
        simp only [not_and, Bool.not_eq_false] at hold
        simp [hold (by omega)]
  | cons x l =>
    -- a freed slot is handed out again
    obtain ⟨hx, hxl⟩ := List.nodup_cons.mp hnodup
    have hxmem := (hmem x).mp List.mem_cons_self
    have hxlt : x.toNat < size := Nat.lt_of_lt_of_le hxmem.1 h.frontier_le
    have hfl : m.freeList = x := (Path.cons_iff.mp hpath).1
    have hnull : x ≠ poolAllocatorNullElem := ne_null_of_lt (by have := h.size_le; omega)
    have hle : x ≤ m.allocEnd ∧ x ≠ m.allocEnd := by
      by_cases hend : m.allocEnd = poolAllocatorNullElem
      · rw [hend]
        refine ⟨?_, hnull⟩
        rw [UInt32.le_iff_toNat_le, toNat_null]
        have := x.toNat_lt
        omega
      · have hfront : m.frontier = m.allocEnd.toNat := by simp [frontier, hend]
        have hlt := hfront ▸ hxmem.1
        refine ⟨UInt32.le_iff_toNat_le.mpr (Nat.le_of_lt hlt), ?_⟩
        rintro rfl
        omega
    rw [hfl] at hpath
    rw [alloc_of_freed (hfl ▸ hle.1) (hfl ▸ hnull) (hfl ▸ hle.2), hfl]
    refine ⟨_, _, rfl, hxlt, hxmem.2, ⟨h.size_pos, h.size_le, h.nElems, h.allocEnd, ?_, ?_, ?_⟩⟩
    · intro i hi
      by_cases hix : i = x.toNat
      · exact hix ▸ hxlt
      · rw [Function.update_of_ne hix] at hi
        exact h.bound i hi
    · intro i hi
      have hix : i ≠ x.toNat := by
        have : x.toNat < m.frontier := hxmem.1
        change m.frontier ≤ i at hi
        omega
      rw [Function.update_of_ne hix]
      exact h.fresh i hi
    · refine ⟨l, (hpath.pop hx 0).2, hxl, fun y => ?_⟩
      change y ∈ l ↔ y.toNat < m.frontier ∧ _
      by_cases hyx : y = x
      · subst hyx
        simp [hx]
      · have hyx' : y.toNat ≠ x.toNat := fun h' => hyx (UInt32.toNat_inj.mp h')
        rw [Function.update_of_ne hyx', ← hmem y, List.mem_cons]
        simp [hyx]

/-- With every slot allocated, the free list is empty and every slot has been handed out. -/
theorem AllocInv.null_of_full (h : AllocInv size m allocated) (hall : ∀ i < size, allocated i = true) :
    m.freeList = poolAllocatorNullElem ∧ m.allocEnd = poolAllocatorNullElem := by
  obtain ⟨l, hpath, -, hmem⟩ := h.chain
  have hnil : l = [] := by
    rcases l with _ | ⟨x, l⟩
    · rfl
    · have hx := (hmem x).mp List.mem_cons_self
      rw [hall x.toNat (Nat.lt_of_lt_of_le hx.1 h.frontier_le)] at hx
      cases hx.2
  subst hnil
  have hend : m.allocEnd = poolAllocatorNullElem := by
    by_contra hnull
    have hlt := h.allocEnd.resolve_left hnull
    have hfr : m.frontier ≤ m.allocEnd.toNat := by simp [frontier, hnull]
    have := hall _ hlt
    rw [h.fresh _ hfr] at this
    cases this
  exact ⟨(Path.nil_iff.mp hpath).trans hend, hend⟩

/-- Whatever `alloc` returns is `~0` or a free slot. -/
theorem AllocInv.alloc_result (h : AllocInv size m allocated) {id : UInt32} {m' : PoolAllocator}
    (ha : m.alloc = .ok (id, m')) :
    id = poolAllocatorNullElem ∨ (id.toNat < size ∧ allocated id.toNat = false) := by
  by_cases hfree : ∃ i < size, allocated i = false
  · obtain ⟨id', m'', ha', hlt, hfa, -⟩ := h.alloc hfree
    rw [ha'] at ha
    cases ha
    exact Or.inr ⟨hlt, hfa⟩
  · -- every slot is allocated: the free list is empty and the frontier is past the last slot
    have hall : ∀ i < size, allocated i = true := by
      intro i hi
      by_contra hne
      exact hfree ⟨i, hi, by simpa using hne⟩
    obtain ⟨hfl, hend⟩ := h.null_of_full hall
    simp [PoolAllocator.alloc, hfl, hend] at ha
    exact Or.inl ha.1.symm

/-- `free` links an allocated slot back in, with no failed `assert`. -/
theorem AllocInv.free (h : AllocInv size m allocated) {id : UInt32}
    (hid : allocated id.toNat = true) :
    ∃ m', m.free id = .ok m' ∧ AllocInv size m' (Function.update allocated id.toNat false) := by
  obtain ⟨l, hpath, hnodup, hmem⟩ := h.chain
  have hlt : id.toNat < size := h.bound _ hid
  have hfr : id.toNat < m.frontier := h.lt_frontier hid
  have hnotin : id ∉ l := by
    intro hm
    rw [((hmem id).mp hm).2] at hid
    cases hid
  have hn : id < m.nElems := by
    rw [UInt32.lt_iff_toNat_lt, h.nElems]
    exact hlt
  rw [free_of_lt hn]
  refine ⟨_, rfl, ⟨h.size_pos, h.size_le, h.nElems, h.allocEnd, ?_, ?_, ?_⟩⟩
  · intro i hi
    by_cases hi' : i = id.toNat
    · exact hi' ▸ hlt
    · rw [Function.update_of_ne hi'] at hi
      exact h.bound i hi
  · intro i hi
    have hi' : i ≠ id.toNat := by
      change m.frontier ≤ i at hi
      omega
    rw [Function.update_of_ne hi']
    exact h.fresh i hi
  · refine ⟨id :: l, hpath.push hnotin, List.nodup_cons.mpr ⟨hnotin, hnodup⟩, fun y => ?_⟩
    change y ∈ id :: l ↔ y.toNat < m.frontier ∧ _
    by_cases hyi : y = id
    · subst hyi
      simp [hfr]
    · have hyi' : y.toNat ≠ id.toNat := fun h' => hyi (UInt32.toNat_inj.mp h')
      rw [Function.update_of_ne hyi', ← hmem y, List.mem_cons]
      simp [hyi]

end PoolAllocator

namespace Pool

open PoolAllocator

variable {T : Type} {size : Nat} {p : Pool T}

theorem toIndexType_of_lt {x : UInt32} (hx : x.toNat < size) : toIndexType size x = x.toNat := by
  unfold toIndexType
  split_ifs with hs
  · rfl
  · omega

theorem lt_invalid {i : Nat} (hi : i < size) (hsize : size ≤ 2 ^ 30) : i < invalid size := by
  unfold invalid
  split_ifs <;> omega

theorem slot_of_allocated {i : Nat} (hi : i < size) (ha : p.allocated i = true) :
    p.slot size i = .ok i := by
  simp [slot, hi, ha]

section
variable (h : AllocInv size p.poolAlloc p.allocated) (hnf : p.elemCount ≠ size)
  (hfree : ∃ i < size, p.allocated i = false)
include h hnf hfree

/-- `emplace` of a constructed object takes a free slot. -/
theorem emplace_some (v : T) :
    ∃ i a, p.emplace size (some v) = .ok (.ok ⟨i, some i⟩,
        { p with
          poolAlloc := a, elements := Function.update p.elements i (some v)
          allocated := Function.update p.allocated i true, elemCount := p.elemCount + 1
          maxElemCount := max p.maxElemCount (p.elemCount + 1) }) ∧
      i < size ∧ p.allocated i = false ∧ AllocInv size a (Function.update p.allocated i true) := by
  obtain ⟨id, a, halloc, hlt, hfa, hinv⟩ := h.alloc hfree
  have hne : id ≠ 0xFFFFFFFF := ne_null_of_lt (by have := h.size_le; omega)
  refine ⟨id.toNat, a, ?_, hlt, hfa, hinv⟩
  simp [emplace, full, hnf, halloc, hne, toIndexType_of_lt hlt]

/-- When the constructor throws, the slot goes back and only the allocator's state moves. -/
theorem emplace_none :
    ∃ a, p.emplace size none = .ok (.error (), { p with poolAlloc := a }) ∧
      AllocInv size a p.allocated := by
  obtain ⟨id, a, halloc, hlt, hfa, hinv⟩ := h.alloc hfree
  have hne : id ≠ 0xFFFFFFFF := ne_null_of_lt (by have := h.size_le; omega)
  obtain ⟨a', hfree', hinv'⟩ :=
    hinv.free (show Function.update p.allocated id.toNat true id.toNat = true from
      Function.update_self _ _ _)
  rw [Function.update_idem, ← hfa, Function.update_eq_self] at hinv'
  refine ⟨a', ?_, hinv'⟩
  simp [emplace, full, hnf, halloc, hne, hfree']

end

theorem remove_of_allocated (h : AllocInv size p.poolAlloc p.allocated) {i : Nat}
    (hi : p.allocated i = true) :
    ∃ a, p.remove size i = .ok
        { p with
          elements := Function.update p.elements i none, poolAlloc := a
          elemCount := p.elemCount - 1, allocated := Function.update p.allocated i false } ∧
      AllocInv size a (Function.update p.allocated i false) := by
  have hlt : i < size := h.bound i hi
  have hid : (UInt32.ofNat i).toNat = i := toNat_ofNat_of_lt (by have := h.size_le; omega)
  obtain ⟨a, hfree, hinv⟩ :=
    h.free (show p.allocated (UInt32.ofNat i).toNat = true by rw [hid]; exact hi)
  rw [hid] at hinv
  refine ⟨a, ?_, hinv⟩
  simp [remove, hlt, hi, hfree]

/-- `remove` of an allocated slot, with the free-list link it writes over the slot's first
    word. -/
theorem remove_eq (h : AllocInv size p.poolAlloc p.allocated) {i : Nat} (hi : p.allocated i = true) :
    p.remove size i = .ok
      { p with
        elements := Function.update p.elements i none
        poolAlloc := { p.poolAlloc with
          words := Function.update p.poolAlloc.words (UInt32.ofNat i) p.poolAlloc.freeList
          freeList := UInt32.ofNat i }
        elemCount := p.elemCount - 1, allocated := Function.update p.allocated i false } := by
  have hlt : i < size := h.bound i hi
  have hn : UInt32.ofNat i < p.poolAlloc.nElems := by
    rw [UInt32.lt_iff_toNat_lt, h.nElems, toNat_ofNat_of_lt (by have := h.size_le; omega)]
    exact hlt
  simp [remove, hlt, hi, free_of_lt hn]

end Pool

end OtelNetwork
