import OtelNetwork.PerfectHashMap.Spec
import OtelNetwork.Lib.Simulation

/-!
# `PerfectHashMap` refines a finite map

`Wf` is the representation invariant: the slot vector has the map's capacity, each occupied slot
holds a key that hashes to it, and `len` counts the occupied slots. A well-formed map read through
`get` is the abstract map it `Represents`. Each call on a map representing `M` succeeds and
answers as `AbsStep` allows from `M` (`Represents.step`); the simulation rule carries this to
every run from `new`, and since the specification is deterministic on maps with one key per hash,
the answers of the run are the abstract map's.
-/

namespace OtelNetwork.PerfectHashMap

open RustSem Simulation

variable {V : Type}

/-- The value a slot gives for `key`. -/
def slotGet (s : Option (Entry V)) (key : Key) : Option V :=
  match s with
  | some e => if e.key = key then some e.value else none
  | none => none

@[simp] theorem slotGet_none (k : Key) : slotGet (none : Option (Entry V)) k = none := rfl

@[simp] theorem slotGet_self (k : Key) (v : V) : slotGet (some ⟨k, v⟩) k = some v := by
  simp [slotGet]

theorem slotGet_of_ne {e : Entry V} {k : Key} (h : e.key ≠ k) : slotGet (some e) k = none := by
  simp [slotGet, h]

/-- The representation invariant of a map of capacity `cap`. -/
structure Wf (cap : Nat) (m : PerfectHashMap V) : Prop where
  length : m.slots.length = cap
  keyed : ∀ i e, m.slots[i]? = some (some e) → (m.hash e.key).toNat = i
  len : m.len = m.slots.countP Option.isSome

/-- A well-formed map over `hash`, read through `get`, is the abstract map `M`. -/
structure Represents (cap : Nat) (hash : Key → UInt32) (m : PerfectHashMap V) (M : AbsMap V) :
    Prop where
  wf : Wf cap m
  hash_eq : m.hash = hash
  get_eq : m.get = M

variable {m : PerfectHashMap V} {cap : Nat} {k : Key}

/-! ## Reading the slots -/

/-- The spec of `get`: a key is found when its slot holds an entry for it. -/
theorem get_eq_some_iff {v : V} :
    m.get k = some v ↔
      ∃ e, m.slots[(m.hash k).toNat]? = some (some e) ∧ e.key = k ∧ e.value = v := by
  unfold get
  rcases m.slots[(m.hash k).toNat]? with _ | _ | e
  · simp
  · simp
  · by_cases hek : e.key = k <;> simp [hek]

theorem get_of_slot {x : Option (Entry V)} (hs : m.slots[(m.hash k).toNat]? = some x) :
    m.get k = slotGet x k := by
  unfold get
  rw [hs]
  rcases x with _ | e <;> rfl

theorem lt_of_slot {i : Nat} {x : Option (Entry V)} (hs : m.slots[i]? = some x) :
    i < m.slots.length :=
  (List.getElem?_eq_some_iff.mp hs).1

/-- Writing slot `i` changes `get` only for the keys hashing to `i`. -/
theorem get_set {i : Nat} {x : Option (Entry V)} {n : Nat} (hi : i < m.slots.length) (k : Key) :
    ({ m with slots := m.slots.set i x, len := n } : PerfectHashMap V).get k =
      if (m.hash k).toNat = i then slotGet x k else m.get k := by
  unfold get
  rw [List.getElem?_set]
  by_cases h : i = (m.hash k).toNat
  · subst h
    rw [if_pos rfl, if_pos hi, if_pos rfl]
    rcases x with _ | e <;> rfl
  · rw [if_neg h, if_neg (Ne.symm h)]

/-- Writing `k`'s slot changes `get` at `k` only, when the new and the old slot content agree on
    every other key hashing there. -/
theorem get_set_update (hk : (m.hash k).toNat < m.slots.length) (x : Option (Entry V)) (n : Nat)
    (hx : ∀ k', (m.hash k').toNat = (m.hash k).toNat → k' ≠ k → slotGet x k' = m.get k') :
    ({ m with slots := m.slots.set (m.hash k).toNat x, len := n } : PerfectHashMap V).get =
      Function.update m.get k (slotGet x k) := by
  funext k'
  rw [get_set hk]
  by_cases hkk : k' = k
  · subst hkk
    simp
  · rw [Function.update_of_ne hkk]
    split_ifs with hh
    · exact hx k' hh hkk
    · rfl

/-- Storing `⟨k, v⟩` in `k`'s slot when no other key collides with `k` is inserting `k ↦ v`. -/
theorem get_set_insert (hk : (m.hash k).toNat < m.slots.length)
    (hnc : ∀ k', ¬ Collides m.hash m.get k k') (v : V) (n : Nat) :
    ({ m with slots := m.slots.set (m.hash k).toNat (some ⟨k, v⟩), len := n } :
      PerfectHashMap V).get = Function.update m.get k (some v) := by
  rw [get_set_update hk _ n, slotGet_self]
  intro k' hh hne
  rw [slotGet_of_ne (Ne.symm hne), eq_none_of_not_collides (hnc k') hne (UInt32.toNat_inj.mp hh)]

/-- The entries of occupied slots, in slot order. -/
def entries (m : PerfectHashMap V) : List (Entry V) := m.slots.filterMap id

theorem iter_eq (m : PerfectHashMap V) : m.iter = m.entries.map fun e => (e.key, e.value) := by
  rw [iter, entries, List.map_filterMap]
  rfl

/-! ## The invariant -/

/-- Entries kept at the slots their keys hash to come out in strictly increasing hash order, all
    at hashes past the offset of the first slot. -/
theorem pairwise_of_keyed (hash : Key → UInt32) :
    ∀ (L : List (Option (Entry V))) (o : Nat),
      (∀ i e, L[i]? = some (some e) → (hash e.key).toNat = o + i) →
      (L.filterMap id).Pairwise (fun a b => hash a.key < hash b.key) ∧
        ∀ e ∈ L.filterMap id, o ≤ (hash e.key).toNat
  | [], _, _ => by simp
  | x :: L, o, h => by
    obtain ⟨hp, hle⟩ := pairwise_of_keyed hash L (o + 1) fun i e he => by
      have := h (i + 1) e (by simpa using he)
      omega
    cases x with
    | none => exact ⟨by simpa using hp, fun e he => by have := hle e (by simpa using he); omega⟩
    | some e₀ =>
      have h₀ : (hash e₀.key).toNat = o := by simpa using h 0 e₀ rfl
      refine ⟨?_, ?_⟩
      · simp only [List.filterMap_cons, id, List.pairwise_cons]
        exact ⟨fun b hb => UInt32.lt_iff_toNat_lt.mpr (by have := hle b hb; omega), hp⟩
      · intro e he
        simp only [List.filterMap_cons, id, List.mem_cons] at he
        rcases he with rfl | he
        · omega
        · have := hle e he
          omega

section Wf

variable (hw : Wf cap m)
include hw

theorem Wf.entries_sorted : m.entries.Pairwise fun a b => m.hash a.key < m.hash b.key :=
  (pairwise_of_keyed m.hash m.slots 0 fun i e he => by simpa using hw.keyed i e he).1

theorem Wf.entries_keys_nodup : (m.entries.map Entry.key).Nodup := by
  refine List.Pairwise.map _ (fun a b hab heq => ?_) hw.entries_sorted
  rw [heq] at hab
  exact Nat.lt_irrefl _ (UInt32.lt_iff_toNat_lt.mp hab)

/-- A key is in the map exactly when an entry holds it. -/
theorem Wf.get_eq_some_iff_mem {v : V} : m.get k = some v ↔ ⟨k, v⟩ ∈ m.entries := by
  rw [get_eq_some_iff]
  constructor
  · rintro ⟨e, hs, rfl, rfl⟩
    exact List.mem_filterMap.mpr ⟨some e, List.mem_of_getElem? hs, rfl⟩
  · intro h
    obtain ⟨y, hy, hye⟩ := List.mem_filterMap.mp h
    obtain ⟨j, hj⟩ := List.mem_iff_getElem?.mp hy
    simp only [id] at hye
    subst hye
    have hkey : (m.hash k).toNat = j := hw.keyed j _ hj
    exact ⟨⟨k, v⟩, hkey ▸ hj, rfl, rfl⟩

/-- `len` is the number of keys. -/
theorem Wf.len_eq_card : m.len = AbsMap.card m.get := by
  have hkeys : (Finset.univ.filter fun k => (m.get k).isSome) =
      (m.entries.map Entry.key).toFinset := by
    ext k
    simp only [Finset.mem_filter, Finset.mem_univ, true_and, List.mem_toFinset, List.mem_map,
      Option.isSome_iff_exists]
    constructor
    · rintro ⟨v, hv⟩
      exact ⟨⟨k, v⟩, hw.get_eq_some_iff_mem.mp hv, rfl⟩
    · rintro ⟨⟨k', v⟩, he, rfl⟩
      exact ⟨v, hw.get_eq_some_iff_mem.mpr he⟩
  rw [AbsMap.card, hkeys, List.toFinset_card_of_nodup hw.entries_keys_nodup, List.length_map,
    entries, List.length_filterMap_eq_countP, hw.len]
  rfl

/-- `iter` lists the map: each key once, in increasing hash order. -/
theorem Wf.listing : Listing m.hash m.get m.iter := by
  rw [iter_eq]
  constructor
  · intro k v
    rw [hw.get_eq_some_iff_mem, List.mem_map]
    constructor
    · rintro ⟨⟨k', v'⟩, he, hkv⟩
      cases hkv
      exact he
    · intro he
      exact ⟨⟨k, v⟩, he, rfl⟩
  · rw [List.map_map]
    exact hw.entries_keys_nodup
  · exact List.pairwise_map.mpr hw.entries_sorted

/-- The keys colliding with `k` are those of another key stored in `k`'s slot. -/
theorem Wf.collides_iff {k' : Key} :
    Collides m.hash m.get k k' ↔
      ∃ e, m.slots[(m.hash k).toNat]? = some (some e) ∧ e.key = k' ∧ k' ≠ k := by
  constructor
  · rintro ⟨hne, hh, hsome⟩
    obtain ⟨v, hv⟩ := Option.isSome_iff_exists.mp hsome
    obtain ⟨e, hs, hek, -⟩ := get_eq_some_iff.mp hv
    rw [hh] at hs
    exact ⟨e, hs, hek, hne⟩
  · rintro ⟨e, hs, rfl, hne⟩
    have hkey : (m.hash e.key).toNat = (m.hash k).toNat := hw.keyed _ e hs
    have hh : m.hash e.key = m.hash k := UInt32.toNat_inj.mp hkey
    have hget : m.get e.key = some e.value := get_eq_some_iff.mpr ⟨e, hkey ▸ hs, rfl, rfl⟩
    exact ⟨hne, hh, by simp [hget]⟩

/-- An empty slot, or one holding `k` itself, leaves no key colliding with `k`. -/
theorem Wf.not_collides {x : Option (Entry V)} (hs : m.slots[(m.hash k).toNat]? = some x)
    (hx : ∀ e, x = some e → e.key = k) (k' : Key) : ¬ Collides m.hash m.get k k' := by
  rw [hw.collides_iff]
  rintro ⟨e, he, rfl, hne⟩
  rw [hs, Option.some_inj] at he
  exact hne (hx e he)

/-- Writing a slot with an entry that hashes to it keeps the invariant, when `len` follows the
    change in occupied slots. -/
theorem Wf.set {i : Nat} {x y : Option (Entry V)} {n : Nat} (hy : m.slots[i]? = some y)
    (hx : ∀ e, x = some e → (m.hash e.key).toNat = i)
    (hn : n + (if y.isSome then 1 else 0) = m.len + (if x.isSome then 1 else 0)) :
    Wf cap { m with slots := m.slots.set i x, len := n } where
  length := by simp [hw.length]
  keyed := by
    intro j e he
    simp only [List.getElem?_set] at he
    split_ifs at he with hij
    · cases he
      exact hij ▸ hx e rfl
    · exact hw.keyed j e he
  len := by
    obtain ⟨hi, hyi⟩ := List.getElem?_eq_some_iff.mp hy
    have hset := @List.countP_set _ Option.isSome m.slots i x hi
    have hle := @List.boole_getElem_le_countP _ Option.isSome m.slots i hi
    rw [hyi] at hset hle
    rw [hw.len] at hn
    simp only [hset]
    omega

/-- A call that leaves the map alone at a key it lacks. -/
theorem Wf.represents_update_none (h : m.get k = none) :
    Represents cap m.hash m (Function.update m.get k none) :=
  ⟨hw, rfl, (Function.update_eq_self_iff.mpr h.symm).symm⟩

end Wf

/-! ## The calls -/

section Calls

variable (hw : Wf cap m) {x : Option (Entry V)} (hs : m.slots[(m.hash k).toNat]? = some x)
include hw hs

/-- The spec of `insert`: a collision leaves the map alone; otherwise the key is stored and the
    previous value returned. -/
theorem Wf.insert_spec (v : V) :
    (∃ k', Collides m.hash m.get k k' ∧ m.insert k v = .ok (.error ⟨k'⟩, m)) ∨
      ((∀ k', ¬ Collides m.hash m.get k k') ∧ ∃ m', m.insert k v = .ok (.ok (m.get k), m') ∧
        Represents cap m.hash m' (Function.update m.get k (some v))) := by
  have hk := lt_of_slot hs
  rcases x with _ | e
  · -- an empty slot takes the entry, and one more key is counted
    have hnc := hw.not_collides hs (fun e he => by cases he)
    refine .inr ⟨hnc,
      { m with slots := m.slots.set (m.hash k).toNat (some ⟨k, v⟩), len := m.len + 1 },
      by simp [insert, hs, get_of_slot hs], ?_⟩
    exact ⟨hw.set hs (fun e he => by cases he; rfl) (by simp), rfl, get_set_insert hk hnc v _⟩
  · by_cases hek : e.key = k
    · -- the same key: its value is replaced and the count kept
      have hnc := hw.not_collides hs (fun e' he' => by cases he'; exact hek)
      refine .inr ⟨hnc, { m with slots := m.slots.set (m.hash k).toNat (some ⟨k, v⟩) },
        by simp [insert, hs, hek, get_of_slot hs, slotGet], ?_⟩
      exact ⟨hw.set hs (fun e' he' => by cases he'; rfl) (by simp), rfl,
        get_set_insert hk hnc v _⟩
    · exact .inl ⟨e.key, hw.collides_iff.mpr ⟨e, hs, rfl, hek⟩, by simp [insert, hs, hek]⟩

/-- The spec of `try_insert`: a collision, or the key being present, leaves the map alone;
    otherwise the key is stored. -/
theorem Wf.tryInsert_spec (v : V) :
    (∃ k', Collides m.hash m.get k k' ∧ m.tryInsert k v = .ok (.error (.collision v k'), m)) ∨
      ((∀ k', ¬ Collides m.hash m.get k k') ∧
        ((∃ old, m.get k = some old ∧ m.tryInsert k v = .ok (.error (.occupied v old), m)) ∨
          (m.get k = none ∧ ∃ m', m.tryInsert k v = .ok (.ok v, m') ∧
            Represents cap m.hash m' (Function.update m.get k (some v))))) := by
  have hk := lt_of_slot hs
  rcases x with _ | e
  · have hnc := hw.not_collides hs (fun e he => by cases he)
    refine .inr ⟨hnc, .inr ⟨get_of_slot hs,
      { m with slots := m.slots.set (m.hash k).toNat (some ⟨k, v⟩), len := m.len + 1 },
      by simp [tryInsert, hs], ?_⟩⟩
    exact ⟨hw.set hs (fun e he => by cases he; rfl) (by simp), rfl, get_set_insert hk hnc v _⟩
  · by_cases hek : e.key = k
    · have hnc := hw.not_collides hs (fun e' he' => by cases he'; exact hek)
      refine .inr ⟨hnc, .inl ⟨e.value, ?_, by simp [tryInsert, hs, hek]⟩⟩
      simp [get_of_slot hs, slotGet, hek]
    · exact .inl ⟨e.key, hw.collides_iff.mpr ⟨e, hs, rfl, hek⟩, by simp [tryInsert, hs, hek]⟩

/-- The spec of `remove`: the key's value is returned and the key dropped. -/
theorem Wf.remove_spec :
    (m.remove k).1 = m.get k ∧
      Represents cap m.hash (m.remove k).2 (Function.update m.get k none) := by
  have hk := lt_of_slot hs
  have hnge : ¬ (m.hash k).toNat ≥ m.slots.length := Nat.not_le.mpr hk
  rcases x with _ | e
  · -- nothing to remove: the map already lacks the key
    have hnone : m.get k = none := get_of_slot hs
    have hrem : m.remove k = (none, m) := by simp [remove, hnge, hs]
    rw [hrem]
    exact ⟨hnone.symm, hw.represents_update_none hnone⟩
  · by_cases hek : e.key = k
    · have hget : m.get k = some e.value := by simp [get_of_slot hs, slotGet, hek]
      have hrem : m.remove k = (some e.value,
          { m with slots := m.slots.set (m.hash k).toNat none, len := m.len - 1 }) := by
        simp [remove, hnge, hs, hek]
      -- the occupied slot is counted in `len`, so `len - 1` does not underflow
      have hpos : 1 ≤ m.len := by
        obtain ⟨hi, hyi⟩ := List.getElem?_eq_some_iff.mp hs
        have := @List.boole_getElem_le_countP _ Option.isSome m.slots _ hi
        rw [hyi] at this
        rw [hw.len]
        simpa using this
      rw [hrem]
      refine ⟨hget.symm, hw.set hs (fun e' he' => by cases he') (by simp; omega), rfl, ?_⟩
      rw [get_set_update hk none _ ?_, slotGet_none]
      intro k' hh hne
      rw [slotGet_none, get_of_slot (hh ▸ hs), slotGet_of_ne (hek ▸ Ne.symm hne)]
    · have hnone : m.get k = none := by simp [get_of_slot hs, slotGet, hek]
      have hrem : m.remove k = (none, m) := by simp [remove, hnge, hs, hek]
      rw [hrem]
      exact ⟨hnone.symm, hw.represents_update_none hnone⟩

/-- The spec of `get_mut`: the key's value is returned and replaced by its image under `f`. -/
theorem Wf.getMut_spec (f : V → V) :
    (m.getMut k f).1 = m.get k ∧
      Represents cap m.hash (m.getMut k f).2 (Function.update m.get k ((m.get k).map f)) := by
  have hk := lt_of_slot hs
  rcases x with _ | e
  · have hnone : m.get k = none := get_of_slot hs
    have hgm : m.getMut k f = (none, m) := by simp [getMut, hs]
    rw [hgm, hnone, Option.map_none]
    exact ⟨rfl, hw.represents_update_none hnone⟩
  · by_cases hek : e.key = k
    · have hget : m.get k = some e.value := by simp [get_of_slot hs, slotGet, hek]
      have hgm : m.getMut k f = (some e.value,
          { m with slots := m.slots.set (m.hash k).toNat (some { e with value := f e.value }) }) := by
        simp [getMut, hs, hek]
      rw [hgm, hget]
      refine ⟨rfl, hw.set hs (fun e' he' => by cases he'; exact hw.keyed _ e hs) (by simp), rfl, ?_⟩
      rw [get_set_update hk _ _ ?_]
      · simp [slotGet, hek]
      · intro k' hh hne
        rw [get_of_slot (hh ▸ hs), slotGet_of_ne (hek ▸ Ne.symm hne),
          slotGet_of_ne (hek ▸ Ne.symm hne)]
    · have hnone : m.get k = none := by simp [get_of_slot hs, slotGet, hek]
      have hgm : m.getMut k f = (none, m) := by simp [getMut, hs, hek]
      rw [hgm, hnone, Option.map_none]
      exact ⟨rfl, hw.represents_update_none hnone⟩

end Calls

/-- The spec of `clear`: no key is left. -/
theorem Wf.clear_spec (hw : Wf cap m) : Represents cap m.hash m.clear fun _ => none := by
  refine ⟨⟨by simp [clear, hw.length], fun i e he => ?_, by simp [clear, List.countP_replicate]⟩,
    rfl, ?_⟩
  · simp [clear, List.getElem?_replicate] at he
  · funext k
    unfold get
    simp only [clear, List.getElem?_map]
    rcases m.slots[(m.hash k).toNat]? with _ | _ <;> rfl

/-! ## Simulation -/

/-- One call from a map representing `M` succeeds, answers as the specification allows from `M`,
    and leaves a map representing the specification's next map. -/
theorem Represents.simulates {hash : Key → UInt32} {M : AbsMap V} (hr : Represents cap hash m M)
    (hcap : ∀ k, (hash k).toNat < cap) (a : Op V) :
    ∃ b m', m.step a = .ok (b, m') ∧ ∃ M', AbsStep hash M a b M' ∧ Represents cap hash m' M' := by
  obtain ⟨hw, rfl, rfl⟩ := hr
  -- every key's slot exists, so no call panics
  have hslot : ∀ k, ∃ x, m.slots[(m.hash k).toNat]? = some x := fun k =>
    ⟨_, List.getElem?_eq_getElem (hw.length ▸ hcap k)⟩
  cases a with
  | insert k v =>
    obtain ⟨x, hs⟩ := hslot k
    rcases hw.insert_spec hs v with ⟨k', hc, hins⟩ | ⟨hnc, m', hins, hr'⟩
    · exact ⟨_, _, by simp [step, hins], _, .insertCollision hc, hw, rfl, rfl⟩
    · exact ⟨_, _, by simp [step, hins], _, .insert hnc, hr'⟩
  | tryInsert k v =>
    obtain ⟨x, hs⟩ := hslot k
    rcases hw.tryInsert_spec hs v with
      ⟨k', hc, hins⟩ | ⟨hnc, ⟨old, hold, hins⟩ | ⟨hnone, m', hins, hr'⟩⟩
    · exact ⟨_, _, by simp [step, hins], _, .tryInsertCollision hc, hw, rfl, rfl⟩
    · exact ⟨_, _, by simp [step, hins], _, .tryInsertOccupied hnc hold, hw, rfl, rfl⟩
    · exact ⟨_, _, by simp [step, hins], _, .tryInsert hnc hnone, hr'⟩
  | remove k =>
    obtain ⟨x, hs⟩ := hslot k
    obtain ⟨hr, hr'⟩ := hw.remove_spec hs
    exact ⟨.remove (m.remove k).1, (m.remove k).2, by simp [step], _, by rw [hr]; exact .remove,
      hr'⟩
  | get k => exact ⟨_, _, by simp [step], _, .get, hw, rfl, rfl⟩
  | getMut k f =>
    obtain ⟨x, hs⟩ := hslot k
    obtain ⟨hr, hr'⟩ := hw.getMut_spec hs f
    exact ⟨.getMut (m.getMut k f).1, (m.getMut k f).2, by simp [step], _,
      by rw [hr]; exact .getMut, hr'⟩
  | clear => exact ⟨_, _, by simp [step], _, .clear, hw.clear_spec⟩
  | len =>
    exact ⟨.len m.len, m, by simp [step], _, by rw [hw.len_eq_card]; exact .len, hw, rfl, rfl⟩
  | iter => exact ⟨_, _, by simp [step], _, .iter hw.listing, hw, rfl, rfl⟩

theorem represents_new (cap : Nat) (hash : Key → UInt32) :
    Represents cap hash (new cap hash : PerfectHashMap V) fun _ => none := by
  refine ⟨⟨by simp [new], fun i e he => ?_, by simp [new, List.countP_replicate]⟩, rfl, ?_⟩
  · simp [new, List.getElem?_replicate] at he
  · funext k
    unfold get
    simp only [new, List.getElem?_replicate]
    split_ifs <;> rfl

/-- `PerfectHashMap` refines the finite map: for a hash function into the capacity, every run of
    calls from `new` succeeds; its answers and final map are those of the specification run from
    the empty map, which are the only ones it allows; and when the hash function is injective on
    the keys of the calls, no call answers `Collision`. -/
theorem perfectHashMap_refines_finite_map (cap : Nat) (hash : Key → UInt32)
    (hcap : ∀ k, (hash k).toNat < cap) (ops : List (Op V)) :
    ∃ outs m, runImpl step (new cap hash) ops = .ok (outs, m) ∧
      SpecRun (AbsStep hash) (fun _ => none) ops outs m.get ∧
      (∀ outs' M', SpecRun (AbsStep hash) (fun _ => none) ops outs' M' →
        outs' = outs ∧ M' = m.get) ∧
      ((∀ k₁ ∈ ops.filterMap Op.key?, ∀ k₂ ∈ ops.filterMap Op.key?, hash k₁ = hash k₂ → k₁ = k₂) →
        ∀ b ∈ outs, b.isCollision = false) := by
  obtain ⟨outs, m, hrun, M, hspec, hr⟩ :=
    simulation (fun m M => Represents cap hash m M) (fun _ _ a hr => hr.simulates hcap a) ops
      (new cap hash) (fun _ => none) (represents_new cap hash)
  obtain ⟨-, -, rfl⟩ := hr
  refine ⟨outs, m, hrun, hspec, ?_, ?_⟩
  · -- the specification keeps one key per hash, and is deterministic there
    intro outs' M' hspec'
    obtain ⟨h₁, h₂⟩ := SpecRun.deterministic (HashInjOn hash)
      (fun _ _ _ _ hinj h => h.hashInjOn hinj) (fun _ _ _ _ _ _ hinj h₁ h₂ => h₁.deterministic hinj h₂)
      hspec' hspec hashInjOn_empty
    exact ⟨h₁, h₂⟩
  · -- every key of the map is a key of the calls made so far
    intro hinj
    refine SpecRun.forall_answers (fun M => ∀ k, (M k).isSome → k ∈ ops.filterMap Op.key?)
      (fun a => ∀ k, a.key? = some k → k ∈ ops.filterMap Op.key?) (fun b => b.isCollision = false)
      (fun _ _ _ _ ha hM h => h.not_isCollision hinj hM ha) hspec ?_ (fun k hk => by cases hk)
    intro a ha k hk
    exact List.mem_filterMap.mpr ⟨a, ha, hk⟩

theorem perfectHashMap_refines_finite_map_one_slot :
    (∀ k : Key, ((fun _ => 0 : Key → UInt32) k).toNat < 1) ∧
    ∃ outs m, runImpl step (new 1 fun _ => 0) [Op.insert 5 true, .insert 6 false] = .ok (outs, m) ∧
      SpecRun (AbsStep fun _ => 0) (fun _ => none) [Op.insert 5 true, .insert 6 false] outs m.get ∧
      (∀ outs' M', SpecRun (AbsStep fun _ => 0) (fun _ => none)
        [Op.insert 5 true, .insert 6 false] outs' M' → outs' = outs ∧ M' = m.get) ∧
      ((∀ k₁ ∈ [Op.insert 5 true, .insert 6 false].filterMap Op.key?,
        ∀ k₂ ∈ [Op.insert 5 true, .insert 6 false].filterMap Op.key?,
          (fun _ => 0 : Key → UInt32) k₁ = (fun _ => 0 : Key → UInt32) k₂ → k₁ = k₂) →
        ∀ b ∈ outs, b.isCollision = false) :=
  ⟨fun _ => Nat.one_pos,
    perfectHashMap_refines_finite_map 1 (fun _ => 0) (fun _ => Nat.one_pos)
      [Op.insert 5 true, .insert 6 false]⟩

/-- For a hash function into the capacity that is injective on the keys of the calls, a run of
    calls from `new` succeeds and no call answers `Collision`. -/
theorem run_not_isCollision (cap : Nat) (hash : Key → UInt32) (hcap : ∀ k, (hash k).toNat < cap)
    (ops : List (Op V))
    (hinj : ∀ k₁ ∈ ops.filterMap Op.key?, ∀ k₂ ∈ ops.filterMap Op.key?, hash k₁ = hash k₂ → k₁ = k₂) :
    ∃ outs m, runImpl step (new cap hash) ops = .ok (outs, m) ∧ ∀ b ∈ outs, b.isCollision = false := by
  obtain ⟨outs, m, hrun, M, hspec, -⟩ :=
    simulation (fun m M => Represents cap hash m M) (fun _ _ a hr => hr.simulates hcap a) ops
      (new cap hash) (fun _ => none) (represents_new cap hash)
  refine ⟨outs, m, hrun, ?_⟩
  -- the map keeps only keys of the calls, which hash apart
  refine SpecRun.forall_answers (fun M => ∀ k, (M k).isSome → k ∈ ops.filterMap Op.key?)
    (fun a => ∀ k, a.key? = some k → k ∈ ops.filterMap Op.key?) (fun b => b.isCollision = false)
    (fun _ _ _ _ ha hM h => h.not_isCollision hinj hM ha) hspec ?_ (fun k hk => by cases hk)
  intro a ha k hk
  exact List.mem_filterMap.mpr ⟨a, ha, hk⟩

end OtelNetwork.PerfectHashMap
