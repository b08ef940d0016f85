import OtelNetwork.Render.PerfectHash
import OtelNetwork.PerfectHashMap.Proofs.Refinement
import OtelNetwork.Lib.Rust

/-!
# The emitted hash is perfect on the rpc ids

The constructor returns only after it has checked that the keys land in distinct slots
(`locs.size == int_keys.size`). Its bins hold the mapped keys, each once (`groupBy_perm`), so the
keys' slots are distinct (`new_spec`). The emitted functions compute, on an id, the slot the
generator computed on its mapped key (`emitted_toNat_eq_slot`), so they are injective on the ids.
For between one and `2^16` keys both shifts are below 32 (`Params.Shaped`): the Rust function
never panics, reads `g_array` within its `g_size` entries and lands below `hash_mask + 1`
(`rustHash_eq`, `emitted_lt`), and the C function agrees with it below `2^31`
(`cHash_eq_rustHash`). Every g value is at most `hash_mask` (`GBounded`), so it fits `g_type`.
-/

namespace OtelNetwork.Render

open RustSem Simulation

/-! ## Bins -/

section Bins

theorem addToGroup_perm (key k : Nat) :
    ∀ bins : List (Nat × List Nat),
      ((addToGroup bins key k).map Prod.snd).flatten.Perm ((bins.map Prod.snd).flatten ++ [k])
  | [] => by simp [addToGroup]
  | (key', bin) :: bins => by
    by_cases h : key' = key
    · simp only [addToGroup, h, ↓reduceIte, List.map_cons, List.flatten_cons, List.append_assoc]
      exact List.Perm.append_left bin List.perm_append_comm
    · simp only [addToGroup, h, ↓reduceIte, List.map_cons, List.flatten_cons, List.append_assoc]
      exact (addToGroup_perm key k bins).append_left bin

theorem foldl_addToGroup_perm (f : Nat → Nat) :
    ∀ (l : List Nat) (bins : List (Nat × List Nat)),
      ((l.foldl (fun bins k => addToGroup bins (f k) k) bins).map Prod.snd).flatten.Perm
        ((bins.map Prod.snd).flatten ++ l)
  | [], bins => by simp
  | k :: l, bins => by
    rw [List.foldl_cons]
    refine (foldl_addToGroup_perm f l _).trans ?_
    have h := (addToGroup_perm (f k) k bins).append_right l
    simpa using h

/-- The groups of `groupBy` hold the elements, each once. -/
theorem groupBy_perm (f : Nat → Nat) (l : List Nat) :
    ((groupBy f l).map Prod.snd).flatten.Perm l := by
  rw [groupBy]
  simpa using foldl_addToGroup_perm f l []

theorem findSeed_ok {P : Params} {keys : List Nat} {seed mul : Nat}
    {bins : List (Nat × List Nat)} (h : findSeed P keys = .ok (seed, mul, bins)) :
    seed = 0 ∧ mul ∈ multipliers ∧ bins = groupBy (· >>> P.gShift) (keys.map (mapKey seed mul)) := by
  unfold findSeed at h
  dsimp only at h
  split at h
  · rename_i found hfound
    cases h
    obtain ⟨⟨seed', mul'⟩, hmem, hsome⟩ := List.exists_of_findSome?_eq_some hfound
    simp only [List.mem_flatMap, List.mem_range, Nat.lt_one_iff, List.mem_map] at hmem
    obtain ⟨_, rfl, mul'', hmul, heq⟩ := hmem
    cases heq
    simp only [trySeed, Option.map_eq_some_iff] at hsome
    obtain ⟨bins', hbins, hfound'⟩ := hsome
    cases hfound'
    split_ifs at hbins with hall
    cases hbins
    exact ⟨rfl, hmul, rfl⟩
  · cases h

end Bins

/-! ## Parameters -/

section Params

variable {keys : List Nat}

theorem length_le_of_lt (hnodup : keys.Nodup) (hrange : ∀ k ∈ keys, k < 2 ^ 16) :
    keys.length ≤ 2 ^ 16 := by
  have hsub : keys.toFinset ⊆ Finset.range (2 ^ 16) := fun k hk =>
    Finset.mem_range.mpr (hrange k (List.mem_toFinset.mp hk))
  calc keys.length = keys.toFinset.card := (List.toFinset_card_of_nodup hnodup).symm
    _ ≤ (Finset.range (2 ^ 16)).card := Finset.card_le_card hsub
    _ = 2 ^ 16 := Finset.card_range _

theorem params_nBits_pos (hne : keys ≠ []) : 0 < (params keys).nBits := by
  have hlen : 0 < keys.length := List.length_pos_iff.mpr hne
  simp only [params, bitLength]
  exact Nat.size_pos.mpr (by omega)

theorem params_nBits_le (hlen : keys.length ≤ 2 ^ 16) : (params keys).nBits ≤ 14 := by
  simp only [params, bitLength]
  exact Nat.size_le.mpr (by omega)

theorem params_hashBits_le (hlen : keys.length ≤ 2 ^ 16) : (params keys).hashBits ≤ 17 := by
  simp only [params, bitLength]
  exact Nat.size_le.mpr (by omega)

end Params

/-- The parameters of between one and `2^16` keys: both shifts are below 32, and the g array and
    the hash mask fit a `u32`. -/
structure Params.Shaped (P : Params) : Prop where
  nBits_pos : 0 < P.nBits
  nBits_le : P.nBits ≤ 14
  hashBits_le : P.hashBits ≤ 17
  gSize_eq : P.gSize = 2 ^ P.nBits
  gShift_eq : P.gShift = 32 - P.nBits
  hashShift_eq : P.hashShift = 32 - P.nBits - P.hashBits
  hashMask_eq : P.hashMask = 2 ^ P.hashBits - 1

theorem params_shaped {keys : List Nat} (hne : keys ≠ []) (hlen : keys.length ≤ 2 ^ 16) :
    (params keys).Shaped := by
  have hpos := params_nBits_pos hne
  refine ⟨hpos, params_nBits_le hlen, params_hashBits_le hlen, rfl, ?_, rfl, rfl⟩
  simp only [params] at hpos ⊢
  rw [if_neg (Nat.pos_iff_ne_zero.mp hpos)]

/-! ## The g values -/

section GValues

variable {P : Params}

theorem findGvalLoop_lt {bin : List Nat} :
    ∀ {assigned : List Nat} {gval fuel v : Nat} {assigned' : List Nat},
      findGvalLoop P bin assigned gval fuel = .ok (v, assigned') → v < gval + fuel
  | _, _, 0, _, _, h => by cases h
  | assigned, gval, fuel + 1, v, assigned', h => by
    unfold findGvalLoop at h
    dsimp only at h
    split_ifs at h with hslots hfree
    · cases h
      omega
    · have := findGvalLoop_lt h
      omega

theorem mem_put {m : List (Nat × Nat)} {key value : Nat} {e : Nat × Nat} (h : e ∈ put m key value) :
    e ∈ m ∨ e = (key, value) := by
  induction m with
  | nil => simpa [put] using h
  | cons e' m ih =>
    simp only [put] at h
    split_ifs at h with heq
    · rcases List.mem_cons.mp h with rfl | h
      · exact Or.inr rfl
      · exact Or.inl (List.mem_cons_of_mem _ h)
    · rcases List.mem_cons.mp h with rfl | h
      · exact Or.inl List.mem_cons_self
      · rcases ih h with h | h
        · exact Or.inl (List.mem_cons_of_mem _ h)
        · exact Or.inr h

/-- Every g value of the map is at most `hash_mask`. -/
def GBounded (P : Params) (g : List (Nat × Nat)) : Prop := ∀ e ∈ g, e.2 ≤ P.hashMask

theorem GBounded.put {g : List (Nat × Nat)} (hg : GBounded P g) {key value : Nat}
    (hv : value ≤ P.hashMask) : GBounded P (OtelNetwork.Render.put g key value) := by
  intro e he
  rcases mem_put he with he | rfl
  · exact hg e he
  · exact hv

theorem GBounded.assignBin {acc acc' : List (Nat × Nat) × List Nat} {bin : List Nat}
    (hg : GBounded P acc.1) (h : assignBin P acc bin = .ok acc') : GBounded P acc'.1 := by
  obtain ⟨g, assigned⟩ := acc
  simp only [OtelNetwork.Render.assignBin, bind_eq_ok] at h
  obtain ⟨k, -, h⟩ := h
  split at h
  · cases h
  · obtain ⟨⟨v, assigned''⟩, hfind, h⟩ := bind_eq_ok.mp h
    cases h
    have hv : v < 0 + (P.hashMask + 1) := findGvalLoop_lt hfind
    exact hg.put (by omega)

/-- The singleton bins' g value, `bitwiseAnd(hash_mask)` of a possibly negative `long`, is at
    most `hash_mask`. -/
theorem emod_toNat_le (x : Int) (m : Nat) : (x % ((m : Int) + 1)).toNat ≤ m := by
  have hpos : (0 : Int) < (m : Int) + 1 := by omega
  have hlt := Int.emod_lt_of_pos x hpos
  have hnn := Int.emod_nonneg x hpos.ne'
  omega

theorem GBounded.assignSingleton {acc acc' : List (Nat × Nat) × List Nat} {bin : List Nat}
    (hg : GBounded P acc.1) (h : assignSingleton P acc bin = .ok acc') : GBounded P acc'.1 := by
  obtain ⟨g, freeSlots⟩ := acc
  simp only [OtelNetwork.Render.assignSingleton] at h
  split at h
  · cases h
  · obtain ⟨elem, -, h⟩ := bind_eq_ok.mp h
    cases h
    exact hg.put (emod_toNat_le _ _)

theorem GBounded.lookup_getD_le {g : List (Nat × Nat)} (hg : GBounded P g) (i : Nat) :
    (g.lookup i).getD 0 ≤ P.hashMask := by
  cases h : g.lookup i with
  | none => simp
  | some v =>
    obtain ⟨l₁, l₂, rfl, -⟩ := List.lookup_eq_some_iff.mp h
    exact hg (i, v) (by simp)

end GValues

/-! ## Where the keys land -/

section Slots

variable {P : Params}

/-- The slot of `loc`, read with a missing g value as `0`. -/
def slot (P : Params) (g : List (Nat × Nat)) (k : Nat) : Nat :=
  ((k >>> P.hashShift) + (g.lookup (k >>> P.gShift)).getD 0) &&& P.hashMask

theorem loc_ok {g : List (Nat × Nat)} {k v : Nat} (h : loc P g k = .ok v) : v = slot P g k := by
  unfold loc at h
  split at h
  · rename_i gv hgv
    cases h
    simp [slot, hgv]
  · cases h

theorem nodup_of_dedup_length {l : List Nat} (h : l.dedup.length = l.length) : l.Nodup := by
  have heq : l.dedup = l := (List.dedup_sublist l).eq_of_length h
  exact heq ▸ List.nodup_dedup l

theorem sortedBins_flatten_perm (bins : List (List Nat)) :
    ((bins.mergeSort fun a b => decide (a.length ≤ b.length)).reverse.flatten).Perm
      bins.flatten :=
  ((List.reverse_perm _).trans (List.mergeSort_perm _ _)).flatten

end Slots

/-! ## What a successful construction computed -/

/-- A hash that `new` returns: its parameters are those of the keys, its seed is `0`, its
    multiplier one of `MULTIPLIERS`, and for a g map whose values are at most `hash_mask` the
    mapped keys land in distinct slots, and `g_array` and `g_type` are read off that map. -/
theorem new_spec {keys : List Nat} {ph : PerfectHash} (hnew : PerfectHash.new keys = .ok ph) :
    ∃ g : List (Nat × Nat),
      ph.toParams = params keys ∧ ph.hashSeed = 0 ∧ ph.multiplier ∈ multipliers ∧
      (keys.map fun k => slot ph.toParams g (mapKey ph.hashSeed ph.multiplier k)).Nodup ∧
      GBounded ph.toParams g ∧
      ph.gArray = (List.range ph.gSize).map (fun i => (g.lookup i).getD 0) ∧
      ph.gType =
        if ph.hashMask + 1 ≤ 256 then .u8 else if ph.hashMask + 1 ≤ 2 ^ 16 then .u16 else .u32 := by
  simp only [PerfectHash.new, bind_eq_ok] at hnew
  obtain ⟨⟨seed, mul, binsMap⟩, hfind, hnew⟩ := hnew
  dsimp only at hnew
  split at hnew
  · cases hnew
  obtain ⟨⟨g, assigned⟩, hg, hnew⟩ := bind_eq_ok.mp hnew
  obtain ⟨⟨g', free⟩, hg', hnew⟩ := bind_eq_ok.mp hnew
  split at hnew
  · cases hnew
  obtain ⟨locs, hlocs, hnew⟩ := bind_eq_ok.mp hnew
  split at hnew
  · cases hnew
  rename_i hdedup
  cases hnew
  obtain ⟨rfl, hmul, rfl⟩ := findSeed_ok hfind
  -- the sorted bins hold the mapped keys, each once
  have hperm := (sortedBins_flatten_perm _).trans (groupBy_perm (· >>> (params keys).gShift)
    (keys.map (mapKey 0 mul)))
  have hlocs' := mapM_except_eq_map _ (fun _ _ => loc_ok) hlocs
  have hbounded : GBounded (params keys) g' := by
    have hg₀ : GBounded (params keys) g :=
      foldlM_except_inv_of_ok (fun acc => GBounded (params keys) acc.1) _
        (fun _ _ _ _ hb h => hb.assignBin h) (fun _ h => by cases h) hg
    exact foldlM_except_inv_of_ok (fun acc => GBounded (params keys) acc.1) _
      (fun _ _ _ _ hb h => hb.assignSingleton h) hg₀ hg'
  have hnodup : locs.Nodup := by
    refine nodup_of_dedup_length ?_
    rw [not_not.mp hdedup, hlocs', List.length_map, hperm.length_eq, List.length_map]
  refine ⟨g', rfl, rfl, hmul, ?_, hbounded, rfl, rfl⟩
  rw [hlocs'] at hnodup
  have hmap := (hperm.map (slot (params keys) g')).nodup_iff.mp hnodup
  rwa [List.map_map] at hmap

/-! ## The emitted functions -/

section Emitted

namespace Params.Shaped

variable {P : Params} (hs : P.Shaped)
include hs

theorem gShift_lt : P.gShift < 32 := by
  have := hs.nBits_pos
  rw [hs.gShift_eq]
  omega

theorem hashShift_lt : P.hashShift < 32 := by
  have := hs.nBits_pos
  rw [hs.hashShift_eq]
  omega

theorem hashMask_lt : P.hashMask < 2 ^ 32 := by
  have := Nat.pow_le_pow_right (n := 2) (by omega) hs.hashBits_le
  rw [hs.hashMask_eq]
  omega

/-- `k >> g_shift` is below `g_size`, whatever the `u32` `k`. -/
theorem index_lt (k : UInt32) : k.toNat >>> P.gShift < P.gSize := by
  have hn := hs.nBits_le
  have hsplit : 2 ^ P.nBits * 2 ^ (32 - P.nBits) = 2 ^ 32 := by
    rw [← Nat.pow_add]
    congr 1
    omega
  rw [hs.gSize_eq, hs.gShift_eq, Nat.shiftRight_eq_div_pow,
    Nat.div_lt_iff_lt_mul (Nat.two_pow_pos _), hsplit]
  exact k.toNat_lt

/-- Masking by `hash_mask` after the `u32` wrap is masking the exact sum. -/
theorem mod_two_pow_and_hashMask (a : Nat) : a % 2 ^ 32 &&& P.hashMask = a &&& P.hashMask := by
  have hdvd : 2 ^ P.hashBits ∣ 2 ^ 32 := Nat.pow_dvd_pow 2 (by have := hs.hashBits_le; omega)
  rw [hs.hashMask_eq, Nat.and_two_pow_sub_one_eq_mod, Nat.and_two_pow_sub_one_eq_mod,
    Nat.mod_mod_of_dvd _ hdvd]

end Params.Shaped

theorem toNat_shiftRight_of_lt (x : UInt32) {s : Nat} (hs : s < 32) :
    (x >>> s.toUInt32).toNat = x.toNat >>> s := by
  simp [Nat.mod_eq_of_lt hs]

theorem rustShr_of_lt (x : UInt32) {s : Nat} (hs : s < 32) :
    PerfectHash.rustShr x s = .ok (x >>> s.toUInt32) := by
  simp [PerfectHash.rustShr, hs]

theorem cShr_of_lt (x : UInt32) {s : Nat} (hs : s < 32) :
    PerfectHash.cShr x s = .ok (x >>> s.toUInt32) := by
  simp [PerfectHash.cShr, hs]

/-- What both emitted functions compute from the multiplied id `k`. -/
def emitted (ph : PerfectHash) (k : UInt32) : UInt32 :=
  ((k >>> ph.hashShift.toUInt32) + ((ph.gArray[(k >>> ph.gShift.toUInt32).toNat]?).getD 0).toUInt32)
    &&& ph.hashMask.toUInt32

variable {ph : PerfectHash} (hs : ph.toParams.Shaped) (hlen : ph.gArray.length = ph.gSize)
include hs

/-- The emitted index `k >> g_shift` is an index of `g_array`. -/
theorem index_lt_length (hlen : ph.gArray.length = ph.gSize) (k : UInt32) :
    (k >>> ph.gShift.toUInt32).toNat < ph.gArray.length := by
  rw [toNat_shiftRight_of_lt k hs.gShift_lt, hlen]
  exact hs.index_lt k

/-- Every id lands in a slot below `hash_mask + 1`. -/
theorem emitted_lt (k : UInt32) : (emitted ph k).toNat < ph.hashMask + 1 := by
  have hmask : ph.hashMask.toUInt32.toNat = ph.hashMask := by
    simp only [Nat.toUInt32_eq, UInt32.toNat_ofNat']
    exact Nat.mod_eq_of_lt hs.hashMask_lt
  have hle : (emitted ph k).toNat ≤ ph.hashMask := by
    rw [emitted, UInt32.toNat_and, hmask]
    exact Nat.and_le_right
  omega

include hlen

/-- The Rust function reads `g_array` within its entries and returns `emitted`. -/
theorem rustHash_eq (x : UInt32) :
    ph.rustHash x = .ok (emitted ph ((x ^^^ ph.hashSeed.toUInt32) * ph.multiplier.toUInt32)) := by
  have hi := index_lt_length hs hlen ((x ^^^ ph.hashSeed.toUInt32) * ph.multiplier.toUInt32)
  simp only [PerfectHash.rustHash, rustShr_of_lt _ hs.gShift_lt, rustShr_of_lt _ hs.hashShift_lt,
    ok_bind, List.getElem?_eq_getElem hi, pure_eq_ok, emitted, Option.getD_some]

/-- The C function returns what the Rust one does on every id below `2^31`, for a multiplier of
    32 bits and the seed `0`: its `long` product does not overflow, and wraps as the `u32` one. -/
theorem cHash_eq_rustHash (hseed : ph.hashSeed = 0) (hmul : ph.multiplier < 2 ^ 32) (x : UInt32)
    (hx : x.toNat < 2 ^ 31) : ph.cHash x = ph.rustHash x := by
  have hprod : (x.toNat * ph.multiplier).toUInt32 = x * ph.multiplier.toUInt32 := by
    apply UInt32.toNat_inj.mp
    simp
  have hlt : x.toNat * ph.multiplier < 2 ^ 63 :=
    calc x.toNat * ph.multiplier < 2 ^ 31 * 2 ^ 32 := Nat.mul_lt_mul'' hx hmul
      _ = 2 ^ 63 := by norm_num
  have hx0 : x ^^^ ph.hashSeed.toUInt32 = x := by simp [hseed]
  have hi := index_lt_length hs hlen (x * ph.multiplier.toUInt32)
  rw [rustHash_eq hs hlen, hx0]
  simp only [PerfectHash.cHash, hx0]
  -- a multiplier below `2^31` is an `int`, and the product a `u32` one
  split_ifs with h31
  · simp only [pure_eq_ok, ok_bind, cShr_of_lt _ hs.gShift_lt, cShr_of_lt _ hs.hashShift_lt,
      List.getElem?_eq_getElem hi, emitted, Option.getD_some]
  · simp only [hprod, pure_eq_ok, ok_bind, cShr_of_lt _ hs.gShift_lt, cShr_of_lt _ hs.hashShift_lt,
      List.getElem?_eq_getElem hi, emitted, Option.getD_some]

/-- As a map's hash function, the Rust function is `emitted`. -/
theorem rustHashFn_eq (x : UInt32) :
    ph.rustHashFn x = emitted ph ((x ^^^ ph.hashSeed.toUInt32) * ph.multiplier.toUInt32) := by
  simp only [PerfectHash.rustHashFn, rustHash_eq hs hlen]

omit hs hlen in
/-- On an id of 32 bits, the `u32` product of the emitted functions is the generator's mapped
    key. -/
theorem toNat_mul_eq_mapKey {k mul : Nat} (hk : k < 2 ^ 32) (hmul : mul < 2 ^ 32) :
    ((k.toUInt32 ^^^ (0 : Nat).toUInt32) * mul.toUInt32).toNat = mapKey 0 mul k := by
  rw [mapKey, longMask, Nat.xor_zero, Nat.and_two_pow_sub_one_eq_mod]
  simp only [UInt32.toNat_mul, UInt32.toNat_xor, Nat.toUInt32_eq, UInt32.toNat_ofNat',
    Nat.mod_eq_of_lt hk, Nat.mod_eq_of_lt hmul, Nat.zero_mod, Nat.xor_zero]

omit hlen in
/-- Where the generator's g map is bounded and `g_array` is read off it, the emitted slot of a
    multiplied id is the generator's `slot`. -/
theorem emitted_toNat_eq_slot {g : List (Nat × Nat)} (hg : GBounded ph.toParams g)
    (harr : ph.gArray = (List.range ph.gSize).map fun i => (g.lookup i).getD 0) (k : UInt32) :
    (emitted ph k).toNat = slot ph.toParams g k.toNat := by
  have hi := hs.index_lt k
  have hgv := hg.lookup_getD_le (k.toNat >>> ph.gShift)
  have hmask := hs.hashMask_lt
  have hget : ph.gArray[(k >>> ph.gShift.toUInt32).toNat]? =
      some ((g.lookup (k.toNat >>> ph.gShift)).getD 0) := by
    rw [harr, toNat_shiftRight_of_lt k hs.gShift_lt, List.getElem?_map, List.getElem?_range hi,
      Option.map_some]
  rw [emitted, hget, Option.getD_some, UInt32.toNat_and, UInt32.toNat_add,
    toNat_shiftRight_of_lt k hs.hashShift_lt]
  simp only [Nat.toUInt32_eq, UInt32.toNat_ofNat', Nat.mod_eq_of_lt hmask,
    Nat.mod_eq_of_lt (Nat.lt_of_le_of_lt hgv hmask)]
  exact hs.mod_two_pow_and_hashMask _

end Emitted

theorem gType_bound_le {P : Params} (hs : P.Shaped) :
    P.hashMask + 1 ≤
      (if P.hashMask + 1 ≤ 256 then GType.u8 else if P.hashMask + 1 ≤ 2 ^ 16 then .u16 else .u32).bound := by
  have := hs.hashMask_lt
  split_ifs <;> simp only [GType.bound] <;> omega

/-- For distinct ids below `2^16` from which the generator builds a hash, the emitted Rust
    function, as the hash function of a map, sends every id below `hash_mask + 1`, and the ids
    to distinct slots. -/
theorem new_rustHashFn_spec {keys : List Nat} (hnodup : keys.Nodup)
    (hrange : ∀ k ∈ keys, k < 2 ^ 16) (hne : keys ≠ []) {ph : PerfectHash}
    (hnew : PerfectHash.new keys = .ok ph) :
    (∀ x, (ph.rustHashFn x).toNat < ph.hashMask + 1) ∧
      ∀ k₁ ∈ keys, ∀ k₂ ∈ keys, ph.rustHashFn k₁.toUInt32 = ph.rustHashFn k₂.toUInt32 → k₁ = k₂ := by
  obtain ⟨g, hP, hseed, hmul, hslots, hg, harr, -⟩ := new_spec hnew
  have hs : ph.toParams.Shaped := hP ▸ params_shaped hne (length_le_of_lt hnodup hrange)
  have hlen : ph.gArray.length = ph.gSize := by simp [harr]
  have hmul32 : ph.multiplier < 2 ^ 32 := (by decide : ∀ m ∈ multipliers, m < 2 ^ 32) _ hmul
  refine ⟨fun x => rustHashFn_eq hs hlen x ▸ emitted_lt hs _, ?_⟩
  -- on an id, the function's slot is the generator's slot of its mapped key
  have hslot : ∀ k ∈ keys,
      (ph.rustHashFn k.toUInt32).toNat = slot ph.toParams g (mapKey 0 ph.multiplier k) := by
    intro k hk
    have hk32 : k < 2 ^ 32 := by have := hrange k hk; omega
    rw [rustHashFn_eq hs hlen, hseed, emitted_toNat_eq_slot hs hg harr,
      toNat_mul_eq_mapKey hk32 hmul32]
  intro k₁ hk₁ k₂ hk₂ heq
  rw [hseed] at hslots
  have heq' := congrArg UInt32.toNat heq
  rw [hslot k₁ hk₁, hslot k₂ hk₂] at heq'
  exact List.inj_on_of_nodup_map hslots hk₁ hk₂ heq'

/-! ## The emitted hash is perfect -/

/-- For distinct rpc ids below `2^16` from which the generator builds a hash, the emitted Rust
    function is injective on the ids; on every argument it reads `g_array` within its `g_size`
    entries and returns a slot below `hash_mask + 1`; the C function returns the same on every
    argument below `2^31`; every g value fits `g_type`; and a `PerfectHashMap` of capacity
    `hash_mask + 1` built with the Rust function answers no `Collision` to calls on the ids. -/
theorem perfectHash_emitted_hash_is_perfect (keys : List Nat) (hnodup : keys.Nodup)
    (hrange : ∀ k ∈ keys, k < 2 ^ 16) (hne : keys ≠ []) (ph : PerfectHash)
    (hnew : PerfectHash.new keys = .ok ph) :
    (∀ k₁ ∈ keys, ∀ k₂ ∈ keys, ph.rustHash k₁.toUInt32 = ph.rustHash k₂.toUInt32 → k₁ = k₂) ∧
    (∀ x : UInt32,
      (((x ^^^ ph.hashSeed.toUInt32) * ph.multiplier.toUInt32) >>> ph.gShift.toUInt32).toNat <
        ph.gArray.length ∧
      ∃ h, ph.rustHash x = .ok h ∧ h.toNat < ph.hashMask + 1) ∧
    ph.gArray.length = ph.gSize ∧
    (∀ x : UInt32, x.toNat < 2 ^ 31 → ph.cHash x = ph.rustHash x) ∧
    (∀ g ∈ ph.gArray, g < ph.gType.bound) ∧
    (∀ (V : Type) (ops : List (PerfectHashMap.Op V)),
      (∀ k ∈ ops.filterMap PerfectHashMap.Op.key?, k.toNat ∈ keys) →
      ∃ outs m, runImpl PerfectHashMap.step (PerfectHashMap.new (ph.hashMask + 1) ph.rustHashFn) ops =
        .ok (outs, m) ∧ ∀ b ∈ outs, b.isCollision = false) := by
  obtain ⟨g, hP, hseed, hmul, hslots, hg, harr, hgType⟩ := new_spec hnew
  have hs : ph.toParams.Shaped := hP ▸ params_shaped hne (length_le_of_lt hnodup hrange)
  have hlen : ph.gArray.length = ph.gSize := by simp [harr]
  have hmul32 : ph.multiplier < 2 ^ 32 := (by decide : ∀ m ∈ multipliers, m < 2 ^ 32) _ hmul
  rw [hseed] at hslots
  -- on an id, the emitted slot is the generator's slot of its mapped key
  have hkey : ∀ k ∈ keys, ph.rustHash k.toUInt32 =
      .ok (UInt32.ofNat (slot ph.toParams g (mapKey 0 ph.multiplier k))) := by
    intro k hk
    have hk32 : k < 2 ^ 32 := by have := hrange k hk; omega
    have hslot := emitted_toNat_eq_slot hs hg harr
      ((k.toUInt32 ^^^ (0 : Nat).toUInt32) * ph.multiplier.toUInt32)
    rw [toNat_mul_eq_mapKey hk32 hmul32] at hslot
    rw [rustHash_eq hs hlen, hseed, ← hslot, UInt32.ofNat_toNat]
  have hinj : ∀ k₁ ∈ keys, ∀ k₂ ∈ keys, ph.rustHash k₁.toUInt32 = ph.rustHash k₂.toUInt32 →
      k₁ = k₂ := by
    intro k₁ hk₁ k₂ hk₂ heq
    rw [hkey k₁ hk₁, hkey k₂ hk₂, Except.ok.injEq] at heq
    have hlt : ∀ k, slot ph.toParams g k < 2 ^ 32 := fun k =>
      Nat.lt_of_le_of_lt Nat.and_le_right hs.hashMask_lt
    have heq' := congrArg UInt32.toNat heq
    rw [UInt32.toNat_ofNat_of_lt' (hlt _), UInt32.toNat_ofNat_of_lt' (hlt _)] at heq'
    exact List.inj_on_of_nodup_map hslots hk₁ hk₂ heq'
  have hok : ∀ x : UInt32, ∃ h, ph.rustHash x = .ok h ∧ h.toNat < ph.hashMask + 1 :=
    fun x => ⟨_, rustHash_eq hs hlen x, emitted_lt hs _⟩
  refine ⟨hinj, fun x => ⟨index_lt_length hs hlen _, hok x⟩, hlen,
    fun x hx => cHash_eq_rustHash hs hlen hseed hmul32 x hx, ?_, ?_⟩
  · intro v hv
    rw [harr] at hv
    obtain ⟨i, -, rfl⟩ := List.mem_map.mp hv
    have := hg.lookup_getD_le i
    have := gType_bound_le hs
    rw [hgType]
    omega
  · intro V ops hops
    -- the map's hash function is the Rust function, which returns on every argument
    have hfn : ∀ x, ph.rustHash x = .ok (ph.rustHashFn x) := fun x => by
      obtain ⟨h, hh, -⟩ := hok x
      simp [PerfectHash.rustHashFn, hh]
    refine PerfectHashMap.run_not_isCollision _ _ (fun x => ?_) ops ?_
    · obtain ⟨h, hh, hlt⟩ := hok x
      rw [hfn x, Except.ok.injEq] at hh
      rwa [hh]
    · intro k₁ hk₁ k₂ hk₂ heq
      have h₁ := hops k₁ hk₁
      have h₂ := hops k₂ hk₂
      have hk : ∀ k : UInt32, k.toNat.toUInt32 = k := fun k => by simp
      have := hinj _ h₁ _ h₂ (by rw [hk, hk, hfn, hfn, heq])
      exact UInt32.toNat_inj.mp this

/-- The ids `2, 1, 3`: their bins come out of the search already sorted by size. -/
theorem perfectHash_emitted_hash_is_perfect_of_three_ids :
    ([2, 1, 3] : List Nat).Nodup ∧ (∀ k ∈ [2, 1, 3], k < 2 ^ 16) ∧ ([2, 1, 3] : List Nat) ≠ [] ∧
    PerfectHash.new [2, 1, 3] = .ok ⟨⟨3, 1, 2, 31, 3, 28, 7⟩, 0, 2654435761, .u8, [5, 0]⟩ ∧
    let ph : PerfectHash := ⟨⟨3, 1, 2, 31, 3, 28, 7⟩, 0, 2654435761, .u8, [5, 0]⟩
    (∀ k₁ ∈ [2, 1, 3], ∀ k₂ ∈ [2, 1, 3], ph.rustHash k₁.toUInt32 = ph.rustHash k₂.toUInt32 → k₁ = k₂) ∧
    (∀ x : UInt32,
      (((x ^^^ ph.hashSeed.toUInt32) * ph.multiplier.toUInt32) >>> ph.gShift.toUInt32).toNat <
        ph.gArray.length ∧
      ∃ h, ph.rustHash x = .ok h ∧ h.toNat < ph.hashMask + 1) ∧
    ph.gArray.length = ph.gSize ∧
    (∀ x : UInt32, x.toNat < 2 ^ 31 → ph.cHash x = ph.rustHash x) ∧
    (∀ g ∈ ph.gArray, g < ph.gType.bound) ∧
    (∀ (V : Type) (ops : List (PerfectHashMap.Op V)),
      (∀ k ∈ ops.filterMap PerfectHashMap.Op.key?, k.toNat ∈ [2, 1, 3]) →
      ∃ outs m, runImpl PerfectHashMap.step (PerfectHashMap.new (ph.hashMask + 1) ph.rustHashFn) ops =
        .ok (outs, m) ∧ ∀ b ∈ outs, b.isCollision = false) := by
  have hnew : PerfectHash.new [2, 1, 3] =
      .ok ⟨⟨3, 1, 2, 31, 3, 28, 7⟩, 0, 2654435761, .u8, [5, 0]⟩ := by
    have hseed : findSeed (params [2, 1, 3]) [2, 1, 3] =
        .ok (0, knuthA, [(0, [mapKey 0 knuthA 2]), (1, [mapKey 0 knuthA 1, mapKey 0 knuthA 3])]) := by
      decide
    rw [PerfectHash.new, hseed, ok_bind]
    dsimp only
    -- `mergeSort` is well-founded recursion, which `decide` does not unfold
    rw [List.mergeSort_of_pairwise (by decide)]
    decide
  exact ⟨by decide, by decide, by decide, hnew,
    perfectHash_emitted_hash_is_perfect [2, 1, 3] (by decide) (by decide) (by decide) _ hnew⟩

end OtelNetwork.Render
