import OtelNetwork.Reducer.AggregationParser
import OtelNetwork.Render.Proofs.ParserProofs

/-!
# The aggregation core dispatches every aggregation message

The checked-in `hash.rs` is the function the generator emits for the app's rpc ids
(`aggregationHash_eq_rustHashFn`, `aggregationPerfectHash_generated`), so it is injective on them
and lands in the 16 slots; the registrations of `AggregationMessageHandler::new`, whose answers
are dropped, therefore all succeed, and the core's parser hands every message to its own
handler.
-/

namespace OtelNetwork.Aggregation

open RustSem RenderParser Render

/-- `aggregation_hash` is the Rust function the generator emits for its hash. -/
theorem aggregationHash_eq_rustHashFn (rpcId : UInt32) :
    aggregationHash rpcId = aggregationPerfectHash.rustHashFn rpcId := by
  have hs : aggregationPerfectHash.toParams.Shaped := by
    constructor <;> decide
  have hlen : aggregationPerfectHash.gArray.length = aggregationPerfectHash.gSize := rfl
  -- `G_ARRAY` holds the generator's g values as bytes
  have hg : ∀ i, (gArray.getD i 0).toUInt32 =
      ((aggregationPerfectHash.gArray[i]?).getD 0).toUInt32 := by
    intro i
    rcases i with _ | _ | _ | _ | i
    · rfl
    · rfl
    · rfl
    · rfl
    · simp [gArray, aggregationPerfectHash]
  -- the constants `hash.rs` prints are the hash's fields
  have hseed : aggregationPerfectHash.hashSeed.toUInt32 = 0 := rfl
  have hmul : aggregationPerfectHash.multiplier.toUInt32 = 2654435761 := rfl
  have hgShift : aggregationPerfectHash.gShift.toUInt32 = 30 := rfl
  have hhashShift : aggregationPerfectHash.hashShift.toUInt32 = 26 := rfl
  have hmask : aggregationPerfectHash.hashMask.toUInt32 = 15 := rfl
  rw [rustHashFn_eq hs hlen, emitted, hseed, hmul, hgShift, hhashShift, hmask, aggregationHash]
  simp only [hg]

/-- The generator, given the app's rpc ids, builds the hash that `hash.rs` prints. -/
theorem aggregationPerfectHash_generated :
    PerfectHash.new (allMessageMetadata.map fun md => md.rpcId.toNat) = .ok aggregationPerfectHash := by
  have hkeys : (allMessageMetadata.map fun md => md.rpcId.toNat) =
      [461, 462, 463, 465, 466, 467, 468, 65535] := rfl
  -- one multiplier, the first, puts the keys in bins with distinct slots
  have hseed : findSeed (params [461, 462, 463, 465, 466, 467, 468, 65535])
      [461, 462, 463, 465, 466, 467, 468, 65535] =
      .ok (0, knuthA, [(3, [3924173757, 3682174543]), (2, [2283642222, 2670919139]),
        (0, [643110687, 16483378, 1030387604]), (1, [1657014913])]) := by
    decide
  have hsort : ([[3924173757, 3682174543], [2283642222, 2670919139],
      [643110687, 16483378, 1030387604], [1657014913]] : List (List Nat)).mergeSort
        (fun a b => a.length ≤ b.length) =
      [[1657014913], [3924173757, 3682174543], [2283642222, 2670919139],
        [643110687, 16483378, 1030387604]] := by
    simp [List.mergeSort, List.MergeSort.Internal.splitInTwo]
  rw [hkeys, PerfectHash.new, hseed, ok_bind]
  dsimp only
  simp only [List.map, hsort]
  decide

/-- The aggregation core's parser: the `hash.rs` it is built with is the hash the generator
    emits for the app's rpc ids; registering the handlers succeeds, so no message is dropped by a
    collision; `handle` answers a message exactly for a buffer holding a timestamp and then an
    aggregation message with the length its metadata gives, and answers it with the handler
    registered for that message; and it answers `MessageNotRegistered` exactly for an id outside
    the app. -/
theorem aggregationParser_dispatch :
    PerfectHash.new (allMessageMetadata.map fun md => md.rpcId.toNat) = .ok aggregationPerfectHash ∧
    aggregationHash = aggregationPerfectHash.rustHashFn ∧
    ∃ p, aggregationParser = .ok p ∧ ∀ (o : Endian) (data : List UInt8),
      (∀ r, p.handle o data = .ok r ↔
        ∃ md rest, (md, r.value) ∈ handlerRegistrations ∧
          data = o.u64ToBytes r.timestamp ++ r.message ++ rest ∧
          (r.message ++ rest).take 2 = o.u16ToBytes md.rpcId ∧ md.size.Fits o r.message) ∧
      (∀ id, p.handle o data = .error (.messageNotRegistered id) ↔
        10 ≤ data.length ∧ o.u16FromBytes ((data.take 10).drop 8) = id ∧
          id ∉ allMessageMetadata.map MessageMetadata.rpcId) := by
  have hfn : aggregationHash = aggregationPerfectHash.rustHashFn := funext aggregationHash_eq_rustHashFn
  obtain ⟨hcap, hinj⟩ := new_rustHashFn_spec (by decide) (by decide) (by decide)
    aggregationPerfectHash_generated
  -- the registered ids are the generator's keys
  have hkeys : ∀ r ∈ handlerRegistrations,
      r.1.rpcId.toNat ∈ allMessageMetadata.map fun md => md.rpcId.toNat := by
    decide
  have hinj' : ∀ r₁ ∈ handlerRegistrations, ∀ r₂ ∈ handlerRegistrations,
      aggregationHash r₁.1.rpcId.toUInt32 = aggregationHash r₂.1.rpcId.toUInt32 →
        r₁.1.rpcId = r₂.1.rpcId := by
    intro r₁ h₁ r₂ h₂ hh
    rw [hfn, rpcId_toUInt32, rpcId_toUInt32] at hh
    exact UInt16.toNat_inj.mp (hinj _ (hkeys r₁ h₁) _ (hkeys r₂ h₂) hh)
  obtain ⟨p, hrun, hdisp⟩ := registered_parser_dispatch 16 aggregationHash (hfn ▸ hcap)
    handlerRegistrations (by decide) hinj'
  exact ⟨aggregationPerfectHash_generated, hfn, p, hrun, hdisp⟩

end OtelNetwork.Aggregation
