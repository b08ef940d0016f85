import OtelNetwork.ElementQueue.CQueue
import OtelNetwork.ElementQueue.Proofs.Placement

/-!
# The Rust element queue against the C one

Each function of the Rust handle computes what the C function of `element_queue.c` computes on
the C handle with the same indices, a batch's local indices standing for the handle's own
(`WriteBatch.cHandle`, `ReadBatch.cHandle`), and an `EqError` stands for the `errno` its `code`
gives. The exceptions are where Rust panics: a slice past the end of the data buffer, where the
C caller is handed the offset and goes past the buffer. For a buffer of at most `2^30` bytes
`WriteBatch::write` never panics, so it refines `eq_write` (`write_refines_eqWrite`); for `2^31`
bytes it panics where `eq_write` returns an offset (`eqWrite_overruns_where_write_panics`).
-/

namespace OtelNetwork

open ElementQueue CElementQueue Counter32

/-- The C handle of a write batch: the Rust handle with the batch's tails as its own. -/
def WriteBatch.cHandle (b : WriteBatch) (q : ElementQueue) : ElementQueue :=
  { q with elemTail := b.elemTail, bufTail := b.bufTail }

/-- The C handle of a read batch: the Rust handle with the batch's heads as its own. -/
def ReadBatch.cHandle (b : ReadBatch) (q : ElementQueue) : ElementQueue :=
  { q with elemHead := b.elemHead, bufHead := b.bufHead }

namespace CElementQueue

theorem eqNextOffsetByLen_eq : eqNextOffsetByLen = nextOffsetByLen := rfl

theorem toInt_and_of_lt (x : UInt32) {m : UInt32} (hm : m.toNat < 2 ^ 31) :
    toInt (x &&& m) = (x &&& m).toNat := by
  have hle : (x &&& m).toNat ≤ m.toNat := by
    rw [UInt32.toNat_and]
    exact Nat.and_le_right
  exact toInt_toInt32_of_lt (by omega)

/-! ## Setting up -/

/-- `WriteBatch::write` as a chain of its checks, with `(len + 7) & !7` written out as C writes
    it. -/
theorem write_eq (q : ElementQueue) (elems : Nat → UInt32) (b : WriteBatch) (len : UInt32) :
    b.write q elems len =
      if (len + 7 &&& ~~~7) > q.bufMask then .ok (.error .invalidArg)
      else if b.elemTail - q.elemHead ≥ q.elemMask + 1 then .ok (.error .noSpace)
      else if nextOffsetByLen b.bufTail q.bufMask (len + 7 &&& ~~~7) + (len + 7 &&& ~~~7) -
          q.bufHead > q.bufMask + 1 then .ok (.error .noSpace)
      else if (nextOffsetByLen b.bufTail q.bufMask (len + 7 &&& ~~~7) &&& q.bufMask).toNat +
          len.toNat > q.bufMask.toNat + 1 then .error "range end index out of range for slice"
      else
        .ok (.ok ((nextOffsetByLen b.bufTail q.bufMask (len + 7 &&& ~~~7) &&& q.bufMask).toNat,
          ⟨b.elemTail + 1, nextOffsetByLen b.bufTail q.bufMask (len + 7 &&& ~~~7) +
            (len + 7 &&& ~~~7)⟩,
          Function.update elems (b.elemTail &&& q.elemMask).toNat len)) :=
  rfl

/-- What `eq_write` returns for each result of `WriteBatch::write`. -/
def writeAnswer (eq : ElementQueue) (elems : Nat → UInt32) :
    Except EqError (Nat × WriteBatch × (Nat → UInt32)) → Int × ElementQueue × (Nat → UInt32)
  | .error e => (e.code, eq, elems)
  | .ok (start, b, elems') => (start, { eq with elemTail := b.elemTail, bufTail := b.bufTail }, elems')

/-- Where `WriteBatch::write` does not panic, `eq_write` on the batch's C handle answers alike. -/
theorem eqWrite_of_write {q : ElementQueue} {elems : Nat → UInt32} {b : WriteBatch}
    {len : UInt32} {r : Except EqError (Nat × WriteBatch × (Nat → UInt32))}
    (hmask : q.bufMask.toNat < 2 ^ 31) (h : b.write q elems len = .ok r) :
    eqWrite (b.cHandle q) elems len = writeAnswer (b.cHandle q) elems r := by
  rw [write_eq] at h
  simp only [eqWrite, WriteBatch.cHandle, eqNextOffsetByLen_eq]
  -- the C function makes the same checks in the same order
  split_ifs at h with h₁ h₂ h₃ h₄
  · cases h
    simp only [h₁, ↓reduceIte]
    rfl
  · cases h
    simp only [h₁, h₂, ↓reduceIte]
    rfl
  · cases h
    simp only [h₁, h₂, h₃, ↓reduceIte]
    rfl
  · cases h
    simp only [h₁, h₂, h₃, ↓reduceIte, toInt_and_of_lt _ hmask]
    rfl

/-- For a buffer of `2^k ≤ 2^30` bytes the slice `WriteBatch::write` returns lies in the
    buffer, so it never panics. -/
theorem write_ok_of_le_two_pow_30 {q : ElementQueue} {k : Nat}
    (hmask : q.bufMask = UInt32.ofNat (2 ^ k - 1)) (hk : k ≤ 30) (elems : Nat → UInt32)
    (b : WriteBatch) {len : UInt32} (hlen : len.toNat + 7 < 2 ^ 32) :
    ∃ r, b.write q elems len = .ok r := by
  have hL : (UInt32.ofNat (2 ^ k - 1)).toNat = 2 ^ k - 1 := toNat_mask (by omega)
  have hpos : 0 < 2 ^ k := Nat.two_pow_pos k
  have halign : (len + 7 &&& ~~~7).toNat = align len.toNat := toNat_alignedLen hlen
  have hlenle := len_le_align len.toNat
  rw [write_eq]
  split_ifs with h₁ h₂ h₃ h₄
  · exact ⟨_, rfl⟩
  · exact ⟨_, rfl⟩
  · exact ⟨_, rfl⟩
  · -- the panic is ruled out by the placement bound
    exfalso
    have ha : (len + 7 &&& ~~~7).toNat ≤ 2 ^ k - 1 := by
      rw [← hL, ← hmask]
      exact UInt32.le_iff_toNat_le.mp (UInt32.not_lt.mp h₁)
    rw [hmask, hL] at h₄
    rcases Nat.eq_zero_or_pos (len + 7 &&& ~~~7).toNat with h0 | h0
    · -- an empty element: the masked start is within the mask
      have hand : (nextOffsetByLen b.bufTail (UInt32.ofNat (2 ^ k - 1)) (len + 7 &&& ~~~7) &&&
          UInt32.ofNat (2 ^ k - 1)).toNat ≤ 2 ^ k - 1 := by
        rw [UInt32.toNat_and, hL]
        exact Nat.and_le_right
      omega
    · have hofNat : UInt32.ofNat (len + 7 &&& ~~~7).toNat = len + 7 &&& ~~~7 :=
        UInt32.ofNat_toNat
      have hb := (nextOffsetByLen_in_bounds rfl hk b.bufTail h0 (by omega)).1
      rw [hofNat] at hb
      omega
  · exact ⟨_, rfl⟩

/-- For a buffer of at most `2^30` bytes, `WriteBatch::write` returns what `eq_write` returns on
    the batch's C handle: an error exactly where `eq_write` returns `-EINVAL` or `-ENOSPC`, and
    otherwise the same offset, tails and element ring. -/
theorem write_refines_eqWrite {q : ElementQueue} {k : Nat}
    (hmask : q.bufMask = UInt32.ofNat (2 ^ k - 1)) (hk : k ≤ 30) (elems : Nat → UInt32)
    (b : WriteBatch) {len : UInt32} (hlen : len.toNat + 7 < 2 ^ 32) :
    ∃ r, b.write q elems len = .ok r ∧
      eqWrite (b.cHandle q) elems len = writeAnswer (b.cHandle q) elems r := by
  obtain ⟨r, hr⟩ := write_ok_of_le_two_pow_30 hmask hk elems b hlen
  have hm : q.bufMask.toNat < 2 ^ 31 := by
    rw [hmask, toNat_mask (by omega)]
    have : 2 ^ k ≤ 2 ^ 30 := Nat.pow_le_pow_right (by decide) hk
    omega
  exact ⟨r, hr, eqWrite_of_write hm hr⟩

/-- A write of 5 bytes into an empty queue of 16 bytes. -/
theorem write_refines_eqWrite_sixteen :
    (⟨3, 15, 0, 0, 0, 0⟩ : ElementQueue).bufMask = UInt32.ofNat (2 ^ 4 - 1) ∧ 4 ≤ 30 ∧
      (5 : UInt32).toNat + 7 < 2 ^ 32 ∧
      ∃ r, (⟨0, 0⟩ : WriteBatch).write ⟨3, 15, 0, 0, 0, 0⟩ (fun _ => 0) 5 = .ok r ∧
        eqWrite ((⟨0, 0⟩ : WriteBatch).cHandle ⟨3, 15, 0, 0, 0, 0⟩) (fun _ => 0) 5 =
          writeAnswer ((⟨0, 0⟩ : WriteBatch).cHandle ⟨3, 15, 0, 0, 0, 0⟩) (fun _ => 0) r := by
  have hmask : (⟨3, 15, 0, 0, 0, 0⟩ : ElementQueue).bufMask = UInt32.ofNat (2 ^ 4 - 1) := by
    decide
  have hlen : (5 : UInt32).toNat + 7 < 2 ^ 32 := by decide
  exact ⟨hmask, by decide, hlen, write_refines_eqWrite hmask (by decide) _ _ hlen⟩

/-- A buffer of `2^31` bytes, which both sides accept. A C producer and consumer that move an
    element of `2^30` bytes and then one of `2^30 - 8` leave every index of the producer at
    `2^31 - 8` (the element ring holds one entry); there `eq_write(16)` returns the offset
    `2^31 - 8`, from which the element runs 8 bytes past the end of the buffer, while
    `WriteBatch::write(16)` on a handle with the same indices panics. -/
theorem eqWrite_overruns_where_write_panics :
    let eq : ElementQueue := ⟨0, UInt32.ofNat (2 ^ 31 - 1), 0, 0, 0, 0⟩
    let w₁ := eqWrite eq (fun _ => 0) (UInt32.ofNat (2 ^ 30))
    let s₁ := eqFinishWriteBatch w₁.2.1 ⟨0, 0, 0, 0⟩
    let r₁ := eqRead (eqStartReadBatch eq s₁) w₁.2.2
    let s₂ := eqFinishReadBatch r₁.2.2 s₁
    let w₂ := eqWrite (eqStartWriteBatch w₁.2.1 s₂) w₁.2.2 (UInt32.ofNat (2 ^ 30 - 8))
    let s₃ := eqFinishWriteBatch w₂.2.1 s₂
    let r₂ := eqRead (eqStartReadBatch r₁.2.2 s₃) w₂.2.2
    let p := eqStartWriteBatch w₂.2.1 (eqFinishReadBatch r₂.2.2 s₃)
    eqInitContig 1 (UInt32.ofNat (2 ^ 31)) ⟨0, 0, 0, 0⟩ = (0, some eq) ∧
      newFromContiguous 1 (UInt32.ofNat (2 ^ 31)) ⟨0, 0, 0, 0⟩ = .ok eq ∧
      p = ⟨0, UInt32.ofNat (2 ^ 31 - 1), 2, UInt32.ofNat (2 ^ 31 - 8), 2,
        UInt32.ofNat (2 ^ 31 - 8)⟩ ∧
      (eqWrite p w₂.2.2 16).1 = 2 ^ 31 - 8 ∧ (eqWrite p w₂.2.2 16).1 + 16 > 2 ^ 31 ∧
      (WriteBatch.write p w₂.2.2 ⟨p.elemTail, p.bufTail⟩ 16).toBool = false := by
  intro eq w₁ s₁ r₁ s₂ w₂ s₃ r₂ p
  exact ⟨by decide, rfl, by decide, by decide, by decide, by decide⟩

/-! ## Reading -/

end CElementQueue

end OtelNetwork
