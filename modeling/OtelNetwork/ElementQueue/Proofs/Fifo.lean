import OtelNetwork.ElementQueue.Spec
import OtelNetwork.ElementQueue.Proofs.Chain
import OtelNetwork.ElementQueue.Proofs.CPort
import OtelNetwork.Lib.Rust

/-!
# The element queue is a FIFO channel

A producer and a consumer share an element queue and call it in any interleaving (`EqSystem`).
Read through unwrapped counters (`Ghost`), the shared memory holds the elements the producer
has committed and the consumer has not, one after another from the consumer's heads (`Holds`):
their lengths in the element ring and their bytes in the data buffer, within one ring and one
buffer. Each call keeps this (`Holds.step`), whatever the other side has loaded, so the elements
the consumer reads are always the first ones the producer committed (`Holds.fifo`). In the same
states every call but a write returns (`Holds.step_ok`): the consumer's slices lie inside the
buffer, so a run can only panic in a write.
-/

namespace OtelNetwork.ElementQueue

open Counter32 EqSystem RustSem

/-! ## One write and one read on unwrapped counters -/

section Counters

variable {N L j k : Nat} (hN : N = 2 ^ j) (hj : j ≤ 31) (hL : L = 2 ^ k) (hk : k ≤ 31)
include hN hj

theorem toNat_mask_add_one : (UInt32.ofNat (N - 1) + 1).toNat = N := by
  have hpos : 0 < N := pos_of_two_pow hN
  have hle : N ≤ 2 ^ 31 := le_two_pow_31 hN hj
  rw [UInt32.toNat_add, UInt32.toNat_ofNat', UInt32.toNat_one]
  omega

theorem toNat_ofNat_pred : (UInt32.ofNat (N - 1)).toNat = N - 1 := by
  have hle : N ≤ 2 ^ 31 := le_two_pow_31 hN hj
  rw [UInt32.toNat_ofNat']
  omega

theorem toNat_ofNat_and_mask (x : Nat) : (UInt32.ofNat x &&& UInt32.ofNat (N - 1)).toNat = x % N := by
  rw [toNat_and_ofNat_mask hN (by omega), UInt32.toNat_ofNat',
    Nat.mod_mod_of_dvd x (dvd_two_pow_32 hN hj)]

end Counters

theorem ofNat_ne_ofNat {a b : Nat} (hab : a < b) (hb : b < a + 2 ^ 32) :
    UInt32.ofNat a ≠ UInt32.ofNat b := by
  intro h
  have := congrArg UInt32.toNat h
  rw [UInt32.toNat_ofNat', UInt32.toNat_ofNat'] at this
  exact mod_ne_of_lt (Nat.le_refl a) hab hb this

theorem alignedLen_eq {len : UInt32} (h : len.toNat + 7 < 2 ^ 32) :
    alignedLen len = UInt32.ofNat (align len.toNat) := by
  rw [← toNat_alignedLen h, UInt32.ofNat_toNat]

theorem alignedLen_ofNat {n : Nat} (h : n + 7 < 2 ^ 32) :
    alignedLen (UInt32.ofNat n) = UInt32.ofNat (align n) := by
  have hn : (UInt32.ofNat n).toNat = n := UInt32.toNat_ofNat_of_lt' (by unfold UInt32.size; omega)
  rw [alignedLen_eq (by rw [hn]; exact h), hn]

section Write

variable {N L j k : Nat} (hN : N = 2 ^ j) (hj : j ≤ 31) (hL : L = 2 ^ k) (hk : k ≤ 31)
include hN hj hL hk

/-- A write that succeeds, on unwrapped counters: the element fits a write, its length goes to
    the ring entry of the tail, and its bytes to its place after the tail, inside one ring and
    one buffer of the heads the producer loaded. -/
theorem write_ok {q : ElementQueue} {elems : Nat → UInt32} {b : WriteBatch} {len : UInt32}
    {start : Nat} {b' : WriteBatch} {elems' : Nat → UInt32}
    (hem : q.elemMask = UInt32.ofNat (N - 1)) (hbm : q.bufMask = UInt32.ofNat (L - 1))
    {te tb ceh cbh : Nat} (hte : b.elemTail = UInt32.ofNat te) (htb : b.bufTail = UInt32.ofNat tb)
    (hceh : q.elemHead = UInt32.ofNat ceh) (hcbh : q.bufHead = UInt32.ofNat cbh)
    (hce : ceh ≤ te) (hteN : te ≤ ceh + N) (hcb : cbh ≤ tb) (htbL : tb ≤ cbh + L)
    (h : b.write q elems len = .ok (.ok (start, b', elems'))) :
    len.toNat + 7 < 2 ^ 32 ∧ align len.toNat < L ∧ te + 1 ≤ ceh + N ∧
      place L tb (align len.toNat) + align len.toNat ≤ cbh + L ∧
      place L tb (align len.toNat) % L + len.toNat ≤ L ∧
      start = place L tb (align len.toNat) % L ∧
      b' = ⟨UInt32.ofNat (te + 1),
        UInt32.ofNat (place L tb (align len.toNat) + align len.toNat)⟩ ∧
      elems' = Function.update elems (te % N) len := by
  have hLpos : 0 < L := pos_of_two_pow hL
  have hLle : L ≤ 2 ^ 31 := le_two_pow_31 hL hk
  have hNle : N ≤ 2 ^ 31 := le_two_pow_31 hN hj
  have hLm : (UInt32.ofNat (L - 1)).toNat = L - 1 := toNat_ofNat_pred hL hk
  rw [CElementQueue.write_eq, hem, hbm, hte, htb, hceh, hcbh] at h
  split_ifs at h with h₁ h₂ h₃ h₄ <;> simp only [Except.ok.injEq, reduceCtorEq] at h
  obtain ⟨rfl, rfl, rfl⟩ := h
  -- the slice check bounds the length, so `(len + 7) & !7` does not wrap
  have hlen : len.toNat ≤ L := by
    rw [hLm] at h₄
    omega
  have h7 : len.toNat + 7 < 2 ^ 32 := by omega
  have hA7 : align len.toNat ≤ len.toNat + 7 := Nat.div_mul_le_self _ 8
  have ha : (len + 7 &&& ~~~7) = UInt32.ofNat (align len.toNat) := alignedLen_eq h7
  rw [ha] at h₁ h₃ h₄ ⊢
  have hAL : align len.toNat < L := by
    rw [gt_iff_lt, UInt32.lt_iff_toNat_lt, hLm, UInt32.toNat_ofNat'] at h₁
    omega
  rw [nextOffsetByLen_ofNat hL hk hAL] at h₃ h₄ ⊢
  set A := align len.toNat
  set P := place L tb A
  have hPtb : tb ≤ P := le_place L tb A
  have hP : P - tb < L := place_sub_lt hLpos tb hAL.le
  have hP31 : L = 2 ^ 31 → P = tb := fun h31 => if_neg (by omega)
  have hL30 : L = 2 ^ 31 ∨ L ≤ 2 ^ 30 := by
    rcases Nat.lt_or_ge k 31 with hk' | hk'
    · exact .inr (hL ▸ Nat.pow_le_pow_right (by decide) (by omega))
    · exact .inl (by rw [hL, show k = 31 by omega])
  rw [ge_iff_le, UInt32.le_iff_toNat_le, toNat_mask_add_one hN hj,
    toNat_ofNat_sub_ofNat hce] at h₂
  rw [← UInt32.ofNat_add, gt_iff_lt, UInt32.lt_iff_toNat_lt, toNat_mask_add_one hL hk,
    toNat_ofNat_sub_ofNat (by omega : cbh ≤ P + A)] at h₃
  rw [toNat_ofNat_and_mask hL hk, hLm] at h₄
  refine ⟨h7, hAL, by omega, by omega, by omega, toNat_ofNat_and_mask hL hk P, ?_, ?_⟩
  · rw [UInt32.ofNat_add, UInt32.ofNat_add]
    rfl
  · rw [toNat_ofNat_and_mask hN hj]
end Write

section Read

variable {N L j k : Nat} (hN : N = 2 ^ j) (hj : j ≤ 31) (hL : L = 2 ^ k) (hk : k ≤ 31)
variable {q : ElementQueue} {m : EqMemory} {b : ReadBatch} {e c r : Nat} {xs : List (List UInt8)}

include hN hj in
/-- With `r` elements of `xs` behind the local head, the next one's length is in the ring. -/
theorem peekLen_of_lt (hem : q.elemMask = UInt32.ofNat (N - 1)) (hring : Ring N m.elems e xs)
    (hr : r < xs.length) (ht : q.elemTail ≠ b.elemHead) (hh : b.elemHead = UInt32.ofNat (e + r)) :
    b.peekLen q m.elems = .ok (UInt32.ofNat xs[r].length) := by
  rw [ReadBatch.peekLen, if_neg ht, hh, hem, toNat_ofNat_and_mask hN hj, hring.getElem hr]

include hL hk in
/-- The slice the consumer computes for the element after the first `r` of `xs`: the element's
    place, within the buffer, holding its bytes. -/
theorem head_slice (hbm : q.bufMask = UInt32.ofNat (L - 1)) (hstored : Stored L m.data c xs)
    (hfits : ∀ x ∈ xs, x.length + 7 < 2 ^ 32 ∧ align x.length < L) (hr : r < xs.length)
    (hbh : b.bufHead = UInt32.ofNat (chainEnd L c (xs.take r))) :
    (UInt32.ofNat xs[r].length).toNat = xs[r].length ∧
      nextOffsetByLen b.bufHead q.bufMask (alignedLen (UInt32.ofNat xs[r].length)) =
        UInt32.ofNat (place L (chainEnd L c (xs.take r)) (align xs[r].length)) ∧
      (UInt32.ofNat (place L (chainEnd L c (xs.take r)) (align xs[r].length)) &&&
        q.bufMask).toNat = place L (chainEnd L c (xs.take r)) (align xs[r].length) % L ∧
      ¬place L (chainEnd L c (xs.take r)) (align xs[r].length) % L + xs[r].length >
        q.bufMask.toNat + 1 ∧
      dataSlice m.data (place L (chainEnd L c (xs.take r)) (align xs[r].length) % L)
        xs[r].length = xs[r] := by
  obtain ⟨h7, hA⟩ := hfits _ (List.getElem_mem hr)
  obtain ⟨hfit, hx⟩ := hstored.getElem hr
  have hLm : (UInt32.ofNat (L - 1)).toNat = L - 1 := toNat_ofNat_pred hL hk
  refine ⟨UInt32.toNat_ofNat_of_lt' (by unfold UInt32.size; omega), ?_,
    hbm ▸ toNat_ofNat_and_mask hL hk _, by rw [hbm, hLm]; omega, hx⟩
  rw [hbh, hbm, alignedLen_ofNat h7, nextOffsetByLen_ofNat hL hk hA]

include hN hj hL hk in
/-- A read with `r` elements of `xs` behind the local heads returns the next one whole, and moves
    the heads past it. -/
theorem read_of_lt (hem : q.elemMask = UInt32.ofNat (N - 1)) (hbm : q.bufMask = UInt32.ofNat (L - 1))
    (hring : Ring N m.elems e xs) (hstored : Stored L m.data c xs)
    (hfits : ∀ x ∈ xs, x.length + 7 < 2 ^ 32 ∧ align x.length < L) (hr : r < xs.length)
    (ht : q.elemTail ≠ b.elemHead) (hh : b.elemHead = UInt32.ofNat (e + r))
    (hbh : b.bufHead = UInt32.ofNat (chainEnd L c (xs.take r))) :
    b.read q m = .ok (.ok (xs[r], ⟨UInt32.ofNat (e + r + 1),
      UInt32.ofNat (chainEnd L c (xs.take (r + 1)))⟩)) := by
  obtain ⟨hn, hoff, hstart, hfit, hx⟩ := head_slice hL hk hbm hstored hfits hr hbh
  rw [ReadBatch.read, peekLen_of_lt hN hj hem hring hr ht hh]
  simp only [hoff, hstart, hn]
  rw [if_neg hfit, hx, hh, alignedLen_ofNat (hfits _ (List.getElem_mem hr)).1,
    chainEnd_take_succ c hr, UInt32.ofNat_add (e + r),
    UInt32.ofNat_add (place _ _ _)]
  rfl

include hN hj hL hk in
/-- A peek with `r` elements of `xs` behind the local heads returns the next one whole. -/
theorem peek_of_lt (hem : q.elemMask = UInt32.ofNat (N - 1)) (hbm : q.bufMask = UInt32.ofNat (L - 1))
    (hring : Ring N m.elems e xs) (hstored : Stored L m.data c xs)
    (hfits : ∀ x ∈ xs, x.length + 7 < 2 ^ 32 ∧ align x.length < L) (hr : r < xs.length)
    (ht : q.elemTail ≠ b.elemHead) (hh : b.elemHead = UInt32.ofNat (e + r))
    (hbh : b.bufHead = UInt32.ofNat (chainEnd L c (xs.take r))) :
    b.peek q m = .ok (.ok xs[r]) := by
  obtain ⟨hn, hoff, hstart, hfit, hx⟩ := head_slice hL hk hbm hstored hfits hr hbh
  rw [ReadBatch.peek, peekLen_of_lt hN hj hem hring hr ht hh]
  simp only [hoff, hstart, hn]
  rw [if_neg hfit, hx]
  rfl

theorem read_of_eq (ht : q.elemTail = b.elemHead) : b.read q m = .ok (.error .noEntry) := by
  simp only [ReadBatch.read, ReadBatch.peekLen, ht, if_true]
  rfl

theorem peek_of_eq (ht : q.elemTail = b.elemHead) : b.peek q m = .ok (.error .noEntry) := by
  simp only [ReadBatch.peek, ReadBatch.peekLen, ht, if_true]
  rfl

end Read

/-! ## The invariant -/

/-- The unwrapped counters behind the consumer's published heads, and the elements committed and
    not yet consumed. -/
structure Ghost where
  eh : Nat
  bh : Nat
  queue : List (List UInt8)

/-- The ghost state after the consumer commits the first `r` elements. -/
def Ghost.consume (g : Ghost) (L r : Nat) : Ghost :=
  ⟨g.eh + r, chainEnd L g.bh (g.queue.take r), g.queue.drop r⟩

/-- An open write batch: the heads the producer loaded are behind the consumer's, the batch's
    tails follow the committed elements and its own, and all of them lie within one ring and one
    buffer of the loaded heads. -/
def WriteOpen (N L : Nat) (g : Ghost) (q : ElementQueue) (b : WriteBatch)
    (writing : List (List UInt8)) : Prop :=
  ∃ ceh cbh, ceh ≤ g.eh ∧ cbh ≤ g.bh ∧ q.elemHead = UInt32.ofNat ceh ∧
    q.bufHead = UInt32.ofNat cbh ∧ b.elemTail = UInt32.ofNat (g.eh + (g.queue ++ writing).length) ∧
    b.bufTail = UInt32.ofNat (chainEnd L g.bh (g.queue ++ writing)) ∧
    g.eh + (g.queue ++ writing).length ≤ ceh + N ∧ chainEnd L g.bh (g.queue ++ writing) ≤ cbh + L

/-- An open read batch: the first `r` committed elements read, of the `t` the consumer loaded. -/
def ReadOpen (L : Nat) (g : Ghost) (q : ElementQueue) (b : ReadBatch)
    (reading : List (List UInt8)) : Prop :=
  ∃ r t, r ≤ t ∧ t ≤ g.queue.length ∧ reading = g.queue.take r ∧
    q.elemTail = UInt32.ofNat (g.eh + t) ∧ b.elemHead = UInt32.ofNat (g.eh + r) ∧
    b.bufHead = UInt32.ofNat (chainEnd L g.bh (g.queue.take r))

/-- The queue of `N` elements and `L` bytes, read through the ghost counters: each side's indices,
    its open batch, and the committed and the batch's elements in the ring and the buffer. -/
structure Holds (N L : Nat) (g : Ghost) (s : EqSystem) (log : EqLog) : Prop where
  producerMasks : s.producer.elemMask = UInt32.ofNat (N - 1) ∧
    s.producer.bufMask = UInt32.ofNat (L - 1)
  consumerMasks : s.consumer.elemMask = UInt32.ofNat (N - 1) ∧
    s.consumer.bufMask = UInt32.ofNat (L - 1)
  shared : s.mem.shared = ⟨UInt32.ofNat g.eh, UInt32.ofNat g.bh,
    UInt32.ofNat (g.eh + g.queue.length), UInt32.ofNat (chainEnd L g.bh g.queue)⟩
  tails : s.producer.elemTail = UInt32.ofNat (g.eh + g.queue.length) ∧
    s.producer.bufTail = UInt32.ofNat (chainEnd L g.bh g.queue)
  heads : s.consumer.elemHead = UInt32.ofNat g.eh ∧ s.consumer.bufHead = UInt32.ofNat g.bh
  written : log.written = log.read ++ g.queue
  writeOpen : ∀ b, s.writeBatch = some b → WriteOpen N L g s.producer b log.writing
  writeIdle : s.writeBatch = none → log.writing = []
  readOpen : ∀ b, s.readBatch = some b → ReadOpen L g s.consumer b log.reading
  readIdle : s.readBatch = none → log.reading = []
  ring : Ring N s.mem.elems g.eh (g.queue ++ log.writing)
  stored : Stored L s.mem.data g.bh (g.queue ++ log.writing)
  fits : ∀ x ∈ g.queue ++ log.writing, x.length + 7 < 2 ^ 32 ∧ align x.length < L
  count : g.queue.length ≤ N
  span : chainEnd L g.bh g.queue ≤ g.bh + L

theorem ReadOpen.append {L : Nat} {g : Ghost} {q : ElementQueue} {b : ReadBatch}
    {reading : List (List UInt8)} (h : ReadOpen L g q b reading) (W : List (List UInt8)) :
    ReadOpen L ⟨g.eh, g.bh, g.queue ++ W⟩ q b reading := by
  obtain ⟨r, t, hrt, ht, hreading, hq, hbe, hbb⟩ := h
  have hr : r ≤ g.queue.length := hrt.trans ht
  refine ⟨r, t, hrt, ?_, ?_, hq, hbe, ?_⟩
  · rw [List.length_append]
    omega
  · rw [hreading, List.take_append_of_le_length hr]
  · rw [hbb, List.take_append_of_le_length hr]

theorem WriteOpen.consume {N L : Nat} {g : Ghost} {q : ElementQueue} {b : WriteBatch}
    {W : List (List UInt8)} (h : WriteOpen N L g q b W) {r : Nat} (hr : r ≤ g.queue.length) :
    WriteOpen N L (g.consume L r) q b W := by
  obtain ⟨ceh, cbh, hce, hcb, hq, hqb, hte, htb, hteN, htbL⟩ := h
  have hlen : g.eh + r + (g.queue.drop r ++ W).length = g.eh + (g.queue ++ W).length := by
    simp only [List.length_append, List.length_drop]
    omega
  have hend : chainEnd L (chainEnd L g.bh (g.queue.take r)) (g.queue.drop r ++ W) =
      chainEnd L g.bh (g.queue ++ W) := by
    rw [← chainEnd_append, ← List.append_assoc, List.take_append_drop]
  refine ⟨ceh, cbh, Nat.le_add_right_of_le hce, hcb.trans (le_chainEnd _ _), hq, hqb, ?_, ?_, ?_, ?_⟩
  · show b.elemTail = UInt32.ofNat (g.eh + r + (g.queue.drop r ++ W).length)
    rw [hlen, hte]
  · show b.bufTail = UInt32.ofNat (chainEnd L (chainEnd L g.bh (g.queue.take r)) (g.queue.drop r ++ W))
    rw [hend, htb]
  · show g.eh + r + (g.queue.drop r ++ W).length ≤ ceh + N
    rw [hlen]
    exact hteN
  · show chainEnd L (chainEnd L g.bh (g.queue.take r)) (g.queue.drop r ++ W) ≤ cbh + L
    rw [hend]
    exact htbL

section Steps

variable {N L j k : Nat} (hN : N = 2 ^ j) (hj : j ≤ 31) (hL : L = 2 ^ k) (hk : k ≤ 31)
variable {g : Ghost} {s : EqSystem} {log : EqLog}

theorem Holds.startWrite (h : Holds N L g s log) (hwb : s.writeBatch = none) :
    Holds N L g
      { s with
        producer := (s.producer.startWrite s.mem.shared).1
        writeBatch := some (s.producer.startWrite s.mem.shared).2 } log := by
  have hW := h.writeIdle hwb
  refine { h with writeOpen := ?_, writeIdle := ?_ }
  · rintro _ ⟨⟩
    simp only [WriteOpen, ElementQueue.startWrite, h.shared, hW, List.append_nil]
    exact ⟨g.eh, g.bh, le_rfl, le_rfl, rfl, rfl, h.tails.1, h.tails.2,
      Nat.add_le_add_left h.count g.eh, h.span⟩
  · rintro ⟨⟩

include hN hj hL hk in
theorem Holds.write (h : Holds N L g s log) {b : WriteBatch} (hwb : s.writeBatch = some b)
    {len : UInt32} {start : Nat} {b' : WriteBatch} {elems' : Nat → UInt32}
    (hw : b.write s.producer s.mem.elems len = .ok (.ok (start, b', elems'))) (fill : Nat → UInt8) :
    Holds N L g
      { s with
        mem := { s.mem with elems := elems', data := fillSlice s.mem.data start len.toNat fill }
        writeBatch := some b' }
      (log.record (.wrote (dataSlice (fillSlice s.mem.data start len.toNat fill) start len.toNat))) := by
  obtain ⟨ceh, cbh, hce, hcb, hceh, hcbh, hte, htb, hteN, htbL⟩ := h.writeOpen b hwb
  obtain ⟨h7, hA, hte1, hend, hfit, rfl, rfl, rfl⟩ := write_ok hN hj hL hk h.producerMasks.1
    h.producerMasks.2 hte htb hceh hcbh (by omega) hteN (hcb.trans (le_chainEnd _ _)) htbL hw
  set x := dataSlice (fillSlice s.mem.data _ len.toNat fill) _ len.toNat
  have hx : x.length = len.toNat := length_dataSlice _ _
  have hlen := len_le_align len.toNat
  have happ : g.queue ++ (log.writing ++ [x]) = g.queue ++ log.writing ++ [x] :=
    (List.append_assoc _ _ _).symm
  refine { h with writeOpen := ?_, writeIdle := ?_, ring := ?_, stored := ?_, fits := ?_ }
  · rintro _ ⟨⟩
    show WriteOpen N L g s.producer _ (log.writing ++ [x])
    unfold WriteOpen
    have hlenx : (g.queue ++ log.writing ++ [x]).length = (g.queue ++ log.writing).length + 1 :=
      List.length_append
    rw [happ, hlenx, chainEnd_snoc, hx]
    exact ⟨ceh, cbh, hce, hcb, hceh, hcbh, rfl, rfl, hte1, hend⟩
  · rintro ⟨⟩
  · show Ring N (Function.update s.mem.elems _ len) g.eh (g.queue ++ (log.writing ++ [x]))
    rw [happ, ring_append]
    refine ⟨h.ring.update hce le_rfl hte1 len, ?_, trivial⟩
    rw [Function.update_self, hx, UInt32.ofNat_toNat]
  · show Stored L (fillSlice s.mem.data _ len.toNat fill) g.bh (g.queue ++ (log.writing ++ [x]))
    rw [happ, stored_append]
    refine ⟨h.stored.fill hcb (le_place _ _ _) (by omega) hfit fill, ?_, ?_, trivial⟩ <;> rw [hx]
    exact hfit
  · intro y hy
    change y ∈ g.queue ++ (log.writing ++ [x]) at hy
    rw [happ, List.mem_append, List.mem_singleton] at hy
    rcases hy with hy | rfl
    · exact h.fits y hy
    · rw [hx]
      exact ⟨h7, hA⟩

theorem Holds.finishWrite (h : Holds N L g s log) {b : WriteBatch} (hwb : s.writeBatch = some b) :
    Holds N L ⟨g.eh, g.bh, g.queue ++ log.writing⟩
      { s with
        producer := (b.finish s.producer s.mem.shared).1
        mem := { s.mem with shared := (b.finish s.producer s.mem.shared).2 }
        writeBatch := none }
      (log.record .writeCommitted) := by
  obtain ⟨ceh, cbh, hce, hcb, -, -, hte, htb, hteN, htbL⟩ := h.writeOpen b hwb
  exact {
    producerMasks := h.producerMasks
    consumerMasks := h.consumerMasks
    shared := by
      simp only [WriteBatch.finish, h.shared, hte, htb]
    tails := ⟨hte, htb⟩
    heads := h.heads
    written := by simp only [EqLog.record, h.written, List.append_assoc]
    writeOpen := by rintro _ ⟨⟩
    writeIdle := fun _ => rfl
    readOpen := fun b' hb' => (h.readOpen b' hb').append log.writing
    readIdle := h.readIdle
    ring := by simpa [EqLog.record] using h.ring
    stored := by simpa [EqLog.record] using h.stored
    fits := by simpa [EqLog.record] using h.fits
    count := by
      simp only [List.length_append] at hteN ⊢
      omega
    span := show chainEnd L g.bh (g.queue ++ log.writing) ≤ g.bh + L by omega }

theorem Holds.dropWrite (h : Holds N L g s log) :
    Holds N L g { s with writeBatch := none } (log.record .writeDropped) := by
  have hring := (ring_append _ _ _).mp h.ring
  have hstored := (stored_append _ _ _).mp h.stored
  refine { h with writeOpen := ?_, writeIdle := fun _ => rfl, ring := ?_, stored := ?_, fits := ?_ }
  · rintro _ ⟨⟩
  · show Ring N s.mem.elems g.eh (g.queue ++ [])
    rw [List.append_nil]
    exact hring.1
  · show Stored L s.mem.data g.bh (g.queue ++ [])
    rw [List.append_nil]
    exact hstored.1
  · intro y hy
    rw [show (log.record .writeDropped).writing = [] from rfl, List.append_nil] at hy
    exact h.fits y (List.mem_append_left _ hy)

theorem Holds.startRead (h : Holds N L g s log) (hrb : s.readBatch = none) :
    Holds N L g
      { s with
        consumer := (s.consumer.startRead s.mem.shared).1
        readBatch := some (s.consumer.startRead s.mem.shared).2 } log := by
  refine { h with readOpen := ?_, readIdle := ?_ }
  · rintro _ ⟨⟩
    simp only [ReadOpen, ElementQueue.startRead, h.shared, h.readIdle hrb]
    exact ⟨0, g.queue.length, Nat.zero_le _, le_rfl, rfl, rfl, h.heads.1, h.heads.2⟩
  · rintro ⟨⟩

include hN hj in
/-- While loaded elements are left, the consumer's loaded tail is not its local head. -/
theorem Holds.tail_ne_head (h : Holds N L g s log) {b : ReadBatch} {r t : Nat} (hlt : r < t)
    (htQ : t ≤ g.queue.length) (hq : s.consumer.elemTail = UInt32.ofNat (g.eh + t))
    (hbe : b.elemHead = UInt32.ofNat (g.eh + r)) : s.consumer.elemTail ≠ b.elemHead := by
  have hNle : N ≤ 2 ^ 31 := le_two_pow_31 hN hj
  have := h.count
  rw [hq, hbe]
  exact (ofNat_ne_ofNat (by omega) (by omega)).symm

include hN hj hL hk in
/-- With `r` of the `t` loaded elements read, the consumer's read and peek return the next one. -/
theorem Holds.next (h : Holds N L g s log) {b : ReadBatch} {r t : Nat} (hlt : r < t)
    (htQ : t ≤ g.queue.length) (hq : s.consumer.elemTail = UInt32.ofNat (g.eh + t))
    (hbe : b.elemHead = UInt32.ofNat (g.eh + r))
    (hbb : b.bufHead = UInt32.ofNat (chainEnd L g.bh (g.queue.take r)))
    (hr : r < (g.queue ++ log.writing).length) :
    b.read s.consumer s.mem = .ok (.ok ((g.queue ++ log.writing)[r], ⟨UInt32.ofNat (g.eh + r + 1),
        UInt32.ofNat (chainEnd L g.bh ((g.queue ++ log.writing).take (r + 1)))⟩)) ∧
      b.peek s.consumer s.mem = .ok (.ok (g.queue ++ log.writing)[r]) := by
  have hne := h.tail_ne_head hN hj hlt htQ hq hbe
  have hbb' : b.bufHead = UInt32.ofNat (chainEnd L g.bh ((g.queue ++ log.writing).take r)) := by
    rw [hbb, List.take_append_of_le_length (by omega)]
  exact ⟨read_of_lt hN hj hL hk h.consumerMasks.1 h.consumerMasks.2 h.ring h.stored h.fits hr hne
    hbe hbb', peek_of_lt hN hj hL hk h.consumerMasks.1 h.consumerMasks.2 h.ring h.stored h.fits hr
    hne hbe hbb'⟩

include hN hj hL hk in
theorem Holds.read (h : Holds N L g s log) {b : ReadBatch} (hrb : s.readBatch = some b)
    {bytes : List UInt8} {b' : ReadBatch} (hr : b.read s.consumer s.mem = .ok (.ok (bytes, b'))) :
    Holds N L g { s with readBatch := some b' } (log.record (.readOk bytes)) := by
  obtain ⟨r, t, hrt, htQ, hreading, hq, hbe, hbb⟩ := h.readOpen b hrb
  have hrQ : r ≤ g.queue.length := hrt.trans htQ
  rcases Nat.lt_or_ge r t with hlt | hge
  · -- an element the consumer loaded is left: the read returns it
    have hlt' : r < (g.queue ++ log.writing).length := by
      rw [List.length_append]
      omega
    rw [(h.next hN hj hL hk hlt htQ hq hbe hbb hlt').1, Except.ok.injEq, Except.ok.injEq,
      Prod.mk.injEq] at hr
    obtain ⟨rfl, rfl⟩ := hr
    refine { h with readOpen := ?_, readIdle := ?_ }
    · rintro _ ⟨⟩
      refine ⟨r + 1, t, hlt, htQ, ?_, hq, rfl, ?_⟩
      · show log.reading ++ [(g.queue ++ log.writing)[r]] = g.queue.take (r + 1)
        rw [hreading, List.take_succ_eq_append_getElem (by omega), List.getElem_append_left]
      · rw [List.take_append_of_le_length (by omega)]
    · rintro ⟨⟩
  · -- every element the consumer loaded is read: the read finds no entry
    rw [read_of_eq (by rw [hq, hbe, show t = r by omega])] at hr
    cases hr

include hN hj hL hk in
/-- In an open read batch the consumer's peek and read return: with the next loaded element, or
    with `NoEntry` once all of them are read. -/
theorem Holds.peek_read_ok (h : Holds N L g s log) {b : ReadBatch} (hrb : s.readBatch = some b) :
    (∃ r, b.peek s.consumer s.mem = .ok r) ∧ (∃ r, b.read s.consumer s.mem = .ok r) := by
  obtain ⟨r, t, hrt, htQ, -, hq, hbe, hbb⟩ := h.readOpen b hrb
  rcases Nat.lt_or_ge r t with hlt | hge
  · obtain ⟨hread, hpeek⟩ := h.next hN hj hL hk hlt htQ hq hbe hbb
      (by rw [List.length_append]; omega)
    exact ⟨⟨_, hpeek⟩, ⟨_, hread⟩⟩
  · have heq : s.consumer.elemTail = b.elemHead := by
      rw [hq, hbe, show t = r by omega]
    exact ⟨⟨_, peek_of_eq heq⟩, ⟨_, read_of_eq heq⟩⟩

theorem Holds.finishRead (h : Holds N L g s log) {b : ReadBatch} (hrb : s.readBatch = some b) :
    ∃ g', Holds N L g'
      { s with
        consumer := (b.finish s.consumer s.mem.shared).1
        mem := { s.mem with shared := (b.finish s.consumer s.mem.shared).2 }
        readBatch := none } (log.record .readCommitted) := by
  obtain ⟨r, t, hrt, htQ, hreading, -, hbe, hbb⟩ := h.readOpen b hrb
  have hrQ : r ≤ g.queue.length := hrt.trans htQ
  have hlen : g.eh + g.queue.length = g.eh + r + (g.queue.drop r).length := by
    rw [List.length_drop]
    omega
  have hend := chainEnd_take_drop (L := L) g.bh r g.queue
  have hdrop : (g.queue ++ log.writing).drop r = g.queue.drop r ++ log.writing :=
    List.drop_append_of_le_length hrQ
  have htake : (g.queue ++ log.writing).take r = g.queue.take r :=
    List.take_append_of_le_length hrQ
  refine ⟨g.consume L r, {
    producerMasks := h.producerMasks
    consumerMasks := h.consumerMasks
    shared := ?_
    tails := ⟨h.tails.1.trans (congrArg UInt32.ofNat hlen), h.tails.2.trans (congrArg UInt32.ofNat hend.symm)⟩
    heads := ⟨hbe, hbb⟩
    written := ?_
    writeOpen := fun b' hb' => (h.writeOpen b' hb').consume hrQ
    writeIdle := h.writeIdle
    readOpen := by rintro _ ⟨⟩
    readIdle := fun _ => rfl
    ring := ?_
    stored := ?_
    fits := ?_
    count := ?_
    span := ?_ }⟩
  · show { s.mem.shared with bufHead := b.bufHead, elemHead := b.elemHead } = _
    rw [h.shared, hbe, hbb, hlen, ← hend]
    rfl
  · show log.written = log.read ++ log.reading ++ g.queue.drop r
    rw [h.written, hreading, List.append_assoc, List.take_append_drop]
  · show Ring N s.mem.elems (g.eh + r) (g.queue.drop r ++ log.writing)
    rw [← hdrop]
    exact h.ring.drop (by rw [List.length_append]; omega)
  · show Stored L s.mem.data (chainEnd L g.bh (g.queue.take r)) (g.queue.drop r ++ log.writing)
    rw [← hdrop, ← htake]
    exact h.stored.drop r
  · intro y hy
    rw [show (g.consume L r).queue ++ (log.record .readCommitted).writing =
      (g.queue ++ log.writing).drop r from hdrop.symm] at hy
    exact h.fits y (List.mem_of_mem_drop hy)
  · show (g.queue.drop r).length ≤ N
    rw [List.length_drop]
    exact (Nat.sub_le _ _).trans h.count
  · show chainEnd L (chainEnd L g.bh (g.queue.take r)) (g.queue.drop r) ≤
      chainEnd L g.bh (g.queue.take r) + L
    rw [hend]
    have := le_chainEnd (L := L) g.bh (g.queue.take r)
    have := h.span
    omega

theorem Holds.dropRead (h : Holds N L g s log) :
    Holds N L g { s with readBatch := none } (log.record .readDropped) :=
  { h with readOpen := by rintro _ ⟨⟩, readIdle := fun _ => rfl }

/-- A call that returns at once: its answer and the state it leaves. -/
theorem step_pure {ev ev' : Option EqEvent} {s₀ s' : EqSystem}
    (h : (pure (ev, s₀) : Except String (Option EqEvent × EqSystem)) = .ok (ev', s')) :
    ev' = ev ∧ s' = s₀ := by
  rw [pure_eq_ok, Except.ok.injEq, Prod.mk.injEq] at h
  exact ⟨h.1.symm, h.2.symm⟩

include hN hj hL hk in
/-- Every call of either side keeps the invariant, over the answer it gives. -/
theorem Holds.step (h : Holds N L g s log) {a : EqAction} {ev : Option EqEvent} {s' : EqSystem}
    (hs : s.step a = .ok (ev, s')) : ∃ g', Holds N L g' s' (ev.toList.foldl EqLog.record log) := by
  cases a with
  | startWrite =>
    cases hwb : s.writeBatch with
    | none =>
      simp only [EqSystem.step, hwb] at hs
      obtain ⟨rfl, rfl⟩ := step_pure hs
      exact ⟨g, h.startWrite hwb⟩
    | some b =>
      simp only [EqSystem.step, hwb] at hs
      obtain ⟨rfl, rfl⟩ := step_pure hs
      exact ⟨g, h⟩
  | write len fill =>
    cases hwb : s.writeBatch with
    | none =>
      simp only [EqSystem.step, hwb] at hs
      obtain ⟨rfl, rfl⟩ := step_pure hs
      exact ⟨g, h⟩
    | some b =>
      simp only [EqSystem.step, hwb] at hs
      obtain ⟨r, hw, hs⟩ := bind_eq_ok.mp hs
      rcases r with e | ⟨start, b', elems'⟩
      · -- the write fails and changes nothing
        obtain ⟨rfl, rfl⟩ := step_pure hs
        exact ⟨g, h⟩
      · obtain ⟨rfl, rfl⟩ := step_pure hs
        exact ⟨g, h.write hN hj hL hk hwb hw fill⟩
  | finishWrite =>
    cases hwb : s.writeBatch with
    | none =>
      simp only [EqSystem.step, hwb] at hs
      obtain ⟨rfl, rfl⟩ := step_pure hs
      exact ⟨g, h⟩
    | some b =>
      simp only [EqSystem.step, hwb] at hs
      obtain ⟨rfl, rfl⟩ := step_pure hs
      exact ⟨_, h.finishWrite hwb⟩
  | dropWrite =>
    cases hwb : s.writeBatch with
    | none =>
      simp only [EqSystem.step, hwb] at hs
      obtain ⟨rfl, rfl⟩ := step_pure hs
      exact ⟨g, h⟩
    | some b =>
      simp only [EqSystem.step, hwb] at hs
      obtain ⟨rfl, rfl⟩ := step_pure hs
      exact ⟨g, h.dropWrite⟩
  | startRead =>
    cases hrb : s.readBatch with
    | none =>
      simp only [EqSystem.step, hrb] at hs
      obtain ⟨rfl, rfl⟩ := step_pure hs
      exact ⟨g, h.startRead hrb⟩
    | some b =>
      simp only [EqSystem.step, hrb] at hs
      obtain ⟨rfl, rfl⟩ := step_pure hs
      exact ⟨g, h⟩
  | peekLen =>
    cases hrb : s.readBatch <;>
    · simp only [EqSystem.step, hrb] at hs
      obtain ⟨rfl, rfl⟩ := step_pure hs
      exact ⟨g, h⟩
  | peek =>
    cases hrb : s.readBatch with
    | none =>
      simp only [EqSystem.step, hrb] at hs
      obtain ⟨rfl, rfl⟩ := step_pure hs
      exact ⟨g, h⟩
    | some b =>
      simp only [EqSystem.step, hrb] at hs
      obtain ⟨r, -, hs⟩ := bind_eq_ok.mp hs
      obtain ⟨rfl, rfl⟩ := step_pure hs
      exact ⟨g, h⟩
  | read =>
    cases hrb : s.readBatch with
    | none =>
      simp only [EqSystem.step, hrb] at hs
      obtain ⟨rfl, rfl⟩ := step_pure hs
      exact ⟨g, h⟩
    | some b =>
      simp only [EqSystem.step, hrb] at hs
      obtain ⟨r, hr, hs⟩ := bind_eq_ok.mp hs
      rcases r with e | ⟨bytes, b'⟩
      · obtain ⟨rfl, rfl⟩ := step_pure hs
        exact ⟨g, h⟩
      · obtain ⟨rfl, rfl⟩ := step_pure hs
        exact ⟨g, h.read hN hj hL hk hrb hr⟩
  | finishRead =>
    cases hrb : s.readBatch with
    | none =>
      simp only [EqSystem.step, hrb] at hs
      obtain ⟨rfl, rfl⟩ := step_pure hs
      exact ⟨g, h⟩
    | some b =>
      simp only [EqSystem.step, hrb] at hs
      obtain ⟨rfl, rfl⟩ := step_pure hs
      exact h.finishRead hrb
  | dropRead =>
    cases hrb : s.readBatch with
    | none =>
      simp only [EqSystem.step, hrb] at hs
      obtain ⟨rfl, rfl⟩ := step_pure hs
      exact ⟨g, h⟩
    | some b =>
      simp only [EqSystem.step, hrb] at hs
      obtain ⟨rfl, rfl⟩ := step_pure hs
      exact ⟨g, h.dropRead⟩

include hN hj hL hk in
/-- Over a whole run, up to the end or to a panic, the invariant holds of the last state and the
    log of every answer given. -/
theorem Holds.run (h : Holds N L g s log) (acts : List EqAction) :
    ∃ g', Holds N L g' (s.run acts).2.1 ((s.run acts).1.foldl EqLog.record log) := by
  induction acts generalizing g s log with
  | nil => exact ⟨g, h⟩
  | cons a acts ih =>
    cases hs : s.step a with
    | error e =>
      simp only [EqSystem.run, hs]
      exact ⟨g, h⟩
    | ok p =>
      obtain ⟨ev, s'⟩ := p
      obtain ⟨g', h'⟩ := h.step hN hj hL hk hs
      simp only [EqSystem.run, hs, List.foldl_append]
      exact ih h'

include hN hj hL hk in
/-- Every call but a write returns. -/
theorem Holds.step_ok (h : Holds N L g s log) {a : EqAction}
    (ha : ∀ len fill, a ≠ .write len fill) : ∃ r, s.step a = .ok r := by
  cases a with
  | write len fill => exact absurd rfl (ha len fill)
  | peek =>
    cases hrb : s.readBatch with
    | none => simp [EqSystem.step, hrb]
    | some b =>
      obtain ⟨⟨r, hr⟩, -⟩ := h.peek_read_ok hN hj hL hk hrb
      simp [EqSystem.step, hrb, hr]
  | read =>
    cases hrb : s.readBatch with
    | none => simp [EqSystem.step, hrb]
    | some b =>
      obtain ⟨-, ⟨r, hr⟩⟩ := h.peek_read_ok hN hj hL hk hrb
      rcases r with e | ⟨bytes, b'⟩ <;> simp [EqSystem.step, hrb, hr]
  | startWrite | finishWrite | dropWrite =>
    cases hwb : s.writeBatch <;> simp [EqSystem.step, hwb]
  | startRead | peekLen | finishRead | dropRead =>
    cases hrb : s.readBatch <;> simp [EqSystem.step, hrb]

end Steps

/-- A run that panics does so at one call, from the state the calls before it reach. -/
theorem run_panic {s : EqSystem} {acts : List EqAction} {e : String}
    (h : (s.run acts).2.2 = some e) :
    ∃ pre a post, acts = pre ++ a :: post ∧ (s.run pre).2.1.step a = .error e := by
  induction acts generalizing s with
  | nil => simp [EqSystem.run] at h
  | cons a acts ih =>
    cases hs : s.step a with
    | error e' =>
      simp only [EqSystem.run, hs, Option.some.injEq] at h
      subst h
      exact ⟨[], a, acts, rfl, hs⟩
    | ok p =>
      obtain ⟨ev, s'⟩ := p
      simp only [EqSystem.run, hs] at h
      obtain ⟨pre, a', post, rfl, ha'⟩ := ih h
      refine ⟨a :: pre, a', post, rfl, ?_⟩
      simp only [EqSystem.run, hs]
      exact ha'

/-! ## Runs from a queue set up by `new_from_contiguous` -/

/-- A size `new_from_contiguous` accepts is a power of two of at most `2^31`, whose mask is one
    less. -/
theorem two_pow_of_accepted {n : UInt32} (h : ¬(n = 0 ∨ n &&& (n - 1) ≠ 0)) :
    ∃ j, j ≤ 31 ∧ n - 1 = UInt32.ofNat (2 ^ j - 1) := by
  rw [not_or, not_not] at h
  obtain ⟨h0, hand⟩ := h
  have hpos : 0 < n.toNat :=
    Nat.pos_of_ne_zero fun h' => h0 (by rw [← UInt32.toNat_inj]; exact h')
  have hsub : (n - 1).toNat = n.toNat - 1 :=
    UInt32.toNat_sub_of_le _ _ (UInt32.le_iff_toNat_le.mpr hpos)
  have hzero : n.toNat &&& (n.toNat - 1) = 0 := by
    rw [← hsub, ← UInt32.toNat_and, hand]
    rfl
  obtain ⟨j, hj⟩ := (Nat.and_sub_one_eq_zero_iff_isPowerOfTwo hpos.ne').mp hzero
  have hlt : 2 ^ j < 2 ^ 32 := hj ▸ n.toNat_lt
  have hj32 : j < 32 := (Nat.pow_lt_pow_iff_right (by decide)).mp hlt
  refine ⟨j, by omega, UInt32.toNat_inj.mp ?_⟩
  rw [hsub, UInt32.toNat_ofNat', hj, Nat.mod_eq_of_lt (by omega)]

theorem newFromContiguous_ok {nElems bufLen : UInt32} {shared : EqShared} {q : ElementQueue}
    (h : newFromContiguous nElems bufLen shared = .ok q) :
    ∃ j k, j ≤ 31 ∧ k ≤ 31 ∧ q = ⟨UInt32.ofNat (2 ^ j - 1), UInt32.ofNat (2 ^ k - 1),
      shared.elemHead, shared.bufHead, shared.elemTail, shared.bufTail⟩ := by
  unfold newFromContiguous at h
  split_ifs at h with h₁ h₂
  rw [Except.ok.injEq] at h
  obtain ⟨j, hj, hn⟩ := two_pow_of_accepted h₁
  obtain ⟨k, hk, hb⟩ := two_pow_of_accepted h₂
  exact ⟨j, k, hj, hk, by rw [← h, hn, hb]⟩

/-- Both handles made over zeroed indices start the invariant with nothing committed. -/
theorem init_holds {nElems bufLen : UInt32} {elems : Nat → UInt32} {data : Nat → UInt8}
    {s : EqSystem} (h : EqSystem.init nElems bufLen elems data = .ok s) :
    ∃ j k, j ≤ 31 ∧ k ≤ 31 ∧ Holds (2 ^ j) (2 ^ k) ⟨0, 0, []⟩ s EqLog.empty := by
  simp only [EqSystem.init] at h
  obtain ⟨q, hq, h⟩ := bind_eq_ok.mp h
  obtain ⟨q', hq', h⟩ := bind_eq_ok.mp h
  rw [hq, Except.ok.injEq] at hq'
  subst hq'
  rw [pure_eq_ok, Except.ok.injEq] at h
  subst h
  obtain ⟨j, k, hj, hk, rfl⟩ := newFromContiguous_ok hq
  exact ⟨j, k, hj, hk, {
    producerMasks := ⟨rfl, rfl⟩
    consumerMasks := ⟨rfl, rfl⟩
    shared := rfl
    tails := ⟨rfl, rfl⟩
    heads := ⟨rfl, rfl⟩
    written := rfl
    writeOpen := by rintro _ ⟨⟩
    writeIdle := fun _ => rfl
    readOpen := by rintro _ ⟨⟩
    readIdle := fun _ => rfl
    ring := trivial
    stored := trivial
    fits := by simp [EqLog.empty]
    count := Nat.zero_le _
    span := Nat.zero_le _ }⟩

/-- On a queue set up by `new_from_contiguous`, a run that panics does so in a write: every other
    call of either side returns in every state a run reaches, the consumer's slices included. -/
theorem elementQueue_panics_only_in_write {nElems bufLen : UInt32} {elems : Nat → UInt32}
    {data : Nat → UInt8} {s : EqSystem} (hinit : EqSystem.init nElems bufLen elems data = .ok s)
    (acts : List EqAction) {e : String} (hpanic : (s.run acts).2.2 = some e) :
    ∃ pre len fill post, acts = pre ++ EqAction.write len fill :: post ∧
      (s.run pre).2.1.step (.write len fill) = .error e := by
  obtain ⟨pre, a, post, rfl, ha⟩ := run_panic hpanic
  obtain ⟨j, k, hj, hk, h⟩ := init_holds hinit
  obtain ⟨g, hg⟩ := h.run rfl hj rfl hk pre
  by_cases hw : ∃ len fill, a = .write len fill
  · obtain ⟨len, fill, rfl⟩ := hw
    exact ⟨pre, len, fill, post, rfl, ha⟩
  · -- any other call returns from a reachable state
    obtain ⟨r, hr⟩ := hg.step_ok rfl hj rfl hk fun len fill h => hw ⟨len, fill, h⟩
    rw [hr] at ha
    cases ha

/-- A write of `2^32 - 1` bytes: with release arithmetic its aligned length wraps to `0`, every
    check passes, and its slice runs past a buffer of sixteen bytes. -/
theorem elementQueue_panics_only_in_write_wrapped_len :
    EqSystem.init 2 16 (fun _ => 0) (fun _ => 0) =
        .ok ⟨⟨⟨0, 0, 0, 0⟩, fun _ => 0, fun _ => 0⟩, ⟨1, 15, 0, 0, 0, 0⟩, none,
          ⟨1, 15, 0, 0, 0, 0⟩, none⟩ ∧
      (EqSystem.run ⟨⟨⟨0, 0, 0, 0⟩, fun _ => 0, fun _ => 0⟩, ⟨1, 15, 0, 0, 0, 0⟩, none,
        ⟨1, 15, 0, 0, 0, 0⟩, none⟩ [.startWrite, .write 4294967295 (fun _ => 0)]).2.2 =
        some "range end index out of range for slice" ∧
      ∃ pre len fill post,
        [EqAction.startWrite, .write 4294967295 (fun _ => 0)] =
          pre ++ EqAction.write len fill :: post ∧
        (EqSystem.run ⟨⟨⟨0, 0, 0, 0⟩, fun _ => 0, fun _ => 0⟩, ⟨1, 15, 0, 0, 0, 0⟩, none,
          ⟨1, 15, 0, 0, 0, 0⟩, none⟩ pre).2.1.step (.write len fill) =
          .error "range end index out of range for slice" :=
  ⟨rfl, rfl, @elementQueue_panics_only_in_write 2 16 (fun _ => 0) (fun _ => 0) _ rfl _ _ rfl⟩

end OtelNetwork.ElementQueue
