import OtelNetwork.Channel.BufferedWriter
import OtelNetwork.Lib.Simulation

/-!
# The buffered writer keeps the byte stream while no flush cuts into a write

`start_write` fails exactly when the request is larger than the buffer or when the flush it needs
fails, and a failed `start_write` or `send` changes nothing. While the channel stays open and
`flush` is called only between writes, what the channel has accepted followed by the pending
bytes is the concatenation of the finished writes (`Session.preserved_run`).

A flush between `start_write` and `finish_write` is outside the writer's contract: `flush`
asserts that no write is open, and the destructor flushes only then. With the assertion compiled
out, such a flush sends the committed bytes and resets both cursors; the `finish_write` that
follows commits nothing, and the bytes of that write are neither sent nor pending
(`bufferedWriter_flush_inside_write_loses_bytes`), so the byte stream is kept only for the calls
the contract allows.
-/

namespace OtelNetwork.Channel

open Simulation

namespace BufferedWriter

variable {w : BufferedWriter} {length : UInt32} {reply : ChannelReply}

/-! ## Spec lemmas -/

theorem flush_of_zero (h : w.writeStartLoc = 0) : w.flush reply = (none, w) := by
  simp [flush, h]

theorem flush_sent (h : w.writeStartLoc ≠ 0) :
    w.flush .sent = (none, { w.reset with channel := w.channel ++ [w.pending] }) := by
  simp [flush, h]

/-- A failed flush (a `send` that fails or throws) changes nothing. -/
theorem flush_of_error {e : ErrorCode} (h : (w.flush reply).1 = some e) : (w.flush reply).2 = w := by
  by_cases hzero : w.writeStartLoc = 0
  · rw [flush_of_zero hzero]
  · cases reply <;> simp_all [flush]

theorem startWrite_of_gt (h : w.bufSize < length) :
    w.startWrite length reply = (.error .noBufferSpace, w) := by
  simp [startWrite, h]

theorem startWrite_of_fits (h : ¬ w.bufSize < length) (hfit : ¬ w.bufSize - w.writeStartLoc < length) :
    w.startWrite length reply =
      (.ok w.writeStartLoc, { w with writeFinishLoc := w.writeStartLoc + length }) := by
  simp [startWrite, h, hfit]

theorem startWrite_of_flush (h : ¬ w.bufSize < length) (hfit : w.bufSize - w.writeStartLoc < length) :
    w.startWrite length reply =
      match w.flush reply with
      | (some e, w') => (.error e, w')
      | (none, w') => (.ok w'.writeStartLoc, { w' with writeFinishLoc := w'.writeStartLoc + length }) := by
  simp only [startWrite, gt_iff_lt, h, if_false, hfit, if_true]
  rcases w.flush reply with ⟨_ | e, w'⟩ <;> rfl

/-- `start_write` fails exactly when the request exceeds the buffer, or when it needs a flush
    and the flush fails. -/
theorem startWrite_error_iff :
    (∃ e, (w.startWrite length reply).1 = .error e) ↔
      w.bufSize < length ∨
        (w.bufSize - w.writeStartLoc < length ∧ ∃ e, (w.flush reply).1 = some e) := by
  by_cases h : w.bufSize < length
  · simp [startWrite_of_gt h, h]
  by_cases hfit : w.bufSize - w.writeStartLoc < length
  · rw [startWrite_of_flush h hfit]
    rcases w.flush reply with ⟨_ | e, w'⟩ <;> simp [h, hfit]
  · simp [startWrite_of_fits h hfit, h, hfit]

/-- A failed `start_write` changes nothing. -/
theorem startWrite_of_error {e : ErrorCode} (h : (w.startWrite length reply).1 = .error e) :
    (w.startWrite length reply).2 = w := by
  by_cases hgt : w.bufSize < length
  · rw [startWrite_of_gt hgt]
  by_cases hfit : w.bufSize - w.writeStartLoc < length
  · rw [startWrite_of_flush hgt hfit] at h ⊢
    rcases hflush : w.flush reply with ⟨_ | e', w'⟩
    · rw [hflush] at h
      cases h
    · have := flush_of_error (show (w.flush reply).1 = some e' by rw [hflush])
      rw [hflush] at this
      exact this
  · rw [startWrite_of_fits hgt hfit] at h
    cases h

end BufferedWriter

/-! ## The invariant of a session -/

namespace Session

open BufferedWriter

/-- Where the open write stands: with none open both cursors agree; an open write occupies the
    region after the committed bytes. -/
def OpenAt (w : BufferedWriter) : Option (List UInt8) → Prop
  | none => w.writeFinishLoc = w.writeStartLoc
  | some bytes => w.writeFinishLoc.toNat = w.writeStartLoc.toNat + bytes.length ∧
      (w.buf.drop w.writeStartLoc.toNat).take bytes.length = bytes

/-- The invariant of a session whose channel stays open and whose flushes fall between writes. -/
structure Inv (s : Session) : Prop where
  length : s.writer.buf.length = s.writer.bufSize.toNat
  start_le : s.writer.writeStartLoc.toNat ≤ s.writer.writeFinishLoc.toNat
  finish_le : s.writer.writeFinishLoc.toNat ≤ s.writer.bufSize.toNat
  preserved : s.Preserved
  openAt : OpenAt s.writer s.openWrite

/-- What the protocol asks of a call: the channel is open, a write fits in a `u32`, and a flush
    comes between writes. -/
def CallOk (s : Session) : WriterCall → Prop
  | .startWrite bytes reply => reply ≠ .closed ∧ bytes.length < 2 ^ 32
  | .finishWrite => True
  | .flush reply => s.openWrite = none ∧ reply ≠ .closed

instance (s : Session) : (c : WriterCall) → Decidable (s.CallOk c)
  | .startWrite _ _ => inferInstanceAs (Decidable (_ ∧ _))
  | .finishWrite => inferInstanceAs (Decidable True)
  | .flush _ => inferInstanceAs (Decidable (_ ∧ _))

theorem inv_new (bufSize : UInt32) : (new bufSize).Inv where
  length := by simp [new, BufferedWriter.new]
  start_le := le_rfl
  finish_le := by simp [new, BufferedWriter.new]
  preserved := by simp [new, BufferedWriter.new, Preserved, pending]
  openAt := rfl

variable {s : Session}

/-- The caller fills the region `start_write` returned at `off`: the bytes before it stay, the
    region holds `bytes`, and the buffer keeps its size. -/
theorem fill_spec {w : BufferedWriter} {off : UInt32} {bytes : List UInt8}
    (hoff : off.toNat + bytes.length ≤ w.buf.length) :
    (w.fill off bytes).buf.take off.toNat = w.buf.take off.toNat ∧
      ((w.fill off bytes).buf.drop off.toNat).take bytes.length = bytes ∧
      (w.fill off bytes).buf.length = w.buf.length := by
  have htake : (w.buf.take off.toNat).length = off.toNat := by simp; omega
  simp only [fill]
  refine ⟨?_, ?_, ?_⟩
  · rw [List.append_assoc, List.take_left' htake]
  · rw [List.append_assoc, List.drop_left' htake, List.take_left' rfl]
  · simp only [List.length_append, List.length_take, List.length_drop]
    omega

/-- A write placed after the committed bytes of a writer whose channel and pending bytes make up
    `fin` leaves a session with its invariant. -/
theorem inv_of_write {w : BufferedWriter} {bytes : List UInt8} {fin : List (List UInt8)}
    (hlen : w.buf.length = w.bufSize.toNat)
    (hfits : w.writeStartLoc.toNat + bytes.length ≤ w.bufSize.toNat) (hbytes : bytes.length < 2 ^ 32)
    (hpres : w.channel.flatten ++ w.pending = fin.flatten) :
    Inv { writer := { w with writeFinishLoc := w.writeStartLoc + UInt32.ofNat bytes.length }.fill
            w.writeStartLoc bytes,
          openWrite := some bytes, finished := fin } := by
  have hfinish : (w.writeStartLoc + UInt32.ofNat bytes.length).toNat =
      w.writeStartLoc.toNat + bytes.length := by
    rw [UInt32.toNat_add, UInt32.toNat_ofNat', Nat.mod_eq_of_lt hbytes]
    have := w.bufSize.toNat_lt
    omega
  obtain ⟨hbefore, hregion, hsize⟩ :=
    @fill_spec { w with writeFinishLoc := w.writeStartLoc + UInt32.ofNat bytes.length }
      w.writeStartLoc bytes (by simp only; omega)
  refine ⟨hsize.trans hlen, by simp only [fill]; omega,
    by simp only [fill]; omega, ?_, ⟨by simp only [fill]; omega, hregion⟩⟩
  simp only [Preserved, pending, fill] at hbefore ⊢
  rw [hbefore]
  exact hpres

/-- A failed `start_write` leaves the session as it was. -/
theorem step_startWrite_of_error {bytes : List UInt8} {reply : ChannelReply} {e : ErrorCode}
    (h : (s.writer.startWrite (UInt32.ofNat bytes.length) reply).1 = .error e) :
    s.step (.startWrite bytes reply) = s := by
  have hw := startWrite_of_error h
  simp only [step]
  rcases hsw : s.writer.startWrite (UInt32.ofNat bytes.length) reply with ⟨_ | off, w⟩
  · rw [hsw] at hw
    simp only at hw
    rw [hw]
  · rw [hsw] at h
    cases h

theorem Inv.startWrite {bytes : List UInt8} {reply : ChannelReply} (h : s.Inv)
    (hok : s.CallOk (.startWrite bytes reply)) : (s.step (.startWrite bytes reply)).Inv := by
  obtain ⟨hreply, hbytes⟩ := hok
  have hlen : (UInt32.ofNat bytes.length).toNat = bytes.length := by
    rw [UInt32.toNat_ofNat', Nat.mod_eq_of_lt hbytes]
  -- a request larger than the buffer is refused
  by_cases hgt : s.writer.bufSize < UInt32.ofNat bytes.length
  · rwa [step_startWrite_of_error (e := .noBufferSpace) (by rw [startWrite_of_gt hgt])]
  have hle : bytes.length ≤ s.writer.bufSize.toNat := by
    rw [UInt32.lt_iff_toNat_lt, hlen] at hgt
    omega
  have hstart := h.start_le.trans h.finish_le
  by_cases hfit : s.writer.bufSize - s.writer.writeStartLoc < UInt32.ofNat bytes.length
  -- the request does not fit after the committed bytes: a flush comes first
  · have hzero : s.writer.writeStartLoc ≠ 0 := by
      intro hzero
      rw [hzero, UInt32.sub_zero] at hfit
      exact hgt hfit
    cases reply with
    | closed => exact absurd rfl hreply
    | sent =>
      set w' : BufferedWriter := { s.writer.reset with channel := s.writer.channel ++ [s.writer.pending] }
      have hsw : s.writer.startWrite (UInt32.ofNat bytes.length) .sent =
          (.ok w'.writeStartLoc,
            { w' with writeFinishLoc := w'.writeStartLoc + UInt32.ofNat bytes.length }) := by
        rw [startWrite_of_flush hgt hfit, flush_sent hzero]
      simp only [step, hsw]
      exact inv_of_write (w := w') h.length (by simpa [w', reset] using hle) hbytes
        (by simpa [w', reset, pending, Preserved] using h.preserved)
    | failed e =>
      rwa [step_startWrite_of_error (e := e)
        (by rw [startWrite_of_flush hgt hfit]; simp [BufferedWriter.flush, hzero])]
    | throws =>
      rwa [step_startWrite_of_error (e := .invalidArgument)
        (by rw [startWrite_of_flush hgt hfit]; simp [BufferedWriter.flush, hzero])]
  -- the request fits after the committed bytes
  · have hfits : s.writer.writeStartLoc.toNat + bytes.length ≤ s.writer.bufSize.toNat := by
      rw [UInt32.lt_iff_toNat_lt, UInt32.toNat_sub_of_le _ _ (UInt32.le_iff_toNat_le.mpr hstart),
        hlen] at hfit
      omega
    simp only [step, startWrite_of_fits hgt hfit]
    exact inv_of_write h.length hfits hbytes h.preserved

theorem Inv.finishWrite (h : s.Inv) : (s.step .finishWrite).Inv := by
  obtain ⟨hlen, hle, hfin, hpres, hopen⟩ := h
  rcases hs : s.openWrite with _ | bytes <;> rw [hs] at hopen
  -- no open write: the cursors already agree
  · refine ⟨hlen, le_rfl, hfin, ?_, rfl⟩
    simp only [Preserved, step, hs, BufferedWriter.finishWrite, pending, Option.toList_none,
      List.append_nil]
    rw [hopen]
    exact hpres
  -- the open write is committed: its region joins the pending bytes
  · obtain ⟨hfinish, hregion⟩ := hopen
    refine ⟨hlen, le_rfl, hfin, ?_, rfl⟩
    have hpend : s.writer.buf.take s.writer.writeFinishLoc.toNat = s.writer.pending ++ bytes := by
      rw [hfinish, List.take_add, hregion]
      rfl
    simp only [Preserved, step, hs, BufferedWriter.finishWrite, pending, Option.toList_some,
      List.flatten_append, List.flatten_singleton] at hpres ⊢
    rw [hpend, ← List.append_assoc, ← hpres]
    rfl

theorem Inv.flush {reply : ChannelReply} (h : s.Inv) (hok : s.CallOk (.flush reply)) :
    (s.step (.flush reply)).Inv := by
  obtain ⟨hopen, hreply⟩ := hok
  by_cases hzero : s.writer.writeStartLoc = 0
  · simpa [step, flush_of_zero hzero] using h
  cases reply with
  | closed => exact absurd rfl hreply
  -- the committed bytes move to the channel, and the buffer empties
  | sent =>
    obtain ⟨hlen, -, -, hpres, -⟩ := h
    refine ⟨by simpa [step, flush_sent hzero, reset] using hlen, by simp [step, flush_sent hzero,
      reset], by simp [step, flush_sent hzero, reset], ?_, by simp [step, flush_sent hzero, reset,
      hopen, OpenAt]⟩
    simpa [Preserved, step, flush_sent hzero, reset, pending] using hpres
  | failed e => simpa [step, BufferedWriter.flush, hzero] using h
  | throws => simpa [step, BufferedWriter.flush, hzero] using h

theorem Inv.step {c : WriterCall} (h : s.Inv) (hok : s.CallOk c) : (s.step c).Inv := by
  cases c with
  | startWrite bytes reply => exact h.startWrite hok
  | finishWrite => exact h.finishWrite
  | flush reply => exact h.flush hok

/-- While the channel stays open and every flush falls between writes, what the channel accepted
    followed by the pending bytes is the concatenation of the finished writes, after every run. -/
theorem preserved_run (bufSize : UInt32) (calls : List WriterCall)
    (hcalls : Allowed step CallOk (new bufSize) calls) : ((new bufSize).run calls).Preserved :=
  (foldl_inv Inv (fun _ _ h hok => h.step hok) calls _ (inv_new bufSize) hcalls).preserved

end Session

/-- The byte stream is preserved over every run whose channel stays open and whose flushes fall
    between writes; `start_write` fails exactly when the request exceeds the buffer or the flush it
    needs fails; and a failed `start_write` or `send` leaves the writer as it was. -/
theorem bufferedWriter_preserves_stream_between_writes :
    (∀ (bufSize : UInt32) (calls : List WriterCall),
      Allowed Session.step Session.CallOk (Session.new bufSize) calls →
        ((Session.new bufSize).run calls).Preserved) ∧
    (∀ (w : BufferedWriter) (length : UInt32) (reply : ChannelReply),
      (∃ e, (w.startWrite length reply).1 = .error e) ↔
        w.bufSize < length ∨
          (w.bufSize - w.writeStartLoc < length ∧ ∃ e, (w.flush reply).1 = some e)) ∧
    (∀ (w : BufferedWriter) (length : UInt32) (reply : ChannelReply) (e : ErrorCode),
      (w.startWrite length reply).1 = .error e → (w.startWrite length reply).2 = w) ∧
    (∀ (w : BufferedWriter) (reply : ChannelReply) (e : ErrorCode),
      (w.flush reply).1 = some e → (w.flush reply).2 = w) :=
  ⟨Session.preserved_run, fun _ _ _ => BufferedWriter.startWrite_error_iff,
    fun _ _ _ _ => BufferedWriter.startWrite_of_error, fun _ _ _ => BufferedWriter.flush_of_error⟩

/-- A run with a flush between writes, a `send` that fails inside a `start_write`, and a write
    that no longer fits. -/
theorem bufferedWriter_preserves_stream_between_writes_four_calls :
    Allowed Session.step Session.CallOk (Session.new 4)
        [.startWrite [1, 2] .sent, .finishWrite, .flush .sent, .startWrite [3, 4, 5] .sent,
          .finishWrite, .startWrite [6, 7] (.failed (.channel 105)), .startWrite [8] .sent,
          .finishWrite] ∧
      ((Session.new 4).run
        [.startWrite [1, 2] .sent, .finishWrite, .flush .sent, .startWrite [3, 4, 5] .sent,
          .finishWrite, .startWrite [6, 7] (.failed (.channel 105)), .startWrite [8] .sent,
          .finishWrite]).Preserved :=
  ⟨by decide, bufferedWriter_preserves_stream_between_writes.1 4 _ (by decide)⟩

/-- A flush between `start_write(3)` and its `finish_write`: the channel gets the two committed
    bytes, both cursors go back to `0`, and the three bytes of the open write are never sent nor
    pending, though the caller finished them. -/
theorem bufferedWriter_flush_inside_write_loses_bytes :
    ((Session.new 8).run [.startWrite [1, 2] .sent, .finishWrite, .startWrite [3, 4, 5] .sent,
        .flush .sent, .finishWrite]).writer.channel = [[1, 2]] ∧
      ((Session.new 8).run [.startWrite [1, 2] .sent, .finishWrite, .startWrite [3, 4, 5] .sent,
        .flush .sent, .finishWrite]).writer.pending = [] ∧
      ((Session.new 8).run [.startWrite [1, 2] .sent, .finishWrite, .startWrite [3, 4, 5] .sent,
        .flush .sent, .finishWrite]).finished = [[1, 2], [3, 4, 5]] ∧
      ¬ ((Session.new 8).run [.startWrite [1, 2] .sent, .finishWrite, .startWrite [3, 4, 5] .sent,
        .flush .sent, .finishWrite]).Preserved := by
  decide

end OtelNetwork.Channel
