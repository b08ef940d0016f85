import Mathlib

/-!
# `channel::BufferedWriter`

A model of `channel/buffered_writer.{h,cc}`. The writer owns a buffer of `buf_size` bytes and two
`u32` cursors: the bytes before `write_start_loc_` are finished writes waiting to be sent, and
`[write_start_loc_, write_finish_loc_)` is the write in progress. `start_write(len)` returns a
pointer to that region, flushing first when it does not fit; `finish_write` commits it; `flush`
sends the committed bytes through the channel and empties the buffer.

The channel is the state of the `Channel &` the writer holds: the byte strings its `send` has
accepted. What it does on a flush is the writer's environment (`ChannelReply`): it is closed,
or `send` succeeds, returns an error, or throws. A failed `send` is taken to send nothing.

The model follows the build that `dev/benv-build.sh` makes by default (`RelWithDebInfo`), which
defines `NDEBUG`: the `assert`s of `flush` and `start_write` are compiled out. `malloc` leaves
the buffer indeterminate; it starts as zeros here, and no byte of it is read before it is
written. Log calls are left out.
-/

namespace OtelNetwork.Channel

/-- The `std::error_code`s the writer returns. -/
inductive ErrorCode where
  /-- `std::errc::no_buffer_space`. -/
  | noBufferSpace
  /-- `std::errc::invalid_argument`, for a `send` that throws. -/
  | invalidArgument
  /-- An error the channel's `send` returns. -/
  | channel (code : Nat)
deriving DecidableEq, Repr

/-- What the channel does when the writer flushes. -/
inductive ChannelReply where
  /-- `is_writable()` is false: the channel is not open. -/
  | closed
  /-- `send` accepts the bytes. -/
  | sent
  /-- `send` returns an error. -/
  | failed (e : ErrorCode)
  /-- `send` throws. -/
  | throws
deriving DecidableEq, Repr

/-- The writer, with the state of the channel it writes to. -/
structure BufferedWriter where
  buf : List UInt8
  bufSize : UInt32
  writeStartLoc : UInt32
  writeFinishLoc : UInt32
  /-- The byte strings the channel's `send` has accepted, in order. -/
  channel : List (List UInt8)
deriving DecidableEq, Repr

namespace BufferedWriter

/-- `BufferedWriter(channel, buf_size)`. -/
def new (bufSize : UInt32) : BufferedWriter :=
  { buf := List.replicate bufSize.toNat 0, bufSize, writeStartLoc := 0, writeFinishLoc := 0,
    channel := [] }

/-- The committed bytes that wait for a flush, `buf_[0, write_start_loc_)`. -/
def pending (w : BufferedWriter) : List UInt8 := w.buf.take w.writeStartLoc.toNat

/-- `reset`. -/
def reset (w : BufferedWriter) : BufferedWriter :=
  { w with writeStartLoc := 0, writeFinishLoc := 0 }

/-- `flush`: `none` for success. -/
def flush (w : BufferedWriter) (reply : ChannelReply) : Option ErrorCode × BufferedWriter :=
  if w.writeStartLoc = 0 then (none, w)
  else
    match reply with
    -- a closed channel is skipped, and the buffer is emptied all the same
    | .closed => (none, w.reset)
    | .sent => (none, { w.reset with channel := w.channel ++ [w.pending] })
    | .failed e => (some e, w)
    | .throws => (some .invalidArgument, w)

/-- `start_write`: the offset of the region to write, or the error. -/
def startWrite (w : BufferedWriter) (length : UInt32) (reply : ChannelReply) :
    Except ErrorCode UInt32 × BufferedWriter :=
  if length > w.bufSize then (.error .noBufferSpace, w)
  else
    let (error, w) := if w.bufSize - w.writeStartLoc < length then w.flush reply else (none, w)
    match error with
    | some e => (.error e, w)
    | none => (.ok w.writeStartLoc, { w with writeFinishLoc := w.writeStartLoc + length })

/-- `finish_write`. -/
def finishWrite (w : BufferedWriter) : BufferedWriter :=
  { w with writeStartLoc := w.writeFinishLoc }

/-- The caller writes `bytes` through the pointer `start_write` returned, at offset `off`. -/
def fill (w : BufferedWriter) (off : UInt32) (bytes : List UInt8) : BufferedWriter :=
  { w with buf := w.buf.take off.toNat ++ bytes ++ w.buf.drop (off.toNat + bytes.length) }

end BufferedWriter

/-- A call on the writer. `startWrite bytes reply` is `start_write(bytes.size())`, after which
    the caller writes `bytes` into the region it returns; `reply` is what the channel does if the
    call needs a flush. -/
inductive WriterCall where
  | startWrite (bytes : List UInt8) (reply : ChannelReply)
  | finishWrite
  | flush (reply : ChannelReply)
deriving DecidableEq, Repr

/-- A writer together with what its caller has written: the bytes of the write started last and
    not finished, and the regions of the finished writes, in order. -/
structure Session where
  writer : BufferedWriter
  openWrite : Option (List UInt8)
  finished : List (List UInt8)
deriving DecidableEq, Repr

namespace Session

/-- A fresh writer with nothing written. -/
def new (bufSize : UInt32) : Session :=
  { writer := BufferedWriter.new bufSize, openWrite := none, finished := [] }

/-- One call. A failed `start_write` starts nothing; `finish_write` finishes the open write. -/
def step (s : Session) : WriterCall → Session
  | .startWrite bytes reply =>
    match s.writer.startWrite (UInt32.ofNat bytes.length) reply with
    | (.ok off, w) => { s with writer := w.fill off bytes, openWrite := some bytes }
    | (.error _, w) => { s with writer := w }
  | .finishWrite =>
    { writer := s.writer.finishWrite, openWrite := none,
      finished := s.finished ++ s.openWrite.toList }
  | .flush reply => { s with writer := (s.writer.flush reply).2 }

/-- A sequence of calls. -/
def run (s : Session) (calls : List WriterCall) : Session := calls.foldl step s

/-- The byte stream is preserved: what the channel accepted, followed by the pending bytes, is
    what the caller finished writing. -/
def Preserved (s : Session) : Prop :=
  s.writer.channel.flatten ++ s.writer.pending = s.finished.flatten

instance (s : Session) : Decidable s.Preserved := inferInstanceAs (Decidable (_ = _))

end Session

end OtelNetwork.Channel
