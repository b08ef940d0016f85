import OtelNetwork.ElementQueue.System

/-!
# What the callers of an element queue see

The answers of the calls, read as a log: the elements of the committed write batches in order,
those of the open write batch, the elements read in committed read batches and those read in the
open one. A dropped batch leaves nothing in the log. The queue is a FIFO channel when what the
consumer has read, in committed batches and in the open one, is a prefix of what the producer has
committed.
-/

namespace OtelNetwork

/-- The elements the two sides have moved, batch by batch. -/
structure EqLog where
  written : List (List UInt8)
  writing : List (List UInt8)
  read : List (List UInt8)
  reading : List (List UInt8)

namespace EqLog

def empty : EqLog := ⟨[], [], [], []⟩

/-- The log after one answer. -/
def record (l : EqLog) : EqEvent → EqLog
  | .wrote bytes => { l with writing := l.writing ++ [bytes] }
  | .writeCommitted => { l with written := l.written ++ l.writing, writing := [] }
  | .writeDropped => { l with writing := [] }
  | .readOk bytes => { l with reading := l.reading ++ [bytes] }
  | .readCommitted => { l with read := l.read ++ l.reading, reading := [] }
  | .readDropped => { l with reading := [] }
  | .writeFailed _ | .peekedLen _ | .peeked _ | .readFailed _ => l

end EqLog

end OtelNetwork
