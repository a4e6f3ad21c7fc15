import EvmBridge.FixedBytes
import EvmBridge.OrdMap
import EvmBridge.Text.Utf8

/-!
# Buffers

Texts that cross the boundary lie in buffers of the module, which both sides may create and
release. A buffer starts with zero bytes only; a text in it ends at the first zero byte. Every
creation and every release is counted, and a release of something that is no live buffer is
counted apart and does nothing else.

Creations can be made to fail on purpose, a number of times in a row.
-/

namespace EvmBridge

/-- Names a buffer. No two buffers have the same name. -/
abbrev BufferId := Nat

structure Buffer where
  size : Nat
  /-- What was written to its front; all else is zero. -/
  written : Bytes := []
  deriving DecidableEq, Repr

namespace Buffer

/-- The text in a buffer: all before the first zero byte. -/
def text (b : Buffer) : Bytes := Bytes.untilNul b.written

def contents (b : Buffer) : Bytes := b.written ++ List.replicate (b.size - b.written.length) 0

def isBlank (b : Buffer) : Bool := b.written.all (· = 0)

end Buffer

/-- How often buffers were created and released. -/
structure Ledger where
  allocated : Nat := 0
  freed : Nat := 0
  /-- Releases of what was no live buffer. -/
  invalidFrees : Nat := 0
  failed : Nat := 0
  deriving DecidableEq, Repr

namespace Ledger

/-- What happened after an earlier moment. -/
def since (now earlier : Ledger) : Ledger where
  allocated := now.allocated - earlier.allocated
  freed := now.freed - earlier.freed
  invalidFrees := now.invalidFrees - earlier.invalidFrees
  failed := now.failed - earlier.failed

/-- Buffers created and not released. -/
def outstanding (l : Ledger) : Int := (l.allocated : Int) - l.freed

end Ledger

/-- All buffers of the module. -/
structure Buffers where
  live : OrdMap BufferId Buffer := ∅
  next : BufferId := 0
  ledger : Ledger := {}
  /-- How many of the next creations fail. -/
  failNext : Nat := 0

namespace Buffers

instance : Inhabited Buffers := ⟨{}⟩

def maxSize : Nat := 0x7fffffff

/-- Counts a creation that failed. -/
def refuse (b : Buffers) : Buffers :=
  { b with ledger := { b.ledger with failed := b.ledger.failed + 1 } }

/-- Creates a buffer of zero bytes. A size that is not positive fails, and so do creations that
were made to. -/
def create (b : Buffers) (size : Int) : Option BufferId × Buffers :=
  if b.failNext ≠ 0 then (none, { b.refuse with failNext := b.failNext - 1 })
  else if size ≤ 0 then (none, b.refuse)
  else (some b.next,
    { b with
      live := b.live.insert b.next { size := size.toNat }
      next := b.next + 1
      ledger := { b.ledger with allocated := b.ledger.allocated + 1 } })

/-- Releases a buffer; nothing is done for none. -/
def free (b : Buffers) (id? : Option BufferId) : Buffers :=
  match id? with
  | none => b
  | some id =>
    if b.live.contains id then
      { b with
        live := b.live.erase id
        ledger := { b.ledger with freed := b.ledger.freed + 1 } }
    else { b with ledger := { b.ledger with invalidFrees := b.ledger.invalidFrees + 1 } }

/-- Writes to the front of a buffer. -/
def write (b : Buffers) (id : BufferId) (bytes : Bytes) : Buffers :=
  match b.live.get? id with
  | none => b
  | some buffer => { b with live := b.live.insert id { buffer with written := bytes } }

/-- A new buffer that holds these bytes and a zero byte. No buffer can hold too many bytes; then
none is asked for. -/
def put (b : Buffers) (bytes : Bytes) : Option BufferId × Buffers :=
  if maxSize < bytes.length + 1 then (none, b)
  else match b.create (bytes.length + 1) with
    | (some id, b) => (some id, b.write id bytes)
    | (none, b) => (none, b)

def get? (b : Buffers) (id : BufferId) : Option Buffer := b.live.get? id

/-- Reads the text of a buffer and releases the buffer, whatever it holds. -/
def take (b : Buffers) (id : BufferId) : Bytes × Buffers :=
  (((b.get? id).map Buffer.text).getD [], b.free (some id))

end Buffers

/-- Why no text could be read from the boundary. -/
inductive BufferError where
  | null
  /-- The bytes are not UTF-8. -/
  | notText (fault : Utf8.Fault)
  deriving DecidableEq, Repr

def BufferError.message : BufferError → String
  | .null => "null pointer"
  | .notText fault => "invalid UTF-8: " ++ fault.message

def BufferError.kind : BufferError → String
  | .null => "Null"
  | .notText _ => "InvalidUtf8"

/-- The text that bytes hold before the first zero byte, if there are any bytes. -/
def BufferError.readText (bytes? : Option Bytes) : Except BufferError String :=
  match bytes? with
  | none => .error .null
  | some bytes => (Utf8.decode (Bytes.untilNul bytes)).mapError .notText

end EvmBridge
