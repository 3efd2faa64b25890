import PacketHost.Header
import PacketHost.Packet.Basic
import PacketHost.Packet.Location

/-!
# Reading a packet through its engine

A `Reading` asks the engine where headers and payload lie and locates each reported span in the buffer of the
handle. Listings ask for one header after the other and end with the first failure.
-/

namespace PacketHost

/-- The key and the value of a header, as parts of a buffer. -/
structure Entry where
  key : Slice
  val : Slice
  deriving DecidableEq, Repr

def Entry.toHeader (h : Entry) : Header := ⟨h.key.bytes, h.val.bytes⟩

/-- A handle to read from, and what lies in memory outside its buffer. -/
structure Reading (m : Type → Type) where
  handle : Handle m
  elsewhere : Memory

namespace Reading

variable {m : Type → Type} [Monad m]

/-- The result of a read. -/
abbrev Read (m : Type → Type) (α : Type) := ExceptT (Halt HostError) m α

def lift {α : Type} (result : Except HostError α) : Read m α :=
  match result with
  | .ok a => pure a
  | .error e => throw (.refused e)

/-- The buffer, and the packet as the engine is given it. -/
def live (r : Reading m) : Read m (Slice × View) := do
  let packet ← lift r.handle.live
  return (packet.buffer, ⟨some packet.packed, packet.buffer.memory r.elsewhere⟩)

def count (r : Reading m) : Read m Nat := do
  let (_, view) ← r.live
  let answer ← r.handle.engine.count view
  lift (expectOk answer.status)
  return answer.written.getD 0

/-- The parts of a buffer where the engine says that a header lies. -/
def locateEntry (buffer : Slice) (spans : HeaderSpan) : Except (Halt HostError) Entry := do
  let key ← buffer.locate spans.key "header key"
  let val ← buffer.locate spans.val "header value"
  return ⟨key, val⟩

def header (r : Reading m) (index : Nat) : Read m Entry := do
  let count ← r.count
  if count ≤ index then throw (.refused (.indexOutOfRange index count))
  else do
    let (buffer, view) ← r.live
    let answer ← r.handle.engine.header view index
    if Status.ofCode? answer.status = some .outOfRange then
      throw (.refused (.indexOutOfRange index count))
    else do
      lift (expectOk answer.status)
      ExceptT.mk (pure (locateEntry buffer (answer.written.getD {})))

def payload (r : Reading m) : Read m Slice := do
  let (buffer, view) ← r.live
  let answer ← r.handle.engine.payload view
  lift (expectOk answer.status)
  ExceptT.mk (pure (buffer.locate (answer.written.getD Span.null) "payload"))

def headersFrom (r : Reading m) (index : Nat) : Nat → Read m (List Entry)
  | 0 => pure []
  | remaining + 1 => do
    let header ← r.header index
    let headers ← r.headersFrom (index + 1) remaining
    return header :: headers

def headers (r : Reading m) : Read m (List Entry) := do
  let count ← r.count
  r.headersFrom 0 count

/-- Sets the value of a key. -/
def put (map : List (Bytes × Slice)) (header : Entry) : List (Bytes × Slice) :=
  map.filter (fun entry => entry.1 ≠ header.key.bytes) ++ [(header.key.bytes, header.val)]

/-- Each key with the value that it has last. -/
def lastValues (r : Reading m) : Read m (List (Bytes × Slice)) := do
  let headers ← r.headers
  return headers.foldl put []

def find (r : Reading m) (key : Bytes) : Read m (Option Slice) := do
  let (buffer, view) ← r.live
  let answer ← r.handle.engine.find view (Source.ofBytes key)
  if Status.ofCode? answer.status = some .notFound then return none
  else do
    lift (expectOk answer.status)
    let val ← ExceptT.mk (pure (buffer.locate (answer.written.getD Span.null) "header value"))
    return some val

def id (r : Reading m) : Read m (Option Slice) := r.find Header.idKey

def dependencies (r : Reading m) : Read m (List Slice) := do
  let headers ← r.headers
  return (headers.filter fun h => h.key.bytes == Header.depKey).map Entry.val

def copies (r : Reading m) : Read m (List Header) := do
  let headers ← r.headers
  return headers.map Entry.toHeader

end Reading

end PacketHost
