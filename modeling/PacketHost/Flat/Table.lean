import PacketHost.Flat.Size

/-!
# Reading a packed packet

`Table.ofBytes` checks the frame of a packet, the number of headers and the position of the payload, and
nothing else; each header is checked when it is asked for. `Table.header` answers with extents, so that
its answer can be a place in memory as well as bytes. A corrupt header is refused, never read past.
-/

namespace PacketHost.Flat

def wordAt (buffer : Bytes) (pos : Nat) : Except (Halt Status) Nat :=
  match Word.add? pos Word.width with
  | none => Halt.refuse .invalidArgument
  | some stop =>
    if stop ≤ buffer.size then .ok (Word.ofDigits (buffer.extract pos stop).toList)
    else Halt.refuse .invalidArgument

/-- The size of an offset table that was read from a buffer. -/
def tableLength (count : Nat) : Except (Halt Status) Nat :=
  match tableLength? count with
  | some size => .ok size
  | none => Halt.refuse .invalidArgument

/-- A buffer that holds a packet, with the number of headers and the position of the payload. -/
structure Table where
  buffer : Bytes
  count : Nat
  payloadStart : Nat
  deriving DecidableEq, Repr

namespace Table

/-- Accepts a buffer whose table and payload position lie in it, in this order. -/
def ofBytes (buffer : Bytes) : Except (Halt Status) Table := do
  let count ← wordAt buffer 0
  let table ← tableLength count
  if buffer.size < table then Halt.refuse .invalidArgument
  else do
    let last ← Halt.ofTrap (Trap.sub table Word.width)
    let payloadStart ← wordAt buffer last
    if payloadStart < table ∨ buffer.size < payloadStart then Halt.refuse .invalidArgument
    else return ⟨buffer, count, payloadStart⟩

/-- The position of the first word of a header in the table. -/
def entry (index : Nat) : Except Trap Nat := do
  let doubled ← Trap.mul 2 index
  let skipped ← Trap.mul doubled Word.width
  Trap.add Word.width skipped

/-- The three positions that delimit a header: of its key, of its value and of what follows it. -/
def delimiters (t : Table) (index : Nat) : Except (Halt Status) (Nat × Nat × Nat) := do
  let entry ← Halt.ofTrap (entry index)
  let keyStart ← wordAt t.buffer entry
  let second ← Halt.ofTrap (Trap.add entry Word.width)
  let valStart ← wordAt t.buffer second
  let third ← Halt.ofTrap (Trap.add entry (2 * Word.width))
  let stop ← wordAt t.buffer third
  return (keyStart, valStart, stop)

def header (t : Table) (index : Nat) : Except (Halt Status) (Extent × Extent) :=
  if t.count ≤ index then Halt.refuse .outOfRange
  else do
    let (keyStart, valStart, stop) ← t.delimiters index
    let table ← tableLength t.count
    if keyStart < table ∨ valStart < keyStart ∨ stop < valStart ∨ t.payloadStart < stop then
      Halt.refuse .invalidArgument
    else do
      let key ← Halt.ofTrap (Extent.cut t.buffer keyStart valStart)
      let val ← Halt.ofTrap (Extent.cut t.buffer valStart stop)
      return (key, val)

def payload (t : Table) : Except (Halt Status) Extent :=
  Halt.ofTrap (Extent.cut t.buffer t.payloadStart t.buffer.size)

def headerBytes (t : Table) (index : Nat) : Except (Halt Status) Header := do
  let (key, val) ← t.header index
  return ⟨key.read t.buffer, val.read t.buffer⟩

def payloadBytes (t : Table) : Except (Halt Status) Bytes := do
  let e ← t.payload
  return e.read t.buffer

/-- Where the value of the first accepted key lies, among `remaining` headers from `index` on. -/
def searchFrom (t : Table) (accept : Bytes → Bool) (index : Nat) :
    Nat → Except (Halt Status) Extent
  | 0 => Halt.refuse .notFound
  | remaining + 1 => do
    let (key, val) ← t.header index
    if accept (key.read t.buffer) then return val
    else t.searchFrom accept (index + 1) remaining

def search (t : Table) (accept : Bytes → Bool) : Except (Halt Status) Extent :=
  t.searchFrom accept 0 t.count

def find (t : Table) (key : Bytes) : Except (Halt Status) Bytes := do
  let e ← t.search (· == key)
  return e.read t.buffer

end Table

end PacketHost.Flat
