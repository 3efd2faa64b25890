import PacketHost.Bytes

/-!
# Spans and slices

Memory that crosses the boundary is described by a `Span`, an address and a length that promise nothing.
A `Slice` is memory that is really there: the bytes that lie from an address on. `Span.liesIn` decides
whether all bytes of a span lie in a slice, also for spans that run past the last address.
-/

namespace PacketHost

abbrev Memory := Nat → UInt8

/-- An address and a number of bytes; address zero is the null pointer. -/
structure Span where
  addr : Nat := 0
  len : Nat := 0
  deriving DecidableEq, Repr, Inhabited

/-- Bytes that lie in memory from an address on. -/
structure Slice where
  base : Nat
  bytes : Bytes
  deriving DecidableEq, Repr, Inhabited

namespace Slice

def length (s : Slice) : Nat := s.bytes.size

def stop (s : Slice) : Nat := s.base + s.length

/-- The description of a slice; one without bytes has no address to give. -/
def span (s : Slice) : Span := if s.length = 0 then ⟨0, 0⟩ else ⟨s.base, s.length⟩

/-- The part of a slice that an extent of its bytes selects. -/
def part (s : Slice) (e : Extent) : Slice := ⟨s.base + e.start, e.read s.bytes⟩

def byteAt? (s : Slice) (addr : Nat) : Option UInt8 :=
  if s.base ≤ addr then s.bytes[addr - s.base]? else none

/-- A memory that holds a slice, and what `elsewhere` says at all other addresses. -/
def memory (s : Slice) (elsewhere : Memory) : Memory := fun addr =>
  (s.byteAt? addr).getD (elsewhere addr)

end Slice

namespace Span

def null : Span := ⟨0, 0⟩

def isNull (s : Span) : Bool := s.addr == 0

/-- The null pointer describes no bytes. -/
def isValid (s : Span) : Bool := !s.isNull || s.len == 0

def isEmpty (s : Span) : Bool := s.len == 0

def liesIn (s : Span) (outer : Slice) : Bool :=
  s.isEmpty ||
    match Word.add? s.addr s.len with
    | some stop => decide (outer.base ≤ s.addr ∧ stop ≤ outer.stop)
    | none => false

/-- Number of bytes that can be read: the null pointer has none. -/
def readable (s : Span) : Nat := if s.isNull then 0 else s.len

/-- The bytes that a memory holds where the span says. -/
def read (s : Span) (memory : Memory) : Bytes :=
  Array.ofFn (n := s.readable) fun i => memory (s.addr + i)

@[simp] theorem size_read (s : Span) (memory : Memory) : (s.read memory).size = s.readable := by
  simp [read]

end Span

end PacketHost
