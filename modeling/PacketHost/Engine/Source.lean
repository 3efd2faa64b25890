import PacketHost.Span

/-!
# Inputs of an engine

A `Source` describes bytes that the host lends to an engine: whether there is a pointer, the length that
is claimed, and each byte. The claimed length may exceed any memory, so the bytes are not stored; they
are looked up once somebody needs them.
-/

namespace PacketHost

structure Source where
  isNull : Bool
  len : Nat
  byteAt : Nat → UInt8

namespace Source

/-- Lends bytes; there is no pointer to no bytes. -/
def ofBytes (bytes : Bytes) : Source := ⟨bytes.isEmpty, bytes.size, fun i => bytes.getD i 0⟩

/-- The null pointer lends no bytes. -/
def isValid (s : Source) : Bool := !s.isNull || s.len == 0

/-- Number of bytes that can be read: the null pointer has none. -/
def readable (s : Source) : Nat := if s.isNull then 0 else s.len

def bytes (s : Source) : Bytes := Array.ofFn (n := s.readable) fun i => s.byteAt i

/-- The bytes lent are the given ones; those of another length are not looked at. -/
def holds (s : Source) (other : Bytes) : Bool := s.readable == other.size && s.bytes == other

@[simp] theorem size_bytes (s : Source) : s.bytes.size = s.readable := by simp [bytes]

@[simp] theorem isValid_ofBytes (b : Bytes) : (ofBytes b).isValid = true := by
  by_cases h : b = #[] <;> simp [isValid, ofBytes, h]

@[simp] theorem readable_ofBytes (b : Bytes) : (ofBytes b).readable = b.size := by
  by_cases h : b = #[] <;> simp [readable, ofBytes, h]

@[simp] theorem bytes_ofBytes (b : Bytes) : (ofBytes b).bytes = b := by
  apply Array.ext
  · simp
  · intro i h₁ h₂
    simp [bytes, ofBytes, h₂]

theorem holds_iff {s : Source} {b : Bytes} : s.holds b = true ↔ s.bytes = b := by
  simp only [holds, Bool.and_eq_true, beq_iff_eq]
  exact ⟨fun h => h.2, fun h => ⟨by rw [← h, size_bytes], h⟩⟩

end Source

end PacketHost
