import PacketHost.Halt

/-!
# Bytes and extents

`Bytes.splice` lays bytes over a buffer from a position on; `getElem?_splice` says what each byte of the
result is. An `Extent` is the part of a buffer between two positions.
-/

namespace PacketHost

abbrev Bytes := Array UInt8

namespace Bytes

/-- Overwrites the bytes of a buffer from `pos` on; what would lie past its end is dropped. -/
def overwrite (buffer : Bytes) (pos : Nat) : List UInt8 → Bytes
  | [] => buffer
  | b :: bs => overwrite (buffer.setIfInBounds pos b) (pos + 1) bs

/-- Lays `source` over the bytes of `buffer` from `pos` on. -/
def splice (buffer : Bytes) (pos : Nat) (source : Bytes) : Bytes :=
  overwrite buffer pos source.toList

@[simp] theorem size_overwrite (buffer : Bytes) (pos : Nat) (bs : List UInt8) :
    (overwrite buffer pos bs).size = buffer.size := by
  induction bs generalizing buffer pos with
  | nil => rfl
  | cons b bs ih => simp [overwrite, ih]

theorem getElem?_overwrite (buffer : Bytes) (pos : Nat) (bs : List UInt8) (i : Nat) :
    (overwrite buffer pos bs)[i]? =
      if pos ≤ i ∧ i < pos + bs.length ∧ i < buffer.size then bs[i - pos]? else buffer[i]? := by
  induction bs generalizing buffer pos with
  | nil =>
    rw [if_neg (by simp only [List.length_nil]; omega)]
    rfl
  | cons b bs ih =>
    simp only [overwrite, ih, Array.size_setIfInBounds, List.length_cons]
    grind

@[simp] theorem size_splice (buffer : Bytes) (pos : Nat) (source : Bytes) :
    (splice buffer pos source).size = buffer.size := size_overwrite ..

theorem getElem?_splice (buffer : Bytes) (pos : Nat) (source : Bytes) (i : Nat) :
    (splice buffer pos source)[i]? =
      if pos ≤ i ∧ i < pos + source.size ∧ i < buffer.size then source[i - pos]? else buffer[i]? := by
  simp [splice, getElem?_overwrite]

/-- Lays `source` over a part of `buffer`, or traps if that part does not exist. -/
def write (buffer : Bytes) (pos : Nat) (source : Bytes) : Except Trap Bytes := do
  let stop ← Trap.add pos source.size
  if stop ≤ buffer.size then .ok (buffer.splice pos source) else .error .outOfBounds

end Bytes

/-- The part of a buffer from `start` up to, and without, `stop`. -/
structure Extent where
  start : Nat
  stop : Nat
  deriving DecidableEq, Repr

namespace Extent

def length (e : Extent) : Nat := e.stop - e.start

def read (e : Extent) (buffer : Bytes) : Bytes := buffer.extract e.start e.stop

/-- The extent between two positions of a buffer, or a trap if there is none. -/
def cut (buffer : Bytes) (start stop : Nat) : Except Trap Extent :=
  if start ≤ stop ∧ stop ≤ buffer.size then .ok ⟨start, stop⟩ else .error .outOfBounds

end Extent

end PacketHost
