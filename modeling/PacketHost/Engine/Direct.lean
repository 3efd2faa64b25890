import PacketHost.Engine.Packing
import PacketHost.Status

/-!
# Building with an allocator of one's own

A caller that does not go through the host hands the engine any allocator: a function of the size asked
for. `Direct.run` plays a build against it and keeps the sizes that were asked for and the buffer that
was given out.
-/

namespace PacketHost

/-- What an allocator answers, and the buffer behind the span it gives out. -/
structure Allocation where
  status : Int := Status.okCode
  written : Option Span := none
  buffer : Option Slice := none

/-- A build in progress: the sizes asked for, in order, and the last buffer given out. -/
structure Direct where
  requested : List Nat := []
  buffer : Option Slice := none

namespace Direct

def surroundings (alloc : Nat → Allocation) (elsewhere : Memory) : Surroundings Direct where
  request s size _ _ :=
    let a := alloc size
    some (⟨a.status, a.written⟩, ⟨s.requested ++ [size], a.buffer.or s.buffer⟩)
  load s addr length := Slice.loadOr s.buffer elsewhere addr length
  store s addr bytes := { s with buffer := s.buffer.map fun b => b.store addr bytes }

def run (alloc : Nat → Allocation) (elsewhere : Memory) (p : Packing) : Ending × Direct :=
  p.run (surroundings alloc elsewhere) {}

end Direct

end PacketHost
