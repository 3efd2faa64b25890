import PacketHost.HostError
import PacketHost.Span

/-!
# Locating a reported span

No span that an engine reports is trusted: `Slice.locate` maps it onto a buffer or refuses it, so that what it
answers is empty or a part of the buffer.
-/

namespace PacketHost

/-- The part of a buffer that a reported span describes. -/
def Slice.locate (buffer : Slice) (span : Span) (what : String) : Except (Halt HostError) Slice :=
  if span.isEmpty then .ok ⟨0, #[]⟩
  else if span.isValid && span.liesIn buffer then do
    let start ← Halt.ofTrap (Trap.sub span.addr buffer.base)
    let stop ← Halt.ofTrap (Trap.add start span.len)
    let e ← Halt.ofTrap (Extent.cut buffer.bytes start stop)
    return buffer.part e
  else Halt.refuse
    (.engineContract s!"{what} span of {span.len} bytes lies outside the packet buffer")

end PacketHost
