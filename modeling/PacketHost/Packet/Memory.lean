import PacketHost.Limits
import PacketHost.Registry.Action

/-!
# Memory of the host

A `Host` says whether it has room for a buffer and where that would lie. The allocation callback of a build
gives out one buffer of zeros, or refuses; a `Grant` records what it did.
-/

namespace PacketHost

structure Host where
  /-- Where a buffer of a given size would lie, if there is room for it. -/
  reserve : Nat → Option Nat
  /-- A buffer has an address and ends before the last one. -/
  reserve_fits : ∀ size base, reserve size = some base → 0 < base ∧ base + size < Word.limit
  memory : Memory := fun _ => 0

inductive Grant where
  | granted (buffer : Slice)
  | refused (requested : Nat)
  deriving DecidableEq, Repr

def Grant.result : Grant → Except HostError Span
  | granted buffer => .ok buffer.span
  | refused requested => .error (.allocationFailure requested)

namespace Limits

/-- Gives out a buffer of zeros, if the limits and the host allow it. -/
def grant (l : Limits) (host : Host) (size : Nat) : Grant :=
  if l.maxPacketSize < size then .refused size
  else match host.reserve size with
    | some base => .granted ⟨base, Array.replicate size 0⟩
    | none => .refused size

def allocator (l : Limits) (host : Host) : Callback where
  run size := .done (l.grant host size).result

end Limits

end PacketHost
