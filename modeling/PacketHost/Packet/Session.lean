import PacketHost.Packet.Attempt

/-!
# Sessions

A `Session` is a builder in use: its registry, and the handles of all packets built so far, in order.
-/

namespace PacketHost

/-- A builder, its registry and the handles of the packets built. -/
structure Session (m : Type → Type) where
  builder : Builder m
  registry : Registry Callback := {}
  handles : List (Handle m) := []

namespace Session

variable {m : Type → Type}

/-- Builds a packet; a new handle is put after the others. -/
def build [Monad m] (s : Session m) (host : Host) (headers : List Header) (payload : Bytes) :
    m (Attempt m × Session m) := do
  let a ← s.builder.build host s.registry headers payload
  let handles := match a.built with
    | .finished (.ok h) => s.handles ++ [h]
    | _ => s.handles
  return (a, { s with registry := a.registry, handles })

def release (s : Session m) (index : Nat) : Session m :=
  { s with handles := s.handles.modify index Handle.release }

end Session

end PacketHost
