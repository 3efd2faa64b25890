import PacketHost.Engine.Basic
import PacketHost.Limits
import PacketHost.Text.Quoted

/-!
# Packets, handles and builders

A handle owns the buffer of a packet until it is released; afterwards every read fails. The engine that
packed the packet also reads it, and is given the part of the buffer that it reported. A builder is an
engine together with the limits that are held against what it is asked to pack.
-/

namespace PacketHost

/-- A buffer, and the part of it that holds a packet. -/
structure Packet where
  buffer : Slice
  extent : Extent
  /-- The part of the buffer, kept at hand. -/
  packed : Slice := buffer.part extent
  packed_eq : packed = buffer.part extent := by rfl
  deriving DecidableEq, Repr

inductive Ownership where
  | valid (packet : Packet)
  | released
  deriving DecidableEq, Repr

/-! ## Handles -/

structure Handle (m : Type → Type) where
  engine : Engine m
  state : Ownership

namespace Handle

variable {m : Type → Type}

def release (h : Handle m) : Handle m := { h with state := .released }

def isReleased (h : Handle m) : Bool :=
  match h.state with
  | .valid _ => false
  | .released => true

/-- The packet, unless it was released. -/
def live (h : Handle m) : Except HostError Packet :=
  match h.state with
  | .valid packet => .ok packet
  | .released => .error .useAfterRelease

def bytes (h : Handle m) : Except HostError Bytes := h.live.map fun p => p.buffer.bytes

def length (h : Handle m) : Except HostError Nat := h.bytes.map Array.size

def debug (h : Handle m) : String :=
  let state := match h.state with
    | .valid packet => s!"packed_len: {packet.buffer.length}"
    | .released => "released: true"
  "PacketHandle \x7b engine: " ++ Text.quoted h.engine.name ++ ", " ++ state ++ " \x7d"

end Handle

/-! ## Builders -/

structure Builder (m : Type → Type) where
  engine : Engine m
  limits : Limits := {}

namespace Builder

variable {m : Type → Type}

def release : String := "0.1.0"

/-- A builder for an engine that follows the same major version, with limits that allow some packet. -/
def create (engine : Engine m) (limits : Limits) : Except HostError (Builder m) :=
  match limits.validate with
  | .error p => .error p.error
  | .ok () =>
    if Abi.major engine.abiVersion = Abi.major Abi.version then .ok ⟨engine, limits⟩
    else .error (.engineContract ("engine '" ++ engine.name ++ "' speaks ABI 0x" ++
      Text.hex engine.abiVersion ++ ", host expects 0x" ++ Text.hex Abi.version))

def debug (b : Builder m) : String :=
  "PacketBuilder \x7b engine: " ++ Text.quoted b.engine.name ++ ", config: " ++ b.limits.debug ++ " \x7d"

end Builder

end PacketHost
