import PacketHost.Packet.Memory
import PacketHost.Registry.Allocation

/-!
# A build in progress

A `Desk` keeps what a build has come to: the grant, once the allocation callback has run, and each request
with the status that the engine was told. An engine reads all memory and writes to the granted buffer.
-/

namespace PacketHost

structure Desk where
  grant? : Option Grant := none
  requests : List (Nat × Int) := []

namespace Desk

def buffer? (d : Desk) : Option Slice :=
  match d.grant? with
  | some (.granted buffer) => some buffer
  | _ => none

/-- Notes a request that did not reach the callback. -/
def noteMissing (d : Desk) (size : Nat) : Desk :=
  { d with requests := d.requests ++ [(size, Reply.missing.status)] }

/-- Notes a request that reached the callback. -/
def noteGrant (d : Desk) (grant : Grant) (size : Nat) (reply : Reply) : Desk :=
  ⟨some grant, d.requests ++ [(size, reply.status)]⟩

def load (d : Desk) (memory : Memory) (addr length : Nat) : Bytes :=
  Slice.loadOr d.buffer? memory addr length

def store (d : Desk) (addr : Nat) (bytes : Bytes) : Desk :=
  match d.grant? with
  | some (.granted buffer) => { d with grant? := some (.granted (buffer.store addr bytes)) }
  | _ => d

/-- Answers a request of the engine that holds a token. -/
def request (grant : Nat → Grant) (token : Token) (s : Registry Callback × Desk) (size : Nat)
    (context out : Bool) : Option (Reply × Registry Callback × Desk) :=
  let (r, d) := s
  match r.allocate (if context then some token else none) size out with
  | some (reply, r) =>
    some (reply, r, if context && out then d.noteGrant (grant size) size reply else d.noteMissing size)
  | none => none

/-- What the engine that holds a token meets during a build. -/
def surroundings (grant : Nat → Grant) (token : Token) (memory : Memory) :
    Surroundings (Registry Callback × Desk) where
  request := request grant token
  load s := s.2.load memory
  store s addr bytes := (s.1, s.2.store addr bytes)

end Desk

end PacketHost
