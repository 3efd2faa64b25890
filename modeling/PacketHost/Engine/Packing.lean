import PacketHost.Span

/-!
# What an engine does while it builds a packet

A `Packing` is the course of one build as the host can observe it: the engine asks its allocator for
memory, reads and writes memory, and ends by returning a status, with or without having set the span it
reports, or by panicking. `Packing.run` plays it against `Surroundings`, which answer the requests and hold
the memory. A request that must not be answered ends the process.
-/

namespace PacketHost

/-- The answer to a request for memory: a status, and the span, if it was set. -/
structure Reply where
  status : Int
  written : Option Span
  deriving DecidableEq, Repr

/-- The course of one build. -/
inductive Packing where
  /-- Returns a status, with the reported span if it was set. -/
  | finish (status : Int) (out : Option Span)
  | panic (text : String)
  /-- Asks for `size` bytes; `context` and `out` tell whether these pointers are given. -/
  | request (size : Nat) (context out : Bool) (next : Reply → Packing)
  | load (addr length : Nat) (next : Bytes → Packing)
  | store (addr : Nat) (bytes : Bytes) (next : Packing)

/-- What an engine meets while it builds. -/
structure Surroundings (σ : Type) where
  /-- Answers a request, or ends the process. -/
  request : σ → Nat → Bool → Bool → Option (Reply × σ)
  load : σ → Nat → Nat → Bytes
  store : σ → Nat → Bytes → σ

inductive Ending where
  | returned (status : Int) (out : Option Span)
  | panicked (text : String)
  | aborted
  deriving DecidableEq, Repr

namespace Packing

/-- Continues with another course once this one has returned. -/
def andThen : Packing → (Int → Option Span → Packing) → Packing
  | finish status out, next => next status out
  | panic text, _ => panic text
  | request size context out k, next => request size context out fun r => (k r).andThen next
  | load addr length k, next => load addr length fun b => (k b).andThen next
  | store addr bytes k, next => store addr bytes (k.andThen next)

def run {σ : Type} (around : Surroundings σ) : Packing → σ → Ending × σ
  | finish status out, s => (.returned status out, s)
  | panic text, s => (.panicked text, s)
  | request size context out next, s =>
    match around.request s size context out with
    | some (reply, s) => (next reply).run around s
    | none => (.aborted, s)
  | load addr length next, s => (next (around.load s addr length)).run around s
  | store addr bytes next, s => next.run around (around.store s addr bytes)

end Packing

/-! ## Memory of one buffer -/

namespace Slice

/-- Reads bytes from an address on, from a slice and from what lies elsewhere. -/
def loadOr (buffer : Option Slice) (elsewhere : Memory) (addr length : Nat) : Bytes :=
  let memory := match buffer with
    | some s => s.memory elsewhere
    | none => elsewhere
  Array.ofFn (n := length) fun i => memory (addr + i)

/-- Writes bytes from an address on, as far as they lie in the slice. -/
def store (s : Slice) (addr : Nat) (bytes : Bytes) : Slice :=
  if s.base ≤ addr then { s with bytes := s.bytes.splice (addr - s.base) bytes } else s

end Slice

end PacketHost
