import PacketHost.Engine.Packing
import PacketHost.Engine.Source
import PacketHost.Status

/-!
# Engines

An engine packs headers and payload and reads packets that it has packed. `Engine m` lists what it can be
asked; its answers to reads are computed in `m`, so they may differ from call to call. An answer is a
status together with what was written, if anything was.

An engine that has no lookup of its own scans its headers in order (`Engine.scan`).
-/

namespace PacketHost

/-- A status, and what was written to the place for the answer. -/
structure Answer (α : Type) where
  status : Int
  written : Option α
  deriving DecidableEq, Repr

structure HeaderSpan where
  key : Span := Span.null
  val : Span := Span.null
  deriving DecidableEq, Repr, Inhabited

/-- A packet handed to an engine: the bytes at its pointer, unless that is null, and all other memory. -/
structure View where
  slice? : Option Slice
  elsewhere : Memory

namespace View

/-- What every address holds while the view is read. -/
def memory (v : View) : Memory :=
  match v.slice? with
  | some s => s.memory v.elsewhere
  | none => v.elsewhere

end View

/-! ## Engines -/

structure Engine (m : Type → Type) where
  name : String := "unnamed"
  /-- The version of the agreement that the engine follows. -/
  abiVersion : Nat
  build : List (Source × Source) → Source → m Packing
  count : View → m (Answer Nat)
  header : View → Nat → m (Answer HeaderSpan)
  payload : View → m (Answer Span)
  /-- Looks for the value of the first header with a key. -/
  find : View → Source → m (Answer Span)

namespace Engine

variable {m : Type → Type} [Monad m]

/-- Looks for a key among `remaining` headers from `index` on; the first failure ends the search. -/
def scanFrom (header : View → Nat → m (Answer HeaderSpan)) (view : View) (key : Source)
    (index : Nat) : Nat → m (Answer Span)
  | 0 => pure ⟨Status.notFound.code, none⟩
  | remaining + 1 => do
    let answer ← header view index
    if answer.status = Status.okCode then
      let spans := answer.written.getD {}
      if spans.key.readable = key.readable ∧ spans.key.read view.memory = key.bytes then
        pure ⟨Status.okCode, some spans.val⟩
      else scanFrom header view key (index + 1) remaining
    else pure ⟨answer.status, none⟩

/-- Looks for a key among all headers, in order. -/
def scan (count : View → m (Answer Nat)) (header : View → Nat → m (Answer HeaderSpan))
    (view : View) (key : Source) : m (Answer Span) := do
  let answer ← count view
  if answer.status = Status.okCode then scanFrom header view key 0 (answer.written.getD 0)
  else pure ⟨answer.status, none⟩

end Engine

/-! ## Versions -/

namespace Abi

/-- The version that the host follows: major 1, minor 0, patch 0. -/
def version : Nat := 65536

def major (version : Nat) : Nat := version / 65536

end Abi

end PacketHost
