import PacketHost.Registry.Run

/-!
# Guards held outside a callback

A `Scope` is a registry together with the guards that its user holds. Dropping a guard removes its
registration, if it is still there, and what the discarded callback owns; a guard is dropped once.
-/

namespace PacketHost

/-- A registry and the guards that its user holds. -/
structure Scope where
  registry : Registry Callback := {}
  held : List Token := []

namespace Scope

/-- Registers a callback, which takes over those of its guards that the user holds. -/
def register (s : Scope) (callback : Callback) : Token × Scope :=
  let (t, r) := s.registry.register (callback.owning s.held)
  (t, ⟨r.shed (s.registry.guards t), t :: callback.leaving s.held⟩)

/-- Drops a guard, and tells whether it was held. -/
def drop (s : Scope) (t : Token) : Bool × Scope :=
  if t ∈ s.held then (true, ⟨s.registry.shed [t], s.held.erase t⟩) else (false, s)

/-- Removes a registration, and tells whether there was one; its guard is still held. -/
def unregister (s : Scope) (t : Token) : Bool × Scope :=
  let (removed, r) := s.registry.unregister t
  (removed, { s with registry := r })

def perform (s : Scope) (a : Action) : Exit × Scope :=
  let (exit, r) := s.registry.perform a
  (exit, { s with registry := r })

end Scope

end PacketHost
