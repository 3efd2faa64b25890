import PacketHost.Word

/-!
# The registry of callbacks

A registry maps tokens to callbacks that may be called once. Each of its primitives is one indivisible
step: to draw a token, to insert a callback, to take it out of its slot, to count an invocation and to
remove a slot. A slot whose callback has been taken stays in the registry, empty, until it is removed.
Both counters are words and wrap around.
-/

namespace PacketHost

structure Token where
  id : Nat
  deriving DecidableEq, Repr

namespace Token

def display (t : Token) : String := s!"call#{t.id}"

end Token

/-- Slots by token, the number of the next token, and the number of callbacks begun so far. -/
structure Registry (κ : Type) where
  slots : List (Token × Option κ) := []
  next : Nat := 1
  invocations : Nat := 0

inductive Taking (κ : Type) where
  | unregistered
  | consumed
  /-- The callback, which no longer is in its slot. -/
  | taken (callback : κ)

namespace Registry

variable {κ : Type}

/-! ## Views -/

def slot? (r : Registry κ) (t : Token) : Option (Option κ) := r.slots.lookup t

def contains (r : Registry κ) (t : Token) : Bool := (r.slot? t).isSome

def outstanding (r : Registry κ) : Nat := r.slots.length

def debug (r : Registry κ) : String :=
  s!"AllocationBridge \x7b outstanding: {r.outstanding}, invocations: {r.invocations} \x7d"

/-! ## Indivisible steps -/

def draw (r : Registry κ) : Token × Registry κ := (⟨r.next⟩, { r with next := Word.wrap (r.next + 1) })

/-- Removes the slot of a token, if there is one. What goes with a callback in it is left to whoever removes it. -/
def erase (r : Registry κ) (t : Token) : Registry κ :=
  { r with slots := r.slots.filter fun s => s.1 ≠ t }

def insert (r : Registry κ) (t : Token) (callback : κ) : Registry κ :=
  { r with slots := (r.erase t).slots ++ [(t, some callback)] }

def disarm (r : Registry κ) (t : Token) : Registry κ :=
  { r with slots := r.slots.map fun s => if s.1 = t then (t, none) else s }

/-- Takes the callback out of the slot of a token. -/
def take (r : Registry κ) (t : Token) : Taking κ × Registry κ :=
  match r.slot? t with
  | none => (.unregistered, r)
  | some none => (.consumed, r)
  | some (some callback) => (.taken callback, r.disarm t)

def count (r : Registry κ) : Registry κ := { r with invocations := Word.wrap (r.invocations + 1) }

/-! ## Registering -/

/-- Draws a token and inserts a callback under it. A slot that the token has already is replaced; it has one only if all
words were drawn since, and what the callback there owns is not dropped here. -/
def register (r : Registry κ) (callback : κ) : Token × Registry κ :=
  let (t, r) := r.draw
  (t, r.insert t callback)

/-! ## Panics -/

def unregisteredText (t : Token) : String :=
  s!"allocation requested for unregistered token {t.display}"

def consumedText (t : Token) : String :=
  s!"allocation callback for {t.display} invoked twice"

end Registry

end PacketHost
