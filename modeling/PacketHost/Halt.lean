import PacketHost.Word

/-!
# Ways to end without a value

A computation over machine words ends with a value, refuses its input for a reason, or reaches a step
that a machine cannot take. The last case is a `Trap`: a sum that leaves the words, or bytes asked for
outside a buffer. Code that is meant never to trap still says where it could, so that its safety is a
theorem about its result.
-/

namespace PacketHost

/-- A step that a machine cannot take. -/
inductive Trap where
  | overflow
  | outOfBounds
  deriving DecidableEq, Repr

/-- The two ways to end without a value. -/
inductive Halt (ε : Type) where
  | refused (reason : ε)
  | trapped (trap : Trap)
  deriving DecidableEq, Repr

namespace Trap

/-- The sum, or a trap if it is no word. -/
def add (a b : Nat) : Except Trap Nat :=
  match Word.add? a b with
  | some s => .ok s
  | none => .error .overflow

def mul (a b : Nat) : Except Trap Nat :=
  match Word.mul? a b with
  | some p => .ok p
  | none => .error .overflow

/-- The difference, or a trap if it is negative. -/
def sub (a b : Nat) : Except Trap Nat :=
  if b ≤ a then .ok (a - b) else .error .overflow

end Trap

namespace Halt

/-- A computation that can only trap, as one that could also refuse. -/
def ofTrap {ε α : Type} : Except Trap α → Except (Halt ε) α
  | .ok a => .ok a
  | .error t => .error (.trapped t)

def refuse {ε α : Type} (reason : ε) : Except (Halt ε) α := .error (.refused reason)

end Halt

end PacketHost
