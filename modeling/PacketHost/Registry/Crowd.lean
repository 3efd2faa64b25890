import PacketHost.Interleaving
import PacketHost.Registry.Fiber

/-!
# Activities side by side

A `Crowd` is a registry with the activities that share it. In each turn one of them makes one indivisible step, so that
any other may use the registry between the two steps of a registration or of an invocation.
-/

namespace PacketHost

/-- A step of an activity on a registry that it shares with others; none if it has ended. -/
def Fiber.advance (r : Registry Callback) (f : Fiber) : Option (Registry Callback × Fiber) :=
  match f.step r with
  | .running r f => some (r, f)
  | .finished _ => none

/-- A registry and the activities that share it. -/
abbrev Crowd := Group (Registry Callback) Fiber

namespace Crowd

/-- Activities that start on a new registry. -/
def start (actions : List Action) : Crowd := ⟨{}, actions.map .start⟩

def turn (c : Crowd) (index : Nat) : Crowd := Group.turn Fiber.advance c index

def run (c : Crowd) (schedule : List Nat) : Crowd := Group.run Fiber.advance c schedule

end Crowd

end PacketHost
