import PacketHost.Registry.Fiber

/-!
# Running an activity to its end

`Fiber.run` steps until the activity has ended. Invoking moves a callback from its slot to the running activity, so a
callback that is invoked again is no longer there to run; that every activity comes to its end for this reason is
`Fiber.follows_wellFounded`; by it `run` goes step by step (`Fiber.run_of_running`, `Fiber.run_of_finished`).
-/

namespace PacketHost

instance : Nonempty (Exit × Registry Callback) := ⟨(.panicked "", {})⟩

namespace Fiber

/-- One state of a registry and an activity comes right after another. -/
def Follows (x y : Registry Callback × Fiber) : Prop := step y.1 y.2 = .running x.1 x.2

@[irreducible]
def run (r : Registry Callback) (f : Fiber) : Exit × Registry Callback :=
  WellFounded.extrinsicFix Follows (fun x run =>
    match h : step x.1 x.2 with
    | .running r' f' => run (r', f') h
    | .finished exit => (exit, x.1)) (r, f)

end Fiber

namespace Registry

/-- What an activity comes to that holds guards from the start. -/
def perform (r : Registry Callback) (a : Action) (held : List Token := []) : Exit × Registry Callback :=
  Fiber.run r { focus := .act a, held }

def invoke (r : Registry Callback) (t : Token) (size : Nat) : Exit × Registry Callback :=
  r.perform (.invoke t size .done)

end Registry

end PacketHost
