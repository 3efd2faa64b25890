/-!
# Members that take turns

Members of a group share a state and make their steps one at a time. A schedule lists whose turn it is;
every order in which the steps can happen is the run of some schedule.
-/

namespace PacketHost

/-- A shared state and the members that use it. -/
structure Group (σ ω : Type) where
  shared : σ
  members : List ω

namespace Group

variable {σ ω : Type}

/-- The turn of a member: one step, or none if the member has ended. -/
def turn (step : σ → ω → Option (σ × ω)) (g : Group σ ω) (index : Nat) : Group σ ω :=
  match g.members[index]? with
  | none => g
  | some member =>
    match step g.shared member with
    | none => g
    | some (shared, member) => ⟨shared, g.members.set index member⟩

def run (step : σ → ω → Option (σ × ω)) (g : Group σ ω) (schedule : List Nat) : Group σ ω :=
  schedule.foldl (turn step) g

end Group

end PacketHost
