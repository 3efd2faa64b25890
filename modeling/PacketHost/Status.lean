/-!
# Status codes

Every engine operation answers with an integer: zero for success, one of seven known codes, or a code
that nobody has given a meaning. `Status.ofCode?` and `Status.code` translate between the known codes
and their meanings.
-/

namespace PacketHost

/-- A failure that has a code of its own. -/
inductive Status where
  | invalidArgument
  | outOfMemory
  | outOfRange
  | notFound
  | badAddress
  | tooLarge
  | internal
  deriving DecidableEq, Repr

namespace Status

def okCode : Int := 0

/-- Every status, in the order in which they are listed to users. -/
def all : List Status :=
  [invalidArgument, outOfMemory, outOfRange, notFound, badAddress, tooLarge, internal]

def code : Status → Int
  | invalidArgument => 22
  | outOfMemory => 12
  | outOfRange => 34
  | notFound => 2
  | badAddress => 14
  | tooLarge => 7
  | internal => 5

/-- The status with a given code, if there is one. -/
def ofCode? (code : Int) : Option Status := all.find? fun s => s.code == code

def name : Status → String
  | invalidArgument => "InvalidArgument"
  | outOfMemory => "OutOfMemory"
  | outOfRange => "OutOfRange"
  | notFound => "NotFound"
  | badAddress => "BadAddress"
  | tooLarge => "TooLarge"
  | internal => "Internal"

def message : Status → String
  | invalidArgument => "Invalid argument"
  | outOfMemory => "Out of memory"
  | outOfRange => "Index out of range"
  | notFound => "Not found"
  | badAddress => "Bad address"
  | tooLarge => "Packet too large"
  | internal => "Internal engine error"

/-- Name, code and meaning in one line. -/
def display (s : Status) : String := s!"NativeStatus::{s.name} ({s.code}): {s.message}"

theorem ofCode?_code (s : Status) : ofCode? s.code = some s := by cases s <;> decide

theorem code_injective {s t : Status} (h : s.code = t.code) : s = t := by
  have := congrArg ofCode? h
  rwa [ofCode?_code, ofCode?_code, Option.some.injEq] at this

theorem code_of_ofCode? {c : Int} {s : Status} (h : ofCode? c = some s) : s.code = c := by
  have := List.find?_some h
  simpa using this

theorem ofCode?_eq_some_iff {c : Int} {s : Status} : ofCode? c = some s ↔ c = s.code :=
  ⟨fun h => (code_of_ofCode? h).symm, fun h => h ▸ ofCode?_code s⟩

theorem code_ne_ok (s : Status) : s.code ≠ okCode := by cases s <;> decide

end Status

end PacketHost
