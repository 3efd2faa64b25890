import PacketHost.Packet.Reading
import PacketHost.Packet.Session

/-!
# Handles over a run

A `Query` is a way to read from a handle, and `Reading.ask` reads that way. A run of a session is a list of steps:
packets are built, handles are read, released, and dropped, which releases them as well. Between two reads anything may
happen to the memory outside a buffer, so each read brings its own.
-/

namespace PacketHost

/-- A way to read from a handle. -/
inductive Query where
  | bytes
  | length
  | count
  | header (index : Nat)
  | payload
  | headers
  | lastValues
  | find (key : Bytes)
  | id
  | dependencies
  | copies
  deriving DecidableEq, Repr

/-- What a read comes to. -/
inductive Readout where
  | bytes (bytes : Bytes)
  | number (n : Nat)
  | entry (entry : Entry)
  | entries (entries : List Entry)
  | map (map : List (Bytes × Slice))
  | slice (slice : Slice)
  | slice? (slice? : Option Slice)
  | slices (slices : List Slice)
  | headers (headers : List Header)
  deriving DecidableEq, Repr

namespace Reading

variable {m : Type → Type} [Monad m]

def ask (r : Reading m) : Query → Read m Readout
  | .bytes => return .bytes (← lift r.handle.bytes)
  | .length => return .number (← lift r.handle.length)
  | .count => return .number (← r.count)
  | .header index => return .entry (← r.header index)
  | .payload => return .slice (← r.payload)
  | .headers => return .entries (← r.headers)
  | .lastValues => return .map (← r.lastValues)
  | .find key => return .slice? (← r.find key)
  | .id => return .slice? (← r.id)
  | .dependencies => return .slices (← r.dependencies)
  | .copies => return .headers (← r.copies)

end Reading

/-! ## Runs -/

namespace Session

/-- What is done with a session. Handles are numbered in the order in which they were built; one that was dropped keeps
its number, although its owner can no longer name it. -/
inductive Step where
  | build (host : Host) (headers : List Header) (payload : Bytes)
  | read (index : Nat) (query : Query) (elsewhere : Memory)
  | release (index : Nat)
  | drop (index : Nat)

inductive Response where
  | built (built : Built Id)
  | read (result : Except (Halt HostError) Readout)
  | done
  | missing

/-- What a read of a handle of the session comes to. -/
def read (s : Session Id) (index : Nat) (query : Query) (elsewhere : Memory) : Response :=
  match s.handles[index]? with
  | some handle => .read (Id.run ((Reading.mk handle elsewhere).ask query).run)
  | none => .missing

def step (s : Session Id) : Step → Response × Session Id
  | .build host headers payload =>
    let (attempt, s) := Id.run (s.build host headers payload)
    (.built attempt.built, s)
  | .read index query elsewhere => (s.read index query elsewhere, s)
  | .release index | .drop index => (.done, s.release index)

def run (s : Session Id) (steps : List Step) : Session Id := steps.foldl (fun s t => (s.step t).2) s

end Session

end PacketHost
