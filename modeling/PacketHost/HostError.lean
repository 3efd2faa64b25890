import PacketHost.Status

/-!
# Errors of the host

`HostError` lists the reasons for which the host turns a request down, `HostError.message` gives their
wording, and `expectOk` reads an engine's status code as success or as one of them.
-/

namespace PacketHost

/-- Why the host could not do what it was asked. -/
inductive HostError where
  /-- The input was rejected before the engine was called. -/
  | invalidArgument (text : String)
  | allocationFailure (requested : Nat)
  /-- The engine answered with a code of known meaning. -/
  | engineStatus (code : Int) (kind : Status)
  | indexOutOfRange (index count : Nat)
  | useAfterRelease
  /-- The engine answered with a code of no known meaning. -/
  | unknownStatus (code : Int)
  | engineContract (text : String)
  | limits (text : String)
  deriving DecidableEq, Repr

namespace HostError

def name : HostError → String
  | invalidArgument _ => "InvalidArgument"
  | allocationFailure _ => "AllocationFailure"
  | engineStatus .. => "NativeStatus"
  | indexOutOfRange .. => "IndexOutOfRange"
  | useAfterRelease => "UseAfterRelease"
  | unknownStatus _ => "UnknownNativeStatus"
  | engineContract _ => "EngineContract"
  | limits _ => "Config"

def message : HostError → String
  | invalidArgument text => s!"Invalid argument: {text}"
  | allocationFailure requested => s!"Allocation failure: could not allocate {requested} bytes"
  | engineStatus code kind => s!"Native status {code}: {kind.message}"
  | indexOutOfRange index count => s!"Header index {index} out of range (count {count})"
  | useAfterRelease => "Packet handle used after release"
  | unknownStatus code => s!"Unknown native status: {code}"
  | engineContract text => s!"Engine contract violation: {text}"
  | limits text => s!"Config error: {text}"

/-- The status behind an error, if the error came from the engine with a known code. -/
def status? : HostError → Option Status
  | engineStatus _ kind => some kind
  | _ => none

def ofStatus (s : Status) : HostError := engineStatus s.code s

end HostError

/-- Zero is success, a known code the error of its status, any other code an unknown status. -/
def expectOk (code : Int) : Except HostError Unit :=
  if code = Status.okCode then .ok ()
  else match Status.ofCode? code with
    | some kind => .error (.engineStatus code kind)
    | none => .error (.unknownStatus code)

end PacketHost
