import PacketHost.Engine.Packing
import PacketHost.Registry.Run

/-!
# Answering a request for memory

An engine asks for memory with a token and a place for the answer. `Registry.allocate` invokes the
callback of the token and answers with a status. A panic must not reach the engine: there is then no
answer, and the process ends.
-/

namespace PacketHost

/-- The status that tells an engine that a callback failed. -/
def HostError.refusal : HostError → Status
  | .allocationFailure _ => .outOfMemory
  | _ => .invalidArgument

/-- What an engine is told when a callback has ended; nothing can be told after a panic. -/
def Exit.reply? : Exit → Option Reply
  | .returned (.ok span) => some ⟨Status.okCode, some span⟩
  | .returned (.error e) => some ⟨e.refusal.code, none⟩
  | .panicked _ => none

/-- What an engine is told when the token or the place for the answer is missing. -/
def Reply.missing : Reply := ⟨Status.badAddress.code, none⟩

namespace Registry

/-- Answers a request; without token or place for the answer the registry is not touched. -/
def allocate (r : Registry Callback) (context : Option Token) (size : Nat) (hasOut : Bool) :
    Option (Reply × Registry Callback) :=
  match context, hasOut with
  | some t, true =>
    let (exit, r) := r.invoke t size
    exit.reply?.map fun reply => (reply, r)
  | _, _ => some (.missing, r)

end Registry

end PacketHost
