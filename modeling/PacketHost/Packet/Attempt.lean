import PacketHost.Packet.Admission
import PacketHost.Packet.Basic
import PacketHost.Packet.Desk

/-!
# One build from start to end

`Builder.build` admits headers and payload, registers an allocation callback, lets the engine build, and
removes the registration. The grant, the status and the reported span then decide between a handle and an
error (`Builder.settle`). The registration is removed however the engine ends.
-/

namespace PacketHost

/-- How a build ended for its caller. -/
inductive Built (m : Type → Type) where
  | finished (result : Except HostError (Handle m))
  | panicked (text : String)
  | aborted

/-- The end of a build: the registry after it, and each request with its status. -/
structure Attempt (m : Type → Type) where
  built : Built m
  registry : Registry Callback
  requests : List (Nat × Int)

namespace Builder

variable {m : Type → Type}

/-! ## The outcome -/

/-- What a status, a reported span and a grant amount to: a packet or an error. -/
def settle (status : Int) (out : Span) (grant? : Option Grant) : Except HostError Packet :=
  match expectOk status, grant? with
  | .error _, some (.refused requested) => .error (.allocationFailure requested)
  | .error e, _ => .error e
  | .ok (), some (.granted buffer) =>
    if out.isEmpty || !out.isValid || !out.liesIn buffer then
      .error (.engineContract
        s!"packed view of {out.len} bytes is outside the {buffer.length} byte allocation")
    else
      let start := out.addr - buffer.base
      .ok { buffer, extent := ⟨start, start + out.len⟩ }
  | .ok (), _ => .error (.engineContract "engine reported success without allocating")

def conclude (b : Builder m) (ending : Ending) (grant? : Option Grant) : Built m :=
  match ending with
  | .returned status out =>
    .finished ((settle status (out.getD Span.null) grant?).map fun p => ⟨b.engine, .valid p⟩)
  | .panicked text => .panicked text
  | .aborted => .aborted

/-! ## The build -/

/-- Lets an engine build under a registration of its own, and removes the registration. -/
def perform (b : Builder m) (host : Host) (r : Registry Callback) (course : Packing) : Attempt m :=
  let (token, r) := r.register (b.limits.allocator host)
  let (ending, r, d) :=
    course.run (Desk.surroundings (b.limits.grant host) token host.memory) (r, {})
  ⟨b.conclude ending d.grant?, (r.unregister token).2, d.requests⟩

def lend (headers : List Header) : List (Source × Source) :=
  headers.map fun h => (Source.ofBytes h.key, Source.ofBytes h.val)

def build [Monad m] (b : Builder m) (host : Host) (r : Registry Callback) (headers : List Header)
    (payload : Bytes) : m (Attempt m) :=
  match b.limits.check headers payload with
  | .error e => pure ⟨.finished (.error e), r, []⟩
  | .ok () => do
    let course ← b.engine.build (lend headers) (Source.ofBytes payload)
    return b.perform host r course

end Builder

end PacketHost
