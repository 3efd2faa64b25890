import PacketHost.Registry.Ownership

/-!
# Activities step by step

A `Fiber` is an activity in progress together with those that wait for it, each with the guards it holds.
`Fiber.step` makes one indivisible step on a registry. Registering takes two steps, the token and the slot,
and so does invoking, the slot and the counter; between them other fibers may use the same registry.
An activity drops its guards when it ends, also when it ends in a panic. Where the slot of a callback that has not
begun is removed or replaced, the guards that the callback owns are dropped next, each in a step of its own.
-/

namespace PacketHost

inductive Focus where
  | act (action : Action)
  /-- A token is drawn and its callback not yet inserted. -/
  | enroll (token : Token) (callback : Callback) (next : Token → Action)
  /-- A callback is taken and not yet counted. -/
  | begin (callback : Callback) (size : Nat)
  /-- A callback is discarded and its guards are not yet dropped. -/
  | shed (token : Token) (others : List Token) (next : Action)
  /-- The activity has ended and drops its guards. -/
  | leave (exit : Exit)

/-- Drops guards of discarded callbacks, if there are any, before the activity goes on. -/
def Focus.shedding (next : Action) : List Token → Focus
  | [] => .act next
  | t :: others => .shed t others next

/-- How an activity goes on after a callback that it invoked. -/
inductive Resumption where
  | passing (next : Except HostError Span → Action)
  | catching (next : Exit → Action)

/-- What an activity does next when the callback has ended; a panic that is not caught ends it too. -/
def Resumption.after : Resumption → Exit → Focus
  | passing next, .returned result => .act (next result)
  | passing _, .panicked text => .leave (.panicked text)
  | catching next, exit => .act (next exit)

/-- An activity that waits for a callback that it invoked. -/
structure Frame where
  held : List Token
  next : Resumption

/-- An activity, the guards it holds, and the activities that wait for it, the nearest first. -/
structure Fiber where
  focus : Focus
  held : List Token := []
  waiting : List Frame := []

inductive Progress where
  | running (registry : Registry Callback) (fiber : Fiber)
  | finished (exit : Exit)

namespace Fiber

def start (a : Action) : Fiber := { focus := .act a }

/-- Drops guards and ends. -/
def dropping (held : List Token) : Fiber := { focus := .leave (.returned (.ok .null)), held }

/-- Takes the callback of a token, which then holds its guards; without one, the invocation panics. -/
def stepInvoke (r : Registry Callback) (held : List Token) (waiting : List Frame) (t : Token) (size : Nat)
    (next : Resumption) : Progress :=
  match r.take t with
  | (.taken callback, r) => .running r ⟨.begin callback size, callback.guards, ⟨held, next⟩ :: waiting⟩
  | (.consumed, r) => .running r ⟨next.after (.panicked (Registry.consumedText t)), held, waiting⟩
  | (.unregistered, r) => .running r ⟨next.after (.panicked (Registry.unregisteredText t)), held, waiting⟩

def stepAction (r : Registry Callback) (held : List Token) (waiting : List Frame) : Action → Progress
  | .done result => .running r ⟨.leave (.returned result), held, waiting⟩
  | .panic text => .running r ⟨.leave (.panicked text), held, waiting⟩
  | .outstanding next => .running r ⟨.act (next r.outstanding), held, waiting⟩
  | .register run next guards =>
    let callback : Callback := { run, guards }
    let (t, r) := r.draw
    .running r ⟨.enroll t (callback.owning held) next, callback.leaving held, waiting⟩
  | .drop t next =>
    if t ∈ held then .running (r.erase t) ⟨.shedding next (r.guards t), held.erase t, waiting⟩
    else .running r ⟨.act next, held, waiting⟩
  | .keep t next => .running r ⟨.act next, held.erase t, waiting⟩
  | .unregister t next => .running (r.erase t) ⟨.shedding (next (r.contains t)) (r.guards t), held, waiting⟩
  | .invoke t size next => stepInvoke r held waiting t size (.passing next)
  | .attempt t size next => stepInvoke r held waiting t size (.catching next)

/-- A step of an activity that has dropped its guards: the one that waited for it goes on, or panics too. -/
def stepReturn (r : Registry Callback) (exit : Exit) : List Frame → Progress
  | [] => .finished exit
  | frame :: waiting => .running r ⟨frame.next.after exit, frame.held, waiting⟩

def step (r : Registry Callback) (f : Fiber) : Progress :=
  match f.focus with
  | .act a => stepAction r f.held f.waiting a
  | .enroll t callback next =>
    .running (r.insert t callback) ⟨.shedding (next t) (r.guards t), t :: f.held, f.waiting⟩
  | .begin callback size => .running r.count ⟨.act (callback size), f.held, f.waiting⟩
  | .shed t others next => .running (r.erase t) ⟨.shedding next (r.guards t ++ others), f.held, f.waiting⟩
  | .leave exit =>
    match f.held with
    | t :: held => .running (r.erase t) ⟨.leave exit, r.guards t ++ held, f.waiting⟩
    | [] => stepReturn r exit f.waiting

end Fiber

end PacketHost
