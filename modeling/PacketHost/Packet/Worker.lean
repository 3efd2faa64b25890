import PacketHost.Interleaving
import PacketHost.Packet.Attempt

/-!
# Building side by side

A `Worker` makes one build after another, step by step, on a registry that it shares with others. Each step
touches the registry at most once, so that a `Group` of workers under a schedule shows every order
in which concurrent builds can meet there.
-/

namespace PacketHost

structure Job where
  builder : Builder Id
  host : Host
  headers : List Header
  payload : Bytes

namespace Job

def course (j : Job) : Packing :=
  Id.run (j.builder.engine.build (Builder.lend j.headers) (Source.ofBytes j.payload))

def grant (j : Job) (size : Nat) : Grant := j.builder.limits.grant j.host size

def alone (j : Job) (r : Registry Callback) : Attempt Id :=
  Id.run (j.builder.build j.host r j.headers j.payload)

end Job

/-- How far a build has come. -/
inductive Stage where
  /-- A token is drawn, and the callback is not yet inserted. -/
  | drawn (token : Token)
  | engine (token : Token) (course : Packing) (desk : Desk)
  | callback (token : Token) (fiber : Fiber) (size : Nat) (next : Reply → Packing) (desk : Desk)
  /-- The engine has ended, and the slot is not yet removed. -/
  | closing (token : Token) (ending : Ending) (desk : Desk)
  | aborted

/-- The builds to be made, how far the first of them has come, and the ends of those made, the last first. -/
structure Worker where
  jobs : List Job
  stage : Option Stage := none
  built : List (Built Id) := []

namespace Worker

def stepEngine (job : Job) (token : Token) (desk : Desk) : Packing → Stage
  | .finish status out => .closing token (.returned status out) desk
  | .panic text => .closing token (.panicked text) desk
  | .request size true true next =>
    .callback token (.start (.invoke token size .done)) size next desk
  | .request size _ _ next => .engine token (next .missing) (desk.noteMissing size)
  | .load addr length next => .engine token (next (desk.load job.host.memory addr length)) desk
  | .store addr bytes next => .engine token next (desk.store addr bytes)

/-- A step of the callback; a panic ends the process. -/
def stepCallback (job : Job) (token : Token) (size : Nat) (next : Reply → Packing) (desk : Desk)
    (r : Registry Callback) : Progress → Registry Callback × Stage
  | .running r fiber => (r, .callback token fiber size next desk)
  | .finished exit =>
    match exit.reply? with
    | some reply => (r, .engine token (next reply) (desk.noteGrant (job.grant size) size reply))
    | none => (r, .aborted)

/-- A step of a worker, unless all its builds are made or the process has ended. -/
def step (r : Registry Callback) (w : Worker) : Option (Registry Callback × Worker) :=
  match w.jobs, w.stage with
  | [], _ => none
  | job :: jobs, none =>
    match job.builder.limits.check job.headers job.payload with
    | .error e => some (r, ⟨jobs, none, .finished (.error e) :: w.built⟩)
    | .ok () =>
      let (token, r) := r.draw
      some (r, { w with stage := some (.drawn token) })
  | job :: _, some (.drawn token) =>
    some (r.insert token (job.builder.limits.allocator job.host),
      { w with stage := some (.engine token job.course {}) })
  | job :: _, some (.engine token course desk) =>
    some (r, { w with stage := some (stepEngine job token desk course) })
  | job :: _, some (.callback token fiber size next desk) =>
    let (r, stage) := stepCallback job token size next desk r (fiber.step r)
    some (r, { w with stage := some stage })
  | job :: jobs, some (.closing token ending desk) =>
    some ((r.unregister token).2, ⟨jobs, none, job.builder.conclude ending desk.grant? :: w.built⟩)
  | _ :: _, some .aborted => none

end Worker

end PacketHost
