import PacketHost.HostError
import PacketHost.Registry.Basic
import PacketHost.Span

/-!
# What a callback does

A callback is given the size asked for and then acts: it may use the registry that it is registered in,
also to invoke other callbacks, before it ends with a span, an error or a panic. An activity that
registers a callback holds a guard for it, which removes the registration when it is dropped. The panic of
a callback ends the activity that invoked it, unless that activity catches it.

An activity may hand guards that it holds to a callback that it registers. The callback owns them from then on:
it holds them while it runs, and they are dropped with it if it is discarded before it has begun.

Two things are left out. An activity makes finitely many operations of its own, so a callback whose own code goes on
for ever is not described; what the callbacks that it invokes do is not bounded by this. And of what a callback owns
only guards are described: nothing else that goes with it uses the registry.
-/

namespace PacketHost

inductive Exit where
  | returned (result : Except HostError Span)
  | panicked (text : String)

/-- The course of an activity that uses the registry. -/
inductive Action where
  | done (result : Except HostError Span)
  | panic (text : String)
  | outstanding (next : Nat → Action)
  /-- Registers a callback and hands it those of the guards that the activity holds. -/
  | register (callback : Nat → Action) (next : Token → Action) (guards : List Token := [])
  /-- Drops a guard that the activity holds. -/
  | drop (token : Token) (next : Action)
  /-- Gives a guard away, so that it is not dropped when the activity ends. -/
  | keep (token : Token) (next : Action)
  /-- Removes a registration, whoever holds its guard. -/
  | unregister (token : Token) (next : Bool → Action)
  /-- Invokes the callback of a token; its panic ends the activity. -/
  | invoke (token : Token) (size : Nat) (next : Except HostError Span → Action)
  /-- Invokes the callback of a token, and goes on also after its panic. -/
  | attempt (token : Token) (size : Nat) (next : Exit → Action)

/-- What is registered under a token: what it does when it is invoked, and the guards that it owns. -/
structure Callback where
  run : Nat → Action
  guards : List Token := []

instance : CoeFun Callback fun _ => Nat → Action := ⟨Callback.run⟩

instance : Coe (Nat → Action) Callback := ⟨fun run => { run }⟩

/-- The callback with those of its guards that are at hand; a guard has one owner. -/
def Callback.owning (callback : Callback) (held : List Token) : Callback :=
  { callback with guards := held.filter (· ∈ callback.guards) }

/-- The guards at hand that the callback does not take over. -/
def Callback.leaving (callback : Callback) (held : List Token) : List Token :=
  held.filter (· ∉ callback.guards)

end PacketHost
