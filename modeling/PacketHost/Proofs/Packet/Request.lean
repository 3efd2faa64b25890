import PacketHost.Proofs.Packet.OneShot

/-!
# Answering a request for memory

A request is answered as the invocation of the callback ends. Its state is that of the invocation, and its status says
whether there is a span: `Registry.allocate` tells an engine of a span that the callback returned, of memory that is
lacking, or of any other error, and sets the place for the answer in the first case only. A panic, wherever in the
invocation it is raised, leaves the request without an answer, and the process ends.
-/

namespace PacketHost

/-! ## Replies -/

theorem HostError.refusal_of_ne {e : HostError} (h : ∀ requested, e ≠ .allocationFailure requested) :
    e.refusal = .invalidArgument := by
  cases e with
  | allocationFailure requested => exact absurd rfl (h requested)
  | _ => rfl

theorem Exit.reply?_eq_none_iff {exit : Exit} : exit.reply? = none ↔ ∃ text, exit = .panicked text := by
  rcases exit with (e | span) | text
  · exact ⟨nofun, nofun⟩
  · exact ⟨nofun, nofun⟩
  · exact ⟨fun _ => ⟨text, rfl⟩, fun _ => rfl⟩

/-- The place for the answer is set exactly if the status says so. -/
theorem Exit.isSome_written {exit : Exit} {reply : Reply} (h : exit.reply? = some reply) :
    reply.written.isSome = true ↔ reply.status = Status.okCode := by
  rcases exit with (e | span) | text
  · cases h
    exact ⟨nofun, fun hok => absurd hok e.refusal.code_ne_ok⟩
  · cases h
    exact ⟨fun _ => rfl, fun _ => rfl⟩
  · cases h

namespace Registry

variable {r r' : Registry Callback} {t : Token} {size : Nat} {reply : Reply}

theorem allocate_of_missing {context : Option Token} {hasOut : Bool} (h : context = none ∨ hasOut = false)
    (r : Registry Callback) (size : Nat) : r.allocate context size hasOut = some (.missing, r) := by
  rcases h with rfl | rfl
  · rfl
  · cases context <;> rfl

theorem allocate_eq_none_iff : r.allocate (some t) size true = none ↔ ∃ text, (r.invoke t size).1 = .panicked text := by
  rw [allocate_eq, Option.map_eq_none_iff, Exit.reply?_eq_none_iff]

theorem isSome_written {context : Option Token} {hasOut : Bool}
    (h : r.allocate context size hasOut = some (reply, r')) :
    reply.written.isSome = true ↔ reply.status = Status.okCode := by
  by_cases hmissing : context = none ∨ hasOut = false
  · rw [allocate_of_missing hmissing] at h
    cases h
    exact ⟨nofun, nofun⟩
  · obtain ⟨t, rfl⟩ := Option.ne_none_iff_exists'.mp fun hnone => hmissing (.inl hnone)
    obtain rfl : hasOut = true := by simpa using hmissing
    rw [allocate_eq] at h
    obtain ⟨reply', hreply, he⟩ := Option.map_eq_some_iff.mp h
    cases he
    exact Exit.isSome_written hreply

end Registry

namespace Desk

variable {grant : Nat → Grant} {t : Token} {r r' : Registry Callback} {d : Desk} {size : Nat} {reply : Reply}

theorem run_unanswered (h : r.allocate (some t) size true = none) (memory : Memory) (next : Reply → Packing) :
    (Packing.request size true true next).run (surroundings grant t memory) (r, d) = (.aborted, r, d) := by
  have hnone : (surroundings grant t memory).request (r, d) size true true = none := by
    change request grant t (r, d) size true true = none
    rw [request_full, h, Option.map_none]
  rw [Packing.run, hnone]

theorem run_answered (h : r.allocate (some t) size true = some (reply, r')) (memory : Memory)
    (next : Reply → Packing) : (Packing.request size true true next).run (surroundings grant t memory) (r, d) =
      (next reply).run (surroundings grant t memory) (r', d.noteGrant (grant size) size reply) := by
  have hsome : (surroundings grant t memory).request (r, d) size true true =
      some (reply, r', d.noteGrant (grant size) size reply) := by
    change request grant t (r, d) size true true = _
    rw [request_full, h, Option.map_some]
  rw [Packing.run, hsome]

end Desk

namespace Registry

/-- What a request is answered on every registry, for every token and size, whatever the callback does. -/
theorem allocate_refines_invoke (r : Registry Callback) (t : Token) (size : Nat) :
    let ended := r.invoke t size
    (∀ context hasOut, context = none ∨ hasOut = false →
      r.allocate context size hasOut = some (⟨Status.badAddress.code, none⟩, r)) ∧
    (∀ span, ended.1 = .returned (.ok span) →
      r.allocate (some t) size true = some (⟨Status.okCode, some span⟩, ended.2)) ∧
    (∀ requested, ended.1 = .returned (.error (.allocationFailure requested)) →
      r.allocate (some t) size true = some (⟨Status.outOfMemory.code, none⟩, ended.2)) ∧
    (∀ e, ended.1 = .returned (.error e) → (∀ requested, e ≠ .allocationFailure requested) →
      r.allocate (some t) size true = some (⟨Status.invalidArgument.code, none⟩, ended.2)) ∧
    (∀ context hasOut reply r', r.allocate context size hasOut = some (reply, r') →
      (reply.written.isSome = true ↔ reply.status = Status.okCode)) ∧
    (r.allocate (some t) size true = none ↔ ∃ text, ended.1 = .panicked text) ∧
    (∀ text, ended.1 = .panicked text ↔ ∃ later r' f,
      Fiber.Course r (.start (.invoke t size .done)) later r' f ∧ f.Raises r' text ∧ f.Uncaught) ∧
    (r.slot? t = none → ended = (.panicked (unregisteredText t), r)) ∧
    (r.slot? t = some none → ended = (.panicked (consumedText t), r)) ∧
    (∀ callback, r.slot? t = some (some callback) → (r.disarm t).slot? t = some none ∧
      ∀ n, r.invoke t n = (r.disarm t).count.perform (callback n) callback.guards) ∧
    ∀ grant memory d next,
      ((∃ text, ended.1 = .panicked text) →
        (Packing.request size true true next).run (Desk.surroundings grant t memory) (r, d) = (.aborted, r, d)) ∧
      ∀ reply, ended.1.reply? = some reply →
        (Packing.request size true true next).run (Desk.surroundings grant t memory) (r, d) =
          (next reply).run (Desk.surroundings grant t memory) (ended.2, d.noteGrant (grant size) size reply) := by
  intro ended
  have hanswer : ∀ reply, ended.1.reply? = some reply → r.allocate (some t) size true = some (reply, ended.2) := by
    intro reply hreply
    rw [allocate_eq, hreply, Option.map_some]
  refine ⟨fun context hasOut hmissing => allocate_of_missing hmissing r size, fun span hend => ?_,
    fun requested hend => ?_, fun e hend hother => ?_, fun context hasOut reply r' => isSome_written,
    allocate_eq_none_iff, fun text => Fiber.run_panics_iff nofun, invoke_of_none size, invoke_of_taken size,
    fun callback harmed => ⟨?_, invoke_eq_perform harmed⟩, fun grant memory d next => ⟨fun hpanics => ?_,
      fun reply hreply => Desk.run_answered (hanswer reply hreply) memory next⟩⟩
  · exact hanswer _ (by rw [hend]; rfl)
  · exact hanswer _ (by rw [hend]; rfl)
  · refine hanswer _ ?_
    rw [hend, Exit.reply?, HostError.refusal_of_ne hother]
  · rw [slot?_disarm, if_pos rfl, harmed]
    rfl
  · exact Desk.run_unanswered (allocate_eq_none_iff.mpr hpanics) memory next

/-- A callback that forwards the request to one that panics: the request is not answered, at first or when the token has
been used, and a request without a place for the answer leaves both callbacks to be taken. -/
theorem allocate_refines_invoke_forwarded :
    let broken : Callback := { run := fun _ => .panic "no memory" }
    let forwarding : Callback := { run := fun size => .invoke ⟨1⟩ size .done }
    let r := ((({} : Registry Callback).register broken).2.register forwarding).2
    r.allocate (some ⟨2⟩) 9 true = none ∧ r.allocate (some ⟨3⟩) 9 true = none ∧
      (r.disarm ⟨2⟩).allocate (some ⟨2⟩) 9 true = none ∧
      r.allocate (some ⟨2⟩) 9 false = some (⟨Status.badAddress.code, none⟩, r) := by
  intro broken forwarding r
  obtain ⟨hmissing, -, -, -, -, hnone, hpanics, -⟩ := allocate_refines_invoke r ⟨2⟩ 9
  obtain ⟨-, -, -, -, -, hunknown, -, habsent, -⟩ := allocate_refines_invoke r ⟨3⟩ 9
  obtain ⟨-, -, -, -, -, hagain, -, -, htaken, -⟩ := allocate_refines_invoke (r.disarm ⟨2⟩) ⟨2⟩ 9
  have hforwarded : Fiber.Course r (.start (.invoke ⟨2⟩ 9 .done)) _ _
      ⟨.act (.invoke ⟨1⟩ 9 .done), [], [⟨[], .passing .done⟩]⟩ := (Fiber.Course.here.step rfl).step rfl
  have hbegun : Fiber.Course _ _ _ _ ⟨.act (.panic "no memory"), [], [⟨[], .passing .done⟩, ⟨[], .passing .done⟩]⟩ :=
    (hforwarded.step rfl).step rfl
  have huncaught : Fiber.Uncaught
      ⟨.act (.panic "no memory"), [], [⟨[], .passing .done⟩, ⟨[], .passing .done⟩]⟩ := by
    simp [Fiber.Uncaught, Resumption.Passes]
  have hpanic := (hpanics "no memory").mpr ⟨_, _, _, hbegun, .inl rfl, huncaught⟩
  exact ⟨hnone.mpr ⟨_, hpanic⟩, hunknown.mpr ⟨_, congrArg Prod.fst (habsent rfl)⟩,
    hagain.mpr ⟨_, congrArg Prod.fst (htaken rfl)⟩, hmissing _ _ (.inr rfl)⟩

example : (Exit.returned (.error (.engineStatus 12 .outOfMemory))).reply? = some ⟨22, none⟩ := rfl

end Registry

end PacketHost
