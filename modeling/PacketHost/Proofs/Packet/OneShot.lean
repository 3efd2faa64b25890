import PacketHost.Packet.Attempt
import PacketHost.Proofs.Registry.Invoking

/-!
# Builds without a registry

What an engine meets during a build depends on the registry only through one slot, that of the token of the
build, and this slot is empty once the callback has run. So a build can be played without a registry, on a `Desk`
that answers one request (`Desk.oneShot`). Whatever else a registry holds, the outcome is the same
(`Builder.perform_eq`).
-/

namespace PacketHost

/-- What an engine is told when the callback has run. -/
def Grant.reply : Grant → Reply
  | granted buffer => ⟨Status.okCode, some buffer.span⟩
  | refused _ => ⟨Status.outOfMemory.code, none⟩

theorem Grant.reply?_result (g : Grant) : (Exit.returned g.result).reply? = some g.reply := by
  cases g with
  | granted buffer => rfl
  | refused requested => rfl

def Host.page : Host where
  reserve size := if size ≤ 4096 then some 4096 else none
  reserve_fits := by
    intro size base h
    split at h
    · cases h
      exact ⟨by decide, by unfold Word.limit; omega⟩
    · cases h

/-! ## Invoking a callback that ends at once -/

/-- The callback does nothing but give out the grants, and owns no guards. -/
structure Callback.Gives (callback : Callback) (grant : Nat → Grant) : Prop where
  result : ∀ size, callback size = .done (grant size).result
  guards : callback.guards = []

theorem Limits.gives_allocator (l : Limits) (host : Host) : (l.allocator host).Gives (l.grant host) :=
  ⟨fun _ => rfl, rfl⟩

namespace Registry

variable {r : Registry Callback} {t : Token} {callback : Callback}

theorem allocate_eq (r : Registry Callback) (t : Token) (size : Nat) : r.allocate (some t) size true =
    (r.invoke t size).1.reply?.map fun reply => (reply, (r.invoke t size).2) := rfl

theorem allocate_of_some {grant : Nat → Grant} (h : r.slot? t = some (some callback)) (hc : callback.Gives grant)
    (size : Nat) : r.allocate (some t) size true = some ((grant size).reply, (r.disarm t).count) := by
  rw [allocate_eq, invoke_of_some h (hc.result size), (grant size).reply?_result, hc.guards, shed_nil]
  rfl

theorem allocate_of_taken (size : Nat) (h : r.slot? t = some none) : r.allocate (some t) size true = none := by
  rw [allocate_eq, invoke_of_taken size h]
  rfl

end Registry

/-! ## One answer -/

namespace Desk

/-- What the slot of a build holds: the callback, until it has run. -/
def slot (d : Desk) (callback : Callback) : Option Callback := if d.grant?.isSome then none else some callback

/-- What the slot of a build holds owns no guards, whether the callback has run or not. -/
theorem guards_of_slot {r : Registry Callback} {t : Token} {callback : Callback} {grant : Nat → Grant} {d : Desk}
    (h : r.slot? t = some (d.slot callback)) (hc : callback.Gives grant) : r.guards t = [] := by
  unfold slot at h
  cases hgrant : d.grant?.isSome with
  | true =>
      rw [hgrant] at h
      exact Registry.guards_of_taken h
  | false =>
      rw [hgrant] at h
      exact (Registry.guards_of_some h).trans hc.guards

@[simp] theorem isSome_store (d : Desk) (addr : Nat) (bytes : Bytes) :
    (d.store addr bytes).grant?.isSome = d.grant?.isSome := by
  obtain ⟨grant?, requests⟩ := d
  cases grant? with
  | none => rfl
  | some grant =>
      cases grant with
      | granted buffer => rfl
      | refused requested => rfl

@[simp] theorem slot_store (d : Desk) (addr : Nat) (bytes : Bytes) (callback : Callback) :
    (d.store addr bytes).slot callback = d.slot callback := by
  unfold slot
  rw [isSome_store]

/-- Answers a request as a callback does that runs once: a second request that reaches it is not answered. -/
def requestOnce (grant : Nat → Grant) (d : Desk) (size : Nat) (context out : Bool) : Option (Reply × Desk) :=
  if context && out then
    match d.grant? with
    | none => some ((grant size).reply, d.noteGrant (grant size) size (grant size).reply)
    | some _ => none
  else some (.missing, d.noteMissing size)

/-- What an engine meets whose callback runs once. -/
def oneShot (grant : Nat → Grant) (memory : Memory) : Surroundings Desk where
  request := requestOnce grant
  load d := d.load memory
  store := store

theorem requestOnce_of_none {grant : Nat → Grant} {d : Desk} (size : Nat) (h : d.grant? = none) :
    requestOnce grant d size true true =
      some ((grant size).reply, d.noteGrant (grant size) size (grant size).reply) := by
  simp only [requestOnce, h]
  rfl

theorem requestOnce_of_some {grant : Nat → Grant} {d : Desk} {g : Grant} (size : Nat) (h : d.grant? = some g) :
    requestOnce grant d size true true = none := by
  simp only [requestOnce, h]
  rfl

theorem run_request (grant : Nat → Grant) (memory : Memory) (d : Desk) (size : Nat) (context out : Bool)
    (next : Reply → Packing) :
    (Packing.request size context out next).run (oneShot grant memory) d =
      match requestOnce grant d size context out with
      | some (reply, d) => (next reply).run (oneShot grant memory) d
      | none => (.aborted, d) := by
  have hr : (oneShot grant memory).request = requestOnce grant := rfl
  rw [Packing.run, hr]
  cases requestOnce grant d size context out with
  | none => rfl
  | some answer => rfl

theorem isSome_run (grant : Nat → Grant) (memory : Memory) (course : Packing) {d : Desk}
    (h : d.grant?.isSome = true) : (course.run (oneShot grant memory) d).2.grant?.isSome = true := by
  induction course generalizing d with
  | finish status out => exact h
  | panic text => exact h
  | request size context out next ih =>
      rw [run_request]
      cases hr : requestOnce grant d size context out with
      | none => exact h
      | some answer =>
          obtain ⟨reply, d'⟩ := answer
          apply ih
          unfold requestOnce at hr
          by_cases hfull : (context && out) = true
          · obtain ⟨g, hg⟩ := Option.isSome_iff_exists.mp h
            rw [if_pos hfull, hg] at hr
            cases hr
          · rw [if_neg hfull] at hr
            cases hr
            exact h
  | load addr length next ih => exact ih _ h
  | store addr bytes next ih => exact ih ((d.isSome_store addr bytes).trans h)

section

variable {grant : Nat → Grant} {callback : Callback} (hc : callback.Gives grant)
  {token : Token} {r : Registry Callback} {d : Desk} (h : r.slot? token = some (d.slot callback))

include hc h

omit hc h in
theorem request_full (size : Nat) : request grant token (r, d) size true true =
    (r.allocate (some token) size true).map fun a => (a.1, a.2, d.noteGrant (grant size) size a.1) := by
  unfold request
  cases h : r.allocate (some token) size true with
  | none => simp only [if_true, h, Option.map_none]
  | some a => simp only [if_true, h, Bool.and_self, Option.map_some]

/-- A request is answered alike with and without the registry, and the slot still shows whether the callback has
run. -/
theorem request_eq (size : Nat) (context out : Bool) :
    (requestOnce grant d size context out = none ∧ request grant token (r, d) size context out = none) ∨
    ∃ reply r' d', requestOnce grant d size context out = some (reply, d') ∧
      request grant token (r, d) size context out = some (reply, r', d') ∧
      r'.slot? token = some (d'.slot callback) := by
  cases context with
  | false => exact .inr ⟨_, r, _, rfl, rfl, h⟩
  | true =>
      cases out with
      | false => exact .inr ⟨_, r, _, rfl, rfl, h⟩
      | true =>
          rw [request_full]
          cases hg : d.grant? with
          | some g =>
              have htaken : r.slot? token = some none := by
                rw [h, slot, hg]
                rfl
              left
              rw [Registry.allocate_of_taken size htaken]
              exact ⟨requestOnce_of_some size hg, rfl⟩
          | none =>
              have harmed : r.slot? token = some (some callback) := by
                rw [h, slot, hg]
                rfl
              right
              rw [Registry.allocate_of_some harmed hc size]
              refine ⟨_, _, _, requestOnce_of_none size hg, rfl, ?_⟩
              rw [Registry.slot?_count, Registry.slot?_disarm, if_pos rfl, harmed]
              rfl

/-- A course ends alike with and without the registry. The induction is on the course. -/
theorem run_surroundings (memory : Memory) (course : Packing) :
    (course.run (surroundings grant token memory) (r, d)).1 = (course.run (oneShot grant memory) d).1 ∧
      (course.run (surroundings grant token memory) (r, d)).2.2 = (course.run (oneShot grant memory) d).2 := by
  induction course generalizing r d with
  | finish status out => exact ⟨rfl, rfl⟩
  | panic text => exact ⟨rfl, rfl⟩
  | request size context out next ih =>
      have hs : (surroundings grant token memory).request = request grant token := rfl
      rw [run_request, Packing.run, hs]
      rcases request_eq hc h size context out with ⟨hnone, hnone'⟩ | ⟨reply, r', d', hsome, hsome', hslot⟩
      · rw [hnone, hnone']
        exact ⟨rfl, rfl⟩
      · rw [hsome, hsome']
        exact ih reply hslot
  | load addr length next ih => exact ih _ h
  | store addr bytes next ih => exact ih (by rw [slot_store]; exact h)

end

end Desk

/-! ## Builds -/

namespace Builder

variable {m : Type → Type} (b : Builder m) (host : Host)

/-- The end of a course without a registry. -/
def solo (course : Packing) : Ending × Desk :=
  course.run (Desk.oneShot (b.limits.grant host) host.memory) {}

theorem perform_eq (r : Registry Callback) (course : Packing) :
    (b.perform host r course).built = b.conclude (b.solo host course).1 (b.solo host course).2.grant? ∧
      (b.perform host r course).requests = (b.solo host course).2.requests := by
  have hslot : (r.register (b.limits.allocator host)).2.slot? (r.register (b.limits.allocator host)).1 =
      some (({} : Desk).slot (b.limits.allocator host)) := by
    change (r.draw.2.insert r.draw.1 _).slot? r.draw.1 = _
    rw [Registry.slot?_insert, if_pos rfl]
    rfl
  obtain ⟨hending, hdesk⟩ := Desk.run_surroundings (b.limits.gives_allocator host) hslot host.memory course
  unfold perform solo
  rw [← hending, ← hdesk]
  exact ⟨rfl, rfl⟩

end Builder

end PacketHost
