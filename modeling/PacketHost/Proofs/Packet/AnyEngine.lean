import PacketHost.Proofs.Packet.Admission
import PacketHost.Proofs.Packet.OneShot
import PacketHost.Proofs.Registry.History
import PacketHost.Proofs.Span

/-!
# Builds with any engine

Nothing is known of an engine but that at most one of its requests reaches the allocator. Then what a build comes to
depends on four things only: the size asked for, whether there is room for it, the status, and the span that the
engine reports. The engine reads and writes as it likes; of a grant only the bytes change, not where the buffer lies
and how long it is (`Grant.place`).
-/

namespace PacketHost

/-! ## What an engine asks for -/

/-- The sizes of the requests that reach the allocator, which are those with a context and a place for the answer. -/
def Packing.asked {σ : Type} (around : Surroundings σ) : Packing → σ → List Nat
  | .finish _ _, _ => []
  | .panic _, _ => []
  | .request size context out next, s =>
    (if context && out then [size] else []) ++
      match around.request s size context out with
      | some (reply, s) => (next reply).asked around s
      | none => []
  | .load addr length next, s => (next (around.load s addr length)).asked around s
  | .store addr bytes next, s => next.asked around (around.store s addr bytes)

/-- There is room for a buffer of this size at this address. -/
def Limits.Room (l : Limits) (host : Host) (size base : Nat) : Prop :=
  size ≤ l.maxPacketSize ∧ host.reserve size = some base

/-- The status of an engine, if the error came from it. -/
def HostError.statusCode? : HostError → Option Int
  | .engineStatus code _ => some code
  | .unknownStatus code => some code
  | _ => none

theorem expectOk_of_ne {status : Int} (h : status ≠ Status.okCode) :
    ∃ e, expectOk status = .error e ∧ e.statusCode? = some status := by
  unfold expectOk
  rw [if_neg h]
  cases Status.ofCode? status with
  | none => exact ⟨_, rfl, rfl⟩
  | some kind => exact ⟨_, rfl, rfl⟩

/-! ## Where a grant lies -/

namespace Grant

/-- Where the buffer of a grant lies and how long it is, or the size that was refused. -/
def place : Grant → Except Nat (Nat × Nat)
  | granted buffer => .ok (buffer.base, buffer.length)
  | refused requested => .error requested

end Grant

namespace Limits

variable {l : Limits} {host : Host} {n base : Nat}

theorem grant_of_room (h : l.Room host n base) : l.grant host n = .granted ⟨base, Array.replicate n 0⟩ := by
  unfold grant
  rw [if_neg (Nat.not_lt.mpr h.1), h.2]

theorem grant_of_no_room (h : ∀ base, ¬l.Room host n base) : l.grant host n = .refused n := by
  unfold grant
  by_cases hsize : l.maxPacketSize < n
  · rw [if_pos hsize]
  · rw [if_neg hsize]
    cases hreserve : host.reserve n with
    | none => rfl
    | some base => exact absurd ⟨Nat.not_lt.mp hsize, hreserve⟩ (h base)

theorem place_grant_of_room (h : l.Room host n base) : (l.grant host n).place = .ok (base, n) := by
  rw [grant_of_room h]
  simp only [Grant.place, Slice.length, Array.size_replicate]

theorem place_grant_of_no_room (h : ∀ base, ¬l.Room host n base) : (l.grant host n).place = .error n := by
  rw [grant_of_no_room h]
  rfl

theorem room_of_place {size : Nat} (h : (l.grant host n).place = .ok (base, size)) :
    n = size ∧ l.Room host n base := by
  by_cases hroom : ∃ base, l.Room host n base
  · obtain ⟨base', hroom⟩ := hroom
    rw [place_grant_of_room hroom] at h
    cases h
    exact ⟨rfl, hroom⟩
  · rw [place_grant_of_no_room fun base hbase => hroom ⟨base, hbase⟩] at h
    cases h

end Limits

namespace Desk

def place? (d : Desk) : Option (Except Nat (Nat × Nat)) := d.grant?.map Grant.place

@[simp] theorem place?_store (d : Desk) (addr : Nat) (bytes : Bytes) : (d.store addr bytes).place? = d.place? := by
  obtain ⟨grant?, requests⟩ := d
  cases grant? with
  | none => rfl
  | some grant =>
      cases grant with
      | refused requested => rfl
      | granted buffer =>
          change some ((Grant.granted (buffer.store addr bytes)).place) = some ((Grant.granted buffer).place)
          unfold Slice.store
          split
          · simp only [Grant.place, Slice.length, Bytes.size_splice]
          · rfl

/-! ## Playing a course -/

section

variable {grant : Nat → Grant} {token : Token} (memory : Memory) {r : Registry Callback} {d : Desk}

theorem request_missing (size : Nat) {context out : Bool} (h : (context && out) = false) :
    (surroundings grant token memory).request (r, d) size context out = some (.missing, r, d.noteMissing size) := by
  cases context with
  | false => rfl
  | true =>
      obtain rfl : out = false := h
      rfl

theorem request_armed {callback : Callback} (hslot : r.slot? token = some (some callback))
    (hc : callback.Gives grant) (size : Nat) :
    (surroundings grant token memory).request (r, d) size true true =
      some ((grant size).reply, (r.disarm token).count, d.noteGrant (grant size) size (grant size).reply) := by
  change request grant token (r, d) size true true = _
  rw [request_full, Registry.allocate_of_some hslot hc size]
  rfl

/-- While nothing reaches the allocator, the registry and the place of the grant stay as they are. -/
theorem run_of_asked_nil {course : Packing} (h : course.asked (surroundings grant token memory) (r, d) = []) :
    (course.run (surroundings grant token memory) (r, d)).1 ≠ .aborted ∧
      (course.run (surroundings grant token memory) (r, d)).2.1 = r ∧
      (course.run (surroundings grant token memory) (r, d)).2.2.place? = d.place? := by
  induction course generalizing d with
  | finish status out => exact ⟨nofun, rfl, rfl⟩
  | panic text => exact ⟨nofun, rfl, rfl⟩
  | request size context out next ih =>
      rw [Packing.asked] at h
      rw [Packing.run]
      cases hfull : context && out with
      | true =>
          rw [hfull] at h
          exact absurd h (List.cons_ne_nil _ _)
      | false =>
          rw [request_missing memory size hfull, hfull] at h
          rw [request_missing memory size hfull]
          exact ih _ h
  | load addr length next ih => exact ih _ h
  | store addr bytes next ih =>
      rw [← d.place?_store addr bytes]
      exact ih h

/-- One request that reaches the allocator is answered, and its grant stays where it is. -/
theorem run_of_asked_singleton {course : Packing} {callback : Callback} {n : Nat}
    (hslot : r.slot? token = some (some callback)) (hc : callback.Gives grant)
    (h : course.asked (surroundings grant token memory) (r, d) = [n]) :
    (course.run (surroundings grant token memory) (r, d)).1 ≠ .aborted ∧
      (course.run (surroundings grant token memory) (r, d)).2.1 = (r.disarm token).count ∧
      (course.run (surroundings grant token memory) (r, d)).2.2.place? = some (grant n).place := by
  induction course generalizing d with
  | finish status out => cases h
  | panic text => cases h
  | request size context out next ih =>
      rw [Packing.asked] at h
      rw [Packing.run]
      cases hfull : context && out with
      | true =>
          obtain ⟨rfl, rfl⟩ := (Bool.and_eq_true _ _).mp hfull
          have hanswer := request_armed memory (d := d) hslot hc size
          rw [hanswer] at h
          obtain ⟨rfl, hnext⟩ := List.cons.inj h
          rw [hanswer]
          exact run_of_asked_nil memory hnext
      | false =>
          rw [request_missing memory size hfull, hfull] at h
          rw [request_missing memory size hfull]
          exact ih _ h
  | load addr length next ih => exact ih _ h
  | store addr bytes next ih => exact ih h

end

end Desk

/-! ## Settling -/

namespace Builder

variable {status : Int} {out : Span} {grant? : Option Grant} {n base : Nat}

theorem settle_of_refused (hstatus : status ≠ Status.okCode) (h : grant?.map Grant.place = some (.error n)) :
    settle status out grant? = .error (.allocationFailure n) := by
  obtain ⟨e, he, -⟩ := expectOk_of_ne hstatus
  obtain ⟨grant, rfl, hgrant⟩ := Option.map_eq_some_iff.mp h
  cases grant with
  | granted buffer => cases hgrant
  | refused requested =>
      cases hgrant
      unfold settle
      rw [he]

theorem settle_of_failed {e : HostError} (he : expectOk status = .error e)
    (h : ∀ n, grant?.map Grant.place ≠ some (.error n)) : settle status out grant? = .error e := by
  unfold settle
  rw [he]
  cases grant? with
  | none => rfl
  | some grant =>
      cases grant with
      | granted buffer => rfl
      | refused requested => exact absurd rfl (h requested)

theorem settle_of_view (hfit : base + n < Word.limit) (h : grant?.map Grant.place = some (.ok (base, n)))
    (hout : out.ViewOf base n) : ∃ packet : Packet, settle Status.okCode out grant? = .ok packet ∧
      packet.buffer.base = base ∧ packet.buffer.length = n ∧
      packet.extent = ⟨out.addr - base, out.addr - base + out.len⟩ := by
  obtain ⟨grant, rfl, hgrant⟩ := Option.map_eq_some_iff.mp h
  cases grant with
  | refused requested => cases hgrant
  | granted buffer =>
      cases hgrant
      have hview : (out.isEmpty || !out.isValid || !out.liesIn buffer) = false := (Span.viewOf_iff hfit).mpr hout
      exact ⟨_, if_neg (by rw [hview]; exact Bool.false_ne_true), rfl, rfl, rfl⟩

theorem settle_of_no_view (hfit : ∀ base n, grant?.map Grant.place = some (.ok (base, n)) → base + n < Word.limit)
    (h : ∀ base n, grant?.map Grant.place = some (.ok (base, n)) → ¬out.ViewOf base n) :
    ∃ text, settle Status.okCode out grant? = .error (.engineContract text) := by
  cases grant? with
  | none => exact ⟨_, rfl⟩
  | some grant =>
      cases grant with
      | refused requested => exact ⟨_, rfl⟩
      | granted buffer =>
          have hview : (out.isEmpty || !out.isValid || !out.liesIn buffer) = true := by
            rw [← Bool.not_eq_false, Span.viewOf_iff (hfit _ _ rfl)]
            exact h _ _ rfl
          exact ⟨_, if_pos hview⟩

end Builder

/-! ## A build -/

namespace Registry

variable {r : Registry Callback} {n : Nat}

/-- The next token has no slot, unless the numbers have come around. -/
theorem Reachable.slot?_next (h : Reachable n r) (hroom : n + 1 < Word.limit) : r.slot? ⟨r.next⟩ = none := by
  have hn : n < Word.limit := Nat.lt_of_succ_lt hroom
  have hdrawn := h.drawn_eq hn
  apply (h.sound hn).slot?_of_lt
  change r.drawn < r.next
  rw [(h.sound hn).next_eq (by rw [hdrawn]; exact hroom)]
  exact Nat.lt_succ_self _

/-- A counter that counts one request at most does not come around below the last word. -/
theorem count_asked {α : Type} {asked : List α} (h : asked.length ≤ 1) {count : Nat} (hcount : count + 1 < Word.limit) :
    (if asked = [] then count else Word.wrap (count + 1)) = count + asked.length := by
  cases asked with
  | nil => rfl
  | cons size rest =>
      obtain rfl : rest = [] := List.length_eq_zero_iff.mp (by simpa using h)
      rw [if_neg (List.cons_ne_nil _ _)]
      exact Nat.mod_eq_of_lt hcount

end Registry

namespace Builder

variable {m : Type → Type} (b : Builder m) (host : Host) (r : Registry Callback) (course : Packing)

/-- What the engine meets in a build that starts with this registry. -/
def surroundings : Surroundings (Registry Callback × Desk) :=
  Desk.surroundings (b.limits.grant host) ⟨r.next⟩ host.memory

/-- The registry with the callback of a build, and an empty desk. -/
def opening : Registry Callback × Desk := ((r.register (b.limits.allocator host)).2, {})

/-- How the engine ends in a build. -/
def ending : Ending := (course.run (b.surroundings host r) (b.opening host r)).1

/-- The sizes of the requests that reach the allocator in a build. -/
def asked : List Nat := course.asked (b.surroundings host r) (b.opening host r)

theorem slot?_opening : (b.opening host r).1.slot? ⟨r.next⟩ = some (some (b.limits.allocator host)) := by
  change (r.draw.2.insert ⟨r.next⟩ _).slot? ⟨r.next⟩ = _
  rw [Registry.slot?_insert, if_pos rfl]

variable {b host r course}

/-- The grant of a build is the answer to the request that reached the allocator, and nothing else is left of the
request but a count. -/
theorem perform_cases (h : (b.asked host r course).length ≤ 1) :
    b.ending host r course ≠ .aborted ∧
      ∃ grant?, (b.perform host r course).built = b.conclude (b.ending host r course) grant? ∧
        ((b.asked host r course = [] ∧ grant?.map Grant.place = none ∧
            (b.perform host r course).registry = r.draw.2.erase ⟨r.next⟩) ∨
          ∃ n, b.asked host r course = [n] ∧ grant?.map Grant.place = some (b.limits.grant host n).place ∧
            (b.perform host r course).registry = (r.draw.2.erase ⟨r.next⟩).count) := by
  have hregistry : (b.perform host r course).registry =
      (course.run (b.surroundings host r) (b.opening host r)).2.1.shed [⟨r.next⟩] := rfl
  rw [hregistry]
  cases hasked : b.asked host r course with
  | nil =>
      obtain ⟨hend, hreg, hplace⟩ := Desk.run_of_asked_nil host.memory hasked
      refine ⟨hend, _, rfl, .inl ⟨rfl, hplace, ?_⟩⟩
      have hguards : (b.opening host r).1.guards ⟨r.next⟩ = [] := Registry.guards_of_some (b.slot?_opening host r)
      refine (congrArg (Registry.shed · _) hreg).trans ?_
      exact (Registry.shed_singleton hguards).trans (r.draw.2.erase_insert _ _)
  | cons n rest =>
      rw [hasked] at h
      obtain rfl : rest = [] := List.length_eq_zero_iff.mp (by simpa using h)
      obtain ⟨hend, hreg, hplace⟩ :=
        Desk.run_of_asked_singleton host.memory (b.slot?_opening host r) (b.limits.gives_allocator host) hasked
      refine ⟨hend, _, rfl, .inr ⟨n, rfl, hplace, ?_⟩⟩
      have htaken : ((b.opening host r).1.disarm ⟨r.next⟩).count.slot? ⟨r.next⟩ = some none := by
        change ((b.opening host r).1.disarm ⟨r.next⟩).slot? ⟨r.next⟩ = some none
        rw [Registry.slot?_disarm, if_pos rfl, b.slot?_opening]
        rfl
      refine (congrArg (Registry.shed · _) hreg).trans ?_
      refine (Registry.shed_singleton (Registry.guards_of_taken htaken)).trans ?_
      change ((b.opening host r).1.disarm ⟨r.next⟩ |>.erase ⟨r.next⟩).count = _
      rw [Registry.erase_disarm]
      exact congrArg Registry.count (r.draw.2.erase_insert _ _)

section

variable (h : (b.asked host r course).length ≤ 1)

include h

theorem built_of_panicked {text : String} (hend : b.ending host r course = .panicked text) :
    (b.perform host r course).built = .panicked text := by
  obtain ⟨-, grant?, hbuilt, -⟩ := perform_cases h
  rw [hbuilt, hend]
  rfl

variable {status : Int} {out : Option Span} (hend : b.ending host r course = .returned status out)

include hend

theorem built_of_refused (hstatus : status ≠ Status.okCode) {n : Nat} (hasked : b.asked host r course = [n])
    (hroom : ∀ base, ¬b.limits.Room host n base) :
    (b.perform host r course).built = .finished (.error (.allocationFailure n)) := by
  obtain ⟨-, grant?, hbuilt, hcases⟩ := perform_cases h
  rw [hasked] at hcases
  rcases hcases with ⟨hnil, -⟩ | ⟨n', hn, hplace, -⟩
  · cases hnil
  · cases hn
    rw [Limits.place_grant_of_no_room hroom] at hplace
    rw [hbuilt, hend, conclude, settle_of_refused hstatus hplace]
    rfl

theorem built_of_failed (hstatus : status ≠ Status.okCode)
    (hroom : ∀ n, b.asked host r course = [n] → ∃ base, b.limits.Room host n base) :
    ∃ e, expectOk status = .error e ∧ e.statusCode? = some status ∧
      (b.perform host r course).built = .finished (.error e) := by
  obtain ⟨-, grant?, hbuilt, hcases⟩ := perform_cases h
  have hplace : ∀ requested, grant?.map Grant.place ≠ some (.error requested) := by
    intro requested
    rcases hcases with ⟨-, hplace, -⟩ | ⟨n, hasked, hplace, -⟩
    · rw [hplace]
      exact nofun
    · obtain ⟨base, hbase⟩ := hroom n hasked
      rw [hplace, Limits.place_grant_of_room hbase]
      exact nofun
  obtain ⟨e, he, hcode⟩ := expectOk_of_ne hstatus
  refine ⟨e, he, hcode, ?_⟩
  rw [hbuilt, hend, conclude, settle_of_failed he hplace]
  rfl

theorem built_of_view (hstatus : status = Status.okCode) {n base : Nat} (hasked : b.asked host r course = [n])
    (hroom : b.limits.Room host n base) (hview : (out.getD Span.null).ViewOf base n) :
    ∃ packet, (b.perform host r course).built = .finished (.ok ⟨b.engine, .valid packet⟩) ∧
      packet.buffer.base = base ∧ packet.buffer.length = n ∧
      packet.extent =
        ⟨(out.getD Span.null).addr - base, (out.getD Span.null).addr - base + (out.getD Span.null).len⟩ := by
  obtain ⟨-, grant?, hbuilt, hcases⟩ := perform_cases h
  rw [hasked] at hcases
  rcases hcases with ⟨hnil, -⟩ | ⟨n', hn, hplace, -⟩
  · cases hnil
  · cases hn
    rw [Limits.place_grant_of_room hroom] at hplace
    obtain ⟨packet, hsettle, hpacket⟩ := settle_of_view (host.reserve_fits n base hroom.2).2 hplace hview
    refine ⟨packet, ?_, hpacket⟩
    rw [hbuilt, hend, conclude, hstatus, hsettle]
    rfl

theorem built_of_no_view (hstatus : status = Status.okCode)
    (hview : ∀ n base, b.asked host r course = [n] → b.limits.Room host n base →
      ¬(out.getD Span.null).ViewOf base n) :
    ∃ text, (b.perform host r course).built = .finished (.error (.engineContract text)) := by
  obtain ⟨-, grant?, hbuilt, hcases⟩ := perform_cases h
  have hplace : ∀ base n, grant?.map Grant.place = some (.ok (base, n)) →
      b.asked host r course = [n] ∧ b.limits.Room host n base := by
    intro base n hg
    rcases hcases with ⟨-, hplace, -⟩ | ⟨n', hasked, hplace, -⟩
    · rw [hplace] at hg
      cases hg
    · rw [hplace] at hg
      obtain ⟨rfl, hroom⟩ := Limits.room_of_place (Option.some.inj hg)
      exact ⟨hasked, hroom⟩
  obtain ⟨text, hsettle⟩ := settle_of_no_view
    (fun base n hg => (host.reserve_fits n base (hplace base n hg).2.2).2)
    (fun base n hg => hview n base (hplace base n hg).1 (hplace base n hg).2)
  refine ⟨text, ?_⟩
  rw [hbuilt, hend, conclude, hstatus, hsettle]
  rfl

end

/-- A handle owns a buffer of the size asked for, and its packet is a part of that buffer. -/
theorem handle_of_built (h : (b.asked host r course).length ≤ 1) {handle : Handle m}
    (hbuilt : (b.perform host r course).built = .finished (.ok handle)) :
    ∃ n packet, b.asked host r course = [n] ∧ handle = ⟨b.engine, .valid packet⟩ ∧ packet.buffer.length = n ∧
      packet.extent.start < packet.extent.stop ∧ packet.extent.stop ≤ n := by
  cases hend : b.ending host r course with
  | aborted => exact absurd hend (perform_cases h).1
  | panicked text =>
      rw [built_of_panicked h hend] at hbuilt
      cases hbuilt
  | returned status out =>
      by_cases hstatus : status = Status.okCode
      · by_cases hview : ∀ n base, b.asked host r course = [n] → b.limits.Room host n base →
          ¬(out.getD Span.null).ViewOf base n
        · obtain ⟨text, herror⟩ := built_of_no_view h hend hstatus hview
          rw [herror] at hbuilt
          cases hbuilt
        · push Not at hview
          obtain ⟨n, base, hasked, hroom, hview⟩ := hview
          obtain ⟨packet, hok, -, hlength, hextent⟩ := built_of_view h hend hstatus hasked hroom hview
          rw [hok] at hbuilt
          cases hbuilt
          obtain ⟨hlen, -, hbase, hstop⟩ := hview
          refine ⟨n, packet, hasked, rfl, hlength, ?_⟩
          rw [hextent]
          constructor
          · exact Nat.lt_add_of_pos_right hlen
          · change (out.getD Span.null).addr - base + (out.getD Span.null).len ≤ n
            omega
      · by_cases hroom : ∀ n, b.asked host r course = [n] → ∃ base, b.limits.Room host n base
        · obtain ⟨e, -, -, herror⟩ := built_of_failed h hend hstatus hroom
          rw [herror] at hbuilt
          cases hbuilt
        · push Not at hroom
          obtain ⟨n, hasked, hroom⟩ := hroom
          rw [built_of_refused h hend hstatus hasked hroom] at hbuilt
          cases hbuilt

/-- Of a build nothing is left in the registry but the counters. -/
theorem registry_perform (h : (b.asked host r course).length ≤ 1) :
    (b.perform host r course).registry =
      { slots := (r.erase ⟨r.next⟩).slots
        next := Word.wrap (r.next + 1)
        invocations := if b.asked host r course = [] then r.invocations else Word.wrap (r.invocations + 1) } := by
  obtain ⟨-, grant?, -, ⟨hasked, -, hregistry⟩ | ⟨n, hasked, -, hregistry⟩⟩ := perform_cases h
  · rw [hregistry, hasked]
    rfl
  · rw [hregistry, hasked]
    rfl

/-- As long as the counters have not come around, the slots are the same, and an invocation is counted. -/
theorem registry_perform_of_reachable (h : (b.asked host r course).length ≤ 1) {n : Nat}
    (hr : Registry.Reachable n r) (hroom : n + 1 < Word.limit) :
    (b.perform host r course).registry.slots = r.slots ∧
      (b.perform host r course).registry.invocations = r.invocations + (b.asked host r course).length := by
  have hle := hr.invocations_le (Nat.lt_of_succ_lt hroom)
  rw [registry_perform h, Registry.erase_of_none (hr.slot?_next hroom)]
  exact ⟨rfl, Registry.count_asked h (by omega)⟩

section

variable [Monad m] {headers : List Header} {payload : Bytes}

/-- What is not admitted never reaches the engine. -/
theorem build_of_check_error {e : HostError} (h : b.limits.check headers payload = .error e) :
    b.build host r headers payload = pure ⟨.finished (.error e), r, []⟩ := by
  unfold build
  rw [h]

theorem build_of_check_ok (h : b.limits.check headers payload = .ok ()) : b.build host r headers payload =
    (b.engine.build (lend headers) (Source.ofBytes payload) >>= fun course => pure (b.perform host r course)) := by
  unfold build
  rw [h]

end

/-- A build with any engine. What is not admitted never reaches the engine. Otherwise the engine may do whatever it
likes, as long as it asks the allocator once at most: a refusal that the engine reports as a failure is an allocation
failure, any other status but success is told as it is, and success is believed exactly if the span that is reported
lies in the buffer that was granted. However the engine ends, the registration is removed. -/
theorem build_any_engine [Monad m] (b : Builder m) (hword : b.limits.maxPacketSize < Word.limit) (host : Host)
    (r : Registry Callback) (headers : List Header) (payload : Bytes) :
    (¬b.limits.Admits headers payload → ∃ text,
      b.build host r headers payload = pure ⟨.finished (.error (.invalidArgument text)), r, []⟩) ∧
    (b.limits.Admits headers payload → b.build host r headers payload =
      (b.engine.build (lend headers) (Source.ofBytes payload) >>= fun course => pure (b.perform host r course))) ∧
    ∀ course, (b.asked host r course).length ≤ 1 →
      b.ending host r course ≠ .aborted ∧
      (∀ text, b.ending host r course = .panicked text →
        (b.perform host r course).built = .panicked text) ∧
      (∀ status out, b.ending host r course = .returned status out →
        (status ≠ Status.okCode → ∀ n, b.asked host r course = [n] → (∀ base, ¬b.limits.Room host n base) →
          (b.perform host r course).built = .finished (.error (.allocationFailure n))) ∧
        (status ≠ Status.okCode → (∀ n, b.asked host r course = [n] → ∃ base, b.limits.Room host n base) →
          ∃ e, expectOk status = .error e ∧ e.statusCode? = some status ∧
            (b.perform host r course).built = .finished (.error e)) ∧
        (status = Status.okCode → ∀ n base, b.asked host r course = [n] → b.limits.Room host n base →
          (out.getD Span.null).ViewOf base n →
          ∃ packet, (b.perform host r course).built = .finished (.ok ⟨b.engine, .valid packet⟩) ∧
            packet.buffer.base = base ∧ packet.buffer.length = n ∧ packet.extent =
              ⟨(out.getD Span.null).addr - base, (out.getD Span.null).addr - base + (out.getD Span.null).len⟩) ∧
        (status = Status.okCode → (∀ n base, b.asked host r course = [n] → b.limits.Room host n base →
            ¬(out.getD Span.null).ViewOf base n) →
          ∃ text, (b.perform host r course).built = .finished (.error (.engineContract text)))) ∧
      (∀ handle, (b.perform host r course).built = .finished (.ok handle) →
        ∃ n packet, b.asked host r course = [n] ∧ handle = ⟨b.engine, .valid packet⟩ ∧ packet.buffer.length = n ∧
          packet.extent.start < packet.extent.stop ∧ packet.extent.stop ≤ n) ∧
      (b.perform host r course).registry.next = Word.wrap (r.next + 1) ∧
      (b.perform host r course).registry.slots = r.slots.filter (fun s => s.1 ≠ ⟨r.next⟩) ∧
      (b.perform host r course).registry.invocations =
        (if b.asked host r course = [] then r.invocations else Word.wrap (r.invocations + 1)) ∧
      ∀ n, Registry.Reachable n r → n + 1 < Word.limit →
        (b.perform host r course).registry.slots = r.slots ∧
        (b.perform host r course).registry.invocations = r.invocations + (b.asked host r course).length := by
  refine ⟨fun hadmits => ?_, fun hadmits => ?_, fun course h => ?_⟩
  · obtain ⟨text, hcheck⟩ := Limits.check_of_not_admits hadmits
    exact ⟨text, build_of_check_error hcheck⟩
  · exact build_of_check_ok (Limits.check_of_admits (Nat.lt_of_le_of_lt hadmits.content hword) hadmits)
  · refine ⟨(perform_cases h).1, fun text => built_of_panicked h, fun status out hend => ⟨?_, ?_, ?_, ?_⟩,
      fun handle => handle_of_built h, ?_, ?_, ?_, fun n => registry_perform_of_reachable h⟩
    · exact fun hstatus n => built_of_refused h hend hstatus
    · exact built_of_failed h hend
    · exact fun hstatus n base => built_of_view h hend hstatus
    · exact built_of_no_view h hend
    all_goals rw [registry_perform h]
    rfl

/-- An engine that asks without a place for the answer, then for eight bytes, and reports three of them. -/
def reportingThree : Engine Id where
  abiVersion := Abi.version
  build _ _ := .request 5 true false fun _ => .request 8 true true fun _ =>
    .finish Status.okCode (some ⟨4098, 3⟩)
  count _ := ⟨Status.internal.code, none⟩
  header _ _ := ⟨Status.internal.code, none⟩
  payload _ := ⟨Status.internal.code, none⟩
  find _ _ := ⟨Status.internal.code, none⟩

theorem build_any_engine_reporting_three :
    let b : Builder Id := ⟨reportingThree, {}⟩
    ∃ packet, (Id.run (b.build .page {} [] #[])).built = .finished (.ok ⟨b.engine, .valid packet⟩) ∧
      packet.buffer.length = 8 ∧ packet.extent = ⟨2, 5⟩ ∧
      (Id.run (b.build .page {} [] #[])).registry.slots = [] ∧
      (Id.run (b.build .page {} [] #[])).registry.invocations = 1 := by
  intro b
  obtain ⟨-, hadmitted, hcourse⟩ := build_any_engine b (by decide) .page {} [] #[]
  rw [hadmitted ⟨Nat.zero_le _, nofun, Nat.zero_le _⟩]
  have hmissing : (Desk.surroundings (b.limits.grant .page) ⟨1⟩ Host.page.memory).request
      ((b.opening .page {}).1, {}) 5 true false =
        some (.missing, (b.opening .page {}).1, ({} : Desk).noteMissing 5) := rfl
  have hanswer := Desk.request_armed Host.page.memory (d := ({} : Desk).noteMissing 5)
    (b.slot?_opening .page {}) (b.limits.gives_allocator .page) 8
  have hasked : b.asked .page {} (reportingThree.build [] (Source.ofBytes #[])) = [8] := by
    change (Packing.request 5 true false _).asked (Desk.surroundings _ ⟨1⟩ _) ((b.opening .page {}).1, {}) = [8]
    rw [Packing.asked, hmissing]
    change (Packing.request 8 true true _).asked (Desk.surroundings _ ⟨1⟩ _) _ = [8]
    rw [Packing.asked, hanswer]
    rfl
  have hend : b.ending .page {} (reportingThree.build [] (Source.ofBytes #[])) =
      .returned Status.okCode (some ⟨4098, 3⟩) := by
    change ((Packing.request 5 true false _).run (Desk.surroundings _ ⟨1⟩ _) ((b.opening .page {}).1, {})).1 = _
    rw [Packing.run, hmissing]
    change ((Packing.request 8 true true _).run (Desk.surroundings _ ⟨1⟩ _) _).1 = _
    rw [Packing.run, hanswer]
    rfl
  obtain ⟨-, -, hreturned, -, -, -, -, hreachable⟩ := hcourse _ (by rw [hasked]; exact Nat.le_refl 1)
  obtain ⟨-, -, hview, -⟩ := hreturned _ _ hend
  obtain ⟨packet, hbuilt, -, hlength, hextent⟩ := hview rfl 8 4096 hasked ⟨by decide, rfl⟩
    (by unfold Span.ViewOf; decide)
  obtain ⟨hslots, hinvocations⟩ := hreachable 0 Registry.reachable_empty (by decide)
  rw [hasked] at hinvocations
  exact ⟨packet, hbuilt, hlength, hextent, hslots, hinvocations⟩

end Builder

end PacketHost
