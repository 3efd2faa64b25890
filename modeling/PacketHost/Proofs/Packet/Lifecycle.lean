import PacketHost.Packet.Lifecycle
import PacketHost.Proofs.Flat.Build
import PacketHost.Proofs.Packet.Confinement

/-!
# The life of a handle

A handle is as it was built until it is released, and from then on it is released (`Handle.Later`). One step of a
session does no more to it (`Session.getElem?_step`), so that a whole run does no more (`Session.getElem?_run`),
whatever is built, read, released or dropped beside it. A read goes through an engine that is given all memory; the flat
engine looks at nothing but the packet (`Flat.engine_local`), so that a read shows the same whenever it is made.
-/

namespace PacketHost

/-! ## Engines that look at nothing but the packet -/

/-- The answers of the engine do not depend on the memory outside the packet. -/
structure Engine.Local (engine : Engine Id) : Prop where
  count {v w : View} (h : v.slice? = w.slice?) : engine.count v = engine.count w
  header {v w : View} (h : v.slice? = w.slice?) : engine.header v = engine.header w
  payload {v w : View} (h : v.slice? = w.slice?) : engine.payload v = engine.payload w
  find {v w : View} (h : v.slice? = w.slice?) : engine.find v = engine.find w

/-- The flat engine begins each read with the table, and the table is read off the packet. -/
theorem Flat.table_congr {v w : View} (h : v.slice? = w.slice?) : table v = table w := by
  unfold table
  rw [h]

theorem Flat.engine_local : Engine.Local Flat.engine where
  count h := by simp only [engine, Flat.count, table_congr h]
  header h := by simp only [engine, Flat.header, table_congr h]
  payload h := by simp only [engine, Flat.payload, table_congr h]
  find h := by simp only [engine, Flat.find, table_congr h]

namespace Reading

/-- No way to read reaches anything before it finds the handle released. -/
theorem ask_released (engine : Engine Id) (elsewhere : Memory) (query : Query) :
    (Reading.mk ⟨engine, .released⟩ elsewhere).ask query = throw (.refused .useAfterRelease) := by
  cases query <;> rfl

theorem viewOf_slice (packet : Packet) (a b : Memory) : (viewOf packet a).slice? = (viewOf packet b).slice? := rfl

section

variable {engine : Engine Id} (h : engine.Local) (packet : Packet) (a b : Memory)

include h

theorem count_congr : (unreleased engine packet a).count = (unreleased engine packet b).count := by
  simp only [count, live_unreleased, pure_bind, engine_unreleased, h.count (viewOf_slice packet a b)]

theorem header_congr (index : Nat) : (unreleased engine packet a).header index =
    (unreleased engine packet b).header index := by
  simp only [header, count_congr h packet a b, live_unreleased, pure_bind, engine_unreleased,
    h.header (viewOf_slice packet a b)]

theorem payload_congr :
    (unreleased engine packet a).payload = (unreleased engine packet b).payload := by
  simp only [payload, live_unreleased, pure_bind, engine_unreleased, h.payload (viewOf_slice packet a b)]

theorem find_congr (key : Bytes) :
    (unreleased engine packet a).find key = (unreleased engine packet b).find key := by
  simp only [find, live_unreleased, pure_bind, engine_unreleased, h.find (viewOf_slice packet a b)]

theorem headersFrom_congr (index remaining : Nat) :
    (unreleased engine packet a).headersFrom index remaining =
      (unreleased engine packet b).headersFrom index remaining := by
  induction remaining generalizing index with
  | zero => rfl
  | succ remaining ih => simp only [headersFrom, header_congr h packet a b, ih]

theorem headers_congr :
    (unreleased engine packet a).headers = (unreleased engine packet b).headers := by
  simp only [headers, count_congr h packet a b, headersFrom_congr h packet a b]

/-- What a read shows does not depend on the memory outside the buffer. -/
theorem ask_congr (query : Query) :
    (unreleased engine packet a).ask query = (unreleased engine packet b).ask query := by
  cases query with
  | bytes => rfl
  | length => rfl
  | count => simp only [ask, count_congr h packet a b]
  | header index => simp only [ask, header_congr h packet a b]
  | payload => simp only [ask, payload_congr h packet a b]
  | headers => simp only [ask, headers_congr h packet a b]
  | lastValues => simp only [ask, lastValues, headers_congr h packet a b]
  | find key => simp only [ask, find_congr h packet a b]
  | id => simp only [ask, id, find_congr h packet a b]
  | dependencies => simp only [ask, dependencies, headers_congr h packet a b]
  | copies => simp only [ask, copies, headers_congr h packet a b]

end

end Reading

/-! ## Handles -/

namespace Handle

variable {m : Type → Type} {handle later : Handle m}

theorem eq_released (h : handle.isReleased = true) : handle = ⟨handle.engine, .released⟩ := by
  obtain ⟨engine, packet | -⟩ := handle
  · cases h
  · rfl

/-- What a handle may have become: it is as it was, or released. -/
inductive Later (handle : Handle m) : Handle m → Prop
  | same : Later handle handle
  | released : Later handle handle.release

namespace Later

theorem trans {last : Handle m} (h : handle.Later later) (h' : later.Later last) : handle.Later last := by
  cases h' with
  | same => exact h
  | released =>
      cases h with
      | same => exact .released
      | released => exact .released

theorem isReleased (h : handle.Later later) (hr : handle.isReleased = true) : later.isReleased = true := by
  cases h with
  | same => exact hr
  | released => rfl

theorem eq_of_not_released (h : handle.Later later) (hr : later.isReleased = false) : later = handle := by
  cases h with
  | same => rfl
  | released => cases hr

end Later

end Handle

/-! ## Builds -/

/-- The handle of a build that succeeded. -/
def Built.handle? {m : Type → Type} : Built m → Option (Handle m)
  | .finished (.ok handle) => some handle
  | _ => none

theorem Built.eq_of_handle? {m : Type → Type} {built : Built m} {handle : Handle m}
    (h : built.handle? = some handle) : built = .finished (.ok handle) := by
  rcases built with ⟨e | other⟩ | text | _
  · cases h
  · cases h
    rfl
  · cases h
  · cases h

namespace Builder

variable {b : Builder Id} {handle : Handle Id}

theorem valid_of_conclude {ending : Ending} {grant? : Option Grant}
    (h : b.conclude ending grant? = .finished (.ok handle)) : ∃ packet, handle = ⟨b.engine, .valid packet⟩ := by
  cases ending with
  | returned status out =>
      change Built.finished ((settle status (out.getD Span.null) grant?).map _) = _ at h
      cases hsettle : settle status (out.getD Span.null) grant? with
      | error e =>
          rw [hsettle] at h
          cases h
      | ok packet =>
          rw [hsettle] at h
          cases h
          exact ⟨packet, rfl⟩
  | panicked text => cases h
  | aborted => cases h

theorem valid_of_built {host : Host} {r : Registry Callback} {headers : List Header} {payload : Bytes}
    (h : (Id.run (b.build host r headers payload)).built = .finished (.ok handle)) :
    ∃ packet, handle = ⟨b.engine, .valid packet⟩ := by
  cases hcheck : b.limits.check headers payload with
  | error e =>
      rw [build_of_check_error hcheck] at h
      cases h
  | ok =>
      rw [build_of_check_ok hcheck] at h
      exact valid_of_conclude h

end Builder

/-! ## Steps -/

namespace Session

variable {s : Session Id} {t : Step} {index : Nat} {handle : Handle Id}

theorem handles_build (s : Session Id) (host : Host) (headers : List Header) (payload : Bytes) :
    (s.step (.build host headers payload)).2.handles =
      s.handles ++ (Id.run (s.builder.build host s.registry headers payload)).built.handle?.toList := by
  simp only [step, build, Id.run_bind, Id.run_pure]
  rcases (Id.run (s.builder.build host s.registry headers payload)).built with ⟨e | handle⟩ | text | _
  · exact (List.append_nil _).symm
  · rfl
  · exact (List.append_nil _).symm
  · exact (List.append_nil _).symm

/-- What a step does to the handles: a build that succeeds puts one after the others, a release or a drop releases one,
and nothing else changes them. -/
theorem handles_step (s : Session Id) (t : Step) :
    (∃ packet, (s.step t).1 = .built (.finished (.ok ⟨s.builder.engine, .valid packet⟩)) ∧
      (s.step t).2.handles = s.handles ++ [⟨s.builder.engine, .valid packet⟩]) ∨
    (∃ index, (t = .release index ∨ t = .drop index) ∧
      (s.step t).2.handles = s.handles.modify index Handle.release) ∨
    (s.step t).2.handles = s.handles := by
  cases t with
  | build host headers payload =>
      rw [handles_build]
      cases hhandle : (Id.run (s.builder.build host s.registry headers payload)).built.handle? with
      | none => exact .inr (.inr (List.append_nil _))
      | some handle =>
          have hbuilt := Built.eq_of_handle? hhandle
          obtain ⟨packet, rfl⟩ := Builder.valid_of_built hbuilt
          exact .inl ⟨packet, congrArg Response.built hbuilt, rfl⟩
  | read index query elsewhere => exact .inr (.inr rfl)
  | release index => exact .inr (.inl ⟨index, .inl rfl, rfl⟩)
  | drop index => exact .inr (.inl ⟨index, .inr rfl, rfl⟩)

theorem builder_step (s : Session Id) (t : Step) : (s.step t).2.builder = s.builder := by
  cases t <;> rfl

/-- Only a build makes use of the registry. -/
theorem registry_step (h : ∀ host headers payload, t ≠ .build host headers payload) :
    (s.step t).2.registry = s.registry := by
  cases t with
  | build host headers payload => exact absurd rfl (h host headers payload)
  | read index query elsewhere => rfl
  | release index => rfl
  | drop index => rfl

/-- A step changes no handle but the one that it releases or drops. -/
theorem getElem?_step_of_ne (hrelease : t ≠ .release index) (hdrop : t ≠ .drop index)
    (h : s.handles[index]? = some handle) : (s.step t).2.handles[index]? = some handle := by
  rcases handles_step s t with ⟨packet, -, hhandles⟩ | ⟨released, hstep, hhandles⟩ | hhandles
  · rw [hhandles, List.getElem?_append_left (List.getElem?_eq_some_iff.mp h).1, h]
  · have hne : released ≠ index := by
      rintro rfl
      exact hstep.elim hrelease hdrop
    rw [hhandles, List.getElem?_modify_ne _ _ hne, h]
  · rw [hhandles, h]

theorem getElem?_release (h : s.handles[index]? = some handle) :
    (s.release index).handles[index]? = some handle.release := by
  change (s.handles.modify index Handle.release)[index]? = _
  rw [List.getElem?_modify_eq, h]
  rfl

theorem getElem?_step_released (hstep : t = .release index ∨ t = .drop index) (h : s.handles[index]? = some handle) :
    (s.step t).2.handles[index]? = some handle.release := by
  rcases hstep with rfl | rfl
  · exact getElem?_release h
  · exact getElem?_release h

/-- A step leaves a handle as it is, or releases it. -/
theorem getElem?_step (t : Step) (h : s.handles[index]? = some handle) :
    ∃ later, (s.step t).2.handles[index]? = some later ∧ handle.Later later := by
  by_cases hstep : t = .release index ∨ t = .drop index
  · exact ⟨_, getElem?_step_released hstep h, .released⟩
  · obtain ⟨hrelease, hdrop⟩ := not_or.mp hstep
    exact ⟨handle, getElem?_step_of_ne hrelease hdrop h, .same⟩

/-! ## Runs -/

theorem run_append (s : Session Id) (before after : List Step) : s.run (before ++ after) = (s.run before).run after :=
  List.foldl_append

/-- A run leaves a handle as it is, or releases it. -/
theorem getElem?_run (steps : List Step) (h : s.handles[index]? = some handle) :
    ∃ later, (s.run steps).handles[index]? = some later ∧ handle.Later later := by
  induction steps generalizing s handle with
  | nil => exact ⟨handle, h, .same⟩
  | cons t steps ih =>
      obtain ⟨next, hnext, hlater⟩ := getElem?_step t h
      obtain ⟨last, hlast, hlater'⟩ := ih hnext
      exact ⟨last, hlast, hlater.trans hlater'⟩

/-- A handle that was not there before a run was built in it, when there were as many handles as its number says. -/
theorem built_in_run {steps : List Step} (hs : s.handles.length ≤ index) (h : index < (s.run steps).handles.length) :
    ∃ before t after packet, steps = before ++ t :: after ∧ (s.run before).handles.length = index ∧
      ((s.run before).step t).1 = .built (.finished (.ok ⟨s.builder.engine, .valid packet⟩)) ∧
      ((s.run before).step t).2.handles[index]? = some ⟨s.builder.engine, .valid packet⟩ := by
  induction steps generalizing s with
  | nil => exact absurd h (Nat.not_lt.mpr hs)
  | cons t steps ih =>
      by_cases hnext : (s.step t).2.handles.length ≤ index
      · obtain ⟨before, t', after, packet, rfl, hlength, hbuilt, hget⟩ := ih hnext h
        rw [builder_step] at hbuilt hget
        exact ⟨t :: before, t', after, packet, rfl, hlength, hbuilt, hget⟩
      · rcases handles_step s t with ⟨packet, hbuilt, hhandles⟩ | ⟨released, -, hhandles⟩ | hhandles
        · rw [hhandles, List.length_append] at hnext
          have hindex : s.handles.length = index := by
            simp only [List.length_singleton] at hnext
            omega
          refine ⟨[], t, steps, packet, rfl, hindex, hbuilt, ?_⟩
          change (s.step t).2.handles[index]? = _
          rw [hhandles, ← hindex, List.getElem?_concat_length]
        · rw [hhandles, List.length_modify] at hnext
          exact absurd hs hnext
        · rw [hhandles] at hnext
          exact absurd hs hnext

/-! ## The life of a handle -/

theorem read_of_getElem? (h : s.handles[index]? = some handle) (query : Query) (elsewhere : Memory) :
    s.read index query elsewhere = .read (Id.run ((Reading.mk handle elsewhere).ask query).run) := by
  unfold read
  rw [h]

theorem read_released (h : s.handles[index]? = some handle) (hr : handle.isReleased = true) (query : Query)
    (elsewhere : Memory) : s.read index query elsewhere = .read (Halt.refuse .useAfterRelease) := by
  rw [read_of_getElem? h, handle.eq_released hr, Reading.ask_released]
  rfl

/-- What was released refuses to be read in every later state. -/
theorem read_run_released (later : List Step) (h : s.handles[index]? = some handle) (hr : handle.isReleased = true)
    (query : Query) (elsewhere : Memory) :
    (s.run later).read index query elsewhere = .read (Halt.refuse .useAfterRelease) := by
  obtain ⟨last, hlast, hlater⟩ := getElem?_run later h
  exact read_released hlast (hlater.isReleased hr) query elsewhere

/-- A handle of an engine that looks at nothing but the packet shows the same in each state in which it is valid. -/
theorem read_valid {s' : Session Id} {engine : Engine Id} {packet : Packet} (hlocal : engine.Local)
    (h : s.handles[index]? = some ⟨engine, .valid packet⟩) (h' : s'.handles[index]? = some ⟨engine, .valid packet⟩)
    (query : Query) (a b : Memory) :
    ∃ result, s.read index query a = .read result ∧ s'.read index query b = .read result := by
  have hask := Reading.ask_congr hlocal packet a b query
  rw [read_of_getElem? h, read_of_getElem? h']
  exact ⟨_, congrArg (fun x => Response.read (Id.run x.run)) hask, rfl⟩

/-- A session with the flat engine, before anything was built. -/
def flat (limits : Limits) (registry : Registry Callback) : Session Id := ⟨⟨Flat.engine, limits⟩, registry, []⟩

/-- Handles over whole runs. A handle that is not released was built by a step of the run, and each way to read from it
comes to what it came to right after that step. A handle that is released refuses every read, and stays released
whatever follows. A step changes no handle but the one that it releases or drops; that one is released from then on, and
refuses every read whatever follows. Only builds change the registry. -/
theorem handles_lifecycle (limits : Limits) (registry : Registry Callback) (steps : List Step) :
    let start := flat limits registry
    let s := start.run steps
    (∀ index handle, s.handles[index]? = some handle → handle.isReleased = false →
      ∃ before t after, steps = before ++ t :: after ∧ (start.run before).handles.length = index ∧
        ((start.run before).step t).1 = .built (.finished (.ok handle)) ∧
        ∀ query elsewhere elsewhere', ∃ result, (s.step (.read index query elsewhere)).1 = .read result ∧
          ((start.run (before ++ [t])).step (.read index query elsewhere')).1 = .read result) ∧
    (∀ index handle, s.handles[index]? = some handle → handle.isReleased = true →
      (∀ query elsewhere, (s.step (.read index query elsewhere)).1 = .read (Halt.refuse .useAfterRelease)) ∧
      ∀ later, ∃ handle', (s.run later).handles[index]? = some handle' ∧ handle'.isReleased = true) ∧
    (∀ t index handle, s.handles[index]? = some handle →
      (t ≠ .release index → t ≠ .drop index → (s.step t).2.handles[index]? = some handle) ∧
      (t = .release index ∨ t = .drop index →
        (s.step t).2.handles[index]? = some handle.release ∧ handle.release.isReleased = true ∧
        ∀ later query elsewhere, (((s.step t).2.run later).step (.read index query elsewhere)).1 =
          .read (Halt.refuse .useAfterRelease))) ∧
    (∀ t, (∀ host headers payload, t ≠ .build host headers payload) → (s.step t).2.registry = s.registry) := by
  intro start s
  refine ⟨fun index handle h hr => ?_, fun index handle h hr => ⟨read_released h hr, fun later => ?_⟩,
    fun t index handle h => ⟨fun hrelease hdrop => getElem?_step_of_ne hrelease hdrop h, ?_⟩, fun t => registry_step⟩
  · obtain ⟨before, t, after, packet, hsteps, hlength, hbuilt, hget⟩ :=
      built_in_run (Nat.zero_le index) (List.getElem?_eq_some_iff.mp h).1
    have hafter : start.run (before ++ [t]) = ((start.run before).step t).2 := run_append start before [t]
    have hrun : s = ((start.run before).step t).2.run after := by
      change start.run steps = _
      rw [hsteps, run_append]
      rfl
    obtain ⟨last, hlast, hlater⟩ := getElem?_run after hget
    rw [← hrun, h] at hlast
    cases hlast
    obtain rfl := hlater.eq_of_not_released hr
    refine ⟨before, t, after, hsteps, hlength, hbuilt, fun query a b => ?_⟩
    rw [hafter]
    exact read_valid Flat.engine_local h hget query a b
  · obtain ⟨last, hlast, hlater⟩ := getElem?_run later h
    exact ⟨last, hlast, hlater.isReleased hr⟩
  · intro hstep
    have hreleased : (s.step t).2.handles[index]? = some handle.release := getElem?_step_released hstep h
    exact ⟨hreleased, rfl, fun later => read_run_released later hreleased rfl⟩

/-- Of two packets one is released and the other dropped, and each is read again. -/
theorem handles_lifecycle_released_and_dropped :
    let s := (flat {} {}).run [.build .page [⟨#[7], #[1, 2]⟩] #[9], .build .page [] #[5]]
    (s.step (.read 1 .payload fun _ => 0)).1 = .read (.ok (.slice ⟨4112, #[5]⟩)) ∧
      (((s.step (.release 0)).2.step (.read 0 (.header 4) fun _ => 0)).1 = .read (Halt.refuse .useAfterRelease)) ∧
      (s.step (.release 0)).2.handles[1]? = s.handles[1]? ∧
      (((s.step (.drop 1)).2.step (.read 1 .payload fun _ => 0)).1 = .read (Halt.refuse .useAfterRelease)) ∧
      (s.step (.drop 1)).2.registry = s.registry := by
  intro s
  obtain ⟨-, -, hsteps, hregistry⟩ :=
    handles_lifecycle {} {} [.build .page [⟨#[7], #[1, 2]⟩] #[9], .build .page [] #[5]]
  have hhandles : s.handles = [⟨Flat.engine, .valid (Flat.packet 4096 [⟨#[7], #[1, 2]⟩] #[9])⟩,
      ⟨Flat.engine, .valid (Flat.packet 4096 [] #[5])⟩] := by
    change (((flat {} {}).step _).2.step _).2.handles = _
    rw [handles_build, handles_build, builder_step]
    change [] ++ _ ++ _ = _
    rw [flat, Flat.built_eq, Flat.built_eq]
    rfl
  have hfirst : s.handles[0]? = _ := congrArg (·[0]?) hhandles
  have hsecond : s.handles[1]? = _ := congrArg (·[1]?) hhandles
  obtain ⟨-, hreleased⟩ := hsteps (.release 0) 0 _ hfirst
  obtain ⟨hkept, -⟩ := hsteps (.release 0) 1 _ hsecond
  obtain ⟨-, hdropped⟩ := hsteps (.drop 1) 1 _ hsecond
  refine ⟨?_, (hreleased (.inl rfl)).2.2 [] _ _, ?_, (hdropped (.inr rfl)).2.2 [] _ _, hregistry _ nofun⟩
  · change s.read 1 .payload _ = _
    rw [read_of_getElem? hsecond]
    rfl
  · rw [hsecond]
    exact hkept nofun nofun

end Session

end PacketHost
