import PacketHost.Proofs.Flat.Build
import PacketHost.Proofs.Packet.AnyEngine

/-!
# Every outcome of a build with the flat engine

The flat engine asks for the packed size, once, if that is a word, and for nothing otherwise. So what a build comes to
is decided by the limits, the packed size and the room for it, in this order. The limit of the packet size is held
against the content first and against the packed size when the buffer is asked for.
-/

namespace PacketHost

namespace Flat

/-- The number of bytes in the packed form. -/
theorem size_encode (headers : List Header) (payload : Bytes) :
    (encode headers payload).size = 16 + 16 * headers.length + Limits.contentSize headers payload := by
  rw [encode_eq_layout, size_layout, payloadStart, size_content, Limits.contentSize, tableSize, Word.width]
  simp only [Array.size_empty]
  omega

theorem size_of_lt {headers : List Header} {payload : Bytes}
    (h : 16 + 16 * headers.length + Limits.contentSize headers payload < Word.limit) :
    size headers payload = .ok (16 + 16 * headers.length + Limits.contentSize headers payload) := by
  rw [size_eq, size_encode, if_pos h]

theorem size_of_le {headers : List Header} {payload : Bytes}
    (h : Word.limit ≤ 16 + 16 * headers.length + Limits.contentSize headers payload) :
    size headers payload = .error .tooLarge := by
  rw [size_eq, size_encode, if_neg (Nat.not_lt.mpr h)]

/-! ## What the flat engine asks for -/

theorem asked_fill {σ : Type} (around : Surroundings σ) (pairs : List (Source × Source)) (payload : Source)
    (size : Nat) (reply : Reply) (s : σ) : (fill pairs payload size reply).asked around s = [] := by
  unfold fill
  dsimp only
  split
  · split
    · rfl
    · rw [Packing.asked]
      split
      · rfl
      · rfl
  · rfl

section

variable {m : Type → Type} {b : Builder m} {host : Host} {r : Registry Callback} {headers : List Header}
  {payload : Bytes}

theorem asked_course_of_error {s : Status} (h : size headers payload = .error s) :
    b.asked host r (course headers payload) = [] := by
  unfold Builder.asked course
  rw [build_lend, h]
  rfl

theorem asked_course_of_ok {n : Nat} (h : size headers payload = .ok n) :
    b.asked host r (course headers payload) = [n] := by
  unfold Builder.asked course
  rw [build_lend, h]
  dsimp only
  rw [Packing.asked]
  cases (b.surroundings host r).request (b.opening host r) n true true with
  | none => rfl
  | some answer => exact congrArg ([n] ++ ·) (asked_fill _ _ _ _ _ _)

end

end Flat

namespace Builder

theorem build_flat_of_check_error {l : Limits} (host : Host) (r : Registry Callback) {headers : List Header}
    {payload : Bytes} {e : HostError} (h : l.check headers payload = .error e) :
    Id.run ((⟨Flat.engine, l⟩ : Builder Id).build host r headers payload) = ⟨.finished (.error e), r, []⟩ := by
  rw [build_of_check_error h]
  rfl

section

variable {l : Limits} (host : Host) (r : Registry Callback) {headers : List Header} {payload : Bytes}
  (hcheck : l.check headers payload = .ok ())

include hcheck

/-- Of the course of the flat engine only what it asks for matters to the registry. -/
theorem build_flat_of_asked {sizes : List Nat}
    (hasked : (⟨Flat.engine, l⟩ : Builder Id).asked host r (Flat.course headers payload) = sizes)
    (hsizes : sizes.length ≤ 1) :
    let b : Builder Id := ⟨Flat.engine, l⟩
    let a := Id.run (b.build host r headers payload)
    a.built = .finished ((Flat.pack l host headers payload).map fun p => ⟨Flat.engine, .valid p⟩) ∧
      a.requests = (b.solo host (Flat.course headers payload)).2.requests ∧
      a.registry.slots = (r.erase ⟨r.next⟩).slots ∧
      a.registry.invocations = if sizes = [] then r.invocations else Word.wrap (r.invocations + 1) := by
  intro b a
  have hperform : a = b.perform host r (Flat.course headers payload) := by
    change Id.run (b.build host r headers payload) = _
    rw [build_of_check_ok hcheck]
    rfl
  subst hasked
  refine ⟨Flat.built_eq l host r headers payload, ?_⟩
  rw [hperform, registry_perform hsizes]
  exact ⟨(b.perform_eq host r (Flat.course headers payload)).2, rfl, rfl⟩

/-- Nothing is asked for if the packed size is no word. -/
theorem build_flat_of_too_large {s : Status} (hsize : Flat.size headers payload = .error s) :
    let a := Id.run ((⟨Flat.engine, l⟩ : Builder Id).build host r headers payload)
    a.built = .finished (.error (.ofStatus s)) ∧ a.requests = [] ∧
      a.registry.slots = (r.erase ⟨r.next⟩).slots ∧ a.registry.invocations = r.invocations := by
  obtain ⟨hbuilt, hrequests, hregistry⟩ :=
    build_flat_of_asked host r hcheck (Flat.asked_course_of_error hsize) (Nat.zero_le 1)
  rw [Flat.solo_of_error l host hsize] at hrequests
  simp only [Flat.pack, hcheck, hsize] at hbuilt
  exact ⟨hbuilt, hrequests, hregistry⟩

/-- A request that finds no room fails the build. -/
theorem build_flat_of_no_room {n : Nat} (hsize : Flat.size headers payload = .ok n)
    (hroom : ∀ base, ¬l.Room host n base) :
    let a := Id.run ((⟨Flat.engine, l⟩ : Builder Id).build host r headers payload)
    a.built = .finished (.error (.allocationFailure n)) ∧ a.requests = [(n, Status.outOfMemory.code)] ∧
      a.registry.slots = (r.erase ⟨r.next⟩).slots ∧ a.registry.invocations = Word.wrap (r.invocations + 1) := by
  obtain ⟨hbuilt, hrequests, hregistry⟩ :=
    build_flat_of_asked host r hcheck (Flat.asked_course_of_ok hsize) (Nat.le_refl 1)
  have hgrant := Limits.grant_of_no_room hroom
  rw [Flat.solo_of_refused l host hsize hgrant] at hrequests
  simp only [Flat.pack, hcheck, hsize, hgrant] at hbuilt
  exact ⟨hbuilt, hrequests, hregistry⟩

theorem build_flat_of_room {n base : Nat} (hsize : Flat.size headers payload = .ok n)
    (hroom : l.Room host n base) :
    let a := Id.run ((⟨Flat.engine, l⟩ : Builder Id).build host r headers payload)
    a.built = .finished (.ok ⟨Flat.engine, .valid (Flat.packet base headers payload)⟩) ∧
      a.requests = [(n, Status.okCode)] ∧
      a.registry.slots = (r.erase ⟨r.next⟩).slots ∧ a.registry.invocations = Word.wrap (r.invocations + 1) := by
  obtain ⟨hbuilt, hrequests, hregistry⟩ :=
    build_flat_of_asked host r hcheck (Flat.asked_course_of_ok hsize) (Nat.le_refl 1)
  have hgrant := Limits.grant_of_room hroom
  rw [Flat.solo_of_granted l host hsize hgrant] at hrequests
  simp only [Flat.pack, hcheck, hsize, hgrant] at hbuilt
  exact ⟨hbuilt, hrequests, hregistry⟩

end

section

variable (l : Limits) (host : Host) (r : Registry Callback) {headers : List Header} {payload : Bytes}
  (hlt : Limits.contentSize headers payload < Word.limit)

include hlt

/-- The three ends of a build that is admitted. -/
theorem build_flat_cases (h : l.Admits headers payload) :
    let size := 16 + 16 * headers.length + Limits.contentSize headers payload
    let a := Id.run ((⟨Flat.engine, l⟩ : Builder Id).build host r headers payload)
    (Word.limit ≤ size ∧ a.built = .finished (.error (.ofStatus .tooLarge)) ∧ a.requests = [] ∧
      a.registry.slots = (r.erase ⟨r.next⟩).slots ∧ a.registry.invocations = r.invocations) ∨
    (size < Word.limit ∧ (∀ base, ¬l.Room host size base) ∧ a.built = .finished (.error (.allocationFailure size)) ∧
      a.requests = [(size, Status.outOfMemory.code)] ∧
      a.registry.slots = (r.erase ⟨r.next⟩).slots ∧ a.registry.invocations = Word.wrap (r.invocations + 1)) ∨
    ∃ base, size < Word.limit ∧ l.Room host size base ∧
      a.built = .finished (.ok ⟨Flat.engine, .valid (Flat.packet base headers payload)⟩) ∧
      a.requests = [(size, Status.okCode)] ∧
      a.registry.slots = (r.erase ⟨r.next⟩).slots ∧ a.registry.invocations = Word.wrap (r.invocations + 1) := by
  intro size a
  have hcheck := Limits.check_of_admits hlt h
  by_cases hsize : size < Word.limit
  · by_cases hroom : ∃ base, l.Room host size base
    · obtain ⟨base, hroom⟩ := hroom
      exact .inr (.inr ⟨base, hsize, hroom, build_flat_of_room host r hcheck (Flat.size_of_lt hsize) hroom⟩)
    · have hnone : ∀ base, ¬l.Room host size base := fun base hbase => hroom ⟨base, hbase⟩
      exact .inr (.inl ⟨hsize, hnone, build_flat_of_no_room host r hcheck (Flat.size_of_lt hsize) hnone⟩)
  · have hle := Nat.not_lt.mp hsize
    exact .inl ⟨hle, build_flat_of_too_large host r hcheck (Flat.size_of_le hle)⟩

/-- Each build ends with a packet or with one of three errors, and leaves no slot of its own. -/
theorem build_flat_total :
    let size := 16 + 16 * headers.length + Limits.contentSize headers payload
    let a := Id.run ((⟨Flat.engine, l⟩ : Builder Id).build host r headers payload)
    (∃ result, a.built = .finished result ∧ ∀ e, result = .error e →
      (∃ text, e = .invalidArgument text) ∨ e = .ofStatus .tooLarge ∨ e = .allocationFailure size) ∧
    (r.slot? ⟨r.next⟩ = none → a.registry.slots = r.slots) ∧
    (a.registry.invocations = if a.requests = [] then r.invocations else Word.wrap (r.invocations + 1)) ∧
    a.requests.length ≤ 1 := by
  intro size a
  by_cases hadmits : l.Admits headers payload
  · have hslots : r.slot? ⟨r.next⟩ = none → (r.erase ⟨r.next⟩).slots = r.slots := fun hfree => by
      rw [Registry.erase_of_none hfree]
    rcases build_flat_cases l host r hlt hadmits with
      ⟨-, hbuilt, hrequests, hs, hi⟩ | ⟨-, -, hbuilt, hrequests, hs, hi⟩ | ⟨base, -, -, hbuilt, hrequests, hs, hi⟩
    · refine ⟨⟨_, hbuilt, fun e he => ?_⟩, fun hfree => hs.trans (hslots hfree), ?_, ?_⟩
      · cases he
        exact .inr (.inl rfl)
      · rw [hi, hrequests, if_pos rfl]
      · rw [hrequests]
        exact Nat.zero_le 1
    · refine ⟨⟨_, hbuilt, fun e he => ?_⟩, fun hfree => hs.trans (hslots hfree), ?_, ?_⟩
      · cases he
        exact .inr (.inr rfl)
      · rw [hi, hrequests, if_neg (List.cons_ne_nil _ _)]
      · rw [hrequests]
        exact Nat.le_refl 1
    · refine ⟨⟨_, hbuilt, nofun⟩, fun hfree => hs.trans (hslots hfree), ?_, ?_⟩
      · rw [hi, hrequests, if_neg (List.cons_ne_nil _ _)]
      · rw [hrequests]
        exact Nat.le_refl 1
  · obtain ⟨text, hcheck⟩ := Limits.check_of_not_admits hadmits
    rw [show a = _ from build_flat_of_check_error host r hcheck]
    refine ⟨⟨_, rfl, fun e he => ?_⟩, fun _ => rfl, rfl, Nat.zero_le 1⟩
    cases he
    exact .inl ⟨text, rfl⟩

end

/-- The outcome of every build with the flat engine, of headers and a payload whose content size is a word. -/
theorem build_flat_outcome (l : Limits) (host : Host) (r : Registry Callback) (headers : List Header)
    (payload : Bytes) (hlt : Limits.contentSize headers payload < Word.limit) :
    let content := Limits.contentSize headers payload
    let size := 16 + 16 * headers.length + content
    let a := Id.run ((⟨Flat.engine, l⟩ : Builder Id).build host r headers payload)
    (l.maxHeaders < headers.length → a = ⟨.finished (.error (.invalidArgument
      s!"{headers.length} headers exceeds limit of {l.maxHeaders}")), r, []⟩) ∧
    (headers.length ≤ l.maxHeaders → l.rejectEmptyKeys = true → ∀ i (hi : i < headers.length),
      headers[i].key = #[] → (∀ j (hj : j < i), headers[j].key ≠ #[]) →
      a = ⟨.finished (.error (.invalidArgument s!"header {i} has an empty key")), r, []⟩) ∧
    (headers.length ≤ l.maxHeaders → (l.rejectEmptyKeys = true → ∀ h ∈ headers, h.key ≠ #[]) →
      l.maxPacketSize < content → a = ⟨.finished (.error (.invalidArgument
        s!"{content} content bytes exceeds packet limit of {l.maxPacketSize}")), r, []⟩) ∧
    (l.Admits headers payload → Word.limit ≤ size →
      a.built = .finished (.error (.engineStatus 7 .tooLarge)) ∧ a.requests = [] ∧
      a.registry.invocations = r.invocations) ∧
    (l.Admits headers payload → size < Word.limit → l.maxPacketSize < size ∨ host.reserve size = none →
      a.built = .finished (.error (.allocationFailure size)) ∧ a.requests = [(size, 12)] ∧
      a.registry.invocations = Word.wrap (r.invocations + 1)) ∧
    (l.Admits headers payload → size < Word.limit → size ≤ l.maxPacketSize → ∀ base, host.reserve size = some base →
      ∃ packet, a.built = .finished (.ok ⟨Flat.engine, .valid packet⟩) ∧ packet.buffer.base = base ∧
      packet.buffer.length = size ∧ packet.extent = ⟨0, size⟩ ∧ a.requests = [(size, 0)] ∧
      a.registry.invocations = Word.wrap (r.invocations + 1)) ∧
    (∃ result, a.built = .finished result ∧ ∀ e, result = .error e →
      (∃ text, e = .invalidArgument text) ∨ e = .engineStatus 7 .tooLarge ∨ e = .allocationFailure size) ∧
    (r.slot? ⟨r.next⟩ = none → a.registry.slots = r.slots) ∧
    ∀ k, Registry.Reachable k r → k + 1 < Word.limit →
      a.registry.slots = r.slots ∧ a.registry.invocations = r.invocations + a.requests.length := by
  intro content size a
  obtain ⟨hresult, hslots, hinvocations, hrequests⟩ := build_flat_total l host r hlt
  refine ⟨fun hcount => ?_, fun hcount hreject i hi hempty hfirst => ?_, fun hcount hkeys hcontent => ?_, ?_, ?_, ?_,
    hresult, hslots, ?_⟩
  · exact build_flat_of_check_error host r (Limits.check_of_headers hcount)
  · exact build_flat_of_check_error host r (Limits.check_of_empty_key hcount hreject hi hempty hfirst)
  · exact build_flat_of_check_error host r (Limits.check_of_content hcount hkeys hlt hcontent)
  · intro hadmits hle
    obtain ⟨hbuilt, hasked, -, hcount⟩ :=
      build_flat_of_too_large host r (Limits.check_of_admits hlt hadmits) (Flat.size_of_le hle)
    exact ⟨hbuilt, hasked, hcount⟩
  · intro hadmits hsize hno
    have hroom : ∀ base, ¬l.Room host size base := by
      rintro base ⟨hmax, hreserve⟩
      rcases hno with hsize | hnone
      · exact absurd hmax (Nat.not_le.mpr hsize)
      · exact absurd (hnone.symm.trans hreserve) nofun
    obtain ⟨hbuilt, hasked, -, hcount⟩ :=
      build_flat_of_no_room host r (Limits.check_of_admits hlt hadmits) (Flat.size_of_lt hsize) hroom
    exact ⟨hbuilt, hasked, hcount⟩
  · intro hadmits hsize hmax base hreserve
    have hencode := Flat.size_encode headers payload
    obtain ⟨hbuilt, hasked, -, hcount⟩ := build_flat_of_room host r (Limits.check_of_admits hlt hadmits)
      (Flat.size_of_lt hsize) ⟨hmax, hreserve⟩
    exact ⟨_, hbuilt, rfl, hencode, congrArg (Extent.mk 0) hencode, hasked, hcount⟩
  · intro k hk hroom
    have hle := hk.invocations_le (Nat.lt_of_succ_lt hroom)
    exact ⟨hslots (hk.slot?_next hroom), hinvocations.trans (Registry.count_asked hrequests (by omega))⟩

/-- Four bytes of content in a packet of 36, with a limit in between. -/
theorem build_flat_outcome_between_limits :
    let a := Id.run ((⟨Flat.engine, { maxPacketSize := 20 }⟩ : Builder Id).build .page {} [⟨#[7], #[1, 2]⟩] #[9])
    a.built = .finished (.error (.allocationFailure 36)) ∧ a.requests = [(36, 12)] ∧
      a.registry.slots = [] ∧ a.registry.invocations = 1 := by
  intro a
  have hadmits : ({ maxPacketSize := 20 } : Limits).Admits [⟨#[7], #[1, 2]⟩] #[9] :=
    ⟨by decide, nofun, by decide⟩
  obtain ⟨-, -, -, -, hrefused, -, -, hslots, -⟩ :=
    build_flat_outcome { maxPacketSize := 20 } .page {} [⟨#[7], #[1, 2]⟩] #[9] (by decide)
  obtain ⟨hbuilt, hrequests, hinvocations⟩ := hrefused hadmits (by decide) (.inl (by decide))
  exact ⟨hbuilt, hrequests, hslots rfl, hinvocations⟩

end Builder

end PacketHost
