import PacketHost.Flat.Engine
import PacketHost.Proofs.Flat.Write
import PacketHost.Proofs.Packet.OneShot
import PacketHost.Proofs.Span

/-!
# What a build of the flat engine amounts to

The engine asks once for the packed size. If there is a buffer, it holds the packed form afterwards and all of it is
reported; no check of the host refuses that. `pack` says the outcome of a build without registry, callback and
memory, and `built_eq` that it is the outcome.
-/

namespace PacketHost.Flat

/-! ## Inputs -/

theorem all_isValid_lend (headers : List Header) :
    ((Builder.lend headers).all fun p => p.1.isValid && p.2.isValid) = true := by
  rw [List.all_eq_true]
  intro p hp
  obtain ⟨h, -, rfl⟩ := List.mem_map.mp hp
  simp

theorem contents_lend (headers : List Header) : contents (Builder.lend headers) = headers := by
  unfold contents Builder.lend
  rw [List.map_map, List.map_congr_left (g := id), List.map_id]
  intro h _
  simp

theorem sizeFor_lend (headers : List Header) (payload : Bytes) :
    sizeFor ((Builder.lend headers).map fun p => (p.1.readable, p.2.readable)) (Source.ofBytes payload).readable =
      size headers payload := by
  unfold size Builder.lend
  rw [List.map_map, Source.readable_ofBytes]
  congr 1
  apply List.map_congr_left
  intro h _
  simp [Header.lengths]

/-- The engine refuses at once if the packed size is no word, and asks for it otherwise. -/
theorem build_lend (headers : List Header) (payload : Bytes) :
    build (.entries (Builder.lend headers)) (Source.ofBytes payload) true true =
      match size headers payload with
      | .ok size => .request size true true (fill (Builder.lend headers) (Source.ofBytes payload) size)
      | .error s => .finish s.code none := by
  have hprepare : prepare (.entries (Builder.lend headers)) (Source.ofBytes payload) true =
      (size headers payload).map fun size => (Builder.lend headers, size) := by
    simp only [prepare, HeaderArray.entries?, all_isValid_lend, Source.isValid_ofBytes, Bool.and_self, if_true,
      sizeFor_lend]
    cases size headers payload with
    | error s => rfl
    | ok n => rfl
  unfold build
  rw [if_pos rfl, hprepare]
  cases size headers payload with
  | error s => rfl
  | ok n => rfl

/-! ## After the request -/

theorem tableSize_pos (count : Nat) : 0 < tableSize count := by
  unfold tableSize Word.width
  omega

theorem size_encode_pos (headers : List Header) (payload : Bytes) : 0 < (encode headers payload).size := by
  have := tableSize_pos headers.length
  rw [encode_eq_layout, size_layout, payloadStart]
  omega

theorem splice_eq_self {buffer source : Bytes} (h : source.size = buffer.size) : buffer.splice 0 source = source := by
  have hs := Bytes.splice_append #[] buffer #[] source h
  simpa only [Array.empty_append, Array.append_empty, Array.size_empty] using hs

/-- With a buffer that is large enough, the engine reads it, packs into it and reports it. -/
theorem fill_of_room (pairs : List (Source × Source)) (payload : Source) {n : Nat} {reply : Reply} (span : Span)
    (hstatus : reply.status = Status.okCode) (hspan : reply.written.getD Span.null = span)
    (haddr : span.addr ≠ 0) (hlen : n ≤ span.len) :
    fill pairs payload n reply =
      .load span.addr n fun old =>
        match Flat.write old (contents pairs) payload.bytes with
        | .ok packed => .store span.addr packed (.finish Status.okCode (some ⟨span.addr, n⟩))
        | .error _ => .finish Status.internal.code none := by
  subst hspan
  have hnull : ¬((reply.written.getD Span.null).isNull = true ∨ (reply.written.getD Span.null).len < n) := by
    simp only [Span.isNull, beq_iff_eq]
    omega
  unfold fill
  rw [if_pos hstatus]
  exact if_neg hnull

/-- The packed form in a buffer of its own. -/
def packet (base : Nat) (headers : List Header) (payload : Bytes) : Packet where
  buffer := ⟨base, encode headers payload⟩
  extent := ⟨0, (encode headers payload).size⟩

section

variable {headers : List Header} {payload : Bytes} {base : Nat} (hbase : 0 < base)
  (hfit : base + (encode headers payload).size < Word.limit)

include hbase hfit

theorem run_fill (grant : Nat → Grant) (memory : Memory) {buffer : Bytes}
    (hb : buffer.size = (encode headers payload).size) (requests : List (Nat × Int)) :
    (fill (Builder.lend headers) (Source.ofBytes payload) (encode headers payload).size
        (Grant.granted ⟨base, buffer⟩).reply).run (Desk.oneShot grant memory)
        ⟨some (.granted ⟨base, buffer⟩), requests⟩ =
      (.returned Status.okCode (some ⟨base, (encode headers payload).size⟩),
        ⟨some (.granted ⟨base, encode headers payload⟩), requests⟩) := by
  have hpos := size_encode_pos headers payload
  have hreply : (Grant.granted ⟨base, buffer⟩).reply =
      ⟨Status.okCode, some ⟨base, (encode headers payload).size⟩⟩ := by
    have hsize : 0 < (Slice.mk base buffer).length := Nat.lt_of_lt_of_eq hpos hb.symm
    simp only [Grant.reply, Slice.span_of_pos hsize]
    rw [← hb]
    rfl
  have hstore : (Slice.mk base buffer).store base (encode headers payload) =
      ⟨base, encode headers payload⟩ := by
    unfold Slice.store
    rw [if_pos (Nat.le_refl _)]
    simp only [Nat.sub_self, splice_eq_self hb.symm]
  rw [hreply, fill_of_room _ _ ⟨base, _⟩ rfl rfl (Nat.ne_of_gt hbase) (Nat.le_refl _), contents_lend,
    Source.bytes_ofBytes, Packing.run,
    write_eq_of_size (by omega) (by simp [Desk.oneShot, Desk.load, Slice.loadOr]), Packing.run,
    Packing.run, ← hstore]
  rfl

theorem settle_packet :
    Builder.settle Status.okCode ⟨base, (encode headers payload).size⟩
        (some (.granted ⟨base, encode headers payload⟩)) = .ok (packet base headers payload) := by
  have hpos := size_encode_pos headers payload
  have hstop : (Slice.mk base (encode headers payload)).stop < Word.limit := hfit
  have hview := (Span.viewOf_iff (s := ⟨base, (encode headers payload).size⟩) hstop).mpr
    ⟨hpos, hbase, Nat.le_refl _, Nat.le_refl _⟩
  have hextent : (⟨base - base, base - base + (encode headers payload).size⟩ : Extent) =
      ⟨0, (encode headers payload).size⟩ := by
    rw [Nat.sub_self, Nat.zero_add]
  change (if (_ || !_ || !_) = true then _
    else Except.ok ({ buffer := ⟨base, encode headers payload⟩, extent := ⟨base - base, _⟩ } : Packet)) = _
  rw [hview, hextent]
  rfl

end

/-! ## The whole build -/

/-- What comes of a build, without registry, callback and memory. -/
def pack (l : Limits) (host : Host) (headers : List Header) (payload : Bytes) : Except HostError Packet :=
  match l.check headers payload with
  | .error e => .error e
  | .ok () =>
    match size headers payload with
    | .error s => .error (.ofStatus s)
    | .ok size =>
      match l.grant host size with
      | .granted buffer => .ok (packet buffer.base headers payload)
      | .refused requested => .error (.allocationFailure requested)

theorem grant_eq_granted {l : Limits} {host : Host} {n : Nat} {buffer : Slice} (h : l.grant host n = .granted buffer) :
    0 < buffer.base ∧ buffer.base + n < Word.limit ∧ buffer.bytes.size = n := by
  unfold Limits.grant at h
  split at h
  · cases h
  · cases hr : host.reserve n with
    | none =>
        rw [hr] at h
        cases h
    | some base =>
        rw [hr] at h
        cases h
        obtain ⟨hbase, hfit⟩ := host.reserve_fits n base hr
        exact ⟨hbase, hfit, Array.size_replicate⟩

section

variable (l : Limits) (host : Host) {headers : List Header} {payload : Bytes}

def course (headers : List Header) (payload : Bytes) : Packing :=
  build (.entries (Builder.lend headers)) (Source.ofBytes payload) true true

theorem solo_of_error {s : Status} (h : size headers payload = .error s) :
    Builder.solo (⟨engine, l⟩ : Builder Id) host (course headers payload) = (.returned s.code none, {}) := by
  unfold Builder.solo course
  rw [build_lend, h]
  rfl

theorem solo_of_granted {n : Nat} {buffer : Slice} (h : size headers payload = .ok n)
    (hg : l.grant host n = .granted buffer) :
    Builder.solo (⟨engine, l⟩ : Builder Id) host (course headers payload) =
      (.returned Status.okCode (some ⟨buffer.base, n⟩),
        ⟨some (.granted ⟨buffer.base, encode headers payload⟩), [(n, Status.okCode)]⟩) := by
  obtain ⟨hbase, hfit, hbytes⟩ := grant_eq_granted hg
  obtain ⟨rfl, -⟩ := size_eq_ok_iff.mp h
  have hfill := run_fill hbase hfit (l.grant host) host.memory hbytes
    [((encode headers payload).size, Status.okCode)]
  unfold Builder.solo course
  rw [build_lend, h, Desk.run_request, Desk.requestOnce_of_none _ rfl, hg]
  exact hfill

theorem solo_of_refused {n requested : Nat} (h : size headers payload = .ok n)
    (hg : l.grant host n = .refused requested) :
    Builder.solo (⟨engine, l⟩ : Builder Id) host (course headers payload) =
      (.returned Status.outOfMemory.code none,
        ⟨some (.refused requested), [(n, Status.outOfMemory.code)]⟩) := by
  unfold Builder.solo course
  rw [build_lend, h, Desk.run_request, Desk.requestOnce_of_none _ rfl, hg]
  rfl

theorem conclude_solo (h : l.check headers payload = .ok ()) :
    let b : Builder Id := ⟨engine, l⟩
    let e := b.solo host (course headers payload)
    b.conclude e.1 e.2.grant? = .finished ((pack l host headers payload).map fun p => ⟨engine, .valid p⟩) := by
  intro b e
  unfold pack
  rw [h]
  cases hs : size headers payload with
  | error s =>
      have he : e = _ := solo_of_error l host hs
      rw [he]
      cases s <;> rfl
  | ok n =>
      cases hg : l.grant host n with
      | granted buffer =>
          have he : e = _ := solo_of_granted l host hs hg
          obtain ⟨hbase, hfit, -⟩ := grant_eq_granted hg
          obtain ⟨rfl, -⟩ := size_eq_ok_iff.mp hs
          have hsettle := settle_packet hbase hfit
          simp only [he, hg]
          rw [← hsettle]
          rfl
      | refused requested =>
          have he : e = _ := solo_of_refused l host hs hg
          simp only [he, hg]
          rfl

end

/-- Whatever a registry holds, a build comes to what `pack` says. -/
theorem built_eq (l : Limits) (host : Host) (r : Registry Callback) (headers : List Header) (payload : Bytes) :
    (Id.run ((⟨engine, l⟩ : Builder Id).build host r headers payload)).built =
      .finished ((pack l host headers payload).map fun p => ⟨engine, .valid p⟩) := by
  cases hc : l.check headers payload with
  | error e =>
      unfold Builder.build pack
      rw [hc]
      rfl
  | ok =>
      rw [← conclude_solo l host hc, ← (Builder.perform_eq _ host r _).1]
      unfold Builder.build
      rw [hc]
      rfl

end PacketHost.Flat
