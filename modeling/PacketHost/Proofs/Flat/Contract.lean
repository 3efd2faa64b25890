import PacketHost.Engine.Direct
import PacketHost.Proofs.Flat.Build

/-!
# The agreement of the flat engine with its callers

A caller hands over any header array, any spans, any allocator and a place for the answer, or lacks some of it. The
engine checks everything before it asks for memory, asks once, for the exact packed size, and writes only into a buffer
that is large enough. The place for the answer is set exactly if the build succeeds.
-/

namespace PacketHost

/-- A null pointer with a length. -/
def Source.Dangling (s : Source) : Prop := s.isNull = true ∧ s.len ≠ 0

theorem Source.isValid_iff {s : Source} : s.isValid = true ↔ ¬s.Dangling := by
  obtain ⟨isNull, len, byteAt⟩ := s
  cases isNull with
  | false => simp [isValid, Dangling]
  | true => simp [isValid, Dangling]

theorem Source.readable_of_isValid {s : Source} (h : s.isValid = true) : s.readable = s.len := by
  obtain ⟨isNull, len, byteAt⟩ := s
  cases isNull with
  | false => rfl
  | true => exact (beq_iff_eq.mp h).symm

/-- Bytes that lie in a slice take the place of the bytes there. -/
theorem Slice.store_of_le {s : Slice} {addr : Nat} {bytes : Bytes} (hbase : s.base ≤ addr)
    (hstop : addr + bytes.size ≤ s.stop) : s.store addr bytes =
      ⟨s.base, s.bytes.extract 0 (addr - s.base) ++ (bytes ++
        s.bytes.extract (addr - s.base + bytes.size) s.bytes.size)⟩ := by
  unfold stop length at hstop
  unfold store
  rw [if_pos hbase, Bytes.splice_eq_append (by omega)]

namespace Flat

/-! ## The checks before the request -/

/-- The entries that an array has; a null pointer has none. -/
def HeaderArray.pairs : HeaderArray → List (Source × Source)
  | null _ => []
  | entries headers => headers

theorem HeaderArray.entries?_cases (headers : HeaderArray) :
    (headers.entries? = none ∧ ∃ count, headers = .null count ∧ count ≠ 0) ∨
      (headers.entries? = some headers.pairs ∧ ∀ count, headers = .null count → count = 0) := by
  cases headers with
  | entries headers => exact .inr ⟨rfl, nofun⟩
  | null count =>
      cases count with
      | zero => exact .inr ⟨rfl, fun _ h => (HeaderArray.null.inj h).symm⟩
      | succ count => exact .inl ⟨rfl, count + 1, rfl, Nat.succ_ne_zero count⟩

/-- A null array with a number of headers, a null span with a length, or no allocator. -/
def Malformed (headers : HeaderArray) (payload : Source) (hasAlloc : Bool) : Prop :=
  (∃ count, headers = .null count ∧ count ≠ 0) ∨
    (∃ p ∈ headers.pairs, p.1.Dangling ∨ p.2.Dangling) ∨ payload.Dangling ∨ hasAlloc = false

/-- The spans are valid, and there is an allocator. -/
def Wellformed (pairs : List (Source × Source)) (payload : Source) (hasAlloc : Bool) : Bool :=
  pairs.all (fun p => p.1.isValid && p.2.isValid) && payload.isValid && hasAlloc

/-- The packed size with the lengths that the spans claim. -/
def claimedSize (headers : HeaderArray) (payload : Source) : Nat :=
  16 + 16 * headers.pairs.length + (headers.pairs.map fun p => p.1.len + p.2.len).sum + payload.len

section

variable {headers : HeaderArray} {payload : Source} {hasAlloc : Bool}

theorem malformed_iff : Malformed headers payload hasAlloc ↔
    headers.entries? = none ∨ Wellformed headers.pairs payload hasAlloc = false := by
  have hvalid : Wellformed headers.pairs payload hasAlloc = false ↔
      (∃ p ∈ headers.pairs, p.1.Dangling ∨ p.2.Dangling) ∨ payload.Dangling ∨ hasAlloc = false := by
    rw [← Bool.not_eq_true]
    simp only [Wellformed, Bool.and_eq_true, List.all_eq_true, Source.isValid_iff]
    grind
  rw [hvalid]
  rcases headers.entries?_cases with ⟨hnone, hnull⟩ | ⟨hsome, hnull⟩
  · exact ⟨fun _ => .inl hnone, fun _ => .inl hnull⟩
  · refine or_congr_left ⟨fun ⟨count, hcount, hne⟩ => absurd (hnull count hcount) hne, fun hnone => ?_⟩
    exact nomatch hsome.symm.trans hnone

theorem prepare_of_malformed (h : Malformed headers payload hasAlloc) :
    prepare headers payload hasAlloc = .error .invalidArgument := by
  unfold prepare
  rcases headers.entries?_cases with ⟨hnone, -⟩ | ⟨hsome, -⟩
  · rw [hnone]
  · rcases malformed_iff.mp h with hnone | hform
    · exact nomatch hsome.symm.trans hnone
    · rw [hsome]
      exact if_neg (by rw [← Wellformed, hform]; exact Bool.false_ne_true)

theorem exactSize_readable (h : Wellformed headers.pairs payload hasAlloc = true) :
    exactSize (headers.pairs.map fun p => (p.1.readable, p.2.readable)) payload.readable =
      claimedSize headers payload := by
  simp only [Wellformed, Bool.and_eq_true, List.all_eq_true] at h
  obtain ⟨⟨hpairs, hpayload⟩, -⟩ := h
  have hsum : headers.pairs.map (fun p => p.1.readable + p.2.readable) =
      headers.pairs.map fun p => p.1.len + p.2.len := by
    refine List.map_congr_left fun p hp => ?_
    rw [Source.readable_of_isValid (hpairs p hp).1, Source.readable_of_isValid (hpairs p hp).2]
  unfold exactSize contentOf claimedSize tableSize
  rw [List.length_map, List.map_map, Source.readable_of_isValid hpayload]
  change 2 * 8 * _ + (headers.pairs.map fun p => p.1.readable + p.2.readable).sum + _ = _
  rw [hsum]
  omega

section

variable (h : ¬Malformed headers payload hasAlloc)

include h

theorem prepare_of_not_malformed : prepare headers payload hasAlloc =
    if claimedSize headers payload < Word.limit then .ok (headers.pairs, claimedSize headers payload)
    else .error .tooLarge := by
  rw [malformed_iff, not_or, Bool.not_eq_false] at h
  rcases headers.entries?_cases with ⟨hnone, -⟩ | ⟨hsome, -⟩
  · exact absurd hnone h.1
  · unfold prepare
    rw [hsome]
    dsimp only
    rw [← Wellformed, if_pos h.2, sizeFor_eq, exactSize_readable h.2]
    split
    · rfl
    · rfl

theorem size_encode_contents :
    (encode (contents headers.pairs) payload.bytes).size = claimedSize headers payload := by
  rw [malformed_iff, not_or, Bool.not_eq_false] at h
  have hlengths : (contents headers.pairs).map Header.lengths =
      headers.pairs.map fun p => (p.1.readable, p.2.readable) := by
    unfold contents
    rw [List.map_map]
    refine List.map_congr_left fun p _ => ?_
    simp only [Function.comp_apply, Header.lengths, Source.size_bytes]
  rw [← exactSize_lengths, hlengths, Source.size_bytes, exactSize_readable h.2]

end

end

/-! ## After the request -/

theorem fill_of_failed (pairs : List (Source × Source)) (payload : Source) {n : Nat} {reply : Reply}
    (hstatus : reply.status ≠ Status.okCode) : fill pairs payload n reply = .finish reply.status none :=
  if_neg hstatus

theorem fill_of_short (pairs : List (Source × Source)) (payload : Source) {n : Nat} {reply : Reply}
    (hstatus : reply.status = Status.okCode)
    (hshort : (reply.written.getD Span.null).addr = 0 ∨ (reply.written.getD Span.null).len < n) :
    fill pairs payload n reply = .finish Status.outOfMemory.code none := by
  unfold fill
  rw [if_pos hstatus]
  exact if_pos (hshort.imp_left beq_iff_eq.mpr)

/-! ## The whole call -/

section

variable {headers : HeaderArray} {payload : Source} {hasAlloc : Bool} (alloc : Nat → Allocation) (elsewhere : Memory)

/-- An allocator fails, gives too little, or gives enough. -/
theorem answer_cases (a : Allocation) (n : Nat) :
    a.status ≠ Status.okCode ∨
      (a.status = Status.okCode ∧ ((a.written.getD Span.null).addr = 0 ∨ (a.written.getD Span.null).len < n)) ∨
      (a.status = Status.okCode ∧ (a.written.getD Span.null).addr ≠ 0 ∧ n ≤ (a.written.getD Span.null).len) := by
  by_cases hstatus : a.status = Status.okCode
  · by_cases hshort : (a.written.getD Span.null).addr = 0 ∨ (a.written.getD Span.null).len < n
    · exact .inr (.inl ⟨hstatus, hshort⟩)
    · exact .inr (.inr ⟨hstatus, by omega, by omega⟩)
  · exact .inl hstatus

theorem run_request (n : Nat) (next : Reply → Packing) :
    Direct.run alloc elsewhere (.request n true true next) =
      (next ⟨(alloc n).status, (alloc n).written⟩).run (Direct.surroundings alloc elsewhere)
        ⟨[n], (alloc n).buffer⟩ := by
  have hbuffer : (alloc n).buffer.or none = (alloc n).buffer := Option.or_none
  rw [← hbuffer]
  rfl

theorem run_build_of_malformed (h : Malformed headers payload hasAlloc) :
    Direct.run alloc elsewhere (build headers payload hasAlloc true) =
      (.returned Status.invalidArgument.code none, {}) := by
  unfold build
  rw [if_pos rfl, prepare_of_malformed h]
  rfl

variable (h : ¬Malformed headers payload hasAlloc)

include h

theorem run_build_of_too_large (hsize : Word.limit ≤ claimedSize headers payload) :
    Direct.run alloc elsewhere (build headers payload hasAlloc true) =
      (.returned Status.tooLarge.code none, {}) := by
  unfold build
  rw [if_pos rfl, prepare_of_not_malformed h, if_neg (Nat.not_lt.mpr hsize)]
  rfl

variable {n : Nat} (hn : claimedSize headers payload = n) (hlt : n < Word.limit)

include hn hlt

/-- With every check passed, the allocator is asked for the packed size, and its answer decides. -/
theorem run_build_of_size : Direct.run alloc elsewhere (build headers payload hasAlloc true) =
    (fill headers.pairs payload n ⟨(alloc n).status, (alloc n).written⟩).run
      (Direct.surroundings alloc elsewhere) ⟨[n], (alloc n).buffer⟩ := by
  subst hn
  unfold build
  rw [if_pos rfl, prepare_of_not_malformed h, if_pos hlt]
  exact run_request alloc elsewhere _ _

/-- The packed form takes the place of what the buffer held at the address that the allocator gave. -/
theorem run_build_of_room (span : Span) (hstatus : (alloc n).status = Status.okCode)
    (hspan : (alloc n).written.getD Span.null = span) (haddr : span.addr ≠ 0) (hlen : n ≤ span.len) :
    Direct.run alloc elsewhere (build headers payload hasAlloc true) =
      (.returned Status.okCode (some ⟨span.addr, n⟩), ⟨[n], (alloc n).buffer.map fun b =>
        b.store span.addr (encode (contents headers.pairs) payload.bytes)⟩) := by
  have hencode := size_encode_contents h
  rw [run_build_of_size alloc elsewhere h hn hlt, fill_of_room _ _ span hstatus hspan haddr hlen, Packing.run,
    write_eq_of_size (by omega) (by simp [Direct.surroundings, Slice.loadOr, hencode, hn])]
  rfl

theorem run_build_of_failed (hstatus : (alloc n).status ≠ Status.okCode) :
    Direct.run alloc elsewhere (build headers payload hasAlloc true) =
      (.returned (alloc n).status none, ⟨[n], (alloc n).buffer⟩) := by
  rw [run_build_of_size alloc elsewhere h hn hlt, fill_of_failed _ _ hstatus]
  rfl

theorem run_build_of_short (hstatus : (alloc n).status = Status.okCode)
    (hshort : ((alloc n).written.getD Span.null).addr = 0 ∨ ((alloc n).written.getD Span.null).len < n) :
    Direct.run alloc elsewhere (build headers payload hasAlloc true) =
      (.returned Status.outOfMemory.code none, ⟨[n], (alloc n).buffer⟩) := by
  rw [run_build_of_size alloc elsewhere h hn hlt, fill_of_short _ _ hstatus hshort]
  rfl

theorem requested_build :
    (Direct.run alloc elsewhere (build headers payload hasAlloc true)).2.requested = [n] := by
  rcases answer_cases (alloc n) n with hstatus | ⟨hstatus, hshort⟩ | ⟨hstatus, haddr, hlen⟩
  · rw [run_build_of_failed alloc elsewhere h hn hlt hstatus]
  · rw [run_build_of_short alloc elsewhere h hn hlt hstatus hshort]
  · rw [run_build_of_room alloc elsewhere h hn hlt _ hstatus rfl haddr hlen]

end

/-- A place for the answer is set exactly if the status is success. -/
theorem returned_build (headers : HeaderArray) (payload : Source) (hasAlloc hasOut : Bool)
    (alloc : Nat → Allocation) (elsewhere : Memory) : ∃ status out,
      (Direct.run alloc elsewhere (build headers payload hasAlloc hasOut)).1 = .returned status out ∧
        (out.isSome = true ↔ status = Status.okCode) := by
  have hfailed : ∀ {status : Int}, status ≠ Status.okCode →
      ((none : Option Span).isSome = true ↔ status = Status.okCode) := fun h => ⟨nofun, fun he => absurd he h⟩
  cases hasOut with
  | false => exact ⟨_, _, rfl, hfailed (Status.code_ne_ok _)⟩
  | true =>
      by_cases h : Malformed headers payload hasAlloc
      · rw [run_build_of_malformed alloc elsewhere h]
        exact ⟨_, _, rfl, hfailed (Status.code_ne_ok _)⟩
      · by_cases hlt : claimedSize headers payload < Word.limit
        · rcases answer_cases (alloc (claimedSize headers payload)) (claimedSize headers payload) with
            hstatus | ⟨hstatus, hshort⟩ | ⟨hstatus, haddr, hlen⟩
          · rw [run_build_of_failed alloc elsewhere h rfl hlt hstatus]
            exact ⟨_, _, rfl, hfailed hstatus⟩
          · rw [run_build_of_short alloc elsewhere h rfl hlt hstatus hshort]
            exact ⟨_, _, rfl, hfailed (Status.code_ne_ok _)⟩
          · rw [run_build_of_room alloc elsewhere h rfl hlt _ hstatus rfl haddr hlen]
            exact ⟨_, _, rfl, fun _ => rfl, fun _ => rfl⟩
        · rw [run_build_of_too_large alloc elsewhere h (Nat.not_lt.mp hlt)]
          exact ⟨_, _, rfl, hfailed (Status.code_ne_ok _)⟩

/-- Every call of the flat engine. The first reason that applies decides the status; the allocator is asked exactly if
there is none before its answer, and only for the packed size; and the place for the answer is set exactly if the status
is success. -/
theorem build_contract (headers : HeaderArray) (payload : Source) (hasAlloc hasOut : Bool)
    (alloc : Nat → Allocation) (elsewhere : Memory) :
    let size := claimedSize headers payload
    let a := alloc size
    let span := a.written.getD Span.null
    let e := Direct.run alloc elsewhere (build headers payload hasAlloc hasOut)
    (hasOut = false → e = (.returned Status.badAddress.code none, {})) ∧
    (hasOut = true → Malformed headers payload hasAlloc →
      e = (.returned Status.invalidArgument.code none, {})) ∧
    (hasOut = true → ¬Malformed headers payload hasAlloc → Word.limit ≤ size →
      e = (.returned Status.tooLarge.code none, {})) ∧
    (hasOut = true → ¬Malformed headers payload hasAlloc → size < Word.limit →
      e.2.requested = [size] ∧
      (a.status ≠ Status.okCode → e = (.returned a.status none, ⟨[size], a.buffer⟩)) ∧
      (a.status = Status.okCode → span.addr = 0 ∨ span.len < size →
        e = (.returned Status.outOfMemory.code none, ⟨[size], a.buffer⟩)) ∧
      (a.status = Status.okCode → span.addr ≠ 0 → size ≤ span.len →
        e.1 = .returned Status.okCode (some ⟨span.addr, size⟩) ∧
        ∀ b, a.buffer = some b → b.base ≤ span.addr → span.addr + size ≤ b.stop →
          (encode (contents headers.pairs) payload.bytes).size = size ∧
          e.2.buffer = some ⟨b.base, b.bytes.extract 0 (span.addr - b.base) ++
            (encode (contents headers.pairs) payload.bytes ++
              b.bytes.extract (span.addr - b.base + size) b.bytes.size)⟩)) ∧
    ∃ status out, e.1 = .returned status out ∧ (out.isSome = true ↔ status = Status.okCode) := by
  intro size a span e
  refine ⟨?_, ?_, ?_, ?_, ?_⟩
  · rintro rfl
    rfl
  · rintro rfl hmalformed
    exact run_build_of_malformed alloc elsewhere hmalformed
  · rintro rfl hformed hsize
    exact run_build_of_too_large alloc elsewhere hformed hsize
  · rintro rfl hformed hlt
    refine ⟨requested_build alloc elsewhere hformed rfl hlt, run_build_of_failed alloc elsewhere hformed rfl hlt,
      run_build_of_short alloc elsewhere hformed rfl hlt, fun hstatus haddr hlen => ?_⟩
    have hroom := run_build_of_room alloc elsewhere hformed rfl hlt span hstatus rfl haddr hlen
    have hencode := size_encode_contents hformed
    refine ⟨congrArg Prod.fst hroom, fun b hb hbase hstop => ⟨hencode, ?_⟩⟩
    refine (congrArg (·.2.buffer) hroom).trans ?_
    change a.buffer.map _ = _
    rw [hb, Option.map_some, Slice.store_of_le hbase (by rw [hencode]; exact hstop), hencode]
  · exact returned_build headers payload hasAlloc hasOut alloc elsewhere

/-- An allocator that gives 40 bytes, all of them set before. -/
def fortyBytes : Nat → Allocation := fun _ =>
  { written := some ⟨100, 40⟩, buffer := some ⟨100, Array.replicate 40 255⟩ }

theorem build_contract_longer_buffer :
    let course := build (.entries (Builder.lend [⟨#[7], #[1, 2]⟩])) (Source.ofBytes #[9]) true true
    (Direct.run fortyBytes (fun _ => 0) course).1 = .returned 0 (some ⟨100, 36⟩) ∧
      (Direct.run fortyBytes (fun _ => 0) course).2.requested = [36] ∧
      (Direct.run fortyBytes (fun _ => 0) course).2.buffer =
        some ⟨100, encode [⟨#[7], #[1, 2]⟩] #[9] ++ #[255, 255, 255, 255]⟩ := by
  have hformed : ¬Malformed (.entries (Builder.lend [⟨#[7], #[1, 2]⟩])) (Source.ofBytes #[9]) true := by
    rw [malformed_iff]
    exact not_or.mpr ⟨nofun, by decide⟩
  have hsize : claimedSize (.entries (Builder.lend [⟨#[7], #[1, 2]⟩])) (Source.ofBytes #[9]) = 36 := rfl
  have hcontract := build_contract (.entries (Builder.lend [⟨#[7], #[1, 2]⟩])) (Source.ofBytes #[9]) true true
    fortyBytes (fun _ => 0)
  rw [hsize] at hcontract
  obtain ⟨-, -, -, hasked, -⟩ := hcontract
  obtain ⟨hrequested, -, -, hroom⟩ := hasked rfl hformed (by decide)
  obtain ⟨hreturned, hwritten⟩ := hroom rfl (by decide) (by decide)
  obtain ⟨-, hbuffer⟩ := hwritten ⟨100, Array.replicate 40 255⟩ rfl (by decide) (by decide)
  have hfront : (Array.replicate 40 255 : Bytes).extract 0 0 = #[] := rfl
  have hback : (Array.replicate 40 255 : Bytes).extract 36 40 = #[255, 255, 255, 255] := rfl
  refine ⟨hreturned, hrequested, hbuffer.trans ?_⟩
  rw [HeaderArray.pairs, contents_lend, Source.bytes_ofBytes]
  change some (Slice.mk 100 (Array.extract _ 0 0 ++ (_ ++ Array.extract _ 36 40))) = _
  rw [hfront, hback, Array.empty_append]

end Flat

end PacketHost
