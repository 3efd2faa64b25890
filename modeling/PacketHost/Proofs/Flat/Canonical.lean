import PacketHost.Proofs.Flat.Decode
import PacketHost.Proofs.Flat.Write

/-!
# Encoding what was decoded

Each header of a packet is checked against its own three offsets. Together these checks leave no room between
the pieces: a buffer whose headers can all be read is a packet with at most one gap, between offset table and
first piece (`readable_iff_layout`). Without that gap it is the packed form of what it decodes to.
-/

namespace PacketHost.Flat

/-- The buffer is accepted, and each of its headers can be read. -/
def Readable (buffer : Bytes) : Prop :=
  ∃ t, Table.ofBytes buffer = .ok t ∧ ∀ index < t.count, ∃ h, t.headerBytes index = .ok h

/-- The buffer is what some packet becomes when it is written into a buffer of its packed size. -/
def Packed (buffer : Bytes) : Prop :=
  ∃ headers payload size, Flat.size headers payload = .ok size ∧
    ∃ destination : Bytes, destination.size = size ∧ write destination headers payload = .ok buffer

/-! ## Uniqueness -/

theorem found_injective {α : Type} {reason : Status} {a b : Option α} (h : found reason a = found reason b) :
    a = b := by
  cases a with
  | none =>
      cases b with
      | none => rfl
      | some b => cases h
  | some a =>
      cases b with
      | none => cases h
      | some b =>
          cases h
          rfl

theorem Decodes.unique {buffer payload payload' : Bytes} {headers headers' : List Header}
    (h : Decodes buffer headers payload) (h' : Decodes buffer headers' payload') :
    headers = headers' ∧ payload = payload' := by
  obtain ⟨t, ht, hh⟩ := h
  obtain ⟨t', ht', hh'⟩ := h'
  rw [ht] at ht'
  cases ht'
  constructor
  · apply List.ext_getElem?
    intro index
    apply found_injective
    rw [← hh.header, ← hh'.header]
  · have hp := hh.payload
    rw [hh'.payload] at hp
    cases hp
    rfl

theorem Decodes.readable {buffer payload : Bytes} {headers : List Header} (h : Decodes buffer headers payload) :
    Readable buffer := by
  obtain ⟨t, ht, hh⟩ := h
  refine ⟨t, ht, fun index hi => ?_⟩
  rw [hh.count] at hi
  exact ⟨headers[index], by rw [hh.header, List.getElem?_eq_getElem hi]; rfl⟩

/-! ## No room between pieces -/

theorem map_range_succ (f : Nat → Nat) (n : Nat) :
    (List.range (n + 1)).map f = f 0 :: (List.range n).map fun k => f (k + 1) := by
  rw [List.range_succ_eq_map, List.map_cons, List.map_map]
  rfl

theorem extract_join {buffer : Bytes} {i j k : Nat} (h₁ : i ≤ j) (h₂ : j ≤ k) :
    buffer.extract i j ++ buffer.extract j k = buffer.extract i k := by
  rw [Array.extract_append_extract, Nat.min_eq_left h₁, Nat.max_eq_right h₂]

/-- Parts of a buffer between neighbouring positions make up the part from the first position to the last. -/
theorem flatten_eq_extract {buffer : Bytes} {ps : List Bytes} (position : Nat → Nat)
    (h : ∀ j p, ps[j]? = some p → position j ≤ position (j + 1) ∧ position (j + 1) ≤ buffer.size ∧
      buffer.extract (position j) (position (j + 1)) = p) :
    positions (position 0) ps = (List.range (ps.length + 1)).map position ∧
      position 0 ≤ position ps.length ∧
      ps.toArray.flatten = buffer.extract (position 0) (position ps.length) := by
  induction ps generalizing position with
  | nil =>
      refine ⟨rfl, Nat.le_refl _, ?_⟩
      rw [List.length_nil, Array.extract_eq_empty_of_le (Nat.min_le_left _ _)]
      rfl
  | cons p ps ih =>
      obtain ⟨hle, hsize, hp⟩ := h 0 p rfl
      obtain ⟨hpos, hmono, hflat⟩ := ih (fun j => position (j + 1)) fun j p hj => h (j + 1) p hj
      simp only [Nat.zero_add] at hle hsize hp hpos hmono hflat
      have hnext : position 0 + p.size = position 1 := by
        rw [← hp, Array.size_extract]
        omega
      refine ⟨?_, Nat.le_trans hle hmono, ?_⟩
      · rw [positions, hnext, hpos, List.length_cons, map_range_succ position]
      · rw [flatten_cons, hflat, ← hp]
        exact extract_join hle hmono

/-- The headers that lie between the offsets of a buffer. -/
def headersOf (buffer : Bytes) : List Header :=
  (List.range (countOf buffer)).map fun index =>
    ⟨(pieceExtent buffer (2 * index)).read buffer, (pieceExtent buffer (2 * index + 1)).read buffer⟩

@[simp] theorem length_headersOf (buffer : Bytes) : (headersOf buffer).length = countOf buffer := by
  simp [headersOf]

theorem pieces_headersOf {buffer p : Bytes} {j : Nat} (hf : Framed buffer)
    (ho : ∀ index < countOf buffer, InOrder buffer index) (hp : (pieces (headersOf buffer))[j]? = some p) :
    offset buffer j ≤ offset buffer (j + 1) ∧ offset buffer (j + 1) ≤ buffer.size ∧
      buffer.extract (offset buffer j) (offset buffer (j + 1)) = p := by
  have hj : j < 2 * countOf buffer := by
    have := (List.getElem?_eq_some_iff.mp hp).1
    simpa using this
  have hsize := hf.2.2
  obtain ⟨i, rfl | rfl⟩ : ∃ i, j = 2 * i ∨ j = 2 * i + 1 := ⟨j / 2, by omega⟩
  · obtain ⟨h₁, h₂, h₃, h₄⟩ := ho i (by omega)
    rw [getElem?_pieces_key] at hp
    simp only [headersOf, List.getElem?_map, List.getElem?_range (show i < countOf buffer by omega),
      Option.map_some, Option.some.injEq] at hp
    exact ⟨h₂, by omega, hp⟩
  · obtain ⟨h₁, h₂, h₃, h₄⟩ := ho i (by omega)
    rw [getElem?_pieces_val] at hp
    simp only [headersOf, List.getElem?_map, List.getElem?_range (show i < countOf buffer by omega),
      Option.map_some, Option.some.injEq] at hp
    exact ⟨h₃, Nat.le_trans h₄ hsize, hp⟩

/-- The bytes between the offset table and the first offset. -/
def gapOf (buffer : Bytes) : Bytes := buffer.extract (tableSize (countOf buffer)) (offset buffer 0)

section

variable {buffer : Bytes} (hf : Framed buffer) (ho : ∀ index < countOf buffer, InOrder buffer index)

include hf ho

theorem tableSize_le_offset_zero : tableSize (countOf buffer) ≤ offset buffer 0 := by
  cases hn : countOf buffer with
  | zero =>
      -- Without headers the first offset is the position of the payload.
      have hp : payloadOf buffer = offset buffer 0 := by
        unfold payloadOf
        rw [hn]
      have := hf.2.1
      rw [hn, hp] at this
      exact this
  | succ n =>
      have := (ho 0 (by omega)).1
      rw [hn] at this
      exact this

theorem pieces_headersOf_join :
    positions (offset buffer 0) (pieces (headersOf buffer)) =
        (List.range (2 * countOf buffer + 1)).map (offset buffer) ∧
      offset buffer 0 ≤ payloadOf buffer ∧
      content (headersOf buffer) = buffer.extract (offset buffer 0) (payloadOf buffer) := by
  have hjoin := flatten_eq_extract (offset buffer) fun j p hj => pieces_headersOf hf ho hj
  rw [length_pieces, length_headersOf] at hjoin
  exact hjoin

theorem tableSize_add_gapOf : tableSize (countOf buffer) + (gapOf buffer).size = offset buffer 0 := by
  have hstart := tableSize_le_offset_zero hf ho
  obtain ⟨-, hmono, -⟩ := pieces_headersOf_join hf ho
  have hsize := hf.2.2
  rw [gapOf, Array.size_extract]
  omega

theorem payloadStart_headersOf : payloadStart (headersOf buffer) (gapOf buffer) = payloadOf buffer := by
  obtain ⟨-, hmono, hcontent⟩ := pieces_headersOf_join hf ho
  have hsize := hf.2.2
  rw [payloadStart, length_headersOf, tableSize_add_gapOf hf ho, hcontent, Array.size_extract]
  omega

theorem table_headersOf :
    (encodeWords (countOf buffer :: positions (offset buffer 0) (pieces (headersOf buffer)))).toArray =
      buffer.extract 0 (tableSize (countOf buffer)) := by
  obtain ⟨hpos, -, -⟩ := pieces_headersOf_join hf ho
  have hwidth : Word.width * (2 * countOf buffer + 1 + 1) = tableSize (countOf buffer) := by
    simp only [tableSize, Word.width]
    omega
  have hwords : countOf buffer :: positions (offset buffer 0) (pieces (headersOf buffer)) =
      (List.range (2 * countOf buffer + 1 + 1)).map (storedWord buffer) := by
    rw [hpos, map_range_succ (storedWord buffer)]
    rfl
  have hroom : tableSize (countOf buffer) ≤ buffer.size := Nat.le_trans hf.2.1 hf.2.2
  rw [hwords, encodeWords_storedWord (by omega), hwidth]

theorem eq_layout :
    buffer = layout (headersOf buffer) (gapOf buffer) (buffer.extract (payloadOf buffer) buffer.size) := by
  obtain ⟨-, hmono, hcontent⟩ := pieces_headersOf_join hf ho
  have hstart := tableSize_le_offset_zero hf ho
  have hsize := hf.2.2
  unfold layout
  rw [length_headersOf, tableSize_add_gapOf hf ho, table_headersOf hf ho, hcontent, gapOf,
    extract_join hmono hsize, extract_join hstart (Nat.le_trans hmono hsize),
    extract_join (Nat.zero_le _) (Nat.le_trans hstart (Nat.le_trans hmono hsize)),
    Array.extract_eq_self_of_le (Nat.le_refl _)]

end

theorem readable_iff {buffer : Bytes} :
    Readable buffer ↔ Framed buffer ∧ ∀ index < countOf buffer, InOrder buffer index := by
  constructor
  · rintro ⟨t, ht, hread⟩
    obtain ⟨hf, rfl⟩ := ofBytes_eq_ok_iff.mp ht
    refine ⟨hf, fun index hi => ?_⟩
    obtain ⟨h, hh⟩ := hread index hi
    obtain ⟨e, he, -⟩ := headerBytes_eq_ok_iff.mp hh
    rw [header_eq hf, if_neg (by omega)] at he
    by_cases ho : InOrder buffer index
    · exact ho
    · rw [if_neg ho] at he
      cases he
  · rintro ⟨hf, ho⟩
    refine ⟨_, ofBytes_of_framed hf, fun index hi => ?_⟩
    rw [tableOf_count] at hi
    have hread := header_eq hf index
    rw [if_neg (by omega), if_pos (ho index hi)] at hread
    exact ⟨⟨_, _⟩, headerBytes_eq_ok_iff.mpr ⟨_, hread, rfl, rfl⟩⟩

/-- A buffer that can be read is a packet with a gap, and decodes to what this packet was made from. -/
theorem Readable.exists_layout {buffer : Bytes} (h : Readable buffer) :
    ∃ headers gap payload, payloadStart headers gap < Word.limit ∧ buffer = layout headers gap payload ∧
      Decodes buffer headers payload := by
  obtain ⟨hf, ho⟩ := readable_iff.mp h
  have hlayout := eq_layout hf ho
  have hlt : payloadStart (headersOf buffer) (gapOf buffer) < Word.limit := by
    rw [payloadStart_headersOf hf ho]
    exact offset_lt _ _
  have hdecodes := decodes_layout hlt (buffer.extract (payloadOf buffer) buffer.size)
  rw [← hlayout] at hdecodes
  exact ⟨_, _, _, hlt, hlayout, hdecodes⟩

theorem Decodes.exists_layout {buffer payload : Bytes} {headers : List Header}
    (h : Decodes buffer headers payload) :
    ∃ gap, payloadStart headers gap < Word.limit ∧ buffer = layout headers gap payload := by
  obtain ⟨_, gap, _, hlt, hlayout, hdecodes⟩ := h.readable.exists_layout
  obtain ⟨rfl, rfl⟩ := h.unique hdecodes
  exact ⟨gap, hlt, hlayout⟩

/-! ## What a packet with a gap encodes to -/

section

variable {headers : List Header} {gap : Bytes} (hlt : payloadStart headers gap < Word.limit)
  (payload : Bytes)

include hlt

theorem offset_zero_layout :
    offset (layout headers gap payload) 0 = tableSize headers.length + gap.size :=
  offset_layout hlt payload (Nat.zero_le _)

theorem extract_content_layout :
    (layout headers gap payload).extract (offset (layout headers gap payload) 0)
      (layout headers gap payload).size = content headers ++ payload := by
  have hfront := extract_append_size
    ((encodeWords (headers.length :: positions (tableSize headers.length + gap.size) (pieces headers))).toArray ++
      gap) (content headers ++ payload) 0 (content headers ++ payload).size
  rw [Array.size_append, size_table, Nat.add_zero, Array.append_assoc,
    Array.extract_eq_self_of_le (Nat.le_refl _)] at hfront
  rw [offset_zero_layout hlt, size_layout, payloadStart, Nat.add_assoc, ← Array.size_append]
  exact hfront

end

theorem size_layout_eq_add_gap (headers : List Header) (gap payload : Bytes) :
    (layout headers gap payload).size = (encode headers payload).size + gap.size := by
  rw [encode_eq_layout, size_layout, size_layout]
  simp only [payloadStart, Array.size_empty]
  omega

theorem packed_iff {buffer : Bytes} :
    Packed buffer ↔ ∃ headers payload, buffer.size < Word.limit ∧ buffer = encode headers payload := by
  constructor
  · rintro ⟨headers, payload, size, hsize, destination, hd, hw⟩
    obtain ⟨rfl, hlt⟩ := size_eq_ok_iff.mp hsize
    rw [write_eq_of_size hlt hd] at hw
    cases hw
    exact ⟨headers, payload, hlt, rfl⟩
  · rintro ⟨headers, payload, hlt, rfl⟩
    exact ⟨headers, payload, _, size_eq_ok_iff.mpr ⟨rfl, hlt⟩, encode headers payload, rfl,
      write_eq_of_size hlt rfl⟩

/-! ## Encoding undoes decoding -/

section

variable {buffer : Bytes} (hbuffer : buffer.size < Word.limit)

include hbuffer

theorem payloadStart_lt_of_eq_layout {headers : List Header} {gap payload : Bytes}
    (h : buffer = layout headers gap payload) : payloadStart headers gap < Word.limit := by
  rw [h, size_layout] at hbuffer
  omega

theorem Decodes.write_eq {headers : List Header} {payload : Bytes} (h : Decodes buffer headers payload)
    (hzero : offset buffer 0 = tableSize headers.length) {destination : Bytes}
    (hd : destination.size = buffer.size) : write destination headers payload = .ok buffer := by
  obtain ⟨gap, hlt, rfl⟩ := h.exists_layout
  rw [offset_zero_layout hlt] at hzero
  obtain rfl : gap = #[] := Array.eq_empty_of_size_eq_zero (by omega)
  rw [← encode_eq_layout] at hbuffer hd ⊢
  exact write_eq_of_size hbuffer hd

theorem packed_iff_readable :
    Packed buffer ↔ Readable buffer ∧ offset buffer 0 = tableSize (countOf buffer) := by
  constructor
  · intro hp
    obtain ⟨headers, payload, -, rfl⟩ := packed_iff.mp hp
    rw [encode_eq_layout] at hbuffer ⊢
    have hlt := payloadStart_lt_of_eq_layout hbuffer rfl
    refine ⟨(decodes_layout hlt payload).readable, ?_⟩
    rw [offset_zero_layout hlt, countOf_layout hlt]
    rfl
  · rintro ⟨hr, hzero⟩
    obtain ⟨headers, gap, payload, hlt, rfl, -⟩ := hr.exists_layout
    rw [offset_zero_layout hlt, countOf_layout hlt] at hzero
    obtain rfl : gap = #[] := Array.eq_empty_of_size_eq_zero (by omega)
    rw [← encode_eq_layout] at hbuffer ⊢
    exact packed_iff.mpr ⟨headers, payload, hbuffer, rfl⟩

theorem readable_iff_layout :
    Readable buffer ↔ ∃ headers gap payload, gap.size = offset buffer 0 - tableSize headers.length ∧
      buffer = layout headers gap payload := by
  constructor
  · intro hr
    obtain ⟨headers, gap, payload, hlt, rfl, -⟩ := hr.exists_layout
    refine ⟨headers, gap, payload, ?_, rfl⟩
    rw [offset_zero_layout hlt]
    omega
  · rintro ⟨headers, gap, payload, -, rfl⟩
    exact (decodes_layout (payloadStart_lt_of_eq_layout hbuffer rfl) payload).readable

end

/-- Writing the decoded headers and payload again gives the decoded bytes back, up to the gap that lies before
the first piece. -/
theorem encode_decoded {buffer : Bytes} (hbuffer : buffer.size < Word.limit) :
    (Readable buffer ↔ ∃ headers payload, Decodes buffer headers payload) ∧
    (∀ headers payload, Decodes buffer headers payload →
      tableSize headers.length ≤ offset buffer 0 ∧
      (∃ size, Flat.size headers payload = .ok size ∧
        buffer.size = size + (offset buffer 0 - tableSize headers.length)) ∧
      buffer.extract (offset buffer 0) buffer.size = content headers ++ payload ∧
      (offset buffer 0 = tableSize headers.length →
        ∀ destination : Bytes, destination.size = buffer.size →
          write destination headers payload = .ok buffer)) ∧
    (Packed buffer ↔ Readable buffer ∧ offset buffer 0 = tableSize (countOf buffer)) ∧
    (Readable buffer ↔ ∃ headers gap payload, gap.size = offset buffer 0 - tableSize headers.length ∧
      buffer = layout headers gap payload) := by
  refine ⟨⟨?_, fun ⟨_, _, h⟩ => h.readable⟩, ?_, packed_iff_readable hbuffer, readable_iff_layout hbuffer⟩
  · intro hr
    obtain ⟨headers, _, payload, -, -, hdecodes⟩ := hr.exists_layout
    exact ⟨headers, payload, hdecodes⟩
  · intro headers payload h
    have hwrite : offset buffer 0 = tableSize headers.length → ∀ destination : Bytes,
        destination.size = buffer.size → write destination headers payload = .ok buffer :=
      fun hzero _ hd => h.write_eq hbuffer hzero hd
    obtain ⟨gap, hlt, rfl⟩ := h.exists_layout
    have hsize := size_layout_eq_add_gap headers gap payload
    have hzero := offset_zero_layout hlt payload
    exact ⟨by omega, ⟨_, size_eq_ok_iff.mpr ⟨rfl, by omega⟩, by omega⟩, extract_content_layout hlt payload, hwrite⟩

/-- A packet with one header and a gap of two bytes: it can be read, but no packet is written like this. -/
theorem encode_decoded_gap_of_two :
    let buffer : Bytes := #[1, 0, 0, 0, 0, 0, 0, 0, 34, 0, 0, 0, 0, 0, 0, 0, 35, 0, 0, 0, 0, 0, 0, 0,
      37, 0, 0, 0, 0, 0, 0, 0, 255, 254, 7, 1, 2, 9]
    buffer.size < Word.limit ∧
      (∃ headers payload, Decodes buffer headers payload ∧ Flat.size headers payload = .ok 36 ∧
        buffer.extract 34 38 = content headers ++ payload) ∧
      ¬Packed buffer := by
  intro buffer
  have hbuffer : buffer.size < Word.limit := by decide
  obtain ⟨hread, hencode, hpacked, -⟩ := encode_decoded hbuffer
  have hread' : Readable buffer := readable_iff.mpr ⟨by decide, by decide⟩
  have hcount : countOf buffer = 1 := by decide
  have hzero : offset buffer 0 = 34 := by decide
  refine ⟨hbuffer, ?_, ?_⟩
  · obtain ⟨headers, payload, h⟩ := hread.mp hread'
    have hlen : headers.length = 1 := by
      obtain ⟨t, ht, hh⟩ := h
      obtain ⟨-, rfl⟩ := ofBytes_eq_ok_iff.mp ht
      rw [← hh.count, tableOf_count, hcount]
    obtain ⟨-, ⟨size, hsize, heq⟩, hcontent, -⟩ := hencode headers payload h
    rw [hzero, hlen] at heq
    obtain rfl : size = 36 := by
      have : buffer.size = 38 := rfl
      simp only [tableSize, Word.width] at heq
      omega
    rw [hzero] at hcontent
    exact ⟨headers, payload, h, hsize, hcontent⟩
  · intro hp
    have hgap := (hpacked.mp hp).2
    rw [hzero, hcount] at hgap
    exact absurd hgap (by decide)

end PacketHost.Flat
