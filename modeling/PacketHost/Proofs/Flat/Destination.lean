import PacketHost.Proofs.Flat.Decoder
import PacketHost.Proofs.Flat.Write

/-!
# Writing into any destination

Both cursors of the writer stay within the packed size. So a destination that is too short is left at its end, and not
at the end of the words (`write_of_lt`); any other gets the packed form over its first bytes, whatever these were, and
keeps the rest. `write_exact` says this with every byte of the packed form spelled out.
-/

namespace PacketHost.Flat

/-! ## Destinations that are too short -/

/-- A writer leaves the buffer at its end, or has room for all that it writes. -/
def Bounded (buffer : Bytes) (stop : Nat) (result : Except Trap Bytes) : Prop :=
  result = .error .outOfBounds ∨ ∃ after : Bytes, result = .ok after ∧ stop ≤ buffer.size

section

variable {buffer : Bytes} {stop : Nat}

theorem Bounded.bind {source : Bytes} {pos : Nat} {f : Bytes → Except Trap Bytes}
    (hl : pos + source.size < Word.limit)
    (hf : ∀ after : Bytes, after.size = buffer.size → Bounded after stop (f after)) :
    Bounded buffer stop (buffer.write pos source >>= f) := by
  rcases Bytes.write_cases buffer hl with hw | ⟨after, hw, hsize, -⟩
  · rw [hw]
    exact .inl rfl
  · have hafter := hf after hsize
    unfold Bounded at hafter ⊢
    rw [hw, ← hsize]
    exact hafter

theorem bounded_write {source : Bytes} {pos : Nat} (hl : pos + source.size < Word.limit) :
    Bounded buffer (pos + source.size) (buffer.write pos source) := by
  rcases Bytes.write_cases buffer hl with hw | ⟨after, hw, -, hle⟩
  · exact .inl hw
  · exact .inr ⟨after, hw, hle⟩

end

/-- The induction is on the pieces that are left. Of the two writes for each piece the one into the content lies
further back, so that only the last of these has to fit. -/
theorem putAll_bounded (payload : Bytes) (ps : List Bytes) {buffer : Bytes} {entry content : Nat}
    (hentry : entry + Word.width * (ps.length + 1) < Word.limit)
    (hcontent : content + ps.toArray.flatten.size + payload.size < Word.limit) :
    Bounded buffer (content + ps.toArray.flatten.size + payload.size)
      (Cursor.putAll ⟨buffer, entry, content⟩ ps >>= fun cursor => cursor.finish payload) := by
  have hword (w : Nat) : (Word.encode w).toArray.size = Word.width := by
    rw [List.size_toArray, Word.length_encode]
  induction ps generalizing buffer entry content with
  | nil =>
      have hflat : ([] : List Bytes).toArray.flatten.size = 0 := rfl
      rw [hflat, Nat.add_zero] at hcontent ⊢
      rw [List.length_nil, Nat.zero_add, Nat.mul_one] at hentry
      exact .bind (by rwa [hword]) fun after _ => bounded_write hcontent
  | cons p ps ih =>
      rw [flatten_cons, Array.size_append] at hcontent ⊢
      rw [List.length_cons, Nat.mul_succ] at hentry
      have hnext : Trap.add entry Word.width = .ok (entry + Word.width) := Trap.add_of_lt (by omega)
      have hpiece : Trap.add content p.size = .ok (content + p.size) := Trap.add_of_lt (by omega)
      have hsum : content + (p.size + ps.toArray.flatten.size) + payload.size =
          content + p.size + ps.toArray.flatten.size + payload.size := by omega
      simp only [Cursor.putAll, Cursor.put, bind_assoc, hnext, hpiece, ok_bind, pure_bind]
      refine .bind (by rw [hword]; omega) fun _ _ => .bind (by omega) fun after _ => ?_
      rw [hsum]
      exact ih (by omega) (by omega)

theorem write_of_lt {destination : Bytes} {headers : List Header} {payload : Bytes}
    (hl : (encode headers payload).size < Word.limit) (hd : destination.size < (encode headers payload).size) :
    write destination headers payload = .error .outOfBounds := by
  have hsize := size_layout headers #[] payload
  rw [← encode_eq_layout] at hsize
  unfold payloadStart content at hsize
  rw [Array.size_empty, Nat.add_zero] at hsize
  have htable : tableSize headers.length = Word.width + Word.width * (2 * headers.length + 1) := by
    unfold tableSize Word.width
    omega
  have hbounded : Bounded destination (encode headers payload).size (write destination headers payload) := by
    unfold write
    rw [tableLength?_of_lt (by omega), Option.getD_some]
    refine .bind ?_ fun after _ => ?_
    · rw [List.size_toArray, Word.length_encode]
      omega
    · rw [hsize]
      exact putAll_bounded payload (pieces headers) (by rw [length_pieces]; omega) (by omega)
  exact hbounded.resolve_right fun ⟨_, _, hle⟩ => Nat.not_lt.mpr hle hd

/-! ## The bytes of the packed form -/

/-- The eight bytes of a word, the least significant first. -/
def wordBytes (w : Nat) : List UInt8 := (List.range 8).map fun i => UInt8.ofNat (w / 256 ^ i % 256)

theorem encodeWords_eq_flatMap (words : List Nat) : encodeWords words = words.flatMap wordBytes :=
  congrArg words.flatMap (funext fun w => Word.digits_eq_map Word.width w)

/-- Each piece starts where all pieces before it have ended. -/
theorem positions_eq_map (start : Nat) (ps : List Bytes) :
    positions start ps = (List.range (ps.length + 1)).map fun j => start + ((ps.take j).map Array.size).sum := by
  refine List.ext_getElem? fun j => ?_
  by_cases hj : j ≤ ps.length
  · rw [getElem?_positions start hj, List.getElem?_map, List.getElem?_range (by omega)]
    rfl
  · rw [List.getElem?_eq_none (by rw [length_positions]; omega),
      List.getElem?_eq_none (by rw [List.length_map, List.length_range]; omega)]

theorem encode_eq_append (headers : List Header) (payload : Bytes) :
    encode headers payload =
      ((headers.length :: (List.range (2 * headers.length + 1)).map fun j =>
        16 + 16 * headers.length + (((pieces headers).take j).map Array.size).sum).flatMap wordBytes).toArray ++
      ((pieces headers).toArray.flatten ++ payload) := by
  have hstart : 2 * Word.width * (headers.length + 1) = 16 + 16 * headers.length := tableSize_eq headers.length
  rw [encode, tableWords, hstart, positions_eq_map, length_pieces, encodeWords_eq_flatMap]

/-- The positions in the offset table are those at which the pieces and the payload lie. -/
theorem extract_packed (table : Bytes) (ps : List Bytes) (payload : Bytes) :
    (∀ j piece, ps[j]? = some piece → (table ++ (ps.toArray.flatten ++ payload)).extract
      (table.size + sizeBefore ps j) (table.size + sizeBefore ps (j + 1)) = piece) ∧
    (table ++ (ps.toArray.flatten ++ payload)).extract (table.size + sizeBefore ps ps.length)
      (table ++ (ps.toArray.flatten ++ payload)).size = payload := by
  refine ⟨fun j piece hpiece => ?_, ?_⟩
  · rw [extract_append_size]
    exact extract_flatten hpiece payload
  · rw [sizeBefore_length, Array.size_append, Array.size_append, extract_append_size]
    have hlast := extract_append_size ps.toArray.flatten payload 0 payload.size
    rwa [Nat.add_zero, Array.extract_eq_self_of_le (Nat.le_refl _)] at hlast

/-- What the writer does to any destination. It stops only where the destination does, exactly if that is shorter than
the packed size. Otherwise the destination starts with the words of the offset table, the keys and values in order and
the payload, whatever it held there, and keeps its bytes behind them. -/
theorem write_exact {headers : List Header} {payload : Bytes} {size : Nat}
    (hsize : Flat.size headers payload = .ok size) :
    let n := headers.length
    let pieces := headers.flatMap fun h => [h.key, h.val]
    let start := fun j => 16 + 16 * n + ((pieces.take j).map Array.size).sum
    let words := n :: (List.range (2 * n + 1)).map start
    let packed := (words.flatMap wordBytes).toArray ++ (pieces.toArray.flatten ++ payload)
    packed.size = size ∧
    (∀ j piece, pieces[j]? = some piece → packed.extract (start j) (start (j + 1)) = piece) ∧
    packed.extract (start (2 * n)) size = payload ∧
    (∀ destination trap, write destination headers payload = .error trap ↔
      trap = .outOfBounds ∧ destination.size < size) ∧
    (∀ destination after, write destination headers payload = .ok after ↔
      size ≤ destination.size ∧ after = packed ++ destination.extract size destination.size) ∧
    ∀ a b, size ≤ a.size → size ≤ b.size → ∃ a' b', write a headers payload = .ok a' ∧
      write b headers payload = .ok b' ∧ a'.extract 0 size = b'.extract 0 size := by
  intro n pieces start words packed
  have hpacked : encode headers payload = packed := encode_eq_append headers payload
  obtain ⟨rfl, hl⟩ := size_eq_ok_iff.mp hsize
  have hshort : ∀ {d : Bytes}, d.size < (encode headers payload).size →
      write d headers payload = .error .outOfBounds := write_of_lt hl
  have hroom : ∀ {d : Bytes}, (encode headers payload).size ≤ d.size → write d headers payload =
      .ok (packed ++ d.extract (encode headers payload).size d.size) := by
    intro d hd
    rw [write_eq hl hd, hpacked]
  have htable : (words.flatMap wordBytes).toArray.size = 16 + 16 * n := by
    rw [← encodeWords_eq_flatMap, List.size_toArray, length_encodeWords, List.length_cons, List.length_map,
      List.length_range, Word.width]
    omega
  have hpieces := extract_packed (words.flatMap wordBytes).toArray pieces payload
  rw [htable, show pieces.length = 2 * n from length_pieces headers] at hpieces
  have hbefore (rest : Bytes) : (packed ++ rest).extract 0 (encode headers payload).size = packed := by
    rw [hpacked, Array.extract_append_left, Array.extract_eq_self_of_le (Nat.le_refl _)]
  refine ⟨congrArg Array.size hpacked.symm, hpieces.1, ?_, fun d trap => ?_, fun d after => ?_, fun a b ha hb => ?_⟩
  · rw [hpacked]
    exact hpieces.2
  · by_cases hd : d.size < (encode headers payload).size
    · rw [hshort hd]
      simp [hd, eq_comm]
    · rw [hroom (Nat.not_lt.mp hd)]
      simp [hd]
  · by_cases hd : d.size < (encode headers payload).size
    · rw [hshort hd]
      simp [Nat.not_le.mpr hd]
    · rw [hroom (Nat.not_lt.mp hd)]
      simp [Nat.not_lt.mp hd, eq_comm]
  · exact ⟨_, _, hroom ha, hroom hb, (hbefore _).trans (hbefore _).symm⟩

/-- A packet of 38 bytes, written into 40 bytes and into 37. -/
theorem write_exact_kept_bytes :
    let headers : List Header := [⟨#[107], #[118, 118]⟩]
    let payload : Bytes := #[120, 121, 122]
    Flat.size headers payload = .ok 38 ∧
      write (Array.replicate 40 170) headers payload = .ok #[1, 0, 0, 0, 0, 0, 0, 0, 32, 0, 0, 0, 0, 0, 0, 0,
        33, 0, 0, 0, 0, 0, 0, 0, 35, 0, 0, 0, 0, 0, 0, 0, 107, 118, 118, 120, 121, 122, 170, 170] ∧
      write (Array.replicate 37 170) headers payload = .error .outOfBounds := by
  intro headers payload
  have hsize : Flat.size headers payload = .ok 38 := rfl
  obtain ⟨-, -, -, hshort, hroom, -⟩ := write_exact hsize
  exact ⟨hsize, (hroom _ _).mpr ⟨by decide, by decide⟩, (hshort _ _).mpr ⟨rfl, by decide⟩⟩

end PacketHost.Flat
