import PacketHost.Flat.Writer
import PacketHost.Proofs.Flat.Size

/-!
# Writing in place is encoding

Two cursors move through the destination. Before each step the destination is the stored part of the table, the
rest of the table, the stored pieces and the rest of the buffer; the step turns the front of both rests into
stored bytes (`putAll_finish`). In the end the packet lies over the start of the destination (`write_eq`).
-/

namespace PacketHost

namespace Bytes

theorem exists_append {a : Bytes} {n : Nat} (h : n ≤ a.size) : ∃ b c : Bytes, a = b ++ c ∧ b.size = n := by
  refine ⟨a.extract 0 n, a.extract n a.size, ?_, ?_⟩
  · rw [Array.extract_append_extract, Nat.zero_min, Nat.max_eq_right h,
      Array.extract_eq_self_of_le (Nat.le_refl _)]
  · rw [Array.size_extract]
    omega

/-- Laying bytes over as many bytes in the middle of a buffer replaces these. -/
theorem splice_append (a b c source : Bytes) (h : source.size = b.size) :
    (a ++ (b ++ c)).splice a.size source = a ++ (source ++ c) := by
  apply Array.ext_getElem?
  intro i
  rw [getElem?_splice]
  simp only [Array.getElem?_append, Array.size_append, h]
  by_cases hi : a.size ≤ i ∧ i < a.size + b.size
  · rw [if_pos ⟨hi.1, hi.2, by omega⟩, if_neg (by omega), if_pos (by omega)]
  · rw [if_neg (by omega)]
    by_cases ha : i < a.size
    · rw [if_pos ha, if_pos ha]
    · rw [if_neg ha, if_neg ha, if_neg (by omega), if_neg (by omega)]

theorem splice_eq_append {buffer source : Bytes} {pos : Nat} (h : pos + source.size ≤ buffer.size) :
    buffer.splice pos source = buffer.extract 0 pos ++ (source ++ buffer.extract (pos + source.size) buffer.size) := by
  have hfront : (buffer.extract 0 pos).size = pos := by
    rw [Array.size_extract]
    omega
  have hmiddle : source.size = (buffer.extract pos (pos + source.size)).size := by
    rw [Array.size_extract]
    omega
  have hsplit : buffer = buffer.extract 0 pos ++ (buffer.extract pos (pos + source.size) ++
      buffer.extract (pos + source.size) buffer.size) := by
    rw [Array.extract_append_extract, Nat.min_eq_left (Nat.le_add_right _ _), Nat.max_eq_right h,
      Array.extract_append_extract, Nat.zero_min, Nat.max_eq_right (by omega),
      Array.extract_eq_self_of_le (Nat.le_refl _)]
  have hspliced := splice_append (buffer.extract 0 pos) _ (buffer.extract (pos + source.size) buffer.size) source
    hmiddle
  rw [hfront, ← hsplit] at hspliced
  exact hspliced

theorem write_append (a b c source : Bytes) (h : source.size = b.size)
    (hl : a.size + source.size < Word.limit) :
    Bytes.write (a ++ (b ++ c)) a.size source = .ok (a ++ (source ++ c)) := by
  rw [write_of_le (by simp only [Array.size_append]; omega) hl, splice_append a b c source h]

/-- A write whose end is a word leaves the buffer at its end, or lies in it. -/
theorem write_cases (buffer : Bytes) {source : Bytes} {pos : Nat} (hl : pos + source.size < Word.limit) :
    Bytes.write buffer pos source = .error .outOfBounds ∨
      ∃ after : Bytes, Bytes.write buffer pos source = .ok after ∧ after.size = buffer.size ∧
        pos + source.size ≤ buffer.size := by
  by_cases h : pos + source.size ≤ buffer.size
  · exact .inr ⟨_, write_of_le h hl, size_splice buffer pos source, h⟩
  · left
    unfold Bytes.write
    rw [Trap.add_of_lt hl, ok_bind, if_neg h]

end Bytes

namespace Flat

/-! ## One step -/

section

variable (a m rest : Bytes) {x y piece : Bytes} (hx : x.size = Word.width) (hy : y.size = piece.size)
  (hl : a.size + x.size + m.size + piece.size < Word.limit)

include hx hy hl

/-- A word and a piece are stored over the fronts `x` and `y` of the two rests. -/
theorem write_word_and_piece :
    (Bytes.write (a ++ (x ++ (m ++ (y ++ rest)))) a.size
        (Word.encode (a.size + x.size + m.size)).toArray >>= fun buffer =>
      buffer.write (a.size + x.size + m.size) piece) =
      .ok (a ++ ((Word.encode (a.size + x.size + m.size)).toArray ++ (m ++ (piece ++ rest)))) := by
  generalize hw : (Word.encode (a.size + x.size + m.size)).toArray = w
  have hwx : w.size = x.size := by rw [← hw, hx, List.size_toArray, Word.length_encode]
  rw [Bytes.write_append _ _ _ _ hwx (by omega), ok_bind]
  have hpos : a.size + x.size + m.size = (a ++ (w ++ m)).size := by
    simp only [Array.size_append]
    omega
  have hassoc (tail : Bytes) : a ++ (w ++ (m ++ tail)) = a ++ (w ++ m) ++ tail := by
    simp only [Array.append_assoc]
  rw [hpos, hassoc, hassoc]
  exact Bytes.write_append _ _ _ _ hy.symm (by omega)

theorem put_eq : Cursor.put ⟨a ++ (x ++ (m ++ (y ++ rest))), a.size, a.size + x.size + m.size⟩ piece =
    .ok ⟨a ++ ((Word.encode (a.size + x.size + m.size)).toArray ++ (m ++ (piece ++ rest))),
      a.size + Word.width, a.size + x.size + m.size + piece.size⟩ := by
  have hwrite := write_word_and_piece a m rest hx hy hl
  unfold Cursor.put
  cases hb : Bytes.write (a ++ (x ++ (m ++ (y ++ rest)))) a.size
      (Word.encode (a.size + x.size + m.size)).toArray with
  | error t =>
      rw [hb] at hwrite
      cases hwrite
  | ok buffer =>
      rw [hb, ok_bind] at hwrite
      have hentry : Trap.add a.size Word.width = .ok (a.size + Word.width) := Trap.add_of_lt (by omega)
      simp only [hb, ok_bind, hwrite, hentry, Trap.add_of_lt hl]
      rfl

end

/-! ## All steps -/

/-- The cursors leave the whole table and all content behind them. The induction is on the pieces that are
left; `a` and `c` grow by what is stored, `x` and `y` shrink. -/
theorem putAll_finish (payload rest : Bytes) (ps : List Bytes) (a c : Bytes) {x y : Bytes}
    (hx : x.size = Word.width * (ps.length + 1)) (hy : y.size = ps.toArray.flatten.size + payload.size)
    (hl : a.size + x.size + c.size + y.size < Word.limit) :
    (Cursor.putAll ⟨a ++ (x ++ (c ++ (y ++ rest))), a.size, a.size + x.size + c.size⟩ ps >>=
        fun cursor => cursor.finish payload) =
      .ok (a ++ ((encodeWords (positions (a.size + x.size + c.size) ps)).toArray ++
        (c ++ (ps.toArray.flatten ++ (payload ++ rest))))) := by
  induction ps generalizing a c x y with
  | nil =>
      have hflat : ([] : List Bytes).toArray.flatten = #[] := rfl
      rw [hflat, Array.empty_append]
      rw [hflat, Array.size_empty, Nat.zero_add] at hy
      have hwrite := write_word_and_piece a c rest (by simpa using hx) hy
        (by omega)
      have hlast (w : Nat) : (encodeWords [w]).toArray = (Word.encode w).toArray := by simp [encodeWords]
      rw [positions, hlast]
      exact hwrite
  | cons p ps ih =>
      rw [flatten_cons, Array.size_append] at hy
      rw [List.length_cons, Nat.mul_succ, Nat.add_comm] at hx
      obtain ⟨x₁, x₂, rfl, hx₁⟩ := Bytes.exists_append (show Word.width ≤ x.size by omega)
      obtain ⟨y₁, y₂, rfl, hy₁⟩ := Bytes.exists_append (show p.size ≤ y.size by omega)
      simp only [Array.size_append] at hx hy hl
      have hput := put_eq a (x₂ ++ c) (y₂ ++ rest) hx₁ hy₁
        (by simp only [Array.size_append]; omega)
      generalize hs : a.size + (x₁ ++ x₂).size + c.size = start
      have hstart : a.size + x₁.size + (x₂ ++ c).size = start := by
        simp only [Array.size_append] at hs ⊢
        omega
      have henc : (a ++ (Word.encode start).toArray).size = a.size + Word.width := by
        simp only [Array.size_append, List.size_toArray, Word.length_encode]
      have hpos : (a ++ (Word.encode start).toArray).size + x₂.size + (c ++ p).size = start + p.size := by
        simp only [Array.size_append] at hs henc ⊢
        omega
      have hnext := ih (a ++ (Word.encode start).toArray) (c ++ p) (x := x₂) (y := y₂) (by omega) (by omega)
        (by rw [hpos]; simp only [Array.size_append] at hs; omega)
      rw [hstart] at hput
      rw [hpos, henc] at hnext
      rw [Cursor.putAll, positions, toArray_encodeWords_cons, flatten_cons]
      simp only [Array.append_assoc] at hput hnext ⊢
      rw [hput]
      exact hnext

theorem write_append {packet : Bytes} (rest : Bytes) {headers : List Header} {payload : Bytes}
    (hl : (encode headers payload).size < Word.limit) (hp : packet.size = (encode headers payload).size) :
    write (packet ++ rest) headers payload = .ok (encode headers payload ++ rest) := by
  have hsize := size_layout headers #[] payload
  rw [← encode_eq_layout] at hsize
  simp only [payloadStart, Array.size_empty, Nat.add_zero] at hsize
  have htable : tableSize headers.length = Word.width + Word.width * (2 * headers.length + 1) := by
    simp only [tableSize, Word.width]
    omega
  obtain ⟨x, y, rfl, hx⟩ := Bytes.exists_append (show Word.width ≤ packet.size by omega)
  rw [Array.size_append] at hp
  obtain ⟨x', y, rfl, hx'⟩ :=
    Bytes.exists_append (show Word.width * (2 * headers.length + 1) ≤ y.size by omega)
  rw [Array.size_append] at hp
  have hfirst : Bytes.write (x ++ (x' ++ (y ++ rest))) 0 (Word.encode headers.length).toArray =
      .ok ((Word.encode headers.length).toArray ++ (x' ++ (y ++ rest))) := by
    have hstep := Bytes.write_append #[] x (x' ++ (y ++ rest)) (Word.encode headers.length).toArray
      (by rw [hx, List.size_toArray, Word.length_encode])
      (by simp only [List.size_toArray, List.length_nil, Word.length_encode]; omega)
    simpa only [Array.empty_append, List.size_toArray, List.length_nil] using hstep
  have hall := putAll_finish payload rest (pieces headers) (Word.encode headers.length).toArray #[]
    (x := x') (y := y) (by rw [hx', length_pieces]) (by unfold content at hsize; omega)
    (by simp only [List.size_toArray, List.length_nil, Word.length_encode]; omega)
  simp only [Array.empty_append, List.size_toArray, List.length_nil, Word.length_encode, hx',
    Nat.add_zero, ← htable] at hall
  unfold write
  rw [tableLength?_of_lt (by omega), Option.getD_some, Array.append_assoc, Array.append_assoc, hfirst, ok_bind,
    hall]
  rw [encode, tableWords, toArray_encodeWords_cons]
  simp only [Array.append_assoc]
  rfl

/-- Written into a buffer with enough room, a packet is its packed form, followed by what lay behind it. -/
theorem write_eq {buffer : Bytes} {headers : List Header} {payload : Bytes}
    (hl : (encode headers payload).size < Word.limit) (hb : (encode headers payload).size ≤ buffer.size) :
    write buffer headers payload =
      .ok (encode headers payload ++ buffer.extract (encode headers payload).size buffer.size) := by
  obtain ⟨packet, rest, rfl, hp⟩ := Bytes.exists_append hb
  have hrest := extract_append_size packet rest 0 rest.size
  rw [Nat.add_zero, Array.extract_eq_self_of_le (Nat.le_refl _)] at hrest
  rw [write_append rest hl hp, ← hp, Array.size_append, hrest]

theorem write_eq_of_size {headers : List Header} {payload destination : Bytes}
    (hlt : (encode headers payload).size < Word.limit)
    (hd : destination.size = (encode headers payload).size) :
    write destination headers payload = .ok (encode headers payload) := by
  rw [write_eq hlt (by omega), Array.extract_eq_empty_of_le (by omega), Array.append_empty]

end Flat

end PacketHost
