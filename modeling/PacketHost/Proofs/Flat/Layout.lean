import PacketHost.Proofs.Flat.Acceptance

/-!
# Packets with a gap

The decoder does not ask that the first piece follows the offset table at once. `layout` is a packet in which
other bytes lie between them, and `encode` is the case without any. The lemmas say what the words
of such a packet are and which bytes lie between two neighbouring offsets.
-/

namespace PacketHost.Flat

/-! ## Bytes put together -/

theorem extract_append_size (a b : Bytes) (i j : Nat) :
    (a ++ b).extract (a.size + i) (a.size + j) = b.extract i j := by
  rw [Array.extract_append, Array.extract_eq_empty_of_le (by omega), Array.empty_append]
  congr 1 <;> omega

theorem flatten_cons (p : Bytes) (ps : List Bytes) :
    (p :: ps).toArray.flatten = p ++ ps.toArray.flatten := by
  apply Array.ext'
  simp

/-! ## Pieces -/

def content (headers : List Header) : Bytes := (pieces headers).toArray.flatten

theorem size_content (headers : List Header) :
    (content headers).size = (headers.map Header.contentLength).sum := by
  induction headers with
  | nil => rfl
  | cons h headers ih =>
      have hcons : content (h :: headers) = h.key ++ (h.val ++ content headers) := by
        change (h.key :: h.val :: pieces headers).toArray.flatten = _
        rw [flatten_cons, flatten_cons]
        rfl
      rw [hcons, Array.size_append, Array.size_append, ih, List.map_cons, List.sum_cons]
      simp only [Header.contentLength]
      omega

theorem getElem?_pieces_key (headers : List Header) (i : Nat) :
    (pieces headers)[2 * i]? = headers[i]?.map Header.key := by
  induction headers generalizing i with
  | nil => rfl
  | cons h headers ih =>
      cases i with
      | zero => rfl
      | succ i => exact ih i

theorem getElem?_pieces_val (headers : List Header) (i : Nat) :
    (pieces headers)[2 * i + 1]? = headers[i]?.map Header.val := by
  induction headers generalizing i with
  | nil => rfl
  | cons h headers ih =>
      cases i with
      | zero => rfl
      | succ i => exact ih i

def sizeBefore (ps : List Bytes) (count : Nat) : Nat := ((ps.take count).map Array.size).sum

theorem sizeBefore_succ {ps : List Bytes} {j : Nat} {p : Bytes} (h : ps[j]? = some p) :
    sizeBefore ps (j + 1) = sizeBefore ps j + p.size := by
  obtain ⟨hj, rfl⟩ := List.getElem?_eq_some_iff.mp h
  unfold sizeBefore
  rw [List.take_succ_eq_append_getElem hj, List.map_append, List.sum_append]
  rfl

theorem sizeBefore_le_succ (ps : List Bytes) (j : Nat) : sizeBefore ps j ≤ sizeBefore ps (j + 1) := by
  cases hp : ps[j]? with
  | none =>
      have hlen := List.getElem?_eq_none_iff.mp hp
      apply Nat.le_of_eq
      unfold sizeBefore
      rw [List.take_of_length_le hlen, List.take_of_length_le (by omega)]
  | some p =>
      rw [sizeBefore_succ hp]
      omega

theorem sizeBefore_length (ps : List Bytes) : sizeBefore ps ps.length = ps.toArray.flatten.size := by
  unfold sizeBefore
  rw [List.take_length]
  induction ps with
  | nil => rfl
  | cons p ps ih => rw [flatten_cons, Array.size_append, List.map_cons, List.sum_cons, ih]

theorem sizeBefore_le (ps : List Bytes) (j : Nat) : sizeBefore ps j ≤ ps.toArray.flatten.size := by
  induction ps generalizing j with
  | nil => simp [sizeBefore]
  | cons p ps ih =>
      rw [flatten_cons, Array.size_append]
      cases j with
      | zero => simp [sizeBefore]
      | succ j =>
          have := ih j
          simp only [sizeBefore, List.take_succ_cons, List.map_cons, List.sum_cons] at this ⊢
          omega

theorem getElem?_positions (start : Nat) {ps : List Bytes} {j : Nat} (hj : j ≤ ps.length) :
    (positions start ps)[j]? = some (start + sizeBefore ps j) := by
  induction ps generalizing start j with
  | nil =>
      obtain rfl : j = 0 := by simpa using hj
      rfl
  | cons p ps ih =>
      cases j with
      | zero => rfl
      | succ j =>
          rw [positions, List.getElem?_cons_succ, ih _ (by simpa using hj)]
          simp [sizeBefore, Nat.add_assoc]

/-- Between two neighbouring positions lies one piece. -/
theorem extract_flatten {ps : List Bytes} {j : Nat} {p : Bytes} (h : ps[j]? = some p) (rest : Bytes) :
    (ps.toArray.flatten ++ rest).extract (sizeBefore ps j) (sizeBefore ps (j + 1)) = p := by
  induction ps generalizing j with
  | nil => simp at h
  | cons q ps ih =>
      rw [flatten_cons, Array.append_assoc]
      cases j with
      | zero =>
          obtain rfl : q = p := by simpa using h
          have hone : sizeBefore (q :: ps) (0 + 1) = q.size := by simp [sizeBefore]
          rw [hone, Array.extract_append]
          simp [sizeBefore]
      | succ j =>
          have hcons (k : Nat) : sizeBefore (q :: ps) (k + 1) = q.size + sizeBefore ps k := by
            simp [sizeBefore]
          rw [hcons, hcons, extract_append_size]
          exact ih (by simpa using h)

/-! ## Packets with a gap -/

/-- A packet in which `gap` lies between the offset table and the first piece. -/
def layout (headers : List Header) (gap payload : Bytes) : Bytes :=
  (encodeWords (headers.length ::
    positions (tableSize headers.length + gap.size) (pieces headers))).toArray ++
    (gap ++ (content headers ++ payload))

theorem encode_eq_layout (headers : List Header) (payload : Bytes) :
    encode headers payload = layout headers #[] payload := by
  unfold layout
  rw [Array.empty_append]
  rfl

def payloadStart (headers : List Header) (gap : Bytes) : Nat :=
  tableSize headers.length + gap.size + (content headers).size

theorem size_table (headers : List Header) (start : Nat) :
    (encodeWords (headers.length :: positions start (pieces headers))).toArray.size =
      tableSize headers.length := by
  simp only [List.size_toArray, length_encodeWords, List.length_cons, length_positions, length_pieces,
    tableSize]
  rw [Nat.mul_comm 2 Word.width, Nat.mul_assoc]
  congr 1

theorem size_layout (headers : List Header) (gap payload : Bytes) :
    (layout headers gap payload).size = payloadStart headers gap + payload.size := by
  unfold layout payloadStart
  rw [Array.size_append, size_table, Array.size_append, Array.size_append]
  omega

section

variable {headers : List Header} {gap : Bytes} (hlt : payloadStart headers gap < Word.limit)
  (payload : Bytes)

include hlt

theorem countOf_layout : countOf (layout headers gap payload) = headers.length := by
  have hn : headers.length < Word.limit := by
    simp only [payloadStart, tableSize, Word.width] at hlt
    omega
  unfold countOf layout
  rw [storedWord_encodeWords _ (Nat.succ_pos _) hn]
  rfl

theorem offset_layout {j : Nat} (hj : j ≤ 2 * headers.length) :
    offset (layout headers gap payload) j =
      tableSize headers.length + gap.size + sizeBefore (pieces headers) j := by
  have hget : (positions (tableSize headers.length + gap.size) (pieces headers))[j]? = _ :=
    getElem?_positions _ (by simpa using hj)
  obtain ⟨hlen, hval⟩ := List.getElem?_eq_some_iff.mp hget
  have hle := sizeBefore_le (pieces headers) j
  unfold offset layout
  rw [storedWord_encodeWords _ (by simpa using hlen)]
  · rw [List.getElem_cons_succ, hval]
  · rw [List.getElem_cons_succ, hval]
    simp only [payloadStart, content] at hlt
    omega

theorem payloadOf_layout : payloadOf (layout headers gap payload) = payloadStart headers gap := by
  have hlast := sizeBefore_length (pieces headers)
  rw [length_pieces] at hlast
  unfold payloadOf
  rw [countOf_layout hlt, offset_layout hlt payload (Nat.le_refl _), hlast]
  rfl

theorem framed_layout : Framed (layout headers gap payload) := by
  unfold Framed
  rw [countOf_layout hlt, payloadOf_layout hlt, size_layout]
  unfold payloadStart at hlt ⊢
  omega

theorem pieceExtent_read {j : Nat} {p : Bytes} (hp : (pieces headers)[j]? = some p) :
    (pieceExtent (layout headers gap payload) j).read (layout headers gap payload) = p := by
  have hj : j < 2 * headers.length := by
    have := (List.getElem?_eq_some_iff.mp hp).1
    simpa using this
  have hsize := size_table headers (tableSize headers.length + gap.size)
  unfold Extent.read pieceExtent
  rw [offset_layout hlt payload (Nat.le_of_lt hj), offset_layout hlt payload hj]
  unfold layout
  generalize (encodeWords _).toArray = table at hsize ⊢
  rw [← hsize, Nat.add_assoc, Nat.add_assoc, extract_append_size, extract_append_size]
  exact extract_flatten hp payload

theorem inOrder_layout {i : Nat} (hi : i < headers.length) : InOrder (layout headers gap payload) i := by
  have hkey := sizeBefore_le_succ (pieces headers) (2 * i)
  have hval : sizeBefore (pieces headers) (2 * i + 1) ≤ sizeBefore (pieces headers) (2 * i + 2) :=
    sizeBefore_le_succ _ _
  have hlast := sizeBefore_le (pieces headers) (2 * i + 2)
  unfold InOrder
  rw [countOf_layout hlt, payloadOf_layout hlt, offset_layout hlt _ (by omega),
    offset_layout hlt _ (by omega), offset_layout hlt _ (by omega)]
  unfold payloadStart content
  omega

end

end PacketHost.Flat
