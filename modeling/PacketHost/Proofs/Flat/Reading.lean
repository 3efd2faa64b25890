import PacketHost.Flat.Engine
import PacketHost.Packet.Reading
import PacketHost.Proofs.Flat.Decode
import PacketHost.Proofs.Packet.Location

/-!
# Reading a packet of the flat engine

The flat engine answers with places in the buffer of a handle, and the host cuts these places out of the
buffer again. `locate_place` says that both steps together read the bytes that the decoder means, also for a place
without bytes, which has no address. So a handle shows what its buffer decodes to (`shows_of_decodes`).
-/

namespace PacketHost

/-- Every way to read from a handle agrees with a list of headers and a payload. -/
structure Reading.Shows (r : Reading Id) (hs : List Header) (p : Bytes) : Prop where
  count : r.count = pure hs.length
  header : ∀ index, Entry.toHeader <$> r.header index =
    match hs[index]? with
    | some h => pure h
    | none => throw (.refused (.indexOutOfRange index hs.length))
  headers : List.map Entry.toHeader <$> r.headers = pure hs
  copies : r.copies = pure hs
  payload : Slice.bytes <$> r.payload = pure p
  find : ∀ key, Option.map Slice.bytes <$> r.find key = pure (Flat.firstValue? hs key)
  id : Option.map Slice.bytes <$> r.id = pure (Flat.firstValue? hs Header.idKey)
  dependencies : List.map Slice.bytes <$> r.dependencies =
    pure ((hs.filter fun h => h.key == Header.depKey).map Header.val)

namespace Flat

/-! ## Answers -/

theorem lift_bind {α β : Type} (a : α) (f : α → Reading.Read Id β) : (ExceptT.lift (pure a) >>= f) = f a := rfl

theorem expectOk_bind {β : Type} (f : Unit → Reading.Read Id β) :
    (Reading.lift (expectOk Status.okCode) >>= f) = f () := rfl

/-! ## Places -/

def Inside (e : Extent) (buffer : Bytes) : Prop := e.start ≤ e.stop ∧ e.stop ≤ buffer.size

theorem place_eq_span {s : Slice} {e : Extent} (h : Inside e s.bytes) : place s e = (s.part e).span := by
  unfold place Slice.span
  rw [Slice.length_part h.2]
  rfl

theorem locate_place {s : Slice} {e : Extent} (hbase : 0 < s.base) (hfit : s.base + s.bytes.size < Word.limit)
    (h : Inside e s.bytes) (what : String) :
    ∃ part, s.locate (place s e) what = .ok part ∧ part.bytes = e.read s.bytes := by
  rw [place_eq_span h]
  obtain ⟨part, hpart, hbytes, -⟩ := Slice.locate_span_part hbase hfit h.1 h.2 what
  exact ⟨part, hpart, hbytes⟩

theorem header_inside {buffer : Bytes} (hf : Framed buffer) {index : Nat} {e : Extent × Extent}
    (h : (tableOf buffer).header index = .ok e) : Inside e.1 buffer ∧ Inside e.2 buffer := by
  obtain ⟨-, ⟨-, hkey, hval, hstop⟩, rfl⟩ := (header_eq_ok_iff hf).mp h
  have hsize := Nat.le_trans hstop hf.2.2
  exact ⟨⟨hkey, Nat.le_trans hval hsize⟩, hval, hsize⟩

/-- What a search finds is the value of a header. -/
theorem searchFrom_eq_ok {t : Table} {accept : Bytes → Bool} {index remaining : Nat} {e : Extent}
    (h : t.searchFrom accept index remaining = .ok e) : ∃ i key, t.header i = .ok (key, e) := by
  induction remaining generalizing index with
  | zero => cases h
  | succ remaining ih =>
      rw [Table.searchFrom] at h
      cases hh : t.header index with
      | error reason =>
          rw [hh] at h
          cases h
      | ok found =>
          obtain ⟨key, val⟩ := found
          rw [hh] at h
          simp only [ok_bind] at h
          split at h
          · cases h
            exact ⟨index, key, hh⟩
          · exact ih h

/-! ## A handle whose buffer decodes -/

/-- A handle of the flat engine whose packet is all of its buffer. -/
def reading (s : Slice) (elsewhere : Memory) : Reading Id :=
  ⟨⟨engine, .valid { buffer := s, extent := ⟨0, s.bytes.size⟩ }⟩, elsewhere⟩

def viewOf (s : Slice) (elsewhere : Memory) : View := ⟨some s, s.memory elsewhere⟩

theorem live_reading (s : Slice) (elsewhere : Memory) :
    (reading s elsewhere).live = pure (s, viewOf s elsewhere) := by
  have hpart : s.part ⟨0, s.bytes.size⟩ = s := by
    unfold Slice.part Extent.read
    rw [Nat.add_zero, Array.extract_eq_self_of_le (Nat.le_refl _)]
  change (pure (s, (⟨some (s.part ⟨0, s.bytes.size⟩), s.memory elsewhere⟩ : View)) : Reading.Read Id _) = _
  rw [hpart]
  rfl

section

variable {s : Slice} {headers : List Header} {body : Bytes} (hbase : 0 < s.base)
  (hfit : s.base + s.bytes.size < Word.limit) (h : Decodes s.bytes headers body) (elsewhere : Memory)

include h

theorem table_viewOf : Framed s.bytes ∧ (tableOf s.bytes).Holds headers body ∧
    table (viewOf s elsewhere) = .ok (s, tableOf s.bytes) := by
  obtain ⟨t, ht, hh⟩ := h
  obtain ⟨hf, rfl⟩ := ofBytes_eq_ok_iff.mp ht
  refine ⟨hf, hh, ?_⟩
  change (Table.ofBytes s.bytes >>= fun t => pure (s, t)) = _
  rw [ht]
  rfl

theorem count_reading : (reading s elsewhere).count = pure headers.length := by
  obtain ⟨-, hh, htable⟩ := table_viewOf h elsewhere
  have hcount : count (viewOf s elsewhere) true = ⟨Status.okCode, some headers.length⟩ := by
    unfold count
    rw [htable, ← hh.count]
    rfl
  unfold Reading.count
  rw [live_reading, pure_bind]
  change (ExceptT.lift (pure (count (viewOf s elsewhere) true)) >>= _) = _
  rw [lift_bind, hcount, expectOk_bind]
  rfl

include hbase hfit

theorem header_reading_of_lt {index : Nat} (hi : index < headers.length) :
    ∃ e : Entry, (reading s elsewhere).header index = pure e ∧ e.toHeader = headers[index] := by
  obtain ⟨hf, hh, htable⟩ := table_viewOf h elsewhere
  have hread := hh.header index
  rw [List.getElem?_eq_getElem hi] at hread
  obtain ⟨⟨key, val⟩, he, hkey, hval⟩ := headerBytes_eq_ok_iff.mp hread
  obtain ⟨hkeyin, hvalin⟩ := header_inside hf he
  have hanswer : header (viewOf s elsewhere) index true = ⟨Status.okCode, some ⟨place s key, place s val⟩⟩ := by
    unfold header
    rw [htable, ok_bind]
    simp only [he, ok_bind]
    rfl
  obtain ⟨k, hk, hkb⟩ := locate_place hbase hfit hkeyin "header key"
  obtain ⟨v, hv, hvb⟩ := locate_place hbase hfit hvalin "header value"
  have hentry : Reading.locateEntry s ⟨place s key, place s val⟩ = .ok ⟨k, v⟩ := by
    unfold Reading.locateEntry
    rw [hk, ok_bind, hv]
    rfl
  refine ⟨⟨k, v⟩, ?_, ?_⟩
  · unfold Reading.header
    rw [count_reading h elsewhere, pure_bind, if_neg (by omega), live_reading, pure_bind]
    change (ExceptT.lift (pure (header (viewOf s elsewhere) index true)) >>= _) = _
    have hcode : ¬Status.ofCode? Status.okCode = some .outOfRange := by decide
    rw [lift_bind, hanswer, if_neg hcode, expectOk_bind, Option.getD_some, hentry]
    rfl
  · rw [tableOf_buffer] at hkey hval
    unfold Entry.toHeader
    rw [hkb, hvb, hkey, hval]

theorem headersFrom_reading (index remaining : Nat) (hsum : index + remaining = headers.length) :
    ∃ entries, (reading s elsewhere).headersFrom index remaining = pure entries ∧
      entries.map Entry.toHeader = headers.drop index := by
  induction remaining generalizing index with
  | zero =>
      rw [List.drop_of_length_le (by omega)]
      exact ⟨[], rfl, rfl⟩
  | succ remaining ih =>
      have hi : index < headers.length := by omega
      obtain ⟨entry, he, hentry⟩ := header_reading_of_lt hbase hfit h elsewhere hi
      obtain ⟨entries, hes, hentries⟩ := ih (index + 1) (by omega)
      refine ⟨entry :: entries, ?_, ?_⟩
      · rw [Reading.headersFrom, he, pure_bind, hes, pure_bind]
      · rw [List.map_cons, hentry, hentries, List.drop_eq_getElem_cons hi]

theorem headers_reading : ∃ entries, (reading s elsewhere).headers = pure entries ∧
    entries.map Entry.toHeader = headers := by
  obtain ⟨entries, hes, hentries⟩ := headersFrom_reading hbase hfit h elsewhere 0 headers.length (Nat.zero_add _)
  refine ⟨entries, ?_, hentries⟩
  unfold Reading.headers
  rw [count_reading h elsewhere, pure_bind, hes]

theorem payload_reading : ∃ part, (reading s elsewhere).payload = pure part ∧ part.bytes = body := by
  obtain ⟨hf, hh, htable⟩ := table_viewOf h elsewhere
  have hin : Inside ⟨payloadOf s.bytes, s.bytes.size⟩ s.bytes := ⟨hf.2.2, Nat.le_refl _⟩
  obtain ⟨part, hpart, hbytes⟩ := locate_place hbase hfit hin "payload"
  have hanswer : payload (viewOf s elsewhere) true =
      ⟨Status.okCode, some (place s ⟨payloadOf s.bytes, s.bytes.size⟩)⟩ := by
    unfold payload
    rw [htable, ok_bind]
    simp only [payload_eq hf, ok_bind]
    rfl
  have hbody := hh.payload
  rw [payloadBytes_eq hf, Except.ok.injEq] at hbody
  refine ⟨part, ?_, by rw [hbytes, ← hbody]; rfl⟩
  unfold Reading.payload
  rw [live_reading, pure_bind]
  change (ExceptT.lift (pure (payload (viewOf s elsewhere) true)) >>= _) = _
  rw [lift_bind, hanswer, expectOk_bind, Option.getD_some, hpart]
  rfl

theorem find_reading (key : Bytes) :
    Option.map Slice.bytes <$> (reading s elsewhere).find key = pure (firstValue? headers key) := by
  obtain ⟨hf, hh, htable⟩ := table_viewOf h elsewhere
  have haccept : (fun h : Header => (Source.ofBytes key).holds h.key) = fun h => h.key == key := by
    funext h
    rw [Bool.eq_iff_iff, Source.holds_iff, Source.bytes_ofBytes, beq_iff_eq, eq_comm]
  have hsearch : ((tableOf s.bytes).search (Source.ofBytes key).holds >>= fun e => .ok (e.read s.bytes)) =
      found .notFound (firstValue? headers key) := by
    have hfrom := searchFrom_eq hh.header (Source.ofBytes key).holds (Nat.zero_add headers.length)
    rw [haccept] at hfrom
    unfold Table.search
    rw [hh.count]
    exact hfrom
  have hanswer : find (viewOf s elsewhere) (Source.ofBytes key) true =
      answer true ((tableOf s.bytes).search (Source.ofBytes key).holds >>= fun e => .ok (place s e)) := by
    unfold find
    rw [if_pos (Source.isValid_ofBytes key), htable]
    rfl
  unfold Reading.find
  rw [live_reading, pure_bind]
  change _ <$> (ExceptT.lift (pure (find (viewOf s elsewhere) (Source.ofBytes key) true)) >>= _) = _
  rw [lift_bind, hanswer]
  cases hs : (tableOf s.bytes).search (Source.ofBytes key).holds with
  | error reason =>
      rw [hs, error_bind] at hsearch
      cases hv : firstValue? headers key with
      | some value =>
          rw [hv] at hsearch
          cases hsearch
      | none =>
          rw [hv] at hsearch
          cases hsearch
          rfl
  | ok e =>
      rw [hs, ok_bind] at hsearch
      cases hv : firstValue? headers key with
      | none =>
          rw [hv] at hsearch
          cases hsearch
      | some value =>
          rw [hv] at hsearch
          obtain ⟨_, _, he⟩ := searchFrom_eq_ok hs
          obtain ⟨part, hpart, hbytes⟩ := locate_place hbase hfit (header_inside hf he).2 "header value"
          have hvalue : part.bytes = value := by
            rw [hbytes]
            exact Except.ok.inj hsearch
          have hcode : ¬Status.ofCode? Status.okCode = some .notFound := by decide
          have hplace : answer true ((.ok e : Except (Halt Status) Extent) >>= fun e => .ok (place s e)) =
              ⟨Status.okCode, some (place s e)⟩ := rfl
          rw [hplace, if_neg hcode, expectOk_bind, Option.getD_some, hpart, ← hvalue]
          rfl

/-- A handle shows what its buffer decodes to. -/
theorem shows_of_decodes : (reading s elsewhere).Shows headers body := by
  obtain ⟨entries, hentries, hmap⟩ := headers_reading hbase hfit h elsewhere
  obtain ⟨part, hpart, hbody⟩ := payload_reading hbase hfit h elsewhere
  refine ⟨count_reading h elsewhere, ?_, ?_, ?_, ?_, find_reading hbase hfit h elsewhere,
    find_reading hbase hfit h elsewhere _, ?_⟩
  · intro index
    by_cases hi : index < headers.length
    · obtain ⟨entry, he, hentry⟩ := header_reading_of_lt hbase hfit h elsewhere hi
      rw [List.getElem?_eq_getElem hi, he, map_pure, hentry]
    · rw [List.getElem?_eq_none (by omega)]
      unfold Reading.header
      rw [count_reading h elsewhere, pure_bind, if_pos (by omega)]
      rfl
  · rw [hentries, map_pure, hmap]
  · unfold Reading.copies
    rw [hentries, pure_bind, hmap]
  · rw [hpart, map_pure, hbody]
  · unfold Reading.dependencies
    rw [hentries, pure_bind, map_pure, ← hmap, List.filter_map, List.map_map, List.map_map]
    rfl

end

end Flat

end PacketHost
