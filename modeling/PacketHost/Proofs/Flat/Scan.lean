import PacketHost.Proofs.Flat.Safety

/-!
# Looking for a key by scanning

An engine without a lookup of its own asks itself for one header after the other. Over the reads of the flat engine this
comes to the same as its own lookup: each header that is asked for lies at a place in the packet, so what is read there
is the key that the lookup compares. Only a null key with a length is told apart: the lookup refuses it, and the scan
takes it for the empty key.
-/

namespace PacketHost

/-! ## Keys of the same bytes -/

namespace Engine

variable {m : Type → Type} [Monad m] (count : View → m (Answer Nat)) (header : View → Nat → m (Answer HeaderSpan))
  (view : View) {key key' : Source}

theorem scanFrom_congr (h : key.bytes = key'.bytes) (index remaining : Nat) :
    scanFrom header view key index remaining = scanFrom header view key' index remaining := by
  have hreadable : key.readable = key'.readable := by rw [← Source.size_bytes, h, Source.size_bytes]
  induction remaining generalizing index with
  | zero => rfl
  | succ remaining ih => simp only [scanFrom, h, hreadable, ih]

/-- Of a key a scan sees only its bytes. -/
theorem scan_congr (h : key.bytes = key'.bytes) : scan count header view key = scan count header view key' := by
  simp only [scan, scanFrom_congr header view h]

end Engine

theorem Source.bytes_of_not_isValid {key : Source} (h : key.isValid = false) : key.bytes = #[] := by
  have hnull : key.isNull = true := by simpa using (Bool.or_eq_false_iff.mp h).1
  apply Array.eq_empty_of_size_eq_zero
  simp [readable, hnull]

namespace Flat

/-! ## What lies at a place -/

theorem memory_of_slice {view : View} {s : Slice} (h : view.slice? = some s) :
    view.memory = s.memory view.elsewhere := by
  unfold View.memory
  rw [h]

theorem memory_apply {s : Slice} {offset : Nat} (h : offset < s.bytes.size) (elsewhere : Memory) :
    s.memory elsewhere (s.base + offset) = s.bytes[offset] := by
  simp [Slice.memory, Slice.byteAt?, h]

/-- At the place of a part of a packet lie the bytes of this part. -/
theorem read_place {s : Slice} {e : Extent} (h : Inside e s.bytes) (hstart : 0 < e.start) (elsewhere : Memory) :
    (place s e).read (s.memory elsewhere) = e.read s.bytes := by
  obtain ⟨hle, hstop⟩ := h
  unfold place
  by_cases hlen : e.length = 0
  · rw [if_pos hlen]
    unfold Extent.length at hlen
    have hread : e.read s.bytes = #[] := Array.extract_eq_empty_of_le (by omega)
    rw [hread]
    rfl
  · rw [if_neg hlen]
    have hreadable : (Span.mk (s.base + e.start) e.length).readable = e.length := by
      simp [Span.readable, Span.isNull, Nat.ne_of_gt hstart]
    apply Array.ext
    · rw [Span.size_read, hreadable, Extent.read, Array.size_extract, Extent.length]
      omega
    · intro i hi _
      rw [Span.size_read, hreadable] at hi
      unfold Extent.length at hi
      simp only [Span.read, Array.getElem_ofFn, Nat.add_assoc]
      rw [memory_apply (by omega)]
      simp [Extent.read]

theorem readable_place {s : Slice} {e : Extent} (h : Inside e s.bytes) (hstart : 0 < e.start) :
    (place s e).readable = (e.read s.bytes).size := by
  rw [← read_place h hstart fun _ => 0, Span.size_read]

/-! ## One header after the other -/

/-- A read that does not end with a value is reported with a status other than success. -/
theorem answer_error (halt : Halt Status) : ∃ code, code ≠ Status.okCode ∧
    ∀ α : Type, answer true (.error halt : Except (Halt Status) α) = ⟨code, none⟩ := by
  cases halt with
  | refused reason => exact ⟨_, reason.code_ne_ok, fun _ => rfl⟩
  | trapped trap => exact ⟨_, Status.internal.code_ne_ok, fun _ => rfl⟩

theorem table_of_holds {view : View} {s : Slice} {t : Table} (h : Holds view s t) : table view = .ok (s, t) := by
  unfold table
  simp only [h.slice, h.table, ok_bind, pure_eq_ok]

theorem table_of_not_holds {view : View} (h : ∀ s t, ¬Holds view s t) :
    table view = Halt.refuse .invalidArgument := by
  cases ht : table view with
  | ok st =>
      have hsettles := table_settles view
      rw [ht] at hsettles
      cases hsettles with
      | value hst => exact absurd hst (h _ _)
  | error halt =>
      have hsettles := table_settles view
      rw [ht] at hsettles
      cases hsettles with
      | refused hr =>
          rw [List.mem_singleton.mp hr]
          rfl

section

variable {m : Type → Type} [Monad m] [LawfulMonad m] {view : View} {s : Slice} {t : Table}

/-- A key that is read at the place of a header is the key of the header. -/
theorem reads_key_iff (h : Holds view s t) {index : Nat} {e : Extent × Extent} (he : t.header index = .ok e)
    (key : Source) : ((place s e.1).readable = key.readable ∧ (place s e.1).read view.memory = key.bytes) ↔
      key.holds (e.1.read t.buffer) = true := by
  obtain ⟨hf, rfl⟩ := ofBytes_eq_ok_iff.mp h.table
  have hin := (header_inside hf he).1
  obtain ⟨-, ⟨hstart, -⟩, rfl⟩ := (header_eq_ok_iff hf).mp he
  have hpos : 0 < offset s.bytes (2 * index) := by
    unfold tableSize Word.width at hstart
    omega
  rw [readable_place hin hpos, memory_of_slice h.slice, read_place hin hpos, tableOf_buffer,
    Source.holds_iff]
  constructor
  · rintro ⟨-, hread⟩
    exact hread.symm
  · intro hread
    rw [← hread, Source.size_bytes]
    exact ⟨rfl, rfl⟩

/-- The scan and the lookup go through the same headers, and the first that cannot be read or that has the key ends
both. The induction is on the number of headers that are left. -/
theorem scanFrom_eq (h : Holds view s t) (key : Source) {index remaining : Nat} (hsum : index + remaining = t.count) :
    Engine.scanFrom (engine (m := m)).header view key index remaining =
      pure (answer true (t.searchFrom key.holds index remaining >>= fun e => .ok (place s e))) := by
  induction remaining generalizing index with
  | zero => rfl
  | succ remaining ih =>
      have hheader : (engine (m := m)).header view index =
          pure (answer true (t.header index >>= fun e => .ok ⟨place s e.1, place s e.2⟩)) := by
        change pure (header view index true) = _
        unfold header
        rw [table_of_holds h]
        rfl
      rw [Engine.scanFrom, Table.searchFrom, hheader, pure_bind]
      cases he : t.header index with
      | error halt =>
          obtain ⟨code, hcode, hanswer⟩ := answer_error halt
          simp only [error_bind, hanswer, if_neg hcode]
      | ok e =>
          have hkey := reads_key_iff h he key
          simp only [ok_bind, answer, if_true, Option.getD_some]
          by_cases hholds : key.holds (e.1.read t.buffer) = true
          · rw [if_pos (hkey.mpr hholds), if_pos hholds]
            rfl
          · rw [if_neg (fun hread => hholds (hkey.mp hread)), if_neg hholds]
            exact ih (by omega)

theorem scan_of_isValid (view : View) {key : Source} (hkey : key.isValid = true) :
    Engine.scan (engine (m := m)).count engine.header view key = engine.find view key := by
  change Engine.scan (fun view => pure (count view true)) engine.header view key = pure (find view key true)
  unfold Engine.scan count find
  rw [if_pos hkey, pure_bind]
  by_cases h : ∃ s t, Holds view s t
  · obtain ⟨s, t, h⟩ := h
    rw [table_of_holds h]
    exact scanFrom_eq h key (Nat.zero_add t.count)
  · rw [table_of_not_holds fun s t hst => h ⟨s, t, hst⟩]
    rfl

end

/-- A scan over the reads of the flat engine answers as its lookup does, for any view and any key but a null key with a
length. That one the lookup refuses, and the scan takes it for the empty key. -/
theorem scan_eq_find {m : Type → Type} [Monad m] [LawfulMonad m] (view : View) (key : Source) :
    let scan := Engine.scan (engine (m := m)).count engine.header view
    (key.isValid = true → scan key = engine.find view key) ∧
    (key.isValid = false → engine.find view key = (pure ⟨Status.invalidArgument.code, none⟩ : m _) ∧
      scan key = scan (Source.ofBytes #[]) ∧ scan key = engine.find view (Source.ofBytes #[])) ∧
    ((find view key true).written.isSome = true ↔ (find view key true).status = Status.okCode) ∧
    ∀ span, (find view key true).written = some span → span = Span.null ∨ 0 < span.len := by
  intro scan
  have hsound := find_sound view true key
  refine ⟨scan_of_isValid view, fun hkey => ?_, hsound.written, fun span hspan => ?_⟩
  · have hempty : scan key = scan (Source.ofBytes #[]) :=
      Engine.scan_congr _ _ view ((Source.bytes_of_not_isValid hkey).trans (Source.bytes_ofBytes _).symm)
    refine ⟨?_, hempty, hempty.trans (scan_of_isValid view (Source.isValid_ofBytes _))⟩
    change pure (find view key true) = _
    unfold find
    rw [hkey]
    rfl
  · obtain ⟨s, t, -, hnull | ⟨hlen, -⟩⟩ := hsound.kind span hspan
    · exact .inl hnull
    · exact .inr hlen

/-- A null key with a length, looked for in a packet with an empty key. -/
theorem scan_eq_find_null_key :
    let view : View := ⟨some ⟨64, encode [⟨#[7], #[1]⟩, ⟨#[], #[5, 6]⟩] #[9]⟩, fun _ => 0⟩
    let key : Source := ⟨true, 3, fun _ => 0⟩
    Engine.scan (engine (m := Id)).count engine.header view key = ⟨0, some ⟨114, 2⟩⟩ ∧
      (engine (m := Id)).find view key = ⟨22, none⟩ := by
  intro view key
  obtain ⟨-, hnull, -⟩ := scan_eq_find (m := Id) view key
  obtain ⟨hfind, -, hscan⟩ := hnull rfl
  exact ⟨hscan.trans rfl, hfind⟩

end Flat

end PacketHost
