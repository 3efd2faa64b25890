import PacketHost.Packet.Location
import PacketHost.Proofs.Halt
import PacketHost.Proofs.Span

/-!
# Which spans are located

A span without bytes is located wherever it points. Any other is located exactly if all its bytes lie in the buffer, and
what it is located at are these bytes; else it is refused (`Span.Foreign`). No step of this traps, whatever the span
says. So a part of the buffer is found again where its span says that it lies (`Slice.locate_span_part`), and the test
of a span over words answers as inequalities over natural numbers do (`Slice.containment_exact`).
-/

namespace PacketHost

/-- Bytes are reported that do not all lie in the buffer: at the null pointer, past the last address, before the buffer
or after it. -/
def Span.Foreign (span : Span) (buffer : Slice) : Prop :=
  0 < span.len ∧ (span.addr = 0 ∨ Word.limit ≤ span.addr + span.len ∨
    span.addr < buffer.base ∨ buffer.stop < span.addr + span.len)

instance (span : Span) (buffer : Slice) : Decidable (span.Foreign buffer) := inferInstanceAs (Decidable (_ ∧ _))

theorem Span.foreign_iff {span : Span} {buffer : Slice} (hbase : 0 < buffer.base) (hstop : buffer.stop < Word.limit) :
    span.Foreign buffer ↔ span.len ≠ 0 ∧ span.liesIn buffer = false := by
  unfold Foreign
  rw [← Bool.not_eq_true, liesIn_iff_bounds hstop]
  omega

theorem Span.not_foreign_of_liesIn {span : Span} {buffer : Slice} (hbase : 0 < buffer.base)
    (hstop : buffer.stop < Word.limit) (h : span.liesIn buffer = true) : ¬span.Foreign buffer :=
  fun hforeign => Bool.false_ne_true (((foreign_iff hbase hstop).mp hforeign).2.symm.trans h)

namespace Slice

/-- A part of a buffer is what a span reports: no bytes, or those of the buffer at the address and of the length of the
span. -/
def Shows (buffer : Slice) (span : Span) (part : Slice) : Prop :=
  (span.len = 0 ∧ part.bytes = #[]) ∨
    (buffer.base ≤ span.addr ∧ span.addr + span.len ≤ buffer.stop ∧ part.base = span.addr ∧ part.length = span.len ∧
      part.bytes = buffer.bytes.extract (span.addr - buffer.base) (span.addr - buffer.base + span.len))

def foreignText (span : Span) (what : String) : String :=
  s!"{what} span of {span.len} bytes lies outside the packet buffer"

variable {buffer : Slice} {span : Span}

theorem locate_of_foreign (h : span.Foreign buffer) (what : String) :
    buffer.locate span what = Halt.refuse (.engineContract (foreignText span what)) := by
  obtain ⟨hlen, hcases⟩ := h
  have hempty : span.isEmpty = false := beq_eq_false_iff_ne.mpr (Nat.ne_of_gt hlen)
  have hrefused : ¬(span.isValid && span.liesIn buffer) = true := by
    rw [Bool.and_eq_true, Span.isValid_iff_of_pos hlen, Span.liesIn_iff_of_pos hlen]
    omega
  unfold locate
  rw [hempty, if_neg Bool.false_ne_true, if_neg hrefused]
  rfl

theorem locate_of_not_foreign (h : ¬span.Foreign buffer) (what : String) :
    ∃ part, buffer.locate span what = .ok part ∧ buffer.Shows span part := by
  unfold locate
  by_cases hlen : span.len = 0
  · have hempty : span.isEmpty = true := beq_iff_eq.mpr hlen
    rw [if_pos hempty]
    exact ⟨_, rfl, .inl ⟨hlen, rfl⟩⟩
  · have hempty : span.isEmpty = false := beq_eq_false_iff_ne.mpr hlen
    have hpos : 0 < span.len := Nat.pos_of_ne_zero hlen
    unfold Span.Foreign at h
    have haddr : 0 < span.addr := by omega
    have hsum : span.addr + span.len < Word.limit := by omega
    have hbase : buffer.base ≤ span.addr := by omega
    have hstop : span.addr + span.len ≤ buffer.stop := by omega
    have hsize : span.addr - buffer.base + span.len ≤ buffer.bytes.size := by
      unfold stop length at hstop
      omega
    have hlocated : (span.isValid && span.liesIn buffer) = true := by
      rw [Bool.and_eq_true, Span.isValid_iff_of_pos hpos, Span.liesIn_iff_of_pos hpos]
      exact ⟨haddr, hsum, hbase, hstop⟩
    rw [hempty, if_neg Bool.false_ne_true, if_pos hlocated, Trap.sub_of_le hbase, Halt.ofTrap_ok, ok_bind,
      Trap.add_of_lt (by omega), Halt.ofTrap_ok, ok_bind, Extent.cut_of_le (Nat.le_add_right _ _) hsize,
      Halt.ofTrap_ok, ok_bind]
    refine ⟨_, rfl, .inr ⟨hbase, hstop, Nat.add_sub_cancel' hbase, ?_, rfl⟩⟩
    change (buffer.bytes.extract (span.addr - buffer.base) (span.addr - buffer.base + span.len)).size = span.len
    rw [Array.size_extract]
    omega

/-- A part of a buffer is found again from its span, but for the address of a part without bytes. -/
theorem locate_span_part {e : Extent} (hbase : 0 < buffer.base) (hstop : buffer.stop < Word.limit)
    (hle : e.start ≤ e.stop) (hsize : e.stop ≤ buffer.length) (what : String) :
    ∃ found, buffer.locate (buffer.part e).span what = .ok found ∧ found.bytes = e.read buffer.bytes ∧
      (e.start < e.stop → found = buffer.part e) := by
  have hlength : (buffer.part e).length = e.stop - e.start := length_part hsize
  -- The span of a part without bytes is null and says nothing of the place; only the other case goes by the address.
  rcases Nat.eq_or_lt_of_le hle with hempty | hlt
  · have hnull : (buffer.part e).span = Span.null := span_of_length_eq_zero (by omega)
    have hread : e.read buffer.bytes = #[] := Array.extract_eq_empty_of_le (by omega)
    rw [hnull, hread]
    exact ⟨_, rfl, rfl, fun hlt => absurd hempty (Nat.ne_of_lt hlt)⟩
  · have hspan : (buffer.part e).span = ⟨buffer.base + e.start, e.stop - e.start⟩ := by
      rw [span_of_pos (by omega), hlength]
      rfl
    have hown : ¬(buffer.part e).span.Foreign buffer :=
      Span.not_foreign_of_liesIn hbase hstop (span_part_liesIn hle hsize hstop)
    rw [hspan] at hown ⊢
    obtain ⟨found, hfound, ⟨hzero, -⟩ | ⟨-, -, hplace, -, hbytes⟩⟩ := locate_of_not_foreign hown what
    · exact absurd hzero (Nat.sub_ne_zero_of_lt hlt)
    · rw [Nat.add_sub_cancel_left, Nat.add_sub_cancel' hle] at hbytes
      obtain ⟨base, bytes⟩ := found
      obtain rfl : base = buffer.base + e.start := hplace
      obtain rfl : bytes = e.read buffer.bytes := hbytes
      exact ⟨_, hfound, rfl, fun _ => rfl⟩

/-- Which spans lie in a buffer and what they are located at, for any span, any part of the buffer and its span. A part
without bytes is found as no bytes, at no place. -/
theorem containment_exact {outer : Slice} (hbase : 0 < outer.base) (hstop : outer.base + outer.length < Word.limit)
    (span : Span) (what : String) :
    (span.liesIn outer = true ↔
      span.len = 0 ∨ outer.base ≤ span.addr ∧ span.addr + span.len ≤ outer.base + outer.length) ∧
    (∀ start stop, start ≤ stop → stop ≤ outer.length →
      (span.liesIn (outer.part ⟨start, stop⟩) = true → span.liesIn outer = true) ∧
      (outer.part ⟨start, stop⟩).span.liesIn outer = true ∧
      ((outer.part ⟨start, stop⟩).span = Span.null ↔ (outer.part ⟨start, stop⟩).bytes = #[]) ∧
      ∃ found, outer.locate (outer.part ⟨start, stop⟩).span what = .ok found ∧
        found.bytes = outer.bytes.extract start stop ∧ (start < stop → found = outer.part ⟨start, stop⟩)) ∧
    (span.liesIn outer = true → ∃ found, outer.locate span what = .ok found ∧ outer.Shows span found) ∧
    (span.len ≠ 0 → span.liesIn outer = false →
      outer.locate span what = Halt.refuse (.engineContract (foreignText span what))) := by
  refine ⟨Span.liesIn_iff_bounds hstop, fun start stop hle hsize => ⟨liesIn_of_part hle hsize,
    span_part_liesIn hle hsize hstop, span_eq_null_iff, locate_span_part hbase hstop hle hsize what⟩,
    fun hlies => ?_, fun hlen hlies => ?_⟩
  · exact locate_of_not_foreign (Span.not_foreign_of_liesIn hbase hstop hlies) what
  · exact locate_of_foreign ((Span.foreign_iff hbase hstop).mpr ⟨hlen, hlies⟩) what

/-- Four bytes up to the last address. A span of which the end wraps around to an address between them is refused; the
bytes from the third on are found again, and the last of them, a part of that part, is located in the whole. -/
theorem containment_exact_last_address :
    let outer : Slice := ⟨Word.largest - 4, #[10, 11, 12, 13]⟩
    let wrapping : Span := ⟨Word.largest - 2, Word.largest⟩
    let last : Span := ⟨Word.largest - 1, 1⟩
    0 < outer.base ∧ outer.base + outer.length = Word.largest ∧
      outer.base ≤ wrapping.addr ∧ Word.wrap (wrapping.addr + wrapping.len) ≤ outer.stop ∧
      wrapping.liesIn outer = false ∧
      outer.locate wrapping "payload" = Halt.refuse (.engineContract (foreignText wrapping "payload")) ∧
      outer.locate (outer.part ⟨2, 4⟩).span "payload" = .ok (outer.part ⟨2, 4⟩) ∧
      (outer.part ⟨4, 4⟩).span = Span.null ∧ last.liesIn (outer.part ⟨2, 4⟩) = true ∧
      ∃ found, outer.locate last "payload" = .ok found ∧ outer.Shows last found := by
  intro outer wrapping last
  have hbase : 0 < outer.base := by decide
  have hstop : outer.base + outer.length < Word.limit := by decide
  have hwrapping : wrapping.liesIn outer = false := by decide
  have hlast : last.liesIn (outer.part ⟨2, 4⟩) = true := by decide
  obtain ⟨-, -, -, hrefused⟩ := containment_exact hbase hstop wrapping "payload"
  obtain ⟨-, hparts, hlocated, -⟩ := containment_exact hbase hstop last "payload"
  obtain ⟨hwhole, -, -, found, hfound, -, hsame⟩ := hparts 2 4 (by decide) (by decide)
  obtain ⟨-, -, hnull, -⟩ := hparts 4 4 (by decide) (by decide)
  rw [hsame (by decide)] at hfound
  exact ⟨hbase, by decide, by decide, by decide, hwrapping, hrefused (by decide) hwrapping, hfound,
    hnull.mpr (by decide), hlast, hlocated (hwhole hlast)⟩

end Slice

end PacketHost
