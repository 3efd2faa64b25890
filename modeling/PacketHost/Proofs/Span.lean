import Mathlib
import PacketHost.Span

/-!
# Spans in a buffer

A slice of memory ends before the last address. So a span that runs past the last address lies in no slice, and the
check of a reported span asks for nothing but its place (`Span.liesIn_iff_bounds`, `Span.viewOf_iff`). What lies in a
part of a slice lies in the slice (`Span.liesIn_mono`); the span of each part does (`Slice.span_part_liesIn`).
-/

namespace PacketHost

namespace Span

/-- The span is neither empty nor null, and lies in a buffer at this address of this size. -/
def ViewOf (s : Span) (base size : Nat) : Prop :=
  0 < s.len ∧ 0 < s.addr ∧ base ≤ s.addr ∧ s.addr + s.len ≤ base + size

theorem liesIn_iff_of_pos {s : Span} {buffer : Slice} (hlen : 0 < s.len) : s.liesIn buffer = true ↔
    s.addr + s.len < Word.limit ∧ buffer.base ≤ s.addr ∧ s.addr + s.len ≤ buffer.stop := by
  have hempty : s.isEmpty = false := beq_eq_false_iff_ne.mpr (Nat.ne_of_gt hlen)
  unfold liesIn Word.add?
  by_cases hsum : s.addr + s.len < Word.limit
  · simp [hempty, hsum]
  · simp [hempty, hsum]

theorem liesIn_iff {s : Span} {buffer : Slice} (hstop : buffer.stop < Word.limit) (hlen : 0 < s.len) :
    s.liesIn buffer = true ↔ buffer.base ≤ s.addr ∧ s.addr + s.len ≤ buffer.stop := by
  rw [liesIn_iff_of_pos hlen]
  exact ⟨fun h => h.2, fun h => ⟨Nat.lt_of_le_of_lt h.2 hstop, h⟩⟩

theorem liesIn_of_len_eq_zero {s : Span} (hlen : s.len = 0) (buffer : Slice) : s.liesIn buffer = true := by
  have hempty : s.isEmpty = true := beq_iff_eq.mpr hlen
  unfold liesIn
  rw [hempty, Bool.true_or]

theorem liesIn_iff_bounds {s : Span} {buffer : Slice} (hstop : buffer.stop < Word.limit) : s.liesIn buffer = true ↔
    s.len = 0 ∨ buffer.base ≤ s.addr ∧ s.addr + s.len ≤ buffer.stop := by
  by_cases hlen : s.len = 0
  · exact ⟨fun _ => .inl hlen, fun _ => liesIn_of_len_eq_zero hlen buffer⟩
  · rw [liesIn_iff hstop (Nat.pos_of_ne_zero hlen), or_iff_right hlen]

theorem liesIn_mono {s : Span} {inner outer : Slice} (hbase : outer.base ≤ inner.base)
    (hstop : inner.stop ≤ outer.stop) (h : s.liesIn inner = true) : s.liesIn outer = true := by
  by_cases hlen : s.len = 0
  · exact liesIn_of_len_eq_zero hlen outer
  · have hpos : 0 < s.len := Nat.pos_of_ne_zero hlen
    obtain ⟨hword, hfirst, hlast⟩ := (liesIn_iff_of_pos hpos).mp h
    exact (liesIn_iff_of_pos hpos).mpr ⟨hword, Nat.le_trans hbase hfirst, Nat.le_trans hlast hstop⟩

theorem isValid_iff_of_pos {s : Span} (hlen : 0 < s.len) : s.isValid = true ↔ 0 < s.addr := by
  simp [isValid, isNull, Nat.ne_of_gt hlen, Nat.pos_iff_ne_zero]

theorem viewOf_iff {s : Span} {buffer : Slice} (hstop : buffer.stop < Word.limit) :
    (s.isEmpty || !s.isValid || !s.liesIn buffer) = false ↔ s.ViewOf buffer.base buffer.length := by
  have hempty : s.isEmpty = false ↔ 0 < s.len := by simp [isEmpty, Nat.pos_iff_ne_zero]
  rw [Bool.or_eq_false_iff, Bool.or_eq_false_iff, Bool.not_eq_false', Bool.not_eq_false', hempty]
  constructor
  · rintro ⟨⟨hlen, hv⟩, hlies⟩
    obtain ⟨hbase, hend⟩ := (liesIn_iff hstop hlen).mp hlies
    exact ⟨hlen, (isValid_iff_of_pos hlen).mp hv, hbase, hend⟩
  · rintro ⟨hlen, haddr, hbase, hend⟩
    exact ⟨⟨hlen, (isValid_iff_of_pos hlen).mpr haddr⟩, (liesIn_iff hstop hlen).mpr ⟨hbase, hend⟩⟩

end Span

namespace Slice

/-! ## Parts of a slice -/

theorem span_of_length_eq_zero {s : Slice} (h : s.length = 0) : s.span = Span.null := if_pos h

theorem span_of_pos {s : Slice} (h : 0 < s.length) : s.span = ⟨s.base, s.length⟩ := if_neg (Nat.ne_of_gt h)

theorem span_eq_null_iff {s : Slice} : s.span = Span.null ↔ s.bytes = #[] := by
  rw [← Array.size_eq_zero_iff]
  refine ⟨fun h => ?_, span_of_length_eq_zero⟩
  by_contra hsize
  rw [span_of_pos (Nat.pos_of_ne_zero hsize)] at h
  exact hsize (congrArg Span.len h)

/-- Memory before the last address holds what describes it. -/
theorem span_liesIn {s : Slice} (hstop : s.stop < Word.limit) : s.span.liesIn s = true := by
  by_cases hlen : s.length = 0
  · rw [span_of_length_eq_zero hlen]
    exact Span.liesIn_of_len_eq_zero rfl s
  · have hpos : 0 < s.length := Nat.pos_of_ne_zero hlen
    rw [span_of_pos hpos, Span.liesIn_iff hstop hpos]
    exact ⟨Nat.le_refl s.base, Nat.le_refl s.stop⟩

section

variable {s : Slice} {e : Extent}

theorem length_part (hsize : e.stop ≤ s.length) : (s.part e).length = e.stop - e.start := by
  have hmin : min e.stop s.bytes.size = e.stop := Nat.min_eq_left hsize
  change (s.bytes.extract e.start e.stop).size = e.stop - e.start
  rw [Array.size_extract, hmin]

variable (hle : e.start ≤ e.stop) (hsize : e.stop ≤ s.length)

include hle hsize

theorem stop_part : (s.part e).stop = s.base + e.stop := by
  unfold stop
  rw [length_part hsize]
  change s.base + e.start + (e.stop - e.start) = s.base + e.stop
  rw [Nat.add_assoc, Nat.add_sub_cancel' hle]

theorem stop_part_le : (s.part e).stop ≤ s.stop := by
  rw [stop_part hle hsize]
  exact Nat.add_le_add_left hsize s.base

/-- What lies in a part of a slice lies in the slice. -/
theorem liesIn_of_part {span : Span} (h : span.liesIn (s.part e) = true) : span.liesIn s = true :=
  Span.liesIn_mono (Nat.le_add_right s.base e.start) (stop_part_le hle hsize) h

theorem span_part_liesIn (hstop : s.stop < Word.limit) : (s.part e).span.liesIn s = true :=
  liesIn_of_part hle hsize (span_liesIn (Nat.lt_of_le_of_lt (stop_part_le hle hsize) hstop))

end

end Slice

end PacketHost
