import PacketHost.Proofs.Flat.Reading

/-!
# Reading a buffer that may hold anything

The flat engine may be handed any view: the null pointer, a packet that was cut, or bytes that never were a packet. Each
read settles all the same, with an answer or with a refusal for one of few reasons, and no step of it traps. A place
that it answers with lies between the offset table and the end of the packet.
-/

namespace PacketHost

/-- Null, or at least one byte between two positions of a slice. -/
def Span.Between (span : Span) (s : Slice) (start stop : Nat) : Prop :=
  span = Span.null ∨ (0 < span.len ∧ s.base + start ≤ span.addr ∧ span.addr + span.len ≤ s.base + stop)

/-- What an entry point promises of its answer. A missing place for the answer is reported before all else. Otherwise
the status is success or one of the given reasons, and something is written, of the given kind, exactly on success. A
trap would show as an internal failure. -/
structure Answer.Sound {α : Type} (a : Answer α) (hasOut : Bool) (reasons : List Status) (kind : α → Prop) :
    Prop where
  missing : hasOut = false → a = ⟨Status.badAddress.code, none⟩
  status : hasOut = true → a.status = Status.okCode ∨ ∃ reason ∈ reasons, a.status = reason.code
  untrapped : a.status ≠ Status.internal.code
  written : a.written.isSome = true ↔ a.status = Status.okCode
  kind : ∀ value, a.written = some value → kind value

namespace Flat

/-- The view is of a slice that holds a packet: offset table, then payload, then the end of the slice. -/
structure Holds (view : View) (s : Slice) (t : Table) : Prop where
  slice : view.slice? = some s
  table : Table.ofBytes s.bytes = .ok t
  start : tableSize t.count ≤ t.payloadStart
  stop : t.payloadStart ≤ s.length

/-! ## Reads that settle -/

/-- A read ends with a value of a kind, or refuses for one of the given reasons; it does not trap. -/
inductive Settles {α : Type} (kind : α → Prop) (reasons : List Status) : Except (Halt Status) α → Prop
  | value {a : α} (h : kind a) : Settles kind reasons (.ok a)
  | refused {reason : Status} (h : reason ∈ reasons) : Settles kind reasons (Halt.refuse reason)

namespace Settles

variable {α β : Type} {kind : α → Prop} {kind' : β → Prop} {reasons : List Status} {x : Except (Halt Status) α}

theorem bind {f : α → Except (Halt Status) β} (hx : Settles kind reasons x)
    (hf : ∀ a, kind a → Settles kind' reasons (f a)) : Settles kind' reasons (x >>= f) := by
  cases hx with
  | value h => exact hf _ h
  | refused h => exact .refused h

theorem mono {reasons' : List Status} (hx : Settles kind reasons x) (h : reasons ⊆ reasons') :
    Settles kind reasons' x := by
  cases hx with
  | value hk => exact .value hk
  | refused hr => exact .refused (h hr)

theorem imp {kind' : α → Prop} (hx : Settles kind reasons x) (h : ∀ a, kind a → kind' a) :
    Settles kind' reasons x := by
  cases hx with
  | value hk => exact .value (h _ hk)
  | refused hr => exact .refused hr

/-- An entry point whose read settles keeps its promise. -/
theorem sound (hx : Settles kind reasons x) (hasOut : Bool) (hinternal : Status.internal ∉ reasons) :
    (answer hasOut x).Sound hasOut reasons kind := by
  cases hasOut with
  | false =>
      have hne : Status.badAddress.code ≠ Status.internal.code := by decide
      exact ⟨fun _ => rfl, nofun, hne, ⟨nofun, nofun⟩, nofun⟩
  | true =>
      cases hx with
      | value h =>
          have hne : Status.okCode ≠ Status.internal.code := (Status.code_ne_ok _).symm
          refine ⟨nofun, fun _ => .inl rfl, hne, ⟨fun _ => rfl, fun _ => rfl⟩, fun value hv => ?_⟩
          cases hv
          exact h
      | @refused reason h =>
          refine ⟨nofun, fun _ => .inr ⟨reason, h, rfl⟩, fun hcode => ?_,
            ⟨nofun, fun hcode => absurd hcode reason.code_ne_ok⟩, nofun⟩
          exact hinternal (Status.code_injective hcode ▸ h)

end Settles

/-! ## Places in a packet -/

theorem place_between {s : Slice} {e : Extent} {start stop : Nat} (hstart : start ≤ e.start) (hstop : e.stop ≤ stop) :
    (place s e).Between s start stop := by
  unfold place
  split
  · exact .inl rfl
  · rename_i hlen
    unfold Extent.length at hlen ⊢
    refine .inr ⟨?_, ?_, ?_⟩
    all_goals
      dsimp only
      omega

theorem table_settles (view : View) : Settles (fun (s, t) => Holds view s t) [.invalidArgument] (table view) := by
  unfold table
  cases hs : view.slice? with
  | none => exact .refused (by simp)
  | some s =>
      dsimp only
      by_cases hf : Framed s.bytes
      · rw [ofBytes_of_framed hf]
        exact .value ⟨hs, ofBytes_of_framed hf, hf.2.1, hf.2.2⟩
      · rw [ofBytes_of_not_framed hf]
        exact .refused (by simp)

section

variable {view : View} {s : Slice} {t : Table} (h : Holds view s t)

include h

/-- A header lies between the offset table and the payload. -/
theorem header_settles_of_lt {index : Nat} (hi : index < t.count) :
    Settles (fun e => (place s e.1).Between s (tableSize t.count) t.payloadStart ∧
      (place s e.2).Between s (tableSize t.count) t.payloadStart) [.invalidArgument] (t.header index) := by
  obtain ⟨hf, rfl⟩ := ofBytes_eq_ok_iff.mp h.table
  have hcount : ¬countOf s.bytes ≤ index := Nat.not_le.mpr hi
  rw [header_eq hf, if_neg hcount]
  by_cases ho : InOrder s.bytes index
  · rw [if_pos ho]
    obtain ⟨hkey, hval, hnext, hstop⟩ := ho
    exact .value ⟨place_between hkey (Nat.le_trans hnext hstop), place_between (Nat.le_trans hkey hval) hstop⟩
  · rw [if_neg ho]
    exact .refused (by simp)

theorem header_settles (index : Nat) :
    Settles (fun e => index < t.count ∧ (place s e.1).Between s (tableSize t.count) t.payloadStart ∧
      (place s e.2).Between s (tableSize t.count) t.payloadStart) [.invalidArgument, .outOfRange] (t.header index) := by
  by_cases hi : index < t.count
  · exact ((header_settles_of_lt h hi).mono (by simp)).imp fun e he => ⟨hi, he⟩
  · have hrefused : t.header index = Halt.refuse .outOfRange := if_pos (Nat.not_lt.mp hi)
    rw [hrefused]
    exact .refused (by simp)

theorem payload_settles :
    Settles (fun e => (place s e).Between s t.payloadStart s.length ∧
      (place s e = Span.null ∨ (place s e).addr + (place s e).len = s.stop)) [.invalidArgument] t.payload := by
  obtain ⟨hf, rfl⟩ := ofBytes_eq_ok_iff.mp h.table
  rw [payload_eq hf]
  refine .value ⟨place_between (Nat.le_refl _) (Nat.le_refl _), ?_⟩
  unfold place
  split
  · exact .inl rfl
  · refine .inr ?_
    have hsize := hf.2.2
    simp only [Extent.length, Slice.stop, Slice.length]
    omega

/-- The search looks at headers below the count only, so that no index is out of range. The induction is on the number
of headers that are left. -/
theorem searchFrom_settles (accept : Bytes → Bool) {index remaining : Nat} (hsum : index + remaining = t.count) :
    Settles (fun e => (place s e).Between s (tableSize t.count) t.payloadStart) [.invalidArgument, .notFound]
      (t.searchFrom accept index remaining) := by
  induction remaining generalizing index with
  | zero => exact .refused (by simp)
  | succ remaining ih =>
      have hindex : index < t.count := by omega
      rw [Table.searchFrom]
      refine ((header_settles_of_lt h hindex).mono (by simp)).bind fun e hplaces => ?_
      obtain ⟨key, val⟩ := e
      dsimp only
      split
      · exact .value hplaces.2
      · exact ih (by omega)

end

/-! ## The entry points -/

section

variable (view : View) (hasOut : Bool)

theorem count_sound : (count view hasOut).Sound hasOut [.invalidArgument] fun n =>
    ∃ s t, Holds view s t ∧ n = t.count := by
  refine Settles.sound ((table_settles view).bind fun (s, t) h => ?_) hasOut (by decide)
  exact .value ⟨s, t, h, rfl⟩

theorem header_sound (index : Nat) :
    (header view index hasOut).Sound hasOut [.invalidArgument, .outOfRange] fun spans =>
      ∃ s t, Holds view s t ∧ index < t.count ∧ spans.key.Between s (tableSize t.count) t.payloadStart ∧
        spans.val.Between s (tableSize t.count) t.payloadStart := by
  refine Settles.sound (((table_settles view).mono (by simp)).bind fun (s, t) h => ?_) hasOut (by decide)
  refine (header_settles h index).bind fun (key, val) hplaces => ?_
  exact .value ⟨s, t, h, hplaces⟩

theorem payload_sound : (payload view hasOut).Sound hasOut [.invalidArgument] fun span =>
    ∃ s t, Holds view s t ∧ span.Between s t.payloadStart s.length ∧
      (span = Span.null ∨ span.addr + span.len = s.stop) := by
  refine Settles.sound ((table_settles view).bind fun (s, t) h => ?_) hasOut (by decide)
  refine (payload_settles h).bind fun e hplace => ?_
  exact .value ⟨s, t, h, hplace⟩

theorem find_sound (key : Source) : (find view key hasOut).Sound hasOut [.invalidArgument, .notFound] fun span =>
    ∃ s t, Holds view s t ∧ span.Between s (tableSize t.count) t.payloadStart := by
  unfold find
  split
  · refine Settles.sound (((table_settles view).mono (by simp)).bind fun (s, t) h => ?_) hasOut (by decide)
    refine (searchFrom_settles h key.holds (Nat.zero_add t.count)).bind fun e hplace => ?_
    exact .value ⟨s, t, h, hplace⟩
  · exact Settles.sound (.refused (by simp)) hasOut (by decide)

end

/-- Every read of the flat engine, on any view, for any index and any key, with or without a place for the answer. -/
theorem reads_sound (view : View) (index : Nat) (key : Source) (hasOut : Bool) :
    (count view hasOut).Sound hasOut [.invalidArgument] (fun n => ∃ s t, Holds view s t ∧ n = t.count) ∧
    (header view index hasOut).Sound hasOut [.invalidArgument, .outOfRange] (fun spans => ∃ s t, Holds view s t ∧
      index < t.count ∧ spans.key.Between s (tableSize t.count) t.payloadStart ∧
      spans.val.Between s (tableSize t.count) t.payloadStart) ∧
    (payload view hasOut).Sound hasOut [.invalidArgument] (fun span => ∃ s t, Holds view s t ∧
      span.Between s t.payloadStart s.length ∧ (span = Span.null ∨ span.addr + span.len = s.stop)) ∧
    (find view key hasOut).Sound hasOut [.invalidArgument, .notFound] (fun span => ∃ s t, Holds view s t ∧
      span.Between s (tableSize t.count) t.payloadStart) :=
  ⟨count_sound view hasOut, header_sound view hasOut index, payload_sound view hasOut, find_sound view hasOut key⟩

end Flat

end PacketHost
