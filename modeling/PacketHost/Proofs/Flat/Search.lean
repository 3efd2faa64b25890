import PacketHost.Proofs.Flat.Decode
import PacketHost.Proofs.Flat.Decoder

/-!
# Where a search ends

A search looks at one header after the other and ends at the first that cannot be read or has the key
(`Table.EndsAt`). What lies behind this header plays no part. So a header that cannot be read hides every match behind
it, and in a packet of which each header can be read the first match is found.
-/

namespace PacketHost.Flat

namespace Table

variable {t : Table} {accept : Bytes → Bool} {index : Nat}

/-! ## The loop -/

/-- The search does not go on after this header: it cannot be read, or its key is accepted. -/
def Stops (t : Table) (accept : Bytes → Bool) (index : Nat) : Prop :=
  ∀ e, t.header index = .ok e → accept (e.1.read t.buffer) = true

theorem searchFrom_of_stops (h : t.Stops accept index) (remaining : Nat) :
    t.searchFrom accept index (remaining + 1) = t.header index >>= fun e => .ok e.2 := by
  rw [searchFrom]
  cases he : t.header index with
  | error halt => rfl
  | ok e =>
      simp only [ok_bind]
      rw [if_pos (h e he)]
      rfl

theorem searchFrom_of_not_stops (h : ¬t.Stops accept index) (remaining : Nat) :
    t.searchFrom accept index (remaining + 1) = t.searchFrom accept (index + 1) remaining := by
  rw [searchFrom]
  cases he : t.header index with
  | error halt => exact absurd (fun e hok => by rw [he] at hok; cases hok) h
  | ok e =>
      simp only [ok_bind]
      rw [if_neg]
      intro haccept
      refine h fun e' hok => ?_
      rw [he] at hok
      cases hok
      exact haccept

/-- The induction is on the number of headers before the one that ends the search. -/
theorem searchFrom_of_first {before remaining : Nat} (hlt : before < remaining)
    (hstop : t.Stops accept (index + before)) (hfirst : ∀ j < before, ¬t.Stops accept (index + j)) :
    t.searchFrom accept index remaining = t.header (index + before) >>= fun e => .ok e.2 := by
  induction before generalizing index remaining with
  | zero =>
      obtain ⟨remaining, rfl⟩ := Nat.exists_eq_add_of_le' hlt
      exact searchFrom_of_stops hstop remaining
  | succ before ih =>
      obtain ⟨remaining, rfl⟩ := Nat.exists_eq_add_of_le' (Nat.one_le_of_lt hlt)
      have hshift (j : Nat) : index + 1 + j = index + (j + 1) := by omega
      have hhead : ¬t.Stops accept index := hfirst 0 (Nat.succ_pos before)
      rw [searchFrom_of_not_stops hhead, ih (Nat.lt_of_succ_lt_succ hlt) (by rwa [hshift]) fun j hj => by
          rw [hshift]
          exact hfirst (j + 1) (Nat.succ_lt_succ hj), hshift]

theorem searchFrom_of_none {remaining : Nat} (h : ∀ j < remaining, ¬t.Stops accept (index + j)) :
    t.searchFrom accept index remaining = Halt.refuse .notFound := by
  induction remaining generalizing index with
  | zero => rfl
  | succ remaining ih =>
      have hhead : ¬t.Stops accept index := h 0 (Nat.succ_pos remaining)
      rw [searchFrom_of_not_stops hhead]
      refine ih fun j hj => ?_
      rw [Nat.add_right_comm]
      exact h (j + 1) (Nat.succ_lt_succ hj)

/-! ## Searching for a key -/

variable {key : Bytes}

/-- A search for a key ends at this header: it cannot be read or has the key, and each one before it can be read and has
another key. -/
structure EndsAt (t : Table) (key : Bytes) (index : Nat) : Prop where
  lt : index < t.count
  stops : ∀ h, t.headerBytes index = .ok h → h.key = key
  first : ∀ j < index, ∃ h, t.headerBytes j = .ok h ∧ h.key ≠ key

theorem stops_iff : t.Stops (· == key) index ↔ ∀ h, t.headerBytes index = .ok h → h.key = key := by
  constructor
  · intro hstop h hh
    obtain ⟨e, he, hkey, -⟩ := headerBytes_eq_ok_iff.mp hh
    rw [← hkey]
    exact beq_iff_eq.mp (hstop e he)
  · intro hstop e he
    exact beq_iff_eq.mpr (hstop ⟨e.1.read t.buffer, e.2.read t.buffer⟩
      (headerBytes_eq_ok_iff.mpr ⟨e, he, rfl, rfl⟩))

theorem not_stops_iff : ¬t.Stops (· == key) index ↔ ∃ h, t.headerBytes index = .ok h ∧ h.key ≠ key := by
  rw [stops_iff]
  simp

theorem search_of_endsAt (h : t.EndsAt key index) :
    t.search (· == key) = t.header index >>= fun e => .ok e.2 := by
  have hstop := stops_iff.mpr h.stops
  have hfirst : ∀ j < index, ¬t.Stops (· == key) (0 + j) := fun j hj => by
    rw [Nat.zero_add]
    exact not_stops_iff.mpr (h.first j hj)
  rw [← Nat.zero_add index] at hstop
  have hsearch := searchFrom_of_first h.lt hstop hfirst
  rwa [Nat.zero_add] at hsearch

theorem find_of_endsAt (h : t.EndsAt key index) :
    t.find key = t.headerBytes index >>= fun h => .ok h.val := by
  unfold find headerBytes
  rw [search_of_endsAt h]
  cases t.header index <;> rfl

theorem find_of_none (h : ∀ i < t.count, ∃ h, t.headerBytes i = .ok h ∧ h.key ≠ key) :
    t.find key = Halt.refuse .notFound := by
  unfold find search
  rw [searchFrom_of_none fun j hj => ?_]
  · rfl
  · rw [Nat.zero_add]
    exact not_stops_iff.mpr (h j hj)

/-- The first header that ends the search, if there is any such header up to a given one. -/
theorem exists_endsAt (hlt : index < t.count) (hstop : ∀ h, t.headerBytes index = .ok h → h.key = key) :
    ∃ i ≤ index, t.EndsAt key i := by
  classical
  have hex : ∃ i, t.Stops (· == key) i := ⟨index, stops_iff.mpr hstop⟩
  have hle : Nat.find hex ≤ index := Nat.find_min' hex (stops_iff.mpr hstop)
  exact ⟨Nat.find hex, hle, Nat.lt_of_le_of_lt hle hlt, stops_iff.mp (Nat.find_spec hex),
    fun j hj => not_stops_iff.mp (Nat.find_min hex hj)⟩

theorem endsAt_or_none (t : Table) (key : Bytes) :
    (∃ i, t.EndsAt key i) ∨ ∀ i < t.count, ∃ h, t.headerBytes i = .ok h ∧ h.key ≠ key := by
  by_cases h : ∃ i < t.count, t.Stops (· == key) i
  · obtain ⟨i, hi, hstop⟩ := h
    obtain ⟨first, -, hends⟩ := exists_endsAt hi (stops_iff.mp hstop)
    exact .inl ⟨first, hends⟩
  · exact .inr fun i hi => not_stops_iff.mp fun hstop => h ⟨i, hi, hstop⟩

/-- Up to the header that ends the search, all that the search depends on is what the headers are. -/
theorem EndsAt.of_agree {t' : Table} (h : t.EndsAt key index) (hlt : index < t'.count)
    (hagree : ∀ j ≤ index, t'.headerBytes j = t.headerBytes j) : t'.EndsAt key index where
  lt := hlt
  stops := by
    rw [hagree index (Nat.le_refl index)]
    exact h.stops
  first := fun j hj => by
    rw [hagree j (Nat.le_of_lt hj)]
    exact h.first j hj

/-! ## Accepted buffers -/

section

variable {buffer : Bytes} (ht : Table.ofBytes buffer = .ok t)

include ht

theorem headerBytes_error {halt : Halt Status} (hlt : index < t.count) (h : t.headerBytes index = .error halt) :
    halt = .refused .invalidArgument := by
  obtain ⟨hf, rfl⟩ := ofBytes_eq_ok_iff.mp ht
  rw [tableOf_count] at hlt
  by_cases ho : InOrder buffer index
  · rw [(headerBytes_iff hf index).mpr ⟨hlt, ho, rfl⟩] at h
    cases h
  · unfold headerBytes at h
    rw [(header_eq_refused_iff hf index).mpr ⟨hlt, ho⟩] at h
    cases h
    rfl

theorem headerBytes_of_not_ok (hlt : index < t.count) (h : ∀ header, t.headerBytes index ≠ .ok header) :
    t.headerBytes index = Halt.refuse .invalidArgument := by
  cases hread : t.headerBytes index with
  | ok header => exact absurd hread (h header)
  | error halt =>
      rw [headerBytes_error ht hlt hread]
      rfl

theorem find_of_hidden (hlt : index < t.count) (h : ∀ header, t.headerBytes index ≠ .ok header)
    (hfirst : ∀ j < index, ∀ header, t.headerBytes j = .ok header → header.key ≠ key) :
    t.find key = Halt.refuse .invalidArgument := by
  obtain ⟨i, hi, hends⟩ : ∃ i ≤ index, t.EndsAt key i :=
    exists_endsAt hlt fun header hread => absurd hread (h header)
  have hnot : ∀ header, t.headerBytes i ≠ .ok header := by
    intro header hread
    rcases Nat.lt_or_eq_of_le hi with hbefore | rfl
    · exact hfirst i hbefore header hread (hends.stops header hread)
    · exact h header hread
  rw [find_of_endsAt hends, headerBytes_of_not_ok ht hends.lt hnot]
  rfl

theorem find_of_readable {headers : List Header} (hcount : headers.length = t.count)
    (hread : ∀ i (h : i < headers.length), t.headerBytes i = .ok headers[i]) :
    t.find key = found .notFound (firstValue? headers key) := by
  refine find_eq hcount.symm (fun i => ?_) key
  by_cases hi : i < headers.length
  · rw [hread i hi, List.getElem?_eq_getElem hi]
    rfl
  · obtain ⟨hf, rfl⟩ := ofBytes_eq_ok_iff.mp ht
    have hbehind : countOf buffer ≤ i := by
      rw [tableOf_count] at hcount
      omega
    unfold headerBytes
    rw [List.getElem?_eq_none (Nat.not_lt.mp hi), (header_eq_out_of_range_iff hf i).mpr hbehind]
    rfl

end

end Table

theorem found_eq_ok_iff {α : Type} {reason : Status} {answer : Option α} {a : α} :
    found reason answer = .ok a ↔ answer = some a := by
  cases answer with
  | none => exact ⟨nofun, nofun⟩
  | some b => simp [found]

theorem firstValue?_isSome {headers : List Header} {key : Bytes} :
    (∃ val, firstValue? headers key = some val) ↔ ∃ h ∈ headers, h.key = key := by
  unfold firstValue?
  rw [← Option.isSome_iff_exists, Option.isSome_map, List.find?_isSome]
  simp

/-- What a search answers in every buffer that is accepted, its headers readable or not. -/
theorem find_exact {buffer : Bytes} {t : Table} (ht : Table.ofBytes buffer = .ok t) (key : Bytes) :
    (t.find key = Halt.refuse .notFound ↔ ∀ i < t.count, ∃ h, t.headerBytes i = .ok h ∧ h.key ≠ key) ∧
    ((∃ i, t.EndsAt key i) ∨ ∀ i < t.count, ∃ h, t.headerBytes i = .ok h ∧ h.key ≠ key) ∧
    (∀ i, t.EndsAt key i →
      (∀ halt, t.headerBytes i = .error halt → halt = .refused .invalidArgument ∧ t.find key = .error halt) ∧
      ∀ h, t.headerBytes i = .ok h → h.key = key ∧ t.find key = .ok h.val) ∧
    (∀ i < t.count, (∀ h, t.headerBytes i ≠ .ok h) →
      (∀ j < i, ∀ h, t.headerBytes j = .ok h → h.key ≠ key) → t.find key = Halt.refuse .invalidArgument) ∧
    (∀ i, t.EndsAt key i → ∀ buffer' t', Table.ofBytes buffer' = .ok t' → i < t'.count →
      (∀ j ≤ i, t'.headerBytes j = t.headerBytes j) → t'.find key = t.find key) ∧
    ∀ headers : List Header, headers.length = t.count →
      (∀ i (h : i < headers.length), t.headerBytes i = .ok headers[i]) →
      t.find key = found .notFound (firstValue? headers key) ∧
      ((∃ val, t.find key = .ok val) ↔ ∃ h ∈ headers, h.key = key) := by
  refine ⟨⟨fun hfind => ?_, Table.find_of_none⟩, t.endsAt_or_none key, fun i hends => ⟨fun halt herror => ?_,
    fun h hread => ?_⟩, fun i hlt hread hfirst => Table.find_of_hidden ht hlt hread hfirst,
    fun i hends buffer' t' ht' hlt hagree => ?_, fun headers hcount hread => ?_⟩
  · refine (t.endsAt_or_none key).resolve_left fun ⟨i, hends⟩ => ?_
    rw [Table.find_of_endsAt hends] at hfind
    cases hread : t.headerBytes i with
    | ok h =>
        rw [hread] at hfind
        cases hfind
    | error halt =>
        rw [hread, Table.headerBytes_error ht hends.lt hread] at hfind
        cases hfind
  · refine ⟨Table.headerBytes_error ht hends.lt herror, ?_⟩
    rw [Table.find_of_endsAt hends, herror]
    rfl
  · refine ⟨hends.stops h hread, ?_⟩
    rw [Table.find_of_endsAt hends, hread]
    rfl
  · have hends' : t'.EndsAt key i := hends.of_agree hlt hagree
    rw [Table.find_of_endsAt hends', Table.find_of_endsAt hends, hagree i (Nat.le_refl i)]
  · have hfind : t.find key = found .notFound (firstValue? headers key) := Table.find_of_readable ht hcount hread
    refine ⟨hfind, ?_⟩
    rw [hfind, ← firstValue?_isSome]
    simp only [found_eq_ok_iff]

/-- A packet of three headers of which the second cannot be read: the first one is found, the third one is hidden,
although it can be read. -/
theorem find_exact_hidden_match :
    let buffer : Bytes := (encodeWords [3, 64, 65, 66, 60, 66, 67, 68]).toArray ++ #[7, 8, 9, 10]
    ∃ t, Table.ofBytes buffer = .ok t ∧ t.headerBytes 0 = .ok ⟨#[7], #[8]⟩ ∧
      t.headerBytes 1 = Halt.refuse .invalidArgument ∧ t.headerBytes 2 = .ok ⟨#[9], #[10]⟩ ∧
      t.find #[7] = .ok #[8] ∧ t.find #[9] = Halt.refuse .invalidArgument := by
  intro buffer
  have ht : Table.ofBytes buffer = .ok ⟨buffer, 3, 68⟩ := by decide
  have hfirst : (⟨buffer, 3, 68⟩ : Table).headerBytes 0 = .ok ⟨#[7], #[8]⟩ := by decide
  have hsecond : (⟨buffer, 3, 68⟩ : Table).headerBytes 1 = Halt.refuse .invalidArgument := by decide
  have hthird : (⟨buffer, 3, 68⟩ : Table).headerBytes 2 = .ok ⟨#[9], #[10]⟩ := by decide
  obtain ⟨-, -, hends, -⟩ := find_exact ht #[7]
  obtain ⟨-, -, -, hhidden, -⟩ := find_exact ht #[9]
  have hat : (⟨buffer, 3, 68⟩ : Table).EndsAt #[7] 0 :=
    ⟨by decide, fun h hh => by rw [hfirst] at hh; cases hh; rfl, nofun⟩
  refine ⟨_, ht, hfirst, hsecond, hthird, ((hends 0 hat).2 _ hfirst).2, hhidden 1 (by decide) ?_ ?_⟩
  · intro h hh
    rw [hsecond] at hh
    cases hh
  · intro j hj h hh
    obtain rfl : j = 0 := by omega
    rw [hfirst] at hh
    cases hh
    decide

end PacketHost.Flat
