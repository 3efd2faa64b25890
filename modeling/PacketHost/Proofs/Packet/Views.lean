import PacketHost.Proofs.Association
import PacketHost.Proofs.Flat.Scan
import PacketHost.Proofs.Packet.Confinement

/-!
# Views of the headers of a packet

An engine is steady if what it answers depends on nothing but what it is asked, though each answer may change its state
(`Engine.Steady`). A read through a steady engine ends in one way, whatever state it finds the engine in
(`Reading.Ends`). So the listings of a packet are views of one list of headers, and the first header that cannot be read
ends them all. Of the values of a key the last one stands in the map and the first one is found by a search.
-/

namespace PacketHost

variable {σ α β : Type}

/-! ## Steady engines -/

/-- A question has this answer, whatever state it finds the engine in. -/
def Engine.Answers (question : StateM σ α) (a : α) : Prop := ∀ s, (question s).1 = a

/-- The count and the headers that an engine reports depend on nothing but what it is asked. -/
structure Engine.Steady (engine : Engine (StateM σ)) : Prop where
  count (view : View) : ∃ a, Answers (engine.count view) a
  header (view : View) (index : Nat) : ∃ a, Answers (engine.header view index) a

theorem Engine.Answers.bind {question : StateM σ α} {next : α → StateM σ β} {a : α} {b : β}
    (h : Answers question a) (hnext : Answers (next a) b) : Answers (question >>= next) b := by
  intro s
  change (next (question s).1 (question s).2).1 = b
  rw [h s]
  exact hnext _

theorem Engine.Answers.pure (a : α) : Answers (Pure.pure a : StateM σ α) a := fun _ => rfl

theorem Flat.steady_engine : (Flat.engine (m := StateM σ)).Steady :=
  ⟨fun _ => ⟨_, .pure _⟩, fun _ _ => ⟨_, .pure _⟩⟩

namespace Reading

/-! ## How reads end -/

/-- A read ends so, whatever state it finds the engine in. -/
def Ends (x : Read (StateM σ) α) (result : Except (Halt HostError) α) : Prop := ∀ s, (outcome x s).1 = result

/-- A read ends in one way. -/
def Settled (x : Read (StateM σ) α) : Prop := ∃ result, Ends x result

section

variable {x : Read (StateM σ) α} {f : α → Read (StateM σ) β} {a : α} {b : β} {e : Halt HostError}

theorem Ends.pure (a : α) : Ends (Pure.pure a : Read (StateM σ) α) (.ok a) := fun _ => rfl

theorem Ends.refuse (e : HostError) : Ends (throw (.refused e) : Read (StateM σ) α) (Halt.refuse e) := fun _ => rfl

theorem Ends.result (result : Except (Halt HostError) α) :
    Ends (ExceptT.mk (Pure.pure result) : Read (StateM σ) α) result := fun _ => rfl

theorem Ends.ask {question : StateM σ α} (h : Engine.Answers question a) :
    Ends (liftM question : Read (StateM σ) α) (.ok a) := fun s => congrArg Except.ok (h s)

theorem Ends.bind {result : Except (Halt HostError) β} (hx : Ends x (.ok a)) (hf : Ends (f a) result) :
    Ends (x >>= f) result := by
  intro s
  rw [outcome_bind]
  have h := hx s
  rcases hs : outcome x s with ⟨v, s'⟩
  rw [hs] at h
  obtain rfl : v = .ok a := h
  exact hf s'

theorem Ends.bind_error (hx : Ends x (.error e)) (f : α → Read (StateM σ) β) : Ends (x >>= f) (.error e) := by
  intro s
  rw [outcome_bind]
  have h := hx s
  rcases hs : outcome x s with ⟨v, s'⟩
  rw [hs] at h
  obtain rfl : v = .error e := h
  rfl

namespace Settled

theorem pure (a : α) : Settled (Pure.pure a : Read (StateM σ) α) := ⟨_, .pure a⟩

theorem refuse (e : HostError) : Settled (throw (.refused e) : Read (StateM σ) α) := ⟨_, .refuse e⟩

theorem result (result : Except (Halt HostError) α) :
    Settled (ExceptT.mk (Pure.pure result) : Read (StateM σ) α) := ⟨_, .result result⟩

theorem ask {question : StateM σ α} (h : ∃ a, Engine.Answers question a) :
    Settled (liftM question : Read (StateM σ) α) :=
  let ⟨_, ha⟩ := h
  ⟨_, .ask ha⟩

theorem bind (hx : Settled x) (hf : ∀ a, Settled (f a)) : Settled (x >>= f) := by
  obtain ⟨a | e, hx⟩ := hx
  · exact ⟨_, .bind_error hx f⟩
  · obtain ⟨result, hf⟩ := hf e
    exact ⟨result, .bind hx hf⟩

theorem closed : Closed (Settled (σ := σ)) := ⟨pure, refuse, fun _ => result _, bind⟩

end Settled

theorem Settled.ends {result : Except (Halt HostError) α} {s : σ} (hx : Settled x) (h : (outcome x s).1 = result) :
    Ends x result := by
  obtain ⟨result', hx⟩ := hx
  obtain rfl : result' = result := (hx s).symm.trans h
  exact hx

variable [Nonempty σ]

theorem Ends.unique {r r' : Except (Halt HostError) α} (h : Ends x r) (h' : Ends x r') : r = r' := by
  obtain ⟨s⟩ := ‹Nonempty σ›
  exact (h s).symm.trans (h' s)

section

variable (hx : Settled x) (hf : ∀ a, Settled (f a))

include hx hf

theorem ends_bind_ok_iff : Ends (x >>= f) (.ok b) ↔ ∃ a, Ends x (.ok a) ∧ Ends (f a) (.ok b) := by
  constructor
  · intro h
    obtain ⟨e | a, hx⟩ := hx
    · cases h.unique (hx.bind_error f)
    · obtain ⟨result, hf⟩ := hf a
      cases h.unique (hx.bind hf)
      exact ⟨a, hx, hf⟩
  · rintro ⟨a, hx, hf⟩
    exact hx.bind hf

theorem ends_bind_error_iff :
    Ends (x >>= f) (.error e) ↔ Ends x (.error e) ∨ ∃ a, Ends x (.ok a) ∧ Ends (f a) (.error e) := by
  constructor
  · intro h
    obtain ⟨e' | a, hx⟩ := hx
    · cases h.unique (hx.bind_error f)
      exact .inl hx
    · obtain ⟨result, hf⟩ := hf a
      cases h.unique (hx.bind hf)
      exact .inr ⟨a, hx, hf⟩
  · rintro (hx | ⟨a, hx, hf⟩)
    · exact hx.bind_error f
    · exact hx.bind hf

end

end

/-! ## Listings -/

section

variable {engine : Engine (StateM σ)} (hsteady : engine.Steady) (packet : Packet) (elsewhere : Memory)

include hsteady

theorem settled_count : Settled (unreleased engine packet elsewhere).count :=
  Settled.closed.count packet elsewhere (.ask (hsteady.count _))

theorem settled_header (index : Nat) : Settled ((unreleased engine packet elsewhere).header index) :=
  Settled.closed.header packet elsewhere (.ask (hsteady.count _)) (fun index => .ask (hsteady.header _ index)) index

theorem settled_headersFrom (index remaining : Nat) :
    Settled ((unreleased engine packet elsewhere).headersFrom index remaining) :=
  Settled.closed.headersFrom packet elsewhere (.ask (hsteady.count _)) (fun index => .ask (hsteady.header _ index))
    index remaining

theorem settled_headers : Settled (unreleased engine packet elsewhere).headers :=
  Settled.closed.headers packet elsewhere (.ask (hsteady.count _)) fun index => .ask (hsteady.header _ index)

variable [Nonempty σ]

/-- The headers of a listing are those that are read at its indices. The induction is on the number of headers that are
left. -/
theorem ends_headersFrom_ok_iff {index remaining : Nat} {entries : List Entry} :
    Ends ((unreleased engine packet elsewhere).headersFrom index remaining) (.ok entries) ↔
      entries.length = remaining ∧ ∀ i (h : i < entries.length),
        Ends ((unreleased engine packet elsewhere).header (index + i)) (.ok entries[i]) := by
  have hshift (i : Nat) : index + 1 + i = index + (i + 1) := by omega
  induction remaining generalizing index entries with
  | zero =>
      constructor
      · intro h
        cases h.unique (.pure [])
        exact ⟨rfl, fun i hi => absurd hi (Nat.not_lt_zero i)⟩
      · rintro ⟨hlength, -⟩
        obtain rfl := List.length_eq_zero_iff.mp hlength
        exact .pure []
  | succ remaining ih =>
      have hrest := settled_headersFrom hsteady packet elsewhere (index + 1) remaining
      rw [headersFrom, ends_bind_ok_iff (settled_header hsteady packet elsewhere index)
        fun header => .bind hrest fun headers => .pure _]
      constructor
      · rintro ⟨entry, hentry, h⟩
        obtain ⟨rest, hread, h⟩ := (ends_bind_ok_iff hrest fun headers => .pure _).mp h
        cases h.unique (.pure (entry :: rest))
        obtain ⟨hlength, hall⟩ := (ih fun i => by omega).mp hread
        refine ⟨congrArg (· + 1) hlength, fun i hi => ?_⟩
        cases i with
        | zero => exact hentry
        | succ i =>
            rw [← hshift]
            exact hall i (Nat.lt_of_succ_lt_succ hi)
      · rintro ⟨hlength, hall⟩
        obtain ⟨entry, rest, rfl⟩ := List.exists_cons_of_length_eq_add_one hlength
        refine ⟨entry, hall 0 (Nat.zero_lt_succ _), .bind ((ih fun i => by omega).mpr ⟨?_, fun i hi => ?_⟩) (.pure _)⟩
        · exact Nat.succ.inj hlength
        · rw [hshift]
          exact hall (i + 1) (Nat.succ_lt_succ hi)

/-- The first header that cannot be read ends a listing. -/
theorem ends_headersFrom_error_iff {index remaining : Nat} {e : Halt HostError} :
    Ends ((unreleased engine packet elsewhere).headersFrom index remaining) (.error e) ↔
      ∃ i < remaining, Ends ((unreleased engine packet elsewhere).header (index + i)) (.error e) ∧
        ∀ j < i, ∃ entry, Ends ((unreleased engine packet elsewhere).header (index + j)) (.ok entry) := by
  have hshift (i : Nat) : index + 1 + i = index + (i + 1) := by omega
  induction remaining generalizing index with
  | zero =>
      constructor
      · intro h
        cases h.unique (.pure [])
      · rintro ⟨i, hi, -⟩
        cases hi
  | succ remaining ih =>
      have hrest := settled_headersFrom hsteady packet elsewhere (index + 1) remaining
      rw [headersFrom, ends_bind_error_iff (settled_header hsteady packet elsewhere index)
        fun header => .bind hrest fun headers => .pure _]
      constructor
      · rintro (hfirst | ⟨entry, hentry, h⟩)
        · exact ⟨0, Nat.zero_lt_succ _, hfirst, fun j hj => absurd hj (Nat.not_lt_zero j)⟩
        · rcases (ends_bind_error_iff hrest fun headers => .pure _).mp h with h | ⟨rest, -, h⟩
          · obtain ⟨i, hi, herror, hbefore⟩ := (ih fun i => by omega).mp h
            refine ⟨i + 1, Nat.succ_lt_succ hi, hshift i ▸ herror, fun j hj => ?_⟩
            cases j with
            | zero => exact ⟨entry, hentry⟩
            | succ j => exact hshift j ▸ hbefore j (Nat.lt_of_succ_lt_succ hj)
          · cases h.unique (.pure (entry :: rest))
      · rintro ⟨i, hi, herror, hbefore⟩
        cases i with
        | zero => exact .inl herror
        | succ i =>
            obtain ⟨entry, hentry⟩ := hbefore 0 (Nat.zero_lt_succ _)
            refine .inr ⟨entry, hentry, .bind_error ((ih fun i => by omega).mpr ⟨i, Nat.lt_of_succ_lt_succ hi, ?_⟩) _⟩
            exact ⟨hshift i ▸ herror, fun j hj => hshift j ▸ hbefore (j + 1) (Nat.succ_lt_succ hj)⟩

theorem ends_headers_ok_iff {entries : List Entry} :
    Ends (unreleased engine packet elsewhere).headers (.ok entries) ↔
      ∃ c, Ends (unreleased engine packet elsewhere).count (.ok c) ∧ entries.length = c ∧
        ∀ i (h : i < entries.length), Ends ((unreleased engine packet elsewhere).header i) (.ok entries[i]) := by
  unfold headers
  rw [ends_bind_ok_iff (settled_count hsteady packet elsewhere)
    fun count => settled_headersFrom hsteady packet elsewhere 0 count]
  simp only [ends_headersFrom_ok_iff hsteady, Nat.zero_add]

theorem ends_headers_error_iff {e : Halt HostError} :
    Ends (unreleased engine packet elsewhere).headers (.error e) ↔
      Ends (unreleased engine packet elsewhere).count (.error e) ∨
      ∃ c, Ends (unreleased engine packet elsewhere).count (.ok c) ∧
        ∃ i < c, Ends ((unreleased engine packet elsewhere).header i) (.error e) ∧
          ∀ j < i, ∃ entry, Ends ((unreleased engine packet elsewhere).header j) (.ok entry) := by
  unfold headers
  rw [ends_bind_error_iff (settled_count hsteady packet elsewhere)
    fun count => settled_headersFrom hsteady packet elsewhere 0 count]
  simp only [ends_headersFrom_error_iff hsteady, Nat.zero_add]

theorem headers_ends :
    (∃ entries, Ends (unreleased engine packet elsewhere).headers (.ok entries)) ∨
      ∃ e, Ends (unreleased engine packet elsewhere).headers (Halt.refuse e) := by
  obtain ⟨(e | trap) | entries, h⟩ := settled_headers hsteady packet elsewhere
  · exact .inr ⟨e, h⟩
  · obtain ⟨s⟩ := ‹Nonempty σ›
    exact absurd (h s) (untrapped_headers engine packet elsewhere s trap)
  · exact .inl ⟨entries, h⟩

end

/-! ## First and last values -/

/-- The value of the first header with a key. -/
def firstValue? (entries : List Entry) (key : Bytes) : Option Slice :=
  (entries.find? fun h => h.key.bytes == key).map Entry.val

/-- The value of the last header with a key. -/
def lastValue? (entries : List Entry) (key : Bytes) : Option Slice := firstValue? entries.reverse key

theorem firstValue?_append (entries later : List Entry) (key : Bytes) :
    firstValue? (entries ++ later) key = (firstValue? entries key).or (firstValue? later key) := by
  unfold firstValue?
  rw [List.find?_append, Option.map_or]

theorem firstValue?_isSome_iff {entries : List Entry} {key : Bytes} :
    (firstValue? entries key).isSome = true ↔ ∃ h ∈ entries, h.key.bytes = key := by
  unfold firstValue?
  rw [Option.isSome_map, List.find?_isSome]
  simp only [beq_iff_eq]

theorem lastValue?_isSome_iff {entries : List Entry} {key : Bytes} :
    (lastValue? entries key).isSome = true ↔ ∃ h ∈ entries, h.key.bytes = key := by
  unfold lastValue?
  rw [firstValue?_isSome_iff]
  simp only [List.mem_reverse]

theorem lookup_put (map : List (Bytes × Slice)) (entry : Entry) (key : Bytes) :
    (put map entry).lookup key = (firstValue? [entry] key).or (map.lookup key) := by
  unfold put
  rw [Association.lookup_set]
  by_cases h : key = entry.key.bytes
  · subst h
    simp [firstValue?]
  · rw [if_neg h]
    simp [firstValue?, Ne.symm h]

theorem lookup_foldl_put (entries : List Entry) (map : List (Bytes × Slice)) (key : Bytes) :
    (entries.foldl put map).lookup key = (lastValue? entries key).or (map.lookup key) := by
  induction entries generalizing map with
  | nil => rfl
  | cons entry entries ih =>
      rw [List.foldl_cons, ih, lookup_put, lastValue?, lastValue?, List.reverse_cons, firstValue?_append,
        Option.or_assoc]

theorem lookup_lastValues (entries : List Entry) (key : Bytes) :
    (entries.foldl put []).lookup key = lastValue? entries key := by
  rw [lookup_foldl_put, List.lookup_nil, Option.or_none]

theorem mem_keys_lastValues_iff {entries : List Entry} {key : Bytes} :
    key ∈ (entries.foldl put []).map Prod.fst ↔ ∃ h ∈ entries, h.key.bytes = key := by
  rw [← Association.lookup_isSome_iff_mem, lookup_lastValues, lastValue?_isSome_iff]

theorem nodup_foldl_put {map : List (Bytes × Slice)} (h : (map.map Prod.fst).Nodup) (entries : List Entry) :
    ((entries.foldl put map).map Prod.fst).Nodup := by
  induction entries generalizing map with
  | nil => exact h
  | cons entry entries ih => exact ih (Association.nodup_set h entry.key.bytes entry.val)

/-! ## What an engine reads at a located span -/

end Reading

theorem Slice.byteAt?_part {s : Slice} {e : Extent} {addr : Nat} {byte : UInt8}
    (h : (s.part e).byteAt? addr = some byte) : s.byteAt? addr = some byte := by
  change (if s.base + e.start ≤ addr then (s.bytes.extract e.start e.stop)[addr - (s.base + e.start)]? else none) =
    some byte at h
  by_cases hbase : s.base + e.start ≤ addr
  · have hplace : e.start + (addr - (s.base + e.start)) = addr - s.base := by omega
    rw [if_pos hbase, Array.getElem?_extract, hplace] at h
    unfold byteAt?
    rw [if_pos (Nat.le_of_add_right_le hbase)]
    split at h
    · exact h
    · cases h
  · rw [if_neg hbase] at h
    cases h

/-- What an engine is given of a packet lies in memory as it does in the buffer. -/
theorem Reading.memory_viewOf (packet : Packet) (elsewhere : Memory) :
    (viewOf packet elsewhere).memory = packet.buffer.memory elsewhere := by
  funext addr
  rw [Flat.memory_of_slice rfl, packet.packed_eq]
  change ((packet.buffer.part packet.extent).byteAt? addr).getD (packet.buffer.memory elsewhere addr) = _
  cases h : (packet.buffer.part packet.extent).byteAt? addr with
  | none => rfl
  | some byte =>
      change byte = (packet.buffer.byteAt? addr).getD (elsewhere addr)
      rw [Slice.byteAt?_part h]
      rfl

/-- Where a span is located, the memory holds what is shown. -/
theorem Slice.read_of_locate {buffer : Slice} {span : Span} {what : String} {part : Slice}
    (h : buffer.locate span what = .ok part) (elsewhere : Memory) :
    span.read (buffer.memory elsewhere) = part.bytes := by
  have hown : ¬span.Foreign buffer := by
    intro hforeign
    rw [locate_of_foreign hforeign] at h
    cases h
  obtain ⟨shown, hlocate, hshown⟩ := locate_of_not_foreign hown what
  cases h.symm.trans hlocate
  by_cases hlen : span.len = 0
  · have hempty : part.bytes = #[] := by
      rcases hshown with ⟨-, hbytes⟩ | ⟨-, -, -, -, hbytes⟩
      · exact hbytes
      · rw [hbytes, hlen]
        exact Array.extract_eq_empty_of_le (by omega)
    rw [hempty]
    apply Array.eq_empty_of_size_eq_zero
    rw [Span.size_read, Span.readable, hlen, ite_self]
  · obtain ⟨hlen', -⟩ | ⟨hbase, hstop, -, -, hbytes⟩ := hshown
    · exact absurd hlen' hlen
    · have haddr : span.addr ≠ 0 := fun h => hown ⟨Nat.pos_of_ne_zero hlen, .inl h⟩
      have hreadable : span.readable = span.len := by simp [Span.readable, Span.isNull, haddr]
      unfold stop length at hstop
      rw [hbytes]
      apply Array.ext
      · rw [Span.size_read, hreadable, Array.size_extract]
        omega
      · intro i hi _
        rw [Span.size_read, hreadable] at hi
        have hplace : span.addr + i = buffer.base + (span.addr - buffer.base + i) := by omega
        simp only [Span.read, Array.getElem_ofFn, Array.getElem_extract]
        rw [hplace, Flat.memory_apply (by omega)]

namespace Reading

theorem locateEntry_eq_ok_iff {buffer : Slice} {spans : HeaderSpan} {entry : Entry} :
    locateEntry buffer spans = .ok entry ↔ buffer.locate spans.key "header key" = .ok entry.key ∧
      buffer.locate spans.val "header value" = .ok entry.val := by
  unfold locateEntry
  cases buffer.locate spans.key "header key" with
  | error e => exact ⟨nofun, nofun⟩
  | ok key =>
      rw [ok_bind]
      cases buffer.locate spans.val "header value" with
      | error e => exact ⟨nofun, nofun⟩
      | ok val =>
          obtain ⟨key', val'⟩ := entry
          simp

/-! ## Searches -/

section

variable {engine : Engine (StateM σ)} {packet : Packet} {elsewhere : Memory} {entries : List Entry} {index : Nat}

/-- The engine reports an entry at an index, and it is located in the buffer. -/
def Reports (engine : Engine (StateM σ)) (packet : Packet) (elsewhere : Memory) (index : Nat) (entry : Entry) : Prop :=
  ∃ a, Engine.Answers (engine.header (viewOf packet elsewhere) index) a ∧ a.status = Status.okCode ∧
    locateEntry packet.buffer (a.written.getD {}) = .ok entry

/-- What a search answers that is to find this value, or nothing. -/
def Finds (packet : Packet) (a : Answer Span) : Option Slice → Prop
  | none => a.status = Status.notFound.code
  | some val => a.status = Status.okCode ∧ packet.buffer.locate (a.written.getD Span.null) "header value" = .ok val

theorem reports_of_ends [Nonempty σ] (hsteady : engine.Steady) {entry : Entry}
    (h : Ends ((unreleased engine packet elsewhere).header index) (.ok entry)) :
    Reports engine packet elsewhere index entry := by
  obtain ⟨s⟩ := ‹Nonempty σ›
  obtain ⟨a, ha⟩ := hsteady.header (viewOf packet elsewhere) index
  have hread : outcome ((unreleased engine packet elsewhere).header index) s = (.ok entry, _) := Prod.ext (h s) rfl
  obtain ⟨c, s₁, a', hcount, hcounted, hindex, hreport, hok, -⟩ := header_shown hread
  obtain rfl : a' = a := by rw [← ha s₁, hreport]
  rw [outcome_header_located hcount hcounted hindex hreport hok] at hread
  exact ⟨a', ha, hok, congrArg Prod.fst hread⟩

/-- The engine that compares a located key with another compares their bytes. -/
theorem scans_key_iff {span : Span} {what : String} {part : Slice} (h : packet.buffer.locate span what = .ok part)
    (elsewhere : Memory) (key : Bytes) : (span.readable = (Source.ofBytes key).readable ∧
      span.read (viewOf packet elsewhere).memory = (Source.ofBytes key).bytes) ↔ part.bytes = key := by
  have hread := Slice.read_of_locate h elsewhere
  have hreadable : span.readable = part.bytes.size := by rw [← hread, Span.size_read]
  rw [memory_viewOf, hread, hreadable, Source.readable_ofBytes, Source.bytes_ofBytes]
  exact ⟨fun h => h.2, fun h => ⟨congrArg Array.size h, h⟩⟩

/-- The scan goes through the entries that are listed. The induction is on these. -/
theorem answers_scanFrom (key : Bytes)
    (h : ∀ i (hi : i < entries.length), Reports engine packet elsewhere (index + i) entries[i]) :
    ∃ a, Engine.Answers (Engine.scanFrom engine.header (viewOf packet elsewhere) (Source.ofBytes key) index
      entries.length) a ∧ Finds packet a (firstValue? entries key) := by
  induction entries generalizing index with
  | nil => exact ⟨_, .pure _, rfl⟩
  | cons entry entries ih =>
      have hhead : Reports engine packet elsewhere index entry := h 0 (Nat.zero_lt_succ _)
      have htail : ∀ i (hi : i < entries.length), Reports engine packet elsewhere (index + 1 + i) entries[i] := by
        intro i hi
        rw [Nat.add_assoc, Nat.add_comm 1 i]
        exact h (i + 1) (Nat.succ_lt_succ hi)
      obtain ⟨a, ha, hok, hlocate⟩ := hhead
      obtain ⟨hkey, hval⟩ := locateEntry_eq_ok_iff.mp hlocate
      have hiff := scans_key_iff hkey elsewhere key
      rw [List.length_cons, Engine.scanFrom]
      by_cases hentry : entry.key.bytes = key
      · have hfirst : firstValue? (entry :: entries) key = some entry.val := by simp [firstValue?, hentry]
        refine ⟨⟨Status.okCode, some (a.written.getD {}).val⟩, .bind ha ?_, ?_⟩
        · rw [if_pos hok, if_pos (hiff.mpr hentry)]
          exact .pure _
        · rw [hfirst]
          exact ⟨rfl, hval⟩
      · have hskip : firstValue? (entry :: entries) key = firstValue? entries key := by simp [firstValue?, hentry]
        obtain ⟨b, hb, hfinds⟩ := ih htail
        refine ⟨b, .bind ha ?_, hskip ▸ hfinds⟩
        rw [if_pos hok, if_neg (mt hiff.mp hentry)]
        exact hb

theorem answers_count [Nonempty σ] (hsteady : engine.Steady) {c : Nat}
    (h : Ends (unreleased engine packet elsewhere).count (.ok c)) :
    ∃ a, Engine.Answers (engine.count (viewOf packet elsewhere)) a ∧ a.status = Status.okCode ∧
      a.written.getD 0 = c := by
  obtain ⟨s⟩ := ‹Nonempty σ›
  obtain ⟨a, ha⟩ := hsteady.count (viewOf packet elsewhere)
  have hcount : engine.count (viewOf packet elsewhere) s = (a, _) := Prod.ext (ha s) rfl
  have hend := h s
  by_cases hok : a.status = Status.okCode
  · rw [outcome_count_ok hcount hok] at hend
    exact ⟨a, ha, hok, Except.ok.inj hend⟩
  · obtain ⟨e, -, herror⟩ := outcome_count_error hcount hok
    rw [herror] at hend
    cases hend

theorem answers_scan [Nonempty σ] (hsteady : engine.Steady)
    (h : Ends (unreleased engine packet elsewhere).headers (.ok entries)) (key : Bytes) :
    ∃ a, Engine.Answers (Engine.scan engine.count engine.header (viewOf packet elsewhere) (Source.ofBytes key)) a ∧
      Finds packet a (firstValue? entries key) := by
  obtain ⟨c, hcount, rfl, hall⟩ := (ends_headers_ok_iff hsteady packet elsewhere).mp h
  obtain ⟨counted, hcounted, hok, hwritten⟩ := answers_count hsteady hcount
  have hreports : ∀ i (hi : i < entries.length), Reports engine packet elsewhere (0 + i) entries[i] := fun i hi => by
    rw [Nat.zero_add]
    exact reports_of_ends hsteady (hall i hi)
  obtain ⟨a, ha, hfinds⟩ := answers_scanFrom key hreports
  refine ⟨a, .bind hcounted ?_, hfinds⟩
  rw [if_pos hok, hwritten]
  exact ha

theorem ends_find {key : Bytes} {a : Answer Span} {answer : Option Slice}
    (ha : Engine.Answers (engine.find (viewOf packet elsewhere) (Source.ofBytes key)) a)
    (hfinds : Finds packet a answer) : Ends ((unreleased engine packet elsewhere).find key) (.ok answer) := by
  intro s
  have hfind : engine.find (viewOf packet elsewhere) (Source.ofBytes key) s = (a, _) := Prod.ext (ha s) rfl
  cases answer with
  | none => rw [outcome_find_none hfind hfinds]
  | some val =>
      obtain ⟨hok, hlocate⟩ := hfinds
      have hother : Status.ofCode? a.status ≠ some .notFound := by
        rw [hok]
        decide
      rw [outcome_find_asked hfind, if_neg hother, outcome_check_ok hok, hlocate]
      rfl

theorem ends_find_first [Nonempty σ] (hsteady : engine.Steady)
    (hfind : engine = Flat.engine ∨ engine.find = Engine.scan engine.count engine.header)
    (h : Ends (unreleased engine packet elsewhere).headers (.ok entries)) (key : Bytes) :
    Ends ((unreleased engine packet elsewhere).find key) (.ok (firstValue? entries key)) := by
  obtain ⟨a, ha, hfinds⟩ := answers_scan hsteady h key
  refine ends_find ?_ hfinds
  rcases hfind with rfl | hscan
  · rwa [← Flat.scan_of_isValid _ (Source.isValid_ofBytes key)]
  · rwa [hscan]

end

/-- The listings, the map and the searches of an unreleased handle of a steady engine have one list of headers to go by.
-/
theorem views_agree [Nonempty σ] {engine : Engine (StateM σ)} (hsteady : engine.Steady) (packet : Packet)
    (elsewhere : Memory) :
    let r := unreleased engine packet elsewhere
    ((∃ entries, Ends r.headers (.ok entries)) ∨ ∃ e, Ends r.headers (Halt.refuse e)) ∧
    (∀ entries, Ends r.headers (.ok entries) ↔ ∃ c, Ends r.count (.ok c) ∧ entries.length = c ∧
      ∀ i (h : i < entries.length), Ends (r.header i) (.ok entries[i])) ∧
    (∀ e, Ends r.headers (.error e) ↔ Ends r.count (.error e) ∨ ∃ c, Ends r.count (.ok c) ∧
      ∃ i < c, Ends (r.header i) (.error e) ∧ ∀ j < i, ∃ entry, Ends (r.header j) (.ok entry)) ∧
    (∀ e, Ends r.headers (.error e) →
      Ends r.lastValues (.error e) ∧ Ends r.dependencies (.error e) ∧ Ends r.copies (.error e)) ∧
    ∀ entries, Ends r.headers (.ok entries) →
      Ends r.dependencies (.ok ((entries.filter fun h => h.key.bytes == Header.depKey).map Entry.val)) ∧
      Ends r.copies (.ok (entries.map Entry.toHeader)) ∧
      ∃ map, Ends r.lastValues (.ok map) ∧ (map.map Prod.fst).Nodup ∧
        (∀ key, key ∈ map.map Prod.fst ↔ ∃ h ∈ entries, h.key.bytes = key) ∧
        (∀ key, map.lookup key = lastValue? entries key) ∧
        ((engine = Flat.engine ∨ engine.find = Engine.scan engine.count engine.header) → ∀ key,
          Ends (r.find key) (.ok (firstValue? entries key)) ∧
          (Ends (r.find key) (.ok none) ↔ key ∉ map.map Prod.fst) ∧
          ∀ found kept, Ends (r.find key) (.ok (some found)) → map.lookup key = some kept →
            (found.bytes = kept.bytes ↔
              (firstValue? entries key).map Slice.bytes = (lastValue? entries key).map Slice.bytes)) := by
  intro r
  refine ⟨headers_ends hsteady packet elsewhere, fun entries => ends_headers_ok_iff hsteady packet elsewhere,
    fun e => ends_headers_error_iff hsteady packet elsewhere,
    fun e h => ⟨h.bind_error _, h.bind_error _, h.bind_error _⟩,
    fun entries h => ⟨h.bind (.pure _), h.bind (.pure _), entries.foldl put [], h.bind (.pure _), ?_,
      fun key => mem_keys_lastValues_iff, lookup_lastValues entries, fun hfind key => ?_⟩⟩
  · have hempty : (([] : List (Bytes × Slice)).map Prod.fst).Nodup := List.nodup_nil
    exact nodup_foldl_put hempty entries
  · have hfirst : Ends (r.find key) (.ok (firstValue? entries key)) := ends_find_first hsteady hfind h key
    refine ⟨hfirst, ?_, fun found kept hfound hkept => ?_⟩
    · rw [mem_keys_lastValues_iff, ← firstValue?_isSome_iff, Option.not_isSome_iff_eq_none]
      constructor
      · intro hnone
        exact Except.ok.inj (hfirst.unique hnone)
      · intro hnone
        rwa [hnone] at hfirst
    · have hvalue : firstValue? entries key = some found := Except.ok.inj (hfirst.unique hfound)
      rw [lookup_lastValues] at hkept
      rw [hvalue, hkept, Option.map_some, Option.map_some, Option.some_inj]

/-- The reads of the flat engine, counted, and with no lookup of their own. -/
def tallying : Engine (StateM Nat) where
  abiVersion := Abi.version
  build _ _ := pure (.panic "not used")
  count view := fun asked => (Flat.count view true, asked + 1)
  header view index := fun asked => (Flat.header view index true, asked + 1)
  payload view := fun asked => (Flat.payload view true, asked + 1)
  find := Engine.scan (fun view asked => (Flat.count view true, asked + 1))
    fun view index asked => (Flat.header view index true, asked + 1)

/-- A packet with a key that is repeated around an empty one. -/
theorem views_agree_repeated_key :
    let buffer : Slice := ⟨64, Flat.encode [⟨#[7], #[1]⟩, ⟨#[], #[5]⟩, ⟨#[7], #[2]⟩] #[9]⟩
    let r := unreleased tallying { buffer, extent := ⟨0, buffer.length⟩ } fun _ => 0
    let entries : List Entry := [⟨⟨128, #[7]⟩, ⟨129, #[1]⟩⟩, ⟨⟨0, #[]⟩, ⟨130, #[5]⟩⟩, ⟨⟨131, #[7]⟩, ⟨132, #[2]⟩⟩]
    tallying.Steady ∧ Ends r.headers (.ok entries) ∧ Ends (r.find #[7]) (.ok (some ⟨129, #[1]⟩)) ∧
      ∃ map, Ends r.lastValues (.ok map) ∧ map.lookup #[7] = some ⟨132, #[2]⟩ := by
  intro buffer r entries
  have hsteady : tallying.Steady := ⟨fun _ => ⟨_, fun _ => rfl⟩, fun _ _ => ⟨_, fun _ => rfl⟩⟩
  have hread : (outcome r.headers 0).1 = .ok entries := by decide
  have hheaders : Ends r.headers (.ok entries) := (settled_headers hsteady _ _).ends hread
  obtain ⟨-, -, -, -, hlisted⟩ := views_agree hsteady { buffer, extent := ⟨0, buffer.length⟩ } fun _ => 0
  obtain ⟨-, -, map, hmap, -, -, hlast, hfirst⟩ := hlisted entries hheaders
  exact ⟨hsteady, hheaders, (hfirst (.inr rfl) #[7]).1, map, hmap, hlast #[7]⟩

end Reading

end PacketHost
