import PacketHost.Packet.Reading
import PacketHost.Proofs.Packet.AnyEngine
import PacketHost.Proofs.Packet.Location

/-!
# Reading through an engine that may say anything

An engine answers each question as it likes, and differently when it is asked again: its answers are computed from a
state that each of them may change. Reading through it ends all the same with a value or an error, and nothing is shown
but bytes of the buffer of the handle, at the address and of the length that the engine reported (`Reading.Confined`).
A listing reads one header after the other, and its end is that of the first header that cannot be read, if there is one
(`Reading.Listing`).
-/

namespace PacketHost

variable {σ α β : Type}

/-- What an engine reports of the headers from an index on, when it is asked for the count and for a header in turn:
each time with success, and with a count above the index. -/
inductive Engine.Reports (engine : Engine (StateM σ)) (view : View) : Nat → σ → List HeaderSpan → σ → Prop
  | done {index : Nat} {s : σ} : Reports engine view index s [] s
  | next {index : Nat} {s s₁ s₂ s₃ : σ} {c : Answer Nat} {a : Answer HeaderSpan} {rest : List HeaderSpan}
      (count : engine.count view s = (c, s₁)) (counted : c.status = Status.okCode) (below : index < c.written.getD 0)
      (header : engine.header view index s₁ = (a, s₂)) (shown : a.status = Status.okCode)
      (later : Reports engine view (index + 1) s₂ rest s₃) :
      Reports engine view index s (a.written.getD {} :: rest) s₃

namespace Reading

/-- How a read ends that finds the engine in a state, and the state in which it leaves the engine. -/
def outcome (x : Read (StateM σ) α) (s : σ) : Except (Halt HostError) α × σ := x.run s

/-- A read that never traps, whatever state it finds the engine in. -/
def Untrapped (x : Read (StateM σ) α) : Prop := ∀ s trap, (outcome x s).1 ≠ .error (.trapped trap)

/-- A property of the steps that reads are made of, questions apart, and that a sequence of reads has from its parts. -/
structure Closed (P : {α : Type} → Read (StateM σ) α → Prop) : Prop where
  pure {α : Type} (a : α) : P (Pure.pure a)
  refuse {α : Type} (e : HostError) : P (throw (.refused e) : Read (StateM σ) α)
  result {α : Type} {result : Except (Halt HostError) α} (h : ∀ trap, result ≠ .error (.trapped trap)) :
    P (ExceptT.mk (Pure.pure result))
  bind {α β : Type} {x : Read (StateM σ) α} {f : α → Read (StateM σ) β} (hx : P x) (hf : ∀ a, P (f a)) : P (x >>= f)

/-! ## Steps of a read -/

section

variable {x : Read (StateM σ) α} {f : α → Read (StateM σ) β} {c : StateM σ α} {s s' : σ} {a : α} {status : Int}

theorem outcome_bind (x : Read (StateM σ) α) (f : α → Read (StateM σ) β) (s : σ) :
    outcome (x >>= f) s = match outcome x s with
      | (.ok a, s) => outcome (f a) s
      | (.error e, s) => (.error e, s) := by
  change StateT.run (ExceptT.run (x >>= f)) s = _
  rw [ExceptT.run_bind, StateT.run_bind]
  change _ = match StateT.run (ExceptT.run x) s with
    | (.ok a, s) => outcome (f a) s
    | (.error e, s) => (.error e, s)
  obtain ⟨e | a, s⟩ := StateT.run (ExceptT.run x) s
  · rfl
  · rfl

theorem outcome_ask (h : c s = (a, s')) (f : α → Read (StateM σ) β) : outcome (liftM c >>= f) s = outcome (f a) s' := by
  have hc : outcome (liftM c) s = (.ok (c s).1, (c s).2) := rfl
  rw [outcome_bind, hc, h]

theorem outcome_result (result : Except (Halt HostError) α) (s : σ) :
    outcome (ExceptT.mk (pure result)) s = (result, s) := rfl

theorem outcome_check_ok (h : status = Status.okCode) (y : Read (StateM σ) β) :
    outcome (do lift (expectOk status); y) s = outcome y s := by
  subst h
  rfl

theorem outcome_check_error {e : HostError} (h : expectOk status = .error e) (y : Read (StateM σ) β) :
    outcome (do lift (expectOk status); y) s = (Halt.refuse e, s) := by
  rw [h]
  rfl

namespace Untrapped

theorem pure (a : α) : Untrapped (Pure.pure a : Read (StateM σ) α) := nofun

theorem refuse (e : HostError) : Untrapped (throw (.refused e) : Read (StateM σ) α) := nofun

theorem result {result : Except (Halt HostError) α} (h : ∀ trap, result ≠ .error (.trapped trap)) :
    Untrapped (ExceptT.mk (Pure.pure result) : Read (StateM σ) α) := fun _ trap => h trap

theorem ask (c : StateM σ α) : Untrapped (liftM c : Read (StateM σ) α) := nofun

theorem bind (hx : Untrapped x) (hf : ∀ a, Untrapped (f a)) : Untrapped (x >>= f) := by
  intro s trap
  rw [outcome_bind]
  have h := hx s trap
  rcases hs : outcome x s with ⟨e | a, s'⟩
  · rw [hs] at h
    simpa using h
  · exact hf a s' trap

theorem closed : Closed (Untrapped (σ := σ)) := ⟨pure, refuse, result, bind⟩

end Untrapped

theorem Closed.lift {P : {α : Type} → Read (StateM σ) α → Prop} (hP : Closed P) (result : Except HostError α) :
    P (Reading.lift result) := by
  cases result with
  | ok a => exact hP.pure a
  | error e => exact hP.refuse e

end

end Reading

/-! ## What is shown of a buffer -/

/-- An entry is what an engine reports of a header. -/
def Slice.ShowsEntry (buffer : Slice) (spans : HeaderSpan) (entry : Entry) : Prop :=
  buffer.Shows spans.key entry.key ∧ buffer.Shows spans.val entry.val

/-- How a read ends once the engine has answered where something lies. -/
inductive Slice.Answered (buffer : Slice) (answer : Answer Span) (what : String) :
    Except (Halt HostError) Slice → Prop
  | failed {e : HostError} (failed : expectOk answer.status = .error e) : Answered buffer answer what (Halt.refuse e)
  | foreign (ok : answer.status = Status.okCode) (foreign : (answer.written.getD Span.null).Foreign buffer) :
      Answered buffer answer what
        (Halt.refuse (.engineContract (foreignText (answer.written.getD Span.null) what)))
  | own (ok : answer.status = Status.okCode) (own : ¬(answer.written.getD Span.null).Foreign buffer) {part : Slice}
      (shown : buffer.Shows (answer.written.getD Span.null) part) : Answered buffer answer what (.ok part)

/-- How the read of a header ends once the engine has answered where it lies: the key is looked at before the value. -/
inductive Slice.AnsweredEntry (buffer : Slice) (index count : Nat) (answer : Answer HeaderSpan) :
    Except (Halt HostError) Entry → Prop
  | outOfRange (beyond : answer.status = Status.outOfRange.code) :
      AnsweredEntry buffer index count answer (Halt.refuse (.indexOutOfRange index count))
  | failed {e : HostError} (failed : expectOk answer.status = .error e)
      (other : answer.status ≠ Status.outOfRange.code) : AnsweredEntry buffer index count answer (Halt.refuse e)
  | foreignKey (ok : answer.status = Status.okCode) (foreign : (answer.written.getD {}).key.Foreign buffer) :
      AnsweredEntry buffer index count answer
        (Halt.refuse (.engineContract (foreignText (answer.written.getD {}).key "header key")))
  | foreignVal (ok : answer.status = Status.okCode) (own : ¬(answer.written.getD {}).key.Foreign buffer)
      (foreign : (answer.written.getD {}).val.Foreign buffer) :
      AnsweredEntry buffer index count answer
        (Halt.refuse (.engineContract (foreignText (answer.written.getD {}).val "header value")))
  | own (ok : answer.status = Status.okCode) (key : ¬(answer.written.getD {}).key.Foreign buffer)
      (val : ¬(answer.written.getD {}).val.Foreign buffer) {entry : Entry}
      (shown : buffer.ShowsEntry (answer.written.getD {}) entry) :
      AnsweredEntry buffer index count answer (.ok entry)

namespace Slice

variable {buffer : Slice}

theorem locate_not_trapped (buffer : Slice) (span : Span) (what : String) (trap : Trap) :
    buffer.locate span what ≠ .error (.trapped trap) := by
  by_cases h : span.Foreign buffer
  · rw [locate_of_foreign h]
    exact nofun
  · obtain ⟨part, hpart, -⟩ := locate_of_not_foreign h what
    rw [hpart]
    exact nofun

theorem locateEntry_not_trapped (buffer : Slice) (spans : HeaderSpan) (trap : Trap) :
    Reading.locateEntry buffer spans ≠ .error (.trapped trap) := by
  unfold Reading.locateEntry
  intro h
  cases hkey : buffer.locate spans.key "header key" with
  | error e =>
      rw [hkey] at h
      cases h
      exact locate_not_trapped _ _ _ trap hkey
  | ok key =>
      rw [hkey, ok_bind] at h
      cases hval : buffer.locate spans.val "header value" with
      | error e =>
          rw [hval] at h
          cases h
          exact locate_not_trapped _ _ _ trap hval
      | ok val =>
          rw [hval] at h
          cases h

theorem answered_locate {answer : Answer Span} (ok : answer.status = Status.okCode) (what : String) :
    buffer.Answered answer what (buffer.locate (answer.written.getD Span.null) what) := by
  by_cases h : (answer.written.getD Span.null).Foreign buffer
  · rw [locate_of_foreign h]
    exact .foreign ok h
  · obtain ⟨part, hpart, hshown⟩ := locate_of_not_foreign h what
    rw [hpart]
    exact .own ok h hshown

theorem answered_locateEntry {answer : Answer HeaderSpan} (ok : answer.status = Status.okCode) (index count : Nat) :
    buffer.AnsweredEntry index count answer (Reading.locateEntry buffer (answer.written.getD {})) := by
  unfold Reading.locateEntry
  by_cases hkey : (answer.written.getD {}).key.Foreign buffer
  · rw [locate_of_foreign hkey, Halt.refuse_bind]
    exact .foreignKey ok hkey
  · obtain ⟨key, hlocatedKey, hshownKey⟩ := locate_of_not_foreign hkey "header key"
    rw [hlocatedKey, ok_bind]
    by_cases hval : (answer.written.getD {}).val.Foreign buffer
    · rw [locate_of_foreign hval, Halt.refuse_bind]
      exact .foreignVal ok hkey hval
    · obtain ⟨val, hlocatedVal, hshownVal⟩ := locate_of_not_foreign hval "header value"
      rw [hlocatedVal, ok_bind]
      exact .own ok hkey hval ⟨hshownKey, hshownVal⟩

end Slice

namespace Reading

/-- A read that has its answer ends as the status and the place say, and goes on only with a part of the buffer. -/
theorem outcome_located (buffer : Slice) (answer : Answer Span) (what : String) (f : Slice → Read (StateM σ) α)
    (s : σ) : ∃ result, buffer.Answered answer what result ∧
      outcome (do
        lift (expectOk answer.status)
        let part ← ExceptT.mk (pure (buffer.locate (answer.written.getD Span.null) what))
        f part) s = match result with
      | .ok part => outcome (f part) s
      | .error e => (.error e, s) := by
  by_cases hstatus : answer.status = Status.okCode
  · refine ⟨_, Slice.answered_locate hstatus what, ?_⟩
    rw [outcome_check_ok hstatus, outcome_bind, outcome_result]
    cases buffer.locate (answer.written.getD Span.null) what <;> rfl
  · obtain ⟨e, he, -⟩ := expectOk_of_ne hstatus
    exact ⟨_, .failed he, outcome_check_error he _⟩

/-! ## Reads of a handle -/

/-- A handle of any engine that was not released. -/
def unreleased {m : Type → Type} (engine : Engine m) (packet : Packet) (elsewhere : Memory) : Reading m :=
  ⟨⟨engine, .valid packet⟩, elsewhere⟩

/-- What an engine is given of a packet. -/
def viewOf (packet : Packet) (elsewhere : Memory) : View := ⟨some packet.packed, packet.buffer.memory elsewhere⟩

@[simp] theorem engine_unreleased {m : Type → Type} (engine : Engine m) (packet : Packet) (elsewhere : Memory) :
    (unreleased engine packet elsewhere).handle.engine = engine := rfl

theorem live_unreleased {m : Type → Type} [Monad m] [LawfulMonad m] (engine : Engine m) (packet : Packet)
    (elsewhere : Memory) :
    (unreleased engine packet elsewhere).live = pure (packet.buffer, viewOf packet elsewhere) := by
  have hlive : lift (m := m) (unreleased engine packet elsewhere).handle.live = pure packet := rfl
  unfold live
  rw [hlive, pure_bind]
  rfl

/-- The entries are as many as the engine counts, and what it reports when it is then asked for each of them. -/
def Listed (engine : Engine (StateM σ)) (packet : Packet) (elsewhere : Memory) (s : σ) (entries : List Entry)
    (s' : σ) : Prop :=
  ∃ c s₁ spans, engine.count (viewOf packet elsewhere) s = (c, s₁) ∧ c.status = Status.okCode ∧
    spans.length = c.written.getD 0 ∧ engine.Reports (viewOf packet elsewhere) 0 s₁ spans s' ∧
    List.Forall₂ packet.buffer.ShowsEntry spans entries

/-- How a listing of the headers ends, and the state in which it leaves the engine. -/
inductive Listing (engine : Engine (StateM σ)) (packet : Packet) (elsewhere : Memory) (s : σ) :
    Except (Halt HostError) (List Entry) → σ → Prop
  | uncounted {c : Answer Nat} {s₁ : σ} {e : HostError} (count : engine.count (viewOf packet elsewhere) s = (c, s₁))
      (failed : expectOk c.status = .error e) : Listing engine packet elsewhere s (Halt.refuse e) s₁
  /-- Some headers are shown, and the one after them ends the listing. -/
  | failed {c : Answer Nat} {s₁ s₂ s₃ : σ} {spans : List HeaderSpan} {entries : List Entry} {halt : Halt HostError}
      (count : engine.count (viewOf packet elsewhere) s = (c, s₁)) (counted : c.status = Status.okCode)
      (below : spans.length < c.written.getD 0) (reports : engine.Reports (viewOf packet elsewhere) 0 s₁ spans s₂)
      (shown : List.Forall₂ packet.buffer.ShowsEntry spans entries)
      (header : outcome ((unreleased engine packet elsewhere).header spans.length) s₂ = (.error halt, s₃)) :
      Listing engine packet elsewhere s (.error halt) s₃
  | all {entries : List Entry} {s' : σ} (listed : Listed engine packet elsewhere s entries s') :
      Listing engine packet elsewhere s (.ok entries) s'

/-! ### What reads are made of -/

namespace Closed

variable {P : {α : Type} → Read (StateM σ) α → Prop} (hP : Closed P) {engine : Engine (StateM σ)} (packet : Packet)
  (elsewhere : Memory) (hcount : P (liftM (engine.count (viewOf packet elsewhere))))

include hP hcount

theorem count : P (unreleased engine packet elsewhere).count := by
  unfold Reading.count
  rw [live_unreleased, pure_bind]
  exact hP.bind hcount fun answer => hP.bind (hP.lift _) fun _ => hP.pure _

variable (hheader : ∀ index, P (liftM (engine.header (viewOf packet elsewhere) index)))

include hheader

theorem header (index : Nat) : P ((unreleased engine packet elsewhere).header index) := by
  unfold Reading.header
  refine hP.bind (hP.count packet elsewhere hcount) fun count => ?_
  split
  · exact hP.refuse _
  · rw [live_unreleased, pure_bind]
    refine hP.bind (hheader index) fun answer => ?_
    split
    · exact hP.refuse _
    · exact hP.bind (hP.lift _) fun _ => hP.result (Slice.locateEntry_not_trapped _ _)

theorem headersFrom (index remaining : Nat) : P ((unreleased engine packet elsewhere).headersFrom index remaining) := by
  induction remaining generalizing index with
  | zero => exact hP.pure _
  | succ remaining ih =>
      exact hP.bind (hP.header packet elsewhere hcount hheader index) fun header =>
        hP.bind (ih (index + 1)) fun headers => hP.pure _

theorem headers : P (unreleased engine packet elsewhere).headers :=
  hP.bind (hP.count packet elsewhere hcount) fun count => hP.headersFrom packet elsewhere hcount hheader 0 count

end Closed

section

variable (engine : Engine (StateM σ)) (packet : Packet) (elsewhere : Memory)

/-! ### No read traps -/

theorem untrapped_header (index : Nat) : Untrapped ((unreleased engine packet elsewhere).header index) :=
  Untrapped.closed.header packet elsewhere (.ask _) (fun _ => .ask _) index

theorem untrapped_headers : Untrapped (unreleased engine packet elsewhere).headers :=
  Untrapped.closed.headers packet elsewhere (.ask _) fun _ => .ask _

theorem untrapped_payload : Untrapped (unreleased engine packet elsewhere).payload := by
  unfold payload
  rw [live_unreleased, pure_bind]
  exact .bind (.ask _) fun answer => .bind (Untrapped.closed.lift _) fun _ => .result (Slice.locate_not_trapped _ _ _)

theorem untrapped_find (key : Bytes) : Untrapped ((unreleased engine packet elsewhere).find key) := by
  unfold find
  rw [live_unreleased, pure_bind]
  refine .bind (.ask _) fun answer => ?_
  split
  · exact .pure _
  · exact .bind (Untrapped.closed.lift _) fun _ => .bind (.result (Slice.locate_not_trapped _ _ _)) fun _ => .pure _

end

/-! ### How a read ends -/

section

variable {engine : Engine (StateM σ)} {packet : Packet} {elsewhere : Memory} {s s₁ s₂ s' : σ} {c : Answer Nat}
  {index : Nat} {entries : List Entry}

section

variable (hcount : engine.count (viewOf packet elsewhere) s = (c, s₁))

include hcount

theorem outcome_count_ok (hstatus : c.status = Status.okCode) :
    outcome (unreleased engine packet elsewhere).count s = (.ok (c.written.getD 0), s₁) := by
  unfold count
  rw [live_unreleased, pure_bind]
  exact (outcome_ask hcount _).trans (outcome_check_ok hstatus _)

theorem outcome_count_error (hstatus : c.status ≠ Status.okCode) : ∃ e, expectOk c.status = .error e ∧
    outcome (unreleased engine packet elsewhere).count s = (Halt.refuse e, s₁) := by
  obtain ⟨e, he, -⟩ := expectOk_of_ne hstatus
  refine ⟨e, he, ?_⟩
  unfold count
  rw [live_unreleased, pure_bind]
  exact (outcome_ask hcount _).trans (outcome_check_error he _)

theorem outcome_header_uncounted (index : Nat) (hstatus : c.status ≠ Status.okCode) :
    ∃ e, expectOk c.status = .error e ∧
      outcome ((unreleased engine packet elsewhere).header index) s = (Halt.refuse e, s₁) := by
  obtain ⟨e, he, hend⟩ := outcome_count_error hcount hstatus
  refine ⟨e, he, ?_⟩
  unfold header
  rw [outcome_bind, hend]
  rfl

/-- The engine is left as it is after the count: it is not asked for the header. -/
theorem outcome_header_beyond (hstatus : c.status = Status.okCode) (hindex : c.written.getD 0 ≤ index) :
    outcome ((unreleased engine packet elsewhere).header index) s =
      (Halt.refuse (.indexOutOfRange index (c.written.getD 0)), s₁) := by
  unfold header
  rw [outcome_bind, outcome_count_ok hcount hstatus]
  dsimp only
  rw [if_pos hindex]
  rfl

section

variable (hstatus : c.status = Status.okCode) (hindex : index < c.written.getD 0) {a : Answer HeaderSpan}
  (hheader : engine.header (viewOf packet elsewhere) index s₁ = (a, s₂))

include hstatus hindex hheader

/-- What is left of the read once the engine has answered. -/
theorem outcome_header_asked : outcome ((unreleased engine packet elsewhere).header index) s =
    outcome (if Status.ofCode? a.status = some .outOfRange then
      throw (.refused (.indexOutOfRange index (c.written.getD 0)))
    else do
      lift (expectOk a.status)
      ExceptT.mk (pure (locateEntry packet.buffer (a.written.getD {})))) s₂ := by
  unfold header
  rw [outcome_bind, outcome_count_ok hcount hstatus]
  dsimp only
  rw [if_neg (Nat.not_le.mpr hindex), live_unreleased, pure_bind]
  exact outcome_ask hheader _

theorem outcome_header_located (hok : a.status = Status.okCode) :
    outcome ((unreleased engine packet elsewhere).header index) s =
      (locateEntry packet.buffer (a.written.getD {}), s₂) := by
  have hrange : Status.ofCode? a.status ≠ some .outOfRange := by
    rw [hok]
    decide
  rw [outcome_header_asked hcount hstatus hindex hheader, if_neg hrange, outcome_check_ok hok, outcome_result]

theorem outcome_header : ∃ result, outcome ((unreleased engine packet elsewhere).header index) s = (result, s₂) ∧
    packet.buffer.AnsweredEntry index (c.written.getD 0) a result := by
  by_cases hok : a.status = Status.okCode
  · rw [outcome_header_located hcount hstatus hindex hheader hok]
    exact ⟨_, rfl, Slice.answered_locateEntry hok _ _⟩
  · rw [outcome_header_asked hcount hstatus hindex hheader]
    by_cases hrange : a.status = Status.outOfRange.code
    · rw [if_pos (Status.ofCode?_eq_some_iff.mpr hrange)]
      exact ⟨_, rfl, .outOfRange hrange⟩
    · obtain ⟨e, he, -⟩ := expectOk_of_ne hok
      rw [if_neg fun h => hrange (Status.ofCode?_eq_some_iff.mp h), outcome_check_error he]
      exact ⟨_, rfl, .failed he hrange⟩

end

end

theorem outcome_payload {a : Answer Span} (hpayload : engine.payload (viewOf packet elsewhere) s = (a, s')) :
    ∃ result, outcome (unreleased engine packet elsewhere).payload s = (result, s') ∧
      packet.buffer.Answered a "payload" result := by
  obtain ⟨result, hanswered, hend⟩ :=
    outcome_located packet.buffer a "payload" (pure : Slice → Read (StateM σ) Slice) s'
  rw [bind_pure] at hend
  refine ⟨result, ?_, hanswered⟩
  unfold payload
  rw [live_unreleased, pure_bind]
  refine (outcome_ask hpayload _).trans ?_
  rw [hend]
  cases result <;> rfl

section

variable {key : Bytes} {a : Answer Span}
  (hfind : engine.find (viewOf packet elsewhere) (Source.ofBytes key) s = (a, s'))

include hfind

/-- What is left of the search once the engine has answered. -/
theorem outcome_find_asked : outcome ((unreleased engine packet elsewhere).find key) s =
    outcome (if Status.ofCode? a.status = some .notFound then pure none
    else do
      lift (expectOk a.status)
      let val ← ExceptT.mk (pure (packet.buffer.locate (a.written.getD Span.null) "header value"))
      return some val) s' := by
  unfold find
  rw [live_unreleased, pure_bind]
  exact outcome_ask hfind _

theorem outcome_find_none (hstatus : a.status = Status.notFound.code) :
    outcome ((unreleased engine packet elsewhere).find key) s = (.ok none, s') := by
  rw [outcome_find_asked hfind, if_pos (Status.ofCode?_eq_some_iff.mpr hstatus)]
  rfl

theorem outcome_find (hstatus : a.status ≠ Status.notFound.code) :
    ∃ result, outcome ((unreleased engine packet elsewhere).find key) s = (result.map some, s') ∧
      packet.buffer.Answered a "header value" result := by
  obtain ⟨result, hanswered, hend⟩ := outcome_located packet.buffer a "header value"
    (fun part => (pure (some part) : Read (StateM σ) (Option Slice))) s'
  refine ⟨result, ?_, hanswered⟩
  rw [outcome_find_asked hfind, if_neg fun h => hstatus (Status.ofCode?_eq_some_iff.mp h), hend]
  cases result <;> rfl

end

/-! ### Listings -/

/-- A header is shown only if the engine counts more headers than its index and reports it in the buffer. -/
theorem header_shown {entry : Entry}
    (h : outcome ((unreleased engine packet elsewhere).header index) s = (.ok entry, s')) :
    ∃ c s₁ a, engine.count (viewOf packet elsewhere) s = (c, s₁) ∧ c.status = Status.okCode ∧
      index < c.written.getD 0 ∧ engine.header (viewOf packet elsewhere) index s₁ = (a, s') ∧
      a.status = Status.okCode ∧ packet.buffer.ShowsEntry (a.written.getD {}) entry := by
  rcases hcount : engine.count (viewOf packet elsewhere) s with ⟨c, s₁⟩
  by_cases hstatus : c.status = Status.okCode
  · by_cases hindex : index < c.written.getD 0
    · rcases hheader : engine.header (viewOf packet elsewhere) index s₁ with ⟨a, s₂⟩
      obtain ⟨result, hend, hanswered⟩ := outcome_header hcount hstatus hindex hheader
      obtain ⟨rfl, rfl⟩ := Prod.mk.inj (hend.symm.trans h)
      cases hanswered with
      | own hok hkey hval hshown => exact ⟨c, s₁, a, rfl, hstatus, hindex, hheader, hok, hshown⟩
    · rw [outcome_header_beyond hcount hstatus (Nat.not_lt.mp hindex)] at h
      cases h
  · obtain ⟨e, -, hend⟩ := outcome_header_uncounted hcount index hstatus
    rw [hend] at h
    cases h

/-- The headers of a listing are asked for in turn, up to the first that cannot be read. The induction is on the number
of them that are left. -/
theorem headersFrom_listing (engine : Engine (StateM σ)) (packet : Packet) (elsewhere : Memory) (index remaining : Nat)
    (s : σ) :
    ∃ spans entries s₂, engine.Reports (viewOf packet elsewhere) index s spans s₂ ∧
      List.Forall₂ packet.buffer.ShowsEntry spans entries ∧
      ((spans.length = remaining ∧
          outcome ((unreleased engine packet elsewhere).headersFrom index remaining) s = (.ok entries, s₂)) ∨
        (spans.length < remaining ∧ ∃ halt s₃,
          outcome ((unreleased engine packet elsewhere).header (index + spans.length)) s₂ = (.error halt, s₃) ∧
          outcome ((unreleased engine packet elsewhere).headersFrom index remaining) s = (.error halt, s₃))) := by
  induction remaining generalizing index s with
  | zero => exact ⟨[], [], s, .done, .nil, .inl ⟨rfl, rfl⟩⟩
  | succ remaining ih =>
      rcases hheader : outcome ((unreleased engine packet elsewhere).header index) s with ⟨halt | entry, s₂⟩
      · refine ⟨[], [], s, .done, .nil, .inr ⟨Nat.succ_pos _, halt, s₂, hheader, ?_⟩⟩
        rw [headersFrom, outcome_bind, hheader]
      · obtain ⟨c, s₁, a, hcount, hcounted, hbelow, hreport, hshown, hentry⟩ := header_shown hheader
        obtain ⟨spans, entries, s₃, hreports, hentries, hend⟩ := ih (index + 1) s₂
        refine ⟨_, entry :: entries, s₃, .next hcount hcounted hbelow hreport hshown hreports, .cons hentry hentries,
          hend.imp ?_ ?_⟩
        · rintro ⟨hlength, hrest⟩
          refine ⟨congrArg (· + 1) hlength, ?_⟩
          rw [headersFrom, outcome_bind, hheader]
          dsimp only
          rw [outcome_bind, hrest]
          rfl
        · rintro ⟨hlength, halt, s₄, hfailed, hrest⟩
          refine ⟨Nat.succ_lt_succ hlength, halt, s₄, ?_, ?_⟩
          · rw [List.length_cons, Nat.add_comm spans.length, ← Nat.add_assoc]
            exact hfailed
          · rw [headersFrom, outcome_bind, hheader]
            dsimp only
            rw [outcome_bind, hrest]

theorem headers_listing (engine : Engine (StateM σ)) (packet : Packet) (elsewhere : Memory) (s : σ) :
    ∃ result s', outcome (unreleased engine packet elsewhere).headers s = (result, s') ∧
      Listing engine packet elsewhere s result s' := by
  rcases hcount : engine.count (viewOf packet elsewhere) s with ⟨c, s₁⟩
  unfold headers
  rw [outcome_bind]
  by_cases hstatus : c.status = Status.okCode
  · rw [outcome_count_ok hcount hstatus]
    obtain ⟨spans, entries, s₂, hreports, hentries, ⟨hlength, hend⟩ | ⟨hlength, halt, s₃, hheader, hend⟩⟩ :=
      headersFrom_listing engine packet elsewhere 0 (c.written.getD 0) s₁
    · exact ⟨_, _, hend, .all ⟨c, s₁, spans, hcount, hstatus, hlength, hreports, hentries⟩⟩
    · rw [Nat.zero_add] at hheader
      exact ⟨_, _, hend, .failed hcount hstatus hlength hreports hentries hheader⟩
  · obtain ⟨e, he, hend⟩ := outcome_count_error hcount hstatus
    rw [hend]
    exact ⟨_, _, rfl, .uncounted hcount he⟩

/-- What is made of a listing ends as the listing does. -/
theorem outcome_listing (f : List Entry → α) (s : σ) :
    let listed := outcome (unreleased engine packet elsewhere).headers s
    outcome (do let headers ← (unreleased engine packet elsewhere).headers; return f headers) s =
      (listed.1.map f, listed.2) := by
  dsimp only
  rw [outcome_bind]
  rcases outcome (unreleased engine packet elsewhere).headers s with ⟨e | entries, s'⟩ <;> rfl

end

theorem mem_put {map : List (Bytes × Slice)} {entry : Entry} {pair : Bytes × Slice} (h : pair ∈ put map entry) :
    pair ∈ map ∨ pair = (entry.key.bytes, entry.val) := by
  rcases List.mem_append.mp h with h | h
  · exact .inl (List.mem_of_mem_filter h)
  · exact .inr (List.mem_singleton.mp h)

theorem mem_foldl_put {map : List (Bytes × Slice)} {entries : List Entry} {pair : Bytes × Slice}
    (h : pair ∈ entries.foldl put map) :
    pair ∈ map ∨ ∃ entry ∈ entries, pair = (entry.key.bytes, entry.val) := by
  induction entries generalizing map with
  | nil => exact .inl h
  | cons entry entries ih =>
      rcases ih h with h | ⟨later, hmem, hpair⟩
      · exact (mem_put h).imp_right fun hpair => ⟨entry, List.mem_cons_self, hpair⟩
      · exact .inr ⟨later, List.mem_cons_of_mem _ hmem, hpair⟩

/-! ## The reads of a handle -/

/-- What the reads of an unreleased handle promise, whatever the engine answers and however its answers change. -/
structure Confined (engine : Engine (StateM σ)) (packet : Packet) (elsewhere : Memory) : Prop where
  untrapped (index : Nat) (key : Bytes) :
    let r := unreleased engine packet elsewhere
    Untrapped (r.header index) ∧ Untrapped r.payload ∧ Untrapped (r.find key) ∧ Untrapped r.id ∧
      Untrapped r.headers ∧ Untrapped r.lastValues ∧ Untrapped r.dependencies ∧ Untrapped r.copies
  payload (s : σ) : ∃ result,
    outcome (unreleased engine packet elsewhere).payload s =
      (result, (engine.payload (viewOf packet elsewhere) s).2) ∧
    packet.buffer.Answered (engine.payload (viewOf packet elsewhere) s).1 "payload" result
  /-- Only an engine that has found nothing makes a search end with nothing. -/
  findNone (key : Bytes) (s : σ) :
    (outcome ((unreleased engine packet elsewhere).find key) s).1 = .ok none ↔
      (engine.find (viewOf packet elsewhere) (Source.ofBytes key) s).1.status = Status.notFound.code
  find (key : Bytes) (s : σ)
    (hfound : (engine.find (viewOf packet elsewhere) (Source.ofBytes key) s).1.status ≠ Status.notFound.code) :
    ∃ result, outcome ((unreleased engine packet elsewhere).find key) s =
      (result.map some, (engine.find (viewOf packet elsewhere) (Source.ofBytes key) s).2) ∧
    packet.buffer.Answered (engine.find (viewOf packet elsewhere) (Source.ofBytes key) s).1 "header value" result
  id : (unreleased engine packet elsewhere).id = (unreleased engine packet elsewhere).find Header.idKey
  headerUncounted (index : Nat) {s s₁ : σ} {c : Answer Nat}
    (hcount : engine.count (viewOf packet elsewhere) s = (c, s₁)) (hstatus : c.status ≠ Status.okCode) :
    ∃ e, expectOk c.status = .error e ∧
      outcome ((unreleased engine packet elsewhere).header index) s = (Halt.refuse e, s₁)
  /-- The engine stays in the state after the count: it is not asked for the header. -/
  headerBeyond {index : Nat} {s s₁ : σ} {c : Answer Nat}
    (hcount : engine.count (viewOf packet elsewhere) s = (c, s₁)) (hstatus : c.status = Status.okCode)
    (hindex : c.written.getD 0 ≤ index) :
    outcome ((unreleased engine packet elsewhere).header index) s =
      (Halt.refuse (.indexOutOfRange index (c.written.getD 0)), s₁)
  header {index : Nat} {s s₁ s₂ : σ} {c : Answer Nat} {a : Answer HeaderSpan}
    (hcount : engine.count (viewOf packet elsewhere) s = (c, s₁)) (hstatus : c.status = Status.okCode)
    (hindex : index < c.written.getD 0) (hheader : engine.header (viewOf packet elsewhere) index s₁ = (a, s₂)) :
    ∃ result, outcome ((unreleased engine packet elsewhere).header index) s = (result, s₂) ∧
      packet.buffer.AnsweredEntry index (c.written.getD 0) a result
  headers (s : σ) : ∃ result s', outcome (unreleased engine packet elsewhere).headers s = (result, s') ∧
    Listing engine packet elsewhere s result s'
  lastValues (s : σ) :
    let listed := outcome (unreleased engine packet elsewhere).headers s
    outcome (unreleased engine packet elsewhere).lastValues s =
      (listed.1.map fun entries => entries.foldl put [], listed.2)
  /-- The values of the map are those of headers that are listed. -/
  lastValue (entries : List Entry) (pair : Bytes × Slice) (h : pair ∈ entries.foldl put []) :
    ∃ entry ∈ entries, pair = (entry.key.bytes, entry.val)
  dependencies (s : σ) :
    let listed := outcome (unreleased engine packet elsewhere).headers s
    outcome (unreleased engine packet elsewhere).dependencies s =
      (listed.1.map fun entries => (entries.filter fun entry => entry.key.bytes == Header.depKey).map Entry.val,
        listed.2)
  copies (s : σ) :
    let listed := outcome (unreleased engine packet elsewhere).headers s
    outcome (unreleased engine packet elsewhere).copies s =
      (listed.1.map fun entries => entries.map Entry.toHeader, listed.2)

/-- No engine makes a read show anything but the buffer of the handle, or makes it end without a value or an error. -/
theorem reads_confined (engine : Engine (StateM σ)) (packet : Packet) (elsewhere : Memory) :
    Confined engine packet elsewhere where
  untrapped index key :=
    have hheaders := untrapped_headers engine packet elsewhere
    ⟨untrapped_header engine packet elsewhere index, untrapped_payload engine packet elsewhere,
      untrapped_find engine packet elsewhere key, untrapped_find engine packet elsewhere Header.idKey, hheaders,
      hheaders.bind fun _ => .pure _, hheaders.bind fun _ => .pure _, hheaders.bind fun _ => .pure _⟩
  payload _ := outcome_payload rfl
  findNone key s := by
    refine ⟨fun h => ?_, fun h => congrArg Prod.fst (outcome_find_none rfl h)⟩
    by_contra hfound
    have hfind : engine.find (viewOf packet elsewhere) (Source.ofBytes key) s = (_, _) := rfl
    obtain ⟨result, hend, -⟩ := outcome_find hfind hfound
    rw [hend] at h
    cases result <;> cases h
  find _ _ := outcome_find rfl
  id := rfl
  headerUncounted index _ _ _ hcount := outcome_header_uncounted hcount index
  headerBeyond := outcome_header_beyond
  header hcount hstatus hindex hheader := outcome_header hcount hstatus hindex hheader
  headers := headers_listing engine packet elsewhere
  lastValues := outcome_listing _
  lastValue _ _ h := (mem_foldl_put h).resolve_left List.not_mem_nil
  dependencies := outcome_listing _
  copies := outcome_listing _

/-- An engine that counts one header less each time it is asked, and reports a payload that ends past all memory. -/
def shrinking : Engine (StateM Nat) where
  abiVersion := Abi.version
  build _ _ := pure (.panic "not used")
  count _ := fun left => (⟨Status.okCode, some left⟩, left - 1)
  header _ _ := pure ⟨Status.okCode, some ⟨⟨4097, 1⟩, ⟨4098, 1⟩⟩⟩
  payload _ := pure ⟨Status.okCode, some ⟨4097, Word.limit - 4097⟩⟩
  find _ _ := pure ⟨Status.notFound.code, none⟩

theorem reports_shrinking {view : View} {spans : List HeaderSpan} {s : Nat} (h : shrinking.Reports view 0 1 spans s) :
    spans = [] ∧ s = 1 ∨ spans.length = 1 ∧ s = 0 := by
  cases h with
  | done => exact .inl ⟨rfl, rfl⟩
  | next count _ _ header _ later =>
      obtain ⟨-, rfl⟩ := Prod.mk.inj count
      obtain ⟨-, rfl⟩ := Prod.mk.inj header
      cases later with
      | done => exact .inr ⟨rfl, rfl⟩
      | next count _ below =>
          obtain ⟨rfl, -⟩ := Prod.mk.inj count
          exact absurd below (by decide)

/-- A listing of two headers shows the first; the second is no longer counted when it is asked for. -/
theorem reads_confined_shrinking :
    let r := unreleased shrinking { buffer := ⟨4097, #[7, 8]⟩, extent := ⟨0, 2⟩ } fun _ => 0
    outcome r.headers 2 = (Halt.refuse (.indexOutOfRange 1 0), 0) ∧
      outcome r.copies 2 = (Halt.refuse (.indexOutOfRange 1 0), 0) ∧
      outcome r.payload 0 = (Halt.refuse (.engineContract
        "payload span of 18446744073709547519 bytes lies outside the packet buffer"), 0) ∧
      (outcome r.id 0).1 = .ok none := by
  intro r
  have hconfined : Confined shrinking _ _ :=
    reads_confined shrinking { buffer := ⟨4097, #[7, 8]⟩, extent := ⟨0, 2⟩ } fun _ => 0
  have hfirst : outcome (r.header 0) 1 = (.ok ⟨⟨4097, #[7]⟩, ⟨4098, #[8]⟩⟩, 0) := by decide
  have hsecond : outcome (r.header 1) 0 = (Halt.refuse (.indexOutOfRange 1 0), 0) :=
    hconfined.headerBeyond rfl rfl (Nat.zero_le 1)
  have hheaders : outcome r.headers 2 = (Halt.refuse (.indexOutOfRange 1 0), 0) := by
    obtain ⟨result, s, hend, hlisting⟩ := hconfined.headers 2
    rw [hend]
    cases hlisting with
    | uncounted count failed =>
        obtain ⟨rfl, -⟩ := Prod.mk.inj count
        cases failed
    | failed count _ _ reports _ header =>
        obtain ⟨-, rfl⟩ := Prod.mk.inj count
        rcases reports_shrinking reports with ⟨rfl, rfl⟩ | ⟨hlength, rfl⟩
        · cases hfirst.symm.trans header
        · rw [hlength] at header
          cases hsecond.symm.trans header
          rfl
    | all listed =>
        obtain ⟨c, s₁, spans, count, -, hlength, reports, -⟩ := listed
        obtain ⟨rfl, rfl⟩ := Prod.mk.inj count
        rcases reports_shrinking reports with ⟨rfl, -⟩ | ⟨hone, -⟩
        · cases hlength
        · cases hone.symm.trans hlength
  refine ⟨hheaders, ?_, ?_, ?_⟩
  · rw [hconfined.copies, hheaders]
    rfl
  · obtain ⟨result, hend, hanswered⟩ := hconfined.payload 0
    rw [hend]
    cases hanswered with
    | failed failed => cases failed
    | foreign => rfl
    | own _ own => exact absurd (by decide) own
  · rw [hconfined.id]
    exact (hconfined.findNone _ 0).mpr rfl

end Reading

end PacketHost
