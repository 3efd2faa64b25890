import PacketHost.Proofs.Registry.Course

/-!
# Invocations within invocations

A callback may invoke any token, and its callback another, also along a cycle. Each invocation takes a callback out
of its slot, so that no more callbacks begin than there were to take, with those registered meanwhile. One that
finds nothing to take panics, and where nothing catches panics this one ends every activity that waits
(`Fiber.Unwinds`). What has begun stays counted and its slot stays empty.
-/

namespace PacketHost

open Event Registry

/-! ## What begins is counted and stays taken -/

/-- The slot of a token whose callback has begun, after what has happened since: it is empty, or it is removed. -/
def Registry.Spent (r : Registry Callback) (t : Token) (since : List Event) : Prop :=
  (r.slot? t = some none ∧ .removed t ∉ since) ∨ (r.slot? t = none ∧ .removed t ∈ since)

namespace Registry.Change

variable {r r' : Registry Callback} {free free' : List Token} {n n' : Nat} {e : Option Event}

theorem armed_le (h : Change r free n e r' free' n') :
    (begunTokens e.toList).length + r'.armed ≤ r.armed + (registrations e.toList).length := by
  cases h with
  | stay => exact Nat.le_of_eq (Nat.zero_add _)
  | draw => exact Nat.le_of_eq (Nat.zero_add _)
  | insert t callback =>
      change 0 + _ ≤ _
      rw [Nat.zero_add]
      exact armed_insert_le r t callback
  | take ht size =>
      change 1 + _ ≤ _
      rw [Nat.add_comm]
      exact armed_disarm ht
  | count => exact Nat.le_of_eq (Nat.zero_add _)
  | remove t =>
      change 0 + _ ≤ _
      rw [Nat.zero_add]
      exact armed_erase_le r t

/-- The counter is a word, and so are its changes. -/
theorem invocations_eq (h : Change r free n e r' free' n') :
    Word.wrap (r'.invocations + n') = Word.wrap (r.invocations + n + (begunTokens e.toList).length) := by
  cases h with
  | count => exact Nat.mod_mod (r.invocations + 1) Word.limit
  | _ => rfl

theorem spent_of_begun {t : Token} {callback : Callback} {size : Nat}
    (h : Change r free n (some (.begun t callback size)) r' free' n') : r'.Spent t [] := by
  cases h with
  | take ht _ =>
      refine .inl ⟨?_, List.not_mem_nil⟩
      rw [slot?_disarm, if_pos rfl, ht]
      rfl

theorem spent_of_none {t : Token} {since : List Event} (h : Change r free n none r' free' n')
    (hspent : r.Spent t since) : r'.Spent t since := by
  cases h with
  | stay => exact hspent
  | draw => exact hspent
  | count => exact hspent

theorem spent_of_some {t : Token} {since : List Event} {e : Event} (h : Change r free n (some e) r' free' n')
    (hspent : t ∉ registeredTokens since → r.Spent t since) (hnew : t ∉ registeredTokens (e :: since)) :
    r'.Spent t (e :: since) := by
  unfold Spent at *
  cases h with
  | insert u c =>
      have hslot := hspent (List.not_mem_of_not_mem_cons hnew)
      rw [slot?_insert, if_neg (List.ne_of_not_mem_cons hnew)]
      simpa using hslot
  | @take u c ht size =>
      have hslot := hspent hnew
      -- what begins was in its slot, so it is another token
      have hu : t ≠ u := by
        rintro rfl
        rw [ht] at hslot
        simp at hslot
      rw [slot?_disarm, if_neg hu]
      simpa using hslot
  | remove u =>
      have hslot := hspent hnew
      rw [slot?_erase]
      by_cases hu : t = u
      · simp [hu]
      · simpa [hu] using hslot

end Registry.Change

namespace Fiber.Course

variable {r r' : Registry Callback} {f f' : Fiber} {later : List Event}

/-- Each callback that begins leaves one less to take. -/
theorem armed_le (h : Course r f later r' f') :
    (begunTokens later).length + r'.armed ≤ r.armed + (registrations later).length := by
  induction h with
  | here => exact Nat.le_of_eq (Nat.zero_add _)
  | step _ hstep ih =>
      have hchange := (change_of_step hstep).armed_le
      rw [begunTokens_append, registrations_append, List.length_append, List.length_append]
      omega

theorem invocations_eq (h : Course r f later r' f') :
    Word.wrap (r'.invocations + f'.focus.uncounted) =
      Word.wrap (r.invocations + f.focus.uncounted + (begunTokens later).length) := by
  induction h with
  | here => rfl
  | step _ hstep ih =>
      have hchange := (change_of_step hstep).invocations_eq
      rw [begunTokens_append, List.length_append]
      unfold Word.wrap Word.limit at *
      omega

/-- What a callback leaves when it begins stays until the token is given to another. The induction is on the course;
what happens last is the head of `after`, or the beginning itself. -/
theorem spent (h : Course r f later r' f') {after before : List Event} {t : Token} {callback : Callback} {size : Nat}
    (hlater : later = after ++ .begun t callback size :: before) (hnew : t ∉ registeredTokens after) :
    r'.Spent t after := by
  induction h generalizing after with
  | here => exact absurd hlater (by simp)
  | @step r₁ r₂ _ f₁ f₂ earlier _ hstep ih =>
      have hchange := change_of_step hstep
      generalize f₁.event? f₂ = e at hchange hlater
      cases e with
      | none => exact hchange.spent_of_none (ih hlater hnew)
      | some e =>
          cases after with
          | nil =>
              cases hlater
              exact hchange.spent_of_begun
          | cons e' after =>
              cases hlater
              exact hchange.spent_of_some (ih rfl) hnew

end Fiber.Course

/-! ## Activities that catch no panic -/

/-- An activity that catches no panic and registers no callback that does. -/
def Action.CatchesNothing : Action → Prop
  | .done _ => True
  | .panic _ => True
  | .outstanding next => ∀ n, (next n).CatchesNothing
  | .register run next _ => (∀ n, (run n).CatchesNothing) ∧ ∀ t, (next t).CatchesNothing
  | .drop _ next => next.CatchesNothing
  | .keep _ next => next.CatchesNothing
  | .unregister _ next => ∀ removed, (next removed).CatchesNothing
  | .invoke _ _ next => ∀ result, (next result).CatchesNothing
  | .attempt _ _ _ => False

def Resumption.CatchesNothing : Resumption → Prop
  | .passing next => ∀ result, (next result).CatchesNothing
  | .catching _ => False

def Focus.CatchesNothing : Focus → Prop
  | .act a => a.CatchesNothing
  | .enroll _ callback next => (∀ n, (callback n).CatchesNothing) ∧ ∀ t, (next t).CatchesNothing
  | .begin callback _ => ∀ n, (callback n).CatchesNothing
  | .shed _ _ next => next.CatchesNothing
  | .leave _ => True

theorem Focus.catchesNothing_shedding {next : Action} (h : next.CatchesNothing) (guards : List Token) :
    (Focus.shedding next guards).CatchesNothing := by
  cases guards with
  | nil => exact h
  | cons t others => exact h

/-- No callback that is still in its slot catches a panic. -/
def Registry.CatchesNothing (r : Registry Callback) : Prop :=
  ∀ t callback, r.slot? t = some (some callback) → ∀ n, (callback n).CatchesNothing

structure Fiber.CatchesNothing (f : Fiber) : Prop where
  focus : f.focus.CatchesNothing
  waiting : ∀ frame ∈ f.waiting, frame.next.CatchesNothing

theorem Resumption.CatchesNothing.after {next : Resumption} (h : next.CatchesNothing) (exit : Exit) :
    (next.after exit).CatchesNothing := by
  cases next with
  | passing next =>
      cases exit with
      | returned result => exact h result
      | panicked text => trivial
  | catching next => cases h

/-- The activity does not go on after a panic. -/
def Resumption.Passes : Resumption → Prop
  | .passing _ => True
  | .catching _ => False

theorem Resumption.CatchesNothing.passes {next : Resumption} (h : next.CatchesNothing) : next.Passes := by
  cases next with
  | passing next => trivial
  | catching next => cases h

theorem Resumption.Passes.after_panicked {next : Resumption} (h : next.Passes) (text : String) :
    next.after (.panicked text) = .leave (.panicked text) := by
  cases next with
  | passing next => rfl
  | catching next => cases h

namespace Registry.CatchesNothing

variable {r : Registry Callback}

theorem erase (h : r.CatchesNothing) (t : Token) : (r.erase t).CatchesNothing := by
  intro u callback hu
  rw [slot?_erase] at hu
  split at hu
  · cases hu
  · exact h u callback hu

theorem insert (h : r.CatchesNothing) (t : Token) {callback : Callback} (hc : ∀ n, (callback n).CatchesNothing) :
    (r.insert t callback).CatchesNothing := by
  intro u c hu
  rw [slot?_insert] at hu
  split at hu
  · cases hu
    exact hc
  · exact h u c hu

theorem disarm (h : r.CatchesNothing) (t : Token) : (r.disarm t).CatchesNothing := by
  intro u callback hu
  rw [slot?_disarm] at hu
  split at hu
  · obtain ⟨_, _, he⟩ := Option.map_eq_some_iff.mp hu
    cases he
  · exact h u callback hu

end Registry.CatchesNothing

namespace Fiber

variable {r r' : Registry Callback} {f f' : Fiber}

theorem CatchesNothing.stepInvoke {held : List Token} {waiting : List Frame} {t : Token} {size : Nat}
    {next : Resumption} (hr : r.CatchesNothing) (hw : ∀ frame ∈ waiting, frame.next.CatchesNothing)
    (hnext : next.CatchesNothing) (h : Fiber.stepInvoke r held waiting t size next = .running r' f') :
    r'.CatchesNothing ∧ f'.CatchesNothing := by
  rcases stepInvoke_cases r held waiting t size next with ⟨text, hs⟩ | ⟨callback, ht, hs⟩
  · rw [hs] at h
    cases h
    exact ⟨hr, hnext.after _, hw⟩
  · rw [hs] at h
    cases h
    exact ⟨hr.disarm t, hr t callback ht, List.forall_mem_cons.mpr ⟨hnext, hw⟩⟩

theorem CatchesNothing.stepAction {held : List Token} {waiting : List Frame} {a : Action} (hr : r.CatchesNothing)
    (hw : ∀ frame ∈ waiting, frame.next.CatchesNothing) (ha : a.CatchesNothing)
    (h : Fiber.stepAction r held waiting a = .running r' f') : r'.CatchesNothing ∧ f'.CatchesNothing := by
  cases a with
  | done result =>
      cases h
      exact ⟨hr, trivial, hw⟩
  | panic text =>
      cases h
      exact ⟨hr, trivial, hw⟩
  | outstanding next =>
      cases h
      exact ⟨hr, ha _, hw⟩
  | register run next guards =>
      cases h
      exact ⟨hr, ha, hw⟩
  | drop t next =>
      simp only [Fiber.stepAction] at h
      split at h
      · cases h
        have hnext : next.CatchesNothing := ha
        exact ⟨hr.erase t, Focus.catchesNothing_shedding hnext _, hw⟩
      · cases h
        exact ⟨hr, ha, hw⟩
  | keep t next =>
      cases h
      exact ⟨hr, ha, hw⟩
  | unregister t next =>
      cases h
      exact ⟨hr.erase t, Focus.catchesNothing_shedding (ha _) _, hw⟩
  | invoke t size next =>
      have hnext : (Resumption.passing next).CatchesNothing := ha
      exact stepInvoke hr hw hnext h
  | attempt t size next => cases ha

/-- Where nothing catches panics, nothing comes to do so. -/
theorem CatchesNothing.step (h : r.CatchesNothing ∧ f.CatchesNothing) (hstep : f.step r = .running r' f') :
    r'.CatchesNothing ∧ f'.CatchesNothing := by
  obtain ⟨focus, held, waiting⟩ := f
  obtain ⟨hr, hfocus, hw⟩ := h
  cases focus with
  | act a => exact stepAction hr hw hfocus hstep
  | enroll t callback next =>
      cases hstep
      exact ⟨hr.insert t hfocus.1, Focus.catchesNothing_shedding (hfocus.2 t) _, hw⟩
  | «begin» callback size =>
      cases hstep
      exact ⟨hr, hfocus size, hw⟩
  | shed t others next =>
      cases hstep
      exact ⟨hr.erase t, Focus.catchesNothing_shedding hfocus _, hw⟩
  | leave exit =>
      cases held with
      | cons t held =>
          cases hstep
          exact ⟨hr.erase t, trivial, hw⟩
      | nil =>
          cases waiting with
          | nil => cases hstep
          | cons frame waiting =>
              cases hstep
              obtain ⟨hnext, hw⟩ := List.forall_mem_cons.mp hw
              exact ⟨hr, hnext.after exit, hw⟩

/-! ## A panic that nothing catches -/

/-- The guards of all activities that have not ended, in the order in which a panic drops them. -/
def guards (f : Fiber) : List Token := f.held ++ f.waiting.flatMap Frame.held

/-- A panic ends the activity and each one that waits, the nearest first, and nothing happens but that they drop their
guards, with what callbacks own that are discarded in this way. -/
structure Unwinds (r : Registry Callback) (f : Fiber) (text : String) (r' : Registry Callback) : Prop where
  ends : Course r f (drops (r.cascade f.guards)) r' ⟨.leave (.panicked text), [], []⟩
  shed : r' = r.shed f.guards
  passes : ∀ above frame below, f.waiting = above ++ frame :: below →
    Course r f (drops (r.cascade (f.held ++ above.flatMap Frame.held))) (r.shed (f.held ++ above.flatMap Frame.held))
      ⟨.leave (.panicked text), frame.held, below⟩

/-- Where it is not caught, a panic goes on to the activity that waits. -/
theorem course_pass (r : Registry Callback) (text : String) {frame : Frame} (waiting : List Frame)
    (h : frame.next.Passes) : Course r ⟨.leave (.panicked text), [], frame :: waiting⟩ [] r
      ⟨.leave (.panicked text), frame.held, waiting⟩ := by
  have hstep : step r ⟨.leave (.panicked text), [], frame :: waiting⟩ =
      .running r ⟨frame.next.after (.panicked text), frame.held, waiting⟩ := rfl
  rw [h.after_panicked text] at hstep
  exact Course.one hstep

/-- The induction is on the activities that end; each drops its guards before the panic reaches the next. -/
theorem course_unwind (r : Registry Callback) (text : String) (held : List Token) {above : List Frame}
    (below : List Frame) (habove : ∀ frame ∈ above, frame.next.Passes) :
    Course r ⟨.leave (.panicked text), held, above ++ below⟩ (drops (r.cascade (held ++ above.flatMap Frame.held)))
      (r.shed (held ++ above.flatMap Frame.held)) ⟨.leave (.panicked text), [], below⟩ := by
  induction above generalizing r held with
  | nil =>
      have hleave := course_leave r (.panicked text) held [] below
      rw [List.append_nil] at hleave
      rw [List.flatMap_nil, List.append_nil]
      exact hleave
  | cons frame above ih =>
      obtain ⟨hframe, habove⟩ := List.forall_mem_cons.mp habove
      have hleave := course_leave r (.panicked text) held [] (frame :: (above ++ below))
      rw [List.append_nil] at hleave
      have hpass := course_pass (r.shed held) text (above ++ below) hframe
      rw [List.flatMap_cons, cascade_append, shed_append, drops_append]
      exact (hleave.trans hpass).trans (ih (r.shed held) frame.held habove)

theorem unwinds_leave (r : Registry Callback) (text : String) (held : List Token) {waiting : List Frame}
    (hw : ∀ frame ∈ waiting, frame.next.Passes) :
    Unwinds r ⟨.leave (.panicked text), held, waiting⟩ text (r.shed (held ++ waiting.flatMap Frame.held)) := by
  have hend := course_unwind r text held [] hw
  rw [List.append_nil] at hend
  refine ⟨hend, rfl, ?_⟩
  rintro above frame below rfl
  obtain ⟨habove, hrest⟩ := List.forall_mem_append.mp hw
  have hpass := course_pass (r.shed (held ++ above.flatMap Frame.held)) text below (hrest frame List.mem_cons_self)
  exact (course_unwind r text held (frame :: below) habove).trans hpass

/-- An activity that starts to panic in a step that does nothing else. -/
theorem unwinds {text : String} (hw : ∀ frame ∈ f.waiting, frame.next.Passes)
    (hstep : f.step r = .running r ⟨.leave (.panicked text), f.held, f.waiting⟩)
    (hevent : f.event? ⟨.leave (.panicked text), f.held, f.waiting⟩ = none) :
    Unwinds r f text (r.shed f.guards) := by
  have hfirst := Course.one hstep
  rw [hevent, Option.toList_none] at hfirst
  obtain ⟨hends, -, hpasses⟩ := unwinds_leave r text f.held hw
  refine ⟨?_, rfl, fun above frame below hwaiting => ?_⟩
  · have hcourse := hfirst.trans hends
    rw [List.append_nil] at hcourse
    exact hcourse
  · have hcourse := hfirst.trans (hpasses above frame below hwaiting)
    rw [List.append_nil] at hcourse
    exact hcourse

theorem Unwinds.run_eq {text : String} (h : Unwinds r f text r') : run r f = (.panicked text, r') :=
  h.ends.run_eq.trans (run_of_finished rfl)

/-- No step brings in something that catches, so that all that wait when an invocation panics pass the panic on. -/
theorem Course.panics {later : List Event} {u : Token} {n : Nat} {next : Except HostError Span → Action} {text : String}
    (h : Course r f later r' f') (hr : r.CatchesNothing) (hf : f.CatchesNothing)
    (hfocus : f'.focus = .act (.invoke u n next))
    (hstep : f'.step r' = .running r' ⟨.leave (.panicked text), f'.held, f'.waiting⟩) :
    (run r f).1 = .panicked text ∧ f'.Unwinds r' text (run r f).2 := by
  obtain ⟨-, hf'⟩ := h.keeps (P := fun r f => r.CatchesNothing ∧ f.CatchesNothing)
    (fun _ _ _ _ => CatchesNothing.step) ⟨hr, hf⟩
  have hevent : f'.event? ⟨.leave (.panicked text), f'.held, f'.waiting⟩ = none := by
    unfold event?
    rw [hfocus]
    rfl
  have hunwinds := unwinds (fun frame hframe => (hf'.waiting frame hframe).passes) hstep hevent
  rw [h.run_eq, hunwinds.run_eq]
  exact ⟨rfl, hunwinds⟩

end Fiber

/-! ## A whole invocation -/

namespace Scope.Run

variable {past : List Event} {s : Scope}

/-- Tokens that are words are not given to another. -/
theorem not_mem_registered_of_begun {running : Option Fiber} {after before : List Event} {t : Token}
    {callback : Callback} {size : Nat} (h : Run (after ++ .begun t callback size :: before) s running)
    (hwords : (registrations (after ++ .begun t callback size :: before)).length + (Fiber.enrolling running).length <
      Word.limit) : t ∉ registeredTokens after := by
  have horderly := (h.kept hwords).orderly
  exact horderly.distinct.not_mem_registered
    (horderly.of_append.distinct.mem_registeredTokens_of_begun List.mem_cons_self)

/-- As long as tokens are words, the counter does not come around. -/
theorem counted {a : Action} {later : List Event} {r : Registry Callback} {f : Fiber} (h : Run past s none)
    (hcourse : Fiber.Course s.registry (.start a) later r f)
    (hwords : (registrations (later ++ past)).length + f.focus.enrolling.length < Word.limit) :
    r.invocations + f.focus.uncounted = s.registry.invocations + (begunTokens later).length := by
  have hbefore : s.registry.invocations + 0 = (begunTokens past).length := by
    refine (h.kept (Nat.lt_of_le_of_lt ?_ hwords)).invocations
    rw [registrations_append, List.length_append]
    exact Nat.le_trans (Nat.le_add_left _ _) (Nat.le_add_right _ _)
  have hafter : r.invocations + f.focus.uncounted = (begunTokens (later ++ past)).length :=
    (((h.perform a).course hcourse).kept hwords).invocations
  rw [hafter, begunTokens_append, List.length_append, ← hbefore]
  exact Nat.add_comm _ _

/-- An invocation always ends, and on the way to its end no more callbacks begin than there were to take at its start
and were registered since. Each that begins is counted and leaves an empty slot. Where nothing catches panics, an
invocation that finds an empty slot or none ends every callback that still runs, and so the outer invocation, with the
one panic or the other. -/
theorem invoke_ends (h : Run past s none) (t : Token) (size : Nat) :
    let outer := Fiber.start (.invoke t size .done)
    let ended := s.registry.invoke t size
    (∃ later, Fiber.Course s.registry outer later ended.2 ⟨.leave ended.1, [], []⟩) ∧
    ∀ later r f, Fiber.Course s.registry outer later r f →
      (begunTokens later).length ≤ s.registry.armed + (registrations later).length ∧
      Word.wrap (r.invocations + f.focus.uncounted) =
        Word.wrap (s.registry.invocations + (begunTokens later).length) ∧
      (∀ after u callback n before, later = after ++ .begun u callback n :: before →
        u ∉ registeredTokens after → r.Spent u after) ∧
      ((registrations (later ++ past)).length + f.focus.enrolling.length < Word.limit →
        r.invocations + f.focus.uncounted = s.registry.invocations + (begunTokens later).length ∧
        ∀ after u callback n before, later = after ++ .begun u callback n :: before → u ∉ registeredTokens after) ∧
      (s.registry.CatchesNothing → ∀ u n next, f.focus = .act (.invoke u n next) →
        (r.slot? u = some none → ended.1 = .panicked (consumedText u) ∧ f.Unwinds r (consumedText u) ended.2) ∧
        (r.slot? u = none → ended.1 = .panicked (unregisteredText u) ∧ f.Unwinds r (unregisteredText u) ended.2)) := by
  intro outer ended
  refine ⟨?_, fun later r f hcourse => ⟨?_, ?_, fun after u callback n before => hcourse.spent,
    fun hwords => ⟨h.counted hcourse hwords, ?_⟩, fun hcatch u n next hfocus => ?_⟩⟩
  · obtain ⟨later, f, hcourse, hfinished⟩ := Fiber.exists_course s.registry outer
    obtain rfl := Fiber.eq_of_finished hfinished
    exact ⟨later, hcourse⟩
  · exact Nat.le_trans (Nat.le_add_right _ _) hcourse.armed_le
  · exact hcourse.invocations_eq
  · have hrun := (h.perform (.invoke t size .done)).course hcourse
    rintro after u callback n before rfl
    rw [List.append_assoc] at hrun hwords
    exact hrun.not_mem_registered_of_begun hwords
  · have hpanics : ∀ text, f.step r = .running r ⟨.leave (.panicked text), f.held, f.waiting⟩ →
        ended.1 = .panicked text ∧ f.Unwinds r text ended.2 :=
      fun text => hcourse.panics hcatch ⟨fun _ => trivial, nofun⟩ hfocus
    obtain ⟨focus, held, waiting⟩ := f
    cases hfocus
    exact ⟨fun hslot => hpanics _ (Fiber.stepInvoke_of_taken hslot),
      fun hslot => hpanics _ (Fiber.stepInvoke_of_none hslot)⟩

/-- A callback that asks for the memory from another token. -/
def forwarding (t : Token) : Callback where
  run size := .invoke t size .done

/-- Two callbacks that forward to each other both begin, and the cycle ends in a panic. -/
theorem invoke_ends_cycle :
    ∃ s, Run [.registered ⟨2⟩ (forwarding ⟨1⟩), .registered ⟨1⟩ (forwarding ⟨2⟩)] s none ∧
      s.registry.CatchesNothing ∧ (s.registry.invoke ⟨1⟩ 9).1 = .panicked (consumedText ⟨1⟩) ∧
      (s.registry.invoke ⟨1⟩ 9).2.invocations = 2 ∧ (s.registry.invoke ⟨1⟩ 9).2.slot? ⟨1⟩ = some none ∧
      (s.registry.invoke ⟨1⟩ 9).2.slot? ⟨2⟩ = some none := by
  have hfirst : Run [.registered ⟨1⟩ (forwarding ⟨2⟩)] _ none := (Run.new.register (forwarding ⟨2⟩)).finish rfl
  let s : Scope := ⟨⟨[(⟨1⟩, some (forwarding ⟨2⟩)), (⟨2⟩, some (forwarding ⟨1⟩))], 3, 0⟩, [⟨2⟩, ⟨1⟩]⟩
  have hrun : Run [_, .registered ⟨1⟩ (forwarding ⟨2⟩)] s none := (hfirst.register (forwarding ⟨1⟩)).finish rfl
  have hforwarding : ∀ t n, (forwarding t n).CatchesNothing := fun t n result => trivial
  have hempty : Registry.CatchesNothing {} := nofun
  have hcatch : s.registry.CatchesNothing := (hempty.insert ⟨1⟩ (hforwarding ⟨2⟩)).insert ⟨2⟩ (hforwarding ⟨1⟩)
  obtain ⟨-, hway⟩ := hrun.invoke_ends ⟨1⟩ 9
  have hbegin : Fiber.Course s.registry (.start (.invoke ⟨1⟩ 9 .done)) _ _ _ := (Fiber.Course.here.step rfl).step rfl
  have hsecond : Fiber.Course _ _ [.begun ⟨2⟩ (forwarding ⟨1⟩) 9, .begun ⟨1⟩ (forwarding ⟨2⟩) 9] _ _ :=
    (hbegin.step rfl).step rfl
  obtain ⟨-, -, -, -, hpanic⟩ := hway _ _ _ hsecond
  obtain ⟨htext, hends, -⟩ := (hpanic hcatch _ _ _ rfl).1 rfl
  change Fiber.Course _ _ (Fiber.drops (cascade _ [])) _ _ at hends
  rw [cascade_nil] at hends
  have hend : Fiber.Course _ _ [.begun ⟨2⟩ (forwarding ⟨1⟩) 9, .begun ⟨1⟩ (forwarding ⟨2⟩) 9] _ _ := hsecond.trans hends
  obtain ⟨-, -, hspent, hwords, -⟩ := hway _ _ _ hend
  obtain ⟨hcount, -⟩ := hwords (show 2 + 0 < Word.limit by decide)
  rcases hspent [] _ _ _ _ rfl List.not_mem_nil with ⟨htwo, -⟩ | ⟨-, hremoved⟩
  · rcases hspent [_] _ _ _ _ rfl List.not_mem_nil with ⟨hone, -⟩ | ⟨-, hremoved⟩
    · exact ⟨s, hrun, hcatch, htext, hcount, hone, htwo⟩
    · simp at hremoved
  · cases hremoved

end Scope.Run

end PacketHost
