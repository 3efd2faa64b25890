import PacketHost.Proofs.Registry.Nesting

/-!
# What an invocation comes to

An activity takes its course whatever waits for it (`Fiber.Course.above`). So the invocation of a callback that can be
taken comes to what the callback comes to when it is performed on its own (`Registry.invoke_eq_perform`). It ends in a
panic exactly if at some depth of nesting an activity starts to panic and no activity that waits there catches panics
(`Fiber.run_panics_iff`).
-/

namespace PacketHost

open Registry

namespace Fiber

variable {r r' : Registry Callback} {f f' : Fiber} {later : List Event}

/-! ## Activities that wait below -/

/-- The activity with more that wait, behind those that wait for it. -/
def above (f : Fiber) (below : List Frame) : Fiber := { f with waiting := f.waiting ++ below }

theorem stepInvoke_above {held : List Token} {waiting : List Frame} {t : Token} {size : Nat} {next : Resumption}
    (h : stepInvoke r held waiting t size next = .running r' f') (below : List Frame) :
    stepInvoke r held (waiting ++ below) t size next = .running r' (f'.above below) := by
  cases ht : r.slot? t with
  | none =>
      rw [stepInvoke_of_none ht] at h ⊢
      cases h
      rfl
  | some slot =>
      cases slot with
      | none =>
          rw [stepInvoke_of_taken ht] at h ⊢
          cases h
          rfl
      | some callback =>
          rw [stepInvoke_of_some ht] at h ⊢
          cases h
          rfl

theorem stepAction_above {held : List Token} {waiting : List Frame} {a : Action}
    (h : stepAction r held waiting a = .running r' f') (below : List Frame) :
    stepAction r held (waiting ++ below) a = .running r' (f'.above below) := by
  cases a with
  | drop t next =>
      simp only [stepAction] at h ⊢
      by_cases ht : t ∈ held
      · rw [if_pos ht] at h ⊢
        cases h
        rfl
      · rw [if_neg ht] at h ⊢
        cases h
        rfl
  | invoke t size next => exact stepInvoke_above h below
  | attempt t size next => exact stepInvoke_above h below
  | _ =>
      cases h
      rfl

theorem step_above (h : f.step r = .running r' f') (below : List Frame) :
    (f.above below).step r = .running r' (f'.above below) := by
  obtain ⟨focus, held, waiting⟩ := f
  cases focus with
  | act a => exact stepAction_above h below
  | enroll t callback next =>
      cases h
      rfl
  | «begin» callback size =>
      cases h
      rfl
  | shed t others next =>
      cases h
      rfl
  | leave exit =>
      cases held with
      | cons t held =>
          cases h
          rfl
      | nil =>
          cases waiting with
          | nil => cases h
          | cons frame waiting =>
              cases h
              rfl

theorem Course.above (h : Course r f later r' f') (below : List Frame) :
    Course r (f.above below) later r' (f'.above below) := by
  induction h with
  | here => exact .here
  | step _ hstep ih => exact ih.step (step_above hstep below)

/-- The activity that waits goes on when the other has come to its end. -/
theorem run_above (r : Registry Callback) (f : Fiber) (frame : Frame) (below : List Frame) :
    run r (f.above (frame :: below)) = run (run r f).2 ⟨frame.next.after (run r f).1, frame.held, below⟩ := by
  obtain ⟨later, f', hcourse, hfinished⟩ := exists_course r f
  obtain rfl := eq_of_finished hfinished
  exact (hcourse.above (frame :: below)).run_eq.trans (run_of_running rfl)

end Fiber

/-! ## Invocations by the user -/

namespace Registry

variable {r : Registry Callback} {t : Token} {callback : Callback}

theorem perform_done (r : Registry Callback) (result : Except HostError Span) (held : List Token) :
    r.perform (.done result) held = (.returned result, r.shed held) := by
  have hleave := Fiber.course_leave r (.returned result) held [] []
  rw [List.append_nil] at hleave
  unfold perform
  rw [Fiber.run_of_running rfl, hleave.run_eq, Fiber.run_of_finished rfl]

/-- An activity that only hands on what it has waited for. -/
theorem run_handing (r : Registry Callback) (exit : Exit) :
    Fiber.run r ⟨(Resumption.passing .done).after exit, [], []⟩ = (exit, r) := by
  cases exit with
  | returned result =>
      have hdone := perform_done r result []
      rw [shed_nil] at hdone
      exact hdone
  | panicked text => exact Fiber.run_of_finished rfl

/-- The callback is taken and counted before it runs, and holds its guards while it does. -/
theorem invoke_eq_perform (h : r.slot? t = some (some callback)) (size : Nat) :
    r.invoke t size = (r.disarm t).count.perform (callback size) callback.guards := by
  let body : Fiber := { focus := .act (callback size), held := callback.guards }
  have htake : Fiber.step r (.start (.invoke t size .done)) =
      .running (r.disarm t) ⟨.begin callback size, callback.guards, [⟨[], .passing .done⟩]⟩ :=
    Fiber.stepInvoke_of_some h
  have hcount : Fiber.step (r.disarm t) ⟨.begin callback size, callback.guards, [⟨[], .passing .done⟩]⟩ =
      .running (r.disarm t).count (body.above [⟨[], .passing .done⟩]) := rfl
  unfold invoke perform
  change Fiber.run r (.start (.invoke t size .done)) = Fiber.run (r.disarm t).count body
  rw [Fiber.run_of_running htake, Fiber.run_of_running hcount, Fiber.run_above]
  exact run_handing _ _

theorem invoke_of_some {size : Nat} {result : Except HostError Span} (h : r.slot? t = some (some callback))
    (hc : callback size = .done result) :
    r.invoke t size = (.returned result, (r.disarm t).count.shed callback.guards) := by
  rw [invoke_eq_perform h, hc, perform_done]

theorem invoke_of_taken (size : Nat) (h : r.slot? t = some none) :
    r.invoke t size = (.panicked (consumedText t), r) := by
  have hleave : Fiber.step r (.start (.invoke t size .done)) =
      .running r ⟨.leave (.panicked (consumedText t)), [], []⟩ := Fiber.stepInvoke_of_taken h
  exact (Fiber.run_of_running hleave).trans (Fiber.run_of_finished rfl)

theorem invoke_of_none (size : Nat) (h : r.slot? t = none) :
    r.invoke t size = (.panicked (unregisteredText t), r) := by
  have hleave : Fiber.step r (.start (.invoke t size .done)) =
      .running r ⟨.leave (.panicked (unregisteredText t)), [], []⟩ := Fiber.stepInvoke_of_none h
  exact (Fiber.run_of_running hleave).trans (Fiber.run_of_finished rfl)

end Registry

/-! ## Where panics come from -/

theorem Focus.shedding_ne_leave (next : Action) (guards : List Token) (exit : Exit) :
    Focus.shedding next guards ≠ .leave exit := by
  cases guards with
  | nil => exact nofun
  | cons t others => exact nofun

namespace Fiber

variable {r r' : Registry Callback} {f f' : Fiber} {later : List Event} {text : String}

/-- The activity is about to panic: it says so, or it invokes a token of which there is no callback to take. -/
def Raises (r : Registry Callback) (f : Fiber) (text : String) : Prop :=
  f.focus = .act (.panic text) ∨ ∃ t size next, f.focus = .act (.invoke t size next) ∧
    ((r.slot? t = none ∧ text = unregisteredText t) ∨ (r.slot? t = some none ∧ text = consumedText t))

/-- Nothing that waits catches panics. -/
def Uncaught (f : Fiber) : Prop := ∀ frame ∈ f.waiting, frame.next.Passes

theorem Raises.step (h : f.Raises r text) :
    f.step r = .running r ⟨.leave (.panicked text), f.held, f.waiting⟩ := by
  obtain ⟨focus, held, waiting⟩ := f
  rcases h with hfocus | ⟨t, size, next, hfocus, ⟨ht, rfl⟩ | ⟨ht, rfl⟩⟩
  · cases hfocus
    rfl
  · cases hfocus
    exact stepInvoke_of_none ht
  · cases hfocus
    exact stepInvoke_of_taken ht

theorem raises_of_stepInvoke {held : List Token} {waiting : List Frame} {t : Token} {size : Nat}
    {next : Except HostError Span → Action} (h : stepInvoke r held waiting t size (.passing next) = .running r' f')
    (hfocus : f'.focus = .leave (.panicked text)) :
    Raises r ⟨.act (.invoke t size next), held, waiting⟩ text ∧ f'.waiting = waiting := by
  cases ht : r.slot? t with
  | none =>
      rw [stepInvoke_of_none ht] at h
      cases h
      cases hfocus
      exact ⟨.inr ⟨t, size, next, rfl, .inl ⟨ht, rfl⟩⟩, rfl⟩
  | some slot =>
      cases slot with
      | none =>
          rw [stepInvoke_of_taken ht] at h
          cases h
          cases hfocus
          exact ⟨.inr ⟨t, size, next, rfl, .inr ⟨ht, rfl⟩⟩, rfl⟩
      | some callback =>
          rw [stepInvoke_of_some ht] at h
          cases h
          cases hfocus

/-- No action but a panic and an invocation ends the activity in a panic. -/
theorem raises_of_stepAction {held : List Token} {waiting : List Frame} {a : Action}
    (h : stepAction r held waiting a = .running r' f') (hfocus : f'.focus = .leave (.panicked text)) :
    Raises r ⟨.act a, held, waiting⟩ text ∧ f'.waiting = waiting := by
  cases a with
  | panic text' =>
      cases h
      cases hfocus
      exact ⟨.inl rfl, rfl⟩
  | drop t next =>
      simp only [stepAction] at h
      by_cases ht : t ∈ held
      · rw [if_pos ht] at h
        cases h
        exact absurd hfocus (Focus.shedding_ne_leave _ _ _)
      · rw [if_neg ht] at h
        cases h
        cases hfocus
  | unregister t next =>
      cases h
      exact absurd hfocus (Focus.shedding_ne_leave _ _ _)
  | invoke t size next => exact raises_of_stepInvoke h hfocus
  | attempt t size next =>
      change stepInvoke r held waiting t size (.catching next) = _ at h
      rcases stepInvoke_cases r held waiting t size (.catching next) with ⟨text', hs⟩ | ⟨callback, -, hs⟩
      · rw [hs] at h
        cases h
        cases hfocus
      · rw [hs] at h
        cases h
        cases hfocus
  | _ =>
      cases h
      cases hfocus

/-- An activity comes to end in a panic because it raises one, because it did so before and drops a guard, or because
the one that it waits for did. -/
theorem uncaught_of_panicked (h : f.step r = .running r' f') (hfocus : f'.focus = .leave (.panicked text))
    (hf' : f'.Uncaught) : f.Uncaught ∧ (f.Raises r text ∨ f.focus = .leave (.panicked text)) := by
  obtain ⟨focus, held, waiting⟩ := f
  cases focus with
  | act a =>
      obtain ⟨hraises, hwaiting⟩ := raises_of_stepAction h hfocus
      unfold Uncaught at hf'
      rw [hwaiting] at hf'
      exact ⟨hf', .inl hraises⟩
  | enroll t callback next =>
      cases h
      exact absurd hfocus (Focus.shedding_ne_leave _ _ _)
  | «begin» callback size =>
      cases h
      cases hfocus
  | shed t others next =>
      cases h
      exact absurd hfocus (Focus.shedding_ne_leave _ _ _)
  | leave exit =>
      cases held with
      | cons t held =>
          cases h
          exact ⟨hf', .inr hfocus⟩
      | nil =>
          cases waiting with
          | nil => cases h
          | cons frame waiting =>
              obtain ⟨held, next⟩ := frame
              cases h
              cases next with
              | catching next => cases hfocus
              | passing next =>
                  cases exit with
                  | returned result => cases hfocus
                  | panicked text' =>
                      cases hfocus
                      exact ⟨List.forall_mem_cons.mpr ⟨trivial, hf'⟩, .inr rfl⟩

/-- Going back from an activity that ends in a panic, one comes to where it was raised. The induction is on the course.
-/
theorem Course.exists_raises (h : Course r f later r' f') (hf : f.focus ≠ .leave (.panicked text))
    (hfocus : f'.focus = .leave (.panicked text)) (hf' : f'.Uncaught) :
    ∃ earlier r₁ f₁, Course r f earlier r₁ f₁ ∧ f₁.Raises r₁ text ∧ f₁.Uncaught := by
  induction h with
  | here => exact absurd hfocus hf
  | step hcourse hstep ih =>
      obtain ⟨huncaught, hraises | hleave⟩ := uncaught_of_panicked hstep hfocus hf'
      · exact ⟨_, _, _, hcourse, hraises, huncaught⟩
      · exact ih hf hleave huncaught

/-- A panic that nothing catches ends all that waits. -/
theorem Raises.run_eq (h : f.Raises r text) (hf : f.Uncaught) : (run r f).1 = .panicked text := by
  rw [run_of_running h.step, (unwinds_leave r text f.held hf).run_eq]

theorem run_panics_iff (hf : f.focus ≠ .leave (.panicked text)) : (run r f).1 = .panicked text ↔
    ∃ later r' f', Course r f later r' f' ∧ f'.Raises r' text ∧ f'.Uncaught := by
  constructor
  · intro hpanics
    obtain ⟨later, f', hcourse, hfinished⟩ := exists_course r f
    obtain rfl := eq_of_finished hfinished
    exact hcourse.exists_raises hf (congrArg Focus.leave hpanics) nofun
  · rintro ⟨later, r', f', hcourse, hraises, huncaught⟩
    rw [hcourse.run_eq]
    exact hraises.run_eq huncaught

end Fiber

end PacketHost
