import PacketHost.Proofs.Registry.Ownership
import PacketHost.Proofs.Registry.Reentrant
import PacketHost.Proofs.Registry.Termination

/-!
# The course of an activity

`Fiber.Course` goes from one point of an activity to a later one and lists what happens to registrations on the way.
Every activity comes to its end, in what `Fiber.run` computes (`Fiber.exists_course`), and each point on the way is a
point of a run of its user (`Scope.Run.course`). Guards are dropped one by one, with what discarded callbacks own
(`Fiber.course_leave`, `Fiber.course_shedding`), so that whatever a user does with a registry ends in the registry that
the operation gives. What each change keeps holds at every point of a run (`Scope.Run.keeps`): a registry always has the
slots that its past says (`Scope.Run.slots`).
-/

namespace PacketHost

open Event Registry

namespace Fiber

/-- The steps of an activity from one point to a later one, with what happens to registrations, the latest first. -/
inductive Course : Registry Callback → Fiber → List Event → Registry Callback → Fiber → Prop where
  | here {r : Registry Callback} {f : Fiber} : Course r f [] r f
  | step {r r' r'' : Registry Callback} {f f' f'' : Fiber} {later : List Event} (h : Course r f later r' f')
    (hstep : f'.step r' = .running r'' f'') : Course r f ((f'.event? f'').toList ++ later) r'' f''

namespace Course

variable {r r' r'' : Registry Callback} {f f' f'' : Fiber} {later later' : List Event}

theorem one (hstep : f.step r = .running r' f') : Course r f (f.event? f').toList r' f' := by
  have hcourse := here.step hstep
  rw [List.append_nil] at hcourse
  exact hcourse

theorem trans (h : Course r f later r' f') (h' : Course r' f' later' r'' f'') :
    Course r f (later' ++ later) r'' f'' := by
  induction h' with
  | here => exact h
  | step _ hstep ih =>
      rw [List.append_assoc]
      exact (ih h).step hstep

/-- From each point on the way the activity comes to the same end. -/
theorem run_eq (h : Course r f later r' f') : run r f = run r' f' := by
  induction h with
  | here => rfl
  | step _ hstep ih => exact ih.trans (run_of_running hstep)

/-- What each step keeps. -/
theorem keeps {P : Registry Callback → Fiber → Prop}
    (hstep : ∀ r f r' f', P r f → f.step r = .running r' f' → P r' f') (h : Course r f later r' f') (hp : P r f) :
    P r' f' := by
  induction h with
  | here => exact hp
  | step _ hs ih => exact hstep _ _ _ _ (ih hp) hs

end Course

/-- Every activity comes to its end. -/
theorem exists_course (r : Registry Callback) (f : Fiber) :
    ∃ later f', Course r f later (run r f).2 f' ∧ f'.step (run r f).2 = .finished (run r f).1 := by
  have hend : ∀ x : Registry Callback × Fiber, ∃ later f', Course x.1 x.2 later (run x.1 x.2).2 f' ∧
      f'.step (run x.1 x.2).2 = .finished (run x.1 x.2).1 := by
    intro x
    induction x using lighter_wellFounded.induction with
    | _ x ih =>
        obtain ⟨r, f⟩ := x
        cases hstep : f.step r with
        | running r' f' =>
            obtain ⟨later, f'', hcourse, hfinished⟩ := ih (r', f') (step_lighter hstep)
            rw [run_of_running hstep]
            exact ⟨_, f'', (Course.one hstep).trans hcourse, hfinished⟩
        | finished exit =>
            rw [run_of_finished hstep]
            exact ⟨[], f, .here, hstep⟩
  exact hend (r, f)

/-! ## Dropping guards -/

/-- What removing slots one after the other does to registrations, the latest first. -/
def drops (gone : List Token) : List Event := (gone.map .removed).reverse

theorem drops_cons (t : Token) (gone : List Token) : drops (t :: gone) = drops gone ++ [.removed t] := by
  unfold drops
  rw [List.map_cons, List.reverse_cons]

theorem drops_append (gone gone' : List Token) : drops (gone ++ gone') = drops gone' ++ drops gone := by
  unfold drops
  rw [List.map_append, List.reverse_append]

/-- An activity that has ended drops its guards in turn, each with what goes with it. -/
theorem course_leave (r : Registry Callback) (exit : Exit) (held others : List Token) (waiting : List Frame) :
    Course r ⟨.leave exit, held ++ others, waiting⟩ (drops (r.cascade held)) (r.shed held)
      ⟨.leave exit, others, waiting⟩ := by
  induction r, held using cascade.induct with
  | case1 r =>
      rw [cascade_nil, shed_nil]
      exact .here
  | case2 r t held ih =>
      have hstep : step r ⟨.leave exit, t :: held ++ others, waiting⟩ =
          .running (r.erase t) ⟨.leave exit, r.guards t ++ (held ++ others), waiting⟩ := rfl
      rw [List.append_assoc] at ih
      rw [cascade, shed_cons, drops_cons]
      exact (Course.one hstep).trans ih

/-- What discarded callbacks own is dropped before the activity goes on. -/
theorem course_shedding (r : Registry Callback) (next : Action) (guards others held : List Token)
    (waiting : List Frame) :
    Course r ⟨.shedding next (guards ++ others), held, waiting⟩ (drops (r.cascade guards)) (r.shed guards)
      ⟨.shedding next others, held, waiting⟩ := by
  induction r, guards using cascade.induct with
  | case1 r =>
      rw [cascade_nil, shed_nil]
      exact .here
  | case2 r t guards ih =>
      have hstep : step r ⟨.shedding next (t :: guards ++ others), held, waiting⟩ =
          .running (r.erase t) ⟨.shedding next (r.guards t ++ (guards ++ others)), held, waiting⟩ := rfl
      rw [List.append_assoc] at ih
      rw [cascade, shed_cons, drops_cons]
      exact (Course.one hstep).trans ih

end Fiber

namespace Registry

theorem Change.nodup_tokens {r r' : Registry Callback} {free free' : List Token} {n n' : Nat} {e : Option Event}
    (h : Change r free n e r' free' n') (hr : r.tokens.Nodup) : r'.tokens.Nodup := by
  cases h with
  | stay => exact hr
  | draw => exact hr
  | insert t callback => exact nodup_insert hr t callback
  | take ht size =>
      rw [tokens_disarm]
      exact hr
  | count => exact hr
  | remove t => exact nodup_erase hr t

end Registry

namespace Scope.Run

variable {past : List Event} {s : Scope} {running : Option Fiber} {f f' : Fiber} {r : Registry Callback}
  {later : List Event}

theorem course (h : Run past s (some f)) (hcourse : Fiber.Course s.registry f later r f') :
    Run (later ++ past) { s with registry := r } (some f') := by
  generalize hr : s.registry = r₀ at hcourse
  induction hcourse with
  | here =>
      subst hr
      exact h
  | step _ hstep ih =>
      rw [List.append_assoc]
      exact (ih h).step hstep

/-- Every activity ends, in what `Scope.perform` computes. -/
theorem performed (h : Run past s none) (a : Action) : ∃ later, Run (later ++ past) (s.perform a).2 none := by
  obtain ⟨later, f', hcourse, hfinished⟩ := Fiber.exists_course s.registry (.start a)
  exact ⟨later, ((h.perform a).course hcourse).finish hfinished⟩

theorem shed {held : List Token} (h : Run past s (some (.dropping held))) :
    Run (Fiber.drops (s.registry.cascade held) ++ past) { s with registry := s.registry.shed held } none := by
  have hcourse := Fiber.course_leave s.registry (.returned (.ok .null)) held [] []
  rw [List.append_nil] at hcourse
  exact (h.course hcourse).finish rfl

/-- A registration ends in what `Scope.register` computes. -/
theorem registered (h : Run past s none) (callback : Callback) :
    Run (Fiber.drops ((s.registry.register (callback.owning s.held)).2.cascade (s.registry.guards s.registry.draw.1)) ++
      .registered (s.register callback).1 (callback.owning s.held) :: past) (s.register callback).2 none :=
  (h.register callback).shed

/-- A drop ends in what `Scope.drop` computes. -/
theorem dropped {t : Token} (h : Run past s none) (ht : t ∈ s.held) :
    Run (Fiber.drops (s.registry.cascade [t]) ++ past) (s.drop t).2 none := by
  unfold Scope.drop
  rw [if_pos ht]
  exact (h.drop ht).shed

/-- To unregister is an activity, which ends in what `Scope.unregister` computes. -/
theorem unregistered (h : Run past s none) (t : Token) :
    Run (Fiber.drops (s.registry.cascade [t]) ++ past) (s.unregister t).2 none := by
  have hremove := (h.perform (.unregister t fun _ => .done (.ok .null))).step rfl
  have hcourse := Fiber.course_shedding (s.registry.erase t) (.done (.ok .null)) (s.registry.guards t) [] [] []
  rw [List.append_nil] at hcourse
  have hend := ((hremove.course hcourse).step rfl).finish rfl
  rw [cascade, Fiber.drops_cons, List.append_nil, List.append_assoc]
  unfold Scope.unregister Registry.unregister
  rw [shed_cons, List.append_nil]
  exact hend

/-- What each change to the registry keeps of the registry and its past. -/
theorem keeps {P : List Event → Registry Callback → Prop} (hnew : P [] {})
    (hchange : ∀ past r free n e r' free' n', P past r → Change r free n e r' free' n' → P (e.toList ++ past) r')
    (h : Run past s running) : P past s.registry := by
  induction h with
  | new => exact hnew
  | register _ callback ih =>
      have hdraw := hchange _ _ _ _ _ _ _ _ ih .draw
      exact hchange _ _ _ _ _ _ _ _ hdraw (.insert _ _)
  | drop _ _ ih => exact ih
  | perform _ _ ih => exact ih
  | step _ hstep ih => exact hchange _ _ _ _ _ _ _ _ ih (Fiber.change_of_step hstep)
  | finish _ _ ih => exact ih

theorem nodup_tokens (h : Run past s running) : s.registry.tokens.Nodup :=
  h.keeps (P := fun _ r => r.tokens.Nodup) List.nodup_nil fun _ _ _ _ _ _ _ _ hr hchange => hchange.nodup_tokens hr

theorem slots (h : Run past s running) : ∀ t, s.registry.slot? t = slot past t :=
  h.keeps (P := fun past r => ∀ t, r.slot? t = slot past t) (fun _ => rfl)
    fun _ _ _ _ _ _ _ _ hslots hchange => hchange.slot?_eq hslots

/-- This needs no bound on the number of registrations: a token that is given to another is contained like any. -/
theorem contains_iff (h : Run past s running) (t : Token) : s.registry.contains t = true ↔ t ∈ live past := by
  unfold contains
  rw [h.slots]
  exact isSome_slot_iff past t

end Scope.Run

end PacketHost
