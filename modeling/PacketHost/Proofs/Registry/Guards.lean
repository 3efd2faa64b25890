import PacketHost.Proofs.Registry.Course

/-!
# Guards

An activity that registers a callback holds a guard. Unless it gives the guard away, it comes to drop it, on every way
out (`Fiber.Holds.exists_course`). The drop removes the slot of its own token and those of the tokens whose guards go
with a callback that has not begun (`Registry.TakesAlong`); it touches nothing else.
-/

namespace PacketHost

open Event Registry

/-! ## Coming to a drop -/

/-- An activity that does not give away the guard of a token before it has dropped it, to a callback neither. -/
def Action.Retains (t : Token) : Action → Prop
  | .done _ => True
  | .panic _ => True
  | .outstanding next => ∀ n, (next n).Retains t
  | .register _ next guards => t ∉ guards ∧ ∀ u, (next u).Retains t
  | .drop u next => u = t ∨ next.Retains t
  | .keep u next => u ≠ t ∧ next.Retains t
  | .unregister _ next => ∀ removed, (next removed).Retains t
  | .invoke _ _ next => ∀ result, (next result).Retains t
  | .attempt _ _ next => ∀ exit, (next exit).Retains t

def Resumption.Retains (t : Token) : Resumption → Prop
  | .passing next => ∀ result, (next result).Retains t
  | .catching next => ∀ exit, (next exit).Retains t

def Focus.Retains (t : Token) : Focus → Prop
  | .act a => a.Retains t
  | .enroll _ _ next => ∀ u, (next u).Retains t
  | .begin callback size => (callback size).Retains t
  | .shed _ _ next => next.Retains t
  | .leave _ => True

theorem Focus.retains_shedding {t : Token} {next : Action} (h : next.Retains t) (guards : List Token) :
    (Focus.shedding next guards).Retains t := by
  cases guards with
  | nil => exact h
  | cons u others => exact h

theorem Resumption.Retains.after {t : Token} {next : Resumption} (h : next.Retains t) (exit : Exit) :
    (next.after exit).Retains t := by
  cases next with
  | passing next =>
      cases exit with
      | returned result => exact h result
      | panicked text => trivial
  | catching next => exact h exit

namespace Fiber

/-- What follows drops a guard of the token: the activity says so, a callback is discarded that owns it, or the activity
has ended and drops what it holds. The other is the activity after that. -/
inductive Dropping (t : Token) : Fiber → Fiber → Prop where
  | early {next : Action} {held : List Token} {waiting : List Frame} (ht : t ∈ held) :
    Dropping t ⟨.act (.drop t next), held, waiting⟩ ⟨.act next, held.erase t, waiting⟩
  | owned {others : List Token} {next : Action} {held : List Token} {waiting : List Frame} :
    Dropping t ⟨.shed t others next, held, waiting⟩ ⟨.shedding next others, held, waiting⟩
  | late {exit : Exit} {held : List Token} {waiting : List Frame} :
    Dropping t ⟨.leave exit, t :: held, waiting⟩ ⟨.leave exit, held, waiting⟩

/-- The activity that those in `waiting` wait for holds a guard of the token and does not give it away. It acts itself,
or waits for a callback that it invoked. -/
inductive Holds (t : Token) (waiting : List Frame) : Fiber → Prop where
  | running {focus : Focus} {held : List Token} (hfocus : focus.Retains t) (ht : t ∈ held) :
    Holds t waiting ⟨focus, held, waiting⟩
  | paused {f : Fiber} (above : List Frame) {frame : Frame} (hf : f.waiting = above ++ frame :: waiting)
    (hnext : frame.next.Retains t) (ht : t ∈ frame.held) : Holds t waiting f

variable {r r' : Registry Callback} {f f' : Fiber} {t : Token}

/-- The drop of a guard, with what goes with it, is over before anything else happens. -/
theorem Dropping.course (h : Dropping t f f') (r : Registry Callback) :
    Course r f (drops (r.cascade [t])) (r.shed [t]) f' := by
  cases h with
  | @early next held waiting ht =>
      have hstep : step r ⟨.act (.drop t next), held, waiting⟩ =
          .running (r.erase t) ⟨.shedding next (r.guards t), held.erase t, waiting⟩ := if_pos ht
      have hrest := course_shedding (r.erase t) next (r.guards t) [] (held.erase t) waiting
      have hevent : event? ⟨.act (.drop t next), held, waiting⟩
          ⟨.shedding next (r.guards t), held.erase t, waiting⟩ = some (.removed t) := if_pos ht
      rw [List.append_nil] at hrest
      have hcourse := (Course.one hstep).trans hrest
      rw [hevent] at hcourse
      rw [cascade, shed_cons, drops_cons, List.append_nil]
      exact hcourse
  | @owned others next held waiting => exact course_shedding r next [t] others held waiting
  | @late exit held waiting => exact course_leave r exit [t] held waiting

theorem Dropping.enrolling (h : Dropping t f f') : f.focus.enrolling = [] := by
  cases h with
  | early ht => rfl
  | owned => rfl
  | late => rfl

section

variable {waiting : List Frame}

theorem Holds.stepInvoke {held : List Token} {u : Token} {size : Nat} {next : Resumption} (hnext : next.Retains t)
    (ht : t ∈ held) : ∃ r' f', Fiber.stepInvoke r held waiting u size next = .running r' f' ∧ f'.Holds t waiting := by
  rcases stepInvoke_cases r held waiting u size next with ⟨text, hs⟩ | ⟨callback, -, hs⟩
  · exact ⟨_, _, hs, .running (hnext.after _) ht⟩
  · exact ⟨_, _, hs, .paused [] rfl hnext ht⟩

theorem Holds.stepAction {held : List Token} {a : Action} (ha : a.Retains t) (ht : t ∈ held) :
    (∃ f', Dropping t ⟨.act a, held, waiting⟩ f') ∨
      ∃ r' f', Fiber.stepAction r held waiting a = .running r' f' ∧ f'.Holds t waiting := by
  cases a with
  | done result => exact .inr ⟨_, _, rfl, .running trivial ht⟩
  | panic text => exact .inr ⟨_, _, rfl, .running trivial ht⟩
  | outstanding next => exact .inr ⟨_, _, rfl, .running (ha _) ht⟩
  | register run next guards =>
      have hkept : t ∈ Callback.leaving { run, guards } held := List.mem_filter.mpr ⟨ht, decide_eq_true ha.1⟩
      exact .inr ⟨_, _, rfl, .running ha.2 hkept⟩
  | drop u next =>
      by_cases hu : u = t
      · subst hu
        exact .inl ⟨_, .early ht⟩
      · have hnext : next.Retains t := ha.resolve_left hu
        by_cases hmem : u ∈ held
        · have hkept : t ∈ held.erase u := (List.mem_erase_of_ne (Ne.symm hu)).mpr ht
          exact .inr ⟨_, _, if_pos hmem, .running (Focus.retains_shedding hnext _) hkept⟩
        · exact .inr ⟨_, _, if_neg hmem, .running hnext ht⟩
  | keep u next => exact .inr ⟨_, _, rfl, .running ha.2 ((List.mem_erase_of_ne (Ne.symm ha.1)).mpr ht)⟩
  | unregister u next => exact .inr ⟨_, _, rfl, .running (Focus.retains_shedding (ha _) _) ht⟩
  | invoke u size next =>
      have hnext : (Resumption.passing next).Retains t := ha
      exact .inr (stepInvoke hnext ht)
  | attempt u size next =>
      have hnext : (Resumption.catching next).Retains t := ha
      exact .inr (stepInvoke hnext ht)

/-- An action leaves the activities that wait as they are, or adds its own to them. -/
theorem waiting_stepAction {held : List Token} {a : Action}
    (h : Fiber.stepAction r held waiting a = .running r' f') :
    f'.waiting = waiting ∨ ∃ frame, f'.waiting = frame :: waiting := by
  have hinvoke : ∀ {u size next}, Fiber.stepInvoke r held waiting u size next = .running r' f' →
      f'.waiting = waiting ∨ ∃ frame, f'.waiting = frame :: waiting := by
    intro u size next hs
    rcases stepInvoke_cases r held waiting u size next with ⟨text, hcase⟩ | ⟨callback, -, hcase⟩
    · rw [hcase] at hs
      cases hs
      exact .inl rfl
    · rw [hcase] at hs
      cases hs
      exact .inr ⟨_, rfl⟩
  cases a with
  | drop u next =>
      simp only [Fiber.stepAction] at h
      split at h
      · cases h
        exact .inl rfl
      · cases h
        exact .inl rfl
  | invoke u size next => exact hinvoke h
  | attempt u size next => exact hinvoke h
  | _ =>
      cases h
      exact .inl rfl

/-- An activity that holds a guard drops it next or still holds it after a step. -/
theorem Holds.step (h : f.Holds t waiting) (r : Registry Callback) :
    (∃ f', Dropping t f f' ∧ f.waiting = waiting) ∨ ∃ r' f', f.step r = .running r' f' ∧ f'.Holds t waiting := by
  cases h with
  | @running focus held hfocus ht =>
      cases focus with
      | act a => exact (Holds.stepAction hfocus ht).imp_left fun ⟨f', hdrop⟩ => ⟨f', hdrop, rfl⟩
      | enroll u callback next =>
          exact .inr ⟨_, _, rfl, .running (Focus.retains_shedding (hfocus u) _) (List.mem_cons_of_mem _ ht)⟩
      | «begin» callback size => exact .inr ⟨_, _, rfl, .running hfocus ht⟩
      | shed u others next => exact .inr ⟨_, _, rfl, .running (Focus.retains_shedding hfocus _) ht⟩
      | leave exit =>
          cases held with
          | nil => cases ht
          | cons u held =>
              rcases List.mem_cons.mp ht with rfl | ht
              · exact .inl ⟨_, .late, rfl⟩
              · exact .inr ⟨_, _, rfl, .running trivial (List.mem_append_right _ ht)⟩
  | @paused _ above frame hf hnext ht =>
      right
      obtain ⟨focus, held, frames⟩ := f
      obtain rfl := hf
      -- only a callback that ends takes an activity off those that wait
      cases focus with
      | act a =>
          obtain ⟨r', f', hs⟩ := stepAction_running r held (above ++ frame :: waiting) a
          refine ⟨r', f', hs, ?_⟩
          rcases waiting_stepAction hs with hw | ⟨added, hw⟩
          · exact .paused above hw hnext ht
          · exact .paused (added :: above) hw hnext ht
      | enroll u callback next => exact ⟨_, _, rfl, .paused above rfl hnext ht⟩
      | «begin» callback size => exact ⟨_, _, rfl, .paused above rfl hnext ht⟩
      | shed u others next => exact ⟨_, _, rfl, .paused above rfl hnext ht⟩
      | leave exit =>
          cases held with
          | cons u held => exact ⟨_, _, rfl, .paused above rfl hnext ht⟩
          | nil =>
              cases above with
              -- the callback has ended, in a panic or not, and its caller holds what it held
              | nil => exact ⟨_, _, rfl, .running (hnext.after exit) ht⟩
              | cons ended above => exact ⟨_, _, rfl, .paused above rfl hnext ht⟩

/-- An activity that holds a guard comes to drop it. The induction is on the work that is left. -/
theorem Holds.exists_course (h : f.Holds t waiting) (r : Registry Callback) :
    ∃ later r' f' f'', Course r f later r' f' ∧ Dropping t f' f'' ∧ f'.waiting = waiting := by
  have hcomes : ∀ x : Registry Callback × Fiber, x.2.Holds t waiting →
      ∃ later r' f' f'', Course x.1 x.2 later r' f' ∧ Dropping t f' f'' ∧ f'.waiting = waiting := by
    intro x
    induction x using lighter_wellFounded.induction with
    | _ x ih =>
        obtain ⟨r, f⟩ := x
        intro h
        rcases h.step r with ⟨f', hdrop, hwaiting⟩ | ⟨r', f', hstep, hholds⟩
        · exact ⟨[], r, f, f', .here, hdrop, hwaiting⟩
        · obtain ⟨later, r'', f₁, f₂, hcourse, hend⟩ := ih (r', f') (step_lighter hstep) hholds
          exact ⟨_, r'', f₁, f₂, (Course.one hstep).trans hcourse, hend⟩
  exact hcomes (r, f) h

end

end Fiber

/-! ## What a drop does -/

/-- A guard of a token is dropped and the registry becomes another, given what was contained before the token was
registered, the guards that its callback took over and what has happened since. -/
structure Registry.Released (before : Registry Callback) (t : Token) (owned : List Token) (since : List Event)
    (r r' : Registry Callback) : Prop where
  gone : r'.contains t = false
  taken : ∀ u, r.TakesAlong t u → r'.slot? u = none
  others : ∀ u, ¬r.TakesAlong t u → r'.slot? u = r.slot? u
  outstanding : r'.outstanding + {u | r.TakesAlong t u ∧ r.contains u = true}.ncard = r.outstanding
  next : r'.next = r.next
  invocations : r'.invocations = r.invocations
  /-- Where the callback owns nothing any more, the drop touches no other token. -/
  alone : r.guards t = [] → (∀ u, u ≠ t → r'.slot? u = r.slot? u) ∧
    r'.outstanding + (if r.contains t then 1 else 0) = r.outstanding
  /-- While the token is not given to another, the callback owns what it took over until it begins or is removed, and
  the drop removes the registration, unless it was removed before. -/
  once : t ∉ registeredTokens since →
    (.removed t ∉ since → t ∉ begunTokens since → r.guards t = owned) ∧
    (.removed t ∈ since ∨ t ∈ begunTokens since → r.guards t = []) ∧
    (r.contains t = true ↔ .removed t ∉ since) ∧ (.removed t ∈ since → r' = r)
  /-- Nothing is left of what has happened since if it removed what it registered and nothing from before, except that
  the guards go that the callback owned. -/
  restored : live since = [] → (∀ u, before.contains u = true → .removed u ∉ since) → ∀ u, u ≠ t →
    (r'.contains u = true ↔ before.contains u = true ∧ ¬r.TakesAlong t u) ∧
    (before.contains u = true → u ∉ registeredTokens since)

namespace Scope.Run

variable {past later : List Event} {s s' : Scope} {running running' : Option Fiber} {t : Token} {callback : Callback}

/-- What a callback owns is read off its past. -/
theorem guards_eq (h : Run (later ++ .registered t callback :: past) s running) (hnew : t ∉ registeredTokens later) :
    (.removed t ∉ later → t ∉ begunTokens later → s.registry.guards t = callback.guards) ∧
    (.removed t ∈ later ∨ t ∈ begunTokens later → s.registry.guards t = []) := by
  refine ⟨fun hremoved hbegun => guards_of_some ?_, fun hspent => ?_⟩
  · rw [h.slots, slot_append_of_untouched hnew hremoved hbegun, slot, if_pos rfl]
  · refine (s.registry.guards_cases t).resolve_right ?_
    rintro ⟨owner, hs, -⟩
    rw [h.slots] at hs
    exact slot_append_of_spent hnew hspent owner hs

theorem released (h : Run past s running) (h' : Run (later ++ .registered t callback :: past) s' running') :
    Released s.registry t callback.guards later s'.registry (s'.registry.shed [t]) := by
  have hcontains : ∀ u, s'.registry.contains u = true ↔
      u ∈ live later ∨ ((u = t ∨ s.registry.contains u = true) ∧ .removed u ∉ later) := by
    intro u
    rw [h'.contains_iff, h.contains_iff, mem_live_append_iff, live, List.mem_cons]
  refine ⟨?_, fun u => slot?_shed_of_takesAlong, fun u => slot?_shed_of_not_takesAlong,
    outstanding_shed h'.nodup_tokens t, next_shed _ _, invocations_shed _ _, fun halone => ⟨fun u hu => ?_, ?_⟩,
    fun hnew => ?_, fun hlive huntouched u hu => ⟨?_, fun hthere hagain => ?_⟩⟩
  · rw [← Bool.not_eq_true, contains_shed]
    exact fun hleft => hleft.2 .refl
  · exact slot?_shed_of_not_takesAlong fun hgoes => hu (eq_of_takesAlong halone hgoes)
  · rw [shed_singleton halone]
    exact outstanding_erase_add h'.nodup_tokens t
  · have hthere : s'.registry.contains t = true ↔ .removed t ∉ later := by
      have hdead : t ∉ live later := fun hlive => hnew ((live_sublist later).subset hlive)
      rw [hcontains]
      exact ⟨fun hor => (hor.resolve_left hdead).2, fun hkept => .inr ⟨.inl rfl, hkept⟩⟩
    obtain ⟨howned, hspent⟩ := h'.guards_eq hnew
    refine ⟨howned, hspent, hthere, fun hremoved => ?_⟩
    rw [shed_singleton (hspent (.inl hremoved))]
    refine erase_of_not_contains ?_
    rw [← Bool.not_eq_true, hthere]
    exact not_not.mpr hremoved
  · rw [contains_shed, hcontains, hlive]
    constructor
    · rintro ⟨hdead | ⟨hsame | hthere, -⟩, hstays⟩
      · cases hdead
      · exact absurd hsame hu
      · exact ⟨hthere, hstays⟩
    · rintro ⟨hthere, hstays⟩
      exact ⟨.inr ⟨.inr hthere, huntouched u hthere⟩, hstays⟩
  · have hmem := mem_live_of_registered hagain (huntouched u hthere)
    rw [hlive] at hmem
    cases hmem

/-- A token that is a word is drawn for one registration only. -/
theorem token_fresh (h : Run past s running) (h' : Run (later ++ .registered t callback :: past) s' running')
    (hwords : (registrations (later ++ .registered t callback :: past)).length + (Fiber.enrolling running').length <
      Word.limit) : t ∉ registeredTokens later ∧ s.registry.contains t = false := by
  have horderly := (h'.kept hwords).orderly
  refine ⟨horderly.distinct.not_mem_registered List.mem_cons_self, ?_⟩
  rw [← Bool.not_eq_true, h.contains_iff]
  cases horderly.of_append.distinct with
  | registered _ hnew => exact fun hlive => hnew ((live_sublist past).subset hlive)

/-- Guards clean up. An activity that registers a callback comes to drop its guard, on every way out, unless it gives it
away. Whatever has happened since, also in the callbacks it invoked, and whoever drops the guard, an activity, the user
of the registry or a callback that is discarded and owns it, the drop does what `Released` says. -/
theorem guard_cleans_up (h : Run past s running) (callback : Callback) :
    let t := s.registry.draw.1
    let fresh := fun owner later => (registrations (later ++ .registered t owner :: past)).length < Word.limit →
      t ∉ registeredTokens later ∧ s.registry.contains t = false
    (∀ f body, running = some f → f.focus = .act (.register callback.run body callback.guards) →
      let owner := callback.owning f.held
      let r₁ := (s.registry.register owner).2
      let inside : Fiber := ⟨.shedding (body t) (s.registry.guards t), t :: callback.leaving f.held, f.waiting⟩
      Fiber.Course s.registry f [.registered t owner] r₁ inside ∧
      ((body t).Retains t → ∃ later r f' f'', Fiber.Course r₁ inside later r f' ∧ Fiber.Dropping t f' f'' ∧
        f'.waiting = f.waiting) ∧
      ∀ later r f' f'', Fiber.Course r₁ inside later r f' → Fiber.Dropping t f' f'' → fresh owner later ∧
        Fiber.Course r f' (Fiber.drops (r.cascade [t])) (r.shed [t]) f'' ∧
        Released s.registry t owner.guards later r (r.shed [t])) ∧
    (running = none → let owner := callback.owning s.held
      ∀ later s', Run (later ++ .registered t owner :: past) s' none → t ∈ s'.held → fresh owner later ∧
        Run (Fiber.drops (s'.registry.cascade [t]) ++ (later ++ .registered t owner :: past)) (s'.drop t).2 none ∧
        Released s.registry t owner.guards later s'.registry (s'.drop t).2.registry) ∧
    ∀ owner later s' f f', Run (later ++ .registered t owner :: past) s' (some f) → Fiber.Dropping t f f' →
      fresh owner later ∧
      Fiber.Course s'.registry f (Fiber.drops (s'.registry.cascade [t])) (s'.registry.shed [t]) f' ∧
      Released s.registry t owner.guards later s'.registry (s'.registry.shed [t]) := by
  intro t fresh
  have hdropping : ∀ owner later s' f f', Run (later ++ .registered t owner :: past) s' (some f) →
      Fiber.Dropping t f f' → fresh owner later ∧
      Fiber.Course s'.registry f (Fiber.drops (s'.registry.cascade [t])) (s'.registry.shed [t]) f' ∧
      Released s.registry t owner.guards later s'.registry (s'.registry.shed [t]) := by
    intro owner later s' f f' h' hdrop
    refine ⟨fun hwords => h.token_fresh h' ?_, hdrop.course s'.registry, h.released h'⟩
    change _ + f.focus.enrolling.length < _
    rw [hdrop.enrolling]
    exact hwords
  refine ⟨?_, ?_, hdropping⟩
  · rintro f body rfl hf owner r₁ inside
    have henter : Fiber.Course s.registry f [.registered t owner] r₁ inside := by
      obtain ⟨focus, held, waiting⟩ := f
      cases hf
      have hdraw : Fiber.Course s.registry ⟨.act (.register callback.run body callback.guards), held, waiting⟩ []
          s.registry.draw.2 ⟨.enroll t owner body, callback.leaving held, waiting⟩ := Fiber.Course.one rfl
      exact hdraw.step rfl
    refine ⟨henter, fun hretains => ?_, fun later r f' f'' hcourse hdrop => ?_⟩
    · have hholds : inside.Holds t f.waiting := .running (Focus.retains_shedding hretains _) List.mem_cons_self
      exact hholds.exists_course r₁
    · exact hdropping owner later _ f' f'' ((h.course henter).course hcourse) hdrop
  · rintro rfl owner later s' h' hheld
    obtain ⟨-, -, hreleased⟩ := hdropping owner later _ _ _ (h'.drop hheld) .late
    refine ⟨fun hwords => h.token_fresh h' hwords, h'.dropped hheld, ?_⟩
    unfold Scope.drop
    rw [if_pos hheld]
    exact hreleased

/-- A callback that gives no memory. -/
def idle : Callback where
  run _ := .done (.ok .null)

/-- A callback that registers another and panics. -/
def losing : Callback where
  run _ := .register idle fun _ => .panic "lost"

/-- An activity registers a callback and hands its guard to a second one. The panic of a callback that it invokes ends
it, and of the two registrations that are left, the guard removes its own and the one that the discarded callback owned.
-/
theorem guard_cleans_up_after_panic :
    ∃ past s f later r f' f'', Run past s (some f) ∧
      f.focus = .act (.register idle.run (fun _ => .invoke ⟨1⟩ 4 .done) [⟨2⟩]) ∧ f.held = [⟨2⟩] ∧
      Fiber.Course s.registry f later r f' ∧ f'.focus = .leave (.panicked "lost") ∧
      Fiber.Course r f' [.removed ⟨2⟩, .removed ⟨3⟩] (r.shed [⟨3⟩]) f'' ∧
      ∀ u, (r.shed [⟨3⟩]).contains u = true ↔ s.registry.contains u = true ∧ u ≠ ⟨2⟩ := by
  let r : Registry Callback := ((({} : Registry Callback).register losing).2.register idle).2
  let body : Token → Action := fun _ => .invoke ⟨1⟩ 4 .done
  have hregistered : Run [.registered ⟨1⟩ losing] _ none := (Run.new.register losing).finish rfl
  have hrun : Run [.registered ⟨2⟩ idle, .registered ⟨1⟩ losing] ⟨r, [⟨1⟩]⟩
      (some ⟨.act (.register idle body [⟨2⟩]), [⟨2⟩], []⟩) :=
    ((hregistered.perform (.register idle fun _ => .register idle body [⟨2⟩])).step rfl).step rfl
  obtain ⟨hactivity, -, -⟩ := hrun.guard_cleans_up ⟨idle.run, [⟨2⟩]⟩
  obtain ⟨henter, -, hdrops⟩ := hactivity _ body rfl rfl
  let r' : Registry Callback := ⟨[(⟨1⟩, none), (⟨2⟩, some idle), (⟨3⟩, some ⟨idle.run, [⟨2⟩]⟩)], 5, 1⟩
  have hinvoke : Fiber.Course (r.register ⟨idle.run, [⟨2⟩]⟩).2 ⟨.act (body ⟨3⟩), [⟨3⟩], []⟩ _ _ _ :=
    (Fiber.Course.here.step rfl).step rfl
  have hregister := (hinvoke.step rfl).step rfl
  have hpanic : Fiber.Course _ _ [.removed ⟨4⟩, .registered ⟨4⟩ idle, .begun ⟨1⟩ losing 4] r'
      ⟨.leave (.panicked "lost"), [⟨3⟩], []⟩ := ((hregister.step rfl).step rfl).step rfl
  obtain ⟨-, hcourse, hdropped⟩ := hdrops _ _ _ _ hpanic .late
  have hreleased : Released r ⟨3⟩ [⟨2⟩] [.removed ⟨4⟩, .registered ⟨4⟩ idle, .begun ⟨1⟩ losing 4] r'
      (r'.shed [⟨3⟩]) := hdropped
  have hcascade : r'.cascade [⟨3⟩] = [⟨3⟩, ⟨2⟩] := by cbv
  have hgoes : ∀ u, r'.TakesAlong ⟨3⟩ u ↔ u = ⟨3⟩ ∨ u = ⟨2⟩ := by
    intro u
    rw [← mem_cascade_singleton_iff, hcascade, List.mem_cons, List.mem_singleton]
  refine ⟨_, _, _, _, r', _, ⟨.leave (.panicked "lost"), [], []⟩, hrun, rfl, rfl, henter.trans hpanic, rfl, ?_,
    fun u => ?_⟩
  · change Fiber.Course r' _ (Fiber.drops (r'.cascade [⟨3⟩])) _ _ at hcourse
    rw [hcascade] at hcourse
    exact hcourse
  · by_cases hu : u = ⟨3⟩
    · subst hu
      have hbefore : r.contains ⟨3⟩ = false := rfl
      rw [hreleased.gone, hbefore]
      simp
    · have huntouched : ∀ v, r.contains v = true →
          Event.removed v ∉ [Event.removed ⟨4⟩, .registered ⟨4⟩ idle, .begun ⟨1⟩ losing 4] := by
        intro v hv hmem
        obtain rfl : v = ⟨4⟩ := by simpa using hmem
        cases hv
      obtain ⟨hrestored, -⟩ := hreleased.restored (by decide) huntouched u hu
      rw [hgoes, or_iff_right hu] at hrestored
      exact hrestored

/-- A guard that is dropped removes another registration too: its callback has not begun and owns the other guard. -/
theorem drop_removes_another :
    let owner : Callback := ⟨idle.run, [⟨1⟩]⟩
    let s : Scope := ⟨⟨[(⟨1⟩, some idle), (⟨2⟩, some owner)], 3, 0⟩, [⟨2⟩]⟩
    Run [.registered ⟨2⟩ owner, .registered ⟨1⟩ idle] s none ∧ ⟨2⟩ ∈ s.held ∧
      s.registry.contains ⟨2⟩ = true ∧ s.registry.contains ⟨1⟩ = true ∧
      (s.drop ⟨2⟩).2.registry.contains ⟨1⟩ = false ∧
      (s.drop ⟨2⟩).2.registry.outstanding + 2 = s.registry.outstanding := by
  intro owner s
  have hfirst : Run [.registered ⟨1⟩ idle] _ none := (Run.new.register idle).finish rfl
  exact ⟨(hfirst.register owner).finish rfl, List.mem_cons_self, rfl, rfl, by cbv, by cbv⟩

end Scope.Run

end PacketHost
