import PacketHost.Proofs.Interleaving
import PacketHost.Proofs.Registry.Reentrant
import PacketHost.Registry.Crowd

/-!
# Activities that race for registrations

Activities of several threads draw tokens, insert, take, count and remove in any order, and one may use the registry
between the two steps of another. `Crowd.history` lists what their turns do to registrations. Each turn makes one change
(`Crowd.remembers_turn`), so that after every schedule the registry holds what its history says, with the tokens
and callbacks that are in flight (`Crowd.remembers_run`). From this follows who obtains a callback and who panics.
-/

namespace PacketHost.Crowd

open Event Registry

/-! ## What turns do -/

/-- The tokens that are drawn and not yet inserted. -/
def enrolling (c : Crowd) : List Token := c.members.flatMap fun f => f.focus.enrolling

/-- The number of callbacks that are taken and not yet counted. -/
def uncounted (c : Crowd) : Nat := (c.members.map fun f => f.focus.uncounted).sum

/-- What the turn of an activity does to a registration. -/
def event? (c : Crowd) (index : Nat) : Option Event :=
  match c.members[index]? with
  | none => none
  | some f =>
    match f.step c.shared with
    | .running _ f' => f.event? f'
    | .finished _ => none

/-- What happens to registrations under a schedule, the latest first. -/
def history (c : Crowd) : List Nat → List Event
  | [] => []
  | index :: schedule => history (c.turn index) schedule ++ (c.event? index).toList

variable {c : Crowd} {index : Nat} {f f' : Fiber} {r : Registry Callback} {past : List Event}

theorem turn_of_running (hf : c.members[index]? = some f) (hs : f.step c.shared = .running r f') :
    c.turn index = ⟨r, c.members.set index f'⟩ := by
  apply Group.turn_of_step hf
  unfold Fiber.advance
  rw [hs]

theorem event?_of_running (hf : c.members[index]? = some f) (hs : f.step c.shared = .running r f') :
    c.event? index = f.event? f' := by
  unfold event?
  simp only [hf, hs]

theorem turn_cases (c : Crowd) (index : Nat) :
    (c.turn index = c ∧ c.event? index = none) ∨
    ∃ f r f', c.members[index]? = some f ∧ f.step c.shared = .running r f' ∧
      c.turn index = ⟨r, c.members.set index f'⟩ ∧ c.event? index = f.event? f' := by
  cases hf : c.members[index]? with
  | none =>
      left
      unfold turn Group.turn event?
      simp only [hf, and_self]
  | some f =>
      cases hs : f.step c.shared with
      | running r f' => exact .inr ⟨f, r, f', rfl, hs, turn_of_running hf hs, event?_of_running hf hs⟩
      | finished exit =>
          left
          unfold turn Group.turn event? Fiber.advance
          simp only [hf, hs, and_self]

/-- A turn changes what one activity has in flight, and leaves what the others have. -/
theorem turn_change (hf : c.members[index]? = some f) (hs : f.step c.shared = .running r f') :
    ∃ others m, c.enrolling.Perm (f.focus.enrolling ++ others) ∧ c.uncounted = m + f.focus.uncounted ∧
      (c.turn index).enrolling.Perm (f'.focus.enrolling ++ others) ∧
      (c.turn index).uncounted = m + f'.focus.uncounted := by
  obtain ⟨others, hperm, hset⟩ := Group.exists_others hf
  refine ⟨others.flatMap fun f => f.focus.enrolling, (others.map fun f => f.focus.uncounted).sum, ?_, ?_, ?_, ?_⟩
  · exact hperm.flatMap_right _
  · rw [uncounted, (hperm.map _).sum_eq, List.map_cons, List.sum_cons, Nat.add_comm]
  · rw [turn_of_running hf hs]
    exact (hset f').flatMap_right _
  · rw [turn_of_running hf hs, uncounted, ((hset f').map _).sum_eq, List.map_cons, List.sum_cons, Nat.add_comm]

theorem drawn_turn_le (c : Crowd) (index : Nat) (past : List Event) :
    (registrations past).length + c.enrolling.length ≤
      (registrations ((c.event? index).toList ++ past)).length + (c.turn index).enrolling.length := by
  rcases turn_cases c index with ⟨hturn, hevent⟩ | ⟨f, r, f', hf, hs, -, hevent⟩
  · rw [hturn, hevent]
    exact Nat.le_refl _
  · obtain ⟨others, m, hbefore, -, hafter, -⟩ := turn_change hf hs
    have hle : (registrations past).length + f.focus.enrolling.length ≤
        (registrations ((f.event? f').toList ++ past)).length + f'.focus.enrolling.length :=
      (Fiber.change_of_step hs).le
    rw [hevent, hbefore.length_eq, hafter.length_eq, List.length_append, List.length_append]
    omega

theorem remembers_turn (h : Remembers past c.enrolling c.uncounted c.shared)
    (hwords : (registrations ((c.event? index).toList ++ past)).length + (c.turn index).enrolling.length < Word.limit) :
    Remembers ((c.event? index).toList ++ past) (c.turn index).enrolling (c.turn index).uncounted
      (c.turn index).shared := by
  rcases turn_cases c index with ⟨hturn, hevent⟩ | ⟨f, r, f', hf, hs, hturn, hevent⟩
  · rw [hturn, hevent]
    exact h
  · obtain ⟨others, m, hbefore, hcount, hafter, hcount'⟩ := turn_change hf hs
    rw [hevent, hafter.length_eq] at hwords
    rw [hcount] at h
    have hchange := (h.of_perm hbefore).change (Fiber.change_of_step hs) hwords
    rw [hcount', hevent, hturn]
    rw [hturn] at hafter
    exact hchange.of_perm hafter.symm

/-! ## Whole schedules -/

theorem run_cons (c : Crowd) (index : Nat) (schedule : List Nat) :
    c.run (index :: schedule) = (c.turn index).run schedule := rfl

theorem history_append (c : Crowd) (schedule later : List Nat) :
    c.history (schedule ++ later) = (c.run schedule).history later ++ c.history schedule := by
  induction schedule generalizing c with
  | nil => exact (List.append_nil _).symm
  | cons index schedule ih =>
      change (c.turn index).history (schedule ++ later) ++ _ = _
      rw [ih, List.append_assoc]
      rfl

theorem history_concat (c : Crowd) (schedule : List Nat) (index : Nat) :
    c.history (schedule ++ [index]) = ((c.run schedule).event? index).toList ++ c.history schedule :=
  history_append c schedule [index]

theorem drawn_run_le (c : Crowd) (schedule : List Nat) (past : List Event) :
    (registrations past).length + c.enrolling.length ≤
      (registrations (c.history schedule ++ past)).length + (c.run schedule).enrolling.length := by
  induction schedule generalizing c past with
  | nil => exact Nat.le_refl _
  | cons index schedule ih =>
      refine Nat.le_trans (drawn_turn_le c index past) ?_
      rw [history, run_cons, List.append_assoc]
      exact ih (c.turn index) _

/-- The induction is on the schedule; tokens only become more, so that they are words at each point before the end. -/
theorem remembers_run (h : Remembers past c.enrolling c.uncounted c.shared) (schedule : List Nat)
    (hwords : (registrations (c.history schedule ++ past)).length + (c.run schedule).enrolling.length < Word.limit) :
    Remembers (c.history schedule ++ past) (c.run schedule).enrolling (c.run schedule).uncounted
      (c.run schedule).shared := by
  induction schedule generalizing c past with
  | nil => exact h
  | cons index schedule ih =>
      rw [history, run_cons, List.append_assoc] at hwords ⊢
      have hturn := remembers_turn h (Nat.lt_of_le_of_lt (drawn_run_le (c.turn index) schedule _) hwords)
      exact ih hturn hwords

theorem remembers_start (actions : List Action) :
    Remembers [] (start actions).enrolling (start actions).uncounted (start actions).shared := by
  have henrolling : (start actions).enrolling = [] := by
    refine List.flatMap_eq_nil_iff.mpr fun f hf => ?_
    obtain ⟨a, -, rfl⟩ := List.mem_map.mp hf
    rfl
  have huncounted : (start actions).uncounted = 0 := by
    refine List.sum_eq_zero fun n hn => ?_
    obtain ⟨f, hf, rfl⟩ := List.mem_map.mp hn
    obtain ⟨a, -, rfl⟩ := List.mem_map.mp hf
    rfl
  rw [henrolling, huncounted]
  exact Remembers.empty

/-! ## One activity among others -/

theorem eq_of_no_turn (h : Fiber.advance r f = none) : ∃ exit, f = ⟨.leave exit, [], []⟩ := by
  unfold Fiber.advance at h
  cases hs : f.step r with
  | running r' f' =>
      rw [hs] at h
      cases h
  | finished exit => exact ⟨exit, Fiber.eq_of_finished hs⟩

section

variable {a : Action} {t : Token} {size : Nat} {next : Resumption}

theorem turn_invocation (hf : c.members[index]? = some f) (hfocus : f.focus = .act a)
    (ha : a.invocation? = some (t, size, next))
    (hs : Fiber.stepInvoke c.shared f.held f.waiting t size next = .running r f') :
    c.turn index = ⟨r, c.members.set index f'⟩ ∧ c.event? index = f'.focus.begun? t := by
  have hstep : f.step c.shared = .running r f' := (Fiber.step_invocation hfocus ha).trans hs
  have hevent : f.event? f' = f'.focus.begun? t := by
    unfold Fiber.event?
    simp only [hfocus]
    cases a with
    | invoke u n k =>
        cases ha
        rfl
    | attempt u n k =>
        cases ha
        rfl
    | _ => cases ha
  exact ⟨turn_of_running hf hstep, (event?_of_running hf hstep).trans hevent⟩

theorem turn_unregister {answer : Bool → Action} (hf : c.members[index]? = some f)
    (hfocus : f.focus = .act (.unregister t answer)) :
    c.turn index = ⟨c.shared.erase t,
        c.members.set index { f with focus := .shedding (answer (c.shared.contains t)) (c.shared.guards t) }⟩ ∧
      c.event? index = some (.removed t) := by
  obtain ⟨focus, held, waiting⟩ := f
  cases hfocus
  exact ⟨turn_of_running hf rfl, event?_of_running hf rfl⟩

/-- An invocation obtains the callback of a live token that has not begun, and panics otherwise. -/
theorem invocation_cases (h : Remembers past c.enrolling c.uncounted c.shared) (hf : c.members[index]? = some f)
    (hfocus : f.focus = .act a) (ha : a.invocation? = some (t, size, next)) :
    (t ∉ live past ∧ c.event? index = none ∧ c.turn index =
      ⟨c.shared, c.members.set index ⟨next.after (.panicked (unregisteredText t)), f.held, f.waiting⟩⟩) ∨
    (t ∈ live past ∧ t ∈ begunTokens past ∧ c.event? index = none ∧ c.turn index =
      ⟨c.shared, c.members.set index ⟨next.after (.panicked (consumedText t)), f.held, f.waiting⟩⟩) ∨
    ∃ callback, t ∈ live past ∧ t ∉ begunTokens past ∧ (t, callback) ∈ registrations past ∧
      c.event? index = some (.begun t callback size) ∧ c.turn index =
        ⟨c.shared.disarm t,
          c.members.set index ⟨.begin callback size, callback.guards, ⟨f.held, next⟩ :: f.waiting⟩⟩ := by
  have hslot := h.slots t
  rcases h.distinct.slot_cases t with
    ⟨hdead, hs⟩ | ⟨hlive, hbegun, hs⟩ | ⟨callback, hlive, hnot, hmem, hs⟩
  · obtain ⟨hturn, hevent⟩ := turn_invocation hf hfocus ha (Fiber.stepInvoke_of_none (hslot.trans hs))
    exact .inl ⟨hdead, hevent.trans (Focus.begun?_after ..), hturn⟩
  · obtain ⟨hturn, hevent⟩ := turn_invocation hf hfocus ha (Fiber.stepInvoke_of_taken (hslot.trans hs))
    exact .inr (.inl ⟨hlive, hbegun, hevent.trans (Focus.begun?_after ..), hturn⟩)
  · obtain ⟨hturn, hevent⟩ := turn_invocation hf hfocus ha (Fiber.stepInvoke_of_some (hslot.trans hs))
    exact .inr (.inr ⟨callback, hlive, hnot, hmem, hevent, hturn⟩)

end

/-- Whatever the others do meanwhile, a callback that is taken runs at the next turn of the activity that took it. -/
theorem turn_begin {callback : Callback} {size : Nat} (hf : c.members[index]? = some f)
    (hfocus : f.focus = .begin callback size) {others : List Nat} (hothers : index ∉ others) :
    ((c.run others).turn index).members[index]? = some { f with focus := .act (callback size) } := by
  have hsame : (c.run others).members[index]? = some f := (Group.getElem?_run_of_not_mem c hothers).trans hf
  have hstep : f.step (c.run others).shared =
      .running (c.run others).shared.count { f with focus := .act (callback size) } := by
    obtain ⟨focus, held, waiting⟩ := f
    cases hfocus
    rfl
  rw [turn_of_running hsame hstep]
  exact List.getElem?_set_self (List.getElem?_eq_some_iff.mp hsame).1

/-- Activities that race for registrations under any schedule. A callback is obtained once at most, by an invocation
that finds its token registered, and a registration is removed once at most; an invocation that obtains nothing panics,
in the one way or the other. The counter lags behind by the callbacks that are taken and not yet counted. No turn of
others changes an activity or keeps it from its next step, whatever registration they remove. -/
theorem one_shot (actions : List Action) (schedule : List Nat) :
    let c := (start actions).run schedule
    let past := (start actions).history schedule
    (registrations past).length + c.enrolling.length < Word.limit →
    (begunTokens past).Nodup ∧ (removedTokens past).Nodup ∧
    c.shared.invocations + c.uncounted = (begunTokens past).length ∧
    ∀ i f, c.members[i]? = some f →
      let past' := (start actions).history (schedule ++ [i])
      (∀ a t size next, f.focus = .act a → a.invocation? = some (t, size, next) →
        (t ∈ registeredTokens past → t ∉ removedTokens past → t ∉ begunTokens past →
          ∃ callback, (t, callback) ∈ registrations past ∧ begunTokens past' = t :: begunTokens past ∧
            c.turn i = ⟨c.shared.disarm t,
              c.members.set i ⟨.begin callback size, callback.guards, ⟨f.held, next⟩ :: f.waiting⟩⟩) ∧
        (t ∈ registeredTokens past → t ∉ removedTokens past → t ∈ begunTokens past →
          begunTokens past' = begunTokens past ∧
          c.turn i = ⟨c.shared, c.members.set i ⟨next.after (.panicked (consumedText t)), f.held, f.waiting⟩⟩) ∧
        (t ∉ registeredTokens past ∨ t ∈ removedTokens past → begunTokens past' = begunTokens past ∧
          c.turn i = ⟨c.shared, c.members.set i ⟨next.after (.panicked (unregisteredText t)), f.held, f.waiting⟩⟩)) ∧
      (∀ t answer, f.focus = .act (.unregister t answer) → ∃ found : Bool,
        (found = true ↔ t ∈ registeredTokens past ∧ t ∉ removedTokens past) ∧
        removedTokens past' = (if found then [t] else []) ++ removedTokens past ∧
        c.turn i = ⟨c.shared.erase t,
          c.members.set i { f with focus := .shedding (answer found) (c.shared.guards t) }⟩) ∧
      (∀ callback size, f.focus = .begin callback size → ∀ others, i ∉ others →
        ((c.run others).turn i).members[i]? = some { f with focus := .act (callback size) }) ∧
      (∀ others, i ∉ others → (c.run others).members[i]? = some f) ∧
      (∀ r, Fiber.advance r f = none → ∃ exit, f = ⟨.leave exit, [], []⟩) := by
  intro c past hwords
  have hkeeps : Remembers past c.enrolling c.uncounted c.shared := by
    have hrun := remembers_run (remembers_start actions) schedule (by rw [List.append_nil]; exact hwords)
    rw [List.append_nil] at hrun
    exact hrun
  have hdistinct := hkeeps.distinct
  refine ⟨hdistinct.nodup_begun, hdistinct.nodup_removed, hkeeps.invocations, fun i f hf => ?_⟩
  intro past'
  have hpast : past' = (c.event? i).toList ++ past := history_concat (start actions) schedule i
  refine ⟨fun a t size next hfocus ha => ?_, fun t answer hfocus => ?_, fun callback size hfocus others hothers => ?_,
    fun others hothers => ?_, fun r => eq_of_no_turn⟩
  · have hlive : t ∈ live past ↔ t ∈ registeredTokens past ∧ t ∉ removedTokens past := hdistinct.mem_live_iff
    rw [hpast]
    rcases invocation_cases hkeeps hf hfocus ha with
      ⟨hdead, hevent, hturn⟩ | ⟨hthere, hbegun, hevent, hturn⟩ | ⟨callback, hthere, hnot, hmem, hevent, hturn⟩
    · rw [hevent]
      exact ⟨fun hr hn => absurd (hlive.mpr ⟨hr, hn⟩) hdead, fun hr hn => absurd (hlive.mpr ⟨hr, hn⟩) hdead,
        fun _ => ⟨rfl, hturn⟩⟩
    · rw [hevent]
      obtain ⟨hregistered, hkept⟩ := hlive.mp hthere
      exact ⟨fun _ _ hnot => absurd hbegun hnot, fun _ _ _ => ⟨rfl, hturn⟩,
        fun hgone => (hgone.elim (absurd hregistered) hkept).elim⟩
    · rw [hevent]
      obtain ⟨hregistered, hkept⟩ := hlive.mp hthere
      exact ⟨fun _ _ _ => ⟨callback, hmem, rfl, hturn⟩, fun _ _ hbegun => absurd hbegun hnot,
        fun hgone => (hgone.elim (absurd hregistered) hkept).elim⟩
  · obtain ⟨hturn, hevent⟩ := turn_unregister hf hfocus
    have hfound := hkeeps.contains_iff t
    refine ⟨c.shared.contains t, hfound.trans hdistinct.mem_live_iff, ?_, hturn⟩
    rw [hpast, hevent]
    change removedTokens (.removed t :: past) = _
    rw [removedTokens]
    by_cases hthere : t ∈ live past
    · rw [if_pos hthere, if_pos (hfound.mpr hthere)]
      rfl
    · rw [if_neg hthere, if_neg (mt hfound.mp hthere)]
      rfl
  · exact turn_begin hf hfocus hothers
  · exact (Group.getElem?_run_of_not_mem c hothers).trans hf

/-- One activity registers a callback and takes it, a second one removes the registration before the invocation is
counted, and a third one then finds nothing to invoke. The callback runs all the same. -/
theorem one_shot_removed_in_flight :
    let callback : Callback := { run := fun _ => .done (.ok .null) }
    let c := (start [.register callback fun t => .invoke t 5 .done, .unregister ⟨1⟩ fun _ => .done (.ok .null),
      .invoke ⟨1⟩ 7 .done]).run [0, 0, 0, 1]
    c.shared.invocations + 1 = 1 ∧
    (∀ others, 0 ∉ others → ∃ f, ((c.run others).turn 0).members[0]? = some f ∧ f.focus = .act (callback 5)) ∧
    c.turn 2 = ⟨c.shared, c.members.set 2 ⟨.leave (.panicked (unregisteredText ⟨1⟩)), [], []⟩⟩ := by
  intro callback c
  obtain ⟨-, -, hcount, hmembers⟩ :=
    one_shot [.register callback fun t => .invoke t 5 .done, .unregister ⟨1⟩ fun _ => .done (.ok .null),
      .invoke ⟨1⟩ 7 .done] [0, 0, 0, 1] (by decide)
  obtain ⟨-, -, hbegin, -⟩ := hmembers 0 _ rfl
  obtain ⟨hlookup, -⟩ := hmembers 2 _ rfl
  obtain ⟨-, -, hgone⟩ := hlookup _ _ _ _ rfl rfl
  exact ⟨hcount, fun others hothers => ⟨_, hbegin _ _ rfl others hothers, rfl⟩, (hgone (.inr (by decide))).2⟩

end PacketHost.Crowd
