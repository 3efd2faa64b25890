import PacketHost.Proofs.Registry.Events
import PacketHost.Proofs.Registry.History
import PacketHost.Registry.Scope

/-!
# Callbacks that use their registry

`Scope.Run` is what a user of a registry and the callbacks that it invokes can come to, step by step, with what
happened to registrations on the way. Every step of an activity makes one change to the registry, and the event
read off the activity says which (`Fiber.change_of_step`). So the registry always holds what its past says
(`Kept`), at every point of every nested callback and on every way out of it.
-/

namespace PacketHost

open Event

/-! ## Events of a step -/

/-- The token and the size of an invocation, and how the activity goes on after it. -/
def Action.invocation? : Action → Option (Token × Nat × Resumption)
  | .invoke t size next => some (t, size, .passing next)
  | .attempt t size next => some (t, size, .catching next)
  | _ => none

namespace Focus

/-- The token that is drawn and whose callback is not yet inserted. -/
def enrolling : Focus → List Token
  | .enroll t _ _ => [t]
  | _ => []

/-- The number of callbacks that are taken and not yet counted. -/
def uncounted : Focus → Nat
  | .begin _ _ => 1
  | _ => 0

def begun? (t : Token) : Focus → Option Event
  | .begin callback size => some (.begun t callback size)
  | _ => none

@[simp] theorem enrolling_after (next : Resumption) (exit : Exit) : (next.after exit).enrolling = [] := by
  cases next with
  | passing next =>
      cases exit with
      | returned result => rfl
      | panicked text => rfl
  | catching next => rfl

@[simp] theorem uncounted_after (next : Resumption) (exit : Exit) : (next.after exit).uncounted = 0 := by
  cases next with
  | passing next =>
      cases exit with
      | returned result => rfl
      | panicked text => rfl
  | catching next => rfl

@[simp] theorem begun?_after (t : Token) (next : Resumption) (exit : Exit) : (next.after exit).begun? t = none := by
  cases next with
  | passing next =>
      cases exit with
      | returned result => rfl
      | panicked text => rfl
  | catching next => rfl

@[simp] theorem enrolling_shedding (next : Action) (guards : List Token) : (shedding next guards).enrolling = [] := by
  cases guards with
  | nil => rfl
  | cons t others => rfl

@[simp] theorem uncounted_shedding (next : Action) (guards : List Token) : (shedding next guards).uncounted = 0 := by
  cases guards with
  | nil => rfl
  | cons t others => rfl

end Focus

/-- What an action does to a registration, given the guards held and what follows. -/
def Action.event? (held : List Token) (following : Focus) : Action → Option Event
  | .drop t _ => if t ∈ held then some (.removed t) else none
  | .unregister t _ => some (.removed t)
  | .invoke t _ _ => following.begun? t
  | .attempt t _ _ => following.begun? t
  | _ => none

/-- What a step from one state of an activity to the next does to a registration. -/
def Fiber.event? (f f' : Fiber) : Option Event :=
  match f.focus with
  | .act a => a.event? f.held f'.focus
  | .enroll t callback _ => some (.registered t callback)
  | .begin _ _ => none
  | .shed t _ _ => some (.removed t)
  | .leave _ => f.held.head?.map .removed

/-! ## Runs -/

/-- What a user of a new registry comes to, and the activity in progress: the user registers, drops guards and performs
activities, of which one is to unregister, and sees an activity that panics end like any other. A registration is over
when the guards of a callback that it replaces are dropped. -/
inductive Scope.Run : List Event → Scope → Option Fiber → Prop where
  | new : Run [] {} none
  | register {past : List Event} {s : Scope} (h : Run past s none) (callback : Callback) :
    Run (.registered s.registry.draw.1 (callback.owning s.held) :: past)
      ⟨(s.registry.register (callback.owning s.held)).2, s.registry.draw.1 :: callback.leaving s.held⟩
      (some (.dropping (s.registry.guards s.registry.draw.1)))
  | drop {past : List Event} {s : Scope} (h : Run past s none) {t : Token} (ht : t ∈ s.held) :
    Run past { s with held := s.held.erase t } (some (.dropping [t]))
  | perform {past : List Event} {s : Scope} (h : Run past s none) (a : Action) : Run past s (some (.start a))
  | step {past : List Event} {s : Scope} {f f' : Fiber} {r : Registry Callback} (h : Run past s (some f))
    (hstep : f.step s.registry = .running r f') :
    Run ((f.event? f').toList ++ past) { s with registry := r } (some f')
  | finish {past : List Event} {s : Scope} {f : Fiber} {exit : Exit} (h : Run past s (some f))
    (hstep : f.step s.registry = .finished exit) : Run past s none

/-- A token that is drawn and whose callback is not yet inserted by the activity in progress. -/
def Fiber.enrolling : Option Fiber → List Token
  | none => []
  | some f => f.focus.enrolling

/-- The number of callbacks that the activity in progress has taken and not yet counted. -/
def Fiber.uncounted : Option Fiber → Nat
  | none => 0
  | some f => f.focus.uncounted

/-! ## Changes -/

namespace Registry

variable {r r' : Registry Callback}

/-- The changes to a registry within one activity, between tokens drawn and not inserted and callbacks taken and
not counted, with the event of each. -/
inductive Change (r : Registry Callback) :
    List Token → Nat → Option Event → Registry Callback → List Token → Nat → Prop where
  | stay : Change r [] 0 none r [] 0
  | draw : Change r [] 0 none r.draw.2 [r.draw.1] 0
  | insert (t : Token) (callback : Callback) :
    Change r [t] 0 (some (.registered t callback)) (r.insert t callback) [] 0
  | take {t : Token} {callback : Callback} (ht : r.slot? t = some (some callback)) (size : Nat) :
    Change r [] 0 (some (.begun t callback size)) (r.disarm t) [] 1
  | count : Change r [] 1 none r.count [] 0
  | remove (t : Token) : Change r [] 0 (some (.removed t)) (r.erase t) [] 0

variable {past : List Event} {free free' : List Token} {n n' : Nat} {e : Option Event}

theorem Change.le (h : Change r free n e r' free' n') :
    (registrations past).length + free.length ≤ (registrations (e.toList ++ past)).length + free'.length := by
  cases h with
  | stay => exact Nat.le_refl _
  | draw => exact Nat.le_succ _
  | insert t callback => exact Nat.le_refl _
  | take ht size => exact Nat.le_refl _
  | count => exact Nat.le_refl _
  | remove t => exact Nat.le_refl _

/-- Each change does to the slots what its event says. -/
theorem Change.slot?_eq (h : Change r free n e r' free' n') (hslots : ∀ t, r.slot? t = slot past t) (t : Token) :
    r'.slot? t = slot (e.toList ++ past) t := by
  cases h with
  | stay => exact hslots t
  | draw => exact hslots t
  | insert u callback =>
      rw [slot?_insert, hslots]
      rfl
  | take hu size =>
      rw [slot?_disarm, hslots, hslots]
      rfl
  | count => exact hslots t
  | remove u =>
      rw [slot?_erase, hslots]
      rfl

/-- What a registry has kept of its past, whoever has drawn the tokens that are not yet inserted and taken the
callbacks that are not yet counted. -/
structure Remembers (past : List Event) (free : List Token) (uncounted : Nat) (r : Registry Callback) : Prop where
  accounted : Accounted ((registrations past).length + free.length) free uncounted r
  drawn : ∀ t ∈ registeredTokens past, t.id ≤ (registrations past).length + free.length
  fresh : ∀ t ∈ free, t ∉ registeredTokens past
  slots : ∀ t, r.slot? t = slot past t
  distinct : Distinct past
  invocations : r.invocations + uncounted = (begunTokens past).length

namespace Remembers

theorem empty : Remembers [] [] 0 {} :=
  ⟨⟨sound_empty, drawn_empty, nofun, .nil, Nat.le_refl 0⟩, nofun, nofun, fun _ => rfl, .nil, rfl⟩

theorem contains_iff (h : Remembers past free n r) (t : Token) : r.contains t = true ↔ t ∈ live past := by
  unfold contains
  rw [h.slots]
  exact isSome_slot_iff past t

theorem of_perm (h : Remembers past free n r) (hp : free.Perm free') : Remembers past free' n r := by
  obtain ⟨⟨hsound, hdrawn, habsent, hnodup, hcallbacks⟩, hids, hfresh, hslots, hdistinct, hinvocations⟩ := h
  rw [hp.length_eq] at hdrawn habsent hids hcallbacks
  refine ⟨⟨hsound, hdrawn, fun t ht => ?_, hp.nodup_iff.mp hnodup, ?_⟩, hids, fun t ht => ?_, hslots, hdistinct,
    hinvocations⟩
  · exact habsent t (hp.mem_iff.mpr ht)
  · rw [← hp.length_eq] at hcallbacks ⊢
    exact hcallbacks
  · exact hfresh t (hp.mem_iff.mpr ht)

/-- Each change is what its event says, as long as tokens are words. Tokens that others have drawn and callbacks that
others have taken stay as they are. -/
theorem change {others : List Token} {m : Nat} (h : Remembers past (free ++ others) (m + n) r)
    (hc : Change r free n e r' free' n')
    (hwords : (registrations (e.toList ++ past)).length + (free' ++ others).length < Word.limit) :
    Remembers (e.toList ++ past) (free' ++ others) (m + n') r' := by
  obtain ⟨haccounted, hdrawn, hfresh, hslots, hdistinct, hinvocations⟩ := h
  have hslots' := hc.slot?_eq hslots
  cases hc with
  | stay => exact ⟨haccounted, hdrawn, hfresh, hslots, hdistinct, hinvocations⟩
  | draw =>
      change (registrations past).length + others.length + 1 < Word.limit at hwords
      have hid : r.draw.1.id = (registrations past).length + others.length + 1 := by
        have heq := haccounted.sound.next_eq (by rw [haccounted.drawn]; exact hwords)
        rw [haccounted.drawn] at heq
        exact heq
      refine ⟨haccounted.draw hwords, fun t ht => Nat.le_succ_of_le (hdrawn t ht), fun t ht hmem => ?_, hslots,
        hdistinct, hinvocations⟩
      rcases List.mem_cons.mp ht with rfl | ht
      · have hle : r.draw.1.id ≤ (registrations past).length + others.length := hdrawn _ hmem
        omega
      · exact hfresh t ht hmem
  | insert t callback =>
      have hlength : (registrations past).length + 1 + others.length =
          (registrations past).length + ([t] ++ others).length := by
        rw [List.length_append, List.length_singleton]
        omega
      have hinsert := haccounted.insert List.mem_cons_self callback
      rw [List.singleton_append, List.erase_cons_head, ← List.singleton_append, ← hlength] at hinsert
      have hid := (haccounted.absent t List.mem_cons_self).1
      have hnew := hfresh t List.mem_cons_self
      refine ⟨hinsert, fun u hu => ?_, fun u hu => ?_, hslots', .registered hdistinct hnew callback, hinvocations⟩
      · change u.id ≤ (registrations past).length + 1 + others.length
        rw [hlength]
        rcases List.mem_cons.mp hu with rfl | hu
        · exact hid
        · exact hdrawn u hu
      · intro hmem
        rcases List.mem_cons.mp hmem with rfl | hmem
        · exact (List.nodup_cons.mp haccounted.nodup).1 hu
        · exact hfresh u (List.mem_cons_of_mem _ hu) hmem
  | take ht size =>
      have htake := haccounted.take ht
      rw [take_of_some ht] at htake
      exact ⟨htake, hdrawn, hfresh, hslots', .begun hdistinct (by rw [← hslots, ht]) size,
        congrArg (· + 1) hinvocations⟩
  | count =>
      have hcallbacks := haccounted.callbacks
      refine ⟨haccounted.count hwords, hdrawn, hfresh, hslots, hdistinct, ?_⟩
      change (registrations past).length + others.length < Word.limit at hwords
      rw [List.nil_append] at hcallbacks
      rw [invocations_count (by omega)]
      exact (Nat.succ_add r.invocations m).trans hinvocations
  | remove t => exact ⟨haccounted.erase t, hdrawn, hfresh, hslots', .removed hdistinct t, hinvocations⟩

end Remembers

/-- What a registry has kept of its past. -/
structure Kept (past : List Event) (free : List Token) (uncounted : Nat) (r : Registry Callback) : Prop where
  accounted : Accounted ((registrations past).length + free.length) free uncounted r
  next : ∀ t ∈ free, t.id = (registrations past).length + 1
  slots : ∀ t, r.slot? t = slot past t
  orderly : Orderly past
  invocations : r.invocations + uncounted = (begunTokens past).length

theorem kept_new : Kept [] [] 0 {} := ⟨Remembers.empty.accounted, nofun, fun _ => rfl, .nil, rfl⟩

theorem Kept.remembers (h : Kept past free n r) : Remembers past free n r := by
  refine ⟨h.accounted, fun t ht => ?_, fun t ht hmem => ?_, h.slots, h.orderly.distinct, h.invocations⟩
  · exact Nat.le_trans (h.orderly.id_le_of_registered ht) (Nat.le_add_right _ _)
  · have hle := h.orderly.id_le_of_registered hmem
    rw [h.next t ht] at hle
    exact Nat.not_succ_le_self _ hle

/-- Each change is what its event says, as long as tokens are words. -/
theorem Kept.change (h : Kept past free n r) (hc : Change r free n e r' free' n')
    (hwords : (registrations (e.toList ++ past)).length + free'.length < Word.limit) :
    Kept (e.toList ++ past) free' n' r' := by
  have hstart : Remembers past (free ++ []) (0 + n) r := by
    rw [List.append_nil, Nat.zero_add]
    exact h.remembers
  have hend := hstart.change hc (by rw [List.append_nil]; exact hwords)
  rw [List.append_nil, Nat.zero_add] at hend
  refine ⟨hend.accounted, ?_, hend.slots, ?_, hend.invocations⟩
  · cases hc with
    | stay => exact nofun
    | draw =>
        have hdrawn := h.accounted.drawn
        intro t ht
        obtain rfl := List.mem_singleton.mp ht
        change (registrations past).length + 1 < Word.limit at hwords
        change r.next = _
        rw [h.accounted.sound.next_eq (by rw [hdrawn]; exact hwords), hdrawn]
        rfl
    | insert t callback => exact nofun
    | take ht size => exact nofun
    | count => exact nofun
    | remove t => exact nofun
  · cases hc with
    | stay => exact h.orderly
    | draw => exact h.orderly
    | insert t callback => exact .registered h.orderly (h.next t List.mem_cons_self) callback
    | take ht size => exact .begun h.orderly (by rw [← h.slots, ht]) size
    | count => exact h.orderly
    | remove t => exact .removed h.orderly t

namespace Kept

theorem contains_iff (h : Kept past free n r) (t : Token) : r.contains t = true ↔ t ∈ live past :=
  h.remembers.contains_iff t

theorem outstanding_eq (h : Kept past free n r) : r.outstanding = (live past).length := by
  have hperm : r.tokens.Perm (live past) := by
    refine (List.perm_ext_iff_of_nodup h.accounted.sound.nodup h.orderly.nodup_live).mpr fun t => ?_
    rw [← h.contains_iff, contains, Option.isSome_iff_ne_none, ne_eq, slot?_eq_none_iff, not_not]
  rw [outstanding_eq_length]
  exact hperm.length_eq

end Kept

end Registry

/-! ## Steps -/

namespace Fiber

open Registry

variable {r r' : Registry Callback} {f f' : Fiber}

section

variable {held : List Token} {waiting : List Frame} {t : Token} {size : Nat} {next : Resumption}

theorem stepInvoke_of_none (h : r.slot? t = none) : stepInvoke r held waiting t size next =
    .running r ⟨next.after (.panicked (unregisteredText t)), held, waiting⟩ := by
  unfold stepInvoke take
  rw [h]

theorem stepInvoke_of_taken (h : r.slot? t = some none) : stepInvoke r held waiting t size next =
    .running r ⟨next.after (.panicked (consumedText t)), held, waiting⟩ := by
  unfold stepInvoke
  rw [take_of_taken h]

theorem stepInvoke_of_some {callback : Callback} (h : r.slot? t = some (some callback)) :
    stepInvoke r held waiting t size next =
      .running (r.disarm t) ⟨.begin callback size, callback.guards, ⟨held, next⟩ :: waiting⟩ := by
  unfold stepInvoke
  rw [take_of_some h]

end

/-- An invocation takes a callback that is in its slot, and panics otherwise. -/
theorem stepInvoke_cases (r : Registry Callback) (held : List Token) (waiting : List Frame) (t : Token) (size : Nat)
    (next : Resumption) :
    (∃ text, stepInvoke r held waiting t size next =
      .running r ⟨next.after (.panicked text), held, waiting⟩) ∨
    ∃ callback, r.slot? t = some (some callback) ∧ stepInvoke r held waiting t size next =
      .running (r.disarm t) ⟨.begin callback size, callback.guards, ⟨held, next⟩ :: waiting⟩ := by
  cases ht : r.slot? t with
  | none => exact .inl ⟨_, stepInvoke_of_none ht⟩
  | some c =>
      cases c with
      | none => exact .inl ⟨_, stepInvoke_of_taken ht⟩
      | some callback => exact .inr ⟨callback, rfl, stepInvoke_of_some ht⟩

theorem step_invocation {a : Action} {t : Token} {size : Nat} {next : Resumption} (hf : f.focus = .act a)
    (ha : a.invocation? = some (t, size, next)) : f.step r = stepInvoke r f.held f.waiting t size next := by
  obtain ⟨focus, held, waiting⟩ := f
  cases hf
  cases a with
  | invoke u n k =>
      cases ha
      rfl
  | attempt u n k =>
      cases ha
      rfl
  | _ => cases ha

theorem change_of_stepInvoke {held : List Token} {waiting : List Frame} {t : Token} {size : Nat} {next : Resumption}
    (h : stepInvoke r held waiting t size next = .running r' f') :
    Change r [] 0 (f'.focus.begun? t) r' f'.focus.enrolling f'.focus.uncounted := by
  rcases stepInvoke_cases r held waiting t size next with ⟨text, hs⟩ | ⟨callback, ht, hs⟩
  · rw [hs] at h
    cases h
    simpa using .stay
  · rw [hs] at h
    cases h
    exact .take ht size

theorem change_of_stepAction {held : List Token} {waiting : List Frame} {a : Action}
    (h : stepAction r held waiting a = .running r' f') :
    Change r [] 0 (a.event? held f'.focus) r' f'.focus.enrolling f'.focus.uncounted := by
  cases a with
  | done result =>
      cases h
      exact .stay
  | panic text =>
      cases h
      exact .stay
  | outstanding next =>
      cases h
      exact .stay
  | register run next guards =>
      cases h
      exact .draw
  | drop t next =>
      simp only [stepAction] at h
      by_cases ht : t ∈ held
      · rw [if_pos ht] at h
        cases h
        rw [Action.event?, if_pos ht, Focus.enrolling_shedding, Focus.uncounted_shedding]
        exact .remove t
      · rw [if_neg ht] at h
        cases h
        rw [Action.event?, if_neg ht]
        exact .stay
  | keep t next =>
      cases h
      exact .stay
  | unregister t next =>
      cases h
      rw [Focus.enrolling_shedding, Focus.uncounted_shedding]
      exact .remove t
  | invoke t size next => exact change_of_stepInvoke h
  | attempt t size next => exact change_of_stepInvoke h

/-- A step makes the change that its event says. -/
theorem change_of_step (h : f.step r = .running r' f') :
    Change r f.focus.enrolling f.focus.uncounted (f.event? f') r' f'.focus.enrolling f'.focus.uncounted := by
  obtain ⟨focus, held, waiting⟩ := f
  cases focus with
  | act a => exact change_of_stepAction h
  | enroll t callback next =>
      cases h
      rw [Focus.enrolling_shedding, Focus.uncounted_shedding]
      exact .insert t callback
  | «begin» callback size =>
      cases h
      exact .count
  | shed t others next =>
      cases h
      rw [Focus.enrolling_shedding, Focus.uncounted_shedding]
      exact .remove t
  | leave exit =>
      cases held with
      | cons t held =>
          cases h
          exact .remove t
      | nil =>
          cases waiting with
          | nil => cases h
          | cons frame waiting =>
              cases h
              simpa [event?] using .stay

theorem stepInvoke_running (r : Registry Callback) (held : List Token) (waiting : List Frame) (t : Token)
    (size : Nat) (next : Resumption) : ∃ r' f', stepInvoke r held waiting t size next = .running r' f' := by
  rcases stepInvoke_cases r held waiting t size next with ⟨text, hs⟩ | ⟨callback, -, hs⟩
  · exact ⟨_, _, hs⟩
  · exact ⟨_, _, hs⟩

theorem stepAction_running (r : Registry Callback) (held : List Token) (waiting : List Frame) (a : Action) :
    ∃ r' f', stepAction r held waiting a = .running r' f' := by
  cases a with
  | drop t next =>
      unfold stepAction
      by_cases ht : t ∈ held
      · exact ⟨_, _, if_pos ht⟩
      · exact ⟨_, _, if_neg ht⟩
  | invoke t size next => exact stepInvoke_running r held waiting t size (.passing next)
  | attempt t size next => exact stepInvoke_running r held waiting t size (.catching next)
  | _ => exact ⟨_, _, rfl⟩

/-- An activity has no step left only when it has ended, has dropped its guards and no other waits for it. -/
theorem eq_of_finished {exit : Exit} (h : f.step r = .finished exit) : f = ⟨.leave exit, [], []⟩ := by
  obtain ⟨focus, held, waiting⟩ := f
  cases focus with
  | leave e =>
      cases held with
      | cons t held => cases h
      | nil =>
          cases waiting with
          | cons frame waiting => cases h
          | nil =>
              cases h
              rfl
  | enroll t callback next => cases h
  | «begin» callback size => cases h
  | shed t others next => cases h
  | act a =>
      obtain ⟨r', f', hs⟩ := stepAction_running r held waiting a
      change stepAction r held waiting a = _ at h
      rw [hs] at h
      cases h

end Fiber

/-! ## Runs -/

namespace Scope

open Registry

variable {past : List Event} {s : Scope} {running : Option Fiber}

/-- The induction is on the run; a registration by the user is two changes in one step. -/
theorem Run.kept (h : Run past s running)
    (hwords : (registrations past).length + (Fiber.enrolling running).length < Word.limit) :
    Kept past (Fiber.enrolling running) (Fiber.uncounted running) s.registry := by
  induction h with
  | new => exact kept_new
  | register _ callback ih =>
      have hdraw := (ih (Nat.lt_of_succ_lt hwords)).change .draw hwords
      exact hdraw.change (.insert _ _) hwords
  | drop _ _ ih => exact ih hwords
  | perform _ a ih => exact ih hwords
  | step _ hstep ih =>
      have hchange := Fiber.change_of_step hstep
      exact (ih (Nat.lt_of_le_of_lt hchange.le hwords)).change hchange hwords
  | finish _ hstep ih =>
      obtain rfl := Fiber.eq_of_finished hstep
      exact ih hwords

/-- At every point of a run the registry is what its past says. Tokens are numbered in the order of registration;
those that are registered and not removed are contained; and no callback begins twice, however the callbacks that
have begun end. An invocation begins the callback of a token that is contained, unless that callback has begun. -/
theorem Run.follows_past (h : Run past s running)
    (hwords : (registrations past).length + (Fiber.enrolling running).length < Word.limit) :
    (∀ later t callback earlier, past = later ++ .registered t callback :: earlier →
      t.id = (registrations earlier).length + 1) ∧
    ((registrations past).Pairwise fun late early => early.1.id < late.1.id) ∧
    (∀ t, s.registry.contains t = true ↔ t ∈ live past) ∧
    s.registry.outstanding = (live past).length ∧
    (begunTokens past).Nodup ∧
    s.registry.invocations + Fiber.uncounted running = (begunTokens past).length ∧
    (∀ later t callback size earlier, past = later ++ .begun t callback size :: earlier →
      (t, callback) ∈ registrations earlier ∧ t ∈ live earlier ∧ t ∉ begunTokens earlier ∧
      (s.registry.contains t = true ↔ .removed t ∉ later)) ∧
    ∀ f a t size next, running = some f → f.focus = .act a → a.invocation? = some (t, size, next) →
      (t ∈ live past → t ∉ begunTokens past → ∃ callback r, (t, callback) ∈ registrations past ∧
        f.step s.registry = .running r ⟨.begin callback size, callback.guards, ⟨f.held, next⟩ :: f.waiting⟩ ∧
        Fiber.step r ⟨.begin callback size, callback.guards, ⟨f.held, next⟩ :: f.waiting⟩ =
          .running r.count ⟨.act (callback size), callback.guards, ⟨f.held, next⟩ :: f.waiting⟩ ∧
        r.count.contains t = true) ∧
      (t ∈ live past → t ∈ begunTokens past → f.step s.registry =
        .running s.registry ⟨next.after (.panicked (consumedText t)), f.held, f.waiting⟩) ∧
      (t ∉ live past → f.step s.registry =
        .running s.registry ⟨next.after (.panicked (unregisteredText t)), f.held, f.waiting⟩) := by
  have hkept := h.kept hwords
  have horderly := hkept.orderly
  refine ⟨?_, horderly.ordered, hkept.contains_iff, hkept.outstanding_eq, horderly.nodup_begun, hkept.invocations,
    ?_, ?_⟩
  · rintro later t callback earlier rfl
    exact horderly.id_of_registered
  · rintro later t callback size earlier rfl
    have hslot := horderly.slot_of_begun
    have hlive : t ∈ live earlier := (isSome_slot_iff earlier t).mp (by rw [hslot]; rfl)
    refine ⟨mem_registrations_of_slot hslot, hlive, horderly.of_append.tail.not_begun hslot, ?_⟩
    rw [hkept.contains_iff]
    exact horderly.live_append_iff hlive
  · intro f a t size next hrunning hfocus hinvocation
    rw [Fiber.step_invocation hfocus hinvocation]
    have hkeeps := hkept.slots t
    rcases horderly.slot_cases t with
      ⟨hlive, hslot⟩ | ⟨hlive, hbegun, hslot⟩ | ⟨callback, hlive, hnot, hmem, hslot⟩
    · exact ⟨fun ht => absurd ht hlive, fun ht => absurd ht hlive,
        fun _ => Fiber.stepInvoke_of_none (hkeeps.trans hslot)⟩
    · exact ⟨fun _ hnot => absurd hbegun hnot, fun _ _ => Fiber.stepInvoke_of_taken (hkeeps.trans hslot),
        fun hnot => absurd hlive hnot⟩
    · refine ⟨fun _ _ => ?_, fun _ hbegun => absurd hbegun hnot, fun hnot => absurd hlive hnot⟩
      refine ⟨callback, s.registry.disarm t, hmem, Fiber.stepInvoke_of_some (hkeeps.trans hslot), rfl, ?_⟩
      rw [contains, slot?_count, slot?_disarm, if_pos rfl, hkeeps, hslot]
      rfl

/-- A callback that invokes itself once more, removes its registration and panics. -/
def selfInvoking : Callback where
  run size := .attempt ⟨1⟩ (size + 1) fun _ => .unregister ⟨1⟩ fun _ => .panic "gave up"

theorem Run.follows_past_self_invoking :
    ∃ s f, Run [.begun ⟨1⟩ selfInvoking 4, .registered ⟨1⟩ selfInvoking] s (some f) ∧
      s.registry.contains ⟨1⟩ = true ∧ s.registry.outstanding = 1 ∧ s.registry.invocations = 1 ∧
      f.focus = .act (selfInvoking 4) ∧ f.step s.registry =
        .running s.registry ⟨.act (.unregister ⟨1⟩ fun _ => .panic "gave up"), f.held, f.waiting⟩ := by
  have hbegin := (((Run.new.register selfInvoking).finish rfl).perform (.invoke ⟨1⟩ 4 .done)).step rfl
  have hrun := hbegin.step rfl
  obtain ⟨-, -, hcontains, houtstanding, -, hinvocations, -, hinvoke⟩ :=
    hrun.follows_past (show 1 + 0 < Word.limit by decide)
  obtain ⟨-, hconsumed, -⟩ := hinvoke _ _ _ _ _ rfl rfl rfl
  exact ⟨_, _, hrun, (hcontains ⟨1⟩).mpr (by decide), houtstanding, hinvocations, rfl,
    hconsumed (by decide) (by decide)⟩

end Scope

end PacketHost
