import PacketHost.Proofs.Registry.Cut
import PacketHost.Proofs.Registry.Ownership
import PacketHost.Registry.Run

/-!
# Activities come to an end

What is left to do in an activity is a multiset of tasks, and each step replaces one of them by smaller ones
(`Fiber.step_lighter`). Invoking moves a callback from its slot to the running activity, so a callback that is invoked again
is no longer there to run; discarding one leaves only its guards to drop.
-/

namespace PacketHost

/-- A part of the work that is left. -/
inductive Task where
  | guard
  | act (action : Action)
  | call (callback : Callback)
  /-- An activity to take up again after an invocation. -/
  | resume (next : Resumption)
  /-- An activity to take up again after a registration. -/
  | enroll (next : Token → Action)

namespace Task

/-- The work that a task leads to at once. -/
inductive Below : Task → Task → Prop where
  | called (callback : Callback) (size : Nat) : Below (.act (callback size)) (.call callback)
  | resumed (next : Except HostError Span → Action) (result : Except HostError Span) :
    Below (.act (next result)) (.resume (.passing next))
  | recovered (next : Exit → Action) (exit : Exit) : Below (.act (next exit)) (.resume (.catching next))
  | enrolled (next : Token → Action) (token : Token) : Below (.act (next token)) (.enroll next)
  | outstanding (next : Nat → Action) (n : Nat) : Below (.act (next n)) (.act (.outstanding next))
  | registered (callback : Callback) (next : Token → Action) (guards : List Token) :
    Below (.call callback) (.act (.register callback.run next guards))
  | registering (run : Nat → Action) (next : Token → Action) (guards : List Token) :
    Below (.enroll next) (.act (.register run next guards))
  | dropped (token : Token) (next : Action) : Below (.act next) (.act (.drop token next))
  | kept (token : Token) (next : Action) : Below (.act next) (.act (.keep token next))
  | unregistered (token : Token) (next : Bool → Action) (b : Bool) :
    Below (.act (next b)) (.act (.unregister token next))
  | invoking (token : Token) (size : Nat) (next : Except HostError Span → Action) :
    Below (.resume (.passing next)) (.act (.invoke token size next))
  | attempting (token : Token) (size : Nat) (next : Exit → Action) :
    Below (.resume (.catching next)) (.act (.attempt token size next))
  | attempted (token : Token) (size : Nat) (next : Exit → Action) (exit : Exit) :
    Below (.act (next exit)) (.act (.attempt token size next))
  | acting (action : Action) : Below .guard (.act action)
  | owned (callback : Callback) : Below .guard (.call callback)
  | held (next : Token → Action) : Below .guard (.enroll next)

theorem acc_guard : Acc Below .guard := ⟨_, fun _ h => nomatch h⟩

theorem acc_call {callback : Callback} (h : ∀ n, Acc Below (.act (callback n))) :
    Acc Below (.call callback) :=
  ⟨_, fun _ hb => by
    cases hb with
    | called _ n => exact h n
    | owned => exact acc_guard⟩

theorem acc_passing {next : Except HostError Span → Action} (h : ∀ r, Acc Below (.act (next r))) :
    Acc Below (.resume (.passing next)) :=
  ⟨_, fun _ hb => by cases hb; exact h _⟩

theorem acc_catching {next : Exit → Action} (h : ∀ e, Acc Below (.act (next e))) :
    Acc Below (.resume (.catching next)) :=
  ⟨_, fun _ hb => by cases hb; exact h _⟩

theorem acc_enroll {next : Token → Action} (h : ∀ t, Acc Below (.act (next t))) :
    Acc Below (.enroll next) :=
  ⟨_, fun _ hb => by
    cases hb with
    | enrolled _ t => exact h t
    | held => exact acc_guard⟩

theorem acc_act (a : Action) : Acc Below (.act a) := by
  induction a with
  | done result => exact ⟨_, fun _ hb => by cases hb; exact acc_guard⟩
  | panic text => exact ⟨_, fun _ hb => by cases hb; exact acc_guard⟩
  | outstanding next ih =>
      refine ⟨_, fun _ hb => ?_⟩
      cases hb with
      | outstanding _ n => exact ih n
      | acting => exact acc_guard
  | register run next guards ihc ih =>
      refine ⟨_, fun _ hb => ?_⟩
      cases hb with
      | registered => exact acc_call ihc
      | registering => exact acc_enroll ih
      | acting => exact acc_guard
  | drop token next ih =>
      refine ⟨_, fun _ hb => ?_⟩
      cases hb with
      | dropped => exact ih
      | acting => exact acc_guard
  | keep token next ih =>
      refine ⟨_, fun _ hb => ?_⟩
      cases hb with
      | kept => exact ih
      | acting => exact acc_guard
  | unregister token next ih =>
      refine ⟨_, fun _ hb => ?_⟩
      cases hb with
      | unregistered _ _ b => exact ih b
      | acting => exact acc_guard
  | invoke token size next ih =>
      refine ⟨_, fun _ hb => ?_⟩
      cases hb with
      | invoking => exact acc_passing ih
      | acting => exact acc_guard
  | attempt token size next ih =>
      refine ⟨_, fun _ hb => ?_⟩
      cases hb with
      | attempting => exact acc_catching ih
      | attempted _ _ _ exit => exact ih exit
      | acting => exact acc_guard

theorem below_wellFounded : WellFounded Below := by
  refine ⟨fun t => ?_⟩
  cases t with
  | guard => exact acc_guard
  | act a => exact acc_act a
  | call callback => exact acc_call fun n => acc_act _
  | resume next =>
      cases next with
      | passing next => exact acc_passing fun r => acc_act _
      | catching next => exact acc_catching fun e => acc_act _
  | enroll next => exact acc_enroll fun t => acc_act _

/-! ## Work left -/

def ofHeld (held : List Token) : Multiset Task := .replicate held.length .guard

def ofFrame (f : Frame) : Multiset Task := {.resume f.next} + ofHeld f.held

def ofWaiting (waiting : List Frame) : Multiset Task := (waiting.map ofFrame).sum

def ofFocus : Focus → Multiset Task
  | .act a => {.act a}
  | .enroll _ callback next => {.enroll next} + {.call callback}
  | .begin callback _ => {.call callback}
  | .shed t others next => {.act next} + ofHeld (t :: others)
  | .leave _ => 0

/-- The callbacks that are still in their slots. -/
def ofSlots (slots : List (Token × Option Callback)) : Multiset Task :=
  (slots.filterMap fun s => s.2.map Task.call : List Task)

theorem eq_guard_of_mem {held : List Token} {task : Task} (h : task ∈ ofHeld held) : task = .guard :=
  Multiset.eq_of_mem_replicate h

theorem ofHeld_nil : ofHeld [] = 0 := rfl

theorem ofHeld_cons (t : Token) (held : List Token) : ofHeld (t :: held) = {.guard} + ofHeld held := by
  rw [ofHeld, ofHeld, List.length_cons, Multiset.replicate_succ, Multiset.singleton_add]

theorem ofHeld_append (held held' : List Token) : ofHeld (held ++ held') = ofHeld held + ofHeld held' := by
  rw [ofHeld, ofHeld, ofHeld, List.length_append, Multiset.replicate_add]

theorem ofHeld_of_perm {held held' : List Token} (h : held.Perm held') : ofHeld held = ofHeld held' := by
  rw [ofHeld, ofHeld, h.length_eq]

theorem ofHeld_erase {held : List Token} {t : Token} (h : t ∈ held) :
    ofHeld held = {.guard} + ofHeld (held.erase t) := by
  rw [ofHeld_of_perm (List.perm_cons_erase h), ofHeld_cons]

/-- A guard that is given away leaves out its task, if it was held. -/
theorem ofHeld_erase_le (held : List Token) (t : Token) : ofHeld (held.erase t) ≤ ofHeld held :=
  Multiset.replicate_le_replicate _ |>.mpr List.erase_sublist.length_le

/-- Guards that a callback takes over are as many as leave those that held them. -/
theorem ofHeld_owning_leaving (callback : Callback) (held : List Token) :
    ofHeld held = ofHeld (callback.owning held).guards + ofHeld (callback.leaving held) := by
  have hsplit : (held.filter (· ∈ callback.guards) ++ held.filter (· ∉ callback.guards)).Perm held := by
    simpa using List.filter_append_perm (fun t => decide (t ∈ callback.guards)) held
  rw [← ofHeld_append]
  exact (ofHeld_of_perm hsplit).symm

theorem ofWaiting_cons (next : Resumption) (held : List Token) (waiting : List Frame) :
    ofWaiting (⟨held, next⟩ :: waiting) = {.resume next} + ofHeld held + ofWaiting waiting := by
  rw [ofWaiting, ofWaiting, List.map_cons, List.sum_cons, ofFrame]

theorem ofFocus_shedding (next : Action) (guards : List Token) :
    ofFocus (.shedding next guards) = {.act next} + ofHeld guards := by
  cases guards with
  | nil => rfl
  | cons t others => rfl

theorem ofSlots_cons (t : Token) (callback : Callback) (slots : List (Token × Option Callback)) :
    ofSlots ((t, some callback) :: slots) = {.call callback} + ofSlots slots := rfl

theorem ofSlots_erase_le (r : Registry Callback) (t : Token) : ofSlots (r.erase t).slots ≤ ofSlots r.slots :=
  Multiset.coe_le.mpr (List.filter_sublist.filterMap _).subperm

/-- Where a callback is removed, it is left out. -/
theorem ofSlots_erase_add_le {r : Registry Callback} {t : Token} {callback : Callback}
    (h : r.slot? t = some (some callback)) : {.call callback} + ofSlots (r.erase t).slots ≤ ofSlots r.slots := by
  obtain ⟨slots, next, invocations⟩ := r
  change slots.lookup t = _ at h
  change _ + ofSlots (slots.filter fun s => s.1 ≠ t) ≤ ofSlots slots
  induction slots with
  | nil => cases h
  | cons s slots ih =>
      obtain ⟨u, c⟩ := s
      rw [List.lookup_cons] at h
      by_cases hu : u = t
      · subst hu
        rw [beq_self_eq_true] at h
        obtain rfl : c = some callback := Option.some.inj h
        rw [List.filter_cons_of_neg (by simp), ofSlots_cons]
        exact add_le_add_right (ofSlots_erase_le ⟨slots, next, invocations⟩ u) _
      · rw [beq_eq_false_iff_ne.mpr (Ne.symm hu)] at h
        rw [List.filter_cons_of_pos (by simpa using hu)]
        cases c with
        | none => exact ih h
        | some c =>
            rw [ofSlots_cons, ofSlots_cons, add_left_comm]
            exact add_le_add_right (ih h) _

/-- A slot that is emptied holds no callback, as one that is removed. -/
theorem ofSlots_disarm (r : Registry Callback) (t : Token) :
    ofSlots (r.disarm t).slots = ofSlots (r.erase t).slots := by
  obtain ⟨slots, next, invocations⟩ := r
  change ofSlots (slots.map fun s => if s.1 = t then (t, none) else s) = ofSlots (slots.filter fun s => s.1 ≠ t)
  induction slots with
  | nil => rfl
  | cons s slots ih =>
      obtain ⟨u, c⟩ := s
      rw [List.map_cons]
      by_cases hu : u = t
      · rw [if_pos hu, List.filter_cons_of_neg (by simpa using hu)]
        exact ih
      · rw [if_neg hu, List.filter_cons_of_pos (by simpa using hu)]
        cases c with
        | none => exact ih
        | some c => rw [ofSlots_cons, ofSlots_cons, ih]

theorem ofSlots_insert (r : Registry Callback) (t : Token) (callback : Callback) :
    ofSlots (r.insert t callback).slots = {.call callback} + ofSlots (r.erase t).slots := by
  change ofSlots ((r.erase t).slots ++ [(t, some callback)]) = _
  rw [ofSlots, List.filterMap_append, ← Multiset.coe_add, add_comm]
  rfl

/-! ## Tasks that give way -/

section

variable (r : Registry Callback) (t : Token)

/-- A task gives way to smaller ones and to the guards of a callback that is discarded meanwhile. -/
theorem cut_discard {a : Task} (ha : Below .guard a) (new out left : Multiset Task) (hnew : ∀ b ∈ new, Below b a) :
    Cut Below (new + ofHeld (r.guards t) + (left + ofSlots (r.erase t).slots))
      ({a} + (out + (left + ofSlots r.slots))) := by
  refine Cut.of_le a (fun b hb => ?_) ?_
  · rcases Multiset.mem_add.mp hb with hb | hb
    · exact hnew b hb
    · rw [eq_guard_of_mem hb]
      exact ha
  · refine add_le_add_right ((add_le_add_right (ofSlots_erase_le r t) left).trans ?_) _
    exact Multiset.le_add_left _ _

/-- The drop of a guard leaves only what a discarded callback owned. -/
theorem cut_drop (left : Multiset Task) : Cut Below (ofHeld (r.guards t) + (left + ofSlots (r.erase t).slots))
    ({.guard} + (left + ofSlots r.slots)) := by
  rcases r.guards_cases t with hguards | ⟨callback, ht, hguards⟩
  · rw [hguards]
    refine Cut.of_le .guard (fun b hb => absurd hb (Multiset.notMem_zero b)) ?_
    exact add_le_add_right (add_le_add_right (ofSlots_erase_le r t) left) _
  · rw [hguards]
    have hrest : {.call callback} + (left + ofSlots (r.erase t).slots) ≤ {.guard} + (left + ofSlots r.slots) :=
      calc {.call callback} + (left + ofSlots (r.erase t).slots)
          = left + ({.call callback} + ofSlots (r.erase t).slots) := add_left_comm ..
        _ ≤ left + ofSlots r.slots := add_le_add_right (ofSlots_erase_add_le ht) left
        _ ≤ {.guard} + (left + ofSlots r.slots) := Multiset.le_add_left _ _
    refine Cut.of_le (.call callback) (fun b hb => ?_) hrest
    rw [eq_guard_of_mem hb]
    exact .owned callback

end

end Task

namespace Fiber

def tasks (r : Registry Callback) (f : Fiber) : Multiset Task :=
  Task.ofFocus f.focus + (Task.ofHeld f.held + (Task.ofWaiting f.waiting + Task.ofSlots r.slots))

def Lighter (x y : Registry Callback × Fiber) : Prop :=
  Cut Task.Below (tasks x.1 x.2) (tasks y.1 y.2)

theorem lighter_wellFounded : WellFounded Lighter :=
  InvImage.wf (fun x : Registry Callback × Fiber => tasks x.1 x.2) (Cut.wellFounded Task.below_wellFounded)

section

variable {r r' : Registry Callback} {held : List Token} {waiting : List Frame} {a : Action} {f f' : Fiber}

/-- A step that changes nothing but the focus puts smaller tasks in place of the action. -/
theorem lighter_of_focus {focus : Focus} (h : ∀ task ∈ Task.ofFocus focus, Task.Below task (.act a)) :
    Lighter (r, ⟨focus, held, waiting⟩) (r, ⟨.act a, held, waiting⟩) :=
  Cut.of_le (.act a) h (le_refl _)

theorem stepInvoke_lighter {t : Token} {size : Nat} {next : Resumption} (hnext : Task.Below (.resume next) (.act a))
    (hafter : ∀ text, ∀ task ∈ Task.ofFocus (next.after (.panicked text)), Task.Below task (.act a))
    (h : stepInvoke r held waiting t size next = .running r' f') :
    Lighter (r', f') (r, ⟨.act a, held, waiting⟩) := by
  simp only [stepInvoke, Registry.take] at h
  cases ht : r.slot? t with
  | none =>
      simp only [ht] at h
      cases h
      exact lighter_of_focus (hafter _)
  | some slot =>
      cases slot with
      | none =>
          simp only [ht] at h
          cases h
          exact lighter_of_focus (hafter _)
      | some callback =>
          simp only [ht] at h
          cases h
          have hrest : {.act a} + ({.call callback} + (Task.ofHeld held + (Task.ofWaiting waiting +
              Task.ofSlots (r.erase t).slots))) ≤ tasks r ⟨.act a, held, waiting⟩ := by
            rw [add_left_comm {Task.call callback}, add_left_comm {Task.call callback}]
            exact add_le_add_right (add_le_add_right (add_le_add_right (Task.ofSlots_erase_add_le ht) _) _) _
          have hnew : ∀ task ∈ {.resume next} + Task.ofHeld callback.guards, Task.Below task (.act a) := by
            intro task htask
            rcases Multiset.mem_add.mp htask with hb | hb
            · rw [Multiset.mem_singleton.mp hb]
              exact hnext
            · rw [Task.eq_guard_of_mem hb]
              exact .acting a
          refine (Cut.of_le (.act a) hnew hrest).of_eq ?_ rfl
          simp only [tasks, Task.ofFocus, Task.ofWaiting_cons, Task.ofSlots_disarm]
          ac_rfl

theorem stepAction_lighter (h : stepAction r held waiting a = .running r' f') :
    Lighter (r', f') (r, ⟨.act a, held, waiting⟩) := by
  cases a with
  | done result =>
      cases h
      exact lighter_of_focus nofun
  | panic text =>
      cases h
      exact lighter_of_focus nofun
  | outstanding next =>
      cases h
      exact lighter_of_focus (by simpa [Task.ofFocus] using .outstanding next _)
  | register run next guards =>
      cases h
      let callback : Callback := { run, guards }
      have hnew : ∀ task ∈ Task.ofFocus (.enroll r.draw.1 (callback.owning held) next),
          Task.Below task (.act (.register run next guards)) := by
        simpa [Task.ofFocus] using ⟨.registering run next guards, .registered (callback.owning held) next guards⟩
      refine Cut.of_le _ hnew (add_le_add_right ?_ _)
      rw [Task.ofHeld_owning_leaving callback held, add_assoc]
      exact Multiset.le_add_left _ _
  | drop t next =>
      simp only [stepAction] at h
      by_cases ht : t ∈ held
      · rw [if_pos ht] at h
        cases h
        refine (Task.cut_discard r t (.acting (.drop t next)) {.act next} {.guard}
          (Task.ofHeld (held.erase t) + Task.ofWaiting waiting) ?_).of_eq ?_ ?_
        · simpa using .dropped t next
        · simp only [tasks, Task.ofFocus_shedding]
          ac_rfl
        · simp only [tasks, Task.ofFocus, Task.ofHeld_erase ht]
          ac_rfl
      · rw [if_neg ht] at h
        cases h
        exact lighter_of_focus (by simpa [Task.ofFocus] using .dropped t next)
  | keep t next =>
      cases h
      have hnew : ∀ task ∈ Task.ofFocus (.act next), Task.Below task (.act (.keep t next)) := by
        simpa [Task.ofFocus] using .kept t next
      exact Cut.of_le _ hnew (add_le_add_right (add_le_add_left (Task.ofHeld_erase_le held t) _) _)
  | unregister t next =>
      cases h
      refine (Task.cut_discard r t (.acting (.unregister t next)) {.act (next (r.contains t))} 0
        (Task.ofHeld held + Task.ofWaiting waiting) ?_).of_eq ?_ ?_
      · simpa using .unregistered t next _
      · simp only [tasks, Task.ofFocus_shedding]
        ac_rfl
      · simp only [tasks, Task.ofFocus]
        ac_rfl
  | invoke t size next =>
      exact stepInvoke_lighter (.invoking t size next) (by simp [Resumption.after, Task.ofFocus]) h
  | attempt t size next =>
      exact stepInvoke_lighter (.attempting t size next)
        (by simpa [Resumption.after, Task.ofFocus] using fun text => .attempted t size next (.panicked text)) h

theorem step_lighter (h : step r f = .running r' f') : Lighter (r', f') (r, f) := by
  obtain ⟨focus, held, waiting⟩ := f
  cases focus with
  | act a => exact stepAction_lighter h
  | enroll t callback next =>
      cases h
      refine (Task.cut_discard r t (.held next) ({.act (next t)} + {.guard}) 0
        ({.call callback} + (Task.ofHeld held + Task.ofWaiting waiting)) ?_).of_eq ?_ ?_
      · simpa using ⟨.enrolled next t, .held next⟩
      · simp only [tasks, Task.ofFocus_shedding, Task.ofHeld_cons, Task.ofSlots_insert]
        ac_rfl
      · simp only [tasks, Task.ofFocus]
        ac_rfl
  | «begin» callback size =>
      cases h
      exact Cut.of_le (.call callback) (by simpa [Task.ofFocus] using .called callback size) (le_refl _)
  | shed t others next =>
      cases h
      have hcut := Task.cut_drop r t ({.act next} + (Task.ofHeld others + (Task.ofHeld held + Task.ofWaiting waiting)))
      refine hcut.of_eq ?_ ?_
      · simp only [tasks, Task.ofFocus_shedding, Task.ofHeld_append]
        ac_rfl
      · simp only [tasks, Task.ofFocus, Task.ofHeld_cons]
        ac_rfl
  | leave exit =>
      cases held with
      | cons t held =>
          cases h
          refine (Task.cut_drop r t (Task.ofHeld held + Task.ofWaiting waiting)).of_eq ?_ ?_
          · simp only [tasks, Task.ofFocus, Task.ofHeld_append]
            ac_rfl
          · simp only [tasks, Task.ofFocus, Task.ofHeld_cons]
            ac_rfl
      | nil =>
          cases waiting with
          | nil => cases h
          | cons frame waiting =>
              obtain ⟨held, next⟩ := frame
              cases h
              have hnew : ∀ task ∈ Task.ofFocus (next.after exit), Task.Below task (.resume next) := by
                cases next with
                | passing next =>
                    cases exit with
                    | returned result => simpa [Resumption.after, Task.ofFocus] using .resumed next result
                    | panicked text => simp [Resumption.after, Task.ofFocus]
                | catching next => simpa [Resumption.after, Task.ofFocus] using .recovered next exit
              refine (Cut.of_le (.resume next) hnew (le_refl _)).of_eq rfl ?_
              simp only [tasks, Task.ofFocus, Task.ofHeld_nil, Task.ofWaiting_cons, zero_add]
              ac_rfl

end

/-! ## Running -/

theorem follows_wellFounded : WellFounded Follows := Subrelation.wf step_lighter lighter_wellFounded

/-- As steps cannot follow one another forever, running is a step and then the rest. -/
theorem run_of_running {r r' : Registry Callback} {f f' : Fiber} (h : step r f = .running r' f') :
    run r f = run r' f' := by
  rw [run, WellFounded.extrinsicFix_eq_apply follows_wellFounded]
  split
  case h_1 hstep =>
      cases hstep.symm.trans h
      rw [run]
  case h_2 hstep => cases hstep.symm.trans h

theorem run_of_finished {r : Registry Callback} {f : Fiber} {exit : Exit} (h : step r f = .finished exit) :
    run r f = (exit, r) := by
  rw [run, WellFounded.extrinsicFix_eq_apply follows_wellFounded]
  split
  case h_1 hstep => cases hstep.symm.trans h
  case h_2 hstep =>
      cases hstep.symm.trans h
      rfl

end Fiber

end PacketHost
