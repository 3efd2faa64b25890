import PacketHost.Packet.Worker
import PacketHost.Proofs.Packet.OneShot
import PacketHost.Proofs.Registry.History

/-!
# What a worker's step preserves

A worker shares a registry with others, but of all that is in there its builds depend on one slot only. `Stage.Sound`
says, for each stage of a build, what that slot holds and that the engine will end as it does without a registry.
`Worker.Step` is what every step of a worker comes to (`Worker.step_of_sound`): it keeps this up, touches no slot of
another token, and accounts for tokens, slots, invocations and turns.
-/

namespace PacketHost

/-! ## Builds alone -/

namespace Job

def allocator (j : Job) : Callback := j.builder.limits.allocator j.host

/-- The end of a course without a registry, from a desk on. -/
def play (j : Job) (course : Packing) (d : Desk) : Ending × Desk :=
  course.run (Desk.oneShot j.grant j.host.memory) d

def outcome (j : Job) : Ending × Desk := j.play j.course {}

/-- The build keeps to the limits, so that a callback is registered for it. -/
def admitted (j : Job) : Bool := (j.builder.limits.check j.headers j.payload).toBool

/-- The number of times that the engine has the callback run. -/
def calls (j : Job) : Nat := j.outcome.2.grant?.isSome.toNat

def asks (j : Job) : Bool := j.admitted && j.outcome.2.grant?.isSome

theorem admitted_of_error {j : Job} {e : HostError}
    (h : j.builder.limits.check j.headers j.payload = .error e) : j.admitted = false := by
  unfold admitted
  rw [h]
  rfl

theorem admitted_of_ok {j : Job} (h : j.builder.limits.check j.headers j.payload = .ok ()) : j.admitted = true := by
  unfold admitted
  rw [h]
  rfl

theorem alone_of_error {j : Job} {e : HostError} (h : j.builder.limits.check j.headers j.payload = .error e)
    (r : Registry Callback) : j.alone r = ⟨.finished (.error e), r, []⟩ := by
  unfold alone Builder.build
  rw [h]
  rfl

theorem alone_of_ok {j : Job} (h : j.builder.limits.check j.headers j.payload = .ok ()) (r : Registry Callback) :
    (j.alone r).built = j.builder.conclude j.outcome.1 j.outcome.2.grant? ∧
      (j.alone r).requests = j.outcome.2.requests := by
  unfold alone Builder.build
  rw [h]
  exact j.builder.perform_eq j.host r j.course

end Job

/-! ## Turns -/

def Packing.turns (grant : Nat → Grant) (memory : Memory) : Packing → Desk → Nat
  | finish _ _, _ => 1
  | panic _, _ => 1
  | request size context out next, d =>
    if context && out then
      7 + (next (grant size).reply).turns grant memory (d.noteGrant (grant size) size (grant size).reply)
    else 1 + (next .missing).turns grant memory (d.noteMissing size)
  | load addr length next, d => 1 + (next (d.load memory addr length)).turns grant memory d
  | store addr bytes next, d => 1 + next.turns grant memory (d.store addr bytes)

def Fiber.turns (f : Fiber) : Nat :=
  match f.focus with
  | .act (.invoke ..) => 6
  | .begin .. => 5
  | .act _ => 2 + 2 * f.waiting.length
  | .leave _ => 1 + 2 * f.waiting.length
  | .enroll .. => 0
  | .shed .. => 0

def Fiber.counted (f : Fiber) : Bool :=
  match f.focus with
  | .act (.invoke ..) => false
  | .begin .. => false
  | _ => true

namespace Stage

def token? : Stage → Option Token
  | drawn t => some t
  | engine t _ _ => some t
  | callback t _ _ _ _ => some t
  | closing t _ _ => some t
  | aborted => none

/-- The build is between the insertion and the removal of its slot. -/
def registered : Stage → Bool
  | engine .. => true
  | callback .. => true
  | closing .. => true
  | _ => false

/-- The number of invocations still to be counted in a build. -/
def calls (job : Job) : Stage → Nat
  | drawn _ => job.calls
  | engine _ _ desk => if desk.grant?.isSome then 0 else job.calls
  | callback _ fiber _ _ _ => if fiber.counted then 0 else 1
  | _ => 0

def turns (job : Job) : Stage → Nat
  | drawn _ => 2 + job.course.turns job.grant job.host.memory {}
  | engine _ course desk => 1 + course.turns job.grant job.host.memory desk
  | callback _ fiber size next desk =>
    1 + fiber.turns + (next (job.grant size).reply).turns job.grant job.host.memory
      (desk.noteGrant (job.grant size) size (job.grant size).reply)
  | closing .. => 1
  | aborted => 0

end Stage

/-! ## What holds in each stage -/

/-- The stages of an invocation, each with what the slot of the token holds. -/
inductive Job.Asking (j : Job) (t : Token) (size : Nat) : Fiber → Option Callback → Prop where
  | act : Asking j t size ⟨.act (.invoke t size .done), [], []⟩ (some j.allocator)
  | begin : Asking j t size ⟨.begin j.allocator size, [], [⟨[], .passing .done⟩]⟩ none
  | run : Asking j t size ⟨.act (.done (j.grant size).result), [], [⟨[], .passing .done⟩]⟩ none
  | leave : Asking j t size ⟨.leave (.returned (j.grant size).result), [], [⟨[], .passing .done⟩]⟩ none
  | resume : Asking j t size ⟨.act (.done (j.grant size).result), [], []⟩ none
  | exit : Asking j t size ⟨.leave (.returned (j.grant size).result), [], []⟩ none

/-- The slot of a build holds what the stage says, and the engine will end as it does without a registry. -/
def Stage.Sound (job : Job) (r : Registry Callback) : Stage → Prop
  | drawn t => t.id ≤ r.drawn ∧ r.slot? t = none
  | engine t course desk =>
    t.id ≤ r.drawn ∧ r.slot? t = some (desk.slot job.allocator) ∧ job.play course desk = job.outcome
  | callback t fiber size next desk =>
    t.id ≤ r.drawn ∧ desk.grant? = none ∧ (∃ slot, r.slot? t = some slot ∧ job.Asking t size fiber slot) ∧
      job.play (next (job.grant size).reply) (desk.noteGrant (job.grant size) size (job.grant size).reply) =
        job.outcome
  | closing t ending desk =>
    t.id ≤ r.drawn ∧ r.slot? t = some (desk.slot job.allocator) ∧ (ending, desk) = job.outcome
  | aborted => False

theorem Stage.Sound.token_le {job : Job} {r : Registry Callback} {s : Stage} (h : s.Sound job r) {t : Token}
    (ht : s.token? = some t) : t.id ≤ r.drawn := by
  cases s with
  | aborted => cases ht
  | drawn u =>
      cases ht
      exact h.1
  | engine u course desk =>
      cases ht
      exact h.1
  | callback u fiber size next desk =>
      cases ht
      exact h.1
  | closing u ending desk =>
      cases ht
      exact h.1

theorem Stage.Sound.transfer {job : Job} {r r' : Registry Callback} {s : Stage} (h : s.Sound job r)
    (hdrawn : r.drawn ≤ r'.drawn) (hslot : ∀ t, s.token? = some t → r'.slot? t = r.slot? t) : s.Sound job r' := by
  cases s with
  | aborted => exact h
  | drawn t =>
      obtain ⟨hle, hs⟩ := h
      exact ⟨Nat.le_trans hle hdrawn, by rw [hslot t rfl, hs]⟩
  | engine t course desk =>
      obtain ⟨hle, hs, hplay⟩ := h
      exact ⟨Nat.le_trans hle hdrawn, by rw [hslot t rfl, hs], hplay⟩
  | callback t fiber size next desk =>
      obtain ⟨hle, hgrant, ⟨slot, hs, hask⟩, hplay⟩ := h
      exact ⟨Nat.le_trans hle hdrawn, hgrant, ⟨slot, by rw [hslot t rfl, hs], hask⟩, hplay⟩
  | closing t ending desk =>
      obtain ⟨hle, hs, hend⟩ := h
      exact ⟨Nat.le_trans hle hdrawn, by rw [hslot t rfl, hs], hend⟩

/-! ## Steps within a build -/

structure Stage.Step (job : Job) (r : Registry Callback) (s : Stage) (r' : Registry Callback) (s' : Stage) :
    Prop where
  registry : r'.Sound
  sound : s'.Sound job r'
  drawn : r'.drawn = r.drawn
  token : s'.token? = s.token?
  frame : ∀ u, s.token? ≠ some u → r'.slot? u = r.slot? u
  outstanding : r'.outstanding + s.registered.toNat = r.outstanding + s'.registered.toNat
  invocations : r'.invocations + s'.calls job = r.invocations + s.calls job
  turns : s'.turns job < s.turns job

section

variable {job : Job} {r : Registry Callback} (hr : r.Sound) {t : Token}

include hr

theorem Stage.step_drawn (h : (Stage.drawn t).Sound job r) :
    Stage.Step job r (.drawn t) (r.insert t job.allocator) (.engine t job.course {}) := by
  obtain ⟨hle, hslot⟩ := h
  have hown : (r.insert t job.allocator).slot? t = some (some job.allocator) := by
    rw [Registry.slot?_insert, if_pos rfl]
  refine ⟨hr.insert hle _, ⟨hle, hown, rfl⟩, rfl, rfl, ?_, ?_, rfl, ?_⟩
  · intro u hu
    rw [Registry.slot?_insert, if_neg]
    rintro rfl
    exact hu rfl
  · exact Registry.outstanding_insert_of_none hslot _
  · simp only [Stage.turns]
    omega

theorem Stage.step_here {s s' : Stage} (h : s'.Sound job r) (htoken : s'.token? = s.token?)
    (hregistered : s.registered = s'.registered) (hcalls : s'.calls job = s.calls job)
    (hturns : s'.turns job < s.turns job) : Stage.Step job r s r s' :=
  ⟨hr, h, rfl, htoken, fun _ _ => rfl, by rw [hregistered], by rw [hcalls], hturns⟩

omit hr in
theorem Stage.calls_eq_zero {course : Packing} {desk : Desk} (h : job.outcome.2 = desk) :
    (Stage.engine t course desk).calls job = 0 := by
  rw [Stage.calls, Job.calls, h]
  cases desk.grant?.isSome with
  | false => rfl
  | true => rfl

omit hr in
/-- An engine that waits for the callback has it run once. -/
theorem Job.calls_eq_one {course : Packing} {desk : Desk} (h : job.play course desk = job.outcome)
    (hgrant : desk.grant?.isSome = true) : job.calls = 1 := by
  unfold Job.calls
  rw [← h, Job.play, Desk.isSome_run _ _ course hgrant]
  rfl

theorem Stage.step_engine {course : Packing} {desk : Desk} (hends : job.outcome.1 ≠ .aborted)
    (h : (Stage.engine t course desk).Sound job r) :
    Stage.Step job r (.engine t course desk) r (Worker.stepEngine job t desk course) := by
  obtain ⟨hle, hslot, hplay⟩ := h
  cases course with
  | finish status out =>
      have hdesk : job.outcome.2 = desk := (congrArg Prod.snd hplay).symm
      exact Stage.step_here hr ⟨hle, hslot, hplay⟩ rfl rfl (Stage.calls_eq_zero hdesk).symm (Nat.lt_succ_self 1)
  | panic text =>
      have hdesk : job.outcome.2 = desk := (congrArg Prod.snd hplay).symm
      exact Stage.step_here hr ⟨hle, hslot, hplay⟩ rfl rfl (Stage.calls_eq_zero hdesk).symm (Nat.lt_succ_self 1)
  | load addr length next =>
      refine Stage.step_here hr ⟨hle, hslot, hplay⟩ rfl rfl rfl ?_
      simp only [Worker.stepEngine, Stage.turns, Packing.turns]
      omega
  | store addr bytes next =>
      refine Stage.step_here hr ⟨hle, ?_, hplay⟩ rfl rfl ?_ ?_
      · rw [Desk.slot_store]
        exact hslot
      · simp only [Worker.stepEngine, Stage.calls, Desk.isSome_store]
      · simp only [Worker.stepEngine, Stage.turns, Packing.turns]
        omega
  | request size context out next =>
      by_cases hfull : (context && out) = true
      · obtain ⟨rfl, rfl⟩ := Bool.and_eq_true_iff.mp hfull
        unfold Job.play at hplay
        rw [Desk.run_request] at hplay
        cases hgrant : desk.grant? with
        | some grant =>
            -- A second request would end the process, but the engine ends in another way.
            rw [Desk.requestOnce_of_some size hgrant] at hplay
            exact absurd (congrArg Prod.fst hplay).symm hends
        | none =>
            rw [Desk.requestOnce_of_none size hgrant] at hplay
            have harmed : r.slot? t = some (some job.allocator) := by
              rw [hslot, Desk.slot, hgrant]
              rfl
            refine Stage.step_here hr ⟨hle, hgrant, ⟨_, harmed, .act⟩, hplay⟩ rfl rfl ?_ ?_
            · simp only [Stage.calls, hgrant]
              exact (Job.calls_eq_one hplay rfl).symm
            · simp only [Worker.stepEngine, Stage.turns, Packing.turns, Fiber.turns, Fiber.start, Bool.and_self,
                if_true]
              omega
      · have hrequest : Desk.requestOnce job.grant desk size context out = some (.missing, desk.noteMissing size) :=
          if_neg hfull
        have hstep : Worker.stepEngine job t desk (.request size context out next) =
            .engine t (next .missing) (desk.noteMissing size) := by
          cases context with
          | false => rfl
          | true =>
              cases out with
              | false => rfl
              | true => exact absurd rfl hfull
        unfold Job.play at hplay
        rw [Desk.run_request, hrequest] at hplay
        rw [hstep]
        refine Stage.step_here hr ⟨hle, hslot, hplay⟩ rfl rfl rfl ?_
        simp only [Stage.turns, Packing.turns, if_neg hfull]
        omega

omit hr in
theorem Stage.turns_callback {fiber fiber' : Fiber} {size : Nat} {next : Reply → Packing} {desk : Desk}
    (h : fiber'.turns < fiber.turns) :
    (Stage.callback t fiber' size next desk).turns job < (Stage.callback t fiber size next desk).turns job := by
  simp only [Stage.turns]
  omega

theorem Stage.step_callback {fiber : Fiber} {size : Nat} {next : Reply → Packing} {desk : Desk}
    (h : (Stage.callback t fiber size next desk).Sound job r)
    (hroom : r.invocations + (Stage.callback t fiber size next desk).calls job < Word.limit) :
    Stage.Step job r (.callback t fiber size next desk)
      (Worker.stepCallback job t size next desk r (fiber.step r)).1
      (Worker.stepCallback job t size next desk r (fiber.step r)).2 := by
  obtain ⟨hle, hgrant, ⟨slot, hslot, hask⟩, hplay⟩ := h
  cases hask with
  | act =>
      have hstep : Fiber.step r ⟨.act (.invoke t size .done), [], []⟩ =
          .running (r.disarm t) ⟨.begin job.allocator size, [], [⟨[], .passing .done⟩]⟩ := by
        simp only [Fiber.step, Fiber.stepAction, Fiber.stepInvoke, Registry.take_of_some hslot]
        rfl
      have hown : (r.disarm t).slot? t = some none := by
        rw [Registry.slot?_disarm, if_pos rfl, hslot]
        rfl
      rw [hstep]
      refine ⟨hr.disarm t, ⟨hle, hgrant, ⟨_, hown, .begin⟩, hplay⟩, rfl, rfl, ?_, ?_, rfl, ?_⟩
      · intro u hu
        refine (Registry.slot?_disarm r t u).trans (if_neg ?_)
        rintro rfl
        exact hu rfl
      · exact congrArg (· + 1) (Registry.outstanding_disarm r t)
      · exact Stage.turns_callback (Nat.lt_succ_self 5)
  | begin =>
      exact ⟨hr.count, ⟨hle, hgrant, ⟨_, hslot, .run⟩, hplay⟩, rfl, rfl, fun _ _ => rfl, rfl,
        Registry.invocations_count hroom, Stage.turns_callback (Nat.lt_succ_self 4)⟩
  | run =>
      exact Stage.step_here hr ⟨hle, hgrant, ⟨_, hslot, .leave⟩, hplay⟩ rfl rfl rfl
        (Stage.turns_callback (Nat.lt_succ_self 3))
  | leave =>
      exact Stage.step_here hr ⟨hle, hgrant, ⟨_, hslot, .resume⟩, hplay⟩ rfl rfl rfl
        (Stage.turns_callback (Nat.lt_succ_self 2))
  | resume =>
      exact Stage.step_here hr ⟨hle, hgrant, ⟨_, hslot, .exit⟩, hplay⟩ rfl rfl rfl
        (Stage.turns_callback (Nat.lt_succ_self 1))
  | exit =>
      have hstep : Worker.stepCallback job t size next desk r
          (Fiber.step r ⟨.leave (.returned (job.grant size).result), [], []⟩) =
          (r, .engine t (next (job.grant size).reply)
            (desk.noteGrant (job.grant size) size (job.grant size).reply)) := by
        simp only [Fiber.step, Fiber.stepReturn, Worker.stepCallback, Grant.reply?_result]
      rw [hstep]
      refine Stage.step_here hr ⟨hle, hslot, hplay⟩ rfl rfl rfl ?_
      simp only [Stage.turns, Fiber.turns]
      omega

end

/-! ## Steps of a worker -/

def Job.turns (j : Job) : Nat :=
  match j.builder.limits.check j.headers j.payload with
  | .error _ => 1
  | .ok () => 3 + j.course.turns j.grant j.host.memory {}

namespace Worker

def token? (w : Worker) : Option Token := w.stage.bind Stage.token?

def registered (w : Worker) : Bool := w.stage.any Stage.registered

def draws (w : Worker) : Nat :=
  match w.stage with
  | none => w.jobs.countP Job.admitted
  | some _ => w.jobs.tail.countP Job.admitted

def calls (w : Worker) : Nat :=
  match w.stage, w.jobs with
  | none, jobs => jobs.countP Job.asks
  | some _, [] => 0
  | some s, job :: jobs => s.calls job + jobs.countP Job.asks

def turns (w : Worker) : Nat :=
  match w.stage, w.jobs with
  | none, jobs => (jobs.map Job.turns).sum
  | some _, [] => 0
  | some s, job :: jobs => s.turns job + (jobs.map Job.turns).sum

/-- No build that is left ends the process, and the build in progress is sound. -/
structure Sound (r : Registry Callback) (w : Worker) : Prop where
  ends : ∀ job ∈ w.jobs, job.outcome.1 ≠ .aborted
  stage : ∀ s, w.stage = some s → ∃ job jobs, w.jobs = job :: jobs ∧
    job.builder.limits.check job.headers job.payload = .ok () ∧ s.Sound job r

theorem Sound.token_le {r : Registry Callback} {w : Worker} (h : w.Sound r) {t : Token} (ht : w.token? = some t) :
    t.id ≤ r.drawn := by
  obtain ⟨s, hs, hst⟩ := Option.bind_eq_some_iff.mp ht
  obtain ⟨_, _, _, _, hsound⟩ := h.stage s hs
  exact hsound.token_le hst

theorem Sound.transfer {r r' : Registry Callback} {w : Worker} (h : w.Sound r) (hdrawn : r.drawn ≤ r'.drawn)
    (hslot : ∀ t, w.token? = some t → r'.slot? t = r.slot? t) : w.Sound r' := by
  refine ⟨h.ends, fun s hs => ?_⟩
  obtain ⟨job, jobs, hjobs, hcheck, hsound⟩ := h.stage s hs
  refine ⟨job, jobs, hjobs, hcheck, hsound.transfer hdrawn fun t ht => hslot t ?_⟩
  unfold token?
  rw [hs]
  exact ht

structure Step (r : Registry Callback) (w : Worker) (r' : Registry Callback) (w' : Worker) : Prop where
  registry : r'.Sound
  sound : w'.Sound r'
  grows : r.drawn ≤ r'.drawn
  drawn : r'.drawn + w'.draws = r.drawn + w.draws
  frame : ∀ u : Token, u.id ≤ r.drawn → w.token? ≠ some u → r'.slot? u = r.slot? u ∧ w'.token? ≠ some u
  outstanding : r'.outstanding + w.registered.toNat = r.outstanding + w'.registered.toNat
  invocations : r'.invocations + w'.calls = r.invocations + w.calls
  turns : w'.turns < w.turns
  built : w'.jobs = w.jobs ∧ w'.built = w.built ∨
    ∃ job, w.jobs = job :: w'.jobs ∧ w'.built = (job.alone {}).built :: w.built

section

variable {r : Registry Callback} {job : Job} {jobs : List Job} {built : List (Built Id)}

theorem step_of_stage {r' : Registry Callback} {s s' : Stage} (hw : Sound r ⟨job :: jobs, some s, built⟩)
    (h : Stage.Step job r s r' s') :
    Step r ⟨job :: jobs, some s, built⟩ r' ⟨job :: jobs, some s', built⟩ := by
  obtain ⟨job', jobs', hjobs, hcheck, -⟩ := hw.stage s rfl
  cases hjobs
  refine ⟨h.registry, ⟨hw.ends, ?_⟩, Nat.le_of_eq h.drawn.symm, ?_, ?_, h.outstanding, ?_, ?_, .inl ⟨rfl, rfl⟩⟩
  · intro s'' hs
    cases hs
    exact ⟨job, jobs, rfl, hcheck, h.sound⟩
  · change r'.drawn + jobs.countP Job.admitted = r.drawn + jobs.countP Job.admitted
    rw [h.drawn]
  · intro u _ hu
    refine ⟨h.frame u hu, ?_⟩
    change s'.token? ≠ some u
    rw [h.token]
    exact hu
  · have := h.invocations
    change r'.invocations + (s'.calls job + jobs.countP Job.asks) =
      r.invocations + (s.calls job + jobs.countP Job.asks)
    omega
  · exact Nat.add_lt_add_right h.turns _

theorem step_refused (hr : r.Sound) (hw : Sound r ⟨job :: jobs, none, built⟩) {e : HostError}
    (hcheck : job.builder.limits.check job.headers job.payload = .error e) :
    Step r ⟨job :: jobs, none, built⟩ r ⟨jobs, none, .finished (.error e) :: built⟩ := by
  have hadmitted := Job.admitted_of_error hcheck
  have hasks : job.asks = false := by
    unfold Job.asks
    rw [hadmitted]
    rfl
  have hturns : job.turns = 1 := by
    unfold Job.turns
    rw [hcheck]
  refine ⟨hr, ⟨fun j hj => hw.ends j (List.mem_cons_of_mem _ hj), fun _ hs => nomatch hs⟩, Nat.le_refl _, ?_,
    fun u _ _ => ⟨rfl, nofun⟩, rfl, ?_, ?_, .inr ⟨job, rfl, ?_⟩⟩
  · change _ = r.drawn + (job :: jobs).countP Job.admitted
    rw [List.countP_cons, hadmitted]
    rfl
  · change _ = r.invocations + (job :: jobs).countP Job.asks
    rw [List.countP_cons, hasks]
    rfl
  · change (jobs.map Job.turns).sum < ((job :: jobs).map Job.turns).sum
    rw [List.map_cons, List.sum_cons, hturns]
    omega
  · rw [Job.alone_of_error hcheck]

theorem step_draw (hr : r.Sound) (hw : Sound r ⟨job :: jobs, none, built⟩)
    (hcheck : job.builder.limits.check job.headers job.payload = .ok ())
    (hroom : r.drawn + draws ⟨job :: jobs, none, built⟩ < Word.limit) :
    Step r ⟨job :: jobs, none, built⟩ r.draw.2 ⟨job :: jobs, some (.drawn r.draw.1), built⟩ := by
  have hadmitted := Job.admitted_of_ok hcheck
  have hdraws : draws ⟨job :: jobs, none, built⟩ = jobs.countP Job.admitted + 1 := by
    change (job :: jobs).countP Job.admitted = _
    rw [List.countP_cons, hadmitted]
    rfl
  have hone : r.drawn + 1 < Word.limit := by omega
  have hdrawn := hr.drawn_draw hone
  have hid : r.draw.1.id = r.drawn + 1 := hr.next_eq hone
  have hturns : job.turns = 3 + job.course.turns job.grant job.host.memory {} := by
    unfold Job.turns
    rw [hcheck]
  refine ⟨hr.draw hone, ⟨hw.ends, ?_⟩, by omega, ?_, ?_, rfl, ?_, ?_, .inl ⟨rfl, rfl⟩⟩
  · intro s hs
    cases hs
    exact ⟨job, jobs, rfl, hcheck, by omega, hr.slot?_of_lt (by omega)⟩
  · change r.draw.2.drawn + jobs.countP Job.admitted = _
    omega
  · intro u hu _
    refine ⟨rfl, ?_⟩
    intro ht
    obtain rfl : r.draw.1 = u := Option.some.inj ht
    omega
  · change r.invocations + (job.calls + jobs.countP Job.asks) = r.invocations + (job :: jobs).countP Job.asks
    rw [List.countP_cons, Job.asks, hadmitted, Bool.true_and, Job.calls]
    cases job.outcome.2.grant?.isSome with
    | false => exact congrArg (r.invocations + ·) (Nat.zero_add _)
    | true => exact congrArg (r.invocations + ·) (Nat.add_comm 1 _)
  · change (Stage.drawn r.draw.1).turns job + _ < ((job :: jobs).map Job.turns).sum
    rw [List.map_cons, List.sum_cons, hturns, Stage.turns]
    omega

theorem step_closing (hr : r.Sound) {t : Token} {ending : Ending} {desk : Desk}
    (hw : Sound r ⟨job :: jobs, some (.closing t ending desk), built⟩) :
    Step r ⟨job :: jobs, some (.closing t ending desk), built⟩ (r.unregister t).2
      ⟨jobs, none, job.builder.conclude ending desk.grant? :: built⟩ := by
  obtain ⟨job', jobs', hjobs, hcheck, hle, hslot, hend⟩ := hw.stage _ rfl
  cases hjobs
  have hguards : r.guards t = [] := Desk.guards_of_slot hslot (job.builder.limits.gives_allocator job.host)
  have hunregister : (r.unregister t).2 = r.erase t := Registry.shed_singleton hguards
  rw [hunregister]
  refine ⟨hr.erase t, ⟨fun j hj => hw.ends j (List.mem_cons_of_mem _ hj), fun _ hs => nomatch hs⟩, Nat.le_refl _,
    rfl, ?_, Registry.outstanding_erase hr.nodup hslot, ?_, ?_, .inr ⟨job, rfl, ?_⟩⟩
  · intro u _ hu
    refine ⟨(Registry.slot?_erase r t u).trans (if_neg ?_), nofun⟩
    rintro rfl
    exact hu rfl
  · exact congrArg (r.invocations + ·) (Nat.zero_add _).symm
  · exact Nat.lt_add_of_pos_left Nat.one_pos
  · rw [(Job.alone_of_ok hcheck {}).1, ← hend]

end

theorem step_of_sound {r r' : Registry Callback} {w w' : Worker} (hr : r.Sound) (hw : w.Sound r)
    (hdraws : r.drawn + w.draws < Word.limit) (hcalls : r.invocations + w.calls < Word.limit)
    (h : step r w = some (r', w')) : Step r w r' w' := by
  obtain ⟨jobs, stage, built⟩ := w
  cases jobs with
  | nil => cases h
  | cons job jobs =>
      cases stage with
      | none =>
          cases hcheck : job.builder.limits.check job.headers job.payload with
          | error e =>
              simp only [step, hcheck] at h
              cases h
              exact step_refused hr hw hcheck
          | ok =>
              simp only [step, hcheck] at h
              cases h
              exact step_draw hr hw hcheck hdraws
      | some s =>
          obtain ⟨job', jobs', hjobs, -, hs⟩ := hw.stage s rfl
          cases hjobs
          cases s with
          | drawn t =>
              cases h
              exact step_of_stage hw (Stage.step_drawn hr hs)
          | engine t course desk =>
              cases h
              exact step_of_stage hw (Stage.step_engine hr (hw.ends job List.mem_cons_self) hs)
          | callback t fiber size next desk =>
              cases h
              exact step_of_stage hw (Stage.step_callback hr hs (Nat.lt_of_le_of_lt (Nat.add_le_add_left
                (Nat.le_add_right _ _) _) hcalls))
          | closing t ending desk =>
              cases h
              exact step_closing hr hw
          | aborted => cases hs

theorem isSome_step {r : Registry Callback} {w : Worker} (hw : w.Sound r) (h : w.jobs ≠ []) :
    (step r w).isSome = true := by
  obtain ⟨jobs, stage, built⟩ := w
  cases jobs with
  | nil => exact absurd rfl h
  | cons job jobs =>
      cases stage with
      | none =>
          cases hcheck : job.builder.limits.check job.headers job.payload with
          | error e =>
              simp only [step, hcheck]
              rfl
          | ok =>
              simp only [step, hcheck]
              rfl
      | some s =>
          obtain ⟨job', jobs', hjobs, -, hs⟩ := hw.stage s rfl
          cases s with
          | drawn t => rfl
          | engine t course desk => rfl
          | callback t fiber size next desk => rfl
          | closing t ending desk => rfl
          | aborted => cases hs

end Worker

end PacketHost
