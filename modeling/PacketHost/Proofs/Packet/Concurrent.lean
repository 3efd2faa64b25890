import PacketHost.Proofs.Flat.Build
import PacketHost.Proofs.Interleaving
import PacketHost.Proofs.Packet.Worker

/-!
# Builds side by side

Under every schedule each worker makes its builds as it would alone, on a registry of its own. What carries this is
`Isolated`: every worker is sound, no two of them hold the same token, and tokens, slots and invocations add up. A
turn of one worker leaves the slots of all others as they are, so it preserves all of it, as long as there are words
enough to count what is still to come (`Room`).
-/

namespace PacketHost

namespace Worker

def crew (r : Registry Callback) (jobss : List (List Job)) : Group (Registry Callback) Worker :=
  ⟨r, jobss.map fun jobs => { jobs }⟩

/-- The worker has made some of its builds, each as it would have been made alone. -/
def Follows (jobs : List Job) (w : Worker) : Prop :=
  ∃ done, jobs = done ++ w.jobs ∧ w.built.reverse = done.map fun job => (job.alone {}).built

def Apart (v w : Worker) : Prop := ∀ t, v.token? = some t → w.token? ≠ some t

/-- Tokens and invocations can be counted to the end. -/
structure Room (r : Registry Callback) (jobss : List (List Job)) : Prop where
  drawn : r.drawn + jobss.flatten.countP Job.admitted < Word.limit
  invocations : r.invocations + jobss.flatten.countP Job.asks < Word.limit

/-- Workers that began on a registry do not disturb each other. -/
structure Isolated (r : Registry Callback) (jobss : List (List Job)) (g : Group (Registry Callback) Worker) :
    Prop where
  registry : g.shared.Sound
  workers : ∀ w ∈ g.members, w.Sound g.shared
  apart : g.members.Pairwise Apart
  drawn : g.shared.drawn + (g.members.map draws).sum = r.drawn + jobss.flatten.countP Job.admitted
  outstanding : g.shared.outstanding = r.outstanding + g.members.countP registered
  invocations : g.shared.invocations + (g.members.map calls).sum = r.invocations + jobss.flatten.countP Job.asks
  length : g.members.length = jobss.length
  follows : ∀ (i : Nat) (jobs : List Job), jobss[i]? = some jobs → ∃ w, g.members[i]? = some w ∧ w.Follows jobs

theorem Step.follows {r r' : Registry Callback} {w w' : Worker} (h : Step r w r' w') {jobs : List Job}
    (hw : w.Follows jobs) : w'.Follows jobs := by
  obtain ⟨done, hjobs, hbuilt⟩ := hw
  rcases h.built with ⟨hsame, hsame'⟩ | ⟨job, hjob, hmade⟩
  · exact ⟨done, by rw [hsame, hjobs], by rw [hsame', hbuilt]⟩
  · refine ⟨done ++ [job], ?_, ?_⟩
    · rw [hjobs, hjob, List.append_assoc]
      rfl
    · rw [hmade, List.reverse_cons, hbuilt, List.map_append]
      rfl

theorem Apart.symm {v w : Worker} (h : Apart v w) : Apart w v := fun t hw hv => h t hv hw

/-- A step touches no slot and draws no token of another worker. -/
theorem Step.others {r r' : Registry Callback} {w w' x : Worker} (h : Step r w r' w') (hx : x.Sound r)
    (ha : Apart w x) : x.Sound r' ∧ Apart w' x := by
  have hframe : ∀ t, x.token? = some t → r'.slot? t = r.slot? t ∧ w'.token? ≠ some t :=
    fun t ht => h.frame t (hx.token_le ht) (ha.symm t ht)
  exact ⟨hx.transfer h.grows fun t ht => (hframe t ht).1, fun t hw ht => (hframe t ht).2 hw⟩

theorem countP_cons_toNat (p : Worker → Bool) (w : Worker) (others : List Worker) :
    (w :: others).countP p = others.countP p + (p w).toNat := by
  rw [List.countP_cons]
  cases p w with
  | false => rfl
  | true => rfl

theorem isolated_crew {r : Registry Callback} (hr : r.Sound) {jobss : List (List Job)}
    (hends : ∀ jobs ∈ jobss, ∀ job ∈ jobs, job.outcome.1 ≠ .aborted) : Isolated r jobss (crew r jobss) := by
  have hidle : (crew r jobss).members.countP registered = 0 := by
    rw [List.countP_eq_zero]
    intro w hw
    obtain ⟨jobs, -, rfl⟩ := List.mem_map.mp hw
    exact Bool.false_ne_true
  refine ⟨hr, ?_, ?_, ?_, ?_, ?_, List.length_map _, ?_⟩
  · intro w hw
    obtain ⟨jobs, hjobs, rfl⟩ := List.mem_map.mp hw
    exact ⟨hends jobs hjobs, fun _ hs => nomatch hs⟩
  · rw [crew, List.pairwise_map]
    exact List.pairwise_of_forall fun _ _ _ ht => nomatch ht
  · rw [List.countP_flatten, crew, List.map_map]
    rfl
  · exact (congrArg (r.outstanding + ·) hidle).symm
  · rw [List.countP_flatten, crew, List.map_map]
    rfl
  · intro i jobs hi
    refine ⟨{ jobs }, ?_, [], rfl, rfl⟩
    change (jobss.map _)[i]? = _
    rw [List.getElem?_map, hi]
    rfl

section

variable {r : Registry Callback} {jobss : List (List Job)} (hroom : Room r jobss)
  {g : Group (Registry Callback) Worker} (h : Isolated r jobss g)

include hroom h

theorem Isolated.step_of_mem {w w' : Worker} {r' : Registry Callback} (hw : w ∈ g.members)
    (hs : step g.shared w = some (r', w')) : Step g.shared w r' w' := by
  have hdraws := List.le_sum_of_mem (List.mem_map_of_mem hw : draws w ∈ _)
  have hcalls := List.le_sum_of_mem (List.mem_map_of_mem hw : calls w ∈ _)
  have hdrawn := h.drawn
  have hinv := h.invocations
  have hroomDrawn := hroom.drawn
  have hroomInv := hroom.invocations
  exact step_of_sound h.registry (h.workers w hw) (by omega) (by omega) hs

theorem Isolated.turn (index : Nat) : Isolated r jobss (g.turn step index) := by
  rcases Group.turn_cases step g index with ⟨hsame, -⟩ | ⟨w, r', w', hw, hs, hturn⟩
  · rw [hsame]
    exact h
  · have hstep := h.step_of_mem hroom (List.mem_of_getElem? hw) hs
    obtain ⟨others, hperm, hset⟩ := Group.exists_others hw
    obtain ⟨hapart, hpairs⟩ := List.pairwise_cons.mp ((hperm.pairwise_iff Apart.symm).mp h.apart)
    have hothers : ∀ x ∈ others, x.Sound r' ∧ Apart w' x := fun x hx =>
      hstep.others (h.workers x (hperm.mem_iff.mpr (List.mem_cons_of_mem _ hx))) (hapart x hx)
    have hsum (f : Worker → Nat) : (g.members.map f).sum = f w + (others.map f).sum := (hperm.map f).sum_nat
    have hsum' (f : Worker → Nat) : ((g.members.set index w').map f).sum = f w' + (others.map f).sum :=
      ((hset w').map f).sum_nat
    have hdrawn := h.drawn
    have hout := h.outstanding
    have hinv := h.invocations
    rw [hperm.countP_eq, countP_cons_toNat] at hout
    rw [hsum] at hdrawn hinv
    have hdrawn' := hstep.drawn
    have hout' := hstep.outstanding
    have hinv' := hstep.invocations
    rw [hturn]
    refine ⟨hstep.registry, ?_, ?_, ?_, ?_, ?_, (List.length_set ..).trans h.length, ?_⟩
    · intro x hx
      rcases List.mem_cons.mp ((hset w').mem_iff.mp hx) with rfl | hx
      · exact hstep.sound
      · exact (hothers x hx).1
    · exact ((hset w').pairwise_iff Apart.symm).mpr
        (List.pairwise_cons.mpr ⟨fun x hx => (hothers x hx).2, hpairs⟩)
    · change r'.drawn + ((g.members.set index w').map draws).sum = _
      rw [hsum']
      omega
    · change r'.outstanding = r.outstanding + (g.members.set index w').countP registered
      rw [(hset w').countP_eq, countP_cons_toNat]
      omega
    · change r'.invocations + ((g.members.set index w').map calls).sum = _
      rw [hsum']
      omega
    · intro i jobs hi
      obtain ⟨x, hx, hfollows⟩ := h.follows i jobs hi
      change ∃ x, (g.members.set index w')[i]? = some x ∧ x.Follows jobs
      by_cases hne : index = i
      · subst hne
        rw [hw] at hx
        cases hx
        exact ⟨w', List.getElem?_set_self (List.getElem?_eq_some_iff.mp hw).1, hstep.follows hfollows⟩
      · exact ⟨x, by rw [List.getElem?_set_ne hne]; exact hx, hfollows⟩

theorem Isolated.run (schedule : List Nat) : Isolated r jobss (g.run step schedule) :=
  Group.run_preserves (P := Isolated r jobss) (fun _ index hg => hg.turn hroom index) h schedule

end

/-! ## Turns -/

theorem jobs_of_stuck {r : Registry Callback} {w : Worker} (hw : w.Sound r) (h : step r w = none) : w.jobs = [] := by
  by_cases hjobs : w.jobs = []
  · exact hjobs
  · have hsome := isSome_step hw hjobs
    rw [h] at hsome
    cases hsome

theorem turns_of_stuck {r : Registry Callback} {w : Worker} (hw : w.Sound r) (h : step r w = none) : w.turns = 0 := by
  have hjobs := jobs_of_stuck hw h
  unfold turns
  cases hs : w.stage with
  | none =>
      rw [hjobs]
      rfl
  | some s =>
      obtain ⟨job, jobs, hj, -⟩ := hw.stage s hs
      rw [hjobs] at hj
      cases hj

theorem jobs_of_turns {r : Registry Callback} {jobss : List (List Job)} (hroom : Room r jobss)
    {g : Group (Registry Callback) Worker} (h : Isolated r jobss g) {w : Worker} (hw : w ∈ g.members)
    (hturns : w.turns = 0) : w.jobs = [] := by
  cases hs : step g.shared w with
  | none => exact jobs_of_stuck (h.workers w hw) hs
  | some next =>
      obtain ⟨r', w'⟩ := next
      have := (h.step_of_mem hroom hw hs).turns
      omega

theorem Isolated.jobs_eq_nil {r : Registry Callback} {jobss : List (List Job)} (hroom : Room r jobss)
    {g : Group (Registry Callback) Worker} (h : Isolated r jobss g) {schedule : List Nat} {i : Nat} {v w : Worker}
    (hv : g.members[i]? = some v) (hw : (g.run step schedule).members[i]? = some w)
    (hturns : v.turns ≤ schedule.count i) : w.jobs = [] := by
  obtain ⟨w', hw', hle⟩ := Group.cost_run (P := Isolated r jobss) turns (fun _ index hg => hg.turn hroom index)
    (fun _ hg w hw _ _ hs => (hg.step_of_mem hroom hw hs).turns)
    (fun _ hg w hw hs => turns_of_stuck (hg.workers w hw) hs) h schedule hv
  rw [hw] at hw'
  cases hw'
  exact jobs_of_turns hroom (h.run hroom schedule) (List.mem_of_getElem? hw) (by omega)

/-- When all builds are made, no slot is left, and each build that asked for memory has been counted once. -/
theorem Isolated.all_made {r : Registry Callback} {jobss : List (List Job)}
    {g : Group (Registry Callback) Worker} (h : Isolated r jobss g) (hdone : ∀ w ∈ g.members, w.jobs = []) :
    g.shared.outstanding = r.outstanding ∧
      g.shared.invocations = r.invocations + jobss.flatten.countP Job.asks := by
  have hidle : ∀ w ∈ g.members, w.stage = none := by
    intro w hw
    cases hs : w.stage with
    | none => rfl
    | some s =>
        obtain ⟨job, jobs, hj, -⟩ := (h.workers w hw).stage s hs
        rw [hdone w hw] at hj
        cases hj
  have hleft : (g.members.map calls).sum = 0 := by
    rw [List.sum_eq_zero_iff_forall_eq_nat]
    intro n hn
    obtain ⟨w, hw, rfl⟩ := List.mem_map.mp hn
    unfold calls
    rw [hidle w hw, hdone w hw]
    rfl
  have hnone : g.members.countP registered = 0 := by
    rw [List.countP_eq_zero]
    intro w hw
    unfold registered
    rw [hidle w hw]
    exact Bool.false_ne_true
  have hout := h.outstanding
  have hinv := h.invocations
  rw [hnone] at hout
  rw [hleft] at hinv
  exact ⟨hout, hinv⟩

end Worker

/-! ## Builds of the flat engine -/

namespace Flat

variable {job : Job} (hflat : job.builder.engine = engine)

include hflat

theorem course_job : job.course = course job.headers job.payload := by
  unfold Job.course
  rw [hflat]
  rfl

theorem outcome_job : job.outcome =
    Builder.solo (⟨engine, job.builder.limits⟩ : Builder Id) job.host (course job.headers job.payload) := by
  unfold Job.outcome
  rw [course_job hflat]
  rfl

/-- The engine returns, and it has asked for memory if and only if the callback has run. -/
theorem outcome_returned :
    (∃ status out, job.outcome.1 = .returned status out) ∧
      job.outcome.2.grant?.isSome = !job.outcome.2.requests.isEmpty := by
  rw [outcome_job hflat]
  cases hs : size job.headers job.payload with
  | error s =>
      rw [solo_of_error _ _ hs]
      exact ⟨⟨_, _, rfl⟩, rfl⟩
  | ok n =>
      cases hg : job.builder.limits.grant job.host n with
      | granted buffer =>
          rw [solo_of_granted _ _ hs hg]
          exact ⟨⟨_, _, rfl⟩, rfl⟩
      | refused requested =>
          rw [solo_of_refused _ _ hs hg]
          exact ⟨⟨_, _, rfl⟩, rfl⟩

theorem asks_job (r : Registry Callback) : job.asks = !(job.alone r).requests.isEmpty := by
  unfold Job.asks
  cases hc : job.builder.limits.check job.headers job.payload with
  | error e =>
      rw [Job.alone_of_error hc, Job.admitted_of_error hc]
      rfl
  | ok => rw [(Job.alone_of_ok hc r).2, ← (outcome_returned hflat).2, Job.admitted_of_ok hc, Bool.true_and]

theorem alone_finished (r : Registry Callback) : ∃ result, (job.alone r).built = .finished result := by
  obtain ⟨⟨e, l⟩, host, headers, payload⟩ := job
  change e = engine at hflat
  subst hflat
  exact ⟨_, built_eq l host r headers payload⟩

omit hflat in
theorem turns_fill_le (grant : Nat → Grant) (memory : Memory) (desk : Desk) (pairs : List (Source × Source))
    (payload : Source) (n : Nat) (reply : Reply) :
    (fill pairs payload n reply).turns grant memory desk ≤ 3 := by
  unfold fill
  split
  · simp only
    split
    · exact Nat.le_add_left 1 2
    · rw [Packing.turns]
      split
      · exact Nat.le_refl _
      · exact Nat.le_succ _
  · exact Nat.le_add_left 1 2

theorem turns_job_le : job.turns ≤ 13 := by
  unfold Job.turns
  rw [course_job hflat, course, build_lend]
  cases job.builder.limits.check job.headers job.payload with
  | error e => exact Nat.le_add_left 1 12
  | ok =>
      cases size job.headers job.payload with
      | error s => exact Nat.le_add_left 4 9
      | ok n =>
          have hfill := turns_fill_le job.grant job.host.memory
            (({} : Desk).noteGrant (job.grant n) n (job.grant n).reply) (Builder.lend job.headers)
            (Source.ofBytes job.payload) n (job.grant n).reply
          simp only [Packing.turns, Bool.and_self, if_true]
          omega

end Flat

namespace Worker

theorem turns_idle_le {jobs : List Job} (hflat : ∀ job ∈ jobs, job.builder.engine = Flat.engine) :
    (jobs.map Job.turns).sum ≤ 13 * jobs.length := by
  induction jobs with
  | nil => exact Nat.le_refl _
  | cons job jobs ih =>
      have hhead := Flat.turns_job_le (hflat job List.mem_cons_self)
      have htail := ih fun j hj => hflat j (List.mem_cons_of_mem _ hj)
      rw [List.map_cons, List.sum_cons, List.length_cons]
      omega

theorem room_of_reachable {n : Nat} {r : Registry Callback} (hr : r.Reachable n) {jobss : List (List Job)}
    (hroom : n + jobss.flatten.countP Job.admitted < Word.limit) : Room r jobss := by
  have hn : n < Word.limit := Nat.lt_of_le_of_lt (Nat.le_add_right _ _) hroom
  have hinv := hr.invocations_le hn
  have hasks : jobss.flatten.countP Job.asks ≤ jobss.flatten.countP Job.admitted :=
    List.countP_mono_left fun job _ hjob => (Bool.and_eq_true_iff.mp hjob).1
  exact ⟨by rw [hr.drawn_eq hn]; exact hroom, by omega⟩

/-- Builds of the flat engine that share a registry: under every schedule each comes to what it comes to alone, if
all tokens drawn are fewer than there are words. -/
theorem concurrent_builds {n : Nat} {r : Registry Callback} (hr : r.Reachable n) (jobss : List (List Job))
    (hflat : ∀ jobs ∈ jobss, ∀ job ∈ jobs, job.builder.engine = Flat.engine)
    (hwords : n + jobss.flatten.countP Job.admitted < Word.limit) (schedule : List Nat) :
    let g := (crew r jobss).run step schedule
    g.members.length = jobss.length ∧
    (∀ i jobs, jobss[i]? = some jobs → ∃ w made, g.members[i]? = some w ∧ jobs = made ++ w.jobs ∧
      w.built.reverse = made.map (fun job => (job.alone {}).built) ∧
      (∀ b ∈ w.built, ∃ result, b = .finished result) ∧
      w.stage ≠ some .aborted ∧ (∀ t text desk, w.stage ≠ some (.closing t (.panicked text) desk)) ∧
      (w.jobs ≠ [] → (step g.shared w).isSome = true) ∧
      (13 * jobs.length ≤ schedule.count i → w.jobs = [])) ∧
    (g.members.Pairwise fun v w => ∀ t, v.token? = some t → w.token? ≠ some t) ∧
    g.shared.outstanding = r.outstanding + g.members.countP registered ∧
    ((∀ w ∈ g.members, w.jobs = []) →
      g.shared.outstanding = r.outstanding ∧
      g.shared.invocations =
        r.invocations + jobss.flatten.countP fun job => !(job.alone {}).requests.isEmpty) := by
  intro g
  have hends : ∀ jobs ∈ jobss, ∀ job ∈ jobs, job.outcome.1 ≠ .aborted := by
    intro jobs hjobs job hjob he
    obtain ⟨⟨status, out, hout⟩, -⟩ := Flat.outcome_returned (hflat jobs hjobs job hjob)
    rw [hout] at he
    cases he
  have hroom := room_of_reachable hr hwords
  have hstart := isolated_crew (hr.sound (Nat.lt_of_le_of_lt (Nat.le_add_right _ _) hwords)) hends
  have hg : Isolated r jobss g := hstart.run hroom schedule
  refine ⟨hg.length, ?_, hg.apart, hg.outstanding, ?_⟩
  · intro i jobs hi
    have hmem := hflat jobs (List.mem_of_getElem? hi)
    obtain ⟨w, hw, made, hjobs, hbuilt⟩ := hg.follows i jobs hi
    have hsound := hg.workers w (List.mem_of_getElem? hw)
    refine ⟨w, made, hw, hjobs, hbuilt, ?_, ?_, ?_, isSome_step hsound, ?_⟩
    · intro b hb
      have hb' : b ∈ made.map fun job => (job.alone {}).built := by
        rw [← hbuilt]
        exact List.mem_reverse.mpr hb
      obtain ⟨job, hjob, rfl⟩ := List.mem_map.mp hb'
      exact Flat.alone_finished (hmem job (by rw [hjobs]; exact List.mem_append_left _ hjob)) {}
    · intro hs
      obtain ⟨_, _, _, _, habort⟩ := hsound.stage _ hs
      exact habort
    · intro t text desk hs
      obtain ⟨job, rest, hrest, -, -, -, hend⟩ := hsound.stage _ hs
      have hjob : job ∈ jobs := by
        rw [hjobs, hrest]
        exact List.mem_append_right _ List.mem_cons_self
      obtain ⟨⟨status, out, hout⟩, -⟩ := Flat.outcome_returned (hmem job hjob)
      rw [← hend] at hout
      cases hout
    · intro hcount
      have hidle : (crew r jobss).members[i]? = some { jobs } := by
        change (jobss.map _)[i]? = _
        rw [List.getElem?_map, hi]
        rfl
      exact hstart.jobs_eq_nil hroom hidle hw (Nat.le_trans (turns_idle_le hmem) hcount)
  · intro hdone
    obtain ⟨hout, hinv⟩ := hg.all_made hdone
    refine ⟨hout, ?_⟩
    rw [hinv, List.countP_congr]
    intro job hjob
    obtain ⟨jobs, hjobs, hjob⟩ := List.mem_flatten.mp hjob
    rw [Flat.asks_job (hflat jobs hjobs job hjob) {}]

/-- Two workers that take turns on a new registry, with two builds and one: in the end all three are made. -/
theorem concurrent_builds_two_workers :
    let job : Job := ⟨⟨Flat.engine, {}⟩, .page, [⟨#[7], #[1]⟩], #[2]⟩
    let g := (crew {} [[job, job], [job]]).run step (List.replicate 26 [0, 1]).flatten
    (∀ w ∈ g.members, w.jobs = []) ∧ g.shared.outstanding = 0 ∧ g.shared.invocations = 3 := by
  intro job g
  have hflat : ∀ jobs ∈ [[job, job], [job]], ∀ j ∈ jobs, j.builder.engine = Flat.engine := by
    intro jobs hjobs j hj
    simp only [List.mem_cons, List.not_mem_nil, or_false] at hjobs
    rcases hjobs with rfl | rfl
    all_goals
      simp only [List.mem_cons, List.not_mem_nil, or_false, or_self] at hj
      rw [hj]
  have hwords : 0 + [[job, job], [job]].flatten.countP Job.admitted < Word.limit := by decide
  obtain ⟨hlength, hmembers, -, -, hmade⟩ :=
    concurrent_builds Registry.reachable_empty [[job, job], [job]] hflat hwords
      (List.replicate 26 [0, 1]).flatten
  have hdone : ∀ w ∈ g.members, w.jobs = [] := by
    intro w hw
    obtain ⟨i, hi⟩ := List.mem_iff_getElem?.mp hw
    have hlt : i < 2 := by
      rw [← show g.members.length = 2 from hlength]
      exact (List.getElem?_eq_some_iff.mp hi).1
    obtain ⟨w', -, hw', -, -, -, -, -, -, hturns⟩ := hmembers i _ (List.getElem?_eq_getElem hlt)
    rw [show g.members[i]? = some w' from hw'] at hi
    cases hi
    apply hturns
    obtain rfl | rfl : i = 0 ∨ i = 1 := by omega
    · exact (by decide : 13 * 2 ≤ (List.replicate 26 [0, 1]).flatten.count 0)
    · exact (by decide : 13 * 1 ≤ (List.replicate 26 [0, 1]).flatten.count 1)
  have hasks : (!(job.alone {}).requests.isEmpty) = true := (Flat.asks_job rfl {}).symm.trans (by decide)
  obtain ⟨hout, hinv⟩ := hmade hdone
  have hcount : [[job, job], [job]].flatten.countP (fun job => !(job.alone {}).requests.isEmpty) = 3 := by
    simp only [List.flatten_cons, List.flatten_nil, List.cons_append, List.nil_append, List.countP_cons, hasks,
      if_true, List.countP_nil]
  refine ⟨hdone, hout, ?_⟩
  rw [hinv, hcount]

end Worker

end PacketHost
