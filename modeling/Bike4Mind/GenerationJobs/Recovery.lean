import Bike4Mind.GenerationJobs.Fencing

/-!
What the sweep can still find. A job that nobody works on any more is picked up again through
`findStalled`, by its `nextPollAt` while it is in flight and by its terminal marks afterwards.
-/

namespace Bike4Mind.GenerationJobs
open Concurrency

/-- Every late enough sweep matches the job. -/
def Job.Swept (job : Job) : Prop :=
  ∃ since, ∀ overdueBefore, since ≤ overdueBefore →
    (job.stalledInFlight overdueBefore || job.stalledTerminal overdueBefore) = true

/-- The stored job is done with, or a sweep will pick it up. -/
def Recoverable (w : World) : Prop :=
  ∃ job, w.job = some job ∧ ((job.state.terminal = true ∧ job.terminalHandledAt ≠ none) ∨ job.Swept)

def Job.scheduled (job : Job) : Bool := job.state.terminal || job.nextPollAt.isSome

theorem swept_inFlight {job : Job} {nextPollAt : Time} (live : job.state.terminal = false)
    (poll : job.nextPollAt = some nextPollAt) : job.Swept := by
  refine ⟨nextPollAt + 1, fun overdueBefore late => ?_⟩
  have overdue : nextPollAt < overdueBefore := Int.add_one_le_iff.mp late
  simp [Job.stalledInFlight, live, poll, overdue]

theorem swept_terminal {job : Job} (terminal : job.state.terminal = true) (unhandled : job.terminalHandledAt = none) :
    job.Swept := by
  cases claimed : job.terminalHandlingClaimedAt with
  | none =>
    refine ⟨job.updatedAt + 1, fun overdueBefore late => ?_⟩
    have overdue : job.updatedAt < overdueBefore := Int.add_one_le_iff.mp late
    simp [Job.stalledTerminal, terminal, unhandled, claimed, overdue]
  | some claimedAt =>
    refine ⟨claimedAt + 1, fun overdueBefore late => ?_⟩
    have overdue : claimedAt < overdueBefore := Int.add_one_le_iff.mp late
    simp [Job.stalledTerminal, terminal, unhandled, claimed, overdue]

theorem recoverable_iff_scheduled {w : World} : Recoverable w ↔ ∃ job, w.job = some job ∧ job.scheduled = true := by
  constructor
  · rintro ⟨job, stored, ⟨terminal, _⟩ | ⟨since, swept⟩⟩
    · exact ⟨job, stored, by simp [Job.scheduled, terminal]⟩
    · refine ⟨job, stored, ?_⟩
      have found := swept since (le_refl _)
      cases terminal : job.state.terminal with
      | true => simp [Job.scheduled, terminal]
      | false =>
        cases poll : job.nextPollAt with
        | none => simp [Job.stalledInFlight, Job.stalledTerminal, terminal, poll] at found
        | some nextPollAt => simp [Job.scheduled, poll]
  · rintro ⟨job, stored, scheduled⟩
    refine ⟨job, stored, ?_⟩
    cases terminal : job.state.terminal with
    | true =>
      by_cases unhandled : job.terminalHandledAt = none
      · exact Or.inr (swept_terminal terminal unhandled)
      · exact Or.inl ⟨rfl, unhandled⟩
    | false =>
      obtain ⟨nextPollAt, poll⟩ := Option.isSome_iff_exists.mp (by simpa [Job.scheduled, terminal] using scheduled)
      exact Or.inr (swept_inFlight terminal poll)

/-- A sweep whose limits are not exceeded returns every job its filters match. -/
theorem findStalled_finds {jobs : List Job} {job : Job} {overdueBefore : Time} {limits : StalledJobLimits}
    (stored : job ∈ jobs) (inFlight : jobs.length ≤ limits.inFlight) (terminal : jobs.length ≤ limits.terminal)
    (stalled : (job.stalledInFlight overdueBefore || job.stalledTerminal overdueBefore) = true) :
    job ∈ findStalled jobs overdueBefore limits := by
  have within : ∀ (p : Job → Bool) (le : Job → Job → Bool) (limit : Nat), jobs.length ≤ limit →
      ((jobs.filter p).mergeSort le).take limit = (jobs.filter p).mergeSort le := by
    intro p le limit bound
    apply List.take_of_length_le
    rw [List.length_mergeSort]
    exact (List.length_filter_le p jobs).trans bound
  unfold findStalled
  rw [within _ _ _ inFlight, within _ _ _ terminal, List.mem_append, List.mem_mergeSort, List.mem_mergeSort,
    List.mem_filter, List.mem_filter]
  rcases Bool.or_eq_true_iff.mp stalled with found | found
  · exact Or.inl ⟨stored, found⟩
  · exact Or.inr ⟨stored, found⟩

/-! ### Which write loses a job -/

/-- A sync mark makes the job `running` without scheduling it: the job has to be scheduled already. -/
def polled (w : World) : Op → Bool
  | .markSubmitAttempted _ true => w.job.all (·.nextPollAt.isSome)
  | _ => true

def MarksPolled (_ : Nat) (w : World) (op : Op) (x : Choice) : Prop :=
  w.Lands op x = true → polled w op = true

instance {i : Nat} {w : World} {op : Op} {x : Choice} : Decidable (MarksPolled i w op x) :=
  inferInstanceAs (Decidable (_ → _))

section Steps
variable {ψ : Type} {E : Engine} {P : SettlementProtocol ψ}
variable {i : Nat} {w w' : World} {op : Op} {x : Choice} {reply : Except JsError op.Value} {p q : Phase ψ}

def Scheduled (w : World) (_ : Nat → Phase ψ) : Prop := ∃ job, w.job = some job ∧ job.scheduled = true

/-- The commits of the engine keep a job scheduled: a terminal one needs no poll, and an advance sets
the next. -/
theorem commit_scheduled {update : Commit} {guard : CommitGuard} {job : Job} {clock : Time}
    (permitted : Permits E p (.commit update guard)) (scheduled : job.scheduled = true) :
    ({ update.apply job with leaseUntil := none, updatedAt := clock } : Job).scheduled = true := by
  have ended : ∀ s, Terminates s update → (update.apply job).scheduled = true := by
    intro s h
    simp [Job.scheduled, Commit.apply, h.state, h.terminal]
  have advanced : Advances update → (update.apply job).scheduled = true := by
    intro h
    obtain ⟨t, poll⟩ := h.poll
    simp [Job.scheduled, Commit.apply, poll]
  change (update.apply job).scheduled = true
  cases permitted with
  | inert h => cases h
  | failBeforeStart h | giveUp _ h | refuse h => exact ended _ h
  | release | close => exact scheduled
  | answer applies =>
    cases applies with
    | terminates s h => exact ended s h
    | advances h | retries h => exact advanced h

theorem scheduled_step {ph : Nat → Phase ψ} (inv : Scheduled w ph) (marks : MarksPolled i w op x)
    (executed : World.exec i w op x = some (reply, w')) (lives : Lives E P (ph i) op reply q) :
    Scheduled w' (Function.update ph i q) := by
  obtain ⟨job, stored, scheduled⟩ := inv
  obtain ⟨effect, _⟩ := exec_effect executed
  cases effect with
  | missed same log => exact ⟨job, by rw [same, stored], scheduled⟩
  | wrote job' written same log lands =>
    refine ⟨job', same, ?_⟩
    cases op with
    | createJob input => exact (create_refused (lives_op lives rfl).1).elim
    | acquireLease now token =>
      obtain ⟨before, present, _, _, rfl⟩ := written_acquire written
      cases stored.symm.trans present
      exact scheduled
    | markSubmitAttempted at' markRunning =>
      obtain ⟨before, present, _, rfl⟩ := written_mark written
      cases stored.symm.trans present
      cases markRunning with
      | false => exact scheduled
      | true =>
        have polled : job.nextPollAt.isSome = true := by simpa [polled, stored] using marks lands
        simp [Job.scheduled, polled]
    | commit update guard =>
      obtain ⟨before, present, _, rfl⟩ := written_commit written
      cases stored.symm.trans present
      exact commit_scheduled (lives_op lives rfl).1 scheduled
    | _ =>
      obtain ⟨before, present, framed⟩ := written_framed written rfl
      cases stored.symm.trans present
      have same := framed.work rfl
      have state : job'.state = job.state := congrArg Work.state same
      have poll : job'.nextPollAt = job.nextPollAt := congrArg Work.nextPollAt same
      rw [Job.scheduled, state, poll]
      exact scheduled

theorem scheduled_preserves : Preserves semantics (Lives E P) MarksPolled Scheduled where
  env inv moved := by
    rw [Scheduled, (World.move_some moved).1]
    exact inv
  step inv marks executed lives := scheduled_step inv marks executed lives

theorem mark_strands (broken : ¬ MarksPolled i w op x) :
    ∃ reply w', World.exec i w op x = some (reply, w') ∧ ¬ Recoverable w' := by
  obtain ⟨lands, unpolled⟩ := Classical.not_imp.mp broken
  obtain ⟨reply, w', job', executed, written, stored⟩ := lands_exec lands
  refine ⟨reply, w', executed, fun recoverable => ?_⟩
  obtain ⟨job, present, scheduled⟩ := recoverable_iff_scheduled.mp recoverable
  obtain rfl : job' = job := Option.some.inj (stored.symm.trans present)
  cases op with
  | markSubmitAttempted at' markRunning =>
    cases markRunning with
    | false => exact unpolled rfl
    | true =>
      obtain ⟨before, found, _, rfl⟩ := written_mark written
      have unscheduled : before.nextPollAt = none := by simpa [polled, found] using unpolled
      simp [Job.scheduled, unscheduled, JobState.terminal] at scheduled
  | _ => exact unpolled rfl

end Steps

/-! ### Every run -/

section Runs
variable {E : Engine} {job : Job} {clock : Time} {calls : Nat → Call} {sched : List JobAction}

/-- A job created with its first poll set stays recoverable in exactly the runs in which no sync mark
lands on an unscheduled job. -/
theorem recoverable_iff_marks_polled (created : job.nextPollAt ≠ none) :
    semantics.Always (fun c => Recoverable c.store) (E.start job clock calls) sched ↔
      semantics.Meets MarksPolled (E.start job clock calls) sched := by
  have initial : Scheduled (.holding job clock) fun i => (.idle (calls i) : Phase Unit) :=
    ⟨job, rfl, by simp [Job.scheduled, Option.isSome_iff_ne_none.mpr created]⟩
  exact always_iff_meets scheduled_preserves (fun inv => recoverable_iff_scheduled.mpr inv) mark_strands (start_any initial)

end Runs

theorem recoverable_until_marked :
    semantics.Always (fun c => Recoverable c.store) LateMark.start LateMark.overtaken :=
  (recoverable_iff_marks_polled (by decide)).mpr (by decide)

/-- The late mark leaves the finished job running with nothing to poll it. -/
theorem late_mark_strands : ¬ ∀ (E : Engine) (job : Job) (clock : Time) (calls : Nat → Call) (sched : List JobAction)
    (c : JobConfig), job.state = .pending → job.nextPollAt ≠ none →
    semantics.run (E.start job clock calls) sched = some c → Recoverable c.store := by
  intro recoverable
  have ends : (semantics.run LateMark.start (LateMark.overtaken ++ [.resume 0 .resolves])).map
      (fun c => c.store.job.map Job.scheduled) = some (some false) := by decide
  obtain ⟨c, ran, stranded⟩ := Option.map_eq_some_iff.mp ends
  have found := recoverable _ _ _ _ _ c (by rfl) (by decide) ran
  obtain ⟨job, stored, scheduled⟩ := recoverable_iff_scheduled.mp found
  simp [stored, scheduled] at stranded

end Bike4Mind.GenerationJobs
