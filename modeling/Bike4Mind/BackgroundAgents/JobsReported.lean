import Bike4Mind.BackgroundAgents.TurnGroups

/-! Every step of the manager that meets the condition keeps the slots, the line, the futures and the accounts right. -/

namespace Bike4Mind.BackgroundAgents

open Collections

namespace Manager

def issued (m : Manager) : List Notification := m.drained ++ m.pendingNotifications

def book (m : Manager) : Book :=
  { shapes := fun p => (m.objects[p]?).map shapeOf
    held := m.jobs.get?
    flight := fun p => p ∈ m.inFlight
    turnGroups := m.turnGroups
    issued := m.issued
    opened := m.groupsOpened }

structure Sound (m : Manager) : Prop where
  tracked : Tracked m
  lined : Lined m m.queue
  full : m.queue ≠ [] → (m.maxConcurrent : Int) ≤ m.runningCount
  accounts : m.book.Sound

/-- What a step must meet: an id no job has had, no settlement of a delegation whose job was cancelled while it ran, no cancellation of a
queued job of a turn, and no cleanup that takes away a job of a group still open. -/
def Meets (m : Manager) (event : Event) : Prop :=
  match event with
  | .spawn _ id | .spawnWithFuture _ id => ∀ internal ∈ m.objects, internal.job.id ≠ id
  | .cancelJob id _ => ∀ internal, m.get? id = some internal → internal.job.status = .queued → truthy internal.job.turnId = none
  | .resolves place _ _ | .rejects place _ _ =>
    (∀ internal, m.objects[place]? = some internal → internal.aborted = false) ∧
      ∀ m', m.step event = some m' → ∀ t group, m'.turnGroups.get? t = some group → ∀ id ∈ group.jobIds, m'.jobs.get? id ≠ none
  | .cleanupOldJobs now maxAgeMs =>
    ∀ t group, m.turnGroups.get? t = some group → ∀ id ∈ group.jobIds, (m.cleanupOldJobs now maxAgeMs).jobs.get? id ≠ none
  | _ => True

end Manager

open Manager

/-- What is final of a job: a terminal status and the outcome of its future. -/
def Settles (m m' : Manager) : Prop :=
  ∀ (p : Nat) (internal : InternalJob), m.objects[p]? = some internal → isTerminalStatus internal.job.status = true →
    ∃ later, m'.objects[p]? = some later ∧ later.job.status = internal.job.status ∧ later.future = internal.future

theorem Settles.refl (m : Manager) : Settles m m := fun _ internal here _ => ⟨internal, here, rfl, rfl⟩

theorem Settles.trans {m m' m'' : Manager} (one : Settles m m') (two : Settles m' m'') : Settles m m'' := by
  intro p internal here ended
  obtain ⟨later, there, status, future⟩ := one p internal here ended
  obtain ⟨last, at', status', future'⟩ := two p later there (status ▸ ended)
  exact ⟨last, at', status'.trans status, future'.trans future⟩

theorem Settles.of_objects {m m' : Manager} (same : m'.objects = m.objects) : Settles m m' := fun _ internal here _ =>
  ⟨internal, same ▸ here, rfl, rfl⟩

theorem Settles.put {m : Manager} {p : Nat} {internal : InternalJob} (here : m.objects[p]? = some internal)
    (active : isTerminalStatus internal.job.status = false) (changed : InternalJob) : Settles m (m.put p changed) := by
  intro q one there ended
  refine ⟨one, ?_, rfl, rfl⟩
  rw [objects_put here, if_neg]
  · exact there
  · rintro rfl
    cases here.symm.trans there
    rw [active] at ended
    cases ended

theorem Settles.advanced {m m' : Manager} (advanced : Advanced m m') : Settles m m' := by
  intro p internal here ended
  rcases advanced.objects p with same | ⟨old, there, queued, _⟩
  · exact ⟨internal, same.trans here, rfl, rfl⟩
  · cases here.symm.trans there
    rw [queued] at ended
    cases ended

/-! ### Working on the queue -/

theorem shape_started (internal : InternalJob) (queued : internal.job.status = .queued) : shapeOf (started internal) = shapeOf internal := by
  simp [shapeOf, started, queued, stageOf]

theorem accounts_advanced {m m' : Manager} (accounts : m.book.Sound) (advanced : Advanced m m') : m'.book.Sound := by
  have same : m'.book = { m.book with flight := fun p => p ∈ m'.inFlight } := by
    unfold book issued
    rw [advanced.jobs, advanced.turnGroups, advanced.pendingNotifications, advanced.drained, advanced.groupsOpened]
    congr 1
    funext p
    change _ = (m.objects[p]?).map shapeOf
    rcases advanced.objects p with same | ⟨internal, here, queued, result⟩
    · rw [same]
    · rw [result, here, Option.map_some, Option.map_some, shape_started internal queued]
  rw [same]
  exact accounts.advance _ advanced.flight

theorem processQueue_sound {m : Manager} (tracked : Tracked m) (lined : Lined m m.queue) (accounts : m.book.Sound) :
    (processQueue m.queue m).Sound ∧ Settles m (processQueue m.queue m) := by
  obtain ⟨tracked', lined', full, advanced⟩ := processQueue_spec m.queue tracked lined
  exact ⟨⟨tracked', lined', full, accounts_advanced accounts advanced⟩, Settles.advanced advanced⟩

theorem onFinally_sound {m : Manager} (sound : m.Sound) {place : Nat} (member : place ∈ m.settling) :
    (onFinally { m with settling := m.settling.erase place }).Sound ∧ Settles m (onFinally { m with settling := m.settling.erase place }) := by
  have freed : Lined { m with settling := m.settling.erase place, runningCount := m.runningCount - 1 } m.queue := by
    refine ⟨?_, ?_, sound.lined.line, sound.lined.order, sound.lined.past, sound.lined.ahead⟩
    · have count := sound.lined.count
      have length := List.length_erase_of_mem member
      have positive := List.length_pos_of_mem member
      change m.runningCount - 1 = (m.running : Int) + (m.settling.erase place).length
      omega
    · have cap := sound.lined.cap
      change m.runningCount - 1 ≤ m.maxConcurrent
      omega
  have tracked : Tracked { m with settling := m.settling.erase place, runningCount := m.runningCount - 1 } := sound.tracked.same rfl rfl rfl
  obtain ⟨sound', settles⟩ := processQueue_sound tracked freed sound.accounts
  exact ⟨sound', (Settles.of_objects rfl).trans settles⟩

/-! ### Cleanup -/

theorem get?_erased (ids : List String) (jobs : OrderedMap String Nat) (id : String) :
    (ids.foldl OrderedMap.erase jobs).get? id = if id ∈ ids then none else jobs.get? id := by
  induction ids generalizing jobs with
  | nil => rfl
  | cons first ids ih =>
    rw [List.foldl_cons, ih, OrderedMap.get?_erase]
    by_cases here : id = first
    · simp [here]
    · simp [here]

def Finished (m : Manager) (id : String) : Prop := ∃ internal, m.get? id = some internal ∧ isTerminalStatus internal.job.status = true

theorem aged_finished {m : Manager} {now maxAgeMs : Nat} {id : String} (member : id ∈ m.aged now maxAgeMs) : Finished m id := by
  obtain ⟨_, old⟩ := List.mem_filter.mp member
  cases found : m.get? id with
  | none =>
    rw [found] at old
    cases old
  | some internal =>
    rw [found] at old
    exact ⟨internal, found, (Bool.and_eq_true_iff.mp old).1⟩

theorem excess_finished {m : Manager} {id : String} (member : id ∈ m.excess) : Finished m id := by
  unfold excess at member
  split at member
  · have listed := (List.mergeSort_perm _ _).mem_iff.mp (List.mem_of_mem_take member)
    obtain ⟨_, ended⟩ := List.mem_filter.mp listed
    cases found : m.get? id with
    | none =>
      rw [found] at ended
      cases ended
    | some internal =>
      rw [found] at ended
      exact ⟨internal, found, ended⟩
  · cases member

/-- The jobs after a cleanup: as before, less some that are finished. -/
structure Cleaned (m m' : Manager) : Prop where
  rest : m' = { m with jobs := m'.jobs }
  less : ∀ id, m'.jobs.get? id = m.jobs.get? id ∨ m'.jobs.get? id = none
  finished : ∀ id, m'.jobs.get? id = none → m.jobs.get? id = none ∨ Finished m id

theorem removed_cleaned {m : Manager} {ids : List String} (finished : ∀ id ∈ ids, Finished m id) : Cleaned m (m.removed ids) := by
  refine ⟨rfl, fun id => ?_, fun id none => ?_⟩
  · change (ids.foldl OrderedMap.erase m.jobs).get? id = _ ∨ (ids.foldl OrderedMap.erase m.jobs).get? id = _
    rw [get?_erased]
    split
    · exact .inr rfl
    · exact .inl rfl
  · change (ids.foldl OrderedMap.erase m.jobs).get? id = _ at none
    rw [get?_erased] at none
    split at none
    · rename_i member
      exact .inr (finished id member)
    · exact .inl none

theorem Cleaned.trans {m m' m'' : Manager} (one : Cleaned m m') (two : Cleaned m' m'') : Cleaned m m'' := by
  have objects : m'.objects = m.objects := by rw [one.rest]
  refine ⟨?_, fun id => ?_, fun id none => ?_⟩
  · rw [two.rest, one.rest]
  · rcases two.less id with same | none
    · rw [same]
      exact one.less id
    · exact .inr none
  · rcases two.finished id none with none' | ⟨internal, found, ended⟩
    · exact one.finished id none'
    · rcases one.less id with same | none'
      · refine .inr ⟨internal, ?_, ended⟩
        unfold get? at found ⊢
        rw [same, objects] at found
        exact found
      · exact one.finished id none'

theorem cleanupOldJobs_cleaned (m : Manager) (now maxAgeMs : Nat) : Cleaned m (m.cleanupOldJobs now maxAgeMs) :=
  (removed_cleaned fun _ => aged_finished).trans (removed_cleaned fun _ => excess_finished)

theorem Cleaned.tracked {m m' : Manager} (cleaned : Cleaned m m') (tracked : Tracked m) : Tracked m' := by
  have objects : m'.objects = m.objects := by rw [cleaned.rest]
  have inFlight : m'.inFlight = m.inFlight := by rw [cleaned.rest]
  constructor <;> simp only [objects, inFlight]
  · exact tracked.ids
  · intro id p found
    rcases cleaned.less id with same | none
    · exact tracked.found id p (same ▸ found)
    · rw [none] at found
      cases found
  · intro p internal here active
    have found := tracked.kept p internal here active
    rcases cleaned.less internal.job.id with same | none
    · exact same.trans found
    · rcases cleaned.finished _ none with none' | ⟨other, there, ended⟩
      · rw [none'] at found
        cases found
      · unfold get? at there
        rw [found, Option.bind_some, here] at there
        cases there
        rw [active] at ended
        cases ended
  · exact tracked.distinct
  · exact tracked.delegated
  · exact tracked.flight
  · exact tracked.unaborted
  · exact tracked.futures

theorem Cleaned.accounts {m m' : Manager} (cleaned : Cleaned m m') (accounts : m.book.Sound)
    (spared : ∀ t group, m.turnGroups.get? t = some group → ∀ id ∈ group.jobIds, m'.jobs.get? id ≠ none) : m'.book.Sound := by
  have same : m'.book = { m.book with held := m'.jobs.get? } := by
    rw [cleaned.rest]
    rfl
  rw [same]
  exact accounts.forget _ cleaned.less spared

theorem Cleaned.lined {m m' : Manager} (cleaned : Cleaned m m') {line : List String} (lined : Lined m line) : Lined m' line := by
  rw [cleaned.rest]
  exact ⟨lined.count, lined.cap, lined.line, lined.order, lined.past, lined.ahead⟩

theorem cleanupOldJobs_sound {m : Manager} (sound : m.Sound) (now maxAgeMs : Nat)
    (spared : ∀ t group, m.turnGroups.get? t = some group → ∀ id ∈ group.jobIds, (m.cleanupOldJobs now maxAgeMs).jobs.get? id ≠ none) :
    (m.cleanupOldJobs now maxAgeMs).Sound ∧ Settles m (m.cleanupOldJobs now maxAgeMs) := by
  have cleaned := cleanupOldJobs_cleaned m now maxAgeMs
  refine ⟨⟨cleaned.tracked sound.tracked, ?_, ?_, cleaned.accounts sound.accounts spared⟩, Settles.of_objects (by rw [cleaned.rest])⟩
  · have queue : (m.cleanupOldJobs now maxAgeMs).queue = m.queue := by rw [cleaned.rest]
    rw [queue]
    exact cleaned.lined sound.lined
  · rw [cleaned.rest]
    exact sound.full

/-! ### Cancellation -/

section Cancel
variable {m : Manager} {p : Nat} {internal changed : InternalJob}

@[simp] theorem settle_job (internal : InternalJob) (outcome : Future) : (internal.settle outcome).job = internal.job := by
  unfold InternalJob.settle
  split <;> rfl

@[simp] theorem settle_aborted (internal : InternalJob) (outcome : Future) : (internal.settle outcome).aborted = internal.aborted := by
  unfold InternalJob.settle
  split <;> rfl

theorem settle_future {internal : InternalJob} {outcome future : Future} (final : outcome ≠ .pending)
    (result : (internal.settle outcome).future = some future) : future ≠ .pending := by
  unfold InternalJob.settle at result
  split at result
  · cases result
    exact final
  · rename_i settled
    rintro rfl
    exact settled result

theorem book_put (here : m.objects[p]? = some internal) :
    (m.put p changed).book = { m.book with shapes := Function.update m.book.shapes p (some (shapeOf changed)) } := by
  unfold book
  congr 1
  funext q
  rw [objects_put here]
  by_cases same : q = p
  · subst same
    rw [if_pos rfl, Function.update_self]
    rfl
  · rw [if_neg same, Function.update_of_ne same]

theorem lined_leaves {line : List String} (lined : Lined m line) (here : m.objects[p]? = some internal) (runs : internal.job.status = .running)
    (ended : isTerminalStatus changed.job.status = true) : (m.put p changed).running + 1 = m.running ∧ line = (m.put p changed).waiting ∧
      (∀ q ∈ m.started, ∃ one : InternalJob, (m.put p changed).objects[q]? = some one ∧ one.job.status ≠ .queued) ∧
      ∀ (q : Nat) (one : InternalJob), (m.put p changed).objects[q]? = some one → one.job.status = .queued → ∀ r ∈ m.started, r < q := by
  have idle : changed.job.status ≠ .running ∧ changed.job.status ≠ .queued := by
    constructor <;> (intro same; rw [same] at ended; cases ended)
  refine ⟨?_, ?_, fun q member => ?_, fun q one there queued r member => ?_⟩
  · have counted := running_put here changed
    rw [if_pos runs, if_neg idle.1] at counted
    exact counted
  · rw [waiting_put_idle here (by rw [runs]; decide) idle.2]
    exact lined.line
  · rw [objects_put here]
    split
    · exact ⟨changed, rfl, idle.2⟩
    · exact lined.past q member
  · rw [objects_put here] at there
    split at there
    · cases there
      exact (idle.2 queued).elim
    · exact lined.ahead q one there queued r member

theorem cancel_queued_sound (sound : m.Sound) (here : m.objects[p]? = some internal) (queued : internal.job.status = .queued)
    (alone : truthy internal.job.turnId = none) (job : changed.job.id = internal.job.id ∧ changed.job.turnId = internal.job.turnId)
    (cancelled : changed.job.status = .cancelled) (futures : ∀ future, changed.future = some future → future ≠ .pending) :
    (Manager.put { m with queue := m.queue.filter (· ≠ internal.job.id) } p changed).Sound := by
  have active : isTerminalStatus internal.job.status = false := by rw [queued]; rfl
  have ended : isTerminalStatus changed.job.status = true := by rw [cancelled]; rfl
  have idle := not_inFlight sound.tracked here queued
  have leaves : (m.put p changed).waiting = m.waiting.filter (· ≠ internal.job.id) :=
    waiting_put_leaves sound.tracked here queued (by rw [cancelled]; decide)
  refine ⟨?_, ?_, ?_, ?_⟩
  · have flight : FlightOf m p changed m.inFlight :=
      ⟨sound.tracked.distinct, fun _ _ => Iff.rfl, (fun runs => by rw [cancelled] at runs; cases runs), fun member => (idle member).elim⟩
    have unaborted : isTerminalStatus changed.job.status = false → changed.aborted = false := fun waits => by rw [ended] at waits; cases waits
    refine (sound.tracked.change here active job.1 flight unaborted fun future promised => ?_).same rfl rfl rfl
    rw [ended]
    exact iff_of_false (futures future promised) (by decide)
  · refine ⟨?_, sound.lined.cap, ?_, sound.lined.order, ?_, ?_⟩
    · have counted := running_put here changed
      have count := sound.lined.count
      rw [queued, cancelled] at counted
      simp only [reduceCtorEq, if_false, Nat.add_zero] at counted
      change m.runningCount = ((m.put p changed).running : Int) + m.settling.length
      rw [counted]
      exact count
    · change m.queue.filter _ = (m.put p changed).waiting
      rw [leaves, sound.lined.line]
    · intro q member
      change ∃ one : InternalJob, (m.put p changed).objects[q]? = some one ∧ _
      rw [objects_put here]
      split
      · exact ⟨changed, rfl, by rw [cancelled]; decide⟩
      · exact sound.lined.past q member
    · intro q one there waits r member
      change (m.put p changed).objects[q]? = some one at there
      rw [objects_put here] at there
      split at there
      · cases there
        rw [cancelled] at waits
        cases waits
      · exact sound.lined.ahead q one there waits r member
  · intro waits
    apply sound.full
    rintro empty
    apply waits
    change m.queue.filter _ = []
    rw [empty, List.filter_nil]
  · have book : (Manager.put { m with queue := m.queue.filter (· ≠ internal.job.id) } p changed).book = (m.put p changed).book := rfl
    have shape : shapeOf changed = { shapeOf internal with stage := .cancelled } := by
      unfold shapeOf
      rw [job.1, job.2, cancelled]
      rfl
    rw [book, book_put here, shape]
    refine sound.accounts.cancel ?_ ?_ (.inl alone)
    · exact congrArg (Option.map shapeOf) here
    · change stageOf internal.job.status = .active
      rw [queued]
      rfl

theorem cancel_running_sound (sound : m.Sound) (here : m.objects[p]? = some internal) (runs : internal.job.status = .running)
    (job : changed.job.id = internal.job.id ∧ changed.job.turnId = internal.job.turnId) (cancelled : changed.job.status = .cancelled)
    (aborted : changed.aborted = true) (futures : ∀ future, changed.future = some future → future ≠ .pending) :
    (processQueue m.queue { m.put p changed with runningCount := m.runningCount - 1 }).Sound ∧
      Settles m (processQueue m.queue { m.put p changed with runningCount := m.runningCount - 1 }) := by
  have active : isTerminalStatus internal.job.status = false := by rw [runs]; rfl
  have ended : isTerminalStatus changed.job.status = true := by rw [cancelled]; rfl
  have under := sound.tracked.delegated p internal here runs
  have tracked : Tracked { m.put p changed with runningCount := m.runningCount - 1 } := by
    have flight : FlightOf m p changed m.inFlight :=
      ⟨sound.tracked.distinct, fun _ _ => Iff.rfl, fun _ => under, fun _ => .inr ⟨cancelled, aborted⟩⟩
    have unaborted : isTerminalStatus changed.job.status = false → changed.aborted = false := fun waits => by rw [ended] at waits; cases waits
    refine (sound.tracked.change here active job.1 flight unaborted fun future promised => ?_).same rfl rfl rfl
    rw [ended]
    exact iff_of_false (futures future promised) (by decide)
  obtain ⟨fewer, line, past, ahead⟩ := lined_leaves sound.lined here runs ended
  have lined : Lined { m.put p changed with runningCount := m.runningCount - 1 } m.queue := by
    have count := sound.lined.count
    have cap := sound.lined.cap
    refine ⟨?_, ?_, line, sound.lined.order, past, ahead⟩
    · change m.runningCount - 1 = ((m.put p changed).running : Int) + m.settling.length
      omega
    · change m.runningCount - 1 ≤ m.maxConcurrent
      omega
  have accounts : (Manager.book { m.put p changed with runningCount := m.runningCount - 1 }).Sound := by
    have book : Manager.book { m.put p changed with runningCount := m.runningCount - 1 } = (m.put p changed).book := rfl
    have shape : shapeOf changed = { shapeOf internal with stage := .cancelled } := by
      unfold shapeOf
      rw [job.1, job.2, cancelled]
      rfl
    rw [book, book_put here, shape]
    refine sound.accounts.cancel ?_ ?_ (.inr under)
    · exact congrArg (Option.map shapeOf) here
    · change stageOf internal.job.status = .active
      rw [runs]
      rfl
  obtain ⟨sound', settles⟩ := processQueue_sound tracked lined accounts
  exact ⟨sound', (Settles.put here active changed).trans settles⟩

theorem cancelJob_sound (sound : m.Sound) (id : String) (now : Nat)
    (alone : ∀ internal, m.get? id = some internal → internal.job.status = .queued → truthy internal.job.turnId = none) :
    (m.cancelJob id now).Sound ∧ Settles m (m.cancelJob id now) := by
  unfold cancelJob
  cases found : m.jobs.get? id with
  | none => exact ⟨sound, Settles.refl m⟩
  | some p =>
    obtain ⟨internal, here, rfl⟩ := sound.tracked.found id p found
    have get : m.get? internal.job.id = some internal := by
      unfold get?
      rw [found]
      exact here
    have status : m.statusAt p = some internal.job.status := by
      unfold statusAt
      rw [here]
      rfl
    simp only [status]
    cases stage : internal.job.status with
    | queued =>
      have active : isTerminalStatus internal.job.status = false := by rw [stage]; rfl
      have same : (Manager.updateJob { m with queue := m.queue.filter (· ≠ internal.job.id) } internal.job.id fun job =>
          { job with status := .cancelled, endTime := some now }).modify p (·.settle (.rejected "Job was cancelled")) =
          Manager.put { m with queue := m.queue.filter (· ≠ internal.job.id) } p
            (InternalJob.settle { internal with job := { internal.job with status := .cancelled, endTime := some now } } (.rejected "Job was cancelled")) := by
        rw [updateJob_eq_put (m := { m with queue := m.queue.filter (· ≠ internal.job.id) }) here found,
          modify_eq_put ((objects_put (m := { m with queue := m.queue.filter (· ≠ internal.job.id) }) here _ p).trans (if_pos rfl)), put_put]
      simp only
      rw [same]
      refine ⟨cancel_queued_sound sound here stage (alone internal get stage) ?_ ?_ fun future => settle_future (by simp), ?_⟩
      · simp
      · simp
      · exact Settles.put here active _
    | running =>
      have same : ((m.modify p fun internal => { internal with aborted := true }).updateJob internal.job.id fun job =>
          { job with status := .cancelled, endTime := some now }).modify p (·.settle (.rejected "Job was cancelled")) =
          m.put p (InternalJob.settle { internal with
            aborted := true
            job := { internal.job with status := .cancelled, endTime := some now } } (.rejected "Job was cancelled")) := by
        have there : (m.put p { internal with aborted := true }).objects[p]? = some { internal with aborted := true } :=
          (objects_put here _ p).trans (if_pos rfl)
        rw [modify_eq_put here, updateJob_eq_put there found, put_put, modify_eq_put ((objects_put here _ p).trans (if_pos rfl)), put_put]
      simp only
      rw [same]
      exact cancel_running_sound sound here stage (by simp) (by simp) (by simp) fun future => settle_future (by simp)
    | completed => exact ⟨sound, Settles.refl m⟩
    | failed => exact ⟨sound, Settles.refl m⟩
    | cancelled => exact ⟨sound, Settles.refl m⟩

end Cancel

end Bike4Mind.BackgroundAgents
