import Bike4Mind.BackgroundAgents.JobsReported

/-! Delegations that settle, jobs that are spawned, and what a whole run of the manager keeps. -/

namespace Bike4Mind.BackgroundAgents

open Collections Manager

/-! ### Settlement -/

/-- The manager once a delegation has settled and its job is marked, before anything is reported. -/
def Manager.marked (m : Manager) (p : Nat) (changed : InternalJob) : Manager :=
  { m.put p changed with
    inFlight := m.inFlight.erase p
    settling := p :: m.settling }

/-- A running job that becomes completed or failed, and keeps its id and its turn. -/
structure Marks (internal changed : InternalJob) : Prop where
  id : changed.job.id = internal.job.id
  turn : changed.job.turnId = internal.job.turnId
  done : stageOf changed.job.status = .done
  future : ∀ future, changed.future = some future → future ≠ .pending

section Settlement
variable {m : Manager} {p : Nat} {internal changed : InternalJob}

theorem Marks.ended (marks : Marks internal changed) : isTerminalStatus changed.job.status = true := by
  have done := marks.done
  cases status : changed.job.status <;> rw [status] at done <;> first | rfl | cases done

theorem Marks.shape (marks : Marks internal changed) : shapeOf changed = { shapeOf internal with stage := .done } := by
  unfold shapeOf
  rw [marks.id, marks.turn, marks.done]

theorem marked_tracked (sound : m.Sound) (here : m.objects[p]? = some internal) (runs : internal.job.status = .running)
    (marks : Marks internal changed) : Tracked (m.marked p changed) := by
  have active : isTerminalStatus internal.job.status = false := by rw [runs]; rfl
  have ended := marks.ended
  have flight : FlightOf m p changed (m.inFlight.erase p) :=
    { distinct := sound.tracked.distinct.erase p
      others := fun q apart => List.mem_erase_of_ne apart
      delegated := fun runs => by rw [runs] at ended; cases ended
      flight := fun member => (List.Nodup.not_mem_erase sound.tracked.distinct member).elim }
  have unaborted : isTerminalStatus changed.job.status = false → changed.aborted = false := fun waits => by rw [ended] at waits; cases waits
  refine (sound.tracked.change here active marks.id flight unaborted fun future promised => ?_).same rfl rfl rfl
  rw [ended]
  exact iff_of_false (marks.future future promised) (by decide)

theorem marked_lined (sound : m.Sound) (here : m.objects[p]? = some internal) (runs : internal.job.status = .running)
    (marks : Marks internal changed) : Lined (m.marked p changed) m.queue := by
  obtain ⟨fewer, line, past, ahead⟩ := lined_leaves sound.lined here runs marks.ended
  have count := sound.lined.count
  refine ⟨?_, sound.lined.cap, line, sound.lined.order, past, ahead⟩
  change m.runningCount = ((m.put p changed).running : Int) + (m.settling.length + 1 : Nat)
  omega

theorem marked_book (sound : m.Sound) (here : m.objects[p]? = some internal) (marks : Marks internal changed) :
    (m.marked p changed).book = m.book.settled p (shapeOf internal) := by
  have flight : (fun q => q ∈ m.inFlight.erase p) = fun q => q ∈ m.inFlight ∧ q ≠ p := by
    funext q
    exact propext (sound.tracked.distinct.mem_erase_iff.trans and_comm)
  have book : (m.marked p changed).book = { (m.put p changed).book with flight := fun q => q ∈ m.inFlight.erase p } := rfl
  rw [book, book_put here, marks.shape, flight]
  rfl

/-- The settled manager with its group told. -/
def Manager.tells (m : Manager) (t : String) (group : TurnGroup) : Manager := { m with turnGroups := m.turnGroups.set t group }

/-- The manager with a group closed and reported. -/
def Manager.closes (m : Manager) (t : String) (report : Notification) : Manager :=
  { m with
    pendingNotifications := m.pendingNotifications ++ [report]
    turnGroups := m.turnGroups.erase t }

theorem checkTurnGroupCompletion_eq (m : Manager) (t : String) (group : TurnGroup) (now : Nat) :
    (m.tells t group).checkTurnGroupCompletion t now =
      if (m.tells t group).allComplete group then
        ((m.tells t group).closes t ((m.tells t group).createConsolidatedNotification group)).cleanupOldJobs now DEFAULT_MAX_JOB_AGE_MS
      else m.tells t group := by
  unfold checkTurnGroupCompletion
  have found : (m.tells t group).turnGroups.get? t = some group := OrderedMap.get?_set_self
  rw [found]
  rfl

section Group
variable {t : String} {g : TurnGroup} {notification : TurnGroupNotification}

/-- The manager once a delegation has settled and its group is told. -/
def Manager.told (m : Manager) (p : Nat) (changed : InternalJob) (t : String) (g : TurnGroup) (notification : TurnGroupNotification) : Manager :=
  (m.marked p changed).tells t (Book.tell g notification)

theorem members_found (sound : m.Sound) (here : m.objects[p]? = some internal) (marks : Marks internal changed)
    (open' : m.turnGroups.get? t = some g) (notification : TurnGroupNotification) (id : String) (member : id ∈ g.jobIds) :
    ∃ (q : Nat) (one : InternalJob), (m.put p changed).objects[q]? = some one ∧ one.job.id = id ∧
      (m.told p changed t g notification).get? id = some one := by
  obtain ⟨q, shape, held, there, named, _⟩ := sound.accounts.members t g open' id member
  obtain ⟨old, at', rfl⟩ := Option.map_eq_some_iff.mp there
  have objects := objects_put here changed q
  have get : ∀ one, (m.put p changed).objects[q]? = some one → (m.told p changed t g notification).get? id = some one := by
    intro one at''
    change (m.jobs.get? id).bind (fun place => (m.put p changed).objects[place]?) = some one
    have held : m.jobs.get? id = some q := held
    rw [held, Option.bind_some, at'']
  by_cases same : q = p
  · subst same
    rw [if_pos rfl] at objects
    cases here.symm.trans at'
    exact ⟨_, changed, objects, marks.id.trans named, get _ objects⟩
  · rw [if_neg same, at'] at objects
    exact ⟨q, old, objects, named, get _ objects⟩

theorem stageOf_active {status : BackgroundAgentStatus} : stageOf status = .active ↔ isTerminalStatus status = false := by
  cases status <;> decide

theorem group_reported (sound : m.Sound) (here : m.objects[p]? = some internal) (runs : internal.job.status = .running)
    (marks : Marks internal changed) (turn : truthy internal.job.turnId = some t) (open' : m.turnGroups.get? t = some g)
    (named : notification.jobId = internal.job.id) (now : Nat)
    (spared : ∀ u group, ((m.told p changed t g notification).checkTurnGroupCompletion t now).turnGroups.get? u = some group →
      ∀ id ∈ group.jobIds, ((m.told p changed t g notification).checkTurnGroupCompletion t now).jobs.get? id ≠ none) :
    ((m.told p changed t g notification).checkTurnGroupCompletion t now).Sound ∧
      ((m.told p changed t g notification).checkTurnGroupCompletion t now).objects = (m.put p changed).objects := by
  have tracked := marked_tracked sound here runs marks
  have lined := marked_lined sound here runs marks
  have book := marked_book sound here marks
  have shape : m.book.shapes p = some (shapeOf internal) := congrArg (Option.map shapeOf) here
  have live : (shapeOf internal).stage = .active := stageOf_active.mpr (by rw [runs]; rfl)
  rw [Manager.told, checkTurnGroupCompletion_eq] at spared ⊢
  split
  · rename_i complete
    rw [if_pos complete] at spared
    have ended : ∀ q one, (m.book.settled p (shapeOf internal)).shapes q = some one → one.id ∈ g.jobIds → one.stage ≠ .active := by
      intro q one there member active
      rw [← book] at there
      obtain ⟨old, at', rfl⟩ := Option.map_eq_some_iff.mp there
      obtain ⟨r, other, at'', named', get⟩ := members_found sound here marks open' notification _ member
      cases tracked.ids r q other old at'' at' named'
      cases at'.symm.trans at''
      have terminal := List.all_eq_true.mp complete _ member
      rw [Manager.told] at get
      rw [get, Option.any_some, stageOf_active.mp active] at terminal
      cases terminal
    rw [← Manager.told] at spared ⊢
    obtain ⟨tokens, credits, summary⟩ : ∃ tokens credits,
        (m.told p changed t g notification).createConsolidatedNotification (Book.tell g notification) =
          .consolidated (Book.tell g notification) tokens credits := ⟨_, _, rfl⟩
    rw [summary] at spared ⊢
    have rest : ∀ u, ((m.turnGroups.set t (Book.tell g notification)).erase t).get? u = if u = t then none else m.book.turnGroups.get? u := by
      intro u
      rw [OrderedMap.get?_erase]
      split
      · rfl
      · rename_i other
        exact OrderedMap.get?_set_other other
    have accounts := sound.accounts.finish_closed shape live turn open' named rest tokens credits ended
    have issued : m.drained ++ (m.pendingNotifications ++ [Notification.consolidated (Book.tell g notification) tokens credits]) =
        m.book.issued ++ [Notification.consolidated (Book.tell g notification) tokens credits] := (List.append_assoc _ _ _).symm
    rw [← book, ← issued] at accounts
    have cleaned := cleanupOldJobs_cleaned ((m.told p changed t g notification).closes t
      (.consolidated (Book.tell g notification) tokens credits)) now DEFAULT_MAX_JOB_AGE_MS
    have groups := congrArg Manager.turnGroups cleaned.rest
    have queue := congrArg Manager.queue cleaned.rest
    have objects := congrArg Manager.objects cleaned.rest
    refine ⟨⟨cleaned.tracked (tracked.same rfl rfl rfl), ?_, ?_, cleaned.accounts accounts ?_⟩, objects⟩
    · rw [queue]
      exact cleaned.lined { lined with }
    · rw [cleaned.rest]
      exact sound.full
    · intro u group found
      exact spared u group (by rw [groups]; exact found)
  · rename_i incomplete
    have told : (m.book.settled p (shapeOf internal)).Unsettled = (m.marked p changed).book.Unsettled := by rw [book]
    refine ⟨⟨tracked.same rfl rfl rfl, { lined with }, sound.full, ?_⟩, rfl⟩
    have accounts := sound.accounts.finish_open shape live turn open' named
    rw [told, ← book] at accounts
    refine accounts ?_
    by_contra none
    apply incomplete
    refine List.all_eq_true.mpr fun id member => ?_
    obtain ⟨q, one, at', named', get⟩ := members_found sound here marks open' notification id member
    rw [Manager.told] at get
    rw [get, Option.any_some]
    by_contra waits
    exact none ⟨id, member, q, shapeOf one, congrArg (Option.map shapeOf) at', named', .inl (stageOf_active.mpr (by simpa using waits))⟩

end Group

/-- A settled delegation is reported, in its group or at once, and the accounts stay right. -/
theorem handleJobCompletion_sound (sound : m.Sound) (here : m.objects[p]? = some internal) (runs : internal.job.status = .running)
    (marks : Marks internal changed) (status : BackgroundAgentStatus) (content : String) (now : Nat)
    (spared : ∀ t group, ((m.marked p changed).handleJobCompletion internal.job status content now).turnGroups.get? t = some group →
      ∀ id ∈ group.jobIds, ((m.marked p changed).handleJobCompletion internal.job status content now).jobs.get? id ≠ none) :
    ((m.marked p changed).handleJobCompletion internal.job status content now).Sound ∧
      ((m.marked p changed).handleJobCompletion internal.job status content now).objects = (m.put p changed).objects := by
  have tracked := marked_tracked sound here runs marks
  have lined := marked_lined sound here runs marks
  have shape : m.book.shapes p = some (shapeOf internal) := congrArg (Option.map shapeOf) here
  have live : (shapeOf internal).stage = .active := stageOf_active.mpr (by rw [runs]; rfl)
  unfold handleJobCompletion at spared ⊢
  cases turn : truthy internal.job.turnId with
  | none =>
    refine ⟨⟨tracked.same rfl rfl rfl, { lined with }, sound.full, ?_⟩, rfl⟩
    have issued : m.drained ++ (m.pendingNotifications ++ [Notification.immediate internal.job.id content]) =
        m.book.issued ++ [Notification.immediate (shapeOf internal).id content] := (List.append_assoc _ _ _).symm
    have same : Manager.book { m.marked p changed with
        pendingNotifications := m.pendingNotifications ++ [Notification.immediate internal.job.id content] } =
        { (m.marked p changed).book with issued := m.drained ++ (m.pendingNotifications ++ [Notification.immediate internal.job.id content]) } := rfl
    rw [marked_book sound here marks, issued] at same
    change (Manager.book { m.marked p changed with
      pendingNotifications := m.pendingNotifications ++ [Notification.immediate internal.job.id content] }).Sound
    rw [same]
    exact sound.accounts.finish_alone shape live turn content
  | some t =>
    obtain ⟨g, open', mine⟩ := sound.accounts.joined p _ t shape live turn
    have found : (m.marked p changed).turnGroups.get? t = some g := open'
    rw [turn] at spared
    simp only [found] at spared ⊢
    exact group_reported sound here runs marks turn open' rfl now spared

/-- The manager when the handlers of a delegation start. -/
def Manager.settles (m : Manager) (p : Nat) : Manager := { m with inFlight := m.inFlight.erase p, settling := p :: m.settling }

theorem settling_marked (found : m.jobs.get? internal.job.id = some p) (here : m.objects[p]? = some internal)
    (updates : BackgroundAgentJob → BackgroundAgentJob) (outcome : Future) :
    ((m.settles p).updateJob internal.job.id updates).modify p (·.settle outcome) =
      m.marked p (InternalJob.settle { internal with job := updates internal.job } outcome) := by
  have there : (m.settles p).objects[p]? = some internal := here
  have put : ((m.settles p).put p { internal with job := updates internal.job }).objects[p]? = some { internal with job := updates internal.job } :=
    (objects_put there _ p).trans (if_pos rfl)
  rw [updateJob_eq_put there found, modify_eq_put put, put_put]
  rfl

/-- A delegation whose job has not been cancelled is that of a running job, which its handler marks and reports. -/
theorem delegation_settled (sound : m.Sound) (member : p ∈ m.inFlight)
    (unaborted : ∀ internal, m.objects[p]? = some internal → internal.aborted = false) {handled : Manager}
    (handles : ∀ internal, m.objects[p]? = some internal → internal.aborted = false → ∃ updates outcome status content now, handled =
      (((m.settles p).updateJob internal.job.id updates).modify p (·.settle outcome)).handleJobCompletion internal.job status content now ∧
      Marks internal (InternalJob.settle { internal with job := updates internal.job } outcome))
    (spared : ∀ t group, handled.turnGroups.get? t = some group → ∀ id ∈ group.jobIds, handled.jobs.get? id ≠ none) :
    handled.Sound ∧ Settles m handled := by
  obtain ⟨internal, here, stage⟩ := sound.tracked.flight p member
  have quiet := unaborted internal here
  have runs : internal.job.status = .running := by
    refine stage.resolve_right fun ⟨_, aborted⟩ => ?_
    rw [quiet] at aborted
    cases aborted
  have active : isTerminalStatus internal.job.status = false := by rw [runs]; rfl
  obtain ⟨updates, outcome, status, content, now, same, marks⟩ := handles internal here quiet
  rw [settling_marked (sound.tracked.kept p internal here active) here] at same
  subst same
  obtain ⟨sound', objects⟩ := handleJobCompletion_sound sound here runs marks status content now spared
  exact ⟨sound', (Settles.put here active _).trans (Settles.of_objects objects)⟩

theorem onResult_sound (sound : m.Sound) (result : AgentExecutionResult) (now : Nat) (member : p ∈ m.inFlight)
    (unaborted : ∀ internal, m.objects[p]? = some internal → internal.aborted = false)
    (spared : ∀ t group, ((m.settles p).onResult p result now).turnGroups.get? t = some group →
      ∀ id ∈ group.jobIds, ((m.settles p).onResult p result now).jobs.get? id ≠ none) :
    ((m.settles p).onResult p result now).Sound ∧ Settles m ((m.settles p).onResult p result now) := by
  refine delegation_settled sound member unaborted (fun internal here quiet => ?_) spared
  have there : (m.settles p).objects[p]? = some internal := here
  unfold onResult
  rw [there]
  refine ⟨_, _, _, _, _, if_neg (by rw [quiet]; decide), ?_⟩
  exact ⟨by simp, by simp, by simp [stageOf], fun future => settle_future (by simp)⟩

theorem onError_sound (sound : m.Sound) (errorMsg : String) (now : Nat) (member : p ∈ m.inFlight)
    (unaborted : ∀ internal, m.objects[p]? = some internal → internal.aborted = false)
    (spared : ∀ t group, ((m.settles p).onError p errorMsg now).turnGroups.get? t = some group →
      ∀ id ∈ group.jobIds, ((m.settles p).onError p errorMsg now).jobs.get? id ≠ none) :
    ((m.settles p).onError p errorMsg now).Sound ∧ Settles m ((m.settles p).onError p errorMsg now) := by
  refine delegation_settled sound member unaborted (fun internal here quiet => ?_) spared
  have there : (m.settles p).objects[p]? = some internal := here
  unfold onError
  rw [there]
  refine ⟨_, _, _, _, _, rfl, ?_⟩
  exact ⟨by simp, by simp, by simp [stageOf, quiet], fun future => settle_future (by simp)⟩

end Settlement

/-! ### Spawning -/

section Spawning
variable {m : Manager} {id : String} {options : SpawnAgentOptions}

theorem objects_append (m : Manager) (new : InternalJob) (q : Nat) :
    (m.objects ++ [new])[q]? = if q = m.objects.length then some new else m.objects[q]? := by
  by_cases last : q = m.objects.length
  · rw [if_pos last, last, List.getElem?_append_right (le_refl _), Nat.sub_self]
    rfl
  · rw [if_neg last]
    by_cases early : q < m.objects.length
    · exact List.getElem?_append_left early
    · rw [List.getElem?_eq_none (by simp; omega), List.getElem?_eq_none (by omega)]

/-- The object of a job just spawned. -/
def Manager.fresh (m : Manager) (options : SpawnAgentOptions) (id : String) : InternalJob := ⟨m.newJob options id, false, none⟩

theorem fresh_active : isTerminalStatus (m.fresh options id).job.status = false := by
  unfold Manager.fresh newJob
  simp only
  split <;> rfl

theorem fresh_shape : shapeOf (m.fresh options id) = ⟨id, truthy m.currentTurnId, .active⟩ := by
  unfold shapeOf
  rw [stageOf_active.mpr fresh_active]
  rfl

/-- The manager with a job more, and the groups as the job leaves them. -/
def Manager.withJob (m : Manager) (options : SpawnAgentOptions) (id : String) (groups : OrderedMap String TurnGroup) (opened : Nat) : Manager :=
  { m with
    objects := m.objects ++ [m.fresh options id]
    jobs := m.jobs.set id m.objects.length
    turnGroups := groups
    groupsOpened := opened }

theorem stored_eq (m : Manager) (options : SpawnAgentOptions) (id : String) : ∃ groups opened,
    m.stored options id = m.withJob options id groups opened ∧
    ((truthy m.currentTurnId = none ∧ groups = m.turnGroups ∧ opened = m.groupsOpened) ∨
      ∃ t group, truthy m.currentTurnId = some t ∧ groups = m.turnGroups.set t group ∧
        Book.Joins m.book ⟨id, truthy m.currentTurnId, .active⟩ t group opened) := by
  unfold stored joinTurnGroup
  simp only
  cases turn : truthy m.currentTurnId with
  | none => exact ⟨_, _, rfl, .inl ⟨rfl, rfl, rfl⟩⟩
  | some t =>
    simp only
    cases open' : m.turnGroups.get? t with
    | none =>
      refine ⟨_, _, rfl, .inr ⟨t, _, rfl, rfl, ?_, .inl ⟨open', rfl, rfl, rfl, rfl⟩⟩⟩
      exact List.mem_singleton.mpr rfl
    | some group =>
      refine ⟨_, _, rfl, .inr ⟨t, _, rfl, rfl, ?_, .inr ⟨group, open', rfl, rfl, rfl, rfl⟩⟩⟩
      exact List.mem_append_right _ (List.mem_singleton.mpr rfl)

theorem spawned_tracked (tracked : Tracked m) (unused : ∀ internal ∈ m.objects, internal.job.id ≠ id) {new : InternalJob} {inFlight : List Nat}
    (named : new.job.id = id) (quiet : new.aborted = false ∧ new.future = none)
    (flight : (new.job.status ≠ .running ∧ inFlight = m.inFlight) ∨ (new.job.status = .running ∧ inFlight = m.inFlight ++ [m.objects.length])) :
    Tracked { m with
      objects := m.objects ++ [new]
      jobs := m.jobs.set id m.objects.length
      inFlight } := by
  have bound : ∀ p ∈ m.inFlight, p ≠ m.objects.length := by
    rintro p member rfl
    obtain ⟨internal, here, _⟩ := tracked.flight _ member
    exact absurd (List.getElem?_eq_some_iff.mp here).1 (lt_irrefl _)
  have others : ∀ p, p ≠ m.objects.length → (p ∈ inFlight ↔ p ∈ m.inFlight) := by
    intro p apart
    rcases flight with ⟨_, rfl⟩ | ⟨_, rfl⟩
    · exact Iff.rfl
    · simp [apart]
  refine ⟨?_, ?_, ?_, ?_, ?_, ?_, ?_, ?_⟩
  · intro p q one two there there' same
    rw [objects_append] at there there'
    split at there <;> split at there'
    · rename_i here here'
      rw [here, here']
    · cases there
      exact (unused two (List.mem_of_getElem? there') (same.symm.trans named)).elim
    · cases there'
      exact (unused one (List.mem_of_getElem? there) (same.trans named)).elim
    · exact tracked.ids p q one two there there' same
  · intro name p found
    rw [objects_append]
    change (m.jobs.set id m.objects.length).get? name = some p at found
    rcases OrderedMap.get?_set_some found with ⟨same, rfl⟩ | ⟨_, found⟩
    · exact ⟨new, if_pos rfl, named.trans same.symm⟩
    · obtain ⟨internal, here, named'⟩ := tracked.found name p found
      have apart : p ≠ m.objects.length := (List.getElem?_eq_some_iff.mp here).1.ne
      exact ⟨internal, (if_neg apart).trans here, named'⟩
  · intro p internal there waits
    rw [objects_append] at there
    change (m.jobs.set id m.objects.length).get? internal.job.id = some p
    rw [OrderedMap.get?_set]
    split at there
    · rename_i last
      cases there
      rw [if_pos named, last]
    · rw [if_neg (unused internal (List.mem_of_getElem? there))]
      exact tracked.kept p internal there waits
  · rcases flight with ⟨_, rfl⟩ | ⟨_, rfl⟩
    · exact tracked.distinct
    · change (m.inFlight ++ [m.objects.length]).Nodup
      rw [List.nodup_append]
      refine ⟨tracked.distinct, List.nodup_singleton _, fun p member q last same => ?_⟩
      exact bound p member (same.trans (List.mem_singleton.mp last))
  · intro p internal there runs
    rw [objects_append] at there
    split at there
    · rename_i last
      cases there
      rcases flight with ⟨idle, _⟩ | ⟨_, rfl⟩
      · exact (idle runs).elim
      · rw [last]
        exact List.mem_append_right _ (List.mem_singleton.mpr rfl)
    · rename_i apart
      exact (others p apart).mpr (tracked.delegated p internal there runs)
  · intro p member
    rw [objects_append]
    split
    · rename_i last
      refine ⟨new, rfl, ?_⟩
      rcases flight with ⟨_, rfl⟩ | ⟨runs, _⟩
      · exact (bound p member last).elim
      · exact .inl runs
    · rename_i apart
      exact tracked.flight p ((others p apart).mp member)
  · intro p internal there waits
    rw [objects_append] at there
    split at there
    · cases there
      exact quiet.1
    · exact tracked.unaborted p internal there waits
  · intro p internal future there promised
    rw [objects_append] at there
    split at there
    · cases there
      rw [quiet.2] at promised
      cases promised
    · exact tracked.futures p internal future there promised

theorem spawned_book (accounts : m.book.Sound) (unused : ∀ internal ∈ m.objects, internal.job.id ≠ id) {groups : OrderedMap String TurnGroup} {opened : Nat}
    (origin : (truthy m.currentTurnId = none ∧ groups = m.turnGroups ∧ opened = m.groupsOpened) ∨
      ∃ t group, truthy m.currentTurnId = some t ∧ groups = m.turnGroups.set t group ∧
        Book.Joins m.book ⟨id, truthy m.currentTurnId, .active⟩ t group opened) : (m.withJob options id groups opened).book.Sound := by
  have book : (m.withJob options id groups opened).book =
      m.book.spawned m.objects.length ⟨id, truthy m.currentTurnId, .active⟩ (m.jobs.set id m.objects.length).get? groups opened := by
    unfold book Book.spawned
    congr 1
    funext q
    change ((m.objects ++ [m.fresh options id])[q]?).map shapeOf = _
    rw [objects_append]
    by_cases last : q = m.objects.length
    · rw [if_pos last, last, Function.update_self, Option.map_some, fresh_shape]
    · rw [if_neg last, Function.update_of_ne last]
  have new : Book.New m.book m.objects.length ⟨id, truthy m.currentTurnId, .active⟩ (m.jobs.set id m.objects.length).get? :=
    { place := by
        change (m.objects[m.objects.length]?).map shapeOf = none
        rw [List.getElem?_eq_none (le_refl _)]
        rfl
      fresh := by
        intro p one there same
        obtain ⟨internal, here, rfl⟩ := Option.map_eq_some_iff.mp there
        exact unused internal (List.mem_of_getElem? here) same
      live := rfl
      here := OrderedMap.get?_set_self
      others := fun name other => OrderedMap.get?_set_other other }
  rw [book]
  rcases origin with ⟨alone, rfl, rfl⟩ | ⟨t, group, turn, rfl, joins⟩
  · exact accounts.spawn_alone new alone
  · exact accounts.spawn_joins new turn joins

theorem spawn_sound (options : SpawnAgentOptions) (sound : m.Sound) (unused : ∀ internal ∈ m.objects, internal.job.id ≠ id) :
    (m.spawn options id).Sound ∧ (m.spawn options id).objects = m.objects ++ [m.fresh options id] := by
  obtain ⟨groups, opened, same, origin⟩ := stored_eq m options id
  have accounts : (m.withJob options id groups opened).book.Sound := spawned_book sound.accounts unused origin
  have past : ∀ q ∈ m.started, q < m.objects.length := fun q member => by
    obtain ⟨internal, here, _⟩ := sound.lined.past q member
    exact (List.getElem?_eq_some_iff.mp here).1
  have early : ∀ q ∈ m.started, ∃ internal : InternalJob, (m.objects ++ [m.fresh options id])[q]? = some internal ∧ internal.job.status ≠ .queued := by
    intro q member
    obtain ⟨internal, here, status⟩ := sound.lined.past q member
    exact ⟨internal, (objects_append m _ q).trans ((if_neg (past q member).ne).trans here), status⟩
  have count := sound.lined.count
  have cap := sound.lined.cap
  unfold spawn
  simp only
  rw [same]
  split
  · rename_i busy
    have status : (m.fresh options id).job.status = .queued := if_pos busy
    refine ⟨⟨?_, ⟨?_, sound.lined.cap, ?_, sound.lined.order, early, ?_⟩, fun _ => busy, accounts⟩, rfl⟩
    · exact (spawned_tracked sound.tracked unused rfl ⟨rfl, rfl⟩ (.inl ⟨by rw [status]; decide, rfl⟩)).same rfl rfl rfl
    · change m.runningCount = ((m.objects ++ [m.fresh options id]).countP _ : Int) + m.settling.length
      rw [List.countP_append, List.countP_singleton, status]
      exact count
    · change m.queue ++ [id] = ((m.objects ++ [m.fresh options id]).filter _).map _
      rw [List.filter_append, List.map_append, sound.lined.line, List.filter_cons_of_pos (by rw [status]; rfl)]
      rfl
    · intro p internal there queued q member
      change (m.objects ++ [m.fresh options id])[p]? = some internal at there
      rw [objects_append] at there
      split at there
      · rename_i last
        exact last ▸ past q member
      · exact sound.lined.ahead p internal there queued q member
  · rename_i free
    have status : (m.fresh options id).job.status = .running := if_neg free
    have empty : m.queue = [] := by
      by_contra waits
      exact free (sound.full waits)
    have again : started (m.fresh options id) = m.fresh options id := by
      unfold started
      rw [← status]
    have tracked : Tracked { m with
        objects := m.objects ++ [m.fresh options id]
        jobs := m.jobs.set id m.objects.length
        inFlight := m.inFlight ++ [m.objects.length] } := spawned_tracked sound.tracked unused rfl ⟨rfl, rfl⟩ (.inr ⟨status, rfl⟩)
    have there : (m.objects ++ [m.fresh options id])[m.objects.length]? = some (m.fresh options id) := (objects_append m _ _).trans (if_pos rfl)
    have objects : ∀ m' : Manager, m'.objects[m.objects.length]? = some (m.fresh options id) → (m'.put m.objects.length (m.fresh options id)) = m' := by
      intro m' at'
      obtain ⟨bound, same⟩ := List.getElem?_eq_some_iff.mp at'
      unfold put
      rw [← same, List.set_getElem_self]
    rw [startJob_eq there OrderedMap.get?_set_self, again, objects _ there]
    refine ⟨⟨tracked.same rfl rfl rfl, ⟨?_, ?_, ?_, ?_, ?_, ?_⟩, fun waits => (waits empty).elim, ?_⟩, rfl⟩
    · change m.runningCount + 1 = ((m.objects ++ [m.fresh options id]).countP _ : Int) + m.settling.length
      rw [List.countP_append, List.countP_singleton, status]
      change m.runningCount + 1 = ((m.running + 1 : Nat) : Int) + m.settling.length
      omega
    · change m.runningCount + 1 ≤ m.maxConcurrent
      omega
    · change m.queue = ((m.objects ++ [m.fresh options id]).filter _).map _
      rw [List.filter_append, List.map_append, sound.lined.line, List.filter_cons_of_neg (by rw [status]; decide)]
      exact (List.append_nil _).symm
    · change (m.started ++ [m.objects.length]).Pairwise (· < ·)
      rw [List.pairwise_append]
      refine ⟨sound.lined.order, List.pairwise_singleton _ _, fun q member r last => ?_⟩
      exact List.mem_singleton.mp last ▸ past q member
    · intro q member
      rcases List.mem_append.mp member with before | last
      · exact early q before
      · rw [List.mem_singleton.mp last]
        exact ⟨_, there, by rw [status]; decide⟩
    · intro p internal there queued q member
      change (m.objects ++ [m.fresh options id])[p]? = some internal at there
      rw [objects_append] at there
      split at there
      · cases there
        rw [status] at queued
        cases queued
      · have waits : internal.job.id ∈ m.waiting :=
          List.mem_map.mpr ⟨internal, List.mem_filter.mpr ⟨List.mem_of_getElem? there, by simpa using queued⟩, rfl⟩
        rw [← sound.lined.line, empty] at waits
        cases waits
    · exact accounts.advance _ fun q member => List.mem_append_left _ member

theorem spawn_settles (unchanged : (m.spawn options id).objects = m.objects ++ [m.fresh options id]) : Settles m (m.spawn options id) := by
  intro p internal here _
  have apart : p ≠ m.objects.length := (List.getElem?_eq_some_iff.mp here).1.ne
  exact ⟨internal, by rw [unchanged, objects_append, if_neg apart]; exact here, rfl, rfl⟩

theorem promise_sound (sound : m.Sound) {p : Nat} {internal : InternalJob} (here : m.objects[p]? = some internal)
    (active : isTerminalStatus internal.job.status = false) : (m.put p { internal with future := some .pending }).Sound := by
  obtain ⟨before, after, objects, _, replaced⟩ := waiting_split here
  have running : (m.put p { internal with future := some .pending }).running = m.running :=
    Nat.add_right_cancel (running_put here { internal with future := some .pending })
  have waiting : (m.put p { internal with future := some .pending }).waiting = m.waiting := by
    unfold waiting
    rw [replaced, objects, List.filter_append, List.filter_append, List.map_append, List.map_append, List.filter_cons, List.filter_cons]
    split <;> rfl
  have flight : FlightOf m p { internal with future := some .pending } m.inFlight :=
    { distinct := sound.tracked.distinct
      others := fun _ _ => Iff.rfl
      delegated := fun runs => sound.tracked.delegated p internal here runs
      flight := fun member => by
        obtain ⟨other, there, stage⟩ := sound.tracked.flight p member
        cases here.symm.trans there
        exact stage }
  refine ⟨?_, ⟨?_, sound.lined.cap, ?_, sound.lined.order, ?_, ?_⟩, sound.full, ?_⟩
  · have same : ({ internal with future := some .pending } : InternalJob).job.id = internal.job.id := rfl
    refine (sound.tracked.change here active same flight (fun _ => sound.tracked.unaborted p internal here active) fun future promised => ?_).same
      rfl rfl rfl
    cases promised
    exact iff_of_true rfl active
  · have count := sound.lined.count
    change m.runningCount = ((m.put p { internal with future := some .pending }).running : Int) + m.settling.length
    rw [running]
    exact count
  · rw [waiting]
    exact sound.lined.line
  · intro q member
    rw [objects_put here]
    split
    · rename_i same
      subst same
      obtain ⟨other, there, status⟩ := sound.lined.past q member
      cases here.symm.trans there
      exact ⟨_, rfl, status⟩
    · exact sound.lined.past q member
  · intro q one there queued r member
    rw [objects_put here] at there
    split at there
    · rename_i same
      subst same
      cases there
      exact sound.lined.ahead q internal here queued r member
    · exact sound.lined.ahead q one there queued r member
  · have shape : m.book.shapes p = some (shapeOf internal) := congrArg (Option.map shapeOf) here
    have same : Function.update m.book.shapes p (some (shapeOf { internal with future := some .pending })) = m.book.shapes := by
      rw [Function.update_eq_self_iff, shape]
      rfl
    rw [book_put here, same]
    exact sound.accounts

theorem spawnWithFuture_sound (sound : m.Sound) (unused : ∀ internal ∈ m.objects, internal.job.id ≠ id) :
    (m.spawnWithFuture options id).Sound ∧ Settles m (m.spawnWithFuture options id) := by
  obtain ⟨sound', objects⟩ := spawn_sound options sound unused
  have here : (m.spawn options id).objects[m.objects.length]? = some (m.fresh options id) := by
    rw [objects, objects_append, if_pos rfl]
  have promised : m.spawnWithFuture options id = (m.spawn options id).put m.objects.length { m.fresh options id with future := some .pending } :=
    modify_eq_put here _
  rw [promised]
  exact ⟨promise_sound sound' here fresh_active, (spawn_settles objects).trans (Settles.put here fresh_active _)⟩

end Spawning

/-! ### Runs -/

theorem drainNotifications_sound {m : Manager} (sound : m.Sound) : m.drainNotifications.Sound := by
  have issued : m.drained ++ m.pendingNotifications ++ [] = m.issued := List.append_nil _
  have book : m.drainNotifications.book = { m.book with issued := m.drained ++ m.pendingNotifications ++ [] } := rfl
  refine ⟨sound.tracked.same rfl rfl rfl, { sound.lined with }, sound.full, ?_⟩
  rw [book, issued]
  exact sound.accounts

theorem setCurrentTurn_sound {m : Manager} (sound : m.Sound) (turnId : Option String) : (m.setCurrentTurn turnId).Sound :=
  ⟨sound.tracked.same rfl rfl rfl, { sound.lined with }, sound.full, sound.accounts⟩

theorem step_sound {m m' : Manager} (sound : m.Sound) (event : Event) (meets : m.Meets event) (taken : m.step event = some m') :
    m'.Sound ∧ Settles m m' := by
  cases event with
  | setCurrentTurn turnId =>
    cases taken
    exact ⟨setCurrentTurn_sound sound turnId, Settles.of_objects rfl⟩
  | spawn options id =>
    cases taken
    obtain ⟨sound', objects⟩ := spawn_sound options sound meets
    exact ⟨sound', spawn_settles objects⟩
  | spawnWithFuture options id =>
    cases taken
    exact spawnWithFuture_sound sound meets
  | cancelJob id now =>
    cases taken
    exact cancelJob_sound sound id now meets
  | resolves place result now =>
    obtain ⟨unaborted, spared⟩ := meets
    have spared := spared m' taken
    unfold step at taken
    simp only at taken
    split at taken
    · rename_i member
      cases taken
      exact onResult_sound sound result now member unaborted spared
    · cases taken
  | rejects place errorMsg now =>
    obtain ⟨unaborted, spared⟩ := meets
    have spared := spared m' taken
    unfold step at taken
    simp only at taken
    split at taken
    · rename_i member
      cases taken
      exact onError_sound sound errorMsg now member unaborted spared
    · cases taken
  | finishes place =>
    unfold step at taken
    simp only at taken
    split at taken
    · rename_i member
      cases taken
      exact onFinally_sound sound member
    · cases taken
  | cleanupOldJobs now maxAgeMs =>
    cases taken
    exact cleanupOldJobs_sound sound now maxAgeMs meets
  | drainNotifications =>
    cases taken
    exact ⟨drainNotifications_sound sound, Settles.of_objects rfl⟩

/-- The states a run passes through, each of whose steps meets the condition. -/
inductive Reaches : Manager → Manager → Prop where
  | refl (m : Manager) : Reaches m m
  | step {m m' m'' : Manager} (event : Event) (meets : m.Meets event) (taken : m.step event = some m') (rest : Reaches m' m'') : Reaches m m''

theorem reaches_sound {m m' : Manager} (reaches : Reaches m m') (sound : m.Sound) : m'.Sound ∧ Settles m m' := by
  induction reaches with
  | refl m => exact ⟨sound, Settles.refl m⟩
  | step event meets taken _ ih =>
    obtain ⟨sound', settles⟩ := step_sound sound event meets taken
    obtain ⟨last, settles'⟩ := ih sound'
    exact ⟨last, settles.trans settles'⟩

theorem initial_sound (maxConcurrent : Nat) : Manager.Sound { maxConcurrent } where
  tracked := by constructor <;> simp
  lined := by constructor <;> first | rfl | simp
  full := fun waits => (waits rfl).elim
  accounts := by constructor <;> simp [Manager.book, Manager.issued, Book.reported, Book.serials]

/-! ### What holds in every state of such a run -/

/-- A turn group, open or reported. -/
def Manager.HasGroup (m : Manager) (group : TurnGroup) : Prop :=
  (∃ turnId, m.turnGroups.get? turnId = some group) ∨ ∃ tokens credits, .consolidated group tokens credits ∈ m.issued

/-- All jobs of a group are terminal and their delegations have settled. -/
def Manager.GroupSettled (m : Manager) (group : TurnGroup) : Prop :=
  ∀ id ∈ group.jobIds, ∀ (p : Nat) (internal : InternalJob), m.objects[p]? = some internal → internal.job.id = id →
    isTerminalStatus internal.job.status = true ∧ p ∉ m.inFlight

structure Manager.Faithful (m : Manager) : Prop where
  /-- A delegation between its handler and its `finally` still has its slot. -/
  counted : m.runningCount = m.running + m.settling.length
  capped : 0 ≤ m.runningCount ∧ m.runningCount ≤ m.maxConcurrent
  /-- Jobs start once, and in the order of their spawning. -/
  started : m.started.Pairwise (· < ·)
  waits : (∃ internal ∈ m.objects, internal.job.status = .queued) → (m.maxConcurrent : Int) ≤ m.runningCount
  futures : ∀ internal ∈ m.objects, ∀ future, internal.future = some future →
    (future = .pending ↔ isTerminalStatus internal.job.status = false)
  /-- Every group there has been is still open or has been reported. -/
  groups : ∀ serial < m.groupsOpened, ∃ group, m.HasGroup group ∧ group.serial = serial
  consolidated : ∀ group, m.HasGroup group → m.GroupSettled group →
    m.issued.countP (fun report => serial? report = some group.serial) = 1 ∧
      (∃ tokens credits, .consolidated group tokens credits ∈ m.issued) ∧ ∀ id ∈ group.jobIds, id ∈ group.told
  once : (m.issued.flatMap reportedBy).Nodup

theorem countP_serial {reports : List Notification} (distinct : (reports.filterMap serial?).Nodup) {report : Notification} {serial : Nat}
    (member : report ∈ reports) (named : serial? report = some serial) : reports.countP (fun report => serial? report = some serial) = 1 := by
  have counted : (reports.filterMap serial?).count serial = reports.countP fun report => serial? report = some serial := by
    unfold List.count
    rw [List.countP_filterMap]
    congr 1
    funext report
    cases serial? report with
    | none => rfl
    | some other =>
      simp only [Option.map_some, Option.getD_some, Option.some.injEq]
      rfl
  rw [← counted]
  exact List.count_eq_one_of_mem distinct (List.mem_filterMap.mpr ⟨report, member, named⟩)

theorem Manager.Sound.faithful {m : Manager} (sound : m.Sound) : m.Faithful where
  counted := sound.lined.count
  capped := by
    have count := sound.lined.count
    exact ⟨by omega, sound.lined.cap⟩
  started := sound.lined.order
  waits := by
    rintro ⟨internal, member, queued⟩
    apply sound.full
    have waits : internal.job.id ∈ m.waiting := List.mem_map.mpr ⟨internal, List.mem_filter.mpr ⟨member, by simpa using queued⟩, rfl⟩
    rw [sound.lined.line]
    exact List.ne_nil_of_mem waits
  futures := by
    intro internal member future promised
    obtain ⟨p, here⟩ := List.mem_iff_getElem?.mp member
    exact sound.tracked.futures p internal future here promised
  groups := by
    intro serial below
    rcases sound.accounts.every serial below with ⟨t, g, open', same⟩ | closed
    · exact ⟨g, .inl ⟨t, open'⟩, same⟩
    · obtain ⟨report, member, named⟩ := List.mem_filterMap.mp closed
      cases report with
      | immediate jobId content => cases named
      | consolidated group tokens credits => exact ⟨group, .inr ⟨tokens, credits, member⟩, Option.some.inj named⟩
  consolidated := by
    intro group has settled
    have quiet : ∀ id ∈ group.jobIds, ∀ p shape, m.book.shapes p = some shape → shape.id = id → shape.stage ≠ .active ∧ ¬m.book.flight p := by
      intro id member p shape there named
      obtain ⟨internal, here, rfl⟩ := Option.map_eq_some_iff.mp there
      obtain ⟨ended, landed⟩ := settled id member p internal here named
      refine ⟨fun active => ?_, landed⟩
      rw [stageOf_active.mp active] at ended
      cases ended
    rcases has with ⟨t, open'⟩ | ⟨tokens, credits, reported⟩
    · obtain ⟨id, member, p, shape, there, named, unsettled⟩ := sound.accounts.active t group open'
      obtain ⟨still, landed⟩ := quiet id member p shape there named
      exact (unsettled.elim still landed).elim
    · refine ⟨countP_serial sound.accounts.closedOnce reported rfl, ⟨tokens, credits, reported⟩, fun id member => ?_⟩
      refine (sound.accounts.closed group tokens credits reported id member).resolve_right ?_
      rintro ⟨p, shape, there, named, _, under⟩
      exact (quiet id member p shape there named).2 under
  once := sound.accounts.once

def plainOptions : SpawnAgentOptions := ⟨"explore", "look around", none⟩

end Bike4Mind.BackgroundAgents
