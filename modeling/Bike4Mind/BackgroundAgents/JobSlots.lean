import Mathlib.Data.List.Basic
import Bike4Mind.BackgroundAgents.Manager

/-! The job objects, the slots they hold and the line for one, and what starting a job keeps of them. -/

namespace Bike4Mind.BackgroundAgents

open Collections

namespace Manager

def running (m : Manager) : Nat := m.objects.countP fun internal => internal.job.status = .running

/-- The queued jobs in the order of their spawning. -/
def waiting (m : Manager) : List String := (m.objects.filter fun internal => internal.job.status = .queued).map fun internal => internal.job.id

def put (m : Manager) (place : Nat) (internal : InternalJob) : Manager := { m with objects := m.objects.set place internal }

/-- The job objects, found by their ids as long as they are not finished, with the delegations that are under way. -/
structure Tracked (m : Manager) : Prop where
  ids : ∀ (p q : Nat) (one two : InternalJob), m.objects[p]? = some one → m.objects[q]? = some two → one.job.id = two.job.id → p = q
  found : ∀ id p, m.jobs.get? id = some p → ∃ internal : InternalJob, m.objects[p]? = some internal ∧ internal.job.id = id
  kept : ∀ (p : Nat) (internal : InternalJob), m.objects[p]? = some internal → isTerminalStatus internal.job.status = false → m.jobs.get? internal.job.id = some p
  distinct : m.inFlight.Nodup
  delegated : ∀ (p : Nat) (internal : InternalJob), m.objects[p]? = some internal → internal.job.status = .running → p ∈ m.inFlight
  flight : ∀ p ∈ m.inFlight, ∃ internal : InternalJob, m.objects[p]? = some internal ∧
    (internal.job.status = .running ∨ internal.job.status = .cancelled ∧ internal.aborted = true)
  unaborted : ∀ (p : Nat) (internal : InternalJob), m.objects[p]? = some internal → isTerminalStatus internal.job.status = false → internal.aborted = false
  futures : ∀ (p : Nat) (internal : InternalJob) (future : Future), m.objects[p]? = some internal → internal.future = some future →
    (future = .pending ↔ isTerminalStatus internal.job.status = false)

/-- The slots in use and the line, which stands in the order of spawning; `line` is the queue while it is being worked on. -/
structure Lined (m : Manager) (line : List String) : Prop where
  count : m.runningCount = m.running + m.settling.length
  cap : m.runningCount ≤ m.maxConcurrent
  line : line = m.waiting
  order : m.started.Pairwise (· < ·)
  past : ∀ p ∈ m.started, ∃ internal : InternalJob, m.objects[p]? = some internal ∧ internal.job.status ≠ .queued
  ahead : ∀ (p : Nat) (internal : InternalJob), m.objects[p]? = some internal → internal.job.status = .queued → ∀ q ∈ m.started, q < p

end Manager

open Manager

section Objects
variable {m : Manager} {p q : Nat} {internal other : InternalJob}

theorem objects_put (here : m.objects[p]? = some internal) (changed : InternalJob) (q : Nat) :
    (m.put p changed).objects[q]? = if q = p then some changed else m.objects[q]? := by
  have bound : p < m.objects.length := (List.getElem?_eq_some_iff.mp here).1
  unfold put
  rw [List.getElem?_set]
  by_cases same : p = q
  · subst same
    rw [if_pos rfl, if_pos rfl, if_pos bound]
  · rw [if_neg same, if_neg (Ne.symm same)]

theorem modify_eq_put (here : m.objects[p]? = some internal) (change : InternalJob → InternalJob) :
    m.modify p change = m.put p (change internal) := by
  have objects : m.objects.modify p change = m.objects.set p (change internal) := by
    apply List.ext_getElem?
    intro q
    rw [List.getElem?_modify, List.getElem?_set]
    by_cases same : p = q
    · subst same
      have bound : p < m.objects.length := (List.getElem?_eq_some_iff.mp here).1
      rw [here]
      simp [bound]
    · simp [same]
  unfold Manager.modify put
  rw [objects]

theorem updateJob_eq_put (here : m.objects[p]? = some internal) (found : m.jobs.get? internal.job.id = some p)
    (updates : BackgroundAgentJob → BackgroundAgentJob) :
    m.updateJob internal.job.id updates = m.put p { internal with job := updates internal.job } := by
  unfold updateJob
  rw [found]
  exact modify_eq_put here _

theorem put_put (one two : InternalJob) : (m.put p one).put p two = m.put p two := by
  unfold put
  rw [List.set_set]

theorem running_put (here : m.objects[p]? = some internal) (changed : InternalJob) :
    (m.put p changed).running + (if internal.job.status = .running then 1 else 0) =
      m.running + if changed.job.status = .running then 1 else 0 := by
  obtain ⟨bound, same⟩ := List.getElem?_eq_some_iff.mp here
  unfold running put
  rw [List.countP_set bound, same]
  have counted : (if internal.job.status = .running then 1 else 0) ≤ m.objects.countP fun internal => internal.job.status = .running := by
    split
    · rename_i held
      exact List.countP_pos_iff.mpr ⟨internal, List.mem_of_getElem? here, by simpa using held⟩
    · exact Nat.zero_le _
  simp only [decide_eq_true_eq]
  omega

/-- A change that leaves a job's id and its place in the line alone leaves the line alone. -/
theorem waiting_split (here : m.objects[p]? = some internal) :
    ∃ before after, m.objects = before ++ internal :: after ∧ before.length = p ∧
      ∀ changed, (m.put p changed).objects = before ++ changed :: after := by
  obtain ⟨bound, same⟩ := List.getElem?_eq_some_iff.mp here
  refine ⟨m.objects.take p, m.objects.drop (p + 1), ?_, ?_, fun changed => ?_⟩
  · rw [← same, ← List.drop_eq_getElem_cons, List.take_append_drop]
  · rw [List.length_take, min_eq_left bound.le]
  · unfold put
    exact List.set_eq_take_append_cons_drop.trans (if_pos bound)

theorem waiting_put_idle (here : m.objects[p]? = some internal) {changed : InternalJob} (one : internal.job.status ≠ .queued)
    (two : changed.job.status ≠ .queued) : (m.put p changed).waiting = m.waiting := by
  obtain ⟨before, after, objects, _, replaced⟩ := waiting_split here
  unfold waiting
  rw [replaced, objects]
  simp [one, two]

theorem waiting_put_leaves (tracked : Tracked m) (here : m.objects[p]? = some internal) {changed : InternalJob}
    (one : internal.job.status = .queued) (two : changed.job.status ≠ .queued) :
    (m.put p changed).waiting = m.waiting.filter (· ≠ internal.job.id) := by
  obtain ⟨before, after, objects, length, replaced⟩ := waiting_split here
  have others : ∀ queued ∈ before ++ after, queued.job.id ≠ internal.job.id := by
    intro queued member same
    rcases List.mem_append.mp member with early | late
    · obtain ⟨q, bound, there⟩ := List.mem_iff_getElem.mp early
      have there' : m.objects[q]? = some queued := by
        rw [objects, List.getElem?_append_left bound, List.getElem?_eq_getElem bound, there]
      have := tracked.ids q p _ _ there' here same
      omega
    · obtain ⟨q, bound, there⟩ := List.mem_iff_getElem.mp late
      have there' : m.objects[before.length + (q + 1)]? = some queued := by
        rw [objects, List.getElem?_append_right (Nat.le_add_right _ _), Nat.add_sub_cancel_left, List.getElem?_cons_succ,
          List.getElem?_eq_getElem bound, there]
      have := tracked.ids _ p _ _ there' here same
      omega
  have clear : ∀ rest : List InternalJob, (∀ queued ∈ rest, queued ∈ before ++ after) →
      ((rest.filter fun internal => internal.job.status = .queued).map fun internal => internal.job.id).filter (· ≠ internal.job.id) =
        (rest.filter fun internal => internal.job.status = .queued).map fun internal => internal.job.id := by
    intro rest part
    rw [List.filter_eq_self]
    intro name member
    obtain ⟨queued, there, rfl⟩ := List.mem_map.mp member
    exact decide_eq_true (others queued (part queued (List.mem_filter.mp there).1))
  have early := clear before fun queued member => List.mem_append_left _ member
  have late := clear after fun queued member => List.mem_append_right _ member
  unfold waiting
  rw [replaced, objects, List.filter_append, List.filter_append, List.filter_cons_of_neg (by simpa using two),
    List.filter_cons_of_pos (by simpa using one), List.map_append, List.map_append, List.map_cons, List.filter_append, early,
    List.filter_cons_of_neg (by simp), late]

end Objects

/-! ### One job changes -/

/-- The delegations once one job has changed: the others are as they were. -/
structure FlightOf (m : Manager) (p : Nat) (changed : InternalJob) (inFlight : List Nat) : Prop where
  distinct : inFlight.Nodup
  others : ∀ q, q ≠ p → (q ∈ inFlight ↔ q ∈ m.inFlight)
  delegated : changed.job.status = .running → p ∈ inFlight
  flight : p ∈ inFlight → changed.job.status = .running ∨ changed.job.status = .cancelled ∧ changed.aborted = true

section Change
variable {m m' : Manager} {p : Nat} {internal changed : InternalJob} {inFlight : List Nat}

theorem Manager.Tracked.same (tracked : Tracked m) (objects : m'.objects = m.objects) (jobs : m'.jobs = m.jobs)
    (inFlight : m'.inFlight = m.inFlight) : Tracked m' := by
  constructor <;> simp only [objects, jobs, inFlight]
  · exact tracked.ids
  · exact tracked.found
  · exact tracked.kept
  · exact tracked.distinct
  · exact tracked.delegated
  · exact tracked.flight
  · exact tracked.unaborted
  · exact tracked.futures

theorem Manager.Tracked.change (tracked : Tracked m) (here : m.objects[p]? = some internal) (active : isTerminalStatus internal.job.status = false)
    (id : changed.job.id = internal.job.id) (flight : FlightOf m p changed inFlight)
    (unaborted : isTerminalStatus changed.job.status = false → changed.aborted = false)
    (futures : ∀ future, changed.future = some future → (future = .pending ↔ isTerminalStatus changed.job.status = false)) :
    Tracked { m.put p changed with inFlight := inFlight } := by
  have get := objects_put here changed
  have named : ∀ (q : Nat) (one : InternalJob), (m.put p changed).objects[q]? = some one → ∃ old : InternalJob, m.objects[q]? = some old ∧ one.job.id = old.job.id := by
    intro q one there
    rw [get] at there
    split at there
    · rename_i same
      cases there
      exact ⟨internal, same ▸ here, id⟩
    · exact ⟨one, there, rfl⟩
  refine ⟨?_, ?_, ?_, flight.distinct, ?_, ?_, ?_, ?_⟩
  · intro q r one two there there' same
    obtain ⟨old, at', id'⟩ := named q one there
    obtain ⟨old', at'', id''⟩ := named r two there'
    exact tracked.ids q r old old' at' at'' (id'.symm.trans (same.trans id''))
  · intro name q held
    obtain ⟨old, there, id'⟩ := tracked.found name q held
    change ∃ internal, (m.put p changed).objects[q]? = some internal ∧ internal.job.id = name
    rw [get]
    split
    · rename_i same
      subst same
      cases here.symm.trans there
      exact ⟨changed, rfl, id.trans id'⟩
    · exact ⟨old, there, id'⟩
  · intro q one there waits
    change (m.put p changed).objects[q]? = some one at there
    rw [get] at there
    split at there
    · rename_i same
      cases there
      subst same
      exact id ▸ tracked.kept q internal here active
    · exact tracked.kept q one there waits
  · intro q one there runs
    change (m.put p changed).objects[q]? = some one at there
    rw [get] at there
    split at there
    · rename_i same
      cases there
      exact same ▸ flight.delegated runs
    · rename_i apart
      exact (flight.others q apart).mpr (tracked.delegated q one there runs)
  · intro q member
    change ∃ internal, (m.put p changed).objects[q]? = some internal ∧ _
    rw [get]
    split
    · rename_i same
      subst same
      exact ⟨changed, rfl, flight.flight member⟩
    · rename_i apart
      exact tracked.flight q ((flight.others q apart).mp member)
  · intro q one there waits
    change (m.put p changed).objects[q]? = some one at there
    rw [get] at there
    split at there
    · cases there
      exact unaborted waits
    · exact tracked.unaborted q one there waits
  · intro q one future there promised
    change (m.put p changed).objects[q]? = some one at there
    rw [get] at there
    split at there
    · cases there
      exact futures future promised
    · exact tracked.futures q one future there promised

end Change

/-! ### Starting jobs -/

def started (internal : InternalJob) : InternalJob := { internal with job := { internal.job with status := .running } }

/-- What the start of queued jobs leaves alone. -/
structure Advanced (m m' : Manager) : Prop where
  maxConcurrent : m'.maxConcurrent = m.maxConcurrent
  jobs : m'.jobs = m.jobs
  turnGroups : m'.turnGroups = m.turnGroups
  pendingNotifications : m'.pendingNotifications = m.pendingNotifications
  drained : m'.drained = m.drained
  groupsOpened : m'.groupsOpened = m.groupsOpened
  settling : m'.settling = m.settling
  flight : ∀ p ∈ m.inFlight, p ∈ m'.inFlight
  objects : ∀ p : Nat, m'.objects[p]? = m.objects[p]? ∨
    ∃ internal : InternalJob, m.objects[p]? = some internal ∧ internal.job.status = .queued ∧ m'.objects[p]? = some (started internal)

theorem Advanced.trans {m m' m'' : Manager} (one : Advanced m m') (two : Advanced m' m'') : Advanced m m'' where
  maxConcurrent := two.maxConcurrent.trans one.maxConcurrent
  jobs := two.jobs.trans one.jobs
  turnGroups := two.turnGroups.trans one.turnGroups
  pendingNotifications := two.pendingNotifications.trans one.pendingNotifications
  drained := two.drained.trans one.drained
  groupsOpened := two.groupsOpened.trans one.groupsOpened
  settling := two.settling.trans one.settling
  flight := fun p member => two.flight p (one.flight p member)
  objects := by
    intro p
    rcases two.objects p with same | ⟨internal, there, queued, result⟩
    · rw [same]
      exact one.objects p
    · rcases one.objects p with same' | ⟨old, _, _, now⟩
      · exact .inr ⟨internal, same' ▸ there, queued, result⟩
      · cases there.symm.trans now
        cases queued

section Start
variable {m : Manager} {p : Nat} {internal : InternalJob} {rest : List String}

theorem startJob_eq (here : m.objects[p]? = some internal) (found : m.jobs.get? internal.job.id = some p) :
    m.startJob p = { m.put p (started internal) with
      runningCount := m.runningCount + 1
      started := m.started ++ [p]
      inFlight := m.inFlight ++ [p] } := by
  unfold startJob
  rw [here]
  exact updateJob_eq_put (m := { m with
    runningCount := m.runningCount + 1
    started := m.started ++ [p]
    inFlight := m.inFlight ++ [p] }) here found _

theorem not_inFlight (tracked : Tracked m) (here : m.objects[p]? = some internal) (queued : internal.job.status = .queued) : p ∉ m.inFlight := by
  intro member
  obtain ⟨other, there, stage⟩ := tracked.flight p member
  cases here.symm.trans there
  rw [queued] at stage
  rcases stage with bad | ⟨bad, _⟩ <;> cases bad

theorem startJob_tracked (tracked : Tracked m) (here : m.objects[p]? = some internal) (queued : internal.job.status = .queued) :
    Tracked (m.startJob p) := by
  have active : isTerminalStatus internal.job.status = false := by rw [queued]; rfl
  have idle := not_inFlight tracked here queued
  rw [startJob_eq here (tracked.kept p internal here active)]
  have flight : FlightOf m p (started internal) (m.inFlight ++ [p]) :=
    { distinct := by
        rw [List.nodup_append]
        refine ⟨tracked.distinct, List.nodup_singleton p, ?_⟩
        rintro a member b last rfl
        exact idle (List.mem_singleton.mp last ▸ member)
      others := fun q apart => by simp [apart]
      delegated := fun _ => by simp
      flight := fun _ => .inl rfl }
  have futures : ∀ future, (started internal).future = some future → (future = .pending ↔ isTerminalStatus (started internal).job.status = false) := by
    intro future promised
    rw [tracked.futures p internal future here promised, active]
    exact iff_of_true rfl rfl
  have unaborted : isTerminalStatus (started internal).job.status = false → (started internal).aborted = false :=
    fun _ => tracked.unaborted p internal here active
  have id : (started internal).job.id = internal.job.id := rfl
  exact (tracked.change here active id flight unaborted futures).same rfl rfl rfl

theorem startJob_advanced (tracked : Tracked m) (here : m.objects[p]? = some internal) (queued : internal.job.status = .queued) :
    Advanced m (m.startJob p) := by
  have active : isTerminalStatus internal.job.status = false := by rw [queued]; rfl
  rw [startJob_eq here (tracked.kept p internal here active)]
  refine ⟨rfl, rfl, rfl, rfl, rfl, rfl, rfl, fun q member => List.mem_append_left _ member, fun q => ?_⟩
  change (m.put p (started internal)).objects[q]? = _ ∨ _
  by_cases same : q = p
  · subst same
    exact .inr ⟨internal, here, queued, (objects_put here _ q).trans (if_pos rfl)⟩
  · exact .inl ((objects_put here _ q).trans (if_neg same))

theorem first_waiting (line : m.waiting = internal.job.id :: rest) (tracked : Tracked m) (here : m.objects[p]? = some internal) :
    internal.job.status = .queued ∧ m.waiting.filter (· ≠ internal.job.id) = rest ∧
      ∀ (q : Nat) (other : InternalJob), m.objects[q]? = some other → other.job.status = .queued → q ≠ p → p < q := by
  obtain ⟨before, after, objects, length, _⟩ := waiting_split here
  have unique : ∀ (q : Nat) (other : InternalJob), m.objects[q]? = some other → other.job.id = internal.job.id → q = p := fun q other there same =>
    tracked.ids q p other internal there here same
  have member : internal.job.id ∈ m.waiting := by
    rw [line]
    exact List.mem_cons_self
  obtain ⟨queued, there, same⟩ := List.mem_map.mp member
  obtain ⟨there, status⟩ := List.mem_filter.mp there
  obtain ⟨q, at'⟩ := List.mem_iff_getElem?.mp there
  cases unique q queued at' same
  cases here.symm.trans at'
  have status : internal.job.status = .queued := of_decide_eq_true status
  have nothing : before.filter (fun internal => internal.job.status = .queued) = [] := by
    unfold waiting at line
    rw [objects, List.filter_append, List.map_append] at line
    cases early : before.filter (fun internal => internal.job.status = .queued) with
    | nil => rfl
    | cons first others =>
      rw [early, List.map_cons, List.cons_append] at line
      have same := (List.cons.inj line).1
      have listed : first ∈ before := (List.mem_filter.mp (early ▸ List.mem_cons_self : first ∈ before.filter _)).1
      obtain ⟨q, bound, place⟩ := List.mem_iff_getElem.mp listed
      have there : m.objects[q]? = some first := by
        rw [objects, List.getElem?_append_left bound, List.getElem?_eq_getElem bound, place]
      have := unique q first there same
      omega
  refine ⟨status, ?_, fun q other there queued apart => ?_⟩
  · have distinct : internal.job.id ∉ rest := by
      intro again
      unfold waiting at line
      rw [objects, List.filter_append, nothing, List.nil_append, List.filter_cons_of_pos (by simpa using status), List.map_cons] at line
      rw [← (List.cons.inj line).2] at again
      obtain ⟨late, there, same⟩ := List.mem_map.mp again
      obtain ⟨q, bound, place⟩ := List.mem_iff_getElem.mp (List.mem_filter.mp there).1
      have there : m.objects[before.length + (q + 1)]? = some late := by
        rw [objects, List.getElem?_append_right (Nat.le_add_right _ _), Nat.add_sub_cancel_left, List.getElem?_cons_succ,
          List.getElem?_eq_getElem bound, place]
      have := unique _ late there same
      omega
    rw [line, List.filter_cons_of_neg (by simp), List.filter_eq_self]
    intro name member
    exact decide_eq_true fun same => distinct (same ▸ member)
  · by_contra early
    have bound : q < before.length := by omega
    rw [objects, List.getElem?_append_left bound] at there
    have listed : other ∈ before.filter fun internal => internal.job.status = .queued :=
      List.mem_filter.mpr ⟨List.mem_of_getElem? there, by simpa using queued⟩
    rw [nothing] at listed
    cases listed

theorem startJob_lined (tracked : Tracked m) (here : m.objects[p]? = some internal) (lined : Lined m (internal.job.id :: rest))
    (slot : m.runningCount < m.maxConcurrent) : Lined (m.startJob p) rest := by
  obtain ⟨queued, others, first⟩ := first_waiting lined.line.symm tracked here
  have active : isTerminalStatus internal.job.status = false := by rw [queued]; rfl
  have running := running_put here (started internal)
  rw [startJob_eq here (tracked.kept p internal here active)]
  have runs : (started internal).job.status = .running := rfl
  refine ⟨?_, ?_, ?_, ?_, ?_, ?_⟩
  · rw [queued, runs] at running
    have count := lined.count
    change m.runningCount + 1 = ((m.put p (started internal)).running : Int) + m.settling.length
    simp only [reduceCtorEq, if_false, if_true] at running
    omega
  · change m.runningCount + 1 ≤ m.maxConcurrent
    omega
  · have left : (m.put p (started internal)).waiting = _ := waiting_put_leaves tracked here queued (by rw [runs]; decide)
    exact (left.trans others).symm
  · change (m.started ++ [p]).Pairwise (· < ·)
    rw [List.pairwise_append]
    refine ⟨lined.order, List.pairwise_singleton _ _, fun q member r last => ?_⟩
    rw [List.mem_singleton.mp last]
    exact lined.ahead p internal here queued q member
  · intro q member
    change ∃ internal, (m.put p (started _)).objects[q]? = some internal ∧ _
    rw [objects_put here]
    split
    · exact ⟨_, rfl, by rw [runs]; decide⟩
    · rename_i apart
      rcases List.mem_append.mp member with early | last
      · exact lined.past q early
      · exact (apart (List.mem_singleton.mp last)).elim
  · intro q other there waits r member
    change (m.put p (started internal)).objects[q]? = some other at there
    rw [objects_put here] at there
    split at there
    · cases there
      rw [runs] at waits
      cases waits
    · rename_i apart
      rcases List.mem_append.mp member with early | last
      · exact lined.ahead q other there waits r early
      · rw [List.mem_singleton.mp last]
        exact first q other there waits apart

/-- What the queue's work leaves: the slots are full or the line is empty. -/
theorem processQueue_spec (line : List String) {m : Manager} (tracked : Tracked m) (lined : Lined m line) :
    Tracked (processQueue line m) ∧ Lined (processQueue line m) (processQueue line m).queue ∧
      ((processQueue line m).queue ≠ [] → ((processQueue line m).maxConcurrent : Int) ≤ (processQueue line m).runningCount) ∧
      Advanced m (processQueue line m) := by
  induction line generalizing m with
  | nil =>
    refine ⟨tracked.same rfl rfl rfl, ?_, fun waits => (waits rfl).elim, ⟨rfl, rfl, rfl, rfl, rfl, rfl, rfl, fun _ => id, fun _ => .inl rfl⟩⟩
    exact ⟨lined.count, lined.cap, lined.line, lined.order, lined.past, lined.ahead⟩
  | cons nextId rest ih =>
    have member : nextId ∈ m.waiting := lined.line ▸ List.mem_cons_self
    obtain ⟨internal, there, same⟩ := List.mem_map.mp member
    obtain ⟨there, status⟩ := List.mem_filter.mp there
    obtain ⟨p, here⟩ := List.mem_iff_getElem?.mp there
    have queued : internal.job.status = .queued := of_decide_eq_true status
    subst same
    unfold processQueue
    by_cases slot : m.runningCount < m.maxConcurrent
    · have found := tracked.kept p internal here (by rw [queued]; rfl)
      have status : m.statusAt p = some .queued := by
        unfold statusAt
        rw [here, Option.map_some, queued]
      rw [if_pos slot, found]
      simp only [status, if_true]
      obtain ⟨tracked', lined', full, advanced⟩ := ih (startJob_tracked tracked here queued) (startJob_lined tracked here lined slot)
      exact ⟨tracked', lined', full, (startJob_advanced tracked here queued).trans advanced⟩
    · rw [if_neg slot]
      refine ⟨tracked.same rfl rfl rfl, ?_, fun _ => not_lt.mp slot, ⟨rfl, rfl, rfl, rfl, rfl, rfl, rfl, fun _ => id, fun _ => .inl rfl⟩⟩
      exact ⟨lined.count, lined.cap, lined.line, lined.order, lined.past, lined.ahead⟩

end Start

end Bike4Mind.BackgroundAgents
