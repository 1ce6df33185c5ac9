import Bike4Mind.Collections.OrderedMap
import Mathlib.Algebra.GroupWithZero.Nat
import Mathlib.Data.List.Sort

/-! The agents that run in the background of a session: their jobs, the line for a slot, and what is reported of them. -/

namespace Bike4Mind.BackgroundAgents

open Collections

inductive BackgroundAgentStatus where
  | queued
  | running
  | completed
  | failed
  | cancelled
  deriving DecidableEq

def isTerminalStatus : BackgroundAgentStatus → Bool
  | .completed | .failed | .cancelled => true
  | _ => false

structure SpawnAgentOptions where
  agentName : String
  task : String
  groupDescription : Option String := none

/-- What of an `AgentExecutionResult` the manager reads. -/
structure AgentExecutionResult where
  summary : String
  totalTokens : Nat
  totalCredits : Option Nat

structure BackgroundAgentJob where
  id : String
  agentName : String
  task : String
  status : BackgroundAgentStatus
  turnId : Option String
  groupDescription : Option String
  endTime : Option Nat := none
  error : Option String := none
  resultSummary : Option String := none
  totalTokens : Option Nat := none
  totalCredits : Option Nat := none

/-- The promise of `spawnWithFuture`. -/
inductive Future where
  | pending
  | resolved (summary : String)
  | rejected (message : String)
  deriving DecidableEq

/-- `aborted` is the flag of the job's abort signal. -/
structure InternalJob where
  job : BackgroundAgentJob
  aborted : Bool := false
  future : Option Future := none

/-- A promise settles once. -/
def InternalJob.settle (internal : InternalJob) (outcome : Future) : InternalJob :=
  if internal.future = some .pending then { internal with future := some outcome } else internal

structure TurnGroupNotification where
  jobId : String
  agentName : String
  task : String
  status : BackgroundAgentStatus
  content : String

/-- `serial` tells the groups of one turn apart. -/
structure TurnGroup where
  serial : Nat
  turnId : String
  description : Option String
  jobIds : List String
  notifications : List TurnGroupNotification

/-- A pending notification, before it is put in words; an immediate one is its content alone. -/
inductive Notification where
  | immediate (jobId content : String)
  | consolidated (group : TurnGroup) (groupTokens groupCredits : Nat)

def DEFAULT_MAX_CONCURRENT : Nat := 4

def DEFAULT_MAX_JOB_AGE_MS : Nat := 60 * 60 * 1000

def MAX_JOBS_BEFORE_CLEANUP : Nat := 100

/-- The manager, with the job objects by their place: a delegation holds on to its own after it has left `jobs`. `inFlight` are the
delegations that have not settled and `settling` those whose handler has run and whose `finally` has not; `started`, `drained` and
`groupsOpened` record the past. -/
structure Manager where
  maxConcurrent : Nat := DEFAULT_MAX_CONCURRENT
  objects : List InternalJob := []
  jobs : OrderedMap String Nat := ∅
  queue : List String := []
  runningCount : Int := 0
  pendingNotifications : List Notification := []
  turnGroups : OrderedMap String TurnGroup := ∅
  currentTurnId : Option String := none
  inFlight : List Nat := []
  settling : List Nat := []
  started : List Nat := []
  drained : List Notification := []
  groupsOpened : Nat := 0

namespace Manager

def setCurrentTurn (m : Manager) (turnId : Option String) : Manager := { m with currentTurnId := turnId }

def modify (m : Manager) (place : Nat) (change : InternalJob → InternalJob) : Manager := { m with objects := m.objects.modify place change }

/-- The job a lookup by id finds. -/
def get? (m : Manager) (id : String) : Option InternalJob := (m.jobs.get? id).bind fun place => m.objects[place]?

def statusAt (m : Manager) (place : Nat) : Option BackgroundAgentStatus := (m.objects[place]?).map fun internal => internal.job.status

def updateJob (m : Manager) (id : String) (updates : BackgroundAgentJob → BackgroundAgentJob) : Manager :=
  match m.jobs.get? id with
  | none => m
  | some place => m.modify place fun internal => { internal with job := updates internal.job }

def startJob (m : Manager) (place : Nat) : Manager :=
  match m.objects[place]? with
  | none => m
  | some internal =>
    let m := { m with runningCount := m.runningCount + 1, started := m.started ++ [place], inFlight := m.inFlight ++ [place] }
    m.updateJob internal.job.id fun job => { job with status := .running }

/-- A text that is there and is not empty. -/
def truthy (text : Option String) : Option String := text.filter (· ≠ "")

/-- The new job joins the group of its turn. -/
def joinTurnGroup (m : Manager) (id : String) (groupDescription : Option String) : Manager :=
  match truthy m.currentTurnId with
  | none => m
  | some turnId =>
    match m.turnGroups.get? turnId with
    | none =>
      let group : TurnGroup := { serial := m.groupsOpened, turnId, description := groupDescription, jobIds := [id], notifications := [] }
      { m with turnGroups := m.turnGroups.set turnId group, groupsOpened := m.groupsOpened + 1 }
    | some group =>
      let description := if (truthy groupDescription).isSome ∧ (truthy group.description).isNone then groupDescription else group.description
      { m with turnGroups := m.turnGroups.set turnId { group with description, jobIds := group.jobIds ++ [id] } }

def newJob (m : Manager) (options : SpawnAgentOptions) (id : String) : BackgroundAgentJob :=
  { id
    agentName := options.agentName
    task := options.task
    status := if m.runningCount ≥ m.maxConcurrent then .queued else .running
    turnId := m.currentTurnId
    groupDescription := options.groupDescription }

/-- The job object stored, and the job with its group, before it starts or waits. -/
def stored (m : Manager) (options : SpawnAgentOptions) (id : String) : Manager :=
  joinTurnGroup { m with
    objects := m.objects ++ [⟨m.newJob options id, false, none⟩]
    jobs := m.jobs.set id m.objects.length } id options.groupDescription

/-- `id` is the one drawn for the job. -/
def spawn (m : Manager) (options : SpawnAgentOptions) (id : String) : Manager :=
  let stored := m.stored options id
  if m.runningCount ≥ m.maxConcurrent then { stored with queue := stored.queue ++ [id] } else stored.startJob m.objects.length

def spawnWithFuture (m : Manager) (options : SpawnAgentOptions) (id : String) : Manager :=
  (m.spawn options id).modify m.objects.length fun internal => { internal with future := some .pending }

/-- Starts what the slots allow of the queue, `waiting`. -/
def processQueue : (waiting : List String) → Manager → Manager
  | [], m => { m with queue := [] }
  | nextId :: rest, m =>
    if m.runningCount < m.maxConcurrent then
      match m.jobs.get? nextId with
      | none => processQueue rest m
      | some place => if m.statusAt place = some .queued then processQueue rest (m.startJob place) else processQueue rest m
    else { m with queue := nextId :: rest }

def cancelJob (m : Manager) (id : String) (now : Nat) : Manager :=
  match m.jobs.get? id with
  | none => m
  | some place =>
    match m.statusAt place with
    | some .queued =>
      let m := { m with queue := m.queue.filter (· ≠ id) }
      (m.updateJob id fun job => { job with status := .cancelled, endTime := some now }).modify place (·.settle (.rejected "Job was cancelled"))
    | some .running =>
      let m := m.modify place fun internal => { internal with aborted := true }
      let m := (m.updateJob id fun job => { job with status := .cancelled, endTime := some now }).modify place (·.settle (.rejected "Job was cancelled"))
      processQueue m.queue { m with runningCount := m.runningCount - 1 }
    | _ => m

def drainNotifications (m : Manager) : Manager := { m with pendingNotifications := [], drained := m.drained ++ m.pendingNotifications }

/-! ### Completion -/

def removed (m : Manager) (ids : List String) : Manager := { m with jobs := ids.foldl OrderedMap.erase m.jobs }

/-- The jobs that ended longer than `maxAgeMs` ago. -/
def aged (m : Manager) (now maxAgeMs : Nat) : List String :=
  m.jobs.keys.filter fun id => (m.get? id).any fun internal =>
    isTerminalStatus internal.job.status && internal.job.endTime.any fun endTime => endTime ≠ 0 && decide (maxAgeMs < now - endTime)

/-- The oldest finished jobs, when there are too many. -/
def excess (m : Manager) : List String :=
  if m.jobs.keys.length > MAX_JOBS_BEFORE_CLEANUP then
    let completedJobs := m.jobs.keys.filter fun id => (m.get? id).any fun internal => isTerminalStatus internal.job.status
    let endTime (id : String) : Nat := ((m.get? id).bind (·.job.endTime)).getD 0
    (completedJobs.mergeSort fun one two => endTime one ≤ endTime two).take (m.jobs.keys.length - MAX_JOBS_BEFORE_CLEANUP + 10)
  else []

def cleanupOldJobs (m : Manager) (now maxAgeMs : Nat) : Manager :=
  let m := m.removed (m.aged now maxAgeMs)
  m.removed m.excess

def createConsolidatedNotification (m : Manager) (group : TurnGroup) : Notification :=
  let counted (amount : BackgroundAgentJob → Option Nat) : Nat :=
    (group.notifications.map fun notification => ((m.get? notification.jobId).bind fun internal => amount internal.job).getD 0).sum
  .consolidated group (counted (·.totalTokens)) (counted (·.totalCredits))

def allComplete (m : Manager) (group : TurnGroup) : Bool :=
  group.jobIds.all fun jobId => (m.get? jobId).any fun internal => isTerminalStatus internal.job.status

def checkTurnGroupCompletion (m : Manager) (turnId : String) (now : Nat) : Manager :=
  match m.turnGroups.get? turnId with
  | none => m
  | some group =>
    if m.allComplete group then
      let m := { m with
        pendingNotifications := m.pendingNotifications ++ [m.createConsolidatedNotification group]
        turnGroups := m.turnGroups.erase turnId }
      m.cleanupOldJobs now DEFAULT_MAX_JOB_AGE_MS
    else m

def handleJobCompletion (m : Manager) (job : BackgroundAgentJob) (status : BackgroundAgentStatus) (content : String) (now : Nat) : Manager :=
  let immediately := { m with pendingNotifications := m.pendingNotifications ++ [.immediate job.id content] }
  match truthy job.turnId with
  | none => immediately
  | some turnId =>
    match m.turnGroups.get? turnId with
    | none => immediately
    | some group =>
      let notification : TurnGroupNotification := { jobId := job.id, agentName := job.agentName, task := job.task, status, content }
      let group := { group with notifications := group.notifications ++ [notification] }
      ({ m with turnGroups := m.turnGroups.set turnId group }).checkTurnGroupCompletion turnId now

/-- The `then` handler of a delegation. -/
def onResult (m : Manager) (place : Nat) (result : AgentExecutionResult) (now : Nat) : Manager :=
  match m.objects[place]? with
  | none => m
  | some internal =>
    if internal.aborted then m
    else
      let m := m.updateJob internal.job.id fun job =>
        { job with
          status := .completed
          endTime := some now
          resultSummary := some result.summary
          totalTokens := some result.totalTokens
          totalCredits := result.totalCredits }
      let m := m.modify place (·.settle (.resolved result.summary))
      m.handleJobCompletion internal.job .completed result.summary now

/-- The `catch` handler of a delegation. -/
def onError (m : Manager) (place : Nat) (errorMsg : String) (now : Nat) : Manager :=
  match m.objects[place]? with
  | none => m
  | some internal =>
    let status := if internal.aborted then BackgroundAgentStatus.cancelled else .failed
    let m := m.updateJob internal.job.id fun job => { job with status, endTime := some now, error := some errorMsg }
    let m := m.modify place (·.settle (.rejected (if internal.aborted then "Job was cancelled" else errorMsg)))
    m.handleJobCompletion internal.job status errorMsg now

/-- The `finally` handler of a delegation. -/
def onFinally (m : Manager) : Manager := processQueue m.queue { m with runningCount := m.runningCount - 1 }

/-! ### Runs -/

inductive Event where
  | setCurrentTurn (turnId : Option String)
  | spawn (options : SpawnAgentOptions) (id : String)
  | spawnWithFuture (options : SpawnAgentOptions) (id : String)
  | cancelJob (id : String) (now : Nat)
  | resolves (place : Nat) (result : AgentExecutionResult) (now : Nat)
  | rejects (place : Nat) (errorMsg : String) (now : Nat)
  | finishes (place : Nat)
  | cleanupOldJobs (now maxAgeMs : Nat)
  | drainNotifications

/-- A delegation settles once, and its `finally` comes after. -/
def step (m : Manager) : Event → Option Manager
  | .setCurrentTurn turnId => some (m.setCurrentTurn turnId)
  | .spawn options id => some (m.spawn options id)
  | .spawnWithFuture options id => some (m.spawnWithFuture options id)
  | .cancelJob id now => some (m.cancelJob id now)
  | .resolves place result now =>
    if place ∈ m.inFlight then
      some (onResult { m with inFlight := m.inFlight.erase place, settling := place :: m.settling } place result now)
    else none
  | .rejects place errorMsg now =>
    if place ∈ m.inFlight then
      some (onError { m with inFlight := m.inFlight.erase place, settling := place :: m.settling } place errorMsg now)
    else none
  | .finishes place => if place ∈ m.settling then some (onFinally { m with settling := m.settling.erase place }) else none
  | .cleanupOldJobs now maxAgeMs => some (m.cleanupOldJobs now maxAgeMs)
  | .drainNotifications => some m.drainNotifications

def run (m : Manager) : List Event → Option Manager
  | [] => some m
  | event :: events => (m.step event).bind fun m => m.run events

end Manager

end Bike4Mind.BackgroundAgents
