import Bike4Mind.Credits.CreditHold

/-!
The generation job document and the repository's operations on it. Every write of the repository is
one atomic `findOneAndUpdate` or `updateOne`, so it is a filter on the stored document and a change
to a document that matches.
-/

namespace Bike4Mind.GenerationJobs
open Credits

inductive JobKind where
  | video
  | music
  deriving DecidableEq

def JobKind.name : JobKind → String
  | .video => "video"
  | .music => "music"

inductive JobState where
  | pending
  | running
  | storing
  | succeeded
  | failed
  | blocked
  | cancelled
  deriving DecidableEq

/-- Membership in `TERMINAL_GENERATION_JOB_STATES`. -/
def JobState.terminal : JobState → Bool
  | .succeeded | .failed | .blocked | .cancelled => true
  | .pending | .running | .storing => false

inductive ErrorCode where
  | contentBlocked
  | providerTimeout
  | providerError
  | orphanedSubmit
  | regionUnavailable
  | outputTooLarge
  | inputImageNotFound
  | enqueueFailed
  | cancelled
  | accountBlocked
  deriving DecidableEq

structure JobError where
  code : ErrorCode
  message : String
  deriving DecidableEq

/-- The kind-specific part; `request` is its canonical JSON, and `detail` whatever else the handler
stores. -/
structure Payload where
  request : String
  model : String
  providerId : String
  sessionId : Option String := none
  billedBlock : Bool := false
  detail : String := ""
  deriving DecidableEq

structure Job where
  id : String
  kind : JobKind
  ownerType : CreditHolderType
  ownerId : String
  requestedBy : String
  apiKeyId : Option String := none
  questId : Option String := none
  state : JobState
  payload : Payload
  progress : Option ℚ := none
  pollCount : Nat := 0
  attempts : Nat := 0
  cancelRequested : Bool := false
  submitAttemptedAt : Option Time := none
  leaseUntil : Option Time := none
  nextPollAt : Option Time := none
  deadlineAt : Time
  idempotencyKey : Option String := none
  creditHold : Option CreditHold
  settledCredits : Option ℚ := none
  error : Option JobError := none
  rawProviderError : Option String := none
  terminalHandlingClaimedAt : Option Time := none
  terminalHandledAt : Option Time := none
  updatedAt : Time := 0
  deriving DecidableEq

def resolveJobOwner (userId : String) (organizationId : Option String) : CreditHolderType × String :=
  match organizationId with
  | none | some "" => (.user, userId)
  | some id => (.organization, id)

def MUSIC_JOB_MAX_WALL_CLOCK_MS : Int := 15 * 60000

/-- The document `createMusicJob` persists. `nextPollAt` is set at creation so that the sweep also
recovers a job whose first queue message was lost. -/
def musicJobInput (id userId : String) (organizationId : Option String) (payload : Payload)
    (idempotencyKey : Option String) (hold : Option CreditHold) (now : Time) : Job where
  id := id
  kind := .music
  ownerType := (resolveJobOwner userId organizationId).1
  ownerId := (resolveJobOwner userId organizationId).2
  requestedBy := userId
  state := .pending
  payload := payload
  nextPollAt := some now
  deadlineAt := now + MUSIC_JOB_MAX_WALL_CLOCK_MS
  idempotencyKey := idempotencyKey
  creditHold := hold

def Job.unleased (now : Time) (job : Job) : Bool :=
  job.leaseUntil.all (· < now)

/-- A `GenerationJobCommit`: the fields a commit sets. An absent field is left alone. -/
structure Commit where
  state : Option JobState := none
  payload : Option Payload := none
  progress : Option ℚ := none
  pollCount : Option Nat := none
  attempts : Option Nat := none
  nextPollAt : Option (Option Time) := none
  error : Option JobError := none
  rawProviderError : Option String := none
  submitAttemptedAt : Option (Option Time) := none
  deriving DecidableEq

def Commit.apply (update : Commit) (job : Job) : Job :=
  { job with
    state := update.state.getD job.state
    payload := update.payload.getD job.payload
    progress := update.progress <|> job.progress
    pollCount := update.pollCount.getD job.pollCount
    attempts := update.attempts.getD job.attempts
    nextPollAt := update.nextPollAt.getD job.nextPollAt
    error := update.error <|> job.error
    rawProviderError := update.rawProviderError <|> job.rawProviderError
    submitAttemptedAt := update.submitAttemptedAt.getD job.submitAttemptedAt }

inductive CommitGuard where
  | lease (leaseToken : Time)
  | unstarted (now : Time)
  deriving DecidableEq

def CommitGuard.filter : CommitGuard → Job → Bool
  | .lease token, job => job.leaseUntil == some token
  | .unstarted now, job => job.state == .pending && job.submitAttemptedAt.isNone && job.unleased now

/-- One atomic conditional write. -/
structure Write where
  filter : Job → Bool
  set : Job → Job

namespace Repository

-- Claimed but unhandled terminal jobs are leasable too: leasing them lets the engine alarm on them.
def acquireLease (now leaseUntil : Time) : Write where
  filter job := job.unleased now && (!job.state.terminal || job.terminalHandledAt.isNone)
  set job := { job with leaseUntil := some leaseUntil }

-- The lease is not part of this filter.
def markSubmitAttempted (at' : Time) (markRunning : Bool) : Write where
  filter job := !job.cancelRequested
  set job := { job with
    submitAttemptedAt := some at'
    state := if markRunning then .running else job.state }

def commit (update : Commit) (guard : CommitGuard) : Write where
  filter job := guard.filter job
  set job := { update.apply job with leaseUntil := none }

def requestCancel (beforeSubmitOnly : Bool) : Write where
  filter job :=
    if beforeSubmitOnly then job.state == .pending && job.submitAttemptedAt.isNone
    else job.state == .pending || job.state == .running
  set job := { job with cancelRequested := true }

def claimTerminalHandling (at' : Time) : Write where
  filter job := job.state.terminal && job.terminalHandlingClaimedAt.isNone
  set job := { job with terminalHandlingClaimedAt := some at' }

def markTerminalHandled (at' : Time) : Write where
  filter _ := true
  set job := { job with terminalHandledAt := some at' }

def recordSettlement (settledCredits : ℚ) : Write where
  filter _ := true
  set job := { job with settledCredits := some settledCredits }

end Repository

/-- The document the write returns, if one matched. Timestamps are stamped on every write. -/
def Write.matched (write : Write) (clock : Time) (doc : Option Job) : Option Job :=
  (doc.filter write.filter).map fun job => { write.set job with updatedAt := clock }

/-- The store after the write. -/
def Write.stored (write : Write) (clock : Time) (doc : Option Job) : Option Job :=
  (write.matched clock doc).or doc

theorem matched_some {write : Write} {clock : Time} {doc : Option Job} {job' : Job}
    (h : write.matched clock doc = some job') :
    ∃ job, doc = some job ∧ write.filter job = true ∧ job' = { write.set job with updatedAt := clock } := by
  obtain ⟨job, found, rfl⟩ := Option.map_eq_some_iff.mp h
  obtain ⟨present, passes⟩ := Option.filter_eq_some_iff.mp found
  exact ⟨job, present, passes, rfl⟩

/-! ### The sweep's query -/

structure StalledJobLimits where
  inFlight : Nat
  terminal : Nat
  deriving DecidableEq

def Job.stalledInFlight (overdueBefore : Time) (job : Job) : Bool :=
  !job.state.terminal && job.nextPollAt.any (· < overdueBefore)

def Job.stalledTerminal (overdueBefore : Time) (job : Job) : Bool :=
  job.state.terminal && job.terminalHandledAt.isNone &&
    ((job.terminalHandlingClaimedAt.isNone && decide (job.updatedAt < overdueBefore)) ||
      job.terminalHandlingClaimedAt.any (· < overdueBefore))

/-- `findStalled`: in-flight jobs by `nextPollAt`, then terminal ones by `updatedAt`, each within its
own limit. -/
def findStalled (jobs : List Job) (overdueBefore : Time) (limits : StalledJobLimits) : List Job :=
  ((jobs.filter (·.stalledInFlight overdueBefore)).mergeSort
      (fun a b => decide (a.nextPollAt.getD 0 ≤ b.nextPollAt.getD 0))).take limits.inFlight ++
    ((jobs.filter (·.stalledTerminal overdueBefore)).mergeSort
      (fun a b => decide (a.updatedAt ≤ b.updatedAt))).take limits.terminal

end Bike4Mind.GenerationJobs
