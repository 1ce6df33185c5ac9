import Bike4Mind.Concurrency.Protocol
import Bike4Mind.GenerationJobs.Job

/-!
`GenerationJobEngine` and the terminal handling of its handlers, as programs over the job's awaits.
Loggers and abort signals carry no data into the job and are left out: a handler's call may answer
or reject in any way at any time.
-/

namespace Bike4Mind.GenerationJobs
open Concurrency Credits

def EARLY_DELIVERY_GRACE_MS : Int := 2000
def STEP_COMMIT_MARGIN_MS : Int := 30000
def MAX_STEP_ATTEMPTS : Nat := 5
def POLL_BACKOFF_SECONDS : List Nat := [5, 10, 20, 30, 60]

def pollDelaySeconds (pollCount : Nat) : Nat :=
  POLL_BACKOFF_SECONDS.getD (min pollCount (POLL_BACKOFF_SECONDS.length - 1)) 0

inductive StepResult where
  | running (payload : Payload)
  | pollAgain (progress : Option ℚ)
  | storing (payload : Payload)
  | succeeded (payload : Payload)
  | failed (error : JobError) (rawProviderError : Option String)
  | blocked (error : JobError) (rawProviderError : Option String) (payload : Option Payload)
  | retry (reason : String)
  deriving DecidableEq

inductive StepOutcome where
  | skipped
  | advanced
  | terminal
  deriving DecidableEq

inductive CancelRequestOutcome where
  | requested (job : Job)
  | notCancellable (job : Job)
  | unchanged (job : Option Job)

inductive FailOutcome where
  | failed
  | skipped
  deriving DecidableEq

/-! ### Awaited operations -/

/-- What a handler's `onTerminal` awaits. The first two mark the start of the call they name. -/
inductive SettlementOp where
  | releaseJobHold
  | settleJobHold (credits : JsNumber)
  | credit (op : CreditOp)
  | recordSettlement (settledCredits : ℚ)
  | recordUsage (creditsCharged costUsd : ℚ)

abbrev SettlementOp.Value : SettlementOp → Type
  | .credit op => op.Value
  | .releaseJobHold | .settleJobHold _ | .recordSettlement _ | .recordUsage .. => Unit

/-- What the engine and job creation await, on one job id. `submit`, `onTerminal` and
`onTerminalReturned` mark the start of a handler's call and its return. -/
inductive Op where
  | now
  | findById
  | findByIdempotencyKey (key : String)
  | createJob (input : Job)
  | acquireLease (now leaseUntil : Time)
  | markSubmitAttempted (at' : Time) (markRunning : Bool)
  | commit (update : Commit) (guard : CommitGuard)
  | requestCancel (beforeSubmitOnly : Bool)
  | claimTerminalHandling (at' : Time)
  | markTerminalHandled (at' : Time)
  | enqueue (delaySeconds : Nat)
  | notify (job : Job)
  | aiAccessDenial (userId : String)
  | submit (job : Job)
  | submitOutcome
  | poll (job : Job)
  | store (job : Job)
  | cancelAtProvider (job : Job)
  | onTerminal (job : Job)
  | onTerminalReturned
  | settlement (op : SettlementOp)

abbrev Op.Value : Op → Type
  | .now => Time
  | .findById | .findByIdempotencyKey _ | .acquireLease .. | .markSubmitAttempted .. | .commit ..
  | .requestCancel _ => Option Job
  | .createJob _ => Job
  | .claimTerminalHandling _ => Bool
  | .aiAccessDenial _ => Option String
  | .submitOutcome | .poll _ | .store _ => StepResult
  | .settlement op => op.Value
  | .markTerminalHandled _ | .enqueue _ | .notify _ | .submit _ | .cancelAtProvider _ | .onTerminal _
  | .onTerminalReturned => Unit

abbrev Async (α : Type) := Program Op Op.Value JsError α
abbrev Settlement (α : Type) := Program SettlementOp SettlementOp.Value JsError α

abbrev call (op : Op) : Async op.Value := .perform op
abbrev settling (op : SettlementOp) : Settlement op.Value := .perform op

/-! ### Handlers -/

inductive SubmitMode where
  | sync
  | async
  deriving DecidableEq

/-- What the engine knows of a kind. The outcomes of `submit`, `poll` and `store` are replies of
their operations. -/
structure Handler where
  submitMode : SubmitMode
  onTerminal : Job → Settlement Unit

/-- A pricing failure leaves the cost `none` and the credits `NaN`, which keeps the whole hold. -/
structure Estimate where
  credits : JsNumber
  usd : Option ℚ
  deriving DecidableEq

section Settling

def creditCalls : CreditHoldAdapters Settlement :=
  .ofCalls fun op => settling (.credit op)

def releaseJobHold (job : Job) : Settlement Unit := do
  settling .releaseJobHold
  if let some hold := job.creditHold then
    releaseCreditHold hold creditCalls
  settling (.recordSettlement 0)

def settleJobHold (job : Job) (credits : JsNumber) (entry : CreditLedgerEntry) : Settlement ℚ := do
  settling (.settleJobHold credits)
  let charged ← match job.creditHold with
    | none => pure 0
    | some hold =>
      let entry := if job.apiKeyId.isSome && entry.apiKeyId.isNone then { entry with apiKeyId := job.apiKeyId } else entry
      settleCreditHold hold credits entry false creditCalls
  settling (.recordSettlement charged)
  return charged

/-- `settle` of the music and the video handler; they differ in their price and ledger entry. -/
def settle (estimate : Job → Estimate) (entry : Job → CreditLedgerEntry) (job : Job) : Settlement Unit := do
  let charged ← settleJobHold job (estimate job).credits (entry job)
  let some usd := (estimate job).usd
    | return
  tryCatch (settling (.recordUsage charged usd)) fun _ => pure ()

def Job.charged (job : Job) : Bool :=
  job.state == .succeeded || (job.state == .blocked && job.payload.billedBlock)

def settlingOnTerminal (estimate : Job → Estimate) (entry : Job → CreditLedgerEntry) (job : Job) : Settlement Unit := do
  if job.charged then
    settle estimate entry job
  else
    releaseJobHold job

def musicEntry (job : Job) : CreditLedgerEntry where
  type := "music_generation_usage"
  sessionId := (job.payload.sessionId <|> job.questId).getD job.id
  model := job.payload.model

def videoEntry (job : Job) : CreditLedgerEntry where
  type := "video_generation_usage"
  sessionId := job.questId.getD job.id
  questId := some (job.questId.getD job.id)
  model := job.payload.model

/-- The music kind, for any pricing of the catalog. -/
def musicJobHandler (estimate : Job → Estimate) : Handler where
  submitMode := .sync
  onTerminal := settlingOnTerminal estimate musicEntry

def videoJobHandler (estimate : Job → Estimate) : Handler where
  submitMode := .async
  onTerminal := settlingOnTerminal estimate videoEntry

end Settling

/-! ### The engine -/

/-- The engine's dependencies. Its constructor refuses a lease that leaves no time to commit. -/
structure Engine where
  leaseMs : Int
  margin : STEP_COMMIT_MARGIN_MS < leaseMs
  handlers : JobKind → Option Handler

def LEASE_MS : Int := 5 * 60000 + 30000

/-- The engine that the client's wiring builds. -/
def generationJobEngine (videoEstimate musicEstimate : Job → Estimate) : Engine where
  leaseMs := LEASE_MS
  margin := by decide
  handlers
    | .video => some (videoJobHandler videoEstimate)
    | .music => some (musicJobHandler musicEstimate)

def isOrphanedSubmit (job : Job) (handler : Handler) : Bool :=
  job.submitAttemptedAt.isSome &&
    (job.state == .pending || (job.state == .running && handler.submitMode == .sync))

def orphaned (message : String) : StepResult := .failed ⟨.orphanedSubmit, message⟩ none

def CANCELLED_BY_USER : Commit where
  state := some .cancelled
  error := some ⟨.cancelled, "Cancelled by the user"⟩

def noHandler (kind : JobKind) : JsError :=
  .error ("no generation job handler registered for kind '" ++ kind.name ++ "'")

def safeNotify (job : Job) : Async Unit :=
  tryCatch (call (.notify job)) fun _ => pure ()

def bestEffortCancel (job : Job) : Async Unit :=
  tryCatch (call (.cancelAtProvider job)) fun _ => pure ()

def cancelIfRunning (job : Job) : Async Unit := do
  if job.state == .running then
    bestEffortCancel job

def runOnTerminal (handler : Handler) (job : Job) : Async Unit := do
  call (.onTerminal job)
  (handler.onTerminal job).embed Op.settlement (fun _ => rfl)
  call .onTerminalReturned

/-- `lease` is the token still held on the job, released at the end; `none` when an earlier commit
released it. -/
def finishTerminal (job : Job) (handler : Handler) (lease : Option Time) : Async StepOutcome := do
  let claimedAt ← call .now
  if !(← call (.claimTerminalHandling claimedAt)) then
    if let some token := lease then
      let _ ← call (.commit {} (.lease token))
    return .skipped
  runOnTerminal handler job
  let handledAt ← call .now
  call (.markTerminalHandled handledAt)
  let released ← match lease with
    | some token => call (.commit {} (.lease token))
    | none => pure none
  safeNotify (released.getD job)
  return .terminal

/-- A rejected commit means this worker's lease was lost, and its result is dropped. -/
def commitStep (lease : Time) (update : Commit) : Async (Option Job) :=
  call (.commit update (.lease lease))

def toTerminal (handler : Handler) (lease : Time) (update : Commit) : Async StepOutcome := do
  let some committed ← commitStep lease { update with nextPollAt := some none }
    | return .skipped
  -- The commit released the lease; the terminal claim alone guards what follows.
  finishTerminal committed handler none

def advance (lease : Time) (update : Commit) (delaySeconds : Nat) : Async StepOutcome := do
  let now ← call .now
  let some committed ← commitStep lease { update with nextPollAt := some (some (now + delaySeconds * 1000)) }
    | return .skipped
  call (.enqueue delaySeconds)
  safeNotify committed
  return .advanced

def apply (job : Job) (handler : Handler) (lease : Time) (result : StepResult) : Async StepOutcome := do
  match result with
  | .running payload =>
    advance lease { state := some .running, payload := some payload, attempts := some 0, pollCount := some 0 }
      (pollDelaySeconds 0)
  | .storing payload =>
    advance lease { state := some .storing, payload := some payload, attempts := some 0, pollCount := some 0 } 0
  | .pollAgain progress =>
    advance lease { pollCount := some (job.pollCount + 1), attempts := some 0, progress := progress }
      (pollDelaySeconds (job.pollCount + 1))
  | .retry reason =>
    let attempts := job.attempts + 1
    if MAX_STEP_ATTEMPTS ≤ attempts then
      cancelIfRunning job
      toTerminal handler lease { state := some .failed, error := some ⟨.providerError, reason⟩ }
    else if job.state = .pending then
      -- A definitive submit rejection created nothing, so resubmitting is safe.
      advance lease { attempts := some attempts, state := some .pending, submitAttemptedAt := some none }
        (pollDelaySeconds (attempts - 1))
    else
      advance lease { attempts := some attempts } (pollDelaySeconds (attempts - 1))
  | .succeeded payload =>
    toTerminal handler lease { state := some .succeeded, payload := some payload, progress := some 1 }
  | .failed error raw =>
    cancelIfRunning job
    toTerminal handler lease { state := some .failed, error := some error, rawProviderError := raw }
  | .blocked error raw payload =>
    toTerminal handler lease
      { state := some .blocked, error := some error, rawProviderError := raw, payload := payload }

/-- A submit whose outcome is unknown fails the job rather than risk a duplicate. -/
def callSubmit (job : Job) : Async StepResult :=
  tryCatch (do
      call (.submit job)
      call .submitOutcome) fun _ =>
    return orphaned "The provider submit ended with an unknown outcome"

def submit (job : Job) (handler : Handler) (lease : Time) : Async StepOutcome := do
  let markRunning := handler.submitMode == .sync
  let now ← call .now
  let some attempted ← call (.markSubmitAttempted now markRunning)
    | toTerminal handler lease CANCELLED_BY_USER
  if markRunning then
    safeNotify attempted
  apply job handler lease (← callSubmit job)

def runStep (job : Job) : Async StepResult :=
  tryCatch (if job.state == .running then call (.poll job) else call (.store job)) fun e =>
    return .retry e.message

/-- The step of a leased, non-terminal job. -/
def stepLeased (job : Job) (handler : Handler) (lease now : Time) : Async StepOutcome := do
  -- Checked before cancel and deadline so neither can suppress the orphan alarm.
  if isOrphanedSubmit job handler then
    apply job handler lease (orphaned "A previous submit attempt ended without a recorded provider job")
  else if job.cancelRequested && job.state != .storing then
    cancelIfRunning job
    toTerminal handler lease CANCELLED_BY_USER
  else if job.nextPollAt.any (fun nextPollAt => now < nextPollAt - EARLY_DELIVERY_GRACE_MS) then
    let _ ← call (.commit {} (.lease lease))
    return .skipped
  else if job.state != .storing && job.deadlineAt < now then
    cancelIfRunning job
    toTerminal handler lease
      { state := some .failed, error := some ⟨.providerTimeout, "The provider did not finish in time"⟩ }
  else if job.state == .pending then
    if let some denial ← call (.aiAccessDenial job.requestedBy) then
      toTerminal handler lease { state := some .failed, error := some ⟨.accountBlocked, denial⟩ }
    else
      submit job handler lease
  else
    apply job handler lease (← runStep job)

namespace Engine

/-- The step must commit before both the lease and the invocation end, whichever is first. -/
def stepBudgetMs (E : Engine) (remainingMs : Option Int) : Int :=
  remainingMs.elim E.leaseMs (min E.leaseMs) - STEP_COMMIT_MARGIN_MS

def step (E : Engine) (remainingMs : Option Int) : Async StepOutcome := do
  if ¬ 0 < E.stepBudgetMs remainingMs then
    throw (.error s!"generation job step has no time budget ({E.stepBudgetMs remainingMs}ms)")
  let now ← call .now
  let lease := now + E.leaseMs
  let some job ← call (.acquireLease now lease)
    | return .skipped
  let some handler := E.handlers job.kind
    | do
      let _ ← call (.commit {} (.lease lease))
      throw (noHandler job.kind)
  if job.state.terminal then
    finishTerminal job handler (some lease)
  else
    stepLeased job handler lease now

def failBeforeStart (E : Engine) (error : JobError) : Async FailOutcome := do
  let now ← call .now
  let some committed ← call
      (.commit { state := some .failed, error := some error, nextPollAt := some none } (.unstarted now))
    | return .skipped
  let some handler := E.handlers committed.kind
    | throw (noHandler committed.kind)
  let _ ← finishTerminal committed handler none
  return .failed

def cancelRequested (job : Job) : Async CancelRequestOutcome := do
  call (.enqueue 0)
  return .requested job

/-- Only the kind of the target is read before the first write. -/
def requestCancel (E : Engine) (kind : JobKind) : Async CancelRequestOutcome := do
  let some handler := E.handlers kind
    | throw (noHandler kind)
  let beforeSubmitOnly := handler.submitMode == .sync
  if let some requested ← call (.requestCancel beforeSubmitOnly) then
    cancelRequested requested
  else
    let job ← call .findById
    match job with
    | none => return .unchanged none
    | some job =>
      -- A sync submit refused the cancel, then retried back to an unsubmitted pending.
      if job.state == .pending && job.submitAttemptedAt.isNone then
        if let some retried ← call (.requestCancel beforeSubmitOnly) then
          cancelRequested retried
        else
          return .notCancellable job
      else if job.state == .running then
        return .notCancellable job
      else
        return .unchanged (some job)

end Engine
end Bike4Mind.GenerationJobs
