import Bike4Mind.Runtime

/-!
The agent execution document and the repository's writes to it. Every write is one atomic update, so
it is a filter on the stored document and a change to a document that passes the filter.
-/

namespace Bike4Mind.AgentExecution

inductive AgentExecutionStatus where
  | pending
  | running
  | continuing
  | awaitingPermission
  | awaitingSubagent
  | awaitingDagChildren
  | paused
  | completed
  | failed
  | aborted
  deriving DecidableEq

namespace AgentExecutionStatus

/-- Membership in `ACTIVE_AGENT_EXECUTION_STATUSES`. -/
def active : AgentExecutionStatus → Bool
  | .completed | .failed | .aborted => false
  | _ => true

def terminal (status : AgentExecutionStatus) : Bool := !status.active

/-- Membership in `sweepableStatuses`. -/
def sweepable (status : AgentExecutionStatus) : Bool :=
  status.active && status != .awaitingSubagent && status != .awaitingDagChildren

end AgentExecutionStatus

/-- A call that the tool gate withheld; `input` is its JSON. -/
structure GatedToolCall where
  id : String
  name : String
  input : String
  deriving DecidableEq

structure PendingPermission where
  toolName : String
  toolInput : String
  toolCallId : Option String
  gatedToolCalls : List GatedToolCall
  approved : Bool := false
  deriving DecidableEq

structure PendingGate where
  iteration : Nat
  confidence : ℚ
  reason : String
  deriving DecidableEq

/-- What an invocation needs to rebuild the agent: the iterations behind it and the conversation. -/
structure Checkpoint where
  iteration : Nat
  conversation : String
  deriving DecidableEq

structure IterationBilling where
  iteration : Nat
  credits : ℚ
  deriving DecidableEq

structure WaitingOnChild where
  childExecutionId : String
  agentName : String
  toolUseId : String
  deriving DecidableEq

inductive FailurePolicy where
  | cascade
  | isolate
  deriving DecidableEq

structure DagNodeSpec where
  id : String
  description : String
  agentType : String
  dependsOn : List String
  onFailure : FailurePolicy
  deriving DecidableEq

structure DagSpec where
  tasks : List DagNodeSpec
  toolUseId : String
  deriving DecidableEq

structure WaitingOnDagChildren where
  pendingNodeIds : List String
  toolUseId : String
  deriving DecidableEq

structure ExecutionError where
  message : String
  callerSafe : Bool := false
  deriving DecidableEq

structure Document where
  status : AgentExecutionStatus
  checkpoint : Option Checkpoint := none
  result : Option String := none
  error : Option ExecutionError := none
  failureReason : Option String := none
  approvedTools : List String := []
  deniedTools : List String := []
  pendingPermission : Option PendingPermission := none
  pendingGate : Option PendingGate := none
  lowConfidenceStreak : Nat := 0
  iterationBilling : List IterationBilling := []
  totalCreditsUsed : ℚ := 0
  lambdaInvocationCount : Nat := 0
  subagentHandoffCount : Nat := 0
  parentExecutionId : Option String := none
  dagNodeId : Option String := none
  blockedBy : List String := []
  waitingOnChild : Option WaitingOnChild := none
  dagSpec : Option DagSpec := none
  waitingOnDagChildren : Option WaitingOnDagChildren := none
  abortedAt : Option Time := none
  completedAt : Option Time := none
  updatedAt : Time := 0
  deriving DecidableEq

/-- An update of one document: the filter it matches on and what it sets, at the time it lands. -/
structure Write where
  filter : Document → Bool
  update : Time → Document → Document

/-- The document after the write, if the filter matched it. `timestamps` moves `updatedAt` on. -/
def Write.matched (write : Write) (clock : Time) (doc : Document) : Option Document :=
  if write.filter doc then some { write.update clock doc with updatedAt := clock } else none

/-- `$addToSet`. -/
def addToSet (tools : List String) (tool : String) : List String :=
  if tool ∈ tools then tools else tools ++ [tool]

def addGiven (tools : List String) : Option String → List String
  | none => tools
  | some tool => addToSet tools tool

/-- A string that is there and not empty. -/
def truthy : Option String → Bool
  | none => false
  | some text => text != ""

namespace Repository

def always : Document → Bool := fun _ => true

def notAborted (doc : Document) : Bool := doc.abortedAt.isNone

/-- The filter on `pendingPermission.toolCallId`, which is left out when no id is given. -/
def namesCall (toolCallId : Option String) (doc : Document) : Bool :=
  !truthy toolCallId || doc.pendingPermission.bind (·.toolCallId) == toolCallId

def updateStatus (status : AgentExecutionStatus) : Write where
  filter := always
  update clock doc :=
    { doc with status := status, completedAt := if status = .completed then some clock else doc.completedAt }

def claimExecution (fromStatuses : List AgentExecutionStatus) (toStatus : AgentExecutionStatus) : Write where
  filter doc := doc.status ∈ fromStatuses
  update _ doc := { doc with status := toStatus }

def updateCheckpoint (checkpoint : Checkpoint) : Write where
  filter := always
  update _ doc := { doc with checkpoint := some checkpoint }

def updateCheckpointAndStatus (checkpoint : Checkpoint) (status : AgentExecutionStatus) : Write where
  filter := always
  update _ doc := { doc with checkpoint := some checkpoint, status := status }

def restoreRejectedResume (status : AgentExecutionStatus) (pendingPermission : Option PendingPermission)
    (pendingGate : Option PendingGate) : Write where
  filter doc := doc.status == .continuing && notAborted doc
  update _ doc :=
    { doc with
      status := status
      pendingPermission := pendingPermission.or doc.pendingPermission
      pendingGate := pendingGate.or doc.pendingGate }

/-- The pause that a response answers: open, not approved yet, and the one named. -/
def answerable (toolCallId : Option String) (doc : Document) : Bool :=
  doc.status == .awaitingPermission && doc.pendingPermission.any (fun pause => !pause.approved) &&
    namesCall toolCallId doc

def approvePendingPermission (approvedTool toolCallId : Option String) : Write where
  filter := answerable toolCallId
  update _ doc :=
    { doc with
      pendingPermission := doc.pendingPermission.map fun pause => { pause with approved := true }
      approvedTools := addGiven doc.approvedTools approvedTool }

/-- `none` is the `null` that unsets the pause. -/
def updatePermissionState (pendingPermission : Option PendingPermission) (matchToolCallId : Option String := none) :
    Write where
  filter := namesCall matchToolCallId
  update _ doc := { doc with pendingPermission := pendingPermission }

def denyPendingPermission (toolCallId deniedTool : Option String) (errorMessage : String) : Write where
  filter := answerable toolCallId
  update clock doc :=
    { doc with
      status := .failed
      error := some { message := errorMessage, callerSafe := true }
      completedAt := some clock
      pendingPermission := none
      deniedTools := addGiven doc.deniedTools deniedTool }

def setPendingGate (pendingGate : PendingGate) : Write where
  filter := notAborted
  update _ doc := { doc with pendingGate := some pendingGate, status := .paused, lowConfidenceStreak := 0 }

def clearPendingGate : Write where
  filter := notAborted
  update _ doc := { doc with pendingGate := none }

/-- The part of `recordIterationConfidence` that the gate decides on. -/
def recordIterationConfidence (belowThreshold : Bool) : Write where
  filter := always
  update _ doc := { doc with lowConfidenceStreak := if belowThreshold then doc.lowConfidenceStreak + 1 else 0 }

def addIterationBilling (billing : IterationBilling) : Write where
  filter := always
  update _ doc :=
    { doc with
      iterationBilling := doc.iterationBilling ++ [billing]
      totalCreditsUsed := doc.totalCreditsUsed + billing.credits }

def markComplete (result : String) : Write where
  filter := always
  update clock doc := { doc with status := .completed, result := some result, completedAt := some clock }

def markFailed (error : ExecutionError) : Write where
  filter := always
  update clock doc := { doc with status := .failed, error := some error, completedAt := some clock }

def markAborted (partialResult : Option String) : Write where
  filter := always
  update clock doc :=
    { doc with
      status := .aborted
      abortedAt := some clock
      completedAt := some clock
      result := partialResult.or doc.result }

def setAbortFlag : Write where
  filter := always
  update clock doc := { doc with abortedAt := some clock }

def incrementLambdaInvocationCount : Write where
  filter := always
  update _ doc := { doc with lambdaInvocationCount := doc.lambdaInvocationCount + 1 }

def incrementSubagentHandoffCount : Write where
  filter := always
  update _ doc := { doc with subagentHandoffCount := doc.subagentHandoffCount + 1 }

def setWaitingOnChild (waitingOnChild : WaitingOnChild) (checkpoint : Checkpoint) : Write where
  filter := always
  update _ doc :=
    { doc with waitingOnChild := some waitingOnChild, status := .awaitingSubagent, checkpoint := some checkpoint }

def clearWaitingOnChild : Write where
  filter := notAborted
  update _ doc := { doc with waitingOnChild := none, status := .running }

/-- Only ever called with a finite number of credits. -/
def incrementCreditsUsed (credits : ℚ) : Write where
  filter _ := 0 < credits
  update _ doc := { doc with totalCreditsUsed := doc.totalCreditsUsed + credits }

def setDagSpec (dagSpec : DagSpec) : Write where
  filter := always
  update _ doc := { doc with dagSpec := some dagSpec }

def setWaitingOnDagChildren (waitingOnDagChildren : WaitingOnDagChildren) (checkpoint : Option Checkpoint) : Write where
  filter := always
  update _ doc :=
    { doc with
      waitingOnDagChildren := some waitingOnDagChildren
      status := .awaitingDagChildren
      checkpoint := checkpoint.or doc.checkpoint }

def clearWaitingOnDagChildren : Write where
  filter := notAborted
  update _ doc := { doc with waitingOnDagChildren := none, status := .running }

/-- The update that `markAbandoned` makes to each of its executions. -/
def markAbandoned (olderThan : Option Time) : Write where
  filter doc := doc.status.sweepable && olderThan.all (fun cutoff => decide (doc.updatedAt < cutoff))
  update clock doc :=
    { doc with
      status := .failed
      failureReason := some "abandoned"
      completedAt := some clock
      error := some { message := "Abandoned: stale active execution" } }

/-- The `updateMany` of `cleanupStaleActive`, on one of the executions it read before. -/
def cleanupStaleActive (cutoff : Time) : Write where
  filter doc := doc.status.sweepable && decide (doc.updatedAt < cutoff)
  update clock doc :=
    { doc with
      status := .aborted
      abortedAt := some clock
      completedAt := some clock
      error := some { message := "Auto-aborted: stale active execution" } }

end Repository

end Bike4Mind.AgentExecution
