import Bike4Mind.Concurrency.Program
import Bike4Mind.AgentExecution.Document

/-!
What the code around an execution awaits: the repository on its document, the agent, the billing and
the continuation queue. The agent's memory is the checkpoint it would save.
-/

namespace Bike4Mind.AgentExecution
open Concurrency

/-- The repository's methods on one execution. -/
inductive RepositoryCall where
  | findById
  | checkAbortFlag
  | updateStatus (status : AgentExecutionStatus)
  | claimExecution (fromStatuses : List AgentExecutionStatus) (toStatus : AgentExecutionStatus)
  | updateCheckpoint (checkpoint : Checkpoint)
  | updateCheckpointAndStatus (checkpoint : Checkpoint) (status : AgentExecutionStatus)
  | restoreRejectedResume (status : AgentExecutionStatus) (pendingPermission : Option PendingPermission)
      (pendingGate : Option PendingGate)
  | approvePendingPermission (approvedTool toolCallId : Option String)
  | updatePermissionState (pendingPermission : Option PendingPermission)
  | denyPendingPermission (toolCallId deniedTool : Option String) (errorMessage : String)
  | setPendingGate (pendingGate : PendingGate)
  | clearPendingGate
  | recordIterationConfidence (belowThreshold : Bool)
  | addIterationBilling (billing : IterationBilling)
  | markComplete (result : String)
  | markFailed (error : ExecutionError)
  | markAborted (partialResult : Option String)
  | setAbortFlag
  | incrementLambdaInvocationCount
  | incrementSubagentHandoffCount
  | setWaitingOnChild (waitingOnChild : WaitingOnChild) (checkpoint : Checkpoint)
  | clearWaitingOnChild
  | incrementCreditsUsed (credits : ℚ)
  | setDagSpec (dagSpec : DagSpec)
  | setWaitingOnDagChildren (waitingOnDagChildren : WaitingOnDagChildren) (checkpoint : Option Checkpoint)
  | clearWaitingOnDagChildren
  | markAbandoned (olderThan : Option Time)
  | cleanupStaleActive (cutoff : Time)
  deriving DecidableEq

namespace RepositoryCall

abbrev Value : RepositoryCall → Type
  | .findById => Document
  | .checkAbortFlag | .claimExecution .. | .restoreRejectedResume .. | .approvePendingPermission ..
  | .denyPendingPermission .. | .setPendingGate _ | .clearPendingGate | .clearWaitingOnChild
  | .clearWaitingOnDagChildren | .markAbandoned _ | .cleanupStaleActive _ => Bool
  | .recordIterationConfidence _ | .incrementLambdaInvocationCount | .incrementSubagentHandoffCount => Nat
  | _ => Unit

def write? : RepositoryCall → Option Write
  | .findById | .checkAbortFlag => none
  | .updateStatus status => some (Repository.updateStatus status)
  | .claimExecution fromStatuses toStatus => some (Repository.claimExecution fromStatuses toStatus)
  | .updateCheckpoint checkpoint => some (Repository.updateCheckpoint checkpoint)
  | .updateCheckpointAndStatus checkpoint status => some (Repository.updateCheckpointAndStatus checkpoint status)
  | .restoreRejectedResume status pendingPermission pendingGate =>
    some (Repository.restoreRejectedResume status pendingPermission pendingGate)
  | .approvePendingPermission approvedTool toolCallId =>
    some (Repository.approvePendingPermission approvedTool toolCallId)
  | .updatePermissionState pendingPermission => some (Repository.updatePermissionState pendingPermission)
  | .denyPendingPermission toolCallId deniedTool errorMessage =>
    some (Repository.denyPendingPermission toolCallId deniedTool errorMessage)
  | .setPendingGate pendingGate => some (Repository.setPendingGate pendingGate)
  | .clearPendingGate => some Repository.clearPendingGate
  | .recordIterationConfidence belowThreshold => some (Repository.recordIterationConfidence belowThreshold)
  | .addIterationBilling billing => some (Repository.addIterationBilling billing)
  | .markComplete result => some (Repository.markComplete result)
  | .markFailed error => some (Repository.markFailed error)
  | .markAborted partialResult => some (Repository.markAborted partialResult)
  | .setAbortFlag => some Repository.setAbortFlag
  | .incrementLambdaInvocationCount => some Repository.incrementLambdaInvocationCount
  | .incrementSubagentHandoffCount => some Repository.incrementSubagentHandoffCount
  | .setWaitingOnChild waitingOnChild checkpoint => some (Repository.setWaitingOnChild waitingOnChild checkpoint)
  | .clearWaitingOnChild => some Repository.clearWaitingOnChild
  | .incrementCreditsUsed credits => some (Repository.incrementCreditsUsed credits)
  | .setDagSpec dagSpec => some (Repository.setDagSpec dagSpec)
  | .setWaitingOnDagChildren waitingOnDagChildren checkpoint =>
    some (Repository.setWaitingOnDagChildren waitingOnDagChildren checkpoint)
  | .clearWaitingOnDagChildren => some Repository.clearWaitingOnDagChildren
  | .markAbandoned olderThan => some (Repository.markAbandoned olderThan)
  | .cleanupStaleActive cutoff => some (Repository.cleanupStaleActive cutoff)

/-- The document the call writes, if its filter matches. -/
def written (call : RepositoryCall) (clock : Time) (doc : Document) : Option Document :=
  call.write?.bind fun write => write.matched clock doc

def apply (call : RepositoryCall) (clock : Time) (doc : Document) : Document := (call.written clock doc).getD doc

/-- What the call resolves to. -/
def reply (clock : Time) (doc : Document) : (call : RepositoryCall) → call.Value
  | .findById => doc
  | .checkAbortFlag => doc.abortedAt.isSome
  | .claimExecution fromStatuses toStatus => (written (.claimExecution fromStatuses toStatus) clock doc).isSome
  | .restoreRejectedResume status pause gate => (written (.restoreRejectedResume status pause gate) clock doc).isSome
  | .approvePendingPermission tool callId => (written (.approvePendingPermission tool callId) clock doc).isSome
  | .denyPendingPermission callId tool message => (written (.denyPendingPermission callId tool message) clock doc).isSome
  | .setPendingGate gate => (written (.setPendingGate gate) clock doc).isSome
  | .clearPendingGate => (written .clearPendingGate clock doc).isSome
  | .clearWaitingOnChild => (written .clearWaitingOnChild clock doc).isSome
  | .clearWaitingOnDagChildren => (written .clearWaitingOnDagChildren clock doc).isSome
  | .markAbandoned cutoff => (written (.markAbandoned cutoff) clock doc).isSome
  | .cleanupStaleActive cutoff => (written (.cleanupStaleActive cutoff) clock doc).isSome
  | .recordIterationConfidence below => (apply (.recordIterationConfidence below) clock doc).lowConfidenceStreak
  | .incrementLambdaInvocationCount => (apply .incrementLambdaInvocationCount clock doc).lambdaInvocationCount
  | .incrementSubagentHandoffCount => (apply .incrementSubagentHandoffCount clock doc).subagentHandoffCount
  | .updateStatus _ | .updateCheckpoint _ | .updateCheckpointAndStatus .. | .updatePermissionState _
  | .addIterationBilling _ | .markComplete _ | .markFailed _ | .markAborted _ | .setAbortFlag
  | .setWaitingOnChild .. | .incrementCreditsUsed _ | .setDagSpec _ | .setWaitingOnDagChildren .. => ()

theorem apply_matched {call : RepositoryCall} {write : Write} {clock : Time} {doc : Document} (writes : call.write? = some write)
    (passes : write.filter doc = true) : call.apply clock doc = { write.update clock doc with updatedAt := clock } := by
  simp [apply, written, writes, Write.matched, passes]

theorem apply_unmatched {call : RepositoryCall} {clock : Time} {doc : Document} (unmatched : call.written clock doc = none) :
    call.apply clock doc = doc := by
  simp [apply, unmatched]

end RepositoryCall

/-- What one iteration of the agent leaves for the executor to act on. -/
structure IterationResult where
  checkpoint : Checkpoint
  gatedToolCalls : List GatedToolCall
  hasHandoffSignal : Bool
  isComplete : Bool

inductive Call where
  | repository (call : RepositoryCall)
  -- Under the tool gate of these two lists.
  | runIteration (agent : Checkpoint) (approvedTools deniedTools : List String)
  -- The agent with the tool's result in place of its placeholder.
  | executeGatedToolCall (agent : Checkpoint) (call : GatedToolCall)
  | billIterationIfNeeded (iterationIndex : Nat) (checkpoint : Checkpoint)
  | sendContinuation
  | receiveContinuation

namespace Call

abbrev Value : Call → Type
  | .repository call => call.Value
  | .runIteration .. => IterationResult
  | .executeGatedToolCall .. => Checkpoint
  | .billIterationIfNeeded .. | .sendContinuation | .receiveContinuation => Unit

end Call

abbrev Async (α : Type) := Program Call Call.Value JsError α

def call (c : Call) : Async c.Value := .perform c

def repository (c : RepositoryCall) : Async c.Value := call (.repository c)

end Bike4Mind.AgentExecution
