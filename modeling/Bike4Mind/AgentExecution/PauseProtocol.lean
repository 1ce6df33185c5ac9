import Bike4Mind.Concurrency.Protocol
import Bike4Mind.AgentExecution.Pauses

/-!
What the executor and a responding tab may do next. The executor's phase names the calls it still
owes an answer for.
-/

namespace Bike4Mind.AgentExecution
open Concurrency

inductive PausePhase where
  | idle
  | woken (isNew : Bool)
  | loaded (isNew : Bool) (execution : Document)
  -- The calls about to be replayed, and those of the same pause that are not.
  | replaying (execution : Document) (left still : List GatedToolCall)
  | settling (execution : Document) (owed : List GatedToolCall)
  | asking (execution : Document) (gated : GatedAction) (owed : List GatedToolCall)
  | failing
  | responding
  | won
  | flipped
  | responded

namespace PausePhase

/-- The party has the next move of the run. -/
def carries : PausePhase → Bool
  | .idle | .responding | .responded => false
  | _ => true

/-- Where an invocation stands once it has won the claim. -/
def claimed (gate : GateContext) (execution : Document) : PausePhase :=
  match execution.pendingPermission.filter (·.approved) with
  | none => .settling execution []
  | some pause =>
    let parts := gate.partitionApprovedPause execution.approvedTools execution.deniedTools pause.gatedToolCalls
      pause.toolCallId
    .replaying execution parts.1 parts.2

end PausePhase

inductive PauseStep (gate : GateContext) : Protocol PausePhase Call Call.Value JsError where
  | receive : PauseStep gate .idle .receiveContinuation (.ok ()) (.woken false)
  | load {isNew execution} : PauseStep gate (.woken isNew) (.repository .findById) (.ok execution) (.loaded isNew execution)
  | claim {isNew execution} : PauseStep gate (.loaded isNew execution)
      (.repository (.claimExecution [if isNew then .pending else .continuing] .running)) (.ok true) (.claimed gate execution)
  | claimLost {isNew execution} : PauseStep gate (.loaded isNew execution)
      (.repository (.claimExecution [if isNew then .pending else .continuing] .running)) (.ok false) .idle
  | replay {execution gated left still agent reply} : PauseStep gate (.replaying execution (gated :: left) still)
      (.executeGatedToolCall agent gated) (.ok reply) (.replaying execution left still)
  | replayThrew {execution gated left still agent error} : PauseStep gate (.replaying execution (gated :: left) still)
      (.executeGatedToolCall agent gated) (.error error) .failing
  | clear {execution still} : PauseStep gate (.replaying execution [] still)
      (.repository (.updatePermissionState none)) (.ok ()) (.settling execution still)
  | checkpoint {execution owed checkpoint} : PauseStep gate (.settling execution owed)
      (.repository (.updateCheckpoint checkpoint)) (.ok ()) (.settling execution owed)
  | bill {execution owed iterationIndex checkpoint} : PauseStep gate (.settling execution owed)
      (.billIterationIfNeeded iterationIndex checkpoint) (.ok ()) (.settling execution owed)
  | billThrew {execution owed iterationIndex checkpoint error} : PauseStep gate (.settling execution owed)
      (.billIterationIfNeeded iterationIndex checkpoint) (.error error) .failing
  | iterate {execution owed agent result}
      (settled : gate.selectGatedToolCall execution.approvedTools execution.deniedTools owed = none) :
      PauseStep gate (.settling execution owed) (.runIteration agent execution.approvedTools execution.deniedTools)
        (.ok result) (.settling execution result.gatedToolCalls)
  | iterateThrew {execution owed agent error} : PauseStep gate (.settling execution owed)
      (.runIteration agent execution.approvedTools execution.deniedTools) (.error error) .failing
  | flag {execution owed gated}
      (selected : gate.selectGatedToolCall execution.approvedTools execution.deniedTools owed = some gated) :
      PauseStep gate (.settling execution owed) (.repository (.updateStatus .awaitingPermission)) (.ok ())
        (.asking execution gated owed)
  | ask {execution gated owed} : PauseStep gate (.asking execution gated owed)
      (.repository (.updatePermissionState (some (GateContext.pauseFor gated owed)))) (.ok ()) .idle
  | complete {execution owed result}
      (settled : gate.selectGatedToolCall execution.approvedTools execution.deniedTools owed = none) :
      PauseStep gate (.settling execution owed) (.repository (.markComplete result)) (.ok ()) .idle
  | fail {execution owed error} : PauseStep gate (.settling execution owed) (.repository (.markFailed error)) (.ok ()) .idle
  | failThrown {error} : PauseStep gate .failing (.repository (.markFailed error)) (.ok ()) .idle
  | approve {tool toolCallId} (named : toolCallId ≠ "") : PauseStep gate .responding
      (.repository (.approvePendingPermission tool (some toolCallId))) (.ok true) .won
  | approveLost {tool toolCallId} (named : toolCallId ≠ "") : PauseStep gate .responding
      (.repository (.approvePendingPermission tool (some toolCallId))) (.ok false) .responded
  | deny {tool toolCallId message denied} (named : toolCallId ≠ "") : PauseStep gate .responding
      (.repository (.denyPendingPermission (some toolCallId) tool message)) (.ok denied) .responded
  | flip : PauseStep gate .won (.repository (.updateStatus .continuing)) (.ok ()) .flipped
  | send : PauseStep gate .flipped .sendContinuation (.ok ()) .responded
  -- The repository and the queue do not reject here.
  | rejected {p c error q} : PauseStep gate p (.repository c) (.error error) q
  | unsent {p error q} : PauseStep gate p .sendContinuation (.error error) q
  | unreceived {p error q} : PauseStep gate p .receiveContinuation (.error error) q

/-- A call that resolves leaves nothing to be done. -/
def pauseSettled : Except JsError Unit → PausePhase → Prop
  | .ok (), p => p.carries = false
  | .error _, _ => True

section Functions
variable {gate : GateContext} {execution : Document} {owed : List GatedToolCall}

theorem follows_repository {α : Type} {post : Except JsError α → PausePhase → Prop} {p : PausePhase} {c : RepositoryCall}
    {f : c.Value → Async α}
    (resolved : ∀ v, ∃ q, PauseStep gate p (.repository c) (.ok v) q ∧ Follows (PauseStep gate) post (f v) q)
    (rejected : ∀ e, ∃ q, post (.error e) q) : Follows (PauseStep gate) post ((repository c).bind f) p :=
  follows_then resolved fun e => by
    obtain ⟨q, allowed⟩ := rejected e
    exact ⟨q, .rejected, allowed⟩

/-- What the executor's functions may throw: with an error, the run is about to be failed. -/
def pauseThrows {α : Type} (post : α → PausePhase → Prop) : Except JsError α → PausePhase → Prop
  | .ok a, p => post a p
  | .error _, p => p = .failing

theorem settleGatedCall_follows {gated : GatedAction}
    (selected : gate.selectGatedToolCall execution.approvedTools execution.deniedTools owed = some gated) :
    Follows (PauseStep gate) (pauseThrows fun _ p => p = .idle) (gate.settleGatedCall gated owed) (.settling execution owed) := by
  have failed : ∀ (error : ExecutionError) (outcome : SettleGatedCallOutcome),
      Follows (PauseStep gate) (pauseThrows fun _ p => p = .idle)
        ((repository (.markFailed error)).bind fun _ => .pure outcome) (.settling execution owed) := by
    intro error outcome
    exact follows_repository (fun _ => ⟨.idle, .fail, rfl⟩) fun _ => ⟨.failing, rfl⟩
  unfold GateContext.settleGatedCall
  split
  · exact failed _ _
  · exact failed _ _
  · split
    · exact failed _ _
    · refine follows_repository (fun _ => ⟨.asking execution gated owed, .flag selected, ?_⟩) fun _ => ⟨.failing, rfl⟩
      exact follows_repository (fun _ => ⟨.idle, .ask, rfl⟩) fun _ => ⟨.failing, rfl⟩

theorem handleWithheldToolCalls_follows {hasHandoffSignal : Bool} :
    Follows (PauseStep gate) (pauseThrows fun outcome p => match outcome with
        | .none => p = .settling execution owed ∧
            gate.selectGatedToolCall execution.approvedTools execution.deniedTools owed = none
        | _ => p = .idle)
      (gate.handleWithheldToolCalls execution.approvedTools execution.deniedTools owed hasHandoffSignal)
      (.settling execution owed) := by
  unfold GateContext.handleWithheldToolCalls
  split
  · rename_i settled
    exact ⟨rfl, settled⟩
  · rename_i gated selected
    split
    · exact follows_repository (fun _ => ⟨.idle, .fail, rfl⟩) fun _ => ⟨.failing, rfl⟩
    · refine follows_bind (follows_mono (settleGatedCall_follows selected) fun outcome q ended => ?_)
      cases outcome <;> exact ended

theorem replayCalls_follows {agent : Checkpoint} {left still : List GatedToolCall} :
    Follows (PauseStep gate) (pauseThrows fun replayed p => match replayed with
        | none => p = .idle
        | some _ => p = .replaying execution [] still)
      (GateContext.replayCalls agent left) (.replaying execution left still) := by
  induction left generalizing agent with
  | nil => exact rfl
  | cons gated left ih =>
    refine follows_bind (follows_tryCatch fun reply => ?_)
    cases reply with
    | ok agent => exact ⟨.replaying execution left still, .replay, ih⟩
    | error error =>
      refine ⟨.failing, .replayThrew, ?_⟩
      exact follows_repository (fun _ => ⟨.idle, .failThrown, rfl⟩) fun _ => ⟨.failing, rfl⟩

theorem resumeApprovedPause_follows {agent : Checkpoint} {iterationIndex : Nat} {pause : PendingPermission}
    (approved : execution.pendingPermission.filter (·.approved) = some pause) :
    Follows (PauseStep gate) (pauseThrows fun outcome p => match outcome with
        | .replayed _ => p = .settling execution []
        | _ => p = .idle)
      (gate.resumeApprovedPause execution.approvedTools execution.deniedTools agent iterationIndex pause.gatedToolCalls
        pause.toolCallId) (.claimed gate execution) := by
  have start : PausePhase.claimed gate execution = .replaying execution
      (gate.partitionApprovedPause execution.approvedTools execution.deniedTools pause.gatedToolCalls pause.toolCallId).1
      (gate.partitionApprovedPause execution.approvedTools execution.deniedTools pause.gatedToolCalls pause.toolCallId).2 := by
    simp only [PausePhase.claimed, approved]
  rw [start]
  unfold GateContext.resumeApprovedPause
  generalize gate.partitionApprovedPause execution.approvedTools execution.deniedTools pause.gatedToolCalls
    pause.toolCallId = parts
  obtain ⟨left, still⟩ := parts
  refine follows_bind (follows_mono replayCalls_follows fun replayed q ended => ?_)
  rcases replayed with error | _ | agent
  · exact ended
  · exact ended
  · cases ended
    refine follows_repository (fun _ => ⟨_, .clear, ?_⟩) fun _ => ⟨.failing, rfl⟩
    refine follows_repository (fun _ => ⟨_, .checkpoint, ?_⟩) fun _ => ⟨.failing, rfl⟩
    refine follows_then (fun _ => ⟨_, .bill, ?_⟩) fun _ => ⟨.failing, .billThrew, rfl⟩
    split
    · rename_i empty
      rw [List.isEmpty_iff.mp empty]
      exact rfl
    · split
      · exact follows_repository (fun _ => ⟨.idle, .fail, rfl⟩) fun _ => ⟨.failing, rfl⟩
      · rename_i gated selected
        refine follows_bind (follows_mono (settleGatedCall_follows selected) fun outcome q ended => ?_)
        cases outcome <;> exact ended

theorem iterate_follows {agent : Checkpoint} {maxIterations : Nat}
    (settled : gate.selectGatedToolCall execution.approvedTools execution.deniedTools owed = none) :
    Follows (PauseStep gate) (pauseThrows fun _ p => p = .idle)
      (gate.iterate execution.approvedTools execution.deniedTools maxIterations agent) (.settling execution owed) := by
  have completed : ∀ {owed result}, gate.selectGatedToolCall execution.approvedTools execution.deniedTools owed = none →
      Follows (PauseStep gate) (pauseThrows fun _ p => p = .idle) (repository (.markComplete result))
        (.settling execution owed) := by
    intro owed result settled
    refine follows_perform fun reply => ?_
    cases reply with
    | ok => exact ⟨.idle, .complete settled, rfl⟩
    | error => exact ⟨.failing, .rejected, rfl⟩
  induction maxIterations generalizing agent owed with
  | zero => exact completed settled
  | succ more ih =>
    refine follows_then (fun result => ⟨_, .iterate settled, ?_⟩) fun _ => ⟨.failing, .iterateThrew, rfl⟩
    refine follows_repository (fun _ => ⟨_, .checkpoint, ?_⟩) fun _ => ⟨.failing, rfl⟩
    refine follows_then (fun _ => ⟨_, .bill, ?_⟩) fun _ => ⟨.failing, .billThrew, rfl⟩
    refine follows_bind (follows_mono handleWithheldToolCalls_follows fun outcome q ended => ?_)
    rcases outcome with error | _ | _ | _
    · exact ended
    · obtain ⟨rfl, settled⟩ := ended
      dsimp only
      split
      · exact completed settled
      · exact ih settled
    · exact ended
    · exact ended

theorem invocation_follows {isNew : Bool} {maxIterations : Nat} :
    Follows (PauseStep gate) (fun result p => match result with
        | .ok () => p = .idle
        | .error _ => True) (gate.invocation isNew maxIterations) (.woken isNew) := by
  have failed : ∀ error : JsError, Follows (PauseStep gate) (fun result p => match result with
      | .ok () => p = .idle
      | .error _ => True) (repository (.markFailed { message := error.message })) .failing := by
    intro error
    refine follows_perform fun reply => ?_
    cases reply with
    | ok => exact ⟨.idle, .failThrown, rfl⟩
    | error => exact ⟨.failing, .rejected, trivial⟩
  refine follows_tryCatch (follows_mono (?_ : Follows (PauseStep gate) (pauseThrows fun _ p => p = .idle) _ _) fun result q ended => ?_)
  · refine follows_repository (fun execution => ⟨_, .load, ?_⟩) fun _ => ⟨.failing, rfl⟩
    refine follows_repository (fun claimed => ?_) fun _ => ⟨.failing, rfl⟩
    cases claimed with
    | false => exact ⟨.idle, .claimLost, rfl⟩
    | true =>
      refine ⟨_, .claim, ?_⟩
      simp only [Bool.not_true, Bool.false_eq_true, ↓reduceIte]
      split
      · rename_i none
        have start : PausePhase.claimed gate execution = .settling execution [] := by
          simp only [PausePhase.claimed, none]
        rw [start]
        exact iterate_follows rfl
      · rename_i pause approved
        refine follows_bind (follows_mono (resumeApprovedPause_follows approved) fun outcome q ended => ?_)
        rcases outcome with error | agent | _ | _ | _
        · exact ended
        · cases ended
          exact iterate_follows rfl
        · exact ended
        · exact ended
        · exact ended
  · rcases result with error | _
    · cases ended
      exact failed error
    · exact ended

theorem resumptions_follows {later : List Nat} : Follows (PauseStep gate) pauseSettled (gate.resumptions later) .idle := by
  induction later with
  | nil => exact rfl
  | cons maxIterations later ih =>
    refine follows_then (fun _ => ⟨_, .receive, ?_⟩) fun _ => ⟨.idle, .unreceived, trivial⟩
    refine follows_bind (follows_mono invocation_follows fun result q ended => ?_)
    rcases result with error | _
    · trivial
    · cases ended
      exact ih

theorem executor_follows {first : Nat} {later : List Nat} :
    Follows (PauseStep gate) pauseSettled (gate.executor first later) (.woken true) := by
  refine follows_bind (follows_mono invocation_follows fun result q ended => ?_)
  rcases result with error | _
  · trivial
  · cases ended
    exact resumptions_follows

theorem response_follows (r : Response) : Follows (PauseStep gate) pauseSettled r.program .responding := by
  unfold Response.program
  split
  · refine follows_repository (fun marked => ?_) fun _ => ⟨.responded, trivial⟩
    cases marked with
    | false => exact ⟨.responded, .approveLost r.named, rfl⟩
    | true =>
      refine ⟨.won, .approve r.named, follows_repository (fun _ => ⟨.flipped, .flip, ?_⟩) fun _ => ⟨.flipped, trivial⟩⟩
      refine follows_perform fun reply => ?_
      cases reply with
      | ok => exact ⟨.responded, .send, rfl⟩
      | error => exact ⟨.responded, .unsent, trivial⟩
  · exact follows_repository (fun _ => ⟨.responded, .deny r.named, rfl⟩) fun _ => ⟨.responded, trivial⟩

end Functions
end Bike4Mind.AgentExecution
