import Bike4Mind.Concurrency.Semantics
import Bike4Mind.AgentExecution.ToolPermissions

/-!
One execution under its permission pauses: an executor that asks, is resumed and replays, and any
number of tabs that respond. The history is newest first and only records; nothing reads it back.
-/

namespace Bike4Mind.AgentExecution
open Concurrency

/-- A `permission_response`, with the id of the card it was clicked on. The agent never gates a call
without an id. -/
structure Response where
  toolCallId : String
  named : toolCallId ≠ ""
  toolName : String
  approved : Bool
  rememberForSession : Bool

namespace Response

def remembered (r : Response) : Option String := if r.rememberForSession then some r.toolName else none

def denialMessage (r : Response) : String := s!"Execution stopped: you denied \"{r.toolName}\"."

/-- The writes of a response; the one that wins an approval dispatches the resume. -/
def program (r : Response) : Async Unit := do
  if r.approved then
    let marked ← repository (.approvePendingPermission r.remembered (some r.toolCallId))
    if marked then
      repository (.updateStatus .continuing)
      call .sendContinuation
  else
    let _ ← repository (.denyPendingPermission (some r.toolCallId) r.remembered r.denialMessage)

end Response

namespace GateContext
variable (gate : GateContext)

/-- The iteration loop, up to its next pause. A hand-off matters here only where it meets a withheld
call. -/
def iterate (approvedTools deniedTools : List String) : Nat → Checkpoint → Async Unit
  | 0, agent => repository (.markComplete agent.conversation)
  | more + 1, agent => do
    let result ← call (.runIteration agent approvedTools deniedTools)
    repository (.updateCheckpoint result.checkpoint)
    call (.billIterationIfNeeded result.checkpoint.iteration result.checkpoint)
    match ← gate.handleWithheldToolCalls approvedTools deniedTools result.gatedToolCalls result.hasHandoffSignal with
    | .none =>
      if result.isComplete then repository (.markComplete result.checkpoint.conversation)
      else iterate approvedTools deniedTools more result.checkpoint
    | _ => return

/-- One invocation of the executor, of a new execution or of one that was dispatched to resume. -/
def invocation (isNew : Bool) (maxIterations : Nat) : Async Unit :=
  tryCatch (do
    let execution ← repository .findById
    let claimed ← repository (.claimExecution [if isNew then .pending else .continuing] .running)
    if !claimed then return
    let agent := execution.checkpoint.getD ⟨0, ""⟩
    match execution.pendingPermission.filter (·.approved) with
    | none => gate.iterate execution.approvedTools execution.deniedTools maxIterations agent
    | some approvedPause =>
      match ← gate.resumeApprovedPause execution.approvedTools execution.deniedTools agent agent.iteration
          approvedPause.gatedToolCalls approvedPause.toolCallId with
      | .replayed agent => gate.iterate execution.approvedTools execution.deniedTools maxIterations agent
      | _ => return) fun err =>
    repository (.markFailed { message := err.message })

/-- Every invocation after the first waits for a continuation. -/
def resumptions : List Nat → Async Unit
  | [] => return
  | maxIterations :: later => do
    call .receiveContinuation
    gate.invocation false maxIterations
    resumptions later

def executor (first : Nat) (later : List Nat) : Async Unit := do
  gate.invocation true first
  gate.resumptions later

end GateContext

/-! ### The world they share -/

inductive PauseEvent where
  | withheld (calls : List GatedToolCall)
  | asked (pause : PendingPermission)
  | answered (approved : Bool) (toolCallId : Option String)
  -- Under the tool lists that the execution has at this moment.
  | executed (call : GatedToolCall) (approvedTools deniedTools : List String)
  deriving DecidableEq

namespace PauseEvent

def calls : PauseEvent → List GatedToolCall
  | .withheld calls => calls
  | _ => []

def execution? : PauseEvent → Option GatedToolCall
  | .executed call .. => some call
  | _ => none

def pause? : PauseEvent → Option PendingPermission
  | .asked pause => some pause
  | _ => none

/-- A pause or a response that succeeded. -/
def exchange : PauseEvent → Bool
  | .asked _ | .answered .. => true
  | _ => false

def denial : PauseEvent → Bool
  | .answered false _ => true
  | _ => false

end PauseEvent

def withheldCalls (history : List PauseEvent) : List GatedToolCall := history.flatMap PauseEvent.calls

def executedCalls (history : List PauseEvent) : List GatedToolCall := history.filterMap PauseEvent.execution?

def askedIds (history : List PauseEvent) : List (Option String) :=
  (history.filterMap PauseEvent.pause?).map (·.toolCallId)

structure PauseWorld where
  document : Document
  clock : Time
  continuations : Nat := 0
  history : List PauseEvent := []

inductive PauseChoice where
  | resolves
  | iterates (toolCalls : List GatedToolCall) (checkpoint : Checkpoint) (hasHandoffSignal isComplete : Bool)
  | replays (agent : Checkpoint)
  | bills (credits : ℚ)
  | rejects (error : JsError)

namespace PauseWorld

def performed (w : PauseWorld) (c : RepositoryCall) : List PauseEvent :=
  match c with
  | .updatePermissionState (some pause) => [.asked pause]
  | .approvePendingPermission _ toolCallId =>
    if (c.written w.clock w.document).isSome then [.answered true toolCallId] else []
  | .denyPendingPermission toolCallId _ _ =>
    if (c.written w.clock w.document).isSome then [.answered false toolCallId] else []
  | _ => []

def perform (w : PauseWorld) (c : RepositoryCall) : PauseWorld :=
  { w with document := c.apply w.clock w.document, history := w.performed c ++ w.history }

/-- Tool call ids are distinct, within an iteration and from every call withheld before. -/
def fresh (w : PauseWorld) (toolCalls : List GatedToolCall) : Bool :=
  decide (toolCalls.map (·.id)).Nodup &&
    toolCalls.all fun c => c.id ∉ (withheldCalls w.history).map (·.id)

def executing (w : PauseWorld) (c : GatedToolCall) : PauseWorld :=
  { w with history := .executed c w.document.approvedTools w.document.deniedTools :: w.history }

/-- The tools, the model and the billing may fail; the repository and the queue do not. -/
def exec (gate : GateContext) (w : PauseWorld) : (op : Call) → PauseChoice → Option (Except JsError op.Value × PauseWorld)
  | .repository c, .resolves => some (.ok (c.reply w.clock w.document), w.perform c)
  | .runIteration _ approvedTools deniedTools, .iterates toolCalls checkpoint hasHandoffSignal isComplete =>
    let gatedToolCalls := toolCalls.filter (gate.toolGate approvedTools deniedTools)
    if w.fresh toolCalls then
      some (.ok ⟨checkpoint, gatedToolCalls, hasHandoffSignal, isComplete⟩,
        { w with history := .withheld gatedToolCalls :: w.history })
    else none
  | .runIteration .., .rejects error => some (.error error, w)
  | .executeGatedToolCall _ c, .replays agent => some (.ok agent, w.executing c)
  | .executeGatedToolCall _ c, .rejects error => some (.error error, w.executing c)
  | .billIterationIfNeeded iterationIndex _, .bills credits =>
    some (.ok (), w.perform (.addIterationBilling ⟨iterationIndex, credits⟩))
  | .billIterationIfNeeded .., .rejects error => some (.error error, w)
  | .sendContinuation, .resolves => some (.ok (), { w with continuations := w.continuations + 1 })
  | .receiveContinuation, .resolves =>
    if 0 < w.continuations then some (.ok (), { w with continuations := w.continuations - 1 }) else none
  | _, _ => none

end PauseWorld

inductive Party where
  | executor
  | tab (n : Nat)
  deriving DecidableEq

def pauseSemantics (gate : GateContext) : Semantics Party PauseWorld Call Call.Value JsError PauseChoice Nat where
  exec _ := PauseWorld.exec gate
  env w elapsed := some { w with clock := w.clock + elapsed }

abbrev PauseConfig := Config Party PauseWorld Call Call.Value JsError Unit
abbrev PauseAction := Action Party PauseChoice Nat

/-- An execution about to start, with the responses its tabs are going to send. -/
def GateContext.startPauses (gate : GateContext) (approvedTools deniedTools : List String) (clock : Time) (first : Nat)
    (later : List Nat) (responses : Nat → Response) : PauseConfig where
  store := { document := { status := .pending, approvedTools := approvedTools, deniedTools := deniedTools }, clock := clock }
  threads
    | .executor => gate.executor first later
    | .tab n => (responses n).program

/-- The executor is between two invocations, or done. -/
def atRest (c : PauseConfig) : Bool :=
  match c.threads .executor with
  | .await .receiveContinuation _ => true
  | .pure _ => true
  | _ => false

end Bike4Mind.AgentExecution
