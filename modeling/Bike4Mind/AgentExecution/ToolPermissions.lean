import Bike4Mind.AgentExecution.Calls

/-!
The tool permission gate: which calls an iteration withholds, how the executor settles them, and how
it replays the ones that were approved.
-/

namespace Bike4Mind.AgentExecution
open Concurrency

inductive ToolSideEffects where
  | none
  | local
  | external
  deriving DecidableEq

inductive ToolPermissionResult where
  | allowed
  | denied
  | needsApproval
  deriving DecidableEq

/-- What a gated call is decided on, beside the tool lists of its execution. -/
structure GateContext where
  getToolSideEffects : String → Option ToolSideEffects
  isHeadlessConnection : Bool
  supportsGatedReplay : Bool

inductive GatedVerdict where
  | denied
  | needsApproval
  deriving DecidableEq

structure GatedAction where
  toolName : String
  toolInput : String
  verdict : GatedVerdict
  toolCallId : String
  deriving DecidableEq

inductive GateDisposition where
  | denied
  | noApprover
  | ask
  deriving DecidableEq

inductive SettleGatedCallOutcome where
  | denied
  | noApprover
  | unsupported
  | ask
  deriving DecidableEq

inductive ResumeApprovedPauseOutcome where
  | replayed (agent : Checkpoint)
  | replayError
  | repaused
  | unresolvable
  deriving DecidableEq

inductive HandleWithheldToolCallsOutcome where
  | none
  | handoffConflict
  | settled
  deriving DecidableEq

namespace GateContext
variable (gate : GateContext) (approvedTools deniedTools : List String)

def classifyToolPermission (toolName : String) : ToolPermissionResult :=
  if toolName ∈ deniedTools then .denied
  else if toolName ∈ approvedTools then .allowed
  else if toolName.startsWith "mcp__" then .needsApproval
  else
    match gate.getToolSideEffects toolName with
    | some .none | some .local => .allowed
    | _ => .needsApproval

def shouldWithholdToolCall (toolName : String) : Bool :=
  gate.classifyToolPermission approvedTools deniedTools toolName != .allowed

def HANDOFF_DISPATCH_TOOLS : List String := ["delegate_to_agent", "coordinate_task"]

def toolGate (call : GatedToolCall) : Bool :=
  call.name ∉ HANDOFF_DISPATCH_TOOLS && gate.shouldWithholdToolCall approvedTools deniedTools call.name

/-- The loop of `selectGatedToolCall`, with the first call that needs approval so far. -/
def selectGatedFrom (firstNeedsApproval : Option GatedAction) : List GatedToolCall → Option GatedAction
  | [] => firstNeedsApproval
  | call :: rest =>
    match gate.classifyToolPermission approvedTools deniedTools call.name with
    | .denied => some ⟨call.name, call.input, .denied, call.id⟩
    | .needsApproval => selectGatedFrom (firstNeedsApproval.or (some ⟨call.name, call.input, .needsApproval, call.id⟩)) rest
    | .allowed => selectGatedFrom firstNeedsApproval rest

def selectGatedToolCall (calls : List GatedToolCall) : Option GatedAction :=
  gate.selectGatedFrom approvedTools deniedTools none calls

def nowApproved (withheld : List GatedToolCall) (approvedToolCallId : Option String) : List GatedToolCall :=
  withheld.filter fun c =>
    some c.id == approvedToolCallId || !gate.shouldWithholdToolCall approvedTools deniedTools c.name

def partitionApprovedPause (withheld : List GatedToolCall) (approvedToolCallId : Option String) :
    List GatedToolCall × List GatedToolCall :=
  let nowApproved := gate.nowApproved approvedTools deniedTools withheld approvedToolCallId
  (nowApproved, withheld.filter fun c => c.id ∉ nowApproved.map (·.id))

def resolveGateDisposition (verdict : GatedVerdict) : GateDisposition :=
  if verdict = .denied then .denied else if gate.isHeadlessConnection then .noApprover else .ask

def deniedMessage (toolName : String) : String := s!"Execution stopped: tool \"{toolName}\" is not permitted."

def headlessMessage (toolName : String) : String :=
  s!"Execution stopped: tool \"{toolName}\" requires approval, and this run was started " ++
    "without an interactive client to approve it. Re-run with a \"tools\" allowlist that " ++
    "excludes approval-gated tools, or start the run over the WebSocket route."

def unsupportedMessage (toolName : String) : String :=
  s!"Execution stopped: tool \"{toolName}\" requires approval, but the current model does " ++
    "not support resuming after approval. Switch to a model that supports approval-gated " ++
    "tools, or remove this tool from the run."

/-- The pause that asks the client about `gated`, with everything its iteration withheld. -/
def pauseFor (gated : GatedAction) (withheld : List GatedToolCall) : PendingPermission where
  toolName := gated.toolName
  toolInput := gated.toolInput
  toolCallId := some gated.toolCallId
  gatedToolCalls := withheld

def settleGatedCall (gated : GatedAction) (withheld : List GatedToolCall) : Async SettleGatedCallOutcome := do
  match gate.resolveGateDisposition gated.verdict with
  | .denied =>
    repository (.markFailed { message := deniedMessage gated.toolName, callerSafe := true })
    return .denied
  | .noApprover =>
    repository (.markFailed { message := headlessMessage gated.toolName, callerSafe := true })
    return .noApprover
  | .ask =>
    if !gate.supportsGatedReplay then
      repository (.markFailed { message := unsupportedMessage gated.toolName, callerSafe := true })
      return .unsupported
    repository (.updateStatus .awaitingPermission)
    repository (.updatePermissionState (some (pauseFor gated withheld)))
    return .ask

def conflictMessage (verdict : GatedVerdict) : String :=
  let gatedToolDescription :=
    if verdict = .denied then "a tool that is not permitted" else "a tool requiring approval"
  s!"Execution stopped: {gatedToolDescription} was called in the same turn as a " ++
    "subagent/DAG handoff (delegate_to_agent or coordinate_task), which cannot be safely " ++
    "resumed together. Avoid combining a delegation tool with an approval-gated tool in one turn."

/-- `resolveHandoffConflict` is `conflict`. -/
def handoffConflict (withheldCount : Nat) (hasHandoffSignal : Bool) : Bool := decide (0 < withheldCount) && hasHandoffSignal

def handleWithheldToolCalls (withheldCalls : List GatedToolCall) (hasHandoffSignal : Bool) :
    Async HandleWithheldToolCallsOutcome := do
  match gate.selectGatedToolCall approvedTools deniedTools withheldCalls with
  | none => return .none
  | some gated =>
    if handoffConflict withheldCalls.length hasHandoffSignal then
      repository (.markFailed { message := conflictMessage gated.verdict, callerSafe := true })
      return .handoffConflict
    let _ ← gate.settleGatedCall gated withheldCalls
    return .settled

/-- `executeGatedToolCall` of one call and, when it throws, the end of the run. -/
def replayCall (agent : Checkpoint) (gated : GatedToolCall) : Async (Option Checkpoint) :=
  tryCatch (do return some (← call (.executeGatedToolCall agent gated))) fun err => do
    repository (.markFailed { message := s!"Approved tool \"{gated.name}\" did not complete: {err.message}" })
    return none

def replayCalls (agent : Checkpoint) : List GatedToolCall → Async (Option Checkpoint)
  | [] => return some agent
  | gated :: rest => do
    match ← replayCall agent gated with
    | none => return none
    | some agent => replayCalls agent rest

def unresolvableMessage : String :=
  "Execution stopped: a tool call was left awaiting approval that can no longer be resolved."

def resumeApprovedPause (agent : Checkpoint) (iterationIndex : Nat) (withheld : List GatedToolCall)
    (approvedToolCallId : Option String) : Async ResumeApprovedPauseOutcome := do
  let (nowApproved, stillWithheld) := gate.partitionApprovedPause approvedTools deniedTools withheld approvedToolCallId
  match ← replayCalls agent nowApproved with
  | none => return .replayError
  | some agent =>
    repository (.updatePermissionState none)
    repository (.updateCheckpoint agent)
    call (.billIterationIfNeeded iterationIndex agent)
    if stillWithheld.isEmpty then
      return .replayed agent
    match gate.selectGatedToolCall approvedTools deniedTools stillWithheld with
    | none =>
      repository (.markFailed { message := unresolvableMessage })
      return .unresolvable
    | some nextGated =>
      let _ ← gate.settleGatedCall nextGated stillWithheld
      return .repaused

end GateContext

/-! ### What the gate decides -/

section Decisions
variable {gate : GateContext} {approvedTools deniedTools : List String}

theorem selectGatedFrom_member {first : Option GatedAction} {calls : List GatedToolCall} {gated : GatedAction}
    (selected : gate.selectGatedFrom approvedTools deniedTools first calls = some gated) :
    first = some gated ∨ ∃ call ∈ calls, call.id = gated.toolCallId ∧ call.name = gated.toolName ∧
      call.input = gated.toolInput := by
  induction calls generalizing first with
  | nil => exact Or.inl selected
  | cons call rest ih =>
    unfold GateContext.selectGatedFrom at selected
    split at selected
    · cases selected
      exact Or.inr ⟨call, by simp⟩
    · rcases ih selected with earlier | ⟨later, member, same⟩
      · cases first with
        | some first => exact Or.inl earlier
        | none =>
          cases earlier
          exact Or.inr ⟨call, by simp⟩
      · exact Or.inr ⟨later, by simp [member], same⟩
    · rcases ih selected with earlier | ⟨later, member, same⟩
      · exact Or.inl earlier
      · exact Or.inr ⟨later, by simp [member], same⟩

theorem selected_member {calls : List GatedToolCall} {gated : GatedAction}
    (selected : gate.selectGatedToolCall approvedTools deniedTools calls = some gated) :
    ∃ call ∈ calls, call.id = gated.toolCallId ∧ call.name = gated.toolName ∧ call.input = gated.toolInput := by
  rcases selectGatedFrom_member selected with none | found
  · cases none
  · exact found

theorem selectGatedFrom_none {first : Option GatedAction} {calls : List GatedToolCall}
    (selected : gate.selectGatedFrom approvedTools deniedTools first calls = none) :
    first = none ∧ ∀ call ∈ calls, gate.shouldWithholdToolCall approvedTools deniedTools call.name = false := by
  induction calls generalizing first with
  | nil => exact ⟨selected, by simp⟩
  | cons call rest ih =>
    unfold GateContext.selectGatedFrom at selected
    split at selected
    · cases selected
    · obtain ⟨absurd, _⟩ := ih selected
      cases first <;> simp at absurd
    · rename_i allowed
      obtain ⟨same, none⟩ := ih selected
      refine ⟨same, fun other member => ?_⟩
      rcases List.mem_cons.mp member with rfl | member
      · simp [GateContext.shouldWithholdToolCall, allowed]
      · exact none other member

/-- Where calls are withheld, one of them is selected. -/
theorem selected_some {calls : List GatedToolCall} (nonempty : calls ≠ [])
    (withheld : ∀ call ∈ calls, gate.shouldWithholdToolCall approvedTools deniedTools call.name = true) :
    ∃ gated, gate.selectGatedToolCall approvedTools deniedTools calls = some gated := by
  cases selected : gate.selectGatedToolCall approvedTools deniedTools calls with
  | some gated => exact ⟨gated, rfl⟩
  | none =>
    obtain ⟨call, member⟩ := List.exists_mem_of_ne_nil calls nonempty
    have open' := (selectGatedFrom_none selected).2 call member
    rw [withheld call member] at open'
    cases open'

/-- A replayed call is the one approved, or needs no approval. -/
theorem replayed_permitted {withheld : List GatedToolCall} {approvedToolCallId : Option String} {call : GatedToolCall}
    (member : call ∈ (gate.partitionApprovedPause approvedTools deniedTools withheld approvedToolCallId).1) :
    call ∈ withheld ∧ (some call.id = approvedToolCallId ∨
      gate.classifyToolPermission approvedTools deniedTools call.name = .allowed) := by
  obtain ⟨member, chosen⟩ := List.mem_filter.mp member
  refine ⟨member, ?_⟩
  simpa [GateContext.shouldWithholdToolCall] using chosen

/-- The calls that stay withheld are of the same pause, and none has the id of a replayed one. -/
theorem stillWithheld_member {withheld : List GatedToolCall} {approvedToolCallId : Option String} {call : GatedToolCall}
    (member : call ∈ (gate.partitionApprovedPause approvedTools deniedTools withheld approvedToolCallId).2) :
    call ∈ withheld ∧
      call.id ∉ (gate.partitionApprovedPause approvedTools deniedTools withheld approvedToolCallId).1.map (·.id) ∧
      gate.shouldWithholdToolCall approvedTools deniedTools call.name = true := by
  obtain ⟨member, left⟩ := List.mem_filter.mp member
  have left : call.id ∉ (gate.nowApproved approvedTools deniedTools withheld approvedToolCallId).map (·.id) := by
    simpa using left
  refine ⟨member, left, ?_⟩
  by_contra allowed
  exact left (List.mem_map.mpr ⟨call, List.mem_filter.mpr ⟨member, by simp [allowed]⟩, rfl⟩)

theorem approved_replayed {withheld : List GatedToolCall} {call : GatedToolCall} (member : call ∈ withheld) :
    call ∈ (gate.partitionApprovedPause approvedTools deniedTools withheld (some call.id)).1 :=
  List.mem_filter.mpr ⟨member, by simp⟩

end Decisions

end Bike4Mind.AgentExecution
