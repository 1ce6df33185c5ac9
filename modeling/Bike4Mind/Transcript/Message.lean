import Bike4Mind.Collections.OrderedMap
import Bike4Mind.Collections.OrderedSet
import Bike4Mind.Transcript.Json

/-! The transcript of an agent, in the wire shapes of its backends, and `repairTranscript`. -/

namespace Bike4Mind.Transcript
open Collections

def MISSING_TOOL_RESULT : String := "Tool call did not return a result."

structure TranscriptToolCall where
  id : String
  name : String
  deriving DecidableEq

structure TranscriptRepairReport where
  synthesizedResults : Nat := 0
  movedResults : Nat := 0
  droppedResults : Nat := 0
  replacedArguments : Nat := 0
  deriving DecidableEq

inductive Role where
  | user
  | assistant
  | system
  | function
  | tool
  deriving DecidableEq

inductive BlockType where
  | text
  | image
  | imageUrl
  | toolUse
  | toolResult
  | thinking
  deriving DecidableEq

/-- What a tool call passes as its input or arguments: a plain object, a text, or neither. -/
inductive JsValue where
  | object (fields : String)
  | text (value : String)
  | other (value : String)
  deriving DecidableEq

def isPlainObject : JsValue → Bool
  | .object _ => true
  | .text _ | .other _ => false

/-- An `id` or `toolUseId` that is not a string reads as none. `rest` is every field no function here reads. -/
structure ContentBlock where
  type : BlockType
  id : Option String := none
  name : Option String := none
  input : JsValue := .other ""
  toolUseId : Option String := none
  rest : String := ""
  deriving DecidableEq

structure OpenAiToolCall where
  id : Option String
  name : Option String
  arguments : JsValue
  rest : String := ""
  deriving DecidableEq

inductive Content where
  | text (text : String)
  | blocks (blocks : List ContentBlock)
  deriving DecidableEq

structure Message where
  role : Role
  content : Content
  toolCalls : Option (List OpenAiToolCall) := none
  toolCallId : Option String := none
  rest : String := ""
  deriving DecidableEq

abbrev ToolResultBuilder := TranscriptToolCall → (observation : String) → List Message

def blocksOf (message : Message) : List ContentBlock :=
  match message.content with
  | .text _ => []
  | .blocks blocks => blocks

/-- A call without an id cannot be paired. -/
def identified (id name : Option String) : Option TranscriptToolCall :=
  (id.filter (· ≠ "")).map fun id => { id := id, name := name.getD "" }

def toolCallsOf (message : Message) : List TranscriptToolCall :=
  if message.role ≠ .assistant then []
  else (blocksOf message).filterMap (fun block => if block.type = .toolUse then identified block.id block.name else none) ++
    (message.toolCalls.getD []).filterMap fun call => identified call.id call.name

/-- The result ids a message carries, when it carries nothing else. -/
def resultIdsOf (message : Message) : Option (List String) :=
  if message.role = .tool ∧ message.toolCallId.isSome then some message.toolCallId.toList
  else
    let blocks := blocksOf message
    if blocks.length = 0 ∨ !blocks.all (·.type = .toolResult) then none
    else blocks.mapM ContentBlock.toolUseId

def isJsonObjectString (value : String) : Bool := Json.isObjectText value

/-- A block whose input can be sent. -/
def ContentBlock.sound (block : ContentBlock) : Bool := block.type ≠ .toolUse || isPlainObject block.input

/-- Only a text that is not a JSON object is malformed. -/
def OpenAiToolCall.sound (call : OpenAiToolCall) : Bool :=
  match call.arguments with
  | .text args => isJsonObjectString args
  | .object _ | .other _ => true

def fixedBlock (block : ContentBlock) : ContentBlock := if block.sound then block else { block with input := .object "" }

def fixedToolCall (call : OpenAiToolCall) : OpenAiToolCall := if call.sound then call else { call with arguments := .text "{}" }

/-- The message with malformed tool-call arguments replaced, and how many, or none if none were. -/
def withValidArguments (message : Message) : Option (Message × Nat) :=
  if message.role ≠ .assistant then none
  else
    let blocks := blocksOf message
    let replaced := blocks.countP (!·.sound) + (message.toolCalls.getD []).countP (!·.sound)
    if replaced = 0 then none
    else
      let content := if 0 < blocks.length then .blocks (blocks.map fixedBlock) else message.content
      some ({ message with content := content, toolCalls := message.toolCalls.map (·.map fixedToolCall) }, replaced)

/-- Keeps the first result block for each of `remaining`. -/
def takeResults : List ContentBlock → List String → List ContentBlock
  | [], _ => []
  | block :: rest, remaining =>
    match block.toolUseId with
    | some id => if id ∈ remaining then block :: takeResults rest (remaining.erase id) else takeResults rest remaining
    | none => takeResults rest remaining

def withOnlyResults (carrier : Message) (ids : List String) : Message :=
  let blocks := blocksOf carrier
  let kept := takeResults blocks ids
  if kept.length = blocks.length then carrier else { carrier with content := .blocks kept }

def isRepaired (report : TranscriptRepairReport) : Bool :=
  0 < report.synthesizedResults + report.movedResults + report.droppedResults + report.replacedArguments

section Repair
variable (messages : List Message)

def callIds : List String := messages.flatMap fun message => (toolCallsOf message).map TranscriptToolCall.id

/-- Ids answered by a result inside a message that also carries other content. -/
def mixedAnswers : List String :=
  messages.flatMap fun message =>
    if (resultIdsOf message).isSome then []
    else (blocksOf message).filterMap fun block => if block.type = .toolResult then block.toolUseId else none

def claimResult (index : Nat) (owners : OrderedMap String Nat) (id : String) : OrderedMap String Nat :=
  if id ∈ callIds messages ∧ id ∉ mixedAnswers messages ∧ (owners.get? id).isNone then owners.set id index else owners

def claimResults (owners : OrderedMap String Nat) (entry : Message × Nat) : OrderedMap String Nat :=
  ((resultIdsOf entry.1).getD []).foldl (claimResult messages entry.2) owners

/-- Each answerable result id is owned by the first pure carrier holding it. -/
def ownerByResultId : OrderedMap String Nat := messages.zipIdx.foldl (claimResults messages) ∅

def ownedIds (owner : OrderedMap String Nat) (index : Nat) : List String :=
  (distinct (((messages[index]?).bind resultIdsOf).getD [])).filter fun id => owner.get? id = some index

/-- The variables of `repairTranscript`. -/
structure Repairing where
  answered : List String
  repaired : List Message := []
  report : TranscriptRepairReport := {}

/-- The ids of a message's calls that one carrier answers here. -/
def idsFrom (owner : OrderedMap String Nat) (calls : List TranscriptToolCall) (answered : List String) (carrierIndex : Nat) :
    List String :=
  (distinct (calls.map TranscriptToolCall.id)).filter fun id => id ∉ answered ∧ owner.get? id = some carrierIndex

variable (buildResult : ToolResultBuilder) (owner : OrderedMap String Nat)

/-- One call of a message: its result is synthesized or brought here, unless it is answered already. -/
def placeResult (calls : List TranscriptToolCall) (call : TranscriptToolCall) (expectedCarrierIndex : Nat) (s : Repairing) :
    Repairing × Nat :=
  if call.id ∈ s.answered then (s, expectedCarrierIndex)
  else
    match owner.get? call.id with
    | none =>
      let synthesized := buildResult call MISSING_TOOL_RESULT
      let s := { s with answered := s.answered ++ [call.id] }
      if synthesized.length = 0 then (s, expectedCarrierIndex)
      else
        ({ s with
          repaired := s.repaired ++ synthesized
          report := { s.report with synthesizedResults := s.report.synthesizedResults + 1 } }, expectedCarrierIndex)
    | some carrierIndex =>
      let ids := idsFrom owner calls s.answered carrierIndex
      let inPlace := carrierIndex = expectedCarrierIndex ∧ ids.length = (ownedIds messages owner carrierIndex).length
      let moved := ((messages[carrierIndex]?).map fun carrier => withOnlyResults carrier ids).toList
      ({ answered := s.answered ++ ids
         repaired := s.repaired ++ moved
         report := if inPlace then s.report else { s.report with movedResults := s.report.movedResults + 1 } },
        if inPlace then expectedCarrierIndex + 1 else expectedCarrierIndex)

def placeResults (calls : List TranscriptToolCall) : List TranscriptToolCall → Nat → Repairing → Repairing
  | [], _, s => s
  | call :: rest, expectedCarrierIndex, s =>
    let (s, expectedCarrierIndex) := placeResult messages buildResult owner calls call expectedCarrierIndex s
    placeResults calls rest expectedCarrierIndex s

def repairMessage (message : Message) (index : Nat) (s : Repairing) : Repairing :=
  match resultIdsOf message with
  | some resultIds =>
    { s with report := { s.report with
        droppedResults := s.report.droppedResults + (resultIds.length - (ownedIds messages owner index).length) } }
  | none =>
    let argumentFix := withValidArguments message
    let s := { s with
      repaired := s.repaired ++ [(argumentFix.map Prod.fst).getD message]
      report := { s.report with replacedArguments := s.report.replacedArguments + (argumentFix.map Prod.snd).getD 0 } }
    placeResults messages buildResult owner (toolCallsOf message) (toolCallsOf message) (index + 1) s

def repairMessages : List Message → Nat → Repairing → Repairing
  | [], _, s => s
  | message :: rest, index, s => repairMessages rest (index + 1) (repairMessage messages buildResult owner message index s)

/-- The transcript as it is left in place, and the report. -/
def repairTranscript : List Message × TranscriptRepairReport :=
  let s := repairMessages messages buildResult (ownerByResultId messages) messages 0 { answered := mixedAnswers messages }
  if isRepaired s.report then (s.repaired, s.report) else (messages, s.report)

end Repair
end Bike4Mind.Transcript
