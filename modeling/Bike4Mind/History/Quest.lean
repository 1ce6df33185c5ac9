import Bike4Mind.Replies.ThinkMarkers
import Bike4Mind.Texts.Decimals
import Bike4Mind.Transcript.Message

/-! A stored turn of a chat, and what of it the next request replays. -/

namespace Bike4Mind.History
open Texts Replies Transcript

/-- Stands in for a tool_result whose returnValue was never recorded; must not be empty. -/
def TOOL_RESULT_NOT_RECORDED : Text := ascii "[tool result not recorded]"

def MIN_REPLY_CHOICES : Nat := 2

def TOOL_OUTPUT_MARKER : Text := ascii "b4m-tool-output"

structure RecordedFunctionCall where
  id : Option Text := none
  name : Option Text := none
  parameters : JsValue := .other ""
  returnValue : Option Text := none
  success : Option Bool := none
  deriving DecidableEq

structure ResearchModeResult where
  success : Bool
  response : Option Text
  deriving DecidableEq

structure ChoiceOption where
  label : Text
  description : Text
  deriving DecidableEq

inductive QuestStatus where
  | stopped
  | running
  | done
  deriving DecidableEq

inductive MessageContentObject where
  | text (text : Text)
  | toolUse (id name : Text) (input : JsValue)
  | toolResult (toolUseId content : Text) (isError : Option Bool)
  | other (block : String)
  deriving DecidableEq

structure StoredToolResult where
  toolUseId : Text
  content : Text
  isError : Option Bool
  deriving DecidableEq

/-- `IChatHistoryItem`, as far as the history reads it. A missing prompt reads as an empty one. -/
structure ChatHistoryItem where
  id : Text
  prompt : Text := []
  status : Option QuestStatus := none
  replies : Option (List Text) := none
  researchModeResults : Option (List ResearchModeResult) := none
  structuredReplies : Option (List (List MessageContentObject)) := none
  toolResults : Option (List StoredToolResult) := none
  functionCalls : Option (List RecordedFunctionCall) := none
  offeredTools : Option (List Text) := none
  suggestedChoices : Option (List ChoiceOption) := none
  deriving DecidableEq

/-- What a text holds when it is neither absent nor empty. -/
def truthy (text : Option Text) : Option Text := text.filter (· ≠ [])

/-! ### The text of a turn -/

def isThinking (reply : Text) : Bool := THINK_OPEN_TAG.isPrefixOf (trim reply)

def answersOf (results : List ResearchModeResult) : List Text :=
  (results.filter fun r => r.success && trim (r.response.getD []) ≠ []).map fun r => trim (r.response.getD [])

def researchModeReplyText (results : Option (List ResearchModeResult)) : Text :=
  let answers := answersOf (results.getD [])
  if answers.length ≤ 1 then answers.head?.getD []
  else (ascii "\n\n").intercalate <| answers.mapIdx fun i answer =>
    ascii "[Response " ++ decimal (i + 1) ++ ascii " of " ++ decimal answers.length ++ ascii "]\n" ++ answer

def historyTextReply (item : ChatHistoryItem) : Text :=
  (truthy ((item.replies.getD []).find? (! isThinking ·))).getD (researchModeReplyText item.researchModeResults)

def lastVisibleIndex (replies : List Text) : Option Nat :=
  ((List.range replies.length).reverse).find? fun i => visibleReplyText replies[i]? ≠ []

/-- Whether the reply that `historyTextReply` picks is also the last one a reader sees. -/
def isFinalVisibleReply (item : ChatHistoryItem) : Bool :=
  let replies := item.replies.getD []
  match replies.findIdx? (! isThinking ·) with
  | none => false
  | some firstNonThinkIndex => lastVisibleIndex replies = some firstNonThinkIndex

/-! ### The choices of a turn -/

/-- A code unit inside a JSON string. -/
def escapedUnit (c : CodeUnit) : Text :=
  if c = 0x22 then ascii "\\\"" else if c = 0x5c then ascii "\\\\"
  else if c = 0x08 then ascii "\\b" else if c = 0x0c then ascii "\\f"
  else if c = 0x0a then ascii "\\n" else if c = 0x0d then ascii "\\r" else if c = 0x09 then ascii "\\t"
  else if c < 0x20 then ascii "\\u" ++ hexadecimal c
  else [c]
where
  hexadecimal (c : CodeUnit) : Text := List.leftpad 4 0x30 ((Nat.toDigits 16 c.toNat).map fun d => UInt16.ofNat d.toNat)

/-- A surrogate without its partner is escaped too. -/
def escapedUnits : Text → Text
  | [] => []
  | [c] => if isHighSurrogate c || isLowSurrogate c then ascii "\\u" ++ escapedUnit.hexadecimal c else escapedUnit c
  | c :: d :: rest =>
    if isHighSurrogate c && isLowSurrogate d then c :: d :: escapedUnits rest
    else if isHighSurrogate c || isLowSurrogate c then ascii "\\u" ++ escapedUnit.hexadecimal c ++ escapedUnits (d :: rest)
    else escapedUnit c ++ escapedUnits (d :: rest)

/-- `JSON.stringify` of a string -/
def quoted (text : Text) : Text := ascii "\"" ++ escapedUnits text ++ ascii "\""

def formatChoicesBlock (options : List ChoiceOption) : Text :=
  let payload := options.map fun option =>
    ascii "\x7b\"label\":" ++ quoted option.label ++ ascii ",\"description\":" ++ quoted option.description ++ ascii "\x7d"
  ascii "\n\n```choices\n\x7b\"options\":[" ++ (ascii ",").intercalate payload ++ ascii "]\x7d\n```"

def withStoredChoices (text : Text) (item : ChatHistoryItem) : Text :=
  match item.suggestedChoices with
  | none => text
  | some options => if text = [] ∨ options.length < MIN_REPLY_CHOICES then text else text ++ formatChoicesBlock options

/-! ### The marker of a tool output -/

def isBlank (c : CodeUnit) : Bool := c = 0x20 || c = 0x09

/-- `[\w-]` -/
def isFenceWord (c : CodeUnit) : Bool :=
  (0x30 ≤ c && c ≤ 0x39) || (0x41 ≤ c && c ≤ 0x5a) || (0x61 ≤ c && c ≤ 0x7a) || c = 0x5f || c = 0x2d

def isLineTerminator (c : CodeUnit) : Bool := c = 0x0a || c = 0x0d || c = 0x2028 || c = 0x2029

/-- `/^( {0,3}~{3,}[\w-]*)[ \t]+MARKER([ \t]*\r?)$/gm`, on one line without its end -/
def TOOL_OUTPUT_OPENER_MARK : Regex CodeUnit :=
  let space : Regex CodeUnit := .optional (.only 0x20)
  let tilde : Regex CodeUnit := .only 0x7e
  let opener : Regex CodeUnit :=
    .seq space <| .seq space <| .seq space <| .seq tilde <| .seq tilde <| .seq tilde <|
      .seq (.star true tilde) (.star true (.unit isFenceWord))
  .seq (.group opener) <| .seq (.plus (.unit isBlank)) <|
    .seq (.literal TOOL_OUTPUT_MARKER) (.group (.star true (.unit isBlank)))

def withoutMarker (line : Text) : Text :=
  ((TOOL_OUTPUT_OPENER_MARK.runs line).find? (·.rest = [])).elim line fun run => run.captures.flatten

/-- Each line as it is rewritten, and the terminators between them. -/
def stripLines : (line : Text) → Text → Text
  | line, [] => withoutMarker line
  | line, c :: rest =>
    if isLineTerminator c then withoutMarker line ++ c :: stripLines [] rest else stripLines (line ++ [c]) rest

def stripToolOutputMarker (value : Text) : Text := stripLines [] value

/-! ### The recorded calls of a turn -/

/-- A call that forms a tool_use and a tool_result. -/
structure ReplayableToolCall extends RecordedFunctionCall where
  useId : Text
  useName : Text
  deriving DecidableEq

def asReplayable (fc : RecordedFunctionCall) : Option ReplayableToolCall :=
  (truthy fc.id).bind fun id => (truthy fc.name).map fun name => { fc with useId := id, useName := name }

def unseen : (seenIds : List Text) → List RecordedFunctionCall → List ReplayableToolCall
  | _, [] => []
  | seenIds, fc :: rest =>
    match asReplayable fc with
    | none => unseen seenIds rest
    | some call => if call.useId ∈ seenIds then unseen seenIds rest else call :: unseen (call.useId :: seenIds) rest

def replayableToolCalls (functionCalls : Option (List RecordedFunctionCall)) : List ReplayableToolCall :=
  let replayable := unseen [] (functionCalls.getD [])
  if replayable.any fun fc => (truthy fc.returnValue).isSome then replayable else []

def hasStructuredReplies (item : ChatHistoryItem) : Bool := (item.structuredReplies.getD []) ≠ []

def isStoppedBeforeReply (item : ChatHistoryItem) : Bool :=
  item.status = some .stopped && historyTextReply item = [] && !hasStructuredReplies item &&
    (replayableToolCalls item.functionCalls).length = 0

end Bike4Mind.History
