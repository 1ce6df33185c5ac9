import Bike4Mind.History.Quest

/-! The messages that stored turns are replayed as, and what they carry of each turn. -/

namespace Bike4Mind.History
open Texts Transcript

structure IMessage where
  role : Role
  content : Text ⊕ List MessageContentObject
  deriving DecidableEq

def isGeminiModelId (model : Text) : Bool := (ascii "gemini").isPrefixOf model

def disableToolReplay (model : Option Text) : Bool := (truthy model).any isGeminiModelId

/-! ### One turn -/

def promptMessages (cur : ChatHistoryItem) : List IMessage := if cur.prompt = [] then [] else [⟨.user, .inl cur.prompt⟩]

def structuredMessages (cur : ChatHistoryItem) : List IMessage :=
  ((cur.structuredReplies.getD []).map fun content => ⟨.assistant, .inr content⟩) ++
    if cur.toolResults.getD [] = [] then []
    else [⟨.user, .inr ((cur.toolResults.getD []).map fun tr => .toolResult tr.toolUseId tr.content tr.isError)⟩]

/-- Anthropic requires an object here. -/
def inputOf (fc : ReplayableToolCall) : JsValue := if isPlainObject fc.parameters then fc.parameters else .object ""

def resultText (fc : ReplayableToolCall) : Text :=
  (truthy fc.returnValue).getD (if fc.success = some false then ascii "Tool execution failed" else TOOL_RESULT_NOT_RECORDED)

def toolUseOf (fc : ReplayableToolCall) : MessageContentObject := .toolUse fc.useId fc.useName (inputOf fc)

def toolResultOf (fc : ReplayableToolCall) : MessageContentObject := .toolResult fc.useId (resultText fc) (some (fc.success = some false))

/-- The turn as its tool calls and their results. -/
def toolMessages (cur : ChatHistoryItem) : List IMessage :=
  let toolCalls := replayableToolCalls cur.functionCalls
  let textReply := historyTextReply cur
  [⟨.assistant, .inr ((if textReply = [] then [] else [.text (stripToolOutputMarker textReply)]) ++ toolCalls.map toolUseOf)⟩,
    ⟨.user, .inr (toolCalls.map toolResultOf)⟩]

def textMessages (includeReplyChoices : Bool) (cur : ChatHistoryItem) : List IMessage :=
  let textReply := historyTextReply cur
  if textReply = [] then []
  else
    let text := stripToolOutputMarker textReply
    let reattach := includeReplyChoices && isFinalVisibleReply cur
    [⟨.assistant, .inl (if reattach then withStoredChoices text cur else text)⟩]

section Conversion
variable (model : Option Text) (includeReplyChoices : Bool)

def replyMessages (cur : ChatHistoryItem) : List IMessage :=
  if hasStructuredReplies cur then structuredMessages cur
  else if 0 < (replayableToolCalls cur.functionCalls).length ∧ disableToolReplay model = false then toolMessages cur
  else textMessages includeReplyChoices cur

def turnMessages (cur : ChatHistoryItem) : List IMessage :=
  if isStoppedBeforeReply cur then [] else promptMessages cur ++ replyMessages model includeReplyChoices cur

/-- The messages of the windowed turns. -/
def convertedMessages (chatHistoryItems : List ChatHistoryItem) : List IMessage :=
  chatHistoryItems.flatMap (turnMessages model includeReplyChoices)

end Conversion

/-! ### What a message carries -/

def IMessage.blocks (m : IMessage) : List MessageContentObject := m.content.elim (fun _ => []) id

def MessageContentObject.use? : MessageContentObject → Option (Text × JsValue)
  | .toolUse id _ input => some (id, input)
  | .text _ | .toolResult _ _ _ | .other _ => none

def MessageContentObject.result? : MessageContentObject → Option (Text × Text)
  | .toolResult id content _ => some (id, content)
  | .text _ | .toolUse _ _ _ | .other _ => none

def MessageContentObject.text? : MessageContentObject → Option Text
  | .text value => some value
  | .toolUse _ _ _ | .toolResult _ _ _ | .other _ => none

namespace IMessage

def uses (m : IMessage) : List (Text × JsValue) := m.blocks.filterMap MessageContentObject.use?

def results (m : IMessage) : List (Text × Text) := m.blocks.filterMap MessageContentObject.result?

def useIds (m : IMessage) : List Text := m.uses.map Prod.fst

def resultIds (m : IMessage) : List Text := m.results.map Prod.fst

def texts (m : IMessage) : List (Role × Text) := (m.content.elim (fun text => [text]) (·.filterMap MessageContentObject.text?)).map (m.role, ·)

end IMessage

/-- A request that pairs its tool blocks as the provider asks, whatever the ids are. -/
structure Paired (messages : List IMessage) : Prop where
  answered : ∀ (front rest : List IMessage) (m : IMessage), messages = front ++ m :: rest →
    ∀ id ∈ m.useIds, (rest.head?.elim [] IMessage.resultIds).count id = 1
  asked : ∀ (front rest : List IMessage) (m : IMessage), messages = front ++ m :: rest →
    ∀ id ∈ m.resultIds, id ∈ front.getLast?.elim [] IMessage.useIds
  inputs : ∀ m ∈ messages, ∀ use ∈ m.uses, isPlainObject use.2 = true
  contents : ∀ m ∈ messages, ∀ result ∈ m.results, result.2 ≠ []

/-- The ids of the tool_use blocks, in order. -/
def useIds (messages : List IMessage) : List Text := messages.flatMap IMessage.useIds

/-! ### The recorded calls that are replayed -/

section Unseen
variable {seen : List Text} {calls : List RecordedFunctionCall}

theorem unseen_nodup : ((unseen seen calls).map ReplayableToolCall.useId).Nodup ∧
    ∀ call ∈ unseen seen calls, call.useId ∉ seen := by
  induction calls generalizing seen with
  | nil => exact ⟨List.nodup_nil, fun call member => absurd member List.not_mem_nil⟩
  | cons fc rest ih =>
    unfold unseen
    cases asReplayable fc with
    | none => exact ih
    | some call =>
      dsimp only
      split
      · exact ih
      · rename_i fresh
        obtain ⟨distinct, later⟩ := @ih (call.useId :: seen)
        constructor
        · rw [List.map_cons, List.nodup_cons]
          refine ⟨fun again => ?_, distinct⟩
          obtain ⟨other, member, same⟩ := List.mem_map.mp again
          exact later other member (same ▸ List.mem_cons_self)
        · intro other member
          rcases List.mem_cons.mp member with rfl | member
          · exact fresh
          · exact fun old => later other member (List.mem_cons_of_mem _ old)

theorem mem_unseen {id : Text} : id ∈ (unseen seen calls).map ReplayableToolCall.useId ↔
    id ∉ seen ∧ ∃ fc ∈ calls, ∃ call : ReplayableToolCall, asReplayable fc = some call ∧ call.useId = id := by
  induction calls generalizing seen with
  | nil => simp [unseen]
  | cons fc rest ih =>
    unfold unseen
    cases complete : asReplayable fc with
    | none => simp [ih, complete]
    | some call =>
      dsimp only
      split
      · rename_i old
        rw [ih]
        constructor
        · rintro ⟨fresh, other, member, found⟩
          exact ⟨fresh, other, List.mem_cons_of_mem _ member, found⟩
        · rintro ⟨fresh, other, member, found, is, same⟩
          rcases List.mem_cons.mp member with rfl | member
          · cases complete.symm.trans is
            exact absurd (same ▸ old) fresh
          · exact ⟨fresh, other, member, found, is, same⟩
      · rename_i fresh
        rw [List.map_cons, List.mem_cons, ih, List.mem_cons, not_or]
        constructor
        · rintro (rfl | ⟨⟨_, new⟩, other, member, found⟩)
          · exact ⟨fresh, fc, List.mem_cons_self, call, complete, rfl⟩
          · exact ⟨new, other, List.mem_cons_of_mem _ member, found⟩
        · rintro ⟨new, other, member, found, is, same⟩
          by_cases here : id = call.useId
          · exact Or.inl here
          · rcases List.mem_cons.mp member with rfl | member
            · cases complete.symm.trans is
              exact absurd same.symm here
            · exact Or.inr ⟨⟨here, new⟩, other, member, found, is, same⟩

end Unseen

/-! ### Requests that pair -/

theorem paired_nil : Paired [] where
  answered front rest m whole := by
    cases front <;> cases whole
  asked front rest m whole := by
    cases front <;> cases whole
  inputs m member := absurd member List.not_mem_nil
  contents m member := absurd member List.not_mem_nil

theorem split_append {α : Type} {a b front rest : List α} {m : α} (whole : a ++ b = front ++ m :: rest) :
    (∃ later : List α, a = front ++ m :: later ∧ rest = later ++ b) ∨
      ∃ earlier : List α, front = a ++ earlier ∧ b = earlier ++ m :: rest := by
  rcases List.append_eq_append_iff.mp whole with ⟨earlier, same, tail⟩ | ⟨later, same, tail⟩
  · exact Or.inr ⟨earlier, same, tail⟩
  · cases later with
    | nil => exact Or.inr ⟨[], by rw [same, List.append_nil, List.append_nil], tail.symm⟩
    | cons first later =>
      rw [List.cons_append, List.cons.injEq] at tail
      obtain ⟨rfl, rfl⟩ := tail
      exact Or.inl ⟨later, same, rfl⟩

theorem Paired.append {a b : List IMessage} (ha : Paired a) (hb : Paired b) : Paired (a ++ b) where
  answered front rest m whole id member := by
    rcases split_append whole with ⟨later, inside, rfl⟩ | ⟨earlier, _, inside⟩
    · have once := ha.answered front later m inside id member
      cases later with
      | nil => exact absurd once (by simp)
      | cons next later => exact once
    · exact hb.answered earlier rest m inside id member
  asked front rest m whole id member := by
    rcases split_append whole with ⟨later, inside, _⟩ | ⟨earlier, rfl, inside⟩
    · exact ha.asked front later m inside id member
    · have before := hb.asked earlier rest m inside id member
      cases last : earlier.getLast? with
      | none =>
        rw [last] at before
        exact absurd before List.not_mem_nil
      | some previous =>
        rw [last] at before
        rw [List.getLast?_append, last]
        exact before
  inputs m member := by
    rcases List.mem_append.mp member with member | member
    · exact ha.inputs m member
    · exact hb.inputs m member
  contents m member := by
    rcases List.mem_append.mp member with member | member
    · exact ha.contents m member
    · exact hb.contents m member

theorem paired_flatMap {α : Type} {f : α → List IMessage} {xs : List α} (each : ∀ x ∈ xs, Paired (f x)) : Paired (xs.flatMap f) := by
  induction xs with
  | nil => exact paired_nil
  | cons x rest ih =>
    rw [List.flatMap_cons]
    exact (each x List.mem_cons_self).append (ih fun y member => each y (List.mem_cons_of_mem _ member))

theorem paired_plain {m : IMessage} (noUses : m.uses = []) (noResults : m.results = []) : Paired [m] where
  answered front rest other whole id member := by
    have here : other ∈ [m] := by rw [whole]; exact List.mem_append_right _ List.mem_cons_self
    rw [List.mem_singleton.mp here, IMessage.useIds, noUses] at member
    exact absurd member List.not_mem_nil
  asked front rest other whole id member := by
    have here : other ∈ [m] := by rw [whole]; exact List.mem_append_right _ List.mem_cons_self
    rw [List.mem_singleton.mp here, IMessage.resultIds, noResults] at member
    exact absurd member List.not_mem_nil
  inputs other member use inside := by
    rw [List.mem_singleton.mp member, noUses] at inside
    exact absurd inside List.not_mem_nil
  contents other member result inside := by
    rw [List.mem_singleton.mp member, noResults] at inside
    exact absurd inside List.not_mem_nil

theorem two_split {first second m : IMessage} {front rest : List IMessage} (whole : [first, second] = front ++ m :: rest) :
    (front = [] ∧ m = first ∧ rest = [second]) ∨ (front = [first] ∧ m = second ∧ rest = []) := by
  rcases front with _ | ⟨x, _ | ⟨y, front⟩⟩
  · rw [List.nil_append, List.cons.injEq] at whole
    exact Or.inl ⟨rfl, whole.1.symm, whole.2.symm⟩
  · rw [List.cons_append, List.nil_append, List.cons.injEq, List.cons.injEq] at whole
    exact Or.inr ⟨by rw [whole.1], whole.2.1.symm, whole.2.2.symm⟩
  · rw [List.cons_append, List.cons_append, List.cons.injEq, List.cons.injEq] at whole
    exact absurd whole.2.2.symm (List.append_ne_nil_of_right_ne_nil _ (List.cons_ne_nil _ _))

/-- Two messages pair when the second answers each call of the first once, and nothing else. -/
theorem paired_exchange {first second : IMessage} (noResults : first.results = []) (noUses : second.uses = [])
    (same : second.resultIds = first.useIds) (distinct : first.useIds.Nodup) (objects : ∀ use ∈ first.uses, isPlainObject use.2 = true)
    (full : ∀ result ∈ second.results, result.2 ≠ []) : Paired [first, second] where
  answered front rest m whole id member := by
    rcases two_split whole with ⟨_, rfl, rfl⟩ | ⟨_, rfl, _⟩
    · show second.resultIds.count id = 1
      rw [same]
      exact List.count_eq_one_of_mem distinct member
    · rw [IMessage.useIds, noUses] at member
      exact absurd member List.not_mem_nil
  asked front rest m whole id member := by
    rcases two_split whole with ⟨_, rfl, _⟩ | ⟨rfl, rfl, _⟩
    · rw [IMessage.resultIds, noResults] at member
      exact absurd member List.not_mem_nil
    · show id ∈ first.useIds
      rw [← same]
      exact member
  inputs m member use inside := by
    rcases List.mem_cons.mp member with rfl | member
    · exact objects use inside
    · rw [List.mem_singleton.mp member, noUses] at inside
      exact absurd inside List.not_mem_nil
  contents m member result inside := by
    rcases List.mem_cons.mp member with rfl | member
    · rw [noResults] at inside
      exact absurd inside List.not_mem_nil
    · rw [List.mem_singleton.mp member] at inside
      exact full result inside

/-! ### What a turn's messages carry -/

section Turn
variable {cur : ChatHistoryItem}

/-- The message of a turn's calls. -/
def callsMessage (cur : ChatHistoryItem) : IMessage :=
  ⟨.assistant, .inr ((if historyTextReply cur = [] then [] else [.text (stripToolOutputMarker (historyTextReply cur))]) ++
    (replayableToolCalls cur.functionCalls).map toolUseOf)⟩

/-- The message of their results. -/
def resultsMessage (cur : ChatHistoryItem) : IMessage := ⟨.user, .inr ((replayableToolCalls cur.functionCalls).map toolResultOf)⟩

theorem toolMessages_eq : toolMessages cur = [callsMessage cur, resultsMessage cur] := rfl

theorem text_block_carries (reply : Text) :
    (if reply = [] then [] else [MessageContentObject.text (stripToolOutputMarker reply)]).filterMap MessageContentObject.use? = [] ∧
      (if reply = [] then [] else [MessageContentObject.text (stripToolOutputMarker reply)]).filterMap MessageContentObject.result? = [] := by
  split
  · exact ⟨rfl, rfl⟩
  · exact ⟨rfl, rfl⟩

theorem callsMessage_uses : (callsMessage cur).uses = (replayableToolCalls cur.functionCalls).map fun fc => (fc.useId, inputOf fc) := by
  show ((if historyTextReply cur = [] then [] else [MessageContentObject.text (stripToolOutputMarker (historyTextReply cur))]) ++
    (replayableToolCalls cur.functionCalls).map toolUseOf).filterMap MessageContentObject.use? = _
  rw [List.filterMap_append, (text_block_carries _).1, List.nil_append, List.filterMap_map]
  exact congrFun List.filterMap_eq_map' _

theorem callsMessage_results : (callsMessage cur).results = [] := by
  show ((if historyTextReply cur = [] then [] else [MessageContentObject.text (stripToolOutputMarker (historyTextReply cur))]) ++
    (replayableToolCalls cur.functionCalls).map toolUseOf).filterMap MessageContentObject.result? = _
  rw [List.filterMap_append, (text_block_carries _).2, List.nil_append, List.filterMap_map]
  exact List.filterMap_eq_nil_iff.mpr fun fc _ => rfl

theorem resultsMessage_uses : (resultsMessage cur).uses = [] := by
  show ((replayableToolCalls cur.functionCalls).map toolResultOf).filterMap MessageContentObject.use? = []
  rw [List.filterMap_map]
  exact List.filterMap_eq_nil_iff.mpr fun fc _ => rfl

theorem resultsMessage_results :
    (resultsMessage cur).results = (replayableToolCalls cur.functionCalls).map fun fc => (fc.useId, resultText fc) := by
  show ((replayableToolCalls cur.functionCalls).map toolResultOf).filterMap MessageContentObject.result? = _
  rw [List.filterMap_map]
  exact congrFun List.filterMap_eq_map' _

theorem inputOf_object (fc : ReplayableToolCall) : isPlainObject (inputOf fc) = true := by
  unfold inputOf
  split
  · assumption
  · rfl

theorem truthy_some {text : Option Text} {value : Text} : truthy text = some value ↔ text = some value ∧ value ≠ [] := by
  rw [truthy, Option.filter_eq_some_iff]
  simp

theorem resultText_ne (fc : ReplayableToolCall) : resultText fc ≠ [] := by
  unfold resultText
  cases recorded : truthy fc.returnValue with
  | some value => exact (truthy_some.mp recorded).2
  | none =>
    rw [Option.getD_none]
    split
    · decide
    · decide

theorem replayable_nodup (calls : Option (List RecordedFunctionCall)) : ((replayableToolCalls calls).map ReplayableToolCall.useId).Nodup := by
  unfold replayableToolCalls
  dsimp only
  split
  · exact unseen_nodup.1
  · exact List.nodup_nil

theorem useIds_eq : (callsMessage cur).useIds = (replayableToolCalls cur.functionCalls).map ReplayableToolCall.useId := by
  rw [IMessage.useIds, callsMessage_uses, List.map_map]
  rfl

theorem paired_toolMessages : Paired (toolMessages cur) := by
  rw [toolMessages_eq]
  refine paired_exchange callsMessage_results resultsMessage_uses ?_ ?_ ?_ ?_
  · rw [useIds_eq, IMessage.resultIds, resultsMessage_results, List.map_map]
    rfl
  · rw [useIds_eq]
    exact replayable_nodup _
  · intro use member
    rw [callsMessage_uses] at member
    obtain ⟨fc, _, rfl⟩ := List.mem_map.mp member
    exact inputOf_object fc
  · intro result member
    rw [resultsMessage_results] at member
    obtain ⟨fc, _, rfl⟩ := List.mem_map.mp member
    exact resultText_ne fc

theorem paired_textMessages (includeReplyChoices : Bool) : Paired (textMessages includeReplyChoices cur) := by
  unfold textMessages
  dsimp only
  split
  · exact paired_nil
  · exact paired_plain rfl rfl

theorem paired_promptMessages : Paired (promptMessages cur) := by
  unfold promptMessages
  split
  · exact paired_nil
  · exact paired_plain rfl rfl

end Turn
end Bike4Mind.History
