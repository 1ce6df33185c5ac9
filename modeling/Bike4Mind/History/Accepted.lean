import Bike4Mind.History.Replay

/-! When the replayed turns are a request that the provider accepts. -/

namespace Bike4Mind.History
open Texts Transcript

/-! ### The recorded calls of a turn, as they stand in the record -/

/-- A recorded call with an id and a name. -/
def Complete (fc : RecordedFunctionCall) (id : Text) : Prop :=
  fc.id = some id ∧ id ≠ [] ∧ ∃ name : Text, fc.name = some name ∧ name ≠ []

/-- Some complete call, the first with its id, recorded a result. -/
def HasResult (calls : List RecordedFunctionCall) : Prop :=
  ∃ (before after : List RecordedFunctionCall) (fc : RecordedFunctionCall) (id value : Text), calls = before ++ fc :: after ∧
    Complete fc id ∧ (∀ other ∈ before, ¬ Complete other id) ∧ fc.returnValue = some value ∧ value ≠ []

/-- The turn has a complete call with this id, and a recorded result among its calls. -/
def Replays (cur : ChatHistoryItem) (id : Text) : Prop :=
  HasResult (cur.functionCalls.getD []) ∧ ∃ fc ∈ cur.functionCalls.getD [], Complete fc id

section Records
variable {seen : List Text} {calls : List RecordedFunctionCall} {fc : RecordedFunctionCall} {id : Text}

theorem asReplayable_some {call : ReplayableToolCall} (complete : asReplayable fc = some call) :
    Complete fc call.useId ∧ call.toRecordedFunctionCall = fc := by
  obtain ⟨id, written, rest⟩ := Option.bind_eq_some_iff.mp complete
  obtain ⟨name, named, rfl⟩ := Option.map_eq_some_iff.mp rest
  exact ⟨⟨(truthy_some.mp written).1, (truthy_some.mp written).2, name, truthy_some.mp named⟩, rfl⟩

theorem complete_iff : Complete fc id ↔ ∃ call : ReplayableToolCall, asReplayable fc = some call ∧ call.useId = id := by
  constructor
  · rintro ⟨written, full, name, named⟩
    refine ⟨{ fc with useId := id, useName := name }, ?_, rfl⟩
    rw [asReplayable, truthy_some.mpr ⟨written, full⟩, truthy_some.mpr named]
    rfl
  · rintro ⟨call, complete, rfl⟩
    exact (asReplayable_some complete).1

theorem complete_id {call : ReplayableToolCall} (complete : asReplayable fc = some call) (held : Complete fc id) : call.useId = id := by
  obtain ⟨other, same, is⟩ := complete_iff.mp held
  cases complete.symm.trans same
  exact is

/-- The calls of a record and of what is left of it after its first entry, which is not kept with this id. -/
theorem kept_later {first : RecordedFunctionCall} {rest : List RecordedFunctionCall} (kept : RecordedFunctionCall → Prop)
    (other : ¬ Complete first id) :
    (∃ (before after : List RecordedFunctionCall) (fc : RecordedFunctionCall), rest = before ++ fc :: after ∧ kept fc ∧
      ∀ other ∈ before, ¬ Complete other id) →
    ∃ (before after : List RecordedFunctionCall) (fc : RecordedFunctionCall), first :: rest = before ++ fc :: after ∧ kept fc ∧
      ∀ other ∈ before, ¬ Complete other id := by
  rintro ⟨before, after, fc, whole, keeps, earlier⟩
  refine ⟨first :: before, after, fc, by rw [whole, List.cons_append], keeps, ?_⟩
  intro entry member
  rcases List.mem_cons.mp member with rfl | member
  · exact other
  · exact earlier entry member

theorem mem_unseen_iff {call : ReplayableToolCall} : call ∈ unseen seen calls ↔
    ∃ (before after : List RecordedFunctionCall) (fc : RecordedFunctionCall), calls = before ++ fc :: after ∧
      (asReplayable fc = some call ∧ call.useId ∉ seen) ∧ ∀ other ∈ before, ¬ Complete other call.useId := by
  induction calls generalizing seen with
  | nil =>
    constructor
    · intro member
      exact absurd member List.not_mem_nil
    · rintro ⟨before, after, fc, whole, _⟩
      exact absurd whole.symm (List.append_ne_nil_of_right_ne_nil _ (List.cons_ne_nil _ _))
  | cons first rest ih =>
    unfold unseen
    cases complete : asReplayable first with
    | none =>
      have never (id : Text) : ¬ Complete first id := fun held => by
        obtain ⟨_, same, _⟩ := complete_iff.mp held
        cases complete.symm.trans same
      rw [ih]
      constructor
      · exact kept_later (fun fc => asReplayable fc = some call ∧ call.useId ∉ seen) (never _)
      · rintro ⟨before, after, fc, whole, ⟨is, fresh⟩, earlier⟩
        rcases List.cons_eq_append_iff.mp whole with ⟨rfl, here⟩ | ⟨before, rfl, tail⟩
        · cases here
          cases complete.symm.trans is
        · exact ⟨before, after, fc, tail, ⟨is, fresh⟩, fun other member => earlier other (List.mem_cons_of_mem _ member)⟩
    | some kept =>
      dsimp only
      split
      · rename_i old
        rw [ih]
        constructor
        · intro found
          have fresh : call.useId ∉ seen := by
            obtain ⟨_, _, _, _, ⟨_, fresh⟩, _⟩ := found
            exact fresh
          refine kept_later (fun fc => asReplayable fc = some call ∧ call.useId ∉ seen) (fun held => ?_) found
          exact fresh (complete_id complete held ▸ old)
        · rintro ⟨before, after, fc, whole, ⟨is, fresh⟩, earlier⟩
          rcases List.cons_eq_append_iff.mp whole with ⟨rfl, here⟩ | ⟨before, rfl, tail⟩
          · cases here
            cases complete.symm.trans is
            exact absurd old fresh
          · exact ⟨before, after, fc, tail, ⟨is, fresh⟩, fun other member => earlier other (List.mem_cons_of_mem _ member)⟩
      · rename_i fresh
        rw [List.mem_cons, ih]
        constructor
        · rintro (rfl | found)
          · exact ⟨[], rest, first, rfl, ⟨complete, fresh⟩, fun other member => absurd member List.not_mem_nil⟩
          · obtain ⟨before, after, fc, whole, ⟨is, new⟩, earlier⟩ := found
            rw [List.mem_cons, not_or] at new
            refine kept_later (fun fc => asReplayable fc = some call ∧ call.useId ∉ seen) (fun held => ?_)
              ⟨before, after, fc, whole, ⟨is, new.2⟩, earlier⟩
            exact new.1 (complete_id complete held).symm
        · rintro ⟨before, after, fc, whole, ⟨is, new⟩, earlier⟩
          rcases List.cons_eq_append_iff.mp whole with ⟨rfl, here⟩ | ⟨before, rfl, tail⟩
          · cases here
            cases complete.symm.trans is
            exact Or.inl rfl
          · have differs : call.useId ≠ kept.useId := fun same =>
              earlier first List.mem_cons_self (same ▸ (asReplayable_some complete).1)
            refine Or.inr ⟨before, after, fc, tail, ⟨is, ?_⟩, fun other member => earlier other (List.mem_cons_of_mem _ member)⟩
            rw [List.mem_cons, not_or]
            exact ⟨differs, new⟩

theorem hasResult_iff : HasResult calls ↔ (unseen [] calls).any (fun fc => (truthy fc.returnValue).isSome) = true := by
  rw [List.any_eq_true]
  constructor
  · rintro ⟨before, after, fc, id, value, whole, held, earlier, recorded, full⟩
    obtain ⟨call, complete, rfl⟩ := complete_iff.mp held
    refine ⟨call, mem_unseen_iff.mpr ⟨before, after, fc, whole, ⟨complete, List.not_mem_nil⟩, earlier⟩, ?_⟩
    have same : call.returnValue = fc.returnValue := by rw [← (asReplayable_some complete).2]
    rw [same, truthy_some.mpr ⟨recorded, full⟩]
    rfl
  · rintro ⟨call, member, some⟩
    obtain ⟨before, after, fc, whole, ⟨complete, _⟩, earlier⟩ := mem_unseen_iff.mp member
    obtain ⟨value, recorded⟩ := Option.isSome_iff_exists.mp some
    obtain ⟨held, rfl⟩ := asReplayable_some complete
    exact ⟨before, after, _, call.useId, value, whole, held, earlier, truthy_some.mp recorded⟩

theorem mem_replayable {cur : ChatHistoryItem} : id ∈ (replayableToolCalls cur.functionCalls).map ReplayableToolCall.useId ↔ Replays cur id := by
  rw [Replays, hasResult_iff]
  unfold replayableToolCalls
  dsimp only
  split
  · rename_i recorded
    rw [mem_unseen]
    constructor
    · rintro ⟨_, fc, member, held⟩
      exact ⟨recorded, fc, member, complete_iff.mpr held⟩
    · rintro ⟨_, fc, member, held⟩
      exact ⟨List.not_mem_nil, fc, member, complete_iff.mp held⟩
  · rename_i nothing
    constructor
    · intro member
      exact absurd member List.not_mem_nil
    · intro both
      exact absurd both.1 nothing

end Records

/-! ### What a request holds of its turns -/

section Turns
variable {includeReplyChoices : Bool}

/-- A turn's reply as it is replayed. -/
def sentReply (includeReplyChoices : Bool) (cur : ChatHistoryItem) : Text :=
  let text := stripToolOutputMarker (historyTextReply cur)
  if (replayableToolCalls cur.functionCalls).length = 0 ∧ includeReplyChoices ∧ isFinalVisibleReply cur then withStoredChoices text cur else text

/-- A turn's prompt and reply. -/
def spoken (includeReplyChoices : Bool) (cur : ChatHistoryItem) : List (Role × Text) :=
  (if cur.prompt = [] then [] else [(.user, cur.prompt)]) ++
    if historyTextReply cur = [] then [] else [(.assistant, sentReply includeReplyChoices cur)]

/-- A turn without structured replies, as another model than Gemini gets it. -/
theorem turnMessages_eq {model : Option Text} {cur : ChatHistoryItem} (tools : disableToolReplay model = false)
    (plain : hasStructuredReplies cur = false) : turnMessages model includeReplyChoices cur =
      if isStoppedBeforeReply cur then []
      else promptMessages cur ++
        if 0 < (replayableToolCalls cur.functionCalls).length then toolMessages cur else textMessages includeReplyChoices cur := by
  unfold turnMessages replyMessages
  rw [plain, tools]
  simp

theorem promptMessages_texts (cur : ChatHistoryItem) :
    (promptMessages cur).flatMap IMessage.texts = if cur.prompt = [] then [] else [(.user, cur.prompt)] := by
  unfold promptMessages
  split
  · rfl
  · rfl

theorem toolMessages_texts (cur : ChatHistoryItem) : (toolMessages cur).flatMap IMessage.texts =
    if historyTextReply cur = [] then [] else [(.assistant, stripToolOutputMarker (historyTextReply cur))] := by
  have noTexts (f : ReplayableToolCall → MessageContentObject) (silent : ∀ fc : ReplayableToolCall, (f fc).text? = none)
      (calls : List ReplayableToolCall) : (calls.map f).filterMap MessageContentObject.text? = [] := by
    rw [List.filterMap_map]
    exact List.filterMap_eq_nil_iff.mpr fun fc _ => silent fc
  rw [toolMessages_eq, List.flatMap_cons, List.flatMap_singleton]
  show (((if historyTextReply cur = [] then [] else [MessageContentObject.text (stripToolOutputMarker (historyTextReply cur))]) ++
      (replayableToolCalls cur.functionCalls).map toolUseOf).filterMap MessageContentObject.text?).map (Role.assistant, ·) ++
    (((replayableToolCalls cur.functionCalls).map toolResultOf).filterMap MessageContentObject.text?).map (Role.user, ·) = _
  rw [List.filterMap_append, noTexts _ (fun _ => rfl), noTexts _ (fun _ => rfl), List.append_nil, List.map_nil, List.append_nil]
  split
  · rfl
  · rfl

theorem turn_texts {model : Option Text} {cur : ChatHistoryItem} (tools : disableToolReplay model = false)
    (plain : hasStructuredReplies cur = false) : (turnMessages model includeReplyChoices cur).flatMap IMessage.texts =
      if isStoppedBeforeReply cur then [] else spoken includeReplyChoices cur := by
  rw [turnMessages_eq tools plain]
  split
  · rfl
  · rw [List.flatMap_append, promptMessages_texts, spoken]
    congr 1
    split
    · rename_i some
      have called : ¬ ((replayableToolCalls cur.functionCalls).length = 0 ∧ includeReplyChoices = true ∧ isFinalVisibleReply cur = true) :=
        fun none => Nat.ne_of_gt some none.1
      rw [toolMessages_texts, sentReply, if_neg called]
    · rename_i none
      have nothing : (replayableToolCalls cur.functionCalls).length = 0 := by omega
      unfold textMessages sentReply
      dsimp only
      by_cases silent : historyTextReply cur = []
      · rw [if_pos silent, if_pos silent]
        rfl
      · rw [if_neg silent, if_neg silent, nothing]
        simp only [Bool.and_eq_true, true_and]
        rfl

theorem paired_turn {model : Option Text} {cur : ChatHistoryItem} (tools : disableToolReplay model = false)
    (plain : hasStructuredReplies cur = false) : Paired (turnMessages model includeReplyChoices cur) := by
  rw [turnMessages_eq tools plain]
  split
  · exact paired_nil
  · refine paired_promptMessages.append ?_
    split
    · exact paired_toolMessages
    · exact paired_textMessages _

theorem turn_useIds {model : Option Text} {cur : ChatHistoryItem} (tools : disableToolReplay model = false)
    (plain : hasStructuredReplies cur = false) : useIds (turnMessages model includeReplyChoices cur) =
      (replayableToolCalls cur.functionCalls).map ReplayableToolCall.useId := by
  have noPrompt : useIds (promptMessages cur) = [] := by
    unfold promptMessages
    split
    · rfl
    · rfl
  have noText : useIds (textMessages includeReplyChoices cur) = [] := by
    unfold textMessages
    dsimp only
    split
    · rfl
    · rfl
  rw [turnMessages_eq tools plain]
  split
  · rename_i stopped
    simp only [isStoppedBeforeReply, Bool.and_eq_true, decide_eq_true_eq, List.length_eq_zero_iff] at stopped
    rw [stopped.2]
    rfl
  · rw [useIds, List.flatMap_append]
    show useIds _ ++ useIds _ = _
    rw [noPrompt, List.nil_append]
    split
    · rw [toolMessages_eq, useIds, List.flatMap_cons, List.flatMap_singleton, useIds_eq, IMessage.useIds, resultsMessage_uses,
        List.map_nil, List.append_nil]
    · rename_i none
      rw [noText, List.length_eq_zero_iff.mp (by omega : (replayableToolCalls cur.functionCalls).length = 0)]
      rfl

end Turns

theorem skipped (items : List ChatHistoryItem) {includeReplyChoices : Bool} :
    items.flatMap (fun item => if isStoppedBeforeReply item then [] else spoken includeReplyChoices item) =
      (items.filter (! isStoppedBeforeReply ·)).flatMap (spoken includeReplyChoices) := by
  induction items with
  | nil => rfl
  | cons item rest ih =>
    rw [List.flatMap_cons, ih, List.filter_cons]
    cases isStoppedBeforeReply item with
    | true => rfl
    | false => rfl

/-- The request pairs, says what the turns said, and repeats no id, exactly when no id is replayed by two turns. -/
theorem replay_accepted_iff (model : Option Text) (includeReplyChoices : Bool) (chatHistoryItems : List ChatHistoryItem)
    (tools : disableToolReplay model = false) (plain : ∀ item ∈ chatHistoryItems, hasStructuredReplies item = false) :
    (Paired (convertedMessages model includeReplyChoices chatHistoryItems) ∧
      (convertedMessages model includeReplyChoices chatHistoryItems).flatMap IMessage.texts =
        (chatHistoryItems.filter (! isStoppedBeforeReply ·)).flatMap (spoken includeReplyChoices) ∧
      (useIds (convertedMessages model includeReplyChoices chatHistoryItems)).Nodup) ↔
    chatHistoryItems.Pairwise fun a b => ∀ id : Text, ¬ (Replays a id ∧ Replays b id) := by
  have paired : Paired (convertedMessages model includeReplyChoices chatHistoryItems) :=
    paired_flatMap fun item member => paired_turn tools (plain item member)
  have said : (convertedMessages model includeReplyChoices chatHistoryItems).flatMap IMessage.texts =
      (chatHistoryItems.filter (! isStoppedBeforeReply ·)).flatMap (spoken includeReplyChoices) := by
    rw [convertedMessages, List.flatMap_assoc, List.flatMap_congr fun item member => turn_texts tools (plain item member)]
    exact skipped chatHistoryItems
  have ids : useIds (convertedMessages model includeReplyChoices chatHistoryItems) =
      chatHistoryItems.flatMap fun item => (replayableToolCalls item.functionCalls).map ReplayableToolCall.useId := by
    rw [useIds, convertedMessages, List.flatMap_assoc]
    exact List.flatMap_congr fun item member => turn_useIds tools (plain item member)
  have apart : (useIds (convertedMessages model includeReplyChoices chatHistoryItems)).Nodup ↔
      chatHistoryItems.Pairwise fun a b => ∀ id : Text, ¬ (Replays a id ∧ Replays b id) := by
    rw [ids, List.nodup_flatMap]
    constructor
    · rintro ⟨_, apart⟩
      refine apart.imp fun disjoint id both => ?_
      exact disjoint (mem_replayable.mpr both.1) (mem_replayable.mpr both.2)
    · intro apart
      refine ⟨fun item _ => replayable_nodup _, apart.imp fun disjoint id here there => ?_⟩
      exact disjoint id ⟨mem_replayable.mp here, mem_replayable.mp there⟩
  constructor
  · rintro ⟨_, _, distinct⟩
    exact apart.mp distinct
  · intro disjoint
    exact ⟨paired, said, apart.mpr disjoint⟩

/-- A turn that searched, with the id its backend gave the call. -/
def searched (prompt : String) (callId : String) : ChatHistoryItem :=
  { id := ascii prompt
    prompt := ascii prompt
    replies := some [ascii "Found it."]
    functionCalls := some [{ id := some (ascii callId), name := some (ascii "search"), returnValue := some (ascii "two hits") }] }

theorem two_searches_accepted :
    Paired (convertedMessages none false [searched "first" "toolu_1", searched "second" "toolu_2"]) ∧
      (convertedMessages none false [searched "first" "toolu_1", searched "second" "toolu_2"]).flatMap IMessage.texts =
        ([searched "first" "toolu_1", searched "second" "toolu_2"].filter (! isStoppedBeforeReply ·)).flatMap (spoken false) ∧
      (useIds (convertedMessages none false [searched "first" "toolu_1", searched "second" "toolu_2"])).Nodup := by
  refine (replay_accepted_iff none false [searched "first" "toolu_1", searched "second" "toolu_2"] rfl ?_).mpr ?_
  · intro item member
    rcases List.mem_cons.mp member with rfl | member
    · rfl
    · rw [List.mem_singleton.mp member]
      rfl
  · refine List.pairwise_pair.mpr ?_
    rintro id ⟨⟨_, fc, member, held⟩, ⟨_, other, also, same⟩⟩
    cases List.mem_singleton.mp member
    cases List.mem_singleton.mp also
    have both : some (ascii "toolu_1") = some (ascii "toolu_2") := held.1.trans same.1.symm
    exact absurd both (by decide)

/-- A backend that numbers the calls of each response from zero gives two turns one id. -/
theorem second_turn_repeats_id : ¬ ∀ (model : Option Text) (includeReplyChoices : Bool) (chatHistoryItems : List ChatHistoryItem),
    disableToolReplay model = false → (∀ item ∈ chatHistoryItems, hasStructuredReplies item = false) →
    (useIds (convertedMessages model includeReplyChoices chatHistoryItems)).Nodup := by
  intro always
  have distinct := always none false [searched "first" "functions.search:0", searched "second" "functions.search:0"] rfl (by decide)
  exact absurd distinct (by decide +kernel)

end Bike4Mind.History
