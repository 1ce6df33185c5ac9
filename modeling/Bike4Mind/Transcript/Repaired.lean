import Bike4Mind.Transcript.Quiet

/-! What a transcript is after repair. -/

namespace Bike4Mind.Transcript
open Collections

/-! ### Messages that are not carriers -/

section Others
variable {messages : List Message} {message : Message}

def bare (message : Message) : Bool := (resultIdsOf message).isNone

/-- The ids a mixed message answers. -/
def mixedIds (message : Message) : List String :=
  (blocksOf message).filterMap fun block => if block.type = .toolResult then block.toolUseId else none

theorem mixedAnswers_bare : mixedAnswers messages = (messages.filter bare).flatMap mixedIds := by
  induction messages with
  | nil => rfl
  | cons message rest ih =>
    show (if (resultIdsOf message).isSome then [] else mixedIds message) ++ mixedAnswers rest = _
    rw [ih]
    cases carries : resultIdsOf message with
    | none =>
      rw [List.filter_cons_of_pos (by simp [bare, carries])]
      rfl
    | some ids =>
      rw [List.filter_cons_of_neg (by simp [bare, carries])]
      rfl

theorem callIds_bare (quiet : ∀ carrier ∈ messages, (resultIdsOf carrier).isSome = true → toolCallsOf carrier = []) :
    callIds messages = callIds (messages.filter bare) := by
  induction messages with
  | nil => rfl
  | cons message rest ih =>
    rw [callIds_cons, ih fun carrier member => quiet carrier (List.mem_cons_of_mem _ member)]
    cases carries : resultIdsOf message with
    | none => rw [List.filter_cons_of_pos (by simp [bare, carries]), callIds_cons]
    | some ids =>
      rw [List.filter_cons_of_neg (by simp [bare, carries]), quiet message List.mem_cons_self (by rw [carries]; rfl)]
      rfl

/-- A message's results are those it carries, or those mixed with its other content. -/
theorem resultsOf_ids : (resultsOf message).map Prod.fst = carriedIds message ∨
    resultIdsOf message = none ∧ (resultsOf message).map Prod.fst = mixedIds message := by
  cases carries : resultIdsOf message with
  | some ids => exact Or.inl ((resultsOf_carrier carries).trans (carriedIds_some carries).symm)
  | none =>
    refine Or.inr ⟨rfl, ?_⟩
    have uncalled : ¬ (message.role = .tool ∧ message.toolCallId.isSome = true) := by
      intro called
      unfold resultIdsOf at carries
      rw [if_pos called] at carries
      cases carries
    unfold resultsOf mixedIds
    rw [if_neg uncalled, List.map_filterMap]
    apply List.filterMap_congr
    intro block _
    split
    · cases block.toolUseId <;> rfl
    · rfl

theorem mem_mixedAnswers (member : message ∈ messages) (holds : resultIdsOf message = none) {id : String}
    (mixed : id ∈ mixedIds message) : id ∈ mixedAnswers messages := by
  rw [mixedAnswers_bare]
  exact List.mem_flatMap.mpr ⟨message, List.mem_filter.mpr ⟨member, by simp [bare, holds]⟩, mixed⟩

theorem results_count {id : String} (unmixed : id ∉ mixedAnswers messages) :
    ((results messages).map Prod.fst).count id = (carriedAll messages).count id := by
  induction messages with
  | nil => rfl
  | cons message rest ih =>
    have later : id ∉ mixedAnswers rest := fun mixed => unmixed (List.mem_append_right _ mixed)
    rw [carriedAll_cons]
    show ((resultsOf message ++ results rest).map Prod.fst).count id = _
    rw [List.map_append, List.count_append, List.count_append, ih later]
    congr 1
    rcases @resultsOf_ids message with same | ⟨holds, mixed⟩
    · rw [same]
    · have absent : id ∉ mixedIds message := fun here => unmixed (mem_mixedAnswers List.mem_cons_self holds here)
      rw [mixed, carriedIds_none holds, List.count_eq_zero.mpr absent]
      rfl

end Others

/-! ### The shapes of the output -/

section Shapes

theorem fixedMessage_shaped {message : Message} (shaped : Shaped message) : Shaped (fixedMessage message) := by
  by_cases assistant : message.role = .assistant
  · obtain ⟨role, _, _, _⟩ := fixedMessage_assistant assistant
    have kept : (fixedMessage message).role = .assistant := role.trans assistant
    constructor
    · intro _
      rw [fixedMessage_resultIds]
      exact shaped.results assistant
    · exact fun other => absurd kept other
    · exact fun other => absurd kept other
    · intro tool
      rw [kept] at tool
      cases tool
  · rw [fixedMessage_other assistant]
    exact shaped

theorem withOnlyResults_shaped {carrier : Message} {ids carried : List String} (shaped : Shaped carrier)
    (carries : resultIdsOf carrier = some carried) : Shaped (withOnlyResults carrier ids) := by
  obtain ⟨blocks, role, callId, calls⟩ := @withOnlyResults_blocks ids carrier
  have other := shaped.carrier_role carries
  constructor
  · intro assistant
    rw [role] at assistant
    exact (other assistant).elim
  · intro _ block member
    rw [blocks] at member
    exact shaped.blocks other block (takeResults_sublist.subset member)
  · intro _
    rw [calls]
    exact shaped.calls other
  · intro tool called
    rw [role] at tool
    rw [callId] at called
    rw [blocks, shaped.text tool called]
    rfl

variable {messages rest : List Message} {buildResult : ToolResultBuilder} {calls remaining : List TranscriptToolCall}
variable {call : TranscriptToolCall} {message : Message} {expected index : Nat} {s : Repairing}
variable (builds : Builds buildResult) (shaped : ∀ message ∈ messages, Shaped message)
include builds shaped

theorem placeResult_shaped (before : ∀ message ∈ s.repaired, Shaped message) :
    ∀ message ∈ (placeResult messages buildResult (ownerByResultId messages) calls call expected s).1.repaired, Shaped message := by
  unfold placeResult
  split
  · exact before
  · cases owned : (ownerByResultId messages).get? call.id with
    | none =>
      obtain ⟨carrier, built, _, shape⟩ := builds call MISSING_TOOL_RESULT
      dsimp only
      rw [built, if_neg (by simp)]
      intro message member
      rcases List.mem_append.mp member with old | new
      · exact before message old
      · rw [List.mem_singleton.mp new]
        exact shape
    | some found =>
      obtain ⟨_, carrier, _, here, carries, _, _⟩ := owner_some owned
      dsimp only
      rw [here]
      intro message member
      rcases List.mem_append.mp member with old | new
      · exact before message old
      · rw [List.mem_singleton.mp new]
        exact withOnlyResults_shaped (shaped carrier (List.mem_of_getElem? here)) carries

theorem placeResults_shaped (before : ∀ message ∈ s.repaired, Shaped message) :
    ∀ message ∈ (placeResults messages buildResult (ownerByResultId messages) calls remaining expected s).repaired,
      Shaped message := by
  induction remaining generalizing expected s with
  | nil => exact before
  | cons call rest ih => exact ih (placeResult_shaped builds shaped before)

theorem repairMessages_shaped (inside : ∀ message ∈ rest, message ∈ messages) (before : ∀ message ∈ s.repaired, Shaped message) :
    ∀ message ∈ (repairMessages messages buildResult (ownerByResultId messages) rest index s).repaired, Shaped message := by
  induction rest generalizing index s with
  | nil => exact before
  | cons message rest ih =>
    refine ih (fun m member => inside m (List.mem_cons_of_mem _ member)) ?_
    unfold repairMessage
    split
    · exact before
    · apply placeResults_shaped builds shaped
      intro other member
      rcases List.mem_append.mp member with old | new
      · exact before other old
      · rw [List.mem_singleton.mp new]
        exact fixedMessage_shaped (shaped message (inside message List.mem_cons_self))

theorem rebuilt_shaped : ∀ message ∈ (rebuilt messages buildResult).repaired, Shaped message :=
  repairMessages_shaped builds shaped (fun _ member => member) (List.forall_mem_nil _)

end Shapes

theorem Shaped.carrier_sound {message : Message} {ids : List String} (shaped : Shaped message)
    (carries : resultIdsOf message = some ids) : Sound message := by
  have other := shaped.carrier_role carries
  constructor
  · intro block member
    simp [ContentBlock.sound, shaped.blocks other block member]
  · rw [shaped.calls other]
    exact List.forall_mem_nil _

/-! ### The transcript afterwards -/

/-- `output` is `messages` repaired. -/
structure Repaired (messages output : List Message) : Prop where
  answered : ∀ id ∈ callIds messages, id ∉ mixedAnswers messages →
    AnsweredBehind output id ∧ ((results output).map Prod.fst).count id = 1
  called : ∀ id ∈ carriedAll output, id ∈ callIds output
  sound : ∀ message ∈ output, Sound message
  others : output.filter bare = (messages.filter bare).map fixedMessage
  first : ∀ before id content after, results messages = before ++ (id, content) :: after → id ∈ callIds messages →
    id ∉ before.map Prod.fst → id ∉ mixedAnswers messages → (id, content) ∈ results output
  mixed : ∀ message ∈ messages, bare message = true → ∀ result ∈ resultsOf message, result ∈ results output

section Repaired
variable {messages : List Message} {buildResult : ToolResultBuilder}

/-- The first result of an answerable call is the first one in the carrier that owns it. -/
theorem first_owned {before after : List (String × ResultContent)} {id : String} {content : ResultContent}
    (split : results messages = before ++ (id, content) :: after) (answerable : Answerable messages id)
    (first : id ∉ before.map Prod.fst) :
    ∃ index carrier, (ownerByResultId messages).get? id = some index ∧ messages[index]? = some carrier ∧
      (resultsOf carrier).find? (·.1 = id) = some (id, content) := by
  have found : (results messages).find? (·.1 = id) = some (id, content) := by
    rw [split, List.find?_append, List.find?_eq_none.mpr fun result member => ?_, Option.none_or, List.find?_cons_of_pos (by simp)]
    intro same
    have same : result.1 = id := by simpa using same
    exact first (same ▸ List.mem_map_of_mem member)
  have carried : ∀ message ∈ messages, id ∉ carriedIds message → (resultsOf message).find? (·.1 = id) = none := by
    intro message member absent
    refine List.find?_eq_none.mpr fun result listed same => ?_
    have same : result.1 = id := by simpa using same
    have listed : id ∈ (resultsOf message).map Prod.fst := same ▸ List.mem_map_of_mem listed
    rcases @resultsOf_ids message with ids | ⟨holds, ids⟩
    · exact absent (ids ▸ listed)
    · exact answerable.2 (mem_mixedAnswers member holds (ids ▸ listed))
  have nowhere : ∀ l : List Message, (∀ message ∈ l, message ∈ messages) → (∀ message ∈ l, id ∉ carriedIds message) →
      (results l).find? (·.1 = id) = none := by
    intro l inside absent
    refine List.find?_eq_none.mpr fun result member => ?_
    obtain ⟨message, listed, holds⟩ := List.mem_flatMap.mp member
    exact List.find?_eq_none.mp (carried message (inside message listed) (absent message listed)) result holds
  cases owned : (ownerByResultId messages).get? id with
  | none =>
    have absent := owner_none answerable owned
    rw [nowhere messages (fun _ member => member) fun message member here =>
      absent (List.mem_flatMap.mpr ⟨message, member, here⟩)] at found
    cases found
  | some index =>
    obtain ⟨_, carrier, ids, here, carries, holds, earlier⟩ := owner_some owned
    refine ⟨index, carrier, rfl, here, ?_⟩
    obtain ⟨inside, at_index⟩ := List.getElem?_eq_some_iff.mp here
    have parts : messages = messages.take index ++ carrier :: messages.drop (index + 1) := by
      rw [← at_index, List.cons_getElem_drop_succ, List.take_append_drop]
    have skipped : (results (messages.take index)).find? (·.1 = id) = none := by
      refine nowhere _ (fun _ member => List.mem_of_mem_take member) fun message member => ?_
      obtain ⟨k, low, rfl⟩ := List.mem_take_iff_getElem.mp member
      have low := Nat.lt_of_lt_of_le low (Nat.min_le_left _ _)
      exact earlier k low _ (List.getElem?_eq_getElem _)
    rw [parts] at found
    unfold results at found skipped
    rw [List.flatMap_append, List.find?_append, skipped, Option.none_or, List.flatMap_cons, List.find?_append] at found
    cases located : (resultsOf carrier).find? (·.1 = id) with
    | some result =>
      rw [located] at found
      exact found
    | none =>
      rw [← resultsOf_carrier carries] at holds
      obtain ⟨result, member, same⟩ := List.mem_map.mp holds
      have apart := List.find?_eq_none.mp located result member
      simp [same] at apart

theorem Settled.quiet {A A' : Finset String} (settled : Settled A messages A') :
    ∀ message ∈ messages, (resultIdsOf message).isSome = true → toolCallsOf message = [] := by
  induction settled with
  | nil => exact List.forall_mem_nil _
  | group holds sound ordered later ih =>
    intro message member carries
    rcases List.mem_append.mp member with first | after
    · rcases List.mem_cons.mp first with rfl | carrier
      · rw [holds] at carries
        cases carries
      · exact ordered.quiet message carrier
    · exact ih message after carries

variable (builds : Builds buildResult) (shaped : ∀ message ∈ messages, Shaped message)
include builds shaped

theorem repairTranscript_rebuilt :
    repairTranscript messages buildResult = ((rebuilt messages buildResult).repaired, (rebuilt messages buildResult).report) := by
  show (if isRepaired (rebuilt messages buildResult).report then _ else _) = _
  split
  · rfl
  · rename_i untouched
    have quiet : (rebuilt messages buildResult).report.total = 0 := by
      by_contra some_repair
      exact untouched (decide_eq_true (Nat.pos_of_ne_zero some_repair))
    rw [rebuilt_quiet builds shaped quiet]
    rfl

theorem rebuilt_mixed : mixedAnswers (rebuilt messages buildResult).repaired = mixedAnswers messages := by
  have others := (rebuilt_progress builds shaped).others
  rw [mixedAnswers_bare, mixedAnswers_bare]
  show ((rebuilt messages buildResult).repaired.filter fun message => (resultIdsOf message).isNone).flatMap mixedIds = _
  rw [others, List.flatMap_map]
  apply List.flatMap_congr
  intro message member
  have holds : resultIdsOf message = none := Option.isNone_iff_eq_none.mp (List.mem_filter.mp member).2
  have fixed : resultIdsOf (fixedMessage message) = none := fixedMessage_resultIds.trans holds
  unfold mixedIds
  by_cases assistant : message.role = .assistant
  · rw [(fixedMessage_assistant assistant).2.2.1, List.filterMap_map]
    apply List.filterMap_congr
    intro block _
    show (if (fixedBlock block).type = .toolResult then (fixedBlock block).toolUseId else none) = _
    rw [fixedBlock_type, fixedBlock_toolUseId]
  · rw [fixedMessage_other assistant]

theorem rebuilt_callIds : callIds (rebuilt messages buildResult).repaired = callIds messages := by
  have progress := rebuilt_progress builds shaped
  rw [callIds_bare progress.settled.quiet, @callIds_bare messages]
  · show callIds ((rebuilt messages buildResult).repaired.filter fun message => (resultIdsOf message).isNone) = _
    rw [progress.others]
    unfold callIds
    rw [List.flatMap_map]
    apply List.flatMap_congr
    intro message _
    rw [fixedMessage_toolCalls]
  · intro carrier member carries
    obtain ⟨ids, carries⟩ := Option.isSome_iff_exists.mp carries
    exact (shaped carrier member).carrier_quiet carries

theorem rebuilt_repaired : Repaired messages (rebuilt messages buildResult).repaired := by
  have progress := rebuilt_progress builds shaped
  have mixed := rebuilt_mixed builds shaped
  have calls := rebuilt_callIds builds shaped
  have carried : ∀ id ∈ callIds messages, id ∉ mixedAnswers messages → id ∈ carriedAll (rebuilt messages buildResult).repaired := by
    intro id called unmixed
    have answered := List.mem_toFinset.mpr ((progress.answered id).mpr (Or.inr called))
    rw [progress.settled.carried, Finset.mem_union, List.mem_toFinset, List.mem_toFinset] at answered
    exact answered.resolve_left unmixed
  constructor
  · intro id called unmixed
    constructor
    · apply progress.settled.answered (calls ▸ called)
      rw [List.mem_toFinset]
      exact unmixed
    · rw [results_count (mixed ▸ unmixed)]
      exact List.count_eq_one_of_mem progress.settled.nodup (carried id called unmixed)
  · exact progress.settled.own
  · intro message member
    cases carries : resultIdsOf message with
    | none => exact progress.settled.sound message member carries
    | some ids => exact (rebuilt_shaped builds shaped message member).carrier_sound carries
  · exact progress.others
  · intro before id content after split called first unmixed
    obtain ⟨index, carrier, owned, here, found⟩ := first_owned split ⟨called, unmixed⟩ first
    exact progress.kept id (carried id called unmixed) index carrier content owned here found
  · intro message member holds result listed
    have kept : fixedMessage message ∈ (rebuilt messages buildResult).repaired.filter fun message => (resultIdsOf message).isNone := by
      rw [progress.others]
      exact List.mem_map_of_mem (List.mem_filter.mpr ⟨member, holds⟩)
    exact List.mem_flatMap.mpr ⟨fixedMessage message, (List.mem_filter.mp kept).1, fixedMessage_results.symm ▸ listed⟩

theorem rebuilt_settled : Settled (mixedAnswers (rebuilt messages buildResult).repaired).toFinset
    (rebuilt messages buildResult).repaired (rebuilt messages buildResult).answered.toFinset := by
  rw [rebuilt_mixed builds shaped]
  exact (rebuilt_progress builds shaped).settled

/-- One repair makes a transcript valid, a second finds nothing to do, and the first finds nothing exactly where each
message is already followed by its results in the order of its calls. -/
theorem transcript_repaired :
    Repaired messages (repairTranscript messages buildResult).1 ∧
      (∀ again, repairTranscript (repairTranscript messages buildResult).1 again = ((repairTranscript messages buildResult).1, {})) ∧
      ((repairTranscript messages buildResult).2 = {} ↔ ∃ A, Settled (mixedAnswers messages).toFinset messages A) ∧
      ((repairTranscript messages buildResult).2 = {} → (repairTranscript messages buildResult).1 = messages) := by
  have same := repairTranscript_rebuilt builds shaped
  have unchanged : (rebuilt messages buildResult).report = {} → (rebuilt messages buildResult).repaired = messages := by
    intro quiet
    apply rebuilt_quiet builds shaped
    rw [quiet]
    rfl
  refine ⟨?_, ?_, ⟨?_, ?_⟩, ?_⟩
  · rw [same]
    exact rebuilt_repaired builds shaped
  · intro again
    rw [same]
    exact settled_untouched (rebuilt_settled builds shaped)
  · rw [same]
    intro quiet
    have settled := rebuilt_settled builds shaped
    rw [unchanged quiet] at settled
    exact ⟨_, settled⟩
  · rintro ⟨A, settled⟩
    rw [settled_untouched settled]
  · rw [same]
    exact unchanged

end Repaired

def toolCall (id : String) : ContentBlock := { type := .toolUse, id := some id, name := some "search", input := .object "" }

def toolResult (id said : String) : ContentBlock := { type := .toolResult, toolUseId := some id, rest := said }

def calling (ids : List String) : Message := { role := .assistant, content := .blocks (ids.map toolCall) }

def answering (blocks : List ContentBlock) : Message := { role := .user, content := .blocks blocks }

/-- The result message of an OpenAI-style backend. -/
def toolMessage (call : TranscriptToolCall) (observation : String) : List Message :=
  [{ role := .tool, content := .text observation, toolCallId := some call.id }]

theorem toolMessage_builds : Builds toolMessage := by
  intro call observation
  refine ⟨_, rfl, rfl, ?_⟩
  constructor
  · intro assistant
    cases assistant
  · exact fun _ => List.forall_mem_nil _
  · exact fun _ => rfl
  · exact fun _ _ => rfl

theorem calling_shaped {ids : List String} : Shaped (calling ids) := by
  constructor
  · intro _
    unfold resultIdsOf
    rw [if_neg (by simp [calling])]
    cases ids with
    | nil => rfl
    | cons id rest =>
      exact if_pos (Or.inr (by simp [calling, blocksOf, toolCall]))
  · exact fun other => absurd rfl other
  · exact fun other => absurd rfl other
  · intro tool
    cases tool

theorem answering_shaped {blocks : List ContentBlock} (results : ∀ block ∈ blocks, block.type ≠ .toolUse) :
    Shaped (answering blocks) := by
  constructor
  · intro assistant
    cases assistant
  · exact fun _ => results
  · exact fun _ => rfl
  · intro tool
    cases tool

/-- The results of two calls come in early and in one carrier. -/
def early : List Message := [answering [toolResult "b" "2", toolResult "a" "1"], calling ["a"], calling ["b", "c"]]

theorem early_shaped : ∀ message ∈ early, Shaped message := by
  refine List.forall_mem_cons.mpr ⟨answering_shaped (by decide), ?_⟩
  exact List.forall_mem_cons.mpr ⟨calling_shaped, List.forall_mem_cons.mpr ⟨calling_shaped, List.forall_mem_nil _⟩⟩

theorem early_repaired : Repaired early (repairTranscript early toolMessage).1 ∧
    (∀ again, repairTranscript (repairTranscript early toolMessage).1 again = ((repairTranscript early toolMessage).1, {})) ∧
    ((repairTranscript early toolMessage).2 = {} ↔ ∃ A, Settled (mixedAnswers early).toFinset early A) ∧
    ((repairTranscript early toolMessage).2 = {} → (repairTranscript early toolMessage).1 = early) :=
  transcript_repaired toolMessage_builds early_shaped

/-- A pure result, and behind it another one for the same call in a message with other content. -/
def answeredTwice : List Message :=
  [calling ["a"], answering [toolResult "a" "first"], answering [toolResult "a" "second", { type := .text, rest := "and now?" }]]

/-- Both calls are answered right behind their message, in the other order. -/
def crossed : List Message := [calling ["a", "b"], answering [toolResult "b" "2"], answering [toolResult "a" "1"]]

/-- The first result of a call is dropped for one in a mixed message, and crossed results are put in order. -/
theorem first_result_dropped :
    ¬ (∀ (messages : List Message) (buildResult : ToolResultBuilder), Builds buildResult → (∀ message ∈ messages, Shaped message) →
      ∀ before id content after, results messages = before ++ (id, content) :: after → id ∈ callIds messages →
        id ∉ before.map Prod.fst → (id, content) ∈ results (repairTranscript messages buildResult).1) ∧
      Repaired crossed crossed ∧ (repairTranscript crossed toolMessage).2.movedResults = 1 := by
  refine ⟨fun survives => ?_, ?_, by decide⟩
  · have shaped : ∀ message ∈ answeredTwice, Shaped message := by
      refine List.forall_mem_cons.mpr ⟨calling_shaped, ?_⟩
      exact List.forall_mem_cons.mpr ⟨answering_shaped (by decide),
        List.forall_mem_cons.mpr ⟨answering_shaped (by decide), List.forall_mem_nil _⟩⟩
    have kept := survives answeredTwice toolMessage toolMessage_builds shaped [] "a" (.block (toolResult "a" "first"))
      [("a", .block (toolResult "a" "second"))] (by decide) (by decide) (by decide)
    revert kept
    decide
  · have run : ∀ carrier ∈ [answering [toolResult "b" "2"], answering [toolResult "a" "1"]], (resultIdsOf carrier).isSome = true := by
      decide
    constructor
    · intro id called _
      have one : id = "a" ∨ id = "b" := by simpa [crossed, callIds, toolCallsOf, calling, blocksOf, toolCall, identified, answering] using called
      rcases one with rfl | rfl
      · exact ⟨⟨[], _, _, [], rfl, by decide, by decide, run, by decide⟩, by decide⟩
      · exact ⟨⟨[], _, _, [], rfl, by decide, by decide, run, by decide⟩, by decide⟩
    · decide
    · intro message member
      exact ⟨by revert message; decide, by revert message; decide⟩
    · decide
    · intro before id content after split _ _ _
      rw [split]
      exact List.mem_append_right _ List.mem_cons_self
    · intro message member _ result listed
      exact List.mem_flatMap.mpr ⟨message, member, listed⟩

end Bike4Mind.Transcript
