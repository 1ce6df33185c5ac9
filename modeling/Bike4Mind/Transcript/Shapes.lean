import Bike4Mind.Transcript.Settled

/-! What repair does to one message: its arguments made sound, or a carrier cut down to some of its results. -/

namespace Bike4Mind.Transcript
open Collections

/-- A message of either wire shape: only assistants call tools, they carry no results of their own, and a
`tool` message with a call id holds its result as text. -/
structure Shaped (message : Message) : Prop where
  results : message.role = .assistant → resultIdsOf message = none
  blocks : message.role ≠ .assistant → ∀ block ∈ blocksOf message, block.type ≠ .toolUse
  calls : message.role ≠ .assistant → message.toolCalls = none
  text : message.role = .tool → message.toolCallId.isSome = true → blocksOf message = []

def fixedMessage (message : Message) : Message := ((withValidArguments message).map Prod.fst).getD message

section Fixed
variable {message : Message}

theorem fixedBlock_sound {block : ContentBlock} : (fixedBlock block).sound = true := by
  unfold fixedBlock
  split
  · assumption
  · simp [ContentBlock.sound, isPlainObject]

theorem fixedToolCall_sound {call : OpenAiToolCall} : (fixedToolCall call).sound = true := by
  unfold fixedToolCall
  split
  · assumption
  · show isJsonObjectString "{}" = true
    decide

theorem fixedBlock_of_sound {block : ContentBlock} (sound : block.sound = true) : fixedBlock block = block := if_pos sound

theorem fixedToolCall_of_sound {call : OpenAiToolCall} (sound : call.sound = true) : fixedToolCall call = call := if_pos sound

theorem fixedBlock_type {block : ContentBlock} : (fixedBlock block).type = block.type := by
  unfold fixedBlock
  split <;> rfl

theorem fixedBlock_id {block : ContentBlock} : (fixedBlock block).id = block.id := by
  unfold fixedBlock
  split <;> rfl

theorem fixedBlock_name {block : ContentBlock} : (fixedBlock block).name = block.name := by
  unfold fixedBlock
  split <;> rfl

theorem fixedBlock_toolUseId {block : ContentBlock} : (fixedBlock block).toolUseId = block.toolUseId := by
  unfold fixedBlock
  split <;> rfl

theorem fixedToolCall_id {call : OpenAiToolCall} : (fixedToolCall call).id = call.id := by
  unfold fixedToolCall
  split <;> rfl

theorem fixedToolCall_name {call : OpenAiToolCall} : (fixedToolCall call).name = call.name := by
  unfold fixedToolCall
  split <;> rfl

theorem withValidArguments_none : withValidArguments message = none ↔ message.role ≠ .assistant ∨ Sound message := by
  unfold withValidArguments
  split
  · rename_i other
    exact ⟨fun _ => Or.inl other, fun _ => rfl⟩
  · rename_i assistant
    dsimp only
    split
    · rename_i none_replaced
      refine ⟨fun _ => Or.inr ?_, fun _ => rfl⟩
      have blocks := List.countP_eq_zero.mp (Nat.eq_zero_of_add_eq_zero_right none_replaced)
      have calls := List.countP_eq_zero.mp (Nat.eq_zero_of_add_eq_zero_left none_replaced)
      exact ⟨fun block member => by simpa using blocks block member, fun call member => by simpa using calls call member⟩
    · rename_i replaced
      constructor
      · intro h
        cases h
      · rintro (other | sound)
        · exact (assistant other).elim
        · exfalso
          apply replaced
          rw [List.countP_eq_zero.mpr fun block member => by simp [sound.blocks block member],
            List.countP_eq_zero.mpr fun call member => by simp [sound.calls call member]]

theorem fixedMessage_assistant (assistant : message.role = .assistant) :
    (fixedMessage message).role = message.role ∧ (fixedMessage message).toolCallId = message.toolCallId ∧
      blocksOf (fixedMessage message) = (blocksOf message).map fixedBlock ∧
      (fixedMessage message).toolCalls.getD [] = (message.toolCalls.getD []).map fixedToolCall := by
  unfold fixedMessage
  cases fix : withValidArguments message with
  | none =>
    have sound := (withValidArguments_none.mp fix).resolve_left (not_not.mpr assistant)
    refine ⟨rfl, rfl, ?_, ?_⟩
    · exact (List.map_id' _).symm.trans (List.map_congr_left fun block member => (fixedBlock_of_sound (sound.blocks block member)).symm)
    · exact (List.map_id' _).symm.trans (List.map_congr_left fun call member => (fixedToolCall_of_sound (sound.calls call member)).symm)
  | some fixed =>
    unfold withValidArguments at fix
    rw [if_neg (not_not.mpr assistant)] at fix
    dsimp only at fix
    split at fix
    · cases fix
    · cases fix
      refine ⟨rfl, rfl, ?_, ?_⟩
      · show blocksOf { message with content := _ } = _
        split
        · rfl
        · rename_i empty
          have none_held : blocksOf message = [] := List.eq_nil_of_length_eq_zero (Nat.eq_zero_of_not_pos empty)
          show blocksOf message = _
          rw [none_held]
          rfl
      · show (message.toolCalls.map _).getD [] = _
        cases message.toolCalls <;> rfl

theorem fixedMessage_other (other : message.role ≠ .assistant) : fixedMessage message = message := by
  unfold fixedMessage
  rw [withValidArguments_none.mpr (Or.inl other)]
  rfl

theorem fixedMessage_toolCalls : toolCallsOf (fixedMessage message) = toolCallsOf message := by
  by_cases assistant : message.role = .assistant
  · obtain ⟨role, _, blocks, calls⟩ := fixedMessage_assistant assistant
    unfold toolCallsOf
    rw [role, blocks, calls, List.filterMap_map, List.filterMap_map]
    congr 2
    · apply List.filterMap_congr
      intro block _
      simp [fixedBlock_type, fixedBlock_id, fixedBlock_name]
    · apply List.filterMap_congr
      intro call _
      simp [fixedToolCall_id, fixedToolCall_name]
  · rw [fixedMessage_other assistant]

theorem mapM_toolUseId {blocks : List ContentBlock} :
    (blocks.map fixedBlock).mapM ContentBlock.toolUseId = blocks.mapM ContentBlock.toolUseId := by
  induction blocks with
  | nil => rfl
  | cons block rest ih =>
    rw [List.map_cons, List.mapM_cons, List.mapM_cons, fixedBlock_toolUseId, ih]

theorem fixedMessage_resultIds : resultIdsOf (fixedMessage message) = resultIdsOf message := by
  by_cases assistant : message.role = .assistant
  · obtain ⟨role, callId, blocks, _⟩ := fixedMessage_assistant assistant
    unfold resultIdsOf
    rw [role, callId, blocks]
    dsimp only
    rw [List.length_map, mapM_toolUseId]
    have types : ((blocksOf message).map fixedBlock).all (·.type = .toolResult) = (blocksOf message).all (·.type = .toolResult) := by
      rw [List.all_map]
      congr 1
      funext block
      simp [fixedBlock_type]
    rw [types]
  · rw [fixedMessage_other assistant]

theorem fixedMessage_sound (shaped : Shaped message) : Sound (fixedMessage message) := by
  by_cases assistant : message.role = .assistant
  · obtain ⟨_, _, blocks, calls⟩ := fixedMessage_assistant assistant
    constructor
    · rw [blocks]
      exact List.forall_mem_map.mpr fun block _ => fixedBlock_sound
    · rw [calls]
      exact List.forall_mem_map.mpr fun call _ => fixedToolCall_sound
  · rw [fixedMessage_other assistant]
    constructor
    · intro block member
      simp [ContentBlock.sound, shaped.blocks assistant block member]
    · rw [shaped.calls assistant]
      exact List.forall_mem_nil _

end Fixed

/-! ### Results and their content -/

inductive ResultContent where
  | message (content : Content)
  | block (block : ContentBlock)
  deriving DecidableEq

/-- The results a message holds, carrier or not, with what they say. -/
def resultsOf (message : Message) : List (String × ResultContent) :=
  if message.role = .tool ∧ message.toolCallId.isSome then message.toolCallId.toList.map fun id => (id, .message message.content)
  else (blocksOf message).filterMap fun block =>
    if block.type = .toolResult then block.toolUseId.map fun id => (id, .block block) else none

def results (messages : List Message) : List (String × ResultContent) := messages.flatMap resultsOf

theorem fixedMessage_results {message : Message} : resultsOf (fixedMessage message) = resultsOf message := by
  by_cases assistant : message.role = .assistant
  · obtain ⟨role, callId, blocks, _⟩ := fixedMessage_assistant assistant
    unfold resultsOf
    rw [role, callId, blocks, List.filterMap_map, if_neg (by simp [assistant]), if_neg (by simp [assistant])]
    apply List.filterMap_congr
    intro block _
    by_cases result : block.type = .toolResult
    · have sound : block.sound = true := by simp [ContentBlock.sound, result]
      simp [fixedBlock_of_sound sound]
    · simp [fixedBlock_type, result]
  · rw [fixedMessage_other assistant]

section Carriers

theorem mapM_eq_some {α β : Type} {f : α → Option β} {l : List α} {r : List β} : l.mapM f = some r ↔ l.map f = r.map some := by
  induction l generalizing r with
  | nil => cases r <;> simp
  | cons a l ih =>
    rw [List.mapM_cons]
    cases r with
    | nil =>
      cases f a with
      | none => simp
      | some b => cases l.mapM f <;> simp
    | cons b r =>
      cases first : f a with
      | none => simp [first]
      | some c =>
        rw [List.map_cons, List.map_cons, List.cons.injEq, first, ← ih]
        cases l.mapM f <;> simp

theorem resultIdsOf_some {message : Message} {ids : List String} (carries : resultIdsOf message = some ids) :
    (message.role = .tool ∧ message.toolCallId.isSome = true ∧ ids = message.toolCallId.toList) ∨
      (¬ (message.role = .tool ∧ message.toolCallId.isSome = true) ∧ blocksOf message ≠ [] ∧
        (∀ block ∈ blocksOf message, block.type = .toolResult) ∧ (blocksOf message).map ContentBlock.toolUseId = ids.map some) := by
  unfold resultIdsOf at carries
  split at carries
  · rename_i called
    cases carries
    exact Or.inl ⟨called.1, called.2, rfl⟩
  · rename_i uncalled
    dsimp only at carries
    split at carries
    · cases carries
    · rename_i pure
      obtain ⟨some_blocks, all_results⟩ := not_or.mp pure
      refine Or.inr ⟨uncalled, fun empty => some_blocks (by rw [empty]; rfl), ?_, mapM_eq_some.mp carries⟩
      simpa using all_results

theorem resultIdsOf_blocks {message : Message} {ids : List String} (uncalled : ¬ (message.role = .tool ∧ message.toolCallId.isSome = true))
    (held : blocksOf message ≠ []) (all : ∀ block ∈ blocksOf message, block.type = .toolResult)
    (carried : (blocksOf message).map ContentBlock.toolUseId = ids.map some) : resultIdsOf message = some ids := by
  unfold resultIdsOf
  rw [if_neg uncalled]
  dsimp only
  rw [if_neg]
  · exact mapM_eq_some.mpr carried
  · rintro (empty | mixed)
    · exact held (List.eq_nil_of_length_eq_zero empty)
    · have pure : (blocksOf message).all (·.type = .toolResult) = true := List.all_eq_true.mpr fun block member => by
        simpa using all block member
      rw [pure] at mixed
      cases mixed

theorem resultsOf_carrier {message : Message} {ids : List String} (carries : resultIdsOf message = some ids) :
    (resultsOf message).map Prod.fst = ids := by
  unfold resultsOf
  rcases resultIdsOf_some carries with ⟨tool, called, rfl⟩ | ⟨uncalled, _, all, carried⟩
  · rw [if_pos ⟨tool, called⟩, List.map_map]
    exact List.map_id' _
  · rw [if_neg uncalled]
    generalize blocksOf message = blocks at all carried
    clear carries
    induction blocks generalizing ids with
    | nil =>
      rw [List.map_nil] at carried
      rw [List.map_eq_nil_iff.mp carried.symm]
      rfl
    | cons block rest ih =>
      cases ids with
      | nil => cases carried
      | cons id ids =>
        obtain ⟨first, carried⟩ := List.cons.inj carried
        have result := all block List.mem_cons_self
        rw [List.filterMap_cons_some (by rw [if_pos result, first]; rfl), List.map_cons,
          ih (fun block member => all block (List.mem_cons_of_mem _ member)) carried]

variable {blocks : List ContentBlock} {ids : List String}

theorem takeResults_sublist : (takeResults blocks ids).Sublist blocks := by
  induction blocks generalizing ids with
  | nil => exact List.Sublist.refl _
  | cons block rest ih =>
    unfold takeResults
    split
    · split
      · exact ih.cons_cons block
      · exact ih.cons block
    · exact ih.cons block

/-- The ids that are kept: each once, and all that were there. -/
theorem takeResults_ids (distinct : ids.Nodup) :
    ((takeResults blocks ids).filterMap ContentBlock.toolUseId).Nodup ∧
      ∀ id, id ∈ (takeResults blocks ids).filterMap ContentBlock.toolUseId ↔
        id ∈ ids ∧ id ∈ blocks.filterMap ContentBlock.toolUseId := by
  induction blocks generalizing ids with
  | nil =>
    refine ⟨List.nodup_nil, fun id => ?_⟩
    simp [takeResults]
  | cons block rest ih =>
    unfold takeResults
    cases used : block.toolUseId with
    | none =>
      dsimp only
      rw [List.filterMap_cons_none used]
      exact ih distinct
    | some first =>
      dsimp only
      split
      · rename_i wanted
        obtain ⟨kept, exactly⟩ := ih (distinct.erase first)
        rw [List.filterMap_cons_some used, List.filterMap_cons_some used, List.nodup_cons]
        refine ⟨⟨fun again => ?_, kept⟩, fun id => ?_⟩
        · have left := ((exactly first).mp again).1
          exact (distinct.mem_erase_iff.mp left).1 rfl
        · rw [List.mem_cons, exactly, distinct.mem_erase_iff, List.mem_cons]
          by_cases same : id = first
          · subst same
            simp [wanted]
          · simp [same]
      · rename_i unwanted
        obtain ⟨kept, exactly⟩ := ih distinct
        rw [List.filterMap_cons_some used]
        refine ⟨kept, fun id => ?_⟩
        rw [exactly, List.mem_cons]
        constructor
        · rintro ⟨want, later⟩
          exact ⟨want, Or.inr later⟩
        · rintro ⟨want, same | later⟩
          · exact (unwanted (same ▸ want)).elim
          · exact ⟨want, later⟩

theorem takeResults_first (distinct : ids.Nodup) {id : String} (wanted : id ∈ ids) :
    (takeResults blocks ids).find? (·.toolUseId = some id) = blocks.find? (·.toolUseId = some id) := by
  induction blocks generalizing ids with
  | nil => rfl
  | cons block rest ih =>
    unfold takeResults
    cases used : block.toolUseId with
    | none =>
      dsimp only
      rw [List.find?_cons_of_neg (by simp [used])]
      exact ih distinct wanted
    | some first =>
      dsimp only
      by_cases same : first = id
      · subst same
        rw [if_pos wanted, List.find?_cons_of_pos (by simp [used]), List.find?_cons_of_pos (by simp [used])]
      · rw [List.find?_cons_of_neg (by simp [used, same])]
        split
        · rw [List.find?_cons_of_neg (by simp [used, same])]
          exact ih (distinct.erase first) (distinct.mem_erase_iff.mpr ⟨Ne.symm same, wanted⟩)
        · exact ih distinct wanted

variable {carrier : Message}

theorem withOnlyResults_blocks : blocksOf (withOnlyResults carrier ids) = takeResults (blocksOf carrier) ids ∧
    (withOnlyResults carrier ids).role = carrier.role ∧ (withOnlyResults carrier ids).toolCallId = carrier.toolCallId ∧
    (withOnlyResults carrier ids).toolCalls = carrier.toolCalls := by
  unfold withOnlyResults
  dsimp only
  split
  · rename_i whole
    exact ⟨(takeResults_sublist.eq_of_length whole).symm, rfl, rfl, rfl⟩
  · exact ⟨rfl, rfl, rfl, rfl⟩

theorem toolCallsOf_other {message : Message} (other : message.role ≠ .assistant) : toolCallsOf message = [] := if_pos other

theorem Shaped.carrier_role {message : Message} {ids : List String} (shaped : Shaped message)
    (carries : resultIdsOf message = some ids) : message.role ≠ .assistant := by
  intro assistant
  rw [shaped.results assistant] at carries
  cases carries

theorem Shaped.carrier_quiet {message : Message} {ids : List String} (shaped : Shaped message)
    (carries : resultIdsOf message = some ids) : toolCallsOf message = [] := toolCallsOf_other (shaped.carrier_role carries)

theorem carrier_ids_ne {message : Message} {ids : List String}
    (carries : resultIdsOf message = some ids) : ids ≠ [] := by
  rcases resultIdsOf_some carries with ⟨_, called, rfl⟩ | ⟨_, held, _, carried⟩
  · obtain ⟨id, here⟩ := Option.isSome_iff_exists.mp called
    rw [here]
    exact List.cons_ne_nil _ _
  · rintro rfl
    exact held (List.map_eq_nil_iff.mp carried)

theorem filterMap_toolUseId {carried : List String} (all : blocks.map ContentBlock.toolUseId = carried.map some) :
    blocks.filterMap ContentBlock.toolUseId = carried := by
  have through : (blocks.map ContentBlock.toolUseId).filterMap id = blocks.filterMap ContentBlock.toolUseId := by
    rw [List.filterMap_map]
    rfl
  rw [← through, all, List.filterMap_map]
  exact List.filterMap_some

/-- A carrier cut down to some of its ids is a carrier of just these. -/
theorem withOnlyResults_carries {carried : List String} (carries : resultIdsOf carrier = some carried)
    (distinct : ids.Nodup) (held : ∀ id ∈ ids, id ∈ carried) (wanted : ids ≠ []) :
    ∃ kept, resultIdsOf (withOnlyResults carrier ids) = some kept ∧ kept.Nodup ∧ ∀ id, id ∈ kept ↔ id ∈ ids := by
  obtain ⟨blocks, role, callId, _⟩ := @withOnlyResults_blocks ids carrier
  rcases resultIdsOf_some carries with ⟨tool, called, rfl⟩ | ⟨uncalled, some_blocks, all, given'⟩
  · refine ⟨carrier.toolCallId.toList, ?_, ?_, fun id => ⟨fun member => ?_, held id⟩⟩
    · unfold resultIdsOf
      rw [role, callId, if_pos ⟨tool, called⟩]
    · cases carrier.toolCallId <;> simp
    · obtain ⟨first, rest, rfl⟩ := List.exists_cons_of_ne_nil wanted
      have one := held first List.mem_cons_self
      obtain ⟨only, here⟩ := Option.isSome_iff_exists.mp called
      rw [here] at one member
      rw [List.mem_singleton.mp member, ← List.mem_singleton.mp one]
      exact List.mem_cons_self
  · obtain ⟨kept, exactly⟩ := @takeResults_ids (blocksOf carrier) ids distinct
    have ids_held := filterMap_toolUseId given'
    refine ⟨(takeResults (blocksOf carrier) ids).filterMap ContentBlock.toolUseId, ?_, kept, fun id => ?_⟩
    · apply resultIdsOf_blocks
      · rw [role, callId]
        exact uncalled
      · rw [blocks]
        intro empty
        obtain ⟨first, rest, rfl⟩ := List.exists_cons_of_ne_nil wanted
        have here := (exactly first).mpr ⟨List.mem_cons_self, ids_held.symm ▸ held first List.mem_cons_self⟩
        rw [empty] at here
        cases here
      · rw [blocks]
        exact fun block member => all block (takeResults_sublist.subset member)
      · rw [blocks]
        have named : ∀ block ∈ takeResults (blocksOf carrier) ids, block.toolUseId.isSome = true := by
          intro block member
          have listed : block.toolUseId ∈ carried.map some := given' ▸ List.mem_map_of_mem (takeResults_sublist.subset member)
          obtain ⟨id, _, same⟩ := List.mem_map.mp listed
          rw [← same]
          rfl
        generalize takeResults (blocksOf carrier) ids = some_blocks at named
        clear exactly kept blocks
        induction some_blocks with
        | nil => rfl
        | cons block rest ih =>
          obtain ⟨id, used⟩ := Option.isSome_iff_exists.mp (named block List.mem_cons_self)
          rw [List.filterMap_cons_some used, List.map_cons, List.map_cons, used,
            ih fun block member => named block (List.mem_cons_of_mem _ member)]
    · rw [exactly, ids_held]
      exact ⟨fun h => h.1, fun h => ⟨h, held id h⟩⟩

theorem find_block {id : String} (all : ∀ block ∈ blocks, block.type = .toolResult) :
    (blocks.filterMap fun block => if block.type = .toolResult then block.toolUseId.map fun id => (id, ResultContent.block block)
      else none).find? (·.1 = id) = (blocks.find? (·.toolUseId = some id)).map fun block => (id, .block block) := by
  induction blocks with
  | nil => rfl
  | cons block rest ih =>
    have result := all block List.mem_cons_self
    have later := ih fun block member => all block (List.mem_cons_of_mem _ member)
    cases used : block.toolUseId with
    | none =>
      rw [List.filterMap_cons_none (by rw [if_pos result, used]; rfl), List.find?_cons_of_neg (by simp [used])]
      exact later
    | some first =>
      rw [List.filterMap_cons_some (by rw [if_pos result, used]; rfl)]
      by_cases same : first = id
      · subst same
        rw [List.find?_cons_of_pos (by simp), List.find?_cons_of_pos (by simp [used])]
        rfl
      · rw [List.find?_cons_of_neg (by simp [same]), List.find?_cons_of_neg (by simp [used, same])]
        exact later

theorem withOnlyResults_first {carried : List String} {id : String} {content : ResultContent} (shaped : Shaped carrier)
    (carries : resultIdsOf carrier = some carried) (distinct : ids.Nodup) (wanted : id ∈ ids)
    (first : (resultsOf carrier).find? (·.1 = id) = some (id, content)) : (id, content) ∈ resultsOf (withOnlyResults carrier ids) := by
  obtain ⟨blocks, role, callId, _⟩ := @withOnlyResults_blocks ids carrier
  rcases resultIdsOf_some carries with ⟨tool, called, rfl⟩ | ⟨uncalled, _, all, _⟩
  · have whole : withOnlyResults carrier ids = carrier := by
      unfold withOnlyResults
      rw [shaped.text tool called]
      rfl
    rw [whole]
    exact List.mem_of_find?_eq_some first
  · unfold resultsOf at first ⊢
    rw [if_neg uncalled, find_block all] at first
    obtain ⟨block, located, same⟩ := Option.map_eq_some_iff.mp first
    cases same
    rw [role, callId, if_neg uncalled, blocks]
    rw [← takeResults_first distinct wanted] at located
    have member := List.mem_of_find?_eq_some located
    have used : block.toolUseId = some id := by simpa using List.find?_some located
    refine List.mem_filterMap.mpr ⟨block, member, ?_⟩
    rw [if_pos (all block (takeResults_sublist.subset member)), used]
    rfl

end Carriers
end Bike4Mind.Transcript
