import Bike4Mind.Transcript.Shapes

/-! One pass of `repairTranscript` builds a settled transcript from the messages and the first result of every call. -/

namespace Bike4Mind.Transcript
open Collections

/-! ### Owners -/

/-- The call is in the transcript and no mixed message answers it. -/
def Answerable (messages : List Message) (id : String) : Prop := id ∈ callIds messages ∧ id ∉ mixedAnswers messages

instance (messages : List Message) (id : String) : Decidable (Answerable messages id) :=
  inferInstanceAs (Decidable (_ ∧ _))

section Owners
variable {messages : List Message} {id : String} {index : Nat}

theorem claimResult_get {owners : OrderedMap String Nat} {claimed : String} :
    (claimResult messages index owners claimed).get? id =
      (owners.get? id).or (if id = claimed ∧ Answerable messages id then some index else none) := by
  unfold claimResult
  by_cases same : id = claimed
  · subst same
    by_cases claims : id ∈ callIds messages ∧ id ∉ mixedAnswers messages ∧ (owners.get? id).isNone = true
    · rw [if_pos claims, OrderedMap.get?_set_self, Option.isNone_iff_eq_none.mp claims.2.2, if_pos ⟨rfl, claims.1, claims.2.1⟩]
      rfl
    · rw [if_neg claims]
      cases owned : owners.get? id with
      | some other => rfl
      | none =>
        rw [if_neg fun h => claims ⟨h.2.1, h.2.2, by rw [owned]; rfl⟩]
        rfl
  · rw [if_neg (show ¬ (id = claimed ∧ Answerable messages id) from fun h => same h.1), Option.or_none]
    split
    · exact OrderedMap.get?_set_other same
    · rfl

theorem claimResults_get {ids : List String} {owners : OrderedMap String Nat} :
    (ids.foldl (claimResult messages index) owners).get? id =
      (owners.get? id).or (if id ∈ ids ∧ Answerable messages id then some index else none) := by
  induction ids generalizing owners with
  | nil => simp
  | cons first rest ih =>
    rw [List.foldl_cons, ih, claimResult_get, Option.or_assoc]
    congr 1
    by_cases answerable : Answerable messages id
    · by_cases same : id = first
      · subst same
        simp [answerable]
      · simp [answerable, same]
    · simp [answerable]

theorem owners_get {l : List Message} {start : Nat} {owners : OrderedMap String Nat} :
    ((l.zipIdx start).foldl (claimResults messages) owners).get? id =
      (owners.get? id).or (if Answerable messages id then
        (l.findIdx? fun message => id ∈ carriedIds message).map (· + start) else none) := by
  induction l generalizing start owners with
  | nil => simp
  | cons message rest ih =>
    rw [List.zipIdx_cons, List.foldl_cons, ih]
    unfold claimResults
    rw [claimResults_get, Option.or_assoc]
    congr 1
    by_cases answerable : Answerable messages id
    · rw [if_pos answerable, if_pos answerable, List.findIdx?_cons]
      by_cases here : id ∈ carriedIds message
      · rw [if_pos ⟨here, answerable⟩, if_pos (by simpa using here)]
        simp
      · rw [if_neg fun h => here h.1, if_neg (by simpa using here), Option.map_map]
        simp only [Option.none_or]
        congr 1
        funext n
        simp only [Function.comp]
        omega
    · simp [answerable]

theorem owner_get : (ownerByResultId messages).get? id =
    if Answerable messages id then messages.findIdx? fun message => id ∈ carriedIds message else none := by
  unfold ownerByResultId
  rw [owners_get]
  simp

theorem owner_some (owned : (ownerByResultId messages).get? id = some index) :
    Answerable messages id ∧ ∃ carrier ids, messages[index]? = some carrier ∧ resultIdsOf carrier = some ids ∧ id ∈ ids ∧
      ∀ k < index, ∀ earlier, messages[k]? = some earlier → id ∉ carriedIds earlier := by
  rw [owner_get] at owned
  split at owned
  · rename_i answerable
    refine ⟨answerable, ?_⟩
    obtain ⟨inside, holds, first⟩ := List.findIdx?_eq_some_iff_getElem.mp owned
    have holds : id ∈ carriedIds messages[index] := by simpa using holds
    cases carries : resultIdsOf messages[index] with
    | none =>
      rw [carriedIds_none carries] at holds
      cases holds
    | some ids =>
      rw [carriedIds_some carries] at holds
      refine ⟨messages[index], ids, List.getElem?_eq_getElem inside, carries, holds, fun k before earlier there => ?_⟩
      obtain ⟨_, rfl⟩ := List.getElem?_eq_some_iff.mp there
      simpa using first k before
  · cases owned

theorem owner_none (answerable : Answerable messages id) (unowned : (ownerByResultId messages).get? id = none) :
    id ∉ carriedAll messages := by
  rw [owner_get, if_pos answerable] at unowned
  intro carried
  obtain ⟨message, member, holds⟩ := List.mem_flatMap.mp carried
  have nowhere := List.findIdx?_eq_none_iff.mp unowned message member
  simp [holds] at nowhere

end Owners

/-! ### One call -/

/-- The builder answers a call with one carrier of its own. -/
def Builds (buildResult : ToolResultBuilder) : Prop :=
  ∀ call observation, ∃ message, buildResult call observation = [message] ∧ resultIdsOf message = some [call.id] ∧ Shaped message

/-- The first result of `id` in the carrier that owns it is in the output. -/
def Kept (messages : List Message) (output : List Message) (id : String) : Prop :=
  ∀ index carrier content, (ownerByResultId messages).get? id = some index → messages[index]? = some carrier →
    (resultsOf carrier).find? (·.1 = id) = some (id, content) → (id, content) ∈ results output

theorem Kept.mono {messages first last : List Message} {id : String} (h : Kept messages first id) : Kept messages (first ++ last) id := by
  intro index carrier content owned here found
  unfold results
  rw [List.flatMap_append]
  exact List.mem_append_left _ (h index carrier content owned here found)

section Calls
variable {messages : List Message} {buildResult : ToolResultBuilder} {calls : List TranscriptToolCall} {call : TranscriptToolCall}
variable {expected : Nat} {s : Repairing}

theorem idsFrom_nodup {owner : OrderedMap String Nat} {answered : List String} {index : Nat} :
    (idsFrom owner calls answered index).Nodup := distinct_nodup.filter _

theorem mem_idsFrom {owner : OrderedMap String Nat} {answered : List String} {index : Nat} {id : String} :
    id ∈ idsFrom owner calls answered index ↔ (∃ c ∈ calls, c.id = id) ∧ id ∉ answered ∧ owner.get? id = some index := by
  unfold idsFrom
  rw [List.mem_filter, mem_distinct, List.mem_map]
  simp

/-- An unanswered call adds one carrier, which answers it and other open calls of the same message. -/
theorem placeResult_open (builds : Builds buildResult) (shaped : ∀ message ∈ messages, Shaped message) (member : call ∈ calls)
    (unanswered : call.id ∉ s.answered) :
    ∃ carrier ids, (placeResult messages buildResult (ownerByResultId messages) calls call expected s).1.repaired =
        s.repaired ++ [carrier] ∧
      resultIdsOf carrier = some ids ∧ ids.Nodup ∧ call.id ∈ ids ∧ (∀ id ∈ ids, id ∉ s.answered) ∧
      (∀ id ∈ ids, ∃ c ∈ calls, c.id = id) ∧ toolCallsOf carrier = [] ∧
      (∀ id, id ∈ (placeResult messages buildResult (ownerByResultId messages) calls call expected s).1.answered ↔
        id ∈ s.answered ∨ id ∈ ids) ∧ ∀ id ∈ ids, Kept messages [carrier] id := by
  unfold placeResult
  rw [if_neg unanswered]
  cases owned : (ownerByResultId messages).get? call.id with
  | none =>
    obtain ⟨carrier, built, carries, shape⟩ := builds call MISSING_TOOL_RESULT
    dsimp only
    rw [built, if_neg (by simp)]
    refine ⟨carrier, [call.id], rfl, carries, List.nodup_singleton _, List.mem_singleton.mpr rfl, ?_, ?_,
      shape.carrier_quiet carries, fun id => List.mem_append, ?_⟩
    · exact fun id same => List.mem_singleton.mp same ▸ unanswered
    · exact fun id same => ⟨call, member, (List.mem_singleton.mp same).symm⟩
    · intro id same index carrier content owned'
      rw [List.mem_singleton.mp same, owned] at owned'
      cases owned'
  | some index =>
    obtain ⟨_, carrier, carried, here, carries, holds, _⟩ := owner_some owned
    have inside : carrier ∈ messages := List.mem_of_getElem? here
    have wanted : call.id ∈ idsFrom (ownerByResultId messages) calls s.answered index :=
      mem_idsFrom.mpr ⟨⟨call, member, rfl⟩, unanswered, owned⟩
    have held : ∀ id ∈ idsFrom (ownerByResultId messages) calls s.answered index, id ∈ carried := by
      intro id listed
      obtain ⟨_, carrier', carried', here', carries', holds', _⟩ := owner_some (mem_idsFrom.mp listed).2.2
      cases here.symm.trans here'
      cases carries.symm.trans carries'
      exact holds'
    obtain ⟨kept, carries', distinct, exactly⟩ :=
      withOnlyResults_carries carries idsFrom_nodup held (List.ne_nil_of_mem wanted)
    have role := (shaped carrier inside).carrier_role carries
    dsimp only
    rw [here]
    refine ⟨withOnlyResults carrier (idsFrom (ownerByResultId messages) calls s.answered index), kept, rfl, carries', distinct,
      (exactly call.id).mpr wanted, ?_, ?_, ?_, ?_, ?_⟩
    · exact fun id listed => (mem_idsFrom.mp ((exactly id).mp listed)).2.1
    · exact fun id listed => (mem_idsFrom.mp ((exactly id).mp listed)).1
    · apply toolCallsOf_other
      rw [withOnlyResults_blocks.2.1]
      exact role
    · intro id
      rw [List.mem_append, exactly]
    · intro id listed index' carrier' content owned' here' found
      have listed := (exactly id).mp listed
      cases (mem_idsFrom.mp listed).2.2.symm.trans owned'
      cases here.symm.trans here'
      unfold results
      rw [List.flatMap_singleton]
      exact withOnlyResults_first (shaped carrier inside) carries idsFrom_nodup listed found

theorem placeResults_ordered (builds : Builds buildResult) (shaped : ∀ message ∈ messages, Shaped message)
    {rest : List TranscriptToolCall} (inside : ∀ call ∈ rest, call ∈ calls) :
    ∃ carriers, (placeResults messages buildResult (ownerByResultId messages) calls rest expected s).repaired =
        s.repaired ++ carriers ∧
      InOrder calls s.answered.toFinset rest carriers
        (placeResults messages buildResult (ownerByResultId messages) calls rest expected s).answered.toFinset ∧
      ∀ id ∈ carriedAll carriers, Kept messages carriers id := by
  induction rest generalizing s expected with
  | nil => exact ⟨[], (List.append_nil _).symm, InOrder.done, List.forall_mem_nil _⟩
  | cons call rest ih =>
    have later := fun c member => inside c (List.mem_cons_of_mem _ member)
    unfold placeResults
    by_cases before : call.id ∈ s.answered
    · have skipped : placeResult messages buildResult (ownerByResultId messages) calls call expected s = (s, expected) := if_pos before
      rw [skipped]
      obtain ⟨carriers, repaired, ordered, kept⟩ := @ih expected s later
      exact ⟨carriers, repaired, InOrder.answered (List.mem_toFinset.mpr before) ordered, kept⟩
    · obtain ⟨carrier, ids, repaired, carries, distinct, answers, fresh, own, quiet, answered, keptHere⟩ :=
        @placeResult_open messages buildResult calls call expected s builds shaped (inside call List.mem_cons_self) before
      generalize placeResult messages buildResult (ownerByResultId messages) calls call expected s = next at repaired answered
      obtain ⟨s', expected'⟩ := next
      obtain ⟨carriers, repaired', ordered, kept⟩ := @ih expected' s' later
      have grown : s'.answered.toFinset = s.answered.toFinset ∪ ids.toFinset := by
        ext id
        rw [List.mem_toFinset, answered, Finset.mem_union, List.mem_toFinset, List.mem_toFinset]
      rw [grown] at ordered
      refine ⟨carrier :: carriers, ?_, ?_, ?_⟩
      · rw [repaired', repaired, List.append_assoc]
        rfl
      · refine InOrder.result (fun h => before (List.mem_toFinset.mp h)) carries distinct answers ?_ own quiet ordered
        exact fun id member h => fresh id member (List.mem_toFinset.mp h)
      · intro id member
        rw [carriedAll_cons, carriedIds_some carries] at member
        rcases List.mem_append.mp member with here | after
        · exact (keptHere id here).mono
        · intro index carrier' content owned here found
          exact List.mem_append_right _ (kept id after index carrier' content owned here found)

end Calls

/-! ### The whole pass -/

/-- The output so far, after the messages in `done`. -/
structure Progress (messages done : List Message) (s : Repairing) : Prop where
  settled : Settled (mixedAnswers messages).toFinset s.repaired s.answered.toFinset
  answered : ∀ id, id ∈ s.answered ↔ id ∈ mixedAnswers messages ∨ id ∈ callIds done
  others : s.repaired.filter (fun message => (resultIdsOf message).isNone) =
    (done.filter fun message => (resultIdsOf message).isNone).map fixedMessage
  kept : ∀ id ∈ carriedAll s.repaired, Kept messages s.repaired id

section Pass
variable {messages done : List Message} {buildResult : ToolResultBuilder} {message : Message} {index : Nat} {s : Repairing}

theorem repairMessage_progress (builds : Builds buildResult) (shaped : ∀ message ∈ messages, Shaped message)
    (inside : message ∈ messages) (h : Progress messages done s) :
    Progress messages (done ++ [message]) (repairMessage messages buildResult (ownerByResultId messages) message index s) := by
  unfold repairMessage
  cases carries : resultIdsOf message with
  | some ids =>
    have quiet := (shaped message inside).carrier_quiet carries
    constructor
    · exact h.settled
    · intro id
      rw [callIds_append, callIds_quiet (List.forall_mem_singleton.mpr quiet), List.append_nil]
      exact h.answered id
    · rw [List.filter_append, List.filter_cons_of_neg (by simp [carries]), List.filter_nil, List.append_nil]
      exact h.others
    · exact h.kept
  | none =>
    dsimp only
    have fixed : ((withValidArguments message).map Prod.fst).getD message = fixedMessage message := rfl
    rw [fixed]
    generalize start : ({ s with
      repaired := s.repaired ++ [fixedMessage message]
      report := { s.report with
        replacedArguments := s.report.replacedArguments + ((withValidArguments message).map Prod.snd).getD 0 } } : Repairing) = s₀
    have repaired₀ : s₀.repaired = s.repaired ++ [fixedMessage message] := by rw [← start]
    have answered₀ : s₀.answered = s.answered := by rw [← start]
    obtain ⟨carriers, repaired, ordered, kept⟩ := @placeResults_ordered messages buildResult (toolCallsOf message) (index + 1) s₀
      builds shaped (toolCallsOf message) fun _ member => member
    have bare : resultIdsOf (fixedMessage message) = none := fixedMessage_resultIds.trans carries
    rw [repaired₀, List.append_assoc] at repaired
    rw [answered₀] at ordered
    constructor
    · rw [repaired]
      rw [← fixedMessage_toolCalls] at ordered ⊢
      exact h.settled.snoc bare (fixedMessage_sound (shaped message inside)) ordered
    · intro id
      have total : id ∈ (placeResults messages buildResult (ownerByResultId messages) (toolCallsOf message)
          (toolCallsOf message) (index + 1) s₀).answered ↔ id ∈ s.answered ∨ id ∈ carriedAll carriers := by
        rw [← List.mem_toFinset, ordered.carried, Finset.mem_union, List.mem_toFinset, List.mem_toFinset]
      have called : id ∈ callIds [message] ↔ ∃ call ∈ toolCallsOf message, call.id = id := by
        rw [callIds_cons]
        simp [callIds]
      rw [callIds_append, List.mem_append, called, ← or_assoc, ← h.answered]
      constructor
      · intro member
        exact (total.mp member).imp (fun before => before) fun carried => ordered.own id carried
      · rintro (before | ⟨call, member, rfl⟩)
        · exact total.mpr (Or.inl before)
        · exact List.mem_toFinset.mp (ordered.complete call member)
    · have silent : carriers.filter (fun message => (resultIdsOf message).isNone) = [] := by
        refine List.filter_eq_nil_iff.mpr fun carrier member => ?_
        have carrier_ids := ordered.carries carrier member
        intro none_held
        rw [Option.isNone_iff_eq_none.mp none_held] at carrier_ids
        cases carrier_ids
      have whole : (done ++ [message]).filter (fun message => (resultIdsOf message).isNone) =
          done.filter (fun message => (resultIdsOf message).isNone) ++ [message] := by
        rw [List.filter_append, List.filter_cons_of_pos (by simp [carries]), List.filter_nil]
      rw [repaired, List.filter_append, h.others, List.filter_append, silent, List.append_nil,
        List.filter_cons_of_pos (by simp [bare]), List.filter_nil, whole, List.map_append]
      rfl
    · rw [repaired]
      intro id member
      rw [carriedAll_append, carriedAll_append, carriedAll_cons, carriedIds_none bare] at member
      rcases List.mem_append.mp member with before | after
      · exact (h.kept id before).mono
      · intro index carrier content owned here found
        unfold results
        rw [List.flatMap_append, List.flatMap_append]
        exact List.mem_append_right _ (List.mem_append_right _ (kept id after index carrier content owned here found))

theorem repairMessages_progress (builds : Builds buildResult) (shaped : ∀ message ∈ messages, Shaped message)
    {rest : List Message} (inside : ∀ message ∈ rest, message ∈ messages) (h : Progress messages done s) :
    Progress messages (done ++ rest) (repairMessages messages buildResult (ownerByResultId messages) rest index s) := by
  induction rest generalizing done index s with
  | nil =>
    rw [List.append_nil]
    exact h
  | cons message rest ih =>
    have next := @repairMessage_progress messages done buildResult message index s builds shaped (inside message List.mem_cons_self) h
    have whole := @ih (done ++ [message]) (index + 1) _ (fun m member => inside m (List.mem_cons_of_mem _ member)) next
    rwa [List.append_assoc] at whole

/-- What the pass builds, before it is decided whether anything was repaired. -/
def rebuilt (messages : List Message) (buildResult : ToolResultBuilder) : Repairing :=
  repairMessages messages buildResult (ownerByResultId messages) messages 0 { answered := mixedAnswers messages }

theorem rebuilt_progress (builds : Builds buildResult) (shaped : ∀ message ∈ messages, Shaped message) :
    Progress messages messages (rebuilt messages buildResult) := by
  have start : Progress messages [] { answered := mixedAnswers messages } := by
    constructor
    · exact Settled.nil
    · intro id
      simp [callIds]
    · rfl
    · exact List.forall_mem_nil _
  exact repairMessages_progress builds shaped (fun _ member => member) start

end Pass
end Bike4Mind.Transcript
