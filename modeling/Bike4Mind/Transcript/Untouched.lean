import Bike4Mind.Transcript.Repair

/-! The transcripts a pass has nothing to report on are the settled ones, and it rebuilds them as they were. -/

namespace Bike4Mind.Transcript
open Collections

section Settled
variable {messages : List Message} {buildResult : ToolResultBuilder}

theorem sound_none {message : Message} (sound : Sound message) : withValidArguments message = none :=
  withValidArguments_none.mpr (Or.inr sound)

theorem owner_of_nodup {before after : List Message} {carrier : Message} {id : String} (answerable : Answerable messages id)
    (nodup : (carriedAll messages).Nodup) (split : messages = before ++ carrier :: after) (holds : id ∈ carriedIds carrier) :
    (ownerByResultId messages).get? id = some before.length := by
  rw [owner_get, if_pos answerable, List.findIdx?_eq_some_iff_getElem]
  subst split
  refine ⟨by simp, by simpa using holds, fun j earlier => ?_⟩
  rw [List.getElem_append_left earlier]
  rw [carriedAll_append, carriedAll_cons] at nodup
  have apart := (List.nodup_append.mp nodup).2.2
  have absent : id ∉ carriedIds before[j] := fun here =>
    apart id (List.mem_flatMap.mpr ⟨before[j], List.getElem_mem earlier, here⟩) id (List.mem_append_left _ holds) rfl
  simpa using absent

theorem here_of_split {before after : List Message} {message : Message} (split : messages = before ++ message :: after) :
    messages[before.length]? = some message := by
  rw [split, List.getElem?_append_right (Nat.le_refl _), Nat.sub_self]
  rfl

theorem mem_ownedIds {index : Nat} {carrier : Message} {ids : List String} {owner : OrderedMap String Nat}
    (here : messages[index]? = some carrier) (carries : resultIdsOf carrier = some ids) {id : String} :
    id ∈ ownedIds messages owner index ↔ id ∈ ids ∧ owner.get? id = some index := by
  unfold ownedIds
  rw [here, Option.bind_some, carries, List.mem_filter]
  simp

theorem ownedIds_nodup {index : Nat} {owner : OrderedMap String Nat} : (ownedIds messages owner index).Nodup :=
  distinct_nodup.filter _

variable (nodup : (carriedAll messages).Nodup) (answerable : ∀ id ∈ carriedAll messages, Answerable messages id)
include nodup answerable

/-- Results already in the order of the calls are placed without a report. -/
theorem placeResults_in_order {calls rest : List TranscriptToolCall} {A A' : Finset String} {carriers before after : List Message}
    {s : Repairing} (ordered : InOrder calls A rest carriers A') (split : messages = before ++ carriers ++ after)
    (answered : s.answered.toFinset = A) :
    (placeResults messages buildResult (ownerByResultId messages) calls rest before.length s).report = s.report ∧
      (placeResults messages buildResult (ownerByResultId messages) calls rest before.length s).answered.toFinset = A' := by
  induction ordered generalizing before s with
  | done => exact ⟨rfl, answered⟩
  | answered before' later ih =>
    have here := List.mem_toFinset.mp (answered.symm ▸ before')
    unfold placeResults placeResult
    rw [if_pos here]
    exact ih split answered
  | @result A call rest carrier carriers ids A' unanswered carries distinct answers fresh own quiet later ih =>
    have open' : call.id ∉ s.answered := fun here => unanswered (answered ▸ List.mem_toFinset.mpr here)
    have place : messages = before ++ carrier :: (carriers ++ after) := by rw [split]; simp
    have here := here_of_split place
    have owned : ∀ id ∈ ids, (ownerByResultId messages).get? id = some before.length := by
      intro id member
      have holds : id ∈ carriedIds carrier := carriedIds_some carries ▸ member
      have listed : id ∈ carriedAll messages := by
        rw [place, carriedAll_append, carriedAll_cons]
        exact List.mem_append_right _ (List.mem_append_left _ holds)
      exact owner_of_nodup (answerable id listed) nodup place holds
    have chosen : ∀ id, id ∈ idsFrom (ownerByResultId messages) calls s.answered before.length ↔ id ∈ ids := by
      intro id
      rw [mem_idsFrom]
      constructor
      · rintro ⟨_, _, owner⟩
        obtain ⟨_, carrier', ids', here', carries', holds, _⟩ := owner_some owner
        cases here.symm.trans here'
        cases carries.symm.trans carries'
        exact holds
      · intro member
        exact ⟨own id member, fun old => fresh id member (answered ▸ List.mem_toFinset.mpr old), owned id member⟩
    have whole : (idsFrom (ownerByResultId messages) calls s.answered before.length).length =
        (ownedIds messages (ownerByResultId messages) before.length).length := by
      apply length_eq_of_mem_iff idsFrom_nodup ownedIds_nodup
      intro id
      rw [chosen, mem_ownedIds here carries]
      exact ⟨fun member => ⟨member, owned id member⟩, fun h => h.1⟩
    unfold placeResults placeResult
    rw [if_neg open', owned call.id answers]
    dsimp only
    rw [if_pos ⟨rfl, whole⟩, if_pos ⟨rfl, whole⟩]
    have grown : (s.answered ++ idsFrom (ownerByResultId messages) calls s.answered before.length).toFinset = A ∪ ids.toFinset := by
      rw [List.toFinset_append, answered]
      congr 1
      ext id
      rw [List.mem_toFinset, List.mem_toFinset, chosen]
    have advanced : before.length + 1 = (before ++ [carrier]).length := by simp
    rw [advanced]
    exact ih (by rw [split]; simp) grown

theorem repairMessages_carriers {carriers before after rest : List Message} {s : Repairing}
    (pure : ∀ carrier ∈ carriers, (resultIdsOf carrier).isSome = true) (split : messages = before ++ carriers ++ after) :
    ∃ s', repairMessages messages buildResult (ownerByResultId messages) (carriers ++ rest) before.length s =
        repairMessages messages buildResult (ownerByResultId messages) rest (before ++ carriers).length s' ∧
      s'.report = s.report ∧ s'.answered = s.answered := by
  induction carriers generalizing before s with
  | nil => exact ⟨s, by simp, rfl, rfl⟩
  | cons carrier carriers ih =>
    obtain ⟨ids, carries⟩ := Option.isSome_iff_exists.mp (pure carrier List.mem_cons_self)
    have place : messages = before ++ carrier :: (carriers ++ after) := by rw [split]; simp
    have here := here_of_split place
    have inside : ∀ id ∈ ids, id ∈ carriedAll messages := by
      intro id member
      rw [place, carriedAll_append, carriedAll_cons, carriedIds_some carries]
      exact List.mem_append_right _ (List.mem_append_left _ member)
    have ids_nodup : ids.Nodup := by
      rw [place, carriedAll_append, carriedAll_cons, carriedIds_some carries] at nodup
      exact (List.nodup_append.mp (List.nodup_append.mp nodup).2.1).1
    have all : (ownedIds messages (ownerByResultId messages) before.length).length = ids.length := by
      apply length_eq_of_mem_iff ownedIds_nodup ids_nodup
      intro id
      rw [mem_ownedIds here carries]
      refine ⟨fun h => h.1, fun member => ⟨member, ?_⟩⟩
      exact owner_of_nodup (answerable id (inside id member)) nodup place (carriedIds_some carries ▸ member)
    obtain ⟨s', ran, report, answered⟩ := @ih (before ++ [carrier])
      (repairMessage messages buildResult (ownerByResultId messages) carrier before.length s)
      (fun m member => pure m (List.mem_cons_of_mem _ member)) (by rw [split]; simp)
    have kept : (repairMessage messages buildResult (ownerByResultId messages) carrier before.length s).report = s.report ∧
        (repairMessage messages buildResult (ownerByResultId messages) carrier before.length s).answered = s.answered := by
      unfold repairMessage
      rw [carries]
      dsimp only
      rw [all, Nat.sub_self, Nat.add_zero]
      exact ⟨rfl, rfl⟩
    refine ⟨s', ?_, report.trans kept.1, answered.trans kept.2⟩
    rw [List.cons_append, repairMessages]
    have advanced : before.length + 1 = (before ++ [carrier]).length := by simp
    rw [advanced, ran]
    simp

theorem repairMessages_settled {A A' : Finset String} {rest before : List Message} {s : Repairing} (settled : Settled A rest A')
    (split : messages = before ++ rest) (answered : s.answered.toFinset = A) :
    (repairMessages messages buildResult (ownerByResultId messages) rest before.length s).report = s.report := by
  induction settled generalizing before s with
  | nil => rfl
  | @group A message carriers rest A' A'' holds sound ordered later ih =>
    have advanced : before.length + 1 = (before ++ [message]).length := by simp
    rw [List.cons_append, repairMessages, advanced]
    have placed : (repairMessage messages buildResult (ownerByResultId messages) message before.length s).report = s.report ∧
        (repairMessage messages buildResult (ownerByResultId messages) message before.length s).answered.toFinset = A' := by
      unfold repairMessage
      rw [holds]
      dsimp only
      rw [sound_none sound, advanced]
      exact @placeResults_in_order messages buildResult nodup answerable _ _ _ _ carriers (before ++ [message]) rest _ ordered
        (by rw [split]; simp) answered
    obtain ⟨s', ran, report, kept⟩ := @repairMessages_carriers messages buildResult nodup answerable carriers (before ++ [message]) rest
      rest (repairMessage messages buildResult (ownerByResultId messages) message before.length s) ordered.carries
      (by rw [split]; simp)
    rw [ran]
    exact (ih (by rw [split]; simp) (by rw [kept]; exact placed.2)).trans (report.trans placed.1)

end Settled

theorem settled_untouched {messages : List Message} {buildResult : ToolResultBuilder} {A : Finset String}
    (settled : Settled (mixedAnswers messages).toFinset messages A) : repairTranscript messages buildResult = (messages, {}) := by
  have answerable : ∀ id ∈ carriedAll messages, Answerable messages id := fun id carried =>
    ⟨settled.own id carried, fun mixed => settled.fresh id carried (List.mem_toFinset.mpr mixed)⟩
  have quiet : (rebuilt messages buildResult).report = {} :=
    @repairMessages_settled messages buildResult settled.nodup answerable _ _ messages [] _ settled rfl rfl
  unfold rebuilt at quiet
  unfold repairTranscript
  dsimp only
  rw [quiet]
  rfl

end Bike4Mind.Transcript
