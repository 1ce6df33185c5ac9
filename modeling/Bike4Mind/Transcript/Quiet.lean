import Bike4Mind.Transcript.Untouched

/-! A pass with nothing to report has rebuilt the transcript as it was. -/

namespace Bike4Mind.Transcript
open Collections

def TranscriptRepairReport.total (report : TranscriptRepairReport) : Nat :=
  report.synthesizedResults + report.movedResults + report.droppedResults + report.replacedArguments

theorem withOnlyResults_whole {carrier : Message} {ids carried : List String} (shaped : Shaped carrier)
    (carries : resultIdsOf carrier = some carried) (distinct : ids.Nodup) (held : ∀ id ∈ ids, id ∈ carried)
    (whole : ids.length = carried.length) : withOnlyResults carrier ids = carrier := by
  have unchanged : (takeResults (blocksOf carrier) ids).length = (blocksOf carrier).length := by
    rcases resultIdsOf_some carries with ⟨tool, called, rfl⟩ | ⟨_, _, _, given'⟩
    · rw [shaped.text tool called]
      rfl
    · obtain ⟨kept, exactly⟩ := @takeResults_ids (blocksOf carrier) ids distinct
      have named : ((takeResults (blocksOf carrier) ids).filterMap ContentBlock.toolUseId).length = ids.length := by
        apply length_eq_of_mem_iff kept distinct
        intro id
        rw [exactly, filterMap_toolUseId given']
        exact ⟨fun h => h.1, fun h => ⟨h, held id h⟩⟩
      have blocks : (blocksOf carrier).length = carried.length := by
        have lengths := congrArg List.length given'
        rwa [List.length_map, List.length_map] at lengths
      have below : (takeResults (blocksOf carrier) ids).length ≤ (blocksOf carrier).length := takeResults_sublist.length_le
      have above : ((takeResults (blocksOf carrier) ids).filterMap ContentBlock.toolUseId).length ≤
          (takeResults (blocksOf carrier) ids).length := List.length_filterMap_le _ _
      omega
  unfold withOnlyResults
  exact if_pos unchanged

section Report
variable {messages rest : List Message} {buildResult : ToolResultBuilder} {owner : OrderedMap String Nat}
variable {calls remaining : List TranscriptToolCall} {call : TranscriptToolCall} {message : Message} {expected index : Nat} {s : Repairing}

theorem placeResult_total : s.report.total ≤ (placeResult messages buildResult owner calls call expected s).1.report.total := by
  unfold placeResult
  split
  · exact Nat.le_refl _
  · split
    · dsimp only
      split
      · exact Nat.le_refl _
      · show s.report.total ≤ TranscriptRepairReport.total { s.report with synthesizedResults := s.report.synthesizedResults + 1 }
        simp only [TranscriptRepairReport.total]
        omega
    · dsimp only
      split
      · exact Nat.le_refl _
      · simp only [TranscriptRepairReport.total]
        omega

theorem placeResults_total : s.report.total ≤ (placeResults messages buildResult owner calls remaining expected s).report.total := by
  induction remaining generalizing expected s with
  | nil => exact Nat.le_refl _
  | cons call rest ih => exact Nat.le_trans placeResult_total ih

theorem repairMessage_total : s.report.total ≤ (repairMessage messages buildResult owner message index s).report.total := by
  unfold repairMessage
  split
  · simp only [TranscriptRepairReport.total]
    omega
  · refine Nat.le_trans ?_ placeResults_total
    simp only [TranscriptRepairReport.total]
    omega

theorem repairMessages_total : s.report.total ≤ (repairMessages messages buildResult owner rest index s).report.total := by
  induction rest generalizing index s with
  | nil => exact Nat.le_refl _
  | cons message rest ih => exact Nat.le_trans repairMessage_total ih

theorem ownedIds_length {carrier : Message} {ids : List String} (here : messages[index]? = some carrier)
    (carries : resultIdsOf carrier = some ids) : (ownedIds messages owner index).length ≤ ids.length := by
  refine (List.subperm_of_subset ownedIds_nodup fun id owned => ?_).length_le
  exact ((mem_ownedIds here carries).mp owned).1

/-- Each carrier owns all it holds. -/
def AllOwned (messages : List Message) (owner : OrderedMap String Nat) : Prop :=
  ∀ index carrier ids, messages[index]? = some carrier → resultIdsOf carrier = some ids →
    (ownedIds messages owner index).length = ids.length

theorem nothing_dropped {done : List Message} (split : messages = done ++ rest)
    (quiet : (repairMessages messages buildResult owner rest done.length s).report.total = 0) :
    ∀ index carrier ids, done.length ≤ index → messages[index]? = some carrier → resultIdsOf carrier = some ids →
      (ownedIds messages owner index).length = ids.length := by
  induction rest generalizing done s with
  | nil =>
    intro index carrier ids beyond here _
    have inside := (List.getElem?_eq_some_iff.mp here).1
    rw [split, List.append_nil] at inside
    omega
  | cons message rest ih =>
    have advanced : done.length + 1 = (done ++ [message]).length := by simp
    rw [repairMessages] at quiet
    intro index carrier ids beyond here carries
    rcases Nat.eq_or_lt_of_le beyond with first | later
    · subst first
      have head := here_of_split split
      cases here.symm.trans head
      have still : (repairMessage messages buildResult owner message done.length s).report.total = 0 :=
        Nat.le_zero.mp (quiet ▸ repairMessages_total)
      unfold repairMessage at still
      rw [carries] at still
      simp only [TranscriptRepairReport.total] at still
      have most := @ownedIds_length messages owner done.length message ids here carries
      omega
    · rw [advanced] at quiet
      exact ih (by rw [split]; simp) quiet index carrier ids (by rw [← advanced]; exact later) here carries

end Report

section Quiet
variable {messages rest : List Message} {buildResult : ToolResultBuilder} {calls remaining : List TranscriptToolCall}
variable {call : TranscriptToolCall} {message : Message} {expected index : Nat} {s : Repairing}
variable (builds : Builds buildResult) (shaped : ∀ message ∈ messages, Shaped message)
variable (allOwned : AllOwned messages (ownerByResultId messages))
include builds shaped allOwned

/-- A call placed without a report was answered already, or its carrier stands where it was expected. -/
theorem placeResult_quiet
    (quiet : (placeResult messages buildResult (ownerByResultId messages) calls call expected s).1.report.total = 0) :
    placeResult messages buildResult (ownerByResultId messages) calls call expected s = (s, expected) ∨
      ∃ carrier, messages[expected]? = some carrier ∧ (resultIdsOf carrier).isSome = true ∧
        (placeResult messages buildResult (ownerByResultId messages) calls call expected s).1.repaired = s.repaired ++ [carrier] ∧
        (placeResult messages buildResult (ownerByResultId messages) calls call expected s).2 = expected + 1 ∧
        ∀ id ∈ (placeResult messages buildResult (ownerByResultId messages) calls call expected s).1.answered,
          id ∈ s.answered ∨ (ownerByResultId messages).get? id = some expected := by
  unfold placeResult at quiet ⊢
  by_cases old : call.id ∈ s.answered
  · rw [if_pos old]
    exact Or.inl rfl
  rw [if_neg old] at quiet ⊢
  right
  cases owned : (ownerByResultId messages).get? call.id with
  | none =>
    rw [owned] at quiet
    obtain ⟨carrier, built, _, _⟩ := builds call MISSING_TOOL_RESULT
    dsimp only at quiet
    rw [built, if_neg (by simp)] at quiet
    simp [TranscriptRepairReport.total] at quiet
  | some found =>
    rw [owned] at quiet
    dsimp only at quiet ⊢
    generalize chosen : idsFrom (ownerByResultId messages) calls s.answered found = ids at quiet ⊢
    by_cases inPlace : found = expected ∧ ids.length = (ownedIds messages (ownerByResultId messages) found).length
    · obtain ⟨rfl, all⟩ := inPlace
      obtain ⟨_, carrier, carried, here, carries, holds, _⟩ := owner_some owned
      have uncut : withOnlyResults carrier ids = carrier := by
        apply withOnlyResults_whole (shaped carrier (List.mem_of_getElem? here)) carries
        · rw [← chosen]
          exact idsFrom_nodup
        · intro id listed
          rw [← chosen] at listed
          obtain ⟨_, carrier', carried', here', carries', holds', _⟩ := owner_some (mem_idsFrom.mp listed).2.2
          cases here.symm.trans here'
          cases carries.symm.trans carries'
          exact holds'
        · exact all.trans (allOwned found carrier carried here carries)
      refine ⟨carrier, here, by rw [carries]; rfl, ?_, if_pos ⟨rfl, all⟩, ?_⟩
      · rw [here, Option.map_some, uncut]
        rfl
      · intro id answered
        refine (List.mem_append.mp answered).imp_right fun listed => ?_
        rw [← chosen] at listed
        exact (mem_idsFrom.mp listed).2.2
    · rw [if_neg inPlace] at quiet
      simp [TranscriptRepairReport.total] at quiet

/-- The carriers of the transcript from `start` on are the output's up to `stop`, and answer what is newly answered. -/
structure Follows (messages : List Message) (start stop : Nat) (s s' : Repairing) : Prop where
  order : start ≤ stop
  repaired : s.repaired = messages.take start → s'.repaired = messages.take stop
  carriers : ∀ k carrier, start ≤ k → k < stop → messages[k]? = some carrier → (resultIdsOf carrier).isSome = true
  answered : ∀ id ∈ s'.answered, id ∈ s.answered ∨ ∃ k, (ownerByResultId messages).get? id = some k ∧ start ≤ k ∧ k < stop

omit builds shaped allOwned in
theorem Follows.refl : Follows messages expected expected s s :=
  ⟨Nat.le_refl _, id, fun _ _ low high => absurd high (Nat.not_lt.mpr low), fun _ h => Or.inl h⟩

theorem placeResults_quiet
    (quiet : (placeResults messages buildResult (ownerByResultId messages) calls remaining expected s).report.total = 0) :
    ∃ stop, Follows messages expected stop s (placeResults messages buildResult (ownerByResultId messages) calls remaining expected s) := by
  induction remaining generalizing expected s with
  | nil => exact ⟨expected, Follows.refl⟩
  | cons call rest ih =>
    unfold placeResults at quiet ⊢
    have still : (placeResult messages buildResult (ownerByResultId messages) calls call expected s).1.report.total = 0 :=
      Nat.le_zero.mp (quiet ▸ placeResults_total)
    have one := @placeResult_quiet messages buildResult calls call expected s builds shaped allOwned still
    generalize placeResult messages buildResult (ownerByResultId messages) calls call expected s = next at quiet still one ⊢
    obtain ⟨s₁, expected₁⟩ := next
    obtain ⟨stop, follows⟩ := ih quiet
    rcases one with same | ⟨carrier, here, carries, repaired, advanced, answered⟩
    · cases same
      exact ⟨stop, follows⟩
    · dsimp only at repaired advanced answered
      subst advanced
      refine ⟨stop, Nat.le_of_succ_le follows.order, fun start => ?_, ?_, ?_⟩
      · apply follows.repaired
        rw [repaired, start, List.take_add_one, here]
        rfl
      · intro k other low high there
        rcases Nat.eq_or_lt_of_le low with first | beyond
        · subst first
          cases here.symm.trans there
          exact carries
        · exact follows.carriers k other beyond high there
      · intro id member
        rcases follows.answered id member with early | ⟨k, owned, low, high⟩
        · exact (answered id early).imp_right fun owned => ⟨expected, owned, Nat.le_refl _, follows.order⟩
        · exact Or.inr ⟨k, owned, Nat.le_of_succ_le low, high⟩

/-- A message that calls tools is kept as it is, with the carriers right behind it. -/
theorem repairMessage_quiet (here : messages[index]? = some message) (holds : resultIdsOf message = none)
    (quiet : (repairMessage messages buildResult (ownerByResultId messages) message index s).report.total = 0) :
    ∃ stop, index < stop ∧ (s.repaired = messages.take index →
        (repairMessage messages buildResult (ownerByResultId messages) message index s).repaired = messages.take stop) ∧
      (∀ k carrier, index < k → k < stop → messages[k]? = some carrier → (resultIdsOf carrier).isSome = true) ∧
      ∀ id ∈ (repairMessage messages buildResult (ownerByResultId messages) message index s).answered,
        id ∈ s.answered ∨ ∃ k, (ownerByResultId messages).get? id = some k ∧ index < k ∧ k < stop := by
  unfold repairMessage at quiet ⊢
  rw [holds] at quiet ⊢
  dsimp only at quiet ⊢
  have grown := @placeResults_total messages buildResult (ownerByResultId messages) (toolCallsOf message) (toolCallsOf message) (index + 1)
    { s with
      repaired := s.repaired ++ [((withValidArguments message).map Prod.fst).getD message]
      report := { s.report with
        replacedArguments := s.report.replacedArguments + ((withValidArguments message).map Prod.snd).getD 0 } }
  rw [quiet] at grown
  have still := Nat.le_zero.mp grown
  have kept : ((withValidArguments message).map Prod.fst).getD message = message := by
    cases fix : withValidArguments message with
    | none => rfl
    | some fixed =>
      rw [fix] at still
      unfold withValidArguments at fix
      split at fix
      · cases fix
      · dsimp only at fix
        split at fix
        · cases fix
        · rename_i replaced
          cases fix
          simp only [TranscriptRepairReport.total, Option.map_some, Option.getD_some] at still
          omega
  obtain ⟨stop, follows⟩ := @placeResults_quiet messages buildResult (toolCallsOf message) (toolCallsOf message) (index + 1) _
    builds shaped allOwned quiet
  refine ⟨stop, follows.order, fun start => follows.repaired ?_, follows.carriers, follows.answered⟩
  show s.repaired ++ [((withValidArguments message).map Prod.fst).getD message] = _
  rw [kept, start, List.take_add_one, here]
  rfl

/-- What is answered from here on is answered by a carrier that stands later. -/
theorem answered_later {done : List Message} (split : messages = done ++ rest)
    (quiet : (repairMessages messages buildResult (ownerByResultId messages) rest done.length s).report.total = 0) :
    ∀ id ∈ (repairMessages messages buildResult (ownerByResultId messages) rest done.length s).answered,
      id ∈ s.answered ∨ ∃ k, (ownerByResultId messages).get? id = some k ∧ done.length < k := by
  induction rest generalizing done s with
  | nil => exact fun id member => Or.inl member
  | cons message rest ih =>
    have advanced : done.length + 1 = (done ++ [message]).length := by simp
    have here := here_of_split split
    rw [repairMessages] at quiet ⊢
    have still : (repairMessage messages buildResult (ownerByResultId messages) message done.length s).report.total = 0 :=
      Nat.le_zero.mp (quiet ▸ repairMessages_total)
    intro id member
    rw [advanced] at quiet member
    rcases ih (by rw [split]; simp) quiet id member with early | ⟨k, owned, beyond⟩
    · cases holds : resultIdsOf message with
      | some ids =>
        left
        unfold repairMessage at early
        rw [holds] at early
        exact early
      | none =>
        obtain ⟨_, _, _, _, answered⟩ := @repairMessage_quiet messages buildResult message done.length s builds shaped allOwned
          here holds still
        rcases answered id early with early | ⟨k, owned, beyond, _⟩
        · exact Or.inl early
        · exact Or.inr ⟨k, owned, beyond⟩
    · exact Or.inr ⟨k, owned, Nat.lt_of_succ_lt (by rw [← advanced] at beyond; exact beyond)⟩

/-- The output so far is the transcript up to `stop`, and no carrier beyond `stop` has answered. -/
structure Copied (messages done : List Message) (stop : Nat) (s : Repairing) : Prop where
  repaired : s.repaired = messages.take stop
  order : done.length ≤ stop
  carriers : ∀ k carrier, done.length ≤ k → k < stop → messages[k]? = some carrier → (resultIdsOf carrier).isSome = true
  answered : ∀ id ∈ s.answered, id ∈ mixedAnswers messages ∨ ∃ k, (ownerByResultId messages).get? id = some k ∧ k < stop

theorem repairMessages_quiet {done : List Message} {stop : Nat} (split : messages = done ++ rest) (copied : Copied messages done stop s)
    (complete : ∀ id ∈ callIds messages,
      id ∈ (repairMessages messages buildResult (ownerByResultId messages) rest done.length s).answered)
    (quiet : (repairMessages messages buildResult (ownerByResultId messages) rest done.length s).report.total = 0) :
    (repairMessages messages buildResult (ownerByResultId messages) rest done.length s).repaired = messages := by
  induction rest generalizing done s stop with
  | nil =>
    rw [repairMessages, copied.repaired]
    apply List.take_of_length_le
    have order := copied.order
    rw [split, List.append_nil]
    exact order
  | cons message rest ih =>
    have advanced : done.length + 1 = (done ++ [message]).length := by simp
    have here := here_of_split split
    rw [repairMessages] at quiet complete ⊢
    have still : (repairMessage messages buildResult (ownerByResultId messages) message done.length s).report.total = 0 :=
      Nat.le_zero.mp (quiet ▸ repairMessages_total)
    have split' : messages = (done ++ [message]) ++ rest := by rw [split]; simp
    rw [advanced] at quiet complete ⊢
    cases holds : resultIdsOf message with
    | none =>
      have starts : stop = done.length := by
        by_contra apart
        have carrier := copied.carriers done.length message (Nat.le_refl _) (by have := copied.order; omega) here
        rw [holds] at carrier
        cases carrier
      subst starts
      obtain ⟨next, beyond, repaired, carriers, answered⟩ := @repairMessage_quiet messages buildResult message done.length s
        builds shaped allOwned here holds still
      refine @ih _ (done ++ [message]) next split' ⟨repaired copied.repaired, advanced ▸ beyond, ?_, ?_⟩ complete quiet
      · intro k carrier low
        exact carriers k carrier (Nat.lt_of_lt_of_eq (Nat.lt_succ_self _) advanced |>.trans_le low)
      · intro id member
        rcases answered id member with early | ⟨k, owned, _, high⟩
        · rcases copied.answered id early with mixed | ⟨k, owned, low⟩
          · exact Or.inl mixed
          · exact Or.inr ⟨k, owned, Nat.lt_trans low beyond⟩
        · exact Or.inr ⟨k, owned, high⟩
    | some ids =>
      have repaired : (repairMessage messages buildResult (ownerByResultId messages) message done.length s).repaired = s.repaired := by
        unfold repairMessage
        rw [holds]
      have answered : (repairMessage messages buildResult (ownerByResultId messages) message done.length s).answered = s.answered := by
        unfold repairMessage
        rw [holds]
      -- a carrier that no message before it has taken up would be moved to the later call it answers
      have passed : done.length < stop := by
        by_contra reached
        have starts : stop = done.length := Nat.le_antisymm (Nat.not_lt.mp reached) copied.order
        have some_owned : ownedIds messages (ownerByResultId messages) done.length ≠ [] := by
          intro none_owned
          have lengths := allOwned done.length message ids here holds
          rw [none_owned] at lengths
          exact carrier_ids_ne holds (List.eq_nil_of_length_eq_zero lengths.symm)
        obtain ⟨id, listed⟩ := List.exists_mem_of_ne_nil _ some_owned
        have owned := ((mem_ownedIds here holds).mp listed).2
        obtain ⟨answerable, _⟩ := owner_some owned
        have called := complete id answerable.1
        rcases @answered_later messages rest buildResult _ builds shaped allOwned (done ++ [message]) split' quiet id called with
          early | ⟨k, owned', beyond⟩
        · rw [answered] at early
          rcases copied.answered id early with mixed | ⟨k, owned', low⟩
          · exact answerable.2 mixed
          · cases owned.symm.trans owned'
            omega
        · cases owned.symm.trans owned'
          rw [← advanced] at beyond
          omega
      refine @ih _ (done ++ [message]) stop split' ⟨repaired.trans copied.repaired, advanced ▸ passed, ?_, ?_⟩ complete quiet
      · intro k carrier low
        exact copied.carriers k carrier (Nat.le_of_succ_le (Nat.le_trans (Nat.le_of_eq advanced) low))
      · rw [answered]
        exact copied.answered

omit allOwned in
theorem rebuilt_quiet (quiet : (rebuilt messages buildResult).report.total = 0) : (rebuilt messages buildResult).repaired = messages := by
  have owned : AllOwned messages (ownerByResultId messages) := fun index carrier ids here carries =>
    @nothing_dropped messages messages buildResult (ownerByResultId messages) _ [] rfl quiet index carrier ids (Nat.zero_le _) here carries
  have progress := rebuilt_progress builds shaped
  refine @repairMessages_quiet messages messages buildResult _ builds shaped owned [] 0 rfl ⟨rfl, Nat.le_refl _, ?_, ?_⟩ ?_ quiet
  · intro k _ _ high
    exact absurd high (Nat.not_lt_zero k)
  · exact fun id member => Or.inl member
  · exact fun id called => (progress.answered id).mpr (Or.inr called)

end Quiet
end Bike4Mind.Transcript
