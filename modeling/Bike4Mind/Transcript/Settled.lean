import Bike4Mind.Transcript.Message
import Mathlib.Data.Finset.Lattice.Lemmas

/-!
Settled transcripts: behind every message, the results of its calls in the order of the calls, one
carrier after the other. `A` is the set of ids answered so far.
-/

namespace Bike4Mind.Transcript
open Collections

def carriedIds (message : Message) : List String := (resultIdsOf message).getD []

def carriedAll (messages : List Message) : List String := messages.flatMap carriedIds

/-- Every argument of the message's calls can be sent. -/
structure Sound (message : Message) : Prop where
  blocks : ∀ block ∈ blocksOf message, block.sound = true
  calls : ∀ call ∈ message.toolCalls.getD [], call.sound = true

/-- The carriers answer the remaining calls of a message, each carrier at the first call it answers. -/
inductive InOrder (calls : List TranscriptToolCall) :
    Finset String → List TranscriptToolCall → List Message → Finset String → Prop where
  | done {A} : InOrder calls A [] [] A
  | answered {A call rest carriers A'} (before : call.id ∈ A) (later : InOrder calls A rest carriers A') :
    InOrder calls A (call :: rest) carriers A'
  | result {A call rest carrier carriers ids A'} (unanswered : call.id ∉ A) (carries : resultIdsOf carrier = some ids)
    (distinct : ids.Nodup) (answers : call.id ∈ ids) (fresh : ∀ id ∈ ids, id ∉ A) (own : ∀ id ∈ ids, ∃ c ∈ calls, c.id = id)
    (quiet : toolCallsOf carrier = []) (later : InOrder calls (A ∪ ids.toFinset) rest carriers A') :
    InOrder calls A (call :: rest) (carrier :: carriers) A'

inductive Settled : Finset String → List Message → Finset String → Prop where
  | nil {A} : Settled A [] A
  | group {A message carriers rest A' A''} (holds : resultIdsOf message = none) (sound : Sound message)
    (ordered : InOrder (toolCallsOf message) A (toolCallsOf message) carriers A') (later : Settled A' rest A'') :
    Settled A (message :: carriers ++ rest) A''

section InOrder
variable {calls rest : List TranscriptToolCall} {A A' : Finset String} {carriers : List Message}

theorem InOrder.carries (h : InOrder calls A rest carriers A') : ∀ carrier ∈ carriers, (resultIdsOf carrier).isSome = true := by
  induction h with
  | done => exact List.forall_mem_nil _
  | answered before later ih => exact ih
  | result unanswered carries distinct answers fresh own quiet later ih =>
    exact List.forall_mem_cons.mpr ⟨by rw [carries]; rfl, ih⟩

theorem InOrder.quiet (h : InOrder calls A rest carriers A') : ∀ carrier ∈ carriers, toolCallsOf carrier = [] := by
  induction h with
  | done => exact List.forall_mem_nil _
  | answered before later ih => exact ih
  | result unanswered carries distinct answers fresh own quiet later ih => exact List.forall_mem_cons.mpr ⟨quiet, ih⟩

theorem carriedIds_none {message : Message} (holds : resultIdsOf message = none) : carriedIds message = [] := by
  unfold carriedIds
  rw [holds]
  rfl

theorem carriedIds_some {message : Message} {ids : List String} (carries : resultIdsOf message = some ids) :
    carriedIds message = ids := by
  unfold carriedIds
  rw [carries]
  rfl

theorem carriedAll_cons {message : Message} {messages : List Message} :
    carriedAll (message :: messages) = carriedIds message ++ carriedAll messages := List.flatMap_cons

theorem carriedAll_append {first last : List Message} : carriedAll (first ++ last) = carriedAll first ++ carriedAll last :=
  List.flatMap_append

/-- What the carriers add to the answered ids is exactly what they carry. -/
theorem InOrder.carried (h : InOrder calls A rest carriers A') : A' = A ∪ (carriedAll carriers).toFinset := by
  induction h with
  | done => simp [carriedAll]
  | answered before later ih => exact ih
  | result unanswered carries distinct answers fresh own quiet later ih =>
    rw [ih, carriedAll_cons, carriedIds_some carries, List.toFinset_append, Finset.union_assoc]

theorem InOrder.fresh (h : InOrder calls A rest carriers A') : ∀ id ∈ carriedAll carriers, id ∉ A := by
  induction h with
  | done => exact List.forall_mem_nil _
  | answered before later ih => exact ih
  | result unanswered carries distinct answers fresh own quiet later ih =>
    intro id member
    rw [carriedAll_cons, carriedIds_some carries] at member
    rcases List.mem_append.mp member with here | after
    · exact fresh id here
    · exact fun before => ih id after (Finset.mem_union_left _ before)

theorem InOrder.nodup (h : InOrder calls A rest carriers A') : (carriedAll carriers).Nodup := by
  induction h with
  | done => exact List.nodup_nil
  | answered before later ih => exact ih
  | result unanswered carries distinct answers fresh own quiet later ih =>
    rw [carriedAll_cons, carriedIds_some carries, List.nodup_append]
    refine ⟨distinct, ih, ?_⟩
    rintro id here other after rfl
    exact later.fresh id after (Finset.mem_union_right _ (List.mem_toFinset.mpr here))

theorem InOrder.own (h : InOrder calls A rest carriers A') : ∀ id ∈ carriedAll carriers, ∃ c ∈ calls, c.id = id := by
  induction h with
  | done => exact List.forall_mem_nil _
  | answered before later ih => exact ih
  | result unanswered carries distinct answers fresh own quiet later ih =>
    intro id member
    rw [carriedAll_cons, carriedIds_some carries] at member
    exact (List.mem_append.mp member).elim (own id) (ih id)

theorem InOrder.complete (h : InOrder calls A rest carriers A') : ∀ call ∈ rest, call.id ∈ A' := by
  have grows : ∀ {A rest carriers A'}, InOrder calls A rest carriers A' → A ⊆ A' := by
    intro A rest carriers A' h
    rw [h.carried]
    exact Finset.subset_union_left
  induction h with
  | done => exact List.forall_mem_nil _
  | answered before later ih => exact List.forall_mem_cons.mpr ⟨grows later before, ih⟩
  | result unanswered carries distinct answers fresh own quiet later ih =>
    exact List.forall_mem_cons.mpr ⟨grows later (Finset.mem_union_right _ (List.mem_toFinset.mpr answers)), ih⟩

end InOrder

/-! ### What a settled transcript guarantees -/

section Settled
variable {messages : List Message} {A A' : Finset String}

theorem callIds_append {first last : List Message} : callIds (first ++ last) = callIds first ++ callIds last :=
  List.flatMap_append

theorem callIds_cons {message : Message} {rest : List Message} :
    callIds (message :: rest) = (toolCallsOf message).map TranscriptToolCall.id ++ callIds rest := List.flatMap_cons

theorem callIds_quiet {carriers : List Message} (quiet : ∀ carrier ∈ carriers, toolCallsOf carrier = []) : callIds carriers = [] := by
  refine List.flatMap_eq_nil_iff.mpr fun carrier member => ?_
  rw [quiet carrier member]
  rfl

theorem Settled.carried (h : Settled A messages A') : A' = A ∪ (carriedAll messages).toFinset := by
  induction h with
  | nil => simp [carriedAll]
  | group holds sound ordered later ih =>
    rw [ih, ordered.carried, List.cons_append, carriedAll_cons, carriedIds_none holds, List.nil_append, carriedAll_append,
      List.toFinset_append, Finset.union_assoc]

theorem Settled.fresh (h : Settled A messages A') : ∀ id ∈ carriedAll messages, id ∉ A := by
  induction h with
  | nil => exact List.forall_mem_nil _
  | group holds sound ordered later ih =>
    intro id member
    rw [List.cons_append, carriedAll_cons, carriedIds_none holds, List.nil_append, carriedAll_append] at member
    rcases List.mem_append.mp member with here | after
    · exact ordered.fresh id here
    · rw [ordered.carried] at ih
      exact fun before => ih id after (Finset.mem_union_left _ before)

/-- No id is answered by two carriers, or twice by one. -/
theorem Settled.nodup (h : Settled A messages A') : (carriedAll messages).Nodup := by
  induction h with
  | nil => exact List.nodup_nil
  | group holds sound ordered later ih =>
    rw [List.cons_append, carriedAll_cons, carriedIds_none holds, List.nil_append, carriedAll_append]
    refine List.nodup_append.mpr ⟨ordered.nodup, ih, ?_⟩
    rintro id here other after rfl
    apply later.fresh id after
    rw [ordered.carried]
    exact Finset.mem_union_right _ (List.mem_toFinset.mpr here)

theorem Settled.own (h : Settled A messages A') : ∀ id ∈ carriedAll messages, id ∈ callIds messages := by
  induction h with
  | nil => exact List.forall_mem_nil _
  | group holds sound ordered later ih =>
    intro id member
    rw [List.cons_append, carriedAll_cons, carriedIds_none holds, List.nil_append, carriedAll_append] at member
    rw [List.cons_append, callIds_cons, callIds_append]
    rcases List.mem_append.mp member with here | after
    · obtain ⟨call, called, rfl⟩ := ordered.own id here
      exact List.mem_append_left _ (List.mem_map_of_mem called)
    · exact List.mem_append_right _ (List.mem_append_right _ (ih id after))

theorem Settled.sound (h : Settled A messages A') : ∀ message ∈ messages, resultIdsOf message = none → Sound message := by
  induction h with
  | nil => exact List.forall_mem_nil _
  | group holds sound ordered later ih =>
    intro message member bare
    rw [List.cons_append] at member
    rcases List.mem_cons.mp member with rfl | member
    · exact sound
    · rcases List.mem_append.mp member with carrier | after
      · have carries := ordered.carries message carrier
        rw [bare] at carries
        cases carries
      · exact ih message after bare

/-- The result of `id` stands in the run of carriers right behind the first message that holds its call. -/
def AnsweredBehind (messages : List Message) (id : String) : Prop :=
  ∃ before message run after, messages = before ++ message :: run ++ after ∧ id ∈ (toolCallsOf message).map TranscriptToolCall.id ∧
    id ∉ callIds before ∧ (∀ carrier ∈ run, (resultIdsOf carrier).isSome = true) ∧ id ∈ carriedAll run

theorem Settled.answered (h : Settled A messages A') {id : String} (called : id ∈ callIds messages) (unanswered : id ∉ A) :
    AnsweredBehind messages id := by
  induction h with
  | nil => cases called
  | @group A message carriers rest A' A'' holds sound ordered later ih =>
    by_cases here : id ∈ (toolCallsOf message).map TranscriptToolCall.id
    · obtain ⟨call, member, rfl⟩ := List.mem_map.mp here
      have complete := ordered.complete call member
      rw [ordered.carried, Finset.mem_union, List.mem_toFinset] at complete
      exact ⟨[], message, carriers, rest, rfl, here, by simp [callIds], ordered.carries, complete.resolve_left unanswered⟩
    · have silent := callIds_quiet ordered.quiet
      rw [List.cons_append, callIds_cons, callIds_append, silent] at called
      have after : id ∈ callIds rest := by simpa [here] using called
      have open' : id ∉ A' := by
        rw [ordered.carried, Finset.mem_union, List.mem_toFinset]
        rintro (before | carried)
        · exact unanswered before
        · obtain ⟨call, member, rfl⟩ := ordered.own id carried
          exact here (List.mem_map_of_mem member)
      obtain ⟨before, holder, run, last, rfl, holds', first, carriers', carried⟩ := ih after open'
      refine ⟨message :: carriers ++ before, holder, run, last, by simp, holds', ?_, carriers', carried⟩
      rw [List.cons_append, callIds_cons, callIds_append, silent]
      simpa using ⟨by simpa using here, first⟩

theorem Settled.snoc (h : Settled A messages A') {message : Message} {carriers : List Message} {A'' : Finset String}
    (holds : resultIdsOf message = none) (sound : Sound message)
    (ordered : InOrder (toolCallsOf message) A' (toolCallsOf message) carriers A'') :
    Settled A (messages ++ message :: carriers) A'' := by
  induction h with
  | nil => simpa using Settled.group holds sound ordered Settled.nil
  | group holds' sound' ordered' later ih =>
    have appended := Settled.group holds' sound' ordered' (ih ordered)
    rw [List.append_assoc]
    exact appended

end Settled
end Bike4Mind.Transcript
