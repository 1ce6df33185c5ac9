import Bike4Mind.FileChunks.TextChunks

/-! `validateAndResplitChunks`: chunks over the limit are sliced, and chunks too short to embed are merged or dropped. -/

namespace Bike4Mind.FileChunks

open Texts

def MIN_CHUNK_CHARS_FLOOR : Nat := 50

def countCodePoints : Text → Nat
  | [] => 0
  | [_] => 1
  | c :: d :: rest => if isHighSurrogate c && isLowSurrogate d then countCodePoints rest + 1 else countCodePoints (d :: rest) + 1

/-- `` `${first} ${second}`.trim() `` -/
def joined (first second : Text) : Text := trim (first ++ [SPACE] ++ second)

structure Merging where
  merged : List Chunk
  pendingShort : Option Chunk
deriving DecidableEq

namespace SmartChunker
variable (self : SmartChunker)

/-- One pass of the validation: are all chunks valid, and the chunks after it. -/
def validatePass (chunks : List Chunk) : Bool × List Chunk :=
  (chunks.all fun chunk => self.countTokens chunk.text ≤ self.chunkTokenLimit,
    chunks.flatMap fun chunk =>
      if self.countTokens chunk.text > self.chunkTokenLimit then self.splitOversizedSegment chunk.text
      else [{ chunk with tokenCount := self.countTokens chunk.text }])

def resplit : (passes : Nat) → List Chunk → List Chunk
  | 0, result => result
  | passes + 1, result =>
    let (allValid, validated) := self.validatePass result
    if allValid then validated else resplit passes validated

def combined (first second : Chunk) : Chunk := ⟨joined first.text second.text, self.countTokens (joined first.text second.text)⟩

def tryMergeBackward (merged : List Chunk) (shortChunk : Chunk) : Option (List Chunk) :=
  match merged.getLast? with
  | none => none
  | some prev =>
    let combined := self.combined prev shortChunk
    if combined.tokenCount > self.chunkTokenLimit then none else some (merged.dropLast ++ [combined])

/-- The pending chunk is merged into the next one, or into the last one emitted, or dropped. -/
def settlePending (merging : Merging) (chunk : Chunk) : List Chunk × Chunk :=
  match merging.pendingShort with
  | none => (merging.merged, chunk)
  | some pendingShort =>
    let combined := self.combined pendingShort chunk
    if combined.tokenCount ≤ self.chunkTokenLimit then (merging.merged, combined)
    else ((self.tryMergeBackward merging.merged pendingShort).getD merging.merged, chunk)

def mergeStep (merging : Merging) (chunk : Chunk) : Merging :=
  let (merged, current) := self.settlePending merging chunk
  if countCodePoints current.text < MIN_CHUNK_CHARS_FLOOR then ⟨merged, some current⟩ else ⟨merged ++ [current], none⟩

def mergeEnd (merging : Merging) : List Chunk :=
  match merging.pendingShort with
  | none => merging.merged
  | some pendingShort =>
    if merging.merged = [] then [pendingShort]
    else (self.tryMergeBackward merging.merged pendingShort).getD merging.merged

def mergeOrDropNearEmptyChunks (chunks : List Chunk) : List Chunk := self.mergeEnd (chunks.foldl self.mergeStep ⟨[], none⟩)

def validateAndResplitChunks (chunks : List Chunk) : List Chunk :=
  self.mergeOrDropNearEmptyChunks ((self.resplit 3 chunks).filter fun chunk => (trim chunk.text).length > 0)

end SmartChunker

/-! ### What may become of a row of chunks -/

/-- Chunks that stand side by side are merged where that fits the limit. A chunk is dropped only when it is under the floor,
fits together with neither neighbour, and is not the last one standing. -/
inductive Settles (self : SmartChunker) : (row missing row' : List Text) → Prop
  | done (row : List Text) : Settles self row [] row
  | merge {left right missing row'} (first second : Text) :
      self.countTokens (joined first second) ≤ self.chunkTokenLimit →
      Settles self (left ++ joined first second :: right) missing row' →
      Settles self (left ++ first :: second :: right) missing row'
  | drop {left right missing row'} (short : Text) : countCodePoints short < MIN_CHUNK_CHARS_FLOOR →
      (∀ prev, left.getLast? = some prev → self.countTokens (joined prev short) > self.chunkTokenLimit) →
      (∀ next, right.head? = some next → self.countTokens (joined short next) > self.chunkTokenLimit) →
      left ++ right ≠ [] → Settles self (left ++ right) missing row' →
      Settles self (left ++ short :: right) (short :: missing) row'

/-- `rest` is left of `whole` when the missing texts are cut out of it one after another. -/
inductive CutOut : (missing : List Text) → (whole rest : Text) → Prop
  | done (whole : Text) : CutOut [] whole whole
  | cut {missing before after rest} (text : Text) : CutOut missing (before ++ after) rest →
      CutOut (text :: missing) (before ++ text ++ after) rest

section Settled
variable {self : SmartChunker} {row row' row'' missing missing' : List Text}

theorem Settles.trans (first : Settles self row missing row') (second : Settles self row' missing' row'') :
    Settles self row (missing ++ missing') row'' := by
  induction first with
  | done row => exact second
  | merge a b fits _ ih => exact .merge a b fits (ih second)
  | drop short floor before after some _ ih => exact .drop short floor before after some (ih second)

theorem Settles.ne_nil (settles : Settles self row missing row') (some : row ≠ []) : row' ≠ [] := by
  induction settles with
  | done row => exact some
  | merge a b fits _ ih => exact ih (List.append_ne_nil_of_right_ne_nil _ (List.cons_ne_nil _ _))
  | drop short floor before after left _ ih => exact ih left

theorem joined_solid (first second : Text) : solid (joined first second) = solid first ++ solid second := by
  unfold joined
  rw [solid_trim, solid_append, solid_add_space]

/-- What is left of a row spells its text without the missing chunks. -/
theorem Settles.cutOut (settles : Settles self row missing row') : CutOut (missing.map solid) (solid row.flatten) (solid row'.flatten) := by
  induction settles with
  | done row => exact .done _
  | @merge left right missing row' a b fits _ ih =>
    have same : solid (left ++ a :: b :: right).flatten = solid (left ++ joined a b :: right).flatten := by
      simp only [List.flatten_append, List.flatten_cons, solid_append, joined_solid, List.append_assoc]
    rw [same]
    exact ih
  | @drop left right missing row' short floor before after some _ ih =>
    have parts : solid (left ++ short :: right).flatten = solid left.flatten ++ solid short ++ solid right.flatten := by
      simp only [List.flatten_append, List.flatten_cons, solid_append, List.append_assoc]
    rw [parts]
    rw [List.flatten_append, solid_append] at ih
    exact .cut _ ih

theorem Settles.missing_short (settles : Settles self row missing row') {short : Text} (member : short ∈ missing) :
    countCodePoints short < MIN_CHUNK_CHARS_FLOOR := by
  induction settles with
  | done row => cases member
  | merge a b fits _ ih => exact ih member
  | drop other floor before after some _ ih =>
    rcases List.mem_cons.mp member with same | later
    · rw [same]
      exact floor
    · exact ih later

end Settled

/-! ### The passes -/

namespace SmartChunker
variable {self : SmartChunker}

/-- The chunk fits, and says how many tokens it has. -/
def Fits (self : SmartChunker) (chunk : Chunk) : Prop :=
  chunk.tokenCount = self.countTokens chunk.text ∧ self.countTokens chunk.text ≤ self.chunkTokenLimit

section Passes
variable {chunks : List Chunk} {chunk : Chunk}

theorem validatePass_fits (counts : self.CountsCharacters) (member : chunk ∈ (self.validatePass chunks).2) : self.Fits chunk := by
  obtain ⟨other, _, within⟩ := List.mem_flatMap.mp member
  split at within
  · exact splitOversizedSegment_fits counts within
  · rename_i fits
    rw [List.mem_singleton.mp within]
    exact ⟨rfl, Nat.not_lt.mp fits⟩

theorem validatePass_spelled (counts : self.CountsCharacters) (chunks : List Chunk) :
    spelled (self.validatePass chunks).2 = spelled chunks := by
  induction chunks with
  | nil => rfl
  | cons chunk chunks ih =>
    have head : spelled (if self.countTokens chunk.text > self.chunkTokenLimit then self.splitOversizedSegment chunk.text
        else [{ chunk with tokenCount := self.countTokens chunk.text }]) = solid chunk.text := by
      split
      · exact splitOversizedSegment_spelled counts chunk.text
      · exact spelled_singleton _ _
    have whole : spelled (chunk :: chunks) = solid chunk.text ++ spelled chunks :=
      spelled_append [chunk] chunks ▸ congrArg (· ++ _) (spelled_singleton chunk.text chunk.tokenCount)
    rw [whole, ← ih, ← head]
    exact spelled_append _ _

theorem resplit_spelled (counts : self.CountsCharacters) (passes : Nat) (chunks : List Chunk) :
    spelled (self.resplit passes chunks) = spelled chunks := by
  induction passes generalizing chunks with
  | zero => rfl
  | succ passes ih =>
    rw [resplit]
    dsimp only
    split
    · exact validatePass_spelled counts chunks
    · rw [ih, validatePass_spelled counts]

theorem resplit_fits (counts : self.CountsCharacters) (passes : Nat) (member : chunk ∈ self.resplit (passes + 1) chunks) :
    self.Fits chunk := by
  induction passes generalizing chunks with
  | zero =>
    rw [resplit] at member
    dsimp only at member
    split at member <;> exact validatePass_fits counts member
  | succ passes ih =>
    rw [resplit] at member
    dsimp only at member
    split at member
    · exact validatePass_fits counts member
    · exact ih member

end Passes

/-! ### The merge -/

section Merge
variable {merging : Merging} {merged chunks : List Chunk} {short chunk : Chunk}

theorem tryMergeBackward_some (merges : self.tryMergeBackward merged short = some chunks) : ∃ before prev, merged = before ++ [prev] ∧
    self.countTokens (joined prev.text short.text) ≤ self.chunkTokenLimit ∧ chunks = before ++ [self.combined prev short] := by
  unfold tryMergeBackward at merges
  cases last : merged.getLast? with
  | none =>
    rw [last] at merges
    cases merges
  | some prev =>
    rw [last] at merges
    dsimp only at merges
    split at merges
    · cases merges
    · rename_i fits
      refine ⟨merged.dropLast, prev, ?_, Nat.not_lt.mp fits, (Option.some.inj merges).symm⟩
      exact (List.dropLast_append_getLast? prev last).symm

theorem tryMergeBackward_none (stays : self.tryMergeBackward merged short = none) :
    ∀ prev, merged.getLast? = some prev → self.countTokens (joined prev.text short.text) > self.chunkTokenLimit := by
  intro prev last
  unfold tryMergeBackward at stays
  rw [last] at stays
  dsimp only at stays
  split at stays
  · assumption
  · cases stays

/-- What is merged fits, and what is pending is under the floor. -/
structure Sound (chunker : SmartChunker) (merging : Merging) : Prop where
  merged : ∀ chunk ∈ merging.merged, chunker.Fits chunk
  pending : ∀ short, merging.pendingShort = some short → chunker.Fits short ∧ countCodePoints short.text < MIN_CHUNK_CHARS_FLOOR

theorem backward_settles (fits : ∀ chunk ∈ merged, self.Fits chunk) (floor : countCodePoints short.text < MIN_CHUNK_CHARS_FLOOR)
    (rest : List Text) (after : ∀ next, rest.head? = some next → self.countTokens (joined short.text next) > self.chunkTokenLimit)
    (some : merged.map (·.text) ++ rest ≠ []) :
    (∀ chunk ∈ (self.tryMergeBackward merged short).getD merged, self.Fits chunk) ∧
      ∃ missing, Settles self (merged.map (·.text) ++ short.text :: rest) missing
        (((self.tryMergeBackward merged short).getD merged).map (·.text) ++ rest) := by
  cases merges : self.tryMergeBackward merged short with
  | some chunks =>
    obtain ⟨before, prev, parts, fit, same⟩ := tryMergeBackward_some merges
    subst parts same
    rw [Option.getD_some]
    constructor
    · intro chunk member
      rcases List.mem_append.mp member with early | last
      · exact fits chunk (List.mem_append_left _ early)
      · rw [List.mem_singleton.mp last]
        exact ⟨rfl, fit⟩
    · refine ⟨[], ?_⟩
      simp only [List.map_append, List.map_cons, List.map_nil, List.append_assoc, List.cons_append, List.nil_append]
      exact .merge _ _ fit (.done _)
  | none =>
    rw [Option.getD_none]
    refine ⟨fits, [short.text], .drop _ floor ?_ after some (.done _)⟩
    intro prev last
    rw [List.getLast?_map] at last
    obtain ⟨chunk, last', same⟩ := Option.map_eq_some_iff.mp last
    rw [← same]
    exact tryMergeBackward_none merges chunk last'

theorem settlePending_settles (sound : self.Sound merging) (fits : self.Fits chunk) (rest : List Text) :
    (∀ other ∈ (self.settlePending merging chunk).1, self.Fits other) ∧ self.Fits (self.settlePending merging chunk).2 ∧
      ∃ missing, Settles self (merging.merged.map (·.text) ++ merging.pendingShort.toList.map (·.text) ++ chunk.text :: rest) missing
        ((self.settlePending merging chunk).1.map (·.text) ++ (self.settlePending merging chunk).2.text :: rest) := by
  unfold settlePending
  cases pending : merging.pendingShort with
  | none =>
    refine ⟨sound.merged, fits, [], ?_⟩
    rw [Option.toList_none, List.map_nil, List.append_nil]
    exact .done _
  | some short =>
    obtain ⟨_, floor⟩ := sound.pending short pending
    rw [Option.toList_some, List.map_singleton, List.append_assoc, List.singleton_append]
    dsimp only
    split
    · rename_i fit
      exact ⟨sound.merged, ⟨rfl, fit⟩, [], .merge _ _ fit (.done _)⟩
    · rename_i exceeds
      have after : ∀ next, (chunk.text :: rest).head? = some next → self.countTokens (joined short.text next) > self.chunkTokenLimit := by
        intro next head
        rw [← Option.some.inj head]
        exact Nat.not_le.mp exceeds
      obtain ⟨merged, settles⟩ := backward_settles sound.merged floor (chunk.text :: rest) after
        (List.append_ne_nil_of_right_ne_nil _ (List.cons_ne_nil _ _))
      exact ⟨merged, fits, settles⟩

theorem mergeStep_settles (sound : self.Sound merging) (fits : self.Fits chunk) (rest : List Text) :
    self.Sound (self.mergeStep merging chunk) ∧
      ∃ missing, Settles self (merging.merged.map (·.text) ++ merging.pendingShort.toList.map (·.text) ++ chunk.text :: rest) missing
        ((self.mergeStep merging chunk).merged.map (·.text) ++ (self.mergeStep merging chunk).pendingShort.toList.map (·.text) ++ rest) := by
  obtain ⟨merged, current, missing, settles⟩ := settlePending_settles sound fits rest
  unfold mergeStep
  dsimp only
  split
  · rename_i floor
    constructor
    · exact ⟨merged, fun short same => by rw [← Option.some.inj same]; exact ⟨current, floor⟩⟩
    · refine ⟨missing, ?_⟩
      rw [Option.toList_some, List.map_singleton, List.append_assoc (List.map _ _) [_]]
      exact settles
  · constructor
    · refine ⟨fun other member => ?_, fun short nothing => by cases nothing⟩
      rcases List.mem_append.mp member with early | last
      · exact merged other early
      · rw [List.mem_singleton.mp last]
        exact current
    · refine ⟨missing, ?_⟩
      rw [Option.toList_none, List.map_nil, List.append_nil, List.map_append, List.map_singleton, List.append_assoc (List.map _ _) [_]]
      exact settles

theorem mergeSteps_settles (sound : self.Sound merging) (fits : ∀ chunk ∈ chunks, self.Fits chunk) :
    self.Sound (chunks.foldl self.mergeStep merging) ∧
      ∃ missing, Settles self (merging.merged.map (·.text) ++ merging.pendingShort.toList.map (·.text) ++ chunks.map (·.text)) missing
        ((chunks.foldl self.mergeStep merging).merged.map (·.text) ++
          (chunks.foldl self.mergeStep merging).pendingShort.toList.map (·.text)) := by
  induction chunks generalizing merging with
  | nil =>
    refine ⟨sound, [], ?_⟩
    rw [List.map_nil, List.append_nil]
    exact .done _
  | cons chunk chunks ih =>
    obtain ⟨sound', missing, settles⟩ := mergeStep_settles sound (fits chunk List.mem_cons_self) (chunks.map (·.text))
    obtain ⟨sound'', missing', settles'⟩ := ih sound' fun other member => fits other (List.mem_cons_of_mem _ member)
    exact ⟨sound'', missing ++ missing', settles.trans settles'⟩

theorem mergeEnd_settles (sound : self.Sound merging) : (∀ chunk ∈ self.mergeEnd merging, self.Fits chunk) ∧
    ∃ missing, Settles self (merging.merged.map (·.text) ++ merging.pendingShort.toList.map (·.text)) missing
      ((self.mergeEnd merging).map (·.text)) := by
  unfold mergeEnd
  cases pending : merging.pendingShort with
  | none =>
    refine ⟨sound.merged, [], ?_⟩
    rw [Option.toList_none, List.map_nil, List.append_nil]
    exact .done _
  | some short =>
    obtain ⟨fits, floor⟩ := sound.pending short pending
    rw [Option.toList_some, List.map_singleton]
    dsimp only
    split
    · rename_i nothing
      rw [nothing]
      refine ⟨fun chunk member => ?_, [], .done _⟩
      rw [List.mem_singleton.mp member]
      exact fits
    · rename_i others
      have settled := @backward_settles self merging.merged short sound.merged floor [] (fun _ none => by cases none) (by
        rw [List.append_nil]
        exact fun none => others (List.map_eq_nil_iff.mp none))
      rw [List.append_nil] at settled
      exact settled

theorem mergeOrDropNearEmptyChunks_settles (fits : ∀ chunk ∈ chunks, self.Fits chunk) :
    (∀ chunk ∈ self.mergeOrDropNearEmptyChunks chunks, self.Fits chunk) ∧
      ∃ missing, Settles self (chunks.map (·.text)) missing ((self.mergeOrDropNearEmptyChunks chunks).map (·.text)) := by
  have start : self.Sound ⟨[], none⟩ := ⟨by simp, by simp⟩
  obtain ⟨sound, missing, settles⟩ := mergeSteps_settles start fits
  obtain ⟨merged, missing', settles'⟩ := mergeEnd_settles sound
  exact ⟨merged, missing ++ missing', settles.trans settles'⟩

end Merge

/-! ### The chunks of a text file -/

def passageChunker : SmartChunker := ⟨.bedrock, 64, by decide⟩

end SmartChunker

end Bike4Mind.FileChunks
