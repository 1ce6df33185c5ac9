import Bike4Mind.ApplyPatch.Parsing
import Bike4Mind.ApplyPatch.Placement
import Mathlib.Data.List.TakeWhile

/-! What every parsed patch is like: its hunks agree with their bodies, and no context line looks like the end. -/

namespace Bike4Mind.ApplyPatch

/-- The parser takes the line for the end of a hunk or of the patch. -/
def LooksLikeEnd (text : String) : Prop := trim text = END ∨ trim text = END_OF_FILE

instance (text : String) : Decidable (LooksLikeEnd text) := inferInstanceAs (Decidable (_ ∨ _))

/-- A hunk, as far as it has been read. -/
structure PatchChunk.Sound (chunk : PatchChunk) : Prop extends chunk.Parsed where
  context : ∀ line ∈ chunk.body, line.1 = .context → ¬ LooksLikeEnd line.2

def PatchOp.Sound : PatchOp → Prop
  | .update _ _ chunks => ∀ chunk ∈ chunks, chunk.Sound
  | _ => True

section Texts
variable {text : String}

theorem trim_space : trim (" " ++ text) = trim text := by
  unfold trim trimStart
  rw [String.toList_append, show " ".toList = [' '] from rfl, List.singleton_append, List.dropWhile_cons_of_pos (by decide)]

theorem context_text {line : String} (context : startsWith line " " = true ∨ line = "") :
    line = " " ++ slice line 1 ∨ line = "" ∧ slice line 1 = "" := by
  rcases context with spaced | rfl
  · refine Or.inl (String.toList_inj.mp ?_)
    obtain ⟨rest, whole⟩ := List.isPrefixOf_iff_prefix.mp spaced
    have shape : line.toList = ' ' :: rest := whole.symm
    simp only [slice, shape, String.toList_append, String.toList_ofList]
    rfl
  · exact Or.inr ⟨rfl, rfl⟩

theorem context_not_end {line : String} (context : startsWith line " " = true ∨ line = "") (patch : trim line ≠ END)
    (file : trim line ≠ END_OF_FILE) : ¬ LooksLikeEnd (slice line 1) := by
  have same : trim (slice line 1) = trim line := by
    rcases context_text context with spaced | ⟨bare, empty⟩
    · rw [spaced, trim_space, ← spaced]
    · rw [bare, empty] at *
  unfold LooksLikeEnd
  rw [same]
  exact fun looks => looks.elim patch file

end Texts

section Hunks
variable {n n' bare bare' : Nat} {chunk chunk' : PatchChunk} {lines rest : List String} {text : String}

theorem sound_add (sound : chunk.Sound) : (chunk.addLine text).Sound where
  oldLines := by simp [PatchChunk.addLine, sound.oldLines]
  newLines := by simp [PatchChunk.addLine, sound.newLines]
  addedLines := by simp [PatchChunk.addLine, sound.addedLines]
  context line member context := by
    rcases List.mem_append.mp member with old | last
    · exact sound.context line old context
    · cases List.mem_singleton.mp last
      cases context

theorem sound_remove (sound : chunk.Sound) : (chunk.removeLine text).Sound where
  oldLines := by simp [PatchChunk.removeLine, sound.oldLines]
  newLines := by simp [PatchChunk.removeLine, sound.newLines]
  addedLines := by simp [PatchChunk.removeLine, sound.addedLines]
  context line member context := by
    rcases List.mem_append.mp member with old | last
    · exact sound.context line old context
    · cases List.mem_singleton.mp last
      cases context

theorem sound_keep (sound : chunk.Sound) (plain : ¬ LooksLikeEnd text) : (chunk.keepLine text).Sound where
  oldLines := by simp [PatchChunk.keepLine, sound.oldLines]
  newLines := by simp [PatchChunk.keepLine, sound.newLines]
  addedLines := by simp [PatchChunk.keepLine, sound.addedLines]
  context line member context := by
    rcases List.mem_append.mp member with old | last
    · exact sound.context line old context
    · cases List.mem_singleton.mp last
      exact plain

/-- The body ends in that many bare lines. -/
def EndsBare (chunk : PatchChunk) (bare : Nat) : Prop := ∃ before, chunk.body = before ++ List.replicate bare (.context, "")

theorem endsBare_zero : EndsBare chunk 0 := ⟨chunk.body, by simp⟩

theorem endsBare_keep (ends : EndsBare chunk bare) : EndsBare (chunk.keepLine "") (bare + 1) := by
  obtain ⟨before, shape⟩ := ends
  refine ⟨before, ?_⟩
  show chunk.body ++ [(.context, "")] = _
  rw [shape, List.append_assoc, List.replicate_succ']

theorem parseBody_sound (sound : chunk.Sound) (ends : EndsBare chunk bare) (plain : ∀ line ∈ lines, trim line ≠ END)
    (parsed : parseBody n chunk bare lines = .ok (chunk', bare', n', rest)) : chunk'.Sound ∧ EndsBare chunk' bare' := by
  induction lines generalizing n chunk bare with
  | nil =>
    cases parsed
    exact ⟨sound, ends⟩
  | cons line more ih =>
    have later : ∀ other ∈ more, trim other ≠ END := fun other member => plain other (List.mem_cons_of_mem _ member)
    unfold parseBody at parsed
    split at parsed
    · cases parsed
      exact ⟨sound, ends⟩
    split at parsed
    · cases parsed
      exact ⟨⟨⟨sound.oldLines, sound.newLines, sound.addedLines⟩, sound.context⟩, ends⟩
    rename_i open_
    split at parsed
    · cases parsed
      exact ⟨sound, ends⟩
    dsimp only at parsed
    have bare_only : ∀ opening : String, opening ≠ "" → startsWith line opening = true → line ≠ "" := by
      rintro opening some starts rfl
      have none := List.prefix_nil.mp (List.isPrefixOf_iff_prefix.mp starts)
      exact some (String.toList_inj.mp (none.trans String.toList_empty.symm))
    split at parsed
    · rename_i marked
      rw [if_neg (bare_only _ (by decide) marked)] at parsed
      exact ih (sound_add sound) endsBare_zero later parsed
    split at parsed
    · rename_i marked
      rw [if_neg (bare_only _ (by decide) marked)] at parsed
      exact ih (sound_remove sound) endsBare_zero later parsed
    split at parsed
    · rename_i context
      have kept := sound_keep sound (context_not_end context (plain line List.mem_cons_self) open_)
      split at parsed
      · rename_i empty
        have none : slice line 1 = "" := by rw [empty]; rfl
        rw [none] at parsed kept
        exact ih kept (endsBare_keep ends) later parsed
      · exact ih kept endsBare_zero later parsed
    · cases parsed

theorem sound_dropBare (sound : chunk.Sound) (ends : EndsBare chunk bare) : (chunk.dropBare bare).Sound := by
  unfold PatchChunk.dropBare
  split
  · obtain ⟨before, shape⟩ := ends
    have old : chunk.oldLines = (before.filter (·.1 ≠ .added)).map (·.2) ++ List.replicate bare "" := by
      rw [sound.oldLines, shape]
      simp
    have new : chunk.newLines = (before.filter (·.1 ≠ .removed)).map (·.2) ++ List.replicate bare "" := by
      rw [sound.newLines, shape]
      simp
    have added : chunk.addedLines = (before.filter (·.1 = .added)).map (·.2) := by
      rw [sound.addedLines, shape]
      simp
    have cut : ∀ {α : Type} (l : List α) (blank : α),
        (l ++ List.replicate bare blank).take ((l ++ List.replicate bare blank).length - bare) = l := by
      intro α l blank
      rw [List.length_append, List.length_replicate, Nat.add_sub_cancel, List.take_left]
    refine ⟨⟨?_, ?_, ?_⟩, fun line member context => ?_⟩
    · simp only [old, shape, cut]
    · simp only [new, shape, cut]
    · simp only [added, shape, cut]
    · exact sound.context line (List.mem_of_mem_take member) context
  · exact sound

theorem parseHunk_sound (plain : ∀ line ∈ lines, trim line ≠ END) (parsed : parseHunk n lines = .ok (chunk, n', rest)) :
    chunk.Sound := by
  unfold parseHunk at parsed
  dsimp only at parsed
  split at parsed
  · cases parsed
  rename_i read
  split at parsed
  · cases parsed
  cases parsed
  have opened := parseBody_sound ⟨⟨rfl, rfl, rfl⟩, (by simp)⟩ endsBare_zero
    (fun line member => plain line ((List.dropWhile_suffix _).subset member)) read
  exact sound_dropBare opened.1 opened.2

end Hunks

section Patches
variable {n n' : Nat} {lines rest : List String}

theorem parseChunks_sound {chunks : List PatchChunk} (plain : ∀ line ∈ lines, trim line ≠ END)
    (parsed : parseChunks n lines = .ok (chunks, n', rest)) : ∀ chunk ∈ chunks, chunk.Sound := by
  induction n, lines using parseChunks.induct generalizing chunks with
  | case1 n =>
    unfold parseChunks at parsed
    cases parsed
    exact List.forall_mem_nil _
  | case2 n line more header =>
    unfold parseChunks at parsed
    rw [dif_pos header] at parsed
    cases parsed
    exact List.forall_mem_nil _
  | case3 n line more body e read =>
    rw [parseChunks_failed body read] at parsed
    cases parsed
  | case4 n line more body chunk n₁ left read shorter ih =>
    rw [parseChunks_read body read] at parsed
    cases later : parseChunks n₁ left with
    | error e => rw [later] at parsed; cases parsed
    | ok out =>
      rw [later] at parsed
      obtain ⟨chunks, next, rest⟩ := out
      cases parsed
      intro other member
      rcases List.mem_cons.mp member with rfl | member
      · exact parseHunk_sound plain read
      · exact ih (fun line member => plain line ((parseHunk_suffix read).subset member)) later other member

theorem parseSection_sound {line : String} {op : PatchOp} (plain : ∀ line ∈ lines, trim line ≠ END)
    (parsed : parseSection n line lines = .ok (op, n', rest)) : op.Sound := by
  rcases parseSection_cases parsed with ⟨_, _, _, rfl, _⟩ | ⟨_, rfl, _⟩ | ⟨_, _, _, _, _, _, rfl, moved, read⟩
  · trivial
  · trivial
  · exact parseChunks_sound (fun line member => plain line ((parseMove_rest moved).subset member)) read

theorem parseOps_sound {ops : List PatchOp} (plain : ∀ line ∈ lines, trim line ≠ END) (parsed : parseOps n lines = .ok ops) :
    ∀ op ∈ ops, op.Sound := by
  induction n, lines using parseOps.induct generalizing ops with
  | case1 n =>
    unfold parseOps at parsed
    cases parsed
    exact fun op member => nomatch member
  | case2 n line more blank ih =>
    rw [parseOps, if_pos blank] at parsed
    exact ih (fun other member => plain other (List.mem_cons_of_mem _ member)) parsed
  | case3 n line more visible e read =>
    rw [parseOps_failed visible read] at parsed
    cases parsed
  | case4 n line more visible op n₁ left read shorter ih =>
    rw [parseOps_read visible read] at parsed
    cases later : parseOps n₁ left with
    | error e => rw [later] at parsed; cases parsed
    | ok more_ops =>
      rw [later] at parsed
      cases parsed
      have inside : ∀ other ∈ more, trim other ≠ END := fun other member => plain other (List.mem_cons_of_mem _ member)
      intro other member
      rcases List.mem_cons.mp member with rfl | member
      · exact parseSection_sound inside read
      · exact ih (fun line member => inside line ((parseSection_rest read).subset member)) later other member

theorem parsePatch_sound {patchText : String} {ops : List PatchOp} (parsed : parsePatch patchText = .ok ops) : ∀ op ∈ ops, op.Sound := by
  unfold parsePatch at parsed
  dsimp only at parsed
  split at parsed
  · cases parsed
  · split at parsed
    · refine parseOps_sound (fun line member => ?_) parsed
      simpa using List.mem_takeWhile_imp member
    · cases parsed

end Patches
end Bike4Mind.ApplyPatch
