import Bike4Mind.Diffs.LineDiff

/-! `buildDiff`: the change as the approval prompt shows it. -/

namespace Bike4Mind.Diffs
open Texts Collections

/-- Unchanged lines kept either side of a change. -/
def CONTEXT_LINES : Nat := 3

def MAX_DIFF_LINES : Nat := 400

inductive LineKind where
  | op (kind : OpKind)
  | gap
deriving DecidableEq

structure ChatDiffLine where
  kind : LineKind
  text : Text
  oldLine : Option Nat
  newLine : Option Nat
deriving DecidableEq

inductive Operation where
  | create
  | overwrite
  | edit
  | delete
deriving DecidableEq

structure ChatDiff where
  path : Text
  operation : Operation
  added : Nat
  removed : Nat
  lines : List ChatDiffLine
  truncated : Bool
deriving DecidableEq

def keepWindow (keep : List Bool) (start finish : Nat) : List Bool :=
  keep.mapIdx fun i kept => kept || (decide (start ≤ i) && decide (i ≤ finish))

/-- Which ops are worth showing: every change, plus `CONTEXT_LINES` of unchanged either side. -/
def keptIndexes (ops : List Op) : List Bool :=
  ops.zipIdx.foldl
    (fun keep entry =>
      if entry.1.kind = .context then keep
      else keepWindow keep (entry.2 - CONTEXT_LINES) (min (ops.length - 1) (entry.2 + CONTEXT_LINES)))
    (List.replicate ops.length false)

def gapLine (skipped : Nat) : ChatDiffLine where
  kind := .gap
  text := ascii (toString skipped) ++ ascii " unchanged line" ++ (if skipped = 1 then [] else ascii "s")
  oldLine := none
  newLine := none

def shownLine (op : Op) : ChatDiffLine := ⟨.op op.kind, op.text, op.oldLine, op.newLine⟩

def flushGap (lines : List ChatDiffLine) (skipped : Nat) : List ChatDiffLine :=
  if skipped = 0 then lines else lines ++ [gapLine skipped]

/-- The loop over the ops that are left, and the gap after it. -/
def render : (ops : List Op) → (keep : List Bool) → (skipped : Nat) → List ChatDiffLine → List ChatDiffLine
  | op :: ops, kept :: keep, skipped, lines =>
    if lines.length < MAX_DIFF_LINES then
      if kept then render ops keep 0 (flushGap lines skipped ++ [shownLine op]) else render ops keep (skipped + 1) lines
    else flushGap lines skipped
  | _, _, skipped, lines => flushGap lines skipped

def buildDiff (path : Text) (operation : Operation) (beforeText afterText : Text) : ChatDiff :=
  let diff := diffLines (splitLines beforeText) (splitLines afterText)
  let lines := render diff.ops (keptIndexes diff.ops) 0 []
  ⟨path, operation, count .add diff.ops, count .remove diff.ops, lines,
    diff.approximate || decide (lines.length ≥ MAX_DIFF_LINES)⟩

/-! ### The lines that are kept -/

section Kept
variable {keep : List Bool} {start finish i : Nat}

theorem keepWindow_length (keep : List Bool) (start finish : Nat) : (keepWindow keep start finish).length = keep.length :=
  List.length_mapIdx

theorem keepWindow_get : (keepWindow keep start finish)[i]? = some true ↔
    keep[i]? = some true ∨ i < keep.length ∧ start ≤ i ∧ i ≤ finish := by
  unfold keepWindow
  rw [List.getElem?_mapIdx]
  cases at_ : keep[i]? with
  | none =>
    have past := List.getElem?_eq_none_iff.mp at_
    simp
    omega
  | some kept =>
    obtain ⟨inside, _⟩ := List.getElem?_eq_some_iff.mp at_
    cases kept <;> simp [inside]

/-- What the loop over the ops has marked: the windows around the changes so far. -/
theorem keptIndexes_fold (entries : List (Op × Nat)) (last : Nat) (i : Nat) :
    let marked := entries.foldl
      (fun keep entry =>
        if entry.1.kind = .context then keep
        else keepWindow keep (entry.2 - CONTEXT_LINES) (min last (entry.2 + CONTEXT_LINES))) keep
    marked.length = keep.length ∧
      (marked[i]? = some true ↔ keep[i]? = some true ∨ i < keep.length ∧ ∃ entry ∈ entries, entry.1.kind ≠ .context ∧
        entry.2 - CONTEXT_LINES ≤ i ∧ i ≤ min last (entry.2 + CONTEXT_LINES)) := by
  induction entries generalizing keep with
  | nil => simp
  | cons entry entries ih =>
    rw [List.foldl_cons]
    by_cases stays : entry.1.kind = .context
    · rw [if_pos stays]
      obtain ⟨length, marks⟩ := @ih keep
      refine ⟨length, marks.trans ?_⟩
      simp [stays]
    · rw [if_neg stays]
      obtain ⟨length, marks⟩ := @ih (keepWindow keep (entry.2 - CONTEXT_LINES) (min last (entry.2 + CONTEXT_LINES)))
      rw [keepWindow_length] at length marks
      refine ⟨length, marks.trans ?_⟩
      rw [keepWindow_get]
      simp only [List.mem_cons, exists_eq_or_imp]
      tauto

end Kept

section Ops
variable {ops : List Op} {i : Nat}

theorem keptIndexes_length (ops : List Op) : (keptIndexes ops).length = ops.length := by
  have length := (@keptIndexes_fold (List.replicate ops.length false) ops.zipIdx (ops.length - 1) 0).1
  rwa [List.length_replicate] at length

/-- A line is kept exactly when a change stands within `CONTEXT_LINES` of it. -/
theorem keptIndexes_get : (keptIndexes ops)[i]? = some true ↔ i < ops.length ∧
    ∃ index op, ops[index]? = some op ∧ op.kind ≠ .context ∧ index ≤ i + CONTEXT_LINES ∧ i ≤ index + CONTEXT_LINES := by
  have marks := (@keptIndexes_fold (List.replicate ops.length false) ops.zipIdx (ops.length - 1) i).2
  rw [List.length_replicate] at marks
  refine marks.trans ?_
  constructor
  · rintro (unmarked | ⟨inside, entry, member, change, from_, upto⟩)
    · obtain ⟨_, same⟩ := List.getElem?_eq_some_iff.mp unmarked
      rw [List.getElem_replicate] at same
      cases same
    · refine ⟨inside, entry.2, entry.1, List.mem_zipIdx_iff_getElem?.mp member, change, ?_, ?_⟩ <;> omega
  · rintro ⟨inside, index, op, at_, change, from_, upto⟩
    refine Or.inr ⟨inside, (op, index), List.mem_zipIdx_iff_getElem?.mpr at_, change, ?_, ?_⟩ <;> simp only <;> omega

end Ops

/-! ### What the prompt displays -/

/-- Every op stands among the lines, but for runs of unchanged ones that a gap with their length stands for. -/
inductive Displays : List Op → List ChatDiffLine → Prop
  | done : Displays [] []
  | shown {ops lines} (op : Op) : Displays ops lines → Displays (op :: ops) (shownLine op :: lines)
  | hidden {ops lines} (run : List Op) : run ≠ [] → (∀ op ∈ run, op.kind = .context) →
      (∀ line, lines.head? = some line → line.kind ≠ .gap) → Displays ops lines →
      Displays (run ++ ops) (gapLine run.length :: lines)

section Displayed
variable {ops run : List Op} {lines rest : List ChatDiffLine} {keep : List Bool} {op : Op}

theorem Displays.change_shown (displays : Displays ops lines) (member : op ∈ ops) (change : op.kind ≠ .context) :
    shownLine op ∈ lines := by
  induction displays with
  | done => cases member
  | shown other _ ih =>
    rcases List.mem_cons.mp member with same | later
    · rw [same]
      exact List.mem_cons_self
    · exact List.mem_cons_of_mem _ (ih later)
  | hidden run _ contexts _ _ ih =>
    rcases List.mem_append.mp member with inside | later
    · exact (change (contexts op inside)).elim
    · exact List.mem_cons_of_mem _ (ih later)

/-- The lines that a pending run of unchanged ones and the ops behind it come to. -/
theorem Displays.flushed (contexts : ∀ op ∈ run, op.kind = .context)
    (opens : ∀ line, rest.head? = some line → line.kind ≠ .gap) (displays : Displays ops rest) :
    ∃ shown, flushGap lines run.length ++ rest = lines ++ shown ∧ Displays (run ++ ops) shown := by
  unfold flushGap
  split
  · rename_i empty
    rw [List.length_eq_zero_iff.mp empty]
    exact ⟨rest, rfl, displays⟩
  · rename_i pending
    refine ⟨gapLine run.length :: rest, List.append_assoc _ _ _, .hidden run ?_ contexts opens displays⟩
    intro empty
    rw [empty] at pending
    exact pending rfl

theorem flushGap_longer (lines : List ChatDiffLine) (skipped : Nat) : lines.length ≤ (flushGap lines skipped).length := by
  unfold flushGap
  split
  · exact le_rfl
  · rw [List.length_append]
    omega

/-- Unless the loop reaches its cap, it displays the run it holds back and every op behind it. -/
theorem render_displays (sized : keep.length = ops.length)
    (marked : ∀ (i : Nat) (op : Op), ops[i]? = some op → op.kind ≠ .context → keep[i]? = some true)
    (contexts : ∀ op ∈ run, op.kind = .context) (below : (render ops keep run.length lines).length < MAX_DIFF_LINES) :
    ∃ shown, render ops keep run.length lines = lines ++ shown ∧ Displays (run ++ ops) shown := by
  induction ops generalizing keep run lines with
  | nil =>
    rw [render] at below ⊢
    · have flushed := @Displays.flushed [] run lines [] contexts (by simp) .done
      rwa [List.append_nil] at flushed
    · simp
    · simp
  | cons op ops ih =>
    cases keep with
    | nil => cases sized
    | cons kept keep =>
      have sized' : keep.length = ops.length := Nat.succ.inj sized
      have marked' : ∀ (i : Nat) (op : Op), ops[i]? = some op → op.kind ≠ .context → keep[i]? = some true := fun i => marked (i + 1)
      rw [render] at below ⊢
      split at below
      · rename_i room
        rw [if_pos room]
        cases kept with
        | true =>
          rw [if_pos rfl] at below ⊢
          obtain ⟨shown, same, displays⟩ := @ih [] (flushGap lines run.length ++ [shownLine op]) keep sized' marked'
            (by simp) below
          obtain ⟨whole, joined, displayed⟩ := @Displays.flushed (op :: ops) run lines (shownLine op :: shown) contexts
            (by
              intro line opens
              cases opens
              exact LineKind.noConfusion) (.shown op displays)
          refine ⟨whole, ?_, displayed⟩
          rw [← joined]
          exact same.trans (List.append_assoc _ _ _)
        | false =>
          rw [if_neg Bool.false_ne_true] at below ⊢
          have unchanged : op.kind = .context := by
            by_contra change
            have kept := marked 0 op rfl change
            cases kept
          have length : run.length + 1 = (run ++ [op]).length := by rw [List.length_append, List.length_singleton]
          rw [length] at below ⊢
          obtain ⟨shown, same, displays⟩ := @ih (run ++ [op]) lines keep sized' marked' (by
            intro other member
            rcases List.mem_append.mp member with inside | last
            · exact contexts other inside
            · rw [List.mem_singleton.mp last]
              exact unchanged) below
          rw [List.append_assoc] at displays
          exact ⟨shown, same, displays⟩
      · rename_i full
        have longer := flushGap_longer lines run.length
        omega

end Displayed

/-! ### Honesty -/

/-- The ops spell both texts with their line numbers, keep as many lines as they can, and unless the result is marked
truncated every line is displayed or counted by a gap. -/
theorem approval_diff_honest (path : Text) (operation : Operation) (beforeText afterText : Text) :
    let before := splitLines beforeText
    let after := splitLines afterText
    let diff := diffLines before after
    let result := buildDiff path operation beforeText afterText
    (diff.ops.filter fun op => op.kind ≠ .add).map (fun op => (op.text, op.oldLine)) =
        (before.zipIdx 1).map (fun line => (line.1, some line.2)) ∧
      (diff.ops.filter fun op => op.kind ≠ .remove).map (fun op => (op.text, op.newLine)) =
        (after.zipIdx 1).map (fun line => (line.1, some line.2)) ∧
      (∀ op ∈ diff.ops, (op.kind = .add → op.oldLine = none) ∧ (op.kind = .remove → op.newLine = none)) ∧
      IsTrimming before after (trimmed before after) ∧
      (diff.approximate = false → ∃ common,
        IsLongestCommon (middleOf before (trimmed before after)) (middleOf after (trimmed before after)) common ∧
        count .context diff.ops = (trimmed before after).1 + (trimmed before after).2 + common) ∧
      result.added = count .add diff.ops ∧ result.removed = count .remove diff.ops ∧
      (result.truncated = false → Displays diff.ops result.lines ∧
        ∀ op ∈ diff.ops, op.kind ≠ .context → shownLine op ∈ result.lines) := by
  intro before after diff result
  have script : Script 1 1 diff.ops before after := diffLines_script before after
  refine ⟨script.spells_before, script.spells_after, fun op => script.one_sided, trimmed_isTrimming before after, ?_, rfl, rfl, ?_⟩
  · intro exact
    exact ⟨_, longestCommon_isLongest _ _, diffLines_contexts before after exact⟩
  · intro whole
    have below : (render diff.ops (keptIndexes diff.ops) 0 []).length < MAX_DIFF_LINES := by
      obtain ⟨_, short⟩ := Bool.or_eq_false_iff.mp whole
      exact Nat.not_le.mp (of_decide_eq_false short)
    have marked : ∀ (i : Nat) (op : Op), diff.ops[i]? = some op → op.kind ≠ .context → (keptIndexes diff.ops)[i]? = some true := by
      intro i op at_ change
      obtain ⟨inside, _⟩ := List.getElem?_eq_some_iff.mp at_
      exact keptIndexes_get.mpr ⟨inside, i, op, at_, change, Nat.le_add_right _ _, Nat.le_add_right _ _⟩
    obtain ⟨shown, same, displays⟩ := @render_displays diff.ops [] [] (keptIndexes diff.ops) (keptIndexes_length _) marked
      (by simp) below
    have lines : result.lines = shown := same
    rw [lines]
    exact ⟨displays, fun op member change => displays.change_shown member change⟩

/-! ### The counts -/

theorem Script.counts {old new : Nat} {ops : List Op} {before after : List Text} (script : Script old new ops before after) :
    count .add ops + before.length = count .remove ops + after.length ∧
      (count .add ops = 0 ∧ count .remove ops = 0 → before = after) := by
  unfold count
  induction script with
  | done => exact ⟨rfl, fun _ => rfl⟩
  | context line _ ih =>
    refine ⟨by simp [contextOp]; omega, fun none => congrArg (line :: ·) (ih.2 ?_)⟩
    simpa [contextOp] using none
  | remove line _ ih => exact ⟨by simp [removeOp]; omega, fun none => by simp [removeOp] at none⟩
  | add line _ ih => exact ⟨by simp [addOp]; omega, fun none => by simp [addOp] at none⟩

theorem diffLines_same (lines : List Text) {op : Op} (member : op ∈ (diffLines lines lines).ops) : op.kind = .context := by
  have start : (trimmed lines lines).1 = lines.length :=
    Nat.le_antisymm (commonPrefix_le lines lines).1 (commonPrefix_longest (Nat.le_refl _) (Nat.le_refl _) rfl)
  have middle : middleOf lines (trimmed lines lines) = [] := by
    rw [middleOf, start, List.drop_length, List.take_nil]
  simp only [diffLines, middle] at member
  rcases List.mem_append.mp member with ahead | behind
  · obtain ⟨_, _, rfl⟩ := List.mem_mapIdx.mp ahead
    rfl
  · obtain ⟨_, _, rfl⟩ := List.mem_mapIdx.mp behind
    rfl

/-- The counts add up, and a prompt that counts no change is about texts with the same lines, truncated or not. -/
theorem change_counts (path : Text) (operation : Operation) (beforeText afterText : Text) :
    let result := buildDiff path operation beforeText afterText
    result.added + (splitLines beforeText).length = result.removed + (splitLines afterText).length ∧
      (result.added = 0 ∧ result.removed = 0 ↔ splitLines beforeText = splitLines afterText) := by
  intro result
  have counts := (diffLines_script (splitLines beforeText) (splitLines afterText)).counts
  refine ⟨counts.1, counts.2, fun same => ?_⟩
  have none (kind : OpKind) (change : kind ≠ .context) : count kind (diffLines (splitLines beforeText) (splitLines afterText)).ops = 0 := by
    rw [← same]
    refine List.length_eq_zero_iff.mpr (List.filter_eq_nil_iff.mpr fun op member => ?_)
    rw [diffLines_same _ member]
    simpa using change.symm
  exact ⟨none .add (by decide), none .remove (by decide)⟩

end Bike4Mind.Diffs
