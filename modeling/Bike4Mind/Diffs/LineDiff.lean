import Bike4Mind.Collections.Subsequence
import Bike4Mind.Texts.CodeUnits
import Mathlib.Data.List.Range

/-! `chat/tools/diff.ts`: the line operations that turn one text into another. -/

namespace Bike4Mind.Diffs
open Texts Collections

def MAX_LCS_LINES : Nat := 1500

def NEWLINE : CodeUnit := 0x0a

/-- A trailing newline is a terminator, not an empty final line. -/
def splitLines (text : Text) : List Text :=
  if text = [] then [] else
    let lines := text.splitOn NEWLINE
    if lines.getLast? = some [] then lines.dropLast else lines

inductive OpKind where
  | context
  | add
  | remove
deriving DecidableEq

structure Op where
  kind : OpKind
  text : Text
  oldLine : Option Nat
  newLine : Option Nat
deriving DecidableEq

def contextOp (text : Text) (oldLine newLine : Nat) : Op := ⟨.context, text, some oldLine, some newLine⟩

def removeOp (text : Text) (oldLine : Nat) : Op := ⟨.remove, text, some oldLine, none⟩

def addOp (text : Text) (newLine : Nat) : Op := ⟨.add, text, none, some newLine⟩

def count (kind : OpKind) (ops : List Op) : Nat := (ops.filter fun op => op.kind = kind).length

/-- The walk back through the table, at the lines from `i` and from `j` on. -/
def walk (table : List (List Nat)) (oldStart newStart : Nat) (i j : Nat) : (before after : List Text) → List Op
  | line :: before, line' :: after =>
    if line = line' then
      contextOp line (oldStart + i) (newStart + j) :: walk table oldStart newStart (i + 1) (j + 1) before after
    else if cell table (i + 1) j ≥ cell table i (j + 1) then
      removeOp line (oldStart + i) :: walk table oldStart newStart (i + 1) j before (line' :: after)
    else addOp line' (newStart + j) :: walk table oldStart newStart i (j + 1) (line :: before) after
  | line :: before, [] => removeOp line (oldStart + i) :: walk table oldStart newStart (i + 1) j before []
  | [], line' :: after => addOp line' (newStart + j) :: walk table oldStart newStart i (j + 1) [] after
  | [], [] => []
termination_by before after => before.length + after.length

def lcsOps (before after : List Text) (oldStart newStart : Nat) : List Op :=
  walk (lcsTable after before) oldStart newStart 0 0 before after

def commonSuffix (before after : List Text) : Nat := commonPrefix before.reverse after.reverse

/-- How many lines the trimming takes off the start, and off the end of what is left. -/
def trimmed (before after : List Text) : Nat × Nat :=
  let start := commonPrefix before after
  (start, commonSuffix (before.drop start) (after.drop start))

/-- `lines.slice(prefix, lines.length - suffix)` -/
def middleOf (lines : List Text) (trims : Nat × Nat) : List Text :=
  (lines.drop trims.1).take (lines.length - trims.2 - trims.1)

structure LineDiff where
  ops : List Op
  approximate : Bool
deriving DecidableEq

def diffLines (before after : List Text) : LineDiff :=
  let trims := trimmed before after
  let (start, suffix) := trims
  let head := (before.take start).mapIdx fun index text => contextOp text (index + 1) (index + 1)
  let tail := (before.drop (before.length - suffix)).mapIdx fun index text =>
    contextOp text (before.length - suffix + index + 1) (after.length - suffix + index + 1)
  let middleBefore := middleOf before trims
  let middleAfter := middleOf after trims
  if middleBefore.length = 0 ∧ middleAfter.length = 0 then
    ⟨head ++ tail, false⟩
  else if max middleBefore.length middleAfter.length > MAX_LCS_LINES then
    let middle := (middleBefore.mapIdx fun index text => removeOp text (start + index + 1)) ++
      middleAfter.mapIdx fun index text => addOp text (start + index + 1)
    ⟨head ++ middle ++ tail, true⟩
  else ⟨head ++ lcsOps middleBefore middleAfter (start + 1) (start + 1) ++ tail, false⟩

/-! ### Scripts -/

/-- The operations turn `before`, numbered from `old`, into `after`, numbered from `new`. -/
inductive Script : (old new : Nat) → List Op → (before after : List Text) → Prop
  | done {old new} : Script old new [] [] []
  | context {old new ops before after} (line : Text) : Script (old + 1) (new + 1) ops before after →
      Script old new (contextOp line old new :: ops) (line :: before) (line :: after)
  | remove {old new ops before after} (line : Text) : Script (old + 1) new ops before after →
      Script old new (removeOp line old :: ops) (line :: before) after
  | add {old new ops before after} (line : Text) : Script old (new + 1) ops before after →
      Script old new (addOp line new :: ops) before (line :: after)

section Scripts
variable {old new : Nat} {ops ops' : List Op} {before before' after after' lines : List Text}

theorem Script.append (first : Script old new ops before after)
    (second : Script (old + before.length) (new + after.length) ops' before' after') :
    Script old new (ops ++ ops') (before ++ before') (after ++ after') := by
  induction first with
  | done => exact second
  | @context old new ops before after line _ ih =>
    refine .context line (ih ?_)
    rwa [List.length_cons, List.length_cons, ← Nat.add_assoc, ← Nat.add_assoc, Nat.add_right_comm, Nat.add_right_comm new] at second
  | @remove old new ops before after line _ ih =>
    refine .remove line (ih ?_)
    rwa [List.length_cons, ← Nat.add_assoc, Nat.add_right_comm] at second
  | @add old new ops before after line _ ih =>
    refine .add line (ih ?_)
    rwa [List.length_cons, ← Nat.add_assoc, Nat.add_right_comm new] at second

theorem contexts_script (lines : List Text) (old new : Nat) :
    Script (old + 1) (new + 1) (lines.mapIdx fun index text => contextOp text (old + index + 1) (new + index + 1)) lines lines := by
  induction lines generalizing old new with
  | nil => exact .done
  | cons line lines ih =>
    rw [List.mapIdx_cons]
    refine .context line ?_
    simpa only [Nat.add_assoc, Nat.add_comm 1] using ih (old + 1) (new + 1)

theorem removes_script (lines : List Text) (old new : Nat) :
    Script (old + 1) new (lines.mapIdx fun index text => removeOp text (old + index + 1)) lines [] := by
  induction lines generalizing old with
  | nil => exact .done
  | cons line lines ih =>
    rw [List.mapIdx_cons]
    refine .remove line ?_
    simpa only [Nat.add_assoc, Nat.add_comm 1] using ih (old + 1)

theorem adds_script (lines : List Text) (old new : Nat) :
    Script old (new + 1) (lines.mapIdx fun index text => addOp text (new + index + 1)) [] lines := by
  induction lines generalizing new with
  | nil => exact .done
  | cons line lines ih =>
    rw [List.mapIdx_cons]
    refine .add line ?_
    simpa only [Nat.add_assoc, Nat.add_comm 1] using ih (new + 1)

/-- Whatever the table says, the walk writes a script. -/
theorem walk_script (table : List (List Nat)) (oldStart newStart i j : Nat) (before after : List Text) :
    Script (oldStart + i) (newStart + j) (walk table oldStart newStart i j before after) before after := by
  induction i, j, before, after using walk.induct table with
  | case1 i j before line after ih =>
    rw [walk, if_pos rfl]
    exact .context line ih
  | case2 i j line before line' after differs keeps ih =>
    rw [walk, if_neg differs, if_pos keeps]
    exact .remove line ih
  | case3 i j line before line' after differs keeps ih =>
    rw [walk, if_neg differs, if_neg keeps]
    exact .add line' ih
  | case4 i j line before ih =>
    rw [walk]
    exact .remove line ih
  | case5 i j line' after ih =>
    rw [walk]
    exact .add line' ih
  | case6 =>
    rw [walk]
    exact .done

theorem Script.spells_before (script : Script old new ops before after) :
    (ops.filter fun op => op.kind ≠ .add).map (fun op => (op.text, op.oldLine)) =
      (before.zipIdx old).map fun line => (line.1, some line.2) := by
  induction script with
  | done => rfl
  | context line _ ih => exact congrArg (_ :: ·) ih
  | remove line _ ih => exact congrArg (_ :: ·) ih
  | add line _ ih => exact ih

theorem Script.spells_after (script : Script old new ops before after) :
    (ops.filter fun op => op.kind ≠ .remove).map (fun op => (op.text, op.newLine)) =
      (after.zipIdx new).map fun line => (line.1, some line.2) := by
  induction script with
  | done => rfl
  | context line _ ih => exact congrArg (_ :: ·) ih
  | remove line _ ih => exact ih
  | add line _ ih => exact congrArg (_ :: ·) ih

theorem Script.one_sided (script : Script old new ops before after) {op : Op} (member : op ∈ ops) :
    (op.kind = .add → op.oldLine = none) ∧ (op.kind = .remove → op.newLine = none) := by
  induction script with
  | done => cases member
  | context line _ ih =>
    rcases List.mem_cons.mp member with same | later
    · subst same
      exact ⟨OpKind.noConfusion, OpKind.noConfusion⟩
    · exact ih later
  | remove line _ ih =>
    rcases List.mem_cons.mp member with same | later
    · subst same
      exact ⟨OpKind.noConfusion, fun _ => rfl⟩
    · exact ih later
  | add line _ ih =>
    rcases List.mem_cons.mp member with same | later
    · subst same
      exact ⟨fun _ => rfl, OpKind.noConfusion⟩
    · exact ih later

end Scripts

/-! ### How many lines stay -/

section Counts
variable {ops ops' : List Op} {before after : List Text} {i j : Nat}

theorem count_append (kind : OpKind) (ops ops' : List Op) : count kind (ops ++ ops') = count kind ops + count kind ops' := by
  unfold count
  rw [List.filter_append, List.length_append]

theorem count_contexts (lines : List Text) (old new : Nat → Nat) :
    count .context (lines.mapIdx fun index text => contextOp text (old index) (new index)) = lines.length := by
  unfold count
  rw [List.filter_eq_self.mpr, List.length_mapIdx]
  intro op member
  obtain ⟨index, _, same⟩ := List.mem_mapIdx.mp member
  rw [← same]
  rfl

theorem drop_cons {lines rest : List Text} {line : Text} {i : Nat} (opens : lines.drop i = line :: rest) :
    i + 1 ≤ lines.length ∧ lines.drop (i + 1) = rest := by
  have inside : i < lines.length := by
    by_contra past
    rw [List.drop_eq_nil_of_le (Nat.not_lt.mp past)] at opens
    cases opens
  rw [List.drop_eq_getElem_cons inside] at opens
  exact ⟨inside, (List.cons.inj opens).2⟩

/-- The walk keeps as many lines as the two sides have in common at most. -/
theorem walk_contexts (before after : List Text) (oldStart newStart i j : Nat) (left right : List Text)
    (row : i ≤ before.length) (column : j ≤ after.length) (atLeft : before.drop i = left) (atRight : after.drop j = right) :
    count .context (walk (lcsTable after before) oldStart newStart i j left right) = longestCommon left right := by
  induction i, j, left, right using walk.induct (lcsTable after before) with
  | case1 i j left line right ih =>
    obtain ⟨row', left'⟩ := drop_cons atLeft
    obtain ⟨column', right'⟩ := drop_cons atRight
    rw [walk, if_pos rfl, longestCommon_cons, if_pos rfl, ← ih row' column' left' right']
    rfl
  | case2 i j line left line' right differs keeps ih =>
    obtain ⟨row', left'⟩ := drop_cons atLeft
    obtain ⟨column', right'⟩ := drop_cons atRight
    rw [walk, if_neg differs, if_pos keeps, longestCommon_cons, if_neg differs]
    rw [cell_eq row' column, cell_eq row column', left', right', atLeft, atRight] at keeps
    rw [Nat.max_eq_left keeps, ← ih row' column left' atRight]
    rfl
  | case3 i j line left line' right differs keeps ih =>
    obtain ⟨row', left'⟩ := drop_cons atLeft
    obtain ⟨column', right'⟩ := drop_cons atRight
    rw [walk, if_neg differs, if_neg keeps, longestCommon_cons, if_neg differs]
    rw [cell_eq row' column, cell_eq row column', left', right', atLeft, atRight] at keeps
    rw [Nat.max_eq_right (Nat.le_of_not_le keeps), ← ih row column' atLeft right']
    rfl
  | case4 i j line left ih =>
    obtain ⟨row', left'⟩ := drop_cons atLeft
    have rest := ih row' column left' atRight
    rw [longestCommon_nil] at rest ⊢
    rw [walk]
    exact rest
  | case5 i j line' right ih =>
    obtain ⟨column', right'⟩ := drop_cons atRight
    have rest := ih row column' atLeft right'
    rw [longestCommon_nil_left] at rest ⊢
    rw [walk]
    exact rest
  | case6 =>
    rw [walk, longestCommon_nil]
    rfl

end Counts

/-! ### Trimming -/

section Trimming
variable (before after : List Text)

theorem commonSuffix_drop : before.drop (before.length - commonSuffix before after) =
    after.drop (after.length - commonSuffix before after) := by
  have same := commonPrefix_take before.reverse after.reverse
  rw [List.take_reverse, List.take_reverse] at same
  exact List.reverse_injective same

theorem commonSuffix_le : commonSuffix before after ≤ before.length ∧ commonSuffix before after ≤ after.length := by
  have bound := commonPrefix_le before.reverse after.reverse
  rw [List.length_reverse, List.length_reverse] at bound
  exact bound

theorem trimmed_le : (trimmed before after).1 + (trimmed before after).2 ≤ before.length ∧
    (trimmed before after).1 + (trimmed before after).2 ≤ after.length := by
  obtain ⟨left, right⟩ := commonPrefix_le before after
  obtain ⟨left', right'⟩ := commonSuffix_le (before.drop (commonPrefix before after)) (after.drop (commonPrefix before after))
  rw [List.length_drop] at left' right'
  simp only [trimmed]
  omega

theorem middleOf_between {lines : List Text} {trims : Nat × Nat} (fits : trims.1 + trims.2 ≤ lines.length) :
    lines.take trims.1 ++ middleOf lines trims ++ lines.drop (lines.length - trims.2) = lines := by
  have rest : lines.drop (lines.length - trims.2) = (lines.drop trims.1).drop (lines.length - trims.2 - trims.1) := by
    rw [List.drop_drop]
    congr 1
    omega
  unfold middleOf
  rw [rest, List.append_assoc, List.take_append_drop, List.take_append_drop]

theorem middleOf_length {lines : List Text} {trims : Nat × Nat} (fits : trims.1 + trims.2 ≤ lines.length) :
    (middleOf lines trims).length = lines.length - trims.2 - trims.1 := by
  unfold middleOf
  rw [List.length_take, List.length_drop]
  omega

theorem trimmed_head : before.take (trimmed before after).1 = after.take (trimmed before after).1 :=
  commonPrefix_take before after

theorem trimmed_tail : before.drop (before.length - (trimmed before after).2) =
    after.drop (after.length - (trimmed before after).2) := by
  have same := commonSuffix_drop (before.drop (trimmed before after).1) (after.drop (trimmed before after).1)
  obtain ⟨left, right⟩ := trimmed_le before after
  rw [List.drop_drop, List.drop_drop, List.length_drop, List.length_drop] at same
  have opens : (trimmed before after).1 + (before.length - (trimmed before after).1 - (trimmed before after).2) =
      before.length - (trimmed before after).2 := by omega
  have opens' : (trimmed before after).1 + (after.length - (trimmed before after).1 - (trimmed before after).2) =
      after.length - (trimmed before after).2 := by omega
  rw [← opens, ← opens']
  exact same

theorem trimmed_parts : before.take (trimmed before after).1 ++ middleOf before (trimmed before after) ++
      before.drop (before.length - (trimmed before after).2) = before ∧
    before.take (trimmed before after).1 ++ middleOf after (trimmed before after) ++
      before.drop (before.length - (trimmed before after).2) = after := by
  obtain ⟨left, right⟩ := trimmed_le before after
  refine ⟨middleOf_between left, ?_⟩
  rw [trimmed_head, trimmed_tail]
  exact middleOf_between right

/-- The longest common start, and the longest common end that does not overlap it. -/
structure IsTrimming (trims : Nat × Nat) : Prop where
  fits : trims.1 + trims.2 ≤ before.length ∧ trims.1 + trims.2 ≤ after.length
  head : before.take trims.1 = after.take trims.1
  tail : before.drop (before.length - trims.2) = after.drop (after.length - trims.2)
  headLongest : ∀ count ≤ before.length, count ≤ after.length → before.take count = after.take count → count ≤ trims.1
  tailLongest : ∀ count, trims.1 + count ≤ before.length → trims.1 + count ≤ after.length →
    before.drop (before.length - count) = after.drop (after.length - count) → count ≤ trims.2

theorem trimmed_isTrimming : IsTrimming before after (trimmed before after) where
  fits := trimmed_le before after
  head := trimmed_head before after
  tail := trimmed_tail before after
  headLongest _ left right same := commonPrefix_longest left right same
  tailLongest count left right same := by
    have ends (lines : List Text) (inside : (trimmed before after).1 + count ≤ lines.length) :
        (lines.drop (trimmed before after).1).reverse.take count = (lines.drop (lines.length - count)).reverse := by
      rw [List.take_reverse, List.drop_drop, List.length_drop]
      congr 2
      omega
    apply commonPrefix_longest
    · rw [List.length_reverse, List.length_drop]
      exact Nat.le_sub_of_add_le (Nat.add_comm _ _ ▸ left)
    · rw [List.length_reverse, List.length_drop]
      exact Nat.le_sub_of_add_le (Nat.add_comm _ _ ▸ right)
    · exact (ends before left).trans ((congrArg List.reverse same).trans (ends after right).symm)

end Trimming

/-! ### The whole diff -/

section Whole
variable (before after : List Text)

/-- A script for the middles is one for the whole lines once the trimmed lines stand around it. -/
theorem trimmed_script {middle : List Op} (script : Script ((trimmed before after).1 + 1) ((trimmed before after).1 + 1) middle
      (middleOf before (trimmed before after)) (middleOf after (trimmed before after))) :
    Script 1 1 (((before.take (trimmed before after).1).mapIdx fun index text => contextOp text (index + 1) (index + 1)) ++ middle ++
      (before.drop (before.length - (trimmed before after).2)).mapIdx fun index text =>
        contextOp text (before.length - (trimmed before after).2 + index + 1)
          (after.length - (trimmed before after).2 + index + 1)) before after := by
  obtain ⟨left, right⟩ := trimmed_le before after
  obtain ⟨parts, parts'⟩ := trimmed_parts before after
  have head := contexts_script (before.take (trimmed before after).1) 0 0
  simp only [Nat.zero_add] at head
  have taken : (before.take (trimmed before after).1).length = (trimmed before after).1 := by
    rw [List.length_take]
    omega
  have joined := head.append (by
    rw [taken, Nat.add_comm]
    exact script)
  have tail := contexts_script (before.drop (before.length - (trimmed before after).2))
    (before.length - (trimmed before after).2) (after.length - (trimmed before after).2)
  have whole := joined.append (by
    rw [List.length_append, List.length_append, taken, middleOf_length left, middleOf_length right]
    have start : 1 + ((trimmed before after).1 + (before.length - (trimmed before after).2 - (trimmed before after).1)) =
        before.length - (trimmed before after).2 + 1 := by omega
    have start' : 1 + ((trimmed before after).1 + (after.length - (trimmed before after).2 - (trimmed before after).1)) =
        after.length - (trimmed before after).2 + 1 := by omega
    rw [start, start']
    exact tail)
  rwa [parts, parts'] at whole

theorem diffLines_script : Script 1 1 (diffLines before after).ops before after := by
  simp only [diffLines]
  split
  · rename_i none
    rw [List.length_eq_zero_iff, List.length_eq_zero_iff] at none
    have script := @trimmed_script before after [] (by
      rw [none.1, none.2]
      exact .done)
    rwa [List.append_nil] at script
  · split
    · apply trimmed_script
      have removes := removes_script (middleOf before (trimmed before after)) (trimmed before after).1 ((trimmed before after).1 + 1)
      have adds := adds_script (middleOf after (trimmed before after))
        ((trimmed before after).1 + 1 + (middleOf before (trimmed before after)).length) (trimmed before after).1
      have script := removes.append adds
      rwa [List.append_nil, List.nil_append] at script
    · apply trimmed_script
      exact walk_script _ _ _ 0 0 _ _

/-- Unless the middles are too long for the table, as many lines stay as the trimming takes and the middles have in common. -/
theorem diffLines_contexts (exact : (diffLines before after).approximate = false) : count .context (diffLines before after).ops =
    (trimmed before after).1 + (trimmed before after).2 +
      longestCommon (middleOf before (trimmed before after)) (middleOf after (trimmed before after)) := by
  obtain ⟨left, right⟩ := trimmed_le before after
  have head : (before.take (trimmed before after).1).length = (trimmed before after).1 := by
    rw [List.length_take]
    omega
  have tail : (before.drop (before.length - (trimmed before after).2)).length = (trimmed before after).2 := by
    rw [List.length_drop]
    omega
  simp only [diffLines] at exact ⊢
  split
  · rename_i none
    rw [List.length_eq_zero_iff, List.length_eq_zero_iff] at none
    rw [count_append, count_contexts, count_contexts, none.1, longestCommon_nil_left, head, tail, Nat.add_zero]
  · rename_i some
    rw [if_neg some] at exact
    split
    · rename_i long
      rw [if_pos long] at exact
      cases exact
    · rw [count_append, count_append, count_contexts, count_contexts, head, tail]
      unfold lcsOps
      have middle := walk_contexts (middleOf before (trimmed before after)) (middleOf after (trimmed before after))
        ((trimmed before after).1 + 1) ((trimmed before after).1 + 1) 0 0 _ _ (Nat.zero_le _) (Nat.zero_le _) rfl rfl
      rw [List.drop_zero, List.drop_zero] at middle
      rw [middle]
      omega

end Whole

end Bike4Mind.Diffs
