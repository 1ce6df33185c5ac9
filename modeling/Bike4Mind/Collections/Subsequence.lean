import Mathlib.Data.List.Basic
import Mathlib.Data.List.GetD
import Mathlib.Data.List.Infix
import Mathlib.Order.Defs.LinearOrder

/-! Common prefixes and longest common subsequences of two lists, and the table that holds the latter for all suffixes. -/

namespace Collections

variable {α : Type} [DecidableEq α]

/-! ### Common prefixes -/

def commonPrefix : List α → List α → Nat
  | x :: a, y :: b => if x = y then commonPrefix a b + 1 else 0
  | _, _ => 0

section Prefix
variable {a b : List α}

theorem commonPrefix_le (a b : List α) : commonPrefix a b ≤ a.length ∧ commonPrefix a b ≤ b.length := by
  induction a generalizing b with
  | nil =>
    rw [commonPrefix.eq_def]
    exact ⟨Nat.zero_le _, Nat.zero_le _⟩
  | cons x a ih =>
    cases b with
    | nil => exact ⟨Nat.zero_le _, Nat.zero_le _⟩
    | cons y b =>
      have rest := ih b
      unfold commonPrefix
      rw [List.length_cons, List.length_cons]
      split <;> omega

theorem commonPrefix_take (a b : List α) : a.take (commonPrefix a b) = b.take (commonPrefix a b) := by
  induction a generalizing b with
  | nil => rfl
  | cons x a ih =>
    cases b with
    | nil => rfl
    | cons y b =>
      unfold commonPrefix
      split
      · rename_i same
        rw [List.take_succ_cons, List.take_succ_cons, same, ih b]
      · rfl

theorem commonPrefix_longest {count : Nat} (left : count ≤ a.length) (right : count ≤ b.length) (same : a.take count = b.take count) :
    count ≤ commonPrefix a b := by
  induction a generalizing b count with
  | nil => exact left
  | cons x a ih =>
    cases b with
    | nil => exact right
    | cons y b =>
      cases count with
      | zero => exact Nat.zero_le _
      | succ count =>
        rw [List.take_succ_cons, List.take_succ_cons] at same
        obtain ⟨head, tail⟩ := List.cons.inj same
        unfold commonPrefix
        rw [if_pos head]
        exact Nat.succ_le_succ (ih (Nat.le_of_succ_le_succ left) (Nat.le_of_succ_le_succ right) tail)

end Prefix

/-! ### Longest common subsequences -/

/-- The length of the longest lists that are subsequences of both. -/
def IsLongestCommon (a b : List α) (count : Nat) : Prop :=
  (∃ l : List α, l.Sublist a ∧ l.Sublist b ∧ l.length = count) ∧
    ∀ l : List α, l.Sublist a → l.Sublist b → l.length ≤ count

def longestCommon : List α → List α → Nat
  | x :: a, y :: b => if x = y then longestCommon a b + 1 else max (longestCommon a (y :: b)) (longestCommon (x :: a) b)
  | _, _ => 0
termination_by a b => a.length + b.length

section Longest
variable {x y : α} {a b : List α}

theorem longestCommon_nil (a : List α) : longestCommon a [] = 0 := by
  rw [longestCommon]
  simp

theorem longestCommon_nil_left (b : List α) : longestCommon [] b = 0 := by
  rw [longestCommon]
  simp

theorem longestCommon_cons : longestCommon (x :: a) (y :: b) =
    if x = y then longestCommon a b + 1 else max (longestCommon a (y :: b)) (longestCommon (x :: a) b) := by
  rw [longestCommon]

theorem longestCommon_isLongest (a b : List α) : IsLongestCommon a b (longestCommon a b) := by
  induction size : a.length + b.length using Nat.strong_induction_on generalizing a b with
  | _ size ih =>
    subst size
    cases a with
    | nil =>
      rw [longestCommon_nil_left]
      refine ⟨⟨[], List.Sublist.refl _, List.nil_sublist _, rfl⟩, fun l left _ => ?_⟩
      rw [List.sublist_nil.mp left]
      exact le_rfl
    | cons x a =>
      cases b with
      | nil =>
        rw [longestCommon_nil]
        refine ⟨⟨[], List.nil_sublist _, List.Sublist.refl _, rfl⟩, fun l _ right => ?_⟩
        rw [List.sublist_nil.mp right]
        exact le_rfl
      | cons y b =>
        rw [longestCommon_cons]
        by_cases same : x = y
        · subst same
          obtain ⟨⟨l, left, right, count⟩, bound⟩ := ih (a.length + b.length) (by simp only [List.length_cons]; omega) a b rfl
          rw [if_pos rfl]
          refine ⟨⟨x :: l, left.cons_cons x, right.cons_cons x, congrArg (· + 1) count⟩, fun l left right => ?_⟩
          cases l with
          | nil => exact Nat.zero_le _
          | cons z l => exact Nat.succ_le_succ (bound l left.tail right.tail)
        · obtain ⟨⟨l, left, right, count⟩, bound⟩ :=
            ih (a.length + (y :: b).length) (by simp only [List.length_cons]; omega) a (y :: b) rfl
          obtain ⟨⟨l', left', right', count'⟩, bound'⟩ :=
            ih ((x :: a).length + b.length) (by simp only [List.length_cons]; omega) (x :: a) b rfl
          rw [if_neg same]
          constructor
          · rcases Nat.le_total (longestCommon (x :: a) b) (longestCommon a (y :: b)) with first | second
            · rw [Nat.max_eq_left first]
              exact ⟨l, left.cons x, right, count⟩
            · rw [Nat.max_eq_right second]
              exact ⟨l', left', right'.cons y, count'⟩
          · intro l left right
            rcases List.sublist_cons_iff.mp left with skips | ⟨r, opens, _⟩
            · exact le_trans (bound l skips right) (le_max_left _ _)
            · rcases List.sublist_cons_iff.mp right with skips | ⟨r', opens', _⟩
              · exact le_trans (bound' l left skips) (le_max_right _ _)
              · rw [opens] at opens'
                exact (same (List.cons.inj opens').1).elim

end Longest

/-! ### The table -/

/-- A row of the table, from the row below it: `max` of the cells below and to the right, or one more than the cell
across when the lines are equal. -/
def tableRow (x : α) : List α → (below : List Nat) → List Nat
  | [], _ => [0]
  | y :: after, below =>
    let right := tableRow x after below.tail
    (if x = y then below.tail.headD 0 + 1 else max (below.headD 0) (right.headD 0)) :: right

/-- The rows for every suffix of `before`, the last one first filled. -/
def lcsTable (after : List α) : (before : List α) → List (List Nat)
  | [] => [List.replicate (after.length + 1) 0]
  | x :: before => tableRow x after ((lcsTable after before).headD []) :: lcsTable after before

def cell (table : List (List Nat)) (i j : Nat) : Nat := (table.getD i []).getD j 0

section Table
variable {x : α} {before after : List α} {i j : Nat}

omit [DecidableEq α] in
omit [DecidableEq α] in
theorem row_headD (f : List α → Nat) (after : List α) : (after.tails.map f).headD 0 = f after := by
  cases after <;> rfl

theorem tableRow_eq (x : α) (before after : List α) :
    tableRow x after (after.tails.map (longestCommon before)) = after.tails.map (longestCommon (x :: before)) := by
  induction after with
  | nil =>
    show [0] = [longestCommon (x :: before) []]
    rw [longestCommon_nil]
  | cons y after ih =>
    rw [List.tails_cons, List.map_cons, List.map_cons, tableRow, List.tail_cons, ih, row_headD, row_headD, List.headD_cons,
      longestCommon_cons]

theorem lcsTable_row (inside : i ≤ before.length) :
    (lcsTable after before).getD i [] = after.tails.map (longestCommon (before.drop i)) := by
  induction before generalizing i with
  | nil =>
    rw [Nat.le_zero.mp inside]
    show List.replicate (after.length + 1) 0 = _
    refine (List.eq_replicate_iff.mpr ⟨?_, fun count member => ?_⟩).symm
    · rw [List.length_map, List.length_tails]
    · obtain ⟨tail, _, same⟩ := List.mem_map.mp member
      rw [← same]
      exact longestCommon_nil_left tail
  | cons x before ih =>
    cases i with
    | zero =>
      have below := @ih 0 (Nat.zero_le _)
      have first : (lcsTable after before).headD [] = (lcsTable after before).getD 0 [] := by
        cases lcsTable after before <;> rfl
      show tableRow x after ((lcsTable after before).headD []) = _
      rw [first, below]
      exact tableRow_eq x before after
    | succ i => exact ih (Nat.le_of_succ_le_succ inside)

/-- Each cell holds the longest common subsequence of the two suffixes. -/
theorem cell_eq (row : i ≤ before.length) (column : j ≤ after.length) :
    cell (lcsTable after before) i j = longestCommon (before.drop i) (after.drop j) := by
  unfold cell
  rw [lcsTable_row row, List.getD_eq_getElem _ _ (by rw [List.length_map, List.length_tails]; omega), List.getElem_map]
  rw [List.getElem_tails]

end Table

end Collections
