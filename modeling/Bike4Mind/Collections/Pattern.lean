import Mathlib.Data.List.Basic

/-! Text patterns made of literal characters, escaped characters and `^`, read from their written form. -/

namespace Collections.Pattern

/-- The characters that stand for themselves only when escaped. -/
def SYNTAX : List Char := ['.', '*', '+', '?', '^', '$', '\x7b', '\x7d', '(', ')', '|', '[', ']', '\\']

inductive Item where
  | start
  | char (c : Char)
  deriving DecidableEq

/-- `none` for a pattern with a class, a group, an alternative or a repetition. -/
def compile : List Char → Option (List Item)
  | [] => some []
  | '\\' :: c :: rest => if c ∈ SYNTAX then (compile rest).map (.char c :: ·) else none
  | '^' :: rest => (compile rest).map (.start :: ·)
  | c :: rest => if c ∈ SYNTAX then none else (compile rest).map (.char c :: ·)

def matchesHere : List Item → (atStart : Bool) → List Char → Bool
  | [], _, _ => true
  | .start :: rest, atStart, text => atStart && matchesHere rest atStart text
  | .char c :: rest, _, d :: text => c == d && matchesHere rest false text
  | .char _ :: _, _, [] => false

/-- Whether the pattern matches from some position on. -/
def search (items : List Item) : (atStart : Bool) → List Char → Bool
  | atStart, [] => matchesHere items atStart []
  | atStart, c :: text => matchesHere items atStart (c :: text) || search items false text

/-- `replace(/[.*+?^${}()|[\]\\]/g, '\\$&')` -/
def escape (text : List Char) : List Char := text.flatMap fun c => if c ∈ SYNTAX then ['\\', c] else [c]

variable {rest text opening : List Char} {items : List Item}

theorem compile_literal {c : Char} (plain : c ∉ SYNTAX) : compile (c :: rest) = (compile rest).map (.char c :: ·) := by
  have backslash : c ≠ '\\' := by
    rintro rfl
    exact plain (by decide)
  have caret : c ≠ '^' := by
    rintro rfl
    exact plain (by decide)
  rw [compile.eq_4 c rest (fun _ _ same => absurd same backslash) caret, if_neg plain]

theorem compile_escape : compile (escape text) = some (text.map .char) := by
  induction text with
  | nil => rfl
  | cons c rest ih =>
    show compile ((if c ∈ SYNTAX then ['\\', c] else [c]) ++ escape rest) = _
    by_cases escaped : c ∈ SYNTAX
    · rw [if_pos escaped, List.cons_append, List.cons_append, List.nil_append, compile, if_pos escaped, ih]
      rfl
    · rw [if_neg escaped, List.cons_append, List.nil_append, compile_literal escaped, ih]
      rfl

theorem matchesHere_literal {atStart : Bool} : matchesHere (opening.map .char) atStart text = opening.isPrefixOf text := by
  induction opening generalizing text atStart with
  | nil => rfl
  | cons c rest ih =>
    cases text with
    | nil => rfl
    | cons d text =>
      rw [List.map_cons, matchesHere, ih]
      rfl

theorem search_elsewhere : search (.start :: items) false text = false := by
  induction text with
  | nil => rfl
  | cons c text ih =>
    rw [search, ih]
    rfl

/-- A pattern that starts with `^` is tried at the beginning only. -/
theorem search_anchored : search (.start :: items) true text = matchesHere items true text := by
  cases text with
  | nil => rw [search, matchesHere, Bool.true_and]
  | cons c text => rw [search, search_elsewhere, Bool.or_false, matchesHere, Bool.true_and]

def test (pattern text : List Char) : Bool := (compile pattern).any (search · true text)

/-- An escaped text behind `^` matches what starts with the text, whatever characters it has. -/
theorem test_anchored : test ('^' :: escape opening) text = opening.isPrefixOf text := by
  unfold test
  rw [compile, compile_escape]
  show search (.start :: opening.map .char) true text = _
  rw [search_anchored, matchesHere_literal]

end Collections.Pattern
