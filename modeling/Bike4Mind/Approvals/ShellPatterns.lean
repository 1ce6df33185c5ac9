import Bike4Mind.Texts.PosixPaths

/-! The patterns that a remembered shell approval covers commands by. -/

namespace Bike4Mind.Approvals

open Texts

def SPACE : CodeUnit := 0x20

def STAR : CodeUnit := 0x2a

/-- `pattern.slice(0, -2)` of a pattern that ends with `' *'`. -/
def bare? (pattern : Text) : Option Text := if [SPACE, STAR] <:+ pattern then some (pattern.take (pattern.length - 2)) else none

/-- `.*` under the `s` flag. -/
def anything : Regex CodeUnit := .star true (.unit fun _ => true)

/-- The pattern whose source `escaped(text)` is: `.*` for a star, and each other unit itself. -/
def escaped : Text → Regex CodeUnit
  | [] => .empty
  | c :: rest => .seq (if c = STAR then anything else .only c) (escaped rest)

def patternSource (pattern : Text) : Regex CodeUnit :=
  match bare? pattern with
  | none => escaped pattern
  | some bare => .seq (escaped bare) (.optional (.group (.seq (.only SPACE) anything)))

def whole? (run : Run CodeUnit) : Option Unit := if run.rest = [] then some () else none

/-- `new RegExp('^' + source + '$', 's').test(command)` -/
def patternMatches (pattern command : Text) : Bool := ((patternSource pattern).find whole? command).isSome

/-! ### Prefixes that bind more than a runner -/

def TOOLCHAIN_EXECUTABLES : List Text := ["vitest", "jest", "tsc", "eslint", "prettier", "turbo"].map ascii

def PACKAGE_RUNNERS : List Text := ["pnpm", "npm", "yarn", "bun"].map ascii

def EXEC_SUBCOMMANDS : List Text := ["exec", "x", "dlx"].map ascii

def SCRIPT_SUBCOMMANDS : List Text := ["run", "run-script", "task"].map ascii

def DEVELOPMENT_TASKS : List Text := ["test", "tests", "spec", "unit", "e2e", "integration", "typecheck", "types", "tsc", "lint", "eslint",
  "stylelint", "format", "fmt", "prettier", "build", "compile", "check", "verify", "validate", "coverage", "vitest", "jest"].map ascii

def isTaskSeparator (c : CodeUnit) : Bool := c ∈ ascii ":._/-"

/-- Whether a task name starts `text` and ends there, or before a separator. -/
def startsTask (text : Text) : Bool :=
  DEVELOPMENT_TASKS.any fun task => decide (task <+: text) && ((text.drop task.length).head?.all isTaskSeparator)

/-- The test for a development task name between separators, or the ends. -/
def namesTask (subcommand : Text) : Bool :=
  startsTask subcommand || subcommand.tails.any fun
    | c :: rest => isTaskSeparator c && startsTask rest
    | [] => false

def unquoted (word : Text) : Text := word.filter fun c => c ≠ 0x27 ∧ c ≠ 0x22

/-- `text.split(' ')` -/
def words (text : Text) : List Text := (Regex.only SPACE).split text

def startsWithDash (word : Text) : Bool := decide (ascii "-" <+: word)

def hasBoundedTaintPrefix (pattern : Text) : Bool :=
  let pieces := (bare? pattern).elim [] words
  match pieces.map unquoted with
  | program :: subcommand :: rest =>
    if program ∈ PACKAGE_RUNNERS || program = ascii "deno" then
      if subcommand ∈ EXEC_SUBCOMMANDS then rest.head?.any (· ∈ TOOLCHAIN_EXECUTABLES)
      else if subcommand ∈ SCRIPT_SUBCOMMANDS then rest.head?.any (! startsWithDash ·)
      else namesTask subcommand
    else
      let last := basename (rest.getLast?.getD subcommand)
      last ≠ [] && ! startsWithDash last && last ∉ EXEC_SUBCOMMANDS && last ∉ SCRIPT_SUBCOMMANDS
  | _ => false

/-! ### What a pattern covers -/

/-- The texts that a pattern may stand for: itself, and itself without its trailing `' *'`. -/
def literalPrefixes (pattern : Text) : List Text := pattern :: (bare? pattern).toList

/-- The text itself, or with a space and more behind it. -/
def Extends (literal text : Text) : Prop := text = literal ∨ ∃ more, text = literal ++ SPACE :: more

/-- Whether the pattern has no star but the one at its end. -/
def Starless (pattern : Text) : Prop := STAR ∉ (bare? pattern).getD pattern

instance (pattern : Text) : Decidable (Starless pattern) := inferInstanceAs (Decidable (STAR ∉ (bare? pattern).getD pattern))

section Patterns
variable {pattern text command : Text}

theorem escaped_literal (plain : STAR ∉ text) : escaped text = .literal text := by
  induction text with
  | nil => rfl
  | cons c rest ih =>
    have other : c ≠ STAR := fun same => plain (same ▸ List.mem_cons_self)
    unfold escaped Regex.literal
    rw [if_neg other, ih fun later => plain (List.mem_cons_of_mem c later)]
    rfl

theorem find_anything {β : Type} (next : Run CodeUnit → Option β) (text : Text)
    (possessive : ∀ run, run.rest ≠ [] → next run = none) : anything.find next text = next ⟨text, [], []⟩ := by
  unfold anything
  rw [Regex.find_takeWhile fun run c rest same _ => possessive run (by rw [same]; exact List.cons_ne_nil c rest)]
  rw [List.takeWhile_eq_self_iff.mpr fun _ _ => rfl, List.dropWhile_eq_nil_iff.mpr fun _ _ => rfl]

/-- A pattern with no star inside covers its literal prefix, with a space and anything behind it. -/
theorem patternMatches_bare {bare : Text} (ends : bare? pattern = some bare) (plain : STAR ∉ bare) :
    patternMatches pattern command = true ↔ Extends bare command := by
  unfold patternMatches patternSource
  rw [ends]
  show ((Regex.seq (escaped bare) _).find whole? command).isSome = true ↔ _
  rw [escaped_literal plain, Regex.find_seq, Regex.find_literal]
  by_cases starts : bare <+: command
  · rw [if_pos starts, Regex.optional, Regex.find_alt, Regex.find_group, Regex.find_empty, Regex.find_seq]
    obtain ⟨rest, same⟩ := starts
    subst same
    simp only [List.drop_left]
    cases rest with
    | nil =>
      simp [Regex.only, Regex.find_unit_nil, whole?, Run.followedBy, Run.still, Extends]
    | cons c rest =>
      have last : whole? ((⟨bare, c :: rest, []⟩ : Run CodeUnit).followedBy (.still (c :: rest))) = none := if_neg (List.cons_ne_nil c rest)
      simp only [Function.comp_apply, last, Option.or_none, Regex.only, Regex.find_unit_cons]
      by_cases space : c = SPACE
      · subst space
        have possessive : ∀ run : Run CodeUnit, run.rest ≠ [] → (((whole? ∘ (⟨bare, SPACE :: rest, []⟩ : Run CodeUnit).followedBy) ∘ Run.captured) ∘
            (⟨[SPACE], rest, []⟩ : Run CodeUnit).followedBy) run = none := fun run stops => if_neg stops
        rw [if_pos (decide_eq_true rfl), find_anything _ _ possessive]
        exact iff_of_true rfl (.inr ⟨rest, rfl⟩)
      · rw [if_neg (by simpa using space)]
        refine iff_of_false (by simp) ?_
        rintro (same | ⟨more, same⟩)
        · simp at same
        · rw [List.append_cancel_left_eq, List.cons.injEq] at same
          exact space same.1
  · rw [if_neg starts]
    refine iff_of_false (by simp) ?_
    rintro (same | ⟨more, same⟩)
    · exact starts (same ▸ List.prefix_rfl)
    · exact starts (same ▸ List.prefix_append ..)

theorem patternMatches_exact (ends : bare? pattern = none) (plain : STAR ∉ pattern) :
    patternMatches pattern command = true ↔ command = pattern := by
  unfold patternMatches patternSource
  rw [ends]
  show ((escaped pattern).find whole? command).isSome = true ↔ _
  rw [escaped_literal plain, Regex.find_literal]
  by_cases starts : pattern <+: command
  · rw [if_pos starts]
    obtain ⟨rest, same⟩ := starts
    subst same
    cases rest with
    | nil => simp [whole?]
    | cons c rest => simp [whole?]
  · rw [if_neg starts]
    refine iff_of_false (by simp) ?_
    rintro rfl
    exact starts List.prefix_rfl

theorem patternMatches_starless (plain : Starless pattern) (covers : patternMatches pattern command = true) :
    ∃ literal ∈ literalPrefixes pattern, Extends literal command := by
  unfold Starless at plain
  cases ends : bare? pattern with
  | none =>
    rw [ends] at plain
    exact ⟨pattern, List.mem_cons_self, .inl ((patternMatches_exact ends plain).mp covers)⟩
  | some bare =>
    rw [ends] at plain
    refine ⟨bare, ?_, (patternMatches_bare ends plain).mp covers⟩
    simp [literalPrefixes, ends]

end Patterns

end Bike4Mind.Approvals
