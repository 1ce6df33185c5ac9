import Bike4Mind.Texts.CodeUnits

/-! The linear reader of artifact open tags, and its memo of where a tag closes. -/

namespace Bike4Mind.Artifacts

open Texts

inductive ArtifactTagLeading where
  | one | run
  deriving DecidableEq

structure ArtifactOpenTag where
  attrs : Text
  finish : Nat
  deriving DecidableEq

def OPENER : Text := ascii "<artifact"

/-- `/<artifact/i` -/
def opener : Regex CodeUnit := .sequence (ignoringCase OPENER)

def isSpaceAt (text : Text) (p : Nat) : Bool := text[p]?.any isSpace

/-- `ends p` is 0 when unknown, else the index of the closing `>`, or -1, plus 2. -/
structure ArtifactTagMemo where
  ends : Nat → Nat

def GREATER_THAN : CodeUnit := 0x3e

def DOUBLE_QUOTE : CodeUnit := 0x22

def SINGLE_QUOTE : CodeUnit := 0x27

inductive Step where
  | next (p : Nat)
  | noClose
  | close
  deriving DecidableEq

def step (text : Text) (p : Nat) (inside : p < text.length) : Step :=
  let ch := text[p]
  if ch = GREATER_THAN then .close
  else if ch = DOUBLE_QUOTE ∨ ch = SINGLE_QUOTE then
    match indexOf [ch] text (p + 1) with
    | none => .noClose
    | some quoteEnd => .next (quoteEnd + 1)
  else .next (p + 1)

theorem step_next {text : Text} {p q : Nat} {inside : p < text.length} (stepped : step text p inside = .next q) :
    p < q ∧ q ≤ text.length := by
  unfold step at stepped
  dsimp only at stepped
  split at stepped
  · cases stepped
  · split at stepped
    · split at stepped
      · cases stepped
      · rename_i quoteEnd found
        have bounds := indexOf_bounds (by omega) found
        rw [List.length_singleton] at bounds
        cases stepped
        omega
    · cases stepped
      omega

/-- `findTagClose` without a memo. -/
def findTagClose (text : Text) (p : Nat) : Option Nat :=
  if inside : p < text.length then
    match _stepped : step text p inside with
    | .close => some p
    | .noClose => none
    | .next q => findTagClose text q
  else none
termination_by text.length - p
decreasing_by
  have further := step_next _stepped
  omega

/-- The first loop of `findTagClose` with a memo: up to what the memo knows. -/
def seekClose (text : Text) (ends : Nat → Nat) (p : Nat) : Option Nat :=
  if inside : p < text.length then
    if ends p ≠ 0 then if ends p = 1 then none else some (ends p - 2)
    else
      match _stepped : step text p inside with
      | .close => some p
      | .noClose => none
      | .next q => seekClose text ends q
  else none
termination_by text.length - p
decreasing_by
  have further := step_next _stepped
  omega

/-- `result + 2`, where no close is -1. -/
def encode : Option Nat → Nat
  | none => 1
  | some close => close + 2

/-- The second loop: the answer goes to every position that the walk passed. -/
def noteClose (text : Text) (result : Option Nat) (ends : Nat → Nat) (p : Nat) : Nat → Nat :=
  if inside : p < text.length then
    if ends p = 0 then
      match _stepped : step text p inside with
      | .next q => noteClose text result (Function.update ends p (encode result)) q
      | _ => Function.update ends p (encode result)
    else ends
  else ends
termination_by text.length - p
decreasing_by
  have further := step_next _stepped
  omega

def findTagCloseWith (text : Text) (start : Nat) : Option ArtifactTagMemo → Option Nat × Option ArtifactTagMemo
  | none => (findTagClose text start, none)
  | some memo =>
    let result := seekClose text memo.ends start
    (result, some ⟨noteClose text result memo.ends start⟩)

/-- `while (isSpace(text[start])) start++` -/
def skipSpace (text : Text) (start : Nat) : Nat :=
  if isSpaceAt text start then skipSpace text (start + 1) else start
termination_by text.length - start
decreasing_by
  rename_i space
  have inside : start < text.length := by
    by_contra outside
    unfold isSpaceAt at space
    rw [List.getElem?_eq_none (not_lt.mp outside)] at space
    cases space
  omega

def scanArtifactOpenTag (text : Text) (position : Nat) (leading : ArtifactTagLeading) (memo : Option ArtifactTagMemo) :
    Option ArtifactOpenTag × Option ArtifactTagMemo :=
  if (opener.first (text.drop position)).isNone then (none, memo)
  else if isSpaceAt text (position + OPENER.length) = false then (none, memo)
  else
    let first := position + OPENER.length + 1
    let start := if leading = .run then skipSpace text first else first
    let (close, memo) := findTagCloseWith text start memo
    (close.map fun close => ⟨slice text start close, close + 1⟩, memo)

/-- The empty memo of a text. -/
def freshMemo : ArtifactTagMemo := ⟨fun _ => 0⟩

structure Opener where
  position : Nat
  leading : ArtifactTagLeading
  deriving DecidableEq

/-- Openers of one text, scanned one after another with the memo they share. -/
def scanAll (text : Text) : List Opener → Option ArtifactTagMemo → List (Option ArtifactOpenTag)
  | [], _ => []
  | opener :: rest, memo =>
    (scanArtifactOpenTag text opener.position opener.leading memo).1 ::
      scanAll text rest (scanArtifactOpenTag text opener.position opener.leading memo).2

/-! ### The memo is sound -/

section Memo
variable {text : Text} {ends : Nat → Nat} {p : Nat}

/-- What a memo knows of a position is what a walk from there finds. -/
def Sound (text : Text) (ends : Nat → Nat) : Prop :=
  ∀ p < text.length, ends p ≠ 0 → ends p = encode (findTagClose text p)

theorem findTagClose_eq (inside : p < text.length) : findTagClose text p =
    match step text p inside with
    | .close => some p
    | .noClose => none
    | .next q => findTagClose text q := by
  rw [findTagClose, dif_pos inside]
  split <;> rename_i stepped <;> rw [stepped]

theorem findTagClose_outside (outside : text.length ≤ p) : findTagClose text p = none := by
  rw [findTagClose, dif_neg (not_lt.mpr outside)]

theorem seekClose_unknown (inside : p < text.length) (unknown : ends p = 0) : seekClose text ends p =
    match step text p inside with
    | .close => some p
    | .noClose => none
    | .next q => seekClose text ends q := by
  rw [seekClose, dif_pos inside, if_neg (not_not.mpr unknown)]
  split <;> rename_i stepped <;> rw [stepped]

theorem noteClose_unknown {result : Option Nat} (inside : p < text.length) (unknown : ends p = 0) : noteClose text result ends p =
    match step text p inside with
    | .next q => noteClose text result (Function.update ends p (encode result)) q
    | _ => Function.update ends p (encode result) := by
  rw [noteClose, dif_pos inside, if_pos unknown]
  split
  · rename_i q stepped
    rw [stepped]
  · rename_i other
    cases stepped : step text p inside with
    | next q => exact (other q stepped).elim
    | noClose => rfl
    | close => rfl

theorem encode_decode (result : Option Nat) : (if encode result = 1 then none else some (encode result - 2)) = result := by
  cases result with
  | none => rfl
  | some close => rw [encode, if_neg (by omega), Nat.add_sub_cancel]

theorem seekClose_known (sound : Sound text ends) (inside : p < text.length) (known : ends p ≠ 0) :
    seekClose text ends p = findTagClose text p := by
  rw [seekClose, dif_pos inside, if_pos known, sound p inside known]
  exact encode_decode _

theorem seekClose_eq (sound : Sound text ends) (p : Nat) : seekClose text ends p = findTagClose text p := by
  induction left : text.length - p using Nat.strong_induction_on generalizing p with
  | _ left ih =>
    subst left
    by_cases inside : p < text.length
    · by_cases known : ends p ≠ 0
      · exact seekClose_known sound inside known
      · rw [seekClose_unknown inside (not_not.mp known), findTagClose_eq inside]
        cases stepped : step text p inside with
        | next q =>
          have further := step_next stepped
          exact ih (text.length - q) (by omega) q rfl
        | noClose => rfl
        | close => rfl
    · rw [findTagClose_outside (not_lt.mp inside), seekClose, dif_neg inside]

theorem Sound.update {result : Option Nat} (sound : Sound text ends) (answer : result = findTagClose text p) :
    Sound text (Function.update ends p (encode result)) := by
  intro q inside known
  by_cases same : q = p
  · subst same
    rw [Function.update_self, answer]
  · rw [Function.update_of_ne same] at known ⊢
    exact sound q inside known

theorem noteClose_sound {result : Option Nat} (sound : Sound text ends) (answer : result = findTagClose text p) :
    Sound text (noteClose text result ends p) := by
  induction left : text.length - p using Nat.strong_induction_on generalizing p ends with
  | _ left ih =>
    subst left
    by_cases inside : p < text.length
    · by_cases unknown : ends p = 0
      · rw [noteClose_unknown inside unknown]
        rw [findTagClose_eq inside] at answer
        cases stepped : step text p inside with
        | next q =>
          have further := step_next stepped
          rw [stepped] at answer
          refine ih (text.length - q) (by omega) (sound.update ?_) answer rfl
          rw [findTagClose_eq inside, stepped]
          exact answer
        | noClose =>
          refine sound.update ?_
          rw [answer, findTagClose_eq inside]
        | close =>
          refine sound.update ?_
          rw [answer, findTagClose_eq inside]
      · rw [noteClose, dif_pos inside, if_neg unknown]
        exact sound
    · rw [noteClose, dif_neg inside]
      exact sound

/-- A memo that is absent, or sound for the text. -/
def SoundMemo (text : Text) (memo : Option ArtifactTagMemo) : Prop := ∀ known, memo = some known → Sound text known.ends

theorem freshMemo_sound : SoundMemo text (some freshMemo) := by
  intro known same
  cases same
  exact fun p _ some => (some rfl).elim

theorem findTagCloseWith_spec {memo : Option ArtifactTagMemo} (sound : SoundMemo text memo) (start : Nat) :
    (findTagCloseWith text start memo).1 = findTagClose text start ∧ SoundMemo text (findTagCloseWith text start memo).2 := by
  cases memo with
  | none => exact ⟨rfl, nofun⟩
  | some memo =>
    have known := sound memo rfl
    have answer := seekClose_eq known start
    refine ⟨answer, fun noted same => ?_⟩
    cases same
    exact noteClose_sound known answer

/-- A scan with a sound memo answers as one without, and leaves the memo sound. -/
theorem scan_spec {memo : Option ArtifactTagMemo} (sound : SoundMemo text memo) (position : Nat) (leading : ArtifactTagLeading) :
    (scanArtifactOpenTag text position leading memo).1 = (scanArtifactOpenTag text position leading none).1 ∧
      SoundMemo text (scanArtifactOpenTag text position leading memo).2 := by
  unfold scanArtifactOpenTag
  by_cases opens : (opener.first (text.drop position)).isNone = true
  · rw [if_pos opens, if_pos opens]
    exact ⟨rfl, sound⟩
  · rw [if_neg opens, if_neg opens]
    by_cases named : isSpaceAt text (position + OPENER.length) = false
    · rw [if_pos named, if_pos named]
      exact ⟨rfl, sound⟩
    · rw [if_neg named, if_neg named]
      dsimp only
      obtain ⟨same, kept⟩ := findTagCloseWith_spec sound
        (if leading = .run then skipSpace text (position + OPENER.length + 1) else position + OPENER.length + 1)
      rw [same]
      exact ⟨rfl, kept⟩

theorem scanAll_eq {memo : Option ArtifactTagMemo} (sound : SoundMemo text memo) (openers : List Opener) :
    scanAll text openers memo = openers.map fun opener => (scanArtifactOpenTag text opener.position opener.leading none).1 := by
  induction openers generalizing memo with
  | nil => rfl
  | cons opener rest ih =>
    obtain ⟨same, kept⟩ := scan_spec sound opener.position opener.leading
    unfold scanAll
    rw [ih kept, same]
    rfl

end Memo

end Bike4Mind.Artifacts
